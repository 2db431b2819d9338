import Portail.Config.LimiterCalls
import Portail.Dataplane.Publication
import Portail.RateLimit

/-!
# Limiters and the builds that set them

A build sets the limiters of its config's listeners one by one, in the registry that the
live table's limiters are in, before it is known whether its table is installed. An apply
or reload that fails, and a refresh whose table is dropped, leave theirs behind.
-/

namespace Portail.Dataplane.Limits

open Lib Http Routing Config RateLimit List

section

abbrev Registry := UInt16 × Str → Option Limiter

def called (registry : Registry) (call : LimiterCall) : Registry :=
  limiterFor registry call.key call.rps call.burst

/-- The limiter asked for has the limits of the call. -/
def HasLimits (registry : Registry) (call : LimiterCall) : Prop :=
  ∃ limiter, registry call.key = some limiter ∧ limiter.rate = call.rps ∧
    limiter.burstMt = (Limiter.new call.rps call.burst).burstMt

variable (R : Type)

/-- A build on its way: the calls it made, the last first, those it has still to make, and the
table it ends with; none where it fails. -/
structure Build where
  config : PortailConfig
  done : List LimiterCall
  left : List LimiterCall
  result : Option (RouteTable R)

structure State where
  base : World PortailConfig (RouteTable R)
  registry : Registry
  /-- The build of an apply or a reload, and that of a refresh. -/
  apply : Option (Build R)
  refresh : Option (Build R)

variable {R}

def Build.made (b : Build R) (call : LimiterCall) (left : List LimiterCall) : Build R :=
  { b with done := call :: b.done, left := left }

/-- What a step shows: the call of a refresh, with the config live and what the running apply
already set; and the calls of an apply that fails. -/
inductive Event
  | refreshCall (call : LimiterCall) (live : Option PortailConfig) (done : List LimiterCall)
  | applyFails (done : List LimiterCall) (live : Option PortailConfig)
  | other

variable [RegexEngine R]

def Build.start (R : Type) [RegexEngine R] (config : PortailConfig) (policy : BuildPolicy)
    (lookup : Lookup) (hashOne : SocketAddr → UInt64) : Build R where
  config := config
  done := []
  left := limiterCalls R config (resolverOf config policy lookup hashOne) 0 config.httpRoutes
  result := (buildRouteTable config policy lookup hashOne).toOption

variable (signature : RouteTable R → UInt64) in
/-- The steps of the two builders, and those of the cells' writers that build nothing. -/
inductive Step (s : State R) : Event → State R → Prop
  | begin (config : PortailConfig) (policy : BuildPolicy) (lookup : Lookup) (hashOne :
      SocketAddr → UInt64) : s.apply = none → s.base.applier = .idle →
      Step s .other { s with apply := some (.start R config policy lookup hashOne) }
  | applyCall {b call left} : s.apply = some b → b.left = call :: left →
      Step s .other { s with registry := called s.registry call, apply := some (b.made call left) }
  | store {b table} : s.apply = some b → b.left = [] → b.result = some table →
      Step s .other
        { s with
          base := { s.base with
            cells := { (s.base.cells.alloc table).2 with routes := (s.base.cells.alloc table).1 }
            applier := .stored b.config (s.base.cells.alloc table).1
            applied := some b.config }
          apply := none }
  | applyFails {b} : s.apply = some b → b.left = [] → b.result = none →
      Step s (.applyFails b.done s.base.applied) { s with apply := none }
  | rebuild {pair} (lookup : Lookup) (hashOne : SocketAddr → UInt64) :
      s.refresh = none → s.base.tick = .read pair →
      Step s .other { s with refresh := some (.start R pair.val.config .lenient lookup hashOne) }
  | refreshCall {b call left} : s.refresh = some b → b.left = call :: left →
      Step s (.refreshCall call s.base.applied (s.apply.elim [] Build.done))
        { s with registry := called s.registry call, refresh := some (b.made call left) }
  | rebuilt {b pair table} :
      s.refresh = some b → b.left = [] → b.result = some table → s.base.tick = .read pair →
      Step s .other { s with base := { s.base with tick := .built pair table }, refresh := none }
  | rebuildFails {b} : s.refresh = some b → b.left = [] → b.result = none →
      Step s .other { s with base := { s.base with tick := .idle }, refresh := none }
  | cells {base} : Dataplane.Step (fun _ _ => False) (RouteTable.new R) signature s.base base →
      (s.apply ≠ none → base.applier = s.base.applier) →
      (s.refresh ≠ none → base.tick = s.base.tick) →
      Step s .other { s with base := base }

def Fresh (s : State R) : Prop :=
  Dataplane.Fresh (RouteTable.new R) s.base ∧ s.apply = none ∧ s.refresh = none

/-- The limiter of every rate-limited listener with a route has the limits of the config whose
table is live. -/
def InForce (s : State R) : Prop :=
  ∀ config, s.base.applied = some config → ∀ l rl, HasRoute R config l → l.rateLimit = some rl →
    HasLimits s.registry (l.limiterCall rl)

variable (R)

/-- The config has no other limits for the listener of the call, if it has a route. -/
def Agrees (call : LimiterCall) (config : PortailConfig) : Prop :=
  ∀ l rl, HasRoute R config l → l.rateLimit = some rl → (l.limiterCall rl).key = call.key →
    l.limiterCall rl = call

/-- A refresh calls with the limits of the live config, and with those the running apply set; an
apply that fails has called with those of the live config. -/
def Event.Sound : Event → Prop
  | .refreshCall call live done =>
    (∀ config ∈ live, Agrees R call config) ∧ ∀ c ∈ done, c.key = call.key → c = call
  | .applyFails done live => ∀ config ∈ live, ∀ call ∈ done, Agrees R call config
  | .other => True

end

section

variable {registry : Registry} {call call' : LimiterCall}

theorem hasLimits_called (registry : Registry) (call : LimiterCall) :
    HasLimits (called registry call) call :=
  ⟨_, Function.update_self .., rfl, rfl⟩

/-- A call keeps the limits set before, unless it is for the same listener with others. -/
theorem HasLimits.called (h : HasLimits registry call')
    (hsame : call'.key = call.key → call' = call) :
    HasLimits (called registry call) call' := by
  by_cases hkey : call'.key = call.key
  · rw [hsame hkey]
    exact hasLimits_called registry call
  · obtain ⟨limiter, hlimiter, hlimits⟩ := h
    exact ⟨limiter, (Function.update_of_ne hkey ..).trans hlimiter, hlimits⟩

end

section

variable {R : Type} [RegexEngine R] {signature : RouteTable R → UInt64} {s s' : State R}

/-- The table is built from the config, under some policy and for some answers of the resolver. -/
def AnyBuild (config : PortailConfig) (t : RouteTable R) : Prop :=
  ∃ policy lookup hashOne, buildRouteTable config policy lookup hashOne = .ok t

/-- The build is one of its config, some way on. -/
def Build.Real (b : Build R) : Prop :=
  ∃ policy lookup hashOne, let start := Build.start R b.config policy lookup hashOne
    b.done.reverse ++ b.left = start.left ∧ b.result = start.result

theorem Build.real_start (config : PortailConfig) (policy : BuildPolicy) (lookup : Lookup)
    (hashOne : SocketAddr → UInt64) : (Build.start R config policy lookup hashOne).Real :=
  ⟨policy, lookup, hashOne, rfl, rfl⟩

variable {b : Build R}

theorem Build.Real.made {call : LimiterCall} {left : List LimiterCall} (h : b.Real)
    (hleft : b.left = call :: left) : (b.made call left).Real := by
  obtain ⟨policy, lookup, hashOne, hcalls, hresult⟩ := h
  refine ⟨policy, lookup, hashOne, ?_, hresult⟩
  refine Eq.trans ?_ hcalls
  rw [hleft]
  simp [Build.made]

theorem Build.Real.unique (h : b.Real) {call call' : LimiterCall}
    (hcall : call ∈ b.done ∨ call ∈ b.left) (hcall' : call' ∈ b.done ∨ call' ∈ b.left)
    (hkey : call.key = call'.key) : call = call' := by
  obtain ⟨policy, lookup, hashOne, hcalls, -⟩ := h
  have hmem {c : LimiterCall} (hc : c ∈ b.done ∨ c ∈ b.left) :
      c ∈ (Build.start R b.config policy lookup hashOne).left := by
    rw [← hcalls]
    simpa using hc
  exact limiterCalls_unique (hmem hcall) (hmem hcall') hkey

theorem Build.Real.built {table : RouteTable R} (h : b.Real) (hresult : b.result = some table) :
    ∃ policy lookup hashOne,
      b.done.reverse ++ b.left = (Build.start R b.config policy lookup hashOne).left ∧
      buildRouteTable b.config policy lookup hashOne = .ok table := by
  obtain ⟨policy, lookup, hashOne, hcalls, hstart⟩ := h
  refine ⟨policy, lookup, hashOne, hcalls, ?_⟩
  rw [hresult] at hstart
  simp only [Build.start] at hstart
  cases hbuild : (buildRouteTable b.config policy lookup hashOne : Result (RouteTable R)) with
  | error e =>
    rw [hbuild] at hstart
    cases hstart
  | ok t =>
    rw [hbuild] at hstart
    rw [Option.some.inj hstart]

theorem Build.Real.table {table : RouteTable R} (h : b.Real) (hresult : b.result = some table) :
    AnyBuild b.config table := by
  obtain ⟨policy, lookup, hashOne, -, hbuild⟩ := h.built hresult
  exact ⟨policy, lookup, hashOne, hbuild⟩

theorem Build.Real.called {table : RouteTable R} (h : b.Real) (hleft : b.left = [])
    (hresult : b.result = some table) {l : ListenerConfig} {rl : RateLimitSpec}
    (hl : HasRoute R b.config l) (hrl : l.rateLimit = some rl) : l.limiterCall rl ∈ b.done := by
  obtain ⟨policy, lookup, hashOne, hcalls, hbuild⟩ := h.built hresult
  simp only [buildRouteTable, bind_eq_ok] at hbuild
  obtain ⟨insertions, hinsertions, -⟩ := hbuild
  have hcall := hl.called hrl hinsertions
  rw [hleft, append_nil] at hcalls
  exact mem_reverse.mp (hcalls ▸ hcall)

structure Inv (s : State R) : Prop where
  base : Dataplane.Inv AnyBuild (RouteTable.new R) s.base
  apply : ∀ b, s.apply = some b →
    b.Real ∧ s.base.applier = .idle ∧ ∀ call ∈ b.done, HasLimits s.registry call
  refresh : ∀ b, s.refresh = some b →
    b.Real ∧ ∃ pair, s.base.tick = .read pair ∧ pair.val.config = b.config
  live : ∀ config, s.base.applied = some config → ∀ l rl, HasRoute R config l →
    l.rateLimit = some rl →
    (∀ b, s.apply = some b → ∀ call ∈ b.done, call.key ≠ (l.limiterCall rl).key) →
    HasLimits s.registry (l.limiterCall rl)

theorem inv_fresh (h : Fresh s) : Inv s := by
  obtain ⟨hbase, happly, hrefresh⟩ := h
  have hnone : s.base.applied = none := hbase.2.2.2.2.2
  refine ⟨Dataplane.inv_fresh hbase, ?_, ?_, ?_⟩
  · intro b hb
    rw [happly] at hb
    cases hb
  · intro b hb
    rw [hrefresh] at hb
    cases hb
  · intro config hconfig
    rw [hnone] at hconfig
    cases hconfig

theorem inv_step {e : Event} (h : Inv s) (hsound : e.Sound R) (hstep : Step signature s e s') :
    Inv s' := by
  cases hstep with
  | begin config policy lookup hashOne happly hidle =>
    refine ⟨h.base, ?_, h.refresh, ?_⟩
    · intro b hb
      cases hb
      exact ⟨Build.real_start .., hidle, nofun⟩
    · intro config hconfig l rl hl hrl _
      refine h.live config hconfig l rl hl hrl fun b hb => ?_
      rw [happly] at hb
      cases hb
  | @applyCall b call left happly hleft =>
    obtain ⟨hreal, hidle, hdone⟩ := h.apply b happly
    have hmine : call ∈ b.left := by
      rw [hleft]
      exact mem_cons_self
    refine ⟨h.base, ?_, h.refresh, ?_⟩
    · intro b' hb
      cases hb
      refine ⟨hreal.made hleft, hidle, fun c hc => ?_⟩
      rcases mem_cons.mp hc with rfl | hc
      · exact hasLimits_called ..
      · exact (hdone c hc).called (hreal.unique (.inl hc) (.inr hmine))
    · intro config hconfig l rl hl hrl hnot
      have hkeys := hnot _ rfl
      refine (h.live config hconfig l rl hl hrl ?_).called fun hkey => ?_
      · intro b' hb c hc
        obtain rfl := Option.some.inj (happly.symm.trans hb)
        exact hkeys c (mem_cons_of_mem _ hc)
      · exact absurd hkey.symm (hkeys call mem_cons_self)
  | @store b table happly hleft hresult =>
    obtain ⟨hreal, hidle, hdone⟩ := h.apply b happly
    have hstored : Dataplane.Step AnyBuild (RouteTable.new R) signature s.base _ :=
      .store hidle (hreal.table hresult)
    refine ⟨Dataplane.inv_step h.base hstored, nofun, h.refresh, ?_⟩
    intro config hconfig l rl hl hrl _
    cases hconfig
    exact hdone _ (hreal.called hleft hresult hl hrl)
  | @applyFails b happly hleft hresult =>
    refine ⟨h.base, nofun, h.refresh, ?_⟩
    intro config hconfig l rl hl hrl _
    by_cases hcalled : ∃ call ∈ b.done, call.key = (l.limiterCall rl).key
    · obtain ⟨call, hcall, hkey⟩ := hcalled
      rw [hsound config hconfig call hcall l rl hl hrl hkey.symm]
      exact (h.apply b happly).2.2 call hcall
    · refine h.live config hconfig l rl hl hrl ?_
      intro b' hb call hcall hkey
      obtain rfl := Option.some.inj (happly.symm.trans hb)
      exact hcalled ⟨call, hcall, hkey⟩
  | rebuild lookup hashOne hrefresh htick =>
    refine ⟨h.base, h.apply, ?_, h.live⟩
    intro b hb
    cases hb
    exact ⟨Build.real_start .., _, htick, rfl⟩
  | @refreshCall b call left hrefresh hleft =>
    obtain ⟨hlive, hdone⟩ := hsound
    obtain ⟨hreal, hpair⟩ := h.refresh b hrefresh
    refine ⟨h.base, ?_, ?_, ?_⟩
    · intro b' hb
      obtain ⟨hreal', hidle, hset⟩ := h.apply b' hb
      refine ⟨hreal', hidle, fun c hc => (hset c hc).called (hdone c ?_)⟩
      rw [show s.apply = some b' from hb]
      exact hc
    · intro b' hb
      cases hb
      exact ⟨hreal.made hleft, hpair⟩
    · intro config hconfig l rl hl hrl hnot
      exact (h.live config hconfig l rl hl hrl hnot).called (hlive config hconfig l rl hl hrl)
  | @rebuilt b pair table hrefresh hleft hresult htick =>
    obtain ⟨hreal, pair', htick', hconfig⟩ := h.refresh b hrefresh
    obtain rfl := TickStep.read.inj (htick.symm.trans htick')
    have hbuilt : Dataplane.Step AnyBuild (RouteTable.new R) signature s.base _ :=
      .rebuild htick (hconfig ▸ hreal.table hresult)
    exact ⟨Dataplane.inv_step h.base hbuilt, h.apply, nofun, h.live⟩
  | @rebuildFails b hrefresh hleft hresult =>
    obtain ⟨-, pair, htick, -⟩ := h.refresh b hrefresh
    have hfailed : Dataplane.Step AnyBuild (RouteTable.new R) signature s.base _ :=
      .rebuildFailed htick
    exact ⟨Dataplane.inv_step h.base hfailed, h.apply, nofun, h.live⟩
  | @cells base hbase happlier htick =>
    refine ⟨Dataplane.inv_step h.base (hbase.mono nofun), ?_, ?_, ?_⟩
    · intro b hb
      obtain ⟨hreal, hidle, hdone⟩ := h.apply b hb
      exact ⟨hreal, (happlier (by rw [hb]; nofun)).trans hidle, hdone⟩
    · intro b hb
      obtain ⟨hreal, pair, hread, hconfig⟩ := h.refresh b hb
      exact ⟨hreal, pair, (htick (by rw [hb]; nofun)).trans hread, hconfig⟩
    · intro config hconfig
      rcases hbase.applied_of_no_build with hsame | hnone
      · exact h.live config (hsame ▸ hconfig)
      · cases hnone.symm.trans hconfig

/-- Where no refresh and no apply that fails sets other limits, those of the live config are in
force whenever no apply is on its way. -/
theorem limits_in_force {s₀ : State R} {events : List Event}
    (h : Trace (Step signature) s₀ events s) (hfresh : Fresh s₀)
    (hsound : ∀ e ∈ events, e.Sound R) (hdone : s.apply = none) :
    Live AnyBuild (RouteTable.new R) s.base ∧ InForce s := by
  have hkept (s : State R) (e : Event) (s' : State R) (hs : Inv s) (he : e.Sound R)
      (hstep : Step signature s e s') : Inv s' ∧ True := ⟨inv_step hs he hstep, trivial⟩
  obtain ⟨hinv, -⟩ := h.invariant hkept (inv_fresh hfresh) hsound
  refine ⟨hinv.base.live, ?_⟩
  intro config hconfig l rl hl hrl
  refine hinv.live config hconfig l rl hl hrl fun b hb => ?_
  rw [hdone] at hb
  cases hb

end

def limitedListener (rps : UInt32) : ListenerConfig :=
  { webListener with rateLimit := some ⟨rps, none⟩ }

/-- A route of the limited listener, and a TCP route to the Services. -/
def limitedConfig (rps : UInt32) (services : List Str) : PortailConfig :=
  { plainConfig with
    gateway := ⟨Str.lit "portail-gateway",
      [limitedListener rps, ⟨Str.lit "blue", .tcp, 7000, none, none, none, none, none, none⟩], []⟩
    httpRoutes := [webRoute]
    tcpRoutes := [⟨[⟨Str.lit "portail-gateway", some (Str.lit "blue"), none⟩],
      [⟨services.map fun name => serviceRef name 1⟩]⟩] }

theorem limited_hasRoute (rps : UInt32) (services : List Str) :
    HasRoute Empty (limitedConfig rps services) (limitedListener rps) :=
  ⟨webRoute, mem_singleton_self _, ⟨_, rfl, cons_ne_nil _ _⟩,
    mem_singleton_self _, rfl, cons_ne_nil _ _⟩

/-- A resolver that knows no name. -/
def unknownLookup : Lookup := fun _ _ => .error (Str.lit "not found")

def reload (rps : UInt32) (services : List Str) : Build Empty :=
  .start Empty (limitedConfig rps services) .strict unknownLookup fun _ => 0

def limitedCall (rps : UInt32) : LimiterCall := (limitedListener rps).limiterCall ⟨rps, none⟩

theorem reload_left (rps : UInt32) (services : List Str) :
    (reload rps services).left = [limitedCall rps] := rfl

def limitedTable : RouteTable Empty :=
  (httpTable (limitedConfig 10 []).gateway [⟨80, none, bytes "*", anyTableRule 0⟩]).addTcpRoute
    7000 []

theorem reload_installed : (reload 10 []).result = some limitedTable := rfl

theorem reload_failed (rps : UInt32) : (reload rps [Str.lit "gone"]).result = none := rfl

def beforeReload : State Empty := ⟨freshWorld, fun _ => none, none, none⟩

theorem beforeReload_fresh : Fresh beforeReload := ⟨⟨rfl, by decide, rfl, rfl, rfl, rfl⟩, rfl, rfl⟩

/-- After the first reload: its table is live and published. -/
def afterReload : State Empty where
  base := ⟨⟨⟨1, limitedTable⟩, some ⟨2, limitedConfig 10 [], 1, limitedTable⟩, 3⟩, .idle, .idle,
    some (limitedConfig 10 [])⟩
  registry := called (fun _ => none) (limitedCall 10)
  apply := none
  refresh := none

theorem reload_runs (signature : RouteTable Empty → UInt64) :
    Trace (Step signature) beforeReload [.other, .other, .other, .other] afterReload :=
  .cons (.begin (limitedConfig 10 []) .strict unknownLookup (fun _ => 0) rfl rfl)
    (.cons (.applyCall rfl (reload_left 10 []))
      (.cons (.store rfl rfl reload_installed) (.cons (.cells (.publish rfl) nofun nofun) .nil)))

/-- A refresh calls with the limits of the live config, and finds the table unchanged. -/
theorem refresh_runs (signature : RouteTable Empty → UInt64) :
    Trace (Step signature) afterReload
      [.other, .other, .refreshCall (limitedCall 10) (some (limitedConfig 10 [])) [],
        .other, .other]
      { afterReload with registry := called afterReload.registry (limitedCall 10) } :=
  .cons (.cells (.read rfl rfl) nofun nofun)
    (.cons (.rebuild unknownLookup (fun _ => 0) rfl rfl)
      (.cons (.refreshCall rfl (reload_left 10 []))
        (.cons (.rebuilt rfl rfl reload_installed rfl)
          (.cons (.cells (.unchanged rfl rfl) nofun nofun) .nil))))

/-- A reload that fails leaves its limit on the listener. -/
theorem failed_reload_runs (signature : RouteTable Empty → UInt64) {s : State Empty}
    (happly : s.apply = none) (hidle : s.base.applier = .idle) (rps : UInt32) :
    Trace (Step signature) s [.other, .other, .applyFails [limitedCall rps] s.base.applied]
      { s with registry := called s.registry (limitedCall rps) } := by
  obtain ⟨base, registry, apply, refresh⟩ := s
  cases happly
  exact .cons (.begin (limitedConfig rps [Str.lit "gone"]) .strict unknownLookup (fun _ => 0) rfl
      hidle)
    (.cons (.applyCall rfl (reload_left rps [Str.lit "gone"]))
      (.cons (.applyFails (b := (reload rps [Str.lit "gone"]).made (limitedCall rps) []) rfl rfl
        (reload_failed rps)) .nil))

theorem limitedCall_agrees : Agrees Empty (limitedCall 10) (limitedConfig 10 []) := by
  rintro l rl ⟨route, hroute, -, hl, -⟩ hrl -
  obtain rfl := mem_singleton.mp hroute
  obtain rfl : l = limitedListener 10 := mem_singleton.mp hl
  cases hrl
  rfl

/-- After a reload, a refresh and a reload that fails, all with one limit. -/
theorem limits_in_force_refreshed :
    ∃ events s, Trace (Step (RouteTable.dnsSignature lastOctet)) beforeReload events s ∧
      (∀ e ∈ events, e.Sound Empty) ∧
      .refreshCall (limitedCall 10) (some (limitedConfig 10 [])) [] ∈ events ∧
      .applyFails [limitedCall 10] (some (limitedConfig 10 [])) ∈ events ∧
      Live AnyBuild (RouteTable.new Empty) s.base ∧ InForce s := by
  have hruns := ((reload_runs (RouteTable.dnsSignature lastOctet)).append (refresh_runs _)).append
    (failed_reload_runs _ rfl rfl 10)
  refine ⟨_, _, hruns, ?_, by simp, by simp [afterReload],
    limits_in_force hruns beforeReload_fresh ?_ rfl⟩
  all_goals simp [Event.Sound, limitedCall_agrees, afterReload]

/-- After a second reload that fails: its limit is left on the listener of the live table. -/
def afterFailure : State Empty :=
  { afterReload with registry := called afterReload.registry (limitedCall 1) }

theorem failed_reload_limits : Fresh beforeReload ∧
    (∃ events, Trace (Step (RouteTable.dnsSignature lastOctet)) beforeReload events afterFailure) ∧
    afterFailure.apply = none ∧ afterFailure.refresh = none ∧
    afterFailure.base.applied = some (limitedConfig 10 []) ∧
    (afterFailure.registry (80, Str.lit "web")).map Limiter.rate = some 1 ∧
    ¬InForce afterFailure := by
  refine ⟨beforeReload_fresh, ⟨_, (reload_runs _).append (failed_reload_runs _ rfl rfl 1)⟩, rfl,
    rfl, rfl, rfl, fun hforce => ?_⟩
  obtain ⟨limiter, hlimiter, hrate, -⟩ :=
    hforce (limitedConfig 10 []) rfl (limitedListener 10) ⟨10, none⟩ (limited_hasRoute 10 []) rfl
  have hone : (afterFailure.registry (80, Str.lit "web")).map Limiter.rate = some 1 := rfl
  rw [show afterFailure.registry (80, Str.lit "web") = some limiter from hlimiter] at hone
  rw [Option.map_some, hrate] at hone
  exact absurd hone (by decide)

end Portail.Dataplane.Limits
