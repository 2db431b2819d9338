import Portail.Kubernetes.CollectLaws
import Portail.Lib.Runs

/-!
# The verdicts kept between passes

A Gateway's verdicts are taken out at the start of a pass and those of the pass are put back
at its end, while others run and Gateways are forgotten. A kept verdict is what the check
says of the route it was taken of, so a pass gives what it would without any
(`verdicts_transparent`).
-/

namespace Portail.Kubernetes

open Lib Routing Config List

/-- A pass's arguments, apart from the verdicts. -/
structure PassInput where
  gateway : Gateway
  snapshot : ClusterSnapshot
  certData : CertData
  services : ServiceState

def PassInput.gatewayKey (p : PassInput) : Str × Str :=
  (p.gateway.metadata.ns.getD (Str.lit "default"), p.gateway.metadata.name.getD (Str.lit "default"))

def PassInput.reconcile (E : Type) [RegexEngine E] (p : PassInput) (verdicts : Verdicts) :
    ReconcileResult :=
  reconcileToConfig E p.gateway p.snapshot p.certData p.services verdicts

abbrev RouteVerdicts := Str × Str → Option Verdicts

namespace RouteVerdicts

def take (verdicts : RouteVerdicts) (gateway : Str × Str) : Verdicts × RouteVerdicts :=
  ((verdicts gateway).getD fun _ => none, Function.update verdicts gateway none)

def put (verdicts : RouteVerdicts) (gateway : Str × Str) (v : Verdicts) : RouteVerdicts :=
  Function.update verdicts gateway (some v)

def retain (verdicts : RouteVerdicts) (live : Str × Str → Bool) : RouteVerdicts :=
  fun gateway => if live gateway then verdicts gateway else none

end RouteVerdicts

/-- The verdicts, the passes under way with what they took, and what passes gave. -/
structure PassWorld where
  verdicts : RouteVerdicts
  running : List (PassInput × Verdicts)
  finished : List (PassInput × ReconcileResult)

/-- A route's kind, namespace and spec; of its metadata only the namespace is kept. -/
inductive RouteSpec
  | http (route : HTTPRoute)
  | tcp (route : TCPRoute)
  | tls (route : TLSRoute)
  | udp (route : UDPRoute)

def ObjectMeta.scope (m : ObjectMeta) : ObjectMeta := ⟨none, m.ns, none, none, none⟩

/-- The routes of one kind are as their uid and generation say. -/
def SpecsOf {R C : Type} (K : GatewayRoute R C) (spec : R → RouteSpec)
    (specOf : Str → ℤ → RouteSpec) (routes : List R) : Prop :=
  ∀ route ∈ routes, ∀ uid ∈ (K.metadata route).uid, ∀ generation ∈ (K.metadata route).generation,
    specOf uid generation = spec route

structure ClusterSnapshot.Follows (E : Type) [RegexEngine E] (specOf : Str → ℤ → RouteSpec)
    (s : ClusterSnapshot) : Prop where
  http : SpecsOf (httpKind E) (fun r => .http { r with metadata := r.metadata.scope }) specOf
    s.httpRoutes
  tcp : SpecsOf tcpKind (fun r => .tcp { r with metadata := r.metadata.scope }) specOf s.tcpRoutes
  tls : SpecsOf tlsKind (fun r => .tls { r with metadata := r.metadata.scope }) specOf s.tlsRoutes
  udp : SpecsOf udpKind (fun r => .udp { r with metadata := r.metadata.scope }) specOf s.udpRoutes

/-- Passes start and end and Gateways are forgotten, in any order. -/
inductive PassStep (E : Type) [RegexEngine E] (specOf : Str → ℤ → RouteSpec) :
    PassWorld → PassWorld → Prop
  | start (w : PassWorld) (p : PassInput) : p.snapshot.Follows E specOf →
      PassStep E specOf w { w with
        verdicts := (w.verdicts.take p.gatewayKey).2
        running := (p, (w.verdicts.take p.gatewayKey).1) :: w.running }
  | finish (w : PassWorld) (before after : List (PassInput × Verdicts)) (p : PassInput) (last :
      Verdicts) : w.running = before ++ (p, last) :: after →
      PassStep E specOf w
        { verdicts := w.verdicts.put p.gatewayKey (p.reconcile E last).verdicts
          running := before ++ after
          finished := (p, p.reconcile E last) :: w.finished }
  | retain (w : PassWorld) (live : Str × Str → Bool) :
      PassStep E specOf w { w with verdicts := w.verdicts.retain live }

def PassWorld.Fresh (w : PassWorld) : Prop := w = ⟨fun _ => none, [], []⟩

/-- The pass gave the config and the statuses it would without any verdict. -/
def PassInput.Gave (E : Type) [RegexEngine E] (p : PassInput) (result : ReconcileResult) : Prop :=
  result.config = (p.reconcile E fun _ => none).config ∧
    result.routeStatus = (p.reconcile E fun _ => none).routeStatus

section

/-- The check of a route that has this spec. -/
def RouteSpec.check (E : Type) [RegexEngine E] : RouteSpec → Verdict
  | http route => (httpKind E).check ((httpKind E).convert route).1
  | _ => .ok ()

variable (E : Type) [RegexEngine E] (specOf : Str → ℤ → RouteSpec)

/-- The verdicts are those of the routes they were taken of. -/
def Verdicts.Sound (v : Verdicts) : Prop :=
  ∀ uid generation verdict, v uid = some (generation, verdict) →
    verdict = (specOf uid generation).check E

structure Checks.Sound (checks : Checks) : Prop where
  last : checks.last.Sound E specOf
  now : checks.now.Sound E specOf

variable {R C : Type} (K : GatewayRoute R C)

/-- The check of a route is that of its spec. -/
def ChecksAs (route : R) : Prop :=
  ∀ uid ∈ (K.metadata route).uid, ∀ generation ∈ (K.metadata route).generation,
    K.check (K.convert route).1 = (specOf uid generation).check E

variable {E specOf K} (cx : RouteCollectCtx) {route : R} {routes : List R} {checks checks' : Checks}

theorem Verdicts.sound_none : Verdicts.Sound E specOf fun _ => none := by
  intro uid generation verdict h
  cases h

theorem Verdicts.Sound.update {v : Verdicts} (h : v.Sound E specOf) {uid : Str}
    {entry : Option (ℤ × Verdict)}
    (hentry : ∀ generation verdict, entry = some (generation, verdict) →
      verdict = (specOf uid generation).check E) :
    Verdicts.Sound E specOf (Function.update v uid entry) := by
  intro other generation verdict hother
  by_cases heq : other = uid
  · subst heq
    rw [Function.update_self] at hother
    exact hentry generation verdict hother
  · rw [Function.update_of_ne heq] at hother
    exact h other generation verdict hother

theorem SpecsOf.checksAs {spec : R → RouteSpec} (h : SpecsOf K spec specOf routes)
    (hcheck : ∀ route, K.check (K.convert route).1 = (spec route).check E) :
    ∀ route ∈ routes, ChecksAs E specOf K route := by
  intro route hroute uid huid generation hgeneration
  rw [hcheck, h route hroute uid huid generation hgeneration]

/-- A kept verdict is what the check would say. -/
theorem Checks.Sound.verdict (h : checks.Sound E specOf) (hroute : ChecksAs E specOf K route) :
    (checks.verdict K route (K.convert route).1).1 = K.check (K.convert route).1 ∧
      (checks.verdict K route (K.convert route).1).2.Sound E specOf := by
  cases huid : (K.metadata route).uid with
  | none => simpa only [Checks.verdict, huid] using ⟨trivial, h⟩
  | some uid =>
    cases hgeneration : (K.metadata route).generation with
    | none => simpa only [Checks.verdict, huid, hgeneration] using ⟨trivial, h⟩
    | some generation =>
      have hspec := hroute uid huid generation hgeneration
      have hverdict : (checks.verdict K route (K.convert route).1).1 =
          K.check (K.convert route).1 := by
        simp only [Checks.verdict, huid, hgeneration]
        cases hlast : checks.last uid with
        | none => rfl
        | some entry =>
          simp only
          split_ifs with hsame
          · rw [hspec, ← hsame]
            exact h.last uid _ _ hlast
          · rfl
      have hchecks : (checks.verdict K route (K.convert route).1).2 =
          ⟨Function.update checks.last uid none, Function.update checks.now uid
            (some (generation, (checks.verdict K route (K.convert route).1).1))⟩ := by
        simp only [Checks.verdict, huid, hgeneration]
      rw [hchecks, hverdict, hspec]
      refine ⟨rfl, h.last.update ?_, h.now.update ?_⟩
      · intro _ _ hentry
        cases hentry
      · intro _ _ hentry
        cases hentry
        rfl

/-- What a pass decides of a route does not depend on sound verdicts. -/
theorem judgeRoute_sound (h : checks.Sound E specOf) (h' : checks'.Sound E specOf)
    (hroute : ChecksAs E specOf K route) (claimed : List Int32) :
    (judgeRoute K cx claimed checks route).1 = (judgeRoute K cx claimed checks' route).1 ∧
      (judgeRoute K cx claimed checks route).2.Sound E specOf := by
  simp only [judgeRoute, routeVerdict]
  split_ifs
  · exact ⟨rfl, h⟩
  · cases (K.convert route).2 with
    | error e => exact ⟨rfl, h⟩
    | ok u =>
      obtain ⟨hverdict, hsound⟩ := h.verdict hroute
      refine ⟨?_, hsound⟩
      simp only [hverdict, (h'.verdict hroute).1]

theorem judgeRoutes_sound (hroutes : ∀ route ∈ routes, ChecksAs E specOf K route)
    (h : checks.Sound E specOf) (h' : checks'.Sound E specOf) (claimed : List Int32) :
    (judgeRoutes K cx claimed checks routes).1 = (judgeRoutes K cx claimed checks' routes).1 ∧
      (judgeRoutes K cx claimed checks routes).2.Sound E specOf := by
  induction routes generalizing claimed checks checks' with
  | nil => exact ⟨rfl, h⟩
  | cons route rest ih =>
    obtain ⟨hroute, hrest⟩ := forall_mem_cons.mp hroutes
    obtain ⟨hj, hs⟩ := judgeRoute_sound cx h h' hroute claimed
    obtain ⟨hjs, hsound⟩ := ih hrest hs (judgeRoute_sound cx h' h hroute claimed).2
      (claimed ++ (judgeRoute K cx claimed checks route).1.ports K cx)
    refine ⟨?_, hsound⟩
    simp only [judgeRoutes]
    rw [hjs, hj]

/-- Passes that come to the same, with sound verdicts. -/
structure Alike (E : Type) [RegexEngine E] (specOf : Str → ℤ → RouteSpec) (a b : Collected C) :
    Prop where
  status : a.status = b.status
  configs : a.configs = b.configs
  left : a.checks.Sound E specOf
  right : b.checks.Sound E specOf

theorem collectRoutes_alike (hroutes : ∀ route ∈ routes, ChecksAs E specOf K route)
    (h : checks.Sound E specOf) (h' : checks'.Sound E specOf)
    {status status' : List RouteAcceptance} (hstatus : status = status') :
    Alike E specOf (collectRoutes K cx routes checks status)
      (collectRoutes K cx routes checks' status') := by
  have hordered : ∀ route ∈ orderedRoutes K cx routes, ChecksAs E specOf K route :=
    fun route hroute => hroutes route (mem_filter.mp ((mem_insertionSort _).mp hroute)).1
  obtain ⟨hsame, hsound⟩ := judgeRoutes_sound cx hordered h h' []
  have hpass (checks status) :=
    foldl_collectRoute K cx ⟨[], checks, status, []⟩ (orderedRoutes K cx routes)
  constructor
  · rw [collectRoutes, collectRoutes, (hpass _ _).1, (hpass _ _).1, hsame, hstatus]
  · rw [collectRoutes, collectRoutes, (hpass _ _).2.1, (hpass _ _).2.1, hsame]
  · rw [collectRoutes, (hpass _ _).2.2]
    exact hsound
  · rw [collectRoutes, (hpass _ _).2.2]
    exact (judgeRoutes_sound cx hordered h' h []).2

end

section

variable {E : Type} [RegexEngine E] {specOf : Str → ℤ → RouteSpec}

/-- A pass from sound verdicts gives what it would from none, and leaves sound ones. -/
theorem reconcile_sound {p : PassInput} (hspecs : p.snapshot.Follows E specOf) {last : Verdicts}
    (hlast : last.Sound E specOf) :
    p.Gave E (p.reconcile E last) ∧ (p.reconcile E last).verdicts.Sound E specOf := by
  have hstart : Checks.Sound E specOf ⟨last, fun _ => none⟩ := ⟨hlast, Verdicts.sound_none⟩
  have hempty : Checks.Sound E specOf ⟨fun _ => none, fun _ => none⟩ :=
    ⟨Verdicts.sound_none, Verdicts.sound_none⟩
  let cx := collectCtx p.gateway p.snapshot p.services
  have http := collectRoutes_alike cx (hspecs.http.checksAs (E := E) fun _ => rfl)
    hstart hempty (rfl : ([] : List RouteAcceptance) = [])
  have tcp := collectRoutes_alike cx (hspecs.tcp.checksAs (E := E) fun _ => rfl)
    http.left http.right http.status
  have tls := collectRoutes_alike cx (hspecs.tls.checksAs (E := E) fun _ => rfl)
    tcp.left tcp.right tcp.status
  have udp := collectRoutes_alike cx (hspecs.udp.checksAs (E := E) fun _ => rfl)
    tls.left tls.right tls.status
  refine ⟨⟨?_, udp.status⟩, udp.left.now⟩
  simp only [PassInput.reconcile, reconcileToConfig]
  rw [http.configs, tcp.configs, tls.configs, udp.configs]

/-- The kept and the taken verdicts are sound, and the finished passes gave what they should. -/
structure PassWorld.Inv (E : Type) [RegexEngine E] (specOf : Str → ℤ → RouteSpec) (w : PassWorld) :
    Prop where
  kept : ∀ gateway, ∀ v ∈ w.verdicts gateway, Verdicts.Sound E specOf v
  running : ∀ pass ∈ w.running, pass.1.snapshot.Follows E specOf ∧ pass.2.Sound E specOf
  finished : ∀ pass ∈ w.finished, pass.1.Gave E pass.2

theorem PassStep.inv {w w' : PassWorld} (h : w.Inv E specOf) (hstep : PassStep E specOf w w') :
    w'.Inv E specOf := by
  cases hstep with
  | start p hspecs =>
    refine ⟨fun gateway v hv => ?_, forall_mem_cons.mpr ⟨⟨hspecs, ?_⟩, h.running⟩, h.finished⟩
    · by_cases heq : gateway = p.gatewayKey
      · simp [RouteVerdicts.take, heq] at hv
      · exact h.kept gateway v (by simpa [RouteVerdicts.take, heq] using hv)
    · unfold RouteVerdicts.take
      cases hkept : w.verdicts p.gatewayKey with
      | none => exact Verdicts.sound_none
      | some v => exact h.kept p.gatewayKey v hkept
  | finish before after p last hrunning =>
    have hall := h.running
    rw [hrunning, forall_mem_append, forall_mem_cons] at hall
    obtain ⟨hbefore, ⟨hspecs, hlast⟩, hafter⟩ := hall
    obtain ⟨hgave, hsound⟩ := reconcile_sound hspecs hlast
    refine ⟨fun gateway v hv => ?_, forall_mem_append.mpr ⟨hbefore, hafter⟩,
      forall_mem_cons.mpr ⟨hgave, h.finished⟩⟩
    by_cases heq : gateway = p.gatewayKey
    · obtain rfl : (p.reconcile E last).verdicts = v := by
        simpa [RouteVerdicts.put, heq] using hv
      exact hsound
    · exact h.kept gateway v (by simpa [RouteVerdicts.put, heq] using hv)
  | retain live =>
    refine ⟨fun gateway v hv => ?_, h.running, h.finished⟩
    simp only [RouteVerdicts.retain] at hv
    split_ifs at hv
    · exact h.kept gateway v hv
    · cases hv

/-- Every pass of every run gives the config and the statuses it would without kept verdicts, as
long as uid and generation determine what a route is. -/
theorem verdicts_transparent (specOf : Str → ℤ → RouteSpec) {w : PassWorld}
    (hw : Reachable PassWorld.Fresh (PassStep E specOf) w) :
    ∀ pass ∈ w.finished, pass.1.Gave E pass.2 := by
  have hinv : w.Inv E specOf := by
    refine hw.invariant ?_ fun _ _ h hstep => hstep.inv h
    rintro w rfl
    exact ⟨fun _ _ hv => (by cases hv), fun _ h => (by cases h), fun _ h => (by cases h)⟩
  exact hinv.finished

/-- A Gateway with a listener, and a route attached to it that has a uid and a generation. -/
def oneRoutePass : PassInput where
  gateway := ⟨⟨some (Str.lit "gw"), none, none, none, none⟩,
    [⟨Str.lit "web", 80, .http, none, none, none⟩], none⟩
  snapshot := ⟨[⟨⟨none, none, some (Str.lit "uid"), some 1, none⟩,
    some [⟨Str.lit "gw", none, none, none, none, none⟩], none, none⟩], [], [], [],
    fun _ => none, [], [], []⟩
  certData _ := none
  services := ⟨fun _ => false, fun _ => none, fun _ => none, fun _ => none⟩

/-- The second pass has the verdict the first took of the route. -/
theorem verdicts_transparent_twice :
    let first := oneRoutePass.reconcile Empty fun _ => none
    let second := oneRoutePass.reconcile Empty first.verdicts
    first.verdicts (Str.lit "uid") = some (1, .ok ()) ∧ first.config.httpRoutes.length = 1 ∧
      ∃ specOf w, Reachable PassWorld.Fresh (PassStep Empty specOf) w ∧
        w.finished = [(oneRoutePass, second), (oneRoutePass, first)] ∧
        oneRoutePass.Gave Empty second := by
  let specOf : Str → ℤ → RouteSpec := fun _ _ => .http ⟨⟨none, none, none, none, none⟩,
    some [⟨Str.lit "gw", none, none, none, none, none⟩], none, none⟩
  have hspecs : oneRoutePass.snapshot.Follows Empty specOf :=
    ⟨by simp [SpecsOf, oneRoutePass, specOf, ObjectMeta.scope], by simp [SpecsOf, oneRoutePass],
      by simp [SpecsOf, oneRoutePass], by simp [SpecsOf, oneRoutePass]⟩
  have hstart : Reachable PassWorld.Fresh (PassStep Empty specOf) _ := .start rfl
  have hfirst := (hstart.step (.start _ oneRoutePass hspecs)).step (.finish _ [] [] _ _ rfl)
  have hagain := (hfirst.step (.start _ oneRoutePass hspecs)).step (.finish _ [] [] _ _ rfl)
  exact ⟨rfl, rfl, specOf, _, hagain, rfl,
    verdicts_transparent specOf hagain (oneRoutePass, _) mem_cons_self⟩

end
end Portail.Kubernetes
