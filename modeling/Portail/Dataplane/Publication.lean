import Portail.Dataplane.Refresh

/-!
# Two writers of the table

The steps of the Applier and of the DNS task in any order. The DNS task holds the pair
it read across the steps of the Applier, so what the invariant says is about every pair
that is published or held: its table is live only when its config is the one applied
last.
-/

namespace Portail.Dataplane

open Lib Http Routing Config

section

variable {C T : Type}

/-- Where the Applier stands between its two stores. -/
inductive ApplierStep (C T : Type)
  | idle
  | stored (config : C) (table : Arc T)
  | cleared

/-- Where a tick of the DNS task stands. -/
inductive TickStep (C T : Type)
  | idle
  | read (pair : Arc (Published C T))
  | built (pair : Arc (Published C T)) (table : T)
  | swapped (pair : Arc (Published C T)) (table : Arc T)

def TickStep.pair : TickStep C T → Option (Arc (Published C T))
  | idle => none
  | read pair => some pair
  | built pair _ => some pair
  | swapped pair _ => some pair

structure World (C T : Type) where
  cells : Cells C T
  applier : ApplierStep C T
  tick : TickStep C T
  /-- The config of the last apply whose table was stored; none before it and after a clear. -/
  applied : Option C

variable (BuiltFrom : C → T → Prop) (empty : T) (signature : T → UInt64) in
/-- The atomic steps of the two writers. `BuiltFrom` says which tables a config builds, as the
resolver answers; a build that fails stores nothing. -/
inductive Step (w : World C T) : World C T → Prop
  | store {config table} : w.applier = .idle → BuiltFrom config table →
      Step w
        { w with
          cells := { (w.cells.alloc table).2 with routes := (w.cells.alloc table).1 }
          applier := .stored config (w.cells.alloc table).1
          applied := some config }
  | publish {config table} : w.applier = .stored config table →
      Step w
        { w with
          cells := { (w.cells.alloc (Published.mk config table)).2 with
            published := some (w.cells.alloc (Published.mk config table)).1 }
          applier := .idle }
  | clear : w.applier = .idle →
      Step w
        { w with
          cells := { (w.cells.alloc empty).2 with routes := (w.cells.alloc empty).1 }
          applier := .cleared
          applied := none }
  | withdraw : w.applier = .cleared →
      Step w { w with cells := { w.cells with published := none }, applier := .idle }
  | read {pair} : w.tick = .idle →
      w.cells.published = some pair →
      Step w { w with tick := .read pair }
  | rebuild {pair table} : w.tick = .read pair →
      BuiltFrom pair.val.config table →
      Step w { w with tick := .built pair table }
  | rebuildFailed {pair} : w.tick = .read pair →
      Step w { w with tick := .idle }
  | unchanged {pair table} :
      w.tick = .built pair table → signature table = signature pair.val.table.val →
      Step w { w with tick := .idle }
  | swapTable {pair table} :
      w.tick = .built pair table → signature table ≠ signature pair.val.table.val →
      Step w
        { w with
          cells := (w.cells.alloc table).2.swapTable pair (w.cells.alloc table).1
          tick := if w.cells.routes.addr = pair.val.table.addr
            then .swapped pair (w.cells.alloc table).1 else .idle }
  | swapPair {pair table} : w.tick = .swapped pair table →
      Step w
        { w with
          cells := (w.cells.alloc (Published.mk pair.val.config table)).2.swapPair pair
            (w.cells.alloc (Published.mk pair.val.config table)).1
          tick := .idle }

/-- Nothing applied yet: an empty table is live and nothing published. -/
def Fresh (empty : T) (w : World C T) : Prop :=
  w.cells.routes.val = empty ∧ w.cells.routes.addr < w.cells.next ∧ w.cells.published = none ∧
    w.applier = .idle ∧ w.tick = .idle ∧ w.applied = none

/-- The live table is one built from the config applied last, or the empty one. -/
def Live (BuiltFrom : C → T → Prop) (empty : T) (w : World C T) : Prop :=
  match w.applied with
  | none => w.cells.routes.val = empty
  | some config => BuiltFrom config w.cells.routes.val

/-- Neither writer is between its two stores. -/
def Quiet (w : World C T) : Prop :=
  w.applier = .idle ∧ ∀ pair table, w.tick ≠ .swapped pair table

end

section

variable {C T : Type} {BuiltFrom : C → T → Prop} {empty : T} {signature : T → UInt64}

/-- The pairs that are published or held by the tick. -/
def World.Holds (w : World C T) (pair : Arc (Published C T)) : Prop :=
  w.cells.published = some pair ∨ w.tick.pair = some pair

structure Inv (BuiltFrom : C → T → Prop) (empty : T) (w : World C T) : Prop where
  live : Live BuiltFrom empty w
  routesOld : w.cells.routes.addr < w.cells.next
  pairsOld : ∀ p, w.Holds p → p.addr < w.cells.next ∧ p.val.table.addr < w.cells.next
  current : ∀ p, w.Holds p → p.val.table.addr = w.cells.routes.addr →
    p.val.table = w.cells.routes ∧ w.applied = some p.val.config
  distinct : ∀ p q, w.Holds p → w.Holds q → p.val.table.addr = q.val.table.addr → p.addr = q.addr
  built : ∀ pair table, w.tick = .built pair table → BuiltFrom pair.val.config table
  stored : ∀ config table, w.applier = .stored config table →
    table = w.cells.routes ∧ w.applied = some config
  between : w.applier ≠ .idle → ∀ p, w.Holds p → p.val.table.addr ≠ w.cells.routes.addr
  swapped : ∀ pair table, w.tick = .swapped pair table → table.addr < w.cells.next ∧
    (∀ p, w.Holds p → p.val.table.addr ≠ table.addr) ∧
    (w.applier ≠ .idle → table.addr ≠ w.cells.routes.addr) ∧
    (w.applier = .idle → ∀ p, w.cells.published = some p →
      if p.addr = pair.addr then table = w.cells.routes ∧ w.applied = some pair.val.config
      else p.val.table = w.cells.routes)
  quiet : Quiet w → ∀ p, w.cells.published = some p → p.val.table = w.cells.routes

variable {w w' : World C T}

theorem inv_fresh (h : Fresh empty w) : Inv BuiltFrom empty w := by
  obtain ⟨hval, hold, hnone, happ, htick, hnot⟩ := h
  constructor <;> simp_all [Live, World.Holds, TickStep.pair]

section

variable (h : Inv BuiltFrom empty w) {pair : Arc (Published C T)}
include h

theorem Inv.newTable {table : T} {applier : ApplierStep C T}
    {applied : Option C} (hne : applier ≠ .idle) (hlive : Live BuiltFrom empty { w with
      cells := { w.cells with routes := ⟨w.cells.next, table⟩ }, applied := applied })
    (hstored : ∀ config t, applier = .stored config t →
      t = ⟨w.cells.next, table⟩ ∧ applied = some config) :
    Inv BuiltFrom empty { w with
      cells := { w.cells with routes := ⟨w.cells.next, table⟩, next := w.cells.next + 1 }
      applier := applier
      applied := applied } where
  live := hlive
  routesOld := Nat.lt_succ_self _
  pairsOld p hp := (h.pairsOld p hp).imp Nat.lt_succ_of_lt Nat.lt_succ_of_lt
  current p hp heq := absurd heq (h.pairsOld p hp).2.ne
  distinct := h.distinct
  built := h.built
  stored := hstored
  between _ p hp := (h.pairsOld p hp).2.ne
  swapped pair t htick := by
    obtain ⟨hlt, hother, _, _⟩ := h.swapped pair t htick
    exact ⟨Nat.lt_succ_of_lt hlt, hother, fun _ => hlt.ne, fun hidle => absurd hidle hne⟩
  quiet hq := absurd hq.1 hne

theorem Inv.publish {config : C} {table : Arc T} (happ : w.applier = .stored config table) :
    Inv BuiltFrom empty { w with
      cells := { w.cells with
        published := some ⟨w.cells.next, config, table⟩, next := w.cells.next + 1 }
      applier := .idle } := by
  obtain ⟨rfl, happlied⟩ := h.stored config table happ
  have hbusy : w.applier ≠ .idle := by simp [happ]
  have hother {p} (hp : w.tick.pair = some p) := h.between hbusy p (.inr hp)
  refine ⟨h.live, Nat.lt_succ_of_lt h.routesOld, ?_, ?_, ?_, h.built, by simp, by simp, ?_, ?_⟩
  · rintro p (hp | hp)
    · cases hp
      exact ⟨Nat.lt_succ_self _, Nat.lt_succ_of_lt h.routesOld⟩
    · exact (h.pairsOld p (.inr hp)).imp Nat.lt_succ_of_lt Nat.lt_succ_of_lt
  · rintro p (hp | hp) heq
    · cases hp
      exact ⟨rfl, happlied⟩
    · exact absurd heq (hother hp)
  · rintro p q (hp | hp) (hq | hq) heq
    · rw [← Option.some.inj hp, ← Option.some.inj hq]
    · cases hp
      exact absurd heq.symm (hother hq)
    · cases hq
      exact absurd heq (hother hp)
    · rw [Option.some.inj (hp.symm.trans hq)]
  · intro pair t htick
    obtain ⟨hlt, hne, hbetween, _⟩ := h.swapped pair t htick
    refine ⟨Nat.lt_succ_of_lt hlt, ?_, fun hidle => absurd rfl hidle, fun _ p hp => ?_⟩
    · rintro p (hp | hp)
      · cases hp
        exact (hbetween hbusy).symm
      · exact hne p (.inr hp)
    · have hpair : w.Holds pair := .inr (by rw [htick]; rfl)
      cases hp
      rw [if_neg (h.pairsOld pair hpair).1.ne']
  · intro _ p hp
    rw [← Option.some.inj hp]

theorem Inv.withdraw (happ : w.applier = .cleared) :
    Inv BuiltFrom empty { w with
      cells := { w.cells with published := none }, applier := .idle } := by
  have hsub {p} (hp : none = some p ∨ w.tick.pair = some p) : w.Holds p :=
    .inr (hp.resolve_left (by simp))
  have hbusy : w.applier ≠ .idle := by simp [happ]
  refine ⟨h.live, h.routesOld, fun p hp => h.pairsOld p (hsub hp),
    fun p hp => h.current p (hsub hp), fun p q hp hq => h.distinct p q (hsub hp) (hsub hq),
    h.built, by simp, by simp, fun pair t htick => ?_, by simp⟩
  obtain ⟨hlt, hne, _, _⟩ := h.swapped pair t htick
  exact ⟨hlt, fun p hp => hne p (hsub hp), fun hidle => absurd rfl hidle, by simp⟩

theorem Inv.moveTick {tick : TickStep C T} (n : ℕ)
    (hw : ∀ pair t, w.tick ≠ .swapped pair t) (hns : ∀ pair t, tick ≠ .swapped pair t)
    (hpair : ∀ p, tick.pair = some p → w.Holds p)
    (hbuilt : ∀ pair t, tick = .built pair t → BuiltFrom pair.val.config t) :
    Inv BuiltFrom empty
      { w with cells := { w.cells with next := w.cells.next + n }, tick := tick } := by
  have hsub {p} (hp : w.cells.published = some p ∨ tick.pair = some p) : w.Holds p :=
    hp.elim .inl (hpair p)
  refine ⟨h.live, Nat.lt_add_right n h.routesOld, fun p hp => ?_,
    fun p hp => h.current p (hsub hp), fun p q hp hq => h.distinct p q (hsub hp) (hsub hq), hbuilt,
    h.stored, fun hbusy p hp => h.between hbusy p (hsub hp),
    fun pair t htick => absurd htick (hns pair t), fun hq => h.quiet ⟨hq.1, hw⟩⟩
  exact (h.pairsOld p (hsub hp)).imp (Nat.lt_add_right n) (Nat.lt_add_right n)

/-- The tick exchanges the table of the pair it holds. -/
theorem Inv.swapTable {table : T}
    (htick : w.tick = .built pair table) (hlive : w.cells.routes.addr = pair.val.table.addr) :
    Inv BuiltFrom empty { w with
      cells := { w.cells with routes := ⟨w.cells.next, table⟩, next := w.cells.next + 1 }
      tick := .swapped pair ⟨w.cells.next, table⟩ } := by
  have hpair : w.Holds pair := .inr (by rw [htick]; rfl)
  have happlied := (h.current pair hpair hlive.symm).2
  have hidle : w.applier = .idle := by
    by_contra hbusy
    exact h.between hbusy pair hpair hlive.symm
  have hsub {p} (hp : w.cells.published = some p ∨ some pair = some p) : w.Holds p := by
    rcases hp with hp | hp
    · exact .inl hp
    · exact Option.some.inj hp ▸ hpair
  have hquiet : Quiet w := ⟨hidle, by simp [htick]⟩
  refine ⟨?_, Nat.lt_succ_self _, fun p hp => ?_, fun p hp heq => ?_,
    fun p q hp hq => h.distinct p q (hsub hp) (hsub hq), by simp, fun c t hstored => ?_,
    fun hbusy => absurd hidle hbusy, ?_, ?_⟩
  · simp only [Live, happlied]
    exact h.built pair table htick
  · exact (h.pairsOld p (hsub hp)).imp Nat.lt_succ_of_lt Nat.lt_succ_of_lt
  · exact absurd heq (h.pairsOld p (hsub hp)).2.ne
  · rw [hidle] at hstored
    exact absurd hstored (by simp)
  · rintro _ _ ⟨⟩
    refine ⟨Nat.lt_succ_self _, fun p hp => (h.pairsOld p (hsub hp)).2.ne,
      fun hbusy => absurd hidle hbusy, fun _ p hp => ?_⟩
    -- A published pair has the live table, which only the pair of the tick has.
    have htable := h.quiet hquiet p hp
    have haddr := h.distinct p pair (.inl hp) hpair (by rw [htable, hlive])
    rw [if_pos haddr]
    exact ⟨rfl, happlied⟩
  · exact fun hq => absurd rfl (hq.2 pair _)

theorem Inv.endTick {published : Option (Arc (Published C T))} (hpub : ∀ p, published = some p →
      (p.addr < w.cells.next + 1 ∧ p.val.table.addr < w.cells.next + 1) ∧
      (p.val.table.addr = w.cells.routes.addr →
        p.val.table = w.cells.routes ∧ w.applied = some p.val.config) ∧
      (w.applier ≠ .idle → p.val.table.addr ≠ w.cells.routes.addr) ∧
      (w.applier = .idle → p.val.table = w.cells.routes)) :
    Inv BuiltFrom empty { w with
      cells := { w.cells with published := published, next := w.cells.next + 1 }
      tick := .idle } := by
  have hheld {p} (hp : published = some p ∨ none = some p) : published = some p :=
    hp.resolve_right (by simp)
  refine ⟨h.live, Nat.lt_succ_of_lt h.routesOld, fun p hp => (hpub p (hheld hp)).1,
    fun p hp => (hpub p (hheld hp)).2.1, fun p q hp hq _ => ?_, by simp, h.stored,
    fun hbusy p hp => (hpub p (hheld hp)).2.2.1 hbusy, by simp,
    fun hq p hp => (hpub p hp).2.2.2 hq.1⟩
  rw [Option.some.inj ((hheld hp).symm.trans (hheld hq))]

/-- The tick publishes the table it made live, unless another pair was published since. -/
theorem Inv.swapPair {table : Arc T} (htick : w.tick = .swapped pair table) :
    Inv BuiltFrom empty { w with
      cells := { w.cells with next := w.cells.next + 1 }.swapPair pair
        ⟨w.cells.next, pair.val.config, table⟩
      tick := .idle } := by
  obtain ⟨hlt, _, hbetween, hidle⟩ := h.swapped pair table htick
  refine h.endTick fun p hp => ?_
  simp only at hp
  split_ifs at hp with hany
  · -- The pair read is still published, so its successor takes its place.
    cases hp
    obtain ⟨p₀, hp₀, haddr⟩ : ∃ p₀, w.cells.published = some p₀ ∧ p₀.addr = pair.addr := by
      cases hpub : w.cells.published with
      | none => simp [hpub] at hany
      | some p₀ => exact ⟨p₀, rfl, by simpa [hpub] using hany⟩
    have hmine (happ : w.applier = .idle) :
        table = w.cells.routes ∧ w.applied = some pair.val.config := by
      have hp₀ := hidle happ p₀ hp₀
      rwa [if_pos haddr] at hp₀
    refine ⟨⟨Nat.lt_succ_self _, Nat.lt_succ_of_lt hlt⟩, fun heq => ?_, hbetween,
      fun happ => (hmine happ).1⟩
    exact hmine (by_contra fun hbusy => hbetween hbusy heq)
  · have hne : p.addr ≠ pair.addr := by simpa [hp] using hany
    refine ⟨(h.pairsOld p (.inl hp)).imp Nat.lt_succ_of_lt Nat.lt_succ_of_lt,
      h.current p (.inl hp), fun hbusy => h.between hbusy p (.inl hp), fun happ => ?_⟩
    have hp := hidle happ p hp
    rwa [if_neg hne] at hp

theorem inv_step (hstep : Step BuiltFrom empty signature w w') :
    Inv BuiltFrom empty w' := by
  cases hstep with
  | store happ hb =>
    exact h.newTable (by simp) hb fun c t heq => by simpa [Cells.alloc, eq_comm, and_comm] using heq
  | publish happ => exact h.publish happ
  | clear happ => exact h.newTable (by simp) rfl (by simp)
  | withdraw happ => exact h.withdraw happ
  | read htick hpub =>
    exact h.moveTick 0 (by simp [htick]) (by simp)
      (fun p hp => .inl (hpub.trans (by simpa [TickStep.pair] using hp))) (by simp)
  | rebuild htick hb =>
    exact h.moveTick 0 (by simp [htick]) (by simp)
      (fun p hp => .inr (by rw [htick]; exact hp)) (by rintro _ _ ⟨⟩; exact hb)
  | rebuildFailed htick | unchanged htick _ =>
    exact h.moveTick 0 (by simp [htick]) (by simp) (by simp [TickStep.pair]) (by simp)
  | @swapTable pair table htick _ =>
    have hroutes : (w.cells.alloc table).2.routes = w.cells.routes := rfl
    by_cases hlive : w.cells.routes.addr = pair.val.table.addr
    · rw [if_pos hlive, Cells.swapTable, if_pos (hroutes ▸ hlive)]
      exact h.swapTable htick hlive
    · rw [if_neg hlive, Cells.swapTable, if_neg (hroutes ▸ hlive)]
      exact h.moveTick 1 (by simp [htick]) (by simp) (by simp [TickStep.pair]) (by simp)
  | swapPair htick => exact h.swapPair htick

end

theorem Step.mono {Built Built' : C → T → Prop} (hbuilt : ∀ c t, Built c t → Built' c t)
    (h : Step Built empty signature w w') : Step Built' empty signature w w' := by
  cases h with
  | store happ hb => exact .store happ (hbuilt _ _ hb)
  | publish happ => exact .publish happ
  | clear happ => exact .clear happ
  | withdraw happ => exact .withdraw happ
  | read htick hpub => exact .read htick hpub
  | rebuild htick hb => exact .rebuild htick (hbuilt _ _ hb)
  | rebuildFailed htick => exact .rebuildFailed htick
  | unchanged htick hsig => exact .unchanged htick hsig
  | swapTable htick hsig => exact .swapTable htick hsig
  | swapPair htick => exact .swapPair htick

theorem Step.applied_of_no_build (h : Step (fun _ _ => False) empty signature w w') :
    w'.applied = w.applied ∨ w'.applied = none := by
  cases h with
  | store _ hb | rebuild _ hb => exact hb.elim
  | clear _ => exact .inr rfl
  | publish _ | withdraw _ | read _ _ | rebuildFailed _ | unchanged _ _ | swapTable _ _
    | swapPair _ => exact .inl rfl

end

section

variable {R : Type} [RegexEngine R]

/-- The table is built from the config, for some answers of the resolver. -/
def Builds (config : PortailConfig) (t : RouteTable R) : Prop :=
  ∃ lookup hashOne, buildRouteTable config .lenient lookup hashOne = .ok t

/-- Whatever the order of the writers' steps, the live table is one built from the config whose
table was stored last, and it is the published pair's when neither is between its stores. -/
theorem live_table_current {addrHash : SocketAddr → UInt64} {w : World PortailConfig (RouteTable R)}
    (hw : Reachable (Fresh (RouteTable.new R))
      (Step Builds (RouteTable.new R) (RouteTable.dnsSignature addrHash)) w) :
    Live Builds (RouteTable.new R) w ∧
      (Quiet w → ∀ pair, w.cells.published = some pair → pair.val.table = w.cells.routes) := by
  have hinv : Inv Builds (RouteTable.new R) w :=
    hw.invariant (fun _ => inv_fresh) (fun _ _ => inv_step)
  exact ⟨hinv.live, hinv.quiet⟩

def freshWorld : World PortailConfig (RouteTable Empty) :=
  ⟨⟨⟨0, RouteTable.new Empty⟩, none, 1⟩, .idle, .idle, none⟩

/-- Applied, and then refreshed by a tick. -/
def refreshedWorld (config : PortailConfig) (table : RouteTable Empty) :
    World PortailConfig (RouteTable Empty) :=
  ⟨⟨⟨3, table⟩, some ⟨4, config, 3, table⟩, 5⟩, .idle, .idle, some config⟩

/-- A tick that builds another table swaps it in, and then the pair. -/
theorem refreshed_reachable {config : PortailConfig} {table table' : RouteTable Empty}
    {signature : RouteTable Empty → UInt64} (htable : Builds config table)
    (htable' : Builds config table') (hnoticed : signature table' ≠ signature table) :
    Reachable (Fresh (RouteTable.new Empty)) (Step Builds (RouteTable.new Empty) signature)
      (refreshedWorld config table') := by
  have hfresh : Reachable (Fresh (RouteTable.new Empty))
      (Step Builds (RouteTable.new Empty) signature) freshWorld :=
    .start ⟨rfl, by decide, rfl, rfl, rfl, rfl⟩
  have happlied := (hfresh.step (.store rfl htable)).step (.publish rfl)
  let pair : Arc (Published PortailConfig (RouteTable Empty)) := ⟨2, config, 1, table⟩
  have hbuilt : Reachable _ _
      (⟨⟨⟨1, table⟩, some pair, 3⟩, .idle, .built pair table', some config⟩ : World _ _) :=
    (happlied.step (.read rfl rfl)).step (.rebuild rfl htable')
  have hswap := hbuilt.step (.swapTable rfl hnoticed)
  have hswapped : Reachable _ _ (⟨⟨⟨3, table'⟩, some pair, 4⟩, .idle,
      .swapped pair ⟨3, table'⟩, some config⟩ : World _ _) := hswap
  have hrefreshed := hswapped.step (.swapPair rfl)
  exact hrefreshed

/-- The tick finds another address of one Service. -/
theorem live_table_current_refreshed :
    let w := refreshedWorld blueGreenConfig (blueGreenTable 1 3)
    Live Builds (RouteTable.new Empty) w ∧
      (Quiet w → ∀ pair, w.cells.published = some pair → pair.val.table = w.cells.routes) := by
  have hnoticed : (blueGreenTable 1 3).dnsSignature lastOctet ≠
      (blueGreenTable 1 2).dnsSignature lastOctet := by decide +kernel
  exact live_table_current (refreshed_reachable ⟨_, _, blueGreen_build 1 2⟩
    ⟨_, _, blueGreen_build 1 3⟩ hnoticed)

end
end Portail.Dataplane
