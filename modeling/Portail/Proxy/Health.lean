import Mathlib.Tactic
import Portail.Lib.Runs

/-!
# Backend health

Passive failures mark a backend, probes bring it back (`proxy/health.rs`). The
operations of any number of callers and probe tasks interleave at their atomic steps: a
load, a store, an exchange, a visit of one shard of the map. A guard on an entry keeps
its shard from being pruned; that it also keeps other callers out is not used. Metrics
and logs are left out.
-/

namespace Portail.Proxy.Health

open Lib Function

section

variable (A S : Type)

inductive Status
  | healthy
  | unhealthy
  | probing
  deriving DecidableEq

structure BackendHealth where
  consecutiveFailures : UInt32
  status : Status
  /-- The probe task whose handle is in the slot. -/
  probe : Option ℕ

def BackendHealth.fresh : BackendHealth := ⟨0, .healthy, none⟩

def failureThreshold : UInt32 := 3

/-- Where a probe task stands. It holds the entry in its last two stages. -/
inductive ProbeStage
  | asleep
  | connecting
  | connected
  | resetting
  | recovering
  deriving DecidableEq

structure Probe where
  addr : A
  stage : ProbeStage
  aborted : Bool

/-- The map of entries, the flag, and the probe tasks that run. -/
structure Registry where
  backends : A → Option BackendHealth
  tracked : Bool
  probes : ℕ → Option (Probe A)
  nextProbe : ℕ

/-- Where a `record_failure` stands, up to the spawn its caller owes when it has won. -/
inductive FailureStage
  | start
  | inserted
  | lowered
  | counting
  | marking
  | claiming
  | won
  deriving DecidableEq

inductive SuccessStage
  | start
  | lookup
  | loadStatus
  | loadFailures
  | resetFailures
  | storeStatus
  deriving DecidableEq

/-- Where a `prune` stands, with the shards its pass over the map has visited. -/
inductive PruneStage
  | start
  | retaining (visited : Finset S)
  | checking (visited : Finset S)
  | lowering
  | rechecking (visited : Finset S)
  | raising

inductive Op
  | failure (addr : A) (stage : FailureStage)
  | success (addr : A) (stage : SuccessStage)
  | prune (routed : A → Bool) (stage : PruneStage S)

end

variable {A S : Type}

section

/-- A handle's task is told to stop. -/
def abort (probes : ℕ → Option (Probe A)) (slot : Option ℕ) : ℕ → Option (Probe A) :=
  fun q => (probes q).map fun pr => if slot = some q then { pr with aborted := true } else pr

variable [DecidableEq A] [DecidableEq S]

namespace Registry

def set (r : Registry A) (addr : A) (entry : BackendHealth) : Registry A :=
  { r with backends := Function.update r.backends addr (some entry) }

/-- A new task, whose handle replaces the one in the slot. -/
def spawnProbe (r : Registry A) (addr : A) : Registry A :=
  match r.backends addr with
  | some entry =>
    { r with
      backends := Function.update r.backends addr (some { entry with probe := some r.nextProbe })
      probes := Function.update (abort r.probes entry.probe) r.nextProbe
        (some ⟨addr, .asleep, false⟩)
      nextProbe := r.nextProbe + 1 }
  | none =>
    { r with
      probes := Function.update r.probes r.nextProbe (some ⟨addr, .asleep, true⟩)
      nextProbe := r.nextProbe + 1 }

/-- The entries of a shard that are routed no more leave, and their probes are aborted. -/
def retainShard (r : Registry A) (shardOf : A → S) (routed : A → Bool) (s : S) : Registry A :=
  let leaves (addr : A) : Bool := shardOf addr = s ∧ routed addr = false
  { r with
    backends := fun addr => if leaves addr then none else r.backends addr
    probes := fun q => (r.probes q).map fun pr =>
      if leaves pr.addr ∧ (r.backends pr.addr).bind BackendHealth.probe = some q then
        { pr with aborted := true }
      else pr }

def moveProbe (r : Registry A) (p : ℕ) (pr : Probe A) (stage : ProbeStage) : Registry A :=
  { r with probes := Function.update r.probes p (some { pr with stage := stage }) }

def endProbe (r : Registry A) (p : ℕ) : Registry A :=
  { r with probes := Function.update r.probes p none }

def isHealthy (r : Registry A) (addr : A) : Bool :=
  !r.tracked || (r.backends addr).all (·.status = .healthy)

end Registry

open Registry

/-- The steps of a probe task. An abort lands where the task waits, if at all. -/
inductive ProbeStep (r : Registry A) (p : ℕ) : Registry A → Prop
  | wake {pr} : r.probes p = some pr → pr.stage = .asleep →
      ProbeStep r p (if (r.backends pr.addr).any (·.status = .probing)
        then r.moveProbe p pr .connecting else r.endProbe p)
  | refused {pr} : r.probes p = some pr →
      pr.stage = .connecting → ProbeStep r p (r.moveProbe p pr .asleep)
  | connect {pr} : r.probes p = some pr →
      pr.stage = .connecting → ProbeStep r p (r.moveProbe p pr .connected)
  | gone {pr} : r.probes p = some pr → pr.stage = .connected →
      r.backends pr.addr = none → ProbeStep r p (r.endProbe p)
  | enter {pr e} : r.probes p = some pr →
      pr.stage = .connected → r.backends pr.addr = some e →
      ProbeStep r p (r.moveProbe p pr .resetting)
  | reset {pr e} : r.probes p = some pr →
      pr.stage = .resetting → r.backends pr.addr = some e →
      ProbeStep r p ((r.set pr.addr { e with consecutiveFailures := 0 }).moveProbe p pr .recovering)
  | recover {pr e} : r.probes p = some pr →
      pr.stage = .recovering → r.backends pr.addr = some e →
      ProbeStep r p ((r.set pr.addr { e with
        status := if e.status = .probing then .healthy else e.status }).endProbe p)
  | land {pr} : r.probes p = some pr → pr.aborted = true →
      pr.stage = .asleep ∨ pr.stage = .connecting → ProbeStep r p (r.endProbe p)

variable (shardOf : A → S) (free : S → Prop) in
/-- The steps of an operation; one that ends has no stage left. `free` says of which shards no
guard is held. -/
inductive OpStep (r : Registry A) : Op A S → Registry A → Option (Op A S) → Prop
  | insert {a} : OpStep r (.failure a .start)
      (r.set a ((r.backends a).getD .fresh)) (some (.failure a .inserted))
  | failureTracked {a} : OpStep r (.failure a .inserted) r
      (some (.failure a (if r.tracked then .counting else .lowered)))
  | raise {a} : OpStep r (.failure a .lowered)
      { r with tracked := true } (some (.failure a .counting))
  | count {a e} : r.backends a = some e →
      OpStep r (.failure a .counting)
        (r.set a { e with consecutiveFailures := e.consecutiveFailures + 1 })
        (if failureThreshold ≤ e.consecutiveFailures + 1 then some (.failure a .marking) else none)
  | mark {a e} : r.backends a = some e →
      OpStep r (.failure a .marking)
        (r.set a { e with status := if e.status = .healthy then .unhealthy else e.status })
        (some (.failure a .claiming))
  | claim {a e} : r.backends a = some e →
      OpStep r (.failure a .claiming)
        (r.set a { e with status := if e.status = .unhealthy then .probing else e.status })
        (if e.status = .unhealthy then some (.failure a .won) else none)
  | spawn {a} : OpStep r (.failure a .won) (r.spawnProbe a) none
  | successTracked {a} : OpStep r (.success a .start) r
      (if r.tracked then some (.success a .lookup) else none)
  | successLookup {a} : OpStep r (.success a .lookup) r
      ((r.backends a).map fun _ => .success a .loadStatus)
  | successStatus {a e} : r.backends a = some e →
      OpStep r (.success a .loadStatus) r
        (some (.success a (if e.status = .healthy then .loadFailures else .resetFailures)))
  | successFailures {a e} : r.backends a = some e →
      OpStep r (.success a .loadFailures) r
        (if 0 < e.consecutiveFailures then some (.success a .resetFailures) else none)
  | successReset {a e} : r.backends a = some e →
      OpStep r (.success a .resetFailures)
        (r.set a { e with consecutiveFailures := 0 }) (some (.success a .storeStatus))
  | successStore {a e} : r.backends a = some e →
      OpStep r (.success a .storeStatus) (r.set a { e with status := .healthy }) none
  | pruneTracked {routed} : OpStep r (.prune routed .start) r
        (if r.tracked then some (.prune routed (.retaining ∅)) else none)
  | retain {routed visited s} : s ∉ visited →
      free s → OpStep r (.prune routed (.retaining visited))
        (r.retainShard shardOf routed s) (some (.prune routed (.retaining (insert s visited))))
  | retained {routed visited} : (∀ s, s ∈ visited) →
      OpStep r (.prune routed (.retaining visited)) r (some (.prune routed (.checking ∅)))
  | checkEmpty {routed visited s} : s ∉ visited →
      (∀ a, shardOf a = s → r.backends a = none) →
      OpStep r (.prune routed (.checking visited)) r
        (some (.prune routed (.checking (insert s visited))))
  | checkFull {routed visited a e} : shardOf a ∉ visited → r.backends a = some e →
      OpStep r (.prune routed (.checking visited)) r none
  | checked {routed visited} : (∀ s, s ∈ visited) →
      OpStep r (.prune routed (.checking visited)) r (some (.prune routed .lowering))
  | lower {routed} : OpStep r (.prune routed .lowering) { r with tracked := false }
        (some (.prune routed (.rechecking ∅)))
  | recheckEmpty {routed visited s} : s ∉ visited →
      (∀ a, shardOf a = s → r.backends a = none) →
      OpStep r (.prune routed (.rechecking visited)) r
        (some (.prune routed (.rechecking (insert s visited))))
  | recheckFull {routed visited a e} : shardOf a ∉ visited → r.backends a = some e →
      OpStep r (.prune routed (.rechecking visited)) r (some (.prune routed .raising))
  | rechecked {routed visited} : (∀ s, s ∈ visited) →
      OpStep r (.prune routed (.rechecking visited)) r none
  | reraise {routed} : OpStep r (.prune routed .raising) { r with tracked := true } none

/-- The entry an operation holds a guard on. -/
def Op.guards : Op A S → Option A
  | failure a stage => if stage = .start ∨ stage = .won then none else some a
  | success a stage => if stage = .start ∨ stage = .lookup then none else some a
  | prune _ _ => none

def Probe.guards (pr : Probe A) : Option A :=
  if pr.stage = .resetting ∨ pr.stage = .recovering then some pr.addr else none

def Op.isStart : Op A S → Prop
  | failure _ stage => stage = .start
  | success _ stage => stage = .start
  | prune _ stage => stage = .start

/-- The registry with the operations that run on it. -/
structure World (A S : Type) where
  registry : Registry A
  ops : ℕ → Option (Op A S)

/-- No guard is held on an entry of the shard. -/
def World.Free (w : World A S) (shardOf : A → S) (s : S) : Prop :=
  (∀ id op a, w.ops id = some op → op.guards = some a → shardOf a ≠ s) ∧
    ∀ p pr a, w.registry.probes p = some pr → pr.guards = some a → shardOf a ≠ s

variable (shardOf : A → S) in
inductive Step (w : World A S) : World A S → Prop
  | begin {id op} : w.ops id = none → op.isStart →
      Step w { w with ops := Function.update w.ops id (some op) }
  | act {id op r next} : w.ops id = some op → OpStep shardOf (w.Free shardOf) w.registry op r next →
      Step w ⟨r, Function.update w.ops id next⟩
  | probe {p r} : ProbeStep w.registry p r →
      Step w { w with registry := r }

/-- A registry without entries, and nothing running. -/
def Fresh (w : World A S) : Prop :=
  (∀ a, w.registry.backends a = none) ∧ w.registry.tracked = false ∧
    (∀ p, w.registry.probes p = none) ∧ ∀ id, w.ops id = none

end

open Registry

variable {r : Registry A} {pr : Probe A} {p : ℕ} {a : A} {e : BackendHealth}

section

def Runs (ops : ℕ → Option (Op A S)) (op : Op A S) : Prop :=
  ∃ id, ops id = some op

variable {ops : ℕ → Option (Op A S)} {id : ℕ} {op : Op A S} {next : Option (Op A S)}
  {e' : BackendHealth}

theorem Runs.update {op' : Op A S} (h : Runs ops op')
    (hid : ops id = some op) (hne : op ≠ op') : Runs (Function.update ops id next) op' := by
  obtain ⟨j, hj⟩ := h
  refine ⟨j, ?_⟩
  rw [update_of_ne, hj]
  rintro rfl
  exact hne (Option.some.inj (hid.symm.trans hj))

theorem Runs.self : Runs (Function.update ops id (some op)) op :=
  ⟨id, update_self ..⟩

theorem Runs.begin (h : Runs ops op) (hid : ops id = none) :
    Runs (Function.update ops id next) op := by
  obtain ⟨j, hj⟩ := h
  refine ⟨j, ?_⟩
  rw [update_of_ne, hj]
  rintro rfl
  simp [hid] at hj

/-- Operations that answer for an entry while the flag is lowered: the failure that inserted
it has yet to raise the flag, or a prune has yet to look at its shard again. -/
def Op.covers (shardOf : A → S) (a : A) : Op A S → Prop
  | failure b stage => b = a ∧ (stage = .inserted ∨ stage = .lowered)
  | success _ _ => False
  | prune _ (.rechecking visited) => shardOf a ∉ visited
  | prune _ .raising => True
  | prune _ _ => False

def Covered (shardOf : A → S) (ops : ℕ → Option (Op A S)) (a : A) : Prop :=
  ∃ op, Runs ops op ∧ op.covers shardOf a

theorem Covered.update {shardOf : A → S} (h : Covered shardOf ops a)
    (hid : ops id = some op) (hcovers : ¬ op.covers shardOf a) :
    Covered shardOf (Function.update ops id next) a := by
  obtain ⟨op', hruns, hop'⟩ := h
  exact ⟨op', hruns.update hid (by rintro rfl; exact hcovers hop'), hop'⟩

/-- The slot holds the handle of a probe of the address that runs and was not told to stop. -/
def Registry.Probed (r : Registry A) (a : A) (e : BackendHealth) : Prop :=
  ∃ p pr, e.probe = some p ∧ r.probes p = some pr ∧ pr.addr = a ∧ pr.aborted = false

/-- What holds of an entry: its slot holds no handle but of a live probe of it, and unless it is
healthy there is a probe or an operation to see to it. -/
structure EntryOk (shardOf : A → S) (w : World A S) (a : A) (e : BackendHealth) : Prop where
  slot {p : ℕ} : e.probe = some p → p < w.registry.nextProbe ∧
    ∀ pr, w.registry.probes p = some pr → pr.addr = a ∧ pr.aborted = false
  probing : e.status = .probing → w.registry.Probed a e ∨ Runs w.ops (.failure a .won)
  unhealthy : e.status = .unhealthy → Runs w.ops (.failure a .claiming)
  untracked : w.registry.tracked = false → Covered shardOf w.ops a

structure Inv (shardOf : A → S) (w : World A S) : Prop where
  probe_lt {p : ℕ} {pr : Probe A} : w.registry.probes p = some pr → p < w.registry.nextProbe
  entry {a : A} {e : BackendHealth} : w.registry.backends a = some e → EntryOk shardOf w a e

variable {shardOf : A → S} {w : World A S} {routed : A → Bool} {f : BackendHealth}

theorem Inv.fresh (h : Fresh w) : Inv shardOf w := by
  obtain ⟨hbackends, -, hprobes, -⟩ := h
  constructor <;> simp [hbackends, hprobes]

theorem EntryOk.move (h : EntryOk shardOf w a e)
    (hwon : Runs w.ops (.failure a .won) → Runs ops (.failure a .won))
    (hclaiming : Runs w.ops (.failure a .claiming) → Runs ops (.failure a .claiming))
    (hcovered : w.registry.tracked = false → Covered shardOf w.ops a → Covered shardOf ops a) :
    EntryOk shardOf { w with ops := ops } a e where
  slot := h.slot
  probing hs := (h.probing hs).imp_right hwon
  unhealthy hs := hclaiming (h.unhealthy hs)
  untracked ht := hcovered ht (h.untracked ht)

theorem Inv.goesOn (h : Inv shardOf w) (hid : w.ops id = some op)
    (hwon : ∀ a, op ≠ .failure a .won) (hclaiming : ∀ a, op ≠ .failure a .claiming)
    (hcovers : ∀ a e, w.registry.tracked = false → w.registry.backends a = some e →
      op.covers shardOf a → ∃ op', next = some op' ∧ op'.covers shardOf a) :
    Inv shardOf { w with ops := Function.update w.ops id next } := by
  refine ⟨h.probe_lt, fun {a e} ha => (h.entry ha).move (fun hr => hr.update hid (hwon a))
    (fun hr => hr.update hid (hclaiming a)) fun ht hc => ?_⟩
  by_cases hop : op.covers shardOf a
  · obtain ⟨op', rfl, hop'⟩ := hcovers a e ht ha hop
    exact ⟨op', Runs.self, hop'⟩
  · exact hc.update hid hop

theorem Inv.setTracked (h : Inv shardOf w) :
    Inv shardOf { w with registry := { w.registry with tracked := true } } where
  probe_lt := h.probe_lt
  entry ha := ⟨(h.entry ha).slot, (h.entry ha).probing, (h.entry ha).unhealthy, by simp⟩

theorem Inv.abort (h : Inv shardOf w) (ha : w.registry.backends a = some e) {b : A}
    (hb : w.registry.backends b = some f) (hba : b ≠ a) (hp : f.probe = some p) :
    abort w.registry.probes e.probe p = w.registry.probes p := by
  cases hpr : w.registry.probes p with
  | none => simp [Health.abort, hpr]
  | some pr =>
    have hne : e.probe ≠ some p := fun hep =>
      hba ((((h.entry hb).slot hp).2 pr hpr).1.symm.trans (((h.entry ha).slot hep).2 pr hpr).1)
    simp [Health.abort, hpr, hne]

section

variable [DecidableEq S]

theorem Registry.retainShard_backends {s : S}
    (h : (r.retainShard shardOf routed s).backends a = some e) :
    r.backends a = some e ∧ ¬ (shardOf a = s ∧ routed a = false) := by
  simp only [retainShard, decide_eq_true_eq] at h
  split at h
  · cases h
  · exact ⟨h, by assumption⟩

theorem Registry.retainShard_probes {s : S} (hpr : r.probes p = some pr)
    (hstay : ¬ (shardOf pr.addr = s ∧ routed pr.addr = false)) :
    (r.retainShard shardOf routed s).probes p = some pr := by
  simp [retainShard, hpr, hstay]

theorem Inv.retainShard (h : Inv shardOf w) (routed : A → Bool) (s : S) :
    Inv shardOf { w with registry := w.registry.retainShard shardOf routed s } where
  probe_lt hpr := by
    simp only [Registry.retainShard, Option.map_eq_some_iff] at hpr
    obtain ⟨pr', hpr', -⟩ := hpr
    exact h.probe_lt hpr'
  entry ha := by
    obtain ⟨ha, hstay⟩ := retainShard_backends ha
    have hentry := h.entry ha
    refine ⟨fun {p} hp => ⟨(hentry.slot hp).1, fun pr hpr => ?_⟩, fun hs => ?_, hentry.unhealthy,
      hentry.untracked⟩
    · cases hq : w.registry.probes p with
      | none => simp [Registry.retainShard, hq] at hpr
      | some pr' =>
        obtain ⟨rfl, haborted⟩ := (hentry.slot hp).2 pr' hq
        rw [retainShard_probes hq hstay] at hpr
        cases hpr
        exact ⟨rfl, haborted⟩
    · refine (hentry.probing hs).imp_left ?_
      rintro ⟨p, pr, hp, hpr, rfl, haborted⟩
      exact ⟨p, pr, hp, retainShard_probes hpr hstay, rfl, haborted⟩

end

/-- A prune that lowers the flag answers for every entry. -/
theorem Inv.lower (h : Inv shardOf w) (hid : w.ops id = some (.prune routed .lowering)) :
    Inv shardOf ⟨{ w.registry with tracked := false },
      Function.update w.ops id (some (.prune routed (.rechecking ∅)))⟩ where
  probe_lt := h.probe_lt
  entry ha :=
    { slot := (h.entry ha).slot
      probing := fun hs => ((h.entry ha).probing hs).imp_right fun hr => hr.update hid (by simp)
      unhealthy := fun hs => ((h.entry ha).unhealthy hs).update hid (by simp)
      untracked := fun _ => ⟨_, Runs.self, by simp [Op.covers]⟩ }

/-- A probe goes on, or ends when it was told to or finds nothing to probe. -/
theorem Inv.setProbe (h : Inv shardOf w) (hp : w.registry.probes p = some pr)
    {next : Option (Probe A)}
    (hnext : ∀ pr', next = some pr' → pr'.addr = pr.addr ∧ pr'.aborted = pr.aborted)
    (hend : next = none → pr.aborted = true ∨
      ∀ e, w.registry.backends pr.addr = some e → e.status ≠ .probing) :
    Inv shardOf { w with registry := { w.registry with
      probes := Function.update w.registry.probes p next } } := by
  -- a probe that runs after the step ran before it, of the same address
  have hold {q : ℕ} {pr' : Probe A} (hq : Function.update w.registry.probes p next q = some pr') :
      ∃ pr, w.registry.probes q = some pr ∧ pr'.addr = pr.addr ∧ pr'.aborted = pr.aborted := by
    by_cases hqp : q = p
    · subst hqp
      exact ⟨pr, hp, hnext pr' (by simpa using hq)⟩
    · exact ⟨pr', by simpa [hqp] using hq, rfl, rfl⟩
  constructor
  · intro q pr' hq
    obtain ⟨pr, hpr, -⟩ := hold hq
    exact h.probe_lt hpr
  · intro a e ha
    have hentry := h.entry ha
    refine ⟨fun {q} hslot => ⟨(hentry.slot hslot).1, fun pr' hq => ?_⟩, fun hs => ?_,
      hentry.unhealthy, hentry.untracked⟩
    · obtain ⟨pr, hpr, haddr, haborted⟩ := hold hq
      rw [haddr, haborted]
      exact (hentry.slot hslot).2 pr hpr
    · refine (hentry.probing hs).imp_left ?_
      rintro ⟨q, pr', hslot, hq, rfl, hlive⟩
      by_cases hqp : q = p
      · subst hqp
        obtain rfl : pr = pr' := by simpa [hp] using hq
        cases hn : next with
        | none =>
          rcases hend hn with haborted | hstatus
          · simp [haborted] at hlive
          · exact absurd hs (hstatus e ha)
        | some pr' =>
          obtain ⟨haddr, haborted⟩ := hnext pr' hn
          exact ⟨q, pr', hslot, by simp, haddr, haborted.trans hlive⟩
      · exact ⟨q, pr', hslot, by simpa [hqp] using hq, rfl, hlive⟩

theorem Inv.moveProbe (h : Inv shardOf w) (hp : w.registry.probes p = some pr)
    (stage : ProbeStage) : Inv shardOf { w with registry := w.registry.moveProbe p pr stage } :=
  h.setProbe hp (by simp +contextual [eq_comm]) nofun

theorem Inv.endProbe (h : Inv shardOf w) (hp : w.registry.probes p = some pr)
    (hend : pr.aborted = true ∨ ∀ e, w.registry.backends pr.addr = some e → e.status ≠ .probing) :
    Inv shardOf { w with registry := w.registry.endProbe p } :=
  h.setProbe hp nofun fun _ => hend

variable [DecidableEq A]

theorem Registry.set_eq_some {b : A} :
    (r.set a e).backends b = some f ↔ b = a ∧ e = f ∨ b ≠ a ∧ r.backends b = some f := by
  by_cases hba : b = a <;> simp [set, hba]

/-- One entry is new, and the operations go on without harm to the others. -/
theorem Inv.put (h : Inv shardOf w) (hentry : EntryOk shardOf { w with ops := ops } a e')
    (hwon : ∀ b, Runs w.ops (.failure b .won) → Runs ops (.failure b .won))
    (hclaiming : ∀ b, b ≠ a → Runs w.ops (.failure b .claiming) → Runs ops (.failure b .claiming))
    (hcovered : ∀ b, Covered shardOf w.ops b → Covered shardOf ops b) :
    Inv shardOf ⟨w.registry.set a e', ops⟩ where
  probe_lt := h.probe_lt
  entry {b f} hb := by
    have hok : EntryOk shardOf { w with ops := ops } b f := by
      rcases set_eq_some.mp hb with ⟨rfl, rfl⟩ | ⟨hba, hb⟩
      · exact hentry
      · exact (h.entry hb).move (hwon b) (hclaiming b hba) fun _ => hcovered b
    exact ⟨hok.slot, hok.probing, hok.unhealthy, hok.untracked⟩

/-- An entry changes with the operation that changes it; its slot stays. -/
theorem Inv.set (h : Inv shardOf w) (ha : w.registry.backends a = some e)
    (hslot : e'.probe = e.probe)
    (hwon : ∀ b, Runs w.ops (.failure b .won) → Runs ops (.failure b .won))
    (hclaiming : ∀ b, b ≠ a → Runs w.ops (.failure b .claiming) → Runs ops (.failure b .claiming))
    (hcovered : ∀ b, Covered shardOf w.ops b → Covered shardOf ops b)
    (hprobing : e'.status = .probing → e.status = .probing ∨ Runs ops (.failure a .won))
    (hunhealthy : e'.status = .unhealthy → Runs ops (.failure a .claiming)) :
    Inv shardOf ⟨w.registry.set a e', ops⟩ := by
  have hentry := h.entry ha
  refine h.put ⟨fun hp => hentry.slot (hslot ▸ hp), fun hs => ?_, hunhealthy,
    fun ht => hcovered a (hentry.untracked ht)⟩ hwon hclaiming hcovered
  rcases hprobing hs with hs | hruns
  · refine (hentry.probing hs).imp ?_ (hwon a)
    rintro ⟨p, pr, hp, hpr⟩
    exact ⟨p, pr, hslot.trans hp, hpr⟩
  · exact .inr hruns

theorem Inv.setNext (h : Inv shardOf w) (hid : w.ops id = some op)
    (ha : w.registry.backends a = some e) (hslot : e'.probe = e.probe)
    (hwon : ∀ b, op ≠ .failure b .won) (hclaiming : ∀ b, b ≠ a → op ≠ .failure b .claiming)
    (hcovers : ∀ b, ¬ op.covers shardOf b)
    (hprobing : e'.status = .probing → e.status = .probing ∨ next = some (.failure a .won))
    (hunhealthy : e'.status = .unhealthy → next = some (.failure a .claiming) ∨
      e.status = .unhealthy ∧ op ≠ .failure a .claiming) :
    Inv shardOf ⟨w.registry.set a e', Function.update w.ops id next⟩ := by
  refine h.set ha hslot (fun b hr => hr.update hid (hwon b))
    (fun b hb hr => hr.update hid (hclaiming b hb)) (fun b hc => hc.update hid (hcovers b)) ?_ ?_
  · intro hs
    refine (hprobing hs).imp_right ?_
    rintro rfl
    exact Runs.self
  · intro hs
    rcases hunhealthy hs with rfl | ⟨hu, hne⟩
    · exact Runs.self
    · exact ((h.entry ha).unhealthy hu).update hid hne

/-- A failure finds its entry or inserts it, and from then on answers for it. -/
theorem Inv.insert (h : Inv shardOf w) (hid : w.ops id = some (.failure a .start)) :
    Inv shardOf ⟨w.registry.set a ((w.registry.backends a).getD .fresh),
      Function.update w.ops id (some (.failure a .inserted))⟩ := by
  cases ha : w.registry.backends a with
  | some e =>
    refine h.setNext hid ha rfl (by simp) (by simp) (by simp [Op.covers]) .inl ?_
    exact fun hs => .inr ⟨hs, by simp⟩
  | none =>
    exact h.put ⟨nofun, nofun, nofun, fun _ => ⟨_, Runs.self, rfl, .inl rfl⟩⟩
      (fun b hr => hr.update hid (by simp)) (fun b _ hr => hr.update hid (by simp))
      fun b hc => hc.update hid (by simp [Op.covers])

/-- The caller that won gives its entry a live probe. -/
theorem Inv.spawnProbe (h : Inv shardOf w) (hid : w.ops id = some (.failure a .won)) :
    Inv shardOf ⟨w.registry.spawnProbe a, Function.update w.ops id none⟩ := by
  -- what the other entries rest on, but for the probes
  have hother {b : A} {f : BackendHealth} (hb : w.registry.backends b = some f) (hba : b ≠ a) :
      EntryOk shardOf { w with ops := Function.update w.ops id none } b f :=
    (h.entry hb).move (fun hr => hr.update hid (by simpa using hba.symm))
      (fun hr => hr.update hid (by simp)) fun _ hc => hc.update hid (by simp [Op.covers])
  unfold Registry.spawnProbe
  cases ha : w.registry.backends a with
  | none =>
    constructor
    · intro p pr hpr
      by_cases hpn : p = w.registry.nextProbe
      · simp [hpn]
      · exact Nat.lt_succ_of_lt (h.probe_lt (by simpa [hpn] using hpr))
    · intro b f hb
      have hok := hother hb (by rintro rfl; cases ha.symm.trans hb)
      refine ⟨fun hp => ⟨Nat.lt_succ_of_lt (hok.slot hp).1, fun pr hpr => ?_⟩,
        fun hs => (hok.probing hs).imp_left ?_, hok.unhealthy, hok.untracked⟩
      · exact (hok.slot hp).2 pr (by simpa [(hok.slot hp).1.ne] using hpr)
      · rintro ⟨p, pr, hp, hpr, hlive⟩
        exact ⟨p, pr, hp, by simpa [(hok.slot hp).1.ne] using hpr, hlive⟩
  | some e =>
    constructor
    · intro p pr hpr
      by_cases hpn : p = w.registry.nextProbe
      · simp [hpn]
      · simp only [update_of_ne hpn, Health.abort, Option.map_eq_some_iff] at hpr
        obtain ⟨pr', hpr', -⟩ := hpr
        exact Nat.lt_succ_of_lt (h.probe_lt hpr')
    · intro b f hb
      rcases set_eq_some.mp hb with ⟨rfl, rfl⟩ | ⟨hba, hb⟩
      · refine ⟨?_, fun _ => .inl ?_, fun hs => ((h.entry ha).unhealthy hs).update hid (by simp),
          fun ht => ((h.entry ha).untracked ht).update hid (by simp [Op.covers])⟩
        · rintro p ⟨⟩
          refine ⟨Nat.lt_succ_self _, fun pr hpr => ?_⟩
          obtain rfl : (⟨b, .asleep, false⟩ : Probe A) = pr := by simpa using hpr
          exact ⟨rfl, rfl⟩
        · exact ⟨w.registry.nextProbe, ⟨b, .asleep, false⟩, rfl, by simp, rfl, rfl⟩
      · have hok := hother hb hba
        have hsame {p : ℕ} (hp : f.probe = some p) :
            Function.update (Health.abort w.registry.probes e.probe) w.registry.nextProbe
              (some ⟨a, .asleep, false⟩) p = w.registry.probes p := by
          rw [update_of_ne (hok.slot hp).1.ne, h.abort ha hb hba hp]
        refine ⟨fun hp => ⟨Nat.lt_succ_of_lt (hok.slot hp).1, fun pr hpr => ?_⟩,
          fun hs => (hok.probing hs).imp_left ?_, hok.unhealthy, hok.untracked⟩
        · exact (hok.slot hp).2 pr ((hsame hp).symm.trans hpr)
        · rintro ⟨p, pr, hp, hpr, hlive⟩
          exact ⟨p, pr, hp, (hsame hp).trans hpr, hlive⟩

theorem Inv.opStep [DecidableEq S] (h : Inv shardOf w) {free : S → Prop}
    (hid : w.ops id = some op) (hstep : OpStep shardOf free w.registry op r next) :
    Inv shardOf ⟨r, Function.update w.ops id next⟩ := by
  cases hstep with
  | insert => exact h.insert hid
  | failureTracked =>
    refine h.goesOn hid (by simp) (by simp) fun a e ht _ hc => ?_
    exact ⟨_, rfl, hc.1, by simp [ht]⟩
  | raise =>
    refine h.setTracked.goesOn hid (by simp) (by simp) (by simp)
  | count ha | successReset ha =>
    refine h.setNext hid ha rfl (by simp) (by simp) (by simp [Op.covers]) .inl ?_
    exact fun hs => .inr ⟨hs, by simp⟩
  | mark ha =>
    refine h.setNext hid ha rfl (by simp) (by simp) (by simp [Op.covers]) ?_ (fun _ => .inl rfl)
    intro hs
    split at hs
    · cases hs
    · exact .inl hs
  | claim ha =>
    refine h.setNext hid ha rfl (by simp) ?_ (by simp [Op.covers]) ?_ ?_
    · simpa using fun b (hb : b ≠ _) => hb.symm
    · intro hs
      split at hs
      · next hu => exact .inr (if_pos hu)
      · exact .inl hs
    · intro hs
      split at hs
      · cases hs
      · next hu => exact absurd hs hu
  | spawn => exact h.spawnProbe hid
  | successTracked | successLookup | successStatus _ | successFailures _ | pruneTracked
  | retained _ | checkEmpty _ _ | checkFull _ _ | checked _ =>
    exact h.goesOn hid (by simp) (by simp) (by simp [Op.covers])
  | successStore ha =>
    exact h.setNext hid ha rfl (by simp) (by simp) (by simp [Op.covers]) (by simp) (by simp)
  | retain _ _ =>
    exact (h.retainShard _ _).goesOn hid (by simp) (by simp) (by simp [Op.covers])
  | lower => exact h.lower hid
  | @recheckEmpty _ _ s _ hempty =>
    refine h.goesOn hid (by simp) (by simp) fun a e _ ha hc => ⟨_, rfl, ?_⟩
    -- the shard is empty, so the entry is in one yet to be visited
    have hne : shardOf a ≠ s := fun hs => by simp [hempty a hs] at ha
    simpa [Op.covers, hne] using hc
  | recheckFull _ _ =>
    exact h.goesOn hid (by simp) (by simp) fun a e _ _ _ => ⟨_, rfl, trivial⟩
  | rechecked hall =>
    exact h.goesOn hid (by simp) (by simp) fun a e _ _ hc => absurd (hall _) hc
  | reraise => exact h.setTracked.goesOn hid (by simp) (by simp) (by simp)

theorem Inv.probeStep (h : Inv shardOf w) (hstep : ProbeStep w.registry p r) :
    Inv shardOf { w with registry := r } := by
  cases hstep with
  | wake hp _ =>
    split
    · exact h.moveProbe hp _
    · next hany =>
      refine h.endProbe hp (.inr fun e he hs => hany ?_)
      simp [he, hs]
  | refused hp _ | connect hp _ | enter hp _ _ => exact h.moveProbe hp _
  | gone hp _ hnone => exact h.endProbe hp (.inr fun e he => by simp [hnone] at he)
  | @reset pr e hp _ he =>
    have hset : Inv shardOf ⟨w.registry.set pr.addr { e with consecutiveFailures := 0 }, w.ops⟩ :=
      h.set he rfl (fun _ => id) (fun _ _ => id) (fun _ => id) .inl (h.entry he).unhealthy
    exact hset.moveProbe hp _
  | @recover pr e hp _ he =>
    have hset : Inv shardOf ⟨w.registry.set pr.addr { e with
        status := if e.status = .probing then .healthy else e.status }, w.ops⟩ := by
      refine h.set he rfl (fun _ => id) (fun _ _ => id) (fun _ => id) ?_ ?_
      · intro hs
        split at hs
        · cases hs
        · exact .inl hs
      · intro hs
        split at hs
        · cases hs
        · exact (h.entry he).unhealthy hs
    refine hset.endProbe hp (.inr fun f hf hs => ?_)
    rcases set_eq_some.mp hf with ⟨-, rfl⟩ | ⟨hne, -⟩
    · simp only at hs
      split at hs
      · cases hs
      · next hne => exact hne hs
    · exact hne rfl
  | land hp haborted _ => exact h.endProbe hp (.inl haborted)

theorem Inv.step [DecidableEq S] {w' : World A S} (h : Inv shardOf w) (hstep : Step shardOf w w') :
    Inv shardOf w' := by
  cases hstep with
  | begin hid _ =>
    refine ⟨h.probe_lt, fun ha => (h.entry ha).move (·.begin hid) (·.begin hid) ?_⟩
    rintro _ ⟨op, hr, hc⟩
    exact ⟨op, hr.begin hid, hc⟩
  | act hid hop => exact h.opStep hid hop
  | probe hp => exact h.probeStep hp

end

section

theorem exists_of_not_isHealthy (h : r.isHealthy a = false) :
    ∃ e, r.backends a = some e ∧ e.status ≠ .healthy := by
  cases ha : r.backends a with
  | none => simp [isHealthy, ha] at h
  | some e =>
    simp only [isHealthy, ha, Option.all_some, Bool.or_eq_false_iff, decide_eq_false_iff_not] at h
    exact ⟨e, rfl, h.2⟩

variable [DecidableEq A] [DecidableEq S] {shardOf : A → S} {w : World A S}

theorem inv_of_reachable (h : Reachable Fresh (Step shardOf) w) : Inv shardOf w :=
  h.invariant (fun _ => Inv.fresh) fun _ _ => Inv.step

/-- The steps of one probe alone bring its backend back. -/
def Recovers (r : Registry A) (p : ℕ) (a : A) : Prop :=
  ∃ r', Relation.ReflTransGen (ProbeStep · p ·) r r' ∧ r'.isHealthy a = true

theorem Recovers.of_step {r' : Registry A} (hstep : ProbeStep r p r')
    (h : Recovers r' p a) : Recovers r p a := by
  obtain ⟨t, hrun, ht⟩ := h
  exact ⟨t, .head hstep hrun, ht⟩

/-- A probe whose backend accepts goes from stage to stage until its entry is healthy. -/
theorem recovers_of_probing (ha : r.backends pr.addr = some e) (hs : e.status = .probing)
    (hp : r.probes p = some pr) : Recovers r p pr.addr := by
  have recovering {r : Registry A} {e : BackendHealth} (ha : r.backends pr.addr = some e)
      (hs : e.status = .probing) (hp : r.probes p = some { pr with stage := .recovering }) :
      Recovers r p pr.addr := by
    refine .of_step (.recover hp rfl ha) ⟨_, .refl, ?_⟩
    simp [Registry.isHealthy, Registry.endProbe, Registry.set, hs]
  have resetting {r : Registry A} (ha : r.backends pr.addr = some e)
      (hp : r.probes p = some { pr with stage := .resetting }) : Recovers r p pr.addr := by
    have hset : (r.set pr.addr { e with consecutiveFailures := 0 }).backends pr.addr =
        some { e with consecutiveFailures := 0 } := by simp [Registry.set]
    exact .of_step (.reset hp rfl ha) (recovering hset hs (by simp [Registry.moveProbe]))
  have connected {r : Registry A} (ha : r.backends pr.addr = some e)
      (hp : r.probes p = some { pr with stage := .connected }) : Recovers r p pr.addr :=
    .of_step (.enter hp rfl ha) (resetting ha (by simp [Registry.moveProbe]))
  have connecting {r : Registry A} (ha : r.backends pr.addr = some e)
      (hp : r.probes p = some { pr with stage := .connecting }) : Recovers r p pr.addr :=
    .of_step (.connect hp rfl) (connected ha (by simp [Registry.moveProbe]))
  obtain ⟨addr, stage, aborted⟩ := pr
  cases stage with
  | asleep =>
    have hwake := ProbeStep.wake hp rfl
    rw [if_pos (by simp [ha, hs])] at hwake
    exact .of_step hwake (connecting ha (by simp [Registry.moveProbe]))
  | connecting => exact connecting ha hp
  | connected => exact connected ha hp
  | resetting => exact resetting ha hp
  | recovering => exact recovering ha hs hp

/-- Along every run of failures, successes, prunes and probes: an entry that is probed has a
live probe or a caller about to spawn one; none stays unhealthy after the failures that marked
it; one that is not healthy has a probe that can bring it back; and with no operation running a
lowered flag means an empty map. -/
theorem no_backend_parked (shardOf : A → S) (w : World A S) (h : Reachable Fresh (Step shardOf) w) :
    (∀ a e, w.registry.backends a = some e → e.status = .probing →
      w.registry.Probed a e ∨ Runs w.ops (.failure a .won)) ∧
    (∀ a e, w.registry.backends a = some e →
      (∀ stage, Runs w.ops (.failure a stage) → stage = .won) → e.status ≠ .unhealthy) ∧
    (∀ a, (∀ stage, ¬ Runs w.ops (.failure a stage)) → w.registry.isHealthy a = false →
      ∃ e p, w.registry.backends a = some e ∧ e.probe = some p ∧ w.registry.Probed a e ∧
        Recovers w.registry p a) ∧
    ((∀ op, ¬ Runs w.ops op) → w.registry.tracked = false → ∀ a, w.registry.backends a = none) := by
  have hinv := inv_of_reachable h
  refine ⟨fun a e ha => (hinv.entry ha).probing, ?_, ?_, ?_⟩
  · intro a e ha hops hs
    cases hops _ ((hinv.entry ha).unhealthy hs)
  · intro a hops hhealthy
    obtain ⟨e, ha, hs⟩ := exists_of_not_isHealthy hhealthy
    have hprobing : e.status = .probing := by
      cases hst : e.status with
      | healthy => exact absurd hst hs
      | unhealthy => exact absurd ((hinv.entry ha).unhealthy hst) (hops _)
      | probing => rfl
    obtain ⟨p, pr, hslot, hp, rfl, haborted⟩ :=
      ((hinv.entry ha).probing hprobing).resolve_right (hops _)
    exact ⟨e, p, ha, hslot, ⟨p, pr, hslot, hp, rfl, haborted⟩, recovers_of_probing ha hprobing hp⟩
  · intro hops ht a
    cases ha : w.registry.backends a with
    | none => rfl
    | some e =>
      obtain ⟨op, hop, -⟩ := (hinv.entry ha).untracked ht
      exact absurd hop (hops op)

end

/-- One backend, with at most one operation running. -/
def lone (r : Registry Unit) (op : Option (Op Unit Unit)) : World Unit Unit :=
  ⟨r, fun id => if id = 0 then op else none⟩

def down (failures : UInt32) (status : Status) : Registry Unit :=
  ⟨fun _ => some ⟨failures, status, none⟩, true, fun _ => none, 0⟩

def oneShard : Unit → Unit := id

theorem lone_update (r r' : Registry Unit) (op next : Option (Op Unit Unit)) :
    (⟨r', Function.update (lone r op).ops 0 next⟩ : World Unit Unit) = lone r' next := by
  simp only [lone, World.mk.injEq, true_and]
  ext1 id
  by_cases hid : id = 0 <;> simp [hid]

theorem lone_begin {r : Registry Unit} (op : Op Unit Unit) (hop : op.isStart) :
    Step oneShard (lone r none) (lone r (some op)) := by
  have hid : (lone r none).ops 0 = none := rfl
  exact lone_update r r none (some op) ▸ .begin hid hop

theorem lone_act {r r' : Registry Unit} {op : Op Unit Unit} {next : Option (Op Unit Unit)}
    (h : OpStep oneShard ((lone r (some op)).Free oneShard) r op r' next) :
    Step oneShard (lone r (some op)) (lone r' next) := by
  have hid : (lone r (some op)).ops 0 = some op := rfl
  exact lone_update r r' (some op) next ▸ .act hid h

theorem down_set (failures failures' : UInt32) (status status' : Status) :
    (down failures status).set () ⟨failures', status', none⟩ = down failures' status' := by
  simp only [down, Registry.set, Registry.mk.injEq, and_true]
  ext1 a
  simp

theorem down_backends (failures : UInt32) (status : Status) :
    (down failures status).backends () = some ⟨failures, status, none⟩ := rfl

theorem down_count {free : Unit → Prop} (failures : UInt32) :
    OpStep oneShard free (down failures .healthy) (.failure () .counting)
      (down (failures + 1) .healthy)
      (if failureThreshold ≤ failures + 1 then some (.failure () .marking) else none) := by
  rw [← down_set failures _ .healthy]
  exact .count (down_backends ..)

theorem first_failure : Reachable Fresh (Step oneShard) (lone (down 1 .healthy) none) := by
  have start : Reachable Fresh (Step oneShard)
      (lone ⟨fun _ => none, false, fun _ => none, 0⟩ none) :=
    .start ⟨fun _ => rfl, rfl, fun _ => rfl, fun _ => ite_self none⟩
  have inserted := (start.step (lone_begin (.failure () .start) rfl)).step (lone_act .insert)
  have lowered := inserted.step (lone_act .failureTracked)
  have raised : Reachable Fresh (Step oneShard)
      (lone (down 0 .healthy) (some (.failure () .counting))) := by
    rw [← down_set 0 _ .healthy]
    exact lowered.step (lone_act .raise)
  exact raised.step (lone_act (down_count 0))

theorem later_failure {failures : UInt32}
    (h : Reachable Fresh (Step oneShard) (lone (down failures .healthy) none)) :
    Reachable Fresh (Step oneShard) (lone (down (failures + 1) .healthy)
      (if failureThreshold ≤ failures + 1 then some (.failure () .marking) else none)) := by
  have begun := h.step (lone_begin (.failure () .start) rfl)
  have inserted : Reachable Fresh (Step oneShard)
      (lone (down failures .healthy) (some (.failure () .inserted))) := by
    rw [← down_set failures _ .healthy]
    exact begun.step (lone_act .insert)
  exact (inserted.step (lone_act .failureTracked)).step (lone_act (down_count failures))

/-- The third failure marks the backend, and its caller wins the probe. -/
theorem third_failure :
    Reachable Fresh (Step oneShard) (lone (down 3 .probing) (some (.failure () .won))) := by
  have marking : Reachable Fresh (Step oneShard)
      (lone (down 3 .healthy) (some (.failure () .marking))) :=
    later_failure (later_failure first_failure)
  have claiming : Reachable Fresh (Step oneShard)
      (lone (down 3 .unhealthy) (some (.failure () .claiming))) := by
    rw [← down_set 3 _ .healthy]
    exact marking.step (lone_act (.mark (down_backends ..)))
  rw [← down_set 3 _ .unhealthy]
  exact claiming.step (lone_act (.claim (down_backends ..)))

/-- After the spawn that the third failure owes, the probe alone can bring the backend back. -/
theorem no_backend_parked_third :
    ((down 3 .probing).spawnProbe ()).isHealthy () = false ∧
      ∃ p, Recovers ((down 3 .probing).spawnProbe ()) p () := by
  obtain ⟨-, -, hparked, -⟩ :=
    no_backend_parked oneShard _ (third_failure.step (lone_act .spawn))
  obtain ⟨e, p, -, -, -, hrec⟩ := hparked () (by simp [Runs, lone]) rfl
  exact ⟨rfl, p, hrec⟩

end Portail.Proxy.Health
