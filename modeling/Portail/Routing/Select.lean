import Mathlib.Data.UInt
import Portail.Lib.Checked
import Portail.Lib.Slots
import Portail.Routing.Types

/-!
# Weighted backend selection

The selectors of `routing/mod.rs`: weighted round robin over the backends of an HTTP
rule, by the prefix sums computed when the rule entered the table, and over the
backends of an L4 route, by a walk. All sums are 64-bit and checked. The health
registry is the answer `isHealthy` gives for an address.
-/

namespace Portail.Routing

open Lib Backend List Option

section

/-- What `push_route` computes once for a rule. -/
structure RuleWeights where
  cumulativeWeights : List ℕ
  totalWeight : ℕ
  deriving DecidableEq

def RuleWeights.push (w : RuleWeights) (b : Backend) : Except Fault RuleWeights := do
  let cumulative ← addU64 w.totalWeight b.weight.toNat
  return ⟨w.cumulativeWeights ++ [cumulative], cumulative⟩

def ruleWeights (backends : List Backend) : Except Fault RuleWeights :=
  backends.foldlM RuleWeights.push ⟨[], 0⟩

/-- The walk of `slot_owner` and `nth_healthy_weighted` over the backends that are not skipped,
`cumulative` the weight already passed. -/
def walkFrom (skip : Backend → Bool) (slot : ℕ) : ℕ → List Backend → Except Fault (Option ℕ)
  | _, [] => .ok none
  | cumulative, b :: rest =>
    if skip b then do
      return (← walkFrom skip slot cumulative rest).map (· + 1)
    else do
      let cumulative ← addU64 cumulative b.weight.toNat
      if cumulative > slot then return some 0
      else return (← walkFrom skip slot cumulative rest).map (· + 1)

/-- The backend owning weighted slot `slot` of the configured weights. -/
def slotOwner (backends : List Backend) (slot : ℕ) : Except Fault (Option ℕ) :=
  walkFrom (fun _ => false) slot 0 backends

variable (isHealthy : SocketAddr → Bool)

def serves (b : Backend) : Bool := 0 < b.weight && isHealthy b.socketAddr

def forwards (b : Backend) : Bool := b.action != .reject && serves isHealthy b

def nthHealthyWeighted (backends : List Backend) (slot : ℕ) : Except Fault (Option ℕ) :=
  walkFrom (fun b => b.weight == 0 || b.action == .reject || !isHealthy b.socketAddr) slot 0
    backends

/-- The sums of `select_degraded`. -/
structure DegradedSums where
  cumulative : ℕ
  rejected : ℕ
  rejectedBelowSlot : ℕ
  healthy : ℕ
  deriving DecidableEq

def DegradedSums.add (slot : ℕ) (s : DegradedSums) (b : Backend) : Except Fault DegradedSums := do
  let weight := b.weight.toNat
  let s ← if b.action = .reject then do
      let rejected ← addU64 s.rejected weight
      let stop ← addU64 s.cumulative weight
      let below ← if stop ≤ slot then addU64 s.rejectedBelowSlot weight
        else .ok s.rejectedBelowSlot
      pure { s with rejected := rejected, rejectedBelowSlot := below }
    else if 0 < weight ∧ isHealthy b.socketAddr then do
      pure { s with healthy := ← addU64 s.healthy weight }
    else pure s
  return { s with cumulative := ← addU64 s.cumulative weight }

/-- Selection while some positive-weight backend is unhealthy: a Reject entry keeps its share,
the rest goes round the healthy forwarding backends. -/
def selectDegraded (backends : List Backend) (counter totalWeight : ℕ) :
    Except Fault (Option ℕ) := do
  let slot ← remU64 counter totalWeight
  match ← slotOwner backends slot with
  | none => return none
  | some owner =>
    let sums ← backends.foldlM (DegradedSums.add isHealthy slot) ⟨0, 0, 0, 0⟩
    if (backends[owner]?.any fun b => b.action == .reject) ∨ sums.healthy = 0 then
      return some owner
    else
      let rounds ← divU64 counter totalWeight
      let perRound ← subU64 totalWeight sums.rejected
      let whole ← mulU64 rounds perRound
      let within ← subU64 slot sums.rejectedBelowSlot
      let forwardPick ← addU64 whole within
      let pick ← remU64 forwardPick sums.healthy
      return (← nthHealthyWeighted isHealthy backends pick).or (some owner)

def addHealthy (acc : ℕ) (b : Backend) : Except Fault ℕ :=
  if 0 < b.weight ∧ isHealthy b.socketAddr then addU64 acc b.weight.toNat else .ok acc

/-- The counter's old value is used; it wraps. -/
def fetchAdd (counter : ℕ) : ℕ := (counter + 1) % 2 ^ 64

/-- Selection among the backends of an HTTP rule: the backend's index, if any, and the rule's
counter afterwards. -/
def selectHealthyWeightedBackend (backends : List Backend) (rule : RuleWeights) (counter : ℕ) :
    Except Fault (Option ℕ × ℕ) :=
  match backends with
  | [b] => .ok (if 0 < b.weight then some 0 else none, counter)
  | _ => do
    let healthyWeight ← backends.foldlM (addHealthy isHealthy) 0
    let poolWeight := if healthyWeight = 0 then rule.totalWeight else healthyWeight
    if poolWeight = 0 then return (none, counter)
    else if poolWeight = rule.totalWeight then
      let slot ← remU64 counter rule.totalWeight
      return (some (rule.cumulativeWeights.takeWhile (· ≤ slot)).length, fetchAdd counter)
    else
      return (← selectDegraded isHealthy backends counter rule.totalWeight, fetchAdd counter)

/-- Selection among the backends of an L4 route, `counter` that of its listener port. -/
def selectL4Backend (backends : List Backend) (counter : ℕ) : Except Fault (Option ℕ × ℕ) := do
  let totalWeight ← backends.foldlM (fun acc b => addU64 acc b.weight.toNat) 0
  let healthyWeight ← backends.foldlM (addHealthy isHealthy) 0
  if totalWeight = 0 then return (none, counter)
  else if healthyWeight = totalWeight ∨ healthyWeight = 0 then
    let slot ← remU64 counter totalWeight
    return (← slotOwner backends slot, fetchAdd counter)
  else
    return (← selectDegraded isHealthy backends counter totalWeight, fetchAdd counter)

/-- Consecutive picks, each at the counter value the one before it left. -/
def pickRun (select : ℕ → Except Fault (Option ℕ × ℕ)) : ℕ → ℕ → Except Fault (List (Option ℕ))
  | 0, _ => .ok []
  | n + 1, counter => do
    let (pick, next) ← select counter
    return pick :: (← pickRun select n next)

end

variable {b : Backend} {slot i : ℕ}

section

def Backend.slots (b : Backend) : ℕ := b.weight.toNat

def Backend.rejects (b : Backend) : Bool := b.action == .reject

theorem RuleWeights.push_ok {w : RuleWeights} (h : w.totalWeight + b.slots < 2 ^ 64) :
    w.push b = .ok ⟨w.cumulativeWeights ++ [w.totalWeight + b.slots], w.totalWeight + b.slots⟩ := by
  rw [RuleWeights.push, addU64_ok (show w.totalWeight + b.weight.toNat < _ from h)]
  rfl

theorem ruleWeights_from (backends : List Backend) (w : RuleWeights)
    (h : w.totalWeight + (backends.map slots).sum < 2 ^ 64) :
    backends.foldlM RuleWeights.push w =
      .ok ⟨w.cumulativeWeights ++ ((backends.map slots).scanl (· + ·) w.totalWeight).tail,
        w.totalWeight + (backends.map slots).sum⟩ := by
  induction backends generalizing w with
  | nil => simp [pure, Except.pure]
  | cons b rest ih =>
    rw [map_cons, sum_cons] at h ⊢
    rw [foldlM_cons, RuleWeights.push_ok (by omega), ok_bind, ih _ (by simp only; omega)]
    cases rest <;> simp [scanl_cons, add_assoc]

variable {backends : List Backend}

theorem ruleWeights_overflow (w : RuleWeights) (hw : w.totalWeight < 2 ^ 64)
    (h : 2 ^ 64 ≤ w.totalWeight + (backends.map slots).sum) :
    backends.foldlM RuleWeights.push w = .error .overflow := by
  induction backends generalizing w with
  | nil => simp at h; omega
  | cons b rest ih =>
    rw [map_cons, sum_cons] at h
    rw [foldlM_cons]
    rcases Nat.lt_or_ge (w.totalWeight + b.slots) (2 ^ 64) with hlt | hge
    · rw [RuleWeights.push_ok hlt, ok_bind]
      exact ih _ hlt (by simp only; omega)
    · have hpush : w.push b = .error .overflow := by
        rw [RuleWeights.push, addU64, if_neg (show ¬ w.totalWeight + b.weight.toNat < _ by
          unfold slots at hge; omega)]
        rfl
      rw [hpush]
      rfl

theorem takeWhile_scanl {ws : List ℕ} (a : ℕ) (h : owner ws slot = some i) :
    (((ws.scanl (· + ·) a).tail).takeWhile (· ≤ a + slot)).length = i := by
  induction ws generalizing a slot i with
  | nil => simp [owner] at h
  | cons w ws ih =>
    have htail : ((w :: ws).scanl (· + ·) a).tail =
        (a + w) :: (ws.scanl (· + ·) (a + w)).tail := by
      cases ws <;> simp [scanl_cons]
    rw [htail]
    rcases Nat.lt_or_ge slot w with hlt | hge
    · rw [owner_cons_lt ws hlt] at h
      cases h
      rw [takeWhile_cons_of_neg (by simp; omega)]
      rfl
    · obtain ⟨rest, rfl⟩ := Nat.exists_eq_add_of_le hge
      rw [owner_cons_add] at h
      obtain ⟨j, hj, rfl⟩ := map_eq_some_iff.mp h
      rw [takeWhile_cons_of_pos (by simp), length_cons, ← add_assoc a, ih _ hj]

variable (isHealthy : SocketAddr → Bool)

theorem skipped_eq (b : Backend) :
    (b.weight == 0 || b.action == .reject || !isHealthy b.socketAddr) = !forwards isHealthy b := by
  cases ha : b.action <;> cases hh : isHealthy b.socketAddr <;>
    simp [forwards, serves, ha, hh, ← UInt32.not_le, Bool.beq_eq_decide_eq]

theorem walkFrom_eq (p : Backend → Bool) (cumulative slot : ℕ)
    (h : cumulative + (weightsOf slots p backends).sum < 2 ^ 64) :
    walkFrom (fun b => !p b) (cumulative + slot) cumulative backends =
      .ok (owner (weightsOf slots p backends) slot) := by
  induction backends generalizing cumulative slot with
  | nil => rfl
  | cons b rest ih =>
    have hcons : weightsOf slots p (b :: rest) =
        (if p b then b.slots else 0) :: weightsOf slots p rest := rfl
    rw [hcons, sum_cons] at h
    rw [hcons, walkFrom]
    cases hb : p b with
    | false =>
      simp only [hb, Bool.false_eq_true, if_false, zero_add] at h
      rw [if_pos (by simp), ih _ _ h, if_neg (by simp), owner_cons_zero]
      rfl
    | true =>
      simp only [hb, if_true] at h
      have hadd : addU64 cumulative b.weight.toNat = .ok (cumulative + b.slots) :=
        addU64_ok (show cumulative + b.slots < _ by omega)
      rw [if_neg (by simp), hadd, ok_bind, if_pos rfl]
      rcases Nat.lt_or_ge slot b.slots with hlt | hge
      · rw [owner_cons_lt _ hlt, if_pos (by omega)]
        rfl
      · obtain ⟨left, rfl⟩ := Nat.exists_eq_add_of_le hge
        rw [owner_cons_add, if_neg (by omega), ← add_assoc, ih _ _ (by omega)]
        rfl

theorem degradedSums_add {s : DegradedSums}
    (hc : s.cumulative + b.slots < 2 ^ 64) (hr : s.rejected ≤ s.cumulative)
    (hb : s.rejectedBelowSlot ≤ s.cumulative) (hh : s.healthy ≤ s.cumulative) :
    s.add isHealthy slot b =
      .ok { cumulative := s.cumulative + b.slots
            rejected := s.rejected + if b.rejects then b.slots else 0
            rejectedBelowSlot := s.rejectedBelowSlot +
              if b.rejects ∧ s.cumulative + b.slots ≤ slot then b.slots else 0
            healthy := s.healthy + if forwards isHealthy b then b.slots else 0 } := by
  have hadd : addU64 s.cumulative b.weight.toNat = .ok (s.cumulative + b.slots) := addU64_ok hc
  have hrej : addU64 s.rejected b.weight.toNat = .ok (s.rejected + b.slots) :=
    addU64_ok (show s.rejected + b.slots < _ by omega)
  have hbelow : addU64 s.rejectedBelowSlot b.weight.toNat =
      .ok (s.rejectedBelowSlot + b.slots) :=
    addU64_ok (show s.rejectedBelowSlot + b.slots < _ by omega)
  have hheal : addU64 s.healthy b.weight.toNat = .ok (s.healthy + b.slots) :=
    addU64_ok (show s.healthy + b.slots < _ by omega)
  simp only [DegradedSums.add, hadd, hrej, hbelow, hheal, ok_bind]
  cases ha : b.action with
  | reject =>
    have hf : forwards isHealthy b = false := by simp [forwards, ha]
    have hx : b.rejects = true := by simp [rejects, ha]
    simp only [hf, hx, true_and, if_true]
    split_ifs <;> simp_all [pure, Except.pure, bind, Except.bind]
  | forward =>
    have hx : b.rejects = false := by simp [rejects, ha]
    have hf : forwards isHealthy b = true ↔ 0 < b.weight.toNat ∧ isHealthy b.socketAddr = true := by
      simp [forwards, serves, ha, UInt32.lt_iff_toNat_lt]
    simp only [hx, hf, Bool.false_eq_true, false_and, if_false, reduceCtorEq]
    split_ifs <;> simp_all [pure, Except.pure, bind, Except.bind]

theorem degradedSums_fold (slot : ℕ) (backends : List Backend) (s : DegradedSums)
    (hc : s.cumulative + (backends.map slots).sum < 2 ^ 64) (hr : s.rejected ≤ s.cumulative)
    (hb : s.rejectedBelowSlot ≤ s.cumulative) (hh : s.healthy ≤ s.cumulative) :
    backends.foldlM (DegradedSums.add isHealthy slot) s =
      .ok { cumulative := s.cumulative + (backends.map slots).sum
            rejected := s.rejected + (weightsOf slots rejects backends).sum
            rejectedBelowSlot := s.rejectedBelowSlot +
              weightBelow slots rejects slot s.cumulative backends
            healthy := s.healthy + (weightsOf slots (forwards isHealthy) backends).sum } := by
  induction backends generalizing s with
  | nil => simp [weightsOf, weightBelow, pure, Except.pure]
  | cons b rest ih =>
    rw [map_cons, sum_cons] at hc
    rw [foldlM_cons, degradedSums_add isHealthy (by omega) hr hb hh, ok_bind,
      ih _ (by simp only; omega) (by simp only; split_ifs <;> omega)
        (by simp only; split_ifs <;> omega) (by simp only; split_ifs <;> omega)]
    simp [weightsOf, weightBelow, add_assoc]

end

section

variable (isHealthy : SocketAddr → Bool) (backends : List Backend)

def totalSlots : ℕ := (backends.map slots).sum

/-- The slots of the healthy forwarding backends. -/
def forwardSlots : ℕ := (weightsOf slots (forwards isHealthy) backends).sum

def AllHealthy : Prop := ∀ b ∈ backends, 0 < b.weight → isHealthy b.socketAddr = true

def NoneHealthy : Prop := ∀ b ∈ backends, 0 < b.weight → isHealthy b.socketAddr = false

/-- The step's slot belongs to a forwarding backend. -/
def IsForwardStep (c : ℕ) : Prop :=
  OwnedBy slots (fun b => !b.rejects) backends (c % totalSlots backends)

instance : DecidablePred (IsForwardStep backends) := fun _ =>
  inferInstanceAs (Decidable (OwnedBy ..))

/-- The owner of the step's slot. -/
def ownTurn (c : ℕ) : Option ℕ := owner (backends.map slots) (c % totalSlots backends)

/-- The next of the healthy forwarding backends, a turn for each forwarding step. -/
def forwardTurn (c : ℕ) : Option ℕ :=
  owner (weightsOf slots (forwards isHealthy) backends)
    (Nat.count (IsForwardStep backends) c % forwardSlots isHealthy backends)

def degradedPick (c : ℕ) : Option ℕ :=
  if ¬ IsForwardStep backends c ∨ forwardSlots isHealthy backends = 0 then ownTurn backends c
  else forwardTurn isHealthy backends c

/-- What the selectors pick at a counter value: the slot's owner while all or none are healthy;
else a forwarding step goes to the next slot of the healthy forwarding backends. -/
def pickAt (c : ℕ) : Option ℕ :=
  if (weightsOf slots (serves isHealthy) backends).sum ∈ [0, totalSlots backends] ∨
      ¬ IsForwardStep backends c ∨ forwardSlots isHealthy backends = 0 then
    owner (backends.map slots) (c % totalSlots backends)
  else
    owner (weightsOf slots (forwards isHealthy) backends)
      (Nat.count (IsForwardStep backends) c % forwardSlots isHealthy backends)

theorem sum_serves_le : (weightsOf slots (serves isHealthy) backends).sum ≤
    totalSlots backends := sum_weightsOf_le ..

theorem forwardSlots_le : forwardSlots isHealthy backends ≤ totalSlots backends :=
  sum_weightsOf_le ..

variable {backends}

variable {c : ℕ} {rule : RuleWeights}

theorem isForwardStep_iff (hi : ownTurn backends c = some i)
    (hb : backends[i]? = some b) : IsForwardStep backends c ↔ b.rejects = false := by
  unfold ownTurn at hi
  simp [IsForwardStep, OwnedBy, hi, hb]

theorem exists_owner (h : 0 < totalSlots backends) :
    ∃ i b, ownTurn backends c = some i ∧ backends[i]? = some b := by
  obtain ⟨i, hi⟩ := isSome_iff_exists.mp (owner_isSome.mpr (Nat.mod_lt c h))
  obtain ⟨w, hw, -⟩ := owner_weight hi
  obtain ⟨b, hb, -⟩ := by simpa [map_eq_some_iff] using hw
  exact ⟨i, b, hi, hb⟩

theorem degradedSums_eq (htotal : totalSlots backends < 2 ^ 64) (slot : ℕ) :
    backends.foldlM (DegradedSums.add isHealthy slot) ⟨0, 0, 0, 0⟩ =
      .ok { cumulative := totalSlots backends
            rejected := (weightsOf slots rejects backends).sum
            rejectedBelowSlot := weightBelow slots rejects slot 0 backends
            healthy := forwardSlots isHealthy backends } := by
  have hfold := degradedSums_fold isHealthy slot backends ⟨0, 0, 0, 0⟩
    (by rw [zero_add]; exact htotal) le_rfl le_rfl le_rfl
  simp only [zero_add] at hfold
  exact hfold

/-- At a forwarding step the arithmetic of `select_degraded` counts the forwarding steps
before it. -/
theorem forwardPick_eq (h : IsForwardStep backends c) :
    weightBelow slots rejects (c % totalSlots backends) 0 backends ≤
        c % totalSlots backends ∧
      c / totalSlots backends *
          (totalSlots backends - (weightsOf slots rejects backends).sum) +
        (c % totalSlots backends - weightBelow slots rejects (c % totalSlots backends) 0 backends) =
      Nat.count (IsForwardStep backends) c := by
  refine ⟨?_, (count_not_owned slots rejects h).symm⟩
  have hbelow := weightBelow_eq_count slots rejects 0 h
  rw [zero_add] at hbelow
  rw [hbelow]
  exact Nat.count_le _

theorem slotOwner_eq (h : totalSlots backends < 2 ^ 64) :
    slotOwner backends (c % totalSlots backends) = .ok (ownTurn backends c) := by
  have hall : weightsOf slots (fun _ => true) backends = backends.map slots := by simp [weightsOf]
  have hwalked := walkFrom_eq (fun _ => true) 0 (c % totalSlots backends)
    (by rwa [hall, zero_add])
  rwa [hall, zero_add] at hwalked

theorem selectDegraded_eq (htotal : totalSlots backends < 2 ^ 64) (hpos : 0 < totalSlots backends)
    (hc : c < 2 ^ 64) :
    selectDegraded isHealthy backends c (totalSlots backends) =
      .ok (degradedPick isHealthy backends c) := by
  obtain ⟨i, b, hi, hb⟩ := exists_owner (c := c) hpos
  have hwalk : 0 + forwardSlots isHealthy backends < 2 ^ 64 := by
    have hle := forwardSlots_le isHealthy backends
    omega
  have hreject : ((backends[i]?.any fun b => b.action == .reject) = true) ↔
      ¬ IsForwardStep backends c := by
    simp [isForwardStep_iff hi hb, hb, rejects]
  simp only [selectDegraded, remU64_ok hpos, ok_bind, slotOwner_eq htotal, hi,
    degradedSums_eq isHealthy htotal, hreject, degradedPick]
  split_ifs with hown
  · rfl
  · obtain ⟨hstep, hhealthy⟩ := not_or.mp hown
    obtain ⟨hbelow, hcount⟩ := forwardPick_eq (not_not.mp hstep)
    have hle : Nat.count (IsForwardStep backends) c ≤ c := Nat.count_le _
    have hrejected : (weightsOf slots rejects backends).sum ≤
        totalSlots backends := sum_weightsOf_le ..
    rw [divU64_ok hpos, ok_bind, subU64_ok hrejected, ok_bind, mulU64_ok (by omega), ok_bind,
      subU64_ok hbelow, ok_bind, addU64_ok (by omega), ok_bind, hcount,
      remU64_ok (by omega), ok_bind, nthHealthyWeighted]
    simp only [skipped_eq]
    have hwalked := walkFrom_eq (forwards isHealthy) 0
      (Nat.count (IsForwardStep backends) c % forwardSlots isHealthy backends) hwalk
    rw [zero_add] at hwalked
    rw [hwalked, ok_bind, forwardTurn]
    have hsome : Nat.count (IsForwardStep backends) c % forwardSlots isHealthy backends <
        forwardSlots isHealthy backends := Nat.mod_lt _ (by omega)
    obtain ⟨j, hj⟩ := isSome_iff_exists.mp (owner_isSome.mpr hsome)
    rw [hj]
    rfl

theorem healthyWeight_eq (htotal : totalSlots backends < 2 ^ 64) :
    backends.foldlM (addHealthy isHealthy) 0 =
      .ok (weightsOf slots (serves isHealthy) backends).sum := by
  have hstep (acc : ℕ) (b : Backend)
      (h : acc + (if serves isHealthy b then b.slots else 0) < 2 ^ 64) :
      addHealthy isHealthy acc b = .ok (acc + if serves isHealthy b then b.slots else 0) := by
    have hserves : serves isHealthy b = true ↔ 0 < b.weight ∧ isHealthy b.socketAddr = true := by
      simp [serves]
    simp only [hserves] at h ⊢
    unfold addHealthy
    split_ifs at h ⊢
    · exact addU64_ok h
    · rfl
  have hsum := foldlM_sum _ hstep backends 0
    (by rw [zero_add]; exact (sum_serves_le isHealthy backends).trans_lt htotal)
  rwa [zero_add] at hsum

theorem totalWeight_eq (htotal : totalSlots backends < 2 ^ 64) :
    backends.foldlM (fun acc b => addU64 acc b.weight.toNat) 0 = .ok (totalSlots backends) := by
  have hsum := foldlM_sum slots (fun acc b h => addU64_ok h) backends 0
    (by rw [zero_add]; exact htotal)
  rwa [zero_add] at hsum

theorem pickAt_of_zero (h : totalSlots backends = 0) (c : ℕ) :
    pickAt isHealthy backends c = none := by
  have hle := sum_serves_le isHealthy backends
  rw [pickAt, if_pos (.inl (by simp; omega))]
  exact not_isSome_iff_eq_none.mp (owner_isSome.not.mpr (by unfold totalSlots at h; omega))

theorem pickAt_of_degraded (h : (weightsOf slots (serves isHealthy) backends).sum ∉
    [0, totalSlots backends]) :
    pickAt isHealthy backends c = degradedPick isHealthy backends c := by
  simp only [pickAt, h, false_or]
  rfl

theorem selectL4Backend_eq (htotal : totalSlots backends < 2 ^ 64) (hc : c < 2 ^ 64) :
    (selectL4Backend isHealthy backends c).map Prod.fst = .ok (pickAt isHealthy backends c) := by
  simp only [selectL4Backend, totalWeight_eq htotal, healthyWeight_eq isHealthy htotal, ok_bind]
  split_ifs with hzero hfast
  · rw [pickAt_of_zero isHealthy hzero]
    rfl
  · rw [remU64_ok (by omega), ok_bind, slotOwner_eq htotal, ok_bind, pickAt,
      if_pos (.inl (by simpa using hfast.symm))]
    rfl
  · rw [selectDegraded_eq isHealthy htotal (by omega) hc, ok_bind,
      pickAt_of_degraded isHealthy (by simpa using hfast ∘ Or.symm)]
    rfl

theorem ruleWeights_eq (htotal : totalSlots backends < 2 ^ 64) :
    ruleWeights backends =
      .ok ⟨((backends.map slots).scanl (· + ·) 0).tail, totalSlots backends⟩ := by
  have hfrom := ruleWeights_from backends ⟨[], 0⟩ (by rw [zero_add]; exact htotal)
  simp only [zero_add, nil_append] at hfrom
  exact hfrom

theorem ruleWeights_eq_overflow {backends : List Backend} (h : 2 ^ 64 ≤ totalSlots backends) :
    ruleWeights backends = .error .overflow :=
  ruleWeights_overflow _ (by decide) (by rw [zero_add]; exact h)

theorem ruleWeights_total {weights : RuleWeights} (h : ruleWeights backends = .ok weights) :
    totalSlots backends < 2 ^ 64 ∧ weights.totalWeight = totalSlots backends := by
  rcases Nat.lt_or_ge (totalSlots backends) (2 ^ 64) with hlt | hge
  · rw [ruleWeights_eq hlt] at h
    cases h
    exact ⟨hlt, rfl⟩
  · simp [ruleWeights_eq_overflow hge] at h

theorem pickAt_single (b : Backend) (c : ℕ) :
    pickAt isHealthy [b] c = if 0 < b.weight then some 0 else none := by
  have htotal : totalSlots [b] = b.slots := by simp [totalSlots]
  have hpos : 0 < b.weight ↔ 0 < b.slots := UInt32.lt_iff_toNat_lt
  have hfast : (weightsOf slots (serves isHealthy) [b]).sum ∈ [0, totalSlots [b]] := by
    rw [htotal]
    cases h : serves isHealthy b <;> simp [weightsOf, h]
  rw [pickAt, if_pos (.inl hfast), htotal]
  simp only [hpos]
  split_ifs with h
  · exact owner_cons_lt _ (Nat.mod_lt _ h)
  · exact not_isSome_iff_eq_none.mp (owner_isSome.not.mpr (by simp; omega))

variable (hrule : ruleWeights backends = .ok rule) (htotal : totalSlots backends < 2 ^ 64)
include hrule htotal

/-- The selector reads a rule as `push_route` left it. It leaves the counter where every value
picks the same. -/
theorem selectHealthyWeightedBackend_next (hc : c < 2 ^ 64) :
    ∃ next, selectHealthyWeightedBackend isHealthy backends rule c =
        .ok (pickAt isHealthy backends c, next) ∧
      (next = fetchAdd c ∨
        next = c ∧ ∀ d, pickAt isHealthy backends d = pickAt isHealthy backends c) := by
  rw [ruleWeights_eq htotal] at hrule
  cases hrule
  have hle := sum_serves_le isHealthy backends
  unfold selectHealthyWeightedBackend
  split
  · next b =>
    simp only [pickAt_single]
    exact ⟨c, rfl, .inr ⟨rfl, fun _ => trivial⟩⟩
  · simp only [healthyWeight_eq isHealthy htotal, ok_bind]
    set healthy := (weightsOf slots (serves isHealthy) backends).sum with hhealthy
    have hnone : (if healthy = 0 then totalSlots backends else healthy) = 0 ↔
        totalSlots backends = 0 := by split_ifs <;> omega
    have hfast : (if healthy = 0 then totalSlots backends else healthy) = totalSlots backends ↔
        healthy = 0 ∨ healthy = totalSlots backends := by split_ifs <;> omega
    simp only [hnone, hfast]
    split_ifs with h0 h1
    · exact ⟨c, by rw [pickAt_of_zero isHealthy h0]; rfl,
        .inr ⟨rfl, fun d => by rw [pickAt_of_zero isHealthy h0, pickAt_of_zero isHealthy h0]⟩⟩
    · obtain ⟨i, -, hi, -⟩ := exists_owner (c := c) (by omega : 0 < totalSlots backends)
      have hslot := takeWhile_scanl 0 hi
      rw [zero_add] at hslot
      rw [remU64_ok (by omega), ok_bind, hslot, pickAt, if_pos (.inl (by simpa using h1)),
        ← ownTurn, hi]
      exact ⟨_, rfl, .inl rfl⟩
    · rw [selectDegraded_eq isHealthy htotal (by omega) hc, ok_bind,
        pickAt_of_degraded isHealthy (by simpa using h1)]
      exact ⟨_, rfl, .inl rfl⟩

theorem selectHealthyWeightedBackend_eq (hc : c < 2 ^ 64) :
    (selectHealthyWeightedBackend isHealthy backends rule c).map Prod.fst =
      .ok (pickAt isHealthy backends c) := by
  obtain ⟨next, hselect, -⟩ := selectHealthyWeightedBackend_next isHealthy hrule htotal hc
  rw [hselect]
  rfl

theorem pickRun_eq (n : ℕ) (hc : c + n ≤ 2 ^ 64) :
    pickRun (selectHealthyWeightedBackend isHealthy backends rule) n c =
      .ok ((List.range' c n).map (pickAt isHealthy backends)) := by
  induction n generalizing c with
  | zero => rfl
  | succ n ih =>
    obtain ⟨next, hselect, hnext⟩ :=
      selectHealthyWeightedBackend_next isHealthy hrule htotal (c := c) (by omega)
    have hrest : pickRun (selectHealthyWeightedBackend isHealthy backends rule) n next =
        .ok ((List.range' (c + 1) n).map (pickAt isHealthy backends)) := by
      rcases hnext with rfl | ⟨rfl, hconst⟩
      · rcases n with _ | n
        · rfl
        · rw [show fetchAdd c = c + 1 from Nat.mod_eq_of_lt (by omega)]
          exact ih (by omega)
      · have hmap : pickAt isHealthy backends = fun _ => pickAt isHealthy backends next :=
          funext hconst
        rw [ih (by omega), hmap, map_const', map_const', length_range', length_range']
    simp only [pickRun, hselect, ok_bind, hrest]
    rfl

end

section

open Finset

variable (isHealthy : SocketAddr → Bool) (backends : List Backend)

/-- Whether a forwarding backend is picked. -/
def isForwardPick (pick : ℕ → Option ℕ) (c : ℕ) : Bool :=
  ((pick c).bind (backends[·]?)).any fun b => b.action == .forward

/-- What weighted selection promises of the picks at counter values `c`, the health fixed. -/
structure SelectionLaws (pick : ℕ → Option ℕ) : Prop where
  weight_pos : ∀ c i, pick c = some i → ∃ b, backends[i]? = some b ∧ 0 < b.weight
  share : AllHealthy isHealthy backends ∨ NoneHealthy isHealthy backends →
    ∀ i b, backends[i]? = some b → ∀ start,
      #{c ∈ Ico start (start + totalSlots backends) | pick c = some i} = b.weight.toNat
  reject_share : ∀ i b, backends[i]? = some b → b.action = .reject → ∀ start,
    #{c ∈ Ico start (start + totalSlots backends) | pick c = some i} = b.weight.toNat
  healthy_first : ∀ c i b, pick c = some i → backends[i]? = some b → b.action = .forward →
    isHealthy b.socketAddr = false →
      ∀ b' ∈ backends, b'.action = .forward → 0 < b'.weight → isHealthy b'.socketAddr = false
  rotation : ¬ (AllHealthy isHealthy backends ∨ NoneHealthy isHealthy backends) →
    ∀ start len,
      #{c ∈ Ico start (start + len) | isForwardPick backends pick c} =
        forwardSlots isHealthy backends →
      ∀ i b, backends[i]? = some b → b.action = .forward → isHealthy b.socketAddr = true →
        #{c ∈ Ico start (start + len) | pick c = some i} = b.weight.toNat

variable {isHealthy backends}

variable {b : Backend} {i c : ℕ}

theorem slots_pos : 0 < b.slots ↔ 0 < b.weight :=
  (UInt32.lt_iff_toNat_lt (a := 0) (b := b.weight)).symm

theorem serves_eq (hb : 0 < b.slots) : serves isHealthy b = isHealthy b.socketAddr := by
  simp [serves, slots_pos.mp hb]

theorem serves_iff {v : Bool} :
    (∀ b ∈ backends, 0 < b.slots → serves isHealthy b = v) ↔
      ∀ b ∈ backends, 0 < b.weight → isHealthy b.socketAddr = v := by
  refine forall₂_congr fun b _ => ?_
  rw [← slots_pos]
  exact forall_congr' fun hb => by rw [serves_eq hb]

theorem fast_iff : (weightsOf slots (serves isHealthy) backends).sum ∈
      [0, totalSlots backends] ↔
    AllHealthy isHealthy backends ∨ NoneHealthy isHealthy backends := by
  rw [mem_pair, totalSlots, sum_weightsOf_eq_zero, sum_weightsOf_eq_sum, serves_iff,
    serves_iff, or_comm]
  rfl

theorem owner_slots (h : owner (backends.map slots) slot = some i) :
    ∃ b, backends[i]? = some b ∧ 0 < b.weight := by
  obtain ⟨w, hw, hpos⟩ := owner_weight h
  obtain ⟨b, hb, rfl⟩ := by simpa [map_eq_some_iff] using hw
  exact ⟨b, hb, slots_pos.mp hpos⟩

theorem owner_forwards (h : owner (weightsOf slots (forwards isHealthy) backends) slot = some i) :
    ∃ b, backends[i]? = some b ∧ forwards isHealthy b = true := by
  obtain ⟨w, hw, hpos⟩ := owner_weight h
  obtain ⟨b, hb, rfl⟩ := by simpa [weightsOf, map_eq_some_iff] using hw
  refine ⟨b, hb, ?_⟩
  by_contra hf
  simp [hf] at hpos

theorem forwards_iff : forwards isHealthy b = true ↔
    b.action = .forward ∧ 0 < b.weight ∧ isHealthy b.socketAddr = true := by
  cases ha : b.action <;> simp [forwards, serves, ha]

/-- A pick is the owner of the step's slot, or a healthy forwarding backend in the place of a
forwarding owner. -/
theorem pickAt_cases (h : pickAt isHealthy backends c = some i) :
    (ownTurn backends c = some i ∧
      (AllHealthy isHealthy backends ∨ NoneHealthy isHealthy backends ∨
        ¬ IsForwardStep backends c ∨ forwardSlots isHealthy backends = 0)) ∨
    (¬ (AllHealthy isHealthy backends ∨ NoneHealthy isHealthy backends) ∧
      IsForwardStep backends c ∧ forwardTurn isHealthy backends c = some i) := by
  unfold pickAt at h
  split_ifs at h with hown <;> rw [fast_iff] at hown
  · exact .inl ⟨h, by tauto⟩
  · exact .inr ⟨by tauto, by tauto, h⟩

theorem pickAt_weight_pos (h : pickAt isHealthy backends c = some i) :
    ∃ b, backends[i]? = some b ∧ 0 < b.weight := by
  obtain ⟨hown, -⟩ | ⟨-, -, hown⟩ := pickAt_cases h
  · exact owner_slots hown
  · obtain ⟨b, hb, hf⟩ := owner_forwards hown
    exact ⟨b, hb, (forwards_iff.mp hf).2.1⟩

theorem card_slots (hb : backends[i]? = some b) (start : ℕ) :
    #{c ∈ Ico start (start + totalSlots backends) | ownTurn backends c = some i} = b.weight.toNat :=
  card_owner_round (by simp [hb, slots]) start

theorem pickAt_share (h : AllHealthy isHealthy backends ∨ NoneHealthy isHealthy backends)
    (hb : backends[i]? = some b) (start : ℕ) :
    #{c ∈ Ico start (start + totalSlots backends) | pickAt isHealthy backends c = some i} =
      b.weight.toNat := by
  rw [← card_slots hb start]
  refine congrArg card (filter_congr fun c _ => ?_)
  rw [pickAt, if_pos (.inl (fast_iff.mpr h)), ownTurn]

theorem pickAt_reject (hb : backends[i]? = some b) (hreject : b.action = .reject) :
    pickAt isHealthy backends c = some i ↔ ownTurn backends c = some i := by
  constructor
  · intro h
    obtain ⟨hown, -⟩ | ⟨-, -, hown⟩ := pickAt_cases h
    · exact hown
    · obtain ⟨b', hb', hf⟩ := owner_forwards hown
      obtain rfl := some.inj (hb.symm.trans hb')
      simp [(forwards_iff.mp hf).1] at hreject
  · intro hown
    have hstep : ¬ IsForwardStep backends c := by
      simp [isForwardStep_iff hown hb, rejects, hreject]
    rw [pickAt, if_pos (.inr (.inl hstep)), ← ownTurn, hown]

theorem pickAt_healthy_first (h : pickAt isHealthy backends c = some i) (hb : backends[i]? = some b)
    (hforward : b.action = .forward) (hdown : isHealthy b.socketAddr = false) :
    ∀ b' ∈ backends, b'.action = .forward → 0 < b'.weight → isHealthy b'.socketAddr = false := by
  intro b' hb' hforward' hpos'
  obtain ⟨hown, hall | hnone | hstep | hzero⟩ | ⟨-, -, hown⟩ := pickAt_cases h
  · obtain ⟨b₁, hb₁, hpos⟩ := owner_slots hown
    obtain rfl := some.inj (hb.symm.trans hb₁)
    simp [hall b (mem_of_getElem? hb) hpos] at hdown
  · exact hnone b' hb' hpos'
  · simp [isForwardStep_iff hown hb, rejects, hforward] at hstep
  · have hf := (sum_weightsOf_eq_zero _ _).mp hzero b' hb' (slots_pos.mpr hpos')
    simpa [forwards, serves, hforward', hpos'] using hf
  · obtain ⟨b₁, hb₁, hf⟩ := owner_forwards hown
    obtain rfl := some.inj (hb.symm.trans hb₁)
    simp [(forwards_iff.mp hf).2.2] at hdown

theorem isForwardPick_iff {pick : ℕ → Option ℕ} :
    isForwardPick backends pick c = true ↔
      ∃ i b, pick c = some i ∧ backends[i]? = some b ∧ b.action = .forward := by
  simp [isForwardPick, Option.any_eq_true, Option.bind_eq_some_iff]
  grind

section

variable (h : ¬ (AllHealthy isHealthy backends ∨ NoneHealthy isHealthy backends))

include h

theorem totalSlots_pos : 0 < totalSlots backends := by
  by_contra hzero
  have hle := sum_serves_le isHealthy backends
  exact h (fast_iff.mp (by simp; omega))

theorem isForwardPick_step {c : ℕ} :
    isForwardPick backends (pickAt isHealthy backends) c = true ↔ IsForwardStep backends c := by
  rw [isForwardPick_iff]
  constructor
  · rintro ⟨i, b, hpick, hb, hforward⟩
    obtain ⟨hown, -⟩ | ⟨-, hstep, -⟩ := pickAt_cases hpick
    · simp [isForwardStep_iff hown hb, rejects, hforward]
    · exact hstep
  · intro hstep
    rw [pickAt_of_degraded isHealthy (fast_iff.not.mpr h), degradedPick]
    simp only [hstep, not_true_eq_false, false_or]
    split_ifs with hzero
    · obtain ⟨i, b, hi, hb⟩ := exists_owner (c := c) (totalSlots_pos h)
      have hb' := (isForwardStep_iff hi hb).mp hstep
      refine ⟨i, b, hi, hb, ?_⟩
      cases ha : b.action <;> simp [rejects, ha] at hb' ⊢
    · have hlt := Nat.mod_lt (Nat.count (IsForwardStep backends) c) (Nat.pos_of_ne_zero hzero)
      obtain ⟨i, hi⟩ := isSome_iff_exists.mp (owner_isSome.mpr hlt)
      obtain ⟨b, hb, hf⟩ := owner_forwards hi
      exact ⟨i, b, hi, hb, (forwards_iff.mp hf).1⟩

theorem pickAt_forward {c : ℕ} (hb : backends[i]? = some b)
    (hforward : b.action = .forward) (hhealthy : isHealthy b.socketAddr = true) :
    pickAt isHealthy backends c = some i ↔
      IsForwardStep backends c ∧ forwardTurn isHealthy backends c = some i := by
  constructor
  · intro hpick
    obtain ⟨hown, hall | hnone | hstep | hzero⟩ | ⟨-, hstep, hown⟩ := pickAt_cases hpick
    · exact absurd (.inl hall) h
    · exact absurd (.inr hnone) h
    · simp [isForwardStep_iff hown hb, rejects, hforward] at hstep
    · obtain ⟨b', hb', hpos⟩ := owner_slots hown
      obtain rfl := some.inj (hb.symm.trans hb')
      have hf := (sum_weightsOf_eq_zero _ _).mp hzero b (mem_of_getElem? hb) (slots_pos.mpr hpos)
      simp [forwards_iff.mpr ⟨hforward, hpos, hhealthy⟩] at hf
    · exact ⟨hstep, hown⟩
  · rintro ⟨hstep, hown⟩
    have hlt := owner_isSome.mp (isSome_iff_exists.mpr ⟨i, hown⟩)
    have hpos : forwardSlots isHealthy backends ≠ 0 := by unfold forwardSlots at hlt ⊢; omega
    rw [pickAt_of_degraded isHealthy (fast_iff.not.mpr h), degradedPick,
      if_neg (by simp [hstep, hpos]), hown]

/-- Consecutive forwarding steps go round the slots of the healthy forwarding backends. -/
theorem pickAt_rotation {start len : ℕ}
    (hlen : #{c ∈ Ico start (start + len) | isForwardPick backends (pickAt isHealthy backends) c} =
      forwardSlots isHealthy backends) (hb : backends[i]? = some b) (hforward : b.action = .forward)
    (hhealthy : isHealthy b.socketAddr = true) :
    #{c ∈ Ico start (start + len) | pickAt isHealthy backends c = some i} = b.weight.toNat := by
  have hmasked : (weightsOf slots (forwards isHealthy) backends)[i]? =
      some b.weight.toNat := by
    rw [weightsOf_get _ _ hb]
    split_ifs with hf
    · rfl
    · have hw : ¬ 0 < b.weight := fun hw => hf (forwards_iff.mpr ⟨hforward, hw, hhealthy⟩)
      rw [← slots_pos] at hw
      exact congrArg some (by unfold slots at hw; omega)
  simp only [isForwardPick_step h] at hlen
  rw [card_filter_eq_count] at hlen
  have hend : Nat.count (IsForwardStep backends) (start + len) =
      Nat.count (IsForwardStep backends) start + forwardSlots isHealthy backends := by
    have hmono : Nat.count (IsForwardStep backends) start ≤
        Nat.count (IsForwardStep backends) (start + len) := Nat.count_monotone _ (by omega)
    omega
  have hround := card_owner_round hmasked (Nat.count (IsForwardStep backends) start)
  rw [← forwardSlots, ← hend, ← card_filter_count (p := IsForwardStep backends)] at hround
  simp only [pickAt_forward h hb hforward hhealthy]
  exact hround

end

/-- With weights that sum below 2^64, the selectors of HTTP rules and of L4 routes answer without
a fault, pick the same backend at every counter value, and keep the laws of weighted selection. -/
theorem weighted_selection (isHealthy : SocketAddr → Bool) (backends : List Backend)
    (htotal : (backends.map fun b => b.weight.toNat).sum < 2 ^ 64) :
    ∃ rule, ruleWeights backends = .ok rule ∧ ∃ pick : ℕ → Option ℕ,
      (∀ c < 2 ^ 64,
        (selectHealthyWeightedBackend isHealthy backends rule c).map Prod.fst = .ok (pick c) ∧
        (selectL4Backend isHealthy backends c).map Prod.fst = .ok (pick c)) ∧
      SelectionLaws isHealthy backends pick := by
  refine ⟨_, ruleWeights_eq htotal, pickAt isHealthy backends, fun c hc => ⟨?_, ?_⟩, ?_⟩
  · exact selectHealthyWeightedBackend_eq isHealthy (ruleWeights_eq htotal) htotal hc
  · exact selectL4Backend_eq isHealthy htotal hc
  · exact {
      weight_pos := fun _ _ => pickAt_weight_pos
      share := fun h _ _ hb start => pickAt_share h hb start
      reject_share := fun i b hb hreject start => by
        simp only [pickAt_reject hb hreject]
        exact card_slots hb start
      healthy_first := fun _ _ _ => pickAt_healthy_first
      rotation := fun h _ _ hlen _ _ => pickAt_rotation h hlen }

/-- A backend at port `port` of a loopback address. -/
def Backend.local (port : UInt16) (weight : UInt32) (action : BackendAction) : Backend :=
  ⟨⟨.v4 ⟨[127, 0, 0, 1], rfl⟩, port⟩, weight, [], false, Str.lit "localhost", action⟩

theorem weighted_selection_reject :
    ∃ rule, ruleWeights [Backend.local 1 3 .forward, Backend.local 2 1 .reject] = .ok rule ∧
      ∃ pick : ℕ → Option ℕ,
      (∀ c < 2 ^ 64,
        (selectHealthyWeightedBackend (fun a => a.port != 1)
          [Backend.local 1 3 .forward, Backend.local 2 1 .reject] rule c).map Prod.fst =
            .ok (pick c) ∧
        (selectL4Backend (fun a => a.port != 1)
          [Backend.local 1 3 .forward, Backend.local 2 1 .reject] c).map Prod.fst = .ok (pick c)) ∧
      SelectionLaws (fun a => a.port != 1)
        [Backend.local 1 3 .forward, Backend.local 2 1 .reject] pick :=
  weighted_selection _ _ (by decide)

/-- Sums of weights reach 2^64, and a counter that wraps leaves its round. -/
theorem selection_past_u64 :
    ruleWeights (List.replicate (2 ^ 32 + 2) (Backend.local 1 (2 ^ 32 - 1) .forward)) =
      .error .overflow ∧
    pickRun (selectHealthyWeightedBackend (fun _ => true)
        [Backend.local 1 1 .forward, Backend.local 2 1 .forward, Backend.local 3 1 .forward]
        ⟨[1, 2, 3], 3⟩) 3 (2 ^ 64 - 1) =
      .ok [some 0, some 0, some 1] := by
  refine ⟨?_, rfl⟩
  apply ruleWeights_eq_overflow
  have hslots : (Backend.local 1 (2 ^ 32 - 1) .forward).slots = 2 ^ 32 - 1 := rfl
  rw [totalSlots, map_replicate, sum_replicate, hslots]
  norm_num

end
end Portail.Routing
