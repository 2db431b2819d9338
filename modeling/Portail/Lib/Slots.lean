import Mathlib.Data.Nat.Count
import Mathlib.Data.Nat.Periodic
import Mathlib.Tactic

/-!
# Weighted slots

A list of weights cuts the slots `0, 1, …` into consecutive intervals, one for each
entry and as long as its weight. A counter that goes round the slots reaches every
entry as often as its weight says, wherever it starts. So does a counter that only
advances at some steps, read at those steps (`card_filter_count`).
-/

namespace Portail.Lib

open Finset Option

/-- The entry whose interval holds the slot. -/
def owner : List ℕ → ℕ → Option ℕ
  | [], _ => none
  | w :: ws, slot => if slot < w then some 0 else (owner ws (slot - w)).map (· + 1)

theorem owner_cons_lt {w slot : ℕ} (ws : List ℕ) (h : slot < w) :
    owner (w :: ws) slot = some 0 := if_pos h

theorem owner_cons_add (w : ℕ) (ws : List ℕ) (slot : ℕ) :
    owner (w :: ws) (w + slot) = (owner ws slot).map (· + 1) := by
  rw [owner, if_neg (by omega), Nat.add_sub_cancel_left]

theorem owner_cons_zero (ws : List ℕ) (slot : ℕ) :
    owner (0 :: ws) slot = (owner ws slot).map (· + 1) := rfl

variable {ws : List ℕ} {p : ℕ → Prop}

theorem owner_isSome {slot : ℕ} : (owner ws slot).isSome ↔ slot < ws.sum := by
  induction ws generalizing slot with
  | nil => simp [owner]
  | cons w ws ih =>
    rw [owner, List.sum_cons]
    split_ifs with h
    · simp only [isSome_some, true_iff]
      omega
    · rw [isSome_map, ih]
      omega

theorem owner_weight {slot i : ℕ} (h : owner ws slot = some i) : ∃ w, ws[i]? = some w ∧ 0 < w := by
  induction ws generalizing slot i with
  | nil => simp [owner] at h
  | cons w ws ih =>
    rw [owner] at h
    split_ifs at h with hlt
    · cases h
      exact ⟨w, rfl, by omega⟩
    · obtain ⟨j, hj, rfl⟩ := map_eq_some_iff.mp h
      simpa using ih hj

theorem count_owner {i w : ℕ} (h : ws[i]? = some w) :
    Nat.count (fun slot => owner ws slot = some i) ws.sum = w := by
  induction ws generalizing i with
  | nil => simp at h
  | cons v ws ih =>
    rw [List.sum_cons, Nat.count_add]
    simp only [owner_cons_add]
    have hhead : ∀ slot < v, owner (v :: ws) slot = some 0 := fun _ hlt => owner_cons_lt ws hlt
    cases i with
    | zero =>
      obtain rfl : v = w := by simpa using h
      have hfirst : Nat.count (fun slot => owner (v :: ws) slot = some 0) v = v :=
        Nat.count_of_forall hhead
      simp [hfirst, Nat.count_false]
    | succ i =>
      have hfirst : Nat.count (fun slot => owner (v :: ws) slot = some (i + 1)) v = 0 :=
        Nat.count_of_forall_not (fun slot hlt => by simp [hhead slot hlt])
      simpa [hfirst] using ih (by simpa using h)

theorem owner_append (xs ys : List ℕ) (slot : ℕ) :
    owner (xs ++ ys) slot =
      if slot < xs.sum then owner xs slot else (owner ys (slot - xs.sum)).map (· + xs.length) := by
  induction xs generalizing slot with
  | nil => simp
  | cons x xs ih =>
    simp only [List.cons_append, owner, List.sum_cons, List.length_cons, ih]
    split_ifs with h1 h2 h3 <;> try omega
    · rfl
    · rfl
    · rw [Option.map_map, Nat.sub_sub]
      exact congrArg (Option.map · _) (funext fun i => by simp; omega)

theorem owner_lt_length {slot i : ℕ} (h : owner ws slot = some i) : i < ws.length := by
  obtain ⟨w, hw, -⟩ := owner_weight h
  exact (List.getElem?_eq_some_iff.mp hw).1

/-- Entries in groups: the group of a slot's owner owns the slot among the groups. -/
theorem owner_flatten (groups : List (List ℕ)) (slot : ℕ) :
    (owner groups.flatten slot).bind (owner (groups.map List.length)) =
      owner (groups.map List.sum) slot := by
  induction groups generalizing slot with
  | nil => rfl
  | cons g groups ih =>
    rw [List.flatten_cons, owner_append, List.map_cons, List.map_cons]
    rcases Nat.lt_or_ge slot g.sum with hlt | hge
    · obtain ⟨i, hi⟩ := isSome_iff_exists.mp (owner_isSome.mpr hlt)
      rw [if_pos hlt, hi, bind_some, owner_cons_lt _ (owner_lt_length hi), owner_cons_lt _ hlt]
    · obtain ⟨rest, rfl⟩ := Nat.exists_eq_add_of_le hge
      rw [if_neg (by omega), owner_cons_add, Nat.add_sub_cancel_left, ← ih]
      cases owner groups.flatten rest with
      | none => rfl
      | some i => rw [map_some, bind_some, add_comm, owner_cons_add]; rfl

/-- Counted over whole rounds and the part of one. -/
theorem count_periodic [DecidablePred p] {period : ℕ} (hp : Function.Periodic p period) (n : ℕ) :
    Nat.count p n = n / period * Nat.count p period + Nat.count p (n % period) := by
  have hrounds (q r : ℕ) :
      Nat.count p (period * q + r) = q * Nat.count p period + Nat.count p r := by
    induction q with
    | zero => simp
    | succ q ih =>
      have hshift : (fun k => p (period + k)) = p := by
        funext k
        rw [add_comm]
        exact hp k
      rw [show period * (q + 1) + r = period + (period * q + r) by ring, Nat.count_add]
      simp only [hshift]
      rw [ih]
      ring
  conv_lhs => rw [← Nat.div_add_mod n period]
  exact hrounds _ _

theorem periodic_mod (p : ℕ → Prop) (period : ℕ) :
    Function.Periodic (fun c => p (c % period)) period := by
  intro c
  simp

theorem count_mod {q : ℕ → Prop} [DecidablePred q] {n period : ℕ} (h : n ≤ period) :
    Nat.count (fun c => q (c % period)) n = Nat.count q n := by
  rw [Nat.count_eq_card_filter_range, Nat.count_eq_card_filter_range]
  refine congrArg card (filter_congr fun c hc => ?_)
  rw [Nat.mod_eq_of_lt (by have := mem_range.mp hc; omega)]

theorem card_owner_round {i w : ℕ} (h : ws[i]? = some w) (start : ℕ) :
    #{c ∈ Ico start (start + ws.sum) | owner ws (c % ws.sum) = some i} = w := by
  rw [Nat.filter_Ico_card_eq_of_periodic _ _ _
    (periodic_mod (fun slot => owner ws slot = some i) ws.sum)]
  exact (count_mod le_rfl).trans (count_owner h)

/-- A counter that advances at the steps where `p` holds takes, at those steps, the values
from where it stood at the start to where it stands at the end, each once. -/
theorem card_filter_count [DecidablePred p] (q : ℕ → Prop) [DecidablePred q] (start len : ℕ) :
    #{c ∈ Ico start (start + len) | p c ∧ q (Nat.count p c)} =
      #{k ∈ Ico (Nat.count p start) (Nat.count p (start + len)) | q k} := by
  induction len with
  | zero => simp
  | succ len ih =>
    rw [← add_assoc, Nat.Ico_succ_right_eq_insert_Ico (by omega), Nat.count_succ, filter_insert]
    by_cases hp : p (start + len)
    · have hle : Nat.count p start ≤ Nat.count p (start + len) := Nat.count_monotone p (by omega)
      rw [if_pos hp, Nat.Ico_succ_right_eq_insert_Ico hle, filter_insert]
      by_cases hq : q (Nat.count p (start + len))
      · rw [if_pos ⟨hp, hq⟩, if_pos hq, card_insert_of_notMem (by simp),
          card_insert_of_notMem (by simp), ih]
      · rw [if_neg (fun h => hq h.2), if_neg hq, ih]
    · rw [if_neg (fun h => hp h.1), if_neg hp, add_zero, ih]

theorem card_filter_eq_count (p : ℕ → Prop) [DecidablePred p] (start len : ℕ) :
    #{c ∈ Ico start (start + len) | p c} = Nat.count p (start + len) - Nat.count p start := by
  have h := card_filter_count (p := p) (fun _ => True) start len
  simpa using h

theorem countP_range' (p : ℕ → Bool) (start len : ℕ) :
    (List.range' start len).countP p = #{c ∈ Ico start (start + len) | p c} := by
  induction len with
  | zero => simp
  | succ len ih =>
    rw [List.range'_concat, List.countP_append, ih, ← add_assoc,
      Nat.Ico_succ_right_eq_insert_Ico (by omega), filter_insert]
    by_cases hp : p (start + len)
    · rw [if_pos hp, card_insert_of_notMem (by simp)]
      simp [hp]
    · rw [if_neg hp]
      simp [hp]

section

variable {α : Type} (weight : α → ℕ) (p : α → Bool)

/-- The weights of the entries `p` admits, the others with none. -/
def weightsOf (xs : List α) : List ℕ := xs.map fun x => if p x then weight x else 0

variable {xs : List α} {x : α} {slot : ℕ}

theorem weightsOf_get {i : ℕ} (h : xs[i]? = some x) :
    (weightsOf weight p xs)[i]? = some (if p x then weight x else 0) := by
  simp [weightsOf, h]

theorem sum_weightsOf_le (xs : List α) :
    (weightsOf weight p xs).sum ≤ (xs.map weight).sum := by
  refine List.sum_le_sum fun x _ => ?_
  split_ifs <;> omega

theorem sum_weightsOf_eq_zero :
    (weightsOf weight p xs).sum = 0 ↔ ∀ x ∈ xs, 0 < weight x → p x = false := by
  rw [weightsOf, List.sum_eq_zero_iff, List.forall_mem_map]
  refine forall₂_congr fun x _ => ?_
  cases p x <;> simp [Nat.pos_iff_ne_zero]

theorem sum_weightsOf_eq_sum :
    (weightsOf weight p xs).sum = (xs.map weight).sum ↔ ∀ x ∈ xs, 0 < weight x → p x = true := by
  induction xs with
  | nil => simp [weightsOf]
  | cons x xs ih =>
    have hle := sum_weightsOf_le weight p xs
    have hcons : (weightsOf weight p (x :: xs)).sum =
        (if p x then weight x else 0) + (weightsOf weight p xs).sum := rfl
    rw [hcons, List.map_cons, List.sum_cons, List.forall_mem_cons, ← ih]
    cases p x
    · simp only [Bool.false_eq_true, if_false, imp_false]
      omega
    · simp

/-- The slot belongs to an entry `p` admits. -/
def OwnedBy (xs : List α) (slot : ℕ) : Prop :=
  ∃ i x, owner (xs.map weight) slot = some i ∧ xs[i]? = some x ∧ p x = true

theorem ownedBy_cons_lt (xs : List α) (h : slot < weight x) :
    OwnedBy weight p (x :: xs) slot ↔ p x = true := by
  simp [OwnedBy, owner_cons_lt _ h]

theorem ownedBy_cons_add (x : α) (xs : List α) (slot : ℕ) :
    OwnedBy weight p (x :: xs) (weight x + slot) ↔ OwnedBy weight p xs slot := by
  simp [OwnedBy, owner_cons_add]

instance (xs : List α) (slot : ℕ) : Decidable (OwnedBy weight p xs slot) :=
  decidable_of_iff (((owner (xs.map weight) slot).bind (xs[·]?)).any p = true) (by
    simp [OwnedBy, any_eq_true, bind_eq_some_iff]
    grind)

theorem count_ownedBy_head (xs : List α) (h : slot ≤ weight x) :
    Nat.count (OwnedBy weight p (x :: xs)) slot = if p x then slot else 0 := by
  have hhead (s : ℕ) (hs : s < slot) : OwnedBy weight p (x :: xs) s ↔ p x = true :=
    ownedBy_cons_lt weight p xs (by omega)
  split_ifs with hp
  · exact Nat.count_of_forall fun s hs => (hhead s hs).mpr hp
  · exact Nat.count_of_forall_not fun s hs => (hhead s hs).not.mpr hp

theorem count_ownedBy_cons (x : α) (xs : List α) (slot : ℕ) :
    Nat.count (OwnedBy weight p (x :: xs)) (weight x + slot) =
      (if p x then weight x else 0) + Nat.count (OwnedBy weight p xs) slot := by
  rw [Nat.count_add, count_ownedBy_head weight p xs le_rfl]
  simp only [ownedBy_cons_add]

/-- Over one round the admitted entries own as many slots as they weigh together. -/
theorem count_ownedBy (xs : List α) :
    Nat.count (OwnedBy weight p xs) (xs.map weight).sum = (weightsOf weight p xs).sum := by
  induction xs with
  | nil => simp [weightsOf]
  | cons x xs ih =>
    rw [List.map_cons, List.sum_cons, count_ownedBy_cons, ih]
    rfl

/-- What the admitted entries weigh together whose interval ends at or before the slot, the
first of them beginning at `cumulative`. -/
def weightBelow (slot : ℕ) : ℕ → List α → ℕ
  | _, [] => 0
  | cumulative, x :: xs =>
    (if p x ∧ cumulative + weight x ≤ slot then weight x else 0) +
      weightBelow slot (cumulative + weight x) xs

theorem weightBelow_of_lt {cumulative : ℕ} (h : slot < cumulative) (xs : List α) :
    weightBelow weight p slot cumulative xs = 0 := by
  induction xs generalizing cumulative with
  | nil => rfl
  | cons x xs ih =>
    rw [weightBelow, if_neg (by omega), ih (by omega)]

/-- Below a slot that no admitted entry owns, they own whole intervals only. -/
theorem weightBelow_eq_count (c : ℕ) (h : OwnedBy weight (fun x => !p x) xs slot) :
    weightBelow weight p (c + slot) c xs = Nat.count (OwnedBy weight p xs) slot := by
  induction xs generalizing slot c with
  | nil => simp [OwnedBy] at h
  | cons x xs ih =>
    rcases Nat.lt_or_ge slot (weight x) with hlt | hge
    · have hx : p x = false := by simpa using (ownedBy_cons_lt weight _ xs hlt).mp h
      rw [count_ownedBy_head weight p xs hlt.le, weightBelow, weightBelow_of_lt _ _ (by omega)]
      simp [hx]
    · obtain ⟨rest, rfl⟩ := Nat.exists_eq_add_of_le hge
      have hrest := ih (c + weight x) ((ownedBy_cons_add weight _ x xs rest).mp h)
      rw [count_ownedBy_cons, weightBelow, ← add_assoc, hrest]
      simp

theorem ownedBy_not (h : slot < (xs.map weight).sum) :
    OwnedBy weight (fun x => !p x) xs slot ↔ ¬ OwnedBy weight p xs slot := by
  obtain ⟨i, hi⟩ := isSome_iff_exists.mp (owner_isSome.mpr h)
  obtain ⟨w, hw, -⟩ := owner_weight hi
  obtain ⟨x, hx, -⟩ := by simpa [map_eq_some_iff] using hw
  simp [OwnedBy, hi, hx]

theorem count_ownedBy_not (h : slot ≤ (xs.map weight).sum) :
    Nat.count (OwnedBy weight (fun x => !p x) xs) slot =
      slot - Nat.count (OwnedBy weight p xs) slot := by
  induction slot with
  | zero => simp
  | succ slot ih =>
    have hle : Nat.count (OwnedBy weight p xs) slot ≤ slot := Nat.count_le _
    rw [Nat.count_succ, Nat.count_succ, ih (by omega)]
    simp only [ownedBy_not weight p (show slot < (xs.map weight).sum by omega)]
    split_ifs <;> omega

/-- At a step whose slot no admitted entry owns, how many such steps a counter made before it. -/
theorem count_not_owned {c : ℕ} (h : OwnedBy weight (fun x => !p x) xs (c % (xs.map weight).sum)) :
    Nat.count (fun c => OwnedBy weight (fun x => !p x) xs (c % (xs.map weight).sum)) c =
      c / (xs.map weight).sum * ((xs.map weight).sum - (weightsOf weight p xs).sum) +
        (c % (xs.map weight).sum - weightBelow weight p (c % (xs.map weight).sum) 0 xs) := by
  set total := (xs.map weight).sum with htotal
  have hslot : c % total < total := by
    obtain ⟨i, -, hi, -⟩ := h
    exact owner_isSome.mp (isSome_iff_exists.mpr ⟨i, hi⟩)
  have hbelow : weightBelow weight p (c % total) 0 xs =
      Nat.count (OwnedBy weight p xs) (c % total) := by
    simpa using weightBelow_eq_count weight p 0 h
  rw [count_periodic (periodic_mod _ total), count_mod le_rfl, count_mod hslot.le,
    count_ownedBy_not weight p le_rfl, count_ownedBy_not weight p hslot.le, hbelow, htotal,
    count_ownedBy]

end
section

variable {α : Type} {xs : List α} {n w : α → ℕ}

/-- Groups weigh `w` in each of `n` places. All get the share of their weight exactly when those
with a weight have the same number of places. -/
theorem shares_iff (hpos : ∀ x ∈ xs, 0 < n x) :
    (∀ x ∈ xs, ((n x * w x : ℕ) : ℚ) / (xs.map fun y => n y * w y).sum =
        (w x : ℚ) / (xs.map w).sum) ↔
      ∀ x ∈ xs, ∀ y ∈ xs, 0 < w x → 0 < w y → n x = n y := by
  have hle (f : α → ℕ) {x : α} (hx : x ∈ xs) : f x ≤ (xs.map f).sum :=
    List.single_le_sum (by simp) _ (List.mem_map_of_mem hx)
  constructor
  · intro h
    have hscale {x : α} (hx : x ∈ xs) (hw : 0 < w x) :
        n x * (xs.map w).sum = (xs.map fun y => n y * w y).sum := by
      have hsum : 0 < (xs.map w).sum := hw.trans_le (hle w hx)
      have htotal : 0 < (xs.map fun y => n y * w y).sum :=
        (Nat.mul_pos (hpos x hx) hw).trans_le (hle (fun y => n y * w y) hx)
      have hx' := h x hx
      rw [div_eq_div_iff (by positivity) (by positivity)] at hx'
      have hnat : n x * w x * (xs.map w).sum = w x * (xs.map fun y => n y * w y).sum := by
        exact_mod_cast hx'
      exact Nat.eq_of_mul_eq_mul_left hw (by linarith)
    intro x hx y hy hwx hwy
    have hsum : 0 < (xs.map w).sum := hwx.trans_le (hle w hx)
    exact Nat.eq_of_mul_eq_mul_right hsum ((hscale hx hwx).trans (hscale hy hwy).symm)
  · intro h x hx
    rcases Nat.eq_zero_or_pos (w x) with hzero | hw
    · simp [hzero]
    · have hscale : (xs.map fun y => n y * w y).sum = n x * (xs.map w).sum := by
        rw [← List.sum_map_mul_left]
        refine congrArg List.sum (List.map_congr_left fun y hy => ?_)
        rcases Nat.eq_zero_or_pos (w y) with hzero | hwy
        · simp [hzero]
        · rw [h y hy x hx hwy hw]
      have hsum : 0 < (xs.map w).sum := hw.trans_le (hle w hx)
      have hnx := hpos x hx
      rw [hscale, div_eq_div_iff (by positivity) (by positivity)]
      push_cast
      ring

end
end Portail.Lib
