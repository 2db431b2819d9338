import Mathlib.Tactic

/-!
# Loops with a decreasing measure

A source `loop` is one turn function: it goes round again with a new state or
leaves with a result. The structure carries the proof that some measure falls
at every turn, so the loop is total; it still runs by recursion on a counter,
hence evaluates on closed inputs. `Loop.induct` is the induction along its turns.
-/

namespace Portail.Lib

structure Loop (σ ρ : Type*) where
  turn : σ → σ ⊕ ρ
  measure : σ → ℕ
  decreases : ∀ {s s'}, turn s = .inl s' → measure s' < measure s

namespace Loop

variable {σ ρ : Type*} (L : Loop σ ρ) {s : σ} {P : σ → Prop}

/-- At most the given number of turns; `none` when they do not suffice. -/
def runFor : ℕ → σ → Option ρ
  | 0, _ => none
  | n + 1, s =>
    match L.turn s with
    | .inl s' => runFor n s'
    | .inr r => some r

theorem runFor_isSome {n : ℕ} (h : L.measure s < n) : (L.runFor n s).isSome = true := by
  induction n generalizing s with
  | zero => omega
  | succ n ih =>
    cases ht : L.turn s with
    | inr r => simp [runFor, ht]
    | inl s' =>
      have hd := L.decreases ht
      simpa [runFor, ht] using ih (by omega)

theorem runFor_mono {n m : ℕ} {r : ρ} (h : L.runFor n s = some r) (hnm : n ≤ m) :
    L.runFor m s = some r := by
  induction n generalizing s m with
  | zero => simp [runFor] at h
  | succ n ih =>
    obtain ⟨m, rfl⟩ : ∃ k, m = k + 1 := ⟨m - 1, by omega⟩
    cases ht : L.turn s with
    | inr r' => simpa [runFor, ht] using h
    | inl s' =>
      simp only [runFor, ht] at h ⊢
      exact ih h (by omega)

/-- The result of the loop: as many turns as the measure allows always suffice. -/
def run (s : σ) : ρ :=
  (L.runFor (L.measure s + 1) s).get (L.runFor_isSome (Nat.lt_succ_self _))

theorem runFor_eq_run {n : ℕ} (h : L.measure s < n) : L.runFor n s = some (L.run s) := by
  have hr : L.runFor (L.measure s + 1) s = some (L.run s) := by simp [run]
  exact L.runFor_mono hr h

theorem run_exit {r : ρ} (h : L.turn s = .inr r) : L.run s = r := by
  have hr := L.runFor_eq_run (Nat.lt_succ_self (L.measure s))
  simpa [runFor, h] using hr.symm

theorem run_again {s' : σ} (h : L.turn s = .inl s') : L.run s = L.run s' := by
  have hd := L.decreases h
  have hr := L.runFor_eq_run (Nat.lt_succ_self (L.measure s))
  simp only [runFor, h] at hr
  rw [L.runFor_eq_run hd] at hr
  exact (Option.some.inj hr).symm

/-- Induction along the turns: what holds of a state when it holds of its successor holds of all. -/
theorem induct (h : ∀ s, (∀ s', L.turn s = .inl s' → P s') → P s) (s : σ) : P s := by
  induction hn : L.measure s using Nat.strong_induction_on generalizing s with
  | _ n ih =>
    subst hn
    exact h s fun s' hs' => ih _ (L.decreases hs') s' rfl

/-- What every turn keeps holds of the state the loop is left from. -/
theorem run_invariant {Q : ρ → Prop} (hagain : ∀ s s', P s → L.turn s = .inl s' → P s')
    (hexit : ∀ s r, P s → L.turn s = .inr r → Q r) (s : σ) (hs : P s) : Q (L.run s) := by
  induction s using L.induct with
  | h s ih =>
    cases hturn : L.turn s with
    | inl s' =>
      rw [L.run_again hturn]
      exact ih s' hturn (hagain s s' hs hturn)
    | inr r =>
      rw [L.run_exit hturn]
      exact hexit s r hs hturn

end Loop
end Portail.Lib
