import Mathlib.Logic.Relation

/-!
# Runs of a transition system

What holds at the start and is kept by every step holds along every run.
-/

namespace Portail.Lib

variable {σ α : Type}

/-- The states that runs from a start reach. -/
inductive Reachable (start : σ → Prop) (step : σ → σ → Prop) : σ → Prop
  | start {s} : start s → Reachable start step s
  | step {s t} : Reachable start step s → step s t → Reachable start step t

variable {start inv : σ → Prop} {step : σ → σ → Prop}

theorem Reachable.invariant (hstart : ∀ s, start s → inv s)
    (hstep : ∀ s t, inv s → step s t → inv t) {s : σ} (h : Reachable start step s) : inv s := by
  induction h with
  | start h => exact hstart _ h
  | step _ h ih => exact hstep _ _ ih h

/-- A run with what is seen of each of its steps. -/
inductive Trace (step : σ → α → σ → Prop) : σ → List α → σ → Prop
  | nil {s} : Trace step s [] s
  | cons {s t u a l} : step s a t → Trace step t l u →
      Trace step s (a :: l) u

theorem Trace.append {step : σ → α → σ → Prop} {s t u : σ} {l l' : List α}
    (h : Trace step s l t) (h' : Trace step t l' u) : Trace step s (l ++ l') u := by
  induction h with
  | nil => exact h'
  | cons ha _ ih => exact .cons ha (ih h')

/-- What steps of one kind keep, and what it makes each of them do. -/
theorem Trace.invariant {step : σ → α → σ → Prop} {kind does : α → Prop}
    (hstep : ∀ s a t, inv s → kind a → step s a t → inv t ∧ does a) {s t : σ} {l : List α}
    (h : Trace step s l t) (hs : inv s) (hl : ∀ a ∈ l, kind a) : inv t ∧ ∀ a ∈ l, does a := by
  induction h with
  | nil => exact ⟨hs, fun a ha => absurd ha List.not_mem_nil⟩
  | cons ha _ ih =>
    obtain ⟨hhead, htail⟩ := List.forall_mem_cons.mp hl
    obtain ⟨hinv, hdoes⟩ := hstep _ _ _ hs hhead ha
    obtain ⟨hend, hrest⟩ := ih hinv htail
    exact ⟨hend, List.forall_mem_cons.mpr ⟨hdoes, hrest⟩⟩

end Portail.Lib
