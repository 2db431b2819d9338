import Mathlib.Tactic

/-!
# Stream observers

An observer walks over a stream that arrives in slices. It stops for good in a
`done` state or in a `broken` one; the element that breaks it is not taken.
Feeding slice by slice equals feeding the whole stream (`Observer.feed_eq`), and
an observer whose states are the derivatives of a language takes exactly the
word of that language the stream begins with (`Observer.Recognises`).
-/

namespace Portail.Lib

open List Bool

structure Observer (σ α β : Type*) where
  step : σ → α → σ × List β
  done : σ → Bool
  broken : σ → Bool

namespace Observer

variable {σ α β : Type*} (M : Observer σ α β) {s : σ} {xs : List α}

/-- What one call did: the state it leaves, how many elements it took, and what it handed on. -/
@[ext] structure Taken (σ β : Type*) where
  state : σ
  count : ℕ
  out : List β

def stopped (s : σ) : Bool := M.done s || M.broken s

def consume (s : σ) : List α → Taken σ β
  | [] => ⟨s, 0, []⟩
  | a :: rest =>
    if M.stopped s then ⟨s, 0, []⟩
    else
      let next := M.step s a
      if M.broken next.1 then ⟨next.1, 0, []⟩
      else
        let t := consume next.1 rest
        ⟨t.state, t.count + 1, next.2 ++ t.out⟩

theorem consume_of_stopped (h : M.stopped s = true) (xs : List α) :
    M.consume s xs = ⟨s, 0, []⟩ := by
  cases xs with
  | nil => rfl
  | cons a rest => simp [consume, h]

theorem stopped_of_broken (h : M.broken s = true) : M.stopped s = true := by
  simp [stopped, h]

theorem consume_cons {a : α} (hstop : M.stopped s = false)
    (hnext : M.broken (M.step s a).1 = false) (rest : List α) :
    M.consume s (a :: rest) =
      ⟨(M.consume (M.step s a).1 rest).state, (M.consume (M.step s a).1 rest).count + 1,
        (M.step s a).2 ++ (M.consume (M.step s a).1 rest).out⟩ := by
  simp [consume, hstop, hnext]

theorem consume_break {a : α} (hstop : M.stopped s = false) (hnext : M.broken (M.step s a).1 = true)
    (rest : List α) : M.consume s (a :: rest) = ⟨(M.step s a).1, 0, []⟩ := by
  simp [consume, hstop, hnext]

theorem count_le (s : σ) (xs : List α) : (M.consume s xs).count ≤ xs.length := by
  induction xs generalizing s with
  | nil => simp [consume]
  | cons a rest ih =>
    have hrest := ih (M.step s a).1
    simp only [consume]
    split
    · simp
    · split
      · simp
      · simpa using hrest

/-- A slice is taken whole unless the observer stops inside it. -/
theorem count_eq_or_stopped (s : σ) (xs : List α) :
    (M.consume s xs).count = xs.length ∨ M.stopped (M.consume s xs).state = true := by
  induction xs generalizing s with
  | nil => simp [consume]
  | cons a rest ih =>
    have hrest := ih (M.step s a).1
    simp only [consume]
    split
    · exact .inr ‹_›
    · split
      · exact .inr (M.stopped_of_broken ‹_›)
      · simpa using hrest

theorem consume_append (s : σ) (xs ys : List α) :
    M.consume s (xs ++ ys) =
      ⟨(M.consume (M.consume s xs).state ys).state,
        (M.consume s xs).count + (M.consume (M.consume s xs).state ys).count,
        (M.consume s xs).out ++ (M.consume (M.consume s xs).state ys).out⟩ := by
  induction xs generalizing s with
  | nil => simp [consume]
  | cons a rest ih =>
    have hrest := ih (M.step s a).1
    simp only [cons_append, consume]
    split
    · next h => simp [M.consume_of_stopped h]
    · split
      · next h => simp [M.consume_of_stopped (M.stopped_of_broken h)]
      · rw [hrest]
        ext
        · rfl
        · simp only; omega
        · simp

theorem consume_append_broken (h : M.broken (M.consume s xs).state = true) (ys : List α) :
    (M.consume s (xs ++ ys)).state = (M.consume s xs).state ∧
      (M.consume s (xs ++ ys)).count = (M.consume s xs).count := by
  rw [consume_append, M.consume_of_stopped (M.stopped_of_broken h)]
  exact ⟨rfl, add_zero _⟩

theorem consume_take_broken (h : M.broken (M.consume s xs).state = true) :
    M.consume s (xs.take ((M.consume s xs).count + 1)) = M.consume s xs := by
  induction xs generalizing s with
  | nil => simp
  | cons a rest ih =>
    cases hstop : M.stopped s with
    | true => rw [M.consume_of_stopped hstop, M.consume_of_stopped hstop]
    | false =>
      cases hnext : M.broken (M.step s a).1 with
      | true => rw [M.consume_break hstop hnext, take_succ_cons, M.consume_break hstop hnext]
      | false =>
        rw [M.consume_cons hstop hnext] at h ⊢
        rw [take_succ_cons, M.consume_cons hstop hnext, ih h]

/-- What a run over several slices did; `taken` holds the elements themselves. -/
@[ext] structure Fed (σ α β : Type*) where
  state : σ
  taken : List α
  out : List β

def feed (s : σ) : List (List α) → Fed σ α β
  | [] => ⟨s, [], []⟩
  | slice :: rest =>
    let t := M.consume s slice
    let f := feed t.state rest
    ⟨f.state, slice.take t.count ++ f.taken, t.out ++ f.out⟩

/-- How the stream is cut into slices does not matter. -/
theorem feed_eq (s : σ) (slices : List (List α)) :
    M.feed s slices =
      ⟨(M.consume s slices.flatten).state,
        slices.flatten.take (M.consume s slices.flatten).count,
        (M.consume s slices.flatten).out⟩ := by
  induction slices generalizing s with
  | nil => simp [feed, consume]
  | cons slice rest ih =>
    simp only [feed, ih, flatten_cons, consume_append]
    have htaken : (slice ++ rest.flatten).take ((M.consume s slice).count +
        (M.consume (M.consume s slice).state rest.flatten).count) =
        slice.take (M.consume s slice).count ++ rest.flatten.take
          (M.consume (M.consume s slice).state rest.flatten).count := by
      rcases M.count_eq_or_stopped s slice with h | h
      · rw [h, take_length_add_append, take_length]
      · rw [M.consume_of_stopped h, add_zero, take_append_of_le_length (M.count_le s slice)]
        simp
    rw [htaken]

theorem feed_of_stopped (h : M.stopped s = true) (slices : List (List α)) :
    M.feed s slices = ⟨s, [], []⟩ := by
  rw [feed_eq, M.consume_of_stopped h]
  simp

section

variable (L : σ → List α → List β → Prop)

/-- `L s w d`: from state `s` the word `w`, carrying the payload `d`, completes the
stream. The step of the observer is the derivative of this language. -/
structure Recognises : Prop where
  nil : ∀ {s d}, L s [] d ↔ M.done s = true ∧ d = []
  cons : ∀ {s a w d}, M.stopped s = false →
    (L s (a :: w) d ↔ ∃ d', L (M.step s a).1 w d' ∧ d = (M.step s a).2 ++ d')
  done_cons : ∀ {s a w d}, M.done s = true → ¬ L s (a :: w) d
  broken : ∀ {s w d}, M.broken s = true → ¬ L s w d

variable {M L}

namespace Recognises

/-- A word of the language is taken whole, whatever follows it. -/
theorem complete (hL : M.Recognises L) {w : List α} {d : List β} (h : L s w d)
    (rest : List α) : M.done (M.consume s (w ++ rest)).state = true ∧
      (M.consume s (w ++ rest)).count = w.length ∧ (M.consume s (w ++ rest)).out = d := by
  induction w generalizing s d with
  | nil =>
    obtain ⟨hdone, rfl⟩ := hL.nil.mp h
    have hstop : M.stopped s = true := by simp [stopped, hdone]
    simp [M.consume_of_stopped hstop, hdone]
  | cons a w ih =>
    have hstop : M.stopped s = false := by
      rw [stopped, or_eq_false_iff]
      constructor
      · by_contra hd
        exact hL.done_cons (by simpa using hd) h
      · by_contra hb
        exact hL.broken (by simpa using hb) h
    obtain ⟨d', hw, rfl⟩ := (hL.cons hstop).mp h
    have hnext : M.broken (M.step s a).1 = false := by
      by_contra hb
      exact hL.broken (by simpa using hb) hw
    obtain ⟨hdone, hcount, hout⟩ := ih hw
    simp [consume, hstop, hnext, hdone, hcount, hout]

/-- A run that ends in `done` has taken a word of the language. -/
theorem sound (hL : M.Recognises L) (h : M.done (M.consume s xs).state = true) :
    L s (xs.take (M.consume s xs).count) (M.consume s xs).out := by
  induction xs generalizing s with
  | nil => exact hL.nil.mpr ⟨h, rfl⟩
  | cons a rest ih =>
    by_cases hstop : M.stopped s = true
    · rw [M.consume_of_stopped hstop] at h ⊢
      exact hL.nil.mpr ⟨h, rfl⟩
    · have hstop : M.stopped s = false := by simpa using hstop
      by_cases hnext : M.broken (M.step s a).1 = true
      · simp only [consume, hstop, hnext, false_eq_true, if_false, if_true] at h ⊢
        exact (hL.broken hnext (hL.nil.mpr ⟨h, rfl⟩)).elim
      · simp only [consume, hstop, hnext, false_eq_true, if_false] at h ⊢
        rw [take_succ_cons]
        exact (hL.cons hstop).mpr ⟨_, ih h, rfl⟩

/-- The observer finishes exactly on the streams that begin with a word of the language. -/
theorem done_iff (hL : M.Recognises L) :
    M.done (M.consume s xs).state = true ↔ ∃ w d, w <+: xs ∧ L s w d := by
  constructor
  · intro h
    exact ⟨_, _, take_prefix _ _, hL.sound h⟩
  · rintro ⟨w, d, ⟨rest, rfl⟩, h⟩
    exact (hL.complete h rest).1

/-- Where every live state can be completed, a break comes at the first element after which
nothing completes the stream. -/
theorem broken_first (hL : M.Recognises L) {live : σ → Prop}
    (hstep : ∀ s a, live s → M.stopped s = false → live (M.step s a).1)
    (hviable : ∀ s, live s → M.broken s = false → ∃ w d, L s w d)
    (hlive : live s) (hs : M.broken s = false) (h : M.broken (M.consume s xs).state = true) :
    (M.consume s xs).count < xs.length ∧
      (∃ w d, L s (xs.take (M.consume s xs).count ++ w) d) ∧
      ¬ ∃ w d, L s (xs.take ((M.consume s xs).count + 1) ++ w) d := by
  induction xs generalizing s with
  | nil => exact absurd h (by simp [consume, hs])
  | cons a rest ih =>
    cases hstop : M.stopped s with
    | true =>
      rw [M.consume_of_stopped hstop] at h
      exact absurd h (by simp [hs])
    | false =>
      cases hnext : M.broken (M.step s a).1 with
      | true =>
        simp only [consume, hstop, hnext, false_eq_true, if_false, if_true]
        refine ⟨by simp, hviable s hlive hs, ?_⟩
        rintro ⟨w, d, hw⟩
        obtain ⟨d', hw', -⟩ := (hL.cons hstop).mp (by simpa using hw)
        exact hL.broken hnext hw'
      | false =>
        simp only [consume, hstop, hnext, false_eq_true, if_false] at h ⊢
        obtain ⟨hlt, ⟨w, d, hw⟩, hnone⟩ := ih (hstep s a hlive hstop) hnext h
        refine ⟨by simpa using hlt, ⟨w, (M.step s a).2 ++ d, ?_⟩, ?_⟩
        · rw [take_succ_cons, cons_append]
          exact (hL.cons hstop).mpr ⟨d, hw, rfl⟩
        · rintro ⟨w, d, hw⟩
          rw [take_succ_cons, cons_append] at hw
          obtain ⟨d', hw', -⟩ := (hL.cons hstop).mp hw
          exact hnone ⟨w, d', hw'⟩

end Recognises
end
end Observer
end Portail.Lib
