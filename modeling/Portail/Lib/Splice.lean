import Portail.Lib.Bytes

/-!
# Copying a text around cuts

A cut replaces a stretch of a text. A copy that takes its cuts from two ascending
lists follows their merge (`mergeCopy_eq`). When the text is a row of segments
and the cuts are whole segments of it, the copy is the row with these segments
replaced (`copyCuts_segments`).
-/

namespace Portail.Lib

open List Option

/-- The stretch from `start` to `stop` is replaced by `text`. -/
structure Cut (α : Type*) where
  start : ℕ
  stop : ℕ
  text : List α

def spanCut {α : Type*} (s : ℕ × ℕ) : Cut α := ⟨s.1, s.2, []⟩

section

variable {α : Type*} (raw : List α)

/-- Copies up to a cut and resumes past it: where the copy stands, and what it wrote. -/
def copyCut (st : ℕ × List α) (c : Cut α) : ℕ × List α :=
  (c.stop, st.2 ++ slice raw st.1 c.start ++ c.text)

def copyCuts (cuts : List (Cut α)) (st : ℕ × List α) : ℕ × List α := cuts.foldl (copyCut raw) st

/-- Follows `spans`, and before each of them the `lines` that start earlier. -/
def mergeCopy : List (Cut α) → List (Cut α) → ℕ × List α → ℕ × List α
  | [], lines, st => copyCuts raw lines st
  | span :: spans, lines, st =>
    let st := copyCuts raw (lines.takeWhile (·.start < span.start)) st
    mergeCopy spans (lines.dropWhile (·.start < span.start)) (copyCut raw st span)

def mergeCuts (spans lines : List (Cut α)) : List (Cut α) :=
  spans.merge lines fun span line => decide (span.start ≤ line.start)

variable {raw}

theorem copyCuts_cons (c : Cut α) (cuts : List (Cut α)) (st : ℕ × List α) :
    copyCuts raw (c :: cuts) st = copyCuts raw cuts (copyCut raw st c) := rfl

theorem mergeCopy_eq (spans lines : List (Cut α)) (st : ℕ × List α) :
    mergeCopy raw spans lines st = copyCuts raw (mergeCuts spans lines) st := by
  induction spans generalizing lines st with
  | nil => simp [mergeCopy, mergeCuts]
  | cons span spans ih =>
    induction lines generalizing st with
    | nil =>
      rw [mergeCopy, takeWhile_nil, dropWhile_nil, ih]
      simp [mergeCuts, copyCuts]
    | cons line lines ihl =>
      rw [mergeCuts, cons_merge_cons]
      by_cases h : line.start < span.start
      · rw [if_neg (by simpa using h), copyCuts_cons, ← mergeCuts, ← ihl, mergeCopy, mergeCopy,
          takeWhile_cons_of_pos (by simpa using h),
          dropWhile_cons_of_pos (by simpa using h), copyCuts_cons]
      · rw [if_pos (by simpa using h), copyCuts_cons, ← mergeCuts, ← ih, mergeCopy,
          takeWhile_cons_of_neg (by simpa using h),
          dropWhile_cons_of_neg (by simpa using h)]
        rfl

theorem slice_extend {pos stop cursor : ℕ} {mid rest : List α} (hcursor : cursor ≤ pos)
    (hdrop : raw.drop pos = mid ++ rest) (hstop : stop = pos + mid.length) :
    slice raw cursor stop = slice raw cursor pos ++ mid := by
  have hsplit : raw.drop cursor = (raw.drop cursor).take (pos - cursor) ++ (mid ++ rest) := by
    conv_lhs => rw [← take_append_drop (pos - cursor) (raw.drop cursor)]
    rw [drop_drop, Nat.add_sub_cancel' hcursor, hdrop]
  by_cases hmid : mid = []
  · subst hmid hstop
    simp
  have hpos : pos ≤ raw.length := by
    by_contra hlt
    rw [drop_eq_nil_of_le (by omega)] at hdrop
    simp [hmid] at hdrop
  have hlen : ((raw.drop cursor).take (pos - cursor)).length = pos - cursor := by
    rw [length_take, length_drop]
    omega
  rw [slice, slice]
  conv_lhs => rw [hsplit, ← append_assoc]
  exact take_left' (by rw [length_append, hlen]; omega)

end

section

variable {α σ : Type*} (old : σ → List α)

/-- The cuts of the segments that `edit` replaces, the first one starting at `pos`. -/
def cutsAt (edit : σ → Option (List α)) : ℕ → List σ → List (Cut α)
  | _, [] => []
  | pos, s :: ss =>
    let rest := cutsAt edit (pos + (old s).length) ss
    match edit s with
    | some text => ⟨pos, pos + (old s).length, text⟩ :: rest
    | none => rest

variable {old} {edit edit' : σ → Option (List α)}

theorem cutsAt_cons (edit : σ → Option (List α)) (pos : ℕ) (s : σ) (ss : List σ) :
    cutsAt old edit pos (s :: ss) =
      ((edit s).map fun text => ⟨pos, pos + (old s).length, text⟩).toList ++
        cutsAt old edit (pos + (old s).length) ss := by
  cases hs : edit s <;> simp [cutsAt, hs]

variable {pos : ℕ} {ss : List σ} {c : Cut α}

theorem cutsAt_eq_nil_iff : cutsAt old edit pos ss = [] ↔ ∀ s ∈ ss, edit s = none := by
  induction ss generalizing pos with
  | nil => simp [cutsAt]
  | cons s ss ih =>
    rw [cutsAt_cons, append_eq_nil_iff, ih, forall_mem_cons]
    cases edit s <;> simp

theorem le_start_of_mem_cutsAt (h : c ∈ cutsAt old edit pos ss) : pos ≤ c.start := by
  induction ss generalizing pos with
  | nil => simp [cutsAt] at h
  | cons s ss ih =>
    have hrest : c ∈ cutsAt old edit (pos + (old s).length) ss → pos ≤ c.start :=
      fun h => le_trans (Nat.le_add_right _ _) (ih h)
    cases hs : edit s with rw [cutsAt, hs] at h
    | none => exact hrest h
    | some text =>
      rcases mem_cons.mp h with rfl | h
      · exact le_rfl
      · exact hrest h

theorem merge_cons_left {cuts lines : List (Cut α)} (h : ∀ line ∈ lines, c.start ≤ line.start) :
    mergeCuts (c :: cuts) lines = c :: mergeCuts cuts lines := by
  cases lines with
  | nil => simp [mergeCuts]
  | cons line lines =>
    rw [mergeCuts, cons_merge_cons, if_pos (by simpa using h line (by simp))]
    rfl

theorem merge_cons_right {cuts lines : List (Cut α)} (h : ∀ span ∈ cuts, c.start < span.start) :
    mergeCuts cuts (c :: lines) = c :: mergeCuts cuts lines := by
  cases cuts with
  | nil => simp [mergeCuts]
  | cons span cuts =>
    rw [mergeCuts, cons_merge_cons, if_neg (by simpa using h span (by simp))]
    rfl

/-- Cuts of different segments of one text merge into the cuts of both kinds. -/
theorem mergeCuts_cutsAt (hne : ∀ s, old s ≠ [])
    (hdisjoint : ∀ s ∈ ss, edit s = none ∨ edit' s = none) (pos : ℕ) :
    mergeCuts (cutsAt old edit pos ss) (cutsAt old edit' pos ss) =
      cutsAt old (fun s => (edit s).or (edit' s)) pos ss := by
  induction ss generalizing pos with
  | nil => simp [cutsAt, mergeCuts]
  | cons s ss ih =>
    have hpos : 0 < (old s).length := length_pos_iff.mpr (hne s)
    have hrest := ih (fun t ht => hdisjoint t (by simp [ht])) (pos + (old s).length)
    cases hs : edit s with
    | some text =>
      have hs' : edit' s = none := by simpa [hs] using hdisjoint s (by simp)
      simp only [cutsAt, hs, hs', some_or]
      rw [merge_cons_left, hrest]
      intro line hline
      exact le_trans (Nat.le_add_right _ _) (le_start_of_mem_cutsAt hline)
    | none =>
      cases hs' : edit' s with simp only [cutsAt, hs, hs', none_or]
      | none => exact hrest
      | some text =>
        rw [merge_cons_right, hrest]
        intro span hspan
        exact lt_of_lt_of_le (Nat.lt_add_of_pos_right hpos) (le_start_of_mem_cutsAt hspan)

/-- Cuts of different segments start apart. -/
theorem start_ne_of_mem_cutsAt (hne : ∀ s, old s ≠ [])
    (hdisjoint : ∀ s ∈ ss, edit s = none ∨ edit' s = none) {c' : Cut α}
    (hc : c ∈ cutsAt old edit pos ss) (hc' : c' ∈ cutsAt old edit' pos ss) :
    c.start ≠ c'.start := by
  induction ss generalizing pos with
  | nil => simp [cutsAt] at hc
  | cons s ss ih =>
    have hpos : 0 < (old s).length := length_pos_iff.mpr (hne s)
    have hlater : ∀ {e : σ → Option (List α)} {c : Cut α},
        c ∈ cutsAt old e (pos + (old s).length) ss → pos < c.start := fun h =>
      lt_of_lt_of_le (Nat.lt_add_of_pos_right hpos) (le_start_of_mem_cutsAt h)
    rw [cutsAt_cons, mem_append, mem_toList, map_eq_some_iff] at hc hc'
    rcases hc with ⟨text, htext, rfl⟩ | hc
    · rcases hc' with ⟨text', htext', -⟩ | hc'
      · rcases hdisjoint s (by simp) with hs | hs
        · rw [hs] at htext; cases htext
        · rw [hs] at htext'; cases htext'
      · exact (hlater hc').ne
    · rcases hc' with ⟨text', -, rfl⟩ | hc'
      · exact (hlater hc).ne'
      · exact ih (fun t ht => hdisjoint t (by simp [ht])) hc hc'

/-- Copying around whole segments writes the row with these segments replaced. -/
theorem copyCuts_segments (edit : σ → Option (List α)) {raw rest : List α} {cursor stop : ℕ}
    (hdrop : raw.drop pos = ss.flatMap old ++ rest) (hcursor : cursor ≤ pos)
    (hstop : stop = pos + (ss.flatMap old).length) (out : List α) :
    let st := copyCuts raw (cutsAt old edit pos ss) (cursor, out)
    st.2 ++ slice raw st.1 stop =
      out ++ slice raw cursor pos ++ ss.flatMap fun s => (edit s).getD (old s) := by
  subst hstop
  induction ss generalizing pos cursor out with
  | nil => simp [cutsAt, copyCuts]
  | cons s ss ih =>
    rw [flatMap_cons, append_assoc] at hdrop
    have hnext : raw.drop (pos + (old s).length) = ss.flatMap old ++ rest := drop_of_drop hdrop rfl
    have hlen : pos + ((s :: ss).flatMap old).length =
        pos + (old s).length + (ss.flatMap old).length := by
      rw [flatMap_cons, length_append, add_assoc]
    rw [hlen]
    cases hs : edit s with
    | none =>
      have hcopy := ih hnext (le_trans hcursor (Nat.le_add_right _ _)) out
      simp only [cutsAt, hs]
      rw [hcopy, slice_extend hcursor hdrop rfl]
      simp [hs]
    | some text =>
      have hcopy := ih hnext le_rfl (out ++ slice raw cursor pos ++ text)
      have hself : slice raw (pos + (old s).length) (pos + (old s).length) = [] := by simp [slice]
      simp only [cutsAt, hs, copyCuts_cons, copyCut]
      rw [hcopy, hself]
      simp [hs]

end
end Portail.Lib
