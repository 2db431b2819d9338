import Mathlib.Data.List.Sort
import Mathlib.Tactic

/-!
# Searching lists

The first element of a stably sorted list that satisfies a predicate is, in the list
before it was sorted, the earliest of the least ones that do. A search of groups that
come in strict order finds in the least group that has something. A pass that keeps the
best element so far ends with one that is at least as good as each.
-/

namespace Portail.Lib

open List Option

section

variable {α β : Type} {f g : α → Option β}

theorem findSome?_congr {l : List α} (h : ∀ a ∈ l, f a = g a) : l.findSome? f = l.findSome? g := by
  induction l with
  | nil => rfl
  | cons a l ih =>
    rw [findSome?_cons, findSome?_cons, h a mem_cons_self,
      ih fun b hb => h b (mem_cons_of_mem a hb)]

/-- Nothing is found in the groups before the one that answers. -/
theorem findSome?_spec {before : α → α → Prop} {l : List α} (hl : l.Pairwise before) {b : β}
    (h : l.findSome? f = some b) :
    ∃ a ∈ l, f a = some b ∧ ∀ a' ∈ l, ¬before a a' → a' = a ∨ f a' = none := by
  obtain ⟨l₁, a, l₂, rfl, ha, hnone⟩ := findSome?_eq_some_iff.mp h
  refine ⟨a, by simp, ha, fun a' ha' hbefore => ?_⟩
  rcases mem_append.mp ha' with ha' | ha'
  · exact .inr (hnone a' ha')
  · rcases mem_cons.mp ha' with rfl | ha'
    · exact .inl rfl
    · exact absurd (rel_of_pairwise_cons (pairwise_append.mp hl).2.1 ha') hbefore

/-- Where a second search has something only in groups the first one has something in, it finds
nothing before the group that answers the first. -/
theorem findSome?_agree {γ : Type} {g : α → Option γ} {l : List α}
    (hnone : ∀ a ∈ l, f a = none → g a = none) {b : β} (h : l.findSome? f = some b) :
    ∃ a ∈ l, f a = some b ∧ ((g a).isSome → l.findSome? g = g a) := by
  obtain ⟨l₁, a, l₂, rfl, ha, hbefore⟩ := findSome?_eq_some_iff.mp h
  refine ⟨a, by simp, ha, fun hg => ?_⟩
  have hfirst : l₁.findSome? g = none := findSome?_eq_none_iff.mpr fun x hx =>
    hnone x (mem_append_left _ hx) (hbefore x hx)
  obtain ⟨c, hc⟩ := isSome_iff_exists.mp hg
  rw [findSome?_append, hfirst, none_or, findSome?_cons, hc]

end

section

variable {α : Type} {wins : α → α → Bool} {l : List α}

/-- One more element against the best so far. -/
def better (wins : α → α → Bool) (best : Option α) (a : α) : Option α :=
  if best.all (wins a) then some a else best

theorem foldl_better_eq_none : l.foldl (better wins) none = none ↔ l = [] := by
  rcases eq_nil_or_concat l with rfl | ⟨init, a, rfl⟩
  · simp
  · rw [concat_eq_append, foldl_append, foldl_cons, foldl_nil, better]
    cases init.foldl (better wins) none with
    | none => simp
    | some best => by_cases hwins : wins a best <;> simp [hwins]

theorem foldl_better {r : α → α → Prop} (hrefl : ∀ a, r a a)
    (htrans : ∀ a b c, r a b → r b c → r a c)
    (hwon : ∀ a b, wins a b = true → r a b) (hlost : ∀ a b, wins a b = false → r b a) {best : α}
    (h : l.foldl (better wins) none = some best) : best ∈ l ∧ ∀ a ∈ l, r best a := by
  induction l using List.reverseRecOn generalizing best with
  | nil => cases h
  | append_singleton l a ih =>
    rw [foldl_append, foldl_cons, foldl_nil, better] at h
    simp only [mem_append, mem_singleton, or_imp, forall_and, forall_eq]
    cases hbest : l.foldl (better wins) none with
    | none =>
      obtain rfl := foldl_better_eq_none.mp hbest
      obtain rfl : a = best := by simpa [hbest] using h
      simp [hrefl]
    | some held =>
      obtain ⟨hmem, hheld⟩ := ih hbest
      rw [hbest, all_some] at h
      split_ifs at h with hwins <;> cases h
      · exact ⟨.inr rfl, fun b hb => htrans _ _ _ (hwon _ _ hwins) (hheld b hb), hrefl _⟩
      · exact ⟨.inl hmem, hheld, hlost _ _ (Bool.eq_false_of_not_eq_true hwins)⟩

end

variable {α : Type} (r : α → α → Prop) [DecidableRel r] (p : α → Bool) {a : α}

/-- The earliest of the least elements that satisfy the predicate. -/
def firstLeast : List α → Option α
  | [] => none
  | a :: l =>
    if p a then
      match firstLeast l with
      | none => some a
      | some b => if r a b then some a else some b
    else firstLeast l

section

variable [IsTrans α r]

theorem find?_orderedInsert {l : List α} (hl : l.Pairwise r) :
    (l.orderedInsert r a).find? p =
      if p a then
        match l.find? p with
        | none => some a
        | some b => if r a b then some a else some b
      else l.find? p := by
  induction l with
  | nil => cases ha : p a <;> simp [ha]
  | cons c l ih =>
    obtain ⟨hc, hl⟩ := pairwise_cons.mp hl
    rw [List.orderedInsert]
    by_cases hac : r a c
    · rw [if_pos hac, find?_cons]
      cases ha : p a with
      | false => simp
      | true =>
        simp only [if_true]
        cases hfind : (c :: l).find? p with
        | none => rfl
        | some b =>
          have hb : r a b := by
            rcases mem_cons.mp (mem_of_find?_eq_some hfind) with rfl | hb
            · exact hac
            · exact IsTrans.trans a c b hac (hc b hb)
          simp [hb]
    · rw [if_neg hac, find?_cons, find?_cons, ih hl]
      cases hpc : p c with
      | false => rfl
      | true => simp [hac]

end

theorem find?_insertionSort [IsTrans α r] [Std.Total r] (l : List α) :
    (l.insertionSort r).find? p = firstLeast r p l := by
  induction l with
  | nil => rfl
  | cons a l ih =>
    rw [insertionSort_cons, find?_orderedInsert r p (pairwise_insertionSort r l), ih]
    rfl

theorem firstLeast_eq_none {l : List α} : firstLeast r p l = none ↔ ∀ a ∈ l, p a = false := by
  induction l with
  | nil => simp [firstLeast]
  | cons a l ih =>
    rw [firstLeast, forall_mem_cons, ← ih]
    cases p a with
    | false => simp
    | true =>
      cases firstLeast r p l with
      | none => simp
      | some b => by_cases hab : r a b <;> simp [hab]

/-- What is found is least, and no later than the others that are. -/
theorem firstLeast_spec [IsTrans α r] [Std.Total r] {before : α → α → Prop} {l : List α}
    (hl : l.Pairwise before) (h : firstLeast r p l = some a) :
    a ∈ l ∧ p a = true ∧ ∀ b ∈ l, p b = true → r a b ∧ (r b a → b = a ∨ before a b) := by
  induction l generalizing a with
  | nil => simp [firstLeast] at h
  | cons c l ih =>
    obtain ⟨hc, hl⟩ := pairwise_cons.mp hl
    have hrefl (x : α) : r x x := (Std.Total.total x x).elim id id
    rw [firstLeast] at h
    cases hpc : p c with
    | false =>
      rw [hpc, if_neg (by simp)] at h
      obtain ⟨ha, hpa, hleast⟩ := ih hl h
      refine ⟨mem_cons_of_mem c ha, hpa, fun b hb hpb => ?_⟩
      rcases mem_cons.mp hb with rfl | hb
      · simp [hpc] at hpb
      · exact hleast b hb hpb
    | true =>
      rw [hpc, if_pos rfl] at h
      cases hrest : firstLeast r p l with
      | none =>
        simp only [hrest, Option.some.injEq] at h
        subst h
        refine ⟨by simp, hpc, fun b hb hpb => ?_⟩
        rcases mem_cons.mp hb with rfl | hb
        · exact ⟨hrefl b, fun _ => .inl rfl⟩
        · simp [(firstLeast_eq_none r p).mp hrest b hb] at hpb
      | some d =>
        obtain ⟨hd, hpd, hleast⟩ := ih hl hrest
        simp only [hrest] at h
        split_ifs at h with hcd <;> obtain rfl := some.inj h
        · refine ⟨by simp, hpc, fun b hb hpb => ?_⟩
          rcases mem_cons.mp hb with rfl | hb
          · exact ⟨hrefl b, fun _ => .inl rfl⟩
          · exact ⟨IsTrans.trans c d b hcd (hleast b hb hpb).1, fun _ => .inr (hc b hb)⟩
        · refine ⟨mem_cons_of_mem c hd, hpd, fun b hb hpb => ?_⟩
          rcases mem_cons.mp hb with rfl | hb
          · exact ⟨(Std.Total.total b d).resolve_left hcd, fun hbd => absurd hbd hcd⟩
          · exact hleast b hb hpb

section

variable {β : Type} (g : β → α)

theorem firstLeast_map (l : List β) :
    firstLeast r p (l.map g) = (firstLeast (fun a b => r (g a) (g b)) (p ∘ g) l).map g := by
  induction l with
  | nil => rfl
  | cons a l ih =>
    rw [map_cons, firstLeast, firstLeast, ih, Function.comp_apply]
    cases p (g a) with
    | false => rfl
    | true =>
      cases firstLeast (fun a b => r (g a) (g b)) (p ∘ g) l with
      | none => rfl
      | some b => by_cases hab : r (g a) (g b) <;> simp [hab]

/-- The same for the image of a list: what is found is the image of an earliest least element. -/
theorem firstLeast_map_spec [IsTrans α r] [Std.Total r] {before : β → β → Prop} {l : List β}
    (hl : l.Pairwise before) (h : firstLeast r p (l.map g) = some a) :
    ∃ x ∈ l, g x = a ∧ p a = true ∧
      ∀ y ∈ l, p (g y) = true → r a (g y) ∧ (r (g y) a → y = x ∨ before x y) := by
  have : IsTrans β fun a b => r (g a) (g b) := ⟨fun a b c => IsTrans.trans (g a) (g b) (g c)⟩
  have : Std.Total fun a b => r (g a) (g b) := ⟨fun a b => Std.Total.total (g a) (g b)⟩
  rw [firstLeast_map, map_eq_some_iff] at h
  obtain ⟨x, hx, rfl⟩ := h
  obtain ⟨hmem, hpx, hleast⟩ := firstLeast_spec _ (p ∘ g) hl hx
  exact ⟨x, hmem, rfl, hpx, hleast⟩

end

end Portail.Lib
