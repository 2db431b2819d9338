import Mathlib.Tactic

/-!
# Byte strings

Wire data is a list of octets. This file holds the ASCII alphabets, the
case-insensitive comparison, and the lemmas about runs (`takeWhile`) and
separators (`splitOn`) that every scanner of such data needs.
-/

namespace Portail.Lib

open List

abbrev Bytes := List UInt8

/-- Decided along the text, not over all octets. -/
instance (priority := high) decidableForallMem (p : UInt8 → Prop) [DecidablePred p] (l : Bytes) :
    Decidable (∀ b ∈ l, p b) :=
  List.decidableBAll p l

/-- The UTF-8 octets of a literal. -/
def bytes (s : String) : Bytes := s.toUTF8.data.toList

abbrev cr : UInt8 := 0x0d
abbrev lf : UInt8 := 0x0a
abbrev sp : UInt8 := 0x20
abbrev htab : UInt8 := 0x09
abbrev colon : UInt8 := 0x3a
abbrev comma : UInt8 := 0x2c
abbrev slash : UInt8 := 0x2f
abbrev question : UInt8 := 0x3f

abbrev crlf : Bytes := [cr, lf]

/-- A decidable fact about one octet is settled by its 256 values. -/
theorem forall_octet {p : UInt8 → Prop} (h : ∀ n : Fin 256, p (UInt8.ofNat n)) (b : UInt8) :
    p b := by
  have hb := h ⟨b.toNat, b.toNat_lt⟩
  simpa using hb

section

def isAsciiUppercase (b : UInt8) : Bool := 0x41 ≤ b && b ≤ 0x5a

def isAsciiLowercase (b : UInt8) : Bool := 0x61 ≤ b && b ≤ 0x7a

def isAsciiDigit (b : UInt8) : Bool := 0x30 ≤ b && b ≤ 0x39

def isAsciiAlphabetic (b : UInt8) : Bool := isAsciiUppercase b || isAsciiLowercase b

def isAsciiAlphanumeric (b : UInt8) : Bool := isAsciiAlphabetic b || isAsciiDigit b

def isAsciiHexdigit (b : UInt8) : Bool :=
  isAsciiDigit b || (0x41 ≤ b && b ≤ 0x46) || (0x61 ≤ b && b ≤ 0x66)

def toAsciiLowercase (b : UInt8) : UInt8 := if isAsciiUppercase b then b ||| 0x20 else b

def toAsciiUppercase (b : UInt8) : UInt8 := if isAsciiLowercase b then b &&& 0xdf else b

/-- Two byte strings equal up to the case of ASCII letters. -/
def eqIgnoreAsciiCase (x y : Bytes) : Bool :=
  x.map toAsciiLowercase == y.map toAsciiLowercase

variable {x y : Bytes}

theorem eqIgnoreAsciiCase_iff :
    eqIgnoreAsciiCase x y = true ↔ x.map toAsciiLowercase = y.map toAsciiLowercase := by
  simp [eqIgnoreAsciiCase]

@[simp] theorem eqIgnoreAsciiCase_refl (x : Bytes) : eqIgnoreAsciiCase x x = true := by
  simp [eqIgnoreAsciiCase]

theorem eqIgnoreAsciiCase_symm (h : eqIgnoreAsciiCase x y = true) :
    eqIgnoreAsciiCase y x = true := by
  rw [eqIgnoreAsciiCase_iff] at *
  exact h.symm

theorem eqIgnoreAsciiCase_trans {z : Bytes} (hxy : eqIgnoreAsciiCase x y = true)
    (hyz : eqIgnoreAsciiCase y z = true) : eqIgnoreAsciiCase x z = true := by
  rw [eqIgnoreAsciiCase_iff] at *
  exact hxy.trans hyz

/-- Names equal up to case are compared alike with any third one. -/
theorem eqIgnoreAsciiCase_congr (h : eqIgnoreAsciiCase x y = true) (z : Bytes) :
    eqIgnoreAsciiCase x z = eqIgnoreAsciiCase y z := by
  rw [eqIgnoreAsciiCase_iff] at h
  simp [eqIgnoreAsciiCase, h]

theorem eqIgnoreAsciiCase_comm (x y : Bytes) : eqIgnoreAsciiCase x y = eqIgnoreAsciiCase y x := by
  rw [eqIgnoreAsciiCase, Bool.beq_comm, ← eqIgnoreAsciiCase]

theorem eqIgnoreAsciiCase_congr_right (h : eqIgnoreAsciiCase x y = true) (z : Bytes) :
    eqIgnoreAsciiCase z x = eqIgnoreAsciiCase z y := by
  rw [eqIgnoreAsciiCase_comm, eqIgnoreAsciiCase_congr h, eqIgnoreAsciiCase_comm]

theorem eqIgnoreAsciiCase_length (h : eqIgnoreAsciiCase x y = true) : x.length = y.length := by
  rw [eqIgnoreAsciiCase_iff] at h
  simpa using congrArg List.length h

/-- No name equals two literals that differ after folding. -/
theorem eqIgnoreAsciiCase_ne {z : Bytes} (hyz : eqIgnoreAsciiCase y z = false)
    (h : eqIgnoreAsciiCase x y = true) : eqIgnoreAsciiCase x z = false := by
  rw [eqIgnoreAsciiCase_congr h]
  exact hyz

end

section

variable {α : Type*} {p : α → Bool}

theorem takeWhile_run {xs : List α} (hx : ∀ a ∈ xs, p a = true) {c : α} (hc : p c = false)
    (rest : List α) : (xs ++ c :: rest).takeWhile p = xs := by
  rw [takeWhile_append_of_pos hx]
  simp [hc]

theorem dropWhile_run {xs : List α} (hx : ∀ a ∈ xs, p a = true) {c : α} (hc : p c = false)
    (rest : List α) : (xs ++ c :: rest).dropWhile p = c :: rest := by
  rw [dropWhile_append_of_pos hx]
  simp [hc]

theorem dropWhile_eq_drop (xs : List α) :
    xs.dropWhile p = xs.drop (xs.takeWhile p).length := by
  have h := congrArg (List.drop (xs.takeWhile p).length)
    (takeWhile_append_dropWhile (p := p) (l := xs))
  rwa [drop_left] at h

end

section

variable {α β : Type*} {p : α → Option β} {q : α → Bool}

/-- A search that goes through a list, as `findSome?`. -/
theorem eq_findSome? {f : List α → Option β} (hnil : f [] = none)
    (hcons : ∀ a l, f (a :: l) = (f [a]).or (f l)) (l : List α) :
    f l = l.findSome? fun a => f [a] := by
  induction l with
  | nil => exact hnil
  | cons a l ih =>
    rw [hcons, ih, findSome?_cons]
    cases f [a] <;> rfl

/-- What one element of a list contributes is found, when at most one may contribute. -/
theorem findSome?_of_once (hq : ∀ a, (p a).isSome = true → q a = true) {l : List α}
    (honce : l.countP q ≤ 1) {a : α} (ha : a ∈ l) {b : β} (hb : p a = some b) :
    l.findSome? p = some b := by
  induction l with
  | nil => simp at ha
  | cons x l ih =>
    rw [countP_cons] at honce
    rcases mem_cons.mp ha with rfl | ha
    · simp [hb]
    · have hqa : q a = true := hq a (by simp [hb])
      have hpos : 0 < l.countP q := countP_pos_iff.mpr ⟨a, ha, hqa⟩
      have hx : p x = none := by
        by_contra hx
        have hqx := hq x (Option.isSome_iff_ne_none.mpr hx)
        rw [if_pos hqx] at honce
        omega
      simp only [findSome?_cons, hx]
      exact ih (by omega) ha

end

section

variable {α : Type*}

/-- `data[start..stop]`. -/
def slice (data : List α) (start stop : ℕ) : List α := (data.drop start).take (stop - start)

variable {mid rest data : List α} {start stop : ℕ}

theorem slice_append {pre : List α} (hs : start = pre.length)
    (he : stop = pre.length + mid.length) :
    slice (pre ++ (mid ++ rest)) start stop = mid := by
  subst hs he
  simp [slice]

theorem slice_of_drop (hdrop : data.drop start = mid ++ rest) (he : stop = start + mid.length) :
    slice data start stop = mid := by
  subst he
  simp [slice, hdrop]

theorem drop_of_drop (hdrop : data.drop start = mid ++ rest) (he : stop = start + mid.length) :
    data.drop stop = rest := by
  subst he
  rw [← drop_drop, hdrop, drop_left]

theorem drop_succ_of_drop {c : α} (hdrop : data.drop start = c :: rest) :
    data.drop (start + 1) = rest := by
  rw [← drop_drop, hdrop]
  rfl

theorem getElem?_of_drop (hdrop : data.drop start = rest) : data[start]? = rest.head? := by
  rw [← hdrop, head?_drop]

end

section

variable {α : Type*} [DecidableEq α]

/-- A text is free of `c`, or a text free of it comes before `c` and a shorter one after. -/
theorem cut_induction {motive : List α → Prop} (c : α) (free : ∀ xs, c ∉ xs → motive xs)
    (cut : ∀ x y, c ∉ x → motive y → motive (x ++ c :: y)) (xs : List α) : motive xs := by
  induction hn : xs.length using Nat.strong_induction_on generalizing xs with
  | _ n ih =>
    subst hn
    by_cases hc : c ∈ xs
    · obtain ⟨x, y, rfl, hx⟩ := eq_append_cons_of_mem hc
      exact cut x y hx (ih y.length (by simp; omega) y rfl)
    · exact free xs hc

/-- A piece of a text cut at `c`: free of `c`, with `c` or the end of the text on either side. -/
theorem mem_splitOn {c : α} {xs piece : List α} (h : piece ∈ xs.splitOn c) :
    c ∉ piece ∧ ∃ l r, xs = l ++ (piece ++ r) ∧ (l = [] ∨ ∃ l', l = l' ++ [c]) ∧
      (r = [] ∨ ∃ r', r = c :: r') := by
  induction xs using cut_induction c with
  | free xs hc =>
    rw [splitOn_eq_singleton hc, mem_singleton] at h
    subst h
    exact ⟨hc, [], [], by simp, .inl rfl, .inl rfl⟩
  | cut x y hx ih =>
    rw [splitOn_append_cons_self_of_not_mem hx] at h
    rcases mem_cons.mp h with rfl | h
    · exact ⟨hx, [], c :: y, rfl, .inl rfl, .inr ⟨y, rfl⟩⟩
    · obtain ⟨hpiece, l, r, hy, hl, hr⟩ := ih h
      refine ⟨hpiece, x ++ c :: l, r, by simp [hy], .inr ?_, hr⟩
      rcases hl with rfl | ⟨l', rfl⟩
      · exact ⟨x, rfl⟩
      · exact ⟨x ++ c :: l', by simp⟩

theorem mem_of_mem_splitOn {c a : α} {xs piece : List α} (h : piece ∈ xs.splitOn c)
    (ha : a ∈ piece) : a ∈ xs := by
  obtain ⟨-, l, r, rfl, -⟩ := mem_splitOn h
  simp [ha]

theorem exists_mem_splitOn {c a : α} {xs : List α} (ha : a ∈ xs) (hne : a ≠ c) :
    ∃ piece ∈ xs.splitOn c, a ∈ piece := by
  induction xs using cut_induction c with
  | free xs hc =>
    rw [splitOn_eq_singleton hc]
    exact ⟨xs, mem_singleton_self xs, ha⟩
  | cut x y hx ih =>
    rw [splitOn_append_cons_self_of_not_mem hx]
    rw [mem_append, mem_cons] at ha
    rcases ha with ha | rfl | ha
    · exact ⟨x, mem_cons_self, ha⟩
    · exact absurd rfl hne
    · obtain ⟨piece, hpiece, ha⟩ := ih ha
      exact ⟨piece, mem_cons_of_mem _ hpiece, ha⟩

theorem splitOn_append_cons (c : α) (xs ys : List α) :
    (xs ++ c :: ys).splitOn c = xs.splitOn c ++ ys.splitOn c :=
  splitOnP_append_cons xs ys (beq_self_eq_true c)

/-- Pieces read without regard to what the text begins with. -/
theorem map_splitOn_append_left {β : Type*} {read : List α → β} {c : α} {l : List α} (hc : c ∉ l)
    (hread : ∀ y, read (l ++ y) = read y) (xs : List α) :
    ((l ++ xs).splitOn c).map read = (xs.splitOn c).map read := by
  have hfree : ∀ xs, c ∉ xs → ((l ++ xs).splitOn c).map read = (xs.splitOn c).map read := by
    intro xs hxs
    rw [splitOn_eq_singleton (by simp [hxs, hc]), splitOn_eq_singleton hxs]
    simp [hread]
  induction xs using cut_induction c with
  | free xs hxs => exact hfree xs hxs
  | cut x y hx _ =>
    rw [← append_assoc, splitOn_append_cons, splitOn_append_cons, map_append, map_append,
      hfree x hx]

/-- Pieces read without regard to what the text ends with. -/
theorem map_splitOn_append_right {β : Type*} {read : List α → β} {c : α} {r : List α} (hc : c ∉ r)
    (hread : ∀ y, read (y ++ r) = read y) (xs : List α) :
    ((xs ++ r).splitOn c).map read = (xs.splitOn c).map read := by
  induction xs using cut_induction c with
  | free xs hxs =>
    rw [splitOn_eq_singleton (by simp [hxs, hc]), splitOn_eq_singleton hxs]
    simp [hread]
  | cut x y _ ih =>
    rw [append_assoc, cons_append, splitOn_append_cons, splitOn_append_cons, map_append,
      map_append, ih]

end

section

/-- Position of the first occurrence of an octet. -/
def memchr (c : UInt8) (hay : Bytes) : Option ℕ := hay.findIdx? (· == c)

variable {c : UInt8} {x hay y : Bytes}

theorem le_foldl {push : ℕ → UInt8 → ℕ} (h : ∀ n b, n ≤ push n b) (acc : ℕ) (text : Bytes) :
    acc ≤ text.foldl push acc := by
  induction text generalizing acc with
  | nil => exact le_refl _
  | cons b text ih => exact (h acc b).trans (ih _)

theorem memchr_append (hx : c ∉ x) (y : Bytes) : memchr c (x ++ c :: y) = some x.length := by
  induction x with
  | nil => simp [memchr, findIdx?_cons]
  | cons b x ih =>
    have hb : (b == c) = false := by
      simp only [beq_eq_false_iff_ne]
      rintro rfl
      exact hx (by simp)
    have ih := ih fun h => hx (by simp [h])
    simp only [memchr] at ih ⊢
    simp [findIdx?_cons, hb, ih]

theorem memchr_eq_none : memchr c hay = none ↔ c ∉ hay := by
  simp only [memchr, findIdx?_eq_none_iff, beq_eq_false_iff_ne]
  exact ⟨fun h hc => h c hc rfl, fun h x hx hxc => h (hxc ▸ hx)⟩

theorem memchr_cases (c : UInt8) (hay : Bytes) :
    (memchr c hay = none ∧ c ∉ hay) ∨
      ∃ x y, hay = x ++ c :: y ∧ c ∉ x ∧ memchr c hay = some x.length := by
  by_cases h : c ∈ hay
  · right
    obtain ⟨x, y, rfl, hx⟩ := eq_append_cons_of_mem h
    exact ⟨x, y, rfl, hx, memchr_append hx y⟩
  · exact .inl ⟨memchr_eq_none.mpr h, h⟩

theorem memchr_eq_some {i : ℕ} (h : memchr c hay = some i) :
    ∃ x y, hay = x ++ c :: y ∧ c ∉ x ∧ i = x.length := by
  rcases memchr_cases c hay with ⟨hn, _⟩ | ⟨x, y, hxy, hx, hs⟩
  · simp [hn] at h
  · exact ⟨x, y, hxy, hx, Option.some.inj (h.symm.trans hs)⟩

theorem append_cons_unique {x' y' : Bytes} (hx : c ∉ x) (hx' : c ∉ x')
    (h : x ++ c :: y = x' ++ c :: y') : x = x' ∧ y = y' := by
  have hlen : x.length = x'.length := by
    have hat := memchr_append hx y
    rw [h, memchr_append hx' y'] at hat
    exact (Option.some.inj hat).symm
  obtain ⟨hpre, hpost⟩ := append_inj h hlen
  exact ⟨hpre, (cons.inj hpost).2⟩

theorem memchr_lt {i : ℕ} (h : memchr c hay = some i) : i < hay.length := by
  obtain ⟨x, y, rfl, _, rfl⟩ := memchr_eq_some h
  simp

/-- The text before and after the last occurrence of an octet. -/
def rsplitOnce (c : UInt8) (text : Bytes) : Option (Bytes × Bytes) :=
  (memchr c text.reverse).map fun i =>
    ((text.reverse.drop (i + 1)).reverse, (text.reverse.take i).reverse)

theorem rsplitOnce_append (hy : c ∉ y) (x : Bytes) : rsplitOnce c (x ++ c :: y) = some (x, y) := by
  have hrev : (x ++ c :: y).reverse = y.reverse ++ c :: x.reverse := by simp
  have hfound : memchr c (y.reverse ++ c :: x.reverse) = some y.reverse.length :=
    memchr_append (by simpa using hy) x.reverse
  have hdrop : (y.reverse ++ c :: x.reverse).drop (y.reverse.length + 1) = x.reverse := by
    rw [append_cons]
    exact drop_left' (by simp)
  rw [rsplitOnce, hrev, hfound, Option.map_some, hdrop]
  simp

theorem rsplitOnce_eq_some {text : Bytes} (h : rsplitOnce c text = some (x, y)) :
    text = x ++ c :: y := by
  obtain ⟨i, hi, hparts⟩ := Option.map_eq_some_iff.mp h
  obtain ⟨u, v, huv, -, rfl⟩ := memchr_eq_some hi
  rw [huv] at hparts
  obtain ⟨rfl, rfl⟩ := Prod.mk.inj hparts
  rw [← reverse_reverse text, huv]
  simp

end

end Portail.Lib
