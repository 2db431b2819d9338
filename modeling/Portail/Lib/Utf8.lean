import Mathlib.Data.List.DropRight
import Portail.Lib.Bytes

/-!
# Well-formed UTF-8

The recognizer of well-formed UTF-8 (RFC 3629, Unicode table 3-7) as a machine
over single octets. An ASCII octet is accepted between characters only, hence
a text may be cut or joined at one: `isUtf8_cut` is what the users of this file
need to move paths and queries between request lines.
-/

namespace Portail.Lib

open List

/-- Where a text stands between two octets: between characters, or the tail octets owed. -/
inductive Utf8State
  | start
  | tail1
  | tail2
  | tail3
  | afterE0
  | afterED
  | afterF0
  | afterF4
  deriving DecidableEq, Repr

/-- The state a leading octet opens. -/
def Utf8State.lead (b : UInt8) : Option Utf8State :=
  if b < 0x80 then some .start
  else if 0xc2 ≤ b ∧ b ≤ 0xdf then some .tail1
  else if b = 0xe0 then some .afterE0
  else if b = 0xed then some .afterED
  else if 0xe1 ≤ b ∧ b ≤ 0xef then some .tail2
  else if b = 0xf0 then some .afterF0
  else if 0xf1 ≤ b ∧ b ≤ 0xf3 then some .tail3
  else if b = 0xf4 then some .afterF4
  else none

def Utf8State.next : Utf8State → UInt8 → Option Utf8State
  | .start, b => lead b
  | .tail1, b => if 0x80 ≤ b ∧ b ≤ 0xbf then some .start else none
  | .tail2, b => if 0x80 ≤ b ∧ b ≤ 0xbf then some .tail1 else none
  | .tail3, b => if 0x80 ≤ b ∧ b ≤ 0xbf then some .tail2 else none
  | .afterE0, b => if 0xa0 ≤ b ∧ b ≤ 0xbf then some .tail1 else none
  | .afterED, b => if 0x80 ≤ b ∧ b ≤ 0x9f then some .tail1 else none
  | .afterF0, b => if 0x90 ≤ b ∧ b ≤ 0xbf then some .tail2 else none
  | .afterF4, b => if 0x80 ≤ b ∧ b ≤ 0x8f then some .tail2 else none

def Utf8State.run (q : Utf8State) (text : Bytes) : Option Utf8State :=
  text.foldlM Utf8State.next q

def isUtf8 (text : Bytes) : Bool := Utf8State.start.run text == some .start

variable {c : UInt8}

namespace Utf8State

@[simp] theorem run_nil (q : Utf8State) : q.run [] = some q := rfl

theorem run_cons (q : Utf8State) (b : UInt8) (text : Bytes) :
    q.run (b :: text) = (q.next b).bind fun q' => q'.run text := rfl

theorem run_append (q : Utf8State) (x y : Bytes) :
    q.run (x ++ y) = (q.run x).bind fun q' => q'.run y := by
  simp only [run, foldlM_append]
  rfl

/-- Only between characters may an ASCII octet stand, and it leaves the text there. -/
theorem next_ascii {q q' : Utf8State} (hc : c < 0x80) (h : q.next c = some q') :
    q = .start ∧ q' = .start := by
  have hlow : ¬ (0x80 : UInt8) ≤ c := by simpa using hc
  have h90 : ¬ (0x90 : UInt8) ≤ c := fun h => hlow (UInt8.le_trans (by decide) h)
  have ha0 : ¬ (0xa0 : UInt8) ≤ c := fun h => hlow (UInt8.le_trans (by decide) h)
  cases q <;> simp only [next, lead, hc, hlow, h90, ha0, false_and, if_true, if_false,
    reduceCtorEq, Option.some.injEq] at h
  exact ⟨rfl, h.symm⟩

end Utf8State

theorem isUtf8_iff {text : Bytes} :
    isUtf8 text = true ↔ Utf8State.start.run text = some .start := by
  simp [isUtf8]

@[simp] theorem isUtf8_nil : isUtf8 [] = true := rfl

theorem isUtf8_append_iff {x : Bytes} (hx : isUtf8 x = true) (y : Bytes) :
    isUtf8 (x ++ y) = true ↔ isUtf8 y = true := by
  rw [isUtf8_iff] at hx
  rw [isUtf8_iff, isUtf8_iff, Utf8State.run_append, hx]
  rfl

theorem isUtf8_append {x y : Bytes} (hx : isUtf8 x = true) (hy : isUtf8 y = true) :
    isUtf8 (x ++ y) = true :=
  (isUtf8_append_iff hx y).mpr hy

/-- A text may be cut at any ASCII octet, and joined there. -/
theorem isUtf8_cut {x y : Bytes} (hc : c < 0x80) :
    isUtf8 (x ++ c :: y) = true ↔ isUtf8 x = true ∧ isUtf8 y = true := by
  constructor
  · intro h
    rw [isUtf8_iff, Utf8State.run_append] at h
    obtain ⟨q, hq, h⟩ := Option.bind_eq_some_iff.mp h
    rw [Utf8State.run_cons] at h
    obtain ⟨q', hq', h⟩ := Option.bind_eq_some_iff.mp h
    obtain ⟨rfl, rfl⟩ := Utf8State.next_ascii hc hq'
    exact ⟨isUtf8_iff.mpr hq, isUtf8_iff.mpr h⟩
  · rintro ⟨hx, hy⟩
    rw [isUtf8_append_iff hx, isUtf8_iff, Utf8State.run_cons]
    simpa [Utf8State.next, Utf8State.lead, hc] using isUtf8_iff.mp hy

theorem isUtf8_cons (hc : c < 0x80) (y : Bytes) : isUtf8 (c :: y) = true ↔ isUtf8 y = true := by
  simpa using isUtf8_cut (x := []) (y := y) hc

/-- The pieces of a text cut at an ASCII octet are texts. -/
theorem isUtf8_piece {xs piece : Bytes} (hc : c < 0x80) (hxs : isUtf8 xs = true)
    (h : piece ∈ xs.splitOn c) : isUtf8 piece = true := by
  obtain ⟨-, l, r, rfl, hl, hr⟩ := mem_splitOn h
  have hright : isUtf8 (piece ++ r) = true := by
    rcases hl with rfl | ⟨l', rfl⟩
    · exact hxs
    · rw [append_assoc] at hxs
      exact ((isUtf8_cut hc).mp hxs).2
  rcases hr with rfl | ⟨r', rfl⟩
  · simpa using hright
  · exact ((isUtf8_cut hc).mp hright).1

theorem isUtf8_of_ascii {x : Bytes} (h : ∀ b ∈ x, b < 0x80) : isUtf8 x = true := by
  induction x with
  | nil => rfl
  | cons b x ih =>
    rw [isUtf8_cons (h b (by simp))]
    exact ih fun c hc => h c (by simp [hc])

section

variable {v : ℕ}

theorem run_between {q : Utf8State} (q' : Utf8State) (low high : ℕ)
    (h : ∀ n ≤ high, low ≤ n → q.next (UInt8.ofNat n) = some q') {n : ℕ} {rest : Bytes}
    (hlow : low ≤ n) (hhigh : n ≤ high) : q.run (UInt8.ofNat n :: rest) = q'.run rest := by
  rw [Utf8State.run_cons, h n hhigh hlow, Option.bind_some]

theorem run_tail1 (v : ℕ) : Utf8State.tail1.run [UInt8.ofNat (v % 64 + 128)] = some .start :=
  run_between .start 128 191 (by decide +kernel) (by omega) (by omega)

theorem run_tail2 (v w : ℕ) :
    Utf8State.tail2.run [UInt8.ofNat (v % 64 + 128), UInt8.ofNat (w % 64 + 128)] = some .start := by
  rw [run_between .tail1 128 191 (by decide +kernel) (by omega) (by omega)]
  exact run_tail1 w

theorem run_three (hlow : 0x800 ≤ v) (hhigh : v ≤ 0xffff) (hv : v < 0xd800 ∨ 0xdfff < v) :
    Utf8State.start.run [UInt8.ofNat (v / 4096 % 16 + 224), UInt8.ofNat (v / 64 % 64 + 128),
      UInt8.ofNat (v % 64 + 128)] = some .start := by
  rcases (by omega : v / 4096 % 16 = 0 ∨ v / 4096 % 16 = 13 ∨
    1 ≤ v / 4096 % 16 ∧ v / 4096 % 16 ≤ 12 ∨ 14 ≤ v / 4096 % 16) with h | h | h | h
  · rw [run_between .afterE0 224 224 (by decide +kernel) (by omega) (by omega),
      run_between .tail1 160 191 (by decide +kernel) (by omega) (by omega)]
    exact run_tail1 v
  · rw [run_between .afterED 237 237 (by decide +kernel) (by omega) (by omega),
      run_between .tail1 128 159 (by decide +kernel) (by omega) (by omega)]
    exact run_tail1 v
  · rw [run_between .tail2 225 236 (by decide +kernel) (by omega) (by omega)]
    exact run_tail2 _ v
  · rw [run_between .tail2 238 239 (by decide +kernel) (by omega) (by omega)]
    exact run_tail2 _ v

theorem run_four (hlow : 0x10000 ≤ v) (hhigh : v < 0x110000) :
    Utf8State.start.run [UInt8.ofNat (v / 262144 % 8 + 240), UInt8.ofNat (v / 4096 % 64 + 128),
      UInt8.ofNat (v / 64 % 64 + 128), UInt8.ofNat (v % 64 + 128)] = some .start := by
  rcases (by omega : v / 262144 % 8 = 0 ∨ v / 262144 % 8 = 4 ∨
    1 ≤ v / 262144 % 8 ∧ v / 262144 % 8 ≤ 3) with h | h | h
  · rw [run_between .afterF0 240 240 (by decide +kernel) (by omega) (by omega),
      run_between .tail2 144 191 (by decide +kernel) (by omega) (by omega)]
    exact run_tail2 _ v
  · rw [run_between .afterF4 244 244 (by decide +kernel) (by omega) (by omega),
      run_between .tail2 128 143 (by decide +kernel) (by omega) (by omega)]
    exact run_tail2 _ v
  · rw [run_between .tail3 241 243 (by decide +kernel) (by omega) (by omega),
      run_between .tail2 128 191 (by decide +kernel) (by omega) (by omega)]
    exact run_tail2 _ v

/-- The octets of a character, by their number. -/
theorem isUtf8_encodeChar (c : Char) : isUtf8 (String.utf8EncodeChar c) = true := by
  have hvalid : c.val.toNat < 0xd800 ∨ 0xdfff < c.val.toNat ∧ c.val.toNat < 0x110000 := c.valid
  rw [isUtf8_iff]
  unfold String.utf8EncodeChar
  generalize c.val.toNat = v at hvalid
  simp only
  split_ifs with h1 h2 h3
  · exact run_between .start 0 127 (by decide +kernel) (by omega) h1
  · rw [run_between .tail1 194 223 (by decide +kernel) (by omega) (by omega)]
    exact run_tail1 v
  · exact run_three (by omega) h3 (by omega)
  · exact run_four (by omega) (by omega)

theorem isUtf8_bytes (s : String) : isUtf8 (bytes s) = true := by
  obtain ⟨cs, hcs⟩ := s.isValidUTF8
  have hbytes : bytes s = cs.flatMap String.utf8EncodeChar := by
    simp [bytes, String.toUTF8, hcs, List.utf8Encode]
  rw [hbytes]
  clear hcs hbytes
  induction cs with
  | nil => rfl
  | cons c cs ih =>
    rw [flatMap_cons]
    exact isUtf8_append (isUtf8_encodeChar c) ih

end
/-- A text, well-formed by construction. -/
@[ext] structure Str where
  octets : Bytes
  utf8 : isUtf8 octets = true
  deriving DecidableEq

def Str.lit (s : String) : Str := ⟨bytes s, isUtf8_bytes s⟩

theorem next_toAsciiLowercase (q : Utf8State) :
    ∀ b : UInt8, q.next (toAsciiLowercase b) = q.next b := by
  cases q <;> exact forall_octet (by decide +kernel)

theorem run_toAsciiLowercase (q : Utf8State) (text : Bytes) :
    q.run (text.map toAsciiLowercase) = q.run text := by
  induction text generalizing q with
  | nil => rfl
  | cons b text ih =>
    rw [map_cons, Utf8State.run_cons, Utf8State.run_cons, next_toAsciiLowercase]
    exact congrArg _ (funext ih)

theorem isUtf8_rdropWhile {p : UInt8 → Bool} (hp : ∀ b, p b = true → b < 0x80) {text : Bytes}
    (h : isUtf8 text = true) : isUtf8 (text.rdropWhile p) = true := by
  induction text using List.reverseRecOn with
  | nil => rfl
  | append_singleton text b ih =>
    rw [rdropWhile_concat]
    split_ifs with hb
    · exact ih ((isUtf8_cut (hp b hb)).mp h).1
    · exact h

namespace Str

instance : Append Str := ⟨fun s t => ⟨s.octets ++ t.octets, isUtf8_append s.utf8 t.utf8⟩⟩

@[simp] theorem octets_append (s t : Str) : (s ++ t).octets = s.octets ++ t.octets := rfl

def toAsciiLowercase (s : Str) : Str :=
  ⟨s.octets.map Lib.toAsciiLowercase, by
    rw [isUtf8, run_toAsciiLowercase]
    exact s.utf8⟩

/-- The text before and after the first occurrence of an ASCII character. -/
def splitOnce (c : UInt8) (hc : c < 0x80) (s : Str) : Option (Str × Str) :=
  match h : memchr c s.octets with
  | some i =>
    have hsplit : s.octets = s.octets.take i ++ c :: s.octets.drop (i + 1) := by
      obtain ⟨x, y, hxy, -, rfl⟩ := memchr_eq_some h
      rw [hxy]
      simp
    have hparts := (isUtf8_cut hc).mp (hsplit ▸ s.utf8)
    some (⟨s.octets.take i, hparts.1⟩, ⟨s.octets.drop (i + 1), hparts.2⟩)
  | none => none

/-- The text before and after the last occurrence of an ASCII character. -/
def rsplitOnce (c : UInt8) (hc : c < 0x80) (s : Str) : Option (Str × Str) :=
  match h : Lib.rsplitOnce c s.octets with
  | some (x, y) =>
    have hparts := (isUtf8_cut hc).mp (rsplitOnce_eq_some h ▸ s.utf8)
    some (⟨x, hparts.1⟩, ⟨y, hparts.2⟩)
  | none => none

theorem rsplitOnce_eq (hc : c < 0x80) {s x y : Str} (hs : s.octets = x.octets ++ c :: y.octets)
    (hy : c ∉ y.octets) : s.rsplitOnce c hc = some (x, y) := by
  have hsplit : Lib.rsplitOnce c s.octets = some (x.octets, y.octets) := by
    rw [hs]
    exact rsplitOnce_append hy x.octets
  unfold rsplitOnce
  split
  · next u v h =>
    obtain ⟨rfl, rfl⟩ := Prod.mk.inj (Option.some.inj (h.symm.trans hsplit))
    rfl
  · next h => cases h.symm.trans hsplit

/-- The text before a suffix that starts with an ASCII character. -/
def stripSuffix (c : UInt8) (hc : c < 0x80) (rest : Bytes) (s : Str) : Option Str :=
  match h : s.octets.dropSuffix? (c :: rest) with
  | some x =>
    have hsplit : s.octets = x ++ c :: rest := by
      obtain ⟨suffix, hs, hsuffix⟩ := dropSuffix?_eq_some_iff.mp h
      rw [hs, beq_iff_eq.mp hsuffix]
    some ⟨x, ((isUtf8_cut hc).mp (hsplit ▸ s.utf8)).1⟩
  | none => none

theorem stripSuffix_eq (hc : c < 0x80) {rest : Bytes} {s x : Str}
    (hs : s.octets = x.octets ++ c :: rest) : s.stripSuffix c hc rest = some x := by
  have hdrop : s.octets.dropSuffix? (c :: rest) = some x.octets :=
    dropSuffix?_eq_some_iff.mpr ⟨_, hs, beq_self_eq_true _⟩
  unfold stripSuffix
  split
  · next u h =>
    obtain rfl := Option.some.inj (h.symm.trans hdrop)
    rfl
  · next h => cases h.symm.trans hdrop

/-- The text without the ASCII characters at its end. -/
def trimEnd (c : UInt8) (hc : c < 0x80) (s : Str) : Str :=
  ⟨s.octets.rdropWhile (· == c), isUtf8_rdropWhile (fun b hb => by rwa [beq_iff_eq.mp hb]) s.utf8⟩

theorem splitOnce_cases (hc : c < 0x80) (s : Str) :
    (s.splitOnce c hc = none ∧ c ∉ s.octets) ∨
      ∃ x y, s.splitOnce c hc = some (x, y) ∧ s.octets = x.octets ++ c :: y.octets ∧
        c ∉ x.octets := by
  unfold splitOnce
  split
  · next i h =>
    obtain ⟨x, y, hxy, hx, rfl⟩ := memchr_eq_some h
    refine .inr ⟨_, _, rfl, ?_, ?_⟩
    · simp [hxy]
    · simpa [hxy] using hx
  · next h => exact .inl ⟨rfl, memchr_eq_none.mp h⟩

end Str

/-- The characters with the White_Space property, as UTF-8. -/
def whitespaceChars : List Bytes :=
  [[0x09], [0x0a], [0x0b], [0x0c], [0x0d], [0x20], [0xc2, 0x85], [0xc2, 0xa0], [0xe1, 0x9a, 0x80],
    [0xe2, 0x80, 0x80], [0xe2, 0x80, 0x81], [0xe2, 0x80, 0x82], [0xe2, 0x80, 0x83],
    [0xe2, 0x80, 0x84], [0xe2, 0x80, 0x85], [0xe2, 0x80, 0x86], [0xe2, 0x80, 0x87],
    [0xe2, 0x80, 0x88], [0xe2, 0x80, 0x89], [0xe2, 0x80, 0x8a], [0xe2, 0x80, 0xa8],
    [0xe2, 0x80, 0xa9], [0xe2, 0x80, 0xaf], [0xe2, 0x81, 0x9f], [0xe3, 0x80, 0x80]]

/-- At most `turns` leading occurrences of the given texts dropped. -/
def dropLeading (chars : List Bytes) : ℕ → Bytes → Bytes
  | 0, text => text
  | turns + 1, text =>
    match chars.find? (·.isPrefixOf text) with
    | some c => dropLeading chars turns (text.drop c.length)
    | none => text

/-- `str::trim`: White_Space dropped at both ends. -/
def trimText (text : Bytes) : Bytes :=
  let text := dropLeading whitespaceChars text.length text
  (dropLeading (whitespaceChars.map List.reverse) text.length text.reverse).reverse

end Portail.Lib
