import Portail.Lib.IpAddr

/-!
# Reading IPv6 addresses

The reader of the standard library, as far as it decides whether a text is an
address: up to eight groups of hex digits, one `::` for a run of zero groups, an
embedded IPv4 address in place of the last two. Each reader returns what is left of
the text.
-/

namespace Portail.Lib

open List

def readChar (c : UInt8) : Bytes → Option Bytes
  | b :: rest => if b = c then some rest else none
  | [] => none

/-- All but the first entry of a list come after the separator. -/
def readSeparator (sep : UInt8) (index : ℕ) (inner : Bytes → Option Bytes) (text : Bytes) :
    Option Bytes :=
  if index > 0 then (readChar sep text).bind inner else inner text

/-- One to three digits of an octet, without a leading zero. -/
def readOctet (text : Bytes) : Option Bytes :=
  let digits := text.takeWhile isAsciiDigit
  if digits.length = 0 ∨ digits.length > 3 ∨ decimalValue 0 digits > 255 ∨
      (digits.head? = some 0x30 ∧ digits.length > 1) then none
  else some (text.dropWhile isAsciiDigit)

/-- One to four hex digits of a group. -/
def readGroup (text : Bytes) : Option Bytes :=
  let digits := text.takeWhile isAsciiHexdigit
  if digits.length = 0 ∨ digits.length > 4 then none else some (text.dropWhile isAsciiHexdigit)

def readIpv4 (text : Bytes) : Option Bytes := do
  let text ← readOctet text
  let text ← readSeparator 0x2e 1 readOctet text
  let text ← readSeparator 0x2e 2 readOctet text
  readSeparator 0x2e 3 readOctet text

/-- At most `left` more groups after `i`: how many there are then, whether the last two are an
IPv4 address, and what follows them. -/
def readGroups (i : ℕ) : ℕ → Bytes → ℕ × Bool × Bytes
  | 0, text => (i, false, text)
  | left + 1, text =>
    match if left > 0 then readSeparator colon i readIpv4 text else none with
    | some rest => (i + 2, true, rest)
    | none =>
      match readSeparator colon i readGroup text with
      | some rest => readGroups (i + 1) left rest
      | none => (i, false, text)

def readIpv6 (text : Bytes) : Option Bytes :=
  let (headSize, headIpv4, text) := readGroups 0 8 text
  if headSize = 8 then some text
  else if headIpv4 then none
  else do
    let text ← readChar colon text
    let text ← readChar colon text
    return (readGroups 0 (8 - (headSize + 1)) text).2.2

/-- `parse::<Ipv6Addr>().is_ok()`. -/
def isIpv6 (text : Bytes) : Bool := readIpv6 text == some []

/-- `parse::<IpAddr>().is_ok()`. -/
def isIpAddr (text : Bytes) : Bool :=
  match readIpv4 text with
  | some rest => rest.isEmpty
  | none => isIpv6 text

/-- A reader that passes over address text only. -/
def ReadsIpText (reader : Bytes → Option Bytes) : Prop :=
  ∀ text rest, reader text = some rest → ∃ x, text = x ++ rest ∧ ∀ b ∈ x, isIpText b = true

theorem isIpText_digit : ∀ b : UInt8, isAsciiDigit b = true → isIpText b = true :=
  forall_octet (by decide +kernel)

theorem isIpText_hexdigit {b : UInt8} (h : isAsciiHexdigit b = true) : isIpText b = true := by
  simp [isIpText, h]

theorem readsIpText_run {p : UInt8 → Bool} (hp : ∀ b, p b = true → isIpText b = true)
    (text : Bytes) : ∃ x, text = x ++ text.dropWhile p ∧ ∀ b ∈ x, isIpText b = true :=
  ⟨text.takeWhile p, (takeWhile_append_dropWhile).symm, fun b hb =>
    hp b (all_eq_true.mp all_takeWhile b hb)⟩

theorem readsIpText_octet : ReadsIpText readOctet := by
  intro text rest h
  unfold readOctet at h
  dsimp only at h
  split_ifs at h
  cases h
  exact readsIpText_run isIpText_digit text

theorem readsIpText_group : ReadsIpText readGroup := by
  intro text rest h
  unfold readGroup at h
  dsimp only at h
  split_ifs at h
  cases h
  exact readsIpText_run (fun _ => isIpText_hexdigit) text

theorem readsIpText_char {c : UInt8} (hc : isIpText c = true) : ReadsIpText (readChar c) := by
  intro text rest h
  cases text with
  | nil => cases h
  | cons b text =>
    rw [readChar] at h
    split_ifs at h with hb
    cases h
    exact ⟨[b], rfl, by simp [hb, hc]⟩

theorem ReadsIpText.bind {f g : Bytes → Option Bytes} (hf : ReadsIpText f) (hg : ReadsIpText g) :
    ReadsIpText fun text => (f text).bind g := by
  intro text rest h
  obtain ⟨mid, hmid, hrest⟩ := Option.bind_eq_some_iff.mp h
  obtain ⟨x, rfl, hx⟩ := hf _ _ hmid
  obtain ⟨y, rfl, hy⟩ := hg _ _ hrest
  refine ⟨x ++ y, by simp, ?_⟩
  intro b hb
  rcases mem_append.mp hb with hb | hb
  · exact hx b hb
  · exact hy b hb

theorem ReadsIpText.separator {sep : UInt8} (hsep : isIpText sep = true) (index : ℕ)
    {inner : Bytes → Option Bytes} (h : ReadsIpText inner) :
    ReadsIpText (readSeparator sep index inner) := by
  intro text rest hread
  rw [readSeparator] at hread
  split_ifs at hread
  · exact (readsIpText_char hsep).bind h _ _ hread
  · exact h _ _ hread

theorem readsIpText_ipv4 : ReadsIpText readIpv4 := by
  have hdot : isIpText 0x2e = true := by decide
  exact readsIpText_octet.bind ((readsIpText_octet.separator hdot 1).bind
    ((readsIpText_octet.separator hdot 2).bind (readsIpText_octet.separator hdot 3)))

theorem readsIpText_groups (i left : ℕ) (text : Bytes) :
    ∃ x, text = x ++ (readGroups i left text).2.2 ∧ ∀ b ∈ x, isIpText b = true := by
  have hcolon : isIpText colon = true := by decide
  induction left generalizing i text with
  | zero => exact ⟨[], rfl, by simp⟩
  | succ left ih =>
    rw [readGroups]
    split
    · next rest hv4 =>
      split_ifs at hv4
      exact readsIpText_ipv4.separator hcolon i _ _ hv4
    · split
      · next rest hgroup =>
        obtain ⟨x, rfl, hx⟩ := readsIpText_group.separator hcolon i _ _ hgroup
        obtain ⟨y, hy, hytext⟩ := ih (i + 1) rest
        refine ⟨x ++ y, by rw [append_assoc, ← hy], ?_⟩
        intro b hb
        rcases mem_append.mp hb with hb | hb
        · exact hx b hb
        · exact hytext b hb
      · exact ⟨[], rfl, by simp⟩

/-- An IPv6 address is written in hex digits, `:` and `.`. -/
theorem isIpv6_text {text : Bytes} (h : isIpv6 text = true) :
    text ≠ [] ∧ ∀ b ∈ text, isIpText b = true := by
  have hcolon : isIpText colon = true := by decide
  have hread : readIpv6 text = some [] := by simpa [isIpv6] using h
  refine ⟨by rintro rfl; exact absurd h (by decide), ?_⟩
  unfold readIpv6 at hread
  obtain ⟨x, hx, hxtext⟩ := readsIpText_groups 0 8 text
  generalize readGroups 0 8 text = r at hread hx
  obtain ⟨headSize, headIpv4, rest⟩ := r
  dsimp only at hread hx
  have hrest : ∀ b ∈ rest, isIpText b = true := by
    split_ifs at hread
    · cases hread
      simp
    · simp only [Option.bind_eq_bind, Option.bind_eq_some_iff, pure, Option.some.injEq] at hread
      obtain ⟨t, ht, u, hu, htail⟩ := hread
      obtain ⟨y, rfl, hy⟩ := readsIpText_char hcolon _ _ ht
      obtain ⟨z, rfl, hz⟩ := readsIpText_char hcolon _ _ hu
      obtain ⟨w, hw, hwtext⟩ := readsIpText_groups 0 (8 - (headSize + 1)) u
      rw [htail, append_nil] at hw
      rw [hw]
      simp only [forall_mem_append]
      exact ⟨hy, hz, hwtext⟩
  rw [hx]
  simp only [forall_mem_append]
  exact ⟨hxtext, hrest⟩

end Portail.Lib
