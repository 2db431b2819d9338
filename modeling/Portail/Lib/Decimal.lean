import Portail.Lib.Bytes

/-!
# Decimal numerals

The value of a run of ASCII digits, the reader that checks every step against a
machine word, and the shortest numeral of a number. Reading the numeral of `n`
gives `n` back, and the numeral of a value is its digits past any leading zeros.
-/

namespace Portail.Lib

open List

def digitValue (b : UInt8) : ℕ := (b - 0x30).toNat

def decimalValue (acc : ℕ) (digits : Bytes) : ℕ :=
  digits.foldl (fun n b => n * 10 + digitValue b) acc

/-- `checked_*` on a machine word of the given width. -/
def checked (width n : ℕ) : Option ℕ := if n < 2 ^ width then some n else none

/-- `n.checked_mul(10)?.checked_add(digit)?`, `none` as well for an octet that is no digit. -/
def pushDigit (width n : ℕ) (b : UInt8) : Option ℕ :=
  if isAsciiDigit b then (checked width (n * 10)).bind fun m => checked width (m + digitValue b)
  else none

/-- `1*DIGIT` within a machine word. -/
def readDecimal (width : ℕ) (digits : Bytes) : Option ℕ :=
  if digits.isEmpty then none else digits.foldlM (pushDigit width) 0

theorem digitValue_lt : ∀ b : UInt8, isAsciiDigit b = true → digitValue b < 10 :=
  forall_octet (by decide +kernel)

theorem le_decimalValue (acc : ℕ) (digits : Bytes) : acc ≤ decimalValue acc digits :=
  le_foldl (fun _ _ => by omega) acc digits

variable {b : UInt8} {n width : ℕ}

theorem pushDigit_eq_some {m : ℕ} :
    pushDigit width n b = some m ↔
      isAsciiDigit b = true ∧ m = n * 10 + digitValue b ∧ m < 2 ^ width := by
  rw [pushDigit]
  by_cases hb : isAsciiDigit b = true
  · rw [if_pos hb]
    simp only [checked, hb, true_and]
    constructor
    · intro h
      split at h
      · simp only [Option.bind_some] at h
        split at h
        · cases h
          exact ⟨rfl, ‹_›⟩
        · cases h
      · cases h
    · rintro ⟨rfl, hlt⟩
      rw [if_pos (by omega), Option.bind_some, if_pos hlt]
  · simp [hb]

theorem foldlM_pushDigit {digits : Bytes} {acc : ℕ} (hacc : acc < 2 ^ width) :
    digits.foldlM (pushDigit width) acc = some n ↔
      (∀ b ∈ digits, isAsciiDigit b = true) ∧ n = decimalValue acc digits ∧ n < 2 ^ width := by
  induction digits generalizing acc with
  | nil =>
    simp only [foldlM_nil, decimalValue, foldl_nil]
    constructor
    · rintro h
      cases h
      exact ⟨by simp, rfl, hacc⟩
    · rintro ⟨-, rfl, -⟩
      rfl
  | cons b digits ih =>
    simp only [foldlM_cons, Option.bind_eq_bind, Option.bind_eq_some_iff]
    constructor
    · rintro ⟨m, hm, hrest⟩
      obtain ⟨hb, rfl, hlt⟩ := pushDigit_eq_some.mp hm
      obtain ⟨hdigits, hn, hnlt⟩ := (ih hlt).mp hrest
      exact ⟨by simpa [hb] using hdigits, hn, hnlt⟩
    · rintro ⟨hdigits, rfl, hnlt⟩
      have hge := le_decimalValue (acc * 10 + digitValue b) digits
      have hlt : acc * 10 + digitValue b < 2 ^ width := by
        simp only [decimalValue, foldl_cons] at hge hnlt
        omega
      refine ⟨_, pushDigit_eq_some.mpr ⟨hdigits b (by simp), rfl, hlt⟩, ?_⟩
      exact (ih hlt).mpr ⟨fun c hc => hdigits c (by simp [hc]), rfl, hnlt⟩

theorem readDecimal_eq_some {digits : Bytes} :
    readDecimal width digits = some n ↔
      digits ≠ [] ∧ (∀ b ∈ digits, isAsciiDigit b = true) ∧ n = decimalValue 0 digits ∧
        n < 2 ^ width := by
  rw [readDecimal]
  cases digits with
  | nil => simp
  | cons b digits =>
    rw [if_neg (by simp), foldlM_pushDigit (Nat.two_pow_pos width)]
    simp

section

variable {base : ℕ} {char : ℕ → UInt8}

/-- The shortest numeral of a number, most significant digit first. -/
def numeral (base : ℕ) (char : ℕ → UInt8) (n : ℕ) : Bytes :=
  if n = 0 then [char 0] else (Nat.digits base n).reverse.map char

def decimalChar (d : ℕ) : UInt8 := 0x30 + UInt8.ofNat d

def hexChar (d : ℕ) : UInt8 := if d < 10 then 0x30 + UInt8.ofNat d else 0x57 + UInt8.ofNat d

def toDecimal (n : ℕ) : Bytes := numeral 10 decimalChar n

def toHex (n : ℕ) : Bytes := numeral 16 hexChar n

theorem mem_numeral (hbase : 1 < base) (h : b ∈ numeral base char n) : ∃ d < base, b = char d := by
  rw [numeral] at h
  split_ifs at h
  · exact ⟨0, by omega, by simpa using h⟩
  · simp only [mem_map, mem_reverse] at h
    obtain ⟨d, hd, rfl⟩ := h
    exact ⟨d, Nat.digits_lt_base hbase hd, rfl⟩

theorem numeral_length_le (hbase : 1 < base) {k : ℕ} (hk : 0 < k) (hn : n < base ^ k) :
    (numeral base char n).length ≤ k := by
  rw [numeral]
  split_ifs
  · exact hk
  · simpa using (Nat.digits_length_le_iff hbase n).mpr hn

theorem numeral_ne (n : ℕ) : numeral base char n ≠ [] := by
  rw [numeral]
  split_ifs with h
  · simp
  · simpa using Nat.digits_ne_nil_iff_ne_zero.mpr h

section

variable {push : ℕ → UInt8 → ℕ} (hpush : ∀ acc, ∀ d < base, push acc (char d) = d + base * acc)

include hpush

theorem foldl_digits {ds : List ℕ} (h : ∀ d ∈ ds, d < base) :
    (ds.reverse.map char).foldl push 0 = Nat.ofDigits base ds := by
  induction ds with
  | nil => rfl
  | cons d ds ih =>
    rw [reverse_cons, map_append, foldl_append, ih fun e he => h e (mem_cons_of_mem d he),
      Nat.ofDigits_cons]
    exact hpush _ d (h d mem_cons_self)

/-- A numeral is read back, digit by digit. -/
theorem foldl_numeral (hbase : 1 < base) (n : ℕ) : (numeral base char n).foldl push 0 = n := by
  rw [numeral]
  split_ifs with h
  · rw [h]
    exact hpush 0 0 (by omega)
  · rw [foldl_digits hpush fun d hd => Nat.digits_lt_base hbase hd, Nat.ofDigits_digits]

end

theorem decimalChar_digit : ∀ d < 10, isAsciiDigit (decimalChar d) = true ∧
    digitValue (decimalChar d) = d := by
  decide

theorem toDecimal_digit (h : b ∈ toDecimal n) : isAsciiDigit b = true := by
  obtain ⟨d, hd, rfl⟩ := mem_numeral (by omega) h
  exact (decimalChar_digit d hd).1

theorem pushed_decimalChar (acc d : ℕ) (hd : d < 10) :
    acc * 10 + digitValue (decimalChar d) = d + 10 * acc := by
  rw [(decimalChar_digit d hd).2]
  omega

theorem decimalValue_toDecimal (n : ℕ) : decimalValue 0 (toDecimal n) = n :=
  foldl_numeral pushed_decimalChar (by decide) n

theorem readDecimal_toDecimal (h : n < 2 ^ width) : readDecimal width (toDecimal n) = some n :=
  readDecimal_eq_some.mpr ⟨numeral_ne n, fun _ hb => toDecimal_digit hb,
    (decimalValue_toDecimal n).symm, h⟩

theorem decimalChar_digitValue : ∀ b : UInt8, isAsciiDigit b = true →
    decimalChar (digitValue b) = b := forall_octet (by decide +kernel)

theorem toDecimal_digitValue : ∀ b : UInt8, isAsciiDigit b = true →
    toDecimal (digitValue b) = [b] := by
  intro b hb
  have hlt := digitValue_lt b hb
  have hchar := decimalChar_digitValue b hb
  rw [toDecimal, numeral]
  split_ifs with hzero
  · rw [← hzero, hchar]
  · rw [Nat.digits_of_lt 10 _ hzero hlt]
    simp [hchar]

/-- A run of digits that does not open with a zero is the numeral of its value. -/
theorem toDecimal_of_head {ds : Bytes} (hds : ∀ c ∈ b :: ds, isAsciiDigit c = true)
    (hb : b ≠ 0x30) : toDecimal (decimalValue 0 (b :: ds)) = b :: ds := by
  have hzero : ∀ b : UInt8, isAsciiDigit b = true → digitValue b = 0 → b = 0x30 :=
    forall_octet (by decide +kernel)
  let digits : List ℕ := ((b :: ds).map digitValue).reverse
  have hlt : ∀ d ∈ digits, d < 10 := by
    intro d hd
    obtain ⟨c, hc, rfl⟩ := mem_map.mp (mem_reverse.mp hd)
    exact digitValue_lt c (hds c hc)
  have hchars : digits.reverse.map decimalChar = b :: ds := by
    rw [reverse_reverse, map_map]
    conv_rhs => rw [← map_id (b :: ds)]
    exact map_congr_left fun c hc => decimalChar_digitValue c (hds c hc)
  have hlast : ∀ h : digits ≠ [], digits.getLast h ≠ 0 := by
    intro h hlast
    simp only [digits, getLast_reverse, map_cons, head_cons] at hlast
    exact hb (hzero b (hds b (by simp)) hlast)
  have hdigits := Nat.digits_ofDigits 10 (by omega) digits hlt hlast
  have hvalue : decimalValue 0 (b :: ds) = Nat.ofDigits 10 digits := by
    rw [← hchars]
    exact foldl_digits pushed_decimalChar hlt
  have hne : Nat.ofDigits 10 digits ≠ 0 := by
    rw [← Nat.digits_ne_nil_iff_ne_zero (b := 10), hdigits]
    simp [digits]
  rw [toDecimal, numeral, hvalue, if_neg hne, hdigits, hchars]

/-- The numeral of a value is its digits past their leading zeros, all but the last of them. -/
theorem toDecimal_decimalValue {ds : Bytes} (hne : ds ≠ [])
    (hds : ∀ b ∈ ds, isAsciiDigit b = true) :
    toDecimal (decimalValue 0 ds) =
      ds.drop (min (ds.takeWhile (· == 0x30)).length (ds.length - 1)) := by
  induction ds with
  | nil => exact absurd rfl hne
  | cons b ds ih =>
    cases ds with
    | nil =>
      have hvalue : decimalValue 0 [b] = digitValue b := by simp [decimalValue]
      rw [hvalue, toDecimal_digitValue b (hds b (by simp))]
      simp
    | cons c ds =>
      by_cases hb : b = 0x30
      · subst hb
        have hvalue : decimalValue 0 (0x30 :: c :: ds) = decimalValue 0 (c :: ds) := rfl
        have hzeros : min ((0x30 :: c :: ds).takeWhile (· == 0x30)).length
            ((0x30 :: c :: ds).length - 1) =
            min ((c :: ds).takeWhile (· == 0x30)).length ((c :: ds).length - 1) + 1 := by
          rw [takeWhile_cons_of_pos (a := 0x30) (by rfl)]
          simp only [length_cons]
          omega
        rw [hvalue, hzeros, drop_succ_cons]
        exact ih (by simp) fun d hd => hds d (mem_cons_of_mem _ hd)
      · rw [toDecimal_of_head hds hb, takeWhile_cons_of_neg (by simpa using hb)]
        simp

end

end Portail.Lib
