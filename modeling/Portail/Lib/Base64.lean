import Portail.Lib.Bytes

/-!
# Base64

The standard alphabet with padding: three octets as four characters. A text is decoded
only in the form an encoder gives it, with its padding and without stray bits.
-/

namespace Portail.Lib

open List Option

def base64Char (n : ℕ) : UInt8 :=
  if n < 26 then 0x41 + UInt8.ofNat n
  else if n < 52 then 0x61 + UInt8.ofNat (n - 26)
  else if n < 62 then 0x30 + UInt8.ofNat (n - 52)
  else if n = 62 then 0x2b else 0x2f

def base64Value (c : UInt8) : Option ℕ :=
  if 0x41 ≤ c ∧ c ≤ 0x5a then some (c.toNat - 0x41)
  else if 0x61 ≤ c ∧ c ≤ 0x7a then some (c.toNat - 0x61 + 26)
  else if 0x30 ≤ c ∧ c ≤ 0x39 then some (c.toNat - 0x30 + 52)
  else if c = 0x2b then some 62
  else if c = 0x2f then some 63
  else none

def base64Pad : UInt8 := 0x3d

def base64Encode : Bytes → Bytes
  | [] => []
  | [a] => [base64Char (a.toNat / 4), base64Char (a.toNat % 4 * 16), base64Pad, base64Pad]
  | [a, b] =>
    [base64Char (a.toNat / 4), base64Char (a.toNat % 4 * 16 + b.toNat / 16),
      base64Char (b.toNat % 16 * 4), base64Pad]
  | a :: b :: c :: rest =>
    base64Char (a.toNat / 4) :: base64Char (a.toNat % 4 * 16 + b.toNat / 16) ::
      base64Char (b.toNat % 16 * 4 + c.toNat / 64) :: base64Char (c.toNat % 64) ::
      base64Encode rest

def base64Decode : Bytes → Option Bytes
  | [] => some []
  | a :: b :: c :: d :: rest => do
    let x ← base64Value a
    let y ← base64Value b
    if c = base64Pad then
      if d = base64Pad ∧ rest = [] ∧ y % 16 = 0 then some [UInt8.ofNat (x * 4 + y / 16)] else none
    else
      let z ← base64Value c
      if d = base64Pad then
        if rest = [] ∧ z % 4 = 0 then
          some [UInt8.ofNat (x * 4 + y / 16), UInt8.ofNat (y % 16 * 16 + z / 4)]
        else none
      else
        let w ← base64Value d
        let octets ← base64Decode rest
        some (UInt8.ofNat (x * 4 + y / 16) :: UInt8.ofNat (y % 16 * 16 + z / 4) ::
          UInt8.ofNat (z % 4 * 64 + w) :: octets)
  | _ => none

/-- A character of an encoded text. -/
def isBase64 (c : UInt8) : Bool := (base64Value c).isSome || c == base64Pad

theorem isBase64_char {n : ℕ} (h : n < 64) : isBase64 (base64Char n) = true := by
  have hall : ∀ n < 64, isBase64 (base64Char n) = true := by decide +kernel
  exact hall n h

theorem isBase64_encode (octets : Bytes) : ∀ c ∈ base64Encode octets, isBase64 c = true := by
  have hpad : isBase64 base64Pad = true := by decide
  fun_induction base64Encode octets with
  | case1 => simp
  | case2 a =>
    have := a.toNat_lt
    simp only [mem_cons, not_mem_nil, or_false]
    rintro c (rfl | rfl | rfl | rfl)
    any_goals exact isBase64_char (by omega)
    all_goals exact hpad
  | case3 a b =>
    have := a.toNat_lt
    have := b.toNat_lt
    simp only [mem_cons, not_mem_nil, or_false]
    rintro c (rfl | rfl | rfl | rfl)
    any_goals exact isBase64_char (by omega)
    exact hpad
  | case4 a b c rest ih =>
    have := a.toNat_lt
    have := b.toNat_lt
    have := c.toNat_lt
    simp only [mem_cons]
    rintro x (rfl | rfl | rfl | rfl | hx)
    any_goals exact isBase64_char (by omega)
    exact ih x hx

theorem isBase64_of_value {c : UInt8} {n : ℕ} (h : base64Value c = some n) : isBase64 c = true := by
  simp [isBase64, h]

theorem isBase64_of_decode : ∀ {text octets : Bytes}, base64Decode text = some octets →
    ∀ c ∈ text, isBase64 c = true
  | [], _, _ => by simp
  | [_], _, h => by simp [base64Decode] at h
  | [_, _], _, h => by simp [base64Decode] at h
  | [_, _, _], _, h => by simp [base64Decode] at h
  | a :: b :: c :: d :: rest, octets, h => by
    have hpad : isBase64 base64Pad = true := by decide
    simp only [base64Decode, bind_eq_bind, bind_eq_some_iff] at h
    obtain ⟨x, hx, y, hy, h⟩ := h
    -- the third and fourth characters are padding or carry bits
    obtain ⟨hc, hd, hrest⟩ : isBase64 c = true ∧ isBase64 d = true ∧
        ∀ e ∈ rest, isBase64 e = true := by
      by_cases hcpad : c = base64Pad
      · rw [if_pos hcpad] at h
        split_ifs at h with hend
        exact ⟨hcpad ▸ hpad, hend.1 ▸ hpad, by simp [hend.2.1]⟩
      · rw [if_neg hcpad] at h
        obtain ⟨z, hz, h⟩ := bind_eq_some_iff.mp h
        refine ⟨isBase64_of_value hz, ?_⟩
        by_cases hdpad : d = base64Pad
        · rw [if_pos hdpad] at h
          split_ifs at h with hend
          exact ⟨hdpad ▸ hpad, by simp [hend.1]⟩
        · rw [if_neg hdpad] at h
          simp only [bind_eq_some_iff] at h
          obtain ⟨w, hw, octets', hrest, -⟩ := h
          exact ⟨isBase64_of_value hw, isBase64_of_decode hrest⟩
    simp only [mem_cons]
    rintro e (rfl | rfl | rfl | rfl | he)
    · exact isBase64_of_value hx
    · exact isBase64_of_value hy
    · exact hc
    · exact hd
    · exact hrest e he

end Portail.Lib
