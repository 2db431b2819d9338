import Portail.Lib.Bytes

/-!
# Bytewise tests on one machine word

Eight octets loaded as one little-endian word are tested together: subtract a
floor from every octet at once and look at the high bits. The subtraction
borrows across octets only out of one that is itself below the floor, so the
test misses nothing; that is `floor_le_of_mask_zero`. Exclusive or acts octet
by octet (`leWord_xor`), which turns "equals this octet" into "is below one".
-/

namespace Portail.Lib

open List

/-- The little-endian value of a string of octets. -/
def leWord : Bytes → ℕ
  | [] => 0
  | b :: bs => b.toNat + 256 * leWord bs

/-- The same octet in each of `n` places. -/
def splat (n : ℕ) (b : UInt8) : ℕ := leWord (List.replicate n b)

theorem leWord_lt (bs : Bytes) : leWord bs < 256 ^ bs.length := by
  induction bs with
  | nil => simp [leWord]
  | cons b bs ih =>
    have hb := b.toNat_lt
    simp only [leWord, length_cons, Nat.pow_succ]
    omega

theorem splat_lt (n : ℕ) (b : UInt8) : splat n b < 256 ^ n := by
  simpa [splat] using leWord_lt (List.replicate n b)

theorem splat_succ (n : ℕ) (b : UInt8) : splat (n + 1) b = b.toNat + 256 * splat n b := rfl

theorem splat_eq_mul (n : ℕ) (b : UInt8) : splat n b = splat n 1 * b.toNat := by
  induction n with
  | zero => simp [splat, leWord]
  | succ n ih =>
    rw [splat_succ, splat_succ, ih, add_mul]
    have h1 : (1 : UInt8).toNat = 1 := rfl
    rw [h1, one_mul, mul_assoc]

theorem xor_low {a b A B : ℕ} (ha : a < 256) (hb : b < 256) :
    (a + 256 * A) ^^^ (b + 256 * B) = (a ^^^ b) + 256 * (A ^^^ B) := by
  have hx : a ^^^ b < 2 ^ 8 := Nat.xor_lt_two_pow ha hb
  apply Nat.eq_of_testBit_eq
  intro i
  have key : ∀ {c C : ℕ}, c < 2 ^ 8 →
      (c + 256 * C).testBit i = if i < 8 then c.testBit i else C.testBit (i - 8) := by
    intro c C hc
    rw [add_comm, show (256 : ℕ) = 2 ^ 8 from rfl, Nat.testBit_two_pow_mul_add C hc]
  rw [Nat.testBit_xor, key ha, key hb, key hx]
  split_ifs <;> simp [Nat.testBit_xor]

theorem leWord_xor (bs : Bytes) (h : UInt8) :
    leWord bs ^^^ splat bs.length h = leWord (bs.map (· ^^^ h)) := by
  induction bs with
  | nil => simp [leWord, splat]
  | cons b bs ih =>
    simp only [leWord, length_cons, splat_succ, map_cons]
    rw [xor_low b.toNat_lt h.toNat_lt, ih, UInt8.toNat_xor]

/-- Subtracting one octet more, without a borrow out of the lowest. -/
theorem wrapping_sub_step {M S H lo f : ℕ} (hlo : lo < 256) (hf : f ≤ lo) (hS : S < M) :
    (256 * M - (f + 256 * S) + (lo + 256 * H)) % (256 * M) =
      (lo - f) + 256 * ((M - S + H) % M) := by
  have hx : 256 * M - (f + 256 * S) + (lo + 256 * H) = (lo - f) + 256 * (M - S + H) := by omega
  have h1 : (lo - f + 256 * (M - S + H)) % 256 = lo - f := by omega
  have h2 : (lo - f + 256 * (M - S + H)) / 256 = M - S + H := by omega
  rw [hx, Nat.mod_mul, h1, h2]

/-- The high bit of the lowest octet of the difference shows a borrow. -/
theorem borrow_bit {M S H lo f : ℕ} (hlo : lo < f) (hf : f ≤ 128) (hS : S < M) :
    (256 * M - (f + 256 * S) + (lo + 256 * H)) % (256 * M) / 2 ^ 7 % 2 = 1 := by
  generalize hx : 256 * M - (f + 256 * S) + (lo + 256 * H) = x
  have hmod : x % (256 * M) % 256 = x % 256 := Nat.mod_mul_right_mod x 256 M
  omega

/-- If no octet of the difference has its high bit set where the word's own is
clear, then no octet is below the floor. -/
theorem floor_le_of_no_borrow {f : UInt8} (hf : f ≤ 0x80) (bs : Bytes) (h : ∀ k < bs.length,
      (256 ^ bs.length - splat bs.length f + leWord bs) % 256 ^ bs.length /
          2 ^ (8 * k + 7) % 2 = 1 →
        leWord bs / 2 ^ (8 * k + 7) % 2 = 1) :
    ∀ b ∈ bs, f ≤ b := by
  have hf' : f.toNat ≤ 128 := UInt8.le_iff_toNat_le.mp hf
  induction bs with
  | nil => simp
  | cons b bs ih =>
    have hb := b.toNat_lt
    have hS := splat_lt bs.length f
    have hpow : 256 ^ (bs.length + 1) = 256 * 256 ^ bs.length := by rw [Nat.pow_succ, mul_comm]
    simp only [length_cons, splat_succ, leWord, hpow] at h
    have hfb : f.toNat ≤ b.toNat := by
      by_contra hlt
      have hbit := h 0 (by omega) (borrow_bit (by omega) hf' hS)
      omega
    rw [wrapping_sub_step hb hfb hS] at h
    have hshift : ∀ {lo hi : ℕ} (k : ℕ), lo < 256 →
        (lo + 256 * hi) / 2 ^ (8 * (k + 1) + 7) = hi / 2 ^ (8 * k + 7) := by
      intro lo hi k hlo
      rw [show 8 * (k + 1) + 7 = 8 + (8 * k + 7) by omega, Nat.pow_add, ← Nat.div_div_eq_div_mul]
      congr 1
      omega
    intro c hc
    rcases mem_cons.mp hc with rfl | hc
    · exact UInt8.le_iff_toNat_le.mpr hfb
    · refine ih (fun k hk hbit => ?_) c hc
      have hk' := h (k + 1) (by omega)
      rw [hshift k (by omega), hshift k hb] at hk'
      exact hk' hbit

/-- The word loaded from eight octets. -/
def word64 (bs : Bytes) : BitVec 64 := BitVec.ofNat 64 (leWord bs)

def ones64 : BitVec 64 := word64 (List.replicate 8 0x01)

def highs64 : BitVec 64 := word64 (List.replicate 8 0x80)

/-- High bits of the octets of `w` below the floor; exact when all is zero. -/
def belowMask (w floor : BitVec 64) : BitVec 64 := (w - ones64 * floor) &&& ~~~w &&& highs64

variable {bs : Bytes}

theorem word64_toNat (h : bs.length = 8) : (word64 bs).toNat = leWord bs := by
  have hlt := leWord_lt bs
  rw [h] at hlt
  simp only [word64, BitVec.toNat_ofNat]
  exact Nat.mod_eq_of_lt hlt

theorem ones64_mul (f : UInt8) : (ones64 * f.toBitVec.setWidth 64).toNat = splat 8 f := by
  have h1 : ones64.toNat = splat 8 1 := word64_toNat (length_replicate ..)
  have hlt := splat_lt 8 f
  have hf : (f.toBitVec.setWidth 64).toNat = f.toNat := by
    have := f.toNat_lt
    simp only [BitVec.toNat_setWidth, UInt8.toNat_toBitVec]
    omega
  rw [BitVec.toNat_mul, h1, hf, ← splat_eq_mul]
  exact Nat.mod_eq_of_lt hlt

theorem word64_xor (h : bs.length = 8) (hole : UInt8) :
    word64 bs ^^^ (ones64 * hole.toBitVec.setWidth 64) = word64 (bs.map (· ^^^ hole)) := by
  apply BitVec.eq_of_toNat_eq
  rw [BitVec.toNat_xor, word64_toNat h, ones64_mul, word64_toNat (by simpa using h),
    ← leWord_xor, h]

/-- A bit of the mask is the borrow into that octet. -/
theorem bit_of_mask_zero {x w : BitVec 64} (h : x &&& ~~~w &&& highs64 = 0#64) {k : ℕ}
    (hk : k < 8) (hx : x.toNat / 2 ^ (8 * k + 7) % 2 = 1) : w.toNat / 2 ^ (8 * k + 7) % 2 = 1 := by
  have hhigh : highs64.getLsbD (8 * k + 7) = true := by
    interval_cases k <;> decide
  have hxb : x.getLsbD (8 * k + 7) = true := by
    rw [BitVec.getLsbD, Nat.testBit_eq_decide_div_mod_eq]
    simpa using hx
  have hb := congrArg (fun v => v.getLsbD (8 * k + 7)) h
  simp only [BitVec.getLsbD_and, BitVec.getLsbD_not, hhigh, hxb, BitVec.getLsbD_zero] at hb
  have hwb : w.getLsbD (8 * k + 7) = true := by
    have hlt : 8 * k + 7 < 64 := by omega
    simpa [hlt] using hb
  rw [BitVec.getLsbD, Nat.testBit_eq_decide_div_mod_eq] at hwb
  simpa using hwb

theorem floor_le_of_mask_zero {f : UInt8} (hf : f ≤ 0x80) (h8 : bs.length = 8)
    (h : belowMask (word64 bs) (f.toBitVec.setWidth 64) = 0#64) : ∀ b ∈ bs, f ≤ b := by
  apply floor_le_of_no_borrow hf
  intro k hk hbit
  rw [← word64_toNat h8]
  apply bit_of_mask_zero h (by omega)
  rw [BitVec.toNat_sub, ones64_mul, word64_toNat h8]
  rw [h8] at hbit
  exact hbit

theorem ne_of_mask_zero {hole : UInt8} (h8 : bs.length = 8)
    (h : belowMask (word64 bs ^^^ (ones64 * hole.toBitVec.setWidth 64)) 1#64 = 0#64) :
    ∀ b ∈ bs, b ≠ hole := by
  rintro b hb rfl
  rw [word64_xor h8] at h
  have hle := floor_le_of_mask_zero (f := 1) (by decide) (by simpa using h8) h (b ^^^ b)
    (mem_map.mpr ⟨b, hb, rfl⟩)
  rw [UInt8.xor_self] at hle
  exact absurd hle (by decide)

end Portail.Lib
