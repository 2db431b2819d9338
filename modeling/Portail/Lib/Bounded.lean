import Portail.Lib.Bytes
import Portail.Lib.Checks

/-!
# Reads in bounds

Indexing and slicing that fail past the end of the buffer, and the big-endian numbers read that
way. What a read gives is told by the rest of the buffer at its offset; `InBounds` follows a
computation that fails nowhere.
-/

namespace Portail.Lib

/-- A read past the end: the index asked for and the length there is. -/
structure OutOfBounds where
  index : ℕ
  length : ℕ
  deriving DecidableEq

variable {i : ℕ} {data : Bytes}

section

variable {α : Type}

/-- `data[i]`. -/
def index (data : List α) (i : ℕ) : Except OutOfBounds α :=
  match data[i]? with
  | some a => .ok a
  | none => .error ⟨i, data.length⟩

/-- `&data[start..stop]`. -/
def range (data : List α) (start stop : ℕ) : Except OutOfBounds (List α) :=
  if start ≤ stop ∧ stop ≤ data.length then .ok (slice data start stop)
  else .error ⟨stop, data.length⟩

/-- `u16::from_be_bytes` of the octets at an index. -/
def indexU16 (data : Bytes) (i : ℕ) : Except OutOfBounds ℕ := do
  let high ← index data i
  let low ← index data (i + 1)
  return high.toNat * 256 + low.toNat

/-- A 24-bit number, put together from the octets at an index. -/
def indexU24 (data : Bytes) (i : ℕ) : Except OutOfBounds ℕ := do
  let high ← index data i
  let mid ← index data (i + 1)
  let low ← index data (i + 2)
  return high.toNat <<< 16 ||| mid.toNat <<< 8 ||| low.toNat

def be16 (n : ℕ) : Bytes := [UInt8.ofNat (n / 256), UInt8.ofNat n]

def be24 (n : ℕ) : Bytes := UInt8.ofNat (n / 65536) :: be16 n

@[simp] theorem length_be16 (n : ℕ) : (be16 n).length = 2 := rfl

@[simp] theorem length_be24 (n : ℕ) : (be24 n).length = 3 := rfl

theorem index_of_drop {data rest : List α} {a : α} (h : data.drop i = a :: rest) :
    index data i = .ok a := by
  rw [index, getElem?_of_drop h]
  rfl

theorem range_of_drop {data mid rest : List α} {start stop : ℕ}
    (h : data.drop start = mid ++ rest) (hstop : stop = start + mid.length)
    (hstart : start ≤ data.length) : range data start stop = .ok mid := by
  have hlen := congrArg List.length h
  rw [List.length_drop, List.length_append] at hlen
  rw [range, if_pos (by omega), slice_of_drop h hstop]

theorem indexU16_of_drop {rest : Bytes} {n : ℕ} (hn : n < 65536)
    (h : data.drop i = be16 n ++ rest) : indexU16 data i = .ok n := by
  have hlow : data.drop (i + 1) = UInt8.ofNat n :: rest := drop_succ_of_drop h
  rw [indexU16, index_of_drop h, index_of_drop hlow]
  have hvalue : (UInt8.ofNat (n / 256)).toNat * 256 + (UInt8.ofNat n).toNat = n := by
    rw [UInt8.toNat_ofNat', UInt8.toNat_ofNat']
    omega
  exact congrArg Except.ok hvalue

theorem indexU24_of_drop {rest : Bytes} {n : ℕ} (hn : n < 16777216)
    (h : data.drop i = be24 n ++ rest) : indexU24 data i = .ok n := by
  have hmid : data.drop (i + 1) = be16 n ++ rest := drop_succ_of_drop h
  have hlow : data.drop (i + 2) = UInt8.ofNat n :: rest := drop_succ_of_drop hmid
  rw [indexU24, index_of_drop h, index_of_drop hmid, index_of_drop hlow]
  have hvalue : (UInt8.ofNat (n / 65536)).toNat <<< 16 ||| (UInt8.ofNat (n / 256)).toNat <<< 8 |||
      (UInt8.ofNat n).toNat = n := by
    rw [UInt8.toNat_ofNat', UInt8.toNat_ofNat', UInt8.toNat_ofNat', Nat.or_assoc,
      ← Nat.shiftLeft_add_eq_or_of_lt (b := n % 2 ^ 8) (by omega),
      ← Nat.shiftLeft_add_eq_or_of_lt (by omega)]
    omega
  exact congrArg Except.ok hvalue

end

section

variable {α β : Type}

/-- The computation reads nowhere past the end of a buffer. -/
def InBounds (x : Except OutOfBounds α) : Prop := ∃ a, x = .ok a

namespace InBounds

theorem pure (a : α) : InBounds (Pure.pure a) := ⟨a, rfl⟩

theorem bind {x : Except OutOfBounds α} {f : α → Except OutOfBounds β} (hx : InBounds x)
    (hf : ∀ a, x = .ok a → InBounds (f a)) : InBounds (x >>= f) := by
  obtain ⟨a, rfl⟩ := hx
  exact hf a rfl

theorem ite {c : Prop} [Decidable c] {x y : Except OutOfBounds α} (hx : c → InBounds x)
    (hy : ¬ c → InBounds y) : InBounds (if c then x else y) := by
  split_ifs with h
  · exact hx h
  · exact hy h

theorem early {c : Prop} [Decidable c] {a : α} {y : Except OutOfBounds α} (hy : ¬ c → InBounds y) :
    InBounds (if c then Pure.pure a else y) := .ite (fun _ => .pure a) hy

theorem index {data : List α} (h : i < data.length) : InBounds (index data i) :=
  ⟨data[i], by rw [Lib.index, List.getElem?_eq_getElem h]⟩

theorem indexU16 (h : i + 1 < data.length) : InBounds (indexU16 data i) :=
  (index (by omega)).bind fun _ _ => (index h).bind fun _ _ => pure _

theorem indexU24 (h : i + 2 < data.length) : InBounds (indexU24 data i) :=
  (index (by omega)).bind fun _ _ => (index (by omega)).bind fun _ _ =>
    (index h).bind fun _ _ => pure _

theorem range {data : List α} {start stop : ℕ} (hstart : start ≤ stop)
    (hstop : stop ≤ data.length) : InBounds (range data start stop) :=
  ⟨slice data start stop, by rw [Lib.range, if_pos ⟨hstart, hstop⟩]⟩

end InBounds

end
end Portail.Lib
