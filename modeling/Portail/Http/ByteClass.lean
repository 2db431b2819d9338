import Portail.Lib.Swar

/-!
# Byte classes of the request-head grammar

The alphabets of `http_parser.rs` (token, field value, request target, host
name) and its word-at-a-time scan over them. The scan stops exactly where a scan
octet by octet would, on either byte order (`scan_either_order`); nothing later
mentions words.
-/

namespace Portail.Http

open Lib List

inductive ByteClass
  | tchar
  | value
  | target
  | host
  deriving DecidableEq, Repr

/-- Octets at or above the floor of a scan that its class still excludes. -/
def valueHoles : Bytes := [0x7f]

/-- DEL, the fragment sign and the backslash. -/
def targetHoles : Bytes := [0x7f, 0x23, 0x5c]

def is (b : UInt8) : ByteClass → Bool
  | .tchar => isAsciiAlphanumeric b || (bytes "!#$%&'*+-.^_`|~").contains b
  | .value => b == htab || (sp ≤ b && !valueHoles.contains b)
  | .target => sp < b && !targetHoles.contains b
  | .host => isAsciiAlphanumeric b || (bytes "-._").contains b

def isTchar (b : UInt8) : Bool := is b .tchar

def isToken (s : Bytes) : Bool := !s.isEmpty && s.all isTchar

def isFieldValueByte (b : UInt8) : Bool := is b .value

def isTargetByte (b : UInt8) : Bool := is b .target

/-- Whether some octet of one word is below the floor or one of the holes. -/
def stopsIn (floor : UInt8) (holes word : Bytes) : Bool :=
  let w := word64 word
  let stop := holes.foldl
    (fun stop hole => stop ||| belowMask (w ^^^ (ones64 * hole.toBitVec.setWidth 64)) 1#64)
    (belowMask w (floor.toBitVec.setWidth 64))
  stop != 0#64

inductive ByteOrder
  | little
  | big

/-- The octets of a word in memory, from the lowest of its value. -/
def ByteOrder.fromLowest : ByteOrder → Bytes → Bytes
  | little, word => word
  | big, word => word.reverse

theorem ByteOrder.fromLowest_perm (order : ByteOrder) (word : Bytes) :
    (order.fromLowest word).Perm word := by
  cases order with
  | little => exact .refl word
  | big => exact reverse_perm word

/-- Length of the run `scan` finds from the front of a slice: whole words
first, then octet by octet. -/
def scanLength (order : ByteOrder) (cls : ByteClass) (floor : UInt8) (holes : Bytes) : Bytes → ℕ
  | b0 :: b1 :: b2 :: b3 :: b4 :: b5 :: b6 :: b7 :: rest =>
    if stopsIn floor holes (order.fromLowest [b0, b1, b2, b3, b4, b5, b6, b7]) then
      ((b0 :: b1 :: b2 :: b3 :: b4 :: b5 :: b6 :: b7 :: rest).takeWhile (is · cls)).length
    else 8 + scanLength order cls floor holes rest
  | short => (short.takeWhile (is · cls)).length

/-- End of the run of `cls` octets starting at `pos`. -/
def scan (order : ByteOrder) (data : Bytes) (pos : ℕ) (cls : ByteClass) (floor : UInt8)
    (holes : Bytes) : ℕ :=
  pos + scanLength order cls floor holes (data.drop pos)

theorem foldl_or_eq_zero {α : Type*} (f : α → BitVec 64) (xs : List α) (init : BitVec 64)
    (h : xs.foldl (fun acc x => acc ||| f x) init = 0#64) :
    init = 0#64 ∧ ∀ x ∈ xs, f x = 0#64 := by
  induction xs generalizing init with
  | nil => exact ⟨h, by simp⟩
  | cons x xs ih =>
    obtain ⟨h0, hs⟩ := ih _ h
    obtain ⟨hinit, hx⟩ := BitVec.or_eq_zero_iff.mp h0
    refine ⟨hinit, ?_⟩
    intro y hy
    rcases mem_cons.mp hy with rfl | hy
    · exact hx
    · exact hs y hy

/-- What one skipped word guarantees. -/
theorem stopsIn_false {floor : UInt8} (hf : floor ≤ 0x80) {holes word : Bytes}
    (h8 : word.length = 8) (h : stopsIn floor holes word = false) :
    ∀ b ∈ word, floor ≤ b ∧ b ∉ holes := by
  simp only [stopsIn, bne_eq_false_iff_eq] at h
  obtain ⟨hfloor, hholes⟩ := foldl_or_eq_zero _ _ _ h
  intro b hb
  refine ⟨floor_le_of_mask_zero hf h8 hfloor b hb, fun hmem => ?_⟩
  exact ne_of_mask_zero h8 (hholes b hmem) b hb rfl

/-- The word test agrees with the table: the scan is the plain run. -/
theorem scanLength_eq (order : ByteOrder) {cls : ByteClass} {floor : UInt8} {holes : Bytes}
    (hf : floor ≤ 0x80) (hcls : ∀ b, floor ≤ b → b ∉ holes → is b cls = true) (data : Bytes) :
    scanLength order cls floor holes data = (data.takeWhile (is · cls)).length := by
  fun_induction scanLength order cls floor holes data with
  | case1 b0 b1 b2 b3 b4 b5 b6 b7 rest hstop => rfl
  | case2 b0 b1 b2 b3 b4 b5 b6 b7 rest hstop ih =>
    have hall : ∀ b ∈ [b0, b1, b2, b3, b4, b5, b6, b7], is b cls = true := by
      intro b hb
      obtain ⟨hfl, hho⟩ := stopsIn_false hf ((order.fromLowest_perm _).length_eq.trans rfl)
        (by simpa using hstop) b ((order.fromLowest_perm _).mem_iff.mpr hb)
      exact hcls b hfl hho
    rw [ih, show b0 :: b1 :: b2 :: b3 :: b4 :: b5 :: b6 :: b7 :: rest =
      [b0, b1, b2, b3, b4, b5, b6, b7] ++ rest from rfl, takeWhile_append_of_pos hall,
      length_append]
    rfl
  | case3 short _ => rfl

theorem value_of_floor : ∀ b : UInt8, sp ≤ b → b ∉ valueHoles → is b .value = true :=
  forall_octet (by decide +kernel)

theorem target_of_floor : ∀ b : UInt8, 0x21 ≤ b → b ∉ targetHoles → is b .target = true :=
  forall_octet (by decide +kernel)

def scanValue (data : Bytes) (pos : ℕ) : ℕ := scan .little data pos .value sp valueHoles

def scanTarget (data : Bytes) (pos : ℕ) : ℕ := scan .little data pos .target 0x21 targetHoles

theorem scanValue_eq (data : Bytes) (pos : ℕ) :
    scanValue data pos = pos + ((data.drop pos).takeWhile (is · .value)).length := by
  rw [scanValue, scan, scanLength_eq .little (by decide) value_of_floor]

theorem scanTarget_eq (data : Bytes) (pos : ℕ) :
    scanTarget data pos = pos + ((data.drop pos).takeWhile (is · .target)).length := by
  rw [scanTarget, scan, scanLength_eq .little (by decide) target_of_floor]

/-- On either byte order the scan of a class stops where a lookup of octet after octet does: at
the end of the longest run of the class. -/
theorem scan_either_order (order : ByteOrder) (data : Bytes) {pos : ℕ} (hpos : pos ≤ data.length)
    {cls : ByteClass} {floor : UInt8} {holes : Bytes}
    (hscan : (cls, floor, holes) ∈ [(.value, sp, valueHoles), (.target, 0x21, targetHoles)]) :
    let stop := scan order data pos cls floor holes
    stop = pos + ((data.drop pos).takeWhile (is · cls)).length ∧ stop ≤ data.length ∧
      (∀ i b, pos ≤ i → i < stop → data[i]? = some b → is b cls = true) ∧
      ∀ b, data[stop]? = some b → is b cls = false := by
  intro stop
  have hstop : stop = pos + ((data.drop pos).takeWhile (is · cls)).length := by
    simp only [mem_cons, Prod.mk.injEq, not_mem_nil, or_false] at hscan
    rcases hscan with ⟨rfl, rfl, rfl⟩ | ⟨rfl, rfl, rfl⟩
    · exact congrArg (pos + ·) (scanLength_eq order (by decide) value_of_floor _)
    · exact congrArg (pos + ·) (scanLength_eq order (by decide) target_of_floor _)
  have hsplit := takeWhile_append_dropWhile (p := (is · cls)) (l := data.drop pos)
  have hget (k : ℕ) : data[pos + k]? = ((data.drop pos).takeWhile (is · cls) ++
      (data.drop pos).dropWhile (is · cls))[k]? := by
    rw [hsplit, getElem?_drop]
  have hlen := congrArg List.length hsplit
  rw [length_append, length_drop] at hlen
  refine ⟨hstop, by omega, fun i b hi hlt hb => ?_, fun b hb => ?_⟩
  · obtain ⟨k, rfl⟩ := Nat.exists_eq_add_of_le hi
    rw [hget, getElem?_append_left (by omega)] at hb
    exact all_eq_true.mp all_takeWhile b (mem_of_getElem? hb)
  · have hnot := head?_dropWhile_not (is · cls) (data.drop pos)
    rw [hstop, hget, getElem?_append_right le_rfl, Nat.sub_self, ← head?_eq_getElem?] at hb
    rwa [hb] at hnot

/-- A word with a backslash in it, from its second octet on. -/
theorem scan_either_order_backslash :
    scan .big (bytes "/abcd\\xyz") 1 .target 0x21 targetHoles = 5 :=
  (scan_either_order .big (bytes "/abcd\\xyz") (by decide) (by decide)).1

/-- End of the run of field-value octets from `pos`. -/
def fieldValueEnd (data : Bytes) (pos : ℕ) : ℕ := scanValue data pos

end Portail.Http
