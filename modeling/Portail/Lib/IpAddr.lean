import Portail.Lib.Decimal

/-!
# Text of IP addresses

The display form of an address: dotted decimal for IPv4; for IPv6 the longest
run of at least two zero groups is written `::`, and an IPv4-mapped address
keeps its dotted tail. No text is longer than 45 octets.
-/

namespace Portail.Lib

open List

structure Ipv4Addr where
  octets : List UInt8
  length_eq : octets.length = 4
  deriving DecidableEq

structure Ipv6Addr where
  segments : List UInt16
  length_eq : segments.length = 8
  deriving DecidableEq

def Ipv4Addr.ofOctets (a b c d : UInt8) : Ipv4Addr := ⟨[a, b, c, d], rfl⟩

def Ipv6Addr.ofSegments (a b c d e f g h : UInt16) : Ipv6Addr := ⟨[a, b, c, d, e, f, g, h], rfl⟩

inductive IpAddr
  | v4 (a : Ipv4Addr)
  | v6 (a : Ipv6Addr)
  deriving DecidableEq

def joinWith (c : UInt8) : List Bytes → Bytes
  | [] => []
  | [x] => x
  | x :: y :: rest => x ++ c :: joinWith c (y :: rest)

def dotted (octets : List UInt8) : Bytes := joinWith 0x2e (octets.map fun b => toDecimal b.toNat)

/-- A colon-separated part of an IPv6 address. -/
def colonGroups (chunk : List UInt16) : Bytes := joinWith colon (chunk.map fun s => toHex s.toNat)

structure Span where
  start : ℕ
  len : ℕ

/-- The scan for the longest run of zero groups: the longest so far and the current one. -/
def zeroStep (acc : Span × Span) (group : UInt16 × ℕ) : Span × Span :=
  let (longest, current) := acc
  if group.1 = 0 then
    let current : Span := ⟨if current.len = 0 then group.2 else current.start, current.len + 1⟩
    (if longest.len < current.len then current else longest, current)
  else (longest, ⟨0, 0⟩)

def longestZeros (segments : List UInt16) : Span :=
  (segments.zipIdx.foldl zeroStep (⟨0, 0⟩, ⟨0, 0⟩)).1

/-- The IPv4 address an IPv4-mapped address holds. -/
def toIpv4Mapped (segments : List UInt16) : Option (List UInt8) :=
  match segments with
  | [0, 0, 0, 0, 0, 0xffff, ab, cd] =>
    some [(ab >>> 8).toUInt8, ab.toUInt8, (cd >>> 8).toUInt8, cd.toUInt8]
  | _ => none

def Ipv6Addr.display (a : Ipv6Addr) : Bytes :=
  match toIpv4Mapped a.segments with
  | some octets => bytes "::ffff:" ++ dotted octets
  | none =>
    let zeroes := longestZeros a.segments
    if 1 < zeroes.len then
      colonGroups (a.segments.take zeroes.start) ++ (bytes "::" ++
        colonGroups (a.segments.drop (zeroes.start + zeroes.len)))
    else colonGroups a.segments

def IpAddr.display : IpAddr → Bytes
  | v4 a => dotted a.octets
  | v6 a => a.display

def isIpText (b : UInt8) : Bool := isAsciiHexdigit b || b == colon || b == 0x2e

theorem forall_joinWith {P : UInt8 → Prop} {c : UInt8} (hc : P c) {xs : List Bytes}
    (h : ∀ x ∈ xs, ∀ b ∈ x, P b) : ∀ b ∈ joinWith c xs, P b := by
  fun_induction joinWith c xs with
  | case1 => simp
  | case2 x => simpa using h
  | case3 x y rest ih =>
    intro b hb
    rw [mem_append, mem_cons] at hb
    rcases hb with hb | rfl | hb
    · exact h x (by simp) b hb
    · exact hc
    · exact ih (fun z hz => h z (mem_cons_of_mem _ hz)) b hb

theorem joinWith_length_le {c : UInt8} {xs : List Bytes} {k : ℕ} (h : ∀ x ∈ xs, x.length ≤ k) :
    (joinWith c xs).length ≤ xs.length * (k + 1) := by
  fun_induction joinWith c xs with
  | case1 => simp
  | case2 x =>
    have hx := h x (by simp)
    simp only [length_singleton]
    omega
  | case3 x y rest ih =>
    have hx := h x (by simp)
    have hrest := ih fun z hz => h z (mem_cons_of_mem _ hz)
    simp only [length_append, length_cons] at hrest ⊢
    rw [add_mul _ 1]
    omega

theorem numerals_text {c : UInt8} (hc : isIpText c = true) {base : ℕ} (hbase : 1 < base)
    {char : ℕ → UInt8} (hchar : ∀ d < base, isIpText (char d) = true) {α : Type} (f : α → ℕ)
    (xs : List α) :
    ∀ b ∈ joinWith c (xs.map fun x => numeral base char (f x)), isIpText b = true := by
  refine forall_joinWith hc ?_
  simp only [mem_map, forall_exists_index, and_imp, forall_apply_eq_imp_iff₂]
  intro x _ b hb
  obtain ⟨d, hd, rfl⟩ := mem_numeral hbase hb
  exact hchar d hd

theorem dotted_text (octets : List UInt8) : ∀ b ∈ dotted octets, isIpText b = true :=
  numerals_text (by decide) (by decide) (by decide) _ octets

theorem colonGroups_text (chunk : List UInt16) : ∀ b ∈ colonGroups chunk, isIpText b = true :=
  numerals_text (by decide) (by decide) (by decide) _ chunk

theorem dotted_length_le {octets : List UInt8} (h : octets.length ≤ 4) :
    (dotted octets).length ≤ 16 := by
  have hone : ∀ x ∈ octets.map (fun b => toDecimal b.toNat), x.length ≤ 3 := by
    simp only [mem_map, forall_exists_index, and_imp, forall_apply_eq_imp_iff₂]
    intro b _
    exact numeral_length_le (by omega) (by omega) (lt_trans b.toNat_lt (by decide))
  have hle := joinWith_length_le (c := 0x2e) hone
  rw [length_map] at hle
  rw [dotted]
  omega

theorem colonGroups_length_le (chunk : List UInt16) :
    (colonGroups chunk).length ≤ chunk.length * 5 := by
  have hone : ∀ x ∈ chunk.map (fun s => toHex s.toNat), x.length ≤ 4 := by
    simp only [mem_map, forall_exists_index, and_imp, forall_apply_eq_imp_iff₂]
    intro s _
    exact numeral_length_le (by omega) (by omega) s.toNat_lt
  have hle := joinWith_length_le (c := colon) hone
  rwa [length_map] at hle

theorem toIpv4Mapped_length {segments : List UInt16} {octets : List UInt8}
    (h : toIpv4Mapped segments = some octets) : octets.length = 4 := by
  unfold toIpv4Mapped at h
  split at h
  · cases h; rfl
  · cases h

theorem IpAddr.display_text (a : IpAddr) : ∀ b ∈ a.display, isIpText b = true := by
  have hlit : ∀ b ∈ bytes "::ffff:", isIpText b = true := by decide
  have hgap : ∀ b ∈ bytes "::", isIpText b = true := by decide
  cases a with
  | v4 a => exact dotted_text a.octets
  | v6 a =>
    intro b hb
    simp only [display, Ipv6Addr.display] at hb
    split at hb
    · rcases mem_append.mp hb with hb | hb
      · exact hlit b hb
      · exact dotted_text _ b hb
    · split_ifs at hb
      · simp only [mem_append] at hb
        rcases hb with hb | hb | hb
        · exact colonGroups_text _ b hb
        · exact hgap b hb
        · exact colonGroups_text _ b hb
      · exact colonGroups_text _ b hb

theorem IpAddr.display_length_le (a : IpAddr) : a.display.length ≤ 45 := by
  cases a with
  | v4 a =>
    have hle := dotted_length_le (Nat.le_of_eq a.length_eq)
    exact le_trans hle (by omega)
  | v6 a =>
    have hseg := a.length_eq
    simp only [display, Ipv6Addr.display]
    split
    · next octets hmapped =>
      have hle := dotted_length_le (Nat.le_of_eq (toIpv4Mapped_length hmapped))
      have hlit : (bytes "::ffff:").length = 7 := by decide
      rw [length_append, hlit]
      omega
    · split_ifs with hrun
      · have h1 := colonGroups_length_le (a.segments.take (longestZeros a.segments).start)
        have h2 := colonGroups_length_le
          (a.segments.drop ((longestZeros a.segments).start + (longestZeros a.segments).len))
        have hgap : (bytes "::").length = 2 := by decide
        simp only [length_append, hgap, length_take, length_drop, hseg] at *
        omega
      · have h1 := colonGroups_length_le a.segments
        omega

end Portail.Lib
