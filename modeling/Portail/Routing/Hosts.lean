import Portail.Lib.Bytes
import Portail.Lib.Stable

/-!
# Hostname patterns

A pattern is a hostname or a wildcard `*.parent`, which covers the strict subdomains
of its parent. The parents of a host are what follows its dots; the longer parent is
the more specific one, and a host has one parent of each length.
-/

namespace Portail.Routing

open Lib List

def dot : UInt8 := 0x2e

/-- The parent of a wildcard pattern. -/
def stripStar : Bytes → Option Bytes
  | 0x2a :: 0x2e :: parent => some parent
  | _ => none

/-- The host is a strict subdomain of the parent. -/
def wildcardCovers (parent host : Bytes) : Bool :=
  parent.isSuffixOf host && parent.length < host.length &&
    host[host.length - parent.length - 1]? == some dot

/-- Two patterns share a hostname. -/
def hostnamesIntersect (a b : Bytes) : Bool :=
  match stripStar a, stripStar b with
  | none, none => a == b
  | some pa, none => wildcardCovers pa b
  | none, some pb => wildcardCovers pb a
  | some pa, some pb => pa == pb || wildcardCovers pa b || wildcardCovers pb a

/-- The successive parents of a host. -/
def parentDomains : Bytes → List Bytes
  | [] => []
  | b :: rest => if b = dot then rest :: parentDomains rest else parentDomains rest

def u32Max : ℕ := 2 ^ 32 - 1

/-- The rank of a wildcard's match, in 32 bits. -/
def wildcardRank (parent : Bytes) : ℕ := (1 + parent.length % 2 ^ 32) % 2 ^ 32

/-- How well a listener's hostname matches a host, if it does: the higher the better. -/
def hostnameMatchPriority (listenerHostname : Option Bytes) (host : Bytes) : Option ℕ :=
  match listenerHostname with
  | none => some 0
  | some lh =>
    match stripStar lh with
    | some parent => if wildcardCovers parent host then some (wildcardRank parent) else none
    | none => if host = lh then some u32Max else none

theorem stripStar_eq_some {h parent : Bytes} :
    stripStar h = some parent ↔ h = 0x2a :: 0x2e :: parent := by
  unfold stripStar
  split
  · simp
  · next hne =>
    simp only [reduceCtorEq, false_iff]
    exact fun heq => hne parent heq

section

variable {parent host a b : Bytes}

theorem mem_parentDomains : parent ∈ parentDomains host ↔ ∃ sub, host = sub ++ dot :: parent := by
  induction host with
  | nil => simp [parentDomains]
  | cons b rest ih =>
    have hcons : (∃ sub, b :: rest = sub ++ dot :: parent) ↔
        (b = dot ∧ rest = parent) ∨ ∃ sub, rest = sub ++ dot :: parent := by
      constructor
      · rintro ⟨_ | ⟨c, sub⟩, h⟩
        · exact .inl (by simpa using h)
        · exact .inr ⟨sub, by simpa using (cons.inj h).2⟩
      · rintro (⟨rfl, rfl⟩ | ⟨sub, rfl⟩)
        · exact ⟨[], rfl⟩
        · exact ⟨b :: sub, rfl⟩
    rw [parentDomains, hcons, ← ih]
    split_ifs with hb
    · simp [hb, eq_comm]
    · simp [hb]

theorem getElem?_before (sub parent : Bytes) (b : UInt8) :
    (sub ++ b :: parent)[(sub ++ b :: parent).length - parent.length - 1]? = some b := by
  have hpos : (sub ++ b :: parent).length - parent.length - 1 = sub.length := by
    rw [length_append, length_cons]
    omega
  rw [hpos]
  simp

theorem wildcardCovers_iff : wildcardCovers parent host = true ↔ parent ∈ parentDomains host := by
  rw [mem_parentDomains]
  simp only [wildcardCovers, Bool.and_eq_true, isSuffixOf_iff_suffix, decide_eq_true_eq, beq_iff_eq]
  constructor
  · rintro ⟨⟨⟨front, rfl⟩, hlen⟩, hdot⟩
    rcases eq_nil_or_concat front with rfl | ⟨sub, b, rfl⟩
    · simp at hlen
    · rw [concat_append, getElem?_before] at hdot
      exact ⟨sub, by simp [Option.some.inj hdot]⟩
  · rintro ⟨sub, rfl⟩
    refine ⟨⟨⟨sub ++ [dot], by simp⟩, ?_⟩, getElem?_before sub parent dot⟩
    rw [length_append, length_cons]
    omega

theorem parentDomains_length (h : parent ∈ parentDomains host) : parent.length < host.length := by
  obtain ⟨sub, rfl⟩ := mem_parentDomains.mp h
  simp only [length_append, length_cons]
  omega

theorem parentDomains_pairwise (host : Bytes) :
    (parentDomains host).Pairwise fun a b => b.length < a.length := by
  induction host with
  | nil => exact .nil
  | cons b rest ih =>
    rw [parentDomains]
    split_ifs
    · exact .cons (fun parent hparent => parentDomains_length hparent) ih
    · exact ih

theorem parentDomains_inj (ha : a ∈ parentDomains host) (hb : b ∈ parentDomains host)
    (hlen : a.length = b.length) : a = b := by
  obtain ⟨x, hx⟩ := mem_parentDomains.mp ha
  obtain ⟨y, hy⟩ := mem_parentDomains.mp hb
  exact (cons.inj (append_inj_right' (hx.symm.trans hy) (by simp [hlen]))).2

theorem parentDomains_trans (ha : a ∈ parentDomains b) (hb : b ∈ parentDomains host) :
    a ∈ parentDomains host := by
  obtain ⟨x, rfl⟩ := mem_parentDomains.mp ha
  obtain ⟨y, rfl⟩ := mem_parentDomains.mp hb
  exact mem_parentDomains.mpr ⟨y ++ dot :: x, by simp⟩

theorem parentDomains_nested (ha : a ∈ parentDomains host) (hb : b ∈ parentDomains host)
    (hlen : a.length ≤ b.length) : a = b ∨ a ∈ parentDomains b := by
  rcases hlen.eq_or_lt with heq | hlt
  · exact .inl (parentDomains_inj ha hb heq)
  · obtain ⟨x, hx⟩ := mem_parentDomains.mp ha
    obtain ⟨y, hy⟩ := mem_parentDomains.mp hb
    have hb' : b <:+ host := ⟨y ++ [dot], by simp [hy]⟩
    obtain ⟨sub, hsub⟩ := suffix_of_suffix_length_le ⟨x, hx.symm⟩ hb'
      (by simpa [Nat.succ_le_iff] using hlt)
    exact .inr (mem_parentDomains.mpr ⟨sub, hsub.symm⟩)

theorem parentDomains_star (parent : Bytes) :
    parentDomains (0x2a :: 0x2e :: parent) = parent :: parentDomains parent := by
  simp [parentDomains, dot]

/-- A walk up the parents answers for the longest one stored. -/
theorem findSome?_parentDomains {α : Type} {lookup : Bytes → Option α} {v : α} :
    (parentDomains host).findSome? lookup = some v ↔ ∃ parent, lookup parent = some v ∧
      wildcardCovers parent host = true ∧ ∀ other, (lookup other).isSome = true →
        wildcardCovers other host = true → other.length ≤ parent.length := by
  simp only [wildcardCovers_iff]
  constructor
  · intro h
    obtain ⟨parent, hmem, hv, hlongest⟩ := findSome?_spec (parentDomains_pairwise host) h
    refine ⟨parent, hv, hmem, fun other hsome hother => ?_⟩
    by_contra hlonger
    rcases hlongest other hother (by omega) with rfl | hnone
    · exact hlonger le_rfl
    · rw [hnone] at hsome
      cases hsome
  · rintro ⟨parent, hv, hmem, hlongest⟩
    obtain ⟨w, hw⟩ : ∃ w, (parentDomains host).findSome? lookup = some w :=
      Option.isSome_iff_exists.mp (findSome?_isSome_iff.mpr ⟨parent, hmem, by rw [hv]; rfl⟩)
    obtain ⟨found, hfound, hfw, hfirst⟩ := findSome?_spec (parentDomains_pairwise host) hw
    have hle : found.length ≤ parent.length := hlongest found (by rw [hfw]; rfl) hfound
    rcases hfirst parent hmem (by omega) with rfl | hnone
    · rw [hw, ← hfw, hv]
    · rw [hv] at hnone
      cases hnone

theorem wildcardRank_eq (h : parent ∈ parentDomains host) (hhost : host.length < u32Max) :
    wildcardRank parent = 1 + parent.length := by
  have hlen := parentDomains_length h
  unfold u32Max at hhost
  rw [wildcardRank, Nat.mod_eq_of_lt (show parent.length < 2 ^ 32 by omega),
    Nat.mod_eq_of_lt (by omega)]

end

theorem hostnameMatchPriority_cases {lh : Option Bytes} {host : Bytes} {n : ℕ}
    (h : hostnameMatchPriority lh host = some n) (hhost : host.length < u32Max) :
    (lh = none ∧ n = 0) ∨
      (∃ parent ∈ parentDomains host, lh = some (0x2a :: 0x2e :: parent) ∧
        n = 1 + parent.length ∧ n < u32Max) ∨
      (lh = some host ∧ n = u32Max) := by
  unfold hostnameMatchPriority at h
  cases lh with
  | none => exact .inl ⟨rfl, by simpa using h.symm⟩
  | some lh =>
    cases hstar : stripStar lh with simp only [hstar] at h
    | some parent =>
      split_ifs at h with hcov
      have hmem := wildcardCovers_iff.mp hcov
      have hlen := parentDomains_length hmem
      cases h
      rw [wildcardRank_eq hmem hhost]
      exact .inr (.inl ⟨parent, hmem, by rw [stripStar_eq_some.mp hstar], rfl, by omega⟩)
    | none =>
      split_ifs at h with heq
      exact .inr (.inr ⟨by rw [heq], by simpa using h.symm⟩)

/-- Listener hostnames that match a host equally well are the same. -/
theorem hostnameMatchPriority_inj {a b : Option Bytes} {host : Bytes} {n : ℕ}
    (ha : hostnameMatchPriority a host = some n) (hb : hostnameMatchPriority b host = some n)
    (hhost : host.length < u32Max) : a = b := by
  have hpos : 0 < u32Max := by decide
  obtain ⟨rfl, h1⟩ | ⟨p, hp, rfl, h1, h1'⟩ | ⟨rfl, h1⟩ := hostnameMatchPriority_cases ha hhost <;>
    obtain ⟨rfl, h2⟩ | ⟨q, hq, rfl, h2, h2'⟩ | ⟨rfl, h2⟩ := hostnameMatchPriority_cases hb hhost <;>
    try first | rfl | omega
  rw [parentDomains_inj hp hq (by omega)]

end Portail.Routing
