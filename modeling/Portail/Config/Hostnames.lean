import Portail.Config.Validation

/-!
# Hostnames as sets of hosts

A hostname pattern stands for the hosts it matches. The hostnames a route has on a listener
stand for the hosts both match, two patterns intersect exactly when a host matches both, and
the walk up the parents of a host finds the narrowest wildcard that covers it
(`hostnames_exact`).
-/

namespace Portail.Config

open Lib Routing List

section

/-- A host matches a pattern, in whatever case that is written: it is equal to it, or a strict
subdomain of the parent of a wildcard. -/
def matchesHost (pattern host : Bytes) : Bool :=
  match stripStar (lowercase pattern) with
  | some parent => wildcardCovers parent host
  | none => host == lowercase pattern

/-- A host to ask for: lowercase, and no wildcard. -/
def IsHost (host : Bytes) : Prop := host ≠ [] ∧ lowercase host = host ∧ stripStar host = none

theorem lowercase_lowercase (text : Bytes) : lowercase (lowercase text) = lowercase text := by
  have hbyte : ∀ b : UInt8, toAsciiLowercase (toAsciiLowercase b) = toAsciiLowercase b :=
    forall_octet (by decide +kernel)
  simp only [lowercase, map_map]
  exact map_congr_left fun b _ => hbyte b

variable {a b host pa pb : Bytes}

theorem matchesHost_exact (h : stripStar (lowercase a) = none) :
    matchesHost a host = true ↔ host = lowercase a := by
  rw [matchesHost, h, beq_iff_eq]

theorem matchesHost_wildcard (h : stripStar (lowercase a) = some pa) :
    matchesHost a host = true ↔ pa ∈ parentDomains host := by
  rw [matchesHost, h, wildcardCovers_iff]

theorem matchesHost_lowercase (a host : Bytes) :
    matchesHost (lowercase a) host = matchesHost a host := by
  rw [matchesHost, matchesHost, lowercase_lowercase]

theorem nested_iff : (pa == pb || wildcardCovers pa (0x2a :: 0x2e :: pb) ||
    wildcardCovers pb (0x2a :: 0x2e :: pa)) = true ↔
      pa = pb ∨ pa ∈ parentDomains pb ∨ pb ∈ parentDomains pa := by
  simp only [Bool.or_eq_true, beq_iff_eq, wildcardCovers_iff, parentDomains_star, mem_cons]
  tauto

/-- Of two wildcards that intersect, a host is covered by both where the longer covers it. -/
theorem mem_parentDomains_longer (h : pa = pb ∨ pa ∈ parentDomains pb ∨ pb ∈ parentDomains pa)
    (hlen : pa.length ≤ pb.length) (hb : pb ∈ parentDomains host) : pa ∈ parentDomains host := by
  rcases h with rfl | h | h
  · exact hb
  · exact parentDomains_trans h hb
  · exact absurd (parentDomains_length h) (by omega)

theorem nested_of_common (ha : pa ∈ parentDomains host) (hb : pb ∈ parentDomains host) :
    pa = pb ∨ pa ∈ parentDomains pb ∨ pb ∈ parentDomains pa := by
  rcases Nat.le_total pa.length pb.length with hlen | hlen
  · exact (parentDomains_nested ha hb hlen).imp id .inl
  · rcases parentDomains_nested hb ha hlen with rfl | h
    · exact .inl rfl
    · exact .inr (.inr h)

end

section

variable {a b host : Bytes}

/-- Patterns that match a common host intersect. -/
theorem hostnameMatches_of_common (ha : matchesHost a host = true)
    (hb : matchesHost b host = true) : hostnameMatches a b = true := by
  unfold hostnameMatches hostnamesIntersect
  cases hpa : stripStar (lowercase a) with
  | none =>
    obtain rfl := (matchesHost_exact hpa).mp ha
    cases hpb : stripStar (lowercase b) with
    | none => exact beq_iff_eq.mpr ((matchesHost_exact hpb).mp hb)
    | some pb => exact wildcardCovers_iff.mpr ((matchesHost_wildcard hpb).mp hb)
  | some pa =>
    have ha' := (matchesHost_wildcard hpa).mp ha
    cases hpb : stripStar (lowercase b) with
    | none =>
      obtain rfl := (matchesHost_exact hpb).mp hb
      exact wildcardCovers_iff.mpr ha'
    | some pb =>
      dsimp only
      rw [stripStar_eq_some.mp hpa, stripStar_eq_some.mp hpb]
      exact nested_iff.mpr (nested_of_common ha' ((matchesHost_wildcard hpb).mp hb))

/-- The narrower of two patterns that intersect matches what both match. -/
theorem matchesHost_narrower (h : hostnameMatches a b = true) :
    matchesHost (narrower (lowercase a) (lowercase b)) host = true ↔
      matchesHost a host = true ∧ matchesHost b host = true := by
  unfold hostnameMatches hostnamesIntersect at h
  cases hpa : stripStar (lowercase a) with
  | none =>
    cases hpb : stripStar (lowercase b) with rw [hpa, hpb] at h
    | none =>
      have heq : lowercase a = lowercase b := beq_iff_eq.mp h
      have hsame : matchesHost a host = matchesHost b host := by
        rw [← matchesHost_lowercase, heq, matchesHost_lowercase]
      simp [narrower, hpb, heq, matchesHost_lowercase, hsame]
    | some pb =>
      have hcovers := wildcardCovers_iff.mp h
      have hnarrow : narrower (lowercase a) (lowercase b) = lowercase a := by
        simp [narrower, hpa, hpb]
      rw [hnarrow, matchesHost_lowercase, matchesHost_exact hpa, matchesHost_wildcard hpb]
      exact ⟨fun heq => ⟨heq, heq ▸ hcovers⟩, And.left⟩
  | some pa =>
    cases hpb : stripStar (lowercase b) with rw [hpa, hpb] at h
    | none =>
      have hcovers := wildcardCovers_iff.mp h
      have hnarrow : narrower (lowercase a) (lowercase b) = lowercase b := by
        simp [narrower, hpa, hpb]
      rw [hnarrow, matchesHost_lowercase, matchesHost_exact hpb, matchesHost_wildcard hpa]
      exact ⟨fun heq => ⟨heq ▸ hcovers, heq⟩, And.right⟩
    | some pb =>
      dsimp only at h
      have ha := stripStar_eq_some.mp hpa
      have hb := stripStar_eq_some.mp hpb
      rw [ha, hb, nested_iff] at h
      have hlena : (lowercase a).length = pa.length + 2 := by rw [ha]; rfl
      have hlenb : (lowercase b).length = pb.length + 2 := by rw [hb]; rfl
      have hnarrow : narrower (lowercase a) (lowercase b) =
          if pa.length ≤ pb.length then lowercase b else lowercase a := by
        simp [narrower, hpa, hpb, hlena, hlenb]
      rw [hnarrow, matchesHost_wildcard hpa, matchesHost_wildcard hpb]
      split_ifs with hlen
      · rw [matchesHost_lowercase, matchesHost_wildcard hpb]
        exact ⟨fun hmem => ⟨mem_parentDomains_longer h hlen hmem, hmem⟩, And.right⟩
      · rw [matchesHost_lowercase, matchesHost_wildcard hpa]
        have h' : pb = pa ∨ pb ∈ parentDomains pa ∨ pa ∈ parentDomains pb := by tauto
        exact ⟨fun hmem => ⟨hmem, mem_parentDomains_longer h' (by omega) hmem⟩, And.left⟩

theorem exists_matchesHost (hne : a ≠ []) : ∃ host, IsHost host ∧ matchesHost a host = true := by
  cases hpa : stripStar (lowercase a) with
  | none =>
    exact ⟨lowercase a, ⟨by simpa [lowercase] using hne, lowercase_lowercase a, hpa⟩,
      (matchesHost_exact hpa).mpr rfl⟩
  | some pa =>
    have hlower : lowercase pa = pa := by
      have htwice := lowercase_lowercase a
      rw [stripStar_eq_some.mp hpa] at htwice
      exact (cons.inj (cons.inj htwice).2).2
    have hstart : lowercase [0x61, dot] = [0x61, dot] ∧
        ∀ rest, stripStar ([0x61, dot] ++ rest) = none := ⟨by decide, fun _ => rfl⟩
    refine ⟨[0x61, dot] ++ pa, ⟨by simp, ?_, hstart.2 pa⟩, (matchesHost_wildcard hpa).mpr ?_⟩
    · rw [lowercase, map_append, ← lowercase, ← lowercase, hlower, hstart.1]
    · exact mem_parentDomains.mpr ⟨[0x61], rfl⟩

theorem exists_common (h : hostnameMatches a b = true) (hne : b ≠ []) :
    ∃ host, IsHost host ∧ matchesHost a host = true ∧ matchesHost b host = true := by
  have hane : a ≠ [] := by
    rintro rfl
    unfold hostnameMatches hostnamesIntersect at h
    have hnil : stripStar (lowercase []) = none := rfl
    rw [hnil] at h
    cases hpb : stripStar (lowercase b) with rw [hpb] at h
    | none =>
      have heq : lowercase [] = lowercase b := beq_iff_eq.mp h
      exact hne (map_eq_nil_iff.mp heq.symm)
    | some pb => exact absurd (wildcardCovers_iff.mp h) (by simp [lowercase, parentDomains])
  have hnarrow : narrower (lowercase a) (lowercase b) ≠ [] := by
    have ha : lowercase a ≠ [] := by simpa [lowercase] using hane
    have hb : lowercase b ≠ [] := by simpa [lowercase] using hne
    unfold narrower
    split_ifs <;> assumption
  obtain ⟨host, hhost, hmatch⟩ := exists_matchesHost hnarrow
  exact ⟨host, hhost, (matchesHost_narrower h).mp hmatch⟩

end

section

/-- The hostnames of a list stand for the hosts both the listener and one of them match. -/
theorem intersectHostnames_exact (listener : Option Bytes) (hostnames : List Bytes)
    (host : Bytes) : (∃ p ∈ intersectHostnames listener hostnames, matchesHost p host = true) ↔
      (∀ l ∈ listener, matchesHost l host = true) ∧ ∃ r ∈ hostnames, matchesHost r host = true := by
  cases listener with
  | none => simp [intersectHostnames]
  | some l =>
    simp only [intersectHostnames, mem_map, mem_filter, Option.mem_def, Option.some.injEq,
      forall_eq']
    constructor
    · rintro ⟨-, ⟨r, ⟨hr, hmatches⟩, rfl⟩, hhost⟩
      obtain ⟨hl, hr'⟩ := (matchesHost_narrower hmatches).mp hhost
      exact ⟨hl, r, hr, hr'⟩
    · rintro ⟨hl, r, hr, hr'⟩
      have hmatches := hostnameMatches_of_common hl hr'
      exact ⟨_, ⟨r, ⟨hr, hmatches⟩, rfl⟩, (matchesHost_narrower hmatches).mpr ⟨hl, hr'⟩⟩

variable {R : Type} [RegexEngine R]

/-- The hostnames of a valid route on a listener, or on one without a hostname: they stand for
the hosts that both match, the two intersect exactly when there is such a host, and a walk up
the parents of a host finds the longest stored wildcard that covers it, if one does. -/
theorem hostnames_exact {hostnames : List Str}
    (hvalid : (∃ route : HttpRouteConfig, route.validate R = .ok () ∧ route.hostnames = hostnames) ∨
      ∃ route : TlsRouteConfig, route.validate = .ok () ∧ route.hostnames = hostnames) :
    (∀ (listener : Option Str) (host : Bytes),
      (∃ p ∈ intersectHostnames (listener.map Str.octets) (hostnames.map Str.octets),
          matchesHost p host = true) ↔
        (∀ l ∈ listener, matchesHost l.octets host = true) ∧
          ∃ r ∈ hostnames, matchesHost r.octets host = true) ∧
    (∀ (listener : Str), ∀ r ∈ hostnames,
      hostnamesIntersect (lowercase listener.octets) (lowercase r.octets) = true ↔
        ∃ host, IsHost host ∧ matchesHost listener.octets host = true ∧
          matchesHost r.octets host = true) ∧
    ∀ (V : Type) (lookup : Bytes → Option V) (host : Bytes),
      (∀ v, (parentDomains host).findSome? lookup = some v ↔ ∃ parent, lookup parent = some v ∧
        wildcardCovers parent host = true ∧ ∀ other, (lookup other).isSome = true →
          wildcardCovers other host = true → other.length ≤ parent.length) ∧
      ((parentDomains host).findSome? lookup = none ↔
        ∀ parent, wildcardCovers parent host = true → lookup parent = none) := by
  have hne : ∀ r ∈ hostnames, r.octets ≠ [] := by
    rcases hvalid with ⟨route, hroute, rfl⟩ | ⟨route, hroute, rfl⟩
    · exact fun r hr => hostname_ne_of_validate hroute hr
    · exact fun r hr => hostname_ne_of_validate_tls hroute hr
  refine ⟨fun listener host => ?_, fun listener r hr => ⟨fun h => exists_common h (hne r hr), ?_⟩,
    fun V lookup host => ⟨fun v => findSome?_parentDomains, ?_⟩⟩
  · rw [intersectHostnames_exact]
    simp
  · rintro ⟨host, -, hl, hr⟩
    exact hostnameMatches_of_common hl hr
  · simp only [findSome?_eq_none_iff, wildcardCovers_iff]

/-- Of the hostnames of a valid route those on a wildcard listener. -/
theorem hostnames_exact_wildcard :
    ∃ p ∈ intersectHostnames (some (bytes "*.B.c")) [bytes "*.c", bytes "x.d"],
      matchesHost p (bytes "a.b.c") = true := by
  have hvalid : TlsRouteConfig.validate ⟨[⟨.lit "gw", none, none⟩], [.lit "*.c", .lit "x.d"],
      [⟨[serviceRef (.lit "vip") 1]⟩]⟩ = .ok () := rfl
  have hexact := (hostnames_exact (R := Empty) (.inr ⟨_, hvalid, rfl⟩)).1 (some (.lit "*.B.c"))
    (bytes "a.b.c")
  exact hexact.mpr ⟨by decide, .lit "*.c", by decide, by decide⟩

end
end Portail.Config
