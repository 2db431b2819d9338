import Portail.Proxy.Redirect

/-!
# What a replaced prefix leaves of a path

`join_prefix_path` puts a replacement before what `prefix_remainder` leaves of the request
path. What follows the matched segments comes out octet by octet, unless the prefix is the
root and the path opens with an empty segment (`replacePrefix_exact_iff`).
-/

namespace Portail.Proxy

open Lib Http Routing Config List

section

/-- A compiled prefix is the root, or ends in a segment. -/
structure PrefixOk (rulePath : Bytes) : Prop where
  head : rulePath.head? = some slash
  last : rulePath = [slash] ∨ rulePath.getLast? ≠ some slash

theorem prefixOk_root : PrefixOk (Str.lit "/").octets := ⟨by decide, .inl (by decide)⟩

theorem prefixOk_trim {value : Str} (h : value.octets.head? = some slash) :
    PrefixOk (trimPrefix value).octets := by
  unfold trimPrefix
  dsimp only
  split_ifs with hnil
  · exact prefixOk_root
  · have htrim : (value.trimEnd slash (by decide)).octets =
        value.octets.rdropWhile (· == slash) := rfl
    rw [htrim] at hnil ⊢
    obtain ⟨b, rest, hcons⟩ := exists_cons_of_ne_nil hnil
    obtain ⟨tail, htail⟩ := rdropWhile_prefix (· == slash) value.octets
    refine ⟨?_, .inr fun hlast => ?_⟩
    · rw [← htail, hcons] at h
      rw [hcons]
      exact h
    · rw [getLast?_eq_some_getLast hnil] at hlast
      have hnot := rdropWhile_last_not (· == slash) value.octets hnil
      rw [Option.some.inj hlast] at hnot
      exact hnot (beq_self_eq_true slash)

variable {R : Type} [RegexEngine R]

theorem compilePath_prefixOk {path : Option HttpPathMatch} {rulePath : Str} {regex : Option R}
    (h : compilePath path = .ok (.pathPrefix, rulePath, regex)) : PrefixOk rulePath.octets := by
  unfold compilePath at h
  split at h
  · cases h
    exact prefixOk_root
  · obtain ⟨regex, -, h⟩ := bind_eq_ok.mp h
    cases h
  · rw [seq_eq_ok] at h
    cases h.2
  · rw [seq_eq_ok, ensure_eq_ok] at h
    cases h.2
    exact prefixOk_trim h.1

theorem compileMatch_prefixOk {m : HttpRouteMatch} {compiled : CompiledMatch R}
    (h : compileMatch m = .ok compiled) (hkind : compiled.pathMatchType = .pathPrefix) :
    PrefixOk compiled.path.octets := by
  unfold compileMatch at h
  split at h
  all_goals
    dsimp only at h
    obtain ⟨-, -, h⟩ := bind_eq_ok.mp h
    obtain ⟨⟨kind, path, regex⟩, hpath, h⟩ := bind_eq_ok.mp h
    obtain ⟨headers, -, h⟩ := bind_eq_ok.mp h
    obtain ⟨queryParams, -, h⟩ := bind_eq_ok.mp h
    cases h
    obtain rfl : kind = .pathPrefix := hkind
    exact compilePath_prefixOk hpath

end

section

variable {rulePath path : Bytes}

/-- What follows the segments a prefix matched; nothing where the path is the prefix itself. The
root matches no segment, so that all of a longer path follows it. -/
def afterSegments (rulePath path : Bytes) : Bytes :=
  if path = rulePath then [] else if rulePath = [slash] then path else path.drop rulePath.length

/-- A replacement, and what follows it. -/
def replacedPath (valuePath rest : Bytes) : Bytes :=
  if rest = [] then if valuePath = [] then [slash] else valuePath else dropSlash valuePath ++ rest

theorem exists_remainder (hok : PrefixOk rulePath) (hmatch : prefixMatches rulePath path = true) :
    ∃ rest, path = rulePath ++ rest ∧ prefixRemainder rulePath path = rest ∧
      (rest = [] ∨ rest.head? = some slash ∨ rulePath = [slash]) := by
  have hne : rulePath.isEmpty = false := by
    cases hnil : rulePath with
    | nil =>
      have hhead := hok.head
      rw [hnil] at hhead
      cases hhead
    | cons b rest => rfl
  rw [prefixMatches, hne, Bool.false_or, Bool.and_eq_true, isPrefixOf_iff_prefix] at hmatch
  obtain ⟨⟨rest, rfl⟩, hboundary⟩ := hmatch
  have hbegins : rulePath.isPrefixOf (rulePath ++ rest) = true :=
    isPrefixOf_iff_prefix.mpr (prefix_append _ _)
  refine ⟨rest, rfl, ?_, ?_⟩
  · rw [prefixRemainder, if_pos hbegins, drop_left]
  · simp only [Bool.or_eq_true, beq_iff_eq, length_append, Nat.add_eq_left,
      length_eq_zero_iff] at hboundary
    rcases hboundary with (hnil | hslash) | hlast
    · exact .inl hnil
    · rw [getElem?_append_right le_rfl, Nat.sub_self, ← head?_eq_getElem?] at hslash
      exact .inr (.inl hslash)
    · exact .inr (.inr (hok.last.resolve_right fun h => h hlast))

theorem head_append_of_dropSlash {valuePath rest : Bytes}
    (hvalue : valuePath = [] ∨ valuePath.head? = some slash) (hrest : rest.head? = some slash) :
    (dropSlash valuePath ++ rest).head? = some slash := by
  rw [head?_append, hrest, dropSlash]
  rcases hvalue with rfl | hvalue
  · rfl
  · split_ifs
    · cases valuePath with
      | nil => rfl
      | cons b short =>
        cases short with
        | nil => rfl
        | cons b' short => exact congrArg (Option.or · (some slash)) hvalue
    · rw [hvalue, Option.some_or]

theorem head_joinPrefixPath {valuePath : Bytes}
    (hvalue : valuePath = [] ∨ valuePath.head? = some slash) (suffix : Bytes) :
    (joinPrefixPath valuePath suffix).head? = some slash := by
  rw [joinPrefixPath_eq]
  split_ifs with hsuffix hnil hhead
  · rfl
  · exact hvalue.resolve_left hnil
  · exact head_append_of_dropSlash hvalue hhead
  · exact head_append_of_dropSlash hvalue rfl

/-- The join gives back all that followed, but for an empty segment behind the root. -/
theorem joinPrefixPath_exact_iff (hok : PrefixOk rulePath)
    (hmatch : prefixMatches rulePath path = true) (valuePath : Bytes) :
    joinPrefixPath valuePath (prefixRemainder rulePath path) =
        replacedPath valuePath (afterSegments rulePath path) ↔
      ¬ (rulePath = [slash] ∧ [slash, slash] <+: path) := by
  obtain ⟨rest, rfl, hrest, hboundary⟩ := exists_remainder hok hmatch
  rw [hrest, joinPrefixPath_eq]
  unfold replacedPath afterSegments
  by_cases hnil : rest = []
  · subst hnil
    have hlong : ¬ (rulePath = [slash] ∧ [slash, slash] <+: rulePath) := by
      rintro ⟨rfl, h⟩
      exact absurd h (by decide)
    simp [hlong]
  · have hne : rulePath ++ rest ≠ rulePath := by simpa using hnil
    rw [if_neg hnil, if_neg hne]
    by_cases hroot : rulePath = [slash]
    · subst hroot
      obtain ⟨b, tail, rfl⟩ := exists_cons_of_ne_nil hnil
      by_cases hslash : b = slash
      · subst hslash
        simp
      · simp [hslash, Ne.symm hslash]
    · have hhead : rest.head? = some slash := (hboundary.resolve_left hnil).resolve_right hroot
      simp [hroot, hhead, hnil]

end

section

theorem head_pathValue {value : Str} (h : value.octets.head? = some slash) :
    (PathValue.ofStr value).path.octets.head? = some slash := by
  unfold PathValue.ofStr
  obtain ⟨hnone, -⟩ | ⟨x, y, hsome, hvalue, -⟩ :=
    Str.splitOnce_cases (show question < 0x80 by decide) value
  · rw [hnone]
    exact h
  · rw [hsome]
    rw [hvalue] at h
    cases hx : x.octets with rw [hx] at h
    | nil => exact absurd (Option.some.inj h) (by decide)
    | cons b rest => exact h

/-- What the check lets through as a prefix replacement: nothing, or a path. -/
theorem head_of_checkRewritePath {filter : String} {value : Str}
    (h : checkRewritePath filter (.replacePrefixMatch value) = .ok ()) :
    (PathValue.ofStr value).path.octets = [] ∨
      (PathValue.ofStr value).path.octets.head? = some slash := by
  rw [checkRewritePath] at h
  split_ifs at h with hempty
  · left
    have hmem := (pathValue_spec value).2.1
    rw [isEmpty_iff.mp hempty] at hmem
    exact eq_nil_iff_forall_not_mem.mpr fun b hb => not_mem_nil (hmem b hb)
  · exact .inr (head_pathValue (checkPath_eq_ok.mp (mapError_eq_ok.mp h)).1)

variable {R : Type} [RegexEngine R]

/-- A replaced prefix leaves a path, with all that followed the matched segments in it, unless
the prefix is the root and the path opens with an empty segment. -/
theorem replacePrefix_exact_iff {m : HttpRouteMatch} {compiled : CompiledMatch R}
    (hcompile : compileMatch m = .ok compiled) (hkind : compiled.pathMatchType = .pathPrefix)
    {filter : String} {value : Str}
    (hvalue : checkRewritePath filter (.replacePrefixMatch value) = .ok ()) (path : Bytes)
    (hmatch : prefixMatches compiled.path.octets path = true) :
    let new := (rewrittenPath compiled.path.octets path
      (HttpURLRewritePath.replacePrefixMatch value).toTable).path
    (new.head? = some slash ∧ new = replacedPath (PathValue.ofStr value).path.octets
        (afterSegments compiled.path.octets path)) ↔
      ¬ (compiled.path.octets = [slash] ∧ [slash, slash] <+: path) := by
  intro new
  rw [← joinPrefixPath_exact_iff (compileMatch_prefixOk hcompile hkind) hmatch
    (PathValue.ofStr value).path.octets]
  exact and_iff_right (head_joinPrefixPath (head_of_checkRewritePath hvalue) _)

/-- The compiled form of a `PathPrefix` match alone. -/
def prefixOnly (path : Str) : CompiledMatch Empty := ⟨none, .pathPrefix, path, none, [], []⟩

/-- `/api/` in front of an empty segment, replaced by `/v/`. -/
theorem replacePrefix_exact_api :
    compileMatch (.pathPrefix (.lit "/api/")) = .ok (prefixOnly (.lit "/api")) ∧
    (rewrittenPath (Str.lit "/api").octets (bytes "/api//x")
      (HttpURLRewritePath.replacePrefixMatch (.lit "/v/")).toTable).path =
        replacedPath (PathValue.ofStr (.lit "/v/")).path.octets
          (afterSegments (Str.lit "/api").octets (bytes "/api//x")) := by
  have hcompile : compileMatch (.pathPrefix (.lit "/api/")) = .ok (prefixOnly (.lit "/api")) := rfl
  have hvalue : checkRewritePath "URLRewrite" (.replacePrefixMatch (.lit "/v/")) = .ok () := rfl
  have hexact := replacePrefix_exact_iff hcompile rfl hvalue (bytes "/api//x") (by decide)
  exact ⟨hcompile, (hexact.mpr (by decide)).2⟩

/-- Behind the root an empty segment is lost: `//a` becomes `/v/a`. -/
theorem root_prefix_drops_segment :
    compileMatch (.pathPrefix (.lit "/")) = .ok (prefixOnly (.lit "/")) ∧
    checkRewritePath "URLRewrite" (.replacePrefixMatch (.lit "/v")) = .ok () ∧
    normalizePath (bytes "//a") = some (.borrowed (bytes "//a")) ∧
    prefixMatches (Str.lit "/").octets (bytes "//a") = true ∧
    (rewrittenPath (Str.lit "/").octets (bytes "//a")
      (HttpURLRewritePath.replacePrefixMatch (.lit "/v")).toTable).path = bytes "/v/a" ∧
    replacedPath (PathValue.ofStr (.lit "/v")).path.octets
      (afterSegments (Str.lit "/").octets (bytes "//a")) = bytes "/v//a" :=
  ⟨rfl, rfl, by decide, by decide, by decide, by decide⟩

end
end Portail.Proxy
