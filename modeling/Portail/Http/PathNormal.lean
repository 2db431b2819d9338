import Portail.Lib.Utf8
import Portail.Http.Scanners

/-!
# Path normalization

`normalize_path`: the path that is routed and forwarded, its dot-segments
removed. A normalized path is made of segments of the path it came from
(`normalizePath_spec`), so it starts with a slash and brings in no new octet.
-/

namespace Portail.Http

open Lib List

/-- A borrowed text or one built anew. -/
inductive Cow
  | borrowed (text : Bytes)
  | owned (text : Bytes)
  deriving DecidableEq, Repr

def Cow.text : Cow → Bytes
  | borrowed text => text
  | owned text => text

/-- One or two dots opening a segment. -/
inductive Dots
  | segment (dots : ℕ)
  | withParams
  deriving DecidableEq, Repr

/-- At most `turns` more dots, `dots` having been read. -/
def dotSegmentFrom : ℕ → ℕ → Bytes → Option Dots
  | 0, _, _ => none
  | turns + 1, dots, segment =>
    match segment with
    | 0x2e :: rest => dotSegmentFrom turns (dots + 1) rest
    | 0x25 :: 0x32 :: e :: rest =>
      if e = 0x65 ∨ e = 0x45 then dotSegmentFrom turns (dots + 1) rest else none
    | [] => if 0 < dots then some (.segment dots) else none
    | b :: _ =>
      if b = slash then if 0 < dots then some (.segment dots) else none
      else if b = 0x3b then if 0 < dots then some .withParams else none
      else none

/-- The dots opening `segment`, each sent as `.`, `%2e` or `%2E`. -/
def dotSegment (segment : Bytes) : Option Dots := dotSegmentFrom 3 0 segment

/-- `out.truncate(out.rfind('/').unwrap_or(0))`. -/
def truncateSegment (out : Bytes) : Bytes := (out.rdropWhile (· != slash)).dropLast

/-- The segments still to read and the path built so far. -/
def removeSegments : List Bytes → Bytes → Option Bytes
  | [], out => some out
  | segment :: rest, out =>
    match dotSegment segment with
    | none => removeSegments rest (out ++ slash :: segment)
    | some .withParams => none
    | some (.segment dots) =>
      let out := if dots = 1 then out else truncateSegment out
      removeSegments rest (if rest.isEmpty then out ++ [slash] else out)

def removeDotSegments (path : Bytes) : Option Bytes :=
  removeSegments ((path.drop 1).splitOn slash) []

/-- One turn of the search for a dot-segment from position `start`. -/
def normalizeTurn (path : Bytes) (start : ℕ) : ℕ ⊕ Option Cow :=
  match (path.drop start).findIdx? (fun b => b == 0x2e || b == 0x25) with
  | none => .inr (some (.borrowed path))
  | some i =>
    let at' := start + i
    if path[at' - 1]? = some slash then
      match dotSegment (path.drop at') with
      | some (.segment _) => .inr ((removeDotSegments path).map .owned)
      | some .withParams => .inr none
      | none => .inl (at' + 1)
    else .inl (at' + 1)

theorem findIdx?_lt {p : UInt8 → Bool} {xs : Bytes} {i : ℕ} (h : xs.findIdx? p = some i) :
    i < xs.length := by
  rw [findIdx?_eq_some_iff_findIdx_eq] at h
  exact h.1

def normalizeLoop (path : Bytes) : Loop ℕ (Option Cow) where
  turn := normalizeTurn path
  measure start := path.length - start
  decreases := by
    intro start next h
    unfold normalizeTurn at h
    split at h
    · cases h
    · next i hi =>
      have hlt := findIdx?_lt hi
      rw [length_drop] at hlt
      dsimp only at h
      split_ifs at h
      · split at h
        · cases h
        · cases h
        · cases h
          omega
      · cases h
        omega

/-- The path to route and forward; `none` for a dot-segment with path parameters. -/
def normalizePath (path : Bytes) : Option Cow :=
  if path.head? ≠ some slash then some (.borrowed path) else (normalizeLoop path).run 1

theorem normalizeLoop_run (path : Bytes) (start : ℕ) :
    (normalizeLoop path).run start = some (.borrowed path) ∨
      (normalizeLoop path).run start = none ∨
      (normalizeLoop path).run start = (removeDotSegments path).map .owned := by
  induction start using (normalizeLoop path).induct with
  | h start ih =>
    cases hturn : (normalizeLoop path).turn start with
    | inl next =>
      rw [(normalizeLoop path).run_again hturn]
      exact ih next hturn
    | inr r =>
      rw [(normalizeLoop path).run_exit hturn]
      replace hturn : normalizeTurn path start = .inr r := hturn
      unfold normalizeTurn at hturn
      split at hturn
      · cases hturn
        exact .inl rfl
      · dsimp only at hturn
        split_ifs at hturn
        split at hturn
        · cases hturn
          exact .inr (.inr rfl)
        · cases hturn
          exact .inr (.inl rfl)
        · cases hturn

def segmentsPath (segments : List Bytes) : Bytes := segments.flatMap (slash :: ·)

theorem isUtf8_segmentsPath {segments : List Bytes} (h : ∀ s ∈ segments, isUtf8 s = true) :
    isUtf8 (segmentsPath segments) = true := by
  induction segments with
  | nil => rfl
  | cons s segments ih =>
    rw [segmentsPath, flatMap_cons, cons_append, isUtf8_cons (by decide)]
    exact isUtf8_append (h s (by simp)) (ih fun t ht => h t (by simp [ht]))

theorem truncateSegment_append {s : Bytes} (hs : slash ∉ s) (out : Bytes) :
    truncateSegment (out ++ slash :: s) = out := by
  have hrun : ∀ b ∈ s.reverse, (b != slash) = true := by
    intro b hb
    simp only [bne_iff_ne, ne_eq]
    rintro rfl
    exact hs (mem_reverse.mp hb)
  have hreverse : (out ++ slash :: s).reverse = s.reverse ++ slash :: out.reverse := by simp
  rw [truncateSegment, List.rdropWhile, hreverse, dropWhile_run hrun (by simp)]
  simp

/-- The path built so far is made of segments, whatever is removed from it. -/
theorem removeSegments_spec {P : Bytes → Prop} (hnil : P []) (hslash : ∀ s, P s → slash ∉ s)
    {segments : List Bytes} (hsegments : ∀ s ∈ segments, dotSegment s = none → P s)
    {done : List Bytes} (hdone : ∀ s ∈ done, P s) {p : Bytes}
    (h : removeSegments segments (segmentsPath done) = some p) :
    ∃ kept, (∀ s ∈ kept, P s) ∧ p = segmentsPath kept ∧ (segments ≠ [] → kept ≠ []) := by
  induction segments generalizing done with
  | nil =>
    simp only [removeSegments, Option.some.injEq] at h
    exact ⟨done, hdone, h.symm, fun hne => absurd rfl hne⟩
  | cons s rest ih =>
    have hrest : ∀ s ∈ rest, dotSegment s = none → P s := fun t ht => hsegments t (by simp [ht])
    -- whatever the step leaves, the last one leaves a segment
    have hgo : ∀ done', (∀ s ∈ done', P s) → (rest = [] → done' ≠ []) →
        removeSegments rest (segmentsPath done') = some p →
        ∃ kept, (∀ s ∈ kept, P s) ∧ p = segmentsPath kept ∧ (s :: rest ≠ [] → kept ≠ []) := by
      intro done' hdone' hlast h'
      obtain ⟨kept, hkept, hp, hne⟩ := ih hrest hdone' h'
      refine ⟨kept, hkept, hp, fun _ => ?_⟩
      by_cases hr : rest = []
      · subst hr
        simp only [removeSegments, Option.some.injEq] at h'
        rintro rfl
        rw [hp] at h'
        obtain ⟨t, done', rfl⟩ := exists_cons_of_ne_nil (hlast rfl)
        simp [segmentsPath] at h'
      · exact hne hr
    have hpush : ∀ done' t, segmentsPath done' ++ slash :: t = segmentsPath (done' ++ [t]) := by
      simp [segmentsPath]
    have hend : ∀ done', (∀ s ∈ done', P s) →
        removeSegments rest (if rest.isEmpty then segmentsPath done' ++ [slash]
          else segmentsPath done') = some p →
        ∃ kept, (∀ s ∈ kept, P s) ∧ p = segmentsPath kept ∧ (s :: rest ≠ [] → kept ≠ []) := by
      intro done' hdone' h'
      by_cases hr : rest = []
      · rw [if_pos (by simp [hr]), hpush done' []] at h'
        refine hgo (done' ++ [[]]) ?_ (by simp) h'
        simpa [or_imp, forall_and, hnil] using hdone'
      · rw [if_neg (by simpa using hr)] at h'
        exact hgo done' hdone' (fun hr' => absurd hr' hr) h'
    rw [removeSegments] at h
    split at h
    · next hnone =>
      rw [hpush] at h
      refine hgo (done ++ [s]) ?_ (by simp) h
      simpa [or_imp, forall_and, hsegments s (by simp) hnone] using hdone
    · cases h
    · next dots _ =>
      dsimp only at h
      by_cases hone : dots = 1
      · rw [if_pos hone] at h
        exact hend done hdone h
      · rw [if_neg hone] at h
        have htrunc : truncateSegment (segmentsPath done) = segmentsPath done.dropLast := by
          rcases eq_nil_or_concat done with rfl | ⟨init, t, rfl⟩
          · rfl
          · rw [concat_eq_append, ← hpush, dropLast_concat]
            exact truncateSegment_append (hslash t (hdone t (by simp))) _
        rw [htrunc] at h
        exact hend done.dropLast (fun t ht => hdone t (mem_of_mem_dropLast ht)) h

/-- A normalized path is the path itself or made of its segments. -/
theorem normalizePath_spec {path : Bytes} {c : Cow} (h : normalizePath path = some c) :
    c = .borrowed path ∨ ∃ p kept, c = .owned p ∧ path.head? = some slash ∧
      p = segmentsPath kept ∧ kept ≠ [] ∧
      ∀ s ∈ kept, s = [] ∨ s ∈ (path.drop 1).splitOn slash := by
  rw [normalizePath] at h
  split_ifs at h with hhead
  · cases h
    exact .inl rfl
  · rw [not_not] at hhead
    rcases normalizeLoop_run path 1 with hrun | hrun | hrun
    · rw [hrun] at h
      cases h
      exact .inl rfl
    · rw [hrun] at h
      cases h
    · rw [hrun, Option.map_eq_some_iff] at h
      obtain ⟨p, hp, rfl⟩ := h
      right
      obtain ⟨kept, hkept, hpath, hne⟩ := removeSegments_spec
        (P := fun s => s = [] ∨ s ∈ (path.drop 1).splitOn slash) (.inl rfl)
        (by
          rintro s (rfl | hs)
          · simp
          · exact (mem_splitOn hs).1)
        (fun s hs _ => .inr hs) (forall_mem_nil _) hp
      exact ⟨p, kept, rfl, hhead, hpath, hne (splitOn_ne_nil _ _), hkept⟩

/-- Normalization keeps the leading slash, brings in no octet and keeps text text. -/
theorem normalizePath_text {path : Bytes} {c : Cow} (h : normalizePath path = some c) :
    c.text.head? = path.head? ∧ (∀ b ∈ c.text, b ∈ path) ∧
      (isUtf8 path = true → isUtf8 c.text = true) := by
  rcases normalizePath_spec h with rfl | ⟨p, kept, rfl, hhead, rfl, hne, hkept⟩
  · exact ⟨rfl, fun b hb => hb, id⟩
  · obtain ⟨rest, rfl⟩ : ∃ rest, path = slash :: rest := by
      cases path with
      | nil => simp at hhead
      | cons b rest => exact ⟨rest, by simpa using hhead⟩
    rw [drop_one, tail_cons] at hkept
    have hslash : slash < 0x80 := by decide
    refine ⟨?_, ?_, fun hutf8 => ?_⟩
    · obtain ⟨s, kept, rfl⟩ := exists_cons_of_ne_nil hne
      rfl
    · intro b hb
      simp only [Cow.text, segmentsPath, mem_flatMap, mem_cons] at hb
      obtain ⟨s, hs, rfl | hb⟩ := hb
      · simp
      · rcases hkept s hs with rfl | hs
        · simp at hb
        · exact mem_cons_of_mem _ (mem_of_mem_splitOn hs hb)
    · rw [isUtf8_cons hslash] at hutf8
      have hpieces : ∀ s ∈ kept, isUtf8 s = true := by
        intro s hs
        rcases hkept s hs with rfl | hs
        · rfl
        · exact isUtf8_piece hslash hutf8 hs
      exact isUtf8_segmentsPath hpieces

end Portail.Http
