import Portail.Http.PathNormal

/-!
# Dot-segments

RFC 3986 5.2.4 moves a path from an input buffer to an output buffer, segment by segment.
`normalize_path` looks for a dot-segment first and then walks over the list of segments.
The two agree on every path (`normalizePath_rfc`) when a dot may also be sent as `%2e` or
`%2E`, and the path refused is one with a dot-segment before path parameters.
-/

namespace Portail.Http

open Lib List Option

variable {n : ℕ}

section

/-- What follows a dot, sent as `.`, `%2e` or `%2E`. -/
def oneDot : Bytes → Option Bytes
  | 0x2e :: rest => some rest
  | 0x25 :: 0x32 :: e :: rest => if e = 0x65 ∨ e = 0x45 then some rest else none
  | _ => none

def takeDots : ℕ → Bytes → Option Bytes
  | 0, text => some text
  | n + 1, text => (oneDot text).bind (takeDots n)

def atBoundary (text : Bytes) : Bool := text.head?.all (· == slash)

/-- What follows a segment of so many dots. -/
def dotsThenEnd (n : ℕ) (text : Bytes) : Option Bytes := (takeDots n text).filter atBoundary

/-- One turn of the algorithm of RFC 3986 5.2.4, on its input and its output buffer. -/
def rfcTurn (buffers : Bytes × Bytes) : (Bytes × Bytes) ⊕ Bytes :=
  match buffers with
  | ([], output) => .inr output
  | (b :: text, output) =>
    if b = slash then
      match dotsThenEnd 1 text, dotsThenEnd 2 text with
      -- 2B
      | some rest, _ => .inl (slash :: rest.drop 1, output)
      -- 2C
      | none, some rest => .inl (slash :: rest.drop 1, truncateSegment output)
      -- 2E
      | none, none => .inl (text.dropWhile (· != slash),
          output ++ slash :: text.takeWhile (· != slash))
    else
      match dotsThenEnd 1 (b :: text), dotsThenEnd 2 (b :: text) with
      -- 2A and 2D
      | some rest, _ => .inl (rest.drop 1, output)
      | none, some rest => .inl (rest.drop 1, output)
      | none, none => .inl (text.dropWhile (· != slash),
          output ++ b :: text.takeWhile (· != slash))

variable {text rest : Bytes}

theorem oneDot_eq_some : oneDot text = some rest ↔
    text = 0x2e :: rest ∨ ∃ e, (e = 0x65 ∨ e = 0x45) ∧ text = 0x25 :: 0x32 :: e :: rest := by
  constructor
  · intro h
    unfold oneDot at h
    split at h
    · cases h
      exact .inl rfl
    · next e _ =>
      split_ifs at h with he
      cases h
      exact .inr ⟨e, he, rfl⟩
    · cases h
  · rintro (rfl | ⟨e, he, rfl⟩)
    · rfl
    · simp [oneDot, he]

theorem oneDot_length (h : oneDot text = some rest) : rest.length < text.length := by
  obtain rfl | ⟨e, -, rfl⟩ := oneDot_eq_some.mp h
  · simp
  · simp only [length_cons]
    omega

theorem takeDots_length (h : takeDots n text = some rest) : rest.length + n ≤ text.length := by
  induction n generalizing text with
  | zero =>
    cases h
    simp
  | succ n ih =>
    obtain ⟨next, hnext, hrest⟩ := bind_eq_some_iff.mp h
    have := oneDot_length hnext
    have := ih hrest
    omega

theorem dotsThenEnd_length (h : dotsThenEnd n text = some rest) :
    rest.length + n ≤ text.length := takeDots_length (filter_eq_some_iff.mp h).1

def rfcLoop : Loop (Bytes × Bytes) Bytes where
  turn := rfcTurn
  measure buffers := buffers.1.length
  decreases := by
    rintro ⟨input, output⟩ next h
    cases input with
    | nil => cases h
    | cons b text =>
      have hdrop := (dropWhile_suffix (l := text) fun x => x != slash).length_le
      unfold rfcTurn at h
      dsimp only at h
      split_ifs at h
      all_goals
        split at h
        · next rest hone =>
          have := dotsThenEnd_length hone
          cases h
          simp only [length_cons, length_drop] at this ⊢
          omega
        · next rest _ htwo =>
          have := dotsThenEnd_length htwo
          cases h
          simp only [length_cons, length_drop] at this ⊢
          omega
        · cases h
          simp only [length_cons]
          omega

/-- `remove_dot_segments` of RFC 3986 5.2.4. -/
def rfcRemoveDotSegments (path : Bytes) : Bytes := rfcLoop.run (path, [])

end

section

variable {s tail : Bytes}

theorem oneDot_boundary (htail : atBoundary tail = true) : oneDot tail = none := by
  cases tail with
  | nil => rfl
  | cons b rest =>
    obtain rfl : b = slash := by simpa [atBoundary] using htail
    rfl

theorem oneDot_append (htail : atBoundary tail = true) :
    oneDot (s ++ tail) = (oneDot s).map (· ++ tail) := by
  have hhead (b : UInt8) (rest : Bytes) (hb : tail = b :: rest) : b = slash := by
    subst hb
    simpa [atBoundary] using htail
  cases hs : oneDot s with
  | some rest =>
    rw [map_some, oneDot_eq_some]
    obtain rfl | ⟨e, he, rfl⟩ := oneDot_eq_some.mp hs
    · exact .inl rfl
    · exact .inr ⟨e, he, rfl⟩
  | none =>
    rw [map_none, eq_none_iff_forall_ne_some]
    intro rest hrest
    obtain hdot | ⟨e, he, hdot⟩ := oneDot_eq_some.mp hrest
    · rcases s with _ | ⟨b, s⟩
      · cases hhead _ _ hdot
      · simp only [cons_append, List.cons.injEq] at hdot
        rw [hdot.1] at hs
        cases hs
    · -- a segment that ends within the encoded dot is followed by a slash
      rcases s with _ | ⟨b, _ | ⟨c, _ | ⟨d, s⟩⟩⟩
      · cases hhead _ _ hdot
      · simp only [cons_append, nil_append, List.cons.injEq] at hdot
        cases hhead _ _ hdot.2
      · simp only [cons_append, nil_append, List.cons.injEq] at hdot
        rcases he with rfl | rfl
        · cases hhead _ _ hdot.2.2
        · cases hhead _ _ hdot.2.2
      · simp only [cons_append, List.cons.injEq] at hdot
        obtain ⟨rfl, rfl, rfl, -⟩ := hdot
        simp [oneDot, he] at hs

theorem takeDots_append (htail : atBoundary tail = true) (n : ℕ) :
    takeDots n (s ++ tail) = (takeDots n s).map (· ++ tail) := by
  induction n generalizing s with
  | zero => rfl
  | succ n ih =>
    rw [takeDots, oneDot_append htail, takeDots]
    cases oneDot s with
    | none => rfl
    | some rest => exact ih

variable {n dots : ℕ} {text : Bytes}

theorem takeDots_not_slash (hs : slash ∉ s) {rest : Bytes} (h : takeDots n s = some rest) :
    slash ∉ rest := by
  induction n generalizing s with
  | zero =>
    cases h
    exact hs
  | succ n ih =>
    obtain ⟨next, hnext, hrest⟩ := bind_eq_some_iff.mp h
    refine ih ?_ hrest
    obtain rfl | ⟨e, -, rfl⟩ := oneDot_eq_some.mp hnext
    · exact fun hmem => hs (mem_cons_of_mem _ hmem)
    · exact fun hmem => hs (by simp [hmem])

theorem dotsThenEnd_append (hs : slash ∉ s) (htail : atBoundary tail = true) (n : ℕ) :
    dotsThenEnd n (s ++ tail) = if takeDots n s = some [] then some tail else none := by
  rw [dotsThenEnd, takeDots_append htail]
  cases hdots : takeDots n s with
  | none => rfl
  | some rest =>
    have hrest := takeDots_not_slash hs hdots
    cases rest with
    | nil => simp [htail]
    | cons b rest =>
      have hb : (b == slash) = false := by
        simp only [mem_cons, not_or] at hrest
        exact beq_false_of_ne (Ne.symm hrest.1)
      simp [atBoundary, hb]

/-- What ends a run of so many dots. -/
def dotsEnd (dots : ℕ) (text : Bytes) : Option Dots :=
  if dots = 0 then none
  else if atBoundary text then some (.segment dots)
  else if text.head? = some 0x3b then some .withParams
  else none

theorem dotSegmentFrom_succ (turns dots : ℕ) (text : Bytes) :
    dotSegmentFrom (turns + 1) dots text =
      match oneDot text with
      | some rest => dotSegmentFrom turns (dots + 1) rest
      | none => dotsEnd dots text := by
  rw [dotSegmentFrom.eq_def]
  dsimp only
  split
  · rfl
  · next e rest =>
    by_cases he : e = 0x65 ∨ e = 0x45
    · simp [oneDot, he]
    · simp [oneDot, he, dotsEnd, atBoundary, slash]
  · simp only [oneDot, dotsEnd, atBoundary, head?_nil, all_none, if_true]
    split_ifs <;> first | rfl | omega
  · next b rest hdot henc =>
    have hone : oneDot (b :: rest) = none := by
      rw [eq_none_iff_forall_ne_some]
      intro next hnext
      obtain heq | ⟨e, he, heq⟩ := oneDot_eq_some.mp hnext
      · exact hdot (cons.inj heq).1
      · exact henc _ _ (cons.inj heq).1 (cons.inj heq).2
    simp only [hone, dotsEnd, atBoundary, head?_cons, all_some, beq_iff_eq, Option.some.injEq]
    split_ifs <;> first | rfl | omega

theorem dotSegment_append (hs : slash ∉ s) (htail : atBoundary tail = true) :
    dotSegment (s ++ tail) = dotSegment s := by
  have hrun (turns : ℕ) : ∀ (dots : ℕ) (s : Bytes), slash ∉ s →
      dotSegmentFrom turns dots (s ++ tail) = dotSegmentFrom turns dots s := by
    induction turns with
    | zero => exact fun _ _ _ => rfl
    | succ turns ih =>
      intro dots s hs
      rw [dotSegmentFrom_succ, dotSegmentFrom_succ, oneDot_append htail]
      cases hone : oneDot s with
      | some rest =>
        exact ih (dots + 1) rest (takeDots_not_slash (n := 1) hs (by simp [takeDots, hone]))
      | none =>
        simp only [map_none]
        cases s with
        | nil => simp [dotsEnd, htail, show atBoundary [] = true from rfl]
        | cons b rest => rfl
  exact hrun 3 0 s hs

/-- The three ways a text opens with dots. -/
theorem dotSegment_eq (text : Bytes) :
    dotSegment text = (oneDot text).bind fun rest =>
      match oneDot rest with
      | none => dotsEnd 1 rest
      | some next => if (oneDot next).isSome then none else dotsEnd 2 next := by
  rw [dotSegment, dotSegmentFrom_succ]
  cases oneDot text with
  | none => rfl
  | some rest =>
    rw [bind_some]
    dsimp only
    rw [dotSegmentFrom_succ]
    cases oneDot rest with
    | none => rfl
    | some next =>
      dsimp only
      rw [dotSegmentFrom_succ]
      cases oneDot next with
      | none => rfl
      | some more => rfl

theorem dotsEnd_eq_segment :
    dotsEnd dots text = some (.segment n) ↔ dots = n ∧ n ≠ 0 ∧ atBoundary text = true := by
  unfold dotsEnd
  split_ifs with h0 hend hparams
  · simp only [false_iff]
    rintro ⟨rfl, hn, -⟩
    exact hn h0
  · simp only [Option.some.injEq, Dots.segment.injEq, hend, and_true]
    omega
  · simp [hend]
  · simp [hend]

theorem dotsEnd_eq_withParams :
    dotsEnd dots text = some .withParams ↔ dots ≠ 0 ∧ ∃ params, text = 0x3b :: params := by
  have hhead : text.head? = some 0x3b ↔ ∃ params, text = 0x3b :: params := by
    cases text <;> simp
  rw [← hhead]
  unfold dotsEnd
  split_ifs with h0 hend hparams
  · simp [h0]
  · cases text with
    | nil => simp
    | cons b rest =>
      obtain rfl : b = slash := by simpa [atBoundary] using hend
      simp [slash]
  · simp [h0, hparams]
  · simp [h0, hparams]

theorem oneDot_of_dotsEnd {d : Dots} (h : dotsEnd dots text = some d) : oneDot text = none := by
  cases d with
  | segment n => exact oneDot_boundary (dotsEnd_eq_segment.mp h).2.2
  | withParams =>
    obtain ⟨-, params, rfl⟩ := dotsEnd_eq_withParams.mp h
    rfl

/-- A segment opens with one or two dots and then ends, or goes on with path parameters. -/
theorem dotSegment_eq_some {d : Dots} : dotSegment s = some d ↔
    ∃ n rest, (n = 1 ∨ n = 2) ∧ takeDots n s = some rest ∧ dotsEnd n rest = some d := by
  rw [dotSegment_eq]
  constructor
  · intro h
    obtain ⟨rest, hone, h⟩ := bind_eq_some_iff.mp h
    cases htwo : oneDot rest with rw [htwo] at h
    | none => exact ⟨1, rest, .inl rfl, by simp [takeDots, hone], h⟩
    | some next =>
      dsimp only at h
      split_ifs at h
      exact ⟨2, next, .inr rfl, by simp [takeDots, hone, htwo], h⟩
  · rintro ⟨n, rest, rfl | rfl, hdots, hend⟩
    · obtain ⟨next, hone, hdots⟩ := bind_eq_some_iff.mp hdots
      cases hdots
      simp [hone, oneDot_of_dotsEnd hend, hend]
    · obtain ⟨next, hone, hdots⟩ := bind_eq_some_iff.mp hdots
      obtain ⟨last, htwo, hdots⟩ := bind_eq_some_iff.mp hdots
      cases hdots
      simp [hone, htwo, oneDot_of_dotsEnd hend, hend]

theorem dotSegment_eq_segment (hs : slash ∉ s) :
    dotSegment s = some (.segment n) ↔ (n = 1 ∨ n = 2) ∧ takeDots n s = some [] := by
  simp only [dotSegment_eq_some, dotsEnd_eq_segment]
  constructor
  · rintro ⟨k, rest, hk, hdots, rfl, -, hend⟩
    have hrest := takeDots_not_slash hs hdots
    cases rest with
    | nil => exact ⟨hk, hdots⟩
    | cons b rest =>
      obtain rfl : b = slash := by simpa [atBoundary] using hend
      exact absurd mem_cons_self hrest
  · rintro ⟨hn, hdots⟩
    exact ⟨n, [], hn, hdots, rfl, by omega, rfl⟩

theorem dotSegment_eq_withParams : dotSegment s = some .withParams ↔
    ∃ n params, (n = 1 ∨ n = 2) ∧ takeDots n s = some (0x3b :: params) := by
  simp only [dotSegment_eq_some, dotsEnd_eq_withParams]
  constructor
  · rintro ⟨n, rest, hn, hdots, -, params, rfl⟩
    exact ⟨n, params, hn, hdots⟩
  · rintro ⟨n, params, hn, hdots⟩
    exact ⟨n, _, hn, hdots, by omega, params, rfl⟩

end

theorem segmentsPath_cons (s : Bytes) (rest : List Bytes) :
    segmentsPath (s :: rest) = slash :: (s ++ segmentsPath rest) := rfl

theorem segmentsPath_boundary (segments : List Bytes) :
    atBoundary (segmentsPath segments) = true := by
  cases segments with
  | nil => rfl
  | cons s rest => simp [segmentsPath_cons, atBoundary]

variable {segments : List Bytes} {s : Bytes}

/-- A path is refused for a segment with path parameters. -/
theorem removeSegments_eq_none {out : Bytes} :
    removeSegments segments out = none ↔ ∃ s ∈ segments, dotSegment s = some .withParams := by
  induction segments generalizing out with
  | nil => simp [removeSegments]
  | cons s rest ih =>
    rw [removeSegments]
    cases hs : dotSegment s with
    | none => simp [ih, hs]
    | some d =>
      cases d with
      | segment dots => simp [ih, hs]
      | withParams => simp [hs]

theorem takeDots_of_none (hs : slash ∉ s) (hdots : dotSegment s = none)
    (hn : n = 1 ∨ n = 2) : takeDots n s ≠ some [] := by
  intro htake
  rw [(dotSegment_eq_segment hs).mpr ⟨hn, htake⟩] at hdots
  cases hdots

theorem rfcLoop_keep (hs : slash ∉ s) (hdots : dotSegment s = none)
    (rest : List Bytes) (out : Bytes) :
    rfcLoop.run (segmentsPath (s :: rest), out) =
      rfcLoop.run (segmentsPath rest, out ++ slash :: s) := by
  have htail := segmentsPath_boundary rest
  have hrun : ∀ b ∈ s, (b != slash) = true := fun b hb =>
    bne_iff_ne.mpr fun heq => hs (heq ▸ hb)
  have hcut : (s ++ segmentsPath rest).dropWhile (· != slash) = segmentsPath rest ∧
      (s ++ segmentsPath rest).takeWhile (· != slash) = s := by
    rw [dropWhile_append_of_pos hrun, takeWhile_append_of_pos hrun]
    cases rest with
    | nil => simp [segmentsPath]
    | cons t rest => simp [segmentsPath_cons]
  refine rfcLoop.run_again ?_
  show rfcTurn (slash :: (s ++ segmentsPath rest), out) = _
  simp only [rfcTurn, if_true, dotsThenEnd_append hs htail,
    if_neg (takeDots_of_none hs hdots (.inl rfl)), if_neg (takeDots_of_none hs hdots (.inr rfl)),
    hcut]

/-- A dot-segment goes, and two dots take the segment before them along. -/
theorem rfcLoop_dots (hs : slash ∉ s) (hdots : dotSegment s = some (.segment n))
    (rest : List Bytes) (out : Bytes) :
    rfcLoop.run (segmentsPath (s :: rest), out) =
      rfcLoop.run (slash :: (segmentsPath rest).drop 1,
        if n = 1 then out else truncateSegment out) := by
  have htail := segmentsPath_boundary rest
  obtain ⟨hn, htake⟩ := (dotSegment_eq_segment hs).mp hdots
  refine rfcLoop.run_again ?_
  show rfcTurn (slash :: (s ++ segmentsPath rest), out) = _
  by_cases hone : takeDots 1 s = some []
  · have := (dotSegment_eq_segment hs).mpr ⟨.inl rfl, hone⟩
    rw [hdots] at this
    cases this
    simp only [rfcTurn, if_true, dotsThenEnd_append hs htail, if_pos hone]
  · obtain rfl : n = 2 := hn.resolve_left fun h => hone (h ▸ htake)
    simp only [rfcTurn, if_true, dotsThenEnd_append hs htail, if_neg hone, if_pos htake]
    rfl

/-- The walk over the segments is the run of the buffers. -/
theorem rfcLoop_segments (hsegments : ∀ s ∈ segments, slash ∉ s) {out p : Bytes}
    (h : removeSegments segments out = some p) : rfcLoop.run (segmentsPath segments, out) = p := by
  induction segments generalizing out with
  | nil =>
    cases h
    rfl
  | cons s rest ih =>
    have hs : slash ∉ s := hsegments s mem_cons_self
    have hrest := fun t ht => hsegments t (mem_cons_of_mem s ht)
    rw [removeSegments] at h
    cases hdots : dotSegment s with rw [hdots] at h
    | none =>
      rw [rfcLoop_keep hs hdots]
      exact ih hrest h
    | some d =>
      cases d with
      | withParams => cases h
      | segment n =>
        rw [rfcLoop_dots hs hdots]
        cases rest with
        | nil =>
          cases h
          rfl
        | cons t rest => exact ih hrest h

variable {path : Bytes}

section

/-- The segments of an absolute path. -/
def pathSegments (path : Bytes) : List Bytes := (path.drop 1).splitOn slash

theorem pathSegments_not_slash (path : Bytes) : ∀ s ∈ pathSegments path, slash ∉ s :=
  fun _ hs => (mem_splitOn hs).1

variable {segments : List Bytes}

theorem segmentsPath_eq_intercalate (h : segments ≠ []) :
    segmentsPath segments = slash :: [slash].intercalate segments := by
  induction segments with
  | nil => exact absurd rfl h
  | cons s rest ih =>
    cases rest with
    | nil => simp [segmentsPath]
    | cons t rest =>
      rw [segmentsPath_cons, ih (by simp)]
      simp [List.intercalate, List.intersperse]

theorem segmentsPath_pathSegments (hpath : path.head? = some slash) :
    segmentsPath (pathSegments path) = path := by
  rw [pathSegments, segmentsPath_eq_intercalate (splitOn_ne_nil _ _), intercalate_splitOn]
  cases path with
  | nil => cases hpath
  | cons b rest =>
    cases hpath
    rfl

theorem pathSegments_segmentsPath (hne : segments ≠ []) (hsegments : ∀ s ∈ segments, slash ∉ s) :
    pathSegments (segmentsPath segments) = segments := by
  rw [pathSegments, segmentsPath_eq_intercalate hne, drop_succ_cons, drop_zero]
  exact splitOn_intercalate _ hsegments hne

theorem segment_at (hsegments : ∀ s ∈ segments, slash ∉ s) {i : ℕ}
    (h : (segmentsPath segments)[i]? = some slash) :
    ∃ s ∈ segments, dotSegment ((segmentsPath segments).drop (i + 1)) = dotSegment s := by
  induction segments generalizing i with
  | nil => simp [segmentsPath] at h
  | cons s rest ih =>
    have hs := hsegments s mem_cons_self
    rw [segmentsPath_cons] at h ⊢
    cases i with
    | zero => exact ⟨s, mem_cons_self, dotSegment_append hs (segmentsPath_boundary rest)⟩
    | succ i =>
      rw [getElem?_cons_succ] at h
      rw [drop_succ_cons]
      rcases Nat.lt_or_ge i s.length with hlt | hge
      · rw [getElem?_append_left hlt] at h
        exact absurd (mem_of_getElem? h) hs
      · rw [getElem?_append_right hge] at h
        obtain ⟨t, ht, hdots⟩ := ih (fun t ht => hsegments t (mem_cons_of_mem _ ht)) h
        refine ⟨t, mem_cons_of_mem _ ht, ?_⟩
        rw [← hdots, drop_append, drop_eq_nil_of_le (by omega), nil_append]
        congr 2
        omega

theorem place_of_segment (hsegments : ∀ s ∈ segments, slash ∉ s) (hs : s ∈ segments) :
    ∃ i, (segmentsPath segments)[i]? = some slash ∧
      dotSegment ((segmentsPath segments).drop (i + 1)) = dotSegment s := by
  obtain ⟨before, after, rfl⟩ := append_of_mem hs
  refine ⟨(segmentsPath before).length, ?_, ?_⟩
  · simp [segmentsPath]
  · have hpath : segmentsPath (before ++ s :: after) =
        segmentsPath before ++ slash :: (s ++ segmentsPath after) := by
      simp [segmentsPath]
    rw [hpath, drop_append, drop_eq_nil_of_le (by omega), nil_append,
      Nat.add_sub_cancel_left, drop_succ_cons, drop_zero]
    exact dotSegment_append (hsegments s hs) (segmentsPath_boundary after)

/-- A dot opens with one of the octets the search stops at. -/
theorem dotSegment_none {text : Bytes}
    (h : ∀ b ∈ text.head?, (b == 0x2e || b == 0x25) = false) : dotSegment text = none := by
  have hone : oneDot text = none := by
    rw [eq_none_iff_forall_ne_some]
    intro rest hrest
    obtain rfl | ⟨e, -, rfl⟩ := oneDot_eq_some.mp hrest
    · cases h 0x2e rfl
    · cases h 0x25 rfl
  rw [dotSegment_eq, hone]
  rfl

/-- What a search from `start` on comes to: no dot-segment opens there, or the first one decides. -/
def Scanned (path : Bytes) (start : ℕ) (result : Option Cow) : Prop :=
  (result = some (.borrowed path) ∧
    ∀ i, start ≤ i + 1 → path[i]? = some slash → dotSegment (path.drop (i + 1)) = none) ∨
  ∃ i, path[i]? = some slash ∧
    ((∃ n, dotSegment (path.drop (i + 1)) = some (.segment n)) ∧
        result = (removeDotSegments path).map .owned ∨
      dotSegment (path.drop (i + 1)) = some .withParams ∧ result = none)

theorem Scanned.earlier {start next : ℕ} {result : Option Cow} (h : Scanned path next result)
    (hquiet : ∀ i, start ≤ i + 1 → i + 1 < next → path[i]? = some slash →
      dotSegment (path.drop (i + 1)) = none) : Scanned path start result := by
  rcases h with ⟨hresult, hall⟩ | hmet
  · refine .inl ⟨hresult, fun i hi hslash => ?_⟩
    rcases Nat.lt_or_ge (i + 1) next with hlt | hge
    · exact hquiet i hi hlt hslash
    · exact hall i hge hslash
  · exact .inr hmet

theorem normalizeLoop_scan (path : Bytes) (start : ℕ) (hstart : 1 ≤ start) :
    Scanned path start ((normalizeLoop path).run start) := by
  induction start using (normalizeLoop path).induct with
  | h start ih =>
    cases hfind : (path.drop start).findIdx? (fun b => b == 0x2e || b == 0x25) with
    | none =>
      have hturn : normalizeTurn path start = .inr (some (.borrowed path)) := by
        simp only [normalizeTurn, hfind]
      refine .inl ⟨(normalizeLoop path).run_exit hturn, fun i hi _ => dotSegment_none ?_⟩
      intro b hb
      have hdrop : path.drop (i + 1) = (path.drop start).drop (i + 1 - start) := by
        rw [drop_drop]
        congr 1
        omega
      rw [hdrop] at hb
      exact findIdx?_eq_none_iff.mp hfind b (mem_of_mem_drop (mem_of_mem_head? hb))
    | some k =>
      obtain ⟨hk, -, hbefore⟩ := findIdx?_eq_some_iff_getElem.mp hfind
      -- no dot-segment opens before the place found
      have hquiet : ∀ i, start ≤ i + 1 → i + 1 < start + k →
          dotSegment (path.drop (i + 1)) = none := by
        intro i hi hlt
        refine dotSegment_none fun b hb => ?_
        have hget : (path.drop start)[i + 1 - start]? = some b := by
          rw [getElem?_drop, Nat.add_sub_cancel' hi, ← head?_drop]
          exact hb
        have hno := hbefore (i + 1 - start) (by omega)
        rw [(List.getElem?_eq_some_iff.mp hget).2] at hno
        simpa using hno
      have hplace : start + k - 1 + 1 = start + k := by omega
      by_cases hmet : path[start + k - 1]? = some slash ∧ dotSegment (path.drop (start + k)) ≠ none
      · obtain ⟨hslash, hdots⟩ := hmet
        refine .inr ⟨start + k - 1, hslash, ?_⟩
        rw [hplace]
        cases hd : dotSegment (path.drop (start + k)) with
        | none => exact absurd hd hdots
        | some d =>
          cases d with
          | segment n =>
            have hturn : normalizeTurn path start = .inr ((removeDotSegments path).map .owned) := by
              simp only [normalizeTurn, hfind, if_pos hslash, hd]
            exact .inl ⟨⟨n, rfl⟩, (normalizeLoop path).run_exit hturn⟩
          | withParams =>
            have hturn : normalizeTurn path start = .inr none := by
              simp only [normalizeTurn, hfind, if_pos hslash, hd]
            exact .inr ⟨rfl, (normalizeLoop path).run_exit hturn⟩
      · have hturn : normalizeTurn path start = .inl (start + k + 1) := by
          simp only [normalizeTurn, hfind]
          split_ifs with hslash
          · simp only [not_not.mp fun h => hmet ⟨hslash, h⟩]
          · rfl
        rw [(normalizeLoop path).run_again hturn]
        refine (ih _ hturn (by omega)).earlier fun i hi hlt hslash => ?_
        rcases Nat.lt_or_ge (i + 1) (start + k) with hlt | hge
        · exact hquiet i hi hlt
        · obtain rfl : i = start + k - 1 := by omega
          rw [hplace]
          exact not_not.mp fun h => hmet ⟨hslash, h⟩

end

theorem normalizePath_borrowed (hpath : path.head? = some slash)
    (h : ∀ s ∈ pathSegments path, dotSegment s = none) :
    normalizePath path = some (.borrowed path) := by
  rw [normalizePath, if_neg (not_not.mpr hpath)]
  have hpath' := segmentsPath_pathSegments hpath
  rcases normalizeLoop_scan path 1 le_rfl with ⟨hrun, -⟩ | ⟨i, hi, hmet⟩
  · exact hrun
  · rw [← hpath'] at hi
    obtain ⟨s, hs, hdots⟩ := segment_at (pathSegments_not_slash path) hi
    rw [hpath', h s hs] at hdots
    rcases hmet with ⟨⟨n, hn⟩, -⟩ | ⟨hn, -⟩
    · rw [hdots] at hn
      cases hn
    · rw [hdots] at hn
      cases hn

theorem normalizePath_rewritten (hpath : path.head? = some slash)
    (h : ∃ s ∈ pathSegments path, dotSegment s ≠ none) :
    normalizePath path = (removeDotSegments path).map .owned := by
  obtain ⟨s, hs, hdots⟩ := h
  rw [normalizePath, if_neg (not_not.mpr hpath)]
  have hpath' := segmentsPath_pathSegments hpath
  rcases normalizeLoop_scan path 1 le_rfl with ⟨-, hall⟩ | ⟨i, hi, ⟨-, hrun⟩ | ⟨hparams, hrun⟩⟩
  · obtain ⟨i, hi, hplace⟩ := place_of_segment (pathSegments_not_slash path) hs
    rw [hpath'] at hi hplace
    exact absurd (hplace ▸ hall i (by omega) hi) hdots
  · exact hrun
  · rw [← hpath'] at hi
    obtain ⟨t, ht, hplace⟩ := segment_at (pathSegments_not_slash path) hi
    rw [hpath', hparams] at hplace
    have hnone : removeDotSegments path = none :=
      removeSegments_eq_none.mpr ⟨t, ht, hplace.symm⟩
    rw [hrun, hnone]
    rfl

theorem removeSegments_of_none (h : ∀ s ∈ segments, dotSegment s = none)
    (out : Bytes) : removeSegments segments out = some (out ++ segmentsPath segments) := by
  induction segments generalizing out with
  | nil => simp [removeSegments, segmentsPath]
  | cons s rest ih =>
    rw [removeSegments, h s mem_cons_self]
    simp only
    rw [ih fun t ht => h t (mem_cons_of_mem _ ht), segmentsPath_cons]
    simp

/-- What removing dot-segments leaves has none. -/
theorem removeDotSegments_segments {p : Bytes} (h : removeDotSegments path = some p) :
    p.head? = some slash ∧ ∀ s ∈ pathSegments p, dotSegment s = none := by
  obtain ⟨kept, hkept, rfl, hne⟩ := removeSegments_spec
    (P := fun s => slash ∉ s ∧ dotSegment s = none) ⟨by simp, rfl⟩ (fun s hs => hs.1)
    (fun s hs hnone => ⟨(mem_splitOn hs).1, hnone⟩) (forall_mem_nil _) h
  have hne := hne (splitOn_ne_nil _ _)
  constructor
  · obtain ⟨s, kept, rfl⟩ := exists_cons_of_ne_nil hne
    rfl
  · rw [pathSegments_segmentsPath hne fun s hs => (hkept s hs).1]
    exact fun s hs => (hkept s hs).2

/-- `normalize_path` is RFC 3986's removal of dot-segments. It refuses a path with a dot-segment
before path parameters; what it returns has no dot-segment, is borrowed when nothing was removed,
and is its own normal form. -/
theorem normalizePath_rfc (path : Bytes) (hpath : path.head? = some slash) :
    (normalizePath path = none ↔ ∃ s ∈ pathSegments path, ∃ n params, (n = 1 ∨ n = 2) ∧
      takeDots n s = some (0x3b :: params)) ∧
    ∀ c, normalizePath path = some c →
      c.text = rfcRemoveDotSegments path ∧ c.text.head? = some slash ∧
      (∀ s ∈ pathSegments c.text, ∀ n, n = 1 ∨ n = 2 → takeDots n s ≠ some []) ∧
      ((∃ text, c = .borrowed text) ↔ c.text = path) ∧
      normalizePath c.text = some (.borrowed c.text) := by
  have hrfc (p : Bytes) (h : removeDotSegments path = some p) : p = rfcRemoveDotSegments path := by
    have hrun := rfcLoop_segments (pathSegments_not_slash path) h
    rw [segmentsPath_pathSegments hpath] at hrun
    exact hrun.symm
  simp only [← dotSegment_eq_withParams]
  by_cases hall : ∀ s ∈ pathSegments path, dotSegment s = none
  · have hborrowed := normalizePath_borrowed hpath hall
    refine ⟨?_, fun c hc => ?_⟩
    · rw [hborrowed]
      simp only [reduceCtorEq, false_iff, not_exists, not_and]
      intro s hs hparams
      rw [hall s hs] at hparams
      cases hparams
    · rw [hborrowed] at hc
      cases hc
      refine ⟨?_, hpath, fun s hs n hn => ?_, ⟨fun _ => rfl, fun _ => ⟨path, rfl⟩⟩, hborrowed⟩
      · refine hrfc path ?_
        have hkept := removeSegments_of_none hall []
        rw [segmentsPath_pathSegments hpath] at hkept
        exact hkept
      · exact takeDots_of_none (pathSegments_not_slash path s hs) (hall s hs) hn
  · push Not at hall
    have hrewritten := normalizePath_rewritten hpath hall
    refine ⟨?_, fun c hc => ?_⟩
    · rw [hrewritten, map_eq_none_iff]
      exact removeSegments_eq_none
    · rw [hrewritten] at hc
      obtain ⟨p, hp, rfl⟩ := map_eq_some_iff.mp hc
      obtain ⟨hhead, hnone⟩ := removeDotSegments_segments hp
      refine ⟨hrfc p hp, hhead, fun s hs n hn => ?_, ?_, normalizePath_borrowed hhead hnone⟩
      · exact takeDots_of_none (pathSegments_not_slash p s hs) (hnone s hs) hn
      · constructor
        · rintro ⟨text, htext⟩
          cases htext
        · rintro rfl
          obtain ⟨s, hs, hdots⟩ := hall
          exact absurd (hnone s hs) hdots

theorem normalizePath_rfc_parent :
    (bytes "/a/%2e./b").head? = some slash ∧
    normalizePath (bytes "/a/%2e./b") = some (.owned (bytes "/b")) ∧
    bytes "/b" = rfcRemoveDotSegments (bytes "/a/%2e./b") := by
  refine ⟨by decide, by decide, ?_⟩
  exact ((normalizePath_rfc (bytes "/a/%2e./b") (by decide)).2 (.owned (bytes "/b")) (by decide)).1

end Portail.Http
