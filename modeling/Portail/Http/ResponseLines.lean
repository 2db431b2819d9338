import Portail.Http.RequestFields
import Portail.Http.Response

/-!
# Response heads as lines

A regular head is a status line and a row of lines, each a token, a colon and a value
free of CR and LF. The scan of such a head gets past it exactly as the two passes do
(`scanResponseHead_withoutCuts`).
-/

namespace Portail.Http

open Lib List Option

theorem isHopByHopResponseHeader_congr {x y : Bytes} (h : eqIgnoreAsciiCase x y = true) :
    isHopByHopResponseHeader x = isHopByHopResponseHeader y := by
  have hhead : x.head?.map toAsciiLowercase = y.head?.map toAsciiLowercase := by
    rw [← head?_map, ← head?_map, eqIgnoreAsciiCase_iff.mp h]
  unfold isHopByHopResponseHeader
  simp only [hhead, eqIgnoreAsciiCase_congr h]

@[ext] structure HeadLine where
  name : Bytes
  value : Bytes
  name_token : isToken name = true
  value_line : ∀ b ∈ value, isLineByte b = true

namespace HeadLine

variable (l : HeadLine)

def line : Bytes := l.name ++ (colon :: l.value)

def wire : Bytes := l.line ++ crlf

theorem isLineByte_tchar : ∀ b : UInt8, isTchar b = true → isLineByte b = true :=
  forall_octet (by decide +kernel)

theorem name_tchar : ∀ b ∈ l.name, isTchar b = true := (isToken_iff.mp l.name_token).2

theorem line_byte : ∀ b ∈ l.line, isLineByte b = true := by
  intro b hb
  simp only [line, mem_append, mem_cons] at hb
  rcases hb with hb | rfl | hb
  · exact isLineByte_tchar b (l.name_tchar b hb)
  · decide
  · exact l.value_line b hb

theorem cr_not_mem_line : cr ∉ l.line := fun h => absurd (l.line_byte cr h) (by decide)

theorem lf_not_mem_line : lf ∉ l.line := fun h => absurd (l.line_byte lf h) (by decide)

theorem line_ne : l.line ≠ [] := by simp [line, (isToken_iff.mp l.name_token).1]

theorem wire_ne : l.wire ≠ [] := by simp [wire]

theorem wire_length : l.wire.length = l.name.length + 1 + l.value.length + 2 := by
  simp [wire, line]
  omega

def isNamed (name : String) : Bool := eqIgnoreAsciiCase l.name (bytes name)

/-- The line is of one of the given names. -/
def isAmong (names : List String) : Bool := names.any l.isNamed

def isLength : Bool := l.isNamed "content-length"

def isCoding : Bool := l.isNamed "transfer-encoding"

def isConnection : Bool := l.isNamed "connection"

def isHost : Bool := l.isNamed "host"

def isHopByHop : Bool := isHopByHopResponseHeader l.name

variable {l} in
theorem hop_of_connection (h : l.isConnection = true) : l.isHopByHop = true :=
  (isHopByHopResponseHeader_congr h).trans (by decide)

variable {l} in
theorem hop_of_coding (h : l.isCoding = true) : l.isHopByHop = false :=
  (isHopByHopResponseHeader_congr h).trans (by decide)

theorem colon_not_mem_name : colon ∉ l.name := fun hb =>
  (tchar_spec colon (l.name_tchar colon hb)).2.2.1 rfl

theorem memchr_colon : memchr colon l.line = some l.name.length :=
  memchr_append l.colon_not_mem_name _

theorem take_name : l.line.take l.name.length = l.name := by rw [line, take_left]

theorem drop_name : l.line.drop (l.name.length + 1) = l.value := by
  rw [line, ← drop_drop, drop_left]
  rfl

end HeadLine

def linesWire (ls : List HeadLine) : Bytes := ls.flatMap HeadLine.wire

@[simp] theorem linesWire_nil : linesWire [] = [] := rfl

@[simp] theorem linesWire_cons (l : HeadLine) (ls : List HeadLine) :
    linesWire (l :: ls) = l.wire ++ linesWire ls := rfl

theorem linesWire_append (ls ms : List HeadLine) :
    linesWire (ls ++ ms) = linesWire ls ++ linesWire ms := by
  simp [linesWire]

theorem headerEnd_linesWire (ls : List HeadLine) {x : Bytes} (hx : cr ∉ x) (tail : Bytes) :
    headerEnd (x ++ (crlf ++ (linesWire ls ++ (crlf ++ tail)))) =
      some (x.length + 2 + (linesWire ls).length + 2) := by
  have hend := headerEnd_lines (ls.map HeadLine.line)
    (forall_mem_map.mpr fun l _ => ⟨l.line_ne, l.cr_not_mem_line⟩) hx tail
  rwa [flatMap_map] at hend

theorem blockWire_lines (ls : List HeadLine) : blockWire (ls.map HeadLine.line) = linesWire ls :=
  flatMap_map ..

theorem headerLines_lines (ls : List HeadLine) :
    headerLines (linesWire ls ++ crlf) = ls.map HeadLine.line := by
  rw [← blockWire_lines]
  exact headerLines_block (forall_mem_map.mpr fun l _ => ⟨l.line_ne, l.lf_not_mem_line⟩)

def ReplyState.readHeadLine (st : ReplyState) (l : HeadLine) : Option ReplyState :=
  st.readField l.name l.value

theorem parseLine_line (st : ReplyState) (l : HeadLine) :
    st.parseLine l.line = st.readHeadLine l := by
  rw [ReplyState.parseLine, ReplyState.readHeadLine, memchr_eq_none.mpr l.cr_not_mem_line,
    l.memchr_colon]
  simp [l.take_name, l.drop_name, l.name_token]

variable {l : HeadLine}

/-- Everything the reading of a line can do. -/
theorem ReplyState.readHeadLine_cases {st next : ReplyState} (h : st.readHeadLine l = some next) :
    (l.isLength = true ∧ ∃ n, parseDigits (trimOws l.value) = some n ∧
      (∀ m, st.contentLength = some m → m = n) ∧ next = { st with contentLength := some n }) ∨
      (l.isLength = false ∧ l.isCoding = true ∧ st.chunked = false ∧
        eqIgnoreAsciiCase (trimOws l.value) (bytes "chunked") = true ∧
        next = { st with chunked := true }) ∨
      (l.isLength = false ∧ l.isCoding = false ∧ l.isConnection = true ∧
        next = st.readTokens l.value) ∨
      (l.isLength = false ∧ l.isCoding = false ∧ l.isConnection = false ∧ next = st) := by
  have hlength : eqIgnoreAsciiCase l.name (bytes "content-length") = l.isLength := rfl
  have hcoding : eqIgnoreAsciiCase l.name (bytes "transfer-encoding") = l.isCoding := rfl
  have hconnection : eqIgnoreAsciiCase l.name (bytes "connection") = l.isConnection := rfl
  rw [readHeadLine, readField, hlength, hcoding, hconnection] at h
  cases h1 : l.isLength with
  | true =>
    rw [h1, if_pos rfl, bind_eq_bind, bind_eq_some_iff] at h
    obtain ⟨n, hn, h⟩ := h
    split_ifs at h with hany
    cases h
    refine .inl ⟨rfl, n, hn, ?_, rfl⟩
    intro m hm
    simpa [hm] using hany
  | false =>
    rw [h1, if_neg (by simp)] at h
    cases h2 : l.isCoding with
    | true =>
      rw [h2, if_pos rfl] at h
      split_ifs at h with hbad
      cases h
      rw [Bool.or_eq_true, not_or, Bool.not_eq_true, Bool.not_eq_true, Bool.not_eq_false'] at hbad
      exact .inr (.inl ⟨rfl, rfl, hbad.1, hbad.2, rfl⟩)
    | false =>
      rw [h2, if_neg (by simp)] at h
      cases h3 : l.isConnection with
      | true =>
        rw [h3, if_pos rfl] at h
        exact .inr (.inr (.inl ⟨rfl, rfl, rfl, (some.inj h).symm⟩))
      | false =>
        rw [h3, if_neg (by simp)] at h
        exact .inr (.inr (.inr ⟨rfl, rfl, rfl, (some.inj h).symm⟩))

/-- Every Content-Length line says the length that is read off the head. -/
theorem ReplyState.readLines_length {ls : List HeadLine} {st last : ReplyState}
    (h : ls.foldlM ReplyState.readHeadLine st = some last) :
    (∀ n, st.contentLength = some n → last.contentLength = some n) ∧
      ∀ l ∈ ls, l.isLength = true → parseDigits (trimOws l.value) = last.contentLength := by
  induction ls generalizing st with
  | nil =>
    cases h
    exact ⟨fun _ hn => hn, by simp⟩
  | cons l ls ih =>
    rw [foldlM_cons, bind_eq_bind, bind_eq_some_iff] at h
    obtain ⟨next, hnext, h⟩ := h
    obtain ⟨hkeep, hlines⟩ := ih h
    rw [forall_mem_cons]
    obtain ⟨-, n, hn, hsame, rfl⟩ | ⟨hl, -, -, -, rfl⟩ | ⟨hl, -, -, rfl⟩ | ⟨hl, -, -, rfl⟩ :=
      readHeadLine_cases hnext
    · have hlast := hkeep n rfl
      exact ⟨fun m hm => hsame m hm ▸ hlast, fun _ => hn.trans hlast.symm, hlines⟩
    all_goals exact ⟨hkeep, by simp [hl], hlines⟩

/-- A head whose lines are all regular is read field by field. -/
theorem parseResponseHead_lines {status : Bytes} (hlf : lf ∉ status) (hne : status ≠ [])
    (ls : List HeadLine) :
    parseResponseHead (status ++ (crlf ++ (linesWire ls ++ crlf))) =
      (parseStatusLine status).bind fun (code, isHttp10) =>
        (ls.foldlM ReplyState.readHeadLine {}).bind fun st =>
          st.head code isHttp10 := by
  rw [parseResponseHead, headerLines_line hlf hne, headerLines_lines]
  simp only [foldlM_map, parseLine_line]
  rfl

theorem named_eq {lit : String} {len : ℕ} {first : UInt8}
    (hlit : named (bytes lit) len first lit = true) (name : Bytes) :
    named name len first lit = eqIgnoreAsciiCase name (bytes lit) := by
  cases heq : eqIgnoreAsciiCase name (bytes lit) with
  | true => rw [named_congr heq, hlit]
  | false => simp [named, heq]

/-- The scan reads a field as the parser does. -/
theorem readLine_reply (st : ScanState) (name value : Bytes) (start valueAt stop : ℕ) :
    (st.readLine name value start valueAt stop).map ScanState.reply =
      st.reply.readField name value := by
  have hlength : named name 14 0x63 "content-length" = _ := named_eq (by decide) name
  have hcoding : named name 17 0x74 "transfer-encoding" = _ := named_eq (by decide) name
  have hconnection : named name 10 0x63 "connection" = _ := named_eq (by decide) name
  rw [ScanState.readLine, ReplyState.readField, hlength, hcoding, hconnection]
  split_ifs
  · cases hdigits : parseDigits (trimOws value) with
    | none => simp [ScanState.readLength, hdigits]
    | some n =>
      cases hseen : st.reply.contentLength with
      | none => simp [ScanState.readLength, hdigits, hseen]
      | some seen =>
        by_cases hn : seen = n <;> simp [ScanState.readLength, hdigits, hseen, hn]
  all_goals rfl

namespace ScanState

/-- One line, read where the scan stands. -/
def readHeadLine (st : ScanState) (l : HeadLine) : Option ScanState :=
  { st with pos := st.pos + l.wire.length }.readLine l.name l.value st.pos
    (st.pos + l.name.length + 1) (st.pos + l.wire.length)

theorem readHeadLine_pos {st next : ScanState} (h : st.readHeadLine l = some next) :
    next.pos = st.pos + l.wire.length := readLine_pos h

theorem readHeadLine_cases {st next : ScanState} (h : st.readHeadLine l = some next) :
    (l.isLength = true ∧ st.reply.contentLength = none ∧ next.reply.contentLength.isSome = true ∧
      next.cuts = { st.cuts with length := some ((asU32 st.pos, asU32 (st.pos + l.wire.length)),
        digitSpan l.value (st.pos + l.name.length + 1)) }) ∨
      (next.reply.contentLength = st.reply.contentLength ∧
        (l.isLength = true → st.reply.contentLength.isSome = true) ∧
        next.cuts = if l.isLength || l.isHopByHop then
          { st.cuts with strip := st.cuts.strip.push st.pos (st.pos + l.wire.length) }
          else st.cuts) := by
  have hlength : named l.name 14 0x63 "content-length" = l.isLength := named_eq (by decide) _
  have hcoding : named l.name 17 0x74 "transfer-encoding" = l.isCoding := named_eq (by decide) _
  have hconnection : named l.name 10 0x63 "connection" = l.isConnection := named_eq (by decide) _
  have hhop : isHopByHopResponseHeader l.name = l.isHopByHop := rfl
  rw [readHeadLine, readLine, hlength, hcoding, hconnection, hhop] at h
  split_ifs at h with h1 h2 h3 h4 h5
  · simp only [readLength, bind_eq_bind, bind_eq_some_iff] at h
    obtain ⟨n, -, h⟩ := h
    split at h
    · next hnone =>
      cases h
      exact .inl ⟨h1, hnone, rfl, rfl⟩
    · next seen hseen =>
      split_ifs at h with hne
      cases h
      have hn : seen = n := by simpa using hne
      exact .inr ⟨by rw [hseen, hn], fun _ => by rw [hseen]; rfl, by rw [h1]; rfl⟩
  all_goals
    cases h
    refine .inr ⟨rfl, fun h => absurd h h1, ?_⟩
    simp_all [strip, HeadLine.hop_of_coding, HeadLine.hop_of_connection]

theorem readHeadLine_reply (st : ScanState) (l : HeadLine) :
    (st.readHeadLine l).map reply = st.reply.readHeadLine l := readLine_reply ..

theorem readLines_reply (ls : List HeadLine) (st : ScanState) :
    (ls.foldlM readHeadLine st).map reply = ls.foldlM ReplyState.readHeadLine st.reply := by
  induction ls generalizing st with
  | nil => rfl
  | cons l ls ih =>
    rw [foldlM_cons, foldlM_cons, ← readHeadLine_reply]
    cases hread : st.readHeadLine l with
    | none => rfl
    | some next => exact ih next

end ScanState

/-- A text no blank line can end before more comes. -/
def Unended (rest : Bytes) : Prop := ∃ x t, rest = x ++ t ∧ cr ∉ x ∧ t.length ≤ 1

theorem Unended.not_blank {rest : Bytes} (h : Unended rest) : ¬ crlf <+: rest := by
  obtain ⟨x, t, rfl, hx, ht⟩ := h
  rintro ⟨s, hs⟩
  cases x with
  | nil =>
    have hlen := congrArg List.length hs
    simp only [length_append, length_cons, length_nil] at hlen
    omega
  | cons b x =>
    obtain ⟨rfl, -⟩ := cons.inj hs
    exact hx (by simp)

theorem Unended.headerEnd_eq {rest : Bytes} (h : Unended rest) : headerEnd rest = none := by
  obtain ⟨x, t, rfl, hx, ht⟩ := h
  rw [headerEnd_skip hx]
  match t, ht with
  | [], _ => rfl
  | [b], _ =>
    have hshort : ¬ headEndMark <+: [b] := by
      rintro ⟨s, hs⟩
      have hlen := congrArg List.length hs
      simp [headEndMark] at hlen
    simp [headerEnd, hshort]

/-- What ends the line whose value starts at `pos`. -/
theorem lineEnd_cases (data : Bytes) (pos : ℕ) :
    (∃ value rest, data.drop pos = value ++ (crlf ++ rest) ∧ (∀ b ∈ value, isLineByte b = true) ∧
      lineEnd data pos = .cr (pos + value.length)) ∨
      (Unended (data.drop pos) ∧ lineEnd data pos = .incomplete) ∨
      lineEnd data pos = .irregular := by
  rw [lineEnd_eq]
  generalize data.drop pos = rest
  have hline : ∀ b ∈ rest.takeWhile isLineByte, isLineByte b = true := fun b => mem_takeWhile_imp
  have hsplit := takeWhile_append_dropWhile (p := isLineByte) (l := rest)
  rw [lineEndOf]
  split
  · next a b t hdrop =>
    split_ifs with hcr
    · obtain ⟨rfl, rfl⟩ := hcr
      rw [hdrop] at hsplit
      exact .inl ⟨_, t, hsplit.symm, hline, rfl⟩
    · exact .inr (.inr rfl)
  · next hshort =>
    refine .inr (.inl ⟨⟨_, _, hsplit.symm, ?_, ?_⟩, rfl⟩)
    · intro hcr
      exact absurd (hline cr hcr) (by decide)
    · match hdrop : rest.dropWhile isLineByte with
      | [] => simp
      | [_] => simp
      | a :: b :: t => exact absurd hdrop (hshort a b t)

theorem scanLine_cases (data : Bytes) (st : ScanState) :
    (Unended (data.drop st.pos) ∧ scanLine data st = .inr .incomplete) ∨
      scanLine data st = .inr .irregular ∨
      ∃ l rest next, data.drop st.pos = HeadLine.wire l ++ rest ∧ st.readHeadLine l = some next ∧
        scanLine data st = .inl next := by
  have htchar : ∀ b ∈ (data.drop st.pos).takeWhile isTchar, isTchar b = true :=
    fun b => mem_takeWhile_imp
  have hsplit := takeWhile_append_dropWhile (p := isTchar) (l := data.drop st.pos)
  rw [scanLine]
  generalize (data.drop st.pos).takeWhile isTchar = name at htchar hsplit ⊢
  generalize (data.drop st.pos).dropWhile isTchar = after at hsplit
  have hcr : cr ∉ name := fun hcr => absurd (htchar cr hcr) (by decide)
  have hafter : data.drop (st.pos + name.length) = after := drop_of_drop hsplit.symm rfl
  rw [getElem?_of_drop hafter]
  cases after with
  | nil => exact .inl ⟨⟨name, [], hsplit.symm, hcr, by simp⟩, rfl⟩
  | cons c after =>
    simp only [head?_cons]
    split_ifs with hcolon
    · obtain ⟨rfl, hname⟩ := hcolon
      have hvalue := drop_succ_of_drop hafter
      obtain ⟨value, rest, hrest, hline, hend⟩ | ⟨hunended, hend⟩ | hend :=
        lineEnd_cases data (st.pos + name.length + 1)
      · simp only [hend, slice_of_drop hrest rfl]
        have hne : name ≠ [] := by rintro rfl; simp at hname
        have hlen : st.pos + name.length + 1 + value.length + 2 =
            st.pos + (name.length + 1 + value.length + 2) := by omega
        let l : HeadLine := ⟨name, value, isToken_iff.mpr ⟨hne, htchar⟩, hline⟩
        cases hread : st.readHeadLine l with
        | none =>
          rw [ScanState.readHeadLine, l.wire_length] at hread
          simp only [hlen, l] at hread ⊢
          rw [hread]
          exact .inr (.inl rfl)
        | some next =>
          refine .inr (.inr ⟨l, rest, next, ?_, hread, ?_⟩)
          · rw [← hsplit, ← hvalue, hrest]
            simp [l, HeadLine.wire, HeadLine.line]
          · rw [ScanState.readHeadLine, l.wire_length] at hread
            simp only [hlen, l] at hread ⊢
            rw [hread]
      · rw [hend]
        obtain ⟨x, t, hxt, hx, ht⟩ := hunended
        refine .inl ⟨⟨name ++ (colon :: x), t, ?_, ?_, ht⟩, rfl⟩
        · rw [← hsplit, ← hvalue, hxt]
          simp
        · simp [hcr, hx, show cr ≠ colon by decide]
      · rw [hend]
        exact .inr (.inl rfl)
    · exact .inr (.inl rfl)

theorem scanTurn_cases (data : Bytes) (st : ScanState) :
    (∃ tail, data.drop st.pos = crlf ++ tail ∧ scanTurn data st = .inr (.blank st)) ∨
      (Unended (data.drop st.pos) ∧ scanTurn data st = .inr .incomplete) ∨
      scanTurn data st = .inr .irregular ∨
      ∃ l rest next, data.drop st.pos = HeadLine.wire l ++ rest ∧ st.readHeadLine l = some next ∧
        scanTurn data st = .inl next := by
  rw [scanTurn]
  split
  · next a b t hdrop =>
    split_ifs with hblank hbare
    · obtain ⟨rfl, rfl⟩ := hblank
      exact .inl ⟨t, hdrop, rfl⟩
    · exact .inr (.inr (.inl rfl))
    · exact .inr (scanLine_cases data st)
  · next hshort =>
    refine .inr (.inl ⟨⟨[], _, rfl, by simp, ?_⟩, rfl⟩)
    rcases hdrop : data.drop st.pos with _ | ⟨a, _ | ⟨b, t⟩⟩
    · simp
    · simp
    · exact absurd hdrop (hshort a b t)

/-- The run of the scan: it stops short only where no blank line has come, and at a blank line
it has read the lines before it one by one. -/
theorem scanLoop_spec (data : Bytes) (st : ScanState) :
    match (scanLoop data).run st with
    | .irregular => True
    | .incomplete => headerEnd (data.drop st.pos) = none ∧ ¬ crlf <+: data.drop st.pos
    | .blank st' => ∃ ls tail, data.drop st.pos = linesWire ls ++ (crlf ++ tail) ∧
        st'.pos = st.pos + (linesWire ls).length ∧
        ls.foldlM ScanState.readHeadLine st = some st' := by
  induction st using (scanLoop data).induct with
  | h st ih =>
    obtain ⟨tail, hdrop, hturn⟩ | ⟨hunended, hturn⟩ | hturn |
      ⟨l, rest, next, hdrop, hread, hturn⟩ :=
      scanTurn_cases data st
    · rw [(scanLoop data).run_exit hturn]
      exact ⟨[], tail, hdrop, rfl, rfl⟩
    · rw [(scanLoop data).run_exit hturn]
      exact ⟨hunended.headerEnd_eq, hunended.not_blank⟩
    · rw [(scanLoop data).run_exit hturn]
      trivial
    · have ih := ih next hturn
      have hpos := ScanState.readHeadLine_pos hread
      rw [(scanLoop data).run_again hturn]
      rw [drop_of_drop hdrop hpos] at ih
      cases hrun : (scanLoop data).run next with
      | irregular => trivial
      | incomplete =>
        rw [hrun] at ih
        obtain ⟨hend, hblank⟩ := ih
        dsimp only
        rw [hdrop, HeadLine.wire, append_assoc, headerEnd_line l.cr_not_mem_line hblank, hend]
        exact ⟨rfl, not_blank_of_line l.line_ne l.cr_not_mem_line _⟩
      | blank st' =>
        rw [hrun] at ih
        obtain ⟨ls, tail, hrest, hst', hfold⟩ := ih
        refine ⟨l :: ls, tail, ?_, ?_, ?_⟩
        · rw [hdrop, hrest, linesWire_cons, append_assoc]
        · rw [hst', hpos, linesWire_cons, length_append, add_assoc]
        · rw [foldlM_cons, hread]
          exact hfold

/-- A head the one pass has read to its blank line. -/
structure RegularScan (data : Bytes) (stop : ℕ) (h : ResponseHead)
    (cuts : Option ResponseCuts) where
  status : Bytes
  lines : List HeadLine
  tail : Bytes
  code : ℕ
  isHttp10 : Bool
  st : ScanState
  status_ne : status ≠ []
  status_line : ∀ b ∈ status, isLineByte b = true
  status_eq : parseStatusLine status = some (code, isHttp10)
  data_eq : data = status ++ (crlf ++ (linesWire lines ++ (crlf ++ tail)))
  stop_eq : stop = status.length + 2 + (linesWire lines).length + 2
  read : lines.foldlM ScanState.readHeadLine { pos := status.length + 2 } = some st
  head_eq : st.reply.head code isHttp10 = some h
  cuts_eq : cuts = if st.cuts.strip.needsSlowPath then none else some st.cuts

namespace RegularScan

variable {data : Bytes} {stop : ℕ} {h : ResponseHead} {cuts : Option ResponseCuts}
  (s : RegularScan data stop h cuts)
include s

theorem cr_not_mem_status : cr ∉ s.status := fun hb => absurd (s.status_line cr hb) (by decide)

theorem lf_not_mem_status : lf ∉ s.status := fun hb => absurd (s.status_line lf hb) (by decide)

theorem take_stop :
    data.take stop = s.status ++ (crlf ++ (linesWire s.lines ++ crlf)) := by
  have hdata : data = (s.status ++ (crlf ++ (linesWire s.lines ++ crlf))) ++ s.tail := by
    conv_lhs => rw [s.data_eq]
    simp only [append_assoc]
  conv_lhs => rw [hdata]
  refine take_left' (Eq.trans ?_ s.stop_eq.symm)
  simp only [length_append, length_cons, length_nil]
  omega

theorem findHeaderEnd_stop : findHeaderEnd data = some stop := by
  rw [findHeaderEnd_eq]
  conv_lhs => rw [s.data_eq]
  exact (headerEnd_linesWire _ s.cr_not_mem_status _).trans (congrArg some s.stop_eq.symm)

theorem reply_eq : s.lines.foldlM ReplyState.readHeadLine {} = some s.st.reply := by
  have hreply := ScanState.readLines_reply s.lines { pos := s.status.length + 2 }
  rw [s.read] at hreply
  exact hreply.symm

theorem parse_eq : parseResponseHead (data.take stop) = some h := by
  rw [s.take_stop, parseResponseHead_lines s.lf_not_mem_status s.status_ne, s.status_eq,
    bind_some, s.reply_eq]
  exact s.head_eq

end RegularScan

theorem scanRegularHead_cases (data : Bytes) :
    scanRegularHead data = none ∨
      (scanRegularHead data = some .incomplete ∧ findHeaderEnd data = none) ∨
      ∃ stop h cuts, scanRegularHead data = some (.head stop h cuts) ∧
        Nonempty (RegularScan data stop h cuts) := by
  rw [scanRegularHead]
  obtain ⟨status, rest, hdata, hline, hend⟩ | ⟨hunended, hend⟩ | hend := lineEnd_cases data 0
  · rw [hend]
    rw [drop_zero] at hdata
    have htake : data.take (0 + status.length) = status := by rw [hdata]; simp
    have hcr : cr ∉ status := fun hb => absurd (hline cr hb) (by decide)
    dsimp only
    rw [htake, zero_add]
    cases hparse : parseStatusLine status with
    | none => exact .inl rfl
    | some code =>
      have hne : status ≠ [] := by rintro rfl; cases hparse
      have hrest : data.drop (status.length + 2) = rest := by rw [hdata]; simp
      have hrun := scanLoop_spec data { pos := status.length + 2 }
      simp only [hrest] at hrun
      simp only [bind_eq_bind, bind_some]
      cases hloop : (scanLoop data).run { pos := status.length + 2 } with
      | irregular => exact .inl rfl
      | incomplete =>
        rw [hloop] at hrun
        obtain ⟨hnone, hblank⟩ := hrun
        refine .inr (.inl ⟨rfl, ?_⟩)
        rw [findHeaderEnd_eq, hdata, headerEnd_line hcr hblank, hnone]
        rfl
      | blank st =>
        rw [hloop] at hrun
        obtain ⟨ls, tail, hls, hpos, hread⟩ := hrun
        dsimp only
        cases hhead : st.reply.head code.1 code.2 with
        | none => exact .inl rfl
        | some h =>
          refine .inr (.inr ⟨_, h, _, rfl, ⟨⟨status, ls, tail, code.1, code.2, st, hne, hline,
            hparse, ?_, ?_, hread, hhead, rfl⟩⟩⟩)
          · rw [hdata, hls]
          · rw [hpos]
  · rw [hend]
    exact .inr (.inl ⟨rfl, by rw [findHeaderEnd_eq]; exact hunended.headerEnd_eq⟩)
  · rw [hend]
    exact .inl rfl

/-- The answer of a scan, without its cuts. -/
def HeadScan.withoutCuts : HeadScan → HeadScan
  | .head stop h _ => .head stop h none
  | scan => scan

theorem readResponseHead_withoutCuts (data : Bytes) :
    (readResponseHead data).withoutCuts = readResponseHead data := by
  rw [readResponseHead]
  split
  · rfl
  · split <;> rfl

theorem scanResponseHead_withoutCuts (data : Bytes) :
    (scanResponseHead data).withoutCuts = readResponseHead data := by
  rw [scanResponseHead]
  obtain hscan | ⟨hscan, hnone⟩ | ⟨stop, h, cuts, hscan, ⟨s⟩⟩ := scanRegularHead_cases data
  · rw [hscan]
    exact readResponseHead_withoutCuts data
  · rw [hscan, readResponseHead, hnone]
    rfl
  · rw [hscan, readResponseHead, s.findHeaderEnd_stop]
    simp [HeadScan.withoutCuts, s.parse_eq]

theorem regularScan_of_cuts {data : Bytes} {stop : ℕ} {h : ResponseHead} {cuts : ResponseCuts}
    (hscan : scanResponseHead data = .head stop h (some cuts)) :
    Nonempty (RegularScan data stop h (some cuts)) := by
  rw [scanResponseHead] at hscan
  obtain hregular | ⟨hregular, -⟩ | ⟨stop', h', cuts', hregular, hs⟩ := scanRegularHead_cases data
  · rw [hregular] at hscan
    have hcuts := readResponseHead_withoutCuts data
    dsimp only at hscan
    rw [hscan] at hcuts
    cases hcuts
  · rw [hregular] at hscan
    cases hscan
  · rw [hregular] at hscan
    cases hscan
    exact hs

end Portail.Http
