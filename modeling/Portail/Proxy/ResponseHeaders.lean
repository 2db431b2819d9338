import Portail.Http.ResponseLines
import Portail.Lib.Splice

/-!
# The response head sent to the client

`sanitize_response_headers` copies a head without its connection-level lines and with
one canonical Content-Length, either line by line or around the cuts that the scan
recorded. Both write the lines `sanitizeLines` keeps.
-/

namespace Portail.Proxy

open Lib Http List

/-- The head's own Content-Length, even where no body follows. -/
def contentLengthOf (h : ResponseHead) : Option ℕ :=
  match h.body with
  | .length n => some n
  | .chunked | .close => none

/-- The Content-Length line, replaced by its canonical form or left out. -/
def putLength (raw : Bytes) (keepLength : Bool) (line : (ℕ × ℕ) × (ℕ × ℕ)) : Cut UInt8 :=
  let ((s, e), (ds, de)) := line
  ⟨s, e, if keepLength then bytes "Content-Length: " ++ slice raw ds de ++ crlf else []⟩

/-- The copy over recorded cuts, up to the blank line. -/
def copyAroundCuts (raw : Bytes) (keepLength : Bool) (cuts : ResponseCuts) : Bytes :=
  let st := mergeCopy raw (cuts.strip.spans.map spanCut)
    (cuts.length.toList.map (putLength raw keepLength)) (0, [])
  st.2 ++ slice raw st.1 (raw.length - 2)

/-- One line: the length still to be written, and the copy so far. -/
def sanitizeLine (st : Option ℕ × Bytes) (line : Bytes) : Option ℕ × Bytes :=
  match memchr colon line with
  | some p =>
    if eqIgnoreAsciiCase (line.take p) (bytes "content-length") then
      match st.1 with
      | some n => (none, st.2 ++ (bytes "Content-Length: " ++ toDecimal n ++ crlf))
      | none => st
    else if isHopByHopResponseHeader (line.take p) then st
    else (st.1, st.2 ++ (line ++ crlf))
  | none => (st.1, st.2 ++ (line ++ crlf))

/-- The copy line by line, up to the blank line. -/
def copyLinesSanitized (raw : Bytes) (contentLength : Option ℕ) : Bytes :=
  match headerLines raw with
  | [] => []
  | statusLine :: lines => (lines.foldl sanitizeLine (contentLength, statusLine ++ crlf)).2

def sanitizeResponseHeaders (raw : Bytes) (contentLength : Option ℕ) (cuts : Option ResponseCuts)
    (clientClose : Bool) : Bytes :=
  let copy := match cuts with
    | some cuts => copyAroundCuts raw contentLength.isSome cuts
    | none => copyLinesSanitized raw contentLength
  copy ++ (if clientClose then bytes "Connection: close\r\n" else []) ++ crlf

def lengthLine (n : ℕ) : HeadLine where
  name := bytes "Content-Length"
  value := sp :: toDecimal n
  name_token := by decide
  value_line := by
    have hdigit : ∀ b : UInt8, isAsciiDigit b = true → isLineByte b = true :=
      forall_octet (by decide +kernel)
    intro b hb
    rcases mem_cons.mp hb with rfl | hb
    · decide
    · exact hdigit b (toDecimal_digit hb)

theorem lengthLine_wire (n : ℕ) :
    (lengthLine n).wire = bytes "Content-Length: " ++ toDecimal n ++ crlf := by
  have hname : bytes "Content-Length: " = bytes "Content-Length" ++ [colon, sp] := by decide
  rw [hname]
  simp [HeadLine.wire, HeadLine.line, lengthLine]

/-- Every line with whether a Content-Length line came before it. -/
def marked : Bool → List HeadLine → List (HeadLine × Bool)
  | _, [] => []
  | seen, l :: ls => (l, seen) :: marked (seen || l.isLength) ls

def sanitizeOf (contentLength : Option ℕ) (s : HeadLine × Bool) : Option HeadLine :=
  if s.1.isLength then if s.2 then none else contentLength.map lengthLine
  else if s.1.isHopByHop then none
  else some s.1

def sanitizeLines (contentLength : Option ℕ) (ls : List HeadLine) : List HeadLine :=
  (marked false ls).filterMap (sanitizeOf contentLength)

theorem sanitizeLine_line (l : HeadLine) (seen : Bool) (contentLength : Option ℕ) (out : Bytes) :
    sanitizeLine (if seen then none else contentLength, out) l.line =
      (if seen || l.isLength then none else contentLength,
        out ++ linesWire (sanitizeOf contentLength (l, seen)).toList) := by
  have hname : eqIgnoreAsciiCase l.name (bytes "content-length") = l.isLength := rfl
  have hhop : isHopByHopResponseHeader l.name = l.isHopByHop := rfl
  rw [sanitizeLine, l.memchr_colon]
  simp only [l.take_name, hname, hhop, sanitizeOf]
  cases hlength : l.isLength with
  | true =>
    cases seen with
    | true => simp
    | false => cases contentLength <;> simp [lengthLine_wire]
  | false => cases l.isHopByHop <;> simp [HeadLine.wire]

theorem sanitizeLine_lines (contentLength : Option ℕ) (ls : List HeadLine) (seen : Bool)
    (out : Bytes) :
    ((ls.map HeadLine.line).foldl sanitizeLine (if seen then none else contentLength, out)).2 =
      out ++ linesWire ((marked seen ls).filterMap (sanitizeOf contentLength)) := by
  induction ls generalizing seen out with
  | nil => simp [marked]
  | cons l ls ih =>
    rw [map_cons, foldl_cons, sanitizeLine_line, ih, marked, append_assoc, ← linesWire_append]
    congr 2
    cases hline : sanitizeOf contentLength (l, seen) <;> simp [hline]

theorem copyLinesSanitized_eq {raw status : Bytes} {ls : List HeadLine}
    (hraw : headerLines raw = status :: ls.map HeadLine.line) (contentLength : Option ℕ) :
    copyLinesSanitized raw contentLength =
      status ++ (crlf ++ linesWire (sanitizeLines contentLength ls)) := by
  rw [copyLinesSanitized, hraw]
  have hlines := sanitizeLine_lines contentLength ls false (status ++ crlf)
  rw [append_assoc] at hlines
  exact hlines

section

/-- The lines whose spans the scan records to strip. -/
def hopEdit (s : HeadLine × Bool) : Option Bytes :=
  if (if s.1.isLength then s.2 else s.1.isHopByHop) then some [] else none

/-- The digits the canonical line carries. -/
def canonicalDigits (l : HeadLine) : Bytes :=
  let digits := trimOws l.value
  digits.drop (min (digits.takeWhile (· == 0x30)).length (digits.length - 1))

def lengthEdit (keepLength : Bool) (s : HeadLine × Bool) : Option Bytes :=
  if s.1.isLength && !s.2 then
    some (if keepLength then bytes "Content-Length: " ++ canonicalDigits s.1 ++ crlf else [])
  else none

variable {raw : Bytes}

variable {l : HeadLine} {rest : Bytes} {st next : ScanState} {ls : List HeadLine}
  {contentLength : Option ℕ} {s : HeadLine × Bool}

theorem slice_digitSpan {valueAt : ℕ} (hdrop : raw.drop valueAt = l.value ++ rest)
    (hlen : valueAt + l.value.length < 2 ^ 32) :
    slice raw (ScanState.digitSpan l.value valueAt).1 (ScanState.digitSpan l.value valueAt).2 =
      canonicalDigits l := by
  obtain ⟨r, hr⟩ := trimOws_split l.value
  rw [canonicalDigits]
  have hlength := congrArg List.length hr
  rw [length_append, length_append] at hlength
  rw [hr, append_assoc, append_assoc] at hdrop
  have hdigits := drop_of_drop hdrop rfl
  simp only [ScanState.digitSpan]
  generalize trimOws l.value = digits at *
  generalize (l.value.takeWhile isOws).length = ows at *
  generalize (digits.takeWhile (· == 0x30)).length = zeros at *
  rw [asU32_of_lt (by omega), asU32_of_lt (by omega)]
  rw [← take_append_drop (min zeros (digits.length - 1)) digits, append_assoc] at hdigits
  refine slice_of_drop (drop_of_drop hdigits ?_) ?_
  · rw [length_take]
    omega
  · rw [length_drop]
    omega

/-- The cuts a state of the scan stands for: lines to strip and the Content-Length line. -/
def stripCuts (st : ScanState) : List (Cut UInt8) := st.cuts.strip.spans.map spanCut

def lengthCuts (raw : Bytes) (keepLength : Bool) (st : ScanState) : List (Cut UInt8) :=
  st.cuts.length.toList.map (putLength raw keepLength)

/-- The cut of a line that an edit replaces. -/
def lineCut (pos : ℕ) (l : HeadLine) (edit : Option Bytes) : List (Cut UInt8) :=
  (edit.map fun text => ⟨pos, pos + l.wire.length, text⟩).toList

/-- A Content-Length line has been cut as soon as one was read. -/
theorem readHeadLine_seen (hread : st.readHeadLine l = some next)
    (hfirst : st.cuts.length.isSome = st.reply.contentLength.isSome) :
    next.cuts.length.isSome = next.reply.contentLength.isSome ∧
      next.reply.contentLength.isSome = (st.reply.contentLength.isSome || l.isLength) := by
  obtain ⟨hlength, -, hsome, hcuts⟩ | ⟨hsame, hseen, hcuts⟩ := ScanState.readHeadLine_cases hread
  · rw [hcuts, hsome, hlength, Bool.or_true]
    exact ⟨rfl, rfl⟩
  · have hlengths : next.cuts.length = st.cuts.length := by
      rw [hcuts]
      split <;> rfl
    refine ⟨by rw [hlengths, hsame, hfirst], ?_⟩
    cases hlength : l.isLength with
    | false => rw [hsame, Bool.or_false]
    | true => rw [hsame, hseen hlength, Bool.true_or]

theorem readHeadLine_cuts (keepLength : Bool)
    (hread : st.readHeadLine l = some next) (hdrop : raw.drop st.pos = l.wire ++ rest)
    (hlen : st.pos + l.wire.length < 2 ^ 32) (hclear : next.cuts.strip.needsSlowPath = false)
    (hfirst : st.cuts.length.isSome = st.reply.contentLength.isSome) :
    let s := (l, st.reply.contentLength.isSome)
    st.cuts.strip.needsSlowPath = false ∧
      stripCuts next = stripCuts st ++ lineCut st.pos l (hopEdit s) ∧
      lengthCuts raw keepLength next =
        lengthCuts raw keepLength st ++ lineCut st.pos l (lengthEdit keepLength s) := by
  have hpos : asU32 st.pos = st.pos := asU32_of_lt (by omega)
  have hstop : asU32 (st.pos + l.wire.length) = st.pos + l.wire.length := asU32_of_lt hlen
  obtain ⟨hlength, hnone, -, hcuts⟩ | ⟨-, hseen, hcuts⟩ :=
    ScanState.readHeadLine_cases hread
  · have hvalue : raw.drop (st.pos + l.name.length + 1) = l.value ++ (crlf ++ rest) := by
      rw [HeadLine.wire, HeadLine.line, append_assoc, append_assoc] at hdrop
      exact drop_succ_of_drop (drop_of_drop hdrop rfl)
    have hdigits := slice_digitSpan hvalue (by rw [l.wire_length] at hlen; omega)
    have hempty : st.cuts.length = none := by simpa [hnone] using hfirst
    rw [hcuts] at hclear
    refine ⟨hclear, ?_, ?_⟩
    · simp [stripCuts, lineCut, hopEdit, hcuts, hlength, hnone]
    · simp [lengthCuts, lineCut, lengthEdit, putLength, hcuts, hlength, hnone, hempty, hpos, hstop,
        hdigits]
  · have hlengthEdit : lengthEdit keepLength (l, st.reply.contentLength.isSome) = none := by
      cases hlength : l.isLength with
      | false => simp [lengthEdit, hlength]
      | true => simp [lengthEdit, hseen hlength]
    have hhopEdit : hopEdit (l, st.reply.contentLength.isSome) =
        if l.isLength || l.isHopByHop then some [] else none := by
      cases hlength : l.isLength with
      | false => simp [hopEdit, hlength]
      | true => simp [hopEdit, hlength, hseen hlength]
    have hlengths : next.cuts.length = st.cuts.length := by
      rw [hcuts]
      split <;> rfl
    have hstrip : st.cuts.strip.needsSlowPath = false ∧
        stripCuts next = stripCuts st ++
          lineCut st.pos l (if l.isLength || l.isHopByHop then some [] else none) := by
      split_ifs at hcuts ⊢ with hcut
      · rw [hcuts] at hclear
        obtain ⟨hclear, hspans⟩ := StripSpans.push_spec hclear
        exact ⟨hclear, by simp [stripCuts, hcuts, hspans, lineCut, spanCut, hpos, hstop]⟩
      · exact ⟨hcuts ▸ hclear, by simp [stripCuts, hcuts, lineCut]⟩
    refine ⟨hstrip.1, by rw [hhopEdit]; exact hstrip.2, ?_⟩
    simp [lengthCuts, hlengths, hlengthEdit, lineCut]

theorem readLines_cuts {last : ScanState} (keepLength : Bool)
    (hread : ls.foldlM ScanState.readHeadLine st = some last)
    (hdrop : raw.drop st.pos = linesWire ls ++ rest)
    (hlen : st.pos + (linesWire ls).length < 2 ^ 32)
    (hclear : last.cuts.strip.needsSlowPath = false)
    (hfirst : st.cuts.length.isSome = st.reply.contentLength.isSome) :
    let ss := marked st.reply.contentLength.isSome ls
    st.cuts.strip.needsSlowPath = false ∧
      stripCuts last = stripCuts st ++ cutsAt (HeadLine.wire ·.1) hopEdit st.pos ss ∧
      lengthCuts raw keepLength last =
        lengthCuts raw keepLength st ++ cutsAt (HeadLine.wire ·.1) (lengthEdit keepLength)
          st.pos ss := by
  induction ls generalizing st with
  | nil =>
    cases hread
    exact ⟨hclear, by simp [marked, cutsAt], by simp [marked, cutsAt]⟩
  | cons l ls ih =>
    rw [foldlM_cons, Option.bind_eq_bind, Option.bind_eq_some_iff] at hread
    obtain ⟨next, hnext, hread⟩ := hread
    have hpos := ScanState.readHeadLine_pos hnext
    obtain ⟨hfirst', hseen⟩ := readHeadLine_seen hnext hfirst
    rw [linesWire_cons, append_assoc] at hdrop
    rw [linesWire_cons, length_append, ← add_assoc] at hlen
    obtain ⟨hclear', hstrip', hlength'⟩ :=
      ih hread (drop_of_drop hdrop hpos) (by rw [hpos]; exact hlen) hfirst'
    obtain ⟨hclear, hstrip, hlength⟩ :=
      readHeadLine_cuts keepLength hnext hdrop (by omega) hclear' hfirst
    rw [hpos, hseen] at hstrip' hlength'
    refine ⟨hclear, ?_, ?_⟩
    · rw [hstrip', hstrip, marked, cutsAt_cons, append_assoc]
      rfl
    · rw [hlength', hlength, marked, cutsAt_cons, append_assoc]
      rfl

theorem hop_disjoint (keepLength : Bool) (s : HeadLine × Bool) :
    hopEdit s = none ∨ lengthEdit keepLength s = none := by
  cases hlength : s.1.isLength <;> cases hseen : s.2 <;> simp [hopEdit, lengthEdit, hlength, hseen]

theorem mem_of_mem_marked {seen : Bool} (h : s ∈ marked seen ls) : s.1 ∈ ls := by
  induction ls generalizing seen with
  | nil => cases h
  | cons l ls ih =>
    rcases mem_cons.mp h with rfl | h
    · exact mem_cons_self
    · exact mem_cons_of_mem _ (ih h)

theorem marked_wire (seen : Bool) (ls : List HeadLine) :
    (marked seen ls).flatMap (HeadLine.wire ·.1) = linesWire ls := by
  induction ls generalizing seen with
  | nil => rfl
  | cons l ls ih => rw [marked, flatMap_cons, ih, linesWire_cons]

/-- A length line whose digits say `n` is cut down to the canonical line of `n`. -/
theorem canonicalDigits_eq {n : ℕ} (h : parseDigits (trimOws l.value) = some n) :
    canonicalDigits l = toDecimal n := by
  obtain ⟨hne, hdigits, rfl, -⟩ := readDecimal_eq_some.mp h
  exact (toDecimal_decimalValue hne hdigits).symm

/-- The edits leave of a line what the sanitizer makes of it. -/
theorem edit_eq
    (h : ∀ n, contentLength = some n → s.1.isLength = true →
      parseDigits (trimOws s.1.value) = some n) :
    ((hopEdit s).or (lengthEdit contentLength.isSome s)).getD s.1.wire =
      linesWire (sanitizeOf contentLength s).toList := by
  cases hlength : s.1.isLength with
  | false => cases hhop : s.1.isHopByHop <;> simp [hopEdit, lengthEdit, sanitizeOf, hlength, hhop]
  | true =>
    cases hseen : s.2 with
    | true => simp [hopEdit, sanitizeOf, hlength, hseen]
    | false =>
      cases contentLength with
      | none => simp [hopEdit, lengthEdit, sanitizeOf, hlength, hseen]
      | some n =>
        simp [hopEdit, lengthEdit, sanitizeOf, hlength, hseen, lengthLine_wire,
          canonicalDigits_eq (h n rfl hlength)]

theorem linesWire_filterMap {σ : Type*} (f : σ → Option HeadLine) (ss : List σ) :
    linesWire (ss.filterMap f) = ss.flatMap fun s => linesWire (f s).toList := by
  induction ss with
  | nil => rfl
  | cons s ss ih =>
    cases hs : f s <;> simp [hs, ih]

theorem contentLengthOf_some {st : ReplyState} {code : ℕ} {isHttp10 : Bool} {h : ResponseHead}
    (hhead : st.head code isHttp10 = some h) {n : ℕ} (hn : contentLengthOf h = some n) :
    st.contentLength = some n := by
  unfold ReplyState.head at hhead
  split_ifs at hhead with hcoding hchunked
  · cases hhead
    cases hn
  · cases hhead
    cases hlength : st.contentLength with
    | none => simp [contentLengthOf, hlength] at hn
    | some m => simpa [contentLengthOf, hlength] using hn

theorem copyAroundCuts_eq {raw status : Bytes}
    (hraw : raw = status ++ (crlf ++ (linesWire ls ++ crlf)))
    (hread : ls.foldlM ScanState.readHeadLine { pos := status.length + 2 } = some st)
    (hclear : st.cuts.strip.needsSlowPath = false) (hlen : raw.length < 2 ^ 32)
    (hlength : ∀ n, contentLength = some n → st.reply.contentLength = some n) :
    copyAroundCuts raw contentLength.isSome st.cuts =
      status ++ (crlf ++ linesWire (sanitizeLines contentLength ls)) := by
  have hstart : raw.drop (status.length + 2) = linesWire ls ++ crlf := by
    rw [hraw, ← append_assoc]
    exact drop_left' (by simp)
  have hstop : raw.length - 2 = status.length + 2 + (linesWire ls).length := by
    rw [hraw]
    simp only [length_append, length_cons, length_nil]
    omega
  have hfront : slice raw 0 (status.length + 2) = status ++ crlf := by
    rw [hraw, ← append_assoc]
    exact take_left' (by simp)
  have hreply := ScanState.readLines_reply ls { pos := status.length + 2 }
  rw [hread] at hreply
  obtain ⟨-, hlines⟩ := ReplyState.readLines_length hreply.symm
  obtain ⟨-, hstrips, hlengths⟩ := readLines_cuts contentLength.isSome hread hstart
    (by dsimp only; omega) hclear rfl
  have hmerge : mergeCuts (stripCuts st) (lengthCuts raw contentLength.isSome st) =
      cutsAt (HeadLine.wire ·.1) (fun s => (hopEdit s).or (lengthEdit contentLength.isSome s))
        (status.length + 2) (marked false ls) := by
    rw [hstrips, hlengths]
    exact mergeCuts_cutsAt (fun s => s.1.wire_ne) (fun s _ => hop_disjoint _ s) _
  have hedit : ∀ s ∈ marked false ls,
      ((hopEdit s).or (lengthEdit contentLength.isSome s)).getD s.1.wire =
        linesWire (sanitizeOf contentLength s).toList := by
    intro s hs
    refine edit_eq fun n hn hl => ?_
    rw [hlines s.1 (mem_of_mem_marked hs) hl]
    exact hlength n hn
  rw [← marked_wire false] at hstart hstop
  simp only [stripCuts, lengthCuts] at hmerge
  rw [copyAroundCuts, mergeCopy_eq, hmerge]
  refine (copyCuts_segments _ hstart (Nat.zero_le _) hstop []).trans ?_
  rw [hfront, nil_append, append_assoc, sanitizeLines, linesWire_filterMap, flatMap_congr hedit]

end

section

variable {data : Bytes} {stop : ℕ} {h : ResponseHead}

/-- The copy of a scanned head is the same around its cuts as line by line. -/
theorem copyAroundCuts_scan {cuts : ResponseCuts} (hlen : data.length < 2 ^ 32)
    (hscan : scanResponseHead data = .head stop h (some cuts)) :
    copyAroundCuts (data.take stop) (contentLengthOf h).isSome cuts =
      copyLinesSanitized (data.take stop) (contentLengthOf h) := by
  obtain ⟨s⟩ := regularScan_of_cuts hscan
  have hcuts := s.cuts_eq
  split_ifs at hcuts with hslow
  have hlines : headerLines (data.take stop) = s.status :: s.lines.map HeadLine.line := by
    rw [s.take_stop, headerLines_line s.lf_not_mem_status s.status_ne, headerLines_lines]
  have hcopy := copyAroundCuts_eq s.take_stop s.read (Bool.eq_false_of_not_eq_true hslow)
    (lt_of_le_of_lt (length_take_le' ..) hlen) fun n => contentLengthOf_some s.head_eq
  rw [← Option.some.inj hcuts] at hcopy
  rw [hcopy, copyLinesSanitized_eq hlines]

/-- The one-pass scan answers as `find_header_end` and `parse_response_head` do, and the
sanitizer writes the same head around its cuts as without them. -/
theorem scanResponseHead_twoPass (data : Bytes) (hlen : data.length < 2 ^ 32) :
    (scanResponseHead data).withoutCuts = readResponseHead data ∧
      ∀ stop h cuts, scanResponseHead data = .head stop h (some cuts) → ∀ clientClose,
        sanitizeResponseHeaders (data.take stop) (contentLengthOf h) (some cuts) clientClose =
          sanitizeResponseHeaders (data.take stop) (contentLengthOf h) none clientClose := by
  refine ⟨scanResponseHead_withoutCuts data, fun stop h cuts hscan clientClose => ?_⟩
  simp only [sanitizeResponseHeaders, copyAroundCuts_scan hlen hscan]

/-- A zero-padded length that is repeated, and a connection-level line. -/
def paddedReply : Bytes :=
  bytes "HTTP/1.1 200 OK\r\nContent-Length: 007\r\nTE: x\r\ncontent-length:7\r\n\r\nabc"

def hasCuts : HeadScan → Bool
  | .head _ _ cuts => cuts.isSome
  | _ => false

theorem scanResponseHead_twoPass_padded :
    ∃ stop h cuts, scanResponseHead paddedReply = .head stop h (some cuts) ∧
      (scanResponseHead paddedReply).withoutCuts = readResponseHead paddedReply ∧
      sanitizeResponseHeaders (paddedReply.take stop) (contentLengthOf h) (some cuts) true =
        sanitizeResponseHeaders (paddedReply.take stop) (contentLengthOf h) none true := by
  have hcuts : hasCuts (scanResponseHead paddedReply) = true := by decide +kernel
  obtain ⟨hanswer, hsame⟩ :=
    scanResponseHead_twoPass paddedReply (by decide)
  cases hscan : scanResponseHead paddedReply with
  | head stop h cuts =>
    rw [hscan] at hcuts hanswer
    obtain ⟨cuts, rfl⟩ := Option.isSome_iff_exists.mp hcuts
    exact ⟨stop, h, cuts, rfl, hanswer, hsame stop h cuts hscan true⟩
  | incomplete | malformed => simp [hscan, hasCuts] at hcuts

end
end Portail.Proxy
