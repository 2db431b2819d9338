import Portail.Config.Wire
import Portail.Proxy.ModifiedLines
import Portail.Proxy.ResponseHeaders

/-!
# The head sent to the client

A backend's head is sanitized, then edited by a response header modifier. What the
client reads has the status and the body framing of the backend's head
(`clientHead_reframes`).
-/

namespace Portail.Proxy

open Lib Http Routing Config HeadLine ReplyState
open List hiding head

/-- A compiled modifier as the data plane reads it. -/
def modsOf (config : HeaderModifierConfig) : HeaderModifications :=
  ⟨config.add, config.set, config.remove⟩

/-- The head `forward_response_headers` writes for a response that is no accepted upgrade. -/
def clientHead (raw : Bytes) (h : ResponseHead) (cuts : Option ResponseCuts) (clientClose : Bool)
    (mods : Option HeaderModifications) : Bytes :=
  let headers := sanitizeResponseHeaders raw (contentLengthOf h) cuts clientClose
  match mods with
  | some mods => applyResponseHeaderMods headers mods
  | none => headers

/-- A head that `parse_response_head` accepts, line by line. -/
structure ParsedHead (raw : Bytes) (h : ResponseHead) where
  status : Bytes
  lines : List HeadLine
  code : ℕ
  isHttp10 : Bool
  st : ReplyState
  status_ne : status ≠ []
  status_lf : lf ∉ status
  lines_eq : headerLines raw = status :: lines.map line
  status_eq : parseStatusLine status = some (code, isHttp10)
  read : lines.foldlM readHeadLine {} = some st
  head_eq : st.head code isHttp10 = some h

theorem exists_line {line : Bytes} {st next : ReplyState} (hlf : lf ∉ line)
    (h : st.parseLine line = some next) : ∃ l : HeadLine, l.line = line := by
  unfold parseLine at h
  split_ifs at h with hcr
  have hcr' : cr ∉ line := by
    intro hmem
    obtain hnone | ⟨x, y, rfl, hx, hsome⟩ := memchr_cases cr line
    · exact hnone.2 hmem
    · exact hcr (by rw [hsome]; rfl)
  rw [Option.bind_eq_bind, Option.bind_eq_some_iff] at h
  obtain ⟨colonPos, hcolon, h⟩ := h
  dsimp only at h
  split_ifs at h with htoken
  obtain ⟨x, y, rfl, -, rfl⟩ := memchr_eq_some hcolon
  rw [take_left] at htoken
  refine ⟨⟨x, y, htoken, ?_⟩, rfl⟩
  intro b hb
  have hne : b ≠ cr ∧ b ≠ lf := by
    constructor
    · rintro rfl; exact hcr' (by simp [hb])
    · rintro rfl; exact hlf (by simp [hb])
  simpa [isLineByte] using hne

theorem exists_lines {lines : List Bytes} {st last : ReplyState} (hlf : ∀ l ∈ lines, lf ∉ l)
    (h : lines.foldlM parseLine st = some last) :
    ∃ ls : List HeadLine, ls.map line = lines ∧ ls.foldlM readHeadLine st = some last := by
  induction lines generalizing st with
  | nil => exact ⟨[], rfl, h⟩
  | cons line lines ih =>
    rw [foldlM_cons, Option.bind_eq_bind, Option.bind_eq_some_iff] at h
    obtain ⟨next, hnext, h⟩ := h
    obtain ⟨l, rfl⟩ := exists_line (hlf _ (by simp)) hnext
    obtain ⟨ls, rfl, hls⟩ := ih (fun l hl => hlf l (mem_cons_of_mem _ hl)) h
    rw [parseLine_line] at hnext
    exact ⟨l :: ls, rfl, by rw [foldlM_cons, hnext]; exact hls⟩

variable {h : ResponseHead} {l : HeadLine}

theorem exists_parsedHead {raw : Bytes} (hparse : parseResponseHead raw = some h) :
    Nonempty (ParsedHead raw h) := by
  rw [parseResponseHead] at hparse
  cases hlines : headerLines raw with
  | nil => rw [hlines] at hparse; cases hparse
  | cons status lines =>
    rw [hlines] at hparse
    simp only [Option.bind_eq_bind, Option.bind_eq_some_iff] at hparse
    obtain ⟨⟨code, isHttp10⟩, hstatus, st, hread, hhead⟩ := hparse
    have hmem : ∀ l ∈ status :: lines, l ≠ [] ∧ lf ∉ l := by
      intro l hl
      rw [← hlines] at hl
      exact mem_headerLines hl
    obtain ⟨ls, rfl, hls⟩ := exists_lines (fun l hl => (hmem l (by simp [hl])).2) hread
    exact ⟨⟨status, ls, code, isHttp10, st, (hmem status (by simp)).1, (hmem status (by simp)).2,
      hlines, hstatus, hls, hhead⟩⟩

/-- The names that decide how a response is framed and whether its connection stays open. -/
def framingNames : List String := ["content-length", "transfer-encoding", "connection"]

theorem isAmong_framing (l : HeadLine) :
    l.isAmong framingNames = (l.isLength || (l.isCoding || l.isConnection)) := by
  simp [isAmong, framingNames, isLength, isCoding, isConnection]

theorem readLines_framing (ls : List HeadLine) (st : ReplyState) :
    ls.foldlM readHeadLine st = (ls.filter (isAmong · framingNames)).foldlM readHeadLine st := by
  induction ls generalizing st with
  | nil => rfl
  | cons l ls ih =>
    cases hl : l.isAmong framingNames with
    | true =>
      simp only [filter_cons, hl, if_true, foldlM_cons]
      exact congrArg _ (funext ih)
    | false =>
      have hskip : st.readHeadLine l = some st := by
        rw [isAmong_framing, Bool.or_eq_false_iff, Bool.or_eq_false_iff] at hl
        obtain ⟨h1, h2, h3⟩ := hl
        simp only [isLength, isCoding, isConnection, isNamed] at h1 h2 h3
        simp [readHeadLine, readField, h1, h2, h3]
      rw [foldlM_cons, hskip, filter_cons_of_neg (by simp [hl])]
      exact ih st

theorem isLength_of_isCoding (h : l.isCoding = true) : l.isLength = false :=
  eqIgnoreAsciiCase_ne (by decide) h

theorem isConnection_of_isCoding (h : l.isCoding = true) :
    l.isConnection = false := eqIgnoreAsciiCase_ne (by decide) h

variable {ls : List HeadLine} {clientClose isHttp10 : Bool}

/-- The Transfer-Encoding lines of an accepted head: one that says `chunked`, or none. -/
theorem readLines_coding {st last : ReplyState} (h : ls.foldlM readHeadLine st = some last) :
    (last.chunked = st.chunked ∧ ls.filter isCoding = []) ∨
      (st.chunked = false ∧ last.chunked = true ∧ ∃ l, ls.filter isCoding = [l] ∧
        eqIgnoreAsciiCase (trimOws l.value) (bytes "chunked") = true) := by
  induction ls generalizing st with
  | nil =>
    cases h
    exact .inl ⟨rfl, rfl⟩
  | cons l ls ih =>
    rw [foldlM_cons, Option.bind_eq_bind, Option.bind_eq_some_iff] at h
    obtain ⟨next, hnext, h⟩ := h
    have hrest := ih h
    obtain ⟨hl, n, -, -, rfl⟩ | ⟨-, hl, hfirst, hvalue, rfl⟩ | ⟨-, hl, -, rfl⟩ | ⟨-, hl, -, rfl⟩ :=
      readHeadLine_cases hnext
    · have hcoding : l.isCoding = false := by
        rw [Bool.eq_false_iff]
        intro hc
        rw [isLength_of_isCoding hc] at hl
        cases hl
      rw [filter_cons_of_neg (by simp [hcoding])]
      exact hrest
    · rw [filter_cons_of_pos hl]
      obtain ⟨hlast, hnil⟩ | ⟨hagain, -⟩ := hrest
      · exact .inr ⟨hfirst, hlast, l, by rw [hnil], hvalue⟩
      · cases hagain
    · rw [filter_cons_of_neg (by simp [hl])]
      exact hrest
    · rw [filter_cons_of_neg (by simp [hl])]
      exact hrest

/-- A length is read exactly where a line says one. -/
theorem readLines_length_isSome {st last : ReplyState} (h : ls.foldlM readHeadLine st = some last) :
    last.contentLength.isSome = (st.contentLength.isSome || ls.any isLength) := by
  induction ls generalizing st with
  | nil =>
    cases h
    simp
  | cons l ls ih =>
    rw [foldlM_cons, Option.bind_eq_bind, Option.bind_eq_some_iff] at h
    obtain ⟨next, hnext, h⟩ := h
    rw [ih h, any_cons]
    obtain ⟨hl, n, -, -, rfl⟩ | ⟨hl, -, -, -, rfl⟩ | ⟨hl, -, -, rfl⟩ | ⟨hl, -, -, rfl⟩ :=
      readHeadLine_cases hnext
    all_goals simp [hl, readTokens]

/-- The proxy's own announcement. -/
def closeLine : HeadLine := ⟨bytes "Connection", sp :: bytes "close", isToken_connection, by decide⟩

def sanitizedLines (h : ResponseHead) (clientClose : Bool) (ls : List HeadLine) : List HeadLine :=
  sanitizeLines (contentLengthOf h) ls ++ (if clientClose then [closeLine] else [])

theorem lengthLine_isLength (n : ℕ) : (lengthLine n).isLength = true := by
  change eqIgnoreAsciiCase (bytes "Content-Length") (bytes "content-length") = true
  decide

/-- The framing lines the sanitizer leaves: the first length in its canonical form, and the
codings. -/
theorem sanitizeOf_framing (contentLength : Option ℕ) (l : HeadLine) (seen : Bool) :
    (sanitizeOf contentLength (l, seen)).toList.filter (isAmong · framingNames) =
      if l.isLength then if seen then [] else (contentLength.map lengthLine).toList
      else if l.isCoding then [l] else [] := by
  have hcanonical : ∀ n, (lengthLine n).isAmong framingNames = true := fun n => by
    rw [isAmong_framing, lengthLine_isLength, Bool.true_or]
  cases hlength : l.isLength with
  | true => cases seen <;> cases contentLength <;> simp [sanitizeOf, hlength, hcanonical]
  | false =>
    cases hhop : l.isHopByHop with
    | true =>
      have hcoding : l.isCoding = false := by
        rw [Bool.eq_false_iff]
        intro hc
        rw [hop_of_coding hc] at hhop
        cases hhop
      simp [sanitizeOf, hlength, hhop, hcoding]
    | false =>
      have hconnection : l.isConnection = false := by
        rw [Bool.eq_false_iff]
        intro hc
        rw [hop_of_connection hc] at hhop
        cases hhop
      cases hcoding : l.isCoding <;>
        simp [sanitizeOf, hlength, hhop, isAmong_framing, hcoding, hconnection]

theorem sanitizeLines_cons (contentLength : Option ℕ) (l : HeadLine) (ls : List HeadLine)
    (seen : Bool) :
    ((marked seen (l :: ls)).filterMap (sanitizeOf contentLength)).filter
        (isAmong · framingNames) =
      (if l.isLength then if seen then [] else (contentLength.map lengthLine).toList
        else if l.isCoding then [l] else []) ++
      ((marked (seen || l.isLength) ls).filterMap (sanitizeOf contentLength)).filter
        (isAmong · framingNames) := by
  rw [← sanitizeOf_framing, ← filter_append, marked]
  cases hs : sanitizeOf contentLength (l, seen) <;> simp [hs]

theorem sanitizeLines_none (ls : List HeadLine) :
    (sanitizeLines none ls).filter (isAmong · framingNames) = ls.filter isCoding := by
  suffices h : ∀ seen, ((marked seen ls).filterMap (sanitizeOf none)).filter
      (isAmong · framingNames) = ls.filter isCoding from h false
  induction ls with
  | nil => intro; rfl
  | cons l ls ih =>
    intro seen
    rw [sanitizeLines_cons, ih]
    cases hcoding : l.isCoding with
    | true => simp [isLength_of_isCoding hcoding, hcoding]
    | false => simp [hcoding]

theorem sanitizeLines_some (n : ℕ) (hcoding : ls.filter isCoding = [])
    (hlength : ls.any isLength = true) :
    (sanitizeLines (some n) ls).filter (isAmong · framingNames) = [lengthLine n] := by
  suffices h : ∀ seen, ((marked seen ls).filterMap (sanitizeOf (some n))).filter
      (isAmong · framingNames) =
      if !seen && ls.any isLength then [lengthLine n] else [] by
    rw [sanitizeLines, h false, hlength]
    rfl
  clear hlength
  induction ls with
  | nil => intro seen; simp [marked]
  | cons l ls ih =>
    intro seen
    have hl : l.isCoding = false := by
      rw [filter_eq_nil_iff] at hcoding
      simpa using hcoding l (by simp)
    rw [filter_cons_of_neg (by simp [hl])] at hcoding
    rw [sanitizeLines_cons, ih hcoding, any_cons, hl]
    cases l.isLength <;> cases seen <;> simp

/-- The framing lines a body of the given framing needs. -/
def FramedBy (fs : List HeadLine) : BodyFraming → Prop
  | .chunked => ∃ l, fs = [l] ∧ l.isCoding = true ∧
      eqIgnoreAsciiCase (trimOws l.value) (bytes "chunked") = true
  | .length n => fs = [lengthLine n] ∧ n < 2 ^ 64
  | .close => fs = []

/-- What the client's lines must be to frame the body of `h`. -/
def FramesReply (h : ResponseHead) (clientClose : Bool) (ls : List HeadLine) : Prop :=
  ∃ fs, FramedBy fs h.body ∧ ls.filter (isAmong · framingNames) =
    fs ++ (if clientClose then [closeLine] else [])

theorem head_body {st : ReplyState} {code : ℕ} (hhead : st.head code isHttp10 = some h) :
    h.status = code ∧ (st.chunked = true → isHttp10 = false) ∧
      h.body = if st.chunked then .chunked else
        match st.contentLength with
        | some n => .length n
        | none => .close := by
  unfold head at hhead
  by_cases hbad : (st.chunked && isHttp10) = true
  · rw [if_pos hbad] at hhead
    cases hhead
  · rw [if_neg hbad] at hhead
    cases hhead
    refine ⟨rfl, fun hchunked => ?_, rfl⟩
    simpa [hchunked] using hbad

/-- The sanitizer keeps exactly the framing lines the body needs, and announces the close. -/
theorem sanitizedLines_frames {raw : Bytes} (p : ParsedHead raw h)
    (clientClose : Bool) : FramesReply h clientClose (sanitizedLines h clientClose p.lines) := by
  have hclose : (if clientClose then [closeLine] else []).filter (isAmong · framingNames) =
      if clientClose then [closeLine] else [] := by cases clientClose <;> rfl
  obtain ⟨-, -, hbody⟩ := head_body p.head_eq
  refine ⟨(sanitizeLines (contentLengthOf h) p.lines).filter (isAmong · framingNames),
    ?_, by rw [sanitizedLines, filter_append, hclose]⟩
  obtain ⟨hchunked, hnone⟩ | ⟨-, hchunked, l, hone, hvalue⟩ := readLines_coding p.read
  · rw [hchunked] at hbody
    cases hlength : p.st.contentLength with rw [hlength] at hbody
    | none =>
      have hcl : contentLengthOf h = none := by simp [contentLengthOf, hbody]
      rw [hcl, sanitizeLines_none, hbody]
      exact hnone
    | some n =>
      have hcl : contentLengthOf h = some n := by simp [contentLengthOf, hbody]
      have hany : p.lines.any isLength = true := by
        simpa [hlength] using (readLines_length_isSome p.read).symm
      obtain ⟨l, hl, hisLength⟩ := any_eq_true.mp hany
      have hdigits := (readLines_length p.read).2 l hl hisLength
      rw [hlength] at hdigits
      rw [hcl, sanitizeLines_some n hnone hany, hbody]
      exact ⟨rfl, (readDecimal_eq_some.mp hdigits).2.2.2⟩
  · rw [hchunked] at hbody
    have hcl : contentLengthOf h = none := by simp [contentLengthOf, hbody]
    have hl : l.isCoding = true := by
      have hmem : l ∈ p.lines.filter isCoding := by rw [hone]; simp
      exact (mem_filter.mp hmem).2
    rw [hcl, sanitizeLines_none, hbody, hone]
    exact ⟨l, rfl, hl, hvalue⟩

theorem readHeadLine_lengthLine (st : ReplyState) {n : ℕ} (hn : n < 2 ^ 64)
    (hfirst : st.contentLength = none) :
    st.readHeadLine (lengthLine n) = some { st with contentLength := some n } := by
  have hname : eqIgnoreAsciiCase (lengthLine n).name (bytes "content-length") = true :=
    lengthLine_isLength n
  have hows : ∀ b : UInt8, isAsciiDigit b = true → isOws b = false :=
    forall_octet (by decide +kernel)
  have hvalue : trimOws (lengthLine n).value = toDecimal n := by
    change trimOws (sp :: toDecimal n) = _
    rw [trimOws_sp_cons, trimOws_of_trimmed
      (trimmed_of_forall fun b hb => hows b (toDecimal_digit hb))]
  have hdigits : parseDigits (toDecimal n) = some n := readDecimal_toDecimal hn
  simp [readHeadLine, readField, hname, hvalue, hdigits, hfirst]

theorem readHeadLine_coding (st : ReplyState) (hl : l.isCoding = true)
    (hvalue : eqIgnoreAsciiCase (trimOws l.value) (bytes "chunked") = true)
    (hfirst : st.chunked = false) : st.readHeadLine l = some { st with chunked := true } := by
  have hname : eqIgnoreAsciiCase l.name (bytes "content-length") = false := isLength_of_isCoding hl
  have hcoding : eqIgnoreAsciiCase l.name (bytes "transfer-encoding") = true := hl
  simp [readHeadLine, readField, hname, hcoding, hvalue, hfirst]

theorem readHeadLine_closeLine (st : ReplyState) :
    st.readHeadLine closeLine = some { st with close := true } := by
  have htokens : ((closeLine.value.splitOn comma).map trimOws) = [bytes "close"] := by decide
  have hread : st.readHeadLine closeLine = some (st.readTokens closeLine.value) := rfl
  rw [hread, readTokens, htokens]
  have hkeep : eqIgnoreAsciiCase (bytes "close") (bytes "keep-alive") = false := by decide
  simp [hkeep]

/-- Such lines are read as the framing they were written for. -/
theorem FramesReply.read (hframes : FramesReply h clientClose ls) (code : ℕ)
    (hhttp10 : h.body = .chunked → isHttp10 = false) :
    ∃ h', ((ls.foldlM readHeadLine {}).bind fun st => st.head code isHttp10) = some h' ∧
      h'.status = code ∧ h'.body = h.body := by
  obtain ⟨fs, hfs, hls⟩ := hframes
  rw [readLines_framing, hls]
  obtain ⟨status, body, backendClose⟩ := h
  cases body with
  | chunked =>
    obtain ⟨l, rfl, hl, hvalue⟩ := hfs
    have hread := readHeadLine_coding {} hl hvalue rfl
    cases clientClose <;> simp [hread, readHeadLine_closeLine, head, hhttp10 rfl]
  | length n =>
    obtain ⟨rfl, hn⟩ := hfs
    have hread := readHeadLine_lengthLine {} hn rfl
    cases clientClose <;> simp [hread, readHeadLine_closeLine, head]
  | close =>
    obtain rfl := hfs
    cases clientClose <;> simp [readHeadLine_closeLine, head]

/-- The lines that frame such a reply, by what they say. -/
theorem FramesReply.lines (hframes : FramesReply h clientClose ls) :
    ls.filter isConnection = (if clientClose then [closeLine] else []) ∧
      ls.filter isLength = ((contentLengthOf h).map lengthLine).toList ∧
      (ls.filter isCoding ≠ [] → h.body = .chunked) := by
  obtain ⟨fs, hfs, hls⟩ := hframes
  have hfilter {p : HeadLine → Bool} (hp : ∀ l, p l = true → l.isAmong framingNames = true) :
      ls.filter p = fs.filter p ++ (if clientClose then [closeLine] else []).filter p := by
    rw [← filter_append, ← hls, filter_filter]
    refine filter_congr fun l _ => ?_
    cases hl : p l with
    | true => simp [hp l hl]
    | false => simp
  have hclose : closeLine.isConnection = true ∧ closeLine.isLength = false ∧
      closeLine.isCoding = false := by decide
  obtain ⟨hconnection, hlength, hcoding⟩ := hclose
  rw [hfilter fun l hl => by simp [isAmong_framing, hl],
    hfilter fun l hl => by simp [isAmong_framing, hl],
    hfilter fun l hl => by simp [isAmong_framing, hl]]
  obtain ⟨status, body, backendClose⟩ := h
  cases body with
  | chunked =>
    obtain ⟨l, rfl, hl, -⟩ := hfs
    cases clientClose <;> simp [isConnection_of_isCoding hl, isLength_of_isCoding hl, hconnection,
      hlength, contentLengthOf]
  | length n =>
    obtain ⟨rfl, -⟩ := hfs
    have hline : (lengthLine n).isConnection = false ∧ (lengthLine n).isCoding = false := ⟨rfl, rfl⟩
    cases clientClose <;> simp [hline, lengthLine_isLength, hconnection, hlength, hcoding,
      contentLengthOf]
  | close =>
    obtain rfl := hfs
    cases clientClose <;> simp [hconnection, hlength, hcoding, contentLengthOf]

section

variable {raw : Bytes} {h : ResponseHead} {cuts : Option ResponseCuts}

/-- The cuts a head is sanitized around are none, or those of the scan that found it. -/
def CutsFor (raw : Bytes) (h : ResponseHead) (cuts : Option ResponseCuts) : Prop :=
  cuts = none ∨ ∃ data stop, data.length < 2 ^ 32 ∧ raw = data.take stop ∧
    scanResponseHead data = .head stop h cuts

theorem sanitizeResponseHeaders_eq (p : ParsedHead raw h)
    (hcuts : CutsFor raw h cuts) (clientClose : Bool) :
    sanitizeResponseHeaders raw (contentLengthOf h) cuts clientClose =
      p.status ++ (crlf ++ (linesWire (sanitizedLines h clientClose p.lines) ++ crlf)) := by
  have hsame : sanitizeResponseHeaders raw (contentLengthOf h) cuts clientClose =
      sanitizeResponseHeaders raw (contentLengthOf h) none clientClose := by
    obtain rfl | ⟨data, stop, hlen, rfl, hscan⟩ := hcuts
    · rfl
    · cases cuts with
      | none => rfl
      | some cuts => simp only [sanitizeResponseHeaders, copyAroundCuts_scan hlen hscan]
  have hclose : (if clientClose then bytes "Connection: close\r\n" else []) =
      linesWire (if clientClose then [closeLine] else []) := by
    cases clientClose <;> decide
  rw [hsame]
  simp only [sanitizeResponseHeaders, copyLinesSanitized_eq p.lines_eq, hclose, sanitizedLines,
    linesWire_append, append_assoc]

theorem modifiedLines_none (ls : List HeadLine) : modifiedLines none none ls = ls := by
  have hkeep : (fun l => modifyOf none none l) = fun l : HeadLine => some l := rfl
  simp [modifiedLines, hkeep]

theorem clientHead_eq (p : ParsedHead raw h) (hcuts : CutsFor raw h cuts) (clientClose : Bool)
    {mods : Option HeaderModifications} (hmods : ∀ m ∈ mods, ModsOk m) :
    clientHead raw h cuts clientClose mods =
      p.status ++ (crlf ++ (linesWire
        (modifiedLines mods none (sanitizedLines h clientClose p.lines)) ++ crlf)) := by
  simp only [clientHead, sanitizeResponseHeaders_eq p hcuts]
  cases mods with
  | none => rw [modifiedLines_none]
  | some m =>
    dsimp only
    rw [applyResponseHeaderMods, splitFirstLine_line p.status_lf]
    dsimp only
    rw [applyHeaderModsInner_edited, headerLines_lines, editedLines_lines (hmods m rfl),
      blockWire_lines, append_assoc]

theorem not_hop_of_mem_sanitizeLines {contentLength : Option ℕ}
    (hl : l ∈ sanitizeLines contentLength ls) : l.isHopByHop = false := by
  obtain ⟨⟨l₀, seen⟩, -, hs⟩ := mem_filterMap.mp hl
  unfold sanitizeOf at hs
  split_ifs at hs with hlength hseen hhop
  · obtain ⟨n, -, rfl⟩ := Option.map_eq_some_iff.mp hs
    change isHopByHopResponseHeader (bytes "Content-Length") = false
    decide
  · cases hs
    simpa using hhop

end

section

variable {side : Side} {config : HeaderModifierConfig}

theorem modsOk_of_modifierOk (ok : ModifierOk side config) : ModsOk (modsOf config) where
  set_ok h hh := ⟨(ok.set_ok h hh).name_ok.token, (ok.set_ok h hh).value_ok⟩
  add_ok h hh := ⟨(ok.add_ok h hh).name_ok.token, (ok.add_ok h hh).value_ok⟩

theorem ne_of_nameOk {op : Op} {n : Str} (ok : NameOk side op n) {name : String}
    (hname : ∃ f ∈ framing side, eqIgnoreAsciiCase (bytes f) (bytes name) = true) :
    eqIgnoreAsciiCase n.octets (bytes name) = false := by
  obtain ⟨f, hf, heq⟩ := hname
  have hne := ok.not_framing
  rw [isFraming, any_eq_false] at hne
  rw [Bool.eq_false_iff]
  exact fun h => hne f hf (eqIgnoreAsciiCase_trans heq (eqIgnoreAsciiCase_symm h))

/-- A modifier that passes the check names no header that frames the message. -/
theorem untouched_of_modifierOk (ok : ModifierOk side config) {name : String}
    (hname : ∃ f ∈ framing side, eqIgnoreAsciiCase (bytes f) (bytes name) = true) :
    Untouched (modsOf config) name where
  set_ne h hh := ne_of_nameOk (ok.set_ok h hh).name_ok hname
  add_ne h hh := ne_of_nameOk (ok.add_ok h hh).name_ok hname
  remove_ne r hr := ne_of_nameOk (ok.remove_ok r hr) hname

end

/-- The head the client reads has the status and the body framing of the backend's, no
connection-level line but the proxy's own announcement and what the modifier writes, and at
most one length, never beside a coding. -/
theorem clientHead_reframes {raw : Bytes} {h : ResponseHead}
    (hparse : parseResponseHead raw = some h)
    {cuts : Option ResponseCuts} (hcuts : CutsFor raw h cuts) (clientClose : Bool)
    (config : Option HeaderModifierConfig)
    (hconfig : ∀ c ∈ config, checkFilter (.responseHeaderModifier c) = .ok ()) :
    let head := clientHead raw h cuts clientClose (config.map modsOf)
    (∃ h', parseResponseHead head = some h' ∧ h'.status = h.status ∧ h'.body = h.body) ∧
      ∃ (status : Bytes) (ls : List HeadLine), headerLines head = status :: ls.map line ∧
        (∀ l ∈ ls, l.isHopByHop = true → l = closeLine ∨
          ∃ c ∈ config, ∃ e ∈ c.set ++ c.add, headerLine e = some l) ∧
        (ls.filter isLength).length ≤ 1 ∧
        ((∃ l ∈ ls, l.isCoding = true) → ls.filter isLength = []) ∧
        ls.filter isConnection = if clientClose then [closeLine] else [] := by
  obtain ⟨p⟩ := exists_parsedHead hparse
  have hok : ∀ c ∈ config, ModifierOk .response c := fun c hc =>
    checkHeaderModifier_eq_ok.mp (mapError_eq_ok.mp (hconfig c hc))
  have hmods : ∀ m ∈ config.map modsOf, ModsOk m := by
    intro m hm
    obtain ⟨c, hc, rfl⟩ := Option.map_eq_some_iff.mp hm
    exact modsOk_of_modifierOk (hok c hc)
  have huntouched : ∀ m ∈ config.map modsOf, ∀ name ∈ framingNames, Untouched m name := by
    intro m hm name hname
    obtain ⟨c, hc, rfl⟩ := Option.map_eq_some_iff.mp hm
    have hlisted : ∀ name ∈ framingNames, ∃ f ∈ framing .response,
        eqIgnoreAsciiCase (bytes f) (bytes name) = true := by decide
    exact untouched_of_modifierOk (hok c hc) (hlisted name hname)
  intro head
  have hhead : head = _ := clientHead_eq p hcuts clientClose hmods
  have hframes : FramesReply h clientClose
      (modifiedLines (config.map modsOf) none (sanitizedLines h clientClose p.lines)) := by
    obtain ⟨fs, hfs, hls⟩ := sanitizedLines_frames p clientClose
    refine ⟨fs, hfs, ?_⟩
    rw [modifiedLines_untouched huntouched, hls]
  have hlines := headerLines_lines
    (modifiedLines (config.map modsOf) none (sanitizedLines h clientClose p.lines))
  obtain ⟨hstatus, hhttp10, hbody⟩ := head_body p.head_eq
  obtain ⟨hconnection, hlength, hcodings⟩ := hframes.lines
  refine ⟨?_, p.status, _, ?_, ?_, ?_, ?_, hconnection⟩
  · have hchunked : h.body = .chunked → p.isHttp10 = false := by
      intro hb
      refine hhttp10 ?_
      cases hc : p.st.chunked with
      | true => rfl
      | false =>
        rw [hbody, hc] at hb
        cases hl : p.st.contentLength <;> simp [hl] at hb
    obtain ⟨h', hread, hcode, hsame⟩ := hframes.read p.code hchunked
    refine ⟨h', ?_, by rw [hcode, hstatus], hsame⟩
    rw [hhead, parseResponseHead_lines p.status_lf p.status_ne, p.status_eq]
    exact hread
  · rw [hhead, headerLines_line p.status_lf p.status_ne, hlines]
  · intro l hl hhop
    obtain hl | ⟨m, hm, e, he, hline⟩ := mem_modifiedLines hl
    · rcases mem_append.mp hl with hl | hl
      · rw [not_hop_of_mem_sanitizeLines hl] at hhop
        cases hhop
      · cases clientClose with
        | false => cases hl
        | true => exact .inl (mem_singleton.mp hl)
    · obtain ⟨c, hc, rfl⟩ := Option.map_eq_some_iff.mp hm
      exact .inr ⟨c, hc, e, he, hline⟩
  · rw [hlength]
    cases contentLengthOf h <;> simp
  · rintro ⟨l, hl, hcoding⟩
    rw [hlength, contentLengthOf, hcodings (ne_nil_of_mem (mem_filter.mpr ⟨hl, hcoding⟩))]
    rfl

/-- A chunked reply with a length beside it and lines of its connection. -/
def mixedReply : Bytes :=
  bytes ("HTTP/1.1 200 OK\r\nContent-Length: 5\r\nTransfer-Encoding: chunked\r\n" ++
    "Connection: keep-alive\r\nKeep-Alive: 5\r\nServer: x\r\n\r\n")

def serverModifier : HeaderModifierConfig :=
  ⟨[⟨.lit "X-Via", .lit "portail"⟩], [⟨.lit "server", .lit "y"⟩], []⟩

theorem clientHead_reframes_mixed :
    ∃ h, parseResponseHead mixedReply = some h ∧ h.body = .chunked ∧
      ∃ h', parseResponseHead (clientHead mixedReply h none true (some (modsOf serverModifier))) =
        some h' ∧ h'.status = 200 ∧ h'.body = .chunked := by
  have hparse : parseResponseHead mixedReply = some ⟨200, .chunked, false⟩ := by decide +kernel
  have hcheck : ∀ c ∈ some serverModifier, checkFilter (.responseHeaderModifier c) = .ok () := by
    rintro c ⟨⟩
    rfl
  obtain ⟨⟨h', hread, hstatus, hbody⟩, -⟩ :=
    clientHead_reframes hparse (.inl rfl) true (some serverModifier) hcheck
  exact ⟨_, hparse, rfl, h', hread, hstatus, hbody⟩

end Portail.Proxy
