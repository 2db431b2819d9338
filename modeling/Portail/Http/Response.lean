import Portail.Http.HeadText
import Portail.Http.RequestParser

/-!
# Response heads

`parse_response_head` reads a whole head line by line. `scan_response_head` finds the
head at the front of a buffer: a regular one in a single pass that also records
where the sanitizer must cut it, any other in two.
-/

namespace Portail.Http

open Lib List

/-- How a response body is delimited. -/
inductive BodyFraming
  | length (n : ℕ)
  | chunked
  | close
  deriving DecidableEq, Repr

structure ResponseHead where
  status : ℕ
  body : BodyFraming
  backendClose : Bool
  deriving DecidableEq, Repr

/-- `HTTP/1.x SP 3DIGIT`, then nothing or SP and a reason: the status and whether the version
is HTTP/1.0. -/
def parseStatusLine (line : Bytes) : Option (ℕ × Bool) :=
  if (bytes "HTTP/1.").isPrefixOf line then
    match line.drop 7 with
    | minor :: space :: d0 :: d1 :: d2 :: reason =>
      if space = sp ∧ 0x31 ≤ d0 ∧ d0 ≤ 0x39 ∧ isAsciiDigit minor ∧ isAsciiDigit d1 ∧
          isAsciiDigit d2 ∧ (reason = [] ∨ reason.head? = some sp) ∧
          reason.all isFieldValueByte then
        some ((d0 - 0x30).toNat * 100 + (d1 - 0x30).toNat * 10 + (d2 - 0x30).toNat, minor == 0x30)
      else none
    | _ => none
  else none

/-- What the lines of a response head say. -/
@[ext] structure ReplyState where
  contentLength : Option ℕ := none
  chunked : Bool := false
  close : Bool := false
  keepAlive : Bool := false
  deriving DecidableEq, Repr

namespace ReplyState

def readTokens (st : ReplyState) (value : Bytes) : ReplyState :=
  let tokens := (value.splitOn comma).map trimOws
  { st with
    close := st.close || tokens.any fun t => eqIgnoreAsciiCase t (bytes "close")
    keepAlive := st.keepAlive || tokens.any fun t => eqIgnoreAsciiCase t (bytes "keep-alive") }

/-- One field; `none` rejects the head. -/
def readField (st : ReplyState) (name value : Bytes) : Option ReplyState :=
  if eqIgnoreAsciiCase name (bytes "content-length") then do
    let n ← parseDigits (trimOws value)
    if st.contentLength.any (· != n) then none else some { st with contentLength := some n }
  else if eqIgnoreAsciiCase name (bytes "transfer-encoding") then
    if st.chunked || !eqIgnoreAsciiCase (trimOws value) (bytes "chunked") then none
    else some { st with chunked := true }
  else if eqIgnoreAsciiCase name (bytes "connection") then some (st.readTokens value)
  else some st

/-- One line of `parse_response_head`. -/
def parseLine (st : ReplyState) (line : Bytes) : Option ReplyState :=
  if (memchr cr line).isSome then none
  else do
    let colonPos ← memchr colon line
    let name := line.take colonPos
    if isToken name then st.readField name (line.drop (colonPos + 1)) else none

def head (st : ReplyState) (status : ℕ) (isHttp10 : Bool) : Option ResponseHead :=
  if st.chunked && isHttp10 then none
  else some
    { status
      body := if st.chunked then .chunked else
        match st.contentLength with
        | some n => .length n
        | none => .close
      backendClose := st.close || (isHttp10 && !st.keepAlive) }

end ReplyState

def parseResponseHead (text : Bytes) : Option ResponseHead :=
  match headerLines text with
  | [] => none
  | first :: lines => do
    let (status, isHttp10) ← parseStatusLine first
    let st ← lines.foldlM ReplyState.parseLine {}
    st.head status isHttp10

inductive LineEnd
  | cr (pos : ℕ)
  | incomplete
  | irregular
  deriving DecidableEq, Repr

/-- One turn of the search for the CR of a line. -/
def lineEndTurn (data : Bytes) (pos : ℕ) : ℕ ⊕ LineEnd :=
  let pos := fieldValueEnd data pos
  match data.drop pos with
  | a :: b :: _ =>
    if a = cr ∧ b = lf then .inr (.cr pos)
    else if a = cr ∨ a = lf then .inr .irregular
    else .inl (pos + 1)
  | _ => .inr .incomplete

def lineEndLoop (data : Bytes) : Loop ℕ LineEnd where
  turn := lineEndTurn data
  measure pos := data.length - pos
  decreases := by
    intro pos next h
    unfold lineEndTurn at h
    dsimp only at h
    split at h
    · next a b rest hdrop =>
      have hlen := congrArg List.length hdrop
      rw [length_drop, length_cons, length_cons] at hlen
      split_ifs at h
      cases h
      rw [fieldValueEnd, scanValue_eq] at *
      omega
    · cases h

def lineEnd (data : Bytes) (pos : ℕ) : LineEnd := (lineEndLoop data).run pos

def isLineByte (b : UInt8) : Bool := b != cr && b != lf

theorem isLineByte_of_value : ∀ b : UInt8, is b .value = true → isLineByte b = true :=
  forall_octet (by decide +kernel)

/-- What ends the text before the next CR or LF of `rest`, which starts at `pos`. -/
def lineEndOf (rest : Bytes) (pos : ℕ) : LineEnd :=
  match rest.dropWhile isLineByte with
  | a :: b :: _ =>
    if a = cr ∧ b = lf then .cr (pos + (rest.takeWhile isLineByte).length) else .irregular
  | _ => .incomplete

theorem lineEndOf_run {v : Bytes} (hv : ∀ b ∈ v, isLineByte b = true) (t : Bytes) (pos : ℕ) :
    lineEndOf (v ++ t) pos = lineEndOf t (pos + v.length) := by
  rw [lineEndOf, lineEndOf, dropWhile_append_of_pos hv, takeWhile_append_of_pos hv,
    length_append, add_assoc]

theorem lineEnd_eq (data : Bytes) (pos : ℕ) : lineEnd data pos = lineEndOf (data.drop pos) pos := by
  rw [lineEnd]
  induction pos using (lineEndLoop data).induct with
  | h pos ih =>
    have hv : ∀ b ∈ (data.drop pos).takeWhile (is · .value), isLineByte b = true :=
      fun b hb => isLineByte_of_value b (mem_takeWhile_imp (p := (is · .value)) hb)
    have hturn : (lineEndLoop data).turn pos = lineEndTurn data pos := rfl
    simp only [lineEndTurn, fieldValueEnd, scanValue_eq] at hturn
    rw [← takeWhile_append_dropWhile (p := (is · .value)) (l := data.drop pos),
      lineEndOf_run hv, dropWhile_eq_drop, drop_drop]
    generalize pos + ((data.drop pos).takeWhile (is · .value)).length = next at hturn ⊢
    split at hturn
    · next a b rest hdrop =>
      rw [hdrop]
      split_ifs at hturn with hcr hirregular
      · obtain ⟨rfl, rfl⟩ := hcr
        rw [(lineEndLoop data).run_exit hturn]
        rfl
      · rw [(lineEndLoop data).run_exit hturn]
        have hline : isLineByte a = false := by rcases hirregular with rfl | rfl <;> rfl
        rw [lineEndOf, dropWhile_cons_of_neg (by simp [hline])]
        simp only [if_neg hcr]
      · have hline : ∀ c ∈ [a], isLineByte c = true := by
          simpa [isLineByte] using not_or.mp hirregular
        rw [(lineEndLoop data).run_again hturn, ih _ hturn, drop_succ_of_drop hdrop]
        exact (lineEndOf_run hline (b :: rest) next).symm
    · next hshort =>
      rw [(lineEndLoop data).run_exit hturn]
      cases hdrop : data.drop next with
      | nil => rfl
      | cons a rest =>
        cases rest with
        | nil => cases ha : isLineByte a <;> simp [lineEndOf, ha]
        | cons b rest => exact absurd hdrop (hshort a b rest)

theorem lineEnd_le {data : Bytes} {pos stop : ℕ} (h : lineEnd data pos = .cr stop) :
    pos ≤ stop := by
  rw [lineEnd_eq, lineEndOf] at h
  split at h
  · split_ifs at h
    cases h
    omega
  · cases h

/-- Where the sanitizer cuts a regular head. -/
structure ResponseCuts where
  strip : StripSpans := .empty
  /-- The first Content-Length line, and its digits past any leading zeros. -/
  length : Option ((ℕ × ℕ) × (ℕ × ℕ)) := none

inductive HeadScan
  | incomplete
  | malformed
  | head (stop : ℕ) (h : ResponseHead) (cuts : Option ResponseCuts)

/-- The connection-level headers a response may not forward, told by their first octet first. -/
def isHopByHopResponseHeader (name : Bytes) : Bool :=
  match name.head?.map toAsciiLowercase with
  | some 0x63 => eqIgnoreAsciiCase name (bytes "connection")
  | some 0x6b => eqIgnoreAsciiCase name (bytes "keep-alive")
  | some 0x70 => eqIgnoreAsciiCase name (bytes "proxy-connection")
  | some 0x74 =>
    eqIgnoreAsciiCase name (bytes "te") || eqIgnoreAsciiCase name (bytes "trailer")
  | some 0x75 => eqIgnoreAsciiCase name (bytes "upgrade")
  | _ => false

/-- The locals of the one-pass scan. -/
structure ScanState where
  pos : ℕ
  reply : ReplyState := {}
  cuts : ResponseCuts := {}

namespace ScanState

def strip (st : ScanState) (start stop : ℕ) : ScanState :=
  { st with cuts := { st.cuts with strip := st.cuts.strip.push start stop } }

/-- Where the digits of a value that starts at `pos` go on past their leading zeros. -/
def digitSpan (value : Bytes) (pos : ℕ) : ℕ × ℕ :=
  let digits := trimOws value
  let first := pos + (value.takeWhile isOws).length
  let zeros := (digits.takeWhile (· == 0x30)).length
  (asU32 (first + min zeros (digits.length - 1)), asU32 (first + digits.length))

/-- A Content-Length line: the first is rewritten, a repeat that agrees with it cut. -/
def readLength (st : ScanState) (value : Bytes) (start valueAt stop : ℕ) : Option ScanState := do
  let n ← parseDigits (trimOws value)
  match st.reply.contentLength with
  | none =>
    some
      { st with
        reply := { st.reply with contentLength := some n }
        cuts := { st.cuts with
          length := some ((asU32 start, asU32 stop), digitSpan value valueAt) } }
  | some seen =>
    if seen != n then none
    else some { st.strip start stop with reply := { st.reply with contentLength := some n } }

/-- One header line from `start`, its value from `valueAt`, ended at `stop`. -/
def readLine (st : ScanState) (name value : Bytes) (start valueAt stop : ℕ) : Option ScanState :=
  if named name 14 0x63 "content-length" then st.readLength value start valueAt stop
  else if named name 17 0x74 "transfer-encoding" then
    if st.reply.chunked || !eqIgnoreAsciiCase (trimOws value) (bytes "chunked") then none
    else some { st with reply := { st.reply with chunked := true } }
  else if named name 10 0x63 "connection" then
    some { st.strip start stop with reply := st.reply.readTokens value }
  else if isHopByHopResponseHeader name then some (st.strip start stop)
  else some st

theorem readLine_pos {st next : ScanState} {name value : Bytes} {start valueAt stop : ℕ}
    (h : st.readLine name value start valueAt stop = some next) : next.pos = st.pos := by
  unfold readLine at h
  split_ifs at h
  · simp only [readLength, Option.bind_eq_bind, Option.bind_eq_some_iff] at h
    obtain ⟨n, -, h⟩ := h
    split at h
    · cases h; rfl
    · split_ifs at h
      cases h; rfl
  all_goals cases h; rfl

end ScanState

/-- How the loop over the lines ends. -/
inductive ScanExit
  | blank (st : ScanState)
  | incomplete
  | irregular

def scanLine (data : Bytes) (st : ScanState) : ScanState ⊕ ScanExit :=
  let start := st.pos
  let name := (data.drop start).takeWhile isTchar
  let colonPos := start + name.length
  match data[colonPos]? with
  | none => .inr .incomplete
  | some c =>
    if c = colon ∧ start < colonPos then
      match lineEnd data (colonPos + 1) with
      | .incomplete => .inr .incomplete
      | .irregular => .inr .irregular
      | .cr crPos =>
        match { st with pos := crPos + 2 }.readLine name (slice data (colonPos + 1) crPos) start
            (colonPos + 1) (crPos + 2) with
        | some next => .inl next
        | none => .inr .irregular
    else .inr .irregular

/-- One turn of the loop over the lines. -/
def scanTurn (data : Bytes) (st : ScanState) : ScanState ⊕ ScanExit :=
  match data.drop st.pos with
  | a :: b :: _ =>
    if a = cr ∧ b = lf then .inr (.blank st)
    else if a = cr ∨ a = lf then .inr .irregular
    else scanLine data st
  | _ => .inr .incomplete

theorem scanLine_pos {data : Bytes} {st next : ScanState} (h : scanLine data st = .inl next) :
    st.pos < next.pos := by
  unfold scanLine at h
  dsimp only at h
  split at h
  · cases h
  · split_ifs at h
    split at h
    · cases h
    · cases h
    · next crPos hend =>
      have hle := lineEnd_le hend
      split at h
      · next next' hread =>
        cases h
        rw [ScanState.readLine_pos hread]
        dsimp only
        omega
      · cases h

def scanLoop (data : Bytes) : Loop ScanState ScanExit where
  turn := scanTurn data
  measure st := data.length - st.pos
  decreases := by
    intro st next h
    unfold scanTurn at h
    split at h
    · next a b rest hdrop =>
      have hlen := congrArg List.length hdrop
      rw [length_drop, length_cons, length_cons] at hlen
      split_ifs at h
      have hpos := scanLine_pos h
      omega
    · cases h

/-- One pass over a regular, well-formed head; `none` for any other. -/
def scanRegularHead (data : Bytes) : Option HeadScan :=
  match lineEnd data 0 with
  | .incomplete => some .incomplete
  | .irregular => none
  | .cr statusEnd => do
    let (status, isHttp10) ← parseStatusLine (data.take statusEnd)
    match (scanLoop data).run { pos := statusEnd + 2 } with
    | .incomplete => some .incomplete
    | .irregular => none
    | .blank st => do
      let head ← st.reply.head status isHttp10
      let cuts := if st.cuts.strip.needsSlowPath then none else some st.cuts
      return .head (st.pos + 2) head cuts

/-- The two passes: `find_header_end`, then `parse_response_head`. -/
def readResponseHead (data : Bytes) : HeadScan :=
  match findHeaderEnd data with
  | none => .incomplete
  | some stop =>
    match parseResponseHead (data.take stop) with
    | some head => .head stop head none
    | none => .malformed

def scanResponseHead (data : Bytes) : HeadScan :=
  match scanRegularHead data with
  | some scan => scan
  | none => readResponseHead data

end Portail.Http
