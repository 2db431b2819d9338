import Portail.Lib.Utf8
import Portail.Http.Scanners

/-!
# The request-head parser

`extract_routing_info`: one pass over the head that extracts what routing and
forwarding need, records the lines forwarding must cut, and flags every head a
lenient backend could read differently. Text slices are byte strings; `pathAt`
is where the path slice lies in the buffer.
-/

namespace Portail.Http

open Lib

/-- `n as u32`. -/
def asU32 (n : ℕ) : ℕ := n % 2 ^ 32

theorem asU32_of_lt {n : ℕ} (h : n < 2 ^ 32) : asU32 n = n := Nat.mod_eq_of_lt h

def maxStripSpans : ℕ := 8

/-- Spans of the lines to strip, in the order they were met. -/
@[ext] structure StripSpans where
  spans : List (ℕ × ℕ)
  needsSlowPath : Bool
  len_le : spans.length ≤ maxStripSpans

namespace StripSpans

def empty : StripSpans := ⟨[], false, Nat.zero_le _⟩

def push (s : StripSpans) (start stop : ℕ) : StripSpans :=
  if h : s.spans.length < maxStripSpans then
    ⟨s.spans ++ [(asU32 start, asU32 stop)], s.needsSlowPath, by simpa using h⟩
  else { s with needsSlowPath := true }

/-- `needs_slow_path |= flag`. -/
def orSlowPath (s : StripSpans) (flag : Bool) : StripSpans :=
  { s with needsSlowPath := s.needsSlowPath || flag }

/-- A push that leaves the spans usable has recorded its own. -/
theorem push_spec {s : StripSpans} {start stop : ℕ}
    (h : (s.push start stop).needsSlowPath = false) :
    s.needsSlowPath = false ∧
      (s.push start stop).spans = s.spans ++ [(asU32 start, asU32 stop)] := by
  unfold push at h ⊢
  split at h
  · next hroom => rw [dif_pos hroom]; exact ⟨h, rfl⟩
  · cases h

end StripSpans

inductive ParseError
  | malformedRequestLine
  | nonUtf8RequestLine
  | missingHost
  | nonAsciiHost
  deriving DecidableEq, Repr

def ParseError.message : ParseError → String
  | malformedRequestLine => "Malformed HTTP request line"
  | nonUtf8RequestLine => "Non-UTF8 data in HTTP request line"
  | missingHost => "Missing required Host header in HTTP/1.1 request"
  | nonAsciiHost => "Non-ASCII Host"

/-- What routing and forwarding read of a request. -/
@[ext] structure HttpRequestInfo where
  method : Bytes
  host : Bytes
  path : Bytes
  /-- Offset of `path` in the buffer; `none` for the static `/`. -/
  pathAt : Option ℕ
  queryString : Bytes
  keepalive : Bool
  headerData : Bytes
  headLen : ℕ
  contentLength : Option ℕ
  isChunked : Bool
  isUpgrade : Bool
  headerViolation : Bool
  stripSpans : StripSpans
  upgradeSpan : Option (ℕ × ℕ)
  expectContinue : Bool

/-- The header names the parser acts on. -/
inductive FieldName
  | host
  | contentLength
  | transferEncoding
  | upgrade
  | connection
  | expect
  | keepAlive
  | proxyConnection
  | te
  | trailer
  | http2Settings
  | forwardingClaim
  | other
  deriving DecidableEq, Repr

def fieldName (name : Bytes) : FieldName :=
  if named name 4 0x68 "host" then .host
  else if named name 14 0x63 "content-length" then .contentLength
  else if named name 17 0x74 "transfer-encoding" then .transferEncoding
  else if named name 7 0x75 "upgrade" then .upgrade
  else if named name 10 0x63 "connection" then .connection
  else if named name 6 0x65 "expect" then .expect
  else if named name 10 0x6b "keep-alive" then .keepAlive
  else if named name 16 0x70 "proxy-connection" then .proxyConnection
  else if named name 2 0x74 "te" then .te
  else if named name 7 0x74 "trailer" then .trailer
  else if named name 14 0x68 "http2-settings" then .http2Settings
  else if isForwardingClaim name then .forwardingClaim
  else .other

inductive LineKind
  | keep
  | strip
  | upgrade
  deriving DecidableEq, Repr

/-- The locals of the header loop. -/
@[ext] structure HeadState where
  violation : Bool
  pos : ℕ
  host : Option Bytes := none
  explicitKeepalive : Option Bool := none
  contentLength : Option ℕ := none
  isChunked : Bool := false
  hasUpgradeHeader : Bool := false
  offersH2cUpgrade : Bool := false
  connectionHasUpgrade : Bool := false
  stripSpans : StripSpans := .empty
  upgradeSpan : Option (ℕ × ℕ) := none
  expectContinue : Bool := false
  terminated : Bool := false

namespace HeadState

/-- Headers whose nomination by Connection is refused. -/
def pinnedNames : List String := ["content-length", "transfer-encoding", "host"]

def isPinned (token : Bytes) : Bool := pinnedNames.any fun n => eqIgnoreAsciiCase token (bytes n)

/-- One token of a Connection value. -/
def readConnectionToken (st : HeadState) (token : Bytes) : HeadState :=
  if eqIgnoreAsciiCase token (bytes "close") then { st with explicitKeepalive := some false }
  else if eqIgnoreAsciiCase token (bytes "keep-alive") then
    { st with explicitKeepalive := some true }
  else if eqIgnoreAsciiCase token (bytes "upgrade") then { st with connectionHasUpgrade := true }
  else if isPinned token then { st with violation := true }
  else if !token.isEmpty && !eqIgnoreAsciiCase token (bytes "http2-settings") then
    { st with stripSpans := st.stripSpans.orSlowPath true }
  else st

/-- The effect of one header line on the locals, and what forwarding does with the line. -/
def readField (http10 : Bool) (st : HeadState) (name value : Bytes) : HeadState × LineKind :=
  match fieldName name with
  | .host =>
    let value := trimOws value
    match splitHost value with
    | some h =>
      if st.host.isNone then ({ st with host := some (value.take h) }, .keep)
      else ({ st with violation := true }, .keep)
    | none => ({ st with violation := true }, .keep)
  | .contentLength =>
    match parseDigits (trimOws value) with
    | some n =>
      if st.contentLength.isNone then ({ st with contentLength := some n }, .keep)
      else ({ st with violation := true }, .keep)
    | none => ({ st with violation := true }, .keep)
  | .transferEncoding =>
    if http10 || st.isChunked || !eqIgnoreAsciiCase (trimOws value) (bytes "chunked") then
      ({ st with violation := true }, .keep)
    else ({ st with isChunked := true }, .keep)
  | .upgrade =>
    if offersH2c value then ({ st with offersH2cUpgrade := true }, .strip)
    else
      ({ st with
          stripSpans := st.stripSpans.orSlowPath st.hasUpgradeHeader
          hasUpgradeHeader := true }, .upgrade)
  | .connection =>
    ((value.splitOn comma).foldl (fun st token => st.readConnectionToken (trimOws token)) st,
      .strip)
  | .expect =>
    (if eqIgnoreAsciiCase (trimOws value) (bytes "100-continue") then
        { st with expectContinue := true }
      else st, .strip)
  | .keepAlive | .proxyConnection | .te | .trailer | .http2Settings | .forwardingClaim =>
    (st, .strip)
  | .other => (st, .keep)

def recordLine (st : HeadState) (kind : LineKind) (start stop : ℕ) : HeadState :=
  match kind with
  | .keep => st
  | .strip => { st with stripSpans := st.stripSpans.push start stop }
  | .upgrade => { st with upgradeSpan := some (asU32 start, asU32 stop) }

/-- One whole header line, which ends at `stop`. -/
def readLine (http10 : Bool) (st : HeadState) (name value : Bytes) (stop : ℕ) : HeadState :=
  let (next, kind) := { st with pos := stop }.readField http10 name value
  if next.violation then next else next.recordLine kind st.pos stop

end HeadState

def headTurn (data : Bytes) (http10 : Bool) (st : HeadState) : HeadState ⊕ HeadState :=
  if st.violation then .inr st
  else
    match data.drop st.pos with
    | [] => .inr st
    | b :: rest =>
      if b = cr then .inr { st with terminated := data[st.pos + 1]? == some lf }
      else
        let name := (b :: rest).takeWhile isTchar
        let nameEnd := st.pos + name.length
        if nameEnd = st.pos ∨ data[nameEnd]? ≠ some colon then
          .inr { st with violation := true, pos := nameEnd }
        else
          let valueEnd := scanValue data (nameEnd + 1)
          if data[valueEnd]? ≠ some cr ∨ data[valueEnd + 1]? ≠ some lf then
            .inr { st with violation := true, pos := nameEnd }
          else
            let next := st.readLine http10 name (slice data (nameEnd + 1) valueEnd) (valueEnd + 2)
            if next.violation then .inr next else .inl next

namespace HeadState

/-- Reading a token moves nothing but the locals a token speaks about. -/
theorem readConnectionToken_frame (st : HeadState) (token : Bytes) :
    (st.readConnectionToken token).pos = st.pos ∧
      (st.readConnectionToken token).terminated = st.terminated := by
  unfold readConnectionToken
  split_ifs <;> exact ⟨rfl, rfl⟩

theorem readConnectionTokens_frame (st : HeadState) (tokens : List Bytes) :
    (tokens.foldl (fun st token => st.readConnectionToken (trimOws token)) st).pos = st.pos ∧
      (tokens.foldl (fun st token => st.readConnectionToken (trimOws token)) st).terminated =
        st.terminated := by
  induction tokens generalizing st with
  | nil => exact ⟨rfl, rfl⟩
  | cons t tokens ih =>
    obtain ⟨hpos, hterm⟩ := st.readConnectionToken_frame (trimOws t)
    rw [← hpos, ← hterm]
    exact ih _

theorem readField_frame (http10 : Bool) (st : HeadState) (name value : Bytes) :
    (st.readField http10 name value).1.pos = st.pos ∧
      (st.readField http10 name value).1.terminated = st.terminated := by
  unfold readField
  cases fieldName name with
  | connection => exact st.readConnectionTokens_frame _
  | host | contentLength =>
    dsimp only
    split
    · split_ifs <;> exact ⟨rfl, rfl⟩
    · exact ⟨rfl, rfl⟩
  | transferEncoding | upgrade | expect => dsimp only; split_ifs <;> exact ⟨rfl, rfl⟩
  | _ => exact ⟨rfl, rfl⟩

theorem recordLine_frame (st : HeadState) (kind : LineKind) (start stop : ℕ) :
    (st.recordLine kind start stop).pos = st.pos ∧
      (st.recordLine kind start stop).terminated = st.terminated ∧
      (st.recordLine kind start stop).violation = st.violation := by
  cases kind <;> exact ⟨rfl, rfl, rfl⟩

theorem readLine_frame (http10 : Bool) (st : HeadState) (name value : Bytes) (stop : ℕ) :
    (st.readLine http10 name value stop).pos = stop ∧
      (st.readLine http10 name value stop).terminated = st.terminated := by
  obtain ⟨hpos, hterm⟩ := readField_frame http10 { st with pos := stop } name value
  unfold readLine
  dsimp only
  split_ifs
  · exact ⟨hpos, hterm⟩
  · obtain ⟨hpos', hterm', -⟩ := recordLine_frame
      ({ st with pos := stop }.readField http10 name value).1
      ({ st with pos := stop }.readField http10 name value).2 st.pos stop
    exact ⟨hpos'.trans hpos, hterm'.trans hterm⟩

end HeadState

def headLoop (data : Bytes) (http10 : Bool) : Loop HeadState HeadState where
  turn := headTurn data http10
  measure st := data.length - st.pos
  decreases := by
    intro st next h
    unfold headTurn at h
    split_ifs at h
    split at h
    · cases h
    · next b rest hdrop =>
      have hlen : (data.drop st.pos).length = rest.length + 1 := by rw [hdrop]; rfl
      rw [List.length_drop] at hlen
      dsimp only at h
      split_ifs at h
      cases h
      rw [(HeadState.readLine_frame ..).1, scanValue_eq]
      omega

/-- The request line; the target ends at `stop`. -/
structure RequestLine where
  method : Bytes
  target : Bytes
  start : ℕ
  stop : ℕ
  isHttp10 : Bool

def httpVersion (http10 : Bool) : Bytes := if http10 then bytes "HTTP/1.0" else bytes "HTTP/1.1"

/-- `Some(b"HTTP/1.1\r\n")` or `Some(b"HTTP/1.0\r\n")`. -/
def readVersion (text : Bytes) : Option Bool :=
  if text = httpVersion false ++ crlf then some false
  else if text = httpVersion true ++ crlf then some true
  else none

/-- Exactly `method SP request-target SP HTTP-version CRLF`. -/
def readRequestLine (data : Bytes) : Except ParseError RequestLine :=
  let methodEnd := (data.takeWhile isTchar).length
  if methodEnd = 0 ∨ data[methodEnd]? ≠ some sp then .error .malformedRequestLine
  else
    let start := methodEnd + 1
    let stop := targetEnd data start
    if stop = start ∨ data[stop]? ≠ some sp then .error .malformedRequestLine
    else
      match readVersion (slice data (stop + 1) (stop + 11)) with
      | none => .error .malformedRequestLine
      | some isHttp10 =>
        let line := data.take stop
        if isUtf8 line then
          .ok ⟨line.take methodEnd, line.drop start, start, stop, isHttp10⟩
        else .error .nonUtf8RequestLine

/-- What the request target says: a violation, the authority's host, the path. -/
structure TargetReading where
  violation : Bool
  targetHost : Option Bytes
  path : Bytes
  pathAt : Option ℕ

/-- Reads a target that starts at `start`. -/
def readTarget (method target : Bytes) (start : ℕ) : TargetReading :=
  if method = bytes "CONNECT" then ⟨true, none, target, some start⟩
  else if target.head? ≠ some slash then
    if target = bytes "*" then ⟨method != bytes "OPTIONS", none, target, some start⟩
    else
      match absoluteSchemeLen target with
      | some schemeLen =>
        let rest := target.drop schemeLen
        let authorityLen := (memchr slash rest).getD rest.length
        let authority := rest.take authorityLen
        let (violation, targetHost) := match splitHost authority with
          | some h => if 0 < h then (false, some (authority.take h)) else (true, none)
          | none => (true, none)
        if authorityLen < rest.length then
          ⟨violation, targetHost, rest.drop authorityLen, some (start + schemeLen + authorityLen)⟩
        else ⟨violation, targetHost, bytes "/", none⟩
      | none => ⟨true, none, target, some start⟩
  else ⟨false, none, target, some start⟩

/-- The path without its query, and the query. -/
def splitQuery (path : Bytes) : Bytes × Bytes :=
  match memchr question path with
  | some i => (path.take i, path.drop (i + 1))
  | none => (path, [])

/-- The host a request is routed by. -/
def requestHost (http10 violation : Bool) (host targetHost : Option Bytes) :
    Except ParseError Bytes :=
  match host with
  | some h => .ok h
  | none =>
    if http10 then .ok (targetHost.getD [])
    else if violation then .ok []
    else .error .missingHost

/-- The fields of the result, from the locals at the end of the pass. -/
def routingInfo (data : Bytes) (line : RequestLine) (target : TargetReading) (st : HeadState)
    (host : Bytes) (violation : Bool) : HttpRequestInfo :=
  { method := line.method
    host
    path := (splitQuery target.path).1
    pathAt := target.pathAt
    queryString := (splitQuery target.path).2
    keepalive := st.explicitKeepalive.getD (!line.isHttp10)
    headerData := slice data (line.stop + 11) st.pos
    headLen := st.pos + 2
    contentLength := st.contentLength
    isChunked := st.isChunked
    isUpgrade := st.hasUpgradeHeader && st.connectionHasUpgrade && !st.offersH2cUpgrade
    headerViolation := violation
    stripSpans := st.stripSpans
    upgradeSpan := st.upgradeSpan
    expectContinue := st.expectContinue }

/-- The header loop, entered past the request line. -/
def readHeaders (data : Bytes) (line : RequestLine) (target : TargetReading) : HeadState :=
  (headLoop data line.isHttp10).run { violation := target.violation, pos := line.stop + 11 }

/-- The checks that need the whole head. -/
def finishHead (data : Bytes) (line : RequestLine) (target : TargetReading) (st : HeadState) :
    Except ParseError HttpRequestInfo := do
  let violation := st.violation || !st.terminated
  let host ← requestHost line.isHttp10 violation st.host target.targetHost
  let violation := violation || target.targetHost.any (fun t => !eqIgnoreAsciiCase t host) ||
    ((host.isEmpty && !line.isHttp10) || (st.contentLength.isSome && st.isChunked))
  if isUtf8 host then .ok (routingInfo data line target st host violation)
  else .error .nonAsciiHost

def extractRoutingInfo (data : Bytes) : Except ParseError HttpRequestInfo := do
  let line ← readRequestLine data
  let target := readTarget line.method line.target line.start
  finishHead data line target (readHeaders data line target)

/-- `Ok` without `header_violation`: anything else is answered 400. -/
def accept : Except ParseError HttpRequestInfo → Option HttpRequestInfo
  | .ok info => if info.headerViolation then none else some info
  | .error _ => none

def accepted (data : Bytes) : Option HttpRequestInfo := accept (extractRoutingInfo data)

end Portail.Http
