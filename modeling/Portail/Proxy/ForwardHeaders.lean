import Portail.Http.PathNormal
import Portail.Http.RequestParser
import Portail.Lib.Splice
import Portail.Proxy.HeaderMods

/-!
# The outgoing request head

`build_outgoing_headers`: the client's head without its hop-by-hop lines, with the
forwarding lines of the proxy, its path as routed, and an absolute-form target
turned to origin-form. The common head is copied around the spans the parser
recorded; the others are rewritten line by line.
-/

namespace Portail.Proxy

open Lib Http Routing

/-- The outcome of routing that forwarding needs. -/
structure RequestMeta where
  headLen : ℕ
  contentLength : Option ℕ
  isChunked : Bool
  isUpgrade : Bool
  isHead : Bool
  idempotent : Bool
  keepalive : Bool
  pathSpan : Option (ℕ × ℕ)
  normalizedPath : Option Bytes
  stripSpans : StripSpans
  upgradeSpan : Option (ℕ × ℕ)
  expectContinue : Bool
  localReplyReusable : Bool
  clientDone : Bool

def RequestMeta.path (m : RequestMeta) (head : Bytes) : Bytes :=
  match m.normalizedPath with
  | some path => path
  | none =>
    match m.pathSpan with
    | some (s, e) =>
      if s ≤ e ∧ e ≤ head.length ∧ isUtf8 (slice head s e) then slice head s e else bytes "/"
    | none => bytes "/"

/-- Whether the head is the whole request. -/
def headIsWhole (info : HttpRequestInfo) : Bool :=
  !info.isUpgrade && !info.isChunked && info.contentLength.getD 0 == 0

def localReplyReusable (info : HttpRequestInfo) : Bool := info.keepalive && headIsWhole info

structure ClientSent where
  keepalive : Bool
  requestIn : Bool
  seenPast : Bool

/-- Whether the client sends nothing more on its connection. -/
def clientDone (sent : ClientSent) : Bool := !sent.keepalive && sent.requestIn && !sent.seenPast

/-- Span of a text found at `pos` in the request buffer; `none` for a static text. -/
def subsliceSpan (base sub : Bytes) (pos : Option ℕ) : Option (ℕ × ℕ) :=
  pos.bind fun off =>
    if off + sub.length ≤ base.length then some (asU32 off, asU32 (off + sub.length)) else none

/-- Idempotent methods (RFC 9110 9.2.2). -/
def isIdempotent (method : Bytes) : Bool :=
  ["GET", "HEAD", "OPTIONS", "TRACE", "PUT", "DELETE"].any fun m => method == bytes m

/-- The record of a request that is forwarded, `path` its normalized path. -/
def requestMeta (requestData : Bytes) (info : HttpRequestInfo) (path : Cow) : RequestMeta where
  headLen := info.headLen
  contentLength := info.contentLength
  isChunked := info.isChunked
  isUpgrade := info.isUpgrade
  isHead := eqIgnoreAsciiCase info.method (bytes "HEAD")
  idempotent := isIdempotent info.method
  keepalive := info.keepalive
  pathSpan := subsliceSpan requestData info.path info.pathAt
  normalizedPath := match path with
    | .owned path => some path
    | .borrowed _ => none
  stripSpans := info.stripSpans
  upgradeSpan := info.upgradeSpan
  expectContinue := info.expectContinue
  localReplyReusable := localReplyReusable info
  clientDone := clientDone
    { keepalive := info.keepalive
      requestIn := headIsWhole info
      seenPast := decide (info.headLen < requestData.length) }

/-- `CAP`, room for the two forwarding lines. -/
def forwardedCap : ℕ :=
  (bytes "X-Forwarded-For: \r\nX-Forwarded-Proto: https\r\n").length + (6 * 5 + 15)

/-- The forwarding lines of a client connection, cut to `CAP` octets. -/
def forwardedLines (clientIp : IpAddr) (isTls : Bool) : Bytes :=
  let proto := if isTls then bytes "https" else bytes "http"
  let text := bytes "X-Forwarded-For: " ++ clientIp.display ++
    bytes "\r\nX-Forwarded-Proto: " ++ proto ++ crlf
  let written := text.take forwardedCap
  written.take (written.length % 2 ^ 8)

/-- An absolute-form request on its way to an origin server. -/
structure OriginForm where
  authority : Bytes
  hostLine : Option (ℕ × ℕ)

/-- The first line of `raw` that opens with `host:`, from the line at `start` on. -/
def hostLineFrom (start : ℕ) : List Bytes → Option (ℕ × ℕ)
  | [] | [_] => none
  | line :: next :: rest =>
    let stop := start + line.length + 1
    if 5 ≤ line.length + 1 ∧ eqIgnoreAsciiCase ((line ++ [lf]).take 5) (bytes "host:") then
      some (asU32 start, asU32 stop)
    else hostLineFrom stop (next :: rest)

/-- Span of the Host line; the lines are what LFs separate, the first is the request line. -/
def hostLine (raw : Bytes) : Option (ℕ × ℕ) :=
  match raw.splitOn lf with
  | [] | [_] => none
  | line :: rest => hostLineFrom (line.length + 1) rest

def OriginForm.of (raw : Bytes) (pathSpan : Option (ℕ × ℕ)) : Option OriginForm := do
  let pathStart := pathSpan.map Prod.fst
  if pathStart.any fun s => raw[s - 1]? == some sp then none
  else
    let target := (← memchr sp raw) + 1
    if raw[target]? = some slash ∨ raw[target]? = some 0x2a ∨ raw[target]? = none then none
    else
      let start := target + if raw[target + 4]? = some colon then 7 else 8
      let stop ← match pathStart with
        | some s => some s
        | none => (memchr sp (raw.drop start)).map (start + ·)
      return ⟨slice raw start stop, Proxy.hostLine raw⟩

/-- What follows the client's own lines. -/
def appendForwardHeaders (forwarded : Bytes) (keepUpgrade : Bool) (origin : Option OriginForm) :
    Bytes :=
  forwarded ++ (if keepUpgrade then bytes "Connection: upgrade\r\n" else []) ++
    match origin with
    | some ⟨authority, none⟩ => putHost authority
    | _ => []

/-- The two spans in head order. -/
def linesInOrder : Option (ℕ × ℕ) → Option (ℕ × ℕ) → List (ℕ × ℕ)
  | some u, some h => if h.1 < u.1 ∨ h.1 = u.1 ∧ h.2 < u.2 then [h, u] else [u, h]
  | stripUpgrade, hostLine => stripUpgrade.toList ++ hostLine.toList

/-- Bulk copies around the recorded spans. -/
def assembleForwardHeaders (raw : Bytes) (path : Option Bytes) (spans : StripSpans)
    (upgradeSpan : Option (ℕ × ℕ)) (keepUpgrade : Bool) (origin : Option OriginForm)
    (forwarded : Bytes) : Bytes :=
  let terminatorStart := raw.length - 2
  let stripUpgrade := upgradeSpan.filter fun _ => !keepUpgrade
  let hostLine := origin.bind OriginForm.hostLine
  let cut (line : ℕ × ℕ) : Cut UInt8 :=
    ⟨line.1, line.2,
      if some line = hostLine then (origin.map fun o => putHost o.authority).getD [] else []⟩
  let lines := (linesInOrder stripUpgrade hostLine).map cut
  let start : ℕ × Bytes := match path with
    | some path =>
      let cursor := (memchr cr raw).getD 0
      (cursor, putRequestLine (raw.take cursor) path none)
    | none => (0, [])
  let st := mergeCopy raw (spans.spans.map fun s => ⟨s.1, s.2, []⟩) lines start
  st.2 ++ slice raw st.1 terminatorStart ++ appendForwardHeaders forwarded keepUpgrade origin ++
    crlf

/-- The value of a line of the given name, as text. -/
def headerValueIf (line name : Bytes) : Option Bytes := do
  let p ← memchr colon line
  if eqIgnoreAsciiCase (line.take p) name ∧ isUtf8 (line.drop (p + 1)) then
    return trimText (line.drop (p + 1))
  else none

def isHopByHopRequestHeader (name : Bytes) : Bool :=
  match name.head?.map toAsciiLowercase with
  | some 0x63 => eqIgnoreAsciiCase name (bytes "connection")
  | some 0x6b => eqIgnoreAsciiCase name (bytes "keep-alive")
  | some 0x70 => eqIgnoreAsciiCase name (bytes "proxy-connection")
  | some 0x74 =>
    eqIgnoreAsciiCase name (bytes "te") || eqIgnoreAsciiCase name (bytes "trailer")
  | some 0x65 => eqIgnoreAsciiCase name (bytes "expect")
  | some 0x68 => eqIgnoreAsciiCase name (bytes "http2-settings")
  | some 0x66 | some 0x78 => isForwardingClaim name
  | _ => false

/-- The headers the Connection lines nominate, but for those the proxy framed and routed by. -/
def nominatedHeaders (lines : List Bytes) : List Bytes :=
  (lines.filterMap (headerValueIf · (bytes "connection"))).flatMap fun value =>
    ((value.splitOn comma).map trimText).filter fun token =>
      !token.isEmpty && !HeadState.isPinned token

/-- The second pass over one header line. -/
def forwardLine (nominated : List Bytes) (keepUpgrade : Bool) (origin : Option OriginForm)
    (line : Bytes) : Bytes :=
  match memchr colon line with
  | none => line ++ crlf
  | some nameEnd =>
    let name := line.take nameEnd
    match origin.filter fun _ => eqIgnoreAsciiCase name (bytes "host") with
    | some origin => putHost origin.authority
    | none =>
      let strip :=
        if eqIgnoreAsciiCase name (bytes "upgrade") then !keepUpgrade
        else isHopByHopRequestHeader name || nominated.any fun n => eqIgnoreAsciiCase name n
      if strip then [] else line ++ crlf

/-- Line by line, for what the recorded spans cannot express. -/
def assembleForwardHeadersSlow (raw : Bytes) (path : Option Bytes) (keepUpgrade : Bool)
    (origin : Option OriginForm) (forwarded : Bytes) : Bytes :=
  let lines := headerLines raw
  let nominated := nominatedHeaders lines
  let copied := match lines with
    | [] => []
    | first :: rest =>
      (match path with
        | some path => putRequestLine first path none
        | none => first) ++ crlf ++ rest.flatMap (forwardLine nominated keepUpgrade origin)
  copied ++ appendForwardHeaders forwarded keepUpgrade origin ++ crlf

/-- The head before any filter. -/
def assembleOutgoing (raw : Bytes) (m : RequestMeta) (forwarded : Bytes) : Bytes :=
  let origin := OriginForm.of raw m.pathSpan
  let path := if origin.isSome then some (m.path raw) else m.normalizedPath
  if m.stripSpans.needsSlowPath then
    assembleForwardHeadersSlow raw path m.isUpgrade origin forwarded
  else
    assembleForwardHeaders raw path m.stripSpans m.upgradeSpan m.isUpgrade origin forwarded

section

variable {R : Type}

/-- The filters on an assembled head. -/
def filteredHead (scratch : Bytes) (ruleMods : Option HeaderModifications)
    (urlRewrite : Option URLRewrite) (backendMods : Option HeaderModifications) : Bytes :=
  if ruleMods.isSome ∨ urlRewrite.isSome ∨ backendMods.isSome then
    let scratch := applyRequestHeaderModifications scratch ruleMods urlRewrite
    match backendMods with
    | some mods => applyRequestHeaderModifications scratch (some mods) none
    | none => scratch
  else scratch

def buildOutgoingHeaders (buf : Bytes) (reqHeaderEnd : ℕ) (rule : HttpRouteRule R)
    (backend : Backend) (m : RequestMeta) (peerIp : IpAddr) (isTls : Bool) : Bytes :=
  let raw := buf.take reqHeaderEnd
  let scratch := assembleOutgoing raw m (forwardedLines peerIp isTls)
  if rule.hasFilters then
    filteredHead scratch (extractHeaderMods false rule.filters)
      (extractUrlRewrite rule.path.octets (m.path raw) rule.filters)
      (extractHeaderMods false backend.filters)
  else scratch

end
end Portail.Proxy
