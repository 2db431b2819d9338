import Portail.Config.Types
import Portail.Http.Scanners
import Portail.Lib.Checks
import Portail.Lib.IpParse

/-!
# What a filter string may contain

The checks of `wire.rs` on every string the data plane splices into HTTP/1 bytes, with
the messages they fail with. A message is the row of pieces its format string puts
together; how `{:?}` quotes a text is left open.
-/

namespace Portail.Config

open Lib Http Routing List

inductive Piece
  | text (s : String)
  | display (s : Str)
  | debug (s : Str)
  | num (n : ℕ)
  | hex (b : UInt8)
  deriving DecidableEq

abbrev Message := List Piece

abbrev Result := Except Message

def isHeaderName (name : Bytes) : Bool := isToken name

/-- The first octet a field value may not hold, with where it stands. -/
def headerValueViolation (value : Bytes) : Option (ℕ × UInt8) :=
  (value.findIdx? fun b => !isFieldValueByte b).bind fun i => value[i]?.map (i, ·)

def checkHeaderName (name : Str) : Result Unit :=
  ensure (isHeaderName name.octets) [.debug name, .text " is not an RFC 9110 field name (token)"]

/-- Never echoes the value: modifiers often carry credentials. -/
def checkHeaderValue (value : Str) : Result Unit :=
  match headerValueViolation value.octets with
  | none => .ok ()
  | some (i, b) => .error [.text "control character 0x", .hex b, .text " at byte ", .num i]

def isDnsLabel (l : Bytes) : Bool :=
  1 ≤ l.length && l.length ≤ 63 && l.all (fun b => isAsciiAlphanumeric b || b == 0x2d) &&
    l.head? != some 0x2d && l.getLast? != some 0x2d

def isDnsName (host : Bytes) : Bool :=
  host.length ≤ 253 && (host.splitOn 0x2e).all isDnsLabel

/-- A host name, or an IPv6 address in brackets. -/
def isHostname (host : Bytes) : Bool :=
  match host with
  | 0x5b :: rest => rest.getLast? == some 0x5d && isIpv6 rest.dropLast
  | _ => isDnsName host

def checkHostname (host : Str) : Result Unit :=
  ensure (isHostname host.octets)
    [.debug host, .text " is not a DNS name or IP literal ([v6] needs brackets)"]

def checkPath (path : Str) : Result Unit := do
  ensure (path.octets.head? = some slash) [.debug path, .text " must start with '/'"]
  match path.octets.findIdx? fun b => !isTargetByte b with
  | none => .ok ()
  | some i =>
    .error [.debug path, .text " has forbidden byte 0x", .hex (path.octets.getD i 0),
      .text " at ", .num i, .text " (no SP, CTL, '#' or '\\')"]

def checkScheme (scheme : Str) : Result Unit :=
  ensure (eqIgnoreAsciiCase scheme.octets (bytes "http") ∨
      eqIgnoreAsciiCase scheme.octets (bytes "https"))
    [.debug scheme, .text " must be \"http\" or \"https\""]

def requestFraming : List String :=
  ["Content-Length", "Transfer-Encoding", "Connection", "Keep-Alive", "Proxy-Connection", "TE",
    "Trailer", "Upgrade", "Expect", "HTTP2-Settings"]

def responseFraming : List String :=
  ["Content-Length", "Transfer-Encoding", "Connection", "Keep-Alive", "Proxy-Connection",
    "Trailer", "Upgrade"]

inductive Side
  | request
  | response
  deriving DecidableEq

/-- What a modifier does with the headers it lists. -/
inductive Op
  | set
  | add
  | remove
  deriving DecidableEq

def Op.name : Op → String
  | set => "set"
  | add => "add"
  | remove => "remove"

def isHost (name : Str) : Bool := eqIgnoreAsciiCase name.octets (bytes "host")

def framing : Side → List String
  | .request => requestFraming
  | .response => responseFraming

def isFraming (side : Side) (name : Str) : Bool :=
  (framing side).any fun f => eqIgnoreAsciiCase (bytes f) name.octets

def checkModifiedName (side : Side) (op : Op) (name : Str) : Result Unit := do
  checkHeaderName name
  ensure (isFraming side name = false) [.debug name, .text ": framing header is owned by the proxy"]
  if side = .request ∧ isHost name then
    match op with
    | .add => .error [.debug name, .text ": Host can only be set, add would send two Host lines"]
    | .remove =>
      .error [.debug name,
        .text ": Host can only be set, an HTTP/1.1 request without Host is invalid"]
    | .set => .ok ()
  else .ok ()

/-- One `set` or `add` entry. -/
def checkHeader (side : Side) (op : Op) (i : ℕ) (h : HttpHeader) : Result Unit := do
  (checkModifiedName side op h.name).mapError
    ([.text op.name, .text "[", .num i, .text "].name: "] ++ ·)
  (checkHeaderValue h.value).mapError
    ([.text op.name, .text "[", .num i, .text "].value (header ", .debug h.name, .text "): "] ++ ·)

def checkRemoved (side : Side) (i : ℕ) (name : Str) : Result Unit :=
  (checkModifiedName side .remove name).mapError ([.text "remove[", .num i, .text "]: "] ++ ·)

/-- The proxy replaces the Host line with the first `set` entry for it and appends the rest. -/
def checkOneHost (set : List HttpHeader) : Result Unit :=
  match set.zipIdx.filter fun h => isHost h.1.name with
  | (_, first) :: (h, i) :: _ =>
    .error [.text "set[", .num i, .text "].name: ", .debug h.name,
      .text ": Host already set by set[", .num first,
      .text "], a second would send two Host lines"]
  | _ => .ok ()

def checkHeaderModifier (m : HeaderModifierConfig) (side : Side) : Result Unit := do
  checkEach (checkHeader side .set) 0 m.set
  checkEach (checkHeader side .add) 0 m.add
  checkEach (checkRemoved side) 0 m.remove
  if side = .request then checkOneHost m.set else .ok ()

/-- An empty prefix replacement strips the prefix. -/
def checkRewritePath (filter : String) : HttpURLRewritePath → Result Unit
  | .replaceFullPath value =>
    (checkPath value).mapError ([.text filter, .text " path.replaceFullPath: "] ++ ·)
  | .replacePrefixMatch value =>
    if value.octets.isEmpty then .ok ()
    else (checkPath value).mapError ([.text filter, .text " path.replacePrefixMatch: "] ++ ·)

def checkDestination (filter : String) (hostname : Option Str) (path : Option HttpURLRewritePath) :
    Result Unit := do
  match hostname with
  | some host => (checkHostname host).mapError ([.text filter, .text " hostname: "] ++ ·)
  | none => .ok ()
  match path with
  | some path => checkRewritePath filter path
  | none => .ok ()

/-- Every string of a filter that the data plane writes to the wire. -/
def checkFilter : HttpRouteFilter → Result Unit
  | .requestHeaderModifier config =>
    (checkHeaderModifier config .request).mapError ([.text "RequestHeaderModifier "] ++ ·)
  | .responseHeaderModifier config =>
    (checkHeaderModifier config .response).mapError ([.text "ResponseHeaderModifier "] ++ ·)
  | .requestRedirect config => do
    match config.scheme with
    | some scheme => (checkScheme scheme).mapError ([.text "RequestRedirect scheme: "] ++ ·)
    | none => .ok ()
    checkDestination "RequestRedirect" config.hostname config.path
  | .urlRewrite config => checkDestination "URLRewrite" config.hostname config.path
  | .requestMirror .. => .ok ()

def HttpRouteFilter.rewritesHost : HttpRouteFilter → Bool
  | urlRewrite config => config.hostname.isSome
  | _ => false

def HttpRouteFilter.setsHost : HttpRouteFilter → Bool
  | requestHeaderModifier config => config.set.any fun h => isHost h.name
  | _ => false

/-- Combinations within one rule that would put a malformed message on the wire. -/
def checkRuleFilters (filters : List HttpRouteFilter) : Result Unit :=
  ensure (¬ (filters.any HttpRouteFilter.rewritesHost ∧ filters.any HttpRouteFilter.setsHost))
    [.text ("URLRewrite hostname and RequestHeaderModifier set \"Host\" would send two Host lines; "
      ++ "keep one")]

theorem checkHeaderName_eq_ok {name : Str} :
    checkHeaderName name = .ok () ↔ isToken name.octets = true := ensure_eq_ok

theorem findIdx?_bad (p : UInt8 → Bool) (text : Bytes) :
    (text.findIdx? fun b => !p b) = none ∧ (∀ b ∈ text, p b = true) ∨
      ∃ i b, (text.findIdx? fun b => !p b) = some i ∧ text[i]? = some b ∧
        ¬ ∀ b ∈ text, p b = true := by
  cases hi : text.findIdx? fun b => !p b with
  | none =>
    rw [findIdx?_eq_none_iff] at hi
    exact .inl ⟨rfl, by simpa using hi⟩
  | some i =>
    obtain ⟨hlt, hbad, -⟩ := findIdx?_eq_some_iff_getElem.mp hi
    refine .inr ⟨i, text[i], rfl, getElem?_eq_getElem hlt, fun hall => ?_⟩
    simp [hall _ (getElem_mem hlt)] at hbad

theorem headerValueViolation_eq_none {value : Bytes} :
    headerValueViolation value = none ↔ ∀ b ∈ value, isFieldValueByte b = true := by
  rw [headerValueViolation]
  rcases findIdx?_bad isFieldValueByte value with ⟨hi, hall⟩ | ⟨i, b, hi, hb, hbad⟩
  · simpa [hi] using hall
  · simpa [hi, hb] using hbad

theorem checkHeaderValue_eq_ok {value : Str} :
    checkHeaderValue value = .ok () ↔ ∀ b ∈ value.octets, isFieldValueByte b = true := by
  rw [checkHeaderValue, ← headerValueViolation_eq_none]
  cases headerValueViolation value.octets <;> simp

theorem checkPath_eq_ok {path : Str} : checkPath path = .ok () ↔
    path.octets.head? = some slash ∧ ∀ b ∈ path.octets, isTargetByte b = true := by
  rw [checkPath, seq_eq_ok, ensure_eq_ok]
  refine and_congr_right fun _ => ?_
  rcases findIdx?_bad isTargetByte path.octets with ⟨hi, hall⟩ | ⟨i, b, hi, -, hbad⟩
  · simpa [hi] using hall
  · simpa [hi] using hbad

/-- What the check lets a modifier name. -/
structure NameOk (side : Side) (op : Op) (name : Str) : Prop where
  token : isToken name.octets = true
  not_framing : isFraming side name = false
  host_set : side = .request → isHost name = true → op = .set

variable {side : Side}

theorem checkModifiedName_eq_ok {op : Op} {name : Str} :
    checkModifiedName side op name = .ok () ↔ NameOk side op name := by
  have hhost : (if side = .request ∧ isHost name = true then
      match op with
      | .add => Except.error [Piece.debug name,
          Piece.text ": Host can only be set, add would send two Host lines"]
      | .remove => Except.error [Piece.debug name,
          Piece.text ": Host can only be set, an HTTP/1.1 request without Host is invalid"]
      | .set => .ok ()
      else .ok ()) = Except.ok () ↔ (side = .request → isHost name = true → op = .set) := by
    split_ifs with h
    · cases op <;> simp [h]
    · simp only [true_iff]
      exact fun h1 h2 => absurd ⟨h1, h2⟩ h
  simp only [checkModifiedName, checkHeaderName_eq_ok, seq_eq_ok, ensure_eq_ok, hhost]
  exact ⟨fun ⟨h1, h2, h3⟩ => ⟨h1, h2, h3⟩, fun ⟨h1, h2, h3⟩ => ⟨h1, h2, h3⟩⟩

/-- What the check lets through as a `set` or `add` entry. -/
structure EntryOk (side : Side) (op : Op) (h : HttpHeader) : Prop where
  name_ok : NameOk side op h.name
  value_ok : ∀ b ∈ h.value.octets, isFieldValueByte b = true

theorem checkHeader_eq_ok {op : Op} (i : ℕ) (h : HttpHeader) :
    checkHeader side op i h = .ok () ↔ EntryOk side op h := by
  simp only [checkHeader, seq_eq_ok, mapError_eq_ok, checkModifiedName_eq_ok,
    checkHeaderValue_eq_ok]
  exact ⟨fun ⟨h1, h2⟩ => ⟨h1, h2⟩, fun ⟨h1, h2⟩ => ⟨h1, h2⟩⟩

theorem checkRemoved_eq_ok (i : ℕ) (name : Str) :
    checkRemoved side i name = .ok () ↔ NameOk side .remove name := by
  rw [checkRemoved, mapError_eq_ok, checkModifiedName_eq_ok]

theorem checkOneHost_eq_ok {set : List HttpHeader} :
    checkOneHost set = .ok () ↔ (set.filter fun h => isHost h.name).length ≤ 1 := by
  have hlen : (set.zipIdx.filter fun h => isHost h.1.name).length =
      (set.filter fun h => isHost h.name).length := by
    rw [← countP_eq_length_filter, ← countP_eq_length_filter]
    conv_rhs => rw [← zipIdx_map_fst 0 set, countP_map]
    rfl
  rw [checkOneHost, ← hlen]
  cases set.zipIdx.filter fun h => isHost h.1.name with
  | nil => simp
  | cons x xs => cases xs <;> simp

/-- What the check lets through as a header modifier. -/
structure ModifierOk (side : Side) (m : HeaderModifierConfig) : Prop where
  set_ok : ∀ h ∈ m.set, EntryOk side .set h
  add_ok : ∀ h ∈ m.add, EntryOk side .add h
  remove_ok : ∀ name ∈ m.remove, NameOk side .remove name
  one_host : side = .request → (m.set.filter fun h => isHost h.name).length ≤ 1

theorem checkHeaderModifier_eq_ok {m : HeaderModifierConfig} :
    checkHeaderModifier m side = .ok () ↔ ModifierOk side m := by
  have hhost : (if side = .request then checkOneHost m.set else .ok ()) = Except.ok () ↔
      (side = .request → (m.set.filter fun h => isHost h.name).length ≤ 1) := by
    split_ifs with h
    · simp [h, checkOneHost_eq_ok]
    · simp [h]
  simp only [checkHeaderModifier, seq_eq_ok, checkEach_eq_ok checkHeader_eq_ok,
    checkEach_eq_ok checkRemoved_eq_ok, hhost]
  exact ⟨fun ⟨h1, h2, h3, h4⟩ => ⟨h1, h2, h3, h4⟩, fun ⟨h1, h2, h3, h4⟩ => ⟨h1, h2, h3, h4⟩⟩

end Portail.Config
