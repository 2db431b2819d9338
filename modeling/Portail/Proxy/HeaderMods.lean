import Portail.Http.HeadText
import Portail.Routing.Types

/-!
# Header and request-line rewriting

The filter pass of `http_filters.rs`: header modifiers, URL rewrites, and the
request line with another path spliced in.
-/

namespace Portail.Proxy

open Lib Http Routing

/-- Request-target bounds within a request line: between its first two SPs. -/
def targetBounds (line : Bytes) : Option (ℕ × ℕ) := do
  let start := (← memchr sp line) + 1
  let stop := start + (← memchr sp (line.drop start))
  return (start, stop)

/-- What goes between a value's query and the request's non-empty one. -/
def queryGlue (valueQuery : Bytes) : Bytes :=
  if valueQuery.isEmpty ∨ valueQuery.getLast? = some 0x26 then [] else bytes "&"

/-- The request line with `path` in place of all its target holds before the query. -/
def putRequestLine (line path : Bytes) (valueQuery : Option Bytes) : Bytes :=
  match targetBounds line with
  | none => line
  | some (start, stop) =>
    let query := ((memchr question (slice line start stop)).map (start + ·)).getD stop
    let queryText := match valueQuery with
      | none => slice line query stop
      | some valueQuery =>
        question :: (valueQuery ++
          if stop > query + 1 then queryGlue valueQuery ++ slice line (query + 1) stop else [])
    line.take start ++ path ++ queryText ++ line.drop stop

structure HeaderModifications where
  add : List HttpHeader
  set : List HttpHeader
  remove : List Str

/-- The modifications of the first header modifier for the given side. -/
def extractHeaderMods (isResponse : Bool) : List HttpFilter → Option HeaderModifications
  | [] => none
  | .requestHeaderModifier add set remove :: rest =>
    if isResponse then extractHeaderMods isResponse rest else some ⟨add, set, remove⟩
  | .responseHeaderModifier add set remove :: rest =>
    if isResponse then some ⟨add, set, remove⟩ else extractHeaderMods isResponse rest
  | _ :: rest => extractHeaderMods isResponse rest

theorem extractHeaderMods_eq (isResponse : Bool) (filters : List HttpFilter) :
    extractHeaderMods isResponse filters =
      filters.findSome? fun f => extractHeaderMods isResponse [f] :=
  eq_findSome? rfl (fun f _ => by cases f <;> cases isResponse <;> rfl) filters

structure RewrittenPath where
  path : Bytes
  query : Option Bytes

structure URLRewrite where
  hostname : Option Bytes
  path : Option RewrittenPath

/-- What follows the matched prefix; nothing where the rule's path is no prefix. -/
def prefixRemainder (rulePath requestPath : Bytes) : Bytes :=
  if rulePath.isPrefixOf requestPath then requestPath.drop rulePath.length else []

/-- A prefix replacement joined with what follows the prefix, without a double slash. -/
def joinPrefixPath (replacement suffix : Bytes) : Bytes :=
  let replacement :=
    if replacement.getLast? = some slash ∧ suffix.head? = some slash then replacement.dropLast
    else replacement
  let needsSlash := replacement.getLast? ≠ some slash ∧ suffix.head? ≠ some slash ∧ suffix ≠ []
  let result := replacement ++ (if needsSlash then [slash] else []) ++ suffix
  if result.isEmpty then [slash] else result

def rewrittenPath (rulePath requestPath : Bytes) : URLRewritePath → RewrittenPath
  | .replaceFullPath value => ⟨value.path.octets, value.query.map Str.octets⟩
  | .replacePrefixMatch value =>
    ⟨joinPrefixPath value.path.octets (prefixRemainder rulePath requestPath),
      value.query.map Str.octets⟩

def extractUrlRewrite (rulePath requestPath : Bytes) : List HttpFilter → Option URLRewrite
  | [] => none
  | .urlRewrite hostname path :: _ =>
    some ⟨hostname.map Str.octets, path.map (rewrittenPath rulePath requestPath)⟩
  | _ :: rest => extractUrlRewrite rulePath requestPath rest

def putHeader (name value : Bytes) : Bytes := name ++ bytes ": " ++ value ++ crlf

def putHost (authority : Bytes) : Bytes := putHeader (bytes "Host") authority

/-- The locals of the header pass. -/
structure ModState where
  setApplied : List Bool
  hostMissing : Option Bytes
  out : Bytes

def modifyLine (mods : Option HeaderModifications) (rewriteHostname : Option Bytes)
    (st : ModState) (line : Bytes) : ModState :=
  let keep : ModState := { st with out := st.out ++ line ++ crlf }
  match memchr colon line with
  | none => keep
  | some colonPos =>
    let name := line.take colonPos
    match rewriteHostname.filter fun _ => eqIgnoreAsciiCase name (bytes "host") with
    | some newHost => { st with out := st.out ++ putHost newHost, hostMissing := none }
    | none =>
      match mods with
      | none => keep
      | some mods =>
        if mods.remove.any fun r => eqIgnoreAsciiCase r.octets name then st
        else
          match mods.set.zipIdx.find? fun h => eqIgnoreAsciiCase h.1.name.octets name with
          | some (h, idx) =>
            { st with
              setApplied := st.setApplied.set idx true
              out := st.out ++ putHeader h.name.octets h.value.octets }
          | none => keep

/-- The `set` entries that met no line. -/
def unappliedSets (set : List HttpHeader) (setApplied : List Bool) : List HttpHeader :=
  (set.zip setApplied).filterMap fun (h, applied) => if applied then none else some h

def applyHeaderModsInner (raw : Bytes) (mods : Option HeaderModifications)
    (rewriteHostname : Option Bytes) : Bytes :=
  let start : ModState :=
    { setApplied := match mods with
        | some mods => List.replicate mods.set.length false
        | none => []
      hostMissing := rewriteHostname
      out := [] }
  let st := (headerLines raw).foldl (modifyLine mods rewriteHostname) start
  let host := (st.hostMissing.map putHost).getD []
  let added := match mods with
    | some mods => (unappliedSets mods.set st.setApplied ++ mods.add).flatMap
        fun h => putHeader h.name.octets h.value.octets
    | none => []
  st.out ++ host ++ added ++ crlf

def rewriteRequestHead (headerRegion : Bytes) (path : Option RewrittenPath)
    (headerMods : Option HeaderModifications) (rewriteHostname : Option Bytes) : Bytes :=
  let (firstLine, rest) := splitFirstLine headerRegion
  let firstLine := match path with
    | some path => putRequestLine firstLine path.path path.query
    | none => firstLine
  firstLine ++ crlf ++ applyHeaderModsInner rest headerMods rewriteHostname

def applyRequestHeaderModifications (headerRegion : Bytes)
    (headerMods : Option HeaderModifications) (urlRewrite : Option URLRewrite) : Bytes :=
  rewriteRequestHead headerRegion (urlRewrite.bind URLRewrite.path) headerMods
    (urlRewrite.bind URLRewrite.hostname)

def applyResponseHeaderMods (headers : Bytes) (mods : HeaderModifications) : Bytes :=
  let (statusLine, rest) := splitFirstLine headers
  statusLine ++ crlf ++ applyHeaderModsInner rest (some mods) none

end Portail.Proxy
