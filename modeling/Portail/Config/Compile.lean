import Portail.Config.Wire

/-!
# Route compilation

`compile_http_route`: every rule of a route checked, its matches and filters brought
into the table's form. The first failure rejects the route and says where it stands.
-/

namespace Portail.Config

open Lib Http List

inductive RejectReason
  | unsupportedValue
  | incompatibleFilters
  deriving DecidableEq

structure RouteError where
  reason : RejectReason
  message : Message

def RouteError.unsupported (message : Message) : RouteError := ⟨.unsupportedValue, message⟩

def RouteError.incompatible (message : Message) : RouteError := ⟨.incompatibleFilters, message⟩

/-- The message after the place in the route the error stands at. -/
def RouteError.at (place : String) (i : ℕ) (e : RouteError) : RouteError :=
  { e with message := [.text place, .num i, .text ": "] ++ e.message }

section

/-- A filter in the table's form, but for a mirror's address. -/
inductive CompiledFilter
  | ready (filter : Routing.HttpFilter)
  | mirror (backend : BackendRef) (fraction : Routing.Fraction)

variable (R : Type)

structure CompiledMatch where
  method : Option Str
  pathMatchType : Routing.PathMatchType
  path : Str
  pathRegex : Option R
  headers : List (Routing.HeaderMatch R)
  queryParams : List (Routing.QueryParamMatch R)

structure CompiledRule where
  source : HttpRouteRule
  routeMatches : List (CompiledMatch R)
  filters : List CompiledFilter
  /-- The filters of each backendRef of the source, in order. -/
  backendFilters : List (List Routing.HttpFilter)

end

/-- The kinds of filter, as `discriminant` tells them apart. -/
inductive FilterType
  | requestHeaderModifier
  | responseHeaderModifier
  | requestRedirect
  | urlRewrite
  | requestMirror
  deriving DecidableEq

def HttpRouteFilter.filterType : HttpRouteFilter → FilterType
  | requestHeaderModifier _ => .requestHeaderModifier
  | responseHeaderModifier _ => .responseHeaderModifier
  | requestRedirect _ => .requestRedirect
  | urlRewrite _ => .urlRewrite
  | requestMirror .. => .requestMirror

def FilterType.name : FilterType → String
  | requestHeaderModifier => "RequestHeaderModifier"
  | responseHeaderModifier => "ResponseHeaderModifier"
  | requestRedirect => "RequestRedirect"
  | urlRewrite => "URLRewrite"
  | requestMirror => "RequestMirror"

/-- Only mirrors may repeat; `earlier` are the filters before the `i`-th. -/
def checkNoRepeatsFrom (earlier : List FilterType) :
    ℕ → List HttpRouteFilter → Except RouteError Unit
  | _, [] => .ok ()
  | i, f :: rest => do
    ensure (f.filterType = .requestMirror ∨ f.filterType ∉ earlier)
      (.incompatible [.text "filter ", .num i, .text ": ", .text f.filterType.name,
        .text " filter cannot be repeated"])
    checkNoRepeatsFrom (earlier ++ [f.filterType]) (i + 1) rest

def checkNoRepeats (filters : List HttpRouteFilter) : Except RouteError Unit :=
  checkNoRepeatsFrom [] 0 filters

variable {f : HttpRouteFilter}

/-- Of filters without repeats, one that is no mirror is the only one of its kind. -/
theorem findSome?_of_noRepeats {β : Type*} {filters : List HttpRouteFilter}
    {earlier : List FilterType} {i : ℕ} (h : checkNoRepeatsFrom earlier i filters = .ok ())
    (hf : f ∈ filters) (hmirror : f.filterType ≠ .requestMirror)
    {k : HttpRouteFilter → Option β} (hk : ∀ g, (k g).isSome = true → g.filterType = f.filterType)
    (hsome : (k f).isSome = true) : f.filterType ∉ earlier ∧ filters.findSome? k = k f := by
  induction filters generalizing earlier i with
  | nil => cases hf
  | cons g rest ih =>
    rw [checkNoRepeatsFrom, seq_eq_ok, ensure_eq_ok] at h
    obtain ⟨hg, hrest⟩ := h
    rcases mem_cons.mp hf with rfl | hf
    · obtain ⟨b, hb⟩ := Option.isSome_iff_exists.mp hsome
      exact ⟨hg.resolve_left hmirror, by rw [findSome?_cons, hb]⟩
    · obtain ⟨hearlier, hfound⟩ := ih hrest hf
      rw [mem_append, mem_singleton, not_or] at hearlier
      have hnone : k g = none := by
        rw [← Option.not_isSome_iff_eq_none]
        exact fun hg => hearlier.2 (hk g hg).symm
      exact ⟨hearlier.1, by rw [findSome?_cons, hnone, hfound]⟩

/-- Combinations within one rule that would put a malformed message on the wire, or that the
spec forbids. -/
def checkFilterCombination (filters : List HttpRouteFilter) : Except RouteError Unit := do
  checkNoRepeats filters
  ensure (¬ (.requestRedirect ∈ filters.map HttpRouteFilter.filterType ∧
      .urlRewrite ∈ filters.map HttpRouteFilter.filterType))
    (.incompatible [.text "URLRewrite and RequestRedirect are mutually exclusive"])
  (checkRuleFilters filters).mapError .incompatible

def HttpURLRewritePath.replacesPrefix : HttpURLRewritePath → Bool
  | replaceFullPath _ => false
  | replacePrefixMatch _ => true

def HttpRouteFilter.replacesPrefix : HttpRouteFilter → Bool
  | requestRedirect config => config.path.any HttpURLRewritePath.replacesPrefix
  | urlRewrite config => config.path.any HttpURLRewritePath.replacesPrefix
  | _ => false

def HttpPathMatchType.name : HttpPathMatchType → String
  | pathPrefix => "PathPrefix"
  | exact => "Exact"
  | regularExpression => "RegularExpression"

/-- A prefix is replaced only where a prefix matched. -/
def checkPrefixReplacement (rule : HttpRouteRule) : Except RouteError Unit :=
  if rule.filters.any HttpRouteFilter.replacesPrefix then
    checkEach (fun i m => match m.path with
      | some p => ensure (p.matchType = .pathPrefix)
          (.incompatible [.text "match ", .num i,
            .text ": ReplacePrefixMatch requires a PathPrefix path match, got ",
            .text p.matchType.name])
      | none => .ok ()) 0 rule.routeMatches
  else .ok ()

def BackendRef.validate (b : BackendRef) : Result Unit := do
  ensure (b.name.octets ≠ []) [.text "Backend ref name cannot be empty"]
  ensure (b.port ≠ 0) [.text "Backend ref port", .text " must be between 1 and 65535"]
  ensure (b.weight ≤ 1000000) [.text "Backend weight must be 0-1000000, got ", .num b.weight.toNat]

section

variable {R : Type} [Routing.RegexEngine R]

def minMethodLen : ℕ := 3

def maxMethodLen : ℕ := 20

def isMethodByte (b : UInt8) : Bool := isAsciiUppercase b || b == 0x2d

/-- Whether a configured method is one the proxy could see on the wire. -/
def isValidMethod (method : Bytes) : Bool :=
  minMethodLen ≤ method.length && method.length ≤ maxMethodLen &&
    method.head?.any isAsciiAlphabetic && method.all fun b => isMethodByte (toAsciiUppercase b)

def compileRegex (pattern : Str) (what : String) : Except RouteError R :=
  (Routing.RegexEngine.compile pattern).mapError fun e =>
    .unsupported [.text "Invalid ", .text what, .text " regex '", .display pattern, .text "': ",
      .display e]

def valueMatcher (value : Str) (what : String) :
    StringMatchType → Except RouteError (Routing.ValueMatcher R)
  | .exact => .ok (.exact value)
  | .regularExpression => do return .regex (← compileRegex value what)

def compileHeaderMatch (h : NamedMatch) : Except RouteError (Routing.HeaderMatch R) := do
  ensure (h.name.octets ≠ []) (.unsupported [.text "Header match name cannot be empty"])
  ensure (isHeaderName h.name.octets)
    (.unsupported [.text "Header match name '", .display h.name,
      .text "' contains invalid characters"])
  return ⟨h.name.toAsciiLowercase, ← valueMatcher h.value "header match" h.matchType⟩

def compileQueryMatch (q : NamedMatch) : Except RouteError (Routing.QueryParamMatch R) := do
  ensure (q.name.octets ≠ []) (.unsupported [.text "Query param name cannot be empty"])
  ensure (0x26 ∉ q.name.octets ∧ 0x3d ∉ q.name.octets)
    (.unsupported [.text "Query param name '", .display q.name,
      .text "' must not contain '&' or '='"])
  return ⟨q.name, ← valueMatcher q.value "query param match" q.matchType⟩

/-- A trailing `/` of a prefix is ignored; the root stays. -/
def trimPrefix (value : Str) : Str :=
  let trimmed := value.trimEnd slash (by decide)
  if trimmed.octets = [] then Str.lit "/" else trimmed

/-- The kind of the path match, its path and its expression. -/
def compilePath (path : Option HttpPathMatch) :
    Except RouteError (Routing.PathMatchType × Str × Option R) :=
  match path with
  | none => .ok (.pathPrefix, Str.lit "/", none)
  | some ⟨.regularExpression, value⟩ => do
    return (.regularExpression, value, some (← compileRegex value "path"))
  | some ⟨.exact, value⟩ => do
    ensure (value.octets.head? = some slash)
      (.unsupported [.text "Path match value must start with '/': ", .display value])
    return (.exact, value, none)
  | some ⟨.pathPrefix, value⟩ => do
    ensure (value.octets.head? = some slash)
      (.unsupported [.text "Path match value must start with '/': ", .display value])
    return (.pathPrefix, trimPrefix value, none)

def compileMatch (m : HttpRouteMatch) : Except RouteError (CompiledMatch R) := do
  match m.method with
  | some method =>
    ensure (isValidMethod method.octets)
      (.unsupported [.text "Invalid HTTP method '", .display method, .text "': expected ",
        .num minMethodLen, .text " to ", .num maxMethodLen,
        .text " letters or '-' as IANA registers them (GET, PROPFIND, MKCALENDAR, ...)"])
  | none => .ok ()
  let (pathMatchType, path, pathRegex) ← compilePath m.path
  let headers ← collect (RouteError.at "header ") compileHeaderMatch m.headers
  let queryParams ← collect (RouteError.at "query param ") compileQueryMatch m.queryParams
  return ⟨m.method, pathMatchType, path, pathRegex, headers, queryParams⟩

end

/-- The quotients by the gcd, within the bounds of the Gateway API. -/
def newFraction (numerator denominator : UInt32) : Option Routing.Fraction :=
  if denominator = 0 ∨ numerator > denominator then none
  else
    let gcd := Nat.gcd numerator.toNat denominator.toNat
    some ⟨.ofNat (numerator.toNat / gcd), .ofNat (denominator.toNat / gcd)⟩

def mirrorFraction (percent : Option UInt32) (fraction : Option MirrorFraction) :
    Except RouteError Routing.Fraction :=
  let share (numerator denominator : UInt32) : Except RouteError Routing.Fraction :=
    match newFraction numerator denominator with
    | some f => .ok f
    | none => .error (.unsupported [.text "RequestMirror share ", .num numerator.toNat, .text "/",
        .num denominator.toNat, .text (" is not a fraction of requests: the denominator must be at "
          ++ "least 1 and the numerator no larger")])
  match fraction, percent with
  | some _, some _ => .error (.unsupported
      [.text "Only one of percent or fraction may be specified in HTTPRequestMirrorFilter"])
  | some f, none => share f.numerator f.denominator
  | none, some percent => share percent 100
  | none, none => .ok ⟨1, 1⟩

def HttpURLRewritePath.toTable : HttpURLRewritePath → Routing.URLRewritePath
  | replaceFullPath value => .replaceFullPath (.ofStr value)
  | replacePrefixMatch value => .replacePrefixMatch (.ofStr value)

/-- A checked filter in the table's form. -/
def tableFilter : HttpRouteFilter → Except RouteError CompiledFilter
  | .requestHeaderModifier config =>
    .ok (.ready (.requestHeaderModifier config.add config.set config.remove))
  | .responseHeaderModifier config =>
    .ok (.ready (.responseHeaderModifier config.add config.set config.remove))
  | .requestRedirect config =>
    .ok (.ready (.requestRedirect (config.scheme.map Str.toAsciiLowercase) config.hostname
      config.port (config.path.map HttpURLRewritePath.toTable) config.statusCode))
  | .urlRewrite config =>
    .ok (.ready (.urlRewrite config.hostname (config.path.map HttpURLRewritePath.toTable)))
  | .requestMirror backendRef percent fraction => do
    return .mirror backendRef (← mirrorFraction percent fraction)

/-- What only the filter's own kind asks. -/
def checkKind : HttpRouteFilter → Except RouteError Unit
  | .requestRedirect config =>
    ensure (config.statusCode ∈ [301, 302, 303, 307, 308])
      (.unsupported [.text "RequestRedirect status_code must be 301, 302, 303, 307, or 308, got ",
        .num config.statusCode.toNat])
  | .requestMirror backendRef .. => backendRef.validate.mapError .unsupported
  | _ => .ok ()

def compileFilter (f : HttpRouteFilter) : Except RouteError CompiledFilter := do
  checkKind f
  (checkFilter f).mapError .unsupported
  tableFilter f

theorem checkFilter_of_compileFilter {c : CompiledFilter}
    (h : compileFilter f = .ok c) : checkFilter f = .ok () := by
  rw [compileFilter, seq_eq_ok, seq_eq_ok] at h
  exact mapError_eq_ok.mp h.2.1

/-- A backendRef carries header modifiers only. -/
def compileBackendFilter (f : HttpRouteFilter) : Except RouteError Routing.HttpFilter := do
  let unsupported : RouteError := .unsupported [.text ("only RequestHeaderModifier and "
    ++ "ResponseHeaderModifier are supported on a backend ref")]
  ensure (f.filterType = .requestHeaderModifier ∨ f.filterType = .responseHeaderModifier)
    unsupported
  (checkFilter f).mapError .unsupported
  match ← tableFilter f with
  | .ready filter => .ok filter
  | .mirror .. => .error unsupported

def compileBackendFilters (b : BackendRef) : Except RouteError (List Routing.HttpFilter) := do
  checkNoRepeats b.filters
  collect (RouteError.at "filter ") compileBackendFilter b.filters

section

variable {R : Type} [Routing.RegexEngine R] {compiled : CompiledRule R} {rule : HttpRouteRule}

/-- A rule without matches matches every path. -/
def HttpRouteRule.effectiveMatches (rule : HttpRouteRule) : List HttpRouteMatch :=
  if rule.routeMatches.isEmpty then [.pathPrefix (Str.lit "/")] else rule.routeMatches

def compileRule (rule : HttpRouteRule) : Except RouteError (CompiledRule R) := do
  checkFilterCombination rule.filters
  checkPrefixReplacement rule
  let forwardsTo := if rule.redirects then [] else rule.backendRefs
  let backendFilters ← collect (RouteError.at "backendRef ") compileBackendFilters forwardsTo
  let routeMatches ← collect (RouteError.at "match ") compileMatch rule.effectiveMatches
  let filters ← collect (RouteError.at "filter ") compileFilter rule.filters
  return ⟨rule, routeMatches, filters, backendFilters⟩

def compileHttpRoute (route : HttpRouteConfig) : Except RouteError (List (CompiledRule R)) :=
  collect (RouteError.at "rule ") compileRule route.rules

def CompiledMatch.toRule (m : CompiledMatch R) (filters : List Routing.HttpFilter)
    (backends : List Routing.Backend) : Routing.HttpRouteRule R where
  methodMatch := m.method
  pathMatchType := m.pathMatchType
  path := m.path
  pathRegex := m.pathRegex
  headerMatches := m.headers
  queryParamMatches := m.queryParams
  filters := filters
  backends := backends
  hasFilters := false
  routeIndex := 0

theorem compileRule_eq_ok :
    compileRule rule = .ok compiled ↔
      checkFilterCombination rule.filters = .ok () ∧ checkPrefixReplacement rule = .ok () ∧
      compiled.source = rule ∧
      List.Forall₂ (fun b fs => compileBackendFilters b = .ok fs)
        (if rule.redirects then [] else rule.backendRefs) compiled.backendFilters ∧
      List.Forall₂ (fun m c => compileMatch m = .ok c) rule.effectiveMatches compiled.routeMatches ∧
      List.Forall₂ (fun f c => compileFilter f = .ok c) rule.filters compiled.filters := by
  simp only [compileRule, bind_eq_ok, collect_eq_ok]
  constructor
  · rintro ⟨_, hcomb, _, hprefix, backendFilters, hb, routeMatches, hm, filters, hf, hok⟩
    cases hok
    exact ⟨hcomb, hprefix, rfl, hb, hm, hf⟩
  · rintro ⟨hcomb, hprefix, rfl, hb, hm, hf⟩
    exact ⟨(), hcomb, (), hprefix, _, hb, _, hm, _, hf, rfl⟩

theorem checkFilter_of_compileRule (h : compileRule rule = .ok compiled) (hf : f ∈ rule.filters) :
    checkFilter f = .ok () := by
  obtain ⟨-, -, -, -, -, hfilters⟩ := compileRule_eq_ok.mp h
  obtain ⟨c, -, hc⟩ := forall₂_exists_right hfilters hf
  exact checkFilter_of_compileFilter hc

end
end Portail.Config
