import Portail.Config.Build
import Portail.Proxy.RoundTrip

/-!
# Redirects and rewrites

`build_redirect` formats the Location of a redirect from the parsed request; the forward
path splices a rewritten path into the request line. A path modifier gives both the same
path and query (`rewrite_redirect_agree`).
-/

namespace Portail.Proxy

open Lib Http Routing Config List Option

section

variable {R : Type}

/-- Scheme, host and port of a Location. The port is left out where it is the scheme's own, or
where the scheme changes and the filter names none. -/
def redirectOrigin (scheme : Option Bytes) (hostname : Bytes) (port : Option UInt16)
    (defaultScheme : Bytes) (incomingPort : UInt16) : Bytes :=
  let finalScheme := scheme.getD defaultScheme
  let schemeChanged := scheme.isSome ∧ finalScheme ≠ defaultScheme
  let effectivePort := match port with
    | some p => some p
    | none => if schemeChanged then none else some incomingPort
  let portText := match effectivePort with
    | some p =>
      if finalScheme = bytes "http" ∧ p = 80 ∨ finalScheme = bytes "https" ∧ p = 443 then []
      else colon :: toDecimal p.toNat
    | none => []
  finalScheme ++ bytes "://" ++ hostname ++ portText

/-- The path and query of a Location. -/
def redirectTarget (path : Bytes) (valueQuery : Option Bytes) (query : Bytes) : Bytes :=
  let (queryMark, valueQuery, glue) : Bytes × Bytes × Bytes := match valueQuery with
    | none => if query.isEmpty then ([], [], []) else ([question], [], [])
    | some valueQuery =>
      if query.isEmpty then ([question], valueQuery, [])
      else ([question], valueQuery, queryGlue valueQuery)
  path ++ queryMark ++ valueQuery ++ glue ++ query

def buildRedirectLocation (scheme : Option Bytes) (hostname : Bytes) (port : Option UInt16)
    (path : Bytes) (valueQuery : Option Bytes) (query defaultScheme : Bytes)
    (incomingPort : UInt16) : Bytes :=
  redirectOrigin scheme hostname port defaultScheme incomingPort ++
    redirectTarget path valueQuery query

/-- The status and Location of the first redirect of a list of filters. -/
def redirectOf (rulePath requestHost requestPath query : Bytes) (isTls : Bool)
    (serverPort : UInt16) : List HttpFilter → Option (UInt16 × Bytes)
  | [] => none
  | .requestRedirect scheme hostname port path statusCode :: _ =>
    let (redirectPath, valueQuery) : Bytes × Option Bytes := match path with
      | some (.replaceFullPath value) => (value.path.octets, value.query.map Str.octets)
      | some (.replacePrefixMatch value) =>
        (joinPrefixPath value.path.octets (prefixRemainder rulePath requestPath),
          value.query.map Str.octets)
      | none => (requestPath, none)
    let defaultScheme := if isTls then bytes "https" else bytes "http"
    some (statusCode, buildRedirectLocation (scheme.map Str.octets)
      ((hostname.map Str.octets).getD requestHost) port redirectPath valueQuery query
      defaultScheme serverPort)
  | _ :: rest => redirectOf rulePath requestHost requestPath query isTls serverPort rest

def buildRedirect (rule : Routing.HttpRouteRule R) (requestHost requestPath query : Bytes)
    (isTls : Bool) (serverPort : UInt16) : Option (UInt16 × Bytes) :=
  redirectOf rule.path.octets requestHost requestPath query isTls serverPort rule.filters

end

/-- The value's query, then the request's. -/
def joinedQuery (valueQuery : Option Bytes) (query : Bytes) : Bytes :=
  let valueQuery := valueQuery.getD []
  if valueQuery = [] ∨ query = [] ∨ valueQuery.getLast? = some 0x26 then valueQuery ++ query
  else valueQuery ++ bytes "&" ++ query

/-- The target is the path, with the query behind a `?`; a bare `?` is no query. -/
def Targets (path query target : Bytes) : Prop :=
  target = path ++ question :: query ∨ query = [] ∧ target = path

variable {query path target : Bytes}

theorem Targets.splitQuery_eq (h : Targets path query target)
    (hpath : question ∉ path) : splitQuery target = (path, query) := by
  rcases h with rfl | ⟨rfl, rfl⟩
  · exact splitQuery_cons hpath query
  · exact splitQuery_nil hpath

theorem count_joinedQuery (valueQuery : Option Bytes) (query : Bytes) :
    (joinedQuery valueQuery query).count question =
      (valueQuery.getD []).count question + query.count question := by
  have hglue : (bytes "&").count question = 0 := by decide
  unfold joinedQuery
  dsimp only
  split_ifs
  · exact count_append
  · rw [count_append, count_append, hglue, add_zero]

/-- One `?` at most stands in the target that neither query brought. -/
theorem Targets.count_le (h : Targets path query target)
    (hpath : question ∉ path) : target.count question ≤ query.count question + 1 := by
  have hnone : path.count question = 0 := count_eq_zero.mpr hpath
  rcases h with rfl | ⟨rfl, rfl⟩
  · rw [count_append, hnone, count_cons_self, zero_add]
  · rw [hnone]
    exact Nat.zero_le _

theorem queryGlue_append (valueQuery : Bytes) (hquery : query ≠ []) :
    valueQuery ++ (queryGlue valueQuery ++ query) = joinedQuery (some valueQuery) query := by
  unfold queryGlue joinedQuery
  by_cases hv : valueQuery = []
  · simp [hv]
  · by_cases hamp : valueQuery.getLast? = some 0x26
    · simp [hv, hamp]
    · simp [hv, hamp, hquery]

theorem targets_joinQuery (path : Bytes) (valueQuery : Option Bytes) {q : Bytes}
    (hq : q = [] ∧ query = [] ∨ q = question :: query) :
    Targets path (joinedQuery valueQuery query) (path ++ joinQuery valueQuery q) := by
  cases valueQuery with
  | none =>
    rcases hq with ⟨rfl, rfl⟩ | rfl
    · exact .inr ⟨rfl, append_nil path⟩
    · exact .inl rfl
  | some v =>
    left
    by_cases hquery : query = []
    · have hjoin : joinedQuery (some v) query = v := by simp [joinedQuery, hquery]
      rw [hjoin]
      rcases hq with ⟨rfl, -⟩ | rfl
      · simp [joinQuery]
      · simp [joinQuery, hquery]
    · obtain rfl : q = question :: query := hq.resolve_left fun h => hquery h.2
      have hlong : 1 < (question :: query).length :=
        Nat.succ_lt_succ (length_pos_iff.mpr hquery)
      rw [joinQuery, if_pos hlong, tail_cons, queryGlue_append v hquery]

theorem targets_redirectTarget (path : Bytes) (valueQuery : Option Bytes) (query : Bytes) :
    Targets path (joinedQuery valueQuery query) (redirectTarget path valueQuery query) := by
  unfold redirectTarget
  by_cases hquery : query = []
  · subst hquery
    cases valueQuery with
    | none => exact .inr ⟨rfl, by simp⟩
    | some v => exact .inl (by simp [joinedQuery])
  · have hne : query.isEmpty = false := by simpa using hquery
    left
    cases valueQuery with
    | none => simp [hne, joinedQuery]
    | some v =>
      rw [← queryGlue_append v hquery]
      simp [hne]

theorem Targets.isTargetText (h : Targets path query target)
    (hpath : ∀ b ∈ path, is b .target = true)
    (hquery : ∀ b ∈ query, is b .target = true ∨ b = backslash) : IsTargetText target := by
  rcases h with rfl | ⟨-, rfl⟩
  · rw [show path ++ question :: query = (path ++ [question]) ++ query by simp]
    refine isTargetText_append (fun b hb => ?_) (by simp) hquery
    rcases mem_append.mp hb with hb | hb
    · exact hpath b hb
    · rw [mem_singleton.mp hb]
      decide
  · exact isTargetText_of_forall hpath

/-- Queries of a target, joined, are one. -/
theorem joinedQuery_byte {valueQuery : Option Bytes} {P : UInt8 → Prop} (hamp : P 0x26)
    (hvalue : ∀ v ∈ valueQuery, ∀ b ∈ v, P b) (hquery : ∀ b ∈ query, P b) :
    ∀ b ∈ joinedQuery valueQuery query, P b := by
  have hvalue' : ∀ b ∈ valueQuery.getD [], P b := by
    cases valueQuery with
    | none => simp
    | some v => exact hvalue v rfl
  have hglue : ∀ b ∈ bytes "&", P b := by
    intro b hb
    have hone : bytes "&" = [0x26] := by decide
    rw [hone, mem_singleton] at hb
    exact hb ▸ hamp
  intro b hb
  unfold joinedQuery at hb
  dsimp only at hb
  split_ifs at hb
  · exact (mem_append.mp hb).elim (hvalue' b) (hquery b)
  · rcases mem_append.mp hb with hb | hb
    · exact (mem_append.mp hb).elim (hvalue' b) (hglue b)
    · exact hquery b hb

section

def modifierValue : HttpURLRewritePath → Str
  | .replaceFullPath value => value
  | .replacePrefixMatch value => value

theorem pathValue_spec (value : Str) :
    question ∉ (PathValue.ofStr value).path.octets ∧
      (∀ b ∈ (PathValue.ofStr value).path.octets, b ∈ value.octets) ∧
      ∀ v ∈ (PathValue.ofStr value).query, ∀ b ∈ v.octets, b ∈ value.octets := by
  unfold PathValue.ofStr
  obtain ⟨hnone, hmem⟩ | ⟨x, y, hsome, hvalue, hx⟩ :=
    Str.splitOnce_cases (show question < 0x80 by decide) value
  · rw [hnone]
    exact ⟨hmem, fun b hb => hb, fun v hv => by cases hv⟩
  · rw [hsome, hvalue]
    refine ⟨hx, fun b hb => mem_append_left _ hb, fun v hv b hb => ?_⟩
    cases hv
    exact mem_append_right _ (mem_cons_of_mem _ hb)

def dropSlash (path : Bytes) : Bytes :=
  if path.getLast? = some slash then path.dropLast else path

theorem dropSlash_append (h : path.getLast? = some slash) : dropSlash path ++ [slash] = path := by
  rw [dropSlash, if_pos h, dropLast_append_getLast? _ h]

variable {b : UInt8}

theorem mem_of_mem_dropSlash (hb : b ∈ dropSlash path) : b ∈ path := by
  unfold dropSlash at hb
  split_ifs at hb
  · exact mem_of_mem_dropLast hb
  · exact hb

/-- The join, by what follows the prefix: nothing, a `/`, or the rest of a path cut behind one. -/
theorem joinPrefixPath_eq (replacement suffix : Bytes) :
    joinPrefixPath replacement suffix =
      if suffix = [] then if replacement = [] then [slash] else replacement
      else if suffix.head? = some slash then dropSlash replacement ++ suffix
      else dropSlash replacement ++ slash :: suffix := by
  unfold joinPrefixPath
  by_cases hsuffix : suffix = []
  · subst hsuffix
    simp
  · rw [if_neg hsuffix]
    by_cases hhead : suffix.head? = some slash
    · simp [hhead, hsuffix, dropSlash]
    · by_cases hlast : replacement.getLast? = some slash
      · have hjoin := dropSlash_append hlast
        have hsplit : dropSlash replacement ++ slash :: suffix = replacement ++ suffix := by
          conv_rhs => rw [← hjoin]
          simp
        rw [if_neg hhead, hsplit]
        simp [hhead, hsuffix, hlast]
      · simp [hhead, hsuffix, hlast, dropSlash]

theorem mem_joinPrefixPath {replacement suffix : Bytes}
    (hb : b ∈ joinPrefixPath replacement suffix) : b ∈ replacement ∨ b = slash ∨ b ∈ suffix := by
  rw [joinPrefixPath_eq] at hb
  split_ifs at hb
  · exact .inr (.inl (mem_singleton.mp hb))
  · exact .inl hb
  · exact (mem_append.mp hb).imp mem_of_mem_dropSlash .inr
  · exact (mem_append.mp hb).imp mem_of_mem_dropSlash mem_cons.mp

variable {rulePath requestPath : Bytes} {value : HttpURLRewritePath} {filter : String}

theorem mem_rewrittenPath (hb : b ∈ (rewrittenPath rulePath requestPath value.toTable).path) :
    b ∈ (PathValue.ofStr (modifierValue value)).path.octets ∨ b = slash ∨ b ∈ requestPath := by
  cases value with
  | replaceFullPath text => exact .inl hb
  | replacePrefixMatch text =>
    refine (mem_joinPrefixPath hb).imp_right (Or.imp_right fun hb => ?_)
    unfold prefixRemainder at hb
    split_ifs at hb
    · exact mem_of_mem_drop hb
    · cases hb

theorem rewrittenPath_query : (rewrittenPath rulePath requestPath value.toTable).query =
    (PathValue.ofStr (modifierValue value)).query.map Str.octets := by
  cases value <;> rfl

theorem question_not_mem_rewrittenPath (hpath : question ∉ requestPath) :
    question ∉ (rewrittenPath rulePath requestPath value.toTable).path := by
  intro hb
  rcases mem_rewrittenPath hb with hb | hb | hb
  · exact (pathValue_spec _).1 hb
  · exact absurd hb (by decide)
  · exact hpath hb

theorem checkRewritePath_byte (h : checkRewritePath filter value = .ok ()) :
    ∀ b ∈ (modifierValue value).octets, isTargetByte b = true := by
  cases value with
  | replaceFullPath text => exact (checkPath_eq_ok.mp (mapError_eq_ok.mp h)).2
  | replacePrefixMatch text =>
    rw [checkRewritePath] at h
    split_ifs at h with hempty
    · intro b hb
      rw [modifierValue, isEmpty_iff.mp hempty] at hb
      cases hb
    · exact (checkPath_eq_ok.mp (mapError_eq_ok.mp h)).2

theorem checkRewritePath_of_checkDestination {hostname : Option Str}
    (h : checkDestination filter hostname (some value) = .ok ()) :
    checkRewritePath filter value = .ok () := by
  unfold checkDestination at h
  cases hostname with
  | none => exact h
  | some host => exact (seq_eq_ok.mp h).2

/-- The target a checked value gives is one a request line may hold. -/
theorem isTargetText_rewritten (hvalue : ∀ b ∈ (modifierValue value).octets, isTargetByte b = true)
    {q : Bytes} {c : Cow} (ht : SentTarget path c q) :
    IsTargetText ((rewrittenPath rulePath c.text value.toTable).path ++
      joinQuery (rewrittenPath rulePath c.text value.toTable).query q) := by
  refine (targets_joinQuery _ _ ht.query).isTargetText (fun b hb => ?_) ?_
  · rcases mem_rewrittenPath hb with hb | rfl | hb
    · exact hvalue b ((pathValue_spec _).2.1 b hb)
    · decide
    · exact target_byte_of_no_query ht.text rfl ht.no_query b hb
  · refine joinedQuery_byte (.inl (by decide)) (fun v hv b hb => ?_) fun b hb => ?_
    · rw [rewrittenPath_query] at hv
      obtain ⟨text, htext, rfl⟩ := map_eq_some_iff.mp hv
      exact .inl (hvalue b ((pathValue_spec _).2.2 text htext b hb))
    · rcases ht.query with ⟨-, hnil⟩ | hq
      · rw [hnil] at hb
        cases hb
      · exact ht.text.1 b (mem_append_right _ (hq ▸ mem_cons_of_mem _ hb))

end

section

variable (rulePath requestPath : Bytes)

theorem extractUrlRewrite_eq (filters : List HttpFilter) :
    extractUrlRewrite rulePath requestPath filters =
      filters.findSome? fun f => extractUrlRewrite rulePath requestPath [f] :=
  eq_findSome? rfl (fun f _ => by cases f <;> rfl) filters

/-- The path and query of its own that a redirect sends the client to. -/
def redirectedPath (rulePath requestPath : Bytes) (path : Option HttpURLRewritePath) :
    RewrittenPath :=
  path.elim ⟨requestPath, none⟩ fun value => rewrittenPath rulePath requestPath value.toTable

variable (requestHost query : Bytes) (isTls : Bool) (serverPort : UInt16)

theorem redirectOf_eq (filters : List HttpFilter) :
    redirectOf rulePath requestHost requestPath query isTls serverPort filters =
      filters.findSome? fun f =>
        redirectOf rulePath requestHost requestPath query isTls serverPort [f] :=
  eq_findSome? rfl (fun f _ => by cases f <;> rfl) filters

variable {R : Type} [RegexEngine R] {source : Config.HttpRouteRule} {compiled : CompiledRule R}
  {r : Resolver} {found : List HttpFilter} (hcompiled : compileRule source = .ok compiled)
  (hfound : ruleFilters r compiled.filters = .ok found)

include hcompiled hfound in
theorem extractUrlRewrite_compiled {config : URLRewriteConfig}
    (hf : .urlRewrite config ∈ source.filters) :
    extractUrlRewrite rulePath requestPath found =
      some ⟨config.hostname.map Str.octets,
        config.path.map fun value => rewrittenPath rulePath requestPath value.toTable⟩ := by
  rw [extractUrlRewrite_eq, findSome?_compiled (fun _ _ => rfl) hcompiled hfound hf
    (by simp [HttpRouteFilter.filterType]) ?_ rfl]
  · simp [HttpRouteFilter.ready?, tableFilter, extractUrlRewrite, Function.comp_def]
  · intro f' hf'
    cases f' with
    | urlRewrite config => rfl
    | requestMirror backendRef percent fraction =>
      rw [ready?_mirror] at hf'
      cases hf'
    | requestHeaderModifier config | responseHeaderModifier config | requestRedirect config =>
      cases hf'

include hcompiled hfound in
theorem redirectOf_config {config : RequestRedirectConfig}
    (hf : .requestRedirect config ∈ source.filters) :
    redirectOf rulePath requestHost requestPath query isTls serverPort found =
      some (config.statusCode,
        redirectOrigin ((config.scheme.map Str.toAsciiLowercase).map Str.octets)
          ((config.hostname.map Str.octets).getD requestHost) config.port
          (if isTls then bytes "https" else bytes "http") serverPort ++
        redirectTarget (redirectedPath rulePath requestPath config.path).path
          (redirectedPath rulePath requestPath config.path).query query) := by
  rw [redirectOf_eq, findSome?_compiled (fun _ _ => rfl) hcompiled hfound hf
    (by simp [HttpRouteFilter.filterType]) ?_ rfl]
  · simp only [HttpRouteFilter.ready?, tableFilter]
    rcases config.path with _ | value
    · rfl
    · cases value <;> rfl
  · intro f' hf'
    cases f' with
    | requestRedirect config => rfl
    | requestMirror backendRef percent fraction =>
      rw [ready?_mirror] at hf'
      cases hf'
    | requestHeaderModifier config | responseHeaderModifier config | urlRewrite config => cases hf'

end

section

variable {R : Type}

theorem buildOutgoingHeaders_rewritten {data : Bytes} (hlen : data.length < 2 ^ 32)
    {info : HttpRequestInfo} (hacc : accepted data = some info) {c : Cow}
    (hpath : normalizePath info.path = some c) {rule : Routing.HttpRouteRule R}
    (hfilters : rule.hasFilters = true) {hostname : Option Bytes} {p : RewrittenPath}
    (hrewrite : extractUrlRewrite rule.path.octets c.text rule.filters = some ⟨hostname, some p⟩)
    (hp : ∀ {path q}, SentTarget path c q → IsTargetText (p.path ++ joinQuery p.query q))
    (backend : Backend) (peerIp : IpAddr) (isTls : Bool) :
    question ∉ c.text ∧ ∃ (http10 : Bool) (rest q : Bytes),
      (q = [] ∧ info.queryString = [] ∨ q = question :: info.queryString) ∧
      buildOutgoingHeaders data info.headLen rule backend (requestMeta data info c) peerIp isTls =
        requestLine info.method (p.path ++ joinQuery p.query q) http10 ++ (crlf ++ rest) := by
  obtain ⟨h, authority, path, offset, tail, hread, rfl, rfl⟩ := exists_head_of_accepted hacc
  obtain ⟨h', q, hwire, hr, -, htarget, ht, -⟩ :=
    assembleOutgoing_spec hread tail hlen hpath peerIp isTls
  have hs' := hr.strict hread.strict
  have hmeta : (requestMeta (h.wire ++ tail) (h.info authority path offset) c).path h.wire =
      c.text := requestMeta_path hread.strict hread.form tail hlen hpath
  have hput : putRequestLine h'.firstLine p.path p.query =
      requestLine h'.method (p.path ++ joinQuery p.query q) h'.http10 := by
    rw [RequestHead.firstLine, htarget]
    exact putRequestLine_eq (sp_not_mem_method hs') (sp_not_mem_target ht.text) ht.no_query
      (ht.query.imp And.left fun h => ⟨_, h⟩) _ _ _
  -- the rule's own pass writes the line; the backend's finds it whole
  have hpass (mods : Option HeaderModifications) : ∃ rest,
      applyRequestHeaderModifications h'.wire mods (some ⟨hostname, some p⟩) =
      requestLine h'.method (p.path ++ joinQuery p.query q) h'.http10 ++ (crlf ++ rest) := by
    rw [applyRequestHeaderModifications, rewriteRequestHead, wire_eq_line,
      splitFirstLine_line hs'.firstLine_plain.2]
    simp only [bind_some, hput, append_assoc]
    exact ⟨_, rfl⟩
  refine ⟨ht.no_query, h'.http10, ?_⟩
  rw [buildOutgoingHeaders, h.take_headLen, if_pos hfilters, hmeta, hrewrite, hwire]
  simp only [filteredHead, isSome_some, true_or, or_true, if_true]
  rw [show (h.info authority path offset).method = h'.method from hr.method.symm]
  obtain ⟨rest, hrest⟩ := hpass (extractHeaderMods false rule.filters)
  rw [hrest]
  cases extractHeaderMods false backend.filters with
  | none => exact ⟨rest, q, ht.query, rfl⟩
  | some mods =>
    refine ⟨applyHeaderModsInner rest (some mods) none, q, ht.query, ?_⟩
    dsimp only
    rw [applyRequestHeaderModifications, rewriteRequestHead, splitFirstLine_line
      (requestLine_plain hs'.method_token (hp ht).plain _).2]
    simp only [bind_none, append_assoc]

/-- A path modifier puts the same path and query into the forwarded request line and into the
Location of a redirect: its own path, then its query and the request's. The bytes read from a
client are `CLIENT_BUF` at most, far fewer than a span can tell apart. -/
theorem rewrite_redirect_agree [RegexEngine R] {value : HttpURLRewritePath}
    {source source' : Config.HttpRouteRule} {compiled compiled' : CompiledRule R}
    {r r' : Resolver} {rule rule' : Routing.HttpRouteRule R}
    (hcompiled : compileRule source = .ok compiled)
    (hrule : ruleFilters r compiled.filters = .ok rule.filters) {rewrite : URLRewriteConfig}
    (hrewrite : .urlRewrite rewrite ∈ source.filters) (hpath : rewrite.path = some value)
    (hcompiled' : compileRule source' = .ok compiled')
    (hrule' : ruleFilters r' compiled'.filters = .ok rule'.filters)
    {redirect : RequestRedirectConfig} (hredirect : .requestRedirect redirect ∈ source'.filters)
    (hpath' : redirect.path = some value) (hsame : rule'.path = rule.path)
    (data : Bytes) (hlen : data.length < 2 ^ 32) (info : HttpRequestInfo)
    (hacc : accepted data = some info) (c : Cow) (hc : normalizePath info.path = some c)
    (backend : Backend) (peerIp : IpAddr) (isTls : Bool) (serverPort : UInt16) :
    let path := (rewrittenPath rule.path.octets c.text value.toTable).path
    let valueQuery := (PathValue.ofStr (modifierValue value)).query.map Str.octets
    let query := joinedQuery valueQuery info.queryString
    ∃ (http10 : Bool) (rest target target' : Bytes),
      buildOutgoingHeaders data info.headLen (ListenerScope.withFilters rule) backend
          (requestMeta data info c) peerIp isTls =
        requestLine info.method target http10 ++ (crlf ++ rest) ∧
      buildRedirect (ListenerScope.withFilters rule') info.host c.text info.queryString isTls
          serverPort =
        some (redirect.statusCode,
          redirectOrigin ((redirect.scheme.map Str.toAsciiLowercase).map Str.octets)
            ((redirect.hostname.map Str.octets).getD info.host) redirect.port
            (if isTls then bytes "https" else bytes "http") serverPort ++ target') ∧
      splitQuery target = (path, query) ∧ splitQuery target' = (path, query) ∧
      ∀ t ∈ [target, target'], t.count question ≤
        (valueQuery.getD []).count question + info.queryString.count question + 1 := by
  intro path valueQuery query
  have hextract (requestPath : Bytes) :=
    extractUrlRewrite_compiled rule.path.octets requestPath hcompiled hrule hrewrite
  have hfilters : (ListenerScope.withFilters rule).hasFilters = true := by
    have hne : rule.filters ≠ [] := by
      intro hnil
      have hnone := hextract []
      rw [hnil] at hnone
      cases hnone
    simp [ListenerScope.withFilters, hne]
  have hvalue : ∀ b ∈ (modifierValue value).octets, isTargetByte b = true := by
    have hcheck : checkDestination "URLRewrite" rewrite.hostname rewrite.path = .ok () :=
      checkFilter_of_compileRule hcompiled hrewrite
    rw [hpath] at hcheck
    exact checkRewritePath_byte (checkRewritePath_of_checkDestination hcheck)
  have hfound : extractUrlRewrite (ListenerScope.withFilters rule).path.octets c.text
      (ListenerScope.withFilters rule).filters = some ⟨rewrite.hostname.map Str.octets,
        some (rewrittenPath rule.path.octets c.text value.toTable)⟩ := by
    rw [show (ListenerScope.withFilters rule).filters = rule.filters from rfl]
    have hc := hextract c.text
    rw [hpath] at hc
    exact hc
  obtain ⟨hquestion, http10, rest, q, hq, hline⟩ :=
    buildOutgoingHeaders_rewritten hlen hacc hc hfilters hfound (isTargetText_rewritten hvalue)
      backend peerIp isTls
  have hlocation := redirectOf_config rule'.path.octets c.text info.host info.queryString isTls
    serverPort hcompiled' hrule' hredirect
  rw [hsame, hpath', redirectedPath, elim_some] at hlocation
  have hno : question ∉ path := question_not_mem_rewrittenPath hquestion
  have htarget : Targets path query (path ++ joinQuery
      (rewrittenPath rule.path.octets c.text value.toTable).query q) := by
    rw [rewrittenPath_query]
    exact targets_joinQuery path valueQuery hq
  have htarget' : Targets path query (redirectTarget path
      (rewrittenPath rule.path.octets c.text value.toTable).query info.queryString) := by
    rw [rewrittenPath_query]
    exact targets_redirectTarget path valueQuery info.queryString
  refine ⟨http10, rest, _, _, hline, ?_, htarget.splitQuery_eq hno, htarget'.splitQuery_eq hno, ?_⟩
  · rw [← hlocation, ← hsame]
    rfl
  · rw [← count_joinedQuery]
    intro t ht
    rcases mem_cons.mp ht with rfl | ht
    · exact htarget.count_le hno
    · obtain rfl := mem_singleton.mp ht
      exact htarget'.count_le hno

/-- A prefix replacement that brings a query of its own. -/
def apiValue : HttpURLRewritePath := .replacePrefixMatch (.lit "/v2?src=gw")

def apiRewrite : Config.HttpRouteRule :=
  ⟨[.pathPrefix (.lit "/api")], [.urlRewrite ⟨none, some apiValue⟩], []⟩

def apiRedirect : Config.HttpRouteRule :=
  ⟨[.pathPrefix (.lit "/api")], [.requestRedirect ⟨none, none, none, some apiValue, 302⟩], []⟩

def apiTable (filters : List HttpFilter) : Routing.HttpRouteRule Empty :=
  ⟨none, .pathPrefix, .lit "/api", none, [], [], filters, [], false, 0⟩

def apiRequest : Bytes := bytes "GET http://a.b/api/x?y HTTP/1.1\r\nHost: a.b\r\n\r\n"

theorem rewrite_redirect_agree_api :
    ∃ (info : HttpRequestInfo) (c : Cow) (http10 : Bool) (rest target target' : Bytes),
      accepted apiRequest = some info ∧ normalizePath info.path = some c ∧
      buildOutgoingHeaders apiRequest info.headLen (ListenerScope.withFilters
          (apiTable [.urlRewrite none (some apiValue.toTable)]))
          ⟨⟨.v4 (.ofOctets 10 0 0 1), 80⟩, 1, [], false, .lit "b", .forward⟩
          (requestMeta apiRequest info c) (.v4 (.ofOctets 10 0 0 2)) true =
        requestLine info.method target http10 ++ (crlf ++ rest) ∧
      buildRedirect (ListenerScope.withFilters
          (apiTable [.requestRedirect none none none (some apiValue.toTable) 302])) info.host c.text
          info.queryString true 8443 =
        some (302, redirectOrigin none info.host none (bytes "https") 8443 ++ target') ∧
      splitQuery target = splitQuery target' := by
  have hsome : ((accepted apiRequest).bind fun info => normalizePath info.path).isSome = true := by
    decide +kernel
  obtain ⟨c, hc⟩ := isSome_iff_exists.mp hsome
  obtain ⟨info, hacc, hc⟩ := bind_eq_some_iff.mp hc
  have hrewrite : compileRule (R := Empty) apiRewrite = .ok _ := rfl
  have hredirect : compileRule (R := Empty) apiRedirect = .ok _ := rfl
  have htable : ruleFilters (podResolver []) [.ready (.urlRewrite none (some apiValue.toTable))] =
      .ok (apiTable [.urlRewrite none (some apiValue.toTable)]).filters := rfl
  have htable' : ruleFilters (podResolver [])
      [.ready (.requestRedirect none none none (some apiValue.toTable) 302)] =
      .ok (apiTable [.requestRedirect none none none (some apiValue.toTable) 302]).filters := rfl
  obtain ⟨http10, rest, target, target', hline, hlocation, hsplit, hsplit', -⟩ :=
    rewrite_redirect_agree hrewrite htable mem_cons_self rfl hredirect htable'
      mem_cons_self rfl rfl apiRequest (by decide +kernel) info hacc c hc
      ⟨⟨.v4 (.ofOctets 10 0 0 1), 80⟩, 1, [], false, .lit "b", .forward⟩
      (.v4 (.ofOctets 10 0 0 2)) true 8443
  exact ⟨info, c, http10, rest, target, target', hacc, hc, hline, hlocation,
    hsplit.trans hsplit'.symm⟩

end

section

def wellKnownPort (scheme : Bytes) : UInt16 := if scheme = bytes "https" then 443 else 80

/-- The port a redirect leads to: its own, the well-known one of the scheme it changes to, or the
listener's. -/
def redirectPort (scheme : Option Bytes) (port : Option UInt16) (requestScheme : Bytes)
    (listenerPort : UInt16) : UInt16 :=
  port.getD ((scheme.filter (· ≠ requestScheme)).elim listenerPort wellKnownPort)

/-- Scheme, host and port as a URL names them. -/
def urlOrigin (scheme host : Bytes) (port : UInt16) : Bytes :=
  scheme ++ bytes "://" ++ host ++
    if port = wellKnownPort scheme then [] else colon :: toDecimal port.toNat

theorem lowercase_scheme {scheme : Str} (h : checkScheme scheme = .ok ()) :
    scheme.toAsciiLowercase.octets = bytes "http" ∨
      scheme.toAsciiLowercase.octets = bytes "https" := by
  refine (ensure_eq_ok.mp h).imp (fun h => ?_) fun h => ?_
  · exact (eqIgnoreAsciiCase_iff.mp h).trans (by decide)
  · exact (eqIgnoreAsciiCase_iff.mp h).trans (by decide)

theorem omitted_iff {scheme : Bytes} (h : scheme = bytes "http" ∨ scheme = bytes "https")
    (p : UInt16) :
    (scheme = bytes "http" ∧ p = 80 ∨ scheme = bytes "https" ∧ p = 443) ↔
      p = wellKnownPort scheme := by
  have hne : bytes "http" ≠ bytes "https" := by decide
  unfold wellKnownPort
  rcases h with rfl | rfl
  · simp [hne]
  · simp [hne.symm]

variable {scheme : Option Bytes} {port : Option UInt16} {defaultScheme : Bytes}

theorem redirectOrigin_eq (hscheme : ∀ s ∈ scheme, s = bytes "http" ∨ s = bytes "https")
    (hdefault : defaultScheme = bytes "http" ∨ defaultScheme = bytes "https") (host : Bytes)
    (listenerPort : UInt16) :
    redirectOrigin scheme host port defaultScheme listenerPort =
      urlOrigin (scheme.getD defaultScheme) host
        (redirectPort scheme port defaultScheme listenerPort) := by
  have hfinal : scheme.getD defaultScheme = bytes "http" ∨
      scheme.getD defaultScheme = bytes "https" := by
    cases scheme with
    | none => exact hdefault
    | some s => exact hscheme s rfl
  unfold redirectOrigin urlOrigin redirectPort
  simp only [omitted_iff hfinal]
  cases port with
  | some p => simp
  | none =>
    cases scheme with
    | none => simp
    | some s =>
      by_cases hs : s = defaultScheme
      · simp [Option.filter_some, hs]
      · simp [Option.filter_some, hs]

variable {R : Type} [RegexEngine R]

/-- A redirect leads to the scheme, host and port its filter and the request give. The port of the
listener stays where the filter names no port and no scheme but the request's. -/
theorem buildRedirect_location {source : Config.HttpRouteRule} {compiled : CompiledRule R}
    (hcompiled : compileRule source = .ok compiled) {r : Resolver} {rule : Routing.HttpRouteRule R}
    (hrule : ruleFilters r compiled.filters = .ok rule.filters) {config : RequestRedirectConfig}
    (hredirect : .requestRedirect config ∈ source.filters)
    (requestHost requestPath query : Bytes) (isTls : Bool) (serverPort : UInt16) :
    let scheme := config.scheme.map fun s => s.toAsciiLowercase.octets
    let requestScheme := if isTls then bytes "https" else bytes "http"
    let path := redirectedPath rule.path.octets requestPath config.path
    buildRedirect rule requestHost requestPath query isTls serverPort =
      some (config.statusCode,
        urlOrigin (scheme.getD requestScheme) ((config.hostname.map Str.octets).getD requestHost)
          (redirectPort scheme config.port requestScheme serverPort) ++
        redirectTarget path.path path.query query) := by
  intro scheme requestScheme path
  have hscheme : ∀ s ∈ scheme, s = bytes "http" ∨ s = bytes "https" := by
    intro s hs
    obtain ⟨text, htext, rfl⟩ := Option.map_eq_some_iff.mp hs
    have hcheck := checkFilter_of_compileRule hcompiled hredirect
    unfold checkFilter at hcheck
    dsimp only at hcheck
    rw [htext] at hcheck
    exact lowercase_scheme (mapError_eq_ok.mp (seq_eq_ok.mp hcheck).1)
  have hdefault : requestScheme = bytes "http" ∨ requestScheme = bytes "https" := by
    cases isTls
    · exact .inl rfl
    · exact .inr rfl
  rw [← redirectOrigin_eq hscheme hdefault, buildRedirect,
    redirectOf_config _ _ _ _ _ _ hcompiled hrule hredirect, Option.map_map]
  rfl

/-- A rule that redirects to another scheme, or to its own. -/
def schemeRule (scheme : String) : Config.HttpRouteRule :=
  ⟨[], [.requestRedirect ⟨some (.lit scheme), none, none, none, 301⟩], []⟩

def schemeTable (scheme : String) : Routing.HttpRouteRule Empty :=
  ⟨none, .pathPrefix, .lit "/", none, [], [],
    [.requestRedirect (some (.lit scheme)) none none none 301], [], false, 0⟩

theorem buildRedirect_location_https :
    buildRedirect (schemeTable "https") (bytes "a.b") (bytes "/x") [] false 8080 =
      some (301, bytes "https://a.b/x") := by
  have hcompiled : compileRule (R := Empty) (schemeRule "HTTPS") = .ok _ := rfl
  have htable : ruleFilters (podResolver []) [.ready (.requestRedirect (some (.lit "https")) none
      none none 301)] = .ok (schemeTable "https").filters := rfl
  have hlocation := buildRedirect_location hcompiled htable mem_cons_self (bytes "a.b")
    (bytes "/x") [] false 8080
  exact hlocation.trans (by decide)

/-- The port of a listener that is not 443 stays, though the filter asks for `https`. -/
theorem same_scheme_keeps_port :
    (∃ compiled : CompiledRule Empty, compileRule (schemeRule "https") = .ok compiled ∧
      ruleFilters (podResolver []) compiled.filters = .ok (schemeTable "https").filters) ∧
    buildRedirect (schemeTable "https") (bytes "a.b") (bytes "/x") [] true 8443 =
      some (301, bytes "https://a.b:8443/x") ∧
    urlOrigin (bytes "https") (bytes "a.b") (wellKnownPort (bytes "https")) =
      bytes "https://a.b" :=
  ⟨⟨_, rfl, rfl⟩, by decide, by decide⟩

end
end Portail.Proxy
