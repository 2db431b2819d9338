import Portail.Proxy.FilteredHead

/-!
# What is forwarded after the filters is read back

The head a backend gets has the framing of the client's, one Host line at most and the
rewritten path. It is accepted exactly when the Host line a modifier may set is one the
parser takes (`filtered_roundTrip_iff`): the checks hold a modifier's values to be field
values only.
-/

namespace Portail.Proxy

open Lib Http Routing Config RequestHead
open Option hiding all all_eq_true
open List hiding set

/-- The parser takes the value of a Host line; an HTTP/1.1 request has to name a host. -/
def hostAccepted (http10 : Bool) (value : Bytes) : Bool :=
  (splitHost (trimOws value)).any fun n => http10 || decide (0 < n)

theorem hostAccepted_iff {f : Field} (hk : f.kind = .host) {value : Bytes}
    (hvalue : f.value = sp :: value) (http10 : Bool) :
    hostAccepted http10 value = true ↔
      f.ok http10 = true ∧ (http10 = false → ∃ host, f.hostPart = some host ∧ host ≠ []) := by
  have hok : f.ok http10 = (splitHost (trimOws value)).isSome := by
    simp only [Field.ok, hk, hvalue, trimOws_sp_cons]
  have hpart : f.hostPart = (splitHost (trimOws value)).map (trimOws value).take := by
    simp only [Field.hostPart, hk, hvalue, trimOws_sp_cons, if_true]
  rw [hok, hpart, hostAccepted]
  cases hsplit : splitHost (trimOws value) with
  | none => simp
  | some n =>
    obtain ⟨host, port, hv, rfl, -, -⟩ := splitHost_eq_some_iff.mp hsplit
    simp only [any_some, isSome_some, true_and, map_some, hv, take_left,
      Option.some.injEq, exists_eq_left', Bool.or_eq_true, decide_eq_true_eq,
      length_pos_iff]
    cases http10 <;> simp

variable {host : Bytes} {route : HttpRouteConfig} {m : HeaderModifications}

theorem isUriHost_of_isHostname (h : isHostname host = true) : IsUriHost host ∧ host ≠ [] := by
  unfold isHostname at h
  split at h
  · next rest =>
    rw [Bool.and_eq_true, beq_iff_eq] at h
    obtain ⟨hlast, hv6⟩ := h
    obtain ⟨hne, htext⟩ := isIpv6_text hv6
    refine ⟨.inr ⟨rest.dropLast, hne, fun b hb => htext b hb, ?_⟩, by simp⟩
    rw [dropLast_append_getLast? _ hlast]
  · rw [isDnsName, Bool.and_eq_true, all_eq_true] at h
    have hlabel : ∀ b : UInt8, (isAsciiAlphanumeric b || b == 0x2d) = true → is b .host = true :=
      forall_octet (by decide +kernel)
    refine ⟨.inl fun b hb => ?_, ?_⟩
    · by_cases hdot : b = 0x2e
      · subst hdot
        decide
      · obtain ⟨label, hmem, hb⟩ := exists_mem_splitOn hb hdot
        have hok := h.2 label hmem
        simp only [isDnsLabel, Bool.and_eq_true, all_eq_true] at hok
        exact hlabel b (hok.1.1.2 b hb)
    · rintro rfl
      exact absurd h.2 (by decide)

theorem isFieldValueByte_of_isHostname (h : isHostname host = true) :
    ∀ b ∈ host, isFieldValueByte b = true := by
  obtain ⟨huri, hne⟩ := isUriHost_of_isHostname h
  let a : Authority := ⟨host, [], hne, huri, .inl rfl⟩
  exact fun b hb => a.field.value_text b (mem_cons_of_mem _ (mem_append_left _ hb))

theorem hostAccepted_hostname (h : isHostname host = true) (http10 : Bool) :
    hostAccepted http10 host = true := by
  obtain ⟨huri, hne⟩ := isUriHost_of_isHostname h
  let a : Authority := ⟨host, [], hne, huri, .inl rfl⟩
  have htext : a.field.value = sp :: host := by
    change sp :: (host ++ []) = sp :: host
    rw [append_nil]
  rw [hostAccepted_iff a.field_kind htext]
  exact ⟨a.field_ok http10, fun _ => ⟨host, Field.hostPart_eq_some.mpr a.field_namesHost, hne⟩⟩

section

variable {h h' sent : RequestHead} {e : Option HttpHeader}

theorem Edits.same (hedits : Edits h h') :
    ofKind .contentLength h'.fields = ofKind .contentLength h.fields ∧
      ofKind .transferEncoding h'.fields = ofKind .transferEncoding h.fields ∧
      ofKind .connection h'.fields = ofKind .connection h.fields ∧
      ofKind .upgrade h'.fields = ofKind .upgrade h.fields := by
  simpa [keptKinds] using hedits.kept

/-- What the filters leave of an outgoing head is in order but for the Host line. -/
theorem strict_iff_hostAccepted (hs : h.Strict) (r : Reframes h h') (hedits : Edits h' sent)
    (hline : LineOk sent) (hhosts : hostLines sent = e.elim (hostLines h') fun e => [entryLine e])
    (he : ∀ x ∈ e, HeaderOk x) :
    sent.Strict ↔ ∀ x ∈ e, hostAccepted sent.http10 x.value.octets = true := by
  obtain ⟨hlength, hcoding, hconnection, -⟩ := hedits.same
  have hframed {f : Field} (hf : f ∈ sent.fields) {k : FieldName} (hk : f.kind = k)
      (hsame : ofKind k sent.fields = ofKind k h'.fields) : f ∈ h'.fields := by
    have hmem : f ∈ ofKind k sent.fields := mem_ofKind.mpr ⟨hf, hk⟩
    rw [hsame] at hmem
    exact (mem_ofKind.mp hmem).1
  -- all but the Host line is as it was
  have hstrict (hok : ∀ f ∈ sent.fields, f.kind = .host → f.ok sent.http10 = true)
      (honce : (ofKind .host sent.fields).length ≤ 1)
      (hpresent : sent.http10 = false → ∃ host, sent.hostLine = some host ∧ host ≠ []) :
      sent.Strict := by
    refine Reframes.strict (h := h) ?_ hs
    exact
      { method := hedits.method.trans r.method
        version := hedits.version.trans r.version
        length := hlength.trans r.length
        coding := hcoding.trans r.coding
        connection := fun f hf hk => by
          rw [hedits.version]
          exact r.connection f (hframed hf hk hconnection) hk
        host_ok := hok
        host_once := honce
        host_present := hpresent
        target_text := hline.target_text
        target_utf8 := hline.target_utf8
        target_form := hline.target_form }
  cases e with
  | none =>
    have hsame : ofKind .host sent.fields = ofKind .host h'.fields :=
      map_injective_iff.mpr fieldLine_injective hhosts
    refine iff_of_true (hstrict (fun f hf hk => ?_) ?_ fun h11 => ?_) nofun
    · rw [hedits.version]
      exact r.host_ok f (hframed hf hk hsame) hk
    · rw [hsame]
      exact r.host_once
    · rw [hostLine_ofKind, hsame, ← hostLine_ofKind]
      exact r.host_present (hedits.version.symm.trans h11)
  | some x =>
    obtain ⟨f, hf, hsent⟩ : ∃ f, ofKind .host sent.fields = [f] ∧ f.line = entryLine x :=
      map_eq_singleton_iff.mp hhosts
    obtain ⟨g, hg, hvalue⟩ := exists_field_of_entry (he x rfl)
    obtain rfl : g = f := fieldLine_injective (hg.trans hsent.symm)
    have honly {f : Field} (hmem : f ∈ sent.fields) (hk : f.kind = .host) : f = g := by
      have hone : f ∈ ofKind .host sent.fields := mem_ofKind.mpr ⟨hmem, hk⟩
      rwa [hf, mem_singleton] at hone
    obtain ⟨hmem, hk⟩ := mem_ofKind.mp (hf ▸ mem_cons_self : g ∈ ofKind .host sent.fields)
    simp only [mem_def, Option.some.injEq, forall_eq', hostAccepted_iff hk hvalue]
    constructor
    · intro hstrict
      refine ⟨(fieldsOk_of_strict hstrict).each g hmem, fun h11 => ?_⟩
      obtain ⟨f, hf, host, hnamed, hne⟩ := hstrict.host_present h11
      rw [honly hf (f.kind_host_iff.mpr hnamed.1)] at hnamed
      exact ⟨host, Field.hostPart_eq_some.mpr hnamed, hne⟩
    · rintro ⟨hok, hpresent⟩
      refine hstrict (fun f hf hk => honly hf hk ▸ hok) (by rw [hf]; exact le_rfl) fun h11 => ?_
      obtain ⟨host, hpart, hne⟩ := hpresent h11
      refine ⟨host, ?_, hne⟩
      rw [hostLine_ofKind, hf, findSome?_cons, hpart]

/-- What is read of a head whose fields were edited is what was read before. -/
theorem Edits.contentLength_eq (hedits : Edits h h') : h'.contentLength = h.contentLength := by
  rw [contentLength_ofKind, contentLength_ofKind, hedits.same.1]

theorem Edits.isChunked_eq (hedits : Edits h h') : h'.isChunked = h.isChunked := by
  rw [isChunked_ofKind, isChunked_ofKind, hedits.same.2.1]

theorem Edits.isUpgrade_eq (hedits : Edits h h') : h'.isUpgrade = h.isUpgrade := by
  obtain ⟨-, -, hconnection, hupgrade⟩ := hedits.same
  rw [isUpgrade_ofKind, isUpgrade_ofKind, hconnection, hupgrade]

end

section

theorem requestMods_ready {f : HttpRouteFilter} (hcheck : checkFilter f = .ok ())
    (hm : (f.ready?.bind fun t => extractHeaderMods false [t]) = some m) :
    RequestMods m ∧ (f.setsHost = false → setsOf m (bytes "host") = []) := by
  cases f with
  | requestHeaderModifier config =>
    obtain rfl : modsOf config = m := some.inj hm
    refine ⟨requestMods_of_modifierOk (checkHeaderModifier_eq_ok.mp (mapError_eq_ok.mp hcheck)),
      fun hno => ?_⟩
    rw [HttpRouteFilter.setsHost, List.any_eq_false] at hno
    exact List.filter_eq_nil_iff.mpr fun e he => hno e he
  | requestMirror backendRef percent fraction =>
    rw [ready?_mirror] at hm
    cases hm
  | responseHeaderModifier config | requestRedirect config | urlRewrite config => cases hm

theorem requestMods_backend {b : BackendRef} {found : List HttpFilter}
    (h : compileBackendFilters b = .ok found) :
    ∀ m ∈ extractHeaderMods false found, RequestMods m := by
  rw [compileBackendFilters, seq_eq_ok, collect_eq_ok] at h
  intro m hm
  rw [extractHeaderMods_eq] at hm
  obtain ⟨t, ht, hm⟩ := exists_of_findSome?_eq_some hm
  obtain ⟨f, -, hf⟩ := forall₂_exists_right h.2.flip ht
  refine (requestMods_ready (checkFilter_of_compileBackendFilter hf) ?_).1
  rw [ready_backendFilter hf]
  exact hm

variable {R : Type} [RegexEngine R] {source : Config.HttpRouteRule} {compiled : CompiledRule R}
  {r : Resolver} {found : List HttpFilter} (hcompiled : compileRule source = .ok compiled)
  (hfound : ruleFilters r compiled.filters = .ok found)
include hcompiled hfound

/-- The modifier of a rule's filters, and that it sets no host beside a rewrite. -/
theorem requestMods_rule :
    ∀ m ∈ extractHeaderMods false found, RequestMods m ∧
      (source.filters.any HttpRouteFilter.rewritesHost = true → setsOf m (bytes "host") = []) := by
  intro m hm
  obtain ⟨hcomb, -, -, -, -, hfilters⟩ := compileRule_eq_ok.mp hcompiled
  rw [extractHeaderMods_eq, findSome?_ruleFilters (fun _ _ => rfl) hfilters hfound] at hm
  obtain ⟨f, hf, hm⟩ := List.exists_of_findSome?_eq_some hm
  obtain ⟨hmods, hnone⟩ := requestMods_ready (checkFilter_of_compileRule hcompiled hf) hm
  refine ⟨hmods, fun hrewrites => hnone ?_⟩
  rw [checkFilterCombination, seq_eq_ok, seq_eq_ok, mapError_eq_ok, checkRuleFilters] at hcomb
  rw [Bool.eq_false_iff]
  exact fun hsets => ensure_eq_ok.mp hcomb.2.2 ⟨hrewrites, List.any_eq_true.mpr ⟨f, hf, hsets⟩⟩

theorem extractUrlRewrite_cases (rulePath requestPath : Bytes) :
    extractUrlRewrite rulePath requestPath found = none ∨
      ∃ config : URLRewriteConfig, .urlRewrite config ∈ source.filters ∧
        extractUrlRewrite rulePath requestPath found =
          some ⟨config.hostname.map Str.octets,
            config.path.map fun value => rewrittenPath rulePath requestPath value.toTable⟩ := by
  by_cases h : ∃ config, HttpRouteFilter.urlRewrite config ∈ source.filters
  · obtain ⟨config, hf⟩ := h
    exact .inr ⟨config, hf, extractUrlRewrite_compiled rulePath requestPath hcompiled hfound hf⟩
  · left
    obtain ⟨-, -, -, -, -, hfilters⟩ := compileRule_eq_ok.mp hcompiled
    rw [extractUrlRewrite_eq, findSome?_ruleFilters (fun _ _ => rfl) hfilters hfound,
      findSome?_eq_none_iff]
    intro f hf
    cases f with
    | urlRewrite config => exact absurd ⟨config, hf⟩ h
    | requestMirror backendRef percent fraction => rw [ready?_mirror]; rfl
    | requestHeaderModifier config | responseHeaderModifier config | requestRedirect config => rfl

/-- What the checks make sure of for a rule's rewrite: a hostname, and a path of their own. -/
theorem extractUrlRewrite_checked (rulePath requestPath : Bytes) :
    ∃ hostname : Option Str,
      (extractUrlRewrite rulePath requestPath found).bind URLRewrite.hostname =
        hostname.map Str.octets ∧
      (∀ host ∈ hostname, isHostname host.octets = true) ∧
      (hostname.isSome = true → source.filters.any HttpRouteFilter.rewritesHost = true) ∧
      ∀ path ∈ (extractUrlRewrite rulePath requestPath found).bind URLRewrite.path,
        ∃ value : HttpURLRewritePath, checkRewritePath "URLRewrite" value = .ok () ∧
          path = rewrittenPath rulePath requestPath value.toTable := by
  obtain hnone | ⟨config, hf, hsome⟩ :=
    extractUrlRewrite_cases hcompiled hfound rulePath requestPath
  · rw [hnone]
    exact ⟨none, rfl, by simp, by simp, by simp⟩
  · have hcheck : checkDestination "URLRewrite" config.hostname config.path = .ok () :=
      checkFilter_of_compileRule hcompiled hf
    rw [hsome]
    refine ⟨config.hostname, rfl, fun host hhost => ?_, fun hsome => ?_, fun path hpath => ?_⟩
    · unfold checkDestination at hcheck
      rw [mem_def.mp hhost] at hcheck
      exact ensure_eq_ok.mp (mapError_eq_ok.mp (seq_eq_ok.mp hcheck).1)
    · exact any_eq_true.mpr ⟨_, hf, hsome⟩
    · obtain ⟨value, hvalue, rfl⟩ := map_eq_some_iff.mp hpath
      rw [hvalue] at hcheck
      exact ⟨value, checkRewritePath_of_checkDestination hcheck, rfl⟩

end

section

variable {R : Type} [RegexEngine R] {config : PortailConfig} {r : Resolver} {routeIdx : ℕ}
  {compiled : CompiledRule R} {rules : List (Routing.HttpRouteRule R)}

theorem filters_refBackends {entry : BackendRef × List HttpFilter} {backends : List Backend}
    (h : refBackends config r entry = .ok backends) :
    ∀ b ∈ backends, b.filters = [] ∨ b.filters = entry.2 := by
  obtain ⟨ref, filters⟩ := entry
  unfold refBackends at h
  dsimp only at h
  intro b hb
  split_ifs at h
  · cases h
    rw [mem_singleton.mp hb]
    exact .inl rfl
  · obtain ⟨found, -, h⟩ := bind_eq_ok.mp h
    cases h
    obtain ⟨x, -, rfl⟩ := mem_map.mp hb
    exact .inr rfl

/-- Where the filters of a rule of the table and of its backends were compiled. -/
theorem filters_tableRules {compiledRules : List (CompiledRule R)}
    (hroute : compileHttpRoute route = .ok compiledRules) (hcompiled : compiled ∈ compiledRules)
    (hrules : tableRules config r routeIdx compiled = .ok rules)
    {rule : Routing.HttpRouteRule R} (hrule : rule ∈ rules) :
    ∃ source, compileRule source = .ok compiled ∧
      ruleFilters r compiled.filters = .ok rule.filters ∧
      ∀ backend ∈ rule.backends, ∀ m ∈ extractHeaderMods false backend.filters, RequestMods m := by
  obtain ⟨source, -, hsource⟩ := forall₂_exists_right (collect_eq_ok.mp hroute).flip hcompiled
  obtain ⟨backends, hbackends, hrules⟩ := bind_eq_ok.mp hrules
  obtain ⟨filters, hfilters, hrules⟩ := bind_eq_ok.mp hrules
  cases hrules
  obtain ⟨m, -, rfl⟩ := mem_map.mp hrule
  refine ⟨source, hsource, hfilters, fun backend hbackend => ?_⟩
  unfold ruleBackends at hbackends
  split_ifs at hbackends
  · cases hbackends
    cases hbackend
  · obtain ⟨groups, hgroups, hbackends⟩ := bind_eq_ok.mp hbackends
    cases hbackends
    obtain ⟨group, hgroup, hbackend⟩ := mem_flatten.mp hbackend
    obtain ⟨entry, hentry, href⟩ := forall₂_exists_right (collect_eq_ok.mp hgroups).flip hgroup
    rcases filters_refBackends href backend hbackend with hnil | hsome
    · rw [hnil]
      rintro m ⟨⟩
    · obtain ⟨-, -, -, hcollected, -, -⟩ := compileRule_eq_ok.mp hsource
      obtain ⟨b, -, hb⟩ :=
        forall₂_exists_right hcollected.flip (of_mem_zip hentry).2
      rw [hsome]
      exact requestMods_backend hb

end

section

/-- The value a list of filters sets the Host line to. -/
def setHost (filters : List HttpFilter) : Option HttpHeader :=
  (extractHeaderMods false filters).bind (setEntry · (bytes "host"))

/-- The path a rule sends a request with. -/
def routedPath {R : Type} (rule : Routing.HttpRouteRule R) (path : Bytes) : Bytes :=
  ((extractUrlRewrite rule.path.octets path rule.filters).bind URLRewrite.path).elim path
    RewrittenPath.path

/-- A request line's version. -/
def isHttp10 (data : Bytes) : Bool := (readRequestLine data).toOption.any RequestLine.isHttp10

/-- The lines of a head that name the host. -/
def namesHost (head : Bytes) : List Bytes := (fieldLines head).filter (isLineOf (bytes "host"))

variable {h : RequestHead} {path : Bytes} {authority : Option Bytes} {offset : Option ℕ}

theorem isHttp10_wire (hs : h.Strict) (hform : TargetForm h.method h.target authority path offset)
    (tail : Bytes) : isHttp10 (h.wire ++ tail) = h.http10 := by
  have hread := readRequestLine_wire hs.method_token hs.target_text hform.target_ne hs.line_utf8
    h.http10 (fieldsWire h.fields ++ (crlf ++ tail))
  rw [isHttp10, show h.wire ++ tail = h.method ++ (sp :: (h.target ++ (versionWire h.http10 ++
    (fieldsWire h.fields ++ (crlf ++ tail))))) by simp [wire], hread]
  rfl

theorem namesHost_wire (hline : LineOk h) : namesHost h.wire = hostLines h := by
  have hlf := (requestLine_plain hline.method_token hline.target_text.plain h.http10).2
  rw [namesHost, (fieldLines_wire hlf).1, hostLines, map_line_ofKind Field.kind_host_iff]

theorem setEntry_passMods (mods : Option HeaderModifications) (hostname : Option Str) :
    setEntry (passMods mods hostname) (bytes "host") =
      (hostname.map (HttpHeader.mk (.lit "Host"))).or (mods.bind (setEntry · (bytes "host"))) := by
  have hnamed : eqIgnoreAsciiCase (Str.lit "Host").octets (bytes "host") = true := by decide
  cases hostname with
  | none => cases mods <;> rfl
  | some host => simp [passMods, setEntry, hnamed]

/-- The target sent is in order, and its path the rewritten one. -/
theorem rewrittenTarget_ok {q method : Bytes} {c : Cow} (ht : SentTarget path c q)
    (hform : TargetForm method (c.text ++ q) none (c.text ++ q) (some 0))
    {urlRewrite : Option URLRewrite} {rulePath : Str}
    (hrewrite : ∀ p ∈ urlRewrite.bind URLRewrite.path, ∃ value : HttpURLRewritePath,
      checkRewritePath "URLRewrite" value = .ok () ∧
        p = rewrittenPath rulePath.octets c.text value.toTable) :
    let target := rewrittenTarget urlRewrite c.text q
    IsTargetText target ∧ isUtf8 target = true ∧ TargetForm method target none target (some 0) ∧
      (splitQuery target).1 = (urlRewrite.bind URLRewrite.path).elim c.text RewrittenPath.path := by
  unfold rewrittenTarget
  cases hpath : urlRewrite.bind URLRewrite.path with
  | none => exact ⟨ht.text, ht.utf8, hform, congrArg Prod.fst ht.splitQuery_eq⟩
  | some p =>
    obtain ⟨value, hvalue, rfl⟩ := hrewrite p hpath
    have hutf8 : isUtf8 c.text = true ∧ isUtf8 (splitQuery path).2 = true := by
      have hall := ht.utf8
      rcases ht.query with ⟨hnil, hquery⟩ | hquery
      · rw [hnil, append_nil] at hall
        exact ⟨hall, by rw [hquery]; rfl⟩
      · rw [hquery] at hall
        exact (isUtf8_cut (by decide)).mp hall
    obtain ⟨hhead, hpathUtf8⟩ := rewrittenPath_ok hvalue rulePath hutf8.1
    have htargets := targets_joinQuery (rewrittenPath rulePath.octets c.text value.toTable).path
      (rewrittenPath rulePath.octets c.text value.toTable).query ht.query
    refine ⟨isTargetText_rewritten (checkRewritePath_byte hvalue) ht,
      htargets.isUtf8 hpathUtf8 ?_, .origin ?_, ?_⟩
    · refine isUtf8_joinedQuery (fun v hv => ?_) hutf8.2
      rw [rewrittenPath_query] at hv
      obtain ⟨text, -, rfl⟩ := map_eq_some_iff.mp hv
      exact text.utf8
    · obtain ⟨rest, hrest⟩ := head?_eq_some_iff.mp hhead
      rw [elim_some, hrest]
      rfl
    · exact congrArg Prod.fst
        (htargets.splitQuery_eq (question_not_mem_rewrittenPath ht.no_query))

section

variable {ruleMods backendMods : Option HeaderModifications} {hostname : Option Str}

theorem headerOk_setEntry (hm : RequestMods m) {name : Bytes} : ∀ x ∈ setEntry m name, HeaderOk x :=
  fun x hx => hm.set_ok x (mem_of_find?_eq_some hx)

theorem finalHost_ok (hpass : RequestMods (passMods ruleMods hostname))
    (hbackend : ∀ m ∈ backendMods, RequestMods m) :
    ∀ x ∈ finalHost ruleMods hostname backendMods, HeaderOk x := by
  intro x hx
  rcases or_eq_some_iff.mp hx with hx | ⟨-, hx⟩
  · obtain ⟨m, hm, hx⟩ := bind_eq_some_iff.mp hx
    exact headerOk_setEntry (hbackend m hm) x hx
  · exact headerOk_setEntry hpass x hx

theorem finalHost_accepted (hhost : ∀ host ∈ hostname, isHostname host.octets = true)
    (hone : hostname.isSome = true → ∀ m ∈ ruleMods, setsOf m (bytes "host") = []) (http10 : Bool) :
    (∀ x ∈ finalHost ruleMods hostname backendMods, hostAccepted http10 x.value.octets = true) ↔
      ∀ x ∈ (backendMods.bind (setEntry · (bytes "host"))).or
        (ruleMods.bind (setEntry · (bytes "host"))), hostAccepted http10 x.value.octets = true := by
  unfold finalHost
  rw [setEntry_passMods]
  cases hostname with
  | none => rfl
  | some host =>
    have hnone : ruleMods.bind (setEntry · (bytes "host")) = none := by
      refine bind_eq_none_iff.mpr fun m hm => find?_eq_none.mpr fun e he => ?_
      exact filter_eq_nil_iff.mp (hone rfl m hm) e he
    rw [hnone]
    cases backendMods.bind (setEntry · (bytes "host")) with
    | none => simpa using hostAccepted_hostname (hhost host rfl) http10
    | some e => rfl

end

variable {R : Type} [RegexEngine R]

/-- The head sent to a backend, after the filters of its rule and its own, as a head. -/
theorem buildOutgoingHeaders_head {compiledRules : List (CompiledRule R)}
    (hroute : compileHttpRoute route = .ok compiledRules) {compiled : CompiledRule R}
    (hcompiled : compiled ∈ compiledRules) {config : PortailConfig} {r : Resolver} {routeIdx : ℕ}
    {rules : List (Routing.HttpRouteRule R)}
    (hrules : tableRules config r routeIdx compiled = .ok rules) {rule : Routing.HttpRouteRule R}
    (hrule : rule ∈ rules) {backend : Backend} (hbackend : backend ∈ rule.backends)
    (hread : h.ReadsAs authority path offset) (tail : Bytes)
    (hlen : (h.wire ++ tail).length < 2 ^ 32) {c : Cow}
    (hc : normalizePath (splitQuery path).1 = some c) (peerIp : IpAddr) (isTls : Bool) :
    ∃ h' sent : RequestHead,
      buildOutgoingHeaders (h.wire ++ tail) h.wire.length (ListenerScope.withFilters rule) backend
        (requestMeta (h.wire ++ tail) (h.info authority path offset) c) peerIp isTls = sent.wire ∧
      Reframes h h' ∧ h'.isUpgrade = h.isUpgrade ∧ Edits h' sent ∧ LineOk sent ∧
      (hostLines sent).length ≤ 1 ∧ (splitQuery sent.target).1 = routedPath rule c.text ∧
      (sent.Strict ↔ ∀ e ∈ (setHost backend.filters).or (setHost rule.filters),
        hostAccepted h.http10 e.value.octets = true) := by
  obtain ⟨source, hsource, hfilters, hbackends⟩ :=
    filters_tableRules hroute hcompiled hrules hrule
  obtain ⟨h', q, hwire, hr, hup, htarget, ht, -⟩ :=
    assembleOutgoing_spec hread tail hlen hc peerIp isTls
  have hs := hread.strict
  have hs' := hr.strict hs
  have hmeta : (requestMeta (h.wire ++ tail) (h.info authority path offset) c).path h.wire =
      c.text := requestMeta_path hs hread.form tail hlen hc
  obtain ⟨hostname, hhostname, hchecked, hrewrites, hpaths⟩ :=
    extractUrlRewrite_checked hsource hfilters rule.path.octets c.text
  have hruleMods := requestMods_rule hsource hfilters
  have hone (hsome : hostname.isSome = true) :
      ∀ m ∈ extractHeaderMods false rule.filters, setsOf m (bytes "host") = [] :=
    fun m hm => (hruleMods m hm).2 (hrewrites hsome)
  have hpass : RequestMods (passMods (extractHeaderMods false rule.filters) hostname) := by
    refine requestMods_pass (fun m hm => (hruleMods m hm).1) (fun host hhost => ?_) hone
    exact isFieldValueByte_of_isHostname (hchecked host hhost)
  have hsent' : LineOk h' :=
    ⟨hs'.method_token, hs'.method_ne, hr.target_text, hr.target_utf8, hr.target_form⟩
  have hform' : TargetForm h'.method (c.text ++ q) none (c.text ++ q) (some 0) := by
    have hform' := hr.target_form
    rwa [htarget] at hform'
  obtain ⟨htext, hutf8, hnewForm, hsplit⟩ := rewrittenTarget_ok ht hform' hpaths
  have honce : (hostLines h').length ≤ 1 := by
    rw [hostLines, length_map]
    exact hr.host_once
  obtain ⟨sent, hhead, hedits, hsentTarget, hhosts⟩ := filteredHead_head hsent' honce htarget
    ht.no_query (ht.query.imp And.left fun h => ⟨_, h⟩) hhostname
    (fun m hm => (hruleMods m hm).1) hpass (hbackends backend hbackend) htext
  have hline : LineOk sent := by
    refine ⟨?_, ?_, hsentTarget ▸ htext, hsentTarget ▸ hutf8, ?_⟩
    · exact hedits.method ▸ hs'.method_token
    · exact hedits.method ▸ hs'.method_ne
    · rw [hedits.method, hsentTarget]
      exact hnewForm
  refine ⟨h', sent, ?_, hr, hup, hedits, hline, ?_, hsentTarget ▸ hsplit, ?_⟩
  · rw [buildOutgoingHeaders_filtered hbackend, take_left, hmeta, hwire, hhead]
  · rw [hhosts]
    cases finalHost (extractHeaderMods false rule.filters) hostname
        (extractHeaderMods false backend.filters) with
    | none => exact honce
    | some e => exact le_rfl
  · rw [strict_iff_hostAccepted hs hr hedits hline hhosts
      (finalHost_ok hpass (hbackends backend hbackend)), hedits.version, hr.version]
    exact finalHost_accepted hchecked hone h.http10

/-- The head a backend is sent is accepted as the request it forwards, with one Host line at
most and the rewritten path, exactly when the parser takes the value that the modifiers of the
backend, or else of the rule, set the Host line to. -/
theorem filtered_roundTrip_iff {route : HttpRouteConfig} {compiledRules : List (CompiledRule R)}
    (hroute : compileHttpRoute route = .ok compiledRules) {compiled : CompiledRule R}
    (hcompiled : compiled ∈ compiledRules) {config : PortailConfig} {r : Resolver} {routeIdx : ℕ}
    {rules : List (Routing.HttpRouteRule R)}
    (hrules : tableRules config r routeIdx compiled = .ok rules) {rule : Routing.HttpRouteRule R}
    (hrule : rule ∈ rules) {backend : Backend} (hbackend : backend ∈ rule.backends)
    (data : Bytes) (hlen : data.length < 2 ^ 32) (info : HttpRequestInfo)
    (hacc : accepted data = some info) (c : Cow) (hc : normalizePath info.path = some c)
    (peerIp : IpAddr) (isTls : Bool) :
    let head := buildOutgoingHeaders data info.headLen (ListenerScope.withFilters rule) backend
      (requestMeta data info c) peerIp isTls
    (∃ sent, accepted head = some sent ∧ sent.method = info.method ∧
      sent.contentLength = info.contentLength ∧ sent.isChunked = info.isChunked ∧
      sent.isUpgrade = info.isUpgrade ∧ (namesHost head).length ≤ 1 ∧
      sent.path = routedPath rule c.text) ↔
    ∀ e ∈ (setHost backend.filters).or (setHost rule.filters),
      hostAccepted (isHttp10 data) e.value.octets = true := by
  obtain ⟨h, authority, path, offset, tail, hread, rfl, rfl⟩ := exists_head_of_accepted hacc
  obtain ⟨h', sent, hhead, hr, hup, hedits, hline, honce, hpath, hiff⟩ :=
    buildOutgoingHeaders_head hroute hcompiled hrules hrule hbackend hread tail hlen hc peerIp isTls
  intro head
  have hheadEq : head = sent.wire := hhead
  rw [isHttp10_wire hread.strict hread.form, ← hiff, hheadEq, namesHost_wire hline]
  have hutf8 : isUtf8 (sent.method ++ (sp :: sent.target)) = true :=
    (isUtf8_cut (by decide)).mpr ⟨isUtf8_of_ascii fun b hb =>
      (tchar_spec b ((isToken_iff.mp hline.method_token).2 b hb)).2.2.2.2.1, hline.target_utf8⟩
  constructor
  · rintro ⟨_, hread, -⟩
    rw [← append_nil sent.wire] at hread
    exact strict_of_accepted hline.method_token hline.method_ne hline.target_text hutf8
      hline.target_form hread
  · intro hstrict
    have hsent := RequestHead.ReadsAs.accepted_wire ⟨hstrict, hline.target_form, by rintro a ⟨⟩⟩ []
    rw [append_nil] at hsent
    exact ⟨_, hsent, hedits.method.trans hr.method,
      hedits.contentLength_eq.trans hr.contentLength_eq,
      hedits.isChunked_eq.trans hr.isChunked_eq, hedits.isUpgrade_eq.trans hup, honce, hpath⟩

/-- A rule that sets the Host line. -/
def hostRule (host : String) : Config.HttpRouteRule :=
  ⟨[], [.requestHeaderModifier ⟨[], [⟨.lit "Host", .lit host⟩], []⟩], [serviceRef (.lit "vip") 1]⟩

def hostMods (host : String) : HttpFilter := .requestHeaderModifier [] [⟨.lit "Host", .lit host⟩] []

def hostCompiled (host : String) : CompiledRule Empty :=
  ⟨hostRule host, [prefixOnly (.lit "/")], [.ready (hostMods host)], [[]]⟩

def vipBackend : Backend :=
  ⟨⟨.v4 (.ofOctets 10 0 0 1), 80⟩, 1, [], false, .lit "vip", .forward⟩

def hostTable (host : String) : Routing.HttpRouteRule Empty :=
  ⟨none, .pathPrefix, .lit "/", none, [], [], [hostMods host], [vipBackend], false, 0⟩

def plainRequest : Bytes := bytes "GET /a HTTP/1.1\r\nHost: a.b\r\n\r\n"

theorem filtered_roundTrip_named :
    ∃ (info : HttpRequestInfo) (c : Cow) (sent : HttpRequestInfo),
      accepted plainRequest = some info ∧ normalizePath info.path = some c ∧
      compileHttpRoute ⟨[], [], [hostRule "c.d"]⟩ = .ok [hostCompiled "c.d"] ∧
      tableRules plainConfig (podResolver []) 0 (hostCompiled "c.d") = .ok [hostTable "c.d"] ∧
      accepted (buildOutgoingHeaders plainRequest info.headLen
        (ListenerScope.withFilters (hostTable "c.d")) vipBackend (requestMeta plainRequest info c)
        (.v4 (.ofOctets 10 0 0 2)) false) = some sent ∧ sent.path = bytes "/a" := by
  have hsome : ((accepted plainRequest).bind fun info => normalizePath info.path) =
      some (.borrowed (bytes "/a")) := by
    decide +kernel
  obtain ⟨info, hacc, hc⟩ := bind_eq_some_iff.mp hsome
  have hroute : compileHttpRoute ⟨[], [], [hostRule "c.d"]⟩ = .ok [hostCompiled "c.d"] := rfl
  have hrules : tableRules plainConfig (podResolver []) 0 (hostCompiled "c.d") =
      .ok [hostTable "c.d"] := rfl
  have hbackend : vipBackend ∈ (hostTable "c.d").backends := mem_cons_self
  have hiff := filtered_roundTrip_iff hroute mem_cons_self hrules mem_cons_self hbackend
    plainRequest (by decide) info hacc _ hc (.v4 (.ofOctets 10 0 0 2)) false
  obtain ⟨sent, hsent, -, -, -, -, -, hpath⟩ := hiff.mpr (by decide)
  exact ⟨info, _, sent, hacc, hc, hroute, hrules, hsent, hpath⟩

/-- A Host value with a blank in it passes every check, and no parser takes the head sent. -/
theorem set_host_unchecked :
    compileHttpRoute ⟨[], [], [hostRule "a b"]⟩ = .ok [hostCompiled "a b"] ∧
    tableRules plainConfig (podResolver []) 0 (hostCompiled "a b") = .ok [hostTable "a b"] ∧
    ∃ (info : HttpRequestInfo) (c : Cow),
      accepted plainRequest = some info ∧ normalizePath info.path = some c ∧
      accepted (buildOutgoingHeaders plainRequest info.headLen
        (ListenerScope.withFilters (hostTable "a b")) vipBackend (requestMeta plainRequest info c)
        (.v4 (.ofOctets 10 0 0 2)) false) = none := by
  have hnone : ((accepted plainRequest).bind fun info => (normalizePath info.path).map fun c =>
      accepted (buildOutgoingHeaders plainRequest info.headLen
        (ListenerScope.withFilters (hostTable "a b")) vipBackend (requestMeta plainRequest info c)
        (.v4 (.ofOctets 10 0 0 2)) false) |>.isNone) = some true := by
    decide +kernel
  obtain ⟨info, hacc, hc⟩ := bind_eq_some_iff.mp hnone
  obtain ⟨c, hc, hnone⟩ := map_eq_some_iff.mp hc
  exact ⟨rfl, rfl, info, c, hacc, hc, isNone_iff_eq_none.mp hnone⟩

end
end Portail.Proxy
