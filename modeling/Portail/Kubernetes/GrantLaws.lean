import Portail.Kubernetes.CollectLaws

/-!
# Which Services a config reaches

A reference goes through a DNS name: the converter writes Service and namespace into it
and the check reads them back. What the check lets pass is a Service that exists, in the
route's namespace or granted to it, whatever kind of route refers to it.
-/

namespace Portail.Kubernetes

open Lib Http Routing Config List

variable {services : List Service} {route : HTTPRoute}

section

/-- The grant names the kind and the namespace of a route, and the Service. -/
def ReferenceGrant.Names (grant : ReferenceGrant) (kind : RouteKind) (routeNs svcName svcNs : Str) :
    Prop :=
  grant.ns.getD (Str.lit "default") = svcNs ∧
    (∃ f ∈ grant.whence, f.group = gatewayGroup ∧ f.kind = kind.name ∧ f.ns = routeNs) ∧
    ∃ t ∈ grant.whither, t.group = Str.lit "" ∧ t.kind = Str.lit "Service" ∧
      ∀ name ∈ t.name, name = svcName

/-- The backend is a core Service that exists, in the namespace of the routes that refer to it or
in one that grants it to them. -/
structure Permitted (grants : List ReferenceGrant) (services : List Service) (kind : RouteKind)
    (routeNs : Str) (b : BackendRef) : Prop where
  coreGroup : b.group = Str.lit "" ∨ b.group = Str.lit "core"
  serviceKind : b.kind = Str.lit "Service" ∨ b.kind = Str.lit ""
  service : ∃ svc ∈ services, ∃ name, svc.name = some name ∧
    b.name = backendDnsName name none svc.namespace ∧
    (svc.namespace = routeNs ∨ ∃ grant ∈ grants, grant.Names kind routeNs name svc.namespace)

variable {R C : Type} (K : GatewayRoute R C) (cx : RouteCollectCtx)

theorem isReferenceAllowed_iff {grants : List ReferenceGrant} {route : R} {svcName svcNs : Str} :
    isReferenceAllowed grants (serviceReference K route svcName svcNs) = true ↔
      svcNs = K.ns route ∨ ∃ grant ∈ grants, grant.Names K.kind (K.ns route) svcName svcNs := by
  simp only [isReferenceAllowed, serviceReference, ReferenceGrant.grants, ReferenceGrant.Names,
    Bool.or_eq_true, any_eq_true, Bool.and_eq_true, beq_iff_eq, Option.all_eq_true, and_assoc,
    eq_comm (a := K.ns route) (b := svcNs)]
  rfl

/-- What passes the check, of the names the converter writes. -/
theorem permitted_of_checkRef {route : R} {b : BackendRef}
    {svcName svcNs : Str} (hknown : cx.knownServices = isKnownService services)
    (hname : b.name = backendDnsName svcName none svcNs) (hns : dot ∉ svcNs.octets)
    (h : checkRef K cx route b = none) :
    Permitted cx.referenceGrants services K.kind (K.ns route) b := by
  have hparse : parseBackendDnsName b.name = some (svcName, svcNs) := by
    rw [hname]
    exact parse_backendDnsName svcName hns
  simp only [checkRef, hparse, Option.bind_some] at h
  split_ifs at h with hcore hreach hservice
  have hcore : isCoreService b = true := by simpa using hcore
  simp only [isCoreService, Bool.and_eq_true, Bool.or_eq_true, beq_iff_eq] at hcore
  have hservice : isKnownService services (svcName, svcNs) = true := by
    rw [← hknown]
    simpa using hservice
  simp only [isKnownService, any_eq_true, Option.any_eq_true, beq_iff_eq] at hservice
  obtain ⟨svc, hsvc, name, hsvcName, hkey⟩ := hservice
  obtain ⟨rfl, rfl⟩ := Prod.mk.inj hkey
  refine ⟨hcore.1, hcore.2, svc, hsvc, name, hsvcName, hname, ?_⟩
  by_cases hsame : svc.namespace = K.ns route
  · exact .inl hsame
  · have hallowed : isReferenceAllowed cx.referenceGrants
        (serviceReference K route name svc.namespace) = true := by
      simpa [hsame] using hreach
    exact (isReferenceAllowed_iff K).mp hallowed

end

section

/-- How the functions of a kind fit together. -/
structure GatewayRoute.Lawful {R C : Type} (K : GatewayRoute R C)
    (references : R → List BackendReference) : Prop where
  backendRefs_attach : ∀ config refs,
    K.backendRefs (K.attach config refs) = K.backendRefs config := by intros; rfl
  backendRefs_map : ∀ f config,
    K.backendRefs (K.mapBackendRefs f config) = (K.backendRefs config).map f
  backendRefs_remove : ∀ invalid config,
    K.backendRefs (K.removeInvalidMirrors invalid config) = K.backendRefs config := by intros; rfl
  mirrors_attach : ∀ config refs,
    K.mirrorBackendRefs (K.attach config refs) = K.mirrorBackendRefs config := by intros; rfl
  mirrors_map : ∀ f config,
    K.mirrorBackendRefs (K.mapBackendRefs f config) = K.mirrorBackendRefs config := by intros; rfl
  mirrors_remove : ∀ invalid config, K.mirrorBackendRefs (K.removeInvalidMirrors invalid config) =
    (K.mirrorBackendRefs config).filter fun b => !invalid (b.name, b.port) := by intros; rfl
  /-- Every backend of the config is one the route refers to. -/
  convert_refs : ∀ route,
    ∀ b ∈ K.backendRefs (K.convert route).1 ++ K.mirrorBackendRefs (K.convert route).1,
      ∃ br ∈ references route, b.name = backendDnsName br.name br.ns (K.ns route)

/-- The references of a rule's backendRefs and of its mirrors. -/
def HttpRuleSpec.references (rule : HttpRuleSpec) : List BackendReference :=
  (rule.backendRefs.getD []).map (fun br => br.toBackendReference) ++
    (rule.filters.getD []).filterMap fun f => f.requestMirror.map MirrorSpec.backendRef

def HTTPRoute.references (route : HTTPRoute) : List BackendReference :=
  (route.rules.getD []).flatMap HttpRuleSpec.references

def l4References (rules : List L4RuleSpec) : List BackendReference :=
  rules.flatMap fun rule => rule.backendRefs.map WeightedReference.toBackendReference

theorem mem_convertEach {α β : Type} {place : String} {f : α → Except RouteError β} {i : ℕ}
    {as : List α} {b : β} (h : b ∈ (convertEach place f i as).1) : ∃ a ∈ as, f a = .ok b := by
  induction as generalizing i with
  | nil => cases h
  | cons a as ih =>
    have hrest : b ∈ (convertEach place f (i + 1) as).1 → ∃ x ∈ a :: as, f x = .ok b := by
      intro hb
      obtain ⟨x, hx, hfx⟩ := ih hb
      exact ⟨x, mem_cons_of_mem a hx, hfx⟩
    unfold convertEach at h
    cases hfa : f a with rw [hfa] at h
    | ok c =>
      rcases mem_cons.mp h with rfl | h
      · exact ⟨a, mem_cons_self, hfa⟩
      · exact hrest h
    | error e => exact hrest h

variable {rule : HttpRuleSpec} {b : BackendRef}

theorem convertHttpRule_backend {ns : Str} (h : b ∈ (convertHttpRule ns rule).1.backendRefs) :
    ∃ br ∈ rule.backendRefs.getD [], b = (convertHttpBackendRef ns br).1 := by
  simp only [convertHttpRule, map_map, mem_map, Function.comp_apply] at h
  obtain ⟨br, hbr, rfl⟩ := h
  split_ifs at hbr
  · cases hbr
  · exact ⟨br, hbr, rfl⟩

theorem convertHttpRule_mirror {ns : Str}
    (h : b ∈ (convertHttpRule ns rule).1.filters.filterMap HttpRouteFilter.mirrored) :
    ∃ f ∈ rule.filters.getD [], ∃ rm ∈ f.requestMirror,
      b.name = backendDnsName rm.backendRef.name rm.backendRef.ns ns := by
  obtain ⟨filter, hfilter, hmirror⟩ := mem_filterMap.mp h
  obtain ⟨f, hf, hconvert⟩ := mem_convertEach hfilter
  refine ⟨f, hf, ?_⟩
  unfold convertHttpFilter at hconvert
  -- only a filter of the mirror type becomes a mirror
  cases htype : f.type with rw [htype] at hconvert
  | requestMirror =>
    cases hrm : f.requestMirror with rw [hrm] at hconvert
    | none => cases hconvert
    | some rm =>
      cases hconvert
      cases hmirror
      exact ⟨rm, rfl, rfl⟩
  | other name => cases hconvert
  | requestHeaderModifier | responseHeaderModifier | requestRedirect | urlRewrite =>
    obtain ⟨config, -, rfl⟩ := map_eq_ok.mp hconvert
    cases hmirror

theorem convertBackendRefFilter_mirror {f : FilterSpec} {filter : HttpRouteFilter}
    (h : convertBackendRefFilter f = .ok filter) : filter.mirrored = none := by
  unfold convertBackendRefFilter at h
  cases htype : f.type with rw [htype] at h
  | requestHeaderModifier | responseHeaderModifier =>
    obtain ⟨config, -, rfl⟩ := map_eq_ok.mp h
    rfl
  | requestRedirect | urlRewrite | requestMirror | other => cases h

theorem HTTPRoute.mem_references {br : BackendReference} (hrule : rule ∈ route.rules.getD [])
    (h : br ∈ rule.references) : br ∈ route.references := mem_flatMap.mpr ⟨rule, hrule, h⟩

theorem httpKind_lawful (E : Type) [RegexEngine E] :
    (httpKind E).Lawful HTTPRoute.references where
  backendRefs_map f config := by
    simp [httpKind, HttpRouteConfig.backends, flatMap_map, map_flatMap]
  backendRefs_remove invalid config := by
    simp [httpKind, HttpRouteConfig.backends, flatMap_map]
  mirrors_map f config := by
    simp [httpKind, HttpRouteConfig.mirrors, flatMap_map]
  mirrors_remove invalid config := by
    simp only [httpKind, HttpRouteConfig.mirrors, flatMap_map, filter_flatMap,
      filterMap_filter, filter_filterMap]
    refine flatMap_congr fun rule _ => filterMap_congr fun f _ => ?_
    cases f.mirrored with
    | none => simp
    | some b => cases hinvalid : invalid (b.name, b.port) <;> simp [Option.filter, hinvalid]
  convert_refs route b hb := by
    rcases mem_append.mp hb with hb | hb
    · obtain ⟨rule, hrule, hb⟩ := mem_flatMap.mp hb
      simp only [httpKind, convertHttpRoute, map_map, mem_map] at hrule
      obtain ⟨spec, hspec, rfl⟩ := hrule
      obtain ⟨br, hbr, rfl⟩ := convertHttpRule_backend hb
      refine ⟨br.toBackendReference, HTTPRoute.mem_references hspec ?_, rfl⟩
      exact mem_append_left _ (mem_map.mpr ⟨br, hbr, rfl⟩)
    · obtain ⟨rule, hrule, hb⟩ := mem_flatMap.mp hb
      simp only [httpKind, convertHttpRoute, map_map, mem_map] at hrule
      obtain ⟨spec, hspec, rfl⟩ := hrule
      obtain ⟨f, hf, rm, hrm, hname⟩ := convertHttpRule_mirror hb
      refine ⟨rm.backendRef, HTTPRoute.mem_references hspec ?_, hname⟩
      refine mem_append_right _ (mem_filterMap.mpr ⟨f, hf, ?_⟩)
      rw [Option.mem_def.mp hrm]
      rfl

theorem l4Backends_map (f : BackendRef → BackendRef) (rules : List L4RouteRule) :
    l4Backends (mapL4BackendRefs f rules) = (l4Backends rules).map f := by
  simp [l4Backends, mapL4BackendRefs, flatMap_map, map_flatMap]

theorem l4Backends_convert {metadata : ObjectMeta} {port : UInt16} {rules : List L4RuleSpec}
    (h : b ∈ l4Backends (convertL4Rules metadata port rules)) :
    ∃ br ∈ l4References rules, b.name = backendDnsName br.name br.ns (routeNamespace metadata) := by
  simp only [l4Backends, convertL4Rules, flatMap_map, mem_flatMap, mem_map] at h
  obtain ⟨rule, hrule, br, hbr, rfl⟩ := h
  refine ⟨br.toBackendReference, mem_flatMap.mpr ⟨rule, hrule, ?_⟩, rfl⟩
  exact mem_map.mpr ⟨br, hbr, rfl⟩

theorem tcpKind_lawful : tcpKind.Lawful fun route => l4References route.rules where
  backendRefs_map f config := l4Backends_map f config.rules
  convert_refs _ _ hb := l4Backends_convert (append_nil _ ▸ hb)

theorem tlsKind_lawful : tlsKind.Lawful fun route => l4References route.rules where
  backendRefs_map f config := l4Backends_map f config.rules
  convert_refs _ _ hb := l4Backends_convert (append_nil _ ▸ hb)

theorem udpKind_lawful : udpKind.Lawful fun route => l4References route.rules where
  backendRefs_map f config := l4Backends_map f config.rules
  convert_refs _ _ hb := l4Backends_convert (append_nil _ ▸ hb)

end

section

variable {R C : Type} (K : GatewayRoute R C) {references : R → List BackendReference}

/-- Neither the route's namespace nor one it refers to has a dot. -/
def DotFree (references : R → List BackendReference) (route : R) : Prop :=
  ∀ br ∈ references route, dot ∉ (br.ns.getD (K.ns route)).octets

variable {K} (cx : RouteCollectCtx)

variable {route : R} {b : BackendRef}

theorem checkRef_of_valid (hvalid : (markInvalid K cx route b).invalid = false) :
    checkRef K cx route b = none ∧ markInvalid K cx route b = b := by
  unfold markInvalid at hvalid ⊢
  split_ifs at hvalid ⊢ with hcheck
  exact ⟨Option.not_isSome_iff_eq_none.mp hcheck, rfl⟩

theorem checkRef_of_kept {config : C} (hb : b ∈ K.mirrorBackendRefs config)
    (hkept : (invalidMirrors K cx route config).contains (b.name, b.port) = false) :
    checkRef K cx route b = none := by
  by_contra hcheck
  have hmem : (b.name, b.port) ∈ invalidMirrors K cx route config :=
    mem_map.mpr ⟨b, mem_filter.mpr ⟨hb, Option.isSome_iff_ne_none.mpr hcheck⟩, rfl⟩
  rw [contains_iff_mem.mpr hmem] at hkept
  cases hkept

variable (h : K.Lawful references)
include h

theorem GatewayRoute.Lawful.backendRefs_attached (route : R) (names : List Str) :
    K.backendRefs (attachedConfig K cx route names) =
      (K.backendRefs (K.convert route).1).map (markInvalid K cx route) := by
  rw [attachedConfig, h.backendRefs_attach, resolveRefs, h.backendRefs_remove, h.backendRefs_map]

theorem GatewayRoute.Lawful.permitted
    (hknown : cx.knownServices = isKnownService services) (hdot : DotFree K references route)
    (hb : b ∈ K.backendRefs (K.convert route).1 ++ K.mirrorBackendRefs (K.convert route).1)
    (hcheck : checkRef K cx route b = none) :
    Permitted cx.referenceGrants services K.kind (K.ns route) b := by
  obtain ⟨br, hbr, hname⟩ := h.convert_refs route b hb
  exact permitted_of_checkRef K cx hknown hname (hdot br hbr) hcheck

/-- What the config of a route reaches, it may. -/
theorem GatewayRoute.Lawful.granted (names : List Str)
    (hknown : cx.knownServices = isKnownService services) (hdot : DotFree K references route) :
    (∀ b ∈ K.backendRefs (attachedConfig K cx route names), b.invalid = false →
      Permitted cx.referenceGrants services K.kind (K.ns route) b) ∧
    ∀ b ∈ K.mirrorBackendRefs (attachedConfig K cx route names),
      Permitted cx.referenceGrants services K.kind (K.ns route) b := by
  constructor
  · intro b hb hvalid
    rw [h.backendRefs_attached] at hb
    obtain ⟨ref, href, rfl⟩ := mem_map.mp hb
    obtain ⟨hcheck, hsame⟩ := checkRef_of_valid cx hvalid
    rw [hsame]
    exact h.permitted cx hknown hdot (mem_append_left _ href) hcheck
  · intro b hb
    rw [attachedConfig, h.mirrors_attach, resolveRefs, h.mirrors_remove, h.mirrors_map] at hb
    obtain ⟨hb, hkept⟩ := mem_filter.mp hb
    have hcheck := checkRef_of_kept cx hb (by simpa using hkept)
    exact h.permitted cx hknown hdot (mem_append_right _ hb) hcheck

end

/-- Every config is that of one of the routes, and reaches what that route may. -/
def GrantedConfigs {R C : Type} (K : GatewayRoute R C) (cx : RouteCollectCtx)
    (services : List Service) (routes : List R) (configs : List C) : Prop :=
  ∀ config ∈ configs, ∃ route ∈ routes, ∃ names, config = attachedConfig K cx route names ∧
    (∀ b ∈ K.backendRefs config, b.invalid = false →
      Permitted cx.referenceGrants services K.kind (K.ns route) b) ∧
    ∀ b ∈ K.mirrorBackendRefs config, Permitted cx.referenceGrants services K.kind (K.ns route) b

structure ClusterSnapshot.DotFree (snapshot : ClusterSnapshot) (E : Type) [RegexEngine E] :
    Prop where
  http : ∀ route ∈ snapshot.httpRoutes, Kubernetes.DotFree (httpKind E) HTTPRoute.references route
  tcp : ∀ route ∈ snapshot.tcpRoutes,
    Kubernetes.DotFree tcpKind (fun route => l4References route.rules) route
  tls : ∀ route ∈ snapshot.tlsRoutes,
    Kubernetes.DotFree tlsKind (fun route => l4References route.rules) route
  udp : ∀ route ∈ snapshot.udpRoutes,
    Kubernetes.DotFree udpKind (fun route => l4References route.rules) route

theorem collectRoutes_granted {R C : Type} {K : GatewayRoute R C}
    {references : R → List BackendReference} (h : K.Lawful references) (cx : RouteCollectCtx)
    {routes : List R} {checks : Checks} {status : List RouteAcceptance}
    (hknown : cx.knownServices = isKnownService services)
    (hdot : ∀ route ∈ routes, DotFree K references route) :
    GrantedConfigs K cx services routes (collectRoutes K cx routes checks status).configs := by
  intro config hconfig
  obtain ⟨route, hroute, names, rfl⟩ := mem_configs K cx hconfig
  obtain ⟨hbackends, hmirrors⟩ := h.granted cx names hknown (hdot route hroute)
  exact ⟨route, hroute, names, rfl, hbackends, hmirrors⟩

/-- A mirror stands among the filters of a rule, never on a backendRef. -/
theorem attachedConfig_filters {E : Type} [RegexEngine E] {cx : RouteCollectCtx}
    {names : List Str} {b : BackendRef} {f : HttpRouteFilter}
    (hb : b ∈ HttpRouteConfig.backends (attachedConfig (httpKind E) cx route names))
    (hf : f ∈ b.filters) : f.mirrored = none := by
  have hrefs := (httpKind_lawful E).backendRefs_attached cx route names
  rw [show HttpRouteConfig.backends _ = _ from hrefs] at hb
  obtain ⟨ref, href, rfl⟩ := mem_map.mp hb
  have hfilters : (markInvalid (httpKind E) cx route ref).filters = ref.filters := by
    unfold markInvalid
    split_ifs
    · rfl
    · rfl
  rw [hfilters] at hf
  obtain ⟨rule, hrule, href⟩ := mem_flatMap.mp href
  simp only [httpKind, convertHttpRoute, map_map, mem_map] at hrule
  obtain ⟨spec, -, rfl⟩ := hrule
  obtain ⟨br, -, rfl⟩ := convertHttpRule_backend href
  obtain ⟨filter, -, hconvert⟩ := mem_convertEach hf
  exact convertBackendRefFilter_mirror hconvert

/-- A published config reaches no Service that its routes may not: every backendRef left valid and
every mirror kept is permitted, a backend's name says which Service it is, and what is published of
Services is under backends the config refers to. -/
theorem backends_granted (E : Type) [RegexEngine E] (gateway : Gateway) (snapshot : ClusterSnapshot)
    (certData : CertData) (verdicts : Verdicts) (answer : NamedTargetPortReq → Option UInt16)
    (hdot : snapshot.DotFree E) :
    let resolved := resolveServices snapshot.services
    let cx := collectCtx gateway snapshot resolved.1
    let built := reconcileToConfig E gateway snapshot certData resolved.1 verdicts
    let published := publishConfig built.config resolved.2 answer
    (GrantedConfigs (httpKind E) cx snapshot.services snapshot.httpRoutes published.httpRoutes ∧
      GrantedConfigs tcpKind cx snapshot.services snapshot.tcpRoutes published.tcpRoutes ∧
      GrantedConfigs tlsKind cx snapshot.services snapshot.tlsRoutes published.tlsRoutes ∧
      GrantedConfigs udpKind cx snapshot.services snapshot.udpRoutes published.udpRoutes) ∧
    (∀ config ∈ published.httpRoutes, ∀ b ∈ HttpRouteConfig.backends config, ∀ f ∈ b.filters,
      f.mirrored = none) ∧
    (∀ name ns routeNs, dot ∉ (Option.getD ns routeNs).octets →
      parseBackendDnsName (backendDnsName name ns routeNs) = some (name, ns.getD routeNs)) ∧
    ∀ key, (published.endpointOverrides key ≠ none ∨ published.appProtocolOverrides key ≠ none ∨
      published.headlessTargetPorts key ≠ none) → key ∈ referencedBackends published := by
  intro resolved cx built published
  have hknown : cx.knownServices = isKnownService snapshot.services := rfl
  refine ⟨⟨?_, ?_, ?_, ?_⟩, ?_, ?_, ?_⟩
  · exact collectRoutes_granted (httpKind_lawful E) cx hknown hdot.http
  · exact collectRoutes_granted tcpKind_lawful cx hknown hdot.tcp
  · exact collectRoutes_granted tlsKind_lawful cx hknown hdot.tls
  · exact collectRoutes_granted udpKind_lawful cx hknown hdot.udp
  · intro config hconfig b hb f hf
    obtain ⟨route, -, names, rfl⟩ := mem_configs (httpKind E) cx hconfig
    exact attachedConfig_filters hb hf
  · exact fun name ns routeNs hns => parse_backendDnsName name hns
  · exact publishConfig_referenced built.config resolved.2 answer

/-- A route in `shop` that forwards and mirrors to `db` in `data`, which grants it. -/
def crossNamespace : ClusterSnapshot where
  httpRoutes :=
    [{ metadata := ⟨some (Str.lit "web"), some (Str.lit "shop"), none, none, none⟩
       parentRefs := some [⟨Str.lit "gw", none, none, none, none, none⟩]
       hostnames := none
       rules := some
        [{ routeMatches := none
           filters := some [⟨.requestMirror, none, none, none, none,
             some ⟨⟨Str.lit "db", some (Str.lit "data"), none, none, none⟩, none, none⟩⟩]
           backendRefs := some
            [⟨⟨⟨Str.lit "db", some (Str.lit "data"), none, none, some 5432⟩, none⟩, none⟩] }] }]
  tcpRoutes := []
  tlsRoutes := []
  udpRoutes := []
  namespaceLabels _ := none
  referenceGrants :=
    [{ ns := some (Str.lit "data")
       whence := [⟨gatewayGroup, Str.lit "HTTPRoute", Str.lit "shop"⟩]
       whither := [⟨Str.lit "", Str.lit "Service", none⟩] }]
  services := [⟨some (Str.lit "db"), some (Str.lit "data"), none, none, []⟩]
  rateLimitPolicies := []

def shopGateway : Gateway where
  metadata := ⟨some (Str.lit "gw"), some (Str.lit "shop"), none, none, none⟩
  listeners := [⟨Str.lit "web", 80, .http, none, none, none⟩]
  addresses := none

theorem backends_granted_cross :
    (reconcileToConfig Empty shopGateway crossNamespace (fun _ => none)
      (resolveServices crossNamespace.services).1 (fun _ => none)).config.httpRoutes.map
        (fun config => (HttpRouteConfig.mirrors config).length) = [1] ∧
    GrantedConfigs (httpKind Empty)
      (collectCtx shopGateway crossNamespace (resolveServices crossNamespace.services).1)
      crossNamespace.services crossNamespace.httpRoutes
      (reconcileToConfig Empty shopGateway crossNamespace (fun _ => none)
        (resolveServices crossNamespace.services).1 (fun _ => none)).config.httpRoutes := by
  have hdot : crossNamespace.DotFree Empty := by
    refine ⟨?_, fun _ h => (nomatch h), fun _ h => (nomatch h), fun _ h => (nomatch h)⟩
    intro route hroute
    obtain rfl := mem_singleton.mp hroute
    unfold DotFree
    decide
  refine ⟨by decide +kernel, ?_⟩
  exact (backends_granted Empty shopGateway crossNamespace (fun _ => none) (fun _ => none)
    (fun _ => none) hdot).1.1

end Portail.Kubernetes
