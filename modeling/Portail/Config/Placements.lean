import Portail.Config.Build
import Portail.Routing.Candidates

/-!
# Which configured rule a request gets

A configured rule is placed in the table once for each scope and hostname its route is
served under. The rule that a lookup answers with is the first of the placed rules that
match, in the order of `Placement.order`.
-/

namespace Portail.Config

open Lib Http Routing List

variable {R α : Type} {r : Resolver} {rules : List (Routing.HttpRouteRule R)}
  {config : PortailConfig} {hashOne : SocketAddr → UInt64} {route : HttpRouteConfig}
  {policy : BuildPolicy} {i : ℕ} {lookup : Lookup}

section

/-- A rule of a route where it is placed. -/
structure Placement (R : Type) where
  routeIndex : ℕ
  ruleIndex : ℕ
  insertion : Insertion R

def Placement.place (p : Placement R) : UInt16 × Option Bytes × Bytes :=
  (p.insertion.port, p.insertion.listenerHostname, p.insertion.routeHost)

/-- The scopes and hostnames a route is served under. -/
def places (gateway : GatewayConfig) (route : HttpRouteConfig) :
    List (UInt16 × Option Bytes × Bytes) :=
  (httpScopes gateway route.parentRefs).flatMap fun (port, listenerHostname) =>
    (effectiveHostnames listenerHostname (route.hostnames.map Str.octets)).map fun hostname =>
      (port, listenerHostname, hostname)

/-- The placements of a route with the number of the place. -/
def routePlacements (gateway : GatewayConfig) (i : ℕ) (route : HttpRouteConfig)
    (rules : List (Routing.HttpRouteRule R)) : List (Placement R × ℕ) :=
  (places gateway route).zipIdx.flatMap fun place => rules.zipIdx.map fun rule =>
    (⟨i, rule.2, place.1.1, place.1.2.1, place.1.2.2, rule.1⟩, place.2)

/-- The order in which placements are inserted. -/
def Earlier (p q : Placement R × ℕ) : Prop :=
  p.1.routeIndex < q.1.routeIndex ∨ p.1.routeIndex = q.1.routeIndex ∧
    (p.2 < q.2 ∨ p.2 = q.2 ∧ p.1.ruleIndex < q.1.ruleIndex)

theorem zipIdx_pairwise (l : List α) : l.zipIdx.Pairwise fun a b => a.2 < b.2 := by
  rw [← pairwise_map (f := Prod.snd) (R := (· < ·)), zipIdx_map_snd]
  exact pairwise_lt_range'

theorem routePlacements_insertion (gateway : GatewayConfig) (i : ℕ) (route : HttpRouteConfig)
    (rules : List (Routing.HttpRouteRule R)) :
    (routePlacements gateway i route rules).map (·.1.insertion) =
      routeInsertions gateway route rules := by
  have hrules (place : UInt16 × Option Bytes × Bytes) :
      rules.zipIdx.map (fun rule => (⟨place.1, place.2.1, place.2.2, rule.1⟩ : Insertion R)) =
        rules.map fun rule => ⟨place.1, place.2.1, place.2.2, rule⟩ := by
    conv_rhs => rw [← zipIdx_map_fst 0 rules, map_map]
    rfl
  have hplaces : (routePlacements gateway i route rules).map (·.1.insertion) =
      ((places gateway route).zipIdx.map Prod.fst).flatMap fun place =>
        rules.map fun rule => (⟨place.1, place.2.1, place.2.2, rule⟩ : Insertion R) := by
    rw [routePlacements, map_flatMap, flatMap_map]
    simp only [map_map, Function.comp_def, hrules]
  rw [hplaces, zipIdx_map_fst, places, routeInsertions, flatMap_assoc]
  simp only [flatMap_map]

theorem mem_routePlacements {gateway : GatewayConfig} {c : ℕ} {p : Placement R} :
    (p, c) ∈ routePlacements gateway i route rules ↔ p.routeIndex = i ∧
      (places gateway route)[c]? = some p.place ∧ rules[p.ruleIndex]? = some p.insertion.rule := by
  simp only [routePlacements, mem_flatMap, mem_map, Prod.exists, mk_mem_zipIdx_iff_getElem?]
  constructor
  · rintro ⟨port, lh, host, c', hplace, rule, j, hrule, heq⟩
    obtain ⟨rfl, rfl⟩ := Prod.mk.inj heq
    exact ⟨rfl, hplace, hrule⟩
  · rintro ⟨rfl, hplace, hrule⟩
    exact ⟨_, _, _, c, hplace, _, _, hrule, rfl⟩

theorem routePlacements_pairwise (gateway : GatewayConfig) (i : ℕ) (route : HttpRouteConfig)
    (rules : List (Routing.HttpRouteRule R)) :
    (routePlacements gateway i route rules).Pairwise Earlier := by
  rw [routePlacements, pairwise_flatMap]
  refine ⟨fun place _ => ?_, (zipIdx_pairwise _).imp fun hlt p hp q hq => ?_⟩
  · rw [pairwise_map]
    exact (zipIdx_pairwise rules).imp fun hlt => .inr ⟨rfl, .inr ⟨rfl, hlt⟩⟩
  · obtain ⟨_, _, rfl⟩ := mem_map.mp hp
    obtain ⟨_, _, rfl⟩ := mem_map.mp hq
    exact .inr ⟨rfl, .inl hlt⟩

variable [RegexEngine R]

/-- The route, the first of those given the `i`-th, places the rule at the place numbered `c`. -/
def PlacedFrom (config : PortailConfig) (r : Resolver) (i : ℕ) (routes : List HttpRouteConfig)
    (p : Placement R) (c : ℕ) : Prop :=
  i ≤ p.routeIndex ∧ ∃ route rules, routes[p.routeIndex - i]? = some route ∧
    routeRules config r p.routeIndex route = .ok rules ∧
    (places config.gateway route)[c]? = some p.place ∧
    rules[p.ruleIndex]? = some p.insertion.rule

theorem placements_of_httpInsertions {routes : List HttpRouteConfig}
    {insertions : List (Insertion R)} (h : httpInsertions config r i routes = .ok insertions) :
    ∃ ps : List (Placement R × ℕ), insertions = ps.map (·.1.insertion) ∧ ps.Pairwise Earlier ∧
      ∀ p c, (p, c) ∈ ps ↔ PlacedFrom config r i routes p c := by
  induction routes generalizing i insertions with
  | nil =>
    obtain rfl : [] = insertions := Except.ok.inj h
    exact ⟨[], rfl, .nil, by simp [PlacedFrom]⟩
  | cons route routes ih =>
    obtain ⟨rules, hrules, h⟩ := bind_eq_ok.mp h
    obtain ⟨rest, hrest, h⟩ := bind_eq_ok.mp h
    cases h
    obtain ⟨ps, rfl, hpair, hmem⟩ := ih hrest
    refine ⟨routePlacements config.gateway i route rules ++ ps, ?_, ?_, fun p c => ?_⟩
    · rw [map_append, routePlacements_insertion]
    · refine pairwise_append.mpr ⟨routePlacements_pairwise _ _ _ _, hpair, ?_⟩
      rintro ⟨p, c⟩ hp ⟨q, d⟩ hq
      have hpi := (mem_routePlacements.mp hp).1
      have hqi := ((hmem q d).mp hq).1
      exact .inl (by simp only; omega)
    · rw [mem_append, mem_routePlacements, hmem, PlacedFrom, PlacedFrom]
      rcases Nat.lt_trichotomy p.routeIndex i with hlt | rfl | hgt
      · simp [hlt.ne, hlt.not_ge, show ¬i + 1 ≤ p.routeIndex by omega]
      · simp [hrules]
      · have hpos : p.routeIndex - i = p.routeIndex - (i + 1) + 1 := by omega
        simp [hgt.ne', hgt.le, Nat.succ_le_of_lt hgt, hpos]

end

section

/-- The tables answer HTTP lookups alike. -/
def SameHttp (t u : RouteTable R) : Prop :=
  u.listenerScopes = t.listenerScopes ∧ u.sharedScopes = t.sharedScopes ∧
    u.sharedOnEveryPort = t.sharedOnEveryPort

theorem SameHttp.refl (t : RouteTable R) : SameHttp t t := ⟨rfl, rfl, rfl⟩

variable {t u : RouteTable R} {config : PortailConfig}

theorem SameHttp.trans {v : RouteTable R} (htu : SameHttp t u) (huv : SameHttp u v) :
    SameHttp t v :=
  ⟨huv.1.trans htu.1, huv.2.1.trans htu.2.1, huv.2.2.trans htu.2.2⟩

theorem SameHttp.foldlM {step : RouteTable R → α → Result (RouteTable R)}
    (hstep : ∀ t a u, step t a = .ok u → SameHttp t u) {l : List α} (h : l.foldlM step t = .ok u) :
    SameHttp t u := by
  induction l generalizing t with
  | nil =>
    obtain rfl : t = u := Except.ok.inj h
    exact .refl t
  | cons a l ih =>
    rw [foldlM_cons] at h
    obtain ⟨v, hv, h⟩ := bind_eq_ok.mp h
    exact (hstep t a v hv).trans (ih h)

theorem convertL4Route_sameHttp {isUdp : Bool} (t : RouteTable R) (route : TcpRouteConfig)
    (u : RouteTable R) (h : convertL4Route config r isUdp t route = .ok u) : SameHttp t u := by
  unfold convertL4Route at h
  split at h
  · cases h
    exact .refl t
  · simp only at h
    generalize List.filter _ (findListenersForRoute _ _) = listeners at h
    by_cases hempty : listeners.isEmpty = true
    · rw [if_pos hempty] at h
      cases h
      exact .refl t
    · rw [if_neg hempty] at h
      obtain ⟨backends, _, h⟩ := bind_eq_ok.mp h
      cases h
      refine foldlRecOn _ _ (.refl t) fun u hu l _ => hu.trans ?_
      cases isUdp <;> exact ⟨rfl, rfl, rfl⟩

theorem convertTlsRoute_sameHttp (t : RouteTable R) (route : TlsRouteConfig)
    (u : RouteTable R) (h : convertTlsRoute config r t route = .ok u) : SameHttp t u := by
  unfold convertTlsRoute at h
  simp only at h
  split_ifs at h
  · cases h
    exact .refl t
  · refine SameHttp.foldlM (fun t rule u hrule => ?_) h
    obtain ⟨backends, _, hrule⟩ := bind_eq_ok.mp hrule
    cases hrule
    refine foldlRecOn _ _ (.refl t) fun u hu s _ => ?_
    exact foldlRecOn _ _ hu fun v hv host _ => hv.trans (by exact ⟨rfl, rfl, rfl⟩)

variable [RegexEngine R]

theorem SameHttp.find (h : SameHttp t u) (host : Bytes) (req : RouteRequest) (port : UInt16) :
    u.findHttpRoute host req port = t.findHttpRoute host req port := by
  obtain ⟨hscopes, hshared, hevery⟩ := h
  simp only [RouteTable.findHttpRoute, RouteTable.sharedScopesOf, hscopes, hshared, hevery]

/-- The placement at the head of a numbered one. -/
def placedInsertion (x : Placement R × ℕ) : Insertion R := x.1.insertion

/-- A table built from a config answers as the table of its placements. -/
theorem buildRouteTable_placements (h : buildRouteTable config policy lookup hashOne = .ok t) :
    ∃ ps : List (Placement R × ℕ), ps.Pairwise Earlier ∧
      (∀ p c, (p, c) ∈ ps ↔
        PlacedFrom config (resolverOf config policy lookup hashOne) 0 config.httpRoutes p c) ∧
      ∀ host req port, t.findHttpRoute host req port =
        (tableOf placedInsertion ps (httpPorts config.gateway)).findHttpRoute host req port := by
  obtain ⟨insertions, hins, h⟩ := bind_eq_ok.mp h
  obtain ⟨t₁, htcp, h⟩ := bind_eq_ok.mp h
  obtain ⟨t₂, hudp, htls⟩ := bind_eq_ok.mp h
  obtain ⟨ps, rfl, hpair, hmem⟩ := placements_of_httpInsertions hins
  have hsame := (SameHttp.foldlM convertL4Route_sameHttp htcp).trans
    ((SameHttp.foldlM convertL4Route_sameHttp hudp).trans
      (SameHttp.foldlM convertTlsRoute_sameHttp htls))
  exact ⟨ps, hpair, hmem, hsame.find⟩

end

section

theorem tableRules_index {rule : CompiledRule R} (h : tableRules config r i rule = .ok rules) :
    ∀ x ∈ rules, x.routeIndex = i % 2 ^ 32 := by
  obtain ⟨backends, _, h⟩ := bind_eq_ok.mp h
  obtain ⟨filters, _, h⟩ := bind_eq_ok.mp h
  cases h
  intro x hx
  obtain ⟨m, _, rfl⟩ := mem_map.mp hx
  rfl

variable [RegexEngine R]

theorem routeRules_index (h : routeRules config r i route = .ok rules) :
    ∀ x ∈ rules, x.routeIndex = i % 2 ^ 32 := by
  unfold routeRules at h
  split at h
  · split_ifs at h
    cases h
    simp
  · obtain ⟨parts, hparts, h⟩ := bind_eq_ok.mp h
    cases h
    intro x hx
    obtain ⟨part, hpart, hx⟩ := mem_flatten.mp hx
    obtain ⟨rule, _, hrule⟩ := exists_of_mem_collect hparts hpart
    exact tableRules_index hrule x hx

end

section

variable [RegexEngine R]

/-- The rule stands in the config, and its route is served at that place. -/
def Configured (config : PortailConfig) (r : Resolver) (p : Placement R) : Prop :=
  ∃ route rules, config.httpRoutes[p.routeIndex]? = some route ∧
    routeRules config r p.routeIndex route = .ok rules ∧
    rules[p.ruleIndex]? = some p.insertion.rule ∧
    (p.insertion.port, p.insertion.listenerHostname) ∈ httpScopes config.gateway route.parentRefs ∧
    p.insertion.routeHost ∈ effectiveHostnames p.insertion.listenerHostname
      (route.hostnames.map Str.octets)

/-- The rule is placed on the port, in a scope of the most specific listener hostname for the
host, and matches the request. -/
structure Matching (config : PortailConfig) (r : Resolver) (port : UInt16) (host : Bytes)
    (req : RouteRequest) (p : Placement R) : Prop where
  configured : Configured config r p
  served : ServedOn (httpPorts config.gateway) port p.insertion.port
  top : ∃ n, listenerSpecificity (scopeName Placement.insertion p) host = some n ∧
    ∀ q : Placement R, Configured config r q →
      ServedOn (httpPorts config.gateway) port q.insertion.port → ∀ m,
      listenerSpecificity (scopeName Placement.insertion q) host = some m → m ≤ n
  routed : (routeSpecificity Placement.insertion host p).isSome = true
  accepts : p.insertion.rule.accepts req = true

/-- The order of matching rules: by route hostname, path, method, headers and query, then by the
place in the config. -/
def Placement.order (host : Bytes) (p : Placement R) : List ℤ :=
  let rule := p.insertion.rule
  [-((routeSpecificity Placement.insertion host p).getD 0 : ℤ), rule.pathMatchType.rank,
    -(rule.path.octets.length : ℤ), -(rule.methodMatch.isSome.toNat : ℤ),
    -(rule.headerMatches.length : ℤ), -(rule.queryParamMatches.length : ℤ), p.routeIndex,
    p.ruleIndex]

variable {config : PortailConfig} {r : Resolver} {p : Placement R} {req : RouteRequest}

theorem configured_iff_placed :
    Configured config r p ↔ ∃ c, PlacedFrom config r 0 config.httpRoutes p c := by
  have hplace (route : HttpRouteConfig) :
      (∃ c : ℕ, (places config.gateway route)[c]? = some p.place) ↔
      (p.insertion.port, p.insertion.listenerHostname) ∈
        httpScopes config.gateway route.parentRefs ∧
      p.insertion.routeHost ∈ effectiveHostnames p.insertion.listenerHostname
        (route.hostnames.map Str.octets) := by
    rw [← mem_iff_getElem?, places, Placement.place]
    simp [mem_flatMap]
  constructor
  · rintro ⟨route, rules, hroute, hrules, hrule, hat⟩
    obtain ⟨c, hc⟩ := (hplace route).mpr hat
    exact ⟨c, Nat.zero_le _, route, rules, hroute, hrules, hc, hrule⟩
  · rintro ⟨c, _, route, rules, hroute, hrules, hc, hrule⟩
    exact ⟨route, rules, hroute, hrules, hrule, (hplace route).mp ⟨c, hc⟩⟩

theorem candidate_iff_matching {port : UInt16} {host : Bytes} {ps : List (Placement R × ℕ)}
    (hps : ∀ p c, (p, c) ∈ ps ↔ PlacedFrom config r 0 config.httpRoutes p c) (p : Placement R)
    (c : ℕ) :
    Candidate placedInsertion ps (httpPorts config.gateway) port host req (p, c) ↔
      Matching config r port host req p ∧ (p, c) ∈ ps := by
  constructor
  · intro h
    obtain ⟨n, hn, hmax⟩ := h.top
    refine ⟨⟨configured_iff_placed.mpr ⟨c, (hps p c).mp h.mem⟩, h.served,
      ⟨n, hn, fun q hq hserved m hm => ?_⟩, h.routed, h.accepts⟩, h.mem⟩
    obtain ⟨d, hd⟩ := configured_iff_placed.mp hq
    exact hmax (q, d) ((hps q d).mpr hd) hserved m hm
  · rintro ⟨h, hmem⟩
    obtain ⟨n, hn, hmax⟩ := h.top
    exact ⟨hmem, h.served, ⟨n, hn, fun ⟨q, d⟩ hq hserved m hm => hmax q
      (configured_iff_placed.mpr ⟨d, (hps q d).mp hq⟩) hserved m hm⟩, h.routed, h.accepts⟩

theorem find_matching {t : RouteTable R} {host : Bytes} {port : UInt16}
    {rule : Routing.HttpRouteRule R} (hbuild : buildRouteTable config policy lookup hashOne = .ok t)
    (hhost : (hostKey host).length < u32Max) (h : t.findHttpRoute host req port = some rule) :
    ∃ p : Placement R, rule = ListenerScope.withFilters p.insertion.rule ∧
      Matching config (resolverOf config policy lookup hashOne) port (hostKey host) req p := by
  obtain ⟨ps, hpair, hps, hfind⟩ := buildRouteTable_placements hbuild
  rw [hfind] at h
  obtain ⟨⟨p, c⟩, _, hp, _, rfl, _⟩ := find_first _ _ _ hpair hhost h
  exact ⟨p, rfl, ((candidate_iff_matching hps p c).mp hp).1⟩

theorem find_isSome_iff {t : RouteTable R} {host : Bytes} {port : UInt16}
    (hbuild : buildRouteTable config policy lookup hashOne = .ok t)
    (hhost : (hostKey host).length < u32Max) : (t.findHttpRoute host req port).isSome = true ↔
      ∃ p : Placement R,
        Matching config (resolverOf config policy lookup hashOne) port (hostKey host) req p := by
  obtain ⟨ps, hpair, hps, hfind⟩ := buildRouteTable_placements hbuild
  rw [hfind, ← Option.ne_none_iff_isSome, Ne, find_none _ _ _ hhost, not_forall]
  simp only [not_not]
  constructor
  · rintro ⟨⟨p, c⟩, hp⟩
    exact ⟨p, ((candidate_iff_matching hps p c).mp hp).1⟩
  · rintro ⟨p, hp⟩
    obtain ⟨c, hc⟩ := configured_iff_placed.mp hp.configured
    exact ⟨(p, c), (candidate_iff_matching hps p c).mpr ⟨hp, (hps p c).mpr hc⟩⟩

theorem Configured.index (h : Configured config r p) (hroutes : config.httpRoutes.length ≤ 2 ^ 32) :
    p.insertion.rule.routeIndex = p.routeIndex := by
  obtain ⟨route, rules, hroute, hrules, hrule, _⟩ := h
  have hlt := (List.getElem?_eq_some_iff.mp hroute).1
  rw [routeRules_index hrules _ (List.mem_of_getElem? hrule)]
  exact Nat.mod_eq_of_lt (by omega)

theorem placed_exchange {q : Placement R} {c : ℕ} (hp : PlacedFrom config r 0 config.httpRoutes p c)
    (hq : Configured config r q) (hroute : q.routeIndex = p.routeIndex) :
    PlacedFrom config r 0 config.httpRoutes
      ⟨p.routeIndex, q.ruleIndex, { p.insertion with rule := q.insertion.rule }⟩ c := by
  obtain ⟨hi, route, rules, hget, hrules, hplace, _⟩ := hp
  obtain ⟨route', rules', hget', hrules', hrule, _⟩ := hq
  rw [hroute] at hget' hrules'
  obtain rfl : route = route' := Option.some.inj (hget.symm.trans hget')
  obtain rfl : rules = rules' := Except.ok.inj (hrules.symm.trans hrules')
  exact ⟨hi, route, rules, hget, hrules, hplace, hrule⟩

/-- A lookup finds a rule exactly when some rule matches in the scopes of the most specific
listener hostname, and finds the first of those. -/
theorem find_first_configured {config : PortailConfig} {policy : BuildPolicy} {lookup : Lookup}
    {hashOne : SocketAddr → UInt64} {t : RouteTable R} {host : Bytes}
    (hbuild : buildRouteTable config policy lookup hashOne = .ok t)
    (hroutes : config.httpRoutes.length ≤ 2 ^ 32)
    (hlower : ∀ b ∈ host, isAsciiUppercase b = false) (hhost : host.length < u32Max)
    (req : RouteRequest) (port : UInt16) :
    ((t.findHttpRoute host req port).isSome = true ↔
      ∃ p : Placement R,
        Matching config (resolverOf config policy lookup hashOne) port host req p) ∧
    ∀ rule, t.findHttpRoute host req port = some rule →
      ∃ p : Placement R, rule = ListenerScope.withFilters p.insertion.rule ∧
        Matching config (resolverOf config policy lookup hashOne) port host req p ∧
        ∀ q : Placement R,
          Matching config (resolverOf config policy lookup hashOne) port host req q →
          p.order host ≤ q.order host := by
  obtain ⟨ps, hpair, hps, hfind⟩ := buildRouteTable_placements hbuild
  have hkey : hostKey host = host := if_neg (by simpa using hlower)
  have hlen : (hostKey host).length < u32Max := by rwa [hkey]
  constructor
  · rw [find_isSome_iff hbuild hlen, hkey]
  · intro rule hrule
    rw [hfind] at hrule
    obtain ⟨⟨p, c⟩, n, hp, hn, rfl, hfirst, hothers⟩ := find_first _ _ _ hpair hlen hrule
    rw [hkey] at hp hn hfirst hothers
    obtain ⟨hpm, hpmem⟩ := (candidate_iff_matching hps p c).mp hp
    refine ⟨p, rfl, hpm, fun q hq => ?_⟩
    obtain ⟨d, hd⟩ := configured_iff_placed.mp hq.configured
    have hqc := (candidate_iff_matching hps q d).mpr ⟨hq, (hps q d).mpr hd⟩
    obtain ⟨m, hm⟩ := Option.isSome_iff_exists.mp hq.routed
    have hindex : ∀ x ∈ ps, ∀ y ∈ ps, Earlier x y →
        (placedInsertion x).rule.routeIndex ≤ (placedInsertion y).rule.routeIndex := by
      intro x hx y hy hearlier
      have hxi := (configured_iff_placed.mpr ⟨x.2, (hps x.1 x.2).mp hx⟩).index hroutes
      have hyi := (configured_iff_placed.mpr ⟨y.2, (hps y.1 y.2).mp hy⟩).index hroutes
      rw [placedInsertion, placedInsertion, hxi, hyi]
      rcases hearlier with hlt | ⟨heq, _⟩
      · exact hlt.le
      · exact heq.le
    have hout := hothers hindex (q, d) m hqc hm
    -- A rule of the same route that matches as well stands at the same place too.
    have hlast : q.routeIndex = p.routeIndex → MatchLE q.insertion.rule p.insertion.rule →
        p.ruleIndex ≤ q.ruleIndex := by
      intro hroute hle
      have hplaced := placed_exchange ((hps p c).mp hpmem) hq.configured hroute
      have hmatch : Matching config (resolverOf config policy lookup hashOne) port host req
          ⟨p.routeIndex, q.ruleIndex, { p.insertion with rule := q.insertion.rule }⟩ :=
        ⟨configured_iff_placed.mpr ⟨c, hplaced⟩, hpm.served, hpm.top, hpm.routed, hq.accepts⟩
      have hcand := (candidate_iff_matching hps _ c).mpr ⟨hmatch, (hps _ c).mpr hplaced⟩
      rcases hfirst _ n hcand rfl hn with hlt | ⟨_, _, hbefore⟩
      · exact absurd hlt (lt_irrefl n)
      · rcases hbefore hle with heq | hlt | ⟨_, hlt | ⟨_, hlt⟩⟩
        · exact (congrArg (fun x : Placement R × ℕ => x.1.ruleIndex) heq).symm.le
        · exact absurd hlt (lt_irrefl _)
        · exact absurd hlt (lt_irrefl _)
        · exact hlt.le
    have hpi := hpm.configured.index hroutes
    have hqi := hq.configured.index hroutes
    rw [Bool.eq_false_iff, Ne, outranks_iff] at hout
    simp only [placedInsertion, matchLE_iff, hpi, hqi] at hout hlast
    have hpn : routeSpecificity Placement.insertion host p = some n := hn
    have hqm : routeSpecificity Placement.insertion host q = some m := hm
    rw [← not_lt]
    simp only [Placement.order, cons_lt_cons_iff, hpn, hqm, Option.getD_some, lt_irrefl,
      and_false, or_false]
    omega

end

def webListener : ListenerConfig := ⟨Str.lit "web", .http, 80, none, none, none, none, none, none⟩

/-- A rule for every request, without backends. -/
def anyRule : HttpRouteRule := ⟨[], [], []⟩

def attachedRoute : HttpRouteConfig := ⟨[⟨Str.lit "portail-gateway", none, none⟩], [], [anyRule]⟩

def parentlessRoute : HttpRouteConfig := ⟨[], [], [anyRule]⟩

def emptyRoute : HttpRouteConfig := ⟨[], [], []⟩

/-- A route attached to the listener, and one without parentRefs after `n` routes that are
empty. -/
def wideConfig (n : ℕ) : PortailConfig :=
  { plainConfig with
    gateway := ⟨Str.lit "portail-gateway", [webListener], []⟩
    httpRoutes := [emptyRoute, attachedRoute] ++ List.replicate n emptyRoute ++ [parentlessRoute] }

def anyTableRule (i : ℕ) : Routing.HttpRouteRule Empty where
  pathMatchType := .pathPrefix
  path := Str.lit "/"
  pathRegex := none
  methodMatch := none
  headerMatches := []
  queryParamMatches := []
  filters := []
  backends := []
  hasFilters := false
  routeIndex := i

def wideTable (n : ℕ) : RouteTable Empty := httpTable (wideConfig 0).gateway
  [⟨80, none, bytes "*", anyTableRule 1⟩, ⟨0, none, bytes "*", anyTableRule ((n + 2) % 2 ^ 32)⟩]

theorem httpInsertions_emptyRoutes (config : PortailConfig) (r : Resolver) (n i : ℕ)
    (rest : List HttpRouteConfig) :
    (httpInsertions config r i (List.replicate n emptyRoute ++ rest) :
      Result (List (Insertion Empty))) = httpInsertions config r (i + n) rest := by
  induction n generalizing i with
  | zero => rfl
  | succ n ih =>
    have hrest := ih (i + 1)
    rw [replicate_succ, cons_append, httpInsertions, hrest, add_right_comm, ← add_assoc]
    have hrules : (routeRules config r i emptyRoute :
      Result (List (Routing.HttpRouteRule Empty))) = .ok [] := rfl
    rw [hrules]
    cases (httpInsertions config r (i + n + 1) rest : Result (List (Insertion Empty))) <;> rfl

def noLookup : Lookup := fun _ _ => .ok []

theorem buildRouteTable_wide (n : ℕ) :
    buildRouteTable (wideConfig n) .lenient noLookup (fun _ => 0) = .ok (wideTable n) := by
  have hins :
      (httpInsertions (wideConfig n) (resolverOf (wideConfig n) .lenient noLookup fun _ => 0) 0
      (wideConfig n).httpRoutes : Result (List (Insertion Empty))) =
      .ok [⟨80, none, bytes "*", anyTableRule 1⟩,
        ⟨0, none, bytes "*", anyTableRule ((n + 2) % 2 ^ 32)⟩] := by
    have hroutes : (wideConfig n).httpRoutes =
        emptyRoute :: attachedRoute :: (List.replicate n emptyRoute ++ [parentlessRoute]) := rfl
    rw [hroutes, httpInsertions, httpInsertions, httpInsertions_emptyRoutes]
    rw [show 0 + 1 + 1 + n = n + 2 by omega]
    rfl
  rw [buildRouteTable]
  simp only [hins]
  rfl

def anyRequest : RouteRequest := ⟨bytes "GET", bytes "/", [], []⟩

theorem wide_configured {n : ℕ} {q : Placement Empty} (h : Configured (wideConfig n) r q) :
    1 ≤ q.routeIndex ∧ q.insertion.rule = anyTableRule (q.routeIndex % 2 ^ 32) ∧
      q.insertion.listenerHostname = none ∧ q.insertion.routeHost = bytes "*" := by
  obtain ⟨route, rules, hroute, hrules, hrule, hscope, hhost⟩ := h
  have hmem : route = emptyRoute ∨ route = attachedRoute ∨ route = parentlessRoute := by
    have := mem_of_getElem? hroute
    simp only [wideConfig, mem_append, mem_cons, mem_replicate, not_mem_nil, or_false] at this
    tauto
  have hindex : route.rules ≠ [] → 1 ≤ q.routeIndex := by
    intro hne
    by_contra hlt
    rw [show q.routeIndex = 0 by omega] at hroute
    obtain rfl : emptyRoute = route := Option.some.inj hroute
    exact hne rfl
  -- The empty route has no rules, and the other two have one each.
  have hone (i : ℕ) (hr : (Except.ok [anyTableRule (i % 2 ^ 32)] :
      Result (List (Routing.HttpRouteRule Empty))) = .ok rules) :
      q.insertion.rule = anyTableRule (i % 2 ^ 32) := by
    cases hr
    exact mem_singleton.mp (mem_of_getElem? hrule)
  rcases hmem with rfl | rfl | rfl
  · obtain rfl : [] = rules := Except.ok.inj hrules
    simp at hrule
  all_goals
    have hlh : q.insertion.listenerHostname = none :=
      congrArg Prod.snd (mem_singleton.mp hscope)
    rw [hlh] at hhost
    exact ⟨hindex (cons_ne_nil _ _), hone _ hrules, hlh, mem_singleton.mp hhost⟩

/-- The placement of the attached route's rule. -/
def attachedPlacement : Placement Empty := ⟨1, 0, 80, none, bytes "*", anyTableRule 1⟩

theorem wide_matching (n : ℕ) :
    Matching (wideConfig n) (resolverOf (wideConfig n) .lenient noLookup fun _ => 0) 80 (bytes "a")
      anyRequest attachedPlacement where
  configured := ⟨attachedRoute, [anyTableRule 1], rfl, rfl, rfl, mem_singleton.mpr rfl,
    mem_singleton.mpr rfl⟩
  served := .inl ⟨rfl, by decide⟩
  top := by
    refine ⟨0, rfl, fun q hq _ m hm => ?_⟩
    obtain ⟨_, _, hlh, _⟩ := wide_configured hq
    have hname : scopeName Placement.insertion q = none := by rw [scopeName, hlh, Option.map_none]
    rw [hname] at hm
    exact (Option.some.inj hm).symm.le
  routed := rfl
  accepts := rfl

theorem wide_matching_first {n : ℕ} {q : Placement Empty} (h : Configured (wideConfig n) r q) :
    attachedPlacement.order (bytes "a") ≤ q.order (bytes "a") := by
  obtain ⟨hindex, hrule, _, hhost⟩ := wide_configured h
  have hspec : routeSpecificity Placement.insertion (bytes "a") q = some 0 := by
    rw [routeSpecificity, hhost]
    rfl
  rw [← not_lt]
  simp only [Placement.order, cons_lt_cons_iff, hspec, hrule]
  simp [attachedPlacement, anyTableRule, routeSpecificity]
  omega

/-- With more routes than 32 bits count, the last of them is taken for the first one. -/
theorem route_past_u32 :
    buildRouteTable (wideConfig (2 ^ 32 - 2)) .lenient noLookup (fun _ => 0) =
      .ok (wideTable (2 ^ 32 - 2)) ∧
    Matching (wideConfig (2 ^ 32 - 2))
      (resolverOf (wideConfig (2 ^ 32 - 2)) .lenient noLookup fun _ => 0) 80 (bytes "a") anyRequest
      attachedPlacement ∧
    (∀ q : Placement Empty, Matching (wideConfig (2 ^ 32 - 2))
        (resolverOf (wideConfig (2 ^ 32 - 2)) .lenient noLookup fun _ => 0) 80 (bytes "a")
        anyRequest q → attachedPlacement.order (bytes "a") ≤ q.order (bytes "a")) ∧
    (wideTable (2 ^ 32 - 2)).findHttpRoute (bytes "a") anyRequest 80 = some (anyTableRule 0) ∧
    anyTableRule 0 ≠ ListenerScope.withFilters attachedPlacement.insertion.rule := by
  refine ⟨buildRouteTable_wide _, wide_matching _, fun q hq => wide_matching_first hq.configured,
    ?_, ?_⟩
  · rw [wideTable, show (2 ^ 32 - 2 + 2) % 2 ^ 32 = 0 by norm_num]
    rfl
  · intro heq
    exact absurd (congrArg Routing.HttpRouteRule.routeIndex heq) (by decide)

theorem find_first_configured_attached :
    ∃ p : Placement Empty,
      anyTableRule 1 = ListenerScope.withFilters p.insertion.rule ∧
      Matching (wideConfig 0) (resolverOf (wideConfig 0) .lenient noLookup fun _ => 0) 80
        (bytes "a") anyRequest p ∧
      ∀ q : Placement Empty, Matching (wideConfig 0)
        (resolverOf (wideConfig 0) .lenient noLookup fun _ => 0) 80 (bytes "a") anyRequest q →
        p.order (bytes "a") ≤ q.order (bytes "a") :=
  (find_first_configured (buildRouteTable_wide 0) (by decide) (by decide) (by decide) anyRequest
    80).2 (anyTableRule 1) rfl

end Portail.Config
