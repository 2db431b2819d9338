import Portail.Config.Build
import Portail.Routing.TableMap

/-!
# One config, two resolutions

What the resolver answers decides the backends and mirrors of a table and nothing else. Two
tables built from one config have the same image under every map that does not tell apart
what the two resolvers answer; their shapes are always the same.
-/

namespace Portail.Config

open Lib Http Routing List

variable {R : Type}

/-- A map of tables does not tell apart what two resolvers make of the rules a config builds. -/
structure Blurs [RegexEngine R] (m : TableMap R) (config : PortailConfig) (r₁ r₂ : Resolver) :
    Prop where
  http : ∀ route ∈ config.httpRoutes, route.compiles R = true → ∀ rule ∈ route.rules,
    ∀ compiled : CompiledRule R, compileRule rule = .ok compiled → ∀ i rules₁ rules₂,
    tableRules config r₁ i compiled = .ok rules₁ → tableRules config r₂ i compiled = .ok rules₂ →
    rules₁.map m.rule = rules₂.map m.rule
  l4 : ∀ refs ⊆ config.l4References, ∀ what backends₁ backends₂,
    r₁.backends refs what = .ok backends₁ → r₂.backends refs what = .ok backends₂ →
    m.route backends₁ = m.route backends₂

section

variable (m : TableMap R)

theorem routeInsertions_map (gateway : GatewayConfig) (route : HttpRouteConfig)
    (rules : List (Routing.HttpRouteRule R)) :
    (routeInsertions gateway route rules).map (Insertion.map m) =
      routeInsertions gateway route (rules.map m.rule) := by
  simp only [routeInsertions, map_flatMap, map_map]
  rfl

theorem httpTable_map (gateway : GatewayConfig) (insertions : List (Insertion R)) :
    (httpTable gateway insertions).map m =
      httpTable gateway (insertions.map (Insertion.map m)) := by
  have hpush (t : RouteTable R) :
      (insertions.foldl RouteTable.pushHttpRouteForListener t).map m =
        (insertions.map (Insertion.map m)).foldl RouteTable.pushHttpRouteForListener (t.map m) := by
    rw [foldl_map]
    exact (foldl_hom _ fun t i => (map_pushHttpRouteForListener ..).symm).symm
  rw [httpTable, httpTable, map_shareAnyPortScopesOn, map_sortHttpRoutes, hpush]
  rfl

variable [RegexEngine R] {m} {config : PortailConfig} {r₁ r₂ : Resolver}

theorem routeRules_map (hblurs : Blurs m config r₁ r₂) (i : ℕ) {route : HttpRouteConfig}
    (hroute : route ∈ config.httpRoutes) :
    OkRel (fun rules₁ rules₂ => rules₁.map m.rule = rules₂.map m.rule)
      (routeRules config r₁ i route) (routeRules config r₂ i route) := by
  unfold routeRules
  cases hcompile : (compileHttpRoute route : Except _ (List (CompiledRule R))) with
  | error e =>
    intro rules₁ rules₂ h₁ h₂
    simp only at h₁ h₂
    split_ifs at h₁ h₂
    rw [← Except.ok.inj h₁, ← Except.ok.inj h₂]
  | ok compiled =>
    refine (OkRel.collect (r := fun rs₁ rs₂ => rs₁.map m.rule = rs₂.map m.rule)
      fun c hc => ?_).bind fun parts₁ parts₂ hparts => .ok ?_
    · obtain ⟨rule, hrule, hcompiled⟩ := exists_of_mem_collect hcompile hc
      have hcompiles : route.compiles R = true := by rw [HttpRouteConfig.compiles, hcompile]; rfl
      exact hblurs.http route hroute hcompiles rule hrule c hcompiled i
    · rw [map_flatten, map_flatten]
      congr 1
      rw [← forall₂_eq_eq_eq, forall₂_map_left_iff, forall₂_map_right_iff]
      exact hparts

theorem httpInsertions_map (hblurs : Blurs m config r₁ r₂) (i : ℕ) {routes : List HttpRouteConfig}
    (hroutes : ∀ route ∈ routes, route ∈ config.httpRoutes) :
    OkRel (fun ins₁ ins₂ => ins₁.map (Insertion.map m) = ins₂.map (Insertion.map m))
      (httpInsertions config r₁ i routes) (httpInsertions config r₂ i routes) := by
  induction routes generalizing i with
  | nil => exact .ok rfl
  | cons route routes ih =>
    rw [forall_mem_cons] at hroutes
    refine (routeRules_map hblurs i hroutes.1).bind fun _ _ hrules =>
      (ih (i + 1) hroutes.2).bind fun _ _ hrest => .ok ?_
    rw [map_append, map_append, routeInsertions_map, routeInsertions_map, hrules, hrest]

end

section

variable {m : TableMap R}

variable (m) in
/-- The map does not tell the tables apart. -/
def SameImage (t u : RouteTable R) : Prop := t.map m = u.map m

variable [RegexEngine R] {config : PortailConfig} {r₁ r₂ : Resolver}

theorem convertL4Route_map (hblurs : Blurs m config r₁ r₂) (isUdp : Bool)
    (route : TcpRouteConfig) (hroute : l4Dialed config.gateway isUdp route ⊆ config.l4References)
    (t u : RouteTable R) (h : SameImage m t u) : OkRel (SameImage m)
      (convertL4Route config r₁ isUdp t route) (convertL4Route config r₂ isUdp u route) := by
  unfold convertL4Route
  cases hrules : route.rules with
  | nil => exact .ok h
  | cons rule rest =>
    unfold l4Dialed at hroute
    generalize List.filter _ (findListenersForRoute _ _) = listeners at hroute ⊢
    dsimp only
    cases hempty : listeners.isEmpty with
    | true => exact .ok h
    | false =>
      have hrefs : rule.backendRefs ⊆ config.l4References := by simpa [hempty, hrules] using hroute
      refine OkRel.bind (hblurs.l4 _ hrefs _) fun _ _ hb =>
        .ok (foldl_rel (r := SameImage m) h fun l _ t u h => ?_)
      unfold SameImage at h ⊢
      cases isUdp
      · simp only [Bool.false_eq_true, if_false, map_addTcpRoute, h, hb]
      · simp only [if_true, map_addUdpRoute, h, hb]

theorem convertTlsRoute_map (hblurs : Blurs m config r₁ r₂) (route : TlsRouteConfig)
    (hroute : route ∈ config.tlsRoutes) (t u : RouteTable R) (h : SameImage m t u) :
    OkRel (SameImage m) (convertTlsRoute config r₁ t route)
      (convertTlsRoute config r₂ u route) := by
  unfold convertTlsRoute
  dsimp only
  split_ifs with hempty
  · exact .ok h
  · have hrefs : ∀ rule ∈ route.rules, rule.backendRefs ⊆ config.l4References := by
      intro rule hrule ref href
      refine mem_append_right _ (mem_append_right _ (mem_flatMap.mpr ⟨route, hroute, ?_⟩))
      rw [tlsDialed, if_neg hempty]
      exact mem_flatMap.mpr ⟨rule, hrule, href⟩
    refine OkRel.foldlM (fun rule hrule t u h => OkRel.bind (hblurs.l4 _ (hrefs rule hrule) _)
      fun _ _ hb => .ok ?_) h
    refine foldl_rel (r := SameImage m) h fun s _ t u h =>
      foldl_rel (r := SameImage m) h fun host _ t u h => ?_
    unfold SameImage at h ⊢
    rw [map_addTlsRouteForListener, map_addTlsRouteForListener, h, hb]

end

section

theorem tableRules_strip {config : PortailConfig} {r : Resolver} {i : ℕ} {rule : CompiledRule R}
    {rules : List (Routing.HttpRouteRule R)} (h : tableRules config r i rule = .ok rules) :
    rules.map HttpRouteRule.strip = rule.routeMatches.map fun m =>
      HttpRouteRule.strip { m.toRule [] [] with routeIndex := i % 2 ^ 32 } := by
  obtain ⟨backends, _, h⟩ := bind_eq_ok.mp h
  obtain ⟨filters, _, h⟩ := bind_eq_ok.mp h
  cases h
  rw [map_map]
  rfl

variable [RegexEngine R] {config : PortailConfig} {policy₁ policy₂ : BuildPolicy}
  {lookup₁ lookup₂ : Lookup} {hashOne₁ hashOne₂ : SocketAddr → UInt64} {t u : RouteTable R}

/-- Tables built from one config have one image under a map that blurs its resolutions. -/
theorem buildRouteTable_map {m : TableMap R}
    (hblurs : Blurs m config (resolverOf config policy₁ lookup₁ hashOne₁)
      (resolverOf config policy₂ lookup₂ hashOne₂)) :
    OkRel (SameImage m) (buildRouteTable config policy₁ lookup₁ hashOne₁)
      (buildRouteTable config policy₂ lookup₂ hashOne₂) := by
  refine (httpInsertions_map hblurs 0 fun _ h => h).bind fun ins₁ ins₂ hins => ?_
  have hhttp : (httpTable config.gateway ins₁).map m = (httpTable config.gateway ins₂).map m := by
    rw [httpTable_map, httpTable_map, hins]
  refine (OkRel.foldlM (fun route hroute => convertL4Route_map hblurs false route fun _ href =>
    mem_append_left _ (mem_flatMap.mpr ⟨route, hroute, href⟩)) hhttp).bind fun _ _ htcp => ?_
  refine (OkRel.foldlM (fun route hroute => convertL4Route_map hblurs true route fun _ href =>
    mem_append_right _ (mem_append_left _ (mem_flatMap.mpr ⟨route, hroute, href⟩))) htcp).bind
      fun _ _ hudp => ?_
  exact OkRel.foldlM (convertTlsRoute_map hblurs) hudp

theorem buildRouteTable_shape (ht : buildRouteTable config policy₁ lookup₁ hashOne₁ = .ok t)
    (hu : buildRouteTable config policy₂ lookup₂ hashOne₂ = .ok u) : t.shape = u.shape := by
  refine buildRouteTable_map (m := stripMap R) ⟨?_, fun _ _ _ _ _ _ _ => rfl⟩ t u ht hu
  intro _ _ _ _ _ compiled _ i rules₁ rules₂ h₁ h₂
  exact (tableRules_strip h₁).trans (tableRules_strip h₂).symm

end
end Portail.Config
