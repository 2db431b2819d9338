import Portail.Config.ParentRefs

/-!
# The limiters a build asks for

`build_route_table` asks the process-wide registry for the limiter of each rate-limited
listener a route attaches to, once the route is compiled and resolved. It does so whether
the build then ends or fails on a later route.
-/

namespace Portail.Config

open Lib Http Routing List

section

/-- A call of `limiter_for`: the listener's port and name, and the limits. -/
structure LimiterCall where
  key : UInt16 × Str
  rps : UInt32
  burst : UInt32

def ListenerConfig.limiterCall (l : ListenerConfig) (rl : RateLimitSpec) : LimiterCall :=
  ⟨(l.port, l.name), rl.requestsPerSecond, rl.effectiveBurst⟩

def routeLimiterCalls (gateway : GatewayConfig) (route : HttpRouteConfig) : List LimiterCall :=
  ((findListenersForRoute route.parentRefs gateway).filter takesHttpRoutes).filterMap fun l =>
    l.rateLimit.map l.limiterCall

variable (R : Type) [RegexEngine R]

/-- The calls of the routes in order, up to the one the build fails on. -/
def limiterCalls (config : PortailConfig) (r : Resolver) :
    ℕ → List HttpRouteConfig → List LimiterCall
  | _, [] => []
  | i, route :: rest =>
    match (compileHttpRoute route : Except RouteError (List (CompiledRule R))),
      (routeRules config r i route : Result (List (Routing.HttpRouteRule R))) with
    | _, .error _ => []
    -- Left out by a lenient build, before its listeners are looked at.
    | .error _, .ok _ => limiterCalls config r (i + 1) rest
    | .ok _, .ok _ => routeLimiterCalls config.gateway route ++ limiterCalls config r (i + 1) rest

/-- A listener with a route: one that compiles, attaches to it and is served under a hostname. -/
def HasRoute (config : PortailConfig) (l : ListenerConfig) : Prop :=
  ∃ route ∈ config.httpRoutes,
    (∃ compiled : List (CompiledRule R), compileHttpRoute route = .ok compiled ∧ compiled ≠ []) ∧
    l ∈ findListenersForRoute route.parentRefs config.gateway ∧ takesHttpRoutes l = true ∧
    effectiveHostnames (l.hostname.map Str.octets) (route.hostnames.map Str.octets) ≠ []

end

/-- The first listener of a port and a name. -/
def listenerAt (gateway : GatewayConfig) (key : UInt16 × Str) : Option ListenerConfig :=
  gateway.listeners.find? fun l => l.port == key.1 && l.name == key.2

/-- Only the first listener of a port and a name has routes. -/
theorem listenerAt_of_mem {parentRefs : List ParentRef} {gateway : GatewayConfig}
    {l : ListenerConfig} (h : l ∈ findListenersForRoute parentRefs gateway) :
    listenerAt gateway (l.port, l.name) = some l := by
  have hfirst := mem_findListenersForRoute_first.mp h
  rw [selectedListeners, find?_flatMap] at hfirst
  obtain ⟨pr, -, hfind⟩ := exists_of_findSome?_eq_some hfirst
  rw [find?_filter, find?_eq_some_iff_append] at hfind
  obtain ⟨hl, before, after, hsplit, hbefore⟩ := hfind
  obtain ⟨hselects, -⟩ := of_decide_eq_true hl
  refine find?_eq_some_iff_append.mpr ⟨by simp, before, after, hsplit, ?_⟩
  intro a ha
  by_contra hsame
  obtain ⟨hport, hname⟩ : a.port = l.port ∧ a.name = l.name := by simpa using hsame
  have halike : pr.selects a = true := by
    rw [← hselects]
    simp only [ParentRef.selects, hport, hname]
  have hnot := hbefore a ha
  simp [halike, hname] at hnot

section

variable {R : Type} [RegexEngine R] {config : PortailConfig} {r : Resolver}
  {routes : List HttpRouteConfig} {call : LimiterCall}

theorem mem_routeLimiterCalls {gateway : GatewayConfig} {route : HttpRouteConfig} :
    call ∈ routeLimiterCalls gateway route ↔
      ∃ l ∈ findListenersForRoute route.parentRefs gateway, takesHttpRoutes l = true ∧
        ∃ rl, l.rateLimit = some rl ∧ l.limiterCall rl = call := by
  simp only [routeLimiterCalls, mem_filterMap, mem_filter, Option.map_eq_some_iff, and_assoc]

/-- The calls of a build for one key have the limits of one listener. -/
theorem limiterCalls_listener {i : ℕ} (h : call ∈ limiterCalls R config r i routes) :
    ∃ l rl, listenerAt config.gateway call.key = some l ∧ l.rateLimit = some rl ∧
      l.limiterCall rl = call := by
  induction routes generalizing i with
  | nil => cases h
  | cons route rest ih =>
    unfold limiterCalls at h
    split at h
    · cases h
    · exact ih h
    · rcases mem_append.mp h with h | h
      · obtain ⟨l, hl, -, rl, hrl, rfl⟩ := mem_routeLimiterCalls.mp h
        exact ⟨l, rl, listenerAt_of_mem hl, hrl, rfl⟩
      · exact ih h

theorem limiterCalls_unique {i : ℕ} {call' : LimiterCall}
    (h : call ∈ limiterCalls R config r i routes) (h' : call' ∈ limiterCalls R config r i routes)
    (hkey : call.key = call'.key) : call = call' := by
  obtain ⟨l, rl, hl, hrl, rfl⟩ := limiterCalls_listener h
  obtain ⟨l', rl', hl', hrl', rfl⟩ := limiterCalls_listener h'
  rw [hkey, hl'] at hl
  cases hl
  rw [hrl'] at hrl
  rw [Option.some.inj hrl]

/-- A build that does not fail asks for the limiter of every rate-limited listener with a route. -/
theorem HasRoute.called {l : ListenerConfig} {rl : RateLimitSpec} (hl : HasRoute R config l)
    (hrl : l.rateLimit = some rl) {insertions : List (Insertion R)}
    (hbuild : httpInsertions config r 0 config.httpRoutes = .ok insertions) :
    l.limiterCall rl ∈ limiterCalls R config r 0 config.httpRoutes := by
  obtain ⟨route, hroute, ⟨compiled, hcompiled, -⟩, hattached, htakes, -⟩ := hl
  generalize config.httpRoutes = routes at hroute hbuild
  generalize 0 = i at hbuild ⊢
  induction routes generalizing i insertions with
  | nil => cases hroute
  | cons head rest ih =>
    simp only [httpInsertions, bind_eq_ok] at hbuild
    obtain ⟨rules, hrules, others, hothers, -⟩ := hbuild
    simp only [limiterCalls, hrules]
    rcases mem_cons.mp hroute with rfl | hroute
    · rw [hcompiled]
      exact mem_append_left _ (mem_routeLimiterCalls.mpr ⟨l, hattached, htakes, rl, hrl, rfl⟩)
    · have hrest := ih hroute (i + 1) hothers
      split
      · cases ‹Except.ok rules = _›
      · exact hrest
      · exact mem_append_right _ hrest

end
end Portail.Config
