import Portail.Config.Placements
import Portail.Routing.HostCase

/-!
# Listener isolation

The most specific listener of a port for a host should be the only one whose routes
take its requests. The table knows a listener by the scopes its routes made, so that
holds when the listener has a route with rules, or no hostname, and only then unless the
host is cut (`isolated_iff`).
-/

namespace Portail.Config

open Lib Http Routing List

variable {R : Type} {port : UInt16} {name : Option Bytes}

section

/-- A listener's hostname as the table compares it. -/
def listenerName (l : ListenerConfig) : Option Bytes := l.hostname.map fun h => lowercase h.octets

/-- No HTTP or HTTPS listener of the port matches the host more specifically. -/
def MostSpecific (gateway : GatewayConfig) (port : UInt16) (host : Bytes) (l : ListenerConfig) :
    Prop :=
  l ∈ gateway.listeners ∧ takesHttpRoutes l = true ∧ l.port = port ∧
    ∃ n, listenerSpecificity (listenerName l) host = some n ∧
      ∀ l' ∈ gateway.listeners, takesHttpRoutes l' = true → l'.port = port → ∀ m,
        listenerSpecificity (listenerName l') host = some m → m ≤ n

/-- The route is attached to a listener of the port and the hostname, and is served there. -/
def AttachedTo (gateway : GatewayConfig) (route : HttpRouteConfig) (port : UInt16)
    (name : Option Bytes) : Prop :=
  ∃ l ∈ findListenersForRoute route.parentRefs gateway, takesHttpRoutes l = true ∧
    l.port = port ∧ listenerName l = name ∧
    effectiveHostnames (l.hostname.map Str.octets) (route.hostnames.map Str.octets) ≠ []

variable [RegexEngine R]

/-- The table's rule is one of the route's. -/
def ComesFrom (config : PortailConfig) (r : Resolver) (rule : Routing.HttpRouteRule R)
    (route : HttpRouteConfig) : Prop :=
  ∃ (i : ℕ) (rules : List (Routing.HttpRouteRule R)), config.httpRoutes[i]? = some route ∧
    routeRules config r i route = .ok rules ∧ ∃ x ∈ rules, rule = ListenerScope.withFilters x

/-- A rule found comes from a route of the most specific listener's hostname, or from one without
parentRefs when that listener has no hostname. -/
def Isolated (config : PortailConfig) (r : Resolver) (t : RouteTable R) (host : Bytes)
    (req : RouteRequest) (port : UInt16) : Prop :=
  ∀ rule, t.findHttpRoute host req port = some rule →
    ∃ l route, MostSpecific config.gateway port (lowercase host) l ∧ ComesFrom config r rule route ∧
      (AttachedTo config.gateway route port (listenerName l) ∨
        route.parentRefs = [] ∧ l.hostname = none)

/-- A route with rules is attached to a listener of the hostname. -/
def Populated (R : Type) [RegexEngine R] (config : PortailConfig) (r : Resolver) (port : UInt16)
    (name : Option Bytes) : Prop :=
  ∃ (i : ℕ) (route : HttpRouteConfig) (rules : List (Routing.HttpRouteRule R)),
    config.httpRoutes[i]? = some route ∧ routeRules config r i route = .ok rules ∧ rules ≠ [] ∧
    AttachedTo config.gateway route port name

/-- The most specific listener for the host has no hostname or a route with rules; if the host is
cut, the listener is the most specific for what is left of it too. -/
def OwnScope (R : Type) [RegexEngine R] (config : PortailConfig) (r : Resolver) (host : Bytes)
    (port : UInt16) : Prop :=
  ∃ l, MostSpecific config.gateway port (lowercase host) l ∧
    (SearchedWhole host ∨ MostSpecific config.gateway port (hostKey host) l) ∧
    (l.hostname = none ∨ Populated R config r port (listenerName l))

end

section

/-- The listeners the parentRefs select, in the order they are met. -/
def selectedListeners (parentRefs : List ParentRef) (gateway : GatewayConfig) :
    List ListenerConfig :=
  parentRefs.flatMap fun pr => gateway.listeners.filter pr.selects

variable {gateway : GatewayConfig} {parentRefs : List ParentRef} {l : ListenerConfig}

theorem mem_selectedListeners : l ∈ selectedListeners parentRefs gateway ↔
      l ∈ gateway.listeners ∧ ∃ pr ∈ parentRefs, pr.selects l = true := by
  simp only [selectedListeners, mem_flatMap, mem_filter]
  tauto

theorem mem_foldl_addListener_first {ls matched : List ListenerConfig} {x : ListenerConfig} :
    x ∈ ls.foldl addListener matched ↔ x ∈ matched ∨
      (∀ m ∈ matched, m.name ≠ x.name) ∧ ls.find? (fun m => m.name == x.name) = some x := by
  induction ls generalizing matched with
  | nil => simp
  | cons l ls ih =>
    rw [foldl_cons, ih, find?_cons, addListener]
    by_cases hname : l.name = x.name
    · have hbeq : (l.name == x.name) = true := beq_iff_eq.mpr hname
      rw [hbeq]
      split_ifs with hthere
      · obtain ⟨m, hm, hml⟩ := any_eq_true.mp hthere
        have hno : ¬ ∀ m ∈ matched, m.name ≠ x.name :=
          fun h => h m hm ((beq_iff_eq.mp hml).trans hname)
        simp [hno]
      · have hno : ∀ m ∈ matched, m.name ≠ x.name := fun m hm heq =>
          hthere (any_eq_true.mpr ⟨m, hm, beq_iff_eq.mpr (heq.trans hname.symm)⟩)
        simp only [mem_append, mem_singleton, Option.some.injEq]
        constructor
        · rintro ((hx | rfl) | ⟨hall, -⟩)
          · exact .inl hx
          · exact .inr ⟨hno, rfl⟩
          · exact absurd hname (hall l (.inr rfl))
        · rintro (hx | ⟨-, rfl⟩)
          · exact .inl (.inl hx)
          · exact .inl (.inr rfl)
    · have hbeq : (l.name == x.name) = false := beq_eq_false_iff_ne.mpr hname
      have hne : x ≠ l := fun h => hname (h ▸ rfl)
      rw [hbeq]
      split_ifs
      · rfl
      · simp only [mem_append, mem_singleton, hne, or_false, or_imp, forall_and,
          forall_eq, hname, not_false_eq_true, ne_eq, and_true]

theorem mem_findListenersForRoute_first : l ∈ findListenersForRoute parentRefs gateway ↔
      (selectedListeners parentRefs gateway).find? (fun m => m.name == l.name) = some l := by
  have hfold : findListenersForRoute parentRefs gateway =
      (selectedListeners parentRefs gateway).foldl addListener [] := by
    rw [selectedListeners, foldl_flatMap]
    rfl
  rw [hfold, mem_foldl_addListener_first]
  simp

theorem mem_findListenersForRoute (h : l ∈ findListenersForRoute parentRefs gateway) :
    l ∈ gateway.listeners := by
  have hselected := mem_of_find?_eq_some (mem_findListenersForRoute_first.mp h)
  exact (mem_selectedListeners.mp hselected).1

/-- A scope a route attaches to is a listener's, or that of a route without parentRefs. -/
theorem mem_httpScopes {lh : Option Bytes} (h : (port, lh) ∈ httpScopes gateway parentRefs) :
    (parentRefs = [] ∧ port = 0 ∧ lh = none) ∨
      ∃ l ∈ findListenersForRoute parentRefs gateway, takesHttpRoutes l = true ∧ l.port = port ∧
        lh = l.hostname.map Str.octets := by
  unfold httpScopes at h
  split_ifs at h with hempty
  · exact .inl ⟨isEmpty_iff.mp hempty, by simpa using h⟩
  · obtain ⟨l, hl, heq⟩ := mem_map.mp h
    obtain ⟨hl, htakes⟩ := mem_filter.mp hl
    obtain ⟨rfl, rfl⟩ := Prod.mk.inj heq
    exact .inr ⟨l, hl, htakes, rfl, rfl⟩

theorem AttachedTo.mem_httpScopes {route : HttpRouteConfig}
    (h : AttachedTo gateway route port name) :
    ∃ lh host, (port, lh) ∈ httpScopes gateway route.parentRefs ∧ lh.map lowercase = name ∧
      host ∈ effectiveHostnames lh (route.hostnames.map Str.octets) := by
  obtain ⟨l, hl, htakes, rfl, rfl, hhosts⟩ := h
  obtain ⟨host, hhost⟩ := exists_mem_of_ne_nil _ hhosts
  refine ⟨l.hostname.map Str.octets, host, ?_, by simp [listenerName, Function.comp_def], hhost⟩
  have hne : route.parentRefs ≠ [] := by
    rintro hnil
    simp [hnil, findListenersForRoute] at hl
  rw [httpScopes, if_neg (by simpa using hne)]
  exact mem_map.mpr ⟨l, mem_filter.mpr ⟨hl, htakes⟩, rfl⟩

end

section

variable [RegexEngine R]

/-- The scope of a listener that has a route with rules is in the table. -/
theorem Populated.configured {config : PortailConfig} {r : Resolver}
    (h : Populated R config r port name) :
    ∃ q : Placement R, Configured config r q ∧ q.insertion.port = port ∧
      scopeName Placement.insertion q = name := by
  obtain ⟨i, route, rules, hroute, hrules, hne, hattached⟩ := h
  obtain ⟨lh, host, hscope, hname, hhost⟩ := hattached.mem_httpScopes
  obtain ⟨rule, rest, rfl⟩ := exists_cons_of_ne_nil hne
  exact ⟨⟨i, 0, port, lh, host, rule⟩, ⟨route, rule :: rest, hroute, hrules, rfl, hscope, hhost⟩,
    rfl, hname⟩

/-- A lookup on a port is isolated when no rule matches or the most specific listener has its own
scope, and only then unless the host is cut. -/
theorem isolated_iff {config : PortailConfig} {policy : BuildPolicy} {lookup : Lookup}
    {hashOne : SocketAddr → UInt64} {t : RouteTable R} {host : Bytes}
    (hbuild : buildRouteTable config policy lookup hashOne = .ok t)
    (hports : ∀ l ∈ config.gateway.listeners, l.port ≠ 0) (hutf8 : isUtf8 host = true)
    (hhost : (hostKey host).length < u32Max) (req : RouteRequest) (port : UInt16) :
    let r := resolverOf config policy lookup hashOne
    ((∀ p : Placement R, ¬Matching config r port (hostKey host) req p) ∨
        OwnScope R config r host port → Isolated config r t host req port) ∧
      (SearchedWhole host → Isolated config r t host req port →
        (∀ p : Placement R, ¬Matching config r port (hostKey host) req p) ∨
          OwnScope R config r host port) := by
  intro r
  have hfound : (t.findHttpRoute host req port).isSome = true ↔ _ := find_isSome_iff hbuild hhost
  constructor
  · rintro (hnone | ⟨l, hlower, hwhole, hpop⟩) rule hrule
    · obtain ⟨p, hp⟩ := hfound.mp (by rw [hrule]; rfl)
      exact absurd hp (hnone p)
    have hl : MostSpecific config.gateway port (hostKey host) l := by
      rcases hwhole with hwhole | hl
      · rwa [hostKey_whole hutf8 hwhole]
      · exact hl
    obtain ⟨p, rfl, hp⟩ := find_matching hbuild hhost hrule
    obtain ⟨_, _, hport, k, hk, hkmax⟩ := id hl
    obtain ⟨n, hn, hnmax⟩ := hp.top
    obtain ⟨route, rules, hroute, hrules, hget, hscope, heff⟩ := hp.configured
    have hfrom : ComesFrom config (resolverOf config policy lookup hashOne)
        (ListenerScope.withFilters p.insertion.rule) route :=
      ⟨p.routeIndex, rules, hroute, hrules, _, mem_of_getElem? hget, rfl⟩
    have hl0 : l.port ≠ 0 := hports l hl.1
    -- The scopes of the table reach at least the specificity of the listener.
    have hkn : k ≤ n := by
      rcases hpop with hnone | hpop
      · rw [listenerName, hnone] at hk
        exact (Option.some.inj hk).symm.le.trans (Nat.zero_le n)
      · obtain ⟨q, hq, hqport, hqname⟩ := hpop.configured
        exact hnmax q hq (.inl ⟨hqport, hport ▸ hl0⟩) k (hqname ▸ hk)
    refine ⟨l, route, hlower, hfrom, ?_⟩
    rcases mem_httpScopes hscope with ⟨hnil, _, hlh⟩ | ⟨l', hl', htakes, hport', hlh⟩
    · refine .inr ⟨hnil, ?_⟩
      rw [scopeName, hlh] at hn
      obtain rfl : 0 = n := Option.some.inj hn
      obtain rfl : k = 0 := by omega
      have hname : listenerName l = none := listenerSpecificity_inj hk rfl hhost
      simpa [listenerName] using hname
    · have hmem := mem_findListenersForRoute hl'
      have hname' : scopeName Placement.insertion p = listenerName l' := by
        simp [scopeName, hlh, listenerName, Function.comp_def]
      have hportp : l'.port = port := by
        rcases hp.served with ⟨heq, _⟩ | ⟨heq, _⟩
        · exact hport'.trans heq
        · exact absurd (hport'.trans heq) (hports l' hmem)
      have hnk := hkmax l' hmem htakes hportp n (hname' ▸ hn)
      obtain rfl : k = n := by omega
      refine .inl ⟨l', hl', htakes, hportp, ?_, hlh ▸ ne_nil_of_mem heff⟩
      exact listenerSpecificity_inj (hname' ▸ hn) hk hhost
  · intro hwhole hisolated
    cases hfind : t.findHttpRoute host req port with
    | none =>
      refine .inl fun p hp => ?_
      rw [hfind] at hfound
      cases hfound.mpr ⟨p, hp⟩
    | some rule =>
      obtain ⟨l, route, hl, ⟨i, rules, hroute, hrules, x, hx, _⟩, hattached | ⟨_, hnone⟩⟩ :=
        hisolated rule hfind
      · exact .inr ⟨l, hl, .inl hwhole, .inr ⟨i, route, rules, hroute, hrules, ne_nil_of_mem hx,
          hattached⟩⟩
      · exact .inr ⟨l, hl, .inl hwhole, .inl hnone⟩

end

/-- A listener for one host beside a catch-all listener on the same port. -/
def hostListener : ListenerConfig :=
  ⟨Str.lit "host", .http, 80, none, some (Str.lit "a.example.com"), none, none, none, none⟩

/-- A route attached to the catch-all listener. -/
def webRoute : HttpRouteConfig :=
  ⟨[⟨Str.lit "portail-gateway", some (Str.lit "web"), none⟩], [], [anyRule]⟩

def leakyConfig : PortailConfig :=
  { plainConfig with
    gateway := ⟨Str.lit "portail-gateway", [hostListener, webListener], []⟩
    httpRoutes := [webRoute] }

def leakyTable : RouteTable Empty := httpTable leakyConfig.gateway
  [⟨80, none, bytes "*", anyTableRule 0⟩]

theorem leaky_build :
    buildRouteTable leakyConfig .lenient noLookup (fun _ => 0) = .ok leakyTable := rfl

/-- A host of the catch-all listener gets its route. -/
theorem isolated_iff_leaky :
    leakyTable.findHttpRoute (bytes "b.example.com") anyRequest 80 = some (anyTableRule 0) ∧
    Isolated leakyConfig (resolverOf leakyConfig .lenient noLookup fun _ => 0) leakyTable
      (bytes "b.example.com") anyRequest 80 := by
  have hother : listenerSpecificity (listenerName hostListener) (bytes "b.example.com") = none :=
    rfl
  have hmost : MostSpecific leakyConfig.gateway 80 (bytes "b.example.com") webListener := by
    refine ⟨by simp [leakyConfig], rfl, rfl, 0, rfl, fun l' hl' _ _ m hm => ?_⟩
    rcases mem_pair.mp hl' with rfl | rfl
    · rw [hother] at hm
      cases hm
    · exact (Option.some.inj hm).ge
  exact ⟨rfl, (isolated_iff leaky_build (by decide) (by decide) (by decide) anyRequest 80).1
    (.inr ⟨webListener, hmost, .inl (.inl (by decide)), .inl rfl⟩)⟩

/-- The listener without routes leaves its host to the catch-all listener's route. -/
theorem leaky_not_isolated :
    buildRouteTable leakyConfig .lenient noLookup (fun _ => 0) = .ok leakyTable ∧
    MostSpecific leakyConfig.gateway 80 (bytes "a.example.com") hostListener ∧
    leakyTable.findHttpRoute (bytes "a.example.com") anyRequest 80 = some (anyTableRule 0) ∧
    ¬Isolated leakyConfig (resolverOf leakyConfig .lenient noLookup fun _ => 0) leakyTable
      (bytes "a.example.com") anyRequest 80 := by
  have hspec : listenerSpecificity (listenerName hostListener) (bytes "a.example.com") =
    some 14 := rfl
  have hmost : MostSpecific leakyConfig.gateway 80 (bytes "a.example.com") hostListener :=
    ⟨by simp [leakyConfig], rfl, rfl, 14, hspec, fun l' _ _ _ m hm => listenerSpecificity_le hm⟩
  refine ⟨leaky_build, hmost, rfl, fun hisolated => ?_⟩
  obtain ⟨l, route, hl, ⟨i, _, hroute, _⟩, hcase⟩ := hisolated (anyTableRule 0) rfl
  have hname : listenerName l = listenerName hostListener := by
    obtain ⟨hmem, _, _, n, hn, hmax⟩ := hl
    have hle := hmax hostListener hmost.1 rfl rfl 14 hspec
    obtain rfl : n = 14 := le_antisymm (listenerSpecificity_le hn) hle
    exact listenerSpecificity_inj hn hspec (by decide)
  obtain rfl : route = webRoute := mem_singleton.mp (mem_of_getElem? hroute)
  rcases hcase with ⟨l', hl', _, _, hname', _⟩ | ⟨hnil, _⟩
  · obtain rfl : l' = webListener := mem_singleton.mp hl'
    rw [hname] at hname'
    exact absurd hname' (by decide)
  · exact absurd hnil (by simp [webRoute])

end Portail.Config
