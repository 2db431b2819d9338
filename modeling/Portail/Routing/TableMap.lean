import Portail.Routing.Signature

/-!
# Changing the backends of a whole table

A `TableMap` changes the rules and the backends of a table where they stand. Every operation
that builds a table commutes with it, since none of them looks at what it changes. A table's
shape is one such image of it; what a table is up to the order of its backends is another.
-/

namespace Portail.Routing

open Lib Http ListenerScope
open Function hiding update
open List hiding map

section

variable {K V : Type}

theorem mapValues_comm {f g : V → V} (h : ∀ v, f (g v) = g (f v)) (m : Map K V) :
    (m.mapValues g).mapValues f = (m.mapValues f).mapValues g := by
  apply AList.ext
  simp [Map.mapValues, map_map, comp_def, h]

theorem values_mapValues (f : V → V) (m : Map K V) : (m.mapValues f).values = m.values.map f := by
  simp only [Map.values, Map.mapValues, map_map, comp_def]

variable [DecidableEq K]

theorem mapValues_insert (f : V → V) (m : Map K V) (k : K) (v : V) :
    Map.mapValues f (AList.insert k v m) = AList.insert k (f v) (Map.mapValues f m) := by
  apply AList.ext
  simp only [Map.mapValues, AList.entries_insert, List.kerase, eraseP_map, map_cons]
  rfl

theorem mem_mapValues {f : V → V} {m : Map K V} {k : K} : k ∈ m.mapValues f ↔ k ∈ m := by
  rw [← AList.lookup_isSome, ← AList.lookup_isSome, lookup_mapValues, Option.isSome_map]

theorem mapValues_append {f : V → V} (m : Map K (List V)) (k : K) (v : V) :
    (m.append k v).mapValues (List.map f) = (m.mapValues (List.map f)).append k (f v) := by
  rw [Map.append, Map.append, mapValues_insert, lookup_mapValues]
  congr 1
  cases m.lookup k <;> simp

theorem mapValues_insertFirst (f : List Backend → List Backend) (m : Map K (List Backend))
    (key : K) (backends : List Backend) :
    (RouteTable.insertFirst m key backends).mapValues f =
      RouteTable.insertFirst (m.mapValues f) key (f backends) := by
  unfold RouteTable.insertFirst
  simp only [mem_mapValues]
  split_ifs
  · rfl
  · exact mapValues_insert f m key backends

end

variable {R : Type}

/-- A change of a table's rules and backends that its order and its filter marks do not see. -/
structure TableMap (R : Type) where
  rule : HttpRouteRule R → HttpRouteRule R
  route : List Backend → List Backend
  rule_withFilters (r : HttpRouteRule R) :
    rule (withFilters r) = withFilters (rule r)
  rule_matchLE (a b : HttpRouteRule R) : MatchLE (rule a) (rule b) ↔ MatchLE a b

section

variable (m : TableMap R)

def ListenerScope.map (s : ListenerScope R) : ListenerScope R :=
  { s with
    httpRoutes := s.httpRoutes.mapValues (List.map m.rule)
    wildcardHttpRoutes := s.wildcardHttpRoutes.mapValues (List.map m.rule)
    catchAllHttpRoutes := s.catchAllHttpRoutes.map (List.map m.rule) }

def PortScopes.map (p : PortScopes R) : PortScopes R :=
  { p with scopes := p.scopes.map (ListenerScope.map m) }

def TlsScope.map (s : TlsScope) : TlsScope :=
  { s with
    exact := s.exact.mapValues m.route
    wildcard := s.wildcard.mapValues m.route
    catchAll := s.catchAll.map m.route }

def RouteTable.map (t : RouteTable R) : RouteTable R where
  listenerScopes := t.listenerScopes.mapValues (PortScopes.map m)
  sharedScopes := t.sharedScopes.map (ListenerScope.map m)
  sharedOnEveryPort := t.sharedOnEveryPort
  tcpRoutes := t.tcpRoutes.mapValues m.route
  udpRoutes := t.udpRoutes.mapValues m.route
  tlsScopes := t.tlsScopes.mapValues (List.map (TlsScope.map m))

def Insertion.map (i : Insertion R) : Insertion R := { i with rule := m.rule i.rule }

end

/-- A rule without its backends and filters. -/
def HttpRouteRule.strip (rule : HttpRouteRule R) : HttpRouteRule R :=
  { rule with filters := [], backends := [], hasFilters := false }

def stripMap (R : Type) : TableMap R where
  rule := HttpRouteRule.strip
  route _ := []
  rule_withFilters _ := rfl
  rule_matchLE _ _ := Iff.rfl

/-- The table without its backends and filters. Tables of one shape have the same places. -/
def RouteTable.shape (t : RouteTable R) : RouteTable R := t.map (stripMap R)

section

variable (m : TableMap R)

theorem map_update_scope (g g' : ListenerScope R → ListenerScope R) (lh : Option Bytes)
    (hg : ∀ s, (g s).map m = g' (s.map m)) (scopes : List (ListenerScope R)) :
    (update lh g scopes).map (map m) = update lh g' (scopes.map (map m)) := by
  have hnew : (new lh).map m = .new lh := rfl
  induction scopes with
  | nil => simp [update, hg, hnew]
  | cons s rest ih =>
    have hname : (s.map m).listenerHostname = s.listenerHostname := rfl
    rw [update, map_cons, update, hname]
    split_ifs
    · rw [map_cons, hg]
    · rw [map_cons, ih]

theorem map_pushRoute (s : ListenerScope R) (host : Bytes) (rule : HttpRouteRule R) :
    (s.pushRoute host rule).map m = (s.map m).pushRoute host (m.rule rule) := by
  unfold pushRoute
  simp only
  split_ifs
  · cases hs : s.catchAllHttpRoutes <;> simp [map, hs, m.rule_withFilters]
  · split
    · simp only [map, mapValues_append, m.rule_withFilters]
    · simp only [map, mapValues_append, m.rule_withFilters]

theorem map_pushHttpRouteForListener (t : RouteTable R) (i : Insertion R) :
    (t.pushHttpRouteForListener i).map m = (t.map m).pushHttpRouteForListener (i.map m) := by
  have hupdate (scopes : List (ListenerScope R)) :=
    map_update_scope m (·.pushRoute i.routeHost i.rule) (·.pushRoute i.routeHost (m.rule i.rule))
      (i.listenerHostname.map lowercase) (fun s => map_pushRoute m s i.routeHost i.rule) scopes
  rw [RouteTable.pushHttpRouteForListener, RouteTable.pushHttpRouteForListener]
  by_cases hport : i.port = 0
  · rw [if_pos hport, if_pos (show (i.map m).port = 0 from hport)]
    simp only [RouteTable.map, hupdate]
    rfl
  · rw [if_neg hport, if_neg (show (i.map m).port ≠ 0 from hport)]
    simp only [RouteTable.map, mapValues_insert, lookup_mapValues]
    have hentry : PortScopes.map m ((t.listenerScopes.lookup i.port).getD ⟨[], false⟩) =
        (Option.map (PortScopes.map m) (t.listenerScopes.lookup i.port)).getD ⟨[], false⟩ := by
      cases t.listenerScopes.lookup i.port <;> rfl
    congr 2
    rw [show (i.map m).port = i.port from rfl, ← hentry]
    simp only [PortScopes.map, hupdate]
    rfl

theorem map_sortRules (rules : HostEntry R) :
    (sortRules rules).map m.rule = sortRules (rules.map m.rule) :=
  map_insertionSort _ _ _ _ fun a _ b _ => (m.rule_matchLE a b).symm

theorem map_sort (s : ListenerScope R) : s.sort.map m = (s.map m).sort := by
  simp only [sort, map, mapValues_comm (map_sortRules m), Option.map_map, comp_def, map_sortRules]

theorem map_sortHttpRoutes (t : RouteTable R) :
    t.sortHttpRoutes.map m = (t.map m).sortHttpRoutes := by
  have hscopes (scopes : List (ListenerScope R)) :
      (scopes.map ListenerScope.sort).map (ListenerScope.map m) =
        (scopes.map (ListenerScope.map m)).map ListenerScope.sort := by
    simp only [map_map, comp_def, map_sort]
  simp only [RouteTable.sortHttpRoutes, RouteTable.map, hscopes]
  rw [mapValues_comm fun p => by simp only [PortScopes.map, hscopes]]

theorem map_shareAnyPortScopesOn (t : RouteTable R) (ports : List UInt16) :
    (t.shareAnyPortScopesOn ports).map m = (t.map m).shareAnyPortScopesOn ports := by
  unfold RouteTable.shareAnyPortScopesOn
  induction ports using List.reverseRecOn with
  | nil => rfl
  | append_singleton ports port ih =>
    rw [foldl_append, foldl_append, ← ih]
    generalize ports.foldl _ _ = u
    simp only [foldl_cons, foldl_nil, RouteTable.map, mapValues_insert, lookup_mapValues]
    congr 2
    cases u.listenerScopes.lookup port <;> rfl

theorem map_addTcpRoute (t : RouteTable R) (port : UInt16) (backends : List Backend) :
    (t.addTcpRoute port backends).map m = (t.map m).addTcpRoute port (m.route backends) := by
  simp only [RouteTable.addTcpRoute, RouteTable.map, mapValues_insertFirst]

theorem map_addUdpRoute (t : RouteTable R) (port : UInt16) (backends : List Backend) :
    (t.addUdpRoute port backends).map m = (t.map m).addUdpRoute port (m.route backends) := by
  simp only [RouteTable.addUdpRoute, RouteTable.map, mapValues_insertFirst]

theorem TlsScope.map_add (s : TlsScope) (host : Bytes) (backends : List Backend) :
    (s.add host backends).map m = (s.map m).add host (m.route backends) := by
  unfold TlsScope.add
  simp only
  split_ifs
  · cases hs : s.catchAll <;> simp [TlsScope.map, hs]
  · split <;> simp only [TlsScope.map, mapValues_insertFirst]

theorem TlsScope.map_update (lh : Option Bytes) (host : Bytes) (backends : List Backend)
    (scopes : List TlsScope) :
    (TlsScope.update lh (·.add host backends) scopes).map (TlsScope.map m) =
      TlsScope.update lh (·.add host (m.route backends)) (scopes.map (TlsScope.map m)) := by
  induction scopes with
  | nil =>
    simp only [TlsScope.update, map_cons, map_nil, map_add]
    rfl
  | cons s rest ih =>
    have hname : (s.map m).listenerHostname = s.listenerHostname := rfl
    rw [TlsScope.update, map_cons, TlsScope.update, hname]
    split_ifs
    · rw [map_cons, map_add]
    · rw [map_cons, ih]

theorem map_addTlsRouteForListener (t : RouteTable R) (port : UInt16) (lh : Option Bytes)
    (host : Bytes) (backends : List Backend) :
    (t.addTlsRouteForListener port lh host backends).map m =
      (t.map m).addTlsRouteForListener port lh host (m.route backends) := by
  simp only [RouteTable.addTlsRouteForListener, RouteTable.map, mapValues_insert,
    lookup_mapValues, TlsScope.map_update]
  cases t.tlsScopes.lookup port <;> rfl

end

section

variable (m : TableMap R) (t : RouteTable R)

theorem entry_map (s : ListenerScope R) (kind : HostKind) :
    (s.map m).entry kind = (s.entry kind).map m.rule := by
  cases kind with
  | exact host =>
    simp only [entry, map, lookup_mapValues]
    cases s.httpRoutes.lookup host <;> rfl
  | wildcard parent =>
    simp only [entry, map, lookup_mapValues]
    cases s.wildcardHttpRoutes.lookup parent <;> rfl
  | catchAll =>
    simp only [entry, map]
    cases s.catchAllHttpRoutes <;> rfl

theorem scopesAt_map (home : UInt16) :
    (t.map m).scopesAt home = (t.scopesAt home).map (ListenerScope.map m) := by
  unfold RouteTable.scopesAt
  split_ifs
  · rfl
  · simp only [RouteTable.ownScopes, RouteTable.map, lookup_mapValues]
    cases t.listenerScopes.lookup home <;> rfl

theorem ruleAt_map (home : UInt16) (listener : Option Bytes) (kind : HostKind) (pos : ℕ) :
    (t.map m).ruleAt home listener kind pos = (t.ruleAt home listener kind pos).map m.rule := by
  have hname : ((fun s : ListenerScope R => s.listenerHostname == listener) ∘
      ListenerScope.map m) = fun s => s.listenerHostname == listener := rfl
  simp only [RouteTable.ruleAt, scopesAt_map, find?_map, hname, Option.bind_map,
    Option.map_bind, comp_def, entry_map, getElem?_map]

theorem backendsAt_map (hrule : ∀ r, (m.rule r).backends = m.route r.backends) (ref : RouteRef) :
    (t.map m).backendsAt ref = (t.backendsAt ref).map m.route := by
  cases ref with
  | http home listener kind pos =>
    simp only [RouteTable.backendsAt, ruleAt_map, Option.map_map, comp_def, hrule]
  | tcp port | udp port => exact lookup_mapValues _ _ _
  | tls port listener kind =>
    have hname : ((fun s : TlsScope => s.listenerHostname == listener) ∘ TlsScope.map m) =
        fun s => s.listenerHostname == listener := rfl
    have hscopes : ((t.map m).tlsScopes.lookup port).getD [] =
        ((t.tlsScopes.lookup port).getD []).map (TlsScope.map m) := by
      simp only [RouteTable.map, lookup_mapValues]
      cases t.tlsScopes.lookup port <;> rfl
    have hentry (s : TlsScope) : (s.map m).entry kind = (s.entry kind).map m.route := by
      cases kind with
      | exact host | wildcard parent => exact lookup_mapValues _ _ _
      | catchAll => rfl
    simp only [RouteTable.backendsAt, hscopes, find?_map, hname, Option.bind_map,
      Option.map_bind, comp_def, hentry]

theorem httpRules_map : (t.map m).httpScopes.flatMap ListenerScope.rules =
    (t.httpScopes.flatMap ListenerScope.rules).map m.rule := by
  have hrules (s : ListenerScope R) : (s.map m).rules = s.rules.map m.rule := by
    simp only [rules, map, values_mapValues, List.map_flatten, List.map_append]
    cases s.catchAllHttpRoutes <;> rfl
  have hscopes : (t.map m).httpScopes = t.httpScopes.map (ListenerScope.map m) := by
    simp only [RouteTable.httpScopes, RouteTable.map, values_mapValues, List.map_append,
      List.map_flatMap, List.flatMap_map]
    rfl
  simp only [hscopes, List.flatMap_map, List.map_flatMap, hrules]

theorem l4Backends_map :
    (t.map m).tcpRoutes.values ++ (t.map m).udpRoutes.values ++
        (t.map m).tlsScopes.values.flatten.flatMap TlsScope.backends =
      (t.tcpRoutes.values ++ t.udpRoutes.values ++
        t.tlsScopes.values.flatten.flatMap TlsScope.backends).map m.route := by
  have hscope (s : TlsScope) : (s.map m).backends = s.backends.map m.route := by
    simp only [TlsScope.backends, TlsScope.map, values_mapValues, map_append]
    cases s.catchAll <;> rfl
  simp only [RouteTable.map, values_mapValues, map_append, map_flatMap,
    ← map_flatten, flatMap_map, hscope]

end

noncomputable def unordered (backends : List Backend) : List Backend :=
  (backends : Multiset Backend).toList

theorem unordered_perm (backends : List Backend) : (unordered backends).Perm backends :=
  Multiset.coe_eq_coe.mp (Multiset.coe_toList _)

theorem unordered_eq_iff {a b : List Backend} : unordered a = unordered b ↔ a.Perm b := by
  constructor
  · intro h
    exact (unordered_perm a).symm.trans (h ▸ unordered_perm b)
  · intro h
    rw [unordered, unordered, Multiset.coe_eq_coe.mpr h]

/-- The map that forgets the order of backends. -/
noncomputable def orderMap (R : Type) : TableMap R where
  rule rule := { rule with backends := unordered rule.backends }
  route := unordered
  rule_withFilters rule := by
    simp only [withFilters, (unordered_perm rule.backends).any_eq]
  rule_matchLE _ _ := Iff.rfl

theorem dnsAddrs_orderMap (t : RouteTable R) : (t.map (orderMap R)).dnsAddrs.Perm t.dnsAddrs := by
  unfold RouteTable.dnsAddrs
  rw [httpRules_map, l4Backends_map, flatMap_map, map_flatten, map_flatten, map_map]
  refine List.Perm.append (List.Perm.flatMap_left _ fun rule _ => ?_) (List.Perm.flatten_congr ?_)
  · exact ((unordered_perm rule.backends).map _).append_right _
  · rw [forall₂_map_left_iff, forall₂_map_right_iff, forall₂_same]
    exact fun backends _ => (unordered_perm backends).map _

end Portail.Routing
