import Mathlib.Data.List.AList
import Portail.Routing.Hosts
import Portail.Routing.Match

/-!
# The route table

Rules by port, listener hostname and route hostname, as `routing/build.rs` fills the
table and `find_http_route` searches it. A hash map is an association list with
distinct keys; nothing depends on its order.
-/

namespace Portail.Routing

open Lib Http

section

abbrev Map (K V : Type) := AList fun _ : K => V

def Map.values {K V : Type} (m : Map K V) : List V := m.entries.map Sigma.snd

/-- Every value through a function. -/
def Map.mapValues {K V : Type} (f : V → V) (m : Map K V) : Map K V where
  entries := m.entries.map fun e => ⟨e.1, f e.2⟩
  nodupKeys := by
    have hkeys : (m.entries.map fun e => (⟨e.1, f e.2⟩ : Sigma fun _ : K => V)).keys =
        m.entries.keys := by
      simp [List.keys, Function.comp_def]
    rw [List.NodupKeys, hkeys]
    exact m.nodupKeys

/-- A value appended to the key's row. -/
def Map.append {K V : Type} [DecidableEq K] (m : Map K (List V)) (key : K) (v : V) :
    Map K (List V) := m.insert key ((m.lookup key).getD [] ++ [v])

abbrev HostEntry (R : Type) := List (HttpRouteRule R)

variable (R : Type)

/-- The HTTP routes of a listener hostname on a port. -/
structure ListenerScope where
  listenerHostname : Option Bytes
  httpRoutes : Map Bytes (HostEntry R)
  wildcardHttpRoutes : Map Bytes (HostEntry R)
  catchAllHttpRoutes : Option (HostEntry R)

structure PortScopes where
  scopes : List (ListenerScope R)
  shared : Bool

/-- The routes of a TLS passthrough listener, by SNI. -/
structure TlsScope where
  listenerHostname : Option Bytes
  exact : Map Bytes (List Backend)
  wildcard : Map Bytes (List Backend)
  catchAll : Option (List Backend)

structure RouteTable where
  listenerScopes : Map UInt16 (PortScopes R)
  sharedScopes : List (ListenerScope R)
  sharedOnEveryPort : Bool
  tcpRoutes : Map UInt16 (List Backend)
  udpRoutes : Map UInt16 (List Backend)
  tlsScopes : Map UInt16 (List TlsScope)

def RouteTable.new : RouteTable R := ⟨∅, [], true, ∅, ∅, ∅⟩

end

variable {R : Type}

def lowercase (text : Bytes) : Bytes := text.map toAsciiLowercase

namespace ListenerScope

def new (listenerHostname : Option Bytes) : ListenerScope R := ⟨listenerHostname, ∅, ∅, none⟩

def withFilters (rule : HttpRouteRule R) : HttpRouteRule R :=
  { rule with hasFilters := !rule.filters.isEmpty || rule.backends.any fun b => !b.filters.isEmpty }

/-- A rule appended to its host's entry. -/
def pushRoute (s : ListenerScope R) (routeHost : Bytes) (rule : HttpRouteRule R) :
    ListenerScope R :=
  let rule := withFilters rule
  let hostLower := lowercase routeHost
  if hostLower = bytes "*" then
    { s with catchAllHttpRoutes := some (s.catchAllHttpRoutes.getD [] ++ [rule]) }
  else
    match stripStar hostLower with
    | some parent => { s with wildcardHttpRoutes := s.wildcardHttpRoutes.append parent rule }
    | none => { s with httpRoutes := s.httpRoutes.append hostLower rule }

/-- The scope of a listener hostname changed, made first where there is none. -/
def update (listenerHostname : Option Bytes) (f : ListenerScope R → ListenerScope R) :
    List (ListenerScope R) → List (ListenerScope R)
  | [] => [f (new listenerHostname)]
  | s :: rest =>
    if s.listenerHostname = listenerHostname then f s :: rest
    else s :: update listenerHostname f rest

/-- Rules in the order of their precedence; the sort is stable. -/
def sortRules (rules : HostEntry R) : HostEntry R := rules.insertionSort MatchLE

def sort (s : ListenerScope R) : ListenerScope R :=
  { s with
    httpRoutes := s.httpRoutes.mapValues sortRules
    wildcardHttpRoutes := s.wildcardHttpRoutes.mapValues sortRules
    catchAllHttpRoutes := s.catchAllHttpRoutes.map sortRules }

end ListenerScope

/-- A rule on its way into the table. -/
structure Insertion (R : Type) where
  port : UInt16
  listenerHostname : Option Bytes
  routeHost : Bytes
  rule : HttpRouteRule R

namespace RouteTable

/-- Port 0 holds what ports share. -/
def pushHttpRouteForListener (t : RouteTable R) (i : Insertion R) : RouteTable R :=
  let f := ListenerScope.update (i.listenerHostname.map lowercase) (·.pushRoute i.routeHost i.rule)
  if i.port = 0 then { t with sharedScopes := f t.sharedScopes }
  else
    let entry := (t.listenerScopes.lookup i.port).getD ⟨[], false⟩
    { t with listenerScopes :=
        t.listenerScopes.insert i.port { entry with scopes := f entry.scopes } }

def sortHttpRoutes (t : RouteTable R) : RouteTable R :=
  { t with
    listenerScopes := t.listenerScopes.mapValues fun p =>
      { p with scopes := p.scopes.map ListenerScope.sort }
    sharedScopes := t.sharedScopes.map ListenerScope.sort }

/-- The shared scopes are served on the given ports only. -/
def shareAnyPortScopesOn (t : RouteTable R) (ports : List UInt16) : RouteTable R :=
  ports.foldl (fun t port =>
    let entry := (t.listenerScopes.lookup port).getD ⟨[], false⟩
    { t with listenerScopes := t.listenerScopes.insert port { entry with shared := true } })
    { t with sharedOnEveryPort := false }

/-- The first registration of a port wins. -/
def insertFirst {K : Type} [DecidableEq K] (m : Map K (List Backend)) (key : K)
    (backends : List Backend) : Map K (List Backend) :=
  if key ∈ m then m else m.insert key backends

def addTcpRoute (t : RouteTable R) (port : UInt16) (backends : List Backend) : RouteTable R :=
  { t with tcpRoutes := insertFirst t.tcpRoutes port backends }

def addUdpRoute (t : RouteTable R) (port : UInt16) (backends : List Backend) : RouteTable R :=
  { t with udpRoutes := insertFirst t.udpRoutes port backends }

end RouteTable

namespace TlsScope

def new (listenerHostname : Option Bytes) : TlsScope := ⟨listenerHostname, ∅, ∅, none⟩

def add (s : TlsScope) (routeHost : Bytes) (backends : List Backend) : TlsScope :=
  let hostLower := lowercase routeHost
  if hostLower = bytes "*" then { s with catchAll := s.catchAll.or (some backends) }
  else
    match stripStar hostLower with
    | some parent => { s with wildcard := RouteTable.insertFirst s.wildcard parent backends }
    | none => { s with exact := RouteTable.insertFirst s.exact hostLower backends }

def update (listenerHostname : Option Bytes) (f : TlsScope → TlsScope) :
    List TlsScope → List TlsScope
  | [] => [f (new listenerHostname)]
  | s :: rest =>
    if s.listenerHostname = listenerHostname then f s :: rest
    else s :: update listenerHostname f rest

end TlsScope

/-- The first registration of a hostname in a listener wins. -/
def RouteTable.addTlsRouteForListener (t : RouteTable R) (port : UInt16)
    (listenerHostname : Option Bytes) (routeHost : Bytes) (backends : List Backend) :
    RouteTable R :=
  let scopes := TlsScope.update (listenerHostname.map lowercase) (·.add routeHost backends)
    ((t.tlsScopes.lookup port).getD [])
  { t with tlsScopes := t.tlsScopes.insert port scopes }

section

variable [RegexEngine R]

/-- The best rule of a scope for a request, with the rank of the route hostname it stands under:
the exact host, then the parents, then the catch-all. -/
def ListenerScope.lookupHttpRoute (s : ListenerScope R) (host : Bytes) (req : RouteRequest) :
    Option (ℕ × HttpRouteRule R) :=
  let search (entry : Option (HostEntry R)) := entry.bind (findBestRuleMatch · req)
  ((search (s.httpRoutes.lookup host)).map fun rule => (u32Max, rule)) |>.or <|
  ((parentDomains host).findSome? fun parent =>
    (search (s.wildcardHttpRoutes.lookup parent)).map fun rule => (wildcardRank parent, rule)) |>.or
  ((search s.catchAllHttpRoutes).map fun rule => (0, rule))

/-- Whether the first of two rules found takes the request from the other. -/
def outranks (a b : ℕ × HttpRouteRule R) : Bool :=
  ((compare b.1 a.1).then <| (matchPrecedence a.2 b.2).then <|
    compare a.2.routeIndex b.2.routeIndex) == .lt

/-- The host as the table is searched for it: a mixed-case one is cut to 256 octets. -/
def hostKey (host : Bytes) : Bytes :=
  if host.any isAsciiUppercase then
    let lower := lowercase (host.take 256)
    if isUtf8 lower then lower else host
  else host

namespace RouteTable

def sharedScopesOf (t : RouteTable R) (port : Option (PortScopes R)) : List (ListenerScope R) :=
  if t.sharedScopes.isEmpty || !(t.sharedOnEveryPort || port.any PortScopes.shared) then []
  else t.sharedScopes

/-- The highest priority among the scopes that match. -/
def highestPriority (host : Bytes) (scopes : List (ListenerScope R)) : Option ℕ :=
  scopes.foldl (fun highest s =>
    match hostnameMatchPriority s.listenerHostname host with
    | none => highest
    | some priority => if highest.all (priority > ·) then some priority else highest) none

/-- The search of the scopes at the highest priority; without `compare` the first find wins. -/
def searchScopes (host : Bytes) (req : RouteRequest) (highest : ℕ) (compare : Bool) :
    Option (ℕ × HttpRouteRule R) → List (ListenerScope R) → Option (ℕ × HttpRouteRule R)
  | best, [] => best
  | best, s :: rest =>
    match hostnameMatchPriority s.listenerHostname host with
    | none => searchScopes host req highest compare best rest
    | some priority =>
      if priority < highest then searchScopes host req highest compare best rest
      else
        match s.lookupHttpRoute host req with
        | none => searchScopes host req highest compare best rest
        | some found =>
          if compare then
            searchScopes host req highest compare
              (if best.all (outranks found) then some found else best) rest
          else some found

def findHttpRoute (t : RouteTable R) (host : Bytes) (req : RouteRequest) (serverPort : UInt16) :
    Option (HttpRouteRule R) :=
  let host := hostKey host
  let port := t.listenerScopes.lookup serverPort
  let shared := t.sharedScopesOf port
  let own := (port.map PortScopes.scopes).getD []
  match highestPriority host (own ++ shared) with
  | none => none
  | some highest =>
    (searchScopes host req highest (!own.isEmpty && !shared.isEmpty) none (own ++ shared)).map
      Prod.snd

end RouteTable
end
end Portail.Routing
