import Portail.Routing.TableSpec

/-!
# The addresses of a table

`dns_signature` folds the address of every backend and mirror of a table into one sum.
What it loses is where an address stands: `RouteTable.backendsAt` names the rules and
routes of a table by their places.
-/

namespace Portail.Routing

open Lib Http

variable {R : Type}

def HttpFilter.mirrorAddr : HttpFilter → Option SocketAddr
  | .requestMirror addr _ => some addr
  | _ => none

/-- The addresses of a rule, its mirrors' included. -/
def HttpRouteRule.addrs (rule : HttpRouteRule R) : List SocketAddr :=
  rule.backends.map Backend.socketAddr ++ rule.filters.filterMap HttpFilter.mirrorAddr

def ListenerScope.rules (s : ListenerScope R) : List (HttpRouteRule R) :=
  (s.httpRoutes.values ++ s.wildcardHttpRoutes.values ++ s.catchAllHttpRoutes.toList).flatten

def TlsScope.backends (s : TlsScope) : List (List Backend) :=
  s.exact.values ++ s.wildcard.values ++ s.catchAll.toList

namespace RouteTable

def httpScopes (t : RouteTable R) : List (ListenerScope R) :=
  t.listenerScopes.values.flatMap PortScopes.scopes ++ t.sharedScopes

/-- Every backend and mirror address of the table. -/
def dnsAddrs (t : RouteTable R) : List SocketAddr :=
  (t.httpScopes.flatMap ListenerScope.rules).flatMap HttpRouteRule.addrs ++
    ((t.tcpRoutes.values ++ t.udpRoutes.values ++
      t.tlsScopes.values.flatten.flatMap TlsScope.backends).flatten.map Backend.socketAddr)

/-- The sum of the addresses' hashes, in 64 bits. -/
def dnsSignature (addrHash : SocketAddr → UInt64) (t : RouteTable R) : UInt64 :=
  (t.dnsAddrs.map addrHash).foldl (· + ·) 0

end RouteTable

theorem dnsSignature_perm (addrHash : SocketAddr → UInt64) {t u : RouteTable R}
    (h : t.dnsAddrs.Perm u.dnsAddrs) : t.dnsSignature addrHash = u.dnsSignature addrHash := by
  have hcomm : RightCommutative fun a b : UInt64 => a + b :=
    ⟨fun a b c => by rw [UInt64.add_assoc, UInt64.add_comm b c, ← UInt64.add_assoc]⟩
  exact (h.map addrHash).foldl_eq 0

/-- The place of a rule or route in a table. -/
inductive RouteRef
  | http (home : UInt16) (listener : Option Bytes) (kind : HostKind) (pos : ℕ)
  | tcp (port : UInt16)
  | udp (port : UInt16)
  | tls (port : UInt16) (listener : Option Bytes) (kind : HostKind)

/-- The backends of a TLS scope under a kind of hostname. -/
def TlsScope.entry (s : TlsScope) : HostKind → Option (List Backend)
  | .exact host => s.exact.lookup host
  | .wildcard parent => s.wildcard.lookup parent
  | .catchAll => s.catchAll

namespace RouteTable

/-- What a port holds of its own, port 0 what ports share. -/
def scopesAt (t : RouteTable R) (home : UInt16) : List (ListenerScope R) :=
  if home = 0 then t.sharedScopes else t.ownScopes home

def ruleAt (t : RouteTable R) (home : UInt16) (listener : Option Bytes) (kind : HostKind)
    (pos : ℕ) : Option (HttpRouteRule R) :=
  ((t.scopesAt home).find? fun s => s.listenerHostname == listener).bind fun s =>
    (s.entry kind)[pos]?

def backendsAt (t : RouteTable R) : RouteRef → Option (List Backend)
  | .http home listener kind pos => (t.ruleAt home listener kind pos).map HttpRouteRule.backends
  | .tcp port => t.tcpRoutes.lookup port
  | .udp port => t.udpRoutes.lookup port
  | .tls port listener kind =>
    (((t.tlsScopes.lookup port).getD []).find? fun s => s.listenerHostname == listener).bind
      (·.entry kind)

/-- Every rule and route has the same set of backend addresses in both tables. -/
def KeepsAddrs (t u : RouteTable R) : Prop :=
  ∀ ref, (t.backendsAt ref).map (fun bs => (bs.map Backend.socketAddr).toFinset) =
    (u.backendsAt ref).map fun bs => (bs.map Backend.socketAddr).toFinset

end RouteTable
end Portail.Routing
