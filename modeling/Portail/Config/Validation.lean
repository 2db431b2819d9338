import Portail.Config.Build
import Portail.RateLimit

/-!
# The checks on a config file

`validate`, which a config file passes before anything is built from it: the Gateway and its
listeners, each route by itself, then what holds between listeners and between routes and
listeners. The warnings it logs are left out.
-/

namespace Portail.Config

open Lib Routing RateLimit

def Protocol.debug : Protocol → String
  | http => "HTTP"
  | https => "HTTPS"
  | tls => "TLS"
  | tcp => "TCP"
  | udp => "UDP"

def debugOption : Option Message → Message
  | none => [.text "None"]
  | some m => [.text "Some("] ++ m ++ [.text ")"]

def debugInt (n : ℤ) : Message := (if n < 0 then [.text "-"] else []) ++ [.num n.natAbs]

def validatePort (port : UInt16) (name : String) : Result Unit :=
  ensure (port ≠ 0) [.text name, .text " must be between 1 and 65535"]

def maxBurst : UInt32 := 4294967295 / millitokensPerRequest

def RateLimitSpec.validate (rl : RateLimitSpec) : Result Unit := do
  ensure (¬ (rl.requestsPerSecond = 0 ∨ rl.requestsPerSecond > 1000000))
    [.text "rateLimit requestsPerSecond must be 1..=1000000, got ", .num rl.requestsPerSecond.toNat]
  match rl.burst with
  | some burst =>
    ensure (¬ (burst = 0 ∨ burst > maxBurst))
      [.text "rateLimit burst must be 1..=", .num maxBurst.toNat, .text ", got ", .num burst.toNat]
  | none => .ok ()

def validateInterface (interface : Str) : Result Unit := do
  ensure (interface.octets ≠ []) [.text "Interface name cannot be empty when specified"]
  ensure (interface.octets.length ≤ 15) [.text "Interface name '", .display interface,
    .text "' is too long (max 15 characters)"]
  ensure (¬ interface.octets.any fun b => b == 0x20 || b == 0x2f || b == 0x3a)
    [.text "Interface name '", .display interface, .text "' contains invalid characters"]

def TlsConfig.validateTerminate : Option TlsConfig → Result Unit
  | none => .error [.text "HTTPS listener requires tls config"]
  | some tls => do
    ensure (tls.mode = .terminate) [.text "HTTPS listener requires tls mode Terminate"]
    ensure (¬ tls.certificateRefs.isEmpty)
      [.text "HTTPS listener requires at least one certificateRef"]
    checkEach (fun i cert => ensure (cert.name.octets ≠ [])
      [.text "certificateRef ", .num i, .text " name cannot be empty"]) 0 tls.certificateRefs

def TlsConfig.validatePassthrough : Option TlsConfig → Result Unit
  | none => .error [.text "TLS listener requires tls config"]
  | some tls =>
    ensure (tls.mode = .passthrough) [.text "TLS listener requires tls mode Passthrough"]

/-- The TLS config a listener of each protocol has. -/
def ListenerConfig.validateTls (l : ListenerConfig) : Result Unit :=
  match l.protocol with
  | .https => TlsConfig.validateTerminate l.tls
  | .tls => TlsConfig.validatePassthrough l.tls
  | .http | .tcp | .udp =>
    ensure l.tls.isNone [.text l.protocol.debug, .text " listener must not have tls config"]

def ListenerConfig.validate (l : ListenerConfig) : Result Unit := do
  ensure (l.name.octets ≠ []) [.text "Listener name cannot be empty"]
  validatePort l.port "Listener port"
  match l.interface with
  | some interface => validateInterface interface
  | none => .ok ()
  match l.address with
  | some addr =>
    ensure (isIpAddr addr.octets) [.text "Invalid bind address '", .display addr,
      .text "': must be a valid IPv4 or IPv6 address"]
  | none => .ok ()
  match l.rateLimit with
  | some rl => rl.validate
  | none => .ok ()
  l.validateTls

def GatewayConfig.validate (g : GatewayConfig) : Result Unit := do
  ensure (g.name.octets ≠ []) [.text "Gateway name cannot be empty"]
  ensure (¬ g.listeners.isEmpty) [.text "Gateway must have at least one listener"]
  checkEach (fun i l => l.validate.mapError ([.text "Listener ", .num i, .text ": "] ++ ·)) 0
    g.listeners

def ParentRef.validate (pr : ParentRef) : Result Unit :=
  ensure (pr.name.octets ≠ []) [.text "Parent ref name cannot be empty"]

/-- What the routes of every kind are checked for. -/
def validateRoute {ρ : Type} (parentRefs : List ParentRef) (rules : List ρ) (proto : String)
    (validateRule : ρ → Result Unit) : Result Unit := do
  ensure (¬ parentRefs.isEmpty) [.text proto, .text " route must have at least one parent_ref"]
  checkEach (fun _ pr => pr.validate) 0 parentRefs
  ensure (¬ rules.isEmpty) [.text proto, .text " route must have at least one rule"]
  checkEach (fun i rule => (validateRule rule).mapError ([.text "rule ", .num i, .text ": "] ++ ·))
    0 rules

/-- A wildcard is written `*.domain`. -/
def validateHostnameWildcard (hostname : Str) : Result Unit :=
  ensure (¬ (hostname.octets.head? = some 0x2a ∧ stripStar hostname.octets = none))
    [.text "Wildcard hostname must use '*.domain' format: ", .display hostname]

def validateBackendRefs (refs : List BackendRef) : Result Unit :=
  checkEach (fun i ref => ref.validate.mapError ([.text "backendRef ", .num i, .text ": "] ++ ·)) 0
    refs

/-- A filter that changes nothing, which a file almost surely got wrong. -/
def HttpRouteFilter.unset : HttpRouteFilter → Option String
  | requestRedirect config =>
    if config.scheme.isNone ∧ config.hostname.isNone ∧ config.port.isNone ∧ config.path.isNone then
      some "RequestRedirect must set at least one of: scheme, hostname, port, path"
    else none
  | urlRewrite config =>
    if config.hostname.isNone ∧ config.path.isNone then
      some "URLRewrite must set at least one of: hostname, path"
    else none
  | _ => none

def HttpRouteRule.validate (rule : HttpRouteRule) : Result Unit := do
  ensure (rule.redirects ∨ ¬ rule.backendRefs.isEmpty)
    [.text "HTTP route rule must have at least one backend_ref (or a RequestRedirect filter)"]
  validateBackendRefs (if rule.redirects then [] else rule.backendRefs)
  checkEach (fun i filter => match filter.unset with
    | some unset => .error [.text "filter ", .num i, .text ": ", .text unset]
    | none => .ok ()) 0 rule.filters

def L4RouteRule.validate (rule : L4RouteRule) : Result Unit := do
  ensure (¬ rule.backendRefs.isEmpty) [.text "route rule must have at least one backend_ref"]
  validateBackendRefs rule.backendRefs

def validateHttpHostname (hostname : Str) : Result Unit := do
  ensure (hostname.octets ≠ []) [.text "Hostname cannot be empty"]
  ensure (¬ hostname.octets.any (· == 0x3a))
    [.text "Hostname must not contain port: ", .display hostname]
  validateHostnameWildcard hostname

def validateTlsHostname (hostname : Str) : Result Unit := do
  ensure (hostname.octets ≠ []) [.text "TLS route hostname cannot be empty"]
  validateHostnameWildcard hostname

/-- The expressions of the matches are those of `R`. -/
def HttpRouteConfig.validate (R : Type) [RegexEngine R] (route : HttpRouteConfig) :
    Result Unit := do
  ensure (¬ route.hostnames.isEmpty) [.text "HTTP route must have at least one hostname"]
  checkEach (fun _ hostname => validateHttpHostname hostname) 0 route.hostnames
  validateRoute route.parentRefs route.rules "HTTP" HttpRouteRule.validate
  match (compileHttpRoute route : Except RouteError (List (CompiledRule R))) with
  | .error e => .error e.message
  | .ok _ => .ok ()

/-- Shared by TCP and UDP routes. -/
def TcpRouteConfig.validate (route : TcpRouteConfig) (proto : String) : Result Unit :=
  validateRoute route.parentRefs route.rules proto L4RouteRule.validate

def TlsRouteConfig.validate (route : TlsRouteConfig) : Result Unit := do
  ensure (¬ route.hostnames.isEmpty)
    [.text "TLS route must have at least one hostname for SNI matching"]
  checkEach (fun _ hostname => validateTlsHostname hostname) 0 route.hostnames
  validateRoute route.parentRefs route.rules "TLS" L4RouteRule.validate

/-- What the data plane binds: address, port and socket family. -/
def ListenerConfig.socket (l : ListenerConfig) : Option Str × UInt16 × Bool :=
  (l.address, l.targetPort.getD l.port, decide (l.protocol = .udp))

/-- No two listeners bind one socket, nor one of those in use. -/
def portConflictsFrom (used : List (Option Str × UInt16 × Bool)) :
    List ListenerConfig → Result Unit
  | [] => .ok ()
  | l :: rest => do
    ensure (¬ used.contains l.socket)
      [.text "Port conflict: ", .text (if l.protocol = .udp then "UDP" else "TCP"), .text " port ",
        .num (l.targetPort.getD l.port).toNat, .text " on ",
        .display (l.address.getD (.lit "0.0.0.0")),
        .text " is already bound by another listener"]
    portConflictsFrom (l.socket :: used) rest

inductive Family
  | http
  | tls
  | tcp
  deriving DecidableEq

/-- UDP rides its own sockets and has none. -/
def Protocol.family : Protocol → Option Family
  | http => some .http
  | https | tls => some .tls
  | tcp => some .tcp
  | udp => none

/-- The listeners on one port are of one family, that of the first seen there. -/
def portProtocolsFrom (firstOnPort : List ListenerConfig) :
    List ListenerConfig → Result Unit
  | [] => .ok ()
  | l :: rest =>
    match l.protocol.family with
    | none => portProtocolsFrom firstOnPort rest
    | some own =>
      match firstOnPort.find? fun f => f.port == l.port with
      | none => portProtocolsFrom (firstOnPort ++ [l]) rest
      | some first => do
        ensure (first.protocol.family = some own)
          [.text "Protocol conflict: ", .text first.protocol.debug, .text " listener '",
            .display first.name, .text "' and ", .text l.protocol.debug, .text " listener '",
            .display l.name, .text "' share port ", .num l.port.toNat,
            .text "; only HTTPS and TLS listeners share a port across protocols"]
        portProtocolsFrom firstOnPort rest

/-- Each of a route's parentRefs selects one of the listeners. -/
def checkParentRefs (listeners : List ListenerConfig) (proto : String) (idx : ℕ)
    (parentRefs : List ParentRef) : Result Unit :=
  checkEach (fun _ pr => ensure (listeners.any pr.selects)
    ([.text proto, .text " route ", .num idx, .text ": parentRef (sectionName: "] ++
      debugOption (pr.sectionName.map fun s => [.debug s]) ++ [.text ", port: "] ++
      debugOption (pr.port.map fun p => debugInt p.toInt) ++
      [.text ") does not match any Gateway listener"])) 0 parentRefs

def PortailConfig.validateParentRefsResolve (config : PortailConfig) : Result Unit := do
  let listeners := config.gateway.listeners
  checkEach (fun i r => checkParentRefs (listeners.filter takesHttpRoutes) "HTTP" i
    (HttpRouteConfig.parentRefs r)) 0 config.httpRoutes
  checkEach (fun i r => checkParentRefs listeners "TCP" i (TcpRouteConfig.parentRefs r)) 0
    config.tcpRoutes
  checkEach (fun i r => checkParentRefs listeners "TLS" i (TlsRouteConfig.parentRefs r)) 0
    config.tlsRoutes
  checkEach (fun i r => checkParentRefs listeners "UDP" i (TcpRouteConfig.parentRefs r)) 0
    config.udpRoutes

/-- The fields of the performance config that are checked; the timeout in nanoseconds. -/
structure PerformanceConfig where
  udpSessionTimeout : ℕ
  udpMaxSessions : Option UInt64

def PerformanceConfig.validate (p : PerformanceConfig) : Result Unit := do
  ensure (p.udpSessionTimeout ≠ 0) [.text "udpSessionTimeout must be greater than 0"]
  ensure (p.udpMaxSessions ≠ some 0) [.text "udpMaxSessions must be at least 1"]

/-- The error of a route, after its kind and index. -/
def atRoute (proto : String) (i : ℕ) (check : Result Unit) : Result Unit :=
  check.mapError ([.text proto, .text " route ", .num i, .text ": "] ++ ·)

def PortailConfig.validate (R : Type) [RegexEngine R] (config : PortailConfig)
    (performance : PerformanceConfig) : Result Unit := do
  config.gateway.validate
  checkEach (fun i route => atRoute "HTTP" i (route.validate R)) 0 config.httpRoutes
  checkEach (fun i route => atRoute "TCP" i (route.validate "TCP")) 0 config.tcpRoutes
  checkEach (fun i route => atRoute "TLS" i route.validate) 0 config.tlsRoutes
  checkEach (fun i route => atRoute "UDP" i (route.validate "UDP")) 0 config.udpRoutes
  portConflictsFrom [] config.gateway.listeners
  portProtocolsFrom [] config.gateway.listeners
  config.validateParentRefsResolve
  performance.validate

section

variable {R : Type} [RegexEngine R] {config : PortailConfig} {performance : PerformanceConfig}

/-- A config passes exactly when each of its parts does. -/
theorem validate_eq_ok : config.validate R performance = .ok () ↔
    config.gateway.validate = .ok () ∧ (∀ route ∈ config.httpRoutes, route.validate R = .ok ()) ∧
    (∀ route ∈ config.tcpRoutes, route.validate "TCP" = .ok ()) ∧
    (∀ route ∈ config.tlsRoutes, route.validate = .ok ()) ∧
    (∀ route ∈ config.udpRoutes, route.validate "UDP" = .ok ()) ∧
    portConflictsFrom [] config.gateway.listeners = .ok () ∧
    portProtocolsFrom [] config.gateway.listeners = .ok () ∧
    config.validateParentRefsResolve = .ok () ∧ performance.validate = .ok () := by
  simp only [PortailConfig.validate, seq_eq_ok, atRoute]
  rw [checkEach_eq_ok fun _ _ => mapError_eq_ok, checkEach_eq_ok fun _ _ => mapError_eq_ok,
    checkEach_eq_ok fun _ _ => mapError_eq_ok, checkEach_eq_ok fun _ _ => mapError_eq_ok]

theorem checkParentRefs_eq_ok {listeners : List ListenerConfig} {proto : String} {i : ℕ}
    {parentRefs : List ParentRef} : checkParentRefs listeners proto i parentRefs = .ok () ↔
      ∀ pr ∈ parentRefs, ∃ l ∈ listeners, pr.selects l = true := by
  rw [checkParentRefs, checkEach_eq_ok (p := fun pr : ParentRef => listeners.any pr.selects = true)
    fun _ _ => ensure_eq_ok]
  simp only [List.any_eq_true]

theorem validateParentRefsResolve_eq_ok : config.validateParentRefsResolve = .ok () ↔
    (∀ route ∈ config.httpRoutes, ∀ pr ∈ route.parentRefs,
      ∃ l ∈ config.gateway.listeners.filter takesHttpRoutes, pr.selects l = true) ∧
    (∀ route ∈ config.tcpRoutes, ∀ pr ∈ route.parentRefs,
      ∃ l ∈ config.gateway.listeners, pr.selects l = true) ∧
    (∀ route ∈ config.tlsRoutes, ∀ pr ∈ route.parentRefs,
      ∃ l ∈ config.gateway.listeners, pr.selects l = true) ∧
    ∀ route ∈ config.udpRoutes, ∀ pr ∈ route.parentRefs,
      ∃ l ∈ config.gateway.listeners, pr.selects l = true := by
  have heach {ρ : Type} (refs : ρ → List ParentRef) (listeners : List ListenerConfig)
      (proto : String) (routes : List ρ) :
      checkEach (fun i r => checkParentRefs listeners proto i (refs r)) 0 routes = .ok () ↔
        ∀ r ∈ routes, ∀ pr ∈ refs r, ∃ l ∈ listeners, pr.selects l = true :=
    checkEach_eq_ok fun _ _ => checkParentRefs_eq_ok
  simp only [PortailConfig.validateParentRefsResolve, seq_eq_ok]
  rw [heach HttpRouteConfig.parentRefs, heach TcpRouteConfig.parentRefs,
    heach TlsRouteConfig.parentRefs, heach TcpRouteConfig.parentRefs]

variable {hostname : Str}

theorem of_checkEach {α : Type} {check : α → Result Unit} {xs : List α} {i : ℕ}
    (h : checkEach (fun _ => check) i xs = .ok ()) : ∀ x ∈ xs, check x = .ok () :=
  (checkEach_eq_ok (p := fun x => check x = .ok ()) fun _ _ => Iff.rfl).mp h

theorem hostname_ne_of_validate {route : HttpRouteConfig} (h : route.validate R = .ok ())
    (hmem : hostname ∈ route.hostnames) : hostname.octets ≠ [] :=
  have hok := of_checkEach (seq_eq_ok.mp (seq_eq_ok.mp h).2).1 hostname hmem
  ensure_eq_ok.mp (seq_eq_ok.mp hok).1

theorem hostname_ne_of_validate_tls {route : TlsRouteConfig} (h : route.validate = .ok ())
    (hmem : hostname ∈ route.hostnames) : hostname.octets ≠ [] :=
  have hok := of_checkEach (seq_eq_ok.mp (seq_eq_ok.mp h).2).1 hostname hmem
  ensure_eq_ok.mp (seq_eq_ok.mp hok).1

end
end Portail.Config
