import Portail.Config.Compile
import Portail.Kubernetes.Objects
import Portail.Routing.Hosts

/-!
# From Gateway API objects to the config

The converters of `kubernetes/converters.rs`. What the config cannot represent is left
out of it and named, and the route is not served; every backendRef stays in the config,
for the check of its references.
-/

namespace Portail.Kubernetes

open Lib Http Routing Config

/-- `{service}.{namespace}.svc`. -/
def backendDnsName (name : Str) (ns : Option Str) (routeNs : Str) : Str :=
  name ++ Str.lit "." ++ ns.getD routeNs ++ Str.lit ".svc"

theorem dot_ascii : dot < 0x80 := by decide

/-- A Service and its namespace from a backend's name. -/
def parseBackendDnsName (dnsName : Str) : Option (Str × Str) :=
  (dnsName.stripSuffix dot dot_ascii (bytes "svc")).bind (Str.rsplitOnce dot dot_ascii)

/-- A namespace is a label, without dots. -/
theorem parse_backendDnsName (name : Str) {ns : Option Str} {routeNs : Str}
    (hns : dot ∉ (ns.getD routeNs).octets) :
    parseBackendDnsName (backendDnsName name ns routeNs) = some (name, ns.getD routeNs) := by
  have hstrip : (backendDnsName name ns routeNs).stripSuffix dot dot_ascii (bytes "svc") =
      some (name ++ Str.lit "." ++ ns.getD routeNs) :=
    Str.stripSuffix_eq dot_ascii rfl
  rw [parseBackendDnsName, hstrip]
  refine Str.rsplitOnce_eq dot_ascii ?_ hns
  simp only [Str.octets_append, List.append_assoc]
  rfl

/-- A TLS listener is served in passthrough mode only. -/
def listenerIsServed (l : GatewayListener) : Bool :=
  match l.protocol with
  | .http | .https | .tcp | .udp => true
  | .tls => l.tls.any fun tls => tls.mode == some .passthrough
  | .other _ => false

def ListenerProtocol.convert : ListenerProtocol → Option Protocol
  | .http => some .http
  | .https => some .https
  | .tls => some .tls
  | .tcp => some .tcp
  | .udp => some .udp
  | .other _ => none

/-- The PEM certificate and key of a Secret, by name and namespace. -/
abbrev CertData := Str × Str → Option (Bytes × Bytes)

/-- Only a core Secret is read. -/
def secretRefKey (r : CertificateReference) (gwNs : Str) : Option (Str × Str) :=
  if r.group.getD (Str.lit "") = Str.lit "" ∧ r.kind.getD (Str.lit "Secret") = Str.lit "Secret" then
    some (r.name, r.ns.getD gwNs)
  else none

/-- A reference whose certificate did not resolve is left out. -/
def convertCertificateRef (hostname : Option Str) (gwNs : Str) (certData : CertData)
    (r : CertificateReference) : Option CertificateRef :=
  (secretRefKey r gwNs).bind fun key => (certData key).map fun pem =>
    ⟨key.1, some key.2, hostname, some pem.1, some pem.2⟩

def convertTls (hostname : Option Str) (gwNs : Str) (certData : CertData) (t : ListenerTls) :
    TlsConfig where
  mode := if t.mode = some .passthrough then .passthrough else .terminate
  certificateRefs :=
    (t.certificateRefs.getD []).filterMap (convertCertificateRef hostname gwNs certData)

def convertListener (gwNs : Str) (certData : CertData) (l : GatewayListener) :
    Option ListenerConfig :=
  l.protocol.convert.bind fun protocol =>
    if listenerIsServed l then
      some
        { name := l.name
          protocol := protocol
          port := l.port.toUInt32.toUInt16
          targetPort := none
          hostname := l.hostname
          address := none
          interface := none
          tls := l.tls.map (convertTls l.hostname gwNs certData)
          rateLimit := none }
    else none

def networkAddressType : Str := Str.lit "portail.epheo.eu/Network"

/-- The addresses of a Gateway that the proxy binds; a network is named, to be resolved later. -/
def convertAddress (a : GatewayAddress) : Option Str :=
  let type := a.type.getD (Str.lit "IPAddress")
  if type = Str.lit "IPAddress" ∨ type = networkAddressType then a.value else none

/-- A listener that cannot be converted is left out. -/
def convertGateway (gw : Gateway) (certData : CertData) : GatewayConfig where
  name := gw.metadata.name.getD (Str.lit "portail-gateway")
  listeners := gw.listeners.filterMap
    (convertListener (gw.metadata.ns.getD (Str.lit "default")) certData)
  addresses := (gw.addresses.getD []).filterMap convertAddress

/-- What converts of a list, and the first failure with its place. -/
def convertEach {α β : Type} (place : String) (f : α → Except RouteError β) :
    ℕ → List α → List β × Option RouteError
  | _, [] => ([], none)
  | i, a :: rest =>
    let (bs, failure) := convertEach place f (i + 1) rest
    match f a with
    | .ok b => (b :: bs, failure)
    | .error e => (bs, some (e.at place i))

/-- The first failure of a list, with its place. -/
def firstFailure (place : String) : ℕ → List (Option RouteError) → Option RouteError
  | _, [] => none
  | i, failure :: rest => (failure.map (RouteError.at place i)).or (firstFailure place (i + 1) rest)

def convertHeaderMod (hm : HeaderModifierSpec) : HeaderModifierConfig where
  add := hm.add.getD []
  set := hm.set.getD []
  remove := hm.remove.getD []

def convertPathModifier (p : PathModifierSpec) : Option HttpURLRewritePath :=
  match p.type with
  | .replaceFullPath => p.replaceFullPath.map .replaceFullPath
  | .replacePrefixMatch => p.replacePrefixMatch.map .replacePrefixMatch

def RedirectScheme.text : RedirectScheme → Str
  | http => Str.lit "http"
  | https => Str.lit "https"

def convertRedirectConfig (rr : RedirectSpec) : RequestRedirectConfig where
  scheme := rr.scheme.map RedirectScheme.text
  hostname := rr.hostname
  port := rr.port.map fun p => p.toUInt32.toUInt16
  path := rr.path.bind convertPathModifier
  statusCode := (rr.statusCode.map fun c => c.toUInt64.toUInt16).getD 302

def convertUrlRewriteConfig (ur : UrlRewriteSpec) : URLRewriteConfig where
  hostname := ur.hostname
  path := ur.path.bind convertPathModifier

/-- A backendRef of the config, on a port and with a weight. -/
def BackendReference.convert (br : BackendReference) (ns : Str) (port : UInt16) (weight : UInt32)
    (filters : List HttpRouteFilter) : BackendRef where
  name := backendDnsName br.name br.ns ns
  port := port
  weight := weight
  group := br.group.getD (Str.lit "")
  kind := br.kind.getD (Str.lit "Service")
  filters := filters
  appProtocol := none
  invalid := false

/-- The port of a reference, with the default of its protocol. -/
def BackendReference.portOr (br : BackendReference) (default : UInt16) : UInt16 :=
  (br.port.map fun p => p.toUInt32.toUInt16).getD default

def convertFraction (f : FractionSpec) : MirrorFraction where
  numerator := (max f.numerator 0).toUInt32
  denominator := (f.denominator.map fun d => (max d 1).toUInt32).getD 100

def convertMirrorConfig (rm : MirrorSpec) (ns : Str) : HttpRouteFilter :=
  .requestMirror (rm.backendRef.convert ns (rm.backendRef.portOr 80) 1 [])
    (rm.percent.map fun p => (min (max p 0) 100).toUInt32) (rm.fraction.map convertFraction)

def FilterSpecType.name : FilterSpecType → Str
  | requestHeaderModifier => Str.lit "RequestHeaderModifier"
  | responseHeaderModifier => Str.lit "ResponseHeaderModifier"
  | requestRedirect => Str.lit "RequestRedirect"
  | urlRewrite => Str.lit "UrlRewrite"
  | requestMirror => Str.lit "RequestMirror"
  | other name => name

/-- The config that goes with a filter's type. -/
def filterConfig {α : Type} (what : String) (config : Option α) : Except RouteError α :=
  match config with
  | some config => .ok config
  | none => .error (.unsupported [.text what, .text " filter missing config"])

def convertHttpFilter (ns : Str) (f : FilterSpec) : Except RouteError HttpRouteFilter :=
  match f.type with
  | .requestHeaderModifier =>
    (filterConfig "RequestHeaderModifier" f.requestHeaderModifier).map fun hm =>
      .requestHeaderModifier (convertHeaderMod hm)
  | .responseHeaderModifier =>
    (filterConfig "ResponseHeaderModifier" f.responseHeaderModifier).map fun hm =>
      .responseHeaderModifier (convertHeaderMod hm)
  | .requestRedirect =>
    (filterConfig "RequestRedirect" f.requestRedirect).map fun rr =>
      .requestRedirect (convertRedirectConfig rr)
  | .urlRewrite =>
    (filterConfig "URLRewrite" f.urlRewrite).map fun ur => .urlRewrite (convertUrlRewriteConfig ur)
  | .requestMirror =>
    (filterConfig "RequestMirror" f.requestMirror).map fun rm => convertMirrorConfig rm ns
  | .other name => .error (.unsupported [.text "unsupported filter type ", .display name])

/-- A backendRef takes header modifiers only. -/
def convertBackendRefFilter (f : FilterSpec) : Except RouteError HttpRouteFilter :=
  match f.type with
  | .requestHeaderModifier =>
    (filterConfig "RequestHeaderModifier" f.requestHeaderModifier).map fun hm =>
      .requestHeaderModifier (convertHeaderMod hm)
  | .responseHeaderModifier =>
    (filterConfig "ResponseHeaderModifier" f.responseHeaderModifier).map fun hm =>
      .responseHeaderModifier (convertHeaderMod hm)
  | other => .error (.unsupported [.display other.name, .text " is not supported on a backendRef"])

def HttpMethod.text : HttpMethod → Str
  | get => Str.lit "GET"
  | head => Str.lit "HEAD"
  | post => Str.lit "POST"
  | put => Str.lit "PUT"
  | delete => Str.lit "DELETE"
  | connect => Str.lit "CONNECT"
  | options => Str.lit "OPTIONS"
  | trace => Str.lit "TRACE"
  | patch => Str.lit "PATCH"

def convertNamedMatch (m : NamedMatchSpec) : NamedMatch where
  name := m.name
  value := m.value
  matchType := m.type.getD .exact

def convertHttpMatch (m : HttpMatchSpec) : HttpRouteMatch where
  method := m.method.map HttpMethod.text
  path := m.path.map fun p => ⟨p.type.getD .pathPrefix, p.value.getD (Str.lit "/")⟩
  headers := (m.headers.getD []).map convertNamedMatch
  queryParams := (m.queryParams.getD []).map convertNamedMatch

/-- A backendRef of a rule, and the first of its filters that does not convert. -/
def convertHttpBackendRef (ns : Str) (br : HttpBackendReference) : BackendRef × Option RouteError :=
  let (filters, failure) := convertEach "filter " convertBackendRefFilter 0 (br.filters.getD [])
  (br.convert ns (br.portOr 80) ((br.weight.getD 1).toUInt32) filters, failure)

/-- A redirect answers the request itself: backendRefs beside it are left out. -/
def convertHttpRule (ns : Str) (rule : HttpRuleSpec) : HttpRouteRule × Option RouteError :=
  let (filters, failure) := convertEach "filter " (convertHttpFilter ns) 0 (rule.filters.getD [])
  let refs := if filters.any HttpRouteFilter.isRedirect then [] else rule.backendRefs.getD []
  let backends := refs.map (convertHttpBackendRef ns)
  (⟨(rule.routeMatches.getD []).map convertHttpMatch, filters, backends.map Prod.fst⟩,
    failure.or (firstFailure "backendRef " 0 (backends.map Prod.snd)))

/-- The outcome of a conversion that may have left something out. -/
def conversion : Option RouteError → Except RouteError Unit
  | none => .ok ()
  | some e => .error e

def convertHttpRoute (route : HTTPRoute) : HttpRouteConfig × Except RouteError Unit :=
  let rules := (route.rules.getD []).map (convertHttpRule (routeNamespace route.metadata))
  (⟨[], route.hostnames.getD [], rules.map Prod.fst⟩,
    conversion (firstFailure "rule " 0 (rules.map Prod.snd)))

def convertL4BackendRef (ns : Str) (defaultPort : UInt16) (br : WeightedReference) : BackendRef :=
  br.convert ns (br.portOr defaultPort) ((br.weight.getD 1).toUInt32) []

/-- A UDP backendRef without a port has port 0. -/
def convertL4Rules (metadata : ObjectMeta) (defaultPort : UInt16) (rules : List L4RuleSpec) :
    List L4RouteRule :=
  rules.map fun rule =>
    ⟨rule.backendRefs.map (convertL4BackendRef (routeNamespace metadata) defaultPort)⟩

def convertTcpRoute (route : TCPRoute) : TcpRouteConfig :=
  ⟨[], convertL4Rules route.metadata 80 route.rules⟩

def convertTlsRoute (route : TLSRoute) : TlsRouteConfig :=
  ⟨[], route.hostnames, convertL4Rules route.metadata 443 route.rules⟩

def convertUdpRoute (route : UDPRoute) : TcpRouteConfig :=
  ⟨[], convertL4Rules route.metadata 0 route.rules⟩

end Portail.Kubernetes
