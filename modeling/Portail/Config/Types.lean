import Portail.Routing.Types

/-!
# The configuration

The parts of a `PortailConfig` that the route check and the table build read.
-/

namespace Portail.Config

open Lib Routing

structure HeaderModifierConfig where
  add : List HttpHeader
  set : List HttpHeader
  remove : List Str
  deriving DecidableEq

inductive HttpURLRewritePath
  | replaceFullPath (value : Str)
  | replacePrefixMatch (value : Str)
  deriving DecidableEq

structure RequestRedirectConfig where
  scheme : Option Str
  hostname : Option Str
  port : Option UInt16
  path : Option HttpURLRewritePath
  statusCode : UInt16
  deriving DecidableEq

structure URLRewriteConfig where
  hostname : Option Str
  path : Option HttpURLRewritePath
  deriving DecidableEq

structure MirrorFraction where
  numerator : UInt32
  denominator : UInt32
  deriving DecidableEq

mutual

/-- A filter of a rule or of a backendRef. A mirror holds a backendRef of its own, which may
again carry filters. -/
inductive HttpRouteFilter
  | requestHeaderModifier (config : HeaderModifierConfig)
  | responseHeaderModifier (config : HeaderModifierConfig)
  | requestRedirect (config : RequestRedirectConfig)
  | urlRewrite (config : URLRewriteConfig)
  | requestMirror (backendRef : BackendRef) (percent : Option UInt32)
      (fraction : Option MirrorFraction)

structure BackendRef where
  name : Str
  port : UInt16
  weight : UInt32
  group : Str
  kind : Str
  filters : List HttpRouteFilter
  appProtocol : Option Str
  invalid : Bool

end

inductive HttpPathMatchType
  | pathPrefix
  | exact
  | regularExpression
  deriving DecidableEq

inductive StringMatchType
  | exact
  | regularExpression
  deriving DecidableEq

structure HttpPathMatch where
  matchType : HttpPathMatchType
  value : Str

structure NamedMatch where
  name : Str
  value : Str
  matchType : StringMatchType

structure HttpRouteMatch where
  method : Option Str
  path : Option HttpPathMatch
  headers : List NamedMatch
  queryParams : List NamedMatch

def HttpRouteMatch.pathPrefix (path : Str) : HttpRouteMatch :=
  ⟨none, some ⟨.pathPrefix, path⟩, [], []⟩

structure HttpRouteRule where
  routeMatches : List HttpRouteMatch
  filters : List HttpRouteFilter
  backendRefs : List BackendRef

def HttpRouteFilter.mirrored : HttpRouteFilter → Option BackendRef
  | requestMirror backendRef .. => some backendRef
  | _ => none

def HttpRouteFilter.isRedirect : HttpRouteFilter → Bool
  | requestRedirect _ => true
  | _ => false

/-- A redirect answers the request itself: the rule never forwards. -/
def HttpRouteRule.redirects (rule : HttpRouteRule) : Bool :=
  rule.filters.any HttpRouteFilter.isRedirect

structure ParentRef where
  name : Str
  sectionName : Option Str
  port : Option Int32
  deriving DecidableEq

structure HttpRouteConfig where
  parentRefs : List ParentRef
  hostnames : List Str
  rules : List HttpRouteRule

structure L4RouteRule where
  backendRefs : List BackendRef

structure TcpRouteConfig where
  parentRefs : List ParentRef
  rules : List L4RouteRule

structure TlsRouteConfig where
  parentRefs : List ParentRef
  hostnames : List Str
  rules : List L4RouteRule

inductive Protocol
  | http
  | https
  | tls
  | tcp
  | udp
  deriving DecidableEq

inductive TlsMode
  | terminate
  | passthrough
  deriving DecidableEq

structure CertificateRef where
  name : Str
  ns : Option Str
  hostname : Option Str
  certPem : Option Bytes
  keyPem : Option Bytes
  deriving DecidableEq

structure TlsConfig where
  mode : TlsMode
  certificateRefs : List CertificateRef
  deriving DecidableEq

/-- Token-bucket parameters, per client. -/
structure RateLimitSpec where
  requestsPerSecond : UInt32
  burst : Option UInt32
  deriving DecidableEq

def RateLimitSpec.effectiveBurst (rl : RateLimitSpec) : UInt32 := rl.burst.getD rl.requestsPerSecond

structure ListenerConfig where
  name : Str
  protocol : Protocol
  port : UInt16
  targetPort : Option UInt16
  hostname : Option Str
  address : Option Str
  interface : Option Str
  tls : Option TlsConfig
  rateLimit : Option RateLimitSpec
  deriving DecidableEq

def ListenerConfig.isTlsPassthrough (l : ListenerConfig) : Bool :=
  l.protocol == .tls && l.tls.any fun tls => tls.mode == .passthrough

structure GatewayConfig where
  name : Str
  listeners : List ListenerConfig
  addresses : List Str

/-- The hash maps are what a lookup in them answers. -/
structure PortailConfig where
  gateway : GatewayConfig
  httpRoutes : List HttpRouteConfig
  tcpRoutes : List TcpRouteConfig
  tlsRoutes : List TlsRouteConfig
  udpRoutes : List TcpRouteConfig
  endpointOverrides : Str × UInt16 → Option (List (Str × UInt16))
  appProtocolOverrides : Str × UInt16 → Option Str
  headlessTargetPorts : Str × UInt16 → Option UInt16

/-- An unset sectionName or port selects any listener. -/
def ParentRef.selects (pr : ParentRef) (l : ListenerConfig) : Bool :=
  pr.sectionName.all (fun s => l.name == s) && pr.port.all fun p => l.port == p.toUInt32.toUInt16

end Portail.Config
