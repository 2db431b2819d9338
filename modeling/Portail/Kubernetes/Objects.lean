import Portail.Config.Types

/-!
# Gateway API objects

The parts of the cluster's objects that the translation of a Gateway reads. Strings with
a fixed set of values are enumerations; a value outside it is `other`.
-/

namespace Portail.Kubernetes

open Lib Routing Config

structure ObjectMeta where
  name : Option Str
  ns : Option Str
  uid : Option Str
  generation : Option ℤ
  creationTimestamp : Option ℤ

/-- The namespace of an object, `default` where it is unset. -/
def routeNamespace (metadata : ObjectMeta) : Str := metadata.ns.getD (Str.lit "default")

inductive RouteKind
  | http
  | tcp
  | tls
  | udp
  deriving DecidableEq

def RouteKind.name : RouteKind → Str
  | http => Str.lit "HTTPRoute"
  | tcp => Str.lit "TCPRoute"
  | tls => Str.lit "TLSRoute"
  | udp => Str.lit "UDPRoute"

structure ParentReference where
  name : Str
  sectionName : Option Str
  group : Option Str
  kind : Option Str
  ns : Option Str
  port : Option Int32

inductive ListenerProtocol
  | http
  | https
  | tls
  | tcp
  | udp
  | other (name : Str)
  deriving DecidableEq

structure CertificateReference where
  name : Str
  group : Option Str
  kind : Option Str
  ns : Option Str

structure ListenerTls where
  mode : Option TlsMode
  certificateRefs : Option (List CertificateReference)

inductive NamespacesFrom
  | all
  | selector
  | same

inductive SelectorOperator
  | isIn
  | notIn
  | isSet
  | isNotSet
  | other (name : Str)

structure LabelRequirement where
  key : Str
  operator : SelectorOperator
  values : Option (List Str)

structure LabelSelector where
  matchLabels : Option (List (Str × Str))
  matchExpressions : Option (List LabelRequirement)

structure RouteNamespaces where
  whence : Option NamespacesFrom
  selector : Option LabelSelector

structure RouteGroupKind where
  group : Option Str
  kind : Str
  deriving DecidableEq

structure AllowedRoutes where
  kinds : Option (List RouteGroupKind)
  namespaces : Option RouteNamespaces

structure GatewayListener where
  name : Str
  port : Int32
  protocol : ListenerProtocol
  hostname : Option Str
  tls : Option ListenerTls
  allowedRoutes : Option AllowedRoutes

structure GatewayAddress where
  type : Option Str
  value : Option Str

structure Gateway where
  metadata : ObjectMeta
  listeners : List GatewayListener
  addresses : Option (List GatewayAddress)

/-- A reference to a backend; an unset namespace is the route's. -/
structure BackendReference where
  name : Str
  ns : Option Str
  group : Option Str
  kind : Option Str
  port : Option Int32

structure WeightedReference extends BackendReference where
  weight : Option Int32

inductive HttpMethod
  | get
  | head
  | post
  | put
  | delete
  | connect
  | options
  | trace
  | patch

structure PathMatchSpec where
  type : Option HttpPathMatchType
  value : Option Str

structure NamedMatchSpec where
  name : Str
  value : Str
  type : Option StringMatchType

structure HttpMatchSpec where
  method : Option HttpMethod
  path : Option PathMatchSpec
  headers : Option (List NamedMatchSpec)
  queryParams : Option (List NamedMatchSpec)

structure HeaderModifierSpec where
  add : Option (List HttpHeader)
  set : Option (List HttpHeader)
  remove : Option (List Str)

inductive PathModifierType
  | replaceFullPath
  | replacePrefixMatch

structure PathModifierSpec where
  type : PathModifierType
  replaceFullPath : Option Str
  replacePrefixMatch : Option Str

inductive RedirectScheme
  | http
  | https

structure RedirectSpec where
  scheme : Option RedirectScheme
  hostname : Option Str
  port : Option Int32
  path : Option PathModifierSpec
  statusCode : Option Int64

structure UrlRewriteSpec where
  hostname : Option Str
  path : Option PathModifierSpec

structure FractionSpec where
  numerator : Int32
  denominator : Option Int32

structure MirrorSpec where
  backendRef : BackendReference
  fraction : Option FractionSpec
  percent : Option Int32

inductive FilterSpecType
  | requestHeaderModifier
  | responseHeaderModifier
  | requestRedirect
  | urlRewrite
  | requestMirror
  | other (name : Str)

/-- A filter of a rule or a backendRef: a type, and the config that should go with it. -/
structure FilterSpec where
  type : FilterSpecType
  requestHeaderModifier : Option HeaderModifierSpec
  responseHeaderModifier : Option HeaderModifierSpec
  requestRedirect : Option RedirectSpec
  urlRewrite : Option UrlRewriteSpec
  requestMirror : Option MirrorSpec

structure HttpBackendReference extends WeightedReference where
  filters : Option (List FilterSpec)

structure HttpRuleSpec where
  routeMatches : Option (List HttpMatchSpec)
  filters : Option (List FilterSpec)
  backendRefs : Option (List HttpBackendReference)

structure HTTPRoute where
  metadata : ObjectMeta
  parentRefs : Option (List ParentReference)
  hostnames : Option (List Str)
  rules : Option (List HttpRuleSpec)

structure L4RuleSpec where
  backendRefs : List WeightedReference

structure TCPRoute where
  metadata : ObjectMeta
  parentRefs : Option (List ParentReference)
  rules : List L4RuleSpec

structure TLSRoute where
  metadata : ObjectMeta
  parentRefs : Option (List ParentReference)
  hostnames : List Str
  rules : List L4RuleSpec

structure UDPRoute where
  metadata : ObjectMeta
  parentRefs : Option (List ParentReference)
  rules : List L4RuleSpec

structure GrantFrom where
  group : Str
  kind : Str
  ns : Str

structure GrantTo where
  group : Str
  kind : Str
  name : Option Str

structure ReferenceGrant where
  ns : Option Str
  whence : List GrantFrom
  whither : List GrantTo

inductive IntOrString
  | int (port : Int32)
  | string (name : Str)

structure ServicePort where
  name : Option Str
  port : Int32
  targetPort : Option IntOrString
  appProtocol : Option Str

structure ServiceSpec where
  type : Option Str
  clusterIP : Option Str
  externalName : Option Str
  ports : Option (List ServicePort)

structure Ingress where
  ip : Option Str
  hostname : Option Str

/-- The ingresses are those of its load balancer, so far. -/
structure Service where
  name : Option Str
  ns : Option Str
  resourceVersion : Option Str
  spec : Option ServiceSpec
  ingress : List Ingress

structure PolicyTargetRef where
  group : Str
  kind : Str
  name : Str
  sectionName : Option Str

structure RateLimitPolicy where
  metadata : ObjectMeta
  targetRef : PolicyTargetRef
  requestsPerSecond : UInt32
  burst : Option UInt32

/-- The cluster as one pass sees it. The labels of a namespace are what a lookup answers. -/
structure ClusterSnapshot where
  httpRoutes : List HTTPRoute
  tcpRoutes : List TCPRoute
  tlsRoutes : List TLSRoute
  udpRoutes : List UDPRoute
  namespaceLabels : Str → Option (Str → Option Str)
  referenceGrants : List ReferenceGrant
  services : List Service
  rateLimitPolicies : List RateLimitPolicy

end Portail.Kubernetes
