import Portail.Kubernetes.Converters

/-!
# Which listener takes a route, and which reference is granted

The checks of `kubernetes/reference_grants.rs` and `parent_ref.rs`. A parentRef is judged
alone: it selects listeners of its Gateway, and each of them admits the route or not.
-/

namespace Portail.Kubernetes

open Lib Http Routing Config

def gatewayGroup : Str := Str.lit "gateway.networking.k8s.io"

/-- An unset namespace is the route's own. -/
def parentRefMatchesGateway (routeNs gatewayName gatewayNs : Str) (pr : ParentReference) : Bool :=
  pr.name == gatewayName && pr.group.all (· == gatewayGroup) &&
    pr.kind.all (· == Str.lit "Gateway") && pr.ns.getD routeNs == gatewayNs

def routeTargetsGateway (parentRefs : Option (List ParentReference))
    (routeNs gatewayName gatewayNs : Str) : Bool :=
  parentRefs.any fun refs => refs.any (parentRefMatchesGateway routeNs gatewayName gatewayNs)

/-- A listener without a hostname, or a route without hostnames, meets every other. -/
def hostnamesMeet (listenerHostname : Option Str) (routeHostnames : List Str) : Bool :=
  match listenerHostname with
  | none => true
  | some lh => routeHostnames.isEmpty ||
      routeHostnames.any fun rh => hostnamesIntersect lh.octets rh.octets

def protocolAllows : ListenerProtocol → RouteKind → Bool
  | .http, .http => true
  | .https, .http => true
  | .tls, .tls => true
  | .tcp, .tcp => true
  | .udp, .udp => true
  | _, _ => false

/-- An empty list of kinds restricts nothing; a kind of another group is another kind. -/
def kindAllowed (allowed : Option AllowedRoutes) (kind : RouteKind) : Bool :=
  match allowed.bind AllowedRoutes.kinds with
  | none => true
  | some kinds => kinds.isEmpty ||
      kinds.any fun k => k.kind == kind.name && k.group.getD gatewayGroup == gatewayGroup

def requirementMet (labels : Str → Option Str) (e : LabelRequirement) : Bool :=
  let has := labels e.key
  let values := e.values.getD []
  match e.operator with
  | .isIn => has.any values.contains
  | .notIn => !has.any values.contains
  | .isSet => has.isSome
  | .isNotSet => has.isNone
  | .other _ => false

def selectorMet (labels : Str → Option Str) (s : LabelSelector) : Bool :=
  (s.matchLabels.getD []).all (fun (k, v) => labels k == some v) &&
    (s.matchExpressions.getD []).all (requirementMet labels)

/-- A namespace that is not known matches no selector. -/
def namespaceAllowed (allowed : Option AllowedRoutes) (gatewayNs routeNs : Str)
    (namespaceLabels : Str → Option (Str → Option Str)) : Bool :=
  match allowed.bind AllowedRoutes.namespaces with
  | none => routeNs == gatewayNs
  | some namespaces =>
    match namespaces.whence with
    | none | some .same => routeNs == gatewayNs
    | some .all => true
    | some .selector => (namespaceLabels routeNs).any fun labels =>
        namespaces.selector.all (selectorMet labels)

/-- What a parentRef is judged by: the Gateway's namespace, and of the route its namespace, kind
and hostnames. -/
structure RouteFacts where
  gatewayNs : Str
  routeNs : Str
  kind : RouteKind
  hostnames : List Str
  namespaceLabels : Str → Option (Str → Option Str)

/-- The protocol decides which kinds a listener takes; one that is not served takes none. -/
def isRouteAllowedByListener (facts : RouteFacts) (l : GatewayListener) : Bool :=
  listenerIsServed l && protocolAllows l.protocol facts.kind &&
    kindAllowed l.allowedRoutes facts.kind &&
    namespaceAllowed l.allowedRoutes facts.gatewayNs facts.routeNs facts.namespaceLabels

/-- The listeners a parentRef names, by section and port. -/
def ParentReference.selects (pr : ParentReference) (l : GatewayListener) : Bool :=
  pr.sectionName.all (· == l.name) && pr.port.all (· == l.port)

/-- Why a parentRef is not accepted. -/
inductive Rejection
  | noMatchingParent
  | noMatchingListenerHostname
  | notAllowedByListeners
  | conflicted
  deriving DecidableEq

def Rejection.priority : Rejection → ℕ
  | notAllowedByListeners => 2
  | noMatchingListenerHostname => 1
  | _ => 0

/-- The more specific of two rejections, the first where neither is. -/
def Rejection.worse (best reason : Rejection) : Rejection :=
  if best.priority < reason.priority then reason else best

/-- The listeners that take the route so far, and the most specific rejection. -/
def judgeListener (facts : RouteFacts) (pr : ParentReference) (acc : List Str × Rejection)
    (l : GatewayListener) : List Str × Rejection :=
  if !pr.selects l then acc
  else if !hostnamesMeet l.hostname facts.hostnames then
    (acc.1, acc.2.worse .noMatchingListenerHostname)
  else if isRouteAllowedByListener facts l then (acc.1 ++ [l.name], acc.2)
  else (acc.1, acc.2.worse .notAllowedByListeners)

def listenersForParentRef (facts : RouteFacts) (listeners : List GatewayListener)
    (pr : ParentReference) : Except Rejection (List Str) :=
  let (allowed, best) := listeners.foldl (judgeListener facts pr) ([], .noMatchingParent)
  if allowed.isEmpty then .error best else .ok allowed

/-- From whom to what a reference goes. -/
structure Reference where
  fromGroup : Str
  fromKind : Str
  fromNs : Str
  toGroup : Str
  toKind : Str
  toNs : Str
  toName : Str

def ReferenceGrant.grants (grant : ReferenceGrant) (r : Reference) : Bool :=
  grant.ns.getD (Str.lit "default") == r.toNs &&
    (grant.whence.any fun f => f.group == r.fromGroup && f.kind == r.fromKind &&
      f.ns == r.fromNs) &&
    grant.whither.any fun t => t.group == r.toGroup && t.kind == r.toKind &&
      t.name.all (· == r.toName)

/-- A grant lives in the namespace that is referred to. -/
def isReferenceAllowed (grants : List ReferenceGrant) (r : Reference) : Bool :=
  r.fromNs == r.toNs || grants.any fun grant => grant.grants r

end Portail.Kubernetes
