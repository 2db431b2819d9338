import Portail.Kubernetes.ReferenceGrants
import Portail.Kubernetes.Services

/-!
# The translation of a Gateway

`kubernetes/reconciler/mod.rs`: from a Gateway and the cluster's objects to a config,
with a status for every parentRef. The four kinds of routes go through one pass,
`collectRoutes`; what they differ in is a record of functions. Verdicts of an earlier
pass are taken over while a route's generation stands.
-/

namespace Portail.Kubernetes

open Lib Http Routing Config

inductive ConflictReason
  | protocolConflict
  | hostnameConflict

/-- HTTPS and TLS passthrough share a socket. -/
def ListenerProtocol.family : ListenerProtocol → ListenerProtocol
  | .https => .tls
  | protocol => protocol

/-- Why two served listeners are not distinct. -/
def conflictReason (a b : GatewayListener) : Option ConflictReason :=
  if a.port == b.port && ((a.protocol == .udp) == (b.protocol == .udp)) then
    if a.protocol.family != b.protocol.family then some .protocolConflict
    else if a.protocol == .tcp || a.protocol == .udp || a.hostname == b.hostname then
      some .hostnameConflict
    else none
  else none

def pairs {α : Type} : List α → List (α × α)
  | [] => []
  | a :: rest => rest.map (fun b => (a, b)) ++ pairs rest

/-- A conflict of protocols takes the place of one of hostnames. -/
def noteConflict (reason : ConflictReason) (conflicts : Str → Option ConflictReason)
    (l : GatewayListener) : Str → Option ConflictReason :=
  Function.update conflicts l.name <| some <|
    match reason, conflicts l.name with
    | .hostnameConflict, some slot => slot
    | reason, _ => reason

/-- All listeners that are not distinct from another. -/
def listenerConflicts (listeners : List GatewayListener) : Str → Option ConflictReason :=
  (pairs (listeners.filter listenerIsServed)).foldl (fun conflicts (a, b) =>
    match conflictReason a b with
    | some reason => [a, b].foldl (noteConflict reason) conflicts
    | none => conflicts) fun _ => none

def RateLimitPolicy.targetsGateway (p : RateLimitPolicy) (gwNs gwName : Str) : Bool :=
  p.metadata.ns == some gwNs && p.targetRef.name == gwName &&
    p.targetRef.kind == Str.lit "Gateway" &&
    (p.targetRef.group.octets.isEmpty || p.targetRef.group == gatewayGroup)

def RateLimitPolicy.effectiveBurst (p : RateLimitPolicy) : UInt32 :=
  p.burst.getD p.requestsPerSecond

/-- Objects by creation time, those without one first, then by a text. -/
def createdBefore (s t : Option ℤ) (a b : Bytes) : Bool :=
  match s, t with
  | none, none => decide (a.map UInt8.toNat ≤ b.map UInt8.toNat)
  | none, some _ => true
  | some _, none => false
  | some s, some t => decide (s < t) || s == t && decide (a.map UInt8.toNat ≤ b.map UInt8.toNat)

def RateLimitPolicy.name (p : RateLimitPolicy) : Str := p.metadata.name.getD (Str.lit "")

def orderedPolicies (policies : List RateLimitPolicy) (gwNs gwName : Str) : List RateLimitPolicy :=
  (policies.filter (·.targetsGateway gwNs gwName)).insertionSort fun p q =>
    createdBefore p.metadata.creationTimestamp q.metadata.creationTimestamp p.name.octets
      q.name.octets = true

/-- The oldest policy of the listener's section, else the oldest of the whole Gateway. -/
def limitingPolicy (ordered : List RateLimitPolicy) (l : ListenerConfig) : Option RateLimitPolicy :=
  (ordered.find? fun p => p.targetRef.sectionName == some l.name).or
    (ordered.find? fun p => p.targetRef.sectionName == none)

def limitListener (ordered : List RateLimitPolicy) (l : ListenerConfig) : ListenerConfig :=
  match limitingPolicy ordered l with
  | some p => { l with rateLimit := some ⟨p.requestsPerSecond, some p.effectiveBurst⟩ }
  | none => l

inductive PolicyReason
  | targetNotFound
  | conflicted
  | accepted
  deriving DecidableEq

structure PolicyAcceptance where
  name : Str
  ns : Str
  accepted : Bool
  reason : PolicyReason
  message : Message
  generation : Option ℤ

def policyVerdict (listeners : List ListenerConfig) (applied : List Str) (p : RateLimitPolicy) :
    PolicyReason × Message :=
  match p.targetRef.sectionName.filter fun section_ =>
      !listeners.any fun l => l.name == section_ with
  | some section_ => (.targetNotFound,
      [.text "Gateway has no accepted listener named '", .display section_, .text "'"])
  | none =>
    if applied.contains p.name then (.accepted, [.text "Rate limit programmed"])
    else (.conflicted, [.text "An older policy already limits every listener this policy targets"])

/-- The listeners with their limits, and what is reported of each policy. -/
def applyRateLimitPolicies (listeners : List ListenerConfig) (policies : List RateLimitPolicy)
    (gwNs gwName : Str) : List ListenerConfig × List PolicyAcceptance :=
  let ordered := orderedPolicies policies gwNs gwName
  let applied := listeners.filterMap fun l => (limitingPolicy ordered l).map RateLimitPolicy.name
  (listeners.map (limitListener ordered), ordered.map fun p =>
    let (reason, message) := policyVerdict listeners applied p
    { name := p.name
      ns := p.metadata.ns.getD (Str.lit "")
      accepted := reason == .accepted
      reason := reason
      message := message
      generation := p.metadata.generation })

section

/-- What the kinds of routes differ in. The config of a route carries no parentRefs until it is
attached. -/
structure GatewayRoute (R C : Type) where
  kind : RouteKind
  /-- TCP and UDP routes have no match to choose between them by. -/
  oneRoutePerListener : Bool := false
  metadata : R → ObjectMeta
  parentRefs : R → Option (List ParentReference)
  hostnames : R → List Str := fun _ => []
  convert : R → C × Except RouteError Unit
  /-- The table build's own check of the config. -/
  check : C → Except RouteError Unit := fun _ => .ok ()
  attach : C → List ParentRef → C
  backendRefs : C → List BackendRef
  mapBackendRefs : (BackendRef → BackendRef) → C → C
  mirrorBackendRefs : C → List BackendRef := fun _ => []
  removeInvalidMirrors : (BackendKey → Bool) → C → C := fun _ config => config

def mapL4BackendRefs (f : BackendRef → BackendRef) (rules : List L4RouteRule) : List L4RouteRule :=
  rules.map fun rule => ⟨rule.backendRefs.map f⟩

def httpKind (E : Type) [RegexEngine E] : GatewayRoute HTTPRoute HttpRouteConfig where
  kind := .http
  metadata := HTTPRoute.metadata
  parentRefs := HTTPRoute.parentRefs
  hostnames route := route.hostnames.getD []
  convert := convertHttpRoute
  check config :=
    (compileHttpRoute config : Except RouteError (List (CompiledRule E))).map fun _ => ()
  attach config parentRefs := { config with parentRefs := parentRefs }
  backendRefs := HttpRouteConfig.backends
  mapBackendRefs f config :=
    { config with rules := config.rules.map fun rule =>
        { rule with backendRefs := rule.backendRefs.map f } }
  mirrorBackendRefs := HttpRouteConfig.mirrors
  removeInvalidMirrors invalid config :=
    { config with rules := config.rules.map fun rule =>
        { rule with filters := rule.filters.filter fun f =>
            !f.mirrored.any fun b => invalid (b.name, b.port) } }

def tcpKind : GatewayRoute TCPRoute TcpRouteConfig where
  kind := .tcp
  oneRoutePerListener := true
  metadata := TCPRoute.metadata
  parentRefs := TCPRoute.parentRefs
  convert route := (convertTcpRoute route, .ok ())
  attach config parentRefs := { config with parentRefs := parentRefs }
  backendRefs config := l4Backends config.rules
  mapBackendRefs f config := { config with rules := mapL4BackendRefs f config.rules }

def tlsKind : GatewayRoute TLSRoute TlsRouteConfig where
  kind := .tls
  metadata := TLSRoute.metadata
  parentRefs := TLSRoute.parentRefs
  hostnames := TLSRoute.hostnames
  convert route := (convertTlsRoute route, .ok ())
  attach config parentRefs := { config with parentRefs := parentRefs }
  backendRefs config := l4Backends config.rules
  mapBackendRefs f config := { config with rules := mapL4BackendRefs f config.rules }

def udpKind : GatewayRoute UDPRoute TcpRouteConfig where
  kind := .udp
  oneRoutePerListener := true
  metadata := UDPRoute.metadata
  parentRefs := UDPRoute.parentRefs
  convert route := (convertUdpRoute route, .ok ())
  attach config parentRefs := { config with parentRefs := parentRefs }
  backendRefs config := l4Backends config.rules
  mapBackendRefs f config := { config with rules := mapL4BackendRefs f config.rules }

variable {R C : Type} (K : GatewayRoute R C)

def GatewayRoute.ns (route : R) : Str := routeNamespace (K.metadata route)

def GatewayRoute.name (route : R) : Str := (K.metadata route).name.getD (Str.lit "unknown")

/-- `{namespace}/{name}`. -/
def GatewayRoute.identity (route : R) : Bytes :=
  (K.ns route).octets ++ slash :: (K.name route).octets

/-- The order of routes whose matches tie: the oldest first, then by the text of namespace and
name. -/
def precedes (a b : R) : Bool :=
  createdBefore (K.metadata a).creationTimestamp (K.metadata b).creationTimestamp (K.identity a)
    (K.identity b)

end

section

abbrev Verdict := Except RouteError Unit

/-- Verdicts by a route's uid, with the generation they were taken at. -/
abbrev Verdicts := Str → Option (ℤ × Verdict)

/-- The last pass's verdicts, and this one's. -/
structure Checks where
  last : Verdicts
  now : Verdicts

variable {R C : Type} (K : GatewayRoute R C)

/-- A verdict of the last pass stands while the generation does. -/
def Checks.verdict (checks : Checks) (route : R) (config : C) : Verdict × Checks :=
  match (K.metadata route).uid, (K.metadata route).generation with
  | some uid, some generation =>
    let verdict := match checks.last uid with
      | some (takenAt, verdict) => if takenAt = generation then verdict else K.check config
      | none => K.check config
    (verdict, ⟨Function.update checks.last uid none,
      Function.update checks.now uid (some (generation, verdict))⟩)
  | _, _ => (K.check config, checks)

end

section

/-- What the collections of one pass share. -/
structure RouteCollectCtx where
  gatewayName : Str
  gatewayNs : Str
  listeners : List GatewayListener
  namespaceLabels : Str → Option (Str → Option Str)
  referenceGrants : List ReferenceGrant
  knownServices : Str × Str → Bool

inductive AcceptedReason
  | accepted
  | rejected (rejection : Rejection)
  | failed (reason : RejectReason)
  deriving DecidableEq

inductive RefsReason
  | resolvedRefs
  | invalidKind
  | refNotPermitted
  | backendNotFound
  deriving DecidableEq

/-- The status of one parentRef of a route. -/
structure RouteAcceptance where
  name : Str
  ns : Str
  kind : RouteKind
  accepted : Bool
  acceptedReason : AcceptedReason
  message : Message
  refsResolved : Bool
  refsReason : RefsReason
  refsMessage : Message
  generation : Option ℤ
  sectionName : Option Str
  port : Option Int32
  /-- The listeners that admit the route, whether or not it is accepted on them. -/
  listenerNames : List Str

/-- How a parentRef fares: the listeners that admit the route, and those it is accepted on. -/
structure ParentVerdict where
  parentRef : ParentReference
  attached : List Str
  result : Except Rejection (List Str)

def ParentVerdict.accepted (v : ParentVerdict) : List Str :=
  match v.result with
  | .ok names => names
  | .error _ => []

def ParentVerdict.isError (v : ParentVerdict) : Bool :=
  match v.result with
  | .ok _ => false
  | .error _ => true

def RouteCollectCtx.portOf (cx : RouteCollectCtx) (listener : Str) : Option Int32 :=
  (cx.listeners.find? fun l => l.name == listener).map GatewayListener.port

variable {R C : Type} (K : GatewayRoute R C) (cx : RouteCollectCtx)

def RouteCollectCtx.facts (route : R) : RouteFacts where
  gatewayNs := cx.gatewayNs
  routeNs := K.ns route
  kind := K.kind
  hostnames := K.hostnames route
  namespaceLabels := cx.namespaceLabels

/-- The listeners whose port no older route holds. -/
def unclaimed (claimed : List Int32) (names : List Str) : List Str :=
  names.filter fun name => !(cx.portOf name).any claimed.contains

def judgeParent (claimed : List Int32) (route : R) (pr : ParentReference) : ParentVerdict :=
  let result := listenersForParentRef (cx.facts K route) cx.listeners pr
  let attached := match result with
    | .ok names => names
    | .error _ => []
  { parentRef := pr
    attached := attached
    result :=
      if K.oneRoutePerListener then result.bind fun names =>
        if (unclaimed cx claimed names).isEmpty then .error .conflicted
        else .ok (unclaimed cx claimed names)
      else result }

/-- The parentRefs of a route that name this Gateway. -/
def gatewayRefs (route : R) : List ParentReference :=
  ((K.parentRefs route).getD []).filter
    (parentRefMatchesGateway (K.ns route) cx.gatewayName cx.gatewayNs)

def judgeParents (claimed : List Int32) (route : R) : List ParentVerdict :=
  (gatewayRefs K cx route).map (judgeParent K cx claimed route)

def Rejection.message : Rejection → String
  | noMatchingListenerHostname => "Route hostnames do not intersect with any listener hostname"
  | noMatchingParent => "No matching listener found for route parentRef"
  | conflicted => "An older route already serves every listener this parentRef selects"
  | notAllowedByListeners => "Route not allowed by any listener policy (namespace/hostname/kind)"

def allResolved : Message := [.text "All references resolved"]

def rejection (route : R) (v : ParentVerdict) (reason : Rejection) : RouteAcceptance where
  name := K.name route
  ns := K.ns route
  kind := K.kind
  accepted := false
  acceptedReason := .rejected reason
  message := [.text reason.message]
  refsResolved := true
  refsReason := .resolvedRefs
  refsMessage := allResolved
  generation := (K.metadata route).generation
  sectionName := v.parentRef.sectionName
  port := v.parentRef.port
  listenerNames := v.attached

/-- A core Service; the group may be spelled out. -/
def isCoreService (b : BackendRef) : Bool :=
  (b.group == Str.lit "" || b.group == Str.lit "core") &&
    (b.kind == Str.lit "Service" || b.kind == Str.lit "")

def serviceReference (route : R) (svcName svcNs : Str) : Reference where
  fromGroup := gatewayGroup
  fromKind := K.kind.name
  fromNs := K.ns route
  toGroup := Str.lit ""
  toKind := Str.lit "Service"
  toNs := svcNs
  toName := svcName

/-- What is wrong with a reference to a backend. A name that does not parse is not looked at. -/
def checkRef (route : R) (b : BackendRef) : Option (RefsReason × Message) :=
  if !isCoreService b then
    some (.invalidKind, [.text "Unsupported backend ref group/kind: ", .display b.group, .text "/",
      .display b.kind])
  else (parseBackendDnsName b.name).bind fun (svcName, svcNs) =>
    if svcNs != K.ns route &&
        !isReferenceAllowed cx.referenceGrants (serviceReference K route svcName svcNs) then
      some (.refNotPermitted, [.text "Cross-namespace reference to ", .display svcName, .text ".",
        .display svcNs, .text " not allowed by ReferenceGrant"])
    else if !cx.knownServices (svcName, svcNs) then
      some (.backendNotFound, [.text "Backend service ", .display svcName, .text ".",
        .display svcNs, .text " not found"])
    else none

def markInvalid (route : R) (b : BackendRef) : BackendRef :=
  if (checkRef K cx route b).isSome then { b with invalid := true } else b

/-- The mirrors that may not be kept, by name and port. -/
def invalidMirrors (route : R) (config : C) : List BackendKey :=
  ((K.mirrorBackendRefs config).filter fun b => (checkRef K cx route b).isSome).map fun b =>
    (b.name, b.port)

/-- An invalid reference keeps its share, which fails; an invalid mirror is dropped. -/
def resolveRefs (route : R) (config : C) : C :=
  K.removeInvalidMirrors (invalidMirrors K cx route config).contains
    (K.mapBackendRefs (markInvalid K cx route) config)

def refFailures (route : R) (config : C) : List (RefsReason × Message) :=
  (K.backendRefs config ++ K.mirrorBackendRefs config).filterMap (checkRef K cx route)

def joinMessages (messages : List Message) : Message := messages.intersperse [.text "; "] |>.flatten

def refsReasonOf (failures : List (RefsReason × Message)) : RefsReason :=
  (failures.getLast?.map Prod.fst).getD .resolvedRefs

def verdictReason : Verdict → AcceptedReason × Message
  | .ok () => (.accepted, [.text "Accepted"])
  | .error e => (.failed e.reason, [.text "Conversion failed: "] ++ e.message)

/-- A parentRef that a listener admits is accepted with the route's verdict. -/
def parentStatus (route : R) (verdict : Verdict) (failures : List (RefsReason × Message))
    (v : ParentVerdict) : RouteAcceptance :=
  match v.result with
  | .error reason => rejection K route v reason
  | .ok _ =>
    { name := K.name route
      ns := K.ns route
      kind := K.kind
      accepted := match verdict with
        | .ok () => true
        | .error _ => false
      acceptedReason := (verdictReason verdict).1
      message := (verdictReason verdict).2
      refsResolved := failures.isEmpty
      refsReason := refsReasonOf failures
      refsMessage := if failures.isEmpty then allResolved else joinMessages (failures.map Prod.snd)
      generation := (K.metadata route).generation
      sectionName := v.parentRef.sectionName
      port := v.parentRef.port
      listenerNames := v.attached }

/-- What a pass over routes has come to. -/
structure Collected (C : Type) where
  claimed : List Int32
  checks : Checks
  status : List RouteAcceptance
  configs : List C

/-- The listeners a route is accepted on, each once. -/
def attachedListeners (parents : List ParentVerdict) : List Str :=
  (parents.flatMap ParentVerdict.accepted).eraseDups

/-- The route's check, unless something was left out of its config. -/
def routeVerdict (checks : Checks) (route : R) : Verdict × Checks :=
  match (K.convert route).2 with
  | .error e => (.error e, checks)
  | .ok () => checks.verdict K route (K.convert route).1

/-- The config of a route on its listeners. -/
def attachedConfig (route : R) (names : List Str) : C :=
  K.attach (resolveRefs K cx route (K.convert route).1)
    (names.map fun name => ⟨cx.gatewayName, some name, none⟩)

def collectRoute (st : Collected C) (route : R) : Collected C :=
  let parents := judgeParents K cx st.claimed route
  if parents.all ParentVerdict.isError then
    { st with status := st.status ++ parents.map (parentStatus K route (.ok ()) []) }
  else
    let (verdict, checks) := routeVerdict K st.checks route
    let failures := refFailures K cx route (K.convert route).1
    let status := st.status ++ parents.map (parentStatus K route verdict failures)
    match verdict with
    | .error _ => { st with checks := checks, status := status }
    | .ok () =>
      let names := attachedListeners parents
      { claimed :=
          if K.oneRoutePerListener then st.claimed ++ names.filterMap cx.portOf else st.claimed
        checks := checks
        status := status
        configs := st.configs ++ [attachedConfig K cx route names] }

/-- The routes of a Gateway in order of precedence. -/
def orderedRoutes (routes : List R) : List R :=
  (routes.filter fun route =>
    routeTargetsGateway (K.parentRefs route) (K.ns route) cx.gatewayName cx.gatewayNs).insertionSort
      fun a b => precedes K a b = true

def collectRoutes (routes : List R) (checks : Checks) (status : List RouteAcceptance) :
    Collected C :=
  (orderedRoutes K cx routes).foldl (collectRoute K cx) ⟨[], checks, status, []⟩

end

structure ReconcileResult where
  config : PortailConfig
  routeStatus : List RouteAcceptance
  policyStatus : List PolicyAcceptance
  verdicts : Verdicts

/-- The listeners that are distinct from all others. -/
def distinctListeners (gateway : Gateway) : List GatewayListener :=
  gateway.listeners.filter fun l => (listenerConflicts gateway.listeners l.name).isNone

def collectCtx (gateway : Gateway) (snapshot : ClusterSnapshot) (services : ServiceState) :
    RouteCollectCtx where
  gatewayName := gateway.metadata.name.getD (Str.lit "default")
  gatewayNs := gateway.metadata.ns.getD (Str.lit "default")
  listeners := distinctListeners gateway
  namespaceLabels := snapshot.namespaceLabels
  referenceGrants := snapshot.referenceGrants
  knownServices := services.knownServices

/-- `verdicts` are those of the Gateway's last pass. -/
def reconcileToConfig (E : Type) [RegexEngine E] (gateway : Gateway) (snapshot : ClusterSnapshot)
    (certData : CertData) (services : ServiceState) (verdicts : Verdicts) : ReconcileResult :=
  let cx := collectCtx gateway snapshot services
  let converted := convertGateway gateway certData
  let kept := converted.listeners.filter fun l =>
    (listenerConflicts gateway.listeners l.name).isNone
  let (listeners, policyStatus) :=
    applyRateLimitPolicies kept snapshot.rateLimitPolicies cx.gatewayNs cx.gatewayName
  let http := collectRoutes (httpKind E) cx snapshot.httpRoutes ⟨verdicts, fun _ => none⟩ []
  let tcp := collectRoutes tcpKind cx snapshot.tcpRoutes http.checks http.status
  let tls := collectRoutes tlsKind cx snapshot.tlsRoutes tcp.checks tcp.status
  let udp := collectRoutes udpKind cx snapshot.udpRoutes tls.checks tls.status
  { config :=
      { gateway := { converted with listeners := listeners }
        httpRoutes := http.configs
        tcpRoutes := tcp.configs
        tlsRoutes := tls.configs
        udpRoutes := udp.configs
        endpointOverrides := services.endpointOverrides
        appProtocolOverrides := services.appProtocolOverrides
        headlessTargetPorts := services.headlessTargetPorts }
    routeStatus := udp.status
    policyStatus := policyStatus
    verdicts := udp.checks.now }

end Portail.Kubernetes
