import Portail.Config.Wire
import Portail.Kubernetes.Objects

/-!
# Status conditions

The payloads of `kubernetes/status.rs`: conditions without times, as they are compared and
written, and those observed, with theirs. A list that is absent and an empty one read alike.
-/

namespace Portail.Controller

open Lib Config Routing
open Kubernetes (GatewayListener ListenerProtocol RouteGroupKind RouteKind)

/-- A condition without its `lastTransitionTime`. -/
structure Condition where
  type : Str
  status : Str
  reason : Str
  message : Message
  observedGeneration : Option ℤ
  deriving DecidableEq

structure ObservedCondition extends Condition where
  lastTransitionTime : Str

def condition (condType : String) (ok : Bool) (reason : Str) (message : Message)
    (generation : Option ℤ) : Condition :=
  ⟨.lit condType, if ok then .lit "True" else .lit "False", reason, message, generation⟩

structure GatewayCondition where
  ok : Bool
  reason : Str
  message : Message
  deriving DecidableEq

def GatewayCondition.invalid (message : Message) : GatewayCondition :=
  ⟨false, .lit "Invalid", message⟩

def GatewayCondition.programmed : GatewayCondition :=
  ⟨true, .lit "Programmed", [.text "Programmed"]⟩

/-- What the translation found of a listener. -/
structure ListenerStatus where
  accepted : GatewayCondition
  programmed : GatewayCondition
  resolvedRefs : GatewayCondition
  conflicted : GatewayCondition
  supportedKinds : List RouteGroupKind
  deriving DecidableEq

def ListenerStatus.default : ListenerStatus where
  accepted := ⟨false, .lit "Pending", [.text "Listener validation pending"]⟩
  programmed := ⟨false, .lit "Pending", [.text "Listener programming pending"]⟩
  resolvedRefs := ⟨false, .lit "Pending", [.text "Reference resolution pending"]⟩
  conflicted := ⟨false, .lit "NoConflicts", [.text "No conflicts detected"]⟩
  supportedKinds := []

/-- An entry of `status.listeners`, without times. -/
structure ListenerEntry where
  name : Str
  attachedRoutes : ℤ
  supportedKinds : List RouteGroupKind
  conditions : List Condition
  deriving DecidableEq

structure ObservedListener where
  name : Str
  attachedRoutes : ℤ
  supportedKinds : List RouteGroupKind
  conditions : List ObservedCondition

structure StatusAddress where
  type : Option Str
  value : Str
  deriving DecidableEq

structure ObservedStatus where
  conditions : List ObservedCondition
  listeners : List ObservedListener
  addresses : List StatusAddress

/-- The status to write: the conditions Accepted and Programmed, the listeners, and the addresses
where the field is not left out. -/
structure DesiredStatus where
  accepted : Condition
  programmed : Condition
  listeners : List ListenerEntry
  addresses : Option (List StatusAddress)
  deriving DecidableEq

/-- A Gateway and the status written of it. -/
structure Gateway extends Kubernetes.Gateway where
  status : ObservedStatus

def supportedKindsForProtocol (protocol : ListenerProtocol) : List RouteGroupKind :=
  let one (kind : RouteKind) : List RouteGroupKind :=
    [⟨some (.lit "gateway.networking.k8s.io"), kind.name⟩]
  match protocol with
  | .http | .https => one .http
  | .tls => one .tls
  | .tcp => one .tcp
  | .udp => one .udp
  | .other _ => []

def listenerEntry (listener : GatewayListener) (ls : ListenerStatus) (attachedRoutes : ℤ)
    (generation : Option ℤ) : ListenerEntry where
  name := listener.name
  attachedRoutes := attachedRoutes
  supportedKinds :=
    if ls.supportedKinds.isEmpty && ls.resolvedRefs.ok then
      supportedKindsForProtocol listener.protocol
    else ls.supportedKinds
  conditions :=
    [condition "Accepted" ls.accepted.ok ls.accepted.reason ls.accepted.message generation,
      condition "Programmed" ls.programmed.ok ls.programmed.reason ls.programmed.message generation,
      condition "ResolvedRefs" ls.resolvedRefs.ok ls.resolvedRefs.reason ls.resolvedRefs.message
        generation,
      condition "Conflicted" ls.conflicted.ok ls.conflicted.reason ls.conflicted.message generation]

/-- The condition of a type among those observed. Written again, it keeps its time. -/
def observedCondition (conditions : List ObservedCondition) (condType : String) :
    Option Condition :=
  (conditions.find? fun c => c.type = .lit condType).map ObservedCondition.toCondition

def ObservedListener.withoutTransitionTimes (l : ObservedListener) : ListenerEntry :=
  ⟨l.name, l.attachedRoutes, l.supportedKinds, l.conditions.map ObservedCondition.toCondition⟩

/-- An observed list, `none` when it is absent or empty. -/
def observedList {α β : Type} (items : List α) (withoutTransitionTimes : α → β) :
    Option (List β) :=
  if items.isEmpty then none else some (items.map withoutTransitionTimes)

end Portail.Controller
