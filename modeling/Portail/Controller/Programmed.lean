import Portail.Controller.Conditions
import Portail.Dataplane.SyncLoop
import Portail.Kubernetes.Converters
import Portail.Routing.Table
import Mathlib.Data.List.Destutter
import Mathlib.Data.List.Sort

/-!
# Programmed

A Gateway's status (`controller/programmed.rs`) from its translation, the reports of its
data planes, the Service in front of them and the time. Times are in milliseconds.
-/

namespace Portail.Controller

open Lib Config Routing Sync
open Kubernetes (GatewayAddress Service networkAddressType)

/-- Of an endpoint, whether it is bound and why not. -/
structure EndpointReport where
  bound : Bool
  error : Option Str

structure ListenerReport where
  name : Str
  endpoints : List EndpointReport

/-- The pod's addresses, and its address on each network. -/
structure Interfaces where
  interfaceIps : List Str
  networks : Map Str Str

abbrev Report := InstanceReport ListenerReport Interfaces

/-- Every endpoint of the listener is bound, and it has one. -/
def bound (report : Report) (listener : Str) : Bool :=
  (report.listeners.find? fun l => l.name = listener).any fun l =>
    !l.endpoints.isEmpty && l.endpoints.all EndpointReport.bound

def networkNames (addresses : List Str) : List Str :=
  addresses.filter fun a => !isIpAddr a.octets

def unresolvedNetworks (addresses : List Str) (resolved : Map Str Str) : List Str :=
  (networkNames addresses).filter fun name => (resolved.lookup name).isNone

/-- The addresses the listeners bind on a pod: all for `[]`, none for `none`. -/
def bindAddressesResolved (addresses : List Str) (resolved : Map Str Str) (known : List Str) :
    Option (List Str) :=
  let bindable := (addresses.map fun a => (resolved.lookup a).getD a).filter fun a =>
    known.contains a || resolved.values.contains a
  if bindable.isEmpty && !(unresolvedNetworks addresses resolved).isEmpty then none
  else some bindable

inductive AddressType
  | hostname
  | ipAddress
  deriving DecidableEq

/-- `"Hostname"` and `"IPAddress"`, which sort in this order. -/
def AddressType.text : AddressType → Str
  | hostname => .lit "Hostname"
  | ipAddress => .lit "IPAddress"

abbrev TypedAddress := AddressType × Str

def addressLe (a b : TypedAddress) : Bool :=
  match a.1, b.1 with
  | .hostname, .ipAddress => true
  | .ipAddress, .hostname => false
  | _, _ => !decide (b.2.octets < a.2.octets)

/-- `sort` and `dedup`. -/
def sorted (addresses : List TypedAddress) : List TypedAddress :=
  (addresses.insertionSort fun a b => addressLe a b = true).destutter (· ≠ ·)

structure ServiceView where
  name : Message
  loadBalancer : Bool
  addresses : List TypedAddress

def ServiceView.of (svc : Service) : ServiceView :=
  let loadBalancer := svc.spec.bind Kubernetes.ServiceSpec.type == some (.lit "LoadBalancer")
  let addresses : List TypedAddress :=
    if loadBalancer then
      svc.ingress.flatMap fun ingress =>
        (ingress.ip.map (AddressType.ipAddress, ·)).toList ++
          (ingress.hostname.map (AddressType.hostname, ·)).toList
    else
      (((svc.spec.bind Kubernetes.ServiceSpec.clusterIP).filter fun ip =>
        !ip.octets.isEmpty && ip != .lit "None").map (AddressType.ipAddress, ·)).toList
  ⟨[.display (svc.ns.getD (.lit "")), .text "/", .display (svc.name.getD (.lit ""))],
    loadBalancer, sorted addresses⟩

def addressTypeText (a : GatewayAddress) : Str := a.type.getD AddressType.ipAddress.text

def Gateway.specAddresses (gateway : Gateway) : List GatewayAddress := gateway.addresses.getD []

/-- `join(", ")`. -/
def joinComma (names : List Str) : Message :=
  (names.map Piece.display).intersperse (.text ", ")

/-- The IPAddress values of the spec that the Service does not hold. -/
def ServiceView.missing (s : ServiceView) (gateway : Gateway) : List Str :=
  ((gateway.specAddresses.filter fun a => addressTypeText a = AddressType.ipAddress.text).filterMap
    GatewayAddress.value).filter fun v => !s.addresses.contains (.ipAddress, v)

/-- Why the Gateway's addresses are not the Service's. -/
def ServiceView.unassigned (s : ServiceView) (gateway : Gateway) : Option Message :=
  if s.loadBalancer && s.addresses.isEmpty then
    some ([.text "LoadBalancer Service "] ++ s.name ++ [.text " has no ingress address yet"])
  else
    let missing := s.missing gateway
    if missing.isEmpty then none
    else some ([.text "IPAddress "] ++ joinComma missing ++ [.text " not assigned: Service "] ++
      s.name ++ [.text " does not hold it, and static addresses are not requested from it"])

/-- Per instance that binds, the addresses of the spec it holds, else its first one. -/
def instanceAddresses (gateway : Gateway) (atVersion : List Report)
    (binds : List (Option (List Str))) : List TypedAddress :=
  let perInstance (report : Report) (bind : Option (List Str)) : List Str :=
    if bind.isNone then []
    else
      let held := gateway.specAddresses.filterMap fun a =>
        a.value.bind fun value =>
          if addressTypeText a = AddressType.ipAddress.text then
            if report.interfaces.interfaceIps.contains value then some value else none
          else if addressTypeText a = networkAddressType then
            report.interfaces.networks.lookup value
          else none
      if held.isEmpty then report.interfaces.interfaceIps.head?.toList else held
  sorted (((List.zipWith perInstance atVersion binds).flatten).map (AddressType.ipAddress, ·))

/-- Whether the spec names an address an instance could hold. -/
def namesAddresses (gateway : Gateway) : Bool :=
  gateway.specAddresses.any fun a =>
    addressTypeText a = AddressType.ipAddress.text || addressTypeText a = networkAddressType

def hold : ℕ := 30000

def keep : ℕ := hold

def takeoverKeep : ℕ := 2 * hold

inductive Unpublished
  | rejected (error : Message)
  | invalidParameters (message : Message)

/-- What a snapshot was translated from and to. -/
structure Translation where
  generation : ℤ
  config : GatewayConfig

structure Inputs where
  gateway : Gateway
  accepted : GatewayCondition
  listeners : Map Str ListenerStatus
  attached : Map Str ℤ
  problem : Option Message
  unpublished : Option Unpublished
  served : Option (Snapshot Translation)
  reports : List (Str × Report)
  older : Option ℤ
  service : Option Service
  publishedAt : Option ℕ
  firstPublished : Option ℕ
  leadingSince : Option ℕ
  lastLeaving : Option ℕ
  now : ℕ

inductive Verdict
  | fresh (condition : GatewayCondition)
  | kept (lapse : ℕ) (otherwise : GatewayCondition)

/-- What is known of the addresses; `unknown` leaves those written. -/
inductive Addresses
  | known (addresses : List TypedAddress)
  | unknown

structure GatewayStatus where
  desired : DesiredStatus
  programmed : Bool
  recheck : Option ℕ
  routes : Bool

def pending (message : Message) : GatewayCondition := ⟨false, .lit "Pending", message⟩

def ListenerStatus.turnPending (message : Message) (ls : ListenerStatus) : ListenerStatus :=
  { ls with programmed := pending message }

/-- Every listener found programmable is turned Pending, and named. -/
def markPending (listeners : Map Str ListenerStatus) (message : Message) :
    Map Str ListenerStatus × List Str :=
  (listeners.mapValues fun ls => if ls.programmed.ok then ls.turnPending message else ls,
    (listeners.entries.filter fun entry => entry.2.programmed.ok).map Sigma.fst)

/-- `Option::max`, where nothing is least. -/
def laterOf : Option ℕ → Option ℕ → Option ℕ
  | some a, some b => some (max a b)
  | some a, none => some a
  | none, b => b

/-- Until when the written Programmed stands with no live instance at the served version. -/
def keepUntil (i : Inputs) : Option ℕ :=
  let liveOlder := !i.reports.isEmpty
  let edited := (laterOf (laterOf (i.publishedAt.filter fun _ => liveOlder) i.lastLeaving)
    i.firstPublished).map (· + keep)
  let takenOver := (i.leadingSince.filter fun _ => !liveOlder).map (· + takeoverKeep)
  laterOf edited takenOver

/-- The live instances that applied a version. -/
def Inputs.atVersion (i : Inputs) (version : Str) : List Report :=
  (i.reports.map Prod.snd).filter fun r => r.applied = version

/-- The listeners the translation could program. -/
def Inputs.counted (i : Inputs) (config : GatewayConfig) : List Str :=
  (config.listeners.map ListenerConfig.name).filter fun name =>
    (i.listeners.lookup name).any fun ls => ls.programmed.ok

def endpointError (atVersion : List Report) (name : Str) : Option Str :=
  ((atVersion.flatMap fun r => r.listeners.filter fun l => l.name = name).flatMap
    ListenerReport.endpoints).findSome? EndpointReport.error

/-- Why a listener is not bound. -/
def notBound (atVersion : List Report) (unusable : Bool) (name : Str) : Option Message :=
  match endpointError atVersion name with
  | some err => some [.text "Listener port not bound: ", .display err]
  | none =>
    if atVersion.any fun r => bound r name then none
    else if unusable then some [.text "Not bound: no address of this Gateway is on the pod"]
    else some [.text "Listener port not bound yet"]

def checkListener (atVersion : List Report) (unusable : Bool)
    (state : Bool × Map Str ListenerStatus) (name : Str) : Bool × Map Str ListenerStatus :=
  match notBound atVersion unusable name with
  | none => state
  | some message =>
    (false, match state.2.lookup name with
      | some ls => state.2.insert name (ls.turnPending message)
      | none => state.2)

/-- What the reports say: the verdict, the addresses, the listeners, and those turned Pending for
want of an instance at the served version. -/
structure Evaluation where
  verdict : Verdict
  addresses : Addresses
  listeners : Map Str ListenerStatus
  pending : List Str

def generationText (generation : ℤ) : Piece := .display (.lit (toString generation))

/-- No live instance is at the served version. -/
def evaluateNone (i : Inputs) (generation : ℤ) (fromService : Option Addresses) : Evaluation :=
  let message : Message :=
    [.text "No data plane applied generation ", generationText generation, .text " yet"] ++
      (i.older.map fun older =>
        [.text "; one serves generation ", generationText older]).getD []
  let marked := markPending i.listeners message
  match (keepUntil i).filter fun lapse => i.now < lapse with
  | some lapse =>
    ⟨.kept lapse (pending message), fromService.getD .unknown, marked.1, marked.2⟩
  | none =>
    -- with no pod and no address of its own to come back with, it has none
    let gone := i.reports.isEmpty && !namesAddresses i.gateway
    ⟨.fresh (pending message), fromService.getD (if gone then .known [] else .unknown),
      marked.1, marked.2⟩

/-- The instances at the served version, the first of them apart. -/
def evaluateSome (i : Inputs) (config : GatewayConfig) (first : Report) (rest : List Report)
    (fromService : Option Addresses) : Evaluation :=
  let atVersion := first :: rest
  let binds := atVersion.map fun r =>
    bindAddressesResolved config.addresses r.interfaces.networks r.interfaces.interfaceIps
  let unusable := binds.all Option.isNone
  let counted := i.counted config
  let (allBound, listeners) :=
    counted.foldl (checkListener atVersion unusable) (true, i.listeners)
  let condition : GatewayCondition :=
    match atVersion.findSome? InstanceReport.applyError with
    | some e => .invalid ([.text "Route table conversion failed: "] ++ e)
    | none =>
      if counted.isEmpty && !i.gateway.listeners.isEmpty then
        .invalid [.text "No listener could be programmed"]
      else if unusable then
        ⟨false, .lit "AddressNotUsable", [.text "Network address "] ++
          joinComma (unresolvedNetworks config.addresses first.interfaces.networks) ++
          [.text (" has no IP on this pod, or its NetworkAttachmentDefinition could not be read" ++
            ", so no listener of this Gateway is bound; check the NetworkAttachmentDefinition " ++
            "and the pod's network attachment")]⟩
      else if allBound then .programmed
      else .invalid [.text "Data plane not ready: not all listener ports are bound"]
  let addresses := fromService.getD <|
    let held := instanceAddresses i.gateway atVersion binds
    if held.isEmpty then .unknown else .known held
  ⟨.fresh condition, addresses, listeners, []⟩

def evaluate (i : Inputs) (service : Option ServiceView) : Evaluation :=
  let fromService := service.map fun s => Addresses.known s.addresses
  match i.served with
  | none =>
    let message : Message := [.text "No configuration published for this Gateway yet"]
    let marked := markPending i.listeners message
    ⟨.fresh (pending message), fromService.getD .unknown, marked.1, marked.2⟩
  | some served =>
    match i.atVersion served.version with
    | [] => evaluateNone i served.data.generation fromService
    | first :: rest => evaluateSome i served.data.config first rest fromService

/-- What the spec and the Service overrule. -/
def overrule (i : Inputs) (service : Option ServiceView) (verdict : Verdict) : Verdict :=
  match i.problem with
  | some problem => .fresh (.invalid problem)
  | none =>
    if !i.accepted.ok then
      .fresh (.invalid ([.text "Gateway not accepted: "] ++ i.accepted.message))
    else
      match service.bind fun s => s.unassigned i.gateway with
      | some message => .fresh ⟨false, .lit "AddressNotAssigned", message⟩
      | none => verdict

/-- An entry takes its written Programmed back, when it has one. -/
def keepEntry (written : List ObservedListener) (entry : ListenerEntry) : ListenerEntry :=
  match (written.find? fun w => w.name = entry.name).bind fun w =>
      observedCondition w.conditions "Programmed" with
  | none => entry
  | some kept =>
    match entry.conditions.findIdx? fun c => c.type = .lit "Programmed" with
    | none => entry
    | some k => { entry with conditions := entry.conditions.set k kept }

def keepListenerProgrammed (entries : List ListenerEntry) (observed : ObservedStatus)
    (pending : List Str) : List ListenerEntry :=
  entries.map fun entry =>
    if pending.contains entry.name then keepEntry observed.listeners entry else entry

/-- Nothing was published this pass. -/
def unpublished (i : Inputs) (why : Unpublished) : GatewayStatus :=
  let generation := i.gateway.metadata.generation
  let observed := i.gateway.status
  let (accepted, message) : GatewayCondition × Message :=
    match why with
    | .rejected e => (i.accepted, [.text "Reconciliation failed: "] ++ e)
    | .invalidParameters m =>
      (⟨false, .lit "InvalidParameters", m⟩, [.text "Nothing published for this generation: "] ++ m)
  { desired :=
      { accepted := condition "Accepted" accepted.ok accepted.reason accepted.message generation
        programmed := condition "Programmed" false (.lit "Invalid") message generation
        listeners :=
          (observedList observed.listeners ObservedListener.withoutTransitionTimes).getD []
        addresses := observedList observed.addresses id }
    programmed := false
    recheck := none
    routes := false }

/-- The Programmed condition of a verdict, and when to look again. -/
def programmedOf (i : Inputs) (verdict : Verdict) : Condition × Option ℕ :=
  let fresh (c : GatewayCondition) :=
    condition "Programmed" c.ok c.reason c.message i.gateway.metadata.generation
  match verdict with
  | .fresh c => (fresh c, none)
  | .kept lapse otherwise =>
    match observedCondition i.gateway.status.conditions "Programmed" with
    | some kept => (kept, some (lapse - i.now))
    | none => (fresh otherwise, none)

def decide (i : Inputs) : GatewayStatus :=
  match i.unpublished with
  | some why => unpublished i why
  | none =>
    let generation := i.gateway.metadata.generation
    let observed := i.gateway.status
    let service := i.service.map ServiceView.of
    let evaluation := evaluate i service
    let verdict := overrule i service evaluation.verdict
    let entries := i.gateway.listeners.map fun l =>
      listenerEntry l ((evaluation.listeners.lookup l.name).getD .default)
        ((i.attached.lookup l.name).getD 0) generation
    let entries :=
      match verdict with
      | .fresh _ => entries
      | .kept .. => keepListenerProgrammed entries observed evaluation.pending
    let (programmed, recheck) := programmedOf i verdict
    let written := observedList observed.addresses id
    let addresses :=
      match evaluation.addresses with
      -- an empty list only clears what was written
      | .known [] => written.map fun _ => []
      | .known known => some (known.map fun a => ⟨some a.1.text, a.2⟩)
      | .unknown => written
    { desired :=
        { accepted :=
            condition "Accepted" i.accepted.ok i.accepted.reason i.accepted.message generation
          programmed := programmed
          listeners := entries
          addresses := addresses }
      programmed := programmed.status == .lit "True"
      recheck := recheck
      routes := true }

end Portail.Controller
