import Portail.Kubernetes.Converters

/-!
# What Services say of their backends

`kubernetes/services.rs`: which Services are known, and by backend name and port the
endpoints of an ExternalName Service, the application protocol and the target port of a
headless one. Only what the config refers to is published. The cache of named ports and
the reads behind it are left out: a read answers a port, or none.
-/

namespace Portail.Kubernetes

open Lib Http Routing Config List

abbrev BackendKey := Str × UInt16

structure ServiceState where
  knownServices : Str × Str → Bool
  endpointOverrides : BackendKey → Option (List (Str × UInt16))
  appProtocolOverrides : BackendKey → Option Str
  headlessTargetPorts : BackendKey → Option UInt16

/-- A headless Service's target port that is a name. -/
structure NamedTargetPortReq where
  ns : Str
  svc : Str
  serviceVersion : Option Str
  servicePort : UInt16
  servicePortName : Str
  targetPortName : Str

def NamedTargetPortReq.backend (req : NamedTargetPortReq) : BackendKey :=
  (backendDnsName req.svc none req.ns, req.servicePort)

def Service.namespace (svc : Service) : Str := svc.ns.getD (Str.lit "default")

def Service.dnsName (svc : Service) (name : Str) : Str := backendDnsName name none svc.namespace

def ServicePort.number (sp : ServicePort) : UInt16 := sp.port.toUInt32.toUInt16

/-- The ports of a Service, each with the Service's name. -/
def Service.namedPorts (svc : Service) : List (Str × ServicePort) :=
  match svc.spec, svc.name with
  | some spec, some name => (spec.ports.getD []).map fun sp => (name, sp)
  | _, _ => []

def Service.isHeadless (svc : Service) : Bool :=
  svc.spec.any fun spec => spec.clusterIP == some (Str.lit "None")

/-- The name an ExternalName Service stands for. -/
def Service.external (svc : Service) : Option Str :=
  svc.spec.bind fun spec =>
    if spec.type.getD (Str.lit "") = Str.lit "ExternalName" then
      spec.externalName.filter fun n => !n.octets.isEmpty
    else none

/-- A named target port is the Service's port until it is read. -/
def targetPortOf (sp : ServicePort) : UInt16 :=
  match sp.targetPort with
  | some (.int p) => p.toUInt32.toUInt16
  | _ => sp.number

def isKnownService (services : List Service) (key : Str × Str) : Bool :=
  services.any fun svc => svc.name.any fun name => (name, svc.namespace) == key

/-- Entries put into a map in order. -/
def insertAll {κ α : Type} [DecidableEq κ] (m : κ → Option α) (entries : List (κ × α)) :
    κ → Option α :=
  entries.foldl (fun m e => Function.update m e.1 (some e.2)) m

def headlessEntries (svc : Service) : List (BackendKey × UInt16) :=
  if svc.isHeadless then
    svc.namedPorts.map fun (name, sp) => ((svc.dnsName name, sp.number), targetPortOf sp)
  else []

def namedTargetPorts (svc : Service) : List NamedTargetPortReq :=
  if svc.isHeadless then
    svc.namedPorts.filterMap fun (name, sp) =>
      match sp.targetPort with
      | some (.string target) => some ⟨svc.namespace, name, svc.resourceVersion, sp.number,
          sp.name.getD (Str.lit ""), target⟩
      | _ => none
  else []

def externalEntries (svc : Service) : List (BackendKey × Str × UInt16) :=
  match svc.external with
  | some external => svc.namedPorts.map fun (name, sp) =>
      ((svc.dnsName name, sp.number), external, sp.number)
  | none => []

def appProtocolEntries (svc : Service) : List (BackendKey × Str) :=
  svc.namedPorts.filterMap fun (name, sp) =>
    sp.appProtocol.map fun protocol => ((svc.dnsName name, sp.number), protocol)

def resolveServices (services : List Service) : ServiceState × List NamedTargetPortReq :=
  ({ knownServices := isKnownService services
     endpointOverrides := (services.flatMap externalEntries).foldl
       (fun m e => Function.update m e.1 (some ((m e.1).getD [] ++ [e.2]))) fun _ => none
     appProtocolOverrides := insertAll (fun _ => none) (services.flatMap appProtocolEntries)
     headlessTargetPorts := insertAll (fun _ => none) (services.flatMap headlessEntries) },
    services.flatMap namedTargetPorts)

def HttpRouteConfig.mirrors (route : HttpRouteConfig) : List BackendRef :=
  route.rules.flatMap fun rule => rule.filters.filterMap HttpRouteFilter.mirrored

def HttpRouteConfig.backends (route : HttpRouteConfig) : List BackendRef :=
  route.rules.flatMap HttpRouteRule.backendRefs

def l4Backends (rules : List L4RouteRule) : List BackendRef := rules.flatMap L4RouteRule.backendRefs

/-- The backends that a config routes or mirrors to. -/
def PortailConfig.backends (config : PortailConfig) : List BackendRef :=
  config.httpRoutes.flatMap HttpRouteConfig.backends ++
    config.httpRoutes.flatMap HttpRouteConfig.mirrors ++
    config.tcpRoutes.flatMap (fun route => l4Backends route.rules) ++
    config.udpRoutes.flatMap (fun route => l4Backends route.rules) ++
    config.tlsRoutes.flatMap fun route => l4Backends route.rules

/-- An invalid reference is never resolved. -/
def referencedBackends (config : PortailConfig) : List BackendKey :=
  ((PortailConfig.backends config).filter fun b => !b.invalid).map fun b => (b.name, b.port)

/-- The entries of a map under the keys that are referred to. -/
def retain {α : Type} (m : BackendKey → Option α) (referenced : List BackendKey) :
    BackendKey → Option α :=
  fun key => if referenced.contains key then m key else none

def retainReferenced (config : PortailConfig) (referenced : List BackendKey) : PortailConfig :=
  { config with
    endpointOverrides := retain config.endpointOverrides referenced
    appProtocolOverrides := retain config.appProtocolOverrides referenced
    headlessTargetPorts := retain config.headlessTargetPorts referenced }

/-- The target ports that were read take the place of the Service's ports. -/
def resolveNamedTargetPorts (answer : NamedTargetPortReq → Option UInt16)
    (reqs : List NamedTargetPortReq) (out : BackendKey → Option UInt16) :
    BackendKey → Option UInt16 :=
  insertAll out (reqs.filterMap fun req => (answer req).map fun port => (req.backend, port))

/-- The config that is published for a Gateway. -/
def publishConfig (config : PortailConfig) (namedReqs : List NamedTargetPortReq)
    (answer : NamedTargetPortReq → Option UInt16) : PortailConfig :=
  let referenced := referencedBackends config
  let config := retainReferenced config referenced
  let namedReqs := namedReqs.filter fun req => referenced.contains req.backend
  { config with
    headlessTargetPorts := resolveNamedTargetPorts answer namedReqs config.headlessTargetPorts }

theorem insertAll_some {κ α : Type} [DecidableEq κ] {m : κ → Option α} {entries : List (κ × α)}
    {key : κ} {a : α} (h : insertAll m entries key = some a) :
    m key = some a ∨ (key, a) ∈ entries := by
  induction entries generalizing m with
  | nil => exact .inl h
  | cons e entries ih =>
    rcases ih h with hm | hmem
    · simp only [Function.update_apply] at hm
      split_ifs at hm with hkey
      · refine .inr (mem_cons.mpr (.inl ?_))
        exact Prod.ext hkey (Option.some.inj hm).symm
      · exact .inl hm
    · exact .inr (mem_cons_of_mem e hmem)

theorem retain_some {α : Type} {m : BackendKey → Option α} {referenced : List BackendKey}
    {key : BackendKey} {a : α} (h : retain m referenced key = some a) : key ∈ referenced := by
  unfold retain at h
  split_ifs at h with hkey
  exact contains_iff_mem.mp hkey

/-- What is published of Services is under backends that the config refers to. -/
theorem publishConfig_referenced (config : PortailConfig) (namedReqs : List NamedTargetPortReq)
    (answer : NamedTargetPortReq → Option UInt16) (key : BackendKey) :
    ((publishConfig config namedReqs answer).endpointOverrides key ≠ none ∨
      (publishConfig config namedReqs answer).appProtocolOverrides key ≠ none ∨
      (publishConfig config namedReqs answer).headlessTargetPorts key ≠ none) →
    key ∈ referencedBackends (publishConfig config namedReqs answer) := by
  intro h
  simp only [Option.ne_none_iff_exists'] at h
  have hkey : key ∈ referencedBackends config := by
    rcases h with ⟨found, hfound⟩ | ⟨found, hfound⟩ | ⟨found, hfound⟩
    · exact retain_some hfound
    · exact retain_some hfound
    · rcases insertAll_some hfound with hkept | hread
      · exact retain_some hkept
      · obtain ⟨req, hreq, hanswer⟩ := mem_filterMap.mp hread
        obtain ⟨port, -, heq⟩ := Option.map_eq_some_iff.mp hanswer
        obtain ⟨rfl, -⟩ := Prod.mk.inj heq
        exact contains_iff_mem.mp (mem_filter.mp hreq).2
  exact hkey

end Portail.Kubernetes
