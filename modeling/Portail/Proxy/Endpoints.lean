import Portail.Proxy.PlanPorts

/-!
# Endpoints

The sockets of a data plane (`proxy/data_plane.rs`): a pass closes the accept loops its
listener list does not want, waits for them, publishes the ports' plans, closes what they
cannot serve and binds what is missing. A loop is its endpoint, the published port it
serves and whether it still runs; the socket calls are a parameter.
-/

namespace Portail.Routing

section

variable {K V : Type} [DecidableEq K] {p : K → V → Bool}

/-- The entries of a hash map that satisfy a predicate. -/
def Map.retain (p : K → V → Bool) (m : Map K V) : Map K V where
  entries := m.entries.filter fun e => p e.1 e.2
  nodupKeys := m.nodupKeys.sublist List.filter_sublist

theorem dlookup_filter (p : K → V → Bool) (k : K) {l : List (Sigma fun _ : K => V)}
    (h : l.NodupKeys) :
    (l.filter fun e => p e.1 e.2).dlookup k = (l.dlookup k).filter (p k) := by
  induction l with
  | nil => rfl
  | cons e l ih =>
    obtain ⟨key, v⟩ := e
    obtain ⟨hkey, hl⟩ := List.nodupKeys_cons.mp h
    by_cases hk : k = key
    · subst hk
      have hrest : l.dlookup k = none := List.dlookup_eq_none.mpr hkey
      cases hp : p k v <;> simp [hp, ih hl, hrest, Option.filter]
    · have hcons (rest : List (Sigma fun _ : K => V)) :
          (⟨key, v⟩ :: rest).dlookup k = rest.dlookup k := List.dlookup_cons_ne rest ⟨key, v⟩ hk
      cases hp : p key v <;> simp [hp, ih hl, hcons]

theorem lookup_retain (p : K → V → Bool) (m : Map K V) (k : K) :
    (m.retain p).lookup k = (m.lookup k).filter (p k) :=
  dlookup_filter p k m.nodupKeys

theorem retain_eq_self {m : Map K V}
    (h : ∀ k v, m.lookup k = some v → p k v = true) : m.retain p = m := by
  have hentries : m.entries.filter (fun e => p e.1 e.2) = m.entries :=
    List.filter_eq_self.mpr fun e he => h e.1 e.2 (AList.mem_lookup_iff.mpr he)
  exact AList.ext hentries

theorem keys_retain_eq_nil {m : Map K V}
    (h : ∀ k v, m.lookup k = some v → p k v = false) : (m.retain p).keys = [] := by
  have hentries : m.entries.filter (fun e => p e.1 e.2) = [] :=
    List.filter_eq_nil_iff.mpr fun e he => by simp [h e.1 e.2 (AList.mem_lookup_iff.mpr he)]
  exact congrArg List.keys hentries

end
end Portail.Routing

namespace Portail.Proxy

open Lib Http Routing Config List Option

section

inductive Transport
  | tcp
  | udp
  deriving DecidableEq

def Transport.of : Protocol → Transport
  | .udp => udp
  | .http | .https | .tls | .tcp => tcp

/-- A socket the data plane binds; without an address, on every interface. -/
structure Endpoint where
  address : Option Str
  port : UInt16
  transport : Transport
  deriving DecidableEq

def Endpoint.of (l : ListenerConfig) : Endpoint :=
  ⟨l.address, l.targetPort.getD l.port, Transport.of l.protocol⟩

/-- The same port and transport on every interface. -/
def Endpoint.wildcard (e : Endpoint) : Endpoint := { e with address := none }

structure BindError where
  endpoint : Endpoint
  error : Message

/-- A socket bound before the start, or an accept loop with the published port it serves. -/
inductive ListenerSlot
  | pending
  | running (finished : Bool) (port : UInt16)
  deriving DecidableEq

def ListenerSlot.alive : ListenerSlot → Bool
  | pending => true
  | running finished _ => !finished

structure DataPlane (C : Type) where
  listenerTasks : Map Endpoint ListenerSlot
  plans : Plans C
  terminateConfigs : BuiltConfigs C
  /-- The loops the last pass closed and did not wait for. -/
  closing : List Endpoint
  tlsFailures : UInt16 → Option Message

variable {P C : Type}

def endpointAlive (tasks : Map Endpoint ListenerSlot) (e : Endpoint) : Bool :=
  (tasks.lookup e).any ListenerSlot.alive

/-- The endpoints of a list, each with the published port of its first listener. -/
def firstPorts (listeners : List ListenerConfig) (desired : Map Endpoint UInt16) :
    Map Endpoint UInt16 :=
  listeners.foldl (fun (desired : Map Endpoint UInt16) l =>
    match desired.lookup (Endpoint.of l) with
    | some _ => desired
    | none => desired.insert (Endpoint.of l) l.port) desired

/-- A wildcard stands for the specific endpoints on its port and transport. -/
def desiredEndpoints (listeners : List ListenerConfig) : Map Endpoint UInt16 :=
  let desired := firstPorts listeners ∅
  desired.retain fun e _ => e.address.isNone || (desired.lookup e.wildcard).isNone

/-- The running loops a test picks leave the map; sockets bound before the start stay. -/
def closeWhere (tasks : Map Endpoint ListenerSlot) (close : Endpoint → UInt16 → Bool) :
    Map Endpoint ListenerSlot × List Endpoint :=
  let picked (e : Endpoint) : ListenerSlot → Bool
    | .pending => false
    | .running _ port => close e port
  (tasks.retain fun e slot => !picked e slot, (tasks.retain picked).keys)

/-- Dead loops are reaped and unwanted ones closed. The loops to wait for are those the last pass
left closing and those it closes. -/
def closeUnwanted (dp : DataPlane C) (listeners : List ListenerConfig) :
    DataPlane C × List Endpoint :=
  let reaped := dp.listenerTasks.retain fun _ slot => slot.alive
  let desired := desiredEndpoints listeners
  let (tasks, closed) := closeWhere reaped fun e port => desired.lookup e != some port
  ({ dp with listenerTasks := tasks, closing := [] }, dp.closing ++ closed)

/-- Whether a socket on a port with the plan could serve a connection. -/
def serves (plan : Option (TlsPlan C)) : Bool := plan.all TlsPlan.serves

/-- The accumulators of the bind loop. -/
structure Binding where
  tasks : Map Endpoint ListenerSlot
  opened : ℕ
  errors : List BindError

/-- A listener's endpoint bound, unless its port serves nothing, it is bound already or another
listener stands for it. -/
def bindListener (bind : ListenerConfig → Endpoint → Option Message) (plans : Plans C)
    (desired : Map Endpoint UInt16) (acc : Binding) (l : ListenerConfig) : Binding :=
  if l.protocol = .udp ∨ (plans l.port).any serves then
    let e := Endpoint.of l
    if endpointAlive acc.tasks e || desired.lookup e != some l.port then acc
    else
      match bind l e with
      | none =>
        { acc with
          tasks := acc.tasks.insert e (.running false l.port)
          opened := acc.opened + 1 }
      | some error => { acc with errors := acc.errors ++ [⟨e, error⟩] }
  else acc

/-- The second half of a pass, with how many endpoints it opens and the errors. -/
def addTcpListeners (env : CertEnv P C) (http2 : Bool)
    (bind : ListenerConfig → Endpoint → Option Message) (dp : DataPlane C)
    (listeners : List ListenerConfig) : DataPlane C × ℕ × List BindError :=
  let desired := desiredEndpoints listeners
  let planned := planPorts env http2 listeners dp.terminateConfigs
  let errors := desired.entries.filterMap fun entry =>
    if entry.1.transport = .tcp then (planned.errors entry.2).map (BindError.mk entry.1) else none
  let dead (port : UInt16) : Bool := (planned.plans port).any fun plan => !serves plan
  let (tasks, closed) := closeWhere dp.listenerTasks fun e port =>
    e.transport == .tcp && dead port
  let bound := listeners.foldl (bindListener bind planned.plans desired) ⟨tasks, 0, errors⟩
  (⟨bound.tasks, planned.plans, planned.built, dp.closing ++ closed, planned.errors⟩,
    bound.opened, bound.errors)

/-- A pass: the loops it waited for, what it leaves, how many endpoints it opened and its
errors. -/
structure Pass (C : Type) where
  awaited : List Endpoint
  dataPlane : DataPlane C
  opened : ℕ
  errors : List BindError

def pass (env : CertEnv P C) (http2 : Bool) (bind : ListenerConfig → Endpoint → Option Message)
    (dp : DataPlane C) (listeners : List ListenerConfig) : Pass C :=
  let (dp, awaited) := closeUnwanted dp listeners
  let (dp, opened, errors) := addTcpListeners env http2 bind dp listeners
  ⟨awaited, dp, opened, errors⟩

end

variable {l : ListenerConfig} {slot : ListenerSlot}

section

variable {listeners : List ListenerConfig} {e : Endpoint} {port : UInt16}

theorem firstPorts_mem {desired : Map Endpoint UInt16}
    (h : (firstPorts listeners desired).lookup e = some port) :
    desired.lookup e = some port ∨ ∃ l ∈ listeners, Endpoint.of l = e ∧ l.port = port := by
  induction listeners generalizing desired with
  | nil => exact .inl h
  | cons l listeners ih =>
    rw [firstPorts, foldl_cons, ← firstPorts] at h
    rcases ih h with hacc | ⟨x, hx, hspec⟩
    · cases hheld : desired.lookup (Endpoint.of l) with
      | some _ => exact .inl (by simpa [hheld] using hacc)
      | none =>
        rw [hheld] at hacc
        by_cases he : e = Endpoint.of l
        · subst he
          exact .inr ⟨l, by simp, rfl, by simpa using hacc⟩
        · exact .inl (by simpa [AList.lookup_insert_ne he] using hacc)
    · exact .inr ⟨x, mem_cons_of_mem l hx, hspec⟩

theorem desired_lookup (listeners : List ListenerConfig) (e : Endpoint) :
    (desiredEndpoints listeners).lookup e =
      ((firstPorts listeners ∅).lookup e).filter fun _ =>
        e.address.isNone || ((firstPorts listeners ∅).lookup e.wildcard).isNone :=
  lookup_retain _ _ e

theorem desired_mem (h : (desiredEndpoints listeners).lookup e = some port) :
    ∃ l ∈ listeners, Endpoint.of l = e ∧ l.port = port := by
  rw [desired_lookup, filter_eq_some_iff] at h
  rcases firstPorts_mem h.1 with hnone | hmem
  · simp at hnone
  · exact hmem

theorem desired_wildcard (h : (desiredEndpoints listeners).lookup e = some port)
    (he : e.address ≠ none) : (desiredEndpoints listeners).lookup e.wildcard = none := by
  rw [desired_lookup, filter_eq_some_iff] at h
  have hnone : (firstPorts listeners ∅).lookup e.wildcard = none := by
    simpa [isNone_iff_eq_none, he] using h.2
  rw [desired_lookup, hnone]
  rfl

theorem udp_of_endpoint (h : Endpoint.of l = e) : e.transport = .udp ↔ l.protocol = .udp := by
  subst h
  cases hp : l.protocol <;> simp [Endpoint.of, Transport.of, hp]

end

section

variable {P C : Type} {close : Endpoint → UInt16 → Bool} {tasks : Map Endpoint ListenerSlot}

theorem closeWhere_lookup {e : Endpoint} :
    (closeWhere tasks close).1.lookup e = some slot ↔ tasks.lookup e = some slot ∧
      ∀ finished port, slot = .running finished port → close e port = false := by
  rw [closeWhere, lookup_retain, filter_eq_some_iff]
  cases slot <;> simp

theorem closeWhere_of_none
    (h : ∀ e finished port, tasks.lookup e = some (.running finished port) → close e port = false) :
    closeWhere tasks close = (tasks, []) := by
  rw [closeWhere, Prod.mk.injEq]
  refine ⟨retain_eq_self fun e slot hslot => ?_, keys_retain_eq_nil fun e slot hslot => ?_⟩
  all_goals
    cases slot with
    | pending => rfl
    | running finished port => simp [h e finished port hslot]

end

section

variable {C : Type} {bind : ListenerConfig → Endpoint → Option Message} {plans : Plans C}
  {desired : Map Endpoint UInt16} {acc : Binding}

/-- A listener asks for its endpoint with the published port. -/
def Asks (plans : Plans C) (desired : Map Endpoint UInt16) (e : Endpoint) (port : UInt16)
    (l : ListenerConfig) : Prop :=
  Endpoint.of l = e ∧ l.port = port ∧ desired.lookup e = some port ∧
    (l.protocol = .udp ∨ (plans port).any serves = true)

open Classical in
/-- The slot a listener asks for at an endpoint. -/
noncomputable def askedSlot (plans : Plans C) (desired : Map Endpoint UInt16) (e : Endpoint)
    (l : ListenerConfig) : Option ListenerSlot :=
  if Asks plans desired e l.port l then some (.running false l.port) else none

theorem askedSlot_eq_some {e : Endpoint} :
    askedSlot plans desired e l = some slot ↔
      ∃ port, slot = .running false port ∧ Asks plans desired e port l := by
  unfold askedSlot
  constructor
  · intro h
    split_ifs at h with hasks
    exact ⟨l.port, (some.inj h).symm, hasks⟩
  · rintro ⟨port, rfl, hasks⟩
    obtain rfl := hasks.2.1
    exact if_pos hasks

/-- With every bind succeeding, a listener takes the slot it asks for where there is none. -/
theorem bindListener_lookup (hbind : ∀ l e, bind l e = none)
    (halive : ∀ e slot, acc.tasks.lookup e = some slot → slot.alive = true) (l : ListenerConfig)
    (e : Endpoint) :
    (bindListener bind plans desired acc l).tasks.lookup e =
      (acc.tasks.lookup e).or (askedSlot plans desired e l) := by
  unfold bindListener endpointAlive
  simp only [hbind]
  by_cases he : e = Endpoint.of l
  · subst he
    cases hheld : acc.tasks.lookup (Endpoint.of l) with
    | some held => simp [hheld, halive _ _ hheld]
    | none =>
      rw [none_or, askedSlot]
      split_ifs with hserves hskip hasks hasks hasks <;> simp_all [Asks]
  · have hnone : askedSlot plans desired e l = none := if_neg fun hasks => he hasks.1.symm
    rw [hnone, or_none]
    split_ifs
    · rfl
    · exact AList.lookup_insert_ne he
    · rfl

theorem foldl_bindListener (hbind : ∀ l e, bind l e = none) (listeners : List ListenerConfig)
    (halive : ∀ e slot, acc.tasks.lookup e = some slot → slot.alive = true) (e : Endpoint) :
    (listeners.foldl (bindListener bind plans desired) acc).tasks.lookup e =
      (acc.tasks.lookup e).or (listeners.findSome? (askedSlot plans desired e)) := by
  induction listeners generalizing acc with
  | nil => simp
  | cons l listeners ih =>
    rw [foldl_cons, ih, bindListener_lookup hbind halive, Option.or_assoc, findSome?_cons]
    · cases askedSlot plans desired e l <;> rfl
    · intro e slot h
      rw [bindListener_lookup hbind halive, or_eq_some_iff, askedSlot_eq_some] at h
      rcases h with h | ⟨-, port, rfl, -⟩
      · exact halive e slot h
      · rfl

theorem foldl_bindListener_of_bound {listeners : List ListenerConfig}
    (h : ∀ l ∈ listeners, ∀ e port, Asks plans desired e port l →
      endpointAlive acc.tasks e = true) :
    listeners.foldl (bindListener bind plans desired) acc = acc := by
  induction listeners with
  | nil => rfl
  | cons l listeners ih =>
    have hkeep : bindListener bind plans desired acc l = acc := by
      unfold bindListener
      simp only
      split_ifs with hserves hskip
      · rfl
      · simp only [Bool.or_eq_true, not_or, bne_iff_ne, ne_eq, not_not] at hskip
        exact absurd (h l mem_cons_self _ _ ⟨rfl, rfl, hskip.2, hserves⟩) hskip.1
      · rfl
    rw [foldl_cons, hkeep]
    exact ih fun x hx => h x (mem_cons_of_mem l hx)

end

section

variable {P C : Type} {env : CertEnv P C} {http2 : Bool}

/-- A second pass over the same refs keeps the config of the first. -/
theorem rebuild_again (refs : List CertificateRef) (built : Option (BuiltConfig C)) :
    (rebuild env http2 refs (rebuild env http2 refs built).1).1 =
      (rebuild env http2 refs built).1 := by
  unfold rebuild
  simp only
  by_cases hempty : refs.isEmpty = true
  · simp [hempty]
  · by_cases hfingerprint : built.any fun b => b.fingerprint = computeCertFingerprint refs
    · simp [hempty, hfingerprint]
    · cases hbuild : buildTerminating env refs http2 with
      | ok result => simp [hempty, hfingerprint]
      | error e =>
        by_cases hrefs : built.any fun b => b.refs = certKeys refs
        · simp [hempty, hfingerprint, hrefs]
        · simp [hempty, hfingerprint, hrefs]

theorem planPorts_again (listeners : List ListenerConfig) (built : BuiltConfigs C) :
    let first := planPorts env http2 listeners built
    let second := planPorts env http2 listeners first.built
    second.built = first.built ∧ second.plans = first.plans := by
  intro first second
  have hbuilt : second.built = first.built := by
    ext1 port
    simp only [first, second, planPorts]
    cases mergeCertRefsByPort listeners port with
    | none => rfl
    | some refs => exact rebuild_again refs (built port)
  refine ⟨hbuilt, ?_⟩
  have hplans (b : BuiltConfigs C) :
      (planPorts env http2 listeners b).plans = fun port =>
        (listeners.foldl (addToPlans (planPorts env http2 listeners b).built) (fun _ => none)
          port).map fun plan => plan.map fun plan => { plan with
            terminate := ((planPorts env http2 listeners b).built port).map BuiltConfig.config } :=
    rfl
  rw [hplans, hplans, hbuilt]

end

section

variable {P C : Type} {env : CertEnv P C} {http2 : Bool}
  {bind : ListenerConfig → Endpoint → Option Message}

/-- A published port whose plan can serve. -/
def DataPlane.servesPort (dp : DataPlane C) (port : UInt16) : Bool := (dp.plans port).any serves

/-- An accept loop that runs on the endpoint and serves the published port. -/
def DataPlane.Live (dp : DataPlane C) (e : Endpoint) (port : UInt16) : Prop :=
  dp.listenerTasks.lookup e = some (.running false port)

/-- The tasks after the loops a pass does not want and those it cannot serve are closed. -/
def keptTasks (env : CertEnv P C) (http2 : Bool) (dp : DataPlane C)
    (listeners : List ListenerConfig) : Map Endpoint ListenerSlot :=
  (closeWhere (closeUnwanted dp listeners).1.listenerTasks fun e port =>
    e.transport == .tcp && ((planPorts env http2 listeners dp.terminateConfigs).plans port).any
      fun plan => !serves plan).1

variable {dp : DataPlane C} {listeners : List ListenerConfig} {e : Endpoint} {slot : ListenerSlot}
  {port : UInt16}

theorem closeUnwanted_lookup :
    (closeUnwanted dp listeners).1.listenerTasks.lookup e = some slot ↔
      dp.listenerTasks.lookup e = some slot ∧ slot.alive = true ∧
        ∀ finished port, slot = .running finished port →
          (desiredEndpoints listeners).lookup e = some port := by
  simp only [closeUnwanted, closeWhere_lookup, lookup_retain, filter_eq_some_iff, and_assoc,
    bne_eq_false_iff_eq]

/-- What a pass closes for its plan is TCP on a port with a plan that serves nothing. -/
theorem not_dead_iff (e : Endpoint) (plan : Option (Option (TlsPlan C))) :
    (e.transport == .tcp && plan.any fun plan => !serves plan) = false ↔
      e.transport = .udp ∨ plan.all serves = true := by
  cases e.transport <;> cases plan <;> simp

theorem keptTasks_lookup :
    (keptTasks env http2 dp listeners).lookup e = some slot ↔
      dp.listenerTasks.lookup e = some slot ∧ slot.alive = true ∧
        ∀ finished port, slot = .running finished port →
          (desiredEndpoints listeners).lookup e = some port ∧
            (e.transport = .udp ∨
              ((planPorts env http2 listeners dp.terminateConfigs).plans port).all serves =
                true) := by
  simp only [keptTasks, closeWhere_lookup, closeUnwanted_lookup, not_dead_iff]
  constructor
  · rintro ⟨⟨hslot, halive, hdesired⟩, hserves⟩
    exact ⟨hslot, halive, fun f port h => ⟨hdesired f port h, hserves f port h⟩⟩
  · rintro ⟨hslot, halive, h⟩
    exact ⟨⟨hslot, halive, fun f port heq => (h f port heq).1⟩, fun f port heq => (h f port heq).2⟩

theorem asks_iff {plans : Plans C} :
    (∃ l ∈ listeners, Asks plans (desiredEndpoints listeners) e port l) ↔
      (desiredEndpoints listeners).lookup e = some port ∧
        (e.transport = .udp ∨ (plans port).any serves = true) := by
  constructor
  · rintro ⟨l, -, he, -, hdesired, hserves⟩
    exact ⟨hdesired, hserves.imp_left (udp_of_endpoint he).mpr⟩
  · rintro ⟨hdesired, hserves⟩
    obtain ⟨l, hl, he, hport⟩ := desired_mem hdesired
    exact ⟨l, hl, he, hport, hdesired, hserves.imp_left (udp_of_endpoint he).mp⟩

section

variable (hbind : ∀ l e, bind l e = none)
include hbind

/-- After a pass with every bind succeeding, a slot was kept, or is new where none was kept. -/
theorem pass_lookup (dp : DataPlane C)
    (listeners : List ListenerConfig) (e : Endpoint) (slot : ListenerSlot) :
    (pass env http2 bind dp listeners).dataPlane.listenerTasks.lookup e = some slot ↔
      (keptTasks env http2 dp listeners).lookup e = some slot ∨
      (keptTasks env http2 dp listeners).lookup e = none ∧ ∃ port, slot = .running false port ∧
        (desiredEndpoints listeners).lookup e = some port ∧ (e.transport = .udp ∨
          (pass env http2 bind dp listeners).dataPlane.servesPort port = true) := by
  have halive (e : Endpoint) (slot : ListenerSlot)
      (h : (keptTasks env http2 dp listeners).lookup e = some slot) : slot.alive = true :=
    (keptTasks_lookup.mp h).2.1
  simp only [DataPlane.servesPort, ← asks_iff]
  refine (Eq.congr_left (foldl_bindListener hbind listeners halive e)).trans ?_
  rw [or_eq_some_iff]
  refine or_congr_right (and_congr_right fun _ => ?_)
  constructor
  · intro h
    obtain ⟨l, hl, hasked⟩ := exists_of_findSome?_eq_some h
    obtain ⟨port, hslot, hasks⟩ := askedSlot_eq_some.mp hasked
    exact ⟨port, hslot, l, hl, hasks⟩
  · rintro ⟨port, rfl, l, hl, hasks⟩
    -- the port asked for is the one that is wanted
    obtain ⟨slot, hfound⟩ := isSome_iff_exists.mp (findSome?_isSome_iff.mpr
      ⟨l, hl, isSome_iff_exists.mpr ⟨_, askedSlot_eq_some.mpr ⟨port, rfl, hasks⟩⟩⟩)
    obtain ⟨l', -, hasked⟩ := exists_of_findSome?_eq_some hfound
    obtain ⟨port', rfl, hasks'⟩ := askedSlot_eq_some.mp hasked
    cases hasks.2.2.1.symm.trans hasks'.2.2.1
    exact hfound

/-- A pass keeps the sockets bound before the start. Elsewhere a loop runs exactly on the wanted
endpoints that are UDP, whose port's plan serves, or that ran already on a port without plan. -/
theorem pass_live (dp : DataPlane C) (listeners : List ListenerConfig) (e : Endpoint)
    (hpending : dp.listenerTasks.lookup e ≠ some .pending) (slot : ListenerSlot) :
    (pass env http2 bind dp listeners).dataPlane.listenerTasks.lookup e = some slot ↔
      ∃ port, slot = .running false port ∧ (desiredEndpoints listeners).lookup e = some port ∧
        (e.transport = .udp ∨
          (pass env http2 bind dp listeners).dataPlane.servesPort port = true ∨
          (pass env http2 bind dp listeners).dataPlane.plans port = none ∧ dp.Live e port) := by
  rw [pass_lookup hbind]
  constructor
  · rintro (hkept | ⟨-, port, rfl, hdesired, hserves⟩)
    · obtain ⟨hprior, halive, hrunning⟩ := keptTasks_lookup.mp hkept
      cases slot with
      | pending => exact absurd hprior hpending
      | running finished port =>
        obtain rfl : finished = false := by simpa [ListenerSlot.alive] using halive
        obtain ⟨hdesired, hudp | hall⟩ := hrunning false port rfl
        · exact ⟨port, rfl, hdesired, .inl hudp⟩
        · refine ⟨port, rfl, hdesired, .inr ?_⟩
          have hall : ((pass env http2 bind dp listeners).dataPlane.plans port).all serves =
            true := hall
          cases hplan : (pass env http2 bind dp listeners).dataPlane.plans port with
          | none => exact .inr ⟨rfl, hprior⟩
          | some plan => exact .inl (by simpa [DataPlane.servesPort, hplan] using hall)
    · exact ⟨port, rfl, hdesired, hserves.imp_right .inl⟩
  · rintro ⟨port, rfl, hdesired, hserves⟩
    cases hkept : (keptTasks env http2 dp listeners).lookup e with
    | some held =>
      obtain ⟨hprior, halive, hrunning⟩ := keptTasks_lookup.mp hkept
      cases held with
      | pending => exact absurd hprior hpending
      | running finished port' =>
        obtain rfl : finished = false := by simpa [ListenerSlot.alive] using halive
        obtain rfl : port' = port := some.inj ((hrunning false port' rfl).1.symm.trans hdesired)
        exact .inl rfl
    | none =>
      refine .inr ⟨rfl, port, rfl, hdesired, ?_⟩
      rcases hserves with hudp | hserves | ⟨hplan, hlive⟩
      · exact .inl hudp
      · exact .inr hserves
      · -- a loop that ran on a port without plan was kept
        replace hplan : (planPorts env http2 listeners dp.terminateConfigs).plans port =
          none := hplan
        have : (keptTasks env http2 dp listeners).lookup e = some (.running false port) := by
          refine keptTasks_lookup.mpr ⟨hlive, rfl, ?_⟩
          rintro _ _ ⟨⟩
          exact ⟨hdesired, .inr (by simp [hplan])⟩
        rw [hkept] at this
        cases this

/-- A slot a pass leaves is alive, and a running one is wanted and not on a port with a plan that
serves nothing. -/
theorem pass_slot
    (h : (pass env http2 bind dp listeners).dataPlane.listenerTasks.lookup e = some slot) :
    slot.alive = true ∧ ∀ finished port, slot = .running finished port →
      (desiredEndpoints listeners).lookup e = some port ∧ (e.transport = .udp ∨
        ((pass env http2 bind dp listeners).dataPlane.plans port).all serves = true) := by
  rcases (pass_lookup hbind dp listeners e slot).mp h with hkept | ⟨-, port, rfl, hdesired, hserves⟩
  · exact (keptTasks_lookup.mp hkept).2
  · refine ⟨rfl, ?_⟩
    rintro _ _ ⟨⟩
    refine ⟨hdesired, hserves.imp_right fun hany => ?_⟩
    unfold DataPlane.servesPort at hany
    cases hplan : (pass env http2 bind dp listeners).dataPlane.plans port with
    | none => simp [hplan] at hany
    | some plan => simpa [hplan] using hany

theorem pass_bound (hl : l ∈ listeners)
    (hasks : Asks (pass env http2 bind dp listeners).dataPlane.plans
      (desiredEndpoints listeners) e port l) :
    endpointAlive (pass env http2 bind dp listeners).dataPlane.listenerTasks e = true := by
  have hwanted := asks_iff.mp ⟨l, hl, hasks⟩
  obtain ⟨slot, hslot⟩ : ∃ slot,
      (pass env http2 bind dp listeners).dataPlane.listenerTasks.lookup e = some slot := by
    cases hkept : (keptTasks env http2 dp listeners).lookup e with
    | some held => exact ⟨held, (pass_lookup hbind dp listeners e held).mpr (.inl hkept)⟩
    | none => exact ⟨_, (pass_lookup hbind dp listeners e _).mpr (.inr ⟨hkept, port, rfl, hwanted⟩)⟩
  simp [endpointAlive, hslot, (pass_slot hbind hslot).1]

/-- An immediate second pass closes and opens nothing. -/
theorem pass_again (dp : DataPlane C) (listeners : List ListenerConfig) :
    let first := (pass env http2 bind dp listeners).dataPlane
    let second := pass env http2 bind first listeners
    second.dataPlane.listenerTasks = first.listenerTasks ∧ second.opened = 0 ∧
      second.awaited = first.closing ∧ second.dataPlane.closing = [] := by
  intro first second
  have hslot {e : Endpoint} {slot : ListenerSlot} (h : first.listenerTasks.lookup e = some slot) :=
    pass_slot hbind h
  have hclose : closeUnwanted first listeners =
      ({ first with closing := [] }, first.closing) := by
    have hreap : (first.listenerTasks.retain fun _ slot => slot.alive) = first.listenerTasks :=
      retain_eq_self fun e slot h => (hslot h).1
    have hwanted : closeWhere first.listenerTasks (fun e port =>
        (desiredEndpoints listeners).lookup e != some port) = (first.listenerTasks, []) :=
      closeWhere_of_none fun e finished port h => by
        simpa using ((hslot h).2 finished port rfl).1
    simp only [closeUnwanted, hreap, hwanted, append_nil]
  have hplans : (planPorts env http2 listeners first.terminateConfigs).plans = first.plans :=
    (planPorts_again listeners dp.terminateConfigs).2
  have hdead : closeWhere first.listenerTasks (fun e port => e.transport == .tcp &&
      ((planPorts env http2 listeners first.terminateConfigs).plans port).any
        fun plan => !serves plan) = (first.listenerTasks, []) :=
    closeWhere_of_none fun e finished port h => by
      rw [not_dead_iff, hplans]
      exact ((hslot h).2 finished port rfl).2
  have hbound (errors : List BindError) : listeners.foldl (bindListener bind
      (planPorts env http2 listeners first.terminateConfigs).plans (desiredEndpoints listeners))
      ⟨first.listenerTasks, 0, errors⟩ = ⟨first.listenerTasks, 0, errors⟩ :=
    foldl_bindListener_of_bound fun l hl e port hasks => pass_bound hbind hl (hplans ▸ hasks)
  have hsecond : second = pass env http2 bind first listeners := rfl
  simp only [hsecond, pass, hclose, addTcpListeners, hdead, hbound, append_nil, and_self]

end

/-- A wanted TCP endpoint's port has a plan, unless its listener is a TLS one that terminates,
which no plan takes. -/
theorem unplanned_terminates {built : BuiltConfigs C}
    (hdesired : (desiredEndpoints listeners).lookup e = some port) (htcp : e.transport = .tcp)
    (hplan : (planPorts env http2 listeners built).plans port = none) :
    ∃ l ∈ listeners, Endpoint.of l = e ∧ l.port = port ∧ l.protocol = .tls ∧
      l.isTlsPassthrough = false := by
  obtain ⟨l, hl, he, rfl⟩ := desired_mem hdesired
  have hnotudp : l.protocol ≠ .udp := fun h => by
    have := (udp_of_endpoint he).mpr h
    simp [htcp] at this
  cases hkind : planKind (planPorts env http2 listeners built).built l with
  | some kind =>
    have := planPorts_isSome hl hkind
    simp [hplan] at this
  | none =>
    unfold planKind at hkind
    split at hkind
    case h_5 htls => exact ⟨l, hl, he, rfl, htls, by simpa using hkind⟩
    all_goals simp_all

/-- One pass, every bind succeeding, leaves the sockets bound before the start and otherwise live
exactly the wanted endpoints that are UDP, whose port's plan serves, or that were live on a port
without plan, each serving the port it is wanted for. Only TLS listeners that terminate leave a
port without plan. No specific endpoint runs beside its wildcard, and a second pass changes
nothing. -/
theorem pass_converges (env : CertEnv P C) (http2 : Bool)
    (bind : ListenerConfig → Endpoint → Option Message) (hbind : ∀ l e, bind l e = none)
    (dp : DataPlane C) (listeners : List ListenerConfig) :
    let first := (pass env http2 bind dp listeners).dataPlane
    let second := pass env http2 bind first listeners
    (∀ e, dp.listenerTasks.lookup e = some .pending →
      first.listenerTasks.lookup e = some .pending) ∧
    (∀ e, dp.listenerTasks.lookup e ≠ some .pending → ∀ slot,
      first.listenerTasks.lookup e = some slot ↔ ∃ port, slot = .running false port ∧
        (desiredEndpoints listeners).lookup e = some port ∧
        (e.transport = .udp ∨ first.servesPort port = true ∨
          first.plans port = none ∧ dp.Live e port)) ∧
    (∀ e port, (desiredEndpoints listeners).lookup e = some port → e.transport = .tcp →
      first.plans port = none → ∃ l ∈ listeners, Endpoint.of l = e ∧ l.port = port ∧
        l.protocol = .tls ∧ l.isTlsPassthrough = false) ∧
    (∀ e port port', e.address ≠ none → first.Live e port → ¬ first.Live e.wildcard port') ∧
    second.dataPlane.listenerTasks = first.listenerTasks ∧ second.opened = 0 ∧
      second.awaited = first.closing ∧ second.dataPlane.closing = [] := by
  refine ⟨?_, pass_live hbind dp listeners, ?_, ?_, pass_again hbind dp listeners⟩
  · intro e hpending
    exact (pass_lookup hbind dp listeners e _).mpr
      (.inl (keptTasks_lookup.mpr ⟨hpending, rfl, by simp⟩))
  · intro e port hdesired htcp hplan
    exact unplanned_terminates hdesired htcp hplan
  · intro e port port' he hlive hwild
    have hdesired := ((pass_slot hbind hlive).2 false port rfl).1
    have hdesired' := ((pass_slot hbind hwild).2 false port' rfl).1
    rw [desired_wildcard hdesired he] at hdesired'
    cases hdesired'

end

def noCerts : CertEnv Unit Unit := ⟨fun _ _ => none, fun _ => none, fun _ => none⟩

def allInterfaces : Endpoint := ⟨none, 443, .tcp⟩

def oneSocket (slot : ListenerSlot) : DataPlane Unit :=
  ⟨(∅ : Map Endpoint ListenerSlot).insert allInterfaces slot, fun _ => none, fun _ => none, [],
    fun _ => none⟩

def listenerOf (protocol : Protocol) : ListenerConfig :=
  ⟨Str.lit "web", protocol, 443, none, none, none, none, some ⟨.terminate, []⟩, none⟩

def passOver (slot : ListenerSlot) (listeners : List ListenerConfig) : DataPlane Unit :=
  (pass noCerts false (fun _ _ => none) (oneSocket slot) listeners).dataPlane

/-- The port of a TLS listener that terminates has no plan, and its loop stays; so does a socket
bound before the start that no listener wants. -/
theorem unwanted_stay :
    (passOver (.running false 443) [listenerOf .tls]).listenerTasks.lookup allInterfaces =
        some (.running false 443) ∧
      (passOver (.running false 443) [listenerOf .tls]).servesPort 443 = false ∧
      (passOver .pending []).listenerTasks.lookup allInterfaces = some .pending := by
  decide

/-- An HTTPS port without certificate is closed, a plain one beside it opened, and neither is
touched by the next pass. -/
theorem pass_converges_twoPorts :
    let listeners := [listenerOf .https, { listenerOf .http with port := 80 }]
    let first := passOver (.running false 443) listeners
    first.listenerTasks.lookup allInterfaces = none ∧
      first.listenerTasks.lookup ⟨none, 80, .tcp⟩ = some (.running false 80) ∧
      (pass noCerts false (fun _ _ => none) first listeners).opened = 0 := by
  intro listeners first
  obtain ⟨-, hlive, -, -, -, hopened, -⟩ := pass_converges noCerts false (fun _ _ => none)
    (fun _ _ => rfl) (oneSocket (.running false 443)) listeners
  refine ⟨?_, (hlive ⟨none, 80, .tcp⟩ (by decide) _).mpr
    ⟨80, rfl, by decide, .inr (.inl (by decide))⟩, hopened⟩
  cases h : first.listenerTasks.lookup allInterfaces with
  | none => rfl
  | some slot =>
    obtain ⟨port, -, hdesired, hserves⟩ := (hlive allInterfaces (by decide) slot).mp h
    obtain rfl : 443 = port := some.inj (Eq.trans (by decide) hdesired)
    exfalso
    rcases hserves with hudp | hserves | ⟨hplan, -⟩
    · cases hudp
    · revert hserves
      decide
    · revert hplan
      decide

end Portail.Proxy
