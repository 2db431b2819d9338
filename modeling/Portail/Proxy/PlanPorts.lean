import Portail.Proxy.TlsPlan

/-!
# The plans of a listener list

`plan_ports`: the certificate refs of a port's HTTPS listeners merged, its terminating
config rebuilt when a fingerprint of them changed, and the plan of every TCP port. A map
by port is what a lookup in it answers.
-/

namespace Portail.Proxy

open Lib Http Routing Config List Option

section

/-- A port's terminating config, as a pass built it. -/
structure BuiltConfig (C : Type) where
  fingerprint : UInt64
  refs : Finset CertKey
  loaded : Finset CertKey
  config : ServerConfig C

/-- What is built for the ports. -/
abbrev BuiltConfigs (C : Type) := UInt16 → Option (BuiltConfig C)

variable {P C : Type}

def certificateRefs (l : ListenerConfig) : List CertificateRef :=
  (l.tls.map TlsConfig.certificateRefs).getD []

def BuiltConfig.hasCertOf (b : BuiltConfig C) (l : ListenerConfig) : Bool :=
  l.tls.any fun t => t.certificateRefs.any fun r => certKey r ∈ b.loaded

structure MergedRefs where
  refs : UInt16 → Option (List CertificateRef)
  seen : Finset (UInt16 × CertKey)

namespace MergedRefs

/-- A ref seen on the port before is left out. -/
def pushRef (port : UInt16) (m : MergedRefs) (r : CertificateRef) : MergedRefs :=
  if (port, certKey r) ∈ m.seen then m
  else
    { refs := Function.update m.refs port (some ((m.refs port).getD [] ++ [r]))
      seen := insert (port, certKey r) m.seen }

/-- An HTTPS listener without refs still names its port. -/
def push (m : MergedRefs) (l : ListenerConfig) : MergedRefs :=
  if l.protocol = .https then
    (certificateRefs l).foldl (pushRef l.port)
      { m with refs := Function.update m.refs l.port (some ((m.refs l.port).getD [])) }
  else m

end MergedRefs

def mergeCertRefsByPort (listeners : List ListenerConfig) : UInt16 → Option (List CertificateRef) :=
  (listeners.foldl MergedRefs.push ⟨fun _ => none, ∅⟩).refs

/-- FNV-1a in 64 bits. -/
def fnv1a (octets : Bytes) : UInt64 :=
  octets.foldl (fun hash b => (hash ^^^ b.toUInt64) * 0x100000001b3) 0xcbf29ce484222325

/-- What of a ref the fingerprint is taken of, one text after the other. -/
def refOctets (r : CertificateRef) : Bytes :=
  r.certPem.getD [] ++ r.keyPem.getD [] ++ (r.ns.map Str.octets).getD [] ++ r.name.octets ++
    (r.hostname.map Str.octets).getD []

def computeCertFingerprint (refs : List CertificateRef) : UInt64 := fnv1a (refs.flatMap refOctets)

def certKeys (refs : List CertificateRef) : Finset CertKey := (refs.map certKey).toFinset

/-- A port's terminating config after a pass, with why it was not rebuilt. -/
def rebuild (env : CertEnv P C) (http2 : Bool) (refs : List CertificateRef)
    (built : Option (BuiltConfig C)) : Option (BuiltConfig C) × Option Message :=
  if refs.isEmpty then (none, none)
  else
    let fingerprint := computeCertFingerprint refs
    if built.any fun b => b.fingerprint = fingerprint then (built, none)
    else
      match buildTerminating env refs http2 with
      | .ok (config, loaded) => (some ⟨fingerprint, certKeys refs, loaded, config⟩, none)
      | .error e =>
        -- a bad rotation of the same refs keeps the last good config
        if built.any fun b => b.refs = certKeys refs then
          (built, some ([.text "TLS config build failed: "] ++ e ++
            [.text "; serving the last good certificates"]))
        else (none, some ([.text "TLS config build failed: "] ++ e))

/-- How a listener takes part in its port's plan: not at all, in plain bytes, or by TLS. -/
def planKind (built : BuiltConfigs C) (l : ListenerConfig) :
    Option (Option TlsKind) :=
  match l.protocol with
  | .udp => none
  | .http | .tcp => some none
  | .https =>
    some (some (if (built l.port).any (·.hasCertOf l) then .terminate else .noCert))
  | .tls => if l.isTlsPassthrough then some (some .passthrough) else none

/-- The plan of each TCP port; a plain one is `none`. -/
abbrev Plans (C : Type) := UInt16 → Option (Option (TlsPlan C))

def addToPlans (built : BuiltConfigs C) (plans : Plans C) (l : ListenerConfig) :
    Plans C :=
  match planKind built l with
  | none => plans
  | some kind =>
    let plan := (plans l.port).getD none
    Function.update plans l.port (some (match kind with
      | none => plan
      | some kind => some ((plan.getD .empty).add (l.hostname.map Str.octets) kind)))

structure PlannedPorts (C : Type) where
  plans : Plans C
  errors : UInt16 → Option Message
  built : BuiltConfigs C

def planPorts (env : CertEnv P C) (http2 : Bool) (listeners : List ListenerConfig)
    (built : BuiltConfigs C) : PlannedPorts C :=
  let merged := mergeCertRefsByPort listeners
  let rebuilt (port : UInt16) : Option (BuiltConfig C) × Option Message :=
    match merged port with
    | none => (none, none)
    | some refs => rebuild env http2 refs (built port)
  let built (port : UInt16) := (rebuilt port).1
  let plans := listeners.foldl (addToPlans built) fun _ => none
  { plans := fun port => (plans port).map fun plan => plan.map fun plan =>
      { plan with terminate := (built port).map BuiltConfig.config }
    errors := fun port => (rebuilt port).2
    built := built }

end

variable {l : ListenerConfig}

section

def HttpsOn (listeners : List ListenerConfig) (port : UInt16) (l : ListenerConfig) : Prop :=
  l ∈ listeners ∧ l.protocol = .https ∧ l.port = port

/-- The merged refs come from HTTPS listeners of their port. -/
def MergedRefs.FromListeners (listeners : List ListenerConfig) (m : MergedRefs) : Prop :=
  ∀ port refs, m.refs port = some refs → ∀ r ∈ refs,
    ∃ l, HttpsOn listeners port l ∧ r ∈ certificateRefs l

variable {listeners : List ListenerConfig} {m : MergedRefs} {refs : List CertificateRef}
  {r : CertificateRef}

/-- Refs of a listener are added to those of its port. -/
theorem MergedRefs.FromListeners.add (h : m.FromListeners listeners)
    (hl : HttpsOn listeners l.port l) (hrefs : ∀ r ∈ refs, r ∈ certificateRefs l)
    (seen : Finset (UInt16 × CertKey)) :
    FromListeners listeners
      ⟨Function.update m.refs l.port (some ((m.refs l.port).getD [] ++ refs)), seen⟩ := by
  intro port found hfound x hx
  by_cases hport : port = l.port
  · subst hport
    obtain rfl : (m.refs l.port).getD [] ++ refs = found := by simpa using hfound
    rcases mem_append.mp hx with hx | hx
    · cases hm : m.refs l.port with
      | none => simp [hm] at hx
      | some refs => exact h l.port refs hm x (by simpa [hm] using hx)
    · exact ⟨l, hl, hrefs x hx⟩
  · exact h port found (by simpa [hport] using hfound) x hx

theorem MergedRefs.FromListeners.pushRef (h : m.FromListeners listeners)
    (hl : HttpsOn listeners l.port l) (hr : r ∈ certificateRefs l) :
    (m.pushRef l.port r).FromListeners listeners := by
  unfold MergedRefs.pushRef
  split_ifs
  · exact h
  · exact h.add hl (by simpa using hr) _

theorem MergedRefs.FromListeners.push (h : m.FromListeners listeners)
    (hl : l ∈ listeners) : (m.push l).FromListeners listeners := by
  unfold MergedRefs.push
  split_ifs with hhttps
  · have hadd := h.add ⟨hl, hhttps, rfl⟩ (forall_mem_nil _) m.seen
    rw [append_nil] at hadd
    exact foldlRecOn _ _ hadd fun m hm r hr => hm.pushRef ⟨hl, hhttps, rfl⟩ hr
  · exact h

theorem mem_mergeCertRefs {port : UInt16} (h : mergeCertRefsByPort listeners port = some refs)
    (hr : r ∈ refs) : ∃ l, HttpsOn listeners port l ∧ r ∈ certificateRefs l := by
  have hrun : (listeners.foldl MergedRefs.push ⟨fun _ => none, ∅⟩).FromListeners listeners :=
    foldlRecOn _ _ (by simp [MergedRefs.FromListeners]) fun m hm l hl => hm.push hl
  exact hrun port refs h r hr

end

section

variable {P C : Type}

/-- The listener a plan holds for a kind of hostname on a port. -/
def Plans.at (plans : Plans C) (port : UInt16) (k : HostKind) : Option TlsListener :=
  ((plans port).getD none).bind (·.at k)

variable {built : BuiltConfigs C} {plans : Plans C}

theorem TlsPlan.at_empty (k : HostKind) : (empty : TlsPlan C).at k = none := by
  cases k <;> rfl

theorem at_addToPlans (l : ListenerConfig) (port : UInt16) (k : HostKind) :
    (addToPlans built plans l).at port k =
      match planKind built l with
      | some (some kind) =>
        if port = l.port ∧ nameKind (nameOf l.hostname) = k ∧
            TlsPlan.replaces kind (plans.at port k) = true then
          some ⟨kind, nameOf l.hostname⟩
        else plans.at port k
      | _ => plans.at port k := by
  have hname : (l.hostname.map Str.octets).map lowercase = nameOf l.hostname := by
    rw [Option.map_map]
    rfl
  unfold addToPlans
  cases planKind built l with
  | none => rfl
  | some kind =>
    by_cases hport : port = l.port
    · subst hport
      cases kind with
      | none => simp [Plans.at]
      | some kind =>
        have hheld : (((plans l.port).getD none).getD TlsPlan.empty).at k = plans.at l.port k := by
          unfold Plans.at
          cases (plans l.port).getD none with
          | none => exact TlsPlan.at_empty k
          | some plan => rfl
        simp only [Plans.at, Function.update_self, getD_some, bind_some,
          TlsPlan.at_add, hname, true_and]
        rw [hheld]
        rfl
    · have hsame (x : Option (Option (TlsPlan C))) :
          Plans.at (Function.update plans l.port x) port k = plans.at port k := by
        simp [Plans.at, hport]
      cases kind <;> simp [hsame, hport]

/-- What the plans hold comes from a listener of the port and the hostname, and no listener
there has a higher rank. -/
structure Plans.Holds (built : BuiltConfigs C) (listeners : List ListenerConfig)
    (plans : Plans C) : Prop where
  mem {port : UInt16} {k : HostKind} {held : TlsListener} : plans.at port k = some held →
    ∃ l ∈ listeners, l.port = port ∧ planKind built l = some (some held.kind) ∧
      nameOf l.hostname = held.hostname ∧ nameKind held.hostname = k
  rank {l : ListenerConfig} {kind : TlsKind} : l ∈ listeners →
    planKind built l = some (some kind) →
    ∃ held, plans.at l.port (nameKind (nameOf l.hostname)) = some held ∧ kind.rank ≤ held.kind.rank

variable {listeners : List ListenerConfig} {env : CertEnv P C}

theorem Plans.Holds.add (h : plans.Holds built listeners) (l : ListenerConfig) :
    (addToPlans built plans l).Holds built (listeners ++ [l]) := by
  constructor
  · intro port k held hat
    have hold (hat : plans.at port k = some held) : ∃ x ∈ listeners ++ [l], x.port = port ∧
        planKind built x = some (some held.kind) ∧ nameOf x.hostname = held.hostname ∧
        nameKind held.hostname = k := by
      obtain ⟨x, hx, hspec⟩ := h.mem hat
      exact ⟨x, mem_append_left _ hx, hspec⟩
    rw [at_addToPlans] at hat
    split at hat
    · next kind hkind =>
      split_ifs at hat with hnew
      · obtain ⟨rfl, rfl, -⟩ := hnew
        cases hat
        exact ⟨l, by simp, rfl, hkind, rfl, rfl⟩
      · exact hold hat
    · exact hold hat
  · intro x kind hx hkind
    rw [at_addToPlans]
    rcases mem_append.mp hx with hx | hx
    · -- a listener from before, whose place may be taken by one of higher rank
      obtain ⟨held, hheld, hrank⟩ := h.rank hx hkind
      split
      · next new hnew =>
        split_ifs with hreplaces
        · refine ⟨_, rfl, hrank.trans ?_⟩
          have := hreplaces.2.2
          simp only [hheld, TlsPlan.replaces, all_some, decide_eq_true_eq] at this
          exact this.le
        · exact ⟨held, hheld, hrank⟩
      · exact ⟨held, hheld, hrank⟩
    · obtain rfl := mem_singleton.mp hx
      simp only [hkind, true_and]
      split_ifs with hreplaces
      · exact ⟨_, rfl, le_rfl⟩
      · cases hheld : plans.at x.port (nameKind (nameOf x.hostname)) with
        | none => simp [hheld, TlsPlan.replaces] at hreplaces
        | some held =>
          refine ⟨held, rfl, ?_⟩
          simpa [hheld, TlsPlan.replaces] using hreplaces

theorem Plans.Holds.foldl {done : List ListenerConfig} (h : plans.Holds built done)
    (listeners : List ListenerConfig) :
    (listeners.foldl (addToPlans built) plans).Holds built (done ++ listeners) := by
  induction listeners generalizing done plans with
  | nil => simpa using h
  | cons l listeners ih => simpa using ih (h.add l)

theorem planPorts_holds (env : CertEnv P C) (http2 : Bool) (listeners : List ListenerConfig)
    (built : BuiltConfigs C) :
    (planPorts env http2 listeners built).plans.Holds (planPorts env http2 listeners built).built
      listeners := by
  have hempty : Plans.Holds (planPorts env http2 listeners built).built [] fun _ => none :=
    ⟨fun h => by simp [Plans.at] at h, fun hl => by simp at hl⟩
  have hat (port : UInt16) (k : HostKind) : (planPorts env http2 listeners built).plans.at port k =
      Plans.at (listeners.foldl (addToPlans (planPorts env http2 listeners built).built)
        fun _ => none) port k := by
    have hsame (plan : TlsPlan C) (t : Option (ServerConfig C)) :
        ({ plan with terminate := t } : TlsPlan C).at k = plan.at k := by cases k <;> rfl
    simp only [Plans.at, planPorts]
    cases listeners.foldl (addToPlans _) (fun _ => none) port with
    | none => rfl
    | some plan => cases plan <;> simp [hsame]
  have hrun := hempty.foldl listeners
  exact ⟨fun h => hrun.mem (hat _ _ ▸ h),
    fun hl hkind => by simpa only [hat] using hrun.rank hl hkind⟩

theorem planPorts_terminate {http2 : Bool} {port : UInt16} {plan : TlsPlan C}
    (h : (planPorts env http2 listeners built).plans port = some (some plan)) :
    plan.terminate = ((planPorts env http2 listeners built).built port).map BuiltConfig.config := by
  simp only [planPorts, map_eq_some_iff] at h
  obtain ⟨_, -, _, -, rfl⟩ := h
  rfl

/-- A port with a listener that takes part in plans has one. -/
theorem planPorts_isSome {http2 : Bool} {kind : Option TlsKind} (hl : l ∈ listeners)
    (hkind : planKind (planPorts env http2 listeners built).built l = some kind) :
    ((planPorts env http2 listeners built).plans l.port).isSome := by
  have hstep (b : BuiltConfigs C) (plans : Plans C) (x : ListenerConfig)
      (h : (plans l.port).isSome ∨ x = l ∧ planKind b l = some kind) :
      (addToPlans b plans x l.port).isSome := by
    unfold addToPlans
    rcases h with h | ⟨rfl, h⟩
    · cases planKind b x with
      | none => exact h
      | some k => by_cases hport : l.port = x.port <;> simp [hport, h]
    · simp [h]
  have hrun (b : BuiltConfigs C) (hb : planKind b l = some kind)
      (ls : List ListenerConfig) (plans : Plans C) (h : (plans l.port).isSome ∨ l ∈ ls) :
      (ls.foldl (addToPlans b) plans l.port).isSome := by
    induction ls generalizing plans with
    | nil => simpa using h
    | cons x ls ih =>
      refine ih _ ?_
      rcases h with h | h
      · exact .inl (hstep b plans x (.inl h))
      · rcases mem_cons.mp h with rfl | h
        · exact .inl (hstep b plans _ (.inr ⟨rfl, hb⟩))
        · exact .inr h
  simpa [planPorts] using hrun _ hkind listeners (fun _ => none) (.inr hl)

end
end Portail.Proxy
