import Portail.Controller.Programmed

/-!
# What Programmed rests on

A Programmed that is True was earned by the reports this pass, or it is the one written
before, which stands for a while when no live instance is at the served version.
-/

namespace Portail.Controller

open Lib Config Routing Sync List Option

section

variable {i : Inputs} {service : Option ServiceView} {atVersion : List Report} {name : Str}
  {state : Bool × Map Str ListenerStatus} {unusable : Bool} {fromService : Option Addresses}
  {c : GatewayCondition}

theorem endpointError_none (h : endpointError atVersion name = none) :
    ∀ r ∈ atVersion, ∀ l ∈ r.listeners, l.name = name → ∀ e ∈ l.endpoints, e.error = none := by
  intro r hr l hl hname e he
  apply findSome?_eq_none_iff.mp h
  apply mem_flatMap.mpr
  refine ⟨l, mem_flatMap.mpr ⟨r, hr, ?_⟩, he⟩
  exact mem_filter.mpr ⟨hl, by simpa using hname⟩

/-- Some instance has the listener bound, and none has an error for an endpoint of it. -/
structure Ready (atVersion : List Report) (name : Str) : Prop where
  bound : ∃ r ∈ atVersion, bound r name = true
  clean : ∀ r ∈ atVersion, ∀ l ∈ r.listeners, l.name = name → ∀ e ∈ l.endpoints, e.error = none

theorem ready_of_notBound (h : notBound atVersion unusable name = none) : Ready atVersion name := by
  unfold notBound at h
  cases herror : endpointError atVersion name with
  | some err => simp [herror] at h
  | none =>
    simp only [herror] at h
    by_cases hany : atVersion.any fun r => bound r name
    · exact ⟨any_eq_true.mp hany, endpointError_none herror⟩
    · rw [if_neg hany] at h
      split_ifs at h

theorem checkListener_true (h : (checkListener atVersion unusable state name).1 = true) :
    state.1 = true ∧ Ready atVersion name := by
  unfold checkListener at h
  cases hnot : notBound atVersion unusable name with
  | none =>
    rw [hnot] at h
    exact ⟨h, ready_of_notBound hnot⟩
  | some message => simp [hnot] at h

theorem checkListeners_true {names : List Str}
    (h : (names.foldl (checkListener atVersion unusable) state).1 = true) :
    state.1 = true ∧ ∀ name ∈ names, Ready atVersion name := by
  induction names generalizing state with
  | nil => exact ⟨h, fun _ hn => absurd hn not_mem_nil⟩
  | cons name names ih =>
    obtain ⟨hstate, hrest⟩ := ih h
    obtain ⟨hfirst, hready⟩ := checkListener_true hstate
    exact ⟨hfirst, forall_mem_cons.mpr ⟨hready, hrest⟩⟩

/-- What the instances at the served version show. -/
structure Serving (i : Inputs) (served : Snapshot Translation) : Prop where
  live : i.atVersion served.version ≠ []
  applied : ∀ r ∈ i.atVersion served.version, r.applyError = none
  counts : i.counted served.data.config ≠ [] ∨ i.gateway.listeners = []
  ready : ∀ name ∈ i.counted served.data.config, Ready (i.atVersion served.version) name

theorem evaluateSome_ok {config : GatewayConfig} {first : Report} {rest : List Report}
    (h : (evaluateSome i config first rest fromService).verdict = .fresh c) (hok : c.ok = true) :
    c = .programmed ∧ (∀ r ∈ first :: rest, r.applyError = none) ∧
      (i.counted config ≠ [] ∨ i.gateway.listeners = []) ∧
      ∀ name ∈ i.counted config, Ready (first :: rest) name := by
  unfold evaluateSome at h
  obtain rfl := Verdict.fresh.inj h
  cases happly : (first :: rest).findSome? InstanceReport.applyError with
  | some e => simp [happly, GatewayCondition.invalid] at hok
  | none =>
    simp only [happly] at hok ⊢
    by_cases hcount : ((i.counted config).isEmpty && !i.gateway.listeners.isEmpty) = true
    · simp [hcount, GatewayCondition.invalid] at hok
    · rw [if_neg hcount] at hok ⊢
      split_ifs at hok ⊢ with hunusable hbound
      · refine ⟨rfl, findSome?_eq_none_iff.mp happly, ?_, (checkListeners_true hbound).2⟩
        by_cases hlisteners : i.gateway.listeners = []
        · exact .inr hlisteners
        · left
          intro hnone
          simp [hnone, hlisteners] at hcount
      · cases hok

theorem evaluateNone_verdict {generation : ℤ} :
    (∃ message, (evaluateNone i generation fromService).verdict = .fresh (pending message)) ∨
      ∃ lapse message, (evaluateNone i generation fromService).verdict =
        .kept lapse (pending message) ∧ keepUntil i = some lapse ∧ i.now < lapse := by
  unfold evaluateNone
  cases hkeep : (keepUntil i).filter fun lapse => i.now < lapse with
  | none => exact .inl ⟨_, rfl⟩
  | some lapse =>
    obtain ⟨huntil, hnow⟩ := filter_eq_some_iff.mp hkeep
    exact .inr ⟨lapse, _, rfl, huntil, by simpa using hnow⟩

/-- A True of the reports has the instances at the served version to show for it. -/
theorem evaluate_ok (h : (evaluate i service).verdict = .fresh c) (hok : c.ok = true) :
    c = .programmed ∧ ∃ served, i.served = some served ∧ Serving i served := by
  unfold evaluate at h
  cases hserved : i.served with simp only [hserved] at h
  | none =>
    obtain rfl := Verdict.fresh.inj h
    cases hok
  | some served =>
    cases hat : i.atVersion served.version with simp only [hat] at h
    | nil =>
      rcases evaluateNone_verdict (i := i) with ⟨message, hv⟩ | ⟨lapse, message, hv, -⟩
      · rw [hv] at h
        obtain rfl := Verdict.fresh.inj h
        cases hok
      · rw [hv] at h
        cases h
    | cons first rest =>
      obtain ⟨rfl, happlied, hcounts, hready⟩ := evaluateSome_ok h hok
      refine ⟨rfl, served, rfl, ?_⟩
      exact ⟨by simp [hat], hat ▸ happlied, hcounts, hat ▸ hready⟩

/-- The written Programmed stands only while no live instance is at the served version. -/
theorem evaluate_kept {lapse : ℕ} {otherwise : GatewayCondition}
    (h : (evaluate i service).verdict = .kept lapse otherwise) :
    otherwise.ok = false ∧ keepUntil i = some lapse ∧ i.now < lapse ∧
      ∃ served, i.served = some served ∧ i.atVersion served.version = [] := by
  unfold evaluate at h
  cases hserved : i.served with simp only [hserved] at h
  | none => cases h
  | some served =>
    cases hat : i.atVersion served.version with simp only [hat] at h
    | nil =>
      rcases evaluateNone_verdict (i := i) with ⟨message, hv⟩ | ⟨lapse', message, hv, huntil, hnow⟩
      · rw [hv] at h
        cases h
      · rw [hv] at h
        obtain ⟨rfl, rfl⟩ := Verdict.kept.inj h
        exact ⟨rfl, huntil, hnow, served, rfl, hat⟩
    | cons first rest => cases h

/-- The spec and the Service stand against no verdict that is let through. -/
structure Clear (i : Inputs) (service : Option ServiceView) : Prop where
  accepted : i.accepted.ok = true
  noProblem : i.problem = none
  assigned : ∀ s ∈ service, s.unassigned i.gateway = none

theorem overrule_cases (verdict : Verdict) :
    (∃ c, c.ok = false ∧ overrule i service verdict = .fresh c) ∨
      Clear i service ∧ overrule i service verdict = verdict := by
  unfold overrule
  cases hproblem : i.problem with
  | some problem => exact .inl ⟨_, rfl, rfl⟩
  | none =>
    by_cases haccepted : i.accepted.ok = true
    · rw [if_neg (by simp [haccepted])]
      cases hservice : service.bind fun s => s.unassigned i.gateway with
      | some message => exact .inl ⟨_, rfl, rfl⟩
      | none =>
        refine .inr ⟨⟨haccepted, hproblem, ?_⟩, rfl⟩
        intro s hs
        rw [mem_def.mp hs] at hservice
        exact hservice
    · rw [if_pos (by simpa using haccepted)]
      exact .inl ⟨_, rfl, rfl⟩

theorem unassigned_none {s : ServiceView} {gateway : Gateway} (h : s.unassigned gateway = none) :
    (s.loadBalancer = true → s.addresses ≠ []) ∧ s.missing gateway = [] := by
  unfold ServiceView.unassigned at h
  by_cases hbalancer : (s.loadBalancer && s.addresses.isEmpty) = true
  · rw [if_pos hbalancer] at h
    cases h
  · rw [if_neg hbalancer] at h
    simp only at h
    split_ifs at h with hmissing
    refine ⟨?_, isEmpty_iff.mp hmissing⟩
    intro hload hnone
    simp [hload, hnone] at hbalancer

end

section

variable {i : Inputs}

/-- What a Programmed earned this pass rests on. -/
structure Evidence (i : Inputs) : Prop where
  accepted : i.accepted.ok = true
  noProblem : i.problem = none
  service : ∀ svc ∈ i.service,
    ((ServiceView.of svc).loadBalancer = true → (ServiceView.of svc).addresses ≠ []) ∧
      (ServiceView.of svc).missing i.gateway = []
  serving : ∃ served, i.served = some served ∧ Serving i served

/-- The written Programmed stands until a lapse, at which the Gateway is looked at again. -/
structure Stands (i : Inputs) (kept : Condition) (recheck : Option ℕ) : Prop where
  written : ∃ c ∈ i.gateway.status.conditions, c.type = .lit "Programmed" ∧ c.toCondition = kept
  noneAtVersion : ∃ served, i.served = some served ∧ i.atVersion served.version = []
  lapse : ∃ lapse, keepUntil i = some lapse ∧ i.now < lapse ∧ recheck = some (lapse - i.now)

theorem lit_true_ne_false : Str.lit "True" ≠ Str.lit "False" := by decide

theorem condition_true {condType : String} {ok : Bool} {reason : Str} {message : Message}
    {generation : Option ℤ}
    (h : (condition condType ok reason message generation).status = .lit "True") : ok = true := by
  cases ok with
  | true => rfl
  | false => exact absurd h.symm lit_true_ne_false

theorem Clear.evidence (h : Clear i (i.service.map ServiceView.of))
    (hserving : ∃ served, i.served = some served ∧ Serving i served) : Evidence i := by
  refine ⟨h.accepted, h.noProblem, ?_, hserving⟩
  intro svc hsvc
  apply unassigned_none
  apply h.assigned
  rw [mem_def.mp hsvc]
  rfl

theorem programmedOf_true {verdict : Verdict}
    (h : (programmedOf i verdict).1.status = .lit "True") :
    (∃ c, verdict = .fresh c ∧ c.ok = true) ∨
      ∃ lapse otherwise, verdict = .kept lapse otherwise ∧
        (otherwise.ok = true ∨ ∃ c ∈ i.gateway.status.conditions, c.type = .lit "Programmed" ∧
          c.toCondition = (programmedOf i verdict).1 ∧
          (programmedOf i verdict).2 = some (lapse - i.now)) := by
  unfold programmedOf at h ⊢
  cases verdict with
  | fresh c => exact .inl ⟨c, rfl, condition_true h⟩
  | kept lapse otherwise =>
    refine .inr ⟨lapse, otherwise, rfl, ?_⟩
    cases hkept : observedCondition i.gateway.status.conditions "Programmed" with
    | none =>
      simp only [hkept] at h
      exact .inl (condition_true h)
    | some kept =>
      obtain ⟨c, hfind, hc⟩ := map_eq_some_iff.mp hkept
      have htype := find?_some hfind
      exact .inr ⟨c, mem_of_find?_eq_some hfind, by simpa using htype, hc, rfl⟩

/-- Programmed is True for what the reports show this pass, with the generation at hand, or it is
the written one, unchanged, for a while; a Gateway that was not published is not programmed. -/
theorem programmed_needs_evidence (i : Inputs) :
    (i.unpublished ≠ none → (decide i).programmed = false ∧
      (decide i).desired.programmed.status = .lit "False" ∧
      (decide i).desired.programmed.observedGeneration = i.gateway.metadata.generation) ∧
    ((decide i).desired.programmed.status = .lit "True" →
      (Evidence i ∧ (decide i).desired.programmed = condition "Programmed" true
        (.lit "Programmed") [.text "Programmed"] i.gateway.metadata.generation) ∨
      Stands i (decide i).desired.programmed (decide i).recheck) := by
  cases hunpublished : i.unpublished with
  | some why =>
    have hdecide : decide i = unpublished i why := by
      unfold decide
      rw [hunpublished]
    rw [hdecide]
    refine ⟨fun _ => ⟨rfl, rfl, rfl⟩, ?_⟩
    intro htrue
    exact absurd htrue.symm lit_true_ne_false
  | none =>
    refine ⟨fun h => absurd rfl h, ?_⟩
    obtain ⟨verdict, hverdict⟩ : ∃ verdict, verdict = overrule i (i.service.map ServiceView.of)
        (evaluate i (i.service.map ServiceView.of)).verdict := ⟨_, rfl⟩
    have hprogrammed : (decide i).desired.programmed = (programmedOf i verdict).1 := by
      unfold decide
      rw [hunpublished, hverdict]
    have hrecheck : (decide i).recheck = (programmedOf i verdict).2 := by
      unfold decide
      rw [hunpublished, hverdict]
    rw [hprogrammed, hrecheck]
    intro htrue
    rcases overrule_cases (evaluate i (i.service.map ServiceView.of)).verdict with
      ⟨c, hc, hover⟩ | ⟨hclear, hover⟩
    · rw [hverdict, hover] at htrue
      rw [condition_true htrue] at hc
      cases hc
    rcases programmedOf_true htrue with ⟨c, rfl, hok⟩ | ⟨lapse, otherwise, rfl, hkept⟩
    · obtain ⟨rfl, hserving⟩ := evaluate_ok (hover.symm.trans hverdict.symm) hok
      exact .inl ⟨hclear.evidence hserving, rfl⟩
    · obtain ⟨hotherwise, huntil, hnow, hnone⟩ := evaluate_kept (hover.symm.trans hverdict.symm)
      rcases hkept with hok | ⟨c, hc, htype, hsame, hlapse⟩
      · rw [hotherwise] at hok
        cases hok
      · exact .inr ⟨⟨c, hc, htype, hsame⟩, hnone, lapse, huntil, hnow, hlapse⟩

def headlessGateway : Gateway where
  metadata := ⟨some (.lit "gw"), some (.lit "default"), none, some 1, none⟩
  listeners := [⟨.lit "http", 8080, .http, none, none, none⟩]
  addresses := none
  status := ⟨[], [], []⟩

/-- One listener, as it is translated, bound on the one instance, behind a Service without a
cluster IP. -/
def headlessInputs : Inputs where
  gateway := headlessGateway
  accepted := ⟨true, .lit "Accepted", []⟩
  listeners := AList.singleton (.lit "http")
    { ListenerStatus.default with programmed := .programmed }
  attached := ∅
  problem := none
  unpublished := none
  served := some ⟨.lit "v1", ⟨.lit "default", .lit "gw"⟩, 1,
    Kubernetes.convertGateway headlessGateway.toGateway fun _ => none⟩
  reports := [(.lit "pod-0", ⟨.lit "v1", none, [⟨.lit "http", [⟨true, none⟩]⟩], ⟨[], ∅⟩, 0, false⟩)]
  older := none
  service := some ⟨some (.lit "gw"), some (.lit "default"), none,
    some ⟨some (.lit "ClusterIP"), some (.lit "None"), none, none⟩, []⟩
  publishedAt := some 0
  firstPublished := some 0
  leadingSince := some 0
  lastLeaving := none
  now := 5000

theorem headless_programmed :
    (headlessInputs.service.map fun svc => (ServiceView.of svc).addresses) = some [] ∧
      (decide headlessInputs).desired.programmed = condition "Programmed" true
        (.lit "Programmed") [.text "Programmed"] headlessInputs.gateway.metadata.generation := by
  decide +kernel

theorem programmed_needs_evidence_headless :
    (decide headlessInputs).desired.programmed.status = .lit "True" ∧
      ((Evidence headlessInputs ∧ (decide headlessInputs).desired.programmed =
        condition "Programmed" true (.lit "Programmed") [.text "Programmed"]
          headlessInputs.gateway.metadata.generation) ∨
      Stands headlessInputs (decide headlessInputs).desired.programmed
        (decide headlessInputs).recheck) :=
  have htrue : (decide headlessInputs).desired.programmed.status = .lit "True" := by
    decide +kernel
  ⟨htrue, (programmed_needs_evidence headlessInputs).2 htrue⟩

end
end Portail.Controller
