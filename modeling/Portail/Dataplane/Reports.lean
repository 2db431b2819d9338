import Portail.Dataplane.SyncLoop

/-!
# What the sync loop reports

The applier reports under the version of the snapshot it applied (`dataplane/apply.rs`). Five
handlers of the loop each change some of the version had, the report, the refusal and the
snapshot served; `Consistent` is the relation all of them keep.
-/

namespace Portail.Sync

open Lib Http Config

variable {D J L I : Type}

section

/-- What an apply found: the listeners' outcomes, the error of the table's build and the
addresses of the pod. -/
structure Found (L I : Type) where
  listeners : List L
  buildError : Option Message
  interfaces : I
  dnsEpoch : ℕ

/-- The report of `Applier::apply`. -/
def applierReport (snapshot : Snapshot D) (found : Found L I) : InstanceReport L I where
  applied := snapshot.version
  applyError := found.buildError
  listeners := found.listeners
  interfaces := found.interfaces
  dnsEpoch := found.dnsEpoch
  leaving := false

/-- The report of an instance that has applied nothing. -/
def defaultReport (found : Found L I) : InstanceReport L I :=
  ⟨Str.lit "", none, [], found.interfaces, found.dnsEpoch, false⟩

def lastApplied (effects : List (Effect D)) : Option (Snapshot D) :=
  match effects.getLast? with
  | some (.apply snapshot) => some snapshot
  | _ => none

/-- The snapshot an answer to the poll carries. -/
def World.taken (env : SyncEnv D J) (w : World D L I) (outcome : Outcome) (now : ℕ) :
    Option (Snapshot D) :=
  w.poll.bind fun poll => poll.nonce.bind fun nonce =>
    match exchange env w.loop.gateway poll.request nonce now outcome with
    | .snapshot body => (decodeSnapshot env body).toOption
    | _ => none

/-- What happens to the loop, with what the applier finds when it applies. -/
inductive Move (L I : Type)
  | begin
  | send (random : Bytes)
  | answer (outcome : Outcome) (now : ℕ) (found : Found L I)
  | reapply (found : Found L I)
  | dns (epoch : ℕ)

def Move.event (env : SyncEnv D J) (w : World D L I) : Move L I → Event L I
  | .begin => .begin
  | .send random => .send random
  | .answer outcome now found =>
    .answer outcome now (((w.taken env outcome now).map (applierReport · found)).getD
      (defaultReport found)) (defaultReport found)
  | .reapply found =>
    .reapply ((w.loop.current.map (applierReport · found)).getD (defaultReport found))
  | .dns epoch => .dns epoch

variable [DecidableEq L] [DecidableEq I]

def World.move (env : SyncEnv D J) (w : World D L I) (m : Move L I) : World D L I :=
  w.step env (m.event env w)

def moves (env : SyncEnv D J) (gateway : GatewayKey) (ms : List (Move L I)) : World D L I :=
  ms.foldl (World.move env) ⟨.new gateway, none⟩

end

section

/-- The version had, the report, the refusal and the snapshot served belong together. -/
structure Consistent (s : SyncLoop D L I) : Prop where
  applied : ∀ report, s.report = some report → report.applied = s.haveVersion
  refused : ∀ version error, s.refused = some (version, error) →
    s.haveVersion = version ∧ ∃ report, s.report = some report ∧ report.listeners = [] ∧
      report.applyError = some error
  served : s.current = lastApplied s.effects
  version : ∀ snapshot, s.refused = none → s.current = some snapshot →
    s.haveVersion = snapshot.version
  fresh : s.refused = none → s.current = none → s.haveVersion = Str.lit ""

variable {s : SyncLoop D L I} {applied report : InstanceReport L I}

theorem lastApplied_apply (effects : List (Effect D)) (snapshot : Snapshot D) :
    lastApplied (effects ++ [.apply snapshot]) = some snapshot := by
  simp [lastApplied]

theorem Consistent.new (gateway : GatewayKey) : Consistent (.new gateway : SyncLoop D L I) where
  applied _ h := by cases h
  refused _ _ h := by cases h
  served := rfl
  version _ _ h := by cases h
  fresh _ _ := rfl

theorem Consistent.answered (h : Consistent s) (current : Bool) :
    Consistent (s.answered current) := ⟨h.applied, h.refused, h.served, h.version, h.fresh⟩

theorem Consistent.failed (h : Consistent s) : Consistent s.failed :=
  ⟨h.applied, h.refused, h.served, h.version, h.fresh⟩

theorem serve_consistent (s : SyncLoop D L I) {snapshot : Snapshot D}
    (hreport : report.applied = snapshot.version) : Consistent (s.serve snapshot report) where
  applied _ h := by
    cases h
    exact hreport
  refused _ _ h := by cases h
  served := (lastApplied_apply s.effects snapshot).symm
  version _ _ h := by
    cases h
    rfl
  fresh _ h := by cases h

theorem Consistent.refuse (h : Consistent s) (version : Str) (error : Message)
    (blank : InstanceReport L I) : Consistent (s.refuse version error blank) where
  applied _ hreport := by
    cases hreport
    rfl
  refused _ _ hrefused := by
    obtain ⟨rfl, rfl⟩ := Prod.mk.inj (Option.some.inj hrefused)
    exact ⟨rfl, _, rfl, rfl, rfl⟩
  served := h.served
  version _ hnone := by cases hnone
  fresh hnone := by cases hnone

theorem Consistent.gone (h : Consistent s) : Consistent s.gone where
  applied _ hreport := by cases hreport
  refused _ _ hrefused := by cases hrefused
  served := by
    simp only [SyncLoop.gone]
    cases hcurrent : s.current with
    | none => rw [if_neg (by simp), ← h.served, hcurrent]
    | some snapshot => simp [lastApplied]
  version _ _ hcurrent := by cases hcurrent
  fresh _ _ := rfl

/-- An answer keeps the loop consistent when the applier reports the version it applied. -/
theorem Consistent.handle {env : SyncEnv D J} (h : Consistent s) {answer : Answer}
    (happlied : ∀ body snapshot, answer = .snapshot body → decodeSnapshot env body = .ok snapshot →
      applied.applied = snapshot.version) (blank : InstanceReport L I) :
    Consistent (s.handle env answer applied blank) := by
  cases answer with
  | snapshot body =>
    simp only [SyncLoop.handle]
    split
    · next snapshot hdecode =>
      split_ifs
      · exact serve_consistent _ (happlied body snapshot rfl hdecode)
      · exact (h.answered false).refuse ..
    · exact (h.answered false).refuse ..
    · exact h.failed
  | unchanged => exact h.answered _
  | pending | left => exact h.answered false
  | gone => exact (h.answered true).gone
  | standby | retry after => exact h.failed
  | unverified error => exact ⟨h.applied, h.refused, h.served, h.version, h.fresh⟩

theorem Consistent.dnsMoved (h : Consistent s) (epoch : ℕ) : Consistent (s.dnsMoved epoch).1 := by
  unfold SyncLoop.dnsMoved
  cases hreport : s.report with
  | none => exact h
  | some report =>
    simp only
    split_ifs
    · refine ⟨fun sent hsent => ?_, fun version error hrefused => ?_, h.served, h.version, h.fresh⟩
      · cases hsent
        exact h.applied report hreport
      · obtain ⟨hhave, sent, hsent, hlisteners, herror⟩ := h.refused version error hrefused
        obtain rfl := Option.some.inj (hreport.symm.trans hsent)
        exact ⟨hhave, _, rfl, hlisteners, herror⟩
    · exact h

/-- The report of the poll in flight names the version it sends as had. -/
def SentConsistent (w : World D L I) : Prop :=
  ∀ p, w.poll = some p → ∀ report, p.request.report = some report →
    report.applied = p.request.haveVersion

theorem request_applied (h : Consistent s)
    (hreport : s.request.report = some report) : report.applied = s.request.haveVersion := by
  obtain ⟨own, hown, rfl⟩ := Option.map_eq_some_iff.mp hreport
  cases s.unverified <;> exact h.applied own hown

theorem sent_local {w : World D L I} (h : SentConsistent w) (moved : SyncLoop D L I × Bool) :
    SentConsistent (w.local moved) := by
  intro p hp
  unfold World.local at hp
  split_ifs at hp
  exact h p hp

variable [DecidableEq L] [DecidableEq I]

theorem Consistent.reapply (h : Consistent s)
    (happlied : ∀ snapshot, s.current = some snapshot → applied.applied = snapshot.version) :
    Consistent (s.reapply applied).1 := by
  cases hcurrent : s.current with
  | none =>
    rw [show (s.reapply applied).1 = s by simp only [SyncLoop.reapply, hcurrent]]
    exact h
  | some snapshot =>
    simp only [SyncLoop.reapply, hcurrent]
    refine ⟨fun report hreport => ?_, fun version error hrefused => ?_,
      (lastApplied_apply s.effects snapshot).symm, ?_, fun _ h => by cases h⟩
    · cases hreport
      unfold SyncLoop.asReported
      cases hrefused : s.refused with
      | none =>
        exact (happlied snapshot hcurrent).trans (h.version snapshot hrefused hcurrent).symm
      | some refusal => exact (h.refused refusal.1 refusal.2 hrefused).1.symm
    · have hrefused : s.refused = some (version, error) := hrefused
      refine ⟨(h.refused version error hrefused).1, s.asReported applied, rfl, ?_⟩
      simp [SyncLoop.asReported, hrefused]
    · exact fun other hrefused hother => h.version other hrefused (hcurrent.trans hother)

end

section

variable {env : SyncEnv D J} {w : World D L I}

variable [DecidableEq L] [DecidableEq I]

theorem move_consistent (h : Consistent w.loop) (hsent : SentConsistent w) (m : Move L I) :
    Consistent (w.move env m).loop ∧ SentConsistent (w.move env m) := by
  cases m with
  | begin =>
    cases hpoll : w.poll with
    | some p => simpa only [World.move, Move.event, World.step, hpoll] using ⟨h, hsent⟩
    | none =>
      simp only [World.move, Move.event, World.step, hpoll]
      refine ⟨h, fun p hp report => ?_⟩
      cases hp
      exact request_applied h
  | send random =>
    simp only [World.move, Move.event, World.step]
    split
    · next request hpoll =>
      refine ⟨h, fun p hp report => ?_⟩
      cases hp
      exact hsent _ hpoll report
    · exact ⟨h, hsent⟩
  | answer outcome now found =>
    simp only [World.move, Move.event, World.step]
    split
    · next request nonce hpoll =>
      refine ⟨h.handle (fun body snapshot hanswer hdecode => ?_) _, fun p hp => by cases hp⟩
      simp only [World.taken, hpoll, Option.bind_some, hanswer, hdecode]
      rfl
    · exact ⟨h, hsent⟩
  | reapply found =>
    refine ⟨h.reapply fun snapshot hcurrent => ?_, sent_local hsent _⟩
    rw [hcurrent]
    rfl
  | dns epoch => exact ⟨h.dnsMoved epoch, sent_local hsent _⟩

variable (env) in
theorem moves_consistent (gateway : GatewayKey) (ms : List (Move L I)) :
    Consistent (moves env gateway ms).loop ∧ SentConsistent (moves env gateway ms) := by
  induction ms using List.reverseRecOn with
  | nil => exact ⟨.new gateway, fun _ h => by cases h⟩
  | append_singleton ms m ih =>
    rw [moves, List.foldl_append]
    exact move_consistent ih.1 ih.2 m

/-- Along every run of the sync loop, the version had, the reports, the refusal and the snapshot
served belong together. -/
theorem reports_name_version (env : SyncEnv D J) (gateway : GatewayKey) (ms : List (Move L I)) :
    (∀ report, (moves env gateway ms).loop.report = some report →
      report.applied = (moves env gateway ms).loop.haveVersion) ∧
    (∀ p, (moves env gateway ms).poll = some p → ∀ report, p.request.report = some report →
      report.applied = p.request.haveVersion) ∧
    (∀ version error, (moves env gateway ms).loop.refused = some (version, error) →
      (moves env gateway ms).loop.haveVersion = version ∧
      (∃ report, (moves env gateway ms).loop.report = some report ∧ report.listeners = [] ∧
        report.applyError = some error) ∧
      (moves env gateway ms).loop.current = lastApplied (moves env gateway ms).loop.effects) ∧
    (∀ snapshot, (moves env gateway ms).loop.refused = none →
      (moves env gateway ms).loop.current = some snapshot →
        (moves env gateway ms).loop.haveVersion = snapshot.version) ∧
    ((moves env gateway ms).loop.refused = none → (moves env gateway ms).loop.current = none →
      (moves env gateway ms).loop.haveVersion = Str.lit "") := by
  obtain ⟨h, hsent⟩ := moves_consistent env gateway ms
  refine ⟨h.applied, hsent, fun version error hrefused => ?_, h.version, h.fresh⟩
  obtain ⟨hhave, hreport⟩ := h.refused version error hrefused
  exact ⟨hhave, hreport, h.served⟩

end
end Portail.Sync
