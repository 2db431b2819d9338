import Portail.Controller.Leader

/-!
# At most one leader

While a replica leads, the Lease is its own, written no earlier than its last successful
round began, and a leader stops within the renew deadline and one pause of that. A write
that would take the Lease from it was judged by a record that stood, unchanged, for the
lease's whole duration, which is longer.
-/

namespace Portail.Controller.Election

open Lib Option Function

section

variable {me : Identity} {s s' : Shared} {r : Replica}

/-- How long a leader may lead after its last successful round began. -/
def leadsFor : ℕ := renewDeadline + retryPeriod

theorem leadsFor_lt : leadsFor < leaseDuration := by decide

theorem deadlineOf_le (renewed : Option ℕ) (started : ℕ) :
    started ≤ deadlineOf renewed started ∧
      deadlineOf renewed started ≤ started + renewDeadline := by
  unfold deadlineOf
  cases renewed with
  | none => exact ⟨Nat.le_add_right _ _, le_rfl⟩
  | some at_ =>
    simp only
    omega

theorem deadlineOf_some {at_ started : ℕ} (h : started ≤ at_ + leadsFor) :
    deadlineOf (some at_) started ≤ at_ + leadsFor := by
  unfold deadlineOf
  simp only [leadsFor, renewDeadline, retryPeriod] at h ⊢
  omega

/-- What is observed was written before it was seen to change. -/
def Shared.Seen (s : Shared) (observed : Option (LeaseSpec × ℕ)) : Prop :=
  ∀ record at_, observed = some (record, at_) → record.holder ≠ [] →
    ∃ b ≤ at_, s.born record = some b

/-- A record may be replaced: it is free, one's own, or no longer valid. -/
def Shared.Free (s : Shared) (me : Identity) (record : LeaseSpec) : Prop :=
  record.holder = [] ∨ record.holder = me.val ∨ s.writtenAt + record.validFor ≤ s.now

/-- No write of the round is known to be stored. -/
abbrev Phase.Unanswered (phase : Phase) : Prop :=
  ∀ started wall deadline ticket record,
    phase ≠ .attempt started wall deadline (.putting ticket (some (.stored record)))

/-- A record read with a version, as it may still stand. -/
structure Read (s : Shared) (record : LeaseSpec) (version : ℕ) : Prop where
  lt : version < s.nextVersion
  same : ∀ record', s.lease = some (record', version) → record' = record
  born : record.holder ≠ [] → ∃ b ≤ s.now, s.born record = some b

/-- A write that takes or renews the Lease: it meets its version only where no other holds it. -/
structure Takes (me : Identity) (s : Shared) (write : Write) : Prop where
  version : ∀ version ∈ write.expect, version < s.nextVersion
  holder : write.record.holder = me.val
  validFor : write.record.validFor = leaseDuration
  unborn : s.born write.record = none
  sent : write.record ∈ s.sent
  judged : ∀ record version, write.expect = some version → s.lease = some (record, version) →
    s.Free me record

/-- A write that gives the Lease up: it meets its version only where that is its own. -/
structure Gives (me : Identity) (s : Shared) (r : Replica) (write : Write) : Prop where
  version : ∀ version ∈ write.expect, version < s.nextVersion
  holder : write.record.holder = []
  role : r.role ≠ .leading
  stopped : r.phase = .stopped
  own : ∀ record version, write.expect = some version → s.lease = some (record, version) →
    record.holder = me.val

def RoundInv (me : Identity) (s : Shared) : Round → Prop
  | .getting found => ∀ record version, found = some (some (record, version)) →
    Read s record version
  | .putting _ answer => ∀ record, answer = some (.stored record) →
    record.holder = me.val ∧ ∃ b ≤ s.now, s.born record = some b

/-- What holds in each phase, `renewed` being when the last successful round began. -/
def PhaseInv (me : Identity) (s : Shared) (role : Role) (renewed : Option ℕ) : Phase → Prop
  | .attempt started _ deadline round =>
    (started ≤ s.now ∧ s.now ≤ deadline ∧ deadline ≤ started + renewDeadline) ∧
      (∀ at_ ∈ renewed, at_ ≤ s.now ∧ deadline ≤ at_ + leadsFor) ∧ RoundInv me s round
  | .sleeping wake => s.now ≤ wake ∧ ∀ at_ ∈ renewed, at_ ≤ s.now ∧ wake ≤ at_ + leadsFor
  | .releasing found => role ≠ .leading ∧
    ∀ record version, found = some (some (record, version)) → Read s record version
  | .stopped => role ≠ .leading

structure ReplicaInv (me : Identity) (s : Shared) (r : Replica) : Prop where
  observed : s.Seen r.observed
  inFlight : ∀ ticket write, r.inFlight ticket = some write → Takes me s write ∨ Gives me s r write
  renewed : r.role = .leading → r.renewed ≠ none
  phase : PhaseInv me s r.role r.renewed r.phase

/-- The Lease is a replica's own, and was written after a time. -/
structure Holds (me : Identity) (s : Shared) (since : ℕ) : Prop where
  lease : ∃ record version, s.lease = some (record, version) ∧ record.holder = me.val ∧
    record.validFor = leaseDuration
  writtenAt : since ≤ s.writtenAt

/-- A replica leads, or will once the answer of its round is in; the round began then. -/
def Claims (r : Replica) (since : ℕ) : Prop :=
  (r.role = .leading ∧ r.renewed = some since) ∨ ∃ wall deadline ticket record,
    r.phase = .attempt since wall deadline (.putting ticket (some (.stored record)))

variable {since ticket : ℕ} {record : LeaseSpec} {role : Role} {renewed : Option ℕ} {write : Write}
  {observed : Option (LeaseSpec × ℕ)}

/-- A claim lapses before the Lease does. -/
theorem ReplicaInv.claims (h : ReplicaInv me s r) (hclaim : Claims r since) :
    since ≤ s.now ∧ s.now ≤ since + leadsFor := by
  have hphase := h.phase
  rcases hclaim with ⟨hrole, hrenewed⟩ | ⟨wall, deadline, ticket, record, hr⟩
  · rw [hrole, hrenewed] at hphase
    cases hr : r.phase with rw [hr] at hphase
    | attempt started wall deadline round =>
      obtain ⟨⟨-, hdeadline, -⟩, hrenewed, -⟩ := hphase
      obtain ⟨hsince, hle⟩ := hrenewed since rfl
      exact ⟨hsince, hdeadline.trans hle⟩
    | sleeping wake =>
      obtain ⟨hsince, hle⟩ := hphase.2 since rfl
      exact ⟨hsince, hphase.1.trans hle⟩
    | releasing found => exact absurd rfl hphase.1
    | stopped => exact absurd rfl hphase
  · rw [hr] at hphase
    obtain ⟨⟨hstarted, hdeadline, hle⟩, -, -⟩ := hphase
    refine ⟨hstarted, ?_⟩
    simp only [leadsFor]
    omega

/-- What time and others do to the Lease between two steps of a replica. -/
structure Later (s s' : Shared) : Prop where
  now : s.now ≤ s'.now
  born : ∀ record b, s.born record = some b → s'.born record = some b
  next : s.nextVersion ≤ s'.nextVersion
  lease : (s'.lease = s.lease ∧ s'.writtenAt = s.writtenAt) ∨
    ∃ record, s'.lease = some (record, s.nextVersion)
  sent : s.sent ⊆ s'.sent

/-- A version read before is the Lease's only while nothing was written. -/
theorem Later.version (hlater : Later s s') {version : ℕ} (hversion : version < s.nextVersion)
    (hlease : s'.lease = some (record, version)) :
    s.lease = some (record, version) ∧ s'.writtenAt = s.writtenAt := by
  rcases hlater.lease with ⟨hsame, hwritten⟩ | ⟨record', hnew⟩
  · exact ⟨hsame ▸ hlease, hwritten⟩
  · rw [hnew] at hlease
    obtain ⟨-, rfl⟩ := Prod.mk.inj (some.inj hlease)
    exact absurd hversion (lt_irrefl _)

theorem Read.later (hlater : Later s s') {version : ℕ} (h : Read s record version) :
    Read s' record version := by
  refine ⟨h.lt.trans_le hlater.next, ?_, ?_⟩
  · intro record' hlease
    exact h.same record' (hlater.version h.lt hlease).1
  · intro hholder
    obtain ⟨b, hb, hborn⟩ := h.born hholder
    exact ⟨b, hb.trans hlater.now, hlater.born record b hborn⟩

theorem RoundInv.later (hlater : Later s s') {round : Round} (h : RoundInv me s round) :
    RoundInv me s' round := by
  cases round with
  | getting found => exact fun record version hfound => (h record version hfound).later hlater
  | putting ticket answer =>
    intro record hanswer
    obtain ⟨hholder, b, hb, hborn⟩ := h record hanswer
    exact ⟨hholder, b, hb.trans hlater.now, hlater.born record b hborn⟩

theorem PhaseInv.due {phase : Phase} (h : PhaseInv me s role renewed phase) :
    ∀ due ∈ phase.due, s.now ≤ due := by
  intro due hdue
  cases phase with
  | attempt started wall deadline round => exact some.inj hdue ▸ h.1.2.1
  | sleeping wake => exact some.inj hdue ▸ h.1
  | releasing found | stopped => cases hdue

/-- Time goes no further than to what is due. -/
theorem PhaseInv.later (hlater : Later s s') {phase : Phase} (h : PhaseInv me s role renewed phase)
    (hdue : ∀ due ∈ phase.due, s'.now ≤ due) : PhaseInv me s' role renewed phase := by
  have hpast {lapse : ℕ} (h : ∀ at_ ∈ renewed, at_ ≤ s.now ∧ lapse ≤ at_ + leadsFor) :
      ∀ at_ ∈ renewed, at_ ≤ s'.now ∧ lapse ≤ at_ + leadsFor :=
    fun at_ hat => ⟨(h at_ hat).1.trans hlater.now, (h at_ hat).2⟩
  cases phase with
  | attempt started wall deadline round =>
    obtain ⟨⟨hstarted, -, hdeadline⟩, hrenewed, hround⟩ := h
    exact ⟨⟨hstarted.trans hlater.now, hdue deadline rfl, hdeadline⟩, hpast hrenewed,
      hround.later hlater⟩
  | sleeping wake => exact ⟨hdue wake rfl, hpast h.2⟩
  | releasing found =>
    exact ⟨h.1, fun record version hfound => (h.2 record version hfound).later hlater⟩
  | stopped => exact h

/-- A write on its way stands whatever is written, but for its own record. -/
theorem Takes.later (hlater : Later s s') (h : Takes me s write)
    (hunborn : s'.born write.record = none) : Takes me s' write := by
  refine ⟨fun version hversion => (h.version version hversion).trans_le hlater.next, h.holder,
    h.validFor, hunborn, hlater.sent h.sent, ?_⟩
  intro record version hexpect hlease
  obtain ⟨hlease, hwritten⟩ := hlater.version (h.version version hexpect) hlease
  refine (h.judged record version hexpect hlease).imp_right (Or.imp_right fun hold => ?_)
  rw [hwritten]
  exact hold.trans hlater.now

theorem Gives.later (hlater : Later s s') (h : Gives me s r write) : Gives me s' r write := by
  refine ⟨fun version hversion => (h.version version hversion).trans_le hlater.next, h.holder,
    h.role, h.stopped, ?_⟩
  intro record version hexpect hlease
  exact h.own record version hexpect (hlater.version (h.version version hexpect) hlease).1

theorem ReplicaInv.later (hlater : Later s s') (h : ReplicaInv me s r)
    (hdue : ∀ due ∈ r.phase.due, s'.now ≤ due)
    (hunborn : ∀ ticket write, r.inFlight ticket = some write → write.record.holder ≠ [] →
      s'.born write.record = none) : ReplicaInv me s' r := by
  refine ⟨?_, ?_, h.renewed, h.phase.later hlater hdue⟩
  · intro record at_ hobserved hholder
    obtain ⟨b, hb, hborn⟩ := h.observed record at_ hobserved hholder
    exact ⟨b, hb, hlater.born record b hborn⟩
  · intro ticket write hwrite
    rcases h.inFlight ticket write hwrite with htakes | hgives
    · have hholder : write.record.holder ≠ [] := by
        rw [htakes.holder]
        exact me.property
      exact .inl (htakes.later hlater (hunborn ticket write hwrite hholder))
    · exact .inr (hgives.later hlater)

/-- A replica that has not stopped has no release on its way. -/
theorem ReplicaInv.takes (h : ReplicaInv me s r) (hphase : r.phase ≠ .stopped)
    (hwrite : r.inFlight ticket = some write) : Takes me s write := by
  rcases h.inFlight ticket write hwrite with htakes | hgives
  · exact htakes
  · exact absurd hgives.stopped hphase

theorem ReplicaInv.unborn (h : ReplicaInv me s r) (hwrite : r.inFlight ticket = some write)
    (hholder : write.record.holder ≠ []) : s.born write.record = none ∧ write.record ∈ s.sent := by
  rcases h.inFlight ticket write hwrite with htakes | hgives
  · exact ⟨htakes.unborn, htakes.sent⟩
  · exact absurd hgives.holder hholder

/-- A replica goes on, with the writes it has on their way. -/
theorem ReplicaInv.moveTo (h : ReplicaInv me s r) (hphase : r.phase ≠ .stopped) {phase : Phase}
    (hobserved : s.Seen observed) (hrenewed : role = .leading → renewed ≠ none)
    (hnext : PhaseInv me s role renewed phase) :
    ReplicaInv me s ⟨role, renewed, observed, phase, r.ticket, r.inFlight⟩ :=
  ⟨hobserved, fun _ _ hwrite => .inl (h.takes hphase hwrite), hrenewed, hnext⟩

theorem observe_fst {seen : LeaseSpec} {now at_ : ℕ}
    (h : observe observed record now = some (seen, at_)) : seen = record := by
  unfold observe at h
  split_ifs at h with hsame
  · rw [h] at hsame
    exact some.inj hsame
  · exact (Prod.mk.inj (some.inj h)).1.symm

theorem Shared.Seen.observe (hold : s.Seen observed)
    (hnew : record.holder ≠ [] → ∃ b ≤ s.now, s.born record = some b) :
    s.Seen (observe observed record s.now) := by
  unfold Election.observe
  split_ifs with hsame
  · exact hold
  · intro seen at_ h hholder
    obtain ⟨rfl, rfl⟩ := Prod.mk.inj (some.inj h)
    exact hnew hholder

theorem inFlight_of_update {inFlight : ℕ → Option Write} {t : ℕ} {other : Write}
    (h : Function.update inFlight ticket none t = some other) : inFlight t = some other := by
  rw [update_apply] at h
  split_ifs at h
  exact h

theorem ReplicaInv.lose (h : ReplicaInv me s r) (ticket : ℕ) :
    ReplicaInv me s { r with inFlight := Function.update r.inFlight ticket none } := by
  refine ⟨h.observed, fun t other hother => ?_, h.renewed, h.phase⟩
  refine (h.inFlight t other (inFlight_of_update hother)).imp_right fun hgives => ?_
  exact ⟨hgives.version, hgives.holder, hgives.role, hgives.stopped, hgives.own⟩

theorem PhaseInv.answer {phase : Phase} {answer : Stored} (h : PhaseInv me s role renewed phase)
    (hanswer : ∀ record, answer = .stored record → phase ≠ .stopped →
      record.holder = me.val ∧ ∃ b ≤ s.now, s.born record = some b) :
    PhaseInv me s role renewed (phase.answer ticket answer) := by
  rcases phase with ⟨started, wall, deadline, found | ⟨waited, _ | result⟩⟩ | wake | found | _
  · exact h
  · obtain ⟨htimes, hrenewed, -⟩ := h
    refine ⟨htimes, hrenewed, fun record hrecord => ?_⟩
    split_ifs at hrecord
    exact hanswer record (some.inj hrecord) nofun
  · exact h
  · exact h
  · exact h
  · exact h

theorem ReplicaInv.answer (h : ReplicaInv me s r) {answer : Stored}
    (hanswer : ∀ record, answer = .stored record → r.phase ≠ .stopped →
      record.holder = me.val ∧ ∃ b ≤ s.now, s.born record = some b) :
    ReplicaInv me s { r with phase := r.phase.answer ticket answer } := by
  refine ⟨h.observed, fun t other hother => ?_, h.renewed, h.phase.answer hanswer⟩
  refine (h.inFlight t other hother).imp_right fun hgives => ?_
  refine ⟨hgives.version, hgives.holder, hgives.role, ?_, hgives.own⟩
  rw [hgives.stopped]
  rfl

/-- What was on its way before, and the write that is sent. -/
theorem inFlight_of_send {phase : Phase} {t : ℕ} {other : Write}
    (h : (r.send write phase).inFlight t = some other) :
    t = r.ticket ∧ other = write ∨ r.inFlight t = some other := by
  simp only [Replica.send, update_apply] at h
  split_ifs at h with hticket
  · exact .inl ⟨hticket, (some.inj h).symm⟩
  · exact .inr h

theorem ReplicaInv.send (h : ReplicaInv me s r) (hrunning : r.phase ≠ .stopped) {phase : Phase}
    (hwrite : Takes me s write ∨ Gives me s (r.send write phase) write)
    (hphase : PhaseInv me s r.role r.renewed phase) : ReplicaInv me s (r.send write phase) := by
  refine ⟨h.observed, fun ticket other hother => ?_, h.renewed, hphase⟩
  rcases inFlight_of_send hother with ⟨-, rfl⟩ | hother
  · exact hwrite
  · exact .inl (h.takes hrunning hother)

/-- Whoever has no write stored claims only what it claimed. -/
theorem Claims.of_same {r' : Replica} (h : Claims r' since) (hrole : r'.role = r.role)
    (hrenewed : r'.renewed = r.renewed) (hphase : r'.phase.Unanswered) : Claims r since := by
  rcases h with ⟨hleads, hsince⟩ | ⟨wall, deadline, ticket, record, hstored⟩
  · exact .inl ⟨hrole ▸ hleads, hrenewed ▸ hsince⟩
  · exact absurd hstored (hphase _ _ _ _ _)

theorem Claims.not_leading (h : Claims r since) (hrole : r.role ≠ .leading)
    (hphase : r.phase.Unanswered) : False := by
  rcases h with ⟨hleads, -⟩ | ⟨wall, deadline, ticket, record, hstored⟩
  · exact hrole hleads
  · exact hphase _ _ _ _ _ hstored

theorem Claims.of_conflict (h : Claims (r.arrived ticket .conflict) since) : Claims r since := by
  rcases h with hleads | ⟨wall, deadline, t, record, hphase⟩
  · exact .inl hleads
  · refine .inr ⟨wall, deadline, t, record, ?_⟩
    simp only [Replica.arrived] at hphase
    rcases hr : r.phase with ⟨started, w, d, found | ⟨waited, _ | result⟩⟩ | wake | found | _
    case attempt.putting.none =>
      rw [hr] at hphase
      simp only [Phase.answer] at hphase
      split_ifs at hphase <;> cases hphase
    all_goals
      rw [hr] at hphase
      exact hphase

end

section

variable {ι : Type} {me : ι → Identity} {w w' : World ι} {i : ι}

structure SharedInv (s : Shared) : Prop where
  lease : ∀ record version, s.lease = some (record, version) → version < s.nextVersion ∧
    (record.holder ≠ [] → s.born record = some s.writtenAt)
  born : ∀ record b, s.born record = some b → b ≤ s.now ∧ record ∈ s.sent

structure Inv (me : ι → Identity) (w : World ι) : Prop where
  shared : SharedInv w.shared
  replica : ∀ i, ReplicaInv (me i) w.shared (w.replicas i)
  distinct : ∀ i ticket write i' ticket' write', (w.replicas i).inFlight ticket = some write →
    (w.replicas i').inFlight ticket' = some write' → write.record.holder ≠ [] →
    write.record = write'.record → i = i' ∧ ticket = ticket'
  holds : ∀ i since, Claims (w.replicas i) since → Holds (me i) w.shared since

theorem inv_fresh (h : Fresh w) : Inv me w := by
  refine ⟨⟨?_, h.born⟩, ?_, ?_, ?_⟩
  · intro record version hlease
    obtain ⟨hlt, -, hborn⟩ := h.version record version hlease
    exact ⟨hlt, fun _ => hborn⟩
  · intro i
    obtain ⟨hrole, hrenewed, hobserved, ⟨wake, hphase, hwake⟩, hnone⟩ := h.replica i
    refine ⟨?_, ?_, ?_, ?_⟩
    · intro record at_ hseen
      rw [hobserved] at hseen
      cases hseen
    · intro ticket write hwrite
      rw [hnone ticket] at hwrite
      cases hwrite
    · intro hleads
      rw [hrole] at hleads
      cases hleads
    · rw [hphase, hrenewed]
      exact ⟨hwake, fun _ hat => nomatch hat⟩
  · intro i ticket write i' ticket' write' hwrite
    obtain ⟨-, -, -, -, hnone⟩ := h.replica i
    rw [hnone ticket] at hwrite
    cases hwrite
  · intro i since hclaim
    obtain ⟨hrole, -, -, ⟨wake, hphase, -⟩, -⟩ := h.replica i
    rcases hclaim with ⟨hleads, -⟩ | ⟨wall, deadline, ticket, record, hattempt⟩
    · rw [hrole] at hleads
      cases hleads
    · rw [hphase] at hattempt
      cases hattempt

variable {s : Shared} {record : LeaseSpec} {ticket wall started deadline : ℕ} {write : Write}
  {r : Replica} {observed : Option (LeaseSpec × ℕ)}

theorem SharedInv.read (h : SharedInv s) {version : ℕ} (hlease : s.lease = some (record, version)) :
    Read s record version := by
  obtain ⟨hlt, hborn⟩ := h.lease record version hlease
  refine ⟨hlt, ?_, ?_⟩
  · intro record' hlease'
    rw [hlease] at hlease'
    exact (Prod.mk.inj (some.inj hlease')).1.symm
  · intro hholder
    exact ⟨s.writtenAt, (h.born record _ (hborn hholder)).1, hborn hholder⟩

theorem SharedInv.send (h : SharedInv s) (record : LeaseSpec) :
    SharedInv (s.send record) ∧ Later s (s.send record) := by
  refine ⟨⟨h.lease, ?_⟩, ⟨le_rfl, fun _ _ hborn => hborn, le_rfl, .inl ⟨rfl, rfl⟩, ?_⟩⟩
  · intro other b hborn
    obtain ⟨hb, hsent⟩ := h.born other b hborn
    exact ⟨hb, Set.mem_insert_of_mem _ hsent⟩
  · exact Set.subset_insert _ _

theorem store_born (hunborn : record.holder ≠ [] → s.born record = none) (other : LeaseSpec) (b : ℕ)
    (hborn : s.born other = some b) : (s.store record).born other = some b := by
  unfold Shared.store
  by_cases hholder : record.holder = []
  · rw [if_pos hholder]
    exact hborn
  · simp only [if_neg hholder, update_apply]
    split_ifs with hsame
    · rw [hsame, hunborn hholder] at hborn
      cases hborn
    · exact hborn

theorem SharedInv.store (h : SharedInv s)
    (hunborn : record.holder ≠ [] → s.born record = none ∧ record ∈ s.sent) :
    SharedInv (s.store record) ∧ Later s (s.store record) := by
  have hborn := store_born fun hne => (hunborn hne).1
  refine ⟨⟨?_, ?_⟩, ⟨le_rfl, hborn, Nat.le_succ _, .inr ⟨record, rfl⟩, subset_rfl⟩⟩
  · intro other version hlease
    obtain ⟨rfl, rfl⟩ := Prod.mk.inj (some.inj hlease)
    refine ⟨Nat.lt_succ_self _, fun hne => ?_⟩
    simp only [Shared.store, if_neg hne, update_self]
  · intro other b hother
    unfold Shared.store at hother
    by_cases hholder : record.holder = []
    · rw [if_pos hholder] at hother
      exact h.born other b hother
    · simp only [if_neg hholder, update_apply] at hother
      split_ifs at hother with hsame
      · cases hother
        exact ⟨le_rfl, hsame ▸ (hunborn hholder).2⟩
      · exact h.born other b hother

theorem Shared.New.not_sent {who : Identity} (h : s.New who wall)
    (hholder : record.holder = who.val) (htime : record.renewTime = some wall) : record ∉ s.sent :=
  fun hsent => h record hsent hholder htime

/-- Whoever holds the Lease while it leads is spared the writes of others. -/
theorem Inv.blocked (h : Inv me w) (hinj : Function.Injective me) {j : ι} {since : ℕ}
    (hclaim : Claims (w.replicas j) since) (hwrite : (w.replicas i).inFlight ticket = some write)
    (hexpect : w.shared.lease.map Prod.snd = write.expect) : i = j := by
  obtain ⟨⟨record, version, hlease, hholder, hvalid⟩, hwritten⟩ := h.holds j since hclaim
  obtain ⟨-, hlapse⟩ := (h.replica j).claims hclaim
  rw [hlease] at hexpect
  have hown (hmine : record.holder = (me i).val) : i = j :=
    hinj (Subtype.ext (hmine.symm.trans hholder))
  rcases (h.replica i).inFlight ticket write hwrite with htakes | hgives
  · rcases htakes.judged record version hexpect.symm hlease with hnone | hmine | hold
    · exact absurd (hholder.symm.trans hnone) (me j).property
    · exact hown hmine
    · have hlt := leadsFor_lt
      rw [hvalid] at hold
      omega
  · exact hown (hgives.own record version hexpect.symm hlease)

theorem Inv.phase (h : Inv me w) {phase : Phase} (hr : (w.replicas i).phase = phase) :
    PhaseInv (me i) w.shared (w.replicas i).role (w.replicas i).renewed phase :=
  hr ▸ (h.replica i).phase

variable [DecidableEq ι]

section

variable (h : Inv me w)
include h

/-- One replica moves, and the Lease with it. Of the writes the replica then has on their way, the
one of the ticket `new` may be of a record that was never sent. -/
theorem Inv.update (new : ℕ) (hshared : SharedInv s) (hlater : Later w.shared s)
    (hnow : s.now = w.shared.now) (hr : ReplicaInv (me i) s r)
    (hunborn : ∀ j ticket other, j ≠ i → (w.replicas j).inFlight ticket = some other →
      other.record.holder ≠ [] → s.born other.record = none)
    (hflight : ∀ ticket write, r.inFlight ticket = some write → write.record.holder ≠ [] →
      (w.replicas i).inFlight ticket = some write ∨ ticket = new ∧ write.record ∉ w.shared.sent)
    (hholds : ∀ since, Claims r since → Holds (me i) s since)
    (hothers : ∀ j since, j ≠ i → Claims (w.replicas j) since → Holds (me j) s since) :
    Inv me { w.set i r with shared := s } := by
  have hreplica (j : ι) : (w.set i r).replicas j = if j = i then r else w.replicas j :=
    update_apply ..
  have hwrites {j : ι} {ticket : ℕ} {write : Write}
      (hwrite : ((w.set i r).replicas j).inFlight ticket = some write)
      (hne : write.record.holder ≠ []) : (w.replicas j).inFlight ticket = some write ∨
        j = i ∧ ticket = new ∧ write.record ∉ w.shared.sent := by
    rw [hreplica] at hwrite
    split_ifs at hwrite with hj
    · subst hj
      exact (hflight ticket write hwrite hne).imp_right fun hnew => ⟨rfl, hnew⟩
    · exact .inl hwrite
  refine ⟨hshared, fun j => ?_, ?_, fun j since hclaim => ?_⟩
  · simp only [hreplica]
    split_ifs with hj
    · exact hj ▸ hr
    · exact (h.replica j).later hlater (hnow ▸ (h.replica j).phase.due)
        fun ticket other => hunborn j ticket other hj
  · intro j ticket write j' ticket' write' hwrite hwrite' hne hsame
    rcases hwrites hwrite hne with hold | ⟨rfl, rfl, hnew⟩
    · rcases hwrites hwrite' (hsame ▸ hne) with hold' | ⟨-, -, hnew⟩
      · exact h.distinct j ticket write j' ticket' write' hold hold' hne hsame
      · exact absurd (hsame ▸ ((h.replica j).unborn hold hne).2) hnew
    · rcases hwrites hwrite' (hsame ▸ hne) with hold' | ⟨rfl, rfl, -⟩
      · exact absurd (hsame ▸ ((h.replica j').unborn hold' (hsame ▸ hne)).2) hnew
      · exact ⟨rfl, rfl⟩
  · simp only [hreplica] at hclaim
    split_ifs at hclaim with hj
    · exact hj ▸ hholds since hclaim
    · exact hothers j since hj hclaim

/-- One replica goes on, and sends nothing that names a holder. -/
theorem Inv.set (hr : ReplicaInv (me i) w.shared r)
    (hflight : ∀ ticket write, r.inFlight ticket = some write → write.record.holder ≠ [] →
      (w.replicas i).inFlight ticket = some write)
    (hholds : ∀ since, Claims r since → Holds (me i) w.shared since) : Inv me (w.set i r) :=
  h.update 0 h.shared ⟨le_rfl, fun _ _ hborn => hborn, le_rfl, .inl ⟨rfl, rfl⟩, subset_rfl⟩ rfl hr
    (fun j _ _ _ hother hne => ((h.replica j).unborn hother hne).1)
    (fun ticket write hwrite hne => .inl (hflight ticket write hwrite hne)) hholds
    fun j since _ => h.holds j since

/-- One replica goes on as it was, or steps down: what it claims, it claimed. -/
theorem Inv.goOn (hrunning : (w.replicas i).phase ≠ .stopped) {role : Role}
    (hrole : role = (w.replicas i).role ∨ role ≠ .leading) {phase : Phase}
    (hobserved : w.shared.Seen observed)
    (hnext : PhaseInv (me i) w.shared role (w.replicas i).renewed phase)
    (hphase : phase.Unanswered) : Inv me (w.set i { w.replicas i with role, observed, phase }) := by
  apply h.set
  · refine (h.replica i).moveTo hrunning hobserved (fun hleads => ?_) hnext
    exact (h.replica i).renewed (hrole.elim (· ▸ hleads) (absurd hleads))
  · exact fun _ _ hwrite _ => hwrite
  · intro since hclaim
    rcases hrole with hsame | hrole
    · exact h.holds i since (hclaim.of_same hsame rfl hphase)
    · exact (hclaim.not_leading hrole hphase).elim

/-- One replica sends a record that was never sent. -/
theorem Inv.take (hr : ReplicaInv (me i) w.shared r) (hrunning : r.phase ≠ .stopped)
    (hflight : r.inFlight = (w.replicas i).inFlight) (write : Write) (phase : Phase)
    (hholder : write.record.holder = (me i).val) (hvalid : write.record.validFor = leaseDuration)
    (hversion : ∀ version ∈ write.expect, version < w.shared.nextVersion)
    (hjudged : ∀ record version, write.expect = some version →
      w.shared.lease = some (record, version) → w.shared.Free (me i) record)
    (hnew : write.record ∉ w.shared.sent) (hphase : PhaseInv (me i) w.shared r.role r.renewed phase)
    (hholds : ∀ since, Claims (r.send write phase) since → Holds (me i) w.shared since) :
    Inv me { w.set i (r.send write phase) with shared := w.shared.send write.record } := by
  obtain ⟨hshared, hlater⟩ := h.shared.send write.record
  have hunborn : w.shared.born write.record = none := by
    cases hborn : w.shared.born write.record with
    | none => rfl
    | some b => exact absurd (h.shared.born _ b hborn).2 hnew
  have hbase : ReplicaInv (me i) (w.shared.send write.record) r :=
    hr.later hlater hr.phase.due fun _ _ hwrite hne => (hr.unborn hwrite hne).1
  have hsame {j : ι} {since : ℕ} (hold : Holds (me j) w.shared since) :
      Holds (me j) (w.shared.send write.record) since := ⟨hold.lease, hold.writtenAt⟩
  apply h.update r.ticket hshared hlater rfl
  · exact hbase.send hrunning
      (.inl ⟨hversion, hholder, hvalid, hunborn, Set.mem_insert _ _, hjudged⟩)
      (hphase.later hlater hphase.due)
  · exact fun j _ _ _ hother hne => ((h.replica j).unborn hother hne).1
  · intro ticket other hother _
    rcases inFlight_of_send hother with ⟨hticket, rfl⟩ | hother
    · exact .inr ⟨hticket, hnew⟩
    · exact .inl (hflight ▸ hother)
  · exact fun since hclaim => hsame (hholds since hclaim)
  · exact fun j since _ hclaim => hsame (h.holds j since hclaim)

theorem Inv.store (hinj : Function.Injective me)
    (hwrite : (w.replicas i).inFlight ticket = some write)
    (hexpect : w.shared.lease.map Prod.snd = write.expect) :
    Inv me { w.set i ((w.replicas i).arrived ticket (.stored write.record)) with
      shared := w.shared.store write.record } := by
  have hunborn (hne : write.record.holder ≠ []) := (h.replica i).unborn hwrite hne
  obtain ⟨hshared, hlater⟩ := h.shared.store hunborn
  have hgone (t : ℕ) (other : Write)
      (hother : Function.update (w.replicas i).inFlight ticket none t = some other) :
      (w.replicas i).inFlight t = some other ∧ t ≠ ticket := by
    rw [update_apply] at hother
    split_ifs at hother with ht
    exact ⟨hother, ht⟩
  -- no other write on its way has the record that is now written
  have hstill {j : ι} {t : ℕ} {other : Write}
      (hother : (w.replicas j).inFlight t = some other) (hne : other.record.holder ≠ [])
      (hdiffers : ¬(j = i ∧ t = ticket)) :
      (w.shared.store write.record).born other.record = none := by
    have hborn := ((h.replica j).unborn hother hne).1
    unfold Shared.store
    by_cases hholder : write.record.holder = []
    · rw [if_pos hholder]
      exact hborn
    · simp only [if_neg hholder, update_apply]
      split_ifs with hsame
      · exact absurd (h.distinct j t other i ticket write hother hwrite hne hsame) hdiffers
      · exact hborn
  have hactor : ReplicaInv (me i) (w.shared.store write.record)
      ((w.replicas i).arrived ticket (.stored write.record)) := by
    have hlost := ((h.replica i).lose ticket).later hlater (h.replica i).phase.due
      fun t other hother hne =>
      hstill (hgone t other hother).1 hne fun heq => (hgone t other hother).2 heq.2
    apply hlost.answer
    intro record hrecord hrunning
    obtain rfl := Stored.stored.inj hrecord
    have htakes := (h.replica i).takes hrunning hwrite
    have hne : write.record.holder ≠ [] := by
      rw [htakes.holder]
      exact (me i).property
    exact ⟨htakes.holder, w.shared.now, le_rfl,
      by simp only [Shared.store, if_neg hne, update_self]⟩
  apply h.update 0 hshared hlater rfl hactor
  · exact fun j t other hj hother hne => hstill hother hne fun heq => hj heq.1
  · exact fun t other hother _ => .inl (hgone t other hother).1
  · intro since hclaim
    obtain ⟨hsince, -⟩ := hactor.claims hclaim
    rcases (h.replica i).inFlight ticket write hwrite with htakes | hgives
    · exact ⟨⟨write.record, _, rfl, htakes.holder, htakes.validFor⟩, hsince⟩
    · rcases hclaim with ⟨hleads, -⟩ | ⟨wall, deadline, t, record, hphase⟩
      · exact absurd hleads hgives.role
      · simp only [Replica.arrived, hgives.stopped] at hphase
        cases hphase
  · exact fun j since hj hclaim => absurd (h.blocked hinj hclaim hwrite hexpect).symm hj

theorem Inv.give (hgives : Gives (me i) w.shared
      ((w.replicas i).send write .stopped) write) (hrunning : (w.replicas i).phase ≠ .stopped) :
    Inv me (w.set i ((w.replicas i).send write .stopped)) := by
  apply h.set
  · exact (h.replica i).send hrunning (.inr hgives) hgives.role
  · intro ticket other hother hne
    rcases inFlight_of_send hother with ⟨-, rfl⟩ | hother
    · exact absurd hgives.holder hne
    · exact hother
  · exact fun since hclaim => (hclaim.not_leading hgives.role nofun).elim

theorem Inv.heldBy {version : ℕ} {jitter : ℕ} (hr : (w.replicas i).phase =
      .attempt started wall deadline (.getting (some (some (record, version)))))
    (hobserved : w.shared.Seen observed) :
    Inv me (w.set i ({ w.replicas i with observed }.heldBy w.shared.now jitter)) := by
  unfold Replica.heldBy
  have hrunning : (w.replicas i).phase ≠ .stopped := by simp [hr]
  split_ifs with hrenewed
  · exact h.goOn hrunning (.inr (by nofun)) hobserved (by nofun) (by nofun)
  · have hnone : (w.replicas i).renewed = none := by simpa using hrenewed
    refine h.goOn hrunning (.inl rfl) hobserved ⟨Nat.le_add_right _ _, ?_⟩ nofun
    rw [hnone]
    nofun

omit [DecidableEq ι] in
/-- A record judged free, or no longer valid, is so when it is replaced. -/
theorem Inv.judged {changedAt : ℕ} (hstarted : started ≤ w.shared.now)
    (hborn : record.holder ≠ [] → ∃ b ≤ changedAt, w.shared.born record = some b)
    (hheld : heldByOther record (me i) changedAt started = false) {version : ℕ}
    (hlease : w.shared.lease = some (record, version)) : w.shared.Free (me i) record := by
  by_cases hnone : record.holder = []
  · exact .inl hnone
  by_cases hmine : record.holder = (me i).val
  · exact .inr (.inl hmine)
  refine .inr (.inr ?_)
  have hlapsed : changedAt + record.validFor ≤ started := by
    simpa [heldByOther, hnone, hmine] using hheld
  obtain ⟨b, hb, hwritten⟩ := hborn hnone
  obtain rfl : b = w.shared.writtenAt :=
    some.inj (hwritten.symm.trans ((h.shared.lease record version hlease).2 hnone))
  omega

theorem Inv.held (hr : (w.replicas i).phase =
      .attempt started wall deadline (.putting ticket (some (.stored record)))) :
    Inv me (w.set i ((w.replicas i).held record started w.shared.now)) := by
  have hreplica := h.replica i
  obtain ⟨⟨hstarted, hnow, hdeadline⟩, -, hround⟩ := h.phase hr
  obtain ⟨hholder, b, hb, hborn⟩ := hround record rfl
  have hholds : Holds (me i) w.shared started :=
    h.holds i started (.inr ⟨wall, deadline, ticket, record, hr⟩)
  apply h.set
  · refine hreplica.moveTo (by rw [hr]; nofun)
      (hreplica.observed.observe fun _ => ⟨b, hb, hborn⟩) nofun ?_
    · refine ⟨Nat.le_add_right _ _, ?_⟩
      intro at_ hat
      cases hat
      refine ⟨hstarted, ?_⟩
      simp only [leadsFor]
      omega
  · exact fun _ _ hwrite _ => hwrite
  · intro since hclaim
    rcases hclaim with ⟨-, hsince⟩ | ⟨wall, deadline, ticket, record, hstored⟩
    · cases hsince
      exact hholds
    · cases hstored

theorem Inv.fail {jitter : ℕ} {round : Round}
    (hr : (w.replicas i).phase = .attempt started wall deadline round) :
    Inv me (w.set i ((w.replicas i).fail w.shared.now jitter)) := by
  have hobserved := (h.replica i).observed
  obtain ⟨-, hrenewed, -⟩ := h.phase hr
  unfold Replica.fail
  have hrunning : (w.replicas i).phase ≠ .stopped := by simp [hr]
  split_ifs with hlapsed
  · exact h.goOn hrunning (.inr (by nofun)) hobserved (by nofun) (by nofun)
  · refine h.goOn hrunning (.inl rfl) hobserved ⟨Nat.le_add_right _ _, ?_⟩ nofun
    intro at_ hat
    obtain ⟨hle, -⟩ := hrenewed at_ hat
    rw [mem_def.mp hat] at hlapsed ⊢
    simp only [any_some, decide_eq_true_eq, not_le] at hlapsed
    refine ⟨hle, ?_⟩
    simp only [isSome_some, if_true, leadsFor]
    omega

/-- A replica is asked to stop: it no longer leads before it gives the Lease up. -/
theorem Inv.stop (hrunning : (w.replicas i).phase ≠ .stopped) :
    Inv me (w.set i (w.replicas i).stop) := by
  have hreplica := h.replica i
  unfold Replica.stop
  split_ifs with hrenewed
  · exact h.goOn hrunning (.inr (by nofun)) hreplica.observed (by exact ⟨nofun, nofun⟩)
      (by nofun)
  · have hrole : (w.replicas i).role ≠ .leading := by
      intro hleads
      exact hrenewed (isSome_iff_ne_none.mpr (hreplica.renewed hleads))
    exact h.goOn hrunning (.inl rfl) hreplica.observed hrole nofun

end

theorem inv_step (hinj : Function.Injective me) (h : Inv me w) (hstep : Step me w w') :
    Inv me w' := by
  cases hstep with
  | tick d hdue =>
    have hlater : Later w.shared { w.shared with now := w.shared.now + d } :=
      ⟨Nat.le_add_right _ _, fun _ _ hborn => hborn, le_rfl, .inl ⟨rfl, rfl⟩, subset_rfl⟩
    refine ⟨⟨h.shared.lease, ?_⟩, fun i => (h.replica i).later hlater (hdue i)
      fun _ _ hwrite hne => ((h.replica i).unborn hwrite hne).1, h.distinct, ?_⟩
    · intro record b hborn
      obtain ⟨hb, hsent⟩ := h.shared.born record b hborn
      exact ⟨Nat.le_add_right_of_le hb, hsent⟩
    · intro i since hclaim
      have hholds := h.holds i since hclaim
      exact ⟨hholds.lease, hholds.writtenAt⟩
  | @begin i wake wall hr hwake =>
    obtain ⟨hnow, hrenewed⟩ := h.phase hr
    have hdeadline := deadlineOf_le (w.replicas i).renewed w.shared.now
    refine h.goOn (by simp [hr]) (.inl rfl) (h.replica i).observed ?_ nofun
    refine ⟨⟨le_rfl, hdeadline⟩, ?_, nofun⟩
    intro at_ hat
    obtain ⟨hle, hlapse⟩ := hrenewed at_ hat
    rw [mem_def.mp hat]
    exact ⟨hle, deadlineOf_some (hnow.trans hlapse)⟩
  | @read i started wall deadline hr =>
    obtain ⟨htimes, hrenewed, -⟩ := h.phase hr
    exact h.goOn (by simp [hr]) (.inl rfl) (h.replica i).observed
      ⟨htimes, hrenewed, fun _ _ hfound => h.shared.read (some.inj hfound)⟩ nofun
  | @create i started wall deadline hr hnew =>
    obtain ⟨htimes, hrenewed, -⟩ := h.phase hr
    apply h.take (h.replica i) (by simp [hr]) rfl ⟨none, created (me i) wall⟩
      (.attempt started wall deadline (.putting (w.replicas i).ticket none))
    · rfl
    · rfl
    · nofun
    · nofun
    · exact hnew.not_sent rfl rfl
    · exact ⟨htimes, hrenewed, nofun⟩
    · exact fun since hclaim => h.holds i since (hclaim.of_same rfl rfl nofun)
  | @heldBy i started wall deadline version record seen changedAt jitter hr hobserve hheld
      hjitter =>
    obtain ⟨-, -, hread⟩ := h.phase hr
    exact h.heldBy hr (hobserve ▸ (h.replica i).observed.observe (hread _ _ rfl).born)
  | @replace i started wall deadline version record seen changedAt hr hobserve hheld hnew =>
    have hreplica := h.replica i
    obtain ⟨htimes, hrenewed, hround⟩ := h.phase hr
    have hread := hround record version rfl
    have hrunning : (w.replicas i).phase ≠ .stopped := by simp [hr]
    have hobserved : w.shared.Seen (some (seen, changedAt)) :=
      hobserve ▸ hreplica.observed.observe hread.born
    have hseen := hreplica.moveTo hrunning hobserved hreplica.renewed hreplica.phase
    apply h.take hseen hrunning rfl ⟨some version, renewal record (me i) wall⟩
      (.attempt started wall deadline (.putting (w.replicas i).ticket none))
    · rfl
    · rfl
    · intro v hv
      cases hv
      exact hread.lt
    · intro other v hv hlease
      cases hv
      obtain rfl := hread.same other hlease
      apply h.judged htimes.1 _ hheld hlease
      intro hne
      obtain rfl := observe_fst hobserve
      exact hobserved _ _ rfl hne
    · exact hnew.not_sent rfl rfl
    · exact ⟨htimes, hrenewed, nofun⟩
    · exact fun since hclaim => h.holds i since (hclaim.of_same rfl rfl nofun)
  | store hwrite hexpect => exact h.store hinj hwrite hexpect
  | @refuse i ticket write hwrite hexpect =>
    apply h.set
    · exact ((h.replica i).lose ticket).answer nofun
    · exact fun t other hother _ => inFlight_of_update hother
    · exact fun since hclaim => h.holds i since hclaim.of_conflict
  | @lose i ticket =>
    apply h.set
    · exact (h.replica i).lose ticket
    · exact fun t other hother _ => inFlight_of_update hother
    · exact fun since hclaim => h.holds i since hclaim
  | held hr => exact h.held hr
  | fail hr _ => exact h.fail hr
  | @stop i hdue =>
    apply h.stop
    intro hstopped
    rw [hstopped] at hdue
    cases hdue
  | @readRelease i hr =>
    exact h.goOn (by simp [hr]) (.inl rfl) (h.replica i).observed
      ⟨(h.phase hr).1, fun _ _ hfound => h.shared.read (some.inj hfound)⟩ nofun
  | @release i record version wall hr hholder =>
    obtain ⟨hrole, hreleasing⟩ := h.phase hr
    have hread := hreleasing record version rfl
    refine h.give ⟨?_, rfl, hrole, rfl, ?_⟩ (by simp [hr])
    · intro v hv
      cases hv
      exact hread.lt
    · intro other v hv hlease
      cases hv
      rw [hread.same other hlease]
      exact hholder
  | @releaseEnds i found hr =>
    exact h.goOn (by simp [hr]) (.inl rfl) (h.replica i).observed (h.phase hr).1 nofun

/-- Where there is no Lease, a replica that is not disturbed leads at once. -/
theorem Fresh.leads (h : Fresh w) (hlease : w.shared.lease = none)
    (hwake : (w.replicas i).phase = .sleeping w.shared.now) (hnew : w.shared.New (me i) wall) :
    ∃ w', Reachable Fresh (Step me) w' ∧ (w'.replicas i).role = .leading := by
  have hset (w : World ι) (r : Replica) : (w.set i r).replicas i = r := update_self ..
  have hstart : Reachable Fresh (Step me) w := .start h
  have hread :=
    (hstart.step (.begin wall hwake le_rfl)).step (.read (congrArg Replica.phase (hset ..)))
  obtain ⟨w₁, started, deadline, hreach, hphase, hrenewed, hnone, hnew⟩ : ∃ w₁ started deadline,
      Reachable Fresh (Step me) w₁ ∧
      (w₁.replicas i).phase = .attempt started wall deadline (.getting (some none)) ∧
      (w₁.replicas i).renewed = none ∧ w₁.shared.lease = none ∧ w₁.shared.New (me i) wall := by
    refine ⟨_, w.shared.now, deadlineOf (w.replicas i).renewed w.shared.now, hread, ?_, ?_, hlease,
      hnew⟩
    · simp only [hset]
      exact congrArg _ (congrArg _ (congrArg _ hlease))
    · simp only [hset]
      exact (h.replica i).2.1
  have hsent := hreach.step (.create hphase hnew)
  obtain ⟨w₂, ticket, hreach, hphase, hrenewed, hflight, hnone⟩ : ∃ w₂ ticket,
      Reachable Fresh (Step me) w₂ ∧
      (w₂.replicas i).phase = .attempt started wall deadline (.putting ticket none) ∧
      (w₂.replicas i).renewed = none ∧
      (w₂.replicas i).inFlight ticket = some ⟨none, created (me i) wall⟩ ∧
      w₂.shared.lease = none := by
    refine ⟨_, (w₁.replicas i).ticket, hsent, ?_, ?_, ?_, hnone⟩
    · simp only [hset, Replica.send]
    · simp only [hset, Replica.send, hrenewed]
    · simp only [hset, Replica.send, update_self]
  have hstored := hreach.step (.store hflight (congrArg _ hnone))
  have hanswer : ((w₂.set i ((w₂.replicas i).arrived ticket
      (.stored (created (me i) wall)))).replicas i).phase =
      .attempt started wall deadline (.putting ticket (some (.stored (created (me i) wall)))) := by
    simp only [hset, Replica.arrived, Phase.answer, hphase, if_true]
  refine ⟨_, hstored.step (.held hanswer), ?_⟩
  simp only [hset, Replica.held, Replica.arrived, hrenewed, isNone_none, if_true]

/-- No two replicas lead at the same time. -/
theorem single_leader (hinj : Function.Injective me) (h : Reachable Fresh (Step me) w) {i j : ι}
    (hi : (w.replicas i).role = .leading) (hj : (w.replicas j).role = .leading) : i = j := by
  have hfresh (w : World ι) (hw : Fresh w) : Inv me w := inv_fresh hw
  have hinv : Inv me w := h.invariant hfresh fun _ _ h hstep => inv_step hinj h hstep
  have hholder {k : ι} (hk : (w.replicas k).role = .leading) :
      ∃ record version, w.shared.lease = some (record, version) ∧ record.holder = (me k).val := by
    obtain ⟨since, hsince⟩ := ne_none_iff_exists'.mp ((hinv.replica k).renewed hk)
    obtain ⟨⟨record, version, hlease, hholder, -⟩, -⟩ :=
      hinv.holds k since (.inl ⟨hk, hsince⟩)
    exact ⟨record, version, hlease, hholder⟩
  obtain ⟨record, version, hlease, hmine⟩ := hholder hi
  obtain ⟨record', version', hlease', hmine'⟩ := hholder hj
  obtain ⟨rfl, -⟩ := Prod.mk.inj (some.inj (hlease.symm.trans hlease'))
  exact hinj (Subtype.ext (hmine.symm.trans hmine'))

/-- Two replicas that start together, where there is no Lease. -/
def twoReplicas : World Bool where
  shared := ⟨0, none, 0, 0, fun _ => none, ∅⟩
  replicas _ := ⟨.standby, none, none, .sleeping 0, 0, fun _ => none⟩

def named (replica : Bool) : Identity := identity (bytes "portail") (if replica then 1 else 0)

theorem single_leader_two : ∃ w, Reachable Fresh (Step named) w ∧
    (w.replicas true).role = .leading ∧ (w.replicas false).role ≠ .leading := by
  have hfresh : Fresh twoReplicas :=
    ⟨nofun, nofun, fun _ => ⟨rfl, rfl, rfl, ⟨0, rfl, le_rfl⟩, fun _ => rfl⟩⟩
  have hnew : twoReplicas.shared.New (named true) 0 := nofun
  obtain ⟨w, hw, hleads⟩ := hfresh.leads rfl rfl hnew
  refine ⟨w, hw, hleads, fun hother => ?_⟩
  exact absurd (single_leader (by decide) hw hleads hother) (by decide)

end
end Portail.Controller.Election
