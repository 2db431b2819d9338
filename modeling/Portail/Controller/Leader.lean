import Portail.Lib.Bytes
import Portail.Lib.Decimal
import Portail.Lib.Runs
import Mathlib.Data.Set.Basic

/-!
# Leader election

The campaign of `controller/leader.rs`: replicas read one Lease and write it against the
version they read. A request takes its time, on its way and back; one whose sender no
longer waits may still take effect, and its answer may be lost. Clocks go at one rate, in
milliseconds, and timers fire on time: time does not pass a deadline that is due.
-/

namespace Portail.Controller.Election

open Lib

def leaseDuration : ℕ := 15000

def renewDeadline : ℕ := 10000

def retryPeriod : ℕ := 2000

/-- The most that jitter adds to a candidate's pause. -/
def retryJitter : ℕ := 2400

def releasedDurationSecs : ℤ := 1

abbrev Identity := { name : Bytes // name ≠ [] }

/-- `<hostname>_<random>`. -/
def identity (host : Bytes) (random : UInt64) : Identity :=
  ⟨host ++ bytes "_" ++ (List.range 16).map fun d => hexChar (random.toNat / 16 ^ (15 - d) % 16), by
    intro h
    obtain ⟨h, -⟩ := List.append_eq_nil_iff.mp h
    obtain ⟨-, h⟩ := List.append_eq_nil_iff.mp h
    cases h⟩

structure LeaseSpec where
  holderIdentity : Option Bytes
  leaseDurationSeconds : Option ℤ
  acquireTime : Option ℕ
  renewTime : Option ℕ
  leaseTransitions : Option ℤ
  deriving DecidableEq

def LeaseSpec.holder (record : LeaseSpec) : Bytes := record.holderIdentity.getD []

def LeaseSpec.validFor (record : LeaseSpec) : ℕ :=
  1000 * (max (record.leaseDurationSeconds.getD 0) 0).toNat

def durationSecs : ℤ := 15

/-- The record of a Lease that did not exist. -/
def created (me : Identity) (wall : ℕ) : LeaseSpec :=
  ⟨some me.val, some durationSecs, some wall, some wall, some 0⟩

/-- `saturating_add(1)` of 32 bits. -/
def oneMore (transitions : ℤ) : ℤ := min (transitions + 1) (2 ^ 31 - 1)

/-- The record of a Lease renewed or taken over. -/
def renewal (record : LeaseSpec) (me : Identity) (wall : ℕ) : LeaseSpec :=
  let mine := record.holder = me.val
  { holderIdentity := some me.val
    leaseDurationSeconds := some durationSecs
    acquireTime := if mine then record.acquireTime else some wall
    renewTime := some wall
    leaseTransitions :=
      if mine then record.leaseTransitions
      else some (oneMore (record.leaseTransitions.getD 0)) }

/-- The record of a Lease given up. -/
def released (record : LeaseSpec) (wall : ℕ) : LeaseSpec :=
  { record with
    holderIdentity := some []
    leaseDurationSeconds := some releasedDurationSecs
    acquireTime := some wall
    renewTime := some wall }

/-- The record as last read, and when it was last seen to change. -/
def observe (observed : Option (LeaseSpec × ℕ)) (record : LeaseSpec) (at_ : ℕ) :
    Option (LeaseSpec × ℕ) :=
  if observed.map Prod.fst = some record then observed else some (record, at_)

/-- Whether another holds the Lease, as judged at the start of the round. -/
def heldByOther (record : LeaseSpec) (me : Identity) (changedAt started : ℕ) : Bool :=
  record.holder ≠ [] && record.holder ≠ me.val && started < changedAt + record.validFor

section

inductive Role
  | standby
  | leading
  | lost
  deriving DecidableEq

/-- A write on its way; it takes effect on the version it expects, `none` where no Lease is. -/
structure Write where
  expect : Option ℕ
  record : LeaseSpec

inductive Stored
  | stored (record : LeaseSpec)
  | conflict

/-- How far a round has come: what its read found, or what became of its write. -/
inductive Round
  | getting (found : Option (Option (LeaseSpec × ℕ)))
  | putting (ticket : ℕ) (answer : Option Stored)

inductive Phase
  | attempt (started wall deadline : ℕ) (round : Round)
  | sleeping (wake : ℕ)
  | releasing (found : Option (Option (LeaseSpec × ℕ)))
  | stopped

/-- A replica. `renewed` is when its last successful round began; `ticket` numbers its writes. -/
structure Replica where
  role : Role
  renewed : Option ℕ
  observed : Option (LeaseSpec × ℕ)
  phase : Phase
  ticket : ℕ
  inFlight : ℕ → Option Write

/-- The Lease and its version, and of its history: when it was last written, when each record was,
and all that was ever sent. -/
structure Shared where
  now : ℕ
  lease : Option (LeaseSpec × ℕ)
  nextVersion : ℕ
  writtenAt : ℕ
  born : LeaseSpec → Option ℕ
  sent : Set LeaseSpec

structure World (ι : Type) where
  shared : Shared
  replicas : ι → Replica

def Phase.due : Phase → Option ℕ
  | .attempt _ _ deadline _ => some deadline
  | .sleeping wake => some wake
  | _ => none

/-- When a round that starts must have its answer. -/
def deadlineOf (renewed : Option ℕ) (started : ℕ) : ℕ :=
  match renewed with
  | some at_ => started + (renewDeadline - (started - at_))
  | none => started + renewDeadline

def Replica.pause (r : Replica) (now jitter : ℕ) : Phase :=
  .sleeping (now + if r.renewed.isSome then retryPeriod else retryPeriod + jitter)

def Replica.held (r : Replica) (record : LeaseSpec) (started now : ℕ) : Replica :=
  { r with
    role := if r.renewed.isNone then .leading else r.role
    renewed := some started
    observed := observe r.observed record now
    phase := .sleeping (now + retryPeriod) }

def Replica.heldBy (r : Replica) (now jitter : ℕ) : Replica :=
  if r.renewed.isSome then { r with role := .lost, phase := .stopped }
  else { r with phase := r.pause now jitter }

/-- A round without a verdict. -/
def Replica.fail (r : Replica) (now jitter : ℕ) : Replica :=
  if r.renewed.any fun at_ => renewDeadline ≤ now - at_ then
    { r with role := .lost, phase := .stopped }
  else { r with phase := r.pause now jitter }

def Replica.stop (r : Replica) : Replica :=
  if r.renewed.isSome then { r with role := .standby, phase := .releasing none }
  else { r with phase := .stopped }

def Replica.send (r : Replica) (write : Write) (phase : Phase) : Replica :=
  { r with
    phase := phase
    ticket := r.ticket + 1
    inFlight := Function.update r.inFlight r.ticket (some write) }

/-- The answer to a write, if it is still waited for. -/
def Phase.answer (phase : Phase) (ticket : ℕ) (answer : Stored) : Phase :=
  match phase with
  | .attempt started wall deadline (.putting waited none) =>
    .attempt started wall deadline (.putting waited (if waited = ticket then some answer else none))
  | phase => phase

def Replica.arrived (r : Replica) (ticket : ℕ) (answer : Stored) : Replica :=
  { r with
    phase := r.phase.answer ticket answer
    inFlight := Function.update r.inFlight ticket none }

def Shared.store (s : Shared) (record : LeaseSpec) : Shared :=
  { s with
    lease := some (record, s.nextVersion)
    nextVersion := s.nextVersion + 1
    writtenAt := s.now
    born := if record.holder = [] then s.born else Function.update s.born record (some s.now) }

def Shared.send (s : Shared) (record : LeaseSpec) : Shared :=
  { s with sent := insert record s.sent }

/-- A replica writes another `renewTime` than it ever wrote. -/
def Shared.New (s : Shared) (me : Identity) (wall : ℕ) : Prop :=
  ∀ record ∈ s.sent, record.holder = me.val → record.renewTime ≠ some wall

variable {ι : Type} [DecidableEq ι]

def World.set (w : World ι) (i : ι) (r : Replica) : World ι :=
  { w with replicas := Function.update w.replicas i r }

variable (me : ι → Identity) in
inductive Step (w : World ι) : World ι → Prop
  | tick (d : ℕ) : (∀ i, ∀ due ∈ (w.replicas i).phase.due, w.shared.now + d ≤ due) →
      Step w { w with shared := { w.shared with now := w.shared.now + d } }
  | begin {i wake} (wall : ℕ) : (w.replicas i).phase = .sleeping wake → wake ≤ w.shared.now →
      Step w (w.set i { w.replicas i with
        phase := .attempt w.shared.now wall (deadlineOf (w.replicas i).renewed w.shared.now)
          (.getting none) })
  | read {i started wall deadline} :
      (w.replicas i).phase = .attempt started wall deadline (.getting none) →
      Step w (w.set i { w.replicas i with
        phase := .attempt started wall deadline (.getting (some w.shared.lease)) })
  | create {i started wall deadline} :
      (w.replicas i).phase = .attempt started wall deadline (.getting (some none)) →
      w.shared.New (me i) wall →
      Step w { w.set i ((w.replicas i).send ⟨none, created (me i) wall⟩
          (.attempt started wall deadline (.putting (w.replicas i).ticket none))) with
        shared := w.shared.send (created (me i) wall) }
  | heldBy {i started wall deadline version record seen changedAt jitter} : (w.replicas i).phase =
        .attempt started wall deadline (.getting (some (some (record, version)))) →
      observe (w.replicas i).observed record w.shared.now = some (seen, changedAt) →
      heldByOther record (me i) changedAt started = true → jitter ≤ retryJitter →
      Step w (w.set i ({ w.replicas i with observed := some (seen, changedAt) }.heldBy
        w.shared.now jitter))
  | replace {i started wall deadline version record seen changedAt} : (w.replicas i).phase =
        .attempt started wall deadline (.getting (some (some (record, version)))) →
      observe (w.replicas i).observed record w.shared.now = some (seen, changedAt) →
      heldByOther record (me i) changedAt started = false → w.shared.New (me i) wall →
      Step w { w.set i ({ w.replicas i with observed := some (seen, changedAt) }.send
          ⟨some version, renewal record (me i) wall⟩
          (.attempt started wall deadline (.putting (w.replicas i).ticket none))) with
        shared := w.shared.send (renewal record (me i) wall) }
  | store {i ticket write} : (w.replicas i).inFlight ticket = some write →
      w.shared.lease.map Prod.snd = write.expect →
      Step w { w.set i ((w.replicas i).arrived ticket (.stored write.record)) with
        shared := w.shared.store write.record }
  | refuse {i ticket write} : (w.replicas i).inFlight ticket = some write →
      w.shared.lease.map Prod.snd ≠ write.expect →
      Step w (w.set i ((w.replicas i).arrived ticket .conflict))
  | lose {i} (ticket : ℕ) : Step w (w.set i { w.replicas i with
        inFlight := Function.update (w.replicas i).inFlight ticket none })
  | held {i started wall deadline ticket record} : (w.replicas i).phase =
        .attempt started wall deadline (.putting ticket (some (.stored record))) →
      Step w (w.set i ((w.replicas i).held record started w.shared.now))
  | fail {i started wall deadline jitter round} :
      (w.replicas i).phase = .attempt started wall deadline round → jitter ≤ retryJitter →
      Step w (w.set i ((w.replicas i).fail w.shared.now jitter))
  | stop {i} : ((w.replicas i).phase.due).isSome →
      Step w (w.set i (w.replicas i).stop)
  | readRelease {i} : (w.replicas i).phase = .releasing none →
      Step w (w.set i { w.replicas i with phase := .releasing (some w.shared.lease) })
  | release {i record version} (wall : ℕ) :
      (w.replicas i).phase = .releasing (some (some (record, version))) →
      record.holder = (me i).val →
      Step w (w.set i ((w.replicas i).send ⟨some version, released record wall⟩ .stopped))
  | releaseEnds {i found} : (w.replicas i).phase = .releasing found →
      Step w (w.set i { w.replicas i with phase := .stopped })

/-- Replicas that are about to campaign, over a Lease that does not exist or was last written
before. -/
structure Fresh (w : World ι) : Prop where
  version : ∀ record v, w.shared.lease = some (record, v) →
    v < w.shared.nextVersion ∧ record ∈ w.shared.sent ∧
      w.shared.born record = some w.shared.writtenAt
  born : ∀ record at_, w.shared.born record = some at_ → at_ ≤ w.shared.now ∧ record ∈ w.shared.sent
  replica : ∀ i, (w.replicas i).role = .standby ∧ (w.replicas i).renewed = none ∧
    (w.replicas i).observed = none ∧ (∃ wake, (w.replicas i).phase = .sleeping wake ∧
      w.shared.now ≤ wake) ∧ ∀ ticket, (w.replicas i).inFlight ticket = none

end
end Portail.Controller.Election
