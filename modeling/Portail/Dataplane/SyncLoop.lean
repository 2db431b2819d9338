import Portail.Lib.Decimal
import Portail.Sync.Signed

/-!
# The sync loop

How a data plane takes the controller's answers (`dataplane/remote.rs`) and what it then
serves (`dataplane/mod.rs`). Whoever answers a poll may send any response; DNS moves,
listener exits and rebind timers come in between. Times, backoffs, connections and log
lines are left out.
-/

namespace Portail.Sync

open Lib Http Config

section

def protocol : ℕ := 1

/-- A snapshot: its version, the Gateway it is for, and what is to be served. -/
structure Snapshot (D : Type) where
  version : Str
  gateway : GatewayKey
  data : D
  deriving DecidableEq

inductive Via
  | direct
  | apiserverProxy
  deriving DecidableEq

/-- The parts outside the loop: signature checks, JSON, and what an apiserver answers itself. -/
structure SyncEnv (D J : Type) where
  answers : AnswerVerifier
  parseGone : Bytes → Result GatewayKey
  parseJson : Bytes → Option J
  versionOf : J → Option Str
  protocolOf : J → Option ℕ
  fromValue : J → Result (Snapshot D)
  isApiserverStatus : Bytes → Bool
  via : Via
  maxAnswer : ℕ

/-- What an instance reports; `L` stands for its listeners and `I` for its addresses. -/
structure InstanceReport (L I : Type) where
  applied : Str
  applyError : Option Message
  listeners : List L
  interfaces : I
  dnsEpoch : ℕ
  leaving : Bool
  deriving DecidableEq

/-- A poll's request, but for its nonce. -/
structure SyncRequest (L I : Type) where
  protocol : ℕ
  gateway : GatewayKey
  haveVersion : Str
  report : Option (InstanceReport L I)

/-- A response, its body as far as it came. -/
structure HttpResponse where
  status : ℕ
  headers : Headers
  body : Bytes
  broken : Bool

/-- How a request ended: without an answer, or with whatever was sent. -/
inductive Outcome
  | failed
  | response (r : HttpResponse)

inductive Answer
  | snapshot (body : Bytes)
  | unchanged
  | pending
  | left
  | gone
  | standby
  | unverified (error : Message)
  | retry (after : Option ℕ)

variable {D J L I : Type}

def parseU64 : Bytes → Option ℕ
  | 0x2b :: digits => readDecimal 64 digits
  | digits => readDecimal 64 digits

def retryAfter (headers : Headers) : Option ℕ :=
  (headers "retry-after").bind fun value => parseU64 (trimOws value)

/-- Whether a body says the Gateway is gone. -/
def checkGone (env : SyncEnv D J) (body : Bytes) (gateway : GatewayKey) : Result Unit :=
  match env.parseGone body with
  | .error e => .error ([.text "not a gone answer: "] ++ e)
  | .ok gone =>
    if gone = gateway then .ok ()
    else .error ([.text "a gone answer for Gateway "] ++ gone.display)

section

variable (env : SyncEnv D J) (gateway : GatewayKey) (request : SyncRequest L I) (nonce : Bytes)
  (now : ℕ) (r : HttpResponse)

def ok : Answer :=
  match env.answers.verify .snapshot nonce r.headers r.body now with
  | .ok () => .snapshot r.body
  | .error e => .unverified ([.text "snapshot refused: "] ++ e)

/-- A leave acknowledgement never confirms what a poll serves. -/
def noContent : Answer :=
  let asKind (kind : Signed) (body : Bytes) := env.answers.verify kind nonce r.headers body now
  if request.report.any InstanceReport.leaving then
    match asKind .leave [] with
    | .ok () => .left
    | .error e => .unverified ([.text "204 refused: "] ++ e)
  else
    match asKind .unchanged request.haveVersion.octets with
    | .ok () => .unchanged
    | .error e =>
      match asKind .pending [] with
      | .ok () => .pending
      | .error _ => .unverified ([.text "204 refused: "] ++ e)

def notFound : Answer :=
  match env.answers.verify .gone nonce r.headers r.body now with
  | .error e => .unverified ([.text "404 refused: "] ++ e)
  | .ok () =>
    match checkGone env r.body gateway with
    | .error e => .unverified ([.text "404 refused: "] ++ e)
    | .ok () => .gone

/-- What the status of a response read makes of it. -/
def byStatus : Answer :=
  if r.status = 200 then ok env nonce now r
  else if r.status = 204 then noContent env request nonce now r
  else if r.status = 503 ∧ (r.headers "x-portail-standby").isSome then .standby
  else if env.via = .apiserverProxy ∧ env.isApiserverStatus r.body then
    .retry (retryAfter r.headers)
  else if r.status ≠ 404 then .retry (retryAfter r.headers)
  else notFound env gateway nonce now r

end

/-- What a poll takes an answer for. A body is read before it is verified, up to a bound. -/
def exchange (env : SyncEnv D J) (gateway : GatewayKey) (request : SyncRequest L I)
    (nonce : Bytes) (now : ℕ) : Outcome → Answer
  | .failed => .retry none
  | .response r =>
    let declared := (r.headers "content-length").bind parseU64
    match declared.filter (env.maxAnswer < ·) with
    | some len =>
      .unverified [.text "an answer of ", .num len, .text " bytes, over ", .num env.maxAnswer]
    | none =>
      if env.maxAnswer < r.body.length then
        .unverified [.text "an answer over ", .num env.maxAnswer, .text " bytes"]
      else if r.broken then .retry none
      else byStatus env gateway request nonce now r

end

section

/-- A 200 whose snapshot cannot be served, with the version it names if any. -/
structure Unusable where
  version : Option Str
  error : Message

/-- What the applier is told to do. -/
inductive Effect (D : Type)
  | apply (snapshot : Snapshot D)
  | clear

structure SyncLoop (D L I : Type) where
  gateway : GatewayKey
  current : Option (Snapshot D)
  haveVersion : Str
  report : Option (InstanceReport L I)
  refused : Option (Str × Message)
  unverified : Option Message
  connected : Bool
  /-- How often the config served was confirmed. -/
  confirmations : ℕ
  /-- What the applier was told, in order. -/
  effects : List (Effect D)

variable {D J L I : Type}

def decodeSnapshot (env : SyncEnv D J) (body : Bytes) : Except Unusable (Snapshot D) :=
  match env.parseJson body with
  | none => .error ⟨none, [.text "not JSON"]⟩
  | some value =>
    match (env.versionOf value).filter fun v => v.octets ≠ [] with
    | none => .error ⟨none, [.text "a snapshot without a version"]⟩
    | some version =>
      match env.protocolOf value with
      | none => .error ⟨some version, [.text "snapshot protocol none, this data plane speaks ",
          .num protocol]⟩
      | some sent =>
        if sent ≠ protocol then
          .error ⟨some version, [.text "snapshot protocol ", .num sent,
            .text ", this data plane speaks ", .num protocol]⟩
        else
          match env.fromValue value with
          | .ok snapshot => .ok snapshot
          | .error e => .error ⟨some version, [.text "snapshot does not decode: "] ++ e⟩

namespace SyncLoop

def new (gateway : GatewayKey) : SyncLoop D L I :=
  ⟨gateway, none, Str.lit "", none, none, none, false, 0, []⟩

/-- While answers are not taken, the reports say why. -/
def request (s : SyncLoop D L I) : SyncRequest L I where
  protocol := protocol
  gateway := s.gateway
  haveVersion := s.haveVersion
  report := s.report.map fun report =>
    match s.unverified with
    | some error => { report with applyError := some error }
    | none => report

/-- The controller answered; `current` says that what it said is served now. -/
def answered (s : SyncLoop D L I) (current : Bool) : SyncLoop D L I :=
  { s with
    unverified := none
    connected := true
    confirmations := if current then s.confirmations + 1 else s.confirmations }

def asReported (s : SyncLoop D L I) (report : InstanceReport L I) : InstanceReport L I :=
  match s.refused with
  | some (version, error) =>
    { report with applied := version, applyError := some error, listeners := [] }
  | none => report

/-- The applier's report comes back with the snapshot applied. -/
def serve (s : SyncLoop D L I) (snapshot : Snapshot D) (report : InstanceReport L I) :
    SyncLoop D L I :=
  { s with
    refused := none
    effects := s.effects ++ [.apply snapshot]
    haveVersion := snapshot.version
    report := some report
    current := some snapshot }

/-- The table served stays. `blank` is the report of an instance that has applied nothing. -/
def refuse (s : SyncLoop D L I) (version : Str) (error : Message) (blank : InstanceReport L I) :
    SyncLoop D L I :=
  let refusing := { s with haveVersion := version, refused := some (version, error) }
  { refusing with report := some (refusing.asReported (s.report.getD blank)) }

def gone (s : SyncLoop D L I) : SyncLoop D L I :=
  { s with
    effects := if s.current.isSome then s.effects ++ [.clear] else s.effects
    current := none
    haveVersion := Str.lit ""
    report := none
    refused := none }

def failed (s : SyncLoop D L I) : SyncLoop D L I := { s with connected := false }

def handle (env : SyncEnv D J) (s : SyncLoop D L I) (answer : Answer)
    (applied blank : InstanceReport L I) : SyncLoop D L I :=
  match answer with
  | .unchanged => s.answered s.refused.isNone
  | .pending | .left => s.answered false
  | .gone => (s.answered true).gone
  | .standby => s.failed
  | .unverified error => { s with unverified := some error }.failed
  | .retry _ => s.failed
  | .snapshot body =>
    match decodeSnapshot env body with
    | .ok snapshot =>
      if snapshot.gateway = s.gateway then (s.answered true).serve snapshot applied
      else
        (s.answered false).refuse snapshot.version
          ([.text "snapshot is for Gateway "] ++ snapshot.gateway.display) blank
    | .error ⟨some version, error⟩ => (s.answered false).refuse version error blank
    | .error ⟨none, _⟩ => s.failed

variable [DecidableEq L] [DecidableEq I]

/-- The snapshot served is applied again. Whether the report moved. -/
def reapply (s : SyncLoop D L I) (applied : InstanceReport L I) : SyncLoop D L I × Bool :=
  match s.current with
  | none => (s, false)
  | some snapshot =>
    let report := s.asReported applied
    ({ s with effects := s.effects ++ [.apply snapshot], report := some report },
      s.report ≠ some report)

/-- Backend pods came or went. Whether the report moved. -/
def dnsMoved (s : SyncLoop D L I) (epoch : ℕ) : SyncLoop D L I × Bool :=
  match s.report with
  | none => (s, false)
  | some report =>
    if report.dnsEpoch ≠ epoch then
      ({ s with report := some { report with dnsEpoch := epoch } }, true)
    else (s, false)

end SyncLoop

/-- A poll: its request, and the nonce drawn as it is sent. -/
structure Poll (L I : Type) where
  request : SyncRequest L I
  nonce : Option Bytes

structure World (D L I : Type) where
  loop : SyncLoop D L I
  poll : Option (Poll L I)

/-- A turn of the loop begins with its request; the poll draws a nonce from random octets and is
answered. Meanwhile a listener exits or a rebind falls due, and DNS moves; a report that moves
drops the poll. -/
inductive Event (L I : Type)
  | begin
  | send (random : Bytes)
  | answer (outcome : Outcome) (now : ℕ) (applied blank : InstanceReport L I)
  | reapply (applied : InstanceReport L I)
  | dns (epoch : ℕ)

variable [DecidableEq L] [DecidableEq I]

def World.local (w : World D L I) (moved : SyncLoop D L I × Bool) : World D L I :=
  ⟨moved.1, if moved.2 then none else w.poll⟩

def World.step (env : SyncEnv D J) (w : World D L I) : Event L I → World D L I
  | .begin =>
    match w.poll with
    | none => { w with poll := some ⟨w.loop.request, none⟩ }
    | some _ => w
  | .send random =>
    match w.poll with
    | some ⟨request, none⟩ => { w with poll := some ⟨request, some (newNonce random)⟩ }
    | _ => w
  | .answer outcome now applied blank =>
    match w.poll with
    | some ⟨request, some nonce⟩ =>
      ⟨w.loop.handle env (exchange env w.loop.gateway request nonce now outcome) applied blank,
        none⟩
    | _ => w
  | .reapply applied => w.local (w.loop.reapply applied)
  | .dns epoch => w.local (w.loop.dnsMoved epoch)

/-- The loop of a Gateway after events. -/
def run (env : SyncEnv D J) (gateway : GatewayKey) (events : List (Event L I)) : World D L I :=
  events.foldl (World.step env) ⟨.new gateway, none⟩

end

section

variable {D J L I : Type} (env : SyncEnv D J) (log : Set SignedAnswer) (w : World D L I)
  (event : Event L I)

/-- The event answers the poll with a response of the status, under the poll's nonce. -/
def Answers (status : ℕ) (nonce : Bytes) (r : HttpResponse) : Prop :=
  ∃ request now applied blank, w.poll = some ⟨request, some nonce⟩ ∧
    event = .answer (.response r) now applied blank ∧ r.status = status

/-- A snapshot the controller signed for the poll's nonce, for the own Gateway. -/
def TakesSnapshot (snapshot : Snapshot D) : Prop :=
  ∃ nonce r, Answers w event 200 nonce r ∧ Vouched log .snapshot nonce r.body ∧
    decodeSnapshot env r.body = .ok snapshot ∧ snapshot.gateway = w.loop.gateway

/-- The controller's word for the poll's nonce that the own Gateway is gone. -/
def TakesGone : Prop :=
  ∃ nonce r, Answers w event 404 nonce r ∧ Vouched log .gone nonce r.body ∧
    env.parseGone r.body = .ok w.loop.gateway

/-- The controller's word for the poll's nonce that the version had is current, and it is the
one served. -/
def TakesUnchanged : Prop :=
  ∃ nonce r, Answers w event 204 nonce r ∧
    Vouched log .unchanged nonce w.loop.haveVersion.octets ∧ w.loop.refused = none

/-- What a step may do to the snapshot served, the applier and the confirmations. -/
structure Steered (w' : World D L I) : Prop where
  current : w'.loop.current = w.loop.current ∨
    (∃ snapshot, TakesSnapshot env log w event snapshot ∧ w'.loop.current = some snapshot) ∨
    TakesGone env log w event ∧ w'.loop.current = none
  effects : ∃ new, w'.loop.effects = w.loop.effects ++ new ∧ ∀ effect ∈ new,
    (∃ snapshot, effect = .apply snapshot ∧
      (w.loop.current = some snapshot ∨ TakesSnapshot env log w event snapshot)) ∨
    effect = .clear ∧ TakesGone env log w event
  confirmations : w'.loop.confirmations = w.loop.confirmations ∨
    (∃ snapshot, TakesSnapshot env log w event snapshot) ∨ TakesGone env log w event ∨
    TakesUnchanged log w event

end

section

variable {D J L I : Type} {env : SyncEnv D J} {gateway : GatewayKey} {request : SyncRequest L I}
  {nonce : Bytes} {now : ℕ} {outcome : Outcome}

theorem checkGone_ok {body : Bytes} (h : checkGone env body gateway = .ok ()) :
    env.parseGone body = .ok gateway := by
  unfold checkGone at h
  cases hparse : env.parseGone body with
  | error e => simp [hparse] at h
  | ok gone =>
    by_cases hgone : gone = gateway
    · rw [hgone]
    · simp [hparse, hgone] at h

/-- A response verified as what it is taken for, if that steers the data plane. -/
def Verified (env : SyncEnv D J) (gateway : GatewayKey) (request : SyncRequest L I)
    (nonce : Bytes) (now : ℕ) (r : HttpResponse) : Answer → Prop
  | .snapshot body => r.status = 200 ∧ r.body = body ∧
      env.answers.verify .snapshot nonce r.headers r.body now = .ok ()
  | .unchanged => r.status = 204 ∧
      env.answers.verify .unchanged nonce r.headers request.haveVersion.octets now = .ok ()
  | .gone => r.status = 404 ∧ env.answers.verify .gone nonce r.headers r.body now = .ok () ∧
      env.parseGone r.body = .ok gateway
  | _ => True

theorem byStatus_verified (r : HttpResponse) :
    Verified env gateway request nonce now r (byStatus env gateway request nonce now r) := by
  unfold byStatus
  split_ifs with h200 h204 hstandby hrefused h404
  · unfold ok
    split
    · next hverify => exact ⟨h200, rfl, hverify⟩
    · trivial
  · unfold noContent
    simp only
    split_ifs
    · split <;> trivial
    · split
      · next hverify => exact ⟨h204, hverify⟩
      · split <;> trivial
  · trivial
  · trivial
  · trivial
  · unfold notFound
    split
    · trivial
    · next hverify =>
      split
      · trivial
      · next hgone => exact ⟨by simpa using h404, hverify, checkGone_ok hgone⟩

variable (env gateway request nonce now outcome) in
/-- The answers that steer are verified responses. -/
theorem exchange_verified :
    (∃ r, outcome = .response r ∧ Verified env gateway request nonce now r
      (exchange env gateway request nonce now outcome)) ∨
    (∃ after, exchange env gateway request nonce now outcome = .retry after) := by
  cases outcome with
  | failed => exact .inr ⟨none, rfl⟩
  | response r =>
    refine .inl ⟨r, rfl, ?_⟩
    simp only [exchange]
    split
    · trivial
    · split_ifs
      · trivial
      · trivial
      · exact byStatus_verified r

end

section

variable {D J L I : Type} {env : SyncEnv D J} {log : Set SignedAnswer} {w w' : World D L I}
  {event : Event L I}

/-- The poll in flight names the version had, and its nonce is one line; what is served was
signed for the own Gateway. -/
structure Inv (env : SyncEnv D J) (log : Set SignedAnswer) (gateway : GatewayKey)
    (w : World D L I) : Prop where
  own : w.loop.gateway = gateway
  polled {p : Poll L I} : w.poll = some p → p.request.haveVersion = w.loop.haveVersion ∧
    ∀ nonce, p.nonce = some nonce → lf ∉ nonce
  served {snapshot : Snapshot D} : w.loop.current = some snapshot →
    ∃ nonce body, Vouched log .snapshot nonce body ∧ decodeSnapshot env body = .ok snapshot ∧
      snapshot.gateway = gateway

theorem Steered.same (hcurrent : w'.loop.current = w.loop.current)
    (heffects : w'.loop.effects = w.loop.effects)
    (hconfirmations : w'.loop.confirmations = w.loop.confirmations) : Steered env log w event w' :=
  ⟨.inl hcurrent, ⟨[], by simp [heffects], by simp⟩, .inl hconfirmations⟩

variable {gateway : GatewayKey}

/-- An answer that a poll verified steers the loop as the controller said. -/
theorem steered_answer (hsig : env.answers.Unforgeable log) (hinv : Inv env log gateway w)
    {request : SyncRequest L I} {nonce : Bytes} (hpoll : w.poll = some ⟨request, some nonce⟩)
    (outcome : Outcome) (now : ℕ) (applied blank : InstanceReport L I) (poll : Option (Poll L I)) :
    Steered env log w (.answer outcome now applied blank)
      ⟨w.loop.handle env (exchange env w.loop.gateway request nonce now outcome) applied blank,
        poll⟩ := by
  obtain ⟨hhave, hnonce⟩ := hinv.polled hpoll
  have hlf := hnonce nonce rfl
  rcases exchange_verified env w.loop.gateway request nonce now outcome with
    ⟨r, rfl, hverified⟩ | ⟨after, hretry⟩
  · have hanswers : Answers w (.answer (.response r) now applied blank) r.status nonce r :=
      ⟨request, now, applied, blank, hpoll, rfl, rfl⟩
    generalize exchange env w.loop.gateway request nonce now (.response r) = answer at hverified ⊢
    cases answer with
    | snapshot body =>
      obtain ⟨hstatus, rfl, hverify⟩ := hverified
      have hvouched := vouched_of_verify hsig hlf hverify
      simp only [SyncLoop.handle]
      split
      · next snapshot hdecode =>
        split_ifs with hown
        · have htaken :
            TakesSnapshot env log w (.answer (.response r) now applied blank) snapshot :=
            ⟨nonce, r, hstatus ▸ hanswers, hvouched, hdecode, hown⟩
          refine ⟨.inr (.inl ⟨snapshot, htaken, rfl⟩), ⟨[.apply snapshot], rfl, ?_⟩,
            .inr (.inl ⟨snapshot, htaken⟩)⟩
          simp only [List.mem_singleton]
          rintro _ rfl
          exact .inl ⟨snapshot, rfl, .inr htaken⟩
        · exact .same rfl rfl rfl
      · exact .same rfl rfl rfl
      · exact .same rfl rfl rfl
    | unchanged =>
      obtain ⟨hstatus, hverify⟩ := hverified
      rw [hhave] at hverify
      have hvouched := vouched_of_verify hsig hlf hverify
      refine ⟨.inl rfl, ⟨[], by simp [SyncLoop.handle, SyncLoop.answered], by simp⟩, ?_⟩
      cases hrefused : w.loop.refused with
      | none => exact .inr (.inr (.inr ⟨nonce, r, hstatus ▸ hanswers, hvouched, hrefused⟩))
      | some _ => exact .inl (by simp [SyncLoop.handle, SyncLoop.answered, hrefused])
    | gone =>
      obtain ⟨hstatus, hverify, hown⟩ := hverified
      have htaken : TakesGone env log w (.answer (.response r) now applied blank) :=
        ⟨nonce, r, hstatus ▸ hanswers, vouched_of_verify hsig hlf hverify, hown⟩
      refine ⟨.inr (.inr ⟨htaken, rfl⟩), ?_, .inr (.inr (.inl htaken))⟩
      cases hcurrent : w.loop.current with
      | none =>
        exact ⟨[], by simp [SyncLoop.handle, SyncLoop.gone, SyncLoop.answered, hcurrent], by simp⟩
      | some snapshot =>
        refine ⟨[.clear], by
          simp [SyncLoop.handle, SyncLoop.gone, SyncLoop.answered, hcurrent], ?_⟩
        simp only [List.mem_singleton]
        rintro _ rfl
        exact .inr ⟨rfl, htaken⟩
    | pending | left | standby | unverified error | retry after => exact .same rfl rfl rfl
  · rw [hretry]
    exact .same rfl rfl rfl

theorem handle_gateway (s : SyncLoop D L I) (answer : Answer) (applied blank : InstanceReport L I) :
    (s.handle env answer applied blank).gateway = s.gateway := by
  cases answer with
  | snapshot body =>
    simp only [SyncLoop.handle]
    split
    · split_ifs <;> rfl
    · rfl
    · rfl
  | _ => rfl

theorem dnsMoved_spec (s : SyncLoop D L I) (epoch : ℕ) :
    ∃ report, (s.dnsMoved epoch).1 = { s with report := report } := by
  unfold SyncLoop.dnsMoved
  split
  · exact ⟨s.report, rfl⟩
  · split_ifs
    · exact ⟨_, rfl⟩
    · exact ⟨s.report, rfl⟩

/-- What a steered step serves is signed if what was served before it is. -/
theorem Inv.of_steered (hinv : Inv env log gateway w)
    (hsteered : Steered env log w event w') (hown : w'.loop.gateway = w.loop.gateway)
    (hpolled : ∀ p, w'.poll = some p → p.request.haveVersion = w'.loop.haveVersion ∧
      ∀ nonce, p.nonce = some nonce → lf ∉ nonce) : Inv env log gateway w' where
  own := hown.trans hinv.own
  polled {p} hp := hpolled p hp
  served {snapshot} hserved := by
    rcases hsteered.current with hsame | ⟨taken, htaken, hcurrent⟩ | ⟨-, hcurrent⟩
    · exact hinv.served (hsame ▸ hserved)
    · obtain ⟨nonce, r, -, hvouched, hdecode, hgateway⟩ := htaken
      obtain rfl : taken = snapshot := Option.some.inj (hcurrent ▸ hserved)
      exact ⟨nonce, r.body, hvouched, hdecode, hgateway.trans hinv.own⟩
    · simp [hcurrent] at hserved

theorem Inv.new (gateway : GatewayKey) :
    Inv env log gateway (⟨.new gateway, none⟩ : World D L I) where
  own := rfl
  polled {p} hp := by simp at hp
  served {snapshot} hserved := by simp [SyncLoop.new] at hserved

theorem Inv.polled_local (hinv : Inv env log gateway w) {moved : SyncLoop D L I × Bool}
    (hhave : moved.1.haveVersion = w.loop.haveVersion) (p : Poll L I)
    (hp : (w.local moved).poll = some p) :
    p.request.haveVersion = moved.1.haveVersion ∧ ∀ nonce, p.nonce = some nonce → lf ∉ nonce := by
  unfold World.local at hp
  rw [hhave]
  split_ifs at hp
  exact hinv.polled hp

variable [DecidableEq L] [DecidableEq I]

/-- A re-apply tells the applier what is served already. -/
theorem reapply_spec (s : SyncLoop D L I) (applied : InstanceReport L I) :
    ∃ report, (s.reapply applied).1 =
      { s with effects := s.effects ++ (s.current.map Effect.apply).toList, report := report } := by
  obtain ⟨gateway, current, haveVersion, report, refused, unverified, connected⟩ := s
  cases current with
  | none => exact ⟨report, by simp [SyncLoop.reapply]⟩
  | some snapshot => exact ⟨_, rfl⟩

/-- Every event steers the loop as the controller said, or not at all. -/
theorem Inv.steered (hsig : env.answers.Unforgeable log) (hinv : Inv env log gateway w)
    (event : Event L I) : Steered env log w event (w.step env event) := by
  cases event with
  | begin | send random =>
    simp only [World.step]
    split <;> exact .same rfl rfl rfl
  | answer outcome now applied blank =>
    simp only [World.step]
    split
    · next request nonce hpoll => exact steered_answer hsig hinv hpoll ..
    · exact .same rfl rfl rfl
  | reapply applied =>
    obtain ⟨report, hspec⟩ := reapply_spec w.loop applied
    simp only [World.step, World.local, hspec]
    refine ⟨.inl rfl, ⟨_, rfl, ?_⟩, .inl rfl⟩
    simp only [Option.mem_toList, Option.map_eq_some_iff]
    rintro effect ⟨snapshot, hcurrent, rfl⟩
    exact .inl ⟨snapshot, rfl, .inl hcurrent⟩
  | dns epoch =>
    obtain ⟨report, hspec⟩ := dnsMoved_spec w.loop epoch
    simp only [World.step, World.local, hspec]
    exact .same rfl rfl rfl

theorem Inv.step (hsig : env.answers.Unforgeable log) (hinv : Inv env log gateway w)
    (event : Event L I) : Inv env log gateway (w.step env event) := by
  have hsteered := hinv.steered hsig event
  cases event with
  | begin =>
    cases hpoll : w.poll with
    | none =>
      simp only [World.step, hpoll] at hsteered ⊢
      refine hinv.of_steered hsteered rfl fun p hp => ?_
      cases hp
      exact ⟨rfl, by simp⟩
    | some p => simpa only [World.step, hpoll] using hinv
  | send random =>
    simp only [World.step] at hsteered ⊢
    split
    · next request hpoll =>
      rw [hpoll] at hsteered
      refine hinv.of_steered hsteered rfl fun p hp => ?_
      cases hp
      refine ⟨(hinv.polled hpoll).1, fun nonce hnonce => ?_⟩
      cases hnonce
      exact lf_notMem_newNonce random
    · exact hinv
  | answer outcome now applied blank =>
    simp only [World.step] at hsteered ⊢
    split
    · next request nonce hpoll =>
      rw [hpoll] at hsteered
      exact hinv.of_steered hsteered (handle_gateway ..) (by simp)
    · exact hinv
  | reapply applied =>
    obtain ⟨report, hspec⟩ := reapply_spec w.loop applied
    exact hinv.of_steered hsteered (by simp [World.step, World.local, hspec])
      (hinv.polled_local (by simp [hspec]))
  | dns epoch =>
    obtain ⟨report, hspec⟩ := dnsMoved_spec w.loop epoch
    exact hinv.of_steered hsteered (by simp [World.step, World.local, hspec])
      (hinv.polled_local (by simp [hspec]))

theorem inv_run (hsig : env.answers.Unforgeable log) (gateway : GatewayKey)
    (events : List (Event L I)) : Inv env log gateway (run env gateway events) := by
  induction events using List.reverseRecOn with
  | nil => exact .new gateway
  | append_singleton events event ih =>
    rw [run, List.foldl_append]
    exact ih.step hsig event

/-- Along every run, whoever answers: another snapshot is served, listeners are closed and the
config counts as confirmed only on the controller's own word for the poll at hand, and what is
served is a snapshot it signed for the own Gateway. -/
theorem only_signed_answers_steer (env : SyncEnv D J) (log : Set SignedAnswer)
    (hsig : env.answers.Unforgeable log) (gateway : GatewayKey) (events : List (Event L I))
    (event : Event L I) :
    Steered env log (run env gateway events) event (run env gateway (events ++ [event])) ∧
    (run env gateway events).loop.gateway = gateway ∧
    ∀ snapshot, (run env gateway events).loop.current = some snapshot →
      ∃ nonce body, Vouched log .snapshot nonce body ∧
        decodeSnapshot env body = .ok snapshot ∧ snapshot.gateway = gateway := by
  have hinv := inv_run hsig gateway events
  have hstep : run env gateway (events ++ [event]) = (run env gateway events).step env event := by
    simp [run]
  rw [hstep]
  exact ⟨hinv.steered hsig event, hinv.own, fun _ => hinv.served⟩

end

/-- The nonce of sixteen zero octets. -/
def zeroNonce : Bytes := newNonce (List.replicate nonceBytes 0)

def goneBody : Bytes :=
  bytes "\x7b\"gateway\":\x7b\"namespace\":\"default\",\"name\":\"edge\"\x7d\x7d"

/-- The controller's word that the Gateway is gone. -/
def goneAnswer : SignedAnswer := ⟨.gone, zeroNonce, goneBody, by decide +kernel⟩

def someGateway : GatewayKey := ⟨Str.lit "default", Str.lit "edge"⟩

def someLeaf : Bytes := bytes "leaf"

def goneSignature : Bytes := bytes "signature"

/-- Only the gone answer verifies, with its signature and the leaf. -/
def goneEnv : SyncEnv Unit Unit where
  answers := ⟨fun leaf _ => if leaf = someLeaf then none else some [.text "UnknownIssuer"],
    fun _ message signature =>
      if message = goneAnswer.message ∧ signature = goneSignature then none
      else some [.text "InvalidSignature"]⟩
  parseGone body := if body = goneBody then .ok someGateway else .error [.text "expected value"]
  parseJson _ := none
  versionOf _ := none
  protocolOf _ := none
  fromValue _ := .error []
  isApiserverStatus _ := false
  via := .direct
  maxAnswer := 64

theorem goneEnv_unforgeable : goneEnv.answers.Unforgeable {goneAnswer} := by
  intro leaf now message signature _ hverify
  by_cases hmessage : message = goneAnswer.message
  · exact ⟨goneAnswer, rfl, hmessage.symm⟩
  · simp [goneEnv, hmessage] at hverify

def goneHeaders (name : String) : Option Bytes :=
  if name = "x-portail-signature" then some (base64Encode goneSignature)
  else if name = "x-portail-signer" then some (base64Encode someLeaf)
  else none

def goneResponse : HttpResponse := ⟨404, goneHeaders, goneBody, false⟩

def blankReport : InstanceReport Unit Unit := ⟨Str.lit "", none, [], (), 0, false⟩

def firstPoll : List (Event Unit Unit) := [.begin, .send (List.replicate nonceBytes 0)]

def goneEvent : Event Unit Unit := .answer (.response goneResponse) 0 blankReport blankReport

/-- That the Gateway is gone counts as a confirmation: there is nothing to serve, and nothing is
served. -/
theorem gone_confirms :
    goneEnv.answers.Unforgeable {goneAnswer} ∧
    (run goneEnv someGateway firstPoll).loop.confirmations = 0 ∧
    (run goneEnv someGateway (firstPoll ++ [goneEvent])).loop.confirmations = 1 ∧
    (¬ ∃ snapshot, TakesSnapshot goneEnv {goneAnswer} (run goneEnv someGateway firstPoll)
      goneEvent snapshot) ∧
    ¬ TakesUnchanged {goneAnswer} (run goneEnv someGateway firstPoll) goneEvent := by
  refine ⟨goneEnv_unforgeable, rfl, by decide +kernel, ?_, ?_⟩
  · rintro ⟨snapshot, nonce, r, ⟨_, _, _, _, -, hevent, hstatus⟩, -⟩
    cases hevent
    exact absurd hstatus (by decide)
  · rintro ⟨nonce, r, ⟨_, _, _, _, -, hevent, hstatus⟩, -⟩
    cases hevent
    exact absurd hstatus (by decide)

theorem only_signed_answers_steer_gone :
    goneEnv.answers.Unforgeable {goneAnswer} ∧
    Steered goneEnv {goneAnswer} (run goneEnv someGateway firstPoll) goneEvent
      (run goneEnv someGateway (firstPoll ++ [goneEvent])) :=
  ⟨goneEnv_unforgeable, (only_signed_answers_steer goneEnv {goneAnswer} goneEnv_unforgeable
    someGateway firstPoll goneEvent).1⟩

end Portail.Sync
