import Portail.Lib.Runs
import Portail.Sync.Signed

/-!
# Snapshots served and polls held

The hub of `controller/hub.rs` with those that write and read it: store events and the
forget each delete is owed, reconcile passes, one at a time for a Gateway, up to their
publish (`reconcile.rs`), and polls that the handler let in (`server.rs`). Each takes its
steps apart: where it awaits, and where it reads or writes what others do. A snapshot is
its version; times, statuses, reports and what a pass provisions are left out. Beside the hub
stands a record of what was published last on each channel, which nothing reads.
-/

namespace Portail.Controller.Polls

open Lib Config Sync

/-- A slot's watch channel. Every value sent moves the stamp, by which a receiver sees that there
is a new one. -/
structure Channel where
  key : GatewayKey
  current : Option Str
  stamp : ℕ
  closed : Bool

structure Hub where
  slots : GatewayKey → Option ℕ
  channels : ℕ → Channel
  next : ℕ

namespace Hub

/-- The slot of a Gateway, a new one where it has none. -/
def entry (hub : Hub) (key : GatewayKey) : Hub × ℕ :=
  match hub.slots key with
  | some c => (hub, c)
  | none =>
    ({ slots := Function.update hub.slots key (some hub.next)
       channels := Function.update hub.channels hub.next ⟨key, none, 0, false⟩
       next := hub.next + 1 }, hub.next)

/-- A version that is served already wakes no poll. -/
def publish (hub : Hub) (key : GatewayKey) (version : Str) : Hub :=
  let (hub, c) := hub.entry key
  let channel := hub.channels c
  if channel.current = some version then hub
  else
    let sent := { channel with current := some version, stamp := channel.stamp + 1 }
    { hub with channels := Function.update hub.channels c sent }

/-- The slots of the Gateways that `live` rejects go, and their channels close. -/
def retain (hub : Hub) (live : GatewayKey → Bool) : Hub :=
  { hub with
    slots := fun key => if live key then hub.slots key else none
    channels := fun c =>
      let channel := hub.channels c
      if live channel.key then channel else { channel with closed := true } }

def remove (hub : Hub) (key : GatewayKey) : Hub := hub.retain fun k => k ≠ key

def subscribe (hub : Hub) (key : GatewayKey) : Hub × ℕ := hub.entry key

end Hub

section

structure GatewayObject where
  uid : Str
  className : Str

inductive ClassOwner
  | ours
  | other
  | missing
  deriving DecidableEq

/-- Whose a Gateway is, by the controller its class names. -/
def classOwner (classes : Str → Option Str) (className controllerName : Str) : ClassOwner :=
  match classes className with
  | some controller => if controller = controllerName then .ours else .other
  | none => .missing

/-- Where a pass stands, with the Gateway it is for. -/
inductive Pass
  | began (gateway : GatewayObject)
  | publishing (gateway : GatewayObject)
  | checking (gateway : GatewayObject)
  | removing

inductive Answer
  | served (version : Str)
  | unchanged (version : Str)
  | pending
  | gone
  | standby
  deriving DecidableEq

/-- Where a poll stands: the Gateway it asks for, the version it has, its channel, and the stamp it
has seen. -/
inductive Poll
  | absent
  | accepted (key : GatewayKey) (haveVersion : Str)
  | subscribed (key : GatewayKey) (haveVersion : Str) (chan : ℕ)
  | judging (key : GatewayKey) (haveVersion : Str) (chan : ℕ) (found : Option GatewayObject)
  | tooLate (key : GatewayKey)
  | looping (key : GatewayKey) (haveVersion : Str) (chan : ℕ)
  | waiting (key : GatewayKey) (haveVersion : Str) (chan seen : ℕ)
  | answered (answer : Answer)
  | dropped

structure World (ι : Type) where
  store : GatewayKey → Option GatewayObject
  classes : Str → Option Str
  owed : Bool
  forgetting : Option (GatewayKey → Bool)
  hub : Hub
  published : ℕ → Option Str
  passes : GatewayKey → Option Pass
  polls : ι → Poll

variable {ι : Type} [DecidableEq ι]

/-- Whether a Gateway found in the store, or not, is one of ours. -/
def serves (classes : Str → Option Str) (controllerName : Str) (found : Option GatewayObject) :
    Bool :=
  found.any fun g => classOwner classes g.className controllerName != .other

/-- The answer to a poll nothing newer came for. -/
def held (served : Option Str) (haveVersion : Str) : Answer :=
  match served with
  | some version => if version = haveVersion then .unchanged version else .served version
  | none => .pending

/-- The top of a poll's loop. -/
def look (key : GatewayKey) (haveVersion : Str) (chan : ℕ) (channel : Channel) : Poll :=
  match channel.current.filter (· ≠ haveVersion) with
  | some version => .answered (.served version)
  | none => .waiting key haveVersion chan channel.stamp

/-- Whether the Gateway a pass is for is gone from the store. -/
def isStale (store : GatewayKey → Option GatewayObject) (key : GatewayKey)
    (gateway : GatewayObject) : Bool :=
  (store key).all fun now => now.uid ≠ gateway.uid

def World.setPoll (w : World ι) (i : ι) (p : Poll) : World ι :=
  { w with polls := Function.update w.polls i p }

def World.setPass (w : World ι) (key : GatewayKey) (p : Option Pass) : World ι :=
  { w with passes := Function.update w.passes key p }

variable (controllerName : Str) in
/-- A step of the store, of the forget that deletes owe, of a Gateway's pass or of a poll. -/
inductive Step (w : World ι) : World ι → Prop
  | applied (key : GatewayKey) (g : GatewayObject) :
      Step w { w with store := Function.update w.store key (some g) }
  | deleted (key : GatewayKey) :
      Step w { w with store := Function.update w.store key none, owed := true }
  | relisted (store : GatewayKey → Option GatewayObject) :
      Step w { w with store := store, owed := true }
  | classesMoved (classes : Str → Option Str) : Step w { w with classes := classes }
  | forget : w.owed = true → w.forgetting = none →
      Step w { w with owed := false, forgetting := some fun key => (w.store key).isSome }
  | forgot {live} : w.forgetting = some live →
      Step w { w with forgetting := none, hub := w.hub.retain live }
  | passBegins {key g} : w.passes key = none →
      w.store key = some g → Step w (w.setPass key (some (.began g)))
  | passSkips {key g} : w.passes key = some (.began g) → Step w (w.setPass key none)
  | passReleases {key g} : w.passes key = some (.began g) →
      classOwner w.classes g.className controllerName = .other →
      Step w (w.setPass key (some .removing))
  | passTranslates {key g} : w.passes key = some (.began g) →
      classOwner w.classes g.className controllerName = .ours →
      Step w (w.setPass key (some (.publishing g)))
  | passRejects {key g} : w.passes key = some (.publishing g) →
      Step w (w.setPass key (some (.checking g)))
  | passPublishes {key g} (version : Str) : w.passes key = some (.publishing g) →
      Step w
        { w.setPass key (some (.checking g)) with
          hub := w.hub.publish key version
          published := Function.update w.published (w.hub.entry key).2 (some version) }
  | passChecks {key g} : w.passes key = some (.checking g) →
      Step w (w.setPass key (if isStale w.store key g then some .removing else none))
  | passRemoves {key} : w.passes key = some .removing →
      Step w { w.setPass key none with hub := w.hub.remove key }
  | pollComes {i} (key : GatewayKey) (haveVersion : Str) :
      w.polls i = .absent → Step w (w.setPoll i (.accepted key haveVersion))
  | pollSubscribes {i key haveVersion} : w.polls i = .accepted key haveVersion →
      Step w
        { w.setPoll i (.subscribed key haveVersion (w.hub.subscribe key).2) with
          hub := (w.hub.subscribe key).1 }
  | pollAsks {i key haveVersion chan} : w.polls i = .subscribed key haveVersion chan →
      Step w (w.setPoll i (.judging key haveVersion chan (w.store key)))
  | pollJudges {i key haveVersion chan found} : w.polls i = .judging key haveVersion chan found →
      Step w (w.setPoll i
        (if serves w.classes controllerName found then .looping key haveVersion chan
        else .tooLate key))
  | pollRemoves {i key} : w.polls i = .tooLate key →
      Step w { w.setPoll i (.answered .gone) with hub := w.hub.remove key }
  | pollLooks {i key haveVersion chan} : w.polls i = .looping key haveVersion chan →
      Step w (w.setPoll i (look key haveVersion chan (w.hub.channels chan)))
  | pollWakes {i key haveVersion chan seen} :
      w.polls i = .waiting key haveVersion chan seen → (w.hub.channels chan).stamp ≠ seen →
      Step w (w.setPoll i (.looping key haveVersion chan))
  | pollCloses {i key haveVersion chan seen} :
      w.polls i = .waiting key haveVersion chan seen → (w.hub.channels chan).stamp = seen →
      (w.hub.channels chan).closed = true →
      Step w (w.setPoll i (.answered .gone))
  | pollHeld {i key haveVersion chan seen} : w.polls i = .waiting key haveVersion chan seen →
      Step w (w.setPoll i (.answered (held (w.hub.channels chan).current haveVersion)))
  | pollStops {i key haveVersion chan seen} : w.polls i = .waiting key haveVersion chan seen →
      Step w (w.setPoll i (.answered .standby))
  | pollDropped {i key haveVersion} : (w.polls i = .accepted key haveVersion ∨
        ∃ chan seen, w.polls i = .waiting key haveVersion chan seen) →
      Step w (w.setPoll i .dropped)

/-- Nothing is served, and no pass or poll has begun. -/
def Fresh (w : World ι) : Prop :=
  (∀ key, w.hub.slots key = none) ∧ w.hub.next = 0 ∧ (∀ c, w.published c = none) ∧
    w.forgetting = none ∧ (∀ key, w.passes key = none) ∧ ∀ i, w.polls i = .absent

end
end Portail.Controller.Polls
