import Portail.Controller.Hub

/-!
# What the hub keeps and what a poll is told

A slot for a Gateway that is not in the store has someone on the way to remove it: a forget
that is owed or running, or the pass or poll that made the slot and has yet to look at the
store. What a channel was sent last is what was published last; a poll that sleeps has seen all
that its channel was sent.
-/

namespace Portail.Controller.Polls

open Lib Config Sync Function

section

/-- A slot's channel is its Gateway's, and every channel holds what was published last on it. -/
structure Hub.Ok (hub : Hub) (published : ℕ → Option Str) : Prop where
  slot {key c} : hub.slots key = some c → c < hub.next ∧ (hub.channels c).key = key
  sent c : published c = if c < hub.next then (hub.channels c).current else none

variable {hub : Hub} {key k : GatewayKey} {c : ℕ}

/-- What a channel that was there was sent since. -/
structure Hub.Later (hub hub' : Hub) : Prop where
  next : hub.next ≤ hub'.next
  key : ∀ c < hub.next, (hub'.channels c).key = (hub.channels c).key
  sent : ∀ c < hub.next, (hub'.channels c).stamp = (hub.channels c).stamp ∧
    (hub'.channels c).current = (hub.channels c).current ∨
      (hub.channels c).stamp < (hub'.channels c).stamp

theorem Hub.Later.refl (hub : Hub) : hub.Later hub :=
  ⟨le_rfl, fun _ _ => rfl, fun _ _ => .inl ⟨rfl, rfl⟩⟩

theorem entry_slots (h : (hub.entry key).1.slots k = some c) : k = key ∨ hub.slots k = some c := by
  unfold Hub.entry at h
  cases hslot : hub.slots key with simp only [hslot] at h
  | some d => exact .inr h
  | none =>
    by_cases hk : k = key
    · exact .inl hk
    · rw [update_of_ne hk] at h
      exact .inr h

theorem entry_slot (hub : Hub) (key : GatewayKey) :
    (hub.entry key).1.slots key = some (hub.entry key).2 := by
  unfold Hub.entry
  cases hslot : hub.slots key with
  | some d => exact hslot
  | none => exact update_self ..

variable {published : ℕ → Option Str} (h : hub.Ok published)

include h in
theorem entry_spec (key : GatewayKey) :
    (hub.entry key).1.Ok published ∧ hub.Later (hub.entry key).1 := by
  unfold Hub.entry
  cases hslot : hub.slots key with simp only
  | some d => exact ⟨h, .refl hub⟩
  | none =>
    have hsame (c : ℕ) (hc : c < hub.next) :
        Function.update hub.channels hub.next ⟨key, none, 0, false⟩ c = hub.channels c :=
      update_of_ne hc.ne _ _
    refine ⟨⟨fun {k c} hk => ?_, fun c => ?_⟩, Nat.le_succ _, fun c hc => ?_, fun c hc => .inl ?_⟩
    · simp only [update_apply] at hk ⊢
      split_ifs at hk with hkey
      · cases hk
        rw [if_pos rfl]
        exact ⟨Nat.lt_succ_self _, hkey.symm⟩
      · obtain ⟨hlt, hc⟩ := h.slot hk
        rw [if_neg hlt.ne]
        exact ⟨Nat.lt_succ_of_lt hlt, hc⟩
    · rw [h.sent c]
      simp only [update_apply]
      split_ifs <;> first | rfl | omega
    · exact congrArg Channel.key (hsame c hc)
    · exact ⟨congrArg Channel.stamp (hsame c hc), congrArg Channel.current (hsame c hc)⟩

theorem publish_slots {version : Str} :
    (hub.publish key version).slots = (hub.entry key).1.slots := by
  unfold Hub.publish
  simp only
  split_ifs
  · rfl
  · rfl

include h in
theorem publish_spec (key : GatewayKey) (version : Str) :
    (hub.publish key version).Ok (Function.update published (hub.entry key).2 (some version)) ∧
      hub.Later (hub.publish key version) := by
  obtain ⟨hok, hlater⟩ := entry_spec h key
  have hnew := (hok.slot (entry_slot hub key)).1
  unfold Hub.publish
  simp only
  split_ifs with hsame
  · refine ⟨⟨hok.slot, fun c => ?_⟩, hlater⟩
    rw [update_apply, hok.sent c]
    split_ifs with hc
    · rw [hc, hsame]
    · exact absurd (hc ▸ hnew) ‹_›
    · rfl
    · rfl
  · refine ⟨⟨fun {k c} hk => ?_, fun c => ?_⟩, hlater.next, fun c hc => ?_, fun c hc => ?_⟩
    · obtain ⟨hlt, hc⟩ := hok.slot hk
      refine ⟨hlt, ?_⟩
      simp only [update_apply]
      split_ifs with hslot
      · rw [hslot] at hc
        exact hc
      · exact hc
    · simp only [update_apply, hok.sent c]
      split_ifs with hc
      · rfl
      · exact absurd (hc ▸ hnew) ‹_›
      · rfl
      · rfl
    · simp only [update_apply]
      split_ifs with hslot
      · rw [← hslot]
        exact hlater.key c hc
      · exact hlater.key c hc
    · have hsent := hlater.sent c hc
      simp only [update_apply]
      split_ifs with hslot
      · right
        rw [← hslot]
        simp only
        omega
      · exact hsent

theorem retain_slots {live : GatewayKey → Bool} (h : (hub.retain live).slots k = some c) :
    hub.slots k = some c ∧ live k = true := by
  unfold Hub.retain at h
  simp only at h
  split_ifs at h with hlive
  exact ⟨h, hlive⟩

include h in
theorem retain_spec (live : GatewayKey → Bool) :
    (hub.retain live).Ok published ∧ hub.Later (hub.retain live) := by
  have hsame (c : ℕ) : ((hub.retain live).channels c).key = (hub.channels c).key ∧
      ((hub.retain live).channels c).stamp = (hub.channels c).stamp ∧
        ((hub.retain live).channels c).current = (hub.channels c).current := by
    unfold Hub.retain
    simp only
    split_ifs <;> exact ⟨rfl, rfl, rfl⟩
  refine ⟨⟨fun {k c} hk => ?_, fun c => ?_⟩, le_rfl, fun c _ => (hsame c).1,
    fun c _ => .inl (hsame c).2⟩
  · obtain ⟨hlt, hc⟩ := h.slot (retain_slots hk).1
    exact ⟨hlt, (hsame c).1.trans hc⟩
  · rw [(hsame c).2.2]
    exact h.sent c

theorem remove_slots (h : (hub.remove key).slots k = some c) :
    hub.slots k = some c ∧ k ≠ key := by
  obtain ⟨hslot, hk⟩ := retain_slots h
  exact ⟨hslot, by simpa using hk⟩

end

section

variable {ι : Type} {controllerName : Str} {w w' : World ι} {key : GatewayKey} {i : ι}

/-- What a poll knows of its channel. -/
def PollInv (hub : Hub) : Poll → Prop
  | .subscribed key _ chan | .judging key _ chan _ | .looping key _ chan =>
    chan < hub.next ∧ (hub.channels chan).key = key
  | .waiting key haveVersion chan seen =>
    chan < hub.next ∧ (hub.channels chan).key = key ∧ seen ≤ (hub.channels chan).stamp ∧
      (seen = (hub.channels chan).stamp →
        ∀ version ∈ (hub.channels chan).current, version = haveVersion)
  | _ => True

variable {hub : Hub} {p : Poll}

theorem PollInv.later {hub' : Hub} (hlater : hub.Later hub') (h : PollInv hub p) :
    PollInv hub' p := by
  have hchan {key : GatewayKey} {chan : ℕ}
      (h : chan < hub.next ∧ (hub.channels chan).key = key) :
      chan < hub'.next ∧ (hub'.channels chan).key = key :=
    ⟨h.1.trans_le hlater.next, (hlater.key chan h.1).trans h.2⟩
  cases p with
  | subscribed key haveVersion chan | judging key haveVersion chan found
  | looping key haveVersion chan => exact hchan h
  | waiting key haveVersion chan seen =>
    obtain ⟨hlt, hkey, hseen, hasleep⟩ := h
    obtain ⟨hlt', hkey'⟩ := hchan ⟨hlt, hkey⟩
    refine ⟨hlt', hkey', ?_⟩
    rcases hlater.sent chan hlt with ⟨hstamp, hcurrent⟩ | hstamp
    · rw [hstamp, hcurrent]
      exact ⟨hseen, hasleep⟩
    · exact ⟨by omega, fun heq => by omega⟩
  | _ => trivial

/-- The pass has yet to look whether its Gateway is in the store, or found that it is not. -/
def Pass.settles : Pass → Bool
  | .checking _ | .removing => true
  | _ => false

/-- The poll has yet to look whether its Gateway is in the store, or found that it is not. -/
def Poll.settles (key : GatewayKey) : Poll → Prop
  | .subscribed k _ _ | .judging k _ _ none | .tooLate k => k = key
  | _ => False

/-- Someone will remove the slot of a Gateway that is not in the store. -/
def Watched (w : World ι) (key : GatewayKey) : Prop :=
  w.owed = true ∨ (∃ live, w.forgetting = some live ∧ live key = false) ∨
    (w.passes key).any Pass.settles = true ∨ ∃ i, (w.polls i).settles key

structure Inv (w : World ι) : Prop where
  hub : w.hub.Ok w.published
  polls : ∀ i, PollInv w.hub (w.polls i)
  watched : ∀ key c, w.hub.slots key = some c → w.store key = none → Watched w key

theorem inv_fresh (h : Fresh w) : Inv w := by
  obtain ⟨hslots, hnext, hnone, -, -, hpolls⟩ := h
  refine ⟨⟨fun hslot => ?_, fun c => ?_⟩, fun i => ?_, fun key c hslot => ?_⟩
  · rw [hslots] at hslot
    cases hslot
  · rw [hnone c, hnext, if_neg (Nat.not_lt_zero c)]
  · rw [hpolls i]
    trivial
  · rw [hslots key] at hslot
    cases hslot

theorem Inv.poll (h : Inv w) {q : Poll} (hpoll : w.polls i = q) : PollInv w.hub q :=
  hpoll ▸ h.polls i

variable [DecidableEq ι]

theorem Watched.setPoll (h : Watched w key) (hi : (w.polls i).settles key → p.settles key) :
    Watched (w.setPoll i p) key := by
  rcases h with howed | hforget | hpass | ⟨j, hj⟩
  · exact .inl howed
  · exact .inr (.inl hforget)
  · exact .inr (.inr (.inl hpass))
  · refine .inr (.inr (.inr ⟨j, ?_⟩))
    by_cases hij : j = i
    · subst hij
      simp only [World.setPoll, update_self]
      exact hi hj
    · simp only [World.setPoll, update_of_ne hij]
      exact hj

omit [DecidableEq ι] in
theorem Watched.setPass {k : GatewayKey} {p : Option Pass} (h : Watched w key)
    (hk : k = key → (w.passes k).any Pass.settles = true → p.any Pass.settles = true) :
    Watched (w.setPass k p) key := by
  rcases h with howed | hforget | hpass | hpoll
  · exact .inl howed
  · exact .inr (.inl hforget)
  · refine .inr (.inr (.inl ?_))
    by_cases hkey : k = key
    · subst hkey
      simp only [World.setPass, update_self]
      exact hk rfl hpass
    · simp only [World.setPass, update_of_ne (Ne.symm hkey)]
      exact hpass
  · exact .inr (.inr (.inr hpoll))

theorem Inv.setPoll (h : Inv w) (hhub : hub.Ok w.published ∧ w.hub.Later hub) (hp : PollInv hub p)
    (hwatched : ∀ key c, hub.slots key = some c → w.store key = none →
      Watched (w.setPoll i p) key) : Inv { w.setPoll i p with hub := hub } := by
  refine ⟨hhub.1, ?_, hwatched⟩
  exact (forall_update_iff _ fun _ p => PollInv hub p).mpr ⟨hp, fun j _ => (h.polls j).later hhub.2⟩

theorem Inv.setPoll_quiet (h : Inv w) {q : Poll} (hpoll : w.polls i = q)
    (hp : PollInv w.hub q → PollInv w.hub p)
    (hi : ∀ key, w.store key = none → q.settles key → p.settles key) : Inv (w.setPoll i p) := by
  subst hpoll
  exact h.setPoll ⟨h.hub, .refl _⟩ (hp (h.polls i)) fun key c hslot hnone =>
    (h.watched key c hslot hnone).setPoll (hi key hnone)

omit [DecidableEq ι] in
theorem Inv.setPass (h : Inv w) {p : Option Pass} {published : ℕ → Option Str}
    (hhub : hub.Ok published ∧ w.hub.Later hub)
    (hwatched : ∀ k c, hub.slots k = some c → w.store k = none → Watched (w.setPass key p) k) :
    Inv { w.setPass key p with hub := hub, published := published } :=
  ⟨hhub.1, fun i => (h.polls i).later hhub.2, hwatched⟩

omit [DecidableEq ι] in
theorem Inv.setPass_quiet (h : Inv w) {p : Option Pass}
    (hkey : w.store key = none → (w.passes key).any Pass.settles = true →
      p.any Pass.settles = true) : Inv (w.setPass key p) := by
  apply h.setPass ⟨h.hub, .refl _⟩
  intro k c hslot hnone
  apply (h.watched k c hslot hnone).setPass
  rintro rfl
  exact hkey hnone

omit [DecidableEq ι] in
/-- The pass or the poll that removes a slot is done with it. -/
theorem Inv.removed (h : Inv w) {k : GatewayKey} {c : ℕ}
    (hslot : (w.hub.remove key).slots k = some c) (hnone : w.store k = none) :
    Watched w k ∧ k ≠ key := by
  obtain ⟨hslot, hne⟩ := remove_slots hslot
  exact ⟨h.watched k c hslot hnone, hne⟩

theorem look_inv {haveVersion : Str} {chan : ℕ}
    (h : chan < hub.next ∧ (hub.channels chan).key = key) :
    PollInv hub (look key haveVersion chan (hub.channels chan)) := by
  unfold look
  cases hcurrent : (hub.channels chan).current.filter (· ≠ haveVersion) with
  | some version => trivial
  | none =>
    refine ⟨h.1, h.2, le_rfl, ?_⟩
    intro _ version hversion
    by_contra hne
    have hsome : (hub.channels chan).current.filter (· ≠ haveVersion) = some version :=
      Option.filter_eq_some_iff.mpr ⟨hversion, by simpa using hne⟩
    rw [hcurrent] at hsome
    cases hsome

theorem inv_step (h : Inv w) (hstep : Step controllerName w w') : Inv w' := by
  cases hstep with
  | applied key g =>
    refine ⟨h.hub, h.polls, ?_⟩
    intro k c hslot hnone
    by_cases hk : k = key
    · subst hk
      simp only [update_self] at hnone
      cases hnone
    · simp only [update_of_ne hk] at hnone
      exact h.watched k c hslot hnone
  | deleted key | relisted store => exact ⟨h.hub, h.polls, fun _ _ _ _ => .inl rfl⟩
  | classesMoved classes => exact ⟨h.hub, h.polls, h.watched⟩
  | forget howed hforgetting =>
    refine ⟨h.hub, h.polls, ?_⟩
    intro key c _ hnone
    have hnone : w.store key = none := hnone
    refine .inr (.inl ⟨_, rfl, ?_⟩)
    rw [hnone]
    rfl
  | @forgot live hforgetting =>
    obtain ⟨hok, hlater⟩ := retain_spec h.hub live
    refine ⟨hok, fun i => (h.polls i).later hlater, ?_⟩
    intro key c hslot hnone
    obtain ⟨hslot, hlive⟩ := retain_slots hslot
    rcases h.watched key c hslot hnone with howed | ⟨live', hlive', hgone⟩ | hpass | hpoll
    · exact .inl howed
    · obtain rfl := Option.some.inj (hforgetting.symm.trans hlive')
      rw [hlive] at hgone
      cases hgone
    · exact .inr (.inr (.inl hpass))
    · exact .inr (.inr (.inr hpoll))
  | passBegins hpass _ | passSkips hpass | passReleases hpass _ | passTranslates hpass _
  | passRejects hpass =>
    apply h.setPass_quiet
    rw [hpass]
    nofun
  | @passPublishes key g version hpass =>
    apply h.setPass (publish_spec h.hub key version)
    intro k c hslot hnone
    rw [publish_slots] at hslot
    rcases entry_slots hslot with rfl | hold
    · refine .inr (.inr (.inl ?_))
      simp only [World.setPass, update_self]
      rfl
    · apply (h.watched k c hold hnone).setPass
      rw [hpass]
      nofun
  | @passChecks key g hpass =>
    apply h.setPass_quiet
    intro hnone _
    have hstale : isStale w.store key g = true := by
      unfold isStale
      rw [hnone]
      rfl
    rw [if_pos hstale]
    rfl
  | @passRemoves key hpass =>
    apply h.setPass (retain_spec h.hub _)
    intro k c hslot hnone
    obtain ⟨hwatched, hne⟩ := h.removed hslot hnone
    exact hwatched.setPass fun heq => absurd heq.symm hne
  | @pollSubscribes i key haveVersion hpoll =>
    have hspec := entry_spec h.hub key
    refine h.setPoll hspec (hspec.1.slot (entry_slot w.hub key)) ?_
    intro k c hk hnone
    rcases entry_slots hk with rfl | hold
    · refine .inr (.inr (.inr ⟨i, ?_⟩))
      simp only [World.setPoll, update_self]
      exact rfl
    · apply (h.watched k c hold hnone).setPoll
      intro hsettles
      rw [hpoll] at hsettles
      cases hsettles
  | @pollAsks i key haveVersion chan hpoll =>
    refine h.setPoll_quiet hpoll id ?_
    intro k hnone hsettles
    obtain rfl : key = k := hsettles
    rw [hnone]
    exact rfl
  | @pollJudges i key haveVersion chan found hpoll =>
    apply h.setPoll_quiet hpoll
    · intro hp
      split_ifs
      · exact hp
      · trivial
    · intro k hnone hsettles
      cases found with
      | none =>
        obtain rfl : key = k := hsettles
        exact rfl
      | some g => cases hsettles
  | @pollRemoves i key hpoll =>
    refine h.setPoll (retain_spec h.hub _) trivial ?_
    intro k c hslot hnone
    obtain ⟨hwatched, hne⟩ := h.removed hslot hnone
    apply hwatched.setPoll
    intro hsettles
    rw [hpoll] at hsettles
    exact absurd hsettles.symm hne
  | pollLooks hpoll => exact h.setPoll_quiet hpoll look_inv nofun
  | pollWakes hpoll _ => exact h.setPoll_quiet hpoll (fun hp => ⟨hp.1, hp.2.1⟩) nofun
  | pollComes key haveVersion hpoll | pollCloses hpoll _ _ | pollHeld hpoll | pollStops hpoll =>
    exact h.setPoll_quiet hpoll (fun _ => trivial) nofun
  | pollDropped hpoll =>
    rcases hpoll with hpoll | ⟨chan, seen, hpoll⟩
    · exact h.setPoll_quiet hpoll (fun _ => trivial) nofun
    · exact h.setPoll_quiet hpoll (fun _ => trivial) nofun

theorem setPoll_polls {j : ι} {q : Poll} (h : (w.setPoll j p).polls i = q) :
    (i = j ∧ p = q) ∨ w.polls i = q := by
  by_cases hij : i = j
  · subst hij
    simp only [World.setPoll, update_self] at h
    exact .inl ⟨rfl, h⟩
  · simp only [World.setPoll, update_of_ne hij] at h
    exact .inr h

theorem Step.answered {answer : Answer} (hstep : Step controllerName w w')
    (hnew : w'.polls i = .answered answer)
    (hkind : answer = .pending ∨ ∃ v, answer = .unchanged v) :
    w.polls i = .answered answer ∨ ∃ key haveVersion chan seen,
      w.polls i = .waiting key haveVersion chan seen ∧
        answer = held (w.hub.channels chan).current haveVersion := by
  have hother {p : Poll} {j : ι} (hnew : (w.setPoll j p).polls i = .answered answer)
      (hp : p ≠ .answered answer) : w.polls i = .answered answer :=
    (setPoll_polls hnew).resolve_left fun h => hp h.2
  -- these answers say nothing of a version
  have hkinds {a : Answer} (hpending : a ≠ .pending) (hunchanged : ∀ v, a ≠ .unchanged v) :
      Poll.answered a ≠ .answered answer := by
    intro heq
    obtain rfl := Poll.answered.inj heq
    rcases hkind with hkind | ⟨v, hkind⟩
    · exact hpending hkind
    · exact hunchanged v hkind
  cases hstep with
  | applied _ _ | deleted _ | relisted _ | classesMoved _ | forget _ _ | forgot _ | passBegins _ _
  | passSkips _ | passReleases _ _ | passTranslates _ _ | passRejects _ | passPublishes _ _
  | passChecks _ | passRemoves _ => exact .inl hnew
  | pollHeld hpoll =>
    rcases setPoll_polls hnew with ⟨rfl, hanswer⟩ | hsame
    · exact .inr ⟨_, _, _, _, hpoll, (Poll.answered.inj hanswer).symm⟩
    · exact .inl hsame
  | pollLooks hpoll =>
    refine .inl (hother hnew ?_)
    unfold look
    split
    · exact hkinds nofun nofun
    · nofun
  | pollJudges hpoll => exact .inl (hother hnew (by split_ifs <;> nofun))
  | pollRemoves hpoll | pollCloses hpoll _ _ | pollStops hpoll =>
    exact .inl (hother hnew (hkinds nofun nofun))
  | pollComes _ _ hpoll | pollSubscribes hpoll | pollAsks hpoll | pollWakes hpoll _
  | pollDropped hpoll => exact .inl (hother hnew nofun)

theorem Step.looks {haveVersion v : Str} {chan : ℕ} (hstep : Step controllerName w w')
    (hpoll : w.polls i = .looping key haveVersion chan)
    (hcurrent : (w.hub.channels chan).current = some v) (hne : v ≠ haveVersion) :
    w'.polls i = .looping key haveVersion chan ∨ w'.polls i = .answered (.served v) := by
  have hkeep {j : ι} {p : Poll} (hj : w.polls j ≠ .looping key haveVersion chan) :
      (w.setPoll j p).polls i = .looping key haveVersion chan := by
    have hij : i ≠ j := by
      rintro rfl
      exact hj hpoll
    simp only [World.setPoll, update_of_ne hij, hpoll]
  cases hstep with
  | applied _ _ | deleted _ | relisted _ | classesMoved _ | forget _ _ | forgot _ | passBegins _ _
  | passSkips _ | passReleases _ _ | passTranslates _ _ | passRejects _ | passPublishes _ _
  | passChecks _ | passRemoves _ => exact .inl hpoll
  | @pollLooks j k haveVersion' chan' hj =>
    by_cases hij : i = j
    · subst hij
      obtain ⟨rfl, rfl, rfl⟩ := Poll.looping.inj (hpoll.symm.trans hj)
      have hfilter : (w.hub.channels chan).current.filter (· ≠ haveVersion) = some v :=
        Option.filter_eq_some_iff.mpr ⟨hcurrent, by simpa using hne⟩
      right
      simp only [World.setPoll, update_self, look, hfilter]
    · left
      simp only [World.setPoll, update_of_ne hij, hpoll]
  | pollDropped hj =>
    left
    apply hkeep
    rcases hj with hj | ⟨chan, seen, hj⟩
    · rw [hj]
      nofun
    · rw [hj]
      nofun
  | pollComes _ _ hj | pollSubscribes hj | pollAsks hj | pollJudges hj | pollRemoves hj
  | pollWakes hj _ | pollCloses hj _ _ | pollHeld hj | pollStops hj =>
    left
    exact hkeep (by rw [hj]; nofun)

/-- No forget is owed or running, and no pass or poll is about to look at the store for the slot
it may have made. -/
structure Quiet (w : World ι) : Prop where
  owed : w.owed = false
  forgetting : w.forgetting = none
  passes : ∀ key p, w.passes key = some p → p.settles = false
  polls : ∀ i key, ¬(w.polls i).settles key

omit [DecidableEq ι] in
theorem Quiet.unwatched (h : Quiet w) : ¬Watched w key := by
  rintro (howed | ⟨live, hlive, -⟩ | hpass | ⟨i, hi⟩)
  · rw [h.owed] at howed
    cases howed
  · rw [h.forgetting] at hlive
    cases hlive
  · rw [Option.any_eq_true] at hpass
    obtain ⟨p, hp, hsettles⟩ := hpass
    rw [h.passes key p hp] at hsettles
    cases hsettles
  · exact h.polls i key hi

omit [DecidableEq ι] in
/-- A poll that knows its channel knows what was published last on it. -/
theorem Inv.current (h : Inv w) {chan : ℕ} (hlt : chan < w.hub.next) :
    w.published chan = (w.hub.channels chan).current := by
  rw [h.hub.sent chan, if_pos hlt]

/-- The answer to a poll nothing newer came for tells what was published last. -/
theorem held_cases (served : Option Str) (haveVersion : Str) :
    served = none ∧ held served haveVersion = .pending ∨
      served = some haveVersion ∧ held served haveVersion = .unchanged haveVersion ∨
        ∃ version, held served haveVersion = .served version := by
  cases served with
  | none => exact .inl ⟨rfl, rfl⟩
  | some version =>
    by_cases hsame : version = haveVersion
    · exact .inr (.inl ⟨by rw [hsame], by simp [held, hsame]⟩)
    · exact .inr (.inr ⟨version, if_neg hsame⟩)

theorem Inv.answered (h : Inv w) {answer : Answer} (hstep : Step controllerName w w')
    (hnew : w'.polls i = .answered answer)
    (hkind : answer = .pending ∨ ∃ v, answer = .unchanged v) :
    w.polls i = .answered answer ∨ ∃ key haveVersion chan seen,
      w.polls i = .waiting key haveVersion chan seen ∧ (w.hub.channels chan).key = key ∧
        answer = held (w.published chan) haveVersion := by
  refine (hstep.answered hnew hkind).imp_right ?_
  rintro ⟨key, haveVersion, chan, seen, hpoll, hheld⟩
  obtain ⟨hlt, hkey, -⟩ := h.poll hpoll
  exact ⟨key, haveVersion, chan, seen, hpoll, hkey, h.current hlt ▸ hheld⟩

/-- Along every run: once all is quiet the hub serves only what the store holds; a poll is told
that its version is unchanged, or that there is none yet, only when the last version published on
its channel is its own, or none was; and while another was published last, a poll that waits is to
be woken, and one that looks is served. -/
theorem polls_follow_their_slots (hw : Reachable Fresh (Step controllerName) w) :
    (Quiet w → ∀ key c, w.hub.slots key = some c → (w.store key).isSome = true) ∧
    (∀ i v w', Step controllerName w w' → w'.polls i = .answered (.unchanged v) →
      w.polls i = .answered (.unchanged v) ∨ ∃ key chan seen,
        w.polls i = .waiting key v chan seen ∧ (w.hub.channels chan).key = key ∧
          w.published chan = some v) ∧
    (∀ i w', Step controllerName w w' → w'.polls i = .answered .pending →
      w.polls i = .answered .pending ∨ ∃ key haveVersion chan seen,
        w.polls i = .waiting key haveVersion chan seen ∧ (w.hub.channels chan).key = key ∧
          w.published chan = none) ∧
    (∀ i key haveVersion chan seen v, w.polls i = .waiting key haveVersion chan seen →
      w.published chan = some v → v ≠ haveVersion → (w.hub.channels chan).stamp ≠ seen) ∧
    ∀ i key haveVersion chan v w', w.polls i = .looping key haveVersion chan →
      w.published chan = some v → v ≠ haveVersion → Step controllerName w w' →
        w'.polls i = .looping key haveVersion chan ∨ w'.polls i = .answered (.served v) := by
  have hinv : Inv w := hw.invariant (fun _ h => inv_fresh h) fun _ _ h hstep => inv_step h hstep
  refine ⟨?_, ?_, ?_, ?_, ?_⟩
  · intro hquiet key c hslot
    cases hstore : w.store key with
    | some g => rfl
    | none => exact absurd (hinv.watched key c hslot hstore) hquiet.unwatched
  · intro i v w' hstep hnew
    refine (hinv.answered hstep hnew (.inr ⟨v, rfl⟩)).imp_right ?_
    rintro ⟨key, haveVersion, chan, seen, hpoll, hkey, hheld⟩
    obtain ⟨-, hk⟩ | ⟨hlast, hk⟩ | ⟨_, hk⟩ := held_cases (w.published chan) haveVersion
    · cases hheld.trans hk
    · cases hheld.trans hk
      exact ⟨key, chan, seen, hpoll, hkey, hlast⟩
    · cases hheld.trans hk
  · intro i w' hstep hnew
    refine (hinv.answered hstep hnew (.inl rfl)).imp_right ?_
    rintro ⟨key, haveVersion, chan, seen, hpoll, hkey, hheld⟩
    obtain ⟨hlast, -⟩ | ⟨-, hk⟩ | ⟨_, hk⟩ := held_cases (w.published chan) haveVersion
    · exact ⟨key, haveVersion, chan, seen, hpoll, hkey, hlast⟩
    · cases hheld.trans hk
    · cases hheld.trans hk
  · intro i key haveVersion chan seen v hpoll hcurrent hne hstamp
    have hp := hinv.poll hpoll
    rw [hinv.current hp.1] at hcurrent
    exact hne (hp.2.2.2 hstamp.symm v hcurrent)
  · intro i key haveVersion chan v w' hpoll hcurrent hne hstep
    rw [hinv.current (hinv.poll hpoll).1] at hcurrent
    exact hstep.looks hpoll hcurrent hne

def ownGateway : GatewayKey := ⟨.lit "default", .lit "gw"⟩

def ownObject : GatewayObject := ⟨.lit "uid", .lit "portail"⟩

/-- A controller that has just started: one class, Gateways in the store, nothing served. -/
def startedWorld : World Unit :=
  ⟨fun _ => some ownObject, fun _ => some (.lit "controller"), false, none,
    ⟨fun _ => none, fun _ => ⟨ownGateway, none, 0, true⟩, 0⟩, fun _ => none, fun _ => none,
    fun _ => .absent⟩

/-- A poll waits with the first version when a second pass publishes another. -/
theorem published_again : ∃ w : World Unit,
    Reachable Fresh (Step (.lit "controller")) w ∧ Quiet w ∧ w.hub.slots ownGateway = some 0 ∧
      w.polls () = .waiting ownGateway (.lit "v1") 0 1 ∧ w.published 0 = some (.lit "v2") := by
  have hstart : Reachable Fresh (Step (.lit "controller")) startedWorld :=
    .start ⟨fun _ => rfl, rfl, fun _ => rfl, rfl, fun _ => rfl, fun _ => rfl⟩
  have hpublished := hstart.step (@Step.passBegins _ _ _ _ ownGateway _ rfl rfl)
    |>.step (@Step.passTranslates _ _ _ _ ownGateway _ rfl rfl)
    |>.step (@Step.passPublishes _ _ _ _ ownGateway _ (.lit "v1") rfl)
    |>.step (@Step.passChecks _ _ _ _ ownGateway _ rfl)
  have hwaits := hpublished.step (.pollComes (i := ()) ownGateway (.lit "v1") rfl)
    |>.step (.pollSubscribes (i := ()) rfl) |>.step (.pollAsks (i := ()) rfl)
    |>.step (.pollJudges (i := ()) rfl) |>.step (.pollLooks (i := ()) rfl)
  have hagain := hwaits.step (@Step.passBegins _ _ _ _ ownGateway _ rfl rfl)
    |>.step (@Step.passTranslates _ _ _ _ ownGateway _ rfl rfl)
    |>.step (@Step.passPublishes _ _ _ _ ownGateway _ (.lit "v2") rfl)
    |>.step (@Step.passChecks _ _ _ _ ownGateway _ rfl)
  refine ⟨_, hagain, ⟨rfl, rfl, fun key p hp => ?_, fun _ _ => id⟩, rfl, rfl, rfl⟩
  by_cases hkey : key = ownGateway
  · subst hkey
    cases hp
  · simp only [World.setPass, World.setPoll, update_of_ne hkey] at hp
    cases hp

theorem polls_follow_their_slots_published : ∃ w : World Unit, Quiet w ∧
    w.hub.slots ownGateway = some 0 ∧ (w.store ownGateway).isSome = true ∧
      w.polls () = .waiting ownGateway (.lit "v1") 0 1 ∧ w.published 0 = some (.lit "v2") ∧
        (w.hub.channels 0).stamp ≠ 1 := by
  obtain ⟨w, hw, hquiet, hslot, hpoll, hpublished⟩ := published_again
  obtain ⟨hstored, -, -, hwoken, -⟩ := polls_follow_their_slots hw
  exact ⟨w, hquiet, hslot, hstored hquiet ownGateway 0 hslot, hpoll, hpublished,
    hwoken () ownGateway _ 0 1 _ hpoll hpublished (by decide)⟩

end
end Portail.Controller.Polls
