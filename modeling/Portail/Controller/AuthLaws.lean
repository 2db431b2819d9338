import Portail.Controller.VerdictCache

/-!
# Who is taken for an instance

Every accepted verdict in the cache is one that the apiserver gave for the token, at the
time the entry says: evictions only drop entries. A request that is handled rests on such
an answer, or on one to a review of its own.
-/

namespace Portail.Controller.Auth

open Lib Http Sync Routing ServiceAccount List Option Function

section

variable {auth : Authenticator} {status : TokenReviewStatus} {reviewed : Reviewed}

theorem fromUsername_eq_some {username : Bytes} {a : ServiceAccount}
    (h : fromUsername username = some a) : username = a.username := by
  unfold fromUsername at h
  split_ifs at h with hprefix
  obtain ⟨rest, rfl⟩ := isPrefixOf_iff_prefix.mp hprefix
  obtain ⟨i, hi, h⟩ := bind_eq_some_iff.mp h
  rw [drop_left] at hi h
  obtain ⟨x, y, rfl, -, rfl⟩ := memchr_eq_some hi
  simp only at h
  split_ifs at h
  cases h
  simp [username]

/-- What a TokenReview that vouches for a token says of it. -/
structure Vouches (auth : Authenticator) (status : TokenReviewStatus) (account : ServiceAccount)
    (podUid : Bytes) : Prop where
  authenticated : status.authenticated = some true
  audience : auth.audience ∈ status.audiences
  user : ∃ user, status.user = some user ∧ user.username = some account.username ∧
    ∃ others, user.extra.lookup podUidKey = some (podUid :: others)

theorem vouches_of_verdict (h : auth.verdict status = some reviewed) :
    Vouches auth status reviewed.account reviewed.podUid := by
  unfold Authenticator.verdict at h
  split_ifs at h with hauth haudience
  obtain ⟨user, huser, h⟩ := bind_eq_some_iff.mp h
  obtain ⟨account, haccount, h⟩ := bind_eq_some_iff.mp h
  obtain ⟨username, hname, haccount⟩ := bind_eq_some_iff.mp haccount
  obtain ⟨podUid, hpod, rfl⟩ := map_eq_some_iff.mp h
  obtain ⟨uids, huids, hpod⟩ := bind_eq_some_iff.mp hpod
  obtain ⟨others, rfl⟩ := head?_eq_some_iff.mp hpod
  refine ⟨by simpa using hauth, by simpa using haudience, user, huser, ?_, others, huids⟩
  rw [hname, fromUsername_eq_some haccount]

end

section

variable {verdicts : Verdicts} {hash h' : TokenHash} {entry : ℕ × Option Reviewed} {now : ℕ}
  {reviewed : Reviewed}

theorem lookup_of_remember {verdict : Option Reviewed}
    (h : (verdicts.remember h' verdict now).byToken.lookup hash = some entry) :
    (hash = h' ∧ entry = (now, verdict)) ∨ verdicts.byToken.lookup hash = some entry := by
  rcases mem_remember (AList.mem_lookup_iff.mp h) with hnew | hold
  · left
    cases hnew
    exact ⟨rfl, rfl⟩
  · exact .inr (AList.mem_lookup_iff.mpr hold)

theorem cached_spec :
    (verdicts.cached hash now = .fresh reviewed →
      ∃ at_, verdicts.byToken.lookup hash = some (at_, some reviewed) ∧ now - at_ < cacheTtl) ∧
    (verdicts.cached hash now = .expired reviewed →
      ∃ at_, verdicts.byToken.lookup hash = some (at_, some reviewed) ∧
        now - at_ < cacheTtl + staleTtl) := by
  unfold Verdicts.cached
  rcases verdicts.byToken.lookup hash with _ | ⟨at_, _ | found⟩
  · simp
  · simp only
    split_ifs <;> simp
  · simp only
    split_ifs <;> simp_all

end

section

variable {ι : Type} {auth : Authenticator} {tokens : Set Bytes} {w w' : World ι} {i : ι}
  {r : Request} {consulted : ℕ} {reviewed : Reviewed}

/-- An answer for the token, of an age the cache allows, and, when that is a stale one, a renewal
without a verdict. -/
def Backed (auth : Authenticator) (w : World ι) (i : ι) (r : Request) (consulted : ℕ)
    (reviewed : Reviewed) : Prop :=
  ∃ status at_, .answered r.token status at_ ∈ w.history ∧ auth.verdict status = some reviewed ∧
    consulted < at_ + cacheTtl + staleTtl ∧ (at_ + cacheTtl ≤ consulted → .noVerdict i ∈ w.history)

/-- An answer that serves only while no renewal can be made. -/
def StaleBacked (auth : Authenticator) (w : World ι) (r : Request) (consulted : ℕ)
    (reviewed : Reviewed) : Prop :=
  ∃ status at_, .answered r.token status at_ ∈ w.history ∧ auth.verdict status = some reviewed ∧
    consulted < at_ + cacheTtl + staleTtl

/-- A request past the checks that need no review. -/
structure Standing (auth : Authenticator) (tokens : Set Bytes) (w : World ι) (r : Request)
    (consulted : ℕ) : Prop where
  token : r.token ∈ tokens
  came : r.came ≤ consulted
  now : consulted ≤ w.now
  account : of auth.sha256 r.gateway ∉ auth.refused

/-- What holds of a request in each phase. -/
def PhaseInv (auth : Authenticator) (tokens : Set Bytes) (w : World ι) (i : ι) : Phase → Prop
  | .came r => r.token ∈ tokens ∧ r.came ≤ w.now
  | .asking r consulted | .reviewing r consulted none => Standing auth tokens w r consulted
  | .renewing r consulted stale | .reviewing r consulted (some stale) =>
    Standing auth tokens w r consulted ∧ StaleBacked auth w r consulted stale
  | .reviewed r consulted reviewed =>
    Standing auth tokens w r consulted ∧ Backed auth w i r consulted reviewed
  | .handled r consulted podUid =>
    Standing auth tokens w r consulted ∧ ∃ reviewed, Backed auth w i r consulted reviewed ∧
      reviewed.account = of auth.sha256 r.gateway ∧ reviewed.podUid = podUid
  | _ => True

structure Later (w w' : World ι) : Prop where
  now : w.now ≤ w'.now
  history : ∀ e ∈ w.history, e ∈ w'.history

theorem Standing.later (hlater : Later w w') (h : Standing auth tokens w r consulted) :
    Standing auth tokens w' r consulted :=
  ⟨h.token, h.came, h.now.trans hlater.now, h.account⟩

theorem StaleBacked.later (hlater : Later w w') (h : StaleBacked auth w r consulted reviewed) :
    StaleBacked auth w' r consulted reviewed := by
  obtain ⟨status, at_, hanswer, hverdict, hage⟩ := h
  exact ⟨status, at_, hlater.history _ hanswer, hverdict, hage⟩

theorem Backed.later (hlater : Later w w') (h : Backed auth w i r consulted reviewed) :
    Backed auth w' i r consulted reviewed := by
  obtain ⟨status, at_, hanswer, hverdict, hage, hrenewal⟩ := h
  exact ⟨status, at_, hlater.history _ hanswer, hverdict, hage,
    fun hold => hlater.history _ (hrenewal hold)⟩

theorem StaleBacked.backed (h : StaleBacked auth w r consulted reviewed)
    (hrenewal : .noVerdict i ∈ w.history) : Backed auth w i r consulted reviewed := by
  obtain ⟨status, at_, hanswer, hverdict, hage⟩ := h
  exact ⟨status, at_, hanswer, hverdict, hage, fun _ => hrenewal⟩

variable {phase : Phase}

theorem PhaseInv.later (hlater : Later w w') (h : PhaseInv auth tokens w i phase) :
    PhaseInv auth tokens w' i phase := by
  cases phase with
  | came r => exact ⟨h.1, h.2.trans hlater.now⟩
  | asking r consulted => exact Standing.later hlater h
  | renewing r consulted stale | reviewed r consulted reviewed =>
    exact ⟨h.1.later hlater, h.2.later hlater⟩
  | reviewing r consulted stale =>
    cases stale with
    | none => exact Standing.later hlater h
    | some stale => exact ⟨h.1.later hlater, h.2.later hlater⟩
  | handled r consulted podUid =>
    obtain ⟨hstanding, reviewed, hbacked, hsame⟩ := h
    exact ⟨hstanding.later hlater, reviewed, hbacked.later hlater, hsame⟩
  | absent | refused why | dropped => trivial

structure Inv (auth : Authenticator) (tokens : Set Bytes) (w : World ι) : Prop where
  cache {hash : TokenHash} {at_ : ℕ} {reviewed : Reviewed} :
    w.verdicts.byToken.lookup hash = some (at_, some reviewed) →
    ∃ token ∈ tokens, auth.sha256 token = hash ∧ ∃ status,
      .answered token status at_ ∈ w.history ∧ auth.verdict status = some reviewed
  requests : ∀ i, PhaseInv auth tokens w i (w.requests i)

theorem inv_fresh (h : Fresh w) : Inv auth tokens w := by
  obtain ⟨hverdicts, hrequests, -⟩ := h
  refine ⟨?_, ?_⟩
  · intro hash at_ reviewed hentry
    rw [hverdicts] at hentry
    cases hentry
  · intro i
    rw [hrequests i]
    trivial

/-- The cache's word for a token is an answer for that token. -/
theorem Inv.answered (h : Inv auth tokens w) (hinj : Set.InjOn auth.sha256 tokens)
    (htoken : r.token ∈ tokens) {at_ : ℕ}
    (hentry : w.verdicts.byToken.lookup (auth.sha256 r.token) = some (at_, some reviewed)) :
    ∃ status, .answered r.token status at_ ∈ w.history ∧ auth.verdict status = some reviewed := by
  obtain ⟨token, hmem, hhash, hanswer⟩ := h.cache hentry
  obtain rfl := hinj hmem htoken hhash
  exact hanswer

theorem Inv.consult (h : Inv auth tokens w) (hinj : Set.InjOn auth.sha256 tokens)
    (htoken : r.token ∈ tokens) (hcame : r.came ≤ w.now) (wall : ℕ) :
    PhaseInv auth tokens w i (consult auth w.verdicts w.now wall r) := by
  unfold Auth.consult
  cases hclaimed : auth.precheck r.token wall with
  | none => trivial
  | some claimed =>
    simp only
    by_cases hexpected : claimed = of auth.sha256 r.gateway
    · rw [if_neg (not_not.mpr hexpected)]
      by_cases hrefused : of auth.sha256 r.gateway ∈ auth.refused
      · rw [if_pos hrefused]
        trivial
      · rw [if_neg hrefused]
        have hstanding : Standing auth tokens w r w.now := ⟨htoken, hcame, le_rfl, hrefused⟩
        cases hcached : w.verdicts.cached (auth.sha256 r.token) w.now with
        | fresh reviewed =>
          obtain ⟨at_, hentry, hage⟩ := cached_spec.1 hcached
          obtain ⟨status, hanswer, hverdict⟩ := h.answered hinj htoken hentry
          refine ⟨hstanding, status, at_, hanswer, hverdict, ?_, ?_⟩
          · omega
          · intro hold
            omega
        | rejected => trivial
        | expired stale =>
          obtain ⟨at_, hentry, hage⟩ := cached_spec.2 hcached
          obtain ⟨status, hanswer, hverdict⟩ := h.answered hinj htoken hentry
          exact ⟨hstanding, status, at_, hanswer, hverdict, by omega⟩
        | unknown => exact hstanding
    · rw [if_pos hexpected]
      trivial

variable [DecidableEq ι] {verdicts : Verdicts}

theorem Inv.moveTo (h : Inv auth tokens w) {history : List (Event ι)}
    (hhistory : ∀ e ∈ w.history, e ∈ history)
    (hcache : ∀ {hash at_ reviewed}, verdicts.byToken.lookup hash = some (at_, some reviewed) →
      ∃ token ∈ tokens, auth.sha256 token = hash ∧ ∃ status,
        .answered token status at_ ∈ history ∧ auth.verdict status = some reviewed)
    (hphase : PhaseInv auth tokens
      { w.moveTo i phase with verdicts := verdicts, history := history } i phase) :
    Inv auth tokens { w.moveTo i phase with verdicts := verdicts, history := history } := by
  have hlater : Later w { w.moveTo i phase with verdicts := verdicts, history := history } :=
    ⟨le_rfl, hhistory⟩
  refine ⟨hcache, ?_⟩
  intro j
  by_cases hj : j = i
  · subst hj
    simpa only [World.moveTo, update_self] using hphase
  · simp only [World.moveTo, update_of_ne hj]
    exact (h.requests j).later hlater

theorem Inv.moveTo_quiet (h : Inv auth tokens w) (hphase : PhaseInv auth tokens w i phase) :
    Inv auth tokens (w.moveTo i phase) := by
  have hlater : Later w (w.moveTo i phase) := ⟨le_rfl, fun _ he => he⟩
  exact h.moveTo (fun _ he => he) h.cache (hphase.later hlater)

/-- A renewal ends without a verdict. -/
theorem Inv.moveTo_noVerdict (h : Inv auth tokens w) (hphase : PhaseInv auth tokens
      { w.moveTo i phase with history := .noVerdict i :: w.history } i phase) :
    Inv auth tokens { w.moveTo i phase with history := .noVerdict i :: w.history } := by
  apply h.moveTo (fun _ he => mem_cons_of_mem _ he) _ hphase
  intro hash at_ reviewed hentry
  obtain ⟨token, htoken, hhash, status, hanswer, hverdict⟩ := h.cache hentry
  exact ⟨token, htoken, hhash, status, mem_cons_of_mem _ hanswer, hverdict⟩

theorem inv_step (hinj : Set.InjOn auth.sha256 tokens) (h : Inv auth tokens w)
    (hstep : Step auth tokens w w') : Inv auth tokens w' := by
  cases hstep with
  | tick d =>
    have hlater : Later w { w with now := w.now + d } := ⟨Nat.le_add_right _ _, fun _ he => he⟩
    exact ⟨h.cache, fun i => (h.requests i).later hlater⟩
  | come hi htoken hcame => exact h.moveTo_quiet ⟨htoken, hcame.le⟩
  | @consult i r wall hi =>
    have hphase := h.requests i
    rw [hi] at hphase
    exact h.moveTo_quiet (h.consult hinj hphase.1 hphase.2 wall)
  | throttle hi | drop hi => exact h.moveTo_quiet trivial
  | @ask i r consulted hi | @renew i r consulted stale hi =>
    have hphase := h.requests i
    rw [hi] at hphase
    exact h.moveTo_quiet hphase
  | @noPermit i r consulted stale hi =>
    have hphase := h.requests i
    rw [hi] at hphase
    have hlater : Later w { w.moveTo i (.reviewed r consulted stale) with
        history := .noVerdict i :: w.history } := ⟨le_rfl, fun _ he => mem_cons_of_mem _ he⟩
    exact h.moveTo_noVerdict ⟨hphase.1.later hlater, (hphase.2.later hlater).backed mem_cons_self⟩
  | @answer i r consulted stale status hi =>
    have hphase := h.requests i
    rw [hi] at hphase
    have hstanding : Standing auth tokens w r consulted := by
      cases stale with
      | none => exact hphase
      | some stale => exact hphase.1
    apply h.moveTo (fun _ he => mem_cons_of_mem _ he)
    · intro hash at_ reviewed hentry
      rcases lookup_of_remember hentry with ⟨rfl, hnew⟩ | hold
      · obtain ⟨rfl, hverdict⟩ := Prod.mk.inj hnew
        exact ⟨r.token, hstanding.token, rfl, status, mem_cons_self, hverdict.symm⟩
      · obtain ⟨token, htoken, hhash, status', hanswer, hverdict⟩ := h.cache hold
        exact ⟨token, htoken, hhash, status', mem_cons_of_mem _ hanswer, hverdict⟩
    · cases hverdict : auth.verdict status with
      | none => trivial
      | some reviewed =>
        have hnow := hstanding.now
        refine ⟨⟨hstanding.token, hstanding.came, hnow, hstanding.account⟩, status, w.now,
          mem_cons_self, hverdict, ?_, ?_⟩
        · simp only [cacheTtl, staleTtl]
          omega
        · intro hold
          simp only [cacheTtl] at hold
          omega
  | @fail i r consulted stale hi =>
    have hphase := h.requests i
    rw [hi] at hphase
    cases stale with
    | none => exact h.moveTo_noVerdict trivial
    | some stale =>
      have hlater : Later w { w.moveTo i (.reviewed r consulted stale) with
          history := .noVerdict i :: w.history } := ⟨le_rfl, fun _ he => mem_cons_of_mem _ he⟩
      exact h.moveTo_noVerdict ⟨hphase.1.later hlater, (hphase.2.later hlater).backed mem_cons_self⟩
  | @check i r consulted reviewed hi =>
    have hphase := h.requests i
    rw [hi] at hphase
    apply h.moveTo_quiet
    unfold checkAccount
    by_cases haccount : reviewed.account = of auth.sha256 r.gateway
    · rw [if_neg (not_not.mpr haccount)]
      exact ⟨hphase.1, reviewed, hphase.2, haccount, rfl⟩
    · rw [if_pos haccount]
      trivial

/-- A request for which the cache holds a rejection is refused. -/
theorem consult_rejected {now at_ : ℕ} (wall : ℕ)
    (hentry : verdicts.byToken.lookup (auth.sha256 r.token) = some (at_, none))
    (hage : now - at_ < cacheTtl) : ∃ why, consult auth verdicts now wall r = .refused why := by
  have hcached : verdicts.cached (auth.sha256 r.token) now = .rejected := by
    unfold Verdicts.cached
    rw [hentry]
    exact if_pos hage
  unfold consult
  cases hclaimed : auth.precheck r.token wall with
  | none => exact ⟨_, rfl⟩
  | some claimed =>
    simp only [hcached]
    split_ifs
    · exact ⟨_, rfl⟩
    · exact ⟨_, rfl⟩
    · exact ⟨_, rfl⟩

theorem Step.refused {why : Refusal} (hstep : Step auth tokens w w')
    (hi : w.requests i = .refused why) : w'.requests i = .refused why := by
  have hkeep {j : ι} (phase : Phase) (hj : w.requests j ≠ .refused why) :
      (w.moveTo j phase).requests i = .refused why := by
    have hne : i ≠ j := by
      rintro rfl
      exact hj hi
    simp only [World.moveTo, update_of_ne hne, hi]
  cases hstep with
  | tick d => exact hi
  | drop hj =>
    apply hkeep
    intro hrefused
    rw [hrefused] at hj
    cases hj
  | come hj _ _ | consult wall hj | throttle hj | ask hj | renew hj | noPermit hj | answer status hj
  | fail hj | check hj =>
    exact hkeep _ (by rw [hj]; nofun)

/-- Along every run, a request is handled as an instance of a Gateway only on an answer of the
apiserver for its token, recent enough, that vouches for the Gateway's account and the pod; an
answer past the cache's time serves only where a renewal got no verdict; and who meets a stored
rejection is refused for good. -/
theorem handled_on_a_review (hinj : Set.InjOn auth.sha256 tokens)
    (hw : Reachable Fresh (Step auth tokens) w) :
    (∀ i r consulted podUid, w.requests i = .handled r consulted podUid →
      r.came ≤ consulted ∧ of auth.sha256 r.gateway ∉ auth.refused ∧
      ∃ status at_, .answered r.token status at_ ∈ w.history ∧
        Vouches auth status (of auth.sha256 r.gateway) podUid ∧
        (r.came ≤ at_ ∨ consulted - at_ < cacheTtl + staleTtl) ∧
        (cacheTtl ≤ consulted - at_ → .noVerdict i ∈ w.history)) ∧
    (∀ i r wall at_, w.requests i = .came r →
      w.verdicts.byToken.lookup (auth.sha256 r.token) = some (at_, none) →
      w.now - at_ < cacheTtl → ∃ why, consult auth w.verdicts w.now wall r = .refused why) ∧
    ∀ i why w', w.requests i = .refused why → Step auth tokens w w' →
      w'.requests i = .refused why := by
  have hfresh (s : World ι) (hs : Fresh s) : Inv auth tokens s := inv_fresh hs
  have hkept (s t : World ι) (hs : Inv auth tokens s) (hst : Step auth tokens s t) :
      Inv auth tokens t := inv_step hinj hs hst
  have hinv : Inv auth tokens w := hw.invariant hfresh hkept
  refine ⟨?_, ?_, ?_⟩
  · intro i r consulted podUid hi
    have hphase := hinv.requests i
    rw [hi] at hphase
    obtain ⟨hstanding, reviewed, ⟨status, at_, hanswer, hverdict, hage, hrenewal⟩, haccount, rfl⟩ :=
      hphase
    refine ⟨hstanding.came, hstanding.account, status, at_, hanswer, ?_, ?_, ?_⟩
    · rw [← haccount]
      exact vouches_of_verdict hverdict
    · right
      simp only [cacheTtl, staleTtl] at hage ⊢
      omega
    · intro hold
      apply hrenewal
      simp only [cacheTtl] at hold ⊢
      omega
  · intro i r wall at_ _ hentry hage
    exact consult_rejected wall hentry hage
  · intro i why w' hi hstep
    exact hstep.refused hi

/-- The first poll of a data plane of Gateway `default/gw`. -/
def firstPoll : Request := ⟨bytes "t", ⟨.lit "default", .lit "gw"⟩, 0⟩

def gwAccount : ServiceAccount := ⟨bytes "default", bytes "portail-gw"⟩

/-- A digest of thirty-two octets that tells short texts apart. -/
def paddedDigest (text : Bytes) : Bytes := (text ++ List.replicate 32 0).take 32

/-- The tokens of two Pods. -/
def podTokens : Set Bytes := {firstPoll.token, bytes "u"}

/-- A controller whose pre-check lets the account through. -/
def controllerAuth : Authenticator :=
  .new paddedDigest (fun _ _ _ => some gwAccount) (bytes "portail-system") (bytes "portail") none

def podStatus : TokenReviewStatus :=
  ⟨some true, [bytes "portail.portail-system.svc"],
    some ⟨some gwAccount.username, AList.singleton podUidKey [bytes "uid"]⟩⟩

theorem podStatus_verdict : controllerAuth.verdict podStatus = some ⟨gwAccount, bytes "uid"⟩ := by
  decide +kernel

theorem gwAccount_of : gwAccount = of paddedDigest firstPoll.gateway := by decide +kernel

theorem gwAccount_allowed : gwAccount ∉ controllerAuth.refused := by decide +kernel

theorem firstPoll_asks : consult controllerAuth ⟨∅, none⟩ 0 0 firstPoll = .asking firstPoll 0 := by
  have hof : of controllerAuth.sha256 firstPoll.gateway = gwAccount :=
    gwAccount_of.symm
  have hclaimed : controllerAuth.precheck firstPoll.token 0 = some gwAccount := rfl
  unfold consult
  simp only [hclaimed, hof, ne_eq, not_true_eq_false, if_false, if_neg gwAccount_allowed]
  rfl

theorem firstPoll_handled : ∃ w : World Unit,
    Reachable Fresh (Step controllerAuth podTokens) w ∧
      w.requests () = .handled firstPoll 0 (bytes "uid") := by
  have hstart : Reachable Fresh (Step controllerAuth podTokens)
      (⟨0, ⟨∅, none⟩, fun _ => .absent, []⟩ : World Unit) := .start ⟨rfl, fun _ => rfl, rfl⟩
  have hcame := hstart.step (.come (i := ()) (r := firstPoll) rfl (.inl rfl) rfl)
  have hasks := hcame.step (.consult (i := ()) (r := firstPoll) 0 rfl)
  have hreview := hasks.step (.ask (i := ()) firstPoll_asks)
  have hanswer := hreview.step (.answer (i := ()) podStatus rfl)
  have hchecked := hanswer.step (.check (i := ()) (by rw [podStatus_verdict]; rfl))
  refine ⟨_, hchecked, ?_⟩
  have hof : of controllerAuth.sha256 firstPoll.gateway = gwAccount :=
    gwAccount_of.symm
  simp only [World.moveTo, update_self, checkAccount, hof, ne_eq, not_true_eq_false,
    if_false]

theorem handled_on_a_review_firstPoll :
    Set.InjOn controllerAuth.sha256 podTokens ∧ ∃ w : World Unit,
      w.requests () = .handled firstPoll 0 (bytes "uid") ∧
      ∃ status at_, .answered firstPoll.token status at_ ∈ w.history ∧
        Vouches controllerAuth status
          (of controllerAuth.sha256 firstPoll.gateway) (bytes "uid") := by
  have hinj : Set.InjOn controllerAuth.sha256 podTokens := by
    rintro x (rfl | rfl) y (rfl | rfl) hdigest
    · rfl
    · exact absurd hdigest (by decide)
    · exact absurd hdigest (by decide)
    · rfl
  obtain ⟨w, hw, hhandled⟩ := firstPoll_handled
  obtain ⟨-, -, status, at_, hanswer, hvouches, -⟩ :=
    (handled_on_a_review hinj hw).1 () firstPoll 0 (bytes "uid") hhandled
  exact ⟨hinj, w, hhandled, status, at_, hanswer, hvouches⟩

end
end Portail.Controller.Auth
