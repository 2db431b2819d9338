import Mathlib.Data.Prod.Lex
import Portail.Kubernetes.Reconciler

/-!
# Which policy limits a listener

The policies of a Gateway are kept by creation time and name. The first of the listener's
section, or else the first of the whole Gateway, is then the oldest of them, in whatever
order they came; and those that limit a listener are the ones reported as accepted
(`rateLimit_laws`).
-/

namespace Portail.Kubernetes

open Lib Config List Option

/-- Objects by creation time, none before all, then by a text. -/
def creationKey (created : Option ℤ) (text : Bytes) : WithBot ℤ ×ₗ List ℕ :=
  toLex (created, text.map UInt8.toNat)

theorem createdBefore_iff {s t : Option ℤ} {a b : Bytes} :
    createdBefore s t a b = true ↔ creationKey s a ≤ creationKey t b := by
  rw [creationKey, creationKey, Prod.Lex.toLex_le_toLex]
  cases s <;> cases t <;> simp [createdBefore, WithBot.none_eq_bot, WithBot.some_eq_coe]

def RateLimitPolicy.key (p : RateLimitPolicy) : WithBot ℤ ×ₗ List ℕ :=
  creationKey p.metadata.creationTimestamp p.name.octets

theorem orderedPolicies_pairwise (policies : List RateLimitPolicy) (gwNs gwName : Str) :
    (orderedPolicies policies gwNs gwName).Pairwise fun p q => p.key ≤ q.key := by
  have : Std.Total fun p q : RateLimitPolicy => createdBefore p.metadata.creationTimestamp
      q.metadata.creationTimestamp p.name.octets q.name.octets = true :=
    ⟨fun p q => (le_total p.key q.key).imp createdBefore_iff.mpr createdBefore_iff.mpr⟩
  have : IsTrans RateLimitPolicy fun p q => createdBefore p.metadata.creationTimestamp
      q.metadata.creationTimestamp p.name.octets q.name.octets = true :=
    ⟨fun p q r hpq hqr => createdBefore_iff.mpr
      (le_trans (createdBefore_iff.mp hpq) (createdBefore_iff.mp hqr))⟩
  exact (pairwise_insertionSort _ _).imp createdBefore_iff.mp

variable {policies : List RateLimitPolicy} {gwNs gwName : Str}

theorem mem_orderedPolicies {p : RateLimitPolicy} :
    p ∈ orderedPolicies policies gwNs gwName ↔
      p ∈ policies ∧ p.targetsGateway gwNs gwName = true := by
  rw [orderedPolicies, mem_insertionSort, mem_filter]

/-- No two policies of the Gateway's namespace have one name. -/
def NamesApart (policies : List RateLimitPolicy) (gwNs : Str) : Prop :=
  ((policies.filter fun p => p.metadata.ns == some gwNs).map RateLimitPolicy.name).Nodup

theorem NamesApart.eq (h : NamesApart policies gwNs) {p q : RateLimitPolicy}
    (hp : p ∈ orderedPolicies policies gwNs gwName)
    (hq : q ∈ orderedPolicies policies gwNs gwName) (hname : p.name = q.name) : p = q := by
  have hmem {p : RateLimitPolicy} (hp : p ∈ orderedPolicies policies gwNs gwName) :
      p ∈ policies.filter fun p => p.metadata.ns == some gwNs := by
    obtain ⟨hp, htargets⟩ := mem_orderedPolicies.mp hp
    simp only [RateLimitPolicy.targetsGateway, Bool.and_eq_true] at htargets
    exact mem_filter.mpr ⟨hp, htargets.1.1.1⟩
  exact inj_on_of_nodup_map h (hmem hp) (hmem hq) hname

theorem orderedPolicies_perm {other : List RateLimitPolicy} (h : NamesApart policies gwNs)
    (hperm : other.Perm policies) :
    orderedPolicies other gwNs gwName = orderedPolicies policies gwNs gwName := by
  have hsame : (orderedPolicies other gwNs gwName).Perm (orderedPolicies policies gwNs gwName) :=
    ((perm_insertionSort _ _).trans (hperm.filter _)).trans (perm_insertionSort _ _).symm
  refine List.Perm.eq_of_pairwise (fun p q hp hq hpq hqp => ?_)
    (orderedPolicies_pairwise _ _ _) (orderedPolicies_pairwise _ _ _) hsame
  have hkey := congrArg (fun k => (ofLex k).2) (le_antisymm hpq hqp)
  refine h.eq (hsame.mem_iff.mp hp) hq (Str.ext ?_)
  exact map_injective_iff.mpr (fun _ _ => UInt8.toNat_inj.mp) hkey

/-- The oldest of the policies that target the Gateway and are chosen. -/
structure Oldest (policies : List RateLimitPolicy) (gwNs gwName : Str)
    (among : RateLimitPolicy → Prop) (p : RateLimitPolicy) : Prop where
  listed : p ∈ policies
  targets : p.targetsGateway gwNs gwName = true
  chosen : among p
  oldest : ∀ q ∈ policies, q.targetsGateway gwNs gwName = true → among q → p.key ≤ q.key

/-- The policy that has to limit a listener: the oldest of its section, or else of the Gateway. -/
def Limits (policies : List RateLimitPolicy) (gwNs gwName : Str) (l : ListenerConfig) :
    Option RateLimitPolicy → Prop
  | some p => Oldest policies gwNs gwName (·.targetRef.sectionName = some l.name) p ∨
      (∀ q, ¬Oldest policies gwNs gwName (·.targetRef.sectionName = some l.name) q) ∧
        Oldest policies gwNs gwName (·.targetRef.sectionName = none) p
  | none => ∀ q ∈ policies, q.targetsGateway gwNs gwName = true →
      q.targetRef.sectionName ≠ some l.name ∧ q.targetRef.sectionName ≠ none

/-- A listener with a policy's limit; without a policy it is as it was. -/
def withLimit (l : ListenerConfig) : Option RateLimitPolicy → ListenerConfig
  | some p => { l with rateLimit := some ⟨p.requestsPerSecond, some p.effectiveBurst⟩ }
  | none => l

variable {p : RateLimitPolicy} {l : ListenerConfig}

theorem oldest_of_find? {sel : Option Str}
    (h : (orderedPolicies policies gwNs gwName).find? (·.targetRef.sectionName == sel) = some p) :
    Oldest policies gwNs gwName (·.targetRef.sectionName = sel) p := by
  obtain ⟨hchosen, before, after, hsplit, hbefore⟩ := find?_eq_some_iff_append.mp h
  obtain ⟨hlisted, htargets⟩ := mem_orderedPolicies.mp (mem_of_find?_eq_some h)
  refine ⟨hlisted, htargets, beq_iff_eq.mp hchosen, fun q hq hq' hsel => ?_⟩
  have hmem := mem_orderedPolicies.mpr ⟨hq, hq'⟩
  have hsorted := orderedPolicies_pairwise policies gwNs gwName
  rw [hsplit] at hmem hsorted
  rcases mem_append.mp hmem with hmem | hmem
  · simpa [hsel] using hbefore q hmem
  · rcases mem_cons.mp hmem with rfl | hmem
    · exact le_rfl
    · exact rel_of_pairwise_cons (pairwise_append.mp hsorted).2.1 hmem

theorem limits_limitingPolicy (policies : List RateLimitPolicy) (gwNs gwName : Str)
    (l : ListenerConfig) : Limits policies gwNs gwName l
      (limitingPolicy (orderedPolicies policies gwNs gwName) l) := by
  have hnone {sel : Option Str}
      (h : (orderedPolicies policies gwNs gwName).find? (·.targetRef.sectionName == sel) = none)
      {q : RateLimitPolicy} (hq : q ∈ policies) (hq' : q.targetsGateway gwNs gwName = true) :
      q.targetRef.sectionName ≠ sel := by
    simpa using find?_eq_none.mp h q (mem_orderedPolicies.mpr ⟨hq, hq'⟩)
  unfold limitingPolicy
  cases hsection : (orderedPolicies policies gwNs gwName).find?
      (·.targetRef.sectionName == some l.name) with
  | some p => exact .inl (oldest_of_find? hsection)
  | none =>
    rw [none_or]
    cases hwide :
      (orderedPolicies policies gwNs gwName).find? (·.targetRef.sectionName == none) with
    | some p =>
      exact .inr ⟨fun q hq => hnone hsection hq.listed hq.targets hq.chosen, oldest_of_find? hwide⟩
    | none => exact fun q hq hq' => ⟨hnone hsection hq hq', hnone hwide hq hq'⟩

/-- A policy is accepted when a listener has it, or one of its name. -/
theorem policyVerdict_accepted {listeners : List ListenerConfig} {applied : List Str} :
    (policyVerdict listeners applied p).1 = .accepted ↔
      (∀ s ∈ p.targetRef.sectionName, ∃ l ∈ listeners, l.name = s) ∧ p.name ∈ applied := by
  unfold policyVerdict
  cases hfound : p.targetRef.sectionName.filter
      fun section_ => !listeners.any fun l => l.name == section_ with
  | some s =>
    obtain ⟨hs, hno⟩ := filter_eq_some_iff.mp hfound
    simp only [reduceCtorEq, false_iff, not_and]
    intro h
    simpa using absurd (h s hs) (by simpa using hno)
  | none =>
    have hall : ∀ s ∈ p.targetRef.sectionName, ∃ l ∈ listeners, l.name = s := by
      simpa [filter_eq_none_iff] using hfound
    by_cases happlied : p.name ∈ applied
    · simpa [happlied] using hall
    · simp [happlied]

theorem Limits.chosen (h : Limits policies gwNs gwName l (some p)) :
    p ∈ orderedPolicies policies gwNs gwName ∧ ∀ s ∈ p.targetRef.sectionName, l.name = s := by
  rcases h with h | ⟨-, h⟩
  all_goals exact ⟨mem_orderedPolicies.mpr ⟨h.listed, h.targets⟩, by simp [h.chosen]⟩

/-- Policies with names of their own limit each listener by the oldest of its section, or else of
the Gateway, whatever their order; accepted is what limits a listener. -/
theorem rateLimit_laws (listeners : List ListenerConfig) (policies : List RateLimitPolicy)
    (gwNs gwName : Str) (hnames : NamesApart policies gwNs) :
    ∃ limiting : ListenerConfig → Option RateLimitPolicy,
      (∀ l, Limits policies gwNs gwName l (limiting l)) ∧
      ∀ other : List RateLimitPolicy, other.Perm policies →
        (applyRateLimitPolicies listeners other gwNs gwName).1 =
          listeners.map (fun l => withLimit l (limiting l)) ∧
        ∀ p ∈ policies, p.targetsGateway gwNs gwName = true →
          (∃ s ∈ (applyRateLimitPolicies listeners other gwNs gwName).2, s.name = p.name) ∧
          ∀ s ∈ (applyRateLimitPolicies listeners other gwNs gwName).2, s.name = p.name →
            (s.accepted = true ↔ ∃ l ∈ listeners, limiting l = some p) := by
  have hlimits := limits_limitingPolicy policies gwNs gwName
  refine ⟨_, hlimits, fun other hperm => ?_⟩
  simp only [applyRateLimitPolicies, orderedPolicies_perm hnames hperm]
  refine ⟨map_congr_left fun l _ => ?_, fun p hp htargets => ?_⟩
  · unfold limitListener
    cases limitingPolicy (orderedPolicies policies gwNs gwName) l <;> rfl
  · have hmem := mem_orderedPolicies.mpr ⟨hp, htargets⟩
    refine ⟨⟨_, mem_map.mpr ⟨p, hmem, rfl⟩, rfl⟩, fun s hs hname => ?_⟩
    obtain ⟨q, hq, rfl⟩ := mem_map.mp hs
    obtain rfl : q = p := hnames.eq hq hmem hname
    rw [beq_iff_eq, policyVerdict_accepted]
    constructor
    · rintro ⟨-, happlied⟩
      obtain ⟨l, hl, hwins⟩ := mem_filterMap.mp happlied
      obtain ⟨r, hr, hname⟩ := map_eq_some_iff.mp hwins
      obtain rfl := hnames.eq (hr ▸ hlimits l).chosen.1 hmem hname
      exact ⟨l, hl, hr⟩
    · rintro ⟨l, hl, hwins⟩
      exact ⟨fun s hs => ⟨l, hl, (hwins ▸ hlimits l).chosen.2 s hs⟩,
        mem_filterMap.mpr ⟨l, hl, by rw [hwins, map_some]⟩⟩

/-- A limit of one name for the whole of the Gateway `gw`, or for one section of it. -/
def limitOf (name : Str) (created : ℤ) (sectionName : Option Str) : RateLimitPolicy where
  metadata := ⟨some name, some (Str.lit "edge"), none, none, some created⟩
  targetRef := ⟨gatewayGroup, Str.lit "Gateway", Str.lit "gw", sectionName⟩
  requestsPerSecond := 10
  burst := none

/-- A limit of the section `web` and one of the Gateway, given in either order. -/
theorem rateLimit_laws_two :
    let policies := [limitOf (Str.lit "wide") 1 none,
      limitOf (Str.lit "http") 2 (some (Str.lit "web"))]
    let listeners : List ListenerConfig :=
      [⟨Str.lit "web", .http, 80, none, none, none, none, none, none⟩,
        ⟨Str.lit "admin", .http, 81, none, none, none, none, none, none⟩]
    let applied :=
      applyRateLimitPolicies listeners policies.reverse (Str.lit "edge") (Str.lit "gw")
    NamesApart policies (Str.lit "edge") ∧ ∃ limiting : ListenerConfig → Option RateLimitPolicy,
      (∀ l, Limits policies (Str.lit "edge") (Str.lit "gw") l (limiting l)) ∧
      applied.1 = listeners.map (fun l => withLimit l (limiting l)) ∧
      ∀ p ∈ policies, (∃ s ∈ applied.2, s.name = p.name) ∧
        ∀ s ∈ applied.2, s.name = p.name →
          (s.accepted = true ↔ ∃ l ∈ listeners, limiting l = some p) := by
  intro policies listeners applied
  have hnames : NamesApart policies (Str.lit "edge") := by
    unfold NamesApart
    decide
  have htargets : ∀ p ∈ policies, p.targetsGateway (Str.lit "edge") (Str.lit "gw") = true := by
    decide
  obtain ⟨limiting, hlimits, hother⟩ :=
    rateLimit_laws listeners policies (Str.lit "edge") (Str.lit "gw") hnames
  obtain ⟨hlisteners, haccepted⟩ := hother policies.reverse (reverse_perm policies)
  exact ⟨hnames, limiting, hlimits, hlisteners, fun p hp => haccepted p hp (htargets p hp)⟩

end Portail.Kubernetes
