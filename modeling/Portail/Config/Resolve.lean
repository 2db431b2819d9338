import Portail.Config.Compile
import Portail.Routing.Select

/-!
# Backend resolution

The `Resolver` of a table build and the backends it makes of a rule's backendRefs.
One build looks every name and port up once, so a resolver outcome is a function of
both. `one_target` orders addresses by a hash with the process's own keys, which is a
field here.
-/

namespace Portail.Config

open Lib Routing List

section

inductive BuildPolicy
  | strict
  | lenient
  deriving DecidableEq

abbrev Lookup := Str → UInt16 → Except Str (List SocketAddr)

structure Resolver where
  policy : BuildPolicy
  lookup : Lookup
  hashOne : SocketAddr → UInt64
  endpointOverrides : Str × UInt16 → Option (List (Str × UInt16))
  headlessTargetPorts : Str × UInt16 → Option UInt16

namespace Resolver

/-- The addresses of a name; none where it does not resolve and the policy is lenient. -/
def addrs (r : Resolver) (name : Str) (port : UInt16) (what : String) :
    Result (Option (List SocketAddr)) :=
  match r.lookup name port with
  | .ok addrs => .ok (some addrs)
  | .error err =>
    if r.policy = .strict then
      .error [.text what, .text " backend ", .display name, .text ":", .num port.toNat,
        .text " failed to resolve: ", .display err]
    else .ok none

/-- The address of the largest hash, the last of several. -/
def oneTarget (r : Resolver) (addrs : List SocketAddr) : Option SocketAddr :=
  addrs.foldl (fun best addr =>
    match best with
    | none => some addr
    | some b => if r.hashOne b ≤ r.hashOne addr then some addr else some b) none

/-- The one target of an overriding endpoint. -/
def target (r : Resolver) (what : String) (endpoint : Str × UInt16) :
    Result (List (SocketAddr × Str)) := do
  let found ← r.addrs endpoint.1 endpoint.2 what
  return ((found.bind r.oneTarget).map fun addr => (addr, endpoint.1)).toList

/-- Every address a backend dials, each with the name it goes by. -/
def endpoints (r : Resolver) (name : Str) (port : UInt16) (what : String) :
    Result (List (SocketAddr × Str)) :=
  match (r.endpointOverrides (name, port)).filter fun targets => !targets.isEmpty with
  | some targets => do
    return (← collect (fun _ e => e) (r.target what) targets).flatten
  | none => do
    let connectPort := (r.headlessTargetPorts (name, port)).getD port
    let found ← r.addrs name connectPort what
    return (found.getD []).map fun addr => (addr, name)

end Resolver

def backendAt (socketAddr : SocketAddr) (weight : UInt32) (serverName : Str) : Backend where
  socketAddr := socketAddr
  weight := weight
  filters := []
  useTls := false
  serverName := serverName
  action := .forward

/-- The stand-in for an invalid backendRef, never dialed. -/
def rejecting (weight : UInt32) : Backend where
  socketAddr := ⟨.v4 ⟨[0, 0, 0, 0], rfl⟩, 0⟩
  weight := weight
  filters := []
  useTls := false
  serverName := Str.lit ""
  action := .reject

/-- The backends of an L4 route's backendRef: one for each endpoint, at the ref's weight. -/
def l4RefBackends (r : Resolver) (what : String) (ref : BackendRef) : Result (List Backend) :=
  if ref.invalid then .ok [rejecting ref.weight]
  else do
    return (← r.endpoints ref.name ref.port what).map fun (addr, name) =>
      backendAt addr ref.weight name

def Resolver.backends (r : Resolver) (refs : List BackendRef) (what : String) :
    Result (List Backend) := do
  return (← collect (fun _ e => e) (l4RefBackends r what) refs).flatten

variable {R : Type}

/-- The backends of an HTTP rule's backendRef with its filters. -/
def refBackends (config : PortailConfig) (r : Resolver)
    (entry : BackendRef × List HttpFilter) : Result (List Backend) :=
  let (ref, filters) := entry
  if ref.invalid then .ok [rejecting ref.weight]
  else do
    let appProtocol := ref.appProtocol.or (config.appProtocolOverrides (ref.name, ref.port))
    let useTls := appProtocol == some (Str.lit "https")
    return (← r.endpoints ref.name ref.port "HTTP").map fun (addr, name) =>
      { backendAt addr ref.weight name with filters := filters, useTls := useTls }

/-- The backends of a rule; a redirect has none. -/
def ruleBackends (config : PortailConfig) (r : Resolver) (rule : CompiledRule R) :
    Result (List Backend) :=
  if rule.source.redirects then .ok []
  else do
    return (← collect (fun _ e => e) (refBackends config r)
      (rule.source.backendRefs.zip rule.backendFilters)).flatten

end

section

/-- How many backends a backendRef becomes. -/
def refSlots (r : Resolver) (ref : BackendRef) : ℕ :=
  if ref.invalid then 1
  else match r.endpoints ref.name ref.port "HTTP" with
    | .ok found => found.length
    | .error _ => 0

variable {config : PortailConfig} {r : Resolver} {backends : List Backend} {ref : BackendRef}
  {filters : List HttpFilter}

theorem refBackends_spec (h : refBackends config r (ref, filters) = .ok backends) :
    backends.length = refSlots r ref ∧ ∀ b ∈ backends, b.weight = ref.weight := by
  unfold refBackends at h
  unfold refSlots
  cases hinv : ref.invalid with
  | true =>
    simp only [hinv, if_true, Except.ok.injEq] at h
    subst h
    simp [rejecting]
  | false =>
    simp only [hinv, Bool.false_eq_true, if_false] at h
    obtain ⟨found, hfound, hok⟩ := bind_eq_ok.mp h
    simp only [hfound]
    cases hok
    simp [backendAt]
    grind

theorem refBackends_slots (h : refBackends config r (ref, filters) = .ok backends) :
    backends.length = refSlots r ref ∧
      (backends.map Backend.slots).sum = refSlots r ref * ref.weight.toNat := by
  obtain ⟨hlen, hweight⟩ := refBackends_spec h
  have hslots : backends.map Backend.slots = List.replicate backends.length ref.weight.toNat :=
    eq_replicate_iff.mpr ⟨by simp, fun n hn => by
      obtain ⟨b, hb, rfl⟩ := mem_map.mp hn
      rw [Backend.slots, hweight b hb]⟩
  refine ⟨hlen, ?_⟩
  rw [hslots, sum_replicate, hlen, smul_eq_mul]

variable {R : Type} [RegexEngine R]

theorem ruleBackends_groups {rule : HttpRouteRule} {compiled : CompiledRule R}
    (hcompile : compileRule rule = .ok compiled) (hforward : rule.redirects = false)
    (h : ruleBackends config r compiled = .ok backends) :
    ∃ groups : List (List Backend), backends = groups.flatten ∧
      groups.map List.length = rule.backendRefs.map (refSlots r) ∧
      groups.map (fun g => (g.map Backend.slots).sum) =
        rule.backendRefs.map (fun ref => refSlots r ref * ref.weight.toNat) := by
  obtain ⟨-, -, hsource, hfilters, -⟩ := compileRule_eq_ok.mp hcompile
  rw [hforward, if_neg (by simp)] at hfilters
  rw [ruleBackends, hsource, hforward, if_neg (by simp)] at h
  obtain ⟨groups, hgroups, hok⟩ := bind_eq_ok.mp h
  rw [collect_eq_ok] at hgroups
  refine ⟨groups, (Except.ok.inj hok).symm, ?_⟩
  clear h hok hcompile hsource
  generalize compiled.backendFilters = filters at hfilters hgroups
  generalize rule.backendRefs = refs at hfilters hgroups ⊢
  induction hfilters generalizing groups with
  | nil =>
    cases hgroups
    exact ⟨rfl, rfl⟩
  | cons hfirst hrest ih =>
    rw [zip_cons_cons] at hgroups
    obtain ⟨g, groups, hg, hgs, rfl⟩ := forall₂_cons_left_iff.mp hgroups
    obtain ⟨hlen, hsum⟩ := refBackends_slots hg
    obtain ⟨hlens, hsums⟩ := ih groups hgs
    simp only [map_cons, hlen, hsum, hlens, hsums, and_self]

/-- The weights of a rule's backendRefs together. -/
def refWeights (rule : HttpRouteRule) : ℕ := (rule.backendRefs.map fun ref => ref.weight.toNat).sum

/-- How many of the picks went to the `j`-th backendRef. -/
def picksOf (r : Resolver) (rule : HttpRouteRule) (picks : List (Option ℕ)) (j : ℕ) : ℕ :=
  picks.countP fun pick => pick.bind (owner (rule.backendRefs.map (refSlots r))) == some j

/-- Every run of one round of picks gives each backendRef the share its weight has among the
rule's weights. -/
def SharesByWeight (isHealthy : SocketAddr → Bool) (r : Resolver) (rule : HttpRouteRule)
    (backends : List Backend) (weights : RuleWeights) : Prop :=
  ∀ start, start + weights.totalWeight ≤ 2 ^ 64 →
    ∃ picks, pickRun (selectHealthyWeightedBackend isHealthy backends weights)
        weights.totalWeight start = .ok picks ∧
      ∀ j ref, rule.backendRefs[j]? = some ref →
        (picksOf r rule picks j : ℚ) / weights.totalWeight =
          (ref.weight.toNat : ℚ) / refWeights rule

section

variable {isHealthy : SocketAddr → Bool} {config : PortailConfig} {r : Resolver}
  {rule : HttpRouteRule} {compiled : CompiledRule R} {backends : List Backend}

theorem totalSlots_groups (hcompile : compileRule rule = .ok compiled)
    (hforward : rule.redirects = false) (h : ruleBackends config r compiled = .ok backends) :
    totalSlots backends =
      (rule.backendRefs.map fun ref => refSlots r ref * ref.weight.toNat).sum := by
  obtain ⟨groups, rfl, -, hsums⟩ := ruleBackends_groups hcompile hforward h
  rw [← hsums, totalSlots, map_flatten, sum_flatten, map_map]
  rfl

/-- Over one round a backendRef gets its weight once for each of its backends. -/
theorem picksOf_round (hcompile : compileRule rule = .ok compiled)
    (hforward : rule.redirects = false) (h : ruleBackends config r compiled = .ok backends)
    (hhealthy : ∀ b ∈ backends, isHealthy b.socketAddr = true) {j : ℕ}
    (hj : rule.backendRefs[j]? = some ref) (start : ℕ) :
    picksOf r rule ((List.range' start (totalSlots backends)).map (pickAt isHealthy backends)) j =
      refSlots r ref * ref.weight.toNat := by
  obtain ⟨groups, hgroups, hlens, hsums⟩ := ruleBackends_groups hcompile hforward h
  have hall : AllHealthy isHealthy backends := fun b hb _ => hhealthy b hb
  have hslots : backends.map Backend.slots = (groups.map (List.map Backend.slots)).flatten := by
    rw [hgroups, map_flatten]
  have hgroup (c : ℕ) : (pickAt isHealthy backends c).bind
        (owner (rule.backendRefs.map (refSlots r))) =
      owner (rule.backendRefs.map fun ref => refSlots r ref * ref.weight.toNat)
        (c % totalSlots backends) := by
    rw [pickAt, if_pos (.inl (fast_iff.mpr (.inl hall))), hslots, ← hlens, ← hsums]
    have hflat := owner_flatten (groups.map (List.map Backend.slots)) (c % totalSlots backends)
    simpa [map_map, Function.comp_def] using hflat
  have hget : (rule.backendRefs.map fun ref => refSlots r ref * ref.weight.toNat)[j]? =
      some (refSlots r ref * ref.weight.toNat) := by simp [hj]
  have hround := card_owner_round hget start
  rw [← totalSlots_groups hcompile hforward h] at hround
  rw [picksOf, countP_map, countP_range', ← hround]
  refine congrArg Finset.card (Finset.filter_congr fun c _ => ?_)
  simp [hgroup]

end

/-- A forwarding rule shares its traffic by the weights of its backendRefs exactly when those
with a weight become equally many backends. -/
theorem sharesByWeight_iff_equal_slots {isHealthy : SocketAddr → Bool} {config : PortailConfig}
    {r : Resolver} {rule : HttpRouteRule} {compiled : CompiledRule R} {backends : List Backend}
    {weights : RuleWeights} (hcompile : compileRule rule = .ok compiled)
    (hforward : rule.redirects = false) (hbackends : ruleBackends config r compiled = .ok backends)
    (hweights : ruleWeights backends = .ok weights)
    (hresolved : ∀ ref ∈ rule.backendRefs, ref.invalid = false → 0 < refSlots r ref)
    (hhealthy : ∀ b ∈ backends, isHealthy b.socketAddr = true) :
    SharesByWeight isHealthy r rule backends weights ↔
      ∀ a ∈ rule.backendRefs, ∀ b ∈ rule.backendRefs, 0 < a.weight → 0 < b.weight →
        refSlots r a = refSlots r b := by
  obtain ⟨htotal, hround⟩ := ruleWeights_total hweights
  have hsum := totalSlots_groups hcompile hforward hbackends
  have hpos : ∀ ref ∈ rule.backendRefs, 0 < refSlots r ref := by
    intro ref href
    cases hinv : ref.invalid with
    | true => simp [refSlots, hinv]
    | false => exact hresolved ref href hinv
  have hweight {ref : BackendRef} : 0 < ref.weight ↔ 0 < ref.weight.toNat :=
    UInt32.lt_iff_toNat_lt
  simp only [hweight]
  rw [← shares_iff hpos]
  have hshare (start : ℕ) (hstart : start + weights.totalWeight ≤ 2 ^ 64) :
      (∃ picks, pickRun (selectHealthyWeightedBackend isHealthy backends weights)
          weights.totalWeight start = .ok picks ∧
        ∀ j ref, rule.backendRefs[j]? = some ref →
          (picksOf r rule picks j : ℚ) / weights.totalWeight =
            (ref.weight.toNat : ℚ) / refWeights rule) ↔
      ∀ ref ∈ rule.backendRefs, ((refSlots r ref * ref.weight.toNat : ℕ) : ℚ) /
          (rule.backendRefs.map fun ref => refSlots r ref * ref.weight.toNat).sum =
        (ref.weight.toNat : ℚ) / (rule.backendRefs.map fun ref => ref.weight.toNat).sum := by
    rw [hround] at hstart ⊢
    rw [pickRun_eq isHealthy hweights htotal _ hstart]
    simp only [Except.ok.injEq, exists_eq_left', mem_iff_getElem?, forall_exists_index]
    rw [forall_comm]
    refine forall₂_congr fun ref j => forall_congr' fun hj => ?_
    rw [picksOf_round hcompile hforward hbackends hhealthy hj, hsum]
    rfl
  constructor
  · intro h
    exact (hshare 0 (by omega)).mp (h 0 (by omega))
  · intro h start hstart
    exact (hshare start hstart).mpr h

def serviceRef (name : Str) (weight : UInt32) : BackendRef :=
  ⟨name, 80, weight, Str.lit "", Str.lit "Service", [], none, false⟩

def evenRule : HttpRouteRule :=
  ⟨[], [], [serviceRef (Str.lit "pods") 1, serviceRef (Str.lit "vip") 1]⟩

/-- A resolver that answers `pods` addresses for the first Service and one for the other. -/
def podResolver (pods : List UInt16) : Resolver where
  policy := .lenient
  lookup name port := .ok ((if name = Str.lit "pods" then pods else [port]).map
    fun p => ⟨.v4 ⟨[10, 0, 0, 1], rfl⟩, p⟩)
  hashOne _ := 0
  endpointOverrides _ := none
  headlessTargetPorts _ := none

def plainConfig : PortailConfig where
  gateway := ⟨Str.lit "portail-gateway", [], []⟩
  httpRoutes := []
  tcpRoutes := []
  tlsRoutes := []
  udpRoutes := []
  endpointOverrides _ := none
  appProtocolOverrides _ := none
  headlessTargetPorts _ := none

def evenCompiled : CompiledRule Empty :=
  ⟨evenRule, [⟨none, .pathPrefix, Str.lit "/", none, [], []⟩], [], [[], []]⟩

def podBackends (pods : List UInt16) : List Backend :=
  pods.map (fun p => backendAt ⟨.v4 ⟨[10, 0, 0, 1], rfl⟩, p⟩ 1 (Str.lit "pods")) ++
    [backendAt ⟨.v4 ⟨[10, 0, 0, 1], rfl⟩, 80⟩ 1 (Str.lit "vip")]

theorem sharesByWeight_one_pod :
    SharesByWeight (fun _ => true) (podResolver [8080]) evenRule (podBackends [8080])
        ⟨[1, 2], 2⟩ ↔
      ∀ a ∈ evenRule.backendRefs, ∀ b ∈ evenRule.backendRefs, 0 < a.weight → 0 < b.weight →
        refSlots (podResolver [8080]) a = refSlots (podResolver [8080]) b :=
  sharesByWeight_iff_equal_slots (show compileRule evenRule = .ok evenCompiled from rfl) rfl
    (show ruleBackends plainConfig _ _ = _ from rfl) rfl (by decide) (fun _ _ => rfl)

/-- Of two Services of equal weight the one with two pods gets two picks of three. -/
theorem two_pods_take_two_thirds :
    compileRule evenRule = .ok evenCompiled ∧
    ruleBackends plainConfig (podResolver [8080, 8081]) evenCompiled =
      .ok (podBackends [8080, 8081]) ∧
    ruleWeights (podBackends [8080, 8081]) = .ok ⟨[1, 2, 3], 3⟩ ∧
    pickRun (selectHealthyWeightedBackend (fun _ => true) (podBackends [8080, 8081])
      ⟨[1, 2, 3], 3⟩) 3 0 = .ok [some 0, some 1, some 2] ∧
    (picksOf (podResolver [8080, 8081]) evenRule [some 0, some 1, some 2] 0 : ℚ) / 3 ≠
      1 / refWeights evenRule := by
  refine ⟨rfl, rfl, rfl, rfl, ?_⟩
  have hpicks : picksOf (podResolver [8080, 8081]) evenRule [some 0, some 1, some 2] 0 = 2 := rfl
  have hweights : refWeights evenRule = 2 := rfl
  rw [hpicks, hweights]
  norm_num

end
end Portail.Config
