import Portail.Config.Pruned
import Portail.Config.Shape

/-!
# Records in another order

Two resolvers that answer the same addresses in different orders. A mirror goes to the
smallest address, whatever the order. An endpoint of an ExternalName Service goes to the
address of the largest hash, and to the last of them where several share it: only there
the order shows.
-/

namespace Portail.Config

open Lib Routing List

/-- The same addresses in some order, or a failure both times. -/
def SameAnswer : Except Str (List SocketAddr) → Except Str (List SocketAddr) → Prop
  | .ok addrs₁, .ok addrs₂ => addrs₁.Perm addrs₂
  | .error _, .error _ => True
  | _, _ => False

def Reordered (lookup₁ lookup₂ : Lookup) : Prop :=
  ∀ name port, SameAnswer (lookup₁ name port) (lookup₂ name port)

theorem SameAnswer.refl (answer : Except Str (List SocketAddr)) : SameAnswer answer answer := by
  cases answer with
  | error e => trivial
  | ok addrs => exact List.Perm.refl addrs

/-- The resolver with another answer for one name. -/
def answering (lookup : Lookup) (endpoint : Str × UInt16) (addrs : List SocketAddr) : Lookup :=
  fun name port => if (name, port) = endpoint then .ok addrs else lookup name port

variable {endpoint : Str × UInt16}

theorem reordered_answering {lookup : Lookup}
    {addrs addrs' : List SocketAddr} (h : lookup endpoint.1 endpoint.2 = .ok addrs)
    (hperm : addrs.Perm addrs') : Reordered lookup (answering lookup endpoint addrs') := by
  intro name port
  unfold answering
  split_ifs with heq
  · subst heq
    rw [h]
    exact hperm
  · exact SameAnswer.refl _

section

/-- One address only has the largest hash. -/
def OneLargest (hashOne : SocketAddr → UInt64) (addrs : List SocketAddr) : Prop :=
  ∀ a ∈ addrs, ∀ b ∈ addrs, (∀ c ∈ addrs, hashOne c ≤ hashOne a) → hashOne b = hashOne a → b = a

variable {r : Resolver} {addrs : List SocketAddr} {a : SocketAddr}

theorem oneTarget_eq (r : Resolver) (addrs : List SocketAddr) : r.oneTarget addrs =
    addrs.foldl (better fun a b => decide (r.hashOne b ≤ r.hashOne a)) none := by
  unfold Resolver.oneTarget
  congr 1
  funext best a
  cases best with
  | none => rfl
  | some b => simp [better]

theorem exists_oneTarget (r : Resolver) (h : addrs ≠ []) : ∃ a, r.oneTarget addrs = some a := by
  rw [oneTarget_eq]
  exact Option.ne_none_iff_exists'.mp fun hnone => h (foldl_better_eq_none.mp hnone)

theorem oneTarget_spec (h : r.oneTarget addrs = some a) :
    a ∈ addrs ∧ ∀ b ∈ addrs, r.hashOne b ≤ r.hashOne a := by
  rw [oneTarget_eq] at h
  exact foldl_better (r := fun a b => r.hashOne b ≤ r.hashOne a) (fun _ => UInt64.le_refl _)
    (fun _ _ _ hab hbc => UInt64.le_trans hbc hab) (fun _ _ h => of_decide_eq_true h)
    (fun _ _ h => (UInt64.le_total _ _).resolve_left (of_decide_eq_false h)) h

theorem oneTarget_concat_largest (h : ∀ b ∈ addrs, r.hashOne b ≤ r.hashOne a) :
    r.oneTarget (addrs ++ [a]) = some a := by
  rw [oneTarget_eq, foldl_append, ← oneTarget_eq]
  refine if_pos ?_
  cases hbest : r.oneTarget addrs with
  | none => rfl
  | some best => exact decide_eq_true (h best (oneTarget_spec hbest).1)

/-- With one address of the largest hash, the pick is a function of the set. -/
theorem oneTarget_perm {addrs₁ addrs₂ : List SocketAddr} (hperm : addrs₁.Perm addrs₂)
    (hone : OneLargest r.hashOne addrs₁) : r.oneTarget addrs₁ = r.oneTarget addrs₂ := by
  by_cases hempty : addrs₁ = []
  · subst hempty
    rw [nil_perm.mp hperm]
  · obtain ⟨a, ha⟩ := exists_oneTarget r hempty
    have hother : addrs₂ ≠ [] := fun h => hempty (perm_nil.mp (h ▸ hperm))
    obtain ⟨b, hb⟩ := exists_oneTarget r hother
    obtain ⟨hamem, hamax⟩ := oneTarget_spec ha
    obtain ⟨hbmem, hbmax⟩ := oneTarget_spec hb
    have hhash : r.hashOne b = r.hashOne a :=
      UInt64.le_antisymm (hamax b (hperm.mem_iff.mpr hbmem)) (hbmax a (hperm.mem_iff.mp hamem))
    rw [ha, hb, hone a hamem b (hperm.mem_iff.mpr hbmem) hamax hhash]

/-- With several, some order picks another address. -/
theorem exists_other_pick (htie : ¬OneLargest r.hashOne addrs) :
    ∃ addrs', addrs.Perm addrs' ∧ r.oneTarget addrs ≠ r.oneTarget addrs' := by
  unfold OneLargest at htie
  push Not at htie
  obtain ⟨a, ha, b, hb, hmax, hhash, hne⟩ := htie
  obtain ⟨q, hq, hqmax, hpick⟩ : ∃ q ∈ addrs, (∀ c ∈ addrs, r.hashOne c ≤ r.hashOne q) ∧
      r.oneTarget addrs ≠ some q := by
    by_cases hpick : r.oneTarget addrs = some a
    · refine ⟨b, hb, fun c hc => hhash ▸ hmax c hc, ?_⟩
      rw [hpick]
      exact fun h => hne (Option.some.inj h).symm
    · exact ⟨a, ha, hmax, hpick⟩
  refine ⟨addrs.erase q ++ [q], (perm_cons_erase hq).trans (perm_append_singleton q _).symm, ?_⟩
  rw [oneTarget_concat_largest fun c hc => hqmax c (mem_of_mem_erase hc)]
  exact hpick

/-- An IPv6 address from the low 80 bits of a number. -/
def wideIp (n : ℕ) : IpAddr :=
  .v6 (Ipv6Addr.ofSegments 0 0 0 (UInt16.ofNat n) (UInt16.ofNat (n / 2 ^ 16))
    (UInt16.ofNat (n / 2 ^ 32)) (UInt16.ofNat (n / 2 ^ 48)) (UInt16.ofNat (n / 2 ^ 64)))

theorem wideIp_inj {m n : ℕ} (hm : m < 2 ^ 80) (hn : n < 2 ^ 80) (h : wideIp m = wideIp n) :
    m = n := by
  simp only [wideIp, Ipv6Addr.ofSegments, IpAddr.v6.injEq, Ipv6Addr.mk.injEq, List.cons.injEq,
    ← UInt16.toNat_inj, UInt16.toNat_ofNat'] at h
  omega

/-- There are more addresses than hashes: any hash has two addresses of a port in common. -/
theorem exists_hash_tie (hashOne : SocketAddr → UInt64) (port : UInt16) :
    ∃ a b, a ≠ b ∧ hashOne ⟨a, port⟩ = hashOne ⟨b, port⟩ := by
  obtain ⟨m, n, hne, hhash⟩ := Fintype.exists_ne_map_eq_of_card_lt
    (fun n : Fin (2 ^ 64 + 1) => (hashOne ⟨wideIp n, port⟩).toFin) (by simp)
  refine ⟨wideIp m, wideIp n, fun h => hne (Fin.ext ?_), UInt64.toFin_inj.mp hhash⟩
  exact wideIp_inj (by omega) (by omega) h

end

theorem socketAddrKey_injective : Function.Injective socketAddrKey := by
  rintro ⟨ip₁, port₁⟩ ⟨ip₂, port₂⟩ h
  obtain ⟨hip, hport⟩ := append_inj' h rfl
  have hports : port₁ = port₂ := UInt16.toNat_inj.mp (singleton_inj.mp hport)
  have hips : ip₁ = ip₂ := by
    cases ip₁ with
    | v4 ip₁ =>
      cases ip₂ with
      | v4 ip₂ =>
        have hoctets := map_injective_iff.mpr (fun _ _ => UInt8.toNat_inj.mp) (cons.inj hip).2
        cases ip₁
        cases ip₂
        simpa using hoctets
      | v6 ip₂ => exact absurd (cons.inj hip).1 (by decide)
    | v6 ip₁ =>
      cases ip₂ with
      | v4 ip₂ => exact absurd (cons.inj hip).1 (by decide)
      | v6 ip₂ =>
        have hsegments := map_injective_iff.mpr (fun _ _ => UInt16.toNat_inj.mp) (cons.inj hip).2
        cases ip₁
        cases ip₂
        simpa using hsegments
  rw [hips, hports]

theorem minAddr_key (a b : SocketAddr) :
    socketAddrKey (minAddr a b) = min (socketAddrKey a) (socketAddrKey b) := by
  unfold minAddr
  split_ifs with h
  · exact (min_eq_right h.le).symm
  · exact (min_eq_left (not_lt.mp h)).symm

instance : RightCommutative minAddr where
  right_comm a b c := socketAddrKey_injective (by
    simp only [minAddr_key, min_assoc, min_comm (socketAddrKey b)])

theorem smallestAddr_perm {addrs₁ addrs₂ : List SocketAddr} (hperm : addrs₁.Perm addrs₂) :
    smallestAddr addrs₁ = smallestAddr addrs₂ := by
  have hstart (a b : SocketAddr) : minAddr a b = minAddr b a :=
    socketAddrKey_injective (by rw [minAddr_key, minAddr_key, min_comm])
  induction hperm with
  | nil => rfl
  | cons a hperm _ => simp only [smallestAddr, hperm.foldl_eq]
  | swap a b addrs => simp only [smallestAddr, foldl_cons, hstart a b]
  | trans _ _ ih₁ ih₂ => exact ih₁.trans ih₂

/-- The references a build looks up: those of HTTP routes that compile, and of other routes that
are attached. -/
def PortailConfig.lookedUp (R : Type) [RegexEngine R] (config : PortailConfig) : List BackendRef :=
  (((config.httpRoutes.filter (HttpRouteConfig.compiles R)).flatMap HttpRouteConfig.rules).flatMap
    HttpRouteRule.dialed ++ config.l4References).filter fun ref => !ref.invalid

/-- The endpoints of the ExternalName Services a build looks up. -/
def PortailConfig.externalEndpoints (R : Type) [RegexEngine R] (config : PortailConfig) :
    List (Str × UInt16) :=
  (config.lookedUp R).flatMap fun ref => (config.endpointOverrides (ref.name, ref.port)).getD []

/-- The address an ExternalName endpoint resolves to. -/
def Resolver.pick (r : Resolver) (endpoint : Str × UInt16) : Option SocketAddr :=
  match r.lookup endpoint.1 endpoint.2 with
  | .ok addrs => r.oneTarget addrs
  | .error _ => none

theorem pick_reordered {config : PortailConfig} {policy₁ policy₂ : BuildPolicy}
    {lookup₁ lookup₂ : Lookup} {hashOne : SocketAddr → UInt64} (h : Reordered lookup₁ lookup₂)
    (hone : ∀ addrs, lookup₁ endpoint.1 endpoint.2 = .ok addrs → OneLargest hashOne addrs) :
    (resolverOf config policy₁ lookup₁ hashOne).pick endpoint =
      (resolverOf config policy₂ lookup₂ hashOne).pick endpoint := by
  have hsame := h endpoint.1 endpoint.2
  simp only [Resolver.pick, resolverOf]
  cases hl₁ : lookup₁ endpoint.1 endpoint.2 <;> cases hl₂ : lookup₂ endpoint.1 endpoint.2 <;>
    simp only [hl₁, hl₂, SameAnswer] at hsame ⊢
  exact oneTarget_perm hsame (hone _ hl₁)

theorem target_eq_ok {r : Resolver} {what : String}
    {found : List (SocketAddr × Str)} (h : r.target what endpoint = .ok found) :
    found = ((r.pick endpoint).map fun addr => (addr, endpoint.1)).toList := by
  obtain ⟨answer, hanswer, h⟩ := bind_eq_ok.mp h
  cases h
  unfold Resolver.addrs at hanswer
  unfold Resolver.pick
  cases hlookup : r.lookup endpoint.1 endpoint.2 with simp only [hlookup] at hanswer
  | ok addrs =>
    cases hanswer
    rfl
  | error err =>
    split_ifs at hanswer
    cases hanswer
    rfl

theorem addrs_perm {r₁ r₂ : Resolver} (h : Reordered r₁.lookup r₂.lookup) (name : Str)
    (port : UInt16) (what : String) :
    OkRel (fun found₁ found₂ => (found₁.getD []).Perm (found₂.getD [])) (r₁.addrs name port what)
      (r₂.addrs name port what) := by
  intro found₁ found₂ h₁ h₂
  have hsame := h name port
  unfold Resolver.addrs at h₁ h₂
  cases hl₁ : r₁.lookup name port <;> cases hl₂ : r₂.lookup name port <;>
    simp only [hl₁, hl₂, SameAnswer] at h₁ h₂ hsame
  case error.error =>
    split_ifs at h₁ h₂
    rw [← Except.ok.inj h₁, ← Except.ok.inj h₂]
  case ok.ok =>
    rw [← Except.ok.inj h₁, ← Except.ok.inj h₂]
    exact hsame

section

/-- The same addresses for every name, and the same picks for the ExternalName endpoints. -/
structure SamePicks (R : Type) [RegexEngine R] (config : PortailConfig) (r₁ r₂ : Resolver) :
    Prop where
  overrides₁ : r₁.endpointOverrides = config.endpointOverrides
  overrides₂ : r₂.endpointOverrides = config.endpointOverrides
  ports : r₁.headlessTargetPorts = r₂.headlessTargetPorts
  reordered : Reordered r₁.lookup r₂.lookup
  pick : ∀ endpoint ∈ config.externalEndpoints R, r₁.pick endpoint = r₂.pick endpoint

variable {R : Type} [RegexEngine R] {config : PortailConfig} {r₁ r₂ : Resolver}
  (h : SamePicks R config r₁ r₂) {ref : BackendRef} {rule : HttpRouteRule}

include h in
theorem endpoints_perm (href : ref ∈ config.lookedUp R) (what : String) :
    OkRel List.Perm (r₁.endpoints ref.name ref.port what)
      (r₂.endpoints ref.name ref.port what) := by
  unfold Resolver.endpoints
  rw [h.overrides₁, h.overrides₂, h.ports]
  cases htargets : (config.endpointOverrides (ref.name, ref.port)).filter
      fun targets => !targets.isEmpty with
  | some targets =>
    refine (OkRel.collect fun endpoint hendpoint l₁ l₂ hl₁ hl₂ => ?_).bind fun _ _ hparts => .ok
      (List.Perm.flatten_congr hparts)
    have hmem : endpoint ∈ config.externalEndpoints R := by
      refine mem_flatMap.mpr ⟨ref, href, ?_⟩
      rw [(Option.filter_eq_some_iff.mp htargets).1]
      exact hendpoint
    rw [target_eq_ok hl₁, target_eq_ok hl₂, h.pick endpoint hmem]
  | none => exact (addrs_perm h.reordered _ _ _).bind fun _ _ hperm => .ok (hperm.map _)

include h in
theorem refOutcome_rel {β : Type} (rel : β → β → Prop) {what : String}
    (href : ref.invalid = false → ref ∈ config.lookedUp R) {x : β} (hx : rel x x)
    {f : List (SocketAddr × Str) → β} (hf : ∀ l₁ l₂, l₁.Perm l₂ → rel (f l₁) (f l₂)) :
    OkRel rel
      (if ref.invalid = true then .ok x else do return f (← r₁.endpoints ref.name ref.port what))
      (if ref.invalid = true then .ok x
        else do return f (← r₂.endpoints ref.name ref.port what)) := by
  split_ifs with hinvalid
  · exact .ok hx
  · exact (endpoints_perm h (href (Bool.eq_false_iff.mpr hinvalid)) what).bind fun _ _ hperm =>
      .ok (hf _ _ hperm)

include h in
theorem ruleFilter_eq {f : CompiledFilter}
    (href : ∀ ref ∈ f.mirrored, ref.invalid = false → ref ∈ config.lookedUp R) :
    OkRel Eq (ruleFilter r₁ f) (ruleFilter r₂ f) := by
  cases f with
  | ready filter => exact .ok rfl
  | mirror ref fraction =>
    refine refOutcome_rel h Eq (href ref rfl) rfl fun l₁ l₂ hperm => ?_
    rw [smallestAddr_perm (hperm.map Prod.fst)]

variable {compiled : CompiledRule R} (hrule : rule ∈ (config.httpRoutes.filter
  (HttpRouteConfig.compiles R)).flatMap HttpRouteConfig.rules)

include hrule in
theorem mem_lookedUp (href : ref ∈ rule.dialed) (hvalid : ref.invalid = false) :
    ref ∈ config.lookedUp R :=
  mem_filter.mpr ⟨mem_append_left _ (mem_flatMap.mpr ⟨rule, hrule, href⟩), by rw [hvalid]; rfl⟩

variable (hcompile : compileRule rule = .ok compiled)
include h hrule hcompile

theorem ruleBackends_perm :
    OkRel List.Perm (ruleBackends config r₁ compiled) (ruleBackends config r₂ compiled) := by
  obtain ⟨-, -, hsource, -⟩ := compileRule_eq_ok.mp hcompile
  unfold ruleBackends
  rw [hsource]
  split_ifs with hredirects
  · exact .ok (.refl _)
  · refine (OkRel.collect fun entry hentry => ?_).bind fun _ _ hparts =>
      .ok (List.Perm.flatten_congr hparts)
    refine refOutcome_rel h List.Perm (mem_lookedUp hrule (mem_append_left _ ?_)) (.refl _)
      fun _ _ hperm => hperm.map _
    rw [if_neg hredirects]
    exact (of_mem_zip hentry).1

theorem ruleFilters_eq :
    OkRel Eq (ruleFilters r₁ compiled.filters) (ruleFilters r₂ compiled.filters) := by
  obtain ⟨-, -, -, -, -, hfilters⟩ := compileRule_eq_ok.mp hcompile
  refine (OkRel.collect fun c hc => ?_).bind fun _ _ hparts =>
    .ok (congrArg _ (forall₂_eq_eq_eq ▸ hparts))
  refine ruleFilter_eq h fun ref hmirror => mem_lookedUp hrule ?_
  obtain ⟨f, hf, hcf⟩ := forall₂_exists_right hfilters.flip hc
  rw [mirrored_compileFilter hcf] at hmirror
  exact mem_append_right _ (mem_filterMap.mpr ⟨f, hf, hmirror⟩)

theorem tableRules_unordered (i : ℕ) :
    OkRel (fun rules₁ rules₂ => rules₁.map (orderMap R).rule = rules₂.map (orderMap R).rule)
      (tableRules config r₁ i compiled) (tableRules config r₂ i compiled) := by
  refine (ruleBackends_perm h hrule hcompile).bind fun _ _ hperm =>
    (ruleFilters_eq h hrule hcompile).bind fun filters₁ filters₂ hfilters => .ok ?_
  have hbackends := unordered_eq_iff.mpr hperm
  rw [map_map, map_map, hfilters]
  refine map_congr_left fun m _ => ?_
  simp only [Function.comp_apply, orderMap, CompiledMatch.toRule, hbackends]

omit hrule hcompile in
/-- The map that forgets the order of backends does not see the order of the answers. -/
theorem blurs_orderMap : Blurs (orderMap R) config r₁ r₂ where
  http route hroute hcompiles rule hrule compiled hcompile i :=
    tableRules_unordered h (mem_flatMap.mpr ⟨route, mem_filter.mpr ⟨hroute, hcompiles⟩, hrule⟩)
      hcompile i
  l4 refs hrefs what := by
    refine (OkRel.collect fun ref href => ?_).bind fun _ _ hparts =>
      .ok (unordered_eq_iff.mpr (List.Perm.flatten_congr hparts))
    refine refOutcome_rel h List.Perm (fun hvalid => ?_) (.refl _) fun _ _ hperm => hperm.map _
    exact mem_filter.mpr ⟨mem_append_right _ (hrefs href), by rw [hvalid]; rfl⟩

end
end Portail.Config
