import Portail.Config.Build

/-!
# What a lenient build leaves out

A lenient build of a config is the strict build of that config without what fails: a route that
does not compile keeps its place and has no rules, a backendRef or a mirror none of whose targets
resolves is dropped, and of an override the targets that do not resolve
(`lenient_build_pruned`). A strict build fails unless there is nothing to leave out.
-/

namespace Portail.Config

open Lib Http Routing List

section

variable (config : PortailConfig)

/-- The names a resolver looks up for a Service. -/
def targetsOf (endpointOverrides : Str × UInt16 → Option (List (Str × UInt16)))
    (headlessTargetPorts : Str × UInt16 → Option UInt16) (service : Str × UInt16) :
    List (Str × UInt16) :=
  ((endpointOverrides service).filter fun targets => !targets.isEmpty).getD
    [(service.1, (headlessTargetPorts service).getD service.2)]

def PortailConfig.targets : Str × UInt16 → List (Str × UInt16) :=
  targetsOf config.endpointOverrides config.headlessTargetPorts

/-- The backendRefs and mirrors of a config that a build resolves. -/
def PortailConfig.dialed : List BackendRef :=
  (config.httpRoutes.flatMap HttpRouteConfig.rules).flatMap HttpRouteRule.dialed ++
    config.l4References

/-- The names a build looks up. -/
def PortailConfig.lookups : List (Str × UInt16) :=
  (config.dialed.filter fun ref => !ref.invalid).flatMap fun ref =>
    config.targets (ref.name, ref.port)

section

variable (R : Type) [RegexEngine R] (keep : BackendRef → Bool)

def HttpRouteFilter.keptBy (f : HttpRouteFilter) : Bool := f.mirrored.all keep

def HttpRouteRule.prune (rule : HttpRouteRule) : HttpRouteRule :=
  { rule with
    filters := rule.filters.filter (HttpRouteFilter.keptBy keep)
    backendRefs := rule.backendRefs.filter keep }

def L4RouteRule.prune (rule : L4RouteRule) : L4RouteRule := ⟨rule.backendRefs.filter keep⟩

/-- A route that does not compile keeps its place, which the table records. -/
def HttpRouteConfig.prune (route : HttpRouteConfig) : HttpRouteConfig :=
  { route with
    rules := if route.compiles R then route.rules.map (HttpRouteRule.prune keep) else [] }

def TcpRouteConfig.prune (route : TcpRouteConfig) : TcpRouteConfig :=
  { route with rules := route.rules.map (L4RouteRule.prune keep) }

def TlsRouteConfig.prune (route : TlsRouteConfig) : TlsRouteConfig :=
  { route with rules := route.rules.map (L4RouteRule.prune keep) }

/-- The config with the references kept, and other overrides. -/
def PortailConfig.prune (overrides : Str × UInt16 → Option (List (Str × UInt16))) :
    PortailConfig :=
  { config with
    httpRoutes := config.httpRoutes.map (HttpRouteConfig.prune R keep)
    tcpRoutes := config.tcpRoutes.map (TcpRouteConfig.prune keep)
    tlsRoutes := config.tlsRoutes.map (TlsRouteConfig.prune keep)
    udpRoutes := config.udpRoutes.map (TcpRouteConfig.prune keep)
    endpointOverrides := overrides }

def answers (lookup : Lookup) (name : Str × UInt16) : Bool := (lookup name.1 name.2).isOk

/-- An invalid reference is not looked up, and stays. -/
def PortailConfig.resolves (lookup : Lookup) (ref : BackendRef) : Bool :=
  ref.invalid || (config.targets (ref.name, ref.port)).any (answers lookup)

/-- The config without what does not compile or resolve. -/
def PortailConfig.pruned (lookup : Lookup) : PortailConfig :=
  config.prune R (config.resolves lookup) fun service =>
    (config.endpointOverrides service).map (List.filter (answers lookup))

end
end

variable {refs : List BackendRef} {β : Type} {ref : BackendRef}

section

variable {R : Type} {config : PortailConfig} {keep : BackendRef → Bool} {r₁ r₂ : Resolver}

/-- The second resolver answers as the first for what is kept; the first has nothing else. -/
def Follows (keep : BackendRef → Bool) (r₁ r₂ : Resolver) (ref : BackendRef) : Prop :=
  (ref.invalid = true → keep ref = true) ∧ (ref.invalid = false → ∀ what,
    Leaves (keep ref) (r₁.endpoints ref.name ref.port what) (r₂.endpoints ref.name ref.port what))

/-- What the resolvers make of a reference, where an invalid one has an outcome of its own. -/
theorem Follows.leaves (h : Follows keep r₁ r₂ ref) (what : String)
    (rejected : List β) {make : List (SocketAddr × Str) → List β} (hmake : make [] = []) :
    Leaves (keep ref)
      (if ref.invalid then .ok rejected
        else do return make (← r₁.endpoints ref.name ref.port what))
      (if ref.invalid then .ok rejected
        else do return make (← r₂.endpoints ref.name ref.port what)) := by
  cases hinvalid : ref.invalid with
  | true =>
    rw [h.1 hinvalid]
    exact ⟨rejected, rfl, rfl⟩
  | false => exact (h.2 hinvalid what).map hmake

theorem backends_follow (h : ∀ ref ∈ refs, Follows keep r₁ r₂ ref)
    (what : String) : Agree (r₁.backends refs what) (r₂.backends (refs.filter keep) what) :=
  Leaves.flatten fun ref href => (h ref href).leaves what _ rfl

def CompiledFilter.mirrored : CompiledFilter → Option BackendRef
  | ready _ => none
  | mirror backend _ => some backend

def CompiledFilter.keptBy (keep : BackendRef → Bool) (c : CompiledFilter) : Bool :=
  c.mirrored.all keep

theorem ruleFilters_follow {filters : List CompiledFilter}
    (h : ∀ c ∈ filters, ∀ backend ∈ c.mirrored, Follows keep r₁ r₂ backend) :
    Agree (ruleFilters r₁ filters)
      (ruleFilters r₂ (filters.filter (CompiledFilter.keptBy keep))) := by
  refine Leaves.flatten fun f hf => ?_
  cases f with
  | ready filter => exact ⟨[filter], rfl, rfl⟩
  | mirror backend fraction => exact (h _ hf backend rfl).leaves "RequestMirror" [] rfl

theorem ruleBackends_follow {c c' : CompiledRule R}
    (hredirects : c'.source.redirects = c.source.redirects)
    (hzip : c.source.redirects = false → c'.source.backendRefs.zip c'.backendFilters =
      (c.source.backendRefs.zip c.backendFilters).filter fun entry => keep entry.1)
    (h : c.source.redirects = false → ∀ ref ∈ c.source.backendRefs, Follows keep r₁ r₂ ref) :
    Agree (ruleBackends config r₁ c) (ruleBackends config r₂ c') := by
  unfold ruleBackends
  rw [hredirects]
  cases hforward : c.source.redirects with
  | true => exact .ok []
  | false =>
    rw [hzip hforward]
    refine Leaves.flatten fun entry hentry => ?_
    exact (h hforward entry.1 (of_mem_zip hentry).1).leaves "HTTP" _ rfl

end

section

variable {R : Type} [RegexEngine R] {keep : BackendRef → Bool} {rule : HttpRouteRule}

theorem any_prune {q : HttpRouteFilter → Bool}
    (hq : ∀ backendRef percent fraction, q (.requestMirror backendRef percent fraction) = false) :
    (rule.prune keep).filters.any q = rule.filters.any q := by
  rw [HttpRouteRule.prune, any_filter]
  congr 1
  funext f
  cases f with
  | requestMirror backendRef percent fraction => rw [hq, Bool.and_false]
  | _ => rfl

theorem redirects_prune : (rule.prune keep).redirects = rule.redirects :=
  any_prune fun _ _ _ => rfl

theorem checkNoRepeatsFrom_filter {p : HttpRouteFilter → Bool} {filters : List HttpRouteFilter}
    {earlier earlier' : List FilterType} (hsub : ∀ k ∈ earlier', k ∈ earlier) {i j : ℕ}
    (h : checkNoRepeatsFrom earlier i filters = .ok ()) :
    checkNoRepeatsFrom earlier' j (filters.filter p) = .ok () := by
  induction filters generalizing earlier earlier' i j with
  | nil => rfl
  | cons f rest ih =>
    rw [checkNoRepeatsFrom, seq_eq_ok, ensure_eq_ok] at h
    rw [filter_cons]
    split_ifs
    · rw [checkNoRepeatsFrom, seq_eq_ok, ensure_eq_ok]
      refine ⟨h.1.imp_right fun hf hmem => hf (hsub _ hmem), ih (fun k hk => ?_) h.2⟩
      rcases mem_append.mp hk with hk | hk
      · exact mem_append_left _ (hsub k hk)
      · exact mem_append_right _ hk
    · exact ih (fun k hk => mem_append_left _ (hsub k hk)) h.2

theorem checkFilterCombination_prune (h : checkFilterCombination rule.filters = .ok ()) :
    checkFilterCombination (rule.prune keep).filters = .ok () := by
  have hsub : (rule.prune keep).filters ⊆ rule.filters := filter_subset_self _
  have hany {q : HttpRouteFilter → Bool} (hq : (rule.prune keep).filters.any q = true) :
      rule.filters.any q = true := by
    obtain ⟨f, hf, hq⟩ := any_eq_true.mp hq
    exact any_eq_true.mpr ⟨f, hsub hf, hq⟩
  simp only [checkFilterCombination, checkRuleFilters, seq_eq_ok, mapError_eq_ok,
    ensure_eq_ok] at h ⊢
  refine ⟨checkNoRepeatsFrom_filter (forall_mem_nil _) h.1, fun hboth => h.2.1 ?_,
    fun hboth => h.2.2 ⟨hany hboth.1, hany hboth.2⟩⟩
  exact ⟨map_subset _ hsub hboth.1, map_subset _ hsub hboth.2⟩

theorem checkPrefixReplacement_prune (h : checkPrefixReplacement rule = .ok ()) :
    checkPrefixReplacement (rule.prune keep) = .ok () := by
  have hsame : (rule.prune keep).filters.any HttpRouteFilter.replacesPrefix =
      rule.filters.any HttpRouteFilter.replacesPrefix := any_prune fun _ _ _ => rfl
  unfold checkPrefixReplacement at h ⊢
  rw [hsame]
  exact h

theorem mirrored_compileFilter {f : HttpRouteFilter} {c : CompiledFilter}
    (h : compileFilter f = .ok c) : c.mirrored = f.mirrored := by
  rw [compileFilter, seq_eq_ok, seq_eq_ok] at h
  cases f with
  | requestMirror backendRef percent fraction =>
    obtain ⟨share, -, hc⟩ := bind_eq_ok.mp h.2.2
    cases hc
    rfl
  | _ =>
    obtain rfl := Except.ok.inj h.2.2
    rfl

variable (keep) in
theorem compileRule_prune {c : CompiledRule R} (h : compileRule rule = .ok c) :
    ∃ c' : CompiledRule R, compileRule (rule.prune keep) = .ok c' ∧
      c'.source = rule.prune keep ∧ c'.routeMatches = c.routeMatches ∧
      c'.filters = c.filters.filter (CompiledFilter.keptBy keep) ∧
      (rule.redirects = false → (rule.prune keep).backendRefs.zip c'.backendFilters =
        (rule.backendRefs.zip c.backendFilters).filter fun entry => keep entry.1) := by
  obtain ⟨hcomb, hprefix, -, hbackends, hmatches, hfilters⟩ := compileRule_eq_ok.mp h
  have hkept : List.Forall₂ (fun f c => compileFilter f = .ok c) (rule.prune keep).filters
      (c.filters.filter (CompiledFilter.keptBy keep)) :=
    rel_filter (fun f c hc => by
      simp only [HttpRouteFilter.keptBy, CompiledFilter.keptBy, mirrored_compileFilter hc]) hfilters
  obtain ⟨filters, hforall, hzip⟩ := forall₂_filter keep hbackends
  refine ⟨⟨rule.prune keep, c.routeMatches, c.filters.filter (CompiledFilter.keptBy keep),
    filters⟩, ?_, rfl, rfl, rfl, fun hforward => ?_⟩
  · refine compileRule_eq_ok.mpr ⟨checkFilterCombination_prune hcomb,
      checkPrefixReplacement_prune hprefix, rfl, ?_, hmatches, hkept⟩
    rw [redirects_prune]
    cases hredirects : rule.redirects <;> rwa [hredirects] at hforall
  · rw [hforward] at hzip
    exact hzip

end

variable {routes : List HttpRouteConfig} {route : HttpRouteConfig} {rule : HttpRouteRule}
  {lookup : Lookup}

section

variable {R : Type} [RegexEngine R] (config : PortailConfig) {keep : BackendRef → Bool}
  (overrides : Str × UInt16 → Option (List (Str × UInt16))) {r₁ r₂ : Resolver}

theorem tableRules_follow {c : CompiledRule R}
    (h : ∀ ref ∈ rule.dialed, Follows keep r₁ r₂ ref) (hc : compileRule rule = .ok c) :
    ∃ c' : CompiledRule R, compileRule (rule.prune keep) = .ok c' ∧ ∀ i,
      Agree (tableRules config r₁ i c) (tableRules (config.prune R keep overrides) r₂ i c') := by
  obtain ⟨-, -, hrule, -, -, hcompiled⟩ := compileRule_eq_ok.mp hc
  obtain ⟨c', hc', hsource, hmatches, hfilters, hzip⟩ := compileRule_prune keep hc
  have hbackends : Agree (ruleBackends config r₁ c)
      (ruleBackends (config.prune R keep overrides) r₂ c') := by
    refine ruleBackends_follow ?_ ?_ fun hforward ref href => h ref (mem_append_left _ ?_)
    · rw [hsource, hrule, redirects_prune]
    · rw [hsource, hrule]
      exact hzip
    · rw [hrule] at hforward href
      rwa [if_neg (by simp [hforward])]
  have hfound : Agree (ruleFilters r₁ c.filters) (ruleFilters r₂ c'.filters) := by
    rw [hfilters]
    refine ruleFilters_follow fun compiled hmem backend hbackend => h backend ?_
    obtain ⟨f, hf, hcompile⟩ := forall₂_exists_right hcompiled.flip hmem
    rw [mirrored_compileFilter hcompile] at hbackend
    exact mem_append_right _ (mem_filterMap.mpr ⟨f, hf, hbackend⟩)
  refine ⟨c', hc', fun i => hbackends.bind fun backends => hfound.bind fun found => ?_⟩
  rw [hmatches]
  exact .ok _

theorem routeRules_follow (hr : r₁.policy = .lenient) (i : ℕ)
    (h : ∀ rule ∈ route.rules, ∀ ref ∈ rule.dialed, Follows keep r₁ r₂ ref) :
    Agree (routeRules (R := R) config r₁ i route)
      (routeRules (config.prune R keep overrides) r₂ i (route.prune R keep)) := by
  unfold routeRules HttpRouteConfig.prune HttpRouteConfig.compiles
  cases hcompile : (compileHttpRoute route : Except RouteError (List (CompiledRule R))) with
  | error e => exact ⟨[], if_neg (by rw [hr]; nofun), rfl⟩
  | ok compiled =>
    have hrules := collect_eq_ok.mp hcompile
    obtain ⟨compiled', hcompiled', hagree⟩ : ∃ compiled' : List (CompiledRule R),
        compileHttpRoute { route with rules := route.rules.map (HttpRouteRule.prune keep) } =
          .ok compiled' ∧ List.Forall₂ (fun c c' => Agree (tableRules config r₁ i c)
            (tableRules (config.prune R keep overrides) r₂ i c')) compiled compiled' := by
      simp only [compileHttpRoute, collect_eq_ok]
      clear hcompile
      generalize route.rules = sources at h hrules
      induction hrules with
      | nil => exact ⟨[], .nil, .nil⟩
      | cons hc _ ih =>
        obtain ⟨hrule, hrest⟩ := forall_mem_cons.mp h
        obtain ⟨compiled', hcompiled', hagree⟩ := ih hrest
        obtain ⟨c', hc', hsame⟩ := tableRules_follow config overrides hrule hc
        exact ⟨c' :: compiled', .cons hc' hcompiled', .cons (hsame i) hagree⟩
    simp only [Except.isOk, Except.toBool, if_true, hcompiled']
    exact (Agree.collect hagree).bind fun parts => .ok _

theorem httpInsertions_follow (hr : r₁.policy = .lenient) (i : ℕ)
    (h : ∀ route ∈ routes, ∀ rule ∈ route.rules, ∀ ref ∈ rule.dialed, Follows keep r₁ r₂ ref) :
    Agree (httpInsertions (R := R) config r₁ i routes)
      (httpInsertions (config.prune R keep overrides) r₂ i
        (routes.map (HttpRouteConfig.prune R keep))) := by
  induction routes generalizing i with
  | nil => exact .ok []
  | cons route routes ih =>
    obtain ⟨hroute, hroutes⟩ := forall_mem_cons.mp h
    exact (routeRules_follow config overrides hr i hroute).bind fun rules =>
      (ih (i + 1) hroutes).bind fun insertions => .ok _

theorem convertL4Route_follow (isUdp : Bool) {route : TcpRouteConfig}
    (h : ∀ ref ∈ l4Dialed config.gateway isUdp route, Follows keep r₁ r₂ ref) (t : RouteTable R) :
    Agree (convertL4Route config r₁ isUdp t route)
      (convertL4Route (config.prune R keep overrides) r₂ isUdp t (route.prune keep)) := by
  obtain ⟨parentRefs, rules⟩ := route
  cases rules with
  | nil => exact .ok t
  | cons rule rest =>
    by_cases hempty : ((findListenersForRoute parentRefs config.gateway).filter fun l =>
        if isUdp then l.protocol == .udp else l.protocol == .tcp || l.protocol == .tls).isEmpty
    · exact ⟨t, if_pos hempty, if_pos hempty⟩
    · have hrefs : ∀ ref ∈ rule.backendRefs, Follows keep r₁ r₂ ref := by
        simpa [l4Dialed, hempty] using h
      obtain ⟨u, hu₁, hu₂⟩ := (backends_follow hrefs _).bind fun backends => .ok _
      exact ⟨u, (if_neg hempty).trans hu₁, (if_neg hempty).trans hu₂⟩

theorem convertTlsRoute_follow {route : TlsRouteConfig}
    (h : ∀ ref ∈ tlsDialed config.gateway route, Follows keep r₁ r₂ ref) (t : RouteTable R) :
    Agree (convertTlsRoute config r₁ t route)
      (convertTlsRoute (config.prune R keep overrides) r₂ t (route.prune keep)) := by
  by_cases hempty : (tlsRouteScopes config.gateway route).isEmpty
  · exact ⟨t, if_pos hempty, if_pos hempty⟩
  · rw [tlsDialed, if_neg hempty, forall_mem_flatMap] at h
    have hrule : ∀ rule ∈ route.rules, ∀ t : RouteTable R,
        Agree (convertTlsRule r₁ (tlsRouteScopes config.gateway route) t rule)
          (convertTlsRule r₂ (tlsRouteScopes config.gateway route) t (rule.prune keep)) :=
      fun rule hrule t => (backends_follow (h rule hrule) "TLS").bind fun backends => .ok _
    obtain ⟨u, hu₁, hu₂⟩ := Agree.foldlM hrule t
    exact ⟨u, (if_neg hempty).trans hu₁, (if_neg hempty).trans hu₂⟩

/-- A lenient build is one of the config pruned, with a resolver that follows. -/
theorem buildRouteTable_follow {hashOne : SocketAddr → UInt64}
    (h : ∀ ref ∈ config.dialed, Follows keep (resolverOf config .lenient lookup hashOne)
      (resolverOf (config.prune R keep overrides) .strict lookup hashOne) ref) :
    Agree (buildRouteTable (R := R) config .lenient lookup hashOne)
      (buildRouteTable (config.prune R keep overrides) .strict lookup hashOne) := by
  simp only [PortailConfig.dialed, PortailConfig.l4References, forall_mem_append,
    forall_mem_flatMap] at h
  obtain ⟨hhttp, htcp, hudp, htls⟩ := h
  exact (httpInsertions_follow config overrides rfl 0 hhttp).bind fun insertions =>
    (Agree.foldlM (fun route hroute => convertL4Route_follow config overrides false
      (htcp route hroute)) _).bind fun t₁ =>
    (Agree.foldlM (fun route hroute => convertL4Route_follow config overrides true
      (hudp route hroute)) t₁).bind fun t₂ =>
    Agree.foldlM (fun route hroute => convertTlsRoute_follow config overrides
      (htls route hroute)) t₂

end

section

variable {r : Resolver} {name : Str} {port : UInt16}

theorem Resolver.addrs_of_ok {addrs : List SocketAddr} (h : r.lookup name port = .ok addrs)
    (what : String) : r.addrs name port what = .ok (some addrs) := by
  rw [Resolver.addrs, h]

theorem Resolver.addrs_of_error (hr : r.policy = .lenient) {err : Str}
    (h : r.lookup name port = .error err) (what : String) : r.addrs name port what = .ok none := by
  rw [Resolver.addrs, h, hr]
  rfl

theorem Resolver.answers_of_addrs (hr : r.policy = .strict) {what : String}
    {found : Option (List SocketAddr)} (h : r.addrs name port what = .ok found) :
    answers r.lookup (name, port) = true := by
  unfold answers
  unfold Resolver.addrs at h
  cases hlookup : r.lookup name port with
  | ok addrs => rfl
  | error err =>
    rw [hlookup, hr] at h
    cases h

/-- What is made of the addresses of a name, by a lenient resolver and by a strict one. -/
theorem addrs_leave (hr : r.policy = .lenient)
    (overrides : Str × UInt16 → Option (List (Str × UInt16))) (name : Str) (port : UInt16)
    (what : String) (make : Option (List SocketAddr) → List β) (hmake : make none = []) :
    Leaves (answers r.lookup (name, port)) (do return make (← r.addrs name port what))
      (do return make (← { r with policy := .strict, endpointOverrides := overrides }.addrs name
        port what)) := by
  unfold answers
  cases h : r.lookup name port with
  | ok addrs =>
    rw [Resolver.addrs_of_ok h, Resolver.addrs_of_ok (by exact h)]
    exact ⟨_, rfl, rfl⟩
  | error err =>
    rw [Resolver.addrs_of_error hr h]
    exact ⟨_, rfl, hmake⟩

theorem Resolver.endpoints_of_some {targets : List (Str × UInt16)}
    (h : ((r.endpointOverrides (name, port)).filter
      fun targets => !targets.isEmpty) = some targets) (what : String) :
    r.endpoints name port what =
      do return (← collect (fun _ e => e) (r.target what) targets).flatten := by
  rw [Resolver.endpoints, h]

theorem Resolver.endpoints_of_none
    (h : ((r.endpointOverrides (name, port)).filter fun targets => !targets.isEmpty) = none)
    (what : String) : r.endpoints name port what =
      do return ((← r.addrs name ((r.headlessTargetPorts (name, port)).getD port) what).getD
        []).map fun addr => (addr, name) := by
  rw [Resolver.endpoints, h]

theorem endpoints_leave (hr : r.policy = .lenient)
    {overrides : Str × UInt16 → Option (List (Str × UInt16))} (hoverrides : overrides (name, port) =
      (r.endpointOverrides (name, port)).map (List.filter (answers r.lookup))) (what : String) :
    Leaves ((targetsOf r.endpointOverrides r.headlessTargetPorts (name, port)).any
        (answers r.lookup)) (r.endpoints name port what)
      ({ r with policy := .strict, endpointOverrides := overrides }.endpoints name port what) := by
  unfold targetsOf
  cases htargets : (r.endpointOverrides (name, port)).filter fun targets => !targets.isEmpty with
  | none =>
    have hnone : (overrides (name, port)).filter (fun targets => !targets.isEmpty) = none := by
      rw [hoverrides]
      cases hover : r.endpointOverrides (name, port) with
      | none => rfl
      | some targets =>
        obtain rfl : targets = [] := by simpa [hover] using htargets
        rfl
    rw [Resolver.endpoints_of_none htargets, Resolver.endpoints_of_none hnone]
    simpa using addrs_leave hr overrides name ((r.headlessTargetPorts (name, port)).getD port) what
      (fun found => (found.getD []).map fun addr => (addr, name)) rfl
  | some targets =>
    obtain ⟨hover, hne⟩ := Option.filter_eq_some_iff.mp htargets
    have htarget : ∀ e ∈ targets, Leaves (answers r.lookup e) (r.target what e)
        ({ r with policy := .strict, endpointOverrides := overrides }.target what e) :=
      fun e _ => addrs_leave hr overrides e.1 e.2 what
        (fun found => ((found.bind r.oneTarget).map fun addr => (addr, e.1)).toList) rfl
    obtain ⟨out, hout, hout'⟩ := Leaves.flatten htarget
    refine ⟨out, (Resolver.endpoints_of_some htargets what).trans hout, ?_⟩
    rw [Option.getD_some]
    cases hany : targets.any (answers r.lookup) with
    | true =>
      have hsome : (overrides (name, port)).filter (fun targets => !targets.isEmpty) =
          some (targets.filter (answers r.lookup)) := by
        rw [hoverrides, hover]
        simpa [Option.filter_some, filter_eq_nil_iff] using hany
      exact (Resolver.endpoints_of_some hsome what).trans hout'
    | false =>
      rw [filter_eq_nil_iff.mpr (by simpa using hany)] at hout'
      exact (Except.ok.inj hout').symm

end

section

variable {R : Type} [RegexEngine R] {config : PortailConfig} {r : Resolver}

/-- A reference a build gets the endpoints of. -/
def Dialed (r : Resolver) (ref : BackendRef) : Prop :=
  ref.invalid = false → ∃ what found, r.endpoints ref.name ref.port what = .ok found

variable {what : String} {i : ℕ}

theorem endpoints_dialed {rejected : List β} {make : List (SocketAddr × Str) → List β} :
    Ensures (if ref.invalid then .ok rejected
      else do return make (← r.endpoints ref.name ref.port what)) (Dialed r ref) := by
  intro out h hvalid
  rw [if_neg (by simp [hvalid])] at h
  obtain ⟨found, hfound, -⟩ := bind_eq_ok.mp h
  exact ⟨what, found, hfound⟩

theorem backends_dialed : Ensures (r.backends refs what) (∀ ref ∈ refs, Dialed r ref) :=
  (Ensures.collect fun _ => endpoints_dialed).first

theorem tableRules_dialed {c : CompiledRule R} (hc : compileRule rule = .ok c) :
    Ensures (tableRules config r i c) (∀ ref ∈ rule.dialed, Dialed r ref) := by
  obtain ⟨-, -, hsource, hbackends, -, hcompiled⟩ := compileRule_eq_ok.mp hc
  intro rules h ref href
  obtain ⟨backends, hb, h⟩ := bind_eq_ok.mp h
  obtain ⟨found, hf, -⟩ := bind_eq_ok.mp h
  rcases mem_append.mp href with href | href
  · cases hforward : rule.redirects with
    | true => simp [hforward] at href
    | false =>
      rw [hforward] at href hbackends
      rw [ruleBackends, hsource, hforward] at hb
      have hlength : rule.backendRefs.length ≤ c.backendFilters.length := hbackends.length_eq.le
      have hzip : ref ∈ (rule.backendRefs.zip c.backendFilters).map Prod.fst := by
        rwa [map_fst_zip hlength]
      obtain ⟨entry, hentry, rfl⟩ := mem_map.mp hzip
      exact (Ensures.collect fun _ => endpoints_dialed).first _ hb entry hentry
  · obtain ⟨f, hf', hmirror⟩ := mem_filterMap.mp href
    obtain ⟨filter, hfilter, hcompile⟩ := forall₂_exists_right hcompiled hf'
    obtain ⟨parts, hparts, -⟩ := bind_eq_ok.mp hf
    obtain ⟨part, -, hpart⟩ := forall₂_exists_right (collect_eq_ok.mp hparts) hfilter
    rw [← mirrored_compileFilter hcompile] at hmirror
    cases filter with
    | ready filter => cases hmirror
    | mirror backend fraction =>
      cases hmirror
      exact endpoints_dialed _ hpart

theorem routeRules_dialed (hr : r.policy = .strict) :
    Ensures (routeRules (R := R) config r i route)
      (route.compiles R = true ∧ ∀ rule ∈ route.rules, ∀ ref ∈ rule.dialed, Dialed r ref) := by
  unfold routeRules HttpRouteConfig.compiles
  cases hcompile : (compileHttpRoute route : Except RouteError (List (CompiledRule R))) with
  | error e => simp [Ensures, hr]
  | ok compiled =>
    refine fun rules h => ⟨rfl, fun rule hrule => ?_⟩
    obtain ⟨parts, hparts, -⟩ := bind_eq_ok.mp h
    obtain ⟨c, hc, hrule⟩ := forall₂_exists_right (collect_eq_ok.mp hcompile) hrule
    obtain ⟨part, -, hpart⟩ := forall₂_exists_right (collect_eq_ok.mp hparts) hc
    exact tableRules_dialed hrule _ hpart

theorem httpInsertions_dialed (hr : r.policy = .strict) :
    Ensures (httpInsertions (R := R) config r i routes) (∀ route ∈ routes,
      route.compiles R = true ∧ ∀ rule ∈ route.rules, ∀ ref ∈ rule.dialed, Dialed r ref) := by
  induction routes generalizing i with
  | nil => exact fun _ _ => forall_mem_nil _
  | cons route routes ih =>
    intro insertions h
    obtain ⟨rules, hrules, h⟩ := bind_eq_ok.mp h
    exact forall_mem_cons.mpr ⟨routeRules_dialed hr rules hrules, ih.first _ h⟩

omit [RegexEngine R] in
theorem convertL4Route_dialed (isUdp : Bool) (t : RouteTable R) (route : TcpRouteConfig) :
    Ensures (convertL4Route config r isUdp t route)
      (∀ ref ∈ l4Dialed config.gateway isUdp route, Dialed r ref) := by
  obtain ⟨parentRefs, rules⟩ := route
  by_cases hempty : ((findListenersForRoute parentRefs config.gateway).filter fun l =>
      if isUdp then l.protocol == .udp else l.protocol == .tcp || l.protocol == .tls).isEmpty
  · rw [l4Dialed, if_pos hempty]
    exact fun _ _ => forall_mem_nil _
  · rw [l4Dialed, if_neg hempty]
    cases rules with
    | nil => exact fun _ _ => forall_mem_nil _
    | cons rule rest =>
      intro u h
      simpa using backends_dialed.first u ((if_neg hempty).symm.trans h)

omit [RegexEngine R] in
theorem convertTlsRoute_dialed (t : RouteTable R) (route : TlsRouteConfig) :
    Ensures (convertTlsRoute config r t route)
      (∀ ref ∈ tlsDialed config.gateway route, Dialed r ref) := by
  unfold tlsDialed
  split_ifs with hempty
  · exact fun _ _ => forall_mem_nil _
  · intro u h
    rw [convertTlsRoute, if_neg hempty] at h
    rw [forall_mem_flatMap]
    refine Ensures.foldlM (fun t rule => ?_) _ t u h
    exact backends_dialed.first

variable {lookup : Lookup} {hashOne : SocketAddr → UInt64}

theorem buildRouteTable_dialed : Ensures (buildRouteTable (R := R) config .strict lookup hashOne)
    ((∀ route ∈ config.httpRoutes, route.compiles R = true) ∧
      ∀ ref ∈ config.dialed, Dialed (resolverOf config .strict lookup hashOne) ref) := by
  intro t h
  obtain ⟨insertions, hins, h⟩ := bind_eq_ok.mp h
  obtain ⟨t₁, htcp, h⟩ := bind_eq_ok.mp h
  obtain ⟨t₂, hudp, htls⟩ := bind_eq_ok.mp h
  have hhttp := httpInsertions_dialed rfl insertions hins
  refine ⟨fun route hroute => (hhttp route hroute).1, ?_⟩
  simp only [PortailConfig.dialed, PortailConfig.l4References, forall_mem_append,
    forall_mem_flatMap]
  exact ⟨fun route hroute => (hhttp route hroute).2,
    Ensures.foldlM (convertL4Route_dialed false) _ _ t₁ htcp,
    Ensures.foldlM (convertL4Route_dialed true) _ _ t₂ hudp,
    Ensures.foldlM convertTlsRoute_dialed _ _ t htls⟩

theorem answers_of_endpoints (hr : r.policy = .strict) {name : Str} {port : UInt16}
    {found : List (SocketAddr × Str)} (h : r.endpoints name port what = .ok found) :
    ∀ e ∈ targetsOf r.endpointOverrides r.headlessTargetPorts (name, port),
      answers r.lookup e = true := by
  unfold targetsOf
  cases htargets : (r.endpointOverrides (name, port)).filter fun targets => !targets.isEmpty with
  | none =>
    rw [Resolver.endpoints_of_none htargets] at h
    obtain ⟨addrs, haddrs, -⟩ := bind_eq_ok.mp h
    simpa using Resolver.answers_of_addrs hr haddrs
  | some targets =>
    rw [Resolver.endpoints_of_some htargets] at h
    intro e he
    obtain ⟨parts, hparts, -⟩ := bind_eq_ok.mp h
    obtain ⟨part, -, hpart⟩ := forall₂_exists_right (collect_eq_ok.mp hparts) he
    obtain ⟨addrs, haddrs, -⟩ := bind_eq_ok.mp hpart
    exact Resolver.answers_of_addrs hr haddrs

end

section

variable {R : Type} [RegexEngine R] {config : PortailConfig}

/-- Nothing is left out of a config whose routes all compile when every reference is kept. -/
theorem prune_all (h : ∀ route ∈ config.httpRoutes, route.compiles R = true) :
    config.prune R (fun _ => true) config.endpointOverrides = config := by
  have hrule (rule : HttpRouteRule) : rule.prune (fun _ => true) = rule := by
    have hkept : rule.filters.filter (HttpRouteFilter.keptBy fun _ => true) = rule.filters :=
      filter_eq_self.mpr fun f _ => by simp [HttpRouteFilter.keptBy]
    simp only [HttpRouteRule.prune, hkept, filter_true]
  have hl4 (rule : L4RouteRule) : rule.prune (fun _ => true) = rule := by
    simp only [L4RouteRule.prune, filter_true]
  have hhttp : config.httpRoutes.map (HttpRouteConfig.prune R fun _ => true) =
      config.httpRoutes := by
    refine (map_congr_left fun route hroute => ?_).trans (map_id' _)
    rw [HttpRouteConfig.prune, if_pos (h route hroute), map_id'' hrule]
  have htcp (route : TcpRouteConfig) : route.prune (fun _ => true) = route := by
    rw [TcpRouteConfig.prune, map_id'' hl4]
  have htls (route : TlsRouteConfig) : route.prune (fun _ => true) = route := by
    rw [TlsRouteConfig.prune, map_id'' hl4]
  rw [PortailConfig.prune, hhttp, map_id'' htcp, map_id'' htcp, map_id'' htls]

theorem targets_ne_nil (config : PortailConfig) (service : Str × UInt16) :
    config.targets service ≠ [] := by
  unfold PortailConfig.targets targetsOf
  cases htargets : (config.endpointOverrides service).filter fun targets => !targets.isEmpty with
  | none => nofun
  | some targets => simpa using (Option.filter_eq_some_iff.mp htargets).2

theorem mem_lookups {name : Str × UInt16} :
    name ∈ config.lookups ↔ ∃ ref ∈ config.dialed, ref.invalid = false ∧
      name ∈ config.targets (ref.name, ref.port) := by
  simp [PortailConfig.lookups, and_assoc]

/-- Where all that is looked up resolves and all routes compile, both builds give one table. -/
theorem strict_build_of_resolved (hashOne : SocketAddr → UInt64)
    (hcompiles : ∀ route ∈ config.httpRoutes, route.compiles R = true)
    (hlookups : ∀ name ∈ config.lookups, answers lookup name = true) :
    ∃ t : RouteTable R, buildRouteTable config .lenient lookup hashOne = .ok t ∧
      buildRouteTable config .strict lookup hashOne = .ok t := by
  have hfollows : ∀ ref ∈ config.dialed, Follows (fun _ => true)
      (resolverOf config .lenient lookup hashOne)
        (resolverOf config .strict lookup hashOne) ref := by
    refine fun ref href => ⟨fun _ => rfl, fun hvalid what => ?_⟩
    have htargets : ∀ name ∈ config.targets (ref.name, ref.port), answers lookup name = true :=
      fun name hname => hlookups name (mem_lookups.mpr ⟨ref, href, hvalid, hname⟩)
    have hoverrides : config.endpointOverrides (ref.name, ref.port) =
        (config.endpointOverrides (ref.name, ref.port)).map (List.filter (answers lookup)) := by
      unfold PortailConfig.targets targetsOf at htargets
      cases hover : config.endpointOverrides (ref.name, ref.port) with
      | none => rfl
      | some targets =>
        rw [hover] at htargets
        rw [Option.map_some, Option.some.injEq, eq_comm, filter_eq_self]
        cases targets with
        | nil => exact forall_mem_nil _
        | cons target targets => exact htargets
    have hleave : Leaves ((config.targets (ref.name, ref.port)).any (answers lookup))
        ((resolverOf config .lenient lookup hashOne).endpoints ref.name ref.port what)
        ((resolverOf config .strict lookup hashOne).endpoints ref.name ref.port what) :=
      endpoints_leave rfl hoverrides what
    obtain ⟨target, htarget⟩ := exists_mem_of_ne_nil _ (targets_ne_nil config (ref.name, ref.port))
    rwa [any_eq_true.mpr ⟨target, htarget, htargets target htarget⟩] at hleave
  have hprune := prune_all hcompiles
  have hbuilds : ∃ t : RouteTable R, buildRouteTable config .lenient lookup hashOne = .ok t ∧
      buildRouteTable (config.prune R (fun _ => true) config.endpointOverrides) .strict lookup
        hashOne = .ok t := buildRouteTable_follow config _ (by rwa [hprune])
  rwa [hprune] at hbuilds

/-- A lenient build always ends, in the table of the strict build of what is left of the config.
A strict build succeeds exactly when every HTTP route compiles and every name looked up resolves,
and its table is then the lenient one. -/
theorem lenient_build_pruned (config : PortailConfig) (lookup : Lookup)
    (hashOne : SocketAddr → UInt64) :
    (∃ t : RouteTable R, buildRouteTable config .lenient lookup hashOne = .ok t ∧
      buildRouteTable (config.pruned R lookup) .strict lookup hashOne = .ok t) ∧
    ((∃ t : RouteTable R, buildRouteTable config .strict lookup hashOne = .ok t) ↔
      (∀ route ∈ config.httpRoutes, route.compiles R = true) ∧
        ∀ name ∈ config.lookups, answers lookup name = true) ∧
    ∀ t : RouteTable R, buildRouteTable config .strict lookup hashOne = .ok t →
      buildRouteTable config .lenient lookup hashOne = .ok t := by
  have hstrict {t : RouteTable R} (h : buildRouteTable config .strict lookup hashOne = .ok t) :
      (∀ route ∈ config.httpRoutes, route.compiles R = true) ∧
        ∀ name ∈ config.lookups, answers lookup name = true := by
    obtain ⟨hcompiles, hdialed⟩ := buildRouteTable_dialed t h
    refine ⟨hcompiles, fun name hname => ?_⟩
    obtain ⟨ref, href, hvalid, hname⟩ := mem_lookups.mp hname
    obtain ⟨what, found, hfound⟩ := hdialed ref href hvalid
    exact answers_of_endpoints rfl hfound name hname
  refine ⟨buildRouteTable_follow config _ fun ref _ => ⟨fun hinvalid => ?_, fun hvalid what => ?_⟩,
    ⟨fun ⟨t, ht⟩ => hstrict ht, fun ⟨hcompiles, hlookups⟩ => ?_⟩, fun t ht => ?_⟩
  · simp [PortailConfig.resolves, hinvalid]
  · have hkeep : config.resolves lookup ref =
        (config.targets (ref.name, ref.port)).any (answers lookup) := by
      rw [PortailConfig.resolves, hvalid, Bool.false_or]
    rw [hkeep]
    exact endpoints_leave rfl rfl what
  · obtain ⟨t, -, ht⟩ := strict_build_of_resolved hashOne hcompiles hlookups
    exact ⟨t, ht⟩
  · obtain ⟨hcompiles, hlookups⟩ := hstrict ht
    obtain ⟨t', hlenient, hstrict'⟩ := strict_build_of_resolved (R := R) hashOne hcompiles hlookups
    rw [hlenient, ← hstrict', ht]

/-- A Service with two targets, one of which resolves. -/
def halfOverridden : PortailConfig :=
  { plainConfig with
    gateway := ⟨Str.lit "portail-gateway",
      [⟨Str.lit "db", .tcp, 5432, none, none, none, none, none, none⟩], []⟩
    tcpRoutes := [⟨[⟨Str.lit "portail-gateway", none, none⟩], [⟨[serviceRef (Str.lit "db") 1]⟩]⟩]
    endpointOverrides := fun _ => some [(Str.lit "up", 1), (Str.lit "down", 1)] }

/-- A route on every port, for every request. -/
def openRoute : HttpRouteConfig := ⟨[], [], [⟨[], [], []⟩]⟩

def badMethod : HttpRouteConfig := ⟨[], [], [⟨[⟨some (Str.lit "?"), none, [], []⟩], [], []⟩]⟩

def upLookup : Lookup := fun name _ =>
  if name = Str.lit "up" then .ok [⟨.v4 (.ofOctets 10 0 0 1), 1⟩] else .error (Str.lit "NXDOMAIN")

/-- The backends of the TCP listener, and the places of the routes on every port. -/
def tableView (built : Result (RouteTable Empty)) : Option (Option ℕ × List ℕ) :=
  built.toOption.map fun t => ((t.tcpRoutes.lookup 5432).map List.length,
    t.sharedScopes.flatMap fun s => (s.catchAllHttpRoutes.getD []).map HttpRouteRule.routeIndex)

/-- Left out as a whole, the backendRef loses its target that resolves; and a route left out gives
its place to the next. -/
theorem pruned_differs :
    tableView (buildRouteTable halfOverridden .lenient upLookup fun _ => 0) = some (some 1, []) ∧
    tableView (buildRouteTable halfOverridden .strict upLookup fun _ => 0) = none ∧
    tableView (buildRouteTable { halfOverridden with
      tcpRoutes := halfOverridden.tcpRoutes.map (TcpRouteConfig.prune fun _ => false) } .strict
        upLookup fun _ => 0) = some (some 0, []) ∧
    tableView (buildRouteTable { plainConfig with httpRoutes := [badMethod, openRoute] } .lenient
      upLookup fun _ => 0) = some (none, [1]) ∧
    tableView (buildRouteTable { plainConfig with httpRoutes := [openRoute] } .strict upLookup
      fun _ => 0) = some (none, [0]) := by
  decide +kernel

end
end Portail.Config
