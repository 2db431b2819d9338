import Portail.Routing.Search

/-!
# The rule a table finds

The items a port serves under its most specific listener hostname, whose route
hostname matches and whose rule accepts the request, are the candidates. A search
finds a rule exactly when there is one (`find_none`), and finds the rule of a
candidate that none outranks (`find_first`).
-/

namespace Portail.Routing

open Lib Http List

variable {R α : Type} (f : α → Insertion R) (xs : List α) (ports : List UInt16)
  {s : ListenerScope R}

/-- The table of the items, with what port 0 holds shared on the given ports. -/
def tableOf : RouteTable R :=
  ((xs.map f).foldl RouteTable.pushHttpRouteForListener (RouteTable.new R)).sortHttpRoutes
    |>.shareAnyPortScopesOn ports

/-- What is inserted for the one port is served on the other. -/
def ServedOn (port home : UInt16) : Prop := home = port ∧ port ≠ 0 ∨ home = 0 ∧ port ∈ ports

/-- No item served on the port has a more specific listener hostname for the host. -/
def IsTop (port : UInt16) (host : Bytes) (x : α) : Prop :=
  ∃ n, listenerSpecificity (scopeName f x) host = some n ∧
    ∀ y ∈ xs, ServedOn ports port (f y).port → ∀ m,
      listenerSpecificity (scopeName f y) host = some m → m ≤ n

structure Candidate [RegexEngine R] (port : UInt16) (host : Bytes) (req : RouteRequest) (x : α) :
    Prop where
  mem : x ∈ xs
  served : ServedOn ports port (f x).port
  top : IsTop f xs ports port host x
  routed : (routeSpecificity f host x).isSome = true
  accepts : (f x).rule.accepts req = true

section

/-- A scope of the table that holds, sorted, items of one home. -/
def ScopeAt (port home : UInt16) (s : ListenerScope R) : Prop :=
  ServedOn ports port home ∧ ∃ scopes s₀,
    ScopesHold f (xs.filter fun x => (f x).port = home) scopes ∧ s₀ ∈ scopes ∧ s = s₀.sort

def portScopes (port : UInt16) : List (ListenerScope R) :=
  (tableOf f xs ports).ownScopes port ++
    (tableOf f xs ports).sharedScopesOf ((tableOf f xs ports).listenerScopes.lookup port)

variable {port : UInt16}

variable (port) in
/-- The scopes of a port before they are sorted, the port's own and those it shares. -/
theorem portScopes_spec : ∃ own shared : List (ListenerScope R),
    (tableOf f xs ports).ownScopes port = own.map ListenerScope.sort ∧
    (tableOf f xs ports).sharedScopesOf ((tableOf f xs ports).listenerScopes.lookup port) =
      shared.map ListenerScope.sort ∧
    ScopesHold f (ownItems f xs port) own ∧
    ScopesHold f (if port ∈ ports then sharedItems f xs else []) shared := by
  have hold := TableHolds.pushAll f xs
  unfold tableOf
  generalize (xs.map f).foldl RouteTable.pushHttpRouteForListener (RouteTable.new R) = t at hold ⊢
  obtain ⟨hown, hshared, hevery, hon⟩ := shareAnyPortScopesOn_spec t.sortHttpRoutes ports
  refine ⟨t.ownScopes port, if port ∈ ports then t.sharedScopes else [], ?_, ?_, hold.own port, ?_⟩
  · rw [hown, ownScopes_sortHttpRoutes]
  · have hon := hon port
    rw [sharesOn_sortHttpRoutes, hold.unshared, Bool.or_false] at hon
    have hon' : ((t.sortHttpRoutes.shareAnyPortScopesOn ports).listenerScopes.lookup port).any
        PortScopes.shared = decide (port ∈ ports) := hon
    rw [RouteTable.sharedScopesOf, hevery, hon', hshared, Bool.false_or]
    have hsort : t.sortHttpRoutes.sharedScopes = t.sharedScopes.map ListenerScope.sort := rfl
    by_cases hport : port ∈ ports
    · rw [hsort]
      cases hs : t.sharedScopes <;> simp [hport]
    · simp [hport]
  · by_cases hport : port ∈ ports
    · simpa [hport] using hold.shared
    · simpa [hport] using ScopesHold.nil f

theorem scopeAt_of_mem (hs : s ∈ portScopes f xs ports port) :
    ∃ home, ScopeAt f xs ports port home s := by
  obtain ⟨own, shared, hown, hshared, holdOwn, holdShared⟩ := portScopes_spec f xs ports port
  rw [portScopes, hown, hshared, ← map_append, mem_map] at hs
  obtain ⟨s₀, hs₀, rfl⟩ := hs
  rcases mem_append.mp hs₀ with hs₀ | hs₀
  · have hport : port ≠ 0 := by
      rintro rfl
      obtain ⟨x, hx, _⟩ := holdOwn.occupied s₀ hs₀
      simp [ownItems] at hx
    refine ⟨port, .inl ⟨rfl, hport⟩, own, s₀, ?_, hs₀, rfl⟩
    simpa [ownItems, hport] using holdOwn
  · have hport : port ∈ ports := by
      by_contra hport
      obtain ⟨x, hx, _⟩ := holdShared.occupied s₀ hs₀
      simp [hport] at hx
    rw [if_pos hport] at holdShared
    exact ⟨0, .inr ⟨rfl, hport⟩, shared, s₀, holdShared, hs₀, rfl⟩

theorem scopeAt_of_item {x : α} (hx : x ∈ xs) (hserved : ServedOn ports port (f x).port) :
    ∃ s ∈ portScopes f xs ports port, ScopeAt f xs ports port (f x).port s ∧
      s.listenerHostname = scopeName f x := by
  obtain ⟨own, shared, hown, hshared, holdOwn, holdShared⟩ := portScopes_spec f xs ports port
  rw [portScopes, hown, hshared]
  rcases hserved with ⟨hhome, hport⟩ | ⟨hhome, hport⟩
  · obtain ⟨s₀, hs₀, hname⟩ := holdOwn.covered x (by simp [ownItems, hx, hhome, hport])
    refine ⟨s₀.sort, mem_append_left _ (mem_map_of_mem hs₀),
      ⟨.inl ⟨hhome, hport⟩, own, s₀, ?_, hs₀, rfl⟩, hname⟩
    simpa [ownItems, hport, hhome] using holdOwn
  · rw [if_pos hport] at holdShared
    obtain ⟨s₀, hs₀, hname⟩ := holdShared.covered x (by simp [sharedItems, hx, hhome])
    refine ⟨s₀.sort, mem_append_right _ (mem_map_of_mem hs₀),
      ⟨.inr ⟨hhome, hport⟩, shared, s₀, ?_, hs₀, rfl⟩, hname⟩
    simpa [sharedItems, hhome] using holdShared

/-- A scope is searched exactly when its items have the most specific listener hostname. -/
theorem isTop_iff_mem_topScopes {host : Bytes} (hhost : host.length < u32Max) {x : α}
    (hs : s ∈ portScopes f xs ports port) (hname : s.listenerHostname = scopeName f x) :
    s ∈ topScopes host (portScopes f xs ports port) ↔ IsTop f xs ports port host x := by
  rw [mem_topScopes hhost, IsTop, hname, and_iff_right hs]
  refine exists_congr fun n => and_congr_right fun _ => ⟨fun h y hy hserved m hm => ?_,
    fun h s' hs' m hm => ?_⟩
  · obtain ⟨s', hs', _, hname'⟩ := scopeAt_of_item f xs ports hy hserved
    exact h s' hs' m (hname' ▸ hm)
  · obtain ⟨home, hserved, scopes, s₀, hold, hs₀, rfl⟩ := scopeAt_of_mem f xs ports hs'
    obtain ⟨y, hy, hyname⟩ := hold.occupied s₀ hs₀
    obtain ⟨hyxs, hhome⟩ := mem_filter.mp hy
    obtain rfl : (f y).port = home := of_decide_eq_true hhome
    exact h y hyxs hserved m (hyname ▸ hm)

end

section

variable [RegexEngine R] {port : UInt16} {host : Bytes} {req : RouteRequest} {before : α → α → Prop}

/-- Among the candidates of its home the item is the first. -/
def FirstAtHome (before : α → α → Prop) (port : UInt16) (host : Bytes) (req : RouteRequest) (x : α)
    (n : ℕ) : Prop :=
  ∀ y m, Candidate f xs ports port host req y → (f y).port = (f x).port →
    routeSpecificity f host y = some m → m < n ∨ m = n ∧ MatchLE (f x).rule (f y).rule ∧
      (MatchLE (f y).rule (f x).rule → y = x ∨ before x y)

theorem found_item (hbefore : xs.Pairwise before) (hhost : host.length < u32Max) {home : UInt16}
    (hmem : s ∈ portScopes f xs ports port) (hs : ScopeAt f xs ports port home s)
    (htop : s ∈ topScopes host (portScopes f xs ports port)) {found : ℕ × HttpRouteRule R}
    (h : s.lookupHttpRoute host req = some found) :
    ∃ x n, (f x).port = home ∧ Candidate f xs ports port host req x ∧
      routeSpecificity f host x = some n ∧ found = (rankOf host n, tableRule f x) ∧
      FirstAtHome f xs ports before port host req x n := by
  obtain ⟨hserved, scopes, s₀, hold, hs₀, rfl⟩ := hs
  obtain ⟨x, hxhome, n, hname, hn, hacc, rfl, hfirst⟩ :=
    lookup_first f hold hs₀ (hbefore.filter _) hhost h
  obtain ⟨hx, hhome⟩ := mem_filter.mp hxhome
  obtain rfl : (f x).port = home := of_decide_eq_true hhome
  have hxtop := (isTop_iff_mem_topScopes f xs ports hhost hmem hname.symm).mp htop
  refine ⟨x, n, rfl, ⟨hx, hserved, hxtop, by rw [hn, Option.isSome_some], hacc⟩, hn, rfl,
    fun y m hy hport hm => ?_⟩
  have hyname : scopeName f y = s₀.listenerHostname := by
    obtain ⟨k, hk, hkmax⟩ := hxtop
    obtain ⟨l, hl, hlmax⟩ := hy.top
    have hkl := hlmax x hx hserved k hk
    have hlk := hkmax y hy.mem hy.served l hl
    obtain rfl : k = l := by omega
    rw [listenerSpecificity_inj hl hk hhost, hname]
  exact hfirst y (mem_filter.mpr ⟨hy.mem, decide_eq_true hport⟩) m hyname hm hy.accepts

theorem candidate_found (hhost : host.length < u32Max) {y : α}
    (hy : Candidate f xs ports port host req y) :
    ∃ s ∈ topScopes host (portScopes f xs ports port), ScopeAt f xs ports port (f y).port s ∧
      ∃ found, s.lookupHttpRoute host req = some found := by
  obtain ⟨s, hs, hscope, hname⟩ := scopeAt_of_item f xs ports hy.mem hy.served
  refine ⟨s, (isTop_iff_mem_topScopes f xs ports hhost hs hname).mpr hy.top, hscope, ?_⟩
  obtain ⟨hserved, scopes, s₀, hold, hs₀, rfl⟩ := hscope
  rw [← Option.isSome_iff_exists, ← Option.ne_none_iff_isSome, Ne, lookup_none f hold hs₀ hhost]
  intro hnone
  have := hnone y (by simp [hy.mem]) hname.symm hy.routed
  rw [hy.accepts] at this
  exact Bool.noConfusion this

theorem find_eq (hhost : (hostKey host).length < u32Max) :
    (tableOf f xs ports).findHttpRoute host req port =
      (((topScopes (hostKey host) (portScopes f xs ports port)).filterMap
        (·.lookupHttpRoute (hostKey host) req)).foldl pick none).map Prod.snd := by
  obtain ⟨own, shared, hown, hshared, holdOwn, holdShared⟩ := portScopes_spec f xs ports port
  have hnames (scopes : List (ListenerScope R)) :
      (scopes.map ListenerScope.sort).map ListenerScope.listenerHostname =
        scopes.map ListenerScope.listenerHostname := by
    rw [map_map]
    rfl
  rw [findHttpRoute_eq _ req port hown hshared (by rw [hnames]; exact holdOwn.nodup)
    (by rw [hnames]; exact holdShared.nodup) hhost, portScopes, hown, hshared]

theorem find_none (hhost : (hostKey host).length < u32Max) :
    (tableOf f xs ports).findHttpRoute host req port = none ↔
      ∀ x, ¬Candidate f xs ports port (hostKey host) req x := by
  rw [find_eq f xs ports hhost, Option.map_eq_none_iff]
  refine foldl_better_eq_none.trans (filterMap_eq_nil_iff.trans ?_)
  constructor
  · intro h x hx
    obtain ⟨s, hs, _, found, hfound⟩ := candidate_found f xs ports hhost hx
    simp [h s hs] at hfound
  · intro h s hs
    obtain ⟨hmem, _⟩ := (mem_topScopes hhost).mp hs
    obtain ⟨home, hhome⟩ := scopeAt_of_mem f xs ports hmem
    rw [Option.eq_none_iff_forall_ne_some]
    intro found hfound
    have hbefore : xs.Pairwise fun _ _ => True := pairwise_of_forall fun _ _ => trivial
    obtain ⟨x, n, _, hx, _⟩ := found_item f xs ports hbefore hhost hmem hhome hs hfound
    exact h x hx

/-- The rule found is that of a candidate that none outranks, the first one of its home. -/
theorem find_first (hbefore : xs.Pairwise before) (hhost : (hostKey host).length < u32Max)
    {rule : HttpRouteRule R} (h : (tableOf f xs ports).findHttpRoute host req port = some rule) :
    ∃ x n, Candidate f xs ports port (hostKey host) req x ∧
      routeSpecificity f (hostKey host) x = some n ∧ rule = tableRule f x ∧
      FirstAtHome f xs ports before port (hostKey host) req x n ∧
      ((∀ x ∈ xs, ∀ y ∈ xs, before x y → (f x).rule.routeIndex ≤ (f y).rule.routeIndex) → ∀ y m,
        Candidate f xs ports port (hostKey host) req y →
        routeSpecificity f (hostKey host) y = some m →
        outranks (m, (f y).rule) (n, (f x).rule) = false) := by
  rw [find_eq f xs ports hhost, Option.map_eq_some_iff] at h
  obtain ⟨best, hbest, rfl⟩ := h
  obtain ⟨hmem, hothers⟩ := foldl_pick hbest
  obtain ⟨s, hs, hfound⟩ := mem_filterMap.mp hmem
  obtain ⟨hsmem, _⟩ := (mem_topScopes hhost).mp hs
  obtain ⟨home, hhome⟩ := scopeAt_of_mem f xs ports hsmem
  obtain ⟨x, n, _, hx, hn, rfl, hfirst⟩ :=
    found_item f xs ports hbefore hhost hsmem hhome hs hfound
  refine ⟨x, n, hx, hn, rfl, hfirst, fun hindex y m hy hm => ?_⟩
  obtain ⟨s', hs', hhome', found, hfound'⟩ := candidate_found f xs ports hhost hy
  obtain ⟨hsmem', _⟩ := (mem_topScopes hhost).mp hs'
  obtain ⟨z, l, hzhome, hz, hl, rfl, hzfirst⟩ :=
    found_item f xs ports hbefore hhost hsmem' hhome' hs' hfound'
  have hzx : outranks (l, (f z).rule) (n, (f x).rule) = false := by
    rw [← outranks_rankOf hhost (HostKind.specificity_le hl) (HostKind.specificity_le hn)]
    exact hothers (_, tableRule f z) (mem_filterMap.mpr ⟨s', hs', hfound'⟩)
  refine not_outranks_trans ?_ hzx
  have hyz := hzfirst y m hy hzhome.symm hm
  rw [Bool.eq_false_iff, Ne, outranks_iff]
  rcases hyz with hlt | ⟨rfl, hle, hbefore⟩
  · simp only
    omega
  · rintro (hlt | ⟨_, hnot | ⟨hge, _, hidx⟩⟩)
    · exact absurd hlt (lt_irrefl _)
    · exact hnot hle
    · rcases hbefore hge with rfl | hzy
      · exact absurd hidx (lt_irrefl _)
      · exact absurd hidx (not_lt.mpr (hindex z hz.mem y hy.mem hzy))

end
end Portail.Routing
