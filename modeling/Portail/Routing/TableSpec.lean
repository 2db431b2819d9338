import Portail.Routing.Table

/-!
# What a table holds

A table is filled by insertions. The rules of a scope under a kind of route hostname
are those inserted there, in their order, and a port has one scope for each listener
hostname (`ScopesHold`). One insertion keeps that (`ScopesHold.push`), so a run of
them does (`TableHolds.pushAll`).
-/

namespace Portail.Routing

open Lib Http RouteTable List Option

section

variable {K V : Type} [DecidableEq K]

theorem lookup_mapValues (f : V → V) (m : Map K V) (k : K) :
    (m.mapValues f).lookup k = (m.lookup k).map f := by
  obtain ⟨l, hl⟩ := m
  show List.dlookup k (l.map fun e => (⟨e.1, f e.2⟩ : Sigma fun _ : K => V)) =
    (List.dlookup k l).map f
  clear hl
  induction l with
  | nil => rfl
  | cons e l ih =>
    obtain ⟨a, b⟩ := e
    by_cases hk : k = a
    · subst hk
      simp [dlookup_cons_eq]
    · rw [map_cons]
      exact (dlookup_cons_ne _ (⟨a, f b⟩ : Sigma fun _ : K => V) hk).trans
        (ih.trans (congrArg _ (dlookup_cons_ne _ (⟨a, b⟩ : Sigma fun _ : K => V) hk).symm))

theorem lookup_append (m : Map K (List V)) (key k : K) (v : V) :
    ((m.append key v).lookup k).getD [] =
      if k = key then (m.lookup k).getD [] ++ [v] else (m.lookup k).getD [] := by
  rw [Map.append]
  split_ifs with h
  · subst h
    rw [AList.lookup_insert, getD_some]
  · rw [AList.lookup_insert_ne h]

end

variable {R : Type}

inductive HostKind
  | exact (host : Bytes)
  | wildcard (parent : Bytes)
  | catchAll
  deriving DecidableEq

def hostKind (routeHost : Bytes) : HostKind :=
  if lowercase routeHost = bytes "*" then .catchAll
  else ((stripStar (lowercase routeHost)).map HostKind.wildcard).getD (.exact (lowercase routeHost))

namespace ListenerScope

def entry (s : ListenerScope R) : HostKind → HostEntry R
  | .exact host => (s.httpRoutes.lookup host).getD []
  | .wildcard parent => (s.wildcardHttpRoutes.lookup parent).getD []
  | .catchAll => s.catchAllHttpRoutes.getD []

@[simp] theorem pushRoute_listenerHostname (s : ListenerScope R) (h : Bytes)
    (rule : HttpRouteRule R) : (s.pushRoute h rule).listenerHostname = s.listenerHostname := by
  unfold pushRoute
  simp only
  split_ifs
  · rfl
  · split <;> rfl

@[simp] theorem entry_new (lh : Option Bytes) (k : HostKind) :
    (new lh : ListenerScope R).entry k = [] := by
  cases k <;> rfl

theorem entry_pushRoute (s : ListenerScope R) (h : Bytes) (rule : HttpRouteRule R) (k : HostKind) :
    (s.pushRoute h rule).entry k =
      s.entry k ++ if hostKind h = k then [withFilters rule] else [] := by
  unfold pushRoute hostKind
  simp only
  split_ifs with hstar hk hk
  · subst hk
    rfl
  · cases k with
    | catchAll => exact absurd rfl hk
    | exact host | wildcard parent => simp [entry]
  · cases hs : stripStar (lowercase h) with
    | some parent =>
      simp only [hs, map_some, getD_some] at hk
      subst hk
      simp [entry, lookup_append]
    | none =>
      simp only [hs, map_none, getD_none] at hk
      subst hk
      simp [entry, lookup_append]
  · cases hs : stripStar (lowercase h) with
    | some parent =>
      simp only [hs, map_some, getD_some] at hk
      cases k with
      | catchAll | exact host => simp [entry]
      | wildcard p =>
        have hne : p ≠ parent := fun heq => hk (by rw [heq])
        simp [entry, lookup_append, hne]
    | none =>
      simp only [hs, map_none, getD_none] at hk
      cases k with
      | catchAll | wildcard p => simp [entry]
      | exact host =>
        have hne : host ≠ lowercase h := fun heq => hk (by rw [heq])
        simp [entry, lookup_append, hne]

end ListenerScope

section

variable {α : Type} (f : α → Insertion R) {g : ListenerScope R → ListenerScope R}
  {scopes : List (ListenerScope R)}

/-- The lowercase listener hostname an item is inserted under. -/
def scopeName (x : α) : Option Bytes := (f x).listenerHostname.map lowercase

/-- The items inserted in a scope under a kind of route hostname. -/
def itemsOf (xs : List α) (lh : Option Bytes) (k : HostKind) : List α :=
  xs.filter fun x => scopeName f x = lh ∧ hostKind (f x).routeHost = k

/-- The rule as it stands in the table. -/
def tableRule (x : α) : HttpRouteRule R := ListenerScope.withFilters (f x).rule

/-- The scopes hold the items: one scope for each of their listener hostnames, with their rules
in order. -/
structure ScopesHold (xs : List α) (scopes : List (ListenerScope R)) : Prop where
  nodup : (scopes.map ListenerScope.listenerHostname).Nodup
  occupied : ∀ s ∈ scopes, ∃ x ∈ xs, scopeName f x = s.listenerHostname
  entries : ∀ s ∈ scopes, ∀ k, s.entry k = (itemsOf f xs s.listenerHostname k).map (tableRule f)
  covered : ∀ x ∈ xs, ∃ s ∈ scopes, s.listenerHostname = scopeName f x

theorem update_names (lh : Option Bytes)
    (hg : ∀ s, (g s).listenerHostname = s.listenerHostname) (scopes : List (ListenerScope R)) :
    (ListenerScope.update lh g scopes).map ListenerScope.listenerHostname =
      if lh ∈ scopes.map ListenerScope.listenerHostname then
        scopes.map ListenerScope.listenerHostname
      else scopes.map ListenerScope.listenerHostname ++ [lh] := by
  induction scopes with
  | nil => simp [ListenerScope.update, hg, ListenerScope.new]
  | cons s rest ih =>
    rw [ListenerScope.update]
    by_cases hs : s.listenerHostname = lh
    · simp [hs, hg]
    · rw [if_neg hs, map_cons, ih]
      have hmem : lh ∈ (s :: rest).map ListenerScope.listenerHostname ↔
          lh ∈ rest.map ListenerScope.listenerHostname := by
        simp [Ne.symm hs]
      simp only [hmem]
      split_ifs <;> rfl

theorem mem_update {lh : Option Bytes} {s : ListenerScope R}
    (hnodup : (scopes.map ListenerScope.listenerHostname).Nodup)
    (h : s ∈ ListenerScope.update lh g scopes) :
    (s ∈ scopes ∧ s.listenerHostname ≠ lh) ∨
      (∃ s' ∈ scopes, s'.listenerHostname = lh ∧ s = g s') ∨
      ((∀ s' ∈ scopes, s'.listenerHostname ≠ lh) ∧ s = g (.new lh)) := by
  induction scopes with
  | nil =>
    rw [ListenerScope.update, mem_singleton] at h
    exact .inr (.inr ⟨by simp, h⟩)
  | cons c rest ih =>
    rw [map_cons, nodup_cons] at hnodup
    obtain ⟨hc, hrest⟩ := hnodup
    rw [ListenerScope.update] at h
    split_ifs at h with hname
    · rcases mem_cons.mp h with rfl | hs
      · exact .inr (.inl ⟨c, by simp, hname, rfl⟩)
      · refine .inl ⟨mem_cons_of_mem c hs, fun hlh => hc ?_⟩
        rw [hname, ← hlh]
        exact mem_map_of_mem hs
    · rcases mem_cons.mp h with rfl | hs
      · exact .inl ⟨by simp, hname⟩
      · rcases ih hrest hs with ⟨hs, hne⟩ | ⟨s', hs', hlh, rfl⟩ | ⟨hnone, rfl⟩
        · exact .inl ⟨mem_cons_of_mem c hs, hne⟩
        · exact .inr (.inl ⟨s', mem_cons_of_mem c hs', hlh, rfl⟩)
        · exact .inr (.inr ⟨forall_mem_cons.mpr ⟨hname, hnone⟩, rfl⟩)

theorem itemsOf_append (xs : List α) (x : α) (lh : Option Bytes) (k : HostKind) :
    itemsOf f (xs ++ [x]) lh k =
      itemsOf f xs lh k ++
        if scopeName f x = lh ∧ hostKind (f x).routeHost = k then [x] else [] := by
  rw [itemsOf, filter_append]
  split_ifs with h <;> simp [itemsOf, h]

theorem ScopesHold.push {xs : List α} (h : ScopesHold f xs scopes) (x : α) :
    ScopesHold f (xs ++ [x])
      (ListenerScope.update (scopeName f x) (·.pushRoute (f x).routeHost (f x).rule) scopes) := by
  have hkeep (s : ListenerScope R) :
      (s.pushRoute (f x).routeHost (f x).rule).listenerHostname = s.listenerHostname := by simp
  have hnames := update_names (scopeName f x) hkeep scopes
  have hname : ∀ lh, lh ∈ (ListenerScope.update (scopeName f x)
      (·.pushRoute (f x).routeHost (f x).rule) scopes).map ListenerScope.listenerHostname ↔
      lh ∈ scopes.map ListenerScope.listenerHostname ∨ lh = scopeName f x := by
    intro lh
    rw [hnames]
    split_ifs with hin
    · exact ⟨.inl, fun h => h.elim id fun heq => heq ▸ hin⟩
    · simp
  refine ⟨?_, fun s hs => ?_, fun s hs k => ?_, fun y hy => ?_⟩
  · rw [hnames]
    split_ifs with hin
    · exact h.nodup
    · simpa using h.nodup.concat hin
  · rcases (hname s.listenerHostname).mp (mem_map_of_mem hs) with hold | hnew
    · obtain ⟨s', hs', heq⟩ := mem_map.mp hold
      obtain ⟨y, hy, hsy⟩ := h.occupied s' hs'
      exact ⟨y, mem_append_left _ hy, hsy.trans heq⟩
    · exact ⟨x, by simp, hnew.symm⟩
  · rw [itemsOf_append]
    rcases mem_update h.nodup hs with ⟨hs, hne⟩ | ⟨s', hs', hlh, rfl⟩ | ⟨hnone, rfl⟩
    · rw [if_neg fun hx => hne hx.1.symm, append_nil, h.entries s hs]
    · rw [ListenerScope.entry_pushRoute, ListenerScope.pushRoute_listenerHostname,
        h.entries s' hs', map_append, hlh]
      simp [apply_ite, tableRule]
    · have hempty : itemsOf f xs (scopeName f x) k = [] := by
        refine filter_eq_nil_iff.mpr fun y hy hyx => ?_
        obtain ⟨s', hs', hlh⟩ := h.covered y hy
        exact hnone s' hs' (hlh.trans (of_decide_eq_true hyx).1)
      have hnew : (ListenerScope.new (scopeName f x) : ListenerScope R).listenerHostname =
        scopeName f x := rfl
      rw [ListenerScope.entry_pushRoute, ListenerScope.pushRoute_listenerHostname,
        ListenerScope.entry_new, hnew, hempty]
      by_cases hk : hostKind (f x).routeHost = k <;> simp [hk, tableRule]
  · have hy : scopeName f y ∈ scopes.map ListenerScope.listenerHostname ∨
        scopeName f y = scopeName f x := by
      rcases mem_append.mp hy with hy | hy
      · obtain ⟨s, hs, heq⟩ := h.covered y hy
        exact .inl (mem_map.mpr ⟨s, hs, heq⟩)
      · exact .inr (by rw [mem_singleton.mp hy])
    exact mem_map.mp ((hname _).mpr hy)

end

section

variable {α : Type} (f : α → Insertion R)

def RouteTable.ownScopes (t : RouteTable R) (port : UInt16) : List (ListenerScope R) :=
  ((t.listenerScopes.lookup port).map PortScopes.scopes).getD []

def RouteTable.sharesOn (t : RouteTable R) (port : UInt16) : Bool :=
  (t.listenerScopes.lookup port).any PortScopes.shared

/-- The items inserted for a port of its own. -/
def ownItems (xs : List α) (port : UInt16) : List α :=
  xs.filter fun x => (f x).port = port ∧ port ≠ 0

/-- The items inserted for the ports that share. -/
def sharedItems (xs : List α) : List α := xs.filter fun x => (f x).port = 0

/-- The table holds the items and shares nothing yet. -/
structure TableHolds (xs : List α) (t : RouteTable R) : Prop where
  own : ∀ port, ScopesHold f (ownItems f xs port) (t.ownScopes port)
  shared : ScopesHold f (sharedItems f xs) t.sharedScopes
  unshared : ∀ port, t.sharesOn port = false

theorem ScopesHold.nil : ScopesHold f [] [] := ⟨by simp, by simp, by simp, by simp⟩

theorem TableHolds.new : TableHolds f [] (new R) :=
  ⟨fun _ => .nil f, .nil f, fun _ => rfl⟩

theorem TableHolds.push {xs : List α} {t : RouteTable R} (h : TableHolds f xs t) (x : α) :
    TableHolds f (xs ++ [x]) (t.pushHttpRouteForListener (f x)) := by
  have hown (port : UInt16) : ownItems f (xs ++ [x]) port =
      ownItems f xs port ++ if (f x).port = port ∧ port ≠ 0 then [x] else [] := by
    rw [ownItems, filter_append]
    split_ifs with hx <;> simp [ownItems, hx]
  have hshared : sharedItems f (xs ++ [x]) =
      sharedItems f xs ++ if (f x).port = 0 then [x] else [] := by
    rw [sharedItems, filter_append]
    split_ifs with hx <;> simp [sharedItems, hx]
  unfold pushHttpRouteForListener
  by_cases hzero : (f x).port = 0
  · simp only [hzero, if_true] at hshared ⊢
    refine ⟨fun port => ?_, hshared ▸ h.shared.push f x, h.unshared⟩
    have hne : ¬((f x).port = port ∧ port ≠ 0) := fun hx => hx.2 (hx.1 ▸ hzero)
    rw [hown, if_neg hne, append_nil]
    exact h.own port
  · simp only [hzero, if_false, append_nil] at hshared ⊢
    refine ⟨fun port => ?_, hshared ▸ h.shared, fun port => ?_⟩
    · by_cases hport : port = (f x).port
      · subst hport
        rw [hown, if_pos ⟨rfl, hzero⟩]
        have hpush := (h.own (f x).port).push f x
        cases hlook : t.listenerScopes.lookup (f x).port with
        | none => simpa [ownScopes, AList.lookup_insert, hlook, scopeName] using hpush
        | some entry => simpa [ownScopes, AList.lookup_insert, hlook, scopeName] using hpush
      · rw [hown, if_neg fun hx => hport hx.1.symm, append_nil]
        simpa [ownScopes, AList.lookup_insert_ne hport] using h.own port
    · by_cases hport : port = (f x).port
      · subst hport
        have hold := h.unshared (f x).port
        cases hlook : t.listenerScopes.lookup (f x).port with
        | none => simp [sharesOn, AList.lookup_insert]
        | some entry => simpa [sharesOn, AList.lookup_insert, hlook] using hold
      · simpa [sharesOn, AList.lookup_insert_ne hport] using h.unshared port

theorem TableHolds.pushAll (xs : List α) :
    TableHolds f xs ((xs.map f).foldl RouteTable.pushHttpRouteForListener (RouteTable.new R)) := by
  induction xs using List.reverseRecOn with
  | nil => exact .new f
  | append_singleton xs x ih =>
    rw [map_append, foldl_append]
    exact ih.push f x

end

theorem ownScopes_sortHttpRoutes (t : RouteTable R) (port : UInt16) :
    t.sortHttpRoutes.ownScopes port = (t.ownScopes port).map ListenerScope.sort := by
  rw [ownScopes, sortHttpRoutes, lookup_mapValues, ownScopes]
  cases t.listenerScopes.lookup port <;> rfl

theorem sharesOn_sortHttpRoutes (t : RouteTable R) (port : UInt16) :
    t.sortHttpRoutes.sharesOn port = t.sharesOn port := by
  rw [sharesOn, sortHttpRoutes, lookup_mapValues, sharesOn]
  cases t.listenerScopes.lookup port <;> rfl

/-- What sharing leaves as it is, and the ports it adds. -/
theorem shareAnyPortScopesOn_spec (t : RouteTable R) (ports : List UInt16) :
    (∀ port, (t.shareAnyPortScopesOn ports).ownScopes port = t.ownScopes port) ∧
    (t.shareAnyPortScopesOn ports).sharedScopes = t.sharedScopes ∧
    (t.shareAnyPortScopesOn ports).sharedOnEveryPort = false ∧
    ∀ port, (t.shareAnyPortScopesOn ports).sharesOn port =
      (decide (port ∈ ports) || t.sharesOn port) := by
  unfold shareAnyPortScopesOn
  induction ports using List.reverseRecOn with
  | nil => exact ⟨fun _ => rfl, rfl, rfl, by simp [sharesOn]⟩
  | append_singleton ports p ih =>
    obtain ⟨hown, hshared, hevery, hon⟩ := ih
    rw [foldl_append, foldl_cons, foldl_nil]
    generalize ports.foldl _ _ = u at hown hshared hevery hon ⊢
    refine ⟨fun port => ?_, hshared, hevery, fun port => ?_⟩
    · rw [← hown port]
      by_cases hp : port = p
      · subst hp
        simp only [ownScopes, AList.lookup_insert]
        cases u.listenerScopes.lookup port <;> rfl
      · simp only [ownScopes, AList.lookup_insert_ne hp]
    · by_cases hp : port = p
      · subst hp
        simp [sharesOn, AList.lookup_insert]
      · have hon := hon port
        simp only [sharesOn] at hon ⊢
        rw [AList.lookup_insert_ne hp, hon]
        simp [hp]

end Portail.Routing
