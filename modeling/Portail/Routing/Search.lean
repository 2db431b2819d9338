import Portail.Routing.TableSpec

/-!
# Searching a table

A host selects patterns of hostnames, each with a specificity: the exact host above
its parents' wildcards, the longer parent first, and what has no hostname last. Within
a scope the rule found is the first of those that accept the request under the most
specific hostname (`lookup_first`). A port searches the scopes of the most specific
listener hostname (`mem_topScopes`), of which there is one in each of its two lists.
-/

namespace Portail.Routing

open Lib Http ListenerScope List
open Option hiding map mem_map

variable {R : Type} {scopes : List (ListenerScope R)} {host : Bytes} {s : ListenerScope R}
  {req : RouteRequest} {k : HostKind}

section

/-- How specific a hostname pattern is for a host it matches. -/
def patternSpecificity (pattern host : Bytes) : Option ℕ :=
  match stripStar pattern with
  | some parent => if parent ∈ parentDomains host then some (1 + parent.length) else none
  | none => if host = pattern then some (1 + host.length) else none

/-- A listener without hostname matches every host. -/
def listenerSpecificity (listenerHostname : Option Bytes) (host : Bytes) : Option ℕ :=
  match listenerHostname with
  | none => some 0
  | some pattern => patternSpecificity pattern host

def HostKind.specificity (host : Bytes) : HostKind → Option ℕ
  | .exact h => if host = h then some (1 + host.length) else none
  | .wildcard parent => if parent ∈ parentDomains host then some (1 + parent.length) else none
  | .catchAll => some 0

/-- The rank in 32 bits of a specificity. -/
def rankOf (host : Bytes) (n : ℕ) : ℕ := if n = 1 + host.length then u32Max else n

variable {host : Bytes} {n : ℕ}

theorem rankOf_lt_iff {m : ℕ} (hhost : host.length < u32Max) (hm : m ≤ 1 + host.length)
    (hn : n ≤ 1 + host.length) : rankOf host m < rankOf host n ↔ m < n := by
  unfold rankOf
  split_ifs <;> omega

theorem patternSpecificity_le {pattern : Bytes} (h : patternSpecificity pattern host = some n) :
    n ≤ 1 + host.length := by
  unfold patternSpecificity at h
  split at h
  · split_ifs at h with hmem
    have := parentDomains_length hmem
    have := some.inj h
    omega
  · split_ifs at h
    exact (some.inj h).symm.le

theorem listenerSpecificity_le {lh : Option Bytes} (h : listenerSpecificity lh host = some n) :
    n ≤ 1 + host.length := by
  cases lh with
  | none =>
    have : 0 = n := some.inj h
    omega
  | some pattern => exact patternSpecificity_le h

theorem HostKind.specificity_le (h : k.specificity host = some n) : n ≤ 1 + host.length := by
  cases k with
  | exact _ =>
    simp only [specificity] at h
    split_ifs at h
    exact (some.inj h).symm.le
  | wildcard parent =>
    simp only [specificity] at h
    split_ifs at h with hmem
    have := parentDomains_length hmem
    have := some.inj h
    omega
  | catchAll =>
    have : 0 = n := some.inj h
    omega

theorem hostnameMatchPriority_eq (lh : Option Bytes) (hhost : host.length < u32Max) :
    hostnameMatchPriority lh host = (listenerSpecificity lh host).map (rankOf host) := by
  cases lh with
  | none =>
    rw [listenerSpecificity, map_some, rankOf, if_neg (by omega)]
    rfl
  | some pattern =>
    simp only [hostnameMatchPriority, listenerSpecificity, patternSpecificity]
    cases stripStar pattern with
    | some parent =>
      simp only [wildcardCovers_iff]
      split_ifs with hmem
      · have := parentDomains_length hmem
        rw [wildcardRank_eq hmem hhost, map_some, rankOf, if_neg (by omega)]
      · rfl
    | none =>
      simp only
      split_ifs
      · rw [map_some, rankOf, if_pos rfl]
      · rfl

/-- Hostnames equally specific for a host are the same. -/
theorem listenerSpecificity_inj {a b : Option Bytes} (ha : listenerSpecificity a host = some n)
    (hb : listenerSpecificity b host = some n) (hhost : host.length < u32Max) : a = b :=
  hostnameMatchPriority_inj (n := rankOf host n)
    (by rw [hostnameMatchPriority_eq a hhost, ha, map_some])
    (by rw [hostnameMatchPriority_eq b hhost, hb, map_some]) hhost

/-- The kinds of hostname a host selects, the most specific first. -/
def hostKinds (host : Bytes) : List (ℕ × HostKind) :=
  (1 + host.length, .exact host) ::
    ((parentDomains host).map fun parent => (1 + parent.length, HostKind.wildcard parent)) ++
    [(0, .catchAll)]

theorem mem_hostKinds : (n, k) ∈ hostKinds host ↔ k.specificity host = some n := by
  cases k <;> simp [hostKinds, HostKind.specificity, eq_comm, and_comm]

theorem hostKinds_pairwise (host : Bytes) :
    (hostKinds host).Pairwise fun a b => b.1 < a.1 := by
  unfold hostKinds
  rw [cons_append, pairwise_cons, pairwise_append]
  refine ⟨fun a ha => ?_, ?_, by simp, ?_⟩
  · simp only [mem_append, mem_map, mem_singleton] at ha
    rcases ha with ⟨parent, hparent, rfl⟩ | rfl
    · have := parentDomains_length hparent
      simp only
      omega
    · simp
  · rw [pairwise_map]
    exact (parentDomains_pairwise host).imp fun h => by omega
  · simp

end

section

variable {α : Type} (f : α → Insertion R)

/-- How specific the route hostname of an item is for a host. -/
def routeSpecificity (host : Bytes) (x : α) : Option ℕ :=
  (hostKind (f x).routeHost).specificity host

theorem mem_entry {xs : List α}
    (hold : ScopesHold f xs scopes) (hs : s ∈ scopes) {rule : HttpRouteRule R} :
    rule ∈ s.entry k ↔ ∃ x ∈ xs, scopeName f x = s.listenerHostname ∧
      hostKind (f x).routeHost = k ∧ tableRule f x = rule := by
  rw [hold.entries s hs k, mem_map]
  simp [itemsOf, and_assoc]

end

section

@[simp] theorem matchLE_withFilters (a b : HttpRouteRule R) :
    MatchLE (withFilters a) (withFilters b) ↔ MatchLE a b := Iff.rfl

variable [RegexEngine R]

@[simp] theorem accepts_withFilters (rule : HttpRouteRule R) (req : RouteRequest) :
    (withFilters rule).accepts req = rule.accepts req := rfl

theorem findBestRuleMatch_sort (rules : HostEntry R) (req : RouteRequest) :
    findBestRuleMatch (sortRules rules) req =
      firstLeast MatchLE (·.accepts req) rules := find?_insertionSort _ _ rules

theorem lookup_sort (s : ListenerScope R) (req : RouteRequest) (hhost : host.length < u32Max) :
    s.sort.lookupHttpRoute host req = (hostKinds host).findSome? fun nk =>
      (firstLeast MatchLE (·.accepts req) (s.entry nk.2)).map (rankOf host nk.1, ·) := by
  have hsearch (entry : Option (HostEntry R)) :
      ((entry.map sortRules).bind (findBestRuleMatch · req)) =
        firstLeast MatchLE (·.accepts req) (entry.getD []) := by
    cases entry with
    | none => rfl
    | some rules => exact findBestRuleMatch_sort rules req
  have hexact : (s.sort.httpRoutes.lookup host).bind (findBestRuleMatch · req) =
      firstLeast MatchLE (·.accepts req) (s.entry (.exact host)) := by
    rw [sort, lookup_mapValues, hsearch, entry]
  have hparents : ((parentDomains host).findSome? fun parent =>
        ((s.sort.wildcardHttpRoutes.lookup parent).bind (findBestRuleMatch · req)).map
          fun rule => (wildcardRank parent, rule)) =
      ((parentDomains host).map fun parent =>
        (1 + parent.length, HostKind.wildcard parent)).findSome?
        fun nk => (firstLeast MatchLE (·.accepts req) (s.entry nk.2)).map
          (rankOf host nk.1, ·) := by
    rw [findSome?_map]
    refine findSome?_congr fun parent hparent => ?_
    have := parentDomains_length hparent
    rw [sort, lookup_mapValues, hsearch, wildcardRank_eq hparent hhost]
    simp [rankOf, entry, show parent.length ≠ host.length by omega]
  have hcatchAll : s.sort.catchAllHttpRoutes.bind (findBestRuleMatch · req) =
      firstLeast MatchLE (·.accepts req) (s.entry .catchAll) := by
    rw [sort, hsearch, entry]
  have htop : rankOf host (1 + host.length) = u32Max := if_pos rfl
  have hzero : rankOf host 0 = 0 := if_neg (by omega)
  rw [lookupHttpRoute, hparents, hostKinds, cons_append, findSome?_cons, findSome?_append]
  simp only [hexact, hcatchAll, htop, hzero, findSome?_singleton]
  cases firstLeast MatchLE (·.accepts req) (s.entry (.exact host)) <;> rfl

variable {α : Type} (f : α → Insertion R)

theorem lookup_none {xs : List α} (hold : ScopesHold f xs scopes) (hs : s ∈ scopes)
    (hhost : host.length < u32Max) :
    s.sort.lookupHttpRoute host req = none ↔ ∀ x ∈ xs, scopeName f x = s.listenerHostname →
      (routeSpecificity f host x).isSome = true → (f x).rule.accepts req = false := by
  rw [lookup_sort s req hhost, findSome?_eq_none_iff]
  simp only [map_eq_none_iff, firstLeast_eq_none]
  constructor
  · intro h x hx hname hspec
    obtain ⟨n, hn⟩ := isSome_iff_exists.mp hspec
    exact h (n, hostKind (f x).routeHost) (mem_hostKinds.mpr hn) (tableRule f x)
      ((mem_entry f hold hs).mpr ⟨x, hx, hname, rfl, rfl⟩)
  · rintro h ⟨n, k⟩ hk rule hrule
    obtain ⟨x, hx, hname, rfl, rfl⟩ := (mem_entry f hold hs).mp hrule
    exact h x hx hname (by rw [routeSpecificity, mem_hostKinds.mp hk, isSome_some])

/-- The rule a scope answers with is the first that accepts the request. -/
theorem lookup_first {xs : List α} (hold : ScopesHold f xs scopes) (hs : s ∈ scopes)
    {before : α → α → Prop} (hbefore : xs.Pairwise before) (hhost : host.length < u32Max)
    {found : ℕ × HttpRouteRule R} (h : s.sort.lookupHttpRoute host req = some found) :
    ∃ x ∈ xs, ∃ n, scopeName f x = s.listenerHostname ∧ routeSpecificity f host x = some n ∧
      (f x).rule.accepts req = true ∧ found = (rankOf host n, tableRule f x) ∧
      ∀ y ∈ xs, ∀ m, scopeName f y = s.listenerHostname → routeSpecificity f host y = some m →
        (f y).rule.accepts req = true → m < n ∨ m = n ∧ MatchLE (f x).rule (f y).rule ∧
          (MatchLE (f y).rule (f x).rule → y = x ∨ before x y) := by
  rw [lookup_sort s req hhost] at h
  obtain ⟨⟨n, k⟩, hk, hfound, hgroups⟩ := findSome?_spec (hostKinds_pairwise host) h
  obtain ⟨rule, hrule, rfl⟩ := map_eq_some_iff.mp hfound
  rw [hold.entries s hs k] at hrule
  obtain ⟨x, hx, rfl, hacc, hleast⟩ :=
    firstLeast_map_spec MatchLE _ (tableRule f) (hbefore.filter _) hrule
  obtain ⟨hxs, hxk⟩ := mem_filter.mp hx
  obtain ⟨hname, rfl⟩ := of_decide_eq_true hxk
  refine ⟨x, hxs, n, hname, mem_hostKinds.mp hk, hacc, rfl, fun y hy m hyname hym hyacc => ?_⟩
  by_cases hmn : m < n
  · exact .inl hmn
  · have hmem := mem_hostKinds.mpr hym
    rcases hgroups _ hmem hmn with heq | hnone
    · obtain ⟨rfl, hkind⟩ := Prod.mk.inj heq
      have hyk : y ∈ itemsOf f xs s.listenerHostname (hostKind (f x).routeHost) :=
        mem_filter.mpr ⟨hy, decide_eq_true ⟨hyname, hkind⟩⟩
      exact .inr ⟨rfl, hleast y hyk hyacc⟩
    · rw [map_eq_none_iff, firstLeast_eq_none] at hnone
      have hno := hnone (tableRule f y) ((mem_entry f hold hs).mpr ⟨y, hy, hyname, rfl, rfl⟩)
      exact absurd hyacc (by simpa [tableRule] using hno)

end

theorem outranks_iff {a b : ℕ × HttpRouteRule R} : outranks a b = true ↔
    b.1 < a.1 ∨ b.1 = a.1 ∧ (¬MatchLE b.2 a.2 ∨
      MatchLE a.2 b.2 ∧ MatchLE b.2 a.2 ∧ a.2.routeIndex < b.2.routeIndex) := by
  simp only [outranks, matchPrecedence, Ordering.then_assoc, beq_iff_eq, Ordering.then_eq_lt,
    Nat.compare_eq_lt, Nat.compare_eq_eq, matchLE_iff]
  omega

theorem outranks_rankOf {m n : ℕ} (hhost : host.length < u32Max)
    (hm : m ≤ 1 + host.length) (hn : n ≤ 1 + host.length) (a b : HttpRouteRule R) :
    outranks (rankOf host m, a) (rankOf host n, b) = outranks (m, a) (n, b) := by
  have hlt := rankOf_lt_iff hhost hm hn
  have hgt := rankOf_lt_iff hhost hn hm
  have heq : rankOf host n = rankOf host m ↔ n = m := by omega
  rw [Bool.eq_iff_iff, outranks_iff, outranks_iff]
  simp only [hgt, heq]

/-- One rule found against the best so far. -/
def pick (best : Option (ℕ × HttpRouteRule R)) (found : ℕ × HttpRouteRule R) :
    Option (ℕ × HttpRouteRule R) := if best.all (outranks found) then some found else best

theorem outranks_irrefl (a : ℕ × HttpRouteRule R) : outranks a a = false := by
  rw [Bool.eq_false_iff, Ne, outranks_iff, matchLE_iff]
  omega

theorem matchLE_preorder : (∀ x y z : HttpRouteRule R, MatchLE x y → MatchLE y z → MatchLE x z) ∧
    ∀ x y : HttpRouteRule R, MatchLE x y ∨ MatchLE y x :=
  ⟨IsTrans.trans, Std.Total.total⟩

theorem outranks_trans {a b c : ℕ × HttpRouteRule R} (hab : outranks a b = true)
    (hbc : outranks b c = true) : outranks a c = true := by
  obtain ⟨htrans, htotal⟩ := matchLE_preorder (R := R)
  rw [outranks_iff] at *
  grind

theorem not_outranks_trans {a b c : ℕ × HttpRouteRule R} (hab : outranks a b = false)
    (hbc : outranks b c = false) : outranks a c = false := by
  obtain ⟨htrans, htotal⟩ := matchLE_preorder (R := R)
  rw [Bool.eq_false_iff, Ne, outranks_iff] at *
  grind

theorem foldl_pick {founds : List (ℕ × HttpRouteRule R)} {best : ℕ × HttpRouteRule R}
    (h : founds.foldl pick none = some best) :
    best ∈ founds ∧ ∀ other ∈ founds, outranks other best = false := by
  refine foldl_better (r := fun a b => outranks b a = false) outranks_irrefl
    (fun a b c hab hbc => not_outranks_trans hbc hab) (fun a b hab => ?_) (fun _ _ h => h) h
  by_contra hba
  have := outranks_trans hab (Bool.eq_true_of_not_eq_false hba)
  rw [outranks_irrefl] at this
  cases this

section

theorem highestPriority_eq (host : Bytes) (scopes : List (ListenerScope R)) :
    RouteTable.highestPriority host scopes =
      (scopes.filterMap fun s => hostnameMatchPriority s.listenerHostname host).foldl
        (better (· > ·)) none := by
  rw [foldl_filterMap, RouteTable.highestPriority]
  congr 1
  funext highest s
  cases hostnameMatchPriority s.listenerHostname host <;> rfl

theorem highestPriority_spec (host : Bytes) (scopes : List (ListenerScope R)) :
    (∀ n, RouteTable.highestPriority host scopes = some n →
      ∃ s ∈ scopes, hostnameMatchPriority s.listenerHostname host = some n) ∧
    ∀ s ∈ scopes, ∀ m, hostnameMatchPriority s.listenerHostname host = some m →
      ∃ n, RouteTable.highestPriority host scopes = some n ∧ m ≤ n := by
  have hbest {n : ℕ} (hn : (scopes.filterMap fun s =>
      hostnameMatchPriority s.listenerHostname host).foldl (better (· > ·)) none = some n) :=
    foldl_better (r := (· ≥ ·)) le_refl (fun _ _ _ h h' => le_trans h' h)
      (fun a b h => (of_decide_eq_true h).le) (fun a b h => not_lt.mp (of_decide_eq_false h)) hn
  rw [highestPriority_eq]
  refine ⟨fun n hn => mem_filterMap.mp (hbest hn).1, fun s hs m hm => ?_⟩
  have hmem : m ∈ scopes.filterMap fun s => hostnameMatchPriority s.listenerHostname host :=
    mem_filterMap.mpr ⟨s, hs, hm⟩
  obtain ⟨n, hn⟩ := ne_none_iff_exists'.mp
    fun hnone => ne_nil_of_mem hmem (foldl_better_eq_none.mp hnone)
  exact ⟨n, hn, (hbest hn).2 m hmem⟩

/-- The scopes that are searched for a host. -/
def topScopes (host : Bytes) (scopes : List (ListenerScope R)) : List (ListenerScope R) :=
  scopes.filter fun s => (RouteTable.highestPriority host scopes).isSome &&
    hostnameMatchPriority s.listenerHostname host == RouteTable.highestPriority host scopes

theorem mem_topScopes (hhost : host.length < u32Max) :
    s ∈ topScopes host scopes ↔ s ∈ scopes ∧ ∃ n,
      listenerSpecificity s.listenerHostname host = some n ∧ ∀ s' ∈ scopes, ∀ m,
        listenerSpecificity s'.listenerHostname host = some m → m ≤ n := by
  obtain ⟨hfrom, hmax⟩ := highestPriority_spec host scopes
  simp only [hostnameMatchPriority_eq _ hhost] at hfrom hmax
  rw [topScopes, mem_filter, Bool.and_eq_true, beq_iff_eq, hostnameMatchPriority_eq _ hhost]
  refine and_congr_right fun hs => ⟨fun ⟨hsome, htop⟩ => ?_, fun ⟨n, hn, hall⟩ => ?_⟩
  · obtain ⟨top, heq⟩ := isSome_iff_exists.mp hsome
    obtain ⟨n, hn, hrank⟩ := map_eq_some_iff.mp (htop.trans heq)
    refine ⟨n, hn, fun s' hs' m hm => ?_⟩
    obtain ⟨_, heq', hle⟩ := hmax s' hs' (rankOf host m) (by rw [hm, map_some])
    rw [← some.inj (heq.symm.trans heq'), ← hrank] at hle
    exact not_lt.mp fun hlt => absurd ((rankOf_lt_iff hhost (listenerSpecificity_le hn)
      (listenerSpecificity_le hm)).mpr hlt) (not_lt.mpr hle)
  · obtain ⟨top, heq, hle⟩ := hmax s hs (rankOf host n) (by rw [hn, map_some])
    obtain ⟨s', hs', hs'top⟩ := hfrom top heq
    obtain ⟨m, hm, rfl⟩ := map_eq_some_iff.mp hs'top
    have hge : rankOf host m ≤ rankOf host n := not_lt.mp fun hlt =>
      absurd ((rankOf_lt_iff hhost (listenerSpecificity_le hn)
        (listenerSpecificity_le hm)).mp hlt) (not_lt.mpr (hall s' hs' m hm))
    rw [heq, hn, map_some]
    exact ⟨rfl, by rw [le_antisymm hle hge]⟩

/-- At most one scope of distinct listener hostnames is searched. -/
theorem topScopes_length (hnodup : (scopes.map listenerHostname).Nodup)
    (hhost : host.length < u32Max) : (topScopes host scopes).length ≤ 1 := by
  have hsub : ((topScopes host scopes).map listenerHostname).Nodup :=
    hnodup.sublist (filter_sublist.map _)
  cases htop : topScopes host scopes with
  | nil => simp
  | cons s rest =>
    have hs : s ∈ topScopes host scopes := by simp [htop]
    obtain ⟨hmem, n, hn, hmax⟩ := (mem_topScopes hhost).mp hs
    cases rest with
    | nil => simp
    | cons s' rest =>
      have hs' : s' ∈ topScopes host scopes := by simp [htop]
      obtain ⟨hmem', n', hn', hmax'⟩ := (mem_topScopes hhost).mp hs'
      have hle := hmax s' hmem' n' hn'
      have hge := hmax' s hmem n hn
      obtain rfl : n = n' := by omega
      rw [htop] at hsub
      exact absurd (listenerSpecificity_inj hn hn' hhost) (by simp_all)

variable [RegexEngine R]

/-- The best of what the scopes at the highest priority find. Where there is one such scope at
most, nothing has to be compared. -/
theorem searchScopes_eq {highest : ℕ} {compare : Bool}
    (scopes : List (ListenerScope R)) (best : Option (ℕ × HttpRouteRule R))
    (hmax : ∀ s ∈ scopes, ∀ p, hostnameMatchPriority s.listenerHostname host = some p → p ≤ highest)
    (hone : compare = false → best = none ∧ (scopes.filter fun s =>
      hostnameMatchPriority s.listenerHostname host == some highest).length ≤ 1) :
    RouteTable.searchScopes host req highest compare best scopes =
      ((scopes.filter fun s => hostnameMatchPriority s.listenerHostname host == some highest)
        |>.filterMap (·.lookupHttpRoute host req)).foldl pick best := by
  induction scopes generalizing best with
  | nil => rfl
  | cons s scopes ih =>
    obtain ⟨hs, hmax⟩ := forall_mem_cons.mp hmax
    rw [filter_cons] at hone
    rw [RouteTable.searchScopes, filter_cons]
    cases hprio : hostnameMatchPriority s.listenerHostname host with
    | none => simpa using ih best hmax (by simpa [hprio] using hone)
    | some p =>
      have hp := hs p hprio
      simp only [hprio, beq_iff_eq, Option.some.injEq] at hone ⊢
      by_cases hlt : p < highest
      · rw [if_neg (by omega)] at hone
        rw [if_pos hlt, if_neg (by omega)]
        exact ih best hmax hone
      · rw [if_pos (by omega), length_cons] at hone
        rw [if_neg hlt, if_pos (by omega), filterMap_cons]
        cases s.lookupHttpRoute host req with
        | none => exact ih best hmax fun h => ⟨(hone h).1, by have := (hone h).2; omega⟩
        | some found =>
          cases compare with
          | true => exact ih (pick best found) hmax (by nofun)
          | false =>
            obtain ⟨rfl, hlen⟩ := hone rfl
            rw [length_eq_zero_iff.mp (Nat.le_zero.mp (Nat.le_of_succ_le_succ hlen))]
            rfl

/-- What a port's search answers, whether or not its finds are compared. -/
theorem findHttpRoute_eq (t : RouteTable R) (req : RouteRequest) (port : UInt16)
    {own shared : List (ListenerScope R)} (hown : t.ownScopes port = own)
    (hshared : t.sharedScopesOf (t.listenerScopes.lookup port) = shared)
    (hownNodup : (own.map listenerHostname).Nodup)
    (hsharedNodup : (shared.map listenerHostname).Nodup) (hhost : (hostKey host).length < u32Max) :
    t.findHttpRoute host req port =
      (((topScopes (hostKey host) (own ++ shared)).filterMap
        (·.lookupHttpRoute (hostKey host) req)).foldl pick none).map Prod.snd := by
  have hown' : ((t.listenerScopes.lookup port).map PortScopes.scopes).getD [] = own := hown
  rw [RouteTable.findHttpRoute]
  simp only [hown', hshared]
  cases htop : RouteTable.highestPriority (hostKey host) (own ++ shared) with
  | none => simp [topScopes, htop]
  | some highest =>
    have hmax : ∀ s ∈ own ++ shared, ∀ p,
        hostnameMatchPriority s.listenerHostname (hostKey host) = some p → p ≤ highest := by
      intro s hs p hp
      obtain ⟨n, hn, hpn⟩ := (highestPriority_spec (hostKey host) (own ++ shared)).2 s hs p hp
      rwa [some.inj (htop.symm.trans hn)]
    have hscopes : topScopes (hostKey host) (own ++ shared) = (own ++ shared).filter fun s =>
        hostnameMatchPriority s.listenerHostname (hostKey host) == some highest := by
      simp [topScopes, htop]
    simp only
    rw [hscopes]
    refine congrArg _ (searchScopes_eq _ _ hmax fun hcompare => ⟨rfl, ?_⟩)
    -- One of the two lists is empty, so one scope at most is searched.
    rw [← hscopes]
    refine topScopes_length ?_ hhost
    rcases Bool.and_eq_false_iff.mp hcompare with h | h
    · simp_all
    · simp_all

end
end Portail.Routing
