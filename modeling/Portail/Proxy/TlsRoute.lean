import Portail.Config.Isolation
import Portail.Lib.Maps
import Portail.Proxy.PlanPorts
import Portail.Routing.Signature

/-!
# Which listener, which TLS route

A ClientHello's SNI selects a listener of the port's plan, and within a passthrough listener a
TLS route. The plan does not depend on the order its listeners came in; of the routes the
listener has and those all listeners share, the most specific hostname takes the connection
(`tlsRoute_precedence`).
-/

namespace Portail.Proxy

open Lib Http Routing Config List Option

section

variable {C : Type}

theorem rank_injective {a b : TlsKind} (h : a.rank = b.rank) : a = b := by
  cases a <;> cases b <;> first | rfl | cases h

def TlsPlan.ofListeners (listeners : List (Option Bytes × TlsKind)) : TlsPlan C :=
  listeners.foldl (fun plan l => plan.add l.1 l.2) .empty

/-- The place of a hostname is held by one of the listeners that have it, none of a higher
rank; by none where none has it. -/
structure Held (listeners : List (Option Bytes × TlsKind)) (k : HostKind)
    (held : Option TlsListener) : Prop where
  listed : ∀ h ∈ held, ∃ l ∈ listeners, nameKind (l.1.map lowercase) = k ∧
    h = ⟨l.2, l.1.map lowercase⟩
  highest : ∀ l ∈ listeners, nameKind (l.1.map lowercase) = k → ∃ h ∈ held, l.2.rank ≤ h.kind.rank

theorem Held.unique {xs ys : List (Option Bytes × TlsKind)} (hsame : ∀ l, l ∈ xs ↔ l ∈ ys)
    {k : HostKind} {a b : Option TlsListener} (ha : Held xs k a) (hb : Held ys k b) : a = b := by
  have hfrom {xs ys : List (Option Bytes × TlsKind)} (hsame : ∀ l, l ∈ xs ↔ l ∈ ys)
      {a b : Option TlsListener} (ha : Held xs k a) (hb : Held ys k b) : ∀ h ∈ a, h ∈ b := by
    intro h hh
    obtain ⟨l, hl, hk, rfl⟩ := ha.listed h hh
    obtain ⟨h', hh', hle⟩ := hb.highest l ((hsame l).mp hl) hk
    obtain ⟨l', hl', hk', rfl⟩ := hb.listed h' hh'
    obtain ⟨h'', hh'', hle'⟩ := ha.highest l' ((hsame l').mpr hl') hk'
    obtain rfl := mem_unique hh hh''
    have hkind : l.2 = l'.2 := rank_injective (le_antisymm hle hle')
    have hname : l.1.map lowercase = l'.1.map lowercase := nameKind_inj (hk.trans hk'.symm)
    rw [hkind, hname]
    exact hh'
  exact Option.ext fun h => ⟨hfrom hsame ha hb h, hfrom (fun l => (hsame l).symm) hb ha h⟩

theorem Held.push {listeners : List (Option Bytes × TlsKind)} {k : HostKind} {plan : TlsPlan C}
    (h : Held listeners k (plan.at k)) (l : Option Bytes × TlsKind) :
    Held (listeners ++ [l]) k ((plan.add l.1 l.2).at k) := by
  rw [TlsPlan.at_add]
  split_ifs with hnew
  · obtain ⟨hk, hreplaces⟩ := hnew
    refine ⟨fun held hheld => ?_, fun l' hl' hk' => ⟨_, rfl, ?_⟩⟩
    · cases hheld
      exact ⟨l, by simp, hk, rfl⟩
    · rcases mem_append.mp hl' with hl' | hl'
      · obtain ⟨held, hheld, hle⟩ := h.highest l' hl' hk'
        rw [mem_def.mp hheld, TlsPlan.replaces, all_some, decide_eq_true_iff] at hreplaces
        exact hle.trans hreplaces.le
      · rw [mem_singleton.mp hl']
  · refine ⟨fun held hheld => ?_, fun l' hl' hk' => ?_⟩
    · obtain ⟨l', hl', hrest⟩ := h.listed held hheld
      exact ⟨l', mem_append_left _ hl', hrest⟩
    · rcases mem_append.mp hl' with hl' | hl'
      · exact h.highest l' hl' hk'
      · obtain rfl := mem_singleton.mp hl'
        cases hat : plan.at k with
        | none => exact absurd ⟨hk', by rw [hat]; rfl⟩ hnew
        | some held =>
          refine ⟨held, rfl, ?_⟩
          by_contra hlt
          refine hnew ⟨hk', ?_⟩
          rw [hat, TlsPlan.replaces, all_some, decide_eq_true_iff]
          omega

theorem TlsPlan.held_ofListeners (listeners : List (Option Bytes × TlsKind)) (k : HostKind) :
    Held listeners k ((ofListeners listeners : TlsPlan C).at k) := by
  induction listeners using List.reverseRecOn with
  | nil => exact ⟨by simp [ofListeners, at_empty], by simp⟩
  | append_singleton listeners l ih =>
    rw [ofListeners, foldl_append]
    exact ih.push l

/-- Listeners in another order, or repeated, select alike. -/
theorem TlsPlan.select_ofListeners {xs ys : List (Option Bytes × TlsKind)}
    (hsame : ∀ l, l ∈ xs ↔ l ∈ ys) (sni : Option Bytes) :
    (ofListeners xs : TlsPlan C).select sni = (ofListeners ys : TlsPlan C).select sni := by
  have hat : (ofListeners xs : TlsPlan C).at = (ofListeners ys : TlsPlan C).at :=
    funext fun k => (held_ofListeners xs k).unique hsame (held_ofListeners ys k)
  cases sni with
  | none => exact congrFun hat .catchAll
  | some sni => rw [select_eq, select_eq, hat]

end

section

variable {R : Type}

/-- The scopes an SNI is searched in: the listener's own, then those all listeners share. -/
def tlsSearch (t : RouteTable R) (serverPort : UInt16) (listener : Option Bytes) :
    List (UInt16 × TlsScope) :=
  let own := ((t.tlsScopes.lookup serverPort).getD []).find? fun s => s.listenerHostname == listener
  let shared := if serverPort = 0 then [] else (t.tlsScopes.lookup 0).getD []
  (own.map fun scope => (serverPort, scope)).toList ++ shared.map fun scope => (0, scope)

/-- What the round robin of a route counts under. -/
def tlsRouteKey (port : UInt16) (scope : TlsScope) (kind : UInt8) (name : Bytes) : UInt64 :=
  fnv1a ([port.toUInt8, (port >>> 8).toUInt8] ++ scope.listenerHostname.getD [] ++ kind :: name)

def tlsRoute (t : RouteTable R) (sni : Option Bytes) (serverPort : UInt16)
    (listener : Option Bytes) : Option (List Backend × UInt64) :=
  let scopes := tlsSearch t serverPort listener
  let named := sni.bind fun sni =>
    (scopes.findSome? fun (port, scope) =>
      (scope.exact.lookup sni).map fun backends =>
        (backends, tlsRouteKey port scope 0x3d sni)) |>.or <|
    (parentDomains sni).findSome? fun parent =>
      scopes.findSome? fun (port, scope) =>
        (scope.wildcard.lookup parent).map fun backends =>
          (backends, tlsRouteKey port scope 0x2a parent)
  named.or <| scopes.findSome? fun (port, scope) =>
    scope.catchAll.map fun backends => (backends, tlsRouteKey port scope 0x2e [])

end

/-- A TLS route put under a hostname of a listener; port 0 is shared. -/
structure TlsRegistration where
  port : UInt16
  listenerHostname : Option Bytes
  routeHost : Bytes
  backends : List Backend

variable {regs : List TlsRegistration}

section

variable {R : Type}

namespace TlsRegistration

def register (t : RouteTable R) (reg : TlsRegistration) : RouteTable R :=
  t.addTlsRouteForListener reg.port reg.listenerHostname reg.routeHost reg.backends

variable (R) in
def table (regs : List TlsRegistration) : RouteTable R := regs.foldl register (RouteTable.new R)

/-- The registration is one for a kind of hostname in a listener. -/
def isAt (port : UInt16) (listener : Option Bytes) (k : HostKind) (reg : TlsRegistration) : Bool :=
  reg.port == port && reg.listenerHostname.map lowercase == listener && hostKind reg.routeHost == k

end TlsRegistration

open TlsRegistration

theorem lookup_insertFirst (m : Map Bytes (List Backend)) (key k : Bytes)
    (backends : List Backend) :
    (RouteTable.insertFirst m key backends).lookup k =
      (m.lookup k).or (if key = k then some backends else none) := by
  unfold RouteTable.insertFirst
  split_ifs with hmem hk hk
  · subst hk
    obtain ⟨v, hv⟩ := isSome_iff_exists.mp (AList.lookup_isSome.mpr hmem)
    rw [hv, some_or]
  · rw [or_none]
  · subst hk
    rw [AList.lookup_insert, AList.lookup_eq_none.mpr hmem, none_or]
  · rw [AList.lookup_insert_ne (Ne.symm hk), or_none]

theorem entry_add (s : TlsScope) (routeHost : Bytes) (backends : List Backend) (k : HostKind) :
    (s.add routeHost backends).entry k =
      (s.entry k).or (if hostKind routeHost = k then some backends else none) := by
  unfold TlsScope.add hostKind
  dsimp only
  split_ifs with hstar hk hk
  · subst hk
    rfl
  · cases k with
    | catchAll => exact absurd rfl hk
    | exact host | wildcard parent => rw [or_none]; rfl
  all_goals
    cases hs : stripStar (lowercase routeHost) with rw [hs] at hk
    | none => cases k <;> simp_all [TlsScope.entry, lookup_insertFirst]
    | some parent => cases k <;> simp_all [TlsScope.entry, lookup_insertFirst]

@[simp] theorem listenerHostname_add (s : TlsScope) (routeHost : Bytes) (backends : List Backend) :
    (s.add routeHost backends).listenerHostname = s.listenerHostname := by
  unfold TlsScope.add
  dsimp only
  split_ifs
  · rfl
  · split <;> rfl

theorem find?_update (lh lh' : Option Bytes) (routeHost : Bytes) (backends : List Backend)
    (scopes : List TlsScope) :
    (TlsScope.update lh (·.add routeHost backends) scopes).find?
        (fun s => s.listenerHostname == lh') =
      if lh = lh' then some (((scopes.find? fun s => s.listenerHostname == lh).getD
        (TlsScope.new lh)).add routeHost backends)
      else scopes.find? fun s => s.listenerHostname == lh' := by
  induction scopes with
  | nil =>
    rw [TlsScope.update, find?_cons, listenerHostname_add]
    by_cases h : lh = lh'
    · simp [h, TlsScope.new]
    · have hbeq : (lh == lh') = false := beq_eq_false_iff_ne.mpr h
      simp [h, hbeq, TlsScope.new]
  | cons s scopes ih =>
    rw [TlsScope.update]
    by_cases hs : s.listenerHostname = lh
    · rw [if_pos hs, find?_cons, listenerHostname_add, find?_cons, find?_cons]
      by_cases h : lh = lh'
      · simp [hs, h]
      · have hbeq : (lh == lh') = false := beq_eq_false_iff_ne.mpr h
        simp [hs, h, hbeq]
    · have hbeq : (s.listenerHostname == lh) = false := beq_eq_false_iff_ne.mpr hs
      rw [if_neg hs, find?_cons, ih, find?_cons, find?_cons, hbeq]
      by_cases h : s.listenerHostname = lh'
      · have hne : lh ≠ lh' := fun heq => hs (h.trans heq.symm)
        simp [h, hne]
      · have hbeq' : (s.listenerHostname == lh') = false := beq_eq_false_iff_ne.mpr h
        simp [hbeq']

theorem backendsAt_register (t : RouteTable R) (reg : TlsRegistration) (port : UInt16)
    (listener : Option Bytes) (k : HostKind) :
    (reg.register t).backendsAt (.tls port listener k) =
      (t.backendsAt (.tls port listener k)).or
        (if reg.isAt port listener k then some reg.backends else none) := by
  have hlookup : ((reg.register t).tlsScopes.lookup port).getD [] =
      if port = reg.port then TlsScope.update (reg.listenerHostname.map lowercase)
        (·.add reg.routeHost reg.backends) ((t.tlsScopes.lookup reg.port).getD [])
      else (t.tlsScopes.lookup port).getD [] := by
    rw [register, RouteTable.addTlsRouteForListener, lookup_insert_cases]
    split_ifs <;> rfl
  simp only [RouteTable.backendsAt, hlookup]
  by_cases hport : port = reg.port
  · subst hport
    rw [if_pos rfl, find?_update]
    by_cases hlh : reg.listenerHostname.map lowercase = listener
    · rw [if_pos hlh, bind_some, entry_add, hlh]
      cases ((t.tlsScopes.lookup reg.port).getD []).find? fun s =>
        s.listenerHostname == listener with
      | none =>
        have hnew : (TlsScope.new listener).entry k = none := by
          cases k <;> rfl
        simp [isAt, hlh, hnew]
      | some s => simp [isAt, hlh]
    · simp [isAt, hlh]
  · have hne : reg.port ≠ port := Ne.symm hport
    simp [isAt, hport, hne]

/-- A listener has under each kind of hostname what was registered first. -/
theorem backendsAt_table (regs : List TlsRegistration) (port : UInt16) (listener : Option Bytes)
    (k : HostKind) :
    (table R regs).backendsAt (.tls port listener k) =
      (regs.find? (isAt port listener k)).map backends := by
  induction regs using List.reverseRecOn with
  | nil => rfl
  | append_singleton regs reg ih =>
    rw [table, foldl_append, ← table, foldl_cons, foldl_nil, backendsAt_register, ih, find?_append]
    cases regs.find? (isAt port listener k) with
    | some found => rfl
    | none =>
      by_cases hreg : reg.isAt port listener k = true
      · simp [hreg]
      · simp [hreg]

/-- What the routes without parentRefs share is one scope. -/
theorem shared_scopes (hshared : ∀ reg ∈ regs, reg.port = 0 → reg.listenerHostname = none) :
    let scopes := ((table R regs).tlsScopes.lookup 0).getD []
    scopes = [] ∨ ∃ s, scopes = [s] ∧ s.listenerHostname = none := by
  induction regs using List.reverseRecOn with
  | nil => exact .inl rfl
  | append_singleton regs reg ih =>
    rw [table, foldl_append, ← table, foldl_cons, foldl_nil]
    have hbefore := ih fun r hr => hshared r (mem_append_left _ hr)
    rw [register, RouteTable.addTlsRouteForListener, lookup_insert_cases]
    split_ifs with hport
    · have hnone := hshared reg (by simp) hport.symm
      rw [hnone, ← hport]
      right
      rcases hbefore with hnil | ⟨s, hone, hs⟩
      · rw [hnil]
        exact ⟨_, rfl, listenerHostname_add ..⟩
      · rw [hone]
        refine ⟨s.add reg.routeHost reg.backends, ?_, (listenerHostname_add ..).trans hs⟩
        simp [TlsScope.update, hs]
    · exact hbefore

end

section

variable {R : Type} {reg : TlsRegistration}

/-- The kinds of hostname a ClientHello selects, the most specific first; without an SNI the
catch-all alone. -/
def rankedKinds (sni : Option Bytes) : List (ℕ × HostKind) :=
  sni.elim [(0, .catchAll)] hostKinds

namespace TlsRegistration

/-- How specific the route's hostname is for the SNI, if it matches. -/
def rank (sni : Option Bytes) (reg : TlsRegistration) : Option ℕ :=
  match sni with
  | some sni => (hostKind reg.routeHost).specificity sni
  | none => if hostKind reg.routeHost = .catchAll then some 0 else none

def isShared (reg : TlsRegistration) : Bool := reg.port == 0

/-- A route of the listener, or one that every listener shares. -/
def isIn (port : UInt16) (listener : Option Bytes) (reg : TlsRegistration) : Bool :=
  reg.isShared || (reg.port == port && reg.listenerHostname.map lowercase == listener)

end TlsRegistration

open TlsRegistration

theorem mem_rankedKinds {sni : Option Bytes} {n : ℕ} :
    (n, hostKind reg.routeHost) ∈ rankedKinds sni ↔ reg.rank sni = some n := by
  cases sni with
  | some sni => exact mem_hostKinds
  | none => simp [rankedKinds, rank, eq_comm, and_comm]

theorem rankedKinds_pairwise (sni : Option Bytes) :
    (rankedKinds sni).Pairwise fun a b => b.1 < a.1 := by
  cases sni with
  | some sni => exact hostKinds_pairwise sni
  | none => exact pairwise_singleton ..

/-- The search goes through the kinds of hostname, and through the scopes for each. -/
theorem tlsRoute_eq (t : RouteTable R) (sni : Option Bytes) (port : UInt16)
    (listener : Option Bytes) :
    (tlsRoute t sni port listener).map Prod.fst = (rankedKinds sni).findSome? fun k =>
      (tlsSearch t port listener).findSome? fun s => s.2.entry k.2 := by
  have hfst (f : TlsScope → Option (List Backend)) (key : UInt16 → TlsScope → UInt64) :
      ((tlsSearch t port listener).findSome? fun s =>
        (f s.2).map fun backends => (backends, key s.1 s.2)).map Prod.fst =
      (tlsSearch t port listener).findSome? fun s => f s.2 := by
    rw [map_findSome?]
    refine findSome?_congr fun s _ => ?_
    simp [Function.comp_def]
  have hcatchAll : (tlsSearch t port listener).findSome? (fun s => s.2.catchAll) =
      [(0, HostKind.catchAll)].findSome? fun k : ℕ × HostKind =>
        (tlsSearch t port listener).findSome? fun s => s.2.entry k.2 := by
    rw [findSome?_singleton]
    rfl
  unfold tlsRoute
  cases sni with
  | none =>
    dsimp only [bind_none]
    rw [none_or, hfst TlsScope.catchAll fun port scope => tlsRouteKey port scope 0x2e [], hcatchAll]
    rfl
  | some sni =>
    dsimp only [bind_some]
    rw [map_or, map_or, hfst (fun scope => scope.exact.lookup sni)
        fun port scope => tlsRouteKey port scope 0x3d sni,
      hfst TlsScope.catchAll fun port scope => tlsRouteKey port scope 0x2e [], map_findSome?,
      hcatchAll, rankedKinds, elim_some, hostKinds, findSome?_append]
    congr 1
    rw [findSome?_cons, findSome?_map]
    have hwildcard : (parentDomains sni).findSome? (Option.map Prod.fst ∘ fun parent =>
          (tlsSearch t port listener).findSome? fun s =>
            (s.2.wildcard.lookup parent).map fun backends =>
              (backends, tlsRouteKey s.1 s.2 0x2a parent)) =
        (parentDomains sni).findSome? ((fun k : ℕ × HostKind =>
          (tlsSearch t port listener).findSome? fun s => s.2.entry k.2) ∘ fun parent =>
            (1 + parent.length, HostKind.wildcard parent)) :=
      findSome?_congr fun parent _ => hfst (fun scope => scope.wildcard.lookup parent)
        fun port scope => tlsRouteKey port scope 0x2a parent
    rw [hwildcard]
    have hexact : (tlsSearch t port listener).findSome? (fun s => s.2.exact.lookup sni) =
        (tlsSearch t port listener).findSome? fun s => s.2.entry (.exact sni) := rfl
    rw [hexact]
    cases (tlsSearch t port listener).findSome? fun s => s.2.entry (.exact sni) <;> rfl

/-- The scopes answer for a kind of hostname with the listener's own route, or a shared one. -/
theorem findSome?_tlsSearch (hshared : ∀ reg ∈ regs, reg.port = 0 → reg.listenerHostname = none)
    {port : UInt16} (hport : port ≠ 0) (listener : Option Bytes) (k : HostKind) :
    ((tlsSearch (table R regs) port listener).findSome? fun s => s.2.entry k) =
      ((regs.find? (isAt port listener k)).or (regs.find? (isAt 0 none k))).map backends := by
  rw [map_or, ← backendsAt_table (R := R), ← backendsAt_table (R := R), tlsSearch, if_neg hport,
    findSome?_append]
  congr 1
  · rw [RouteTable.backendsAt]
    cases ((table R regs).tlsScopes.lookup port).getD [] |>.find?
      fun s => s.listenerHostname == listener with
    | none => rfl
    | some s => simp
  · rw [RouteTable.backendsAt, findSome?_map]
    rcases shared_scopes (R := R) hshared with hnil | ⟨s, hone, hs⟩
    · rw [hnil]
      rfl
    · rw [hone]
      simp [hs]

theorem exists_first {p : TlsRegistration → Bool} (h : regs.find? p = some reg) :
    p reg = true ∧ ∃ i : ℕ, regs[i]? = some reg ∧
      ∀ (j : ℕ) (reg' : TlsRegistration), regs[j]? = some reg' → p reg' = true → i ≤ j := by
  obtain ⟨hp, i, hi, hreg, hbefore⟩ := find?_eq_some_iff_getElem.mp h
  refine ⟨hp, i, List.getElem?_eq_some_iff.mpr ⟨hi, hreg⟩, fun j reg' hj hp' => ?_⟩
  by_contra hlt
  obtain ⟨hj, rfl⟩ := List.getElem?_eq_some_iff.mp hj
  have hnot := hbefore j (by omega)
  rw [hp'] at hnot
  cases hnot

/-- The route of a kind of hostname: the listener's own, or else a shared one. -/
def answer (regs : List TlsRegistration) (port : UInt16) (listener : Option Bytes) (k : HostKind) :
    Option TlsRegistration :=
  (regs.find? (isAt port listener k)).or (regs.find? (isAt 0 none k))

section

variable {regs : List TlsRegistration} {port : UInt16} {listener : Option Bytes} {k : HostKind}
  {reg : TlsRegistration}

theorem isAt_own (hin : reg.isIn port listener = true) (hown : reg.isShared = false) :
    reg.isAt port listener (hostKind reg.routeHost) = true := by
  rw [isIn, hown, Bool.false_or] at hin
  rw [isAt, hin, Bool.true_and, beq_self_eq_true]

theorem isAt_shared (hshared : reg.port = 0 → reg.listenerHostname = none)
    (h : reg.isShared = true) : reg.isAt 0 none (hostKind reg.routeHost) = true := by
  have hport : reg.port = 0 := beq_iff_eq.mp h
  simp [isAt, hport, hshared hport]

theorem answer_ne_none (hshared : ∀ reg ∈ regs, reg.port = 0 → reg.listenerHostname = none)
    (hreg : reg ∈ regs) (hin : reg.isIn port listener = true) :
    answer regs port listener (hostKind reg.routeHost) ≠ none := by
  rw [answer, ne_eq, or_eq_none_iff, find?_eq_none, find?_eq_none]
  rintro ⟨hown, hall⟩
  cases h : reg.isShared with
  | true => exact hall reg hreg (isAt_shared (hshared reg hreg) h)
  | false => exact hown reg hreg (isAt_own hin h)

theorem answer_eq_some (hshared : ∀ reg ∈ regs, reg.port = 0 → reg.listenerHostname = none)
    (hport : port ≠ 0) (h : answer regs port listener k = some reg) :
    hostKind reg.routeHost = k ∧ ∃ i : ℕ, regs[i]? = some reg ∧ reg.isIn port listener = true ∧
      ∀ (j : ℕ) (reg' : TlsRegistration), regs[j]? = some reg' → reg'.isIn port listener = true →
        hostKind reg'.routeHost = k → reg.isShared = false ∧ reg'.isShared = true ∨
          reg.isShared = reg'.isShared ∧ i ≤ j := by
  rcases or_eq_some_iff.mp h with h | ⟨hnone, h⟩
  · obtain ⟨hat, i, hreg, hfirst⟩ := exists_first h
    simp only [isAt, Bool.and_eq_true, beq_iff_eq] at hat
    obtain ⟨⟨hp, hlistener⟩, hkind⟩ := hat
    have hown : reg.isShared = false := beq_eq_false_iff_ne.mpr (hp ▸ hport)
    refine ⟨hkind, i, hreg, by simp [isIn, hp, hlistener], ?_⟩
    intro j reg' hj hin' hkind'
    cases hown' : reg'.isShared with
    | true => exact .inl ⟨hown, rfl⟩
    | false => exact .inr ⟨hown, hfirst j reg' hj (hkind' ▸ isAt_own hin' hown')⟩
  · obtain ⟨hat, i, hreg, hfirst⟩ := exists_first h
    simp only [isAt, Bool.and_eq_true, beq_iff_eq] at hat
    obtain ⟨⟨hp, -⟩, hkind⟩ := hat
    have hall : reg.isShared = true := beq_iff_eq.mpr hp
    refine ⟨hkind, i, hreg, by rw [isIn, hall, Bool.true_or], ?_⟩
    intro j reg' hj hin' hkind'
    have hmem := mem_of_getElem? hj
    cases hown' : reg'.isShared with
    | true =>
      exact .inr ⟨hall, hfirst j reg' hj (hkind' ▸ isAt_shared (hshared reg' hmem) hown')⟩
    | false =>
      exact absurd (hkind' ▸ isAt_own hin' hown') (find?_eq_none.mp hnone reg' hmem)

end

/-- Listeners added in any order, or again, select alike; and of the TLS routes registered for
the listener and those shared, the one of the most specific hostname takes the connection, the
listener's own before a shared one and the first registered among equals. Routes are shared on
port 0, under no hostname. -/
theorem tlsRoute_precedence :
    (∀ (C : Type) (xs ys : List (Option Bytes × TlsKind)), (∀ l, l ∈ xs ↔ l ∈ ys) →
      ∀ sni, (TlsPlan.ofListeners xs : TlsPlan C).select sni =
        (TlsPlan.ofListeners ys : TlsPlan C).select sni) ∧
    ∀ (R : Type) (regs : List TlsRegistration) (port : UInt16) (listener sni : Option Bytes),
      (∀ reg ∈ regs, reg.port = 0 → reg.listenerHostname = none) → port ≠ 0 →
      (tlsRoute (table R regs) sni port listener = none ↔
        ∀ reg ∈ regs, reg.isIn port listener = true → reg.rank sni = none) ∧
      ∀ backends key, tlsRoute (table R regs) sni port listener =
          some (backends, key) →
        ∃ (i : ℕ) (reg : TlsRegistration) (n : ℕ), regs[i]? = some reg ∧
          reg.backends = backends ∧ reg.isIn port listener = true ∧ reg.rank sni = some n ∧
          ∀ (j : ℕ) (reg' : TlsRegistration) (n' : ℕ), regs[j]? = some reg' →
            reg'.isIn port listener = true → reg'.rank sni = some n' → n' < n ∨ n' = n ∧
              (reg.isShared = false ∧ reg'.isShared = true ∨
                reg.isShared = reg'.isShared ∧ i ≤ j) := by
  refine ⟨fun C xs ys hsame sni => TlsPlan.select_ofListeners hsame sni, ?_⟩
  intro R regs port listener sni hshared hport
  have hroute : (tlsRoute (table R regs) sni port listener).map Prod.fst =
      (rankedKinds sni).findSome? fun k => (answer regs port listener k.2).map backends := by
    rw [tlsRoute_eq]
    exact findSome?_congr fun k _ => findSome?_tlsSearch hshared hport listener k.2
  constructor
  · rw [← map_eq_none_iff, hroute, findSome?_eq_none_iff]
    constructor
    · intro hnone reg hreg hin
      by_contra hrank
      obtain ⟨n, hn⟩ := ne_none_iff_exists'.mp hrank
      have hanswer := hnone _ (mem_rankedKinds.mpr hn)
      rw [map_eq_none_iff] at hanswer
      exact answer_ne_none hshared hreg hin hanswer
    · rintro hnone ⟨n, k⟩ hk
      cases hanswer : answer regs port listener k with
      | none => rfl
      | some reg =>
        obtain ⟨hkind, i, hreg, hin, -⟩ := answer_eq_some hshared hport hanswer
        rw [← hkind] at hk
        have hrank := hnone reg (mem_of_getElem? hreg) hin
        rw [mem_rankedKinds.mp hk] at hrank
        cases hrank
  · intro backends key hfound
    rw [hfound] at hroute
    obtain ⟨⟨n, k⟩, hk, hanswer, hfirst⟩ := findSome?_spec (rankedKinds_pairwise sni) hroute.symm
    obtain ⟨reg, hanswer, hbackends⟩ := map_eq_some_iff.mp hanswer
    obtain ⟨hkind, i, hreg, hin, htie⟩ := answer_eq_some hshared hport hanswer
    dsimp only at hkind
    rw [← hkind] at hk
    refine ⟨i, reg, n, hreg, hbackends, hin, mem_rankedKinds.mp hk,
      fun j reg' n' hj hin' hrank => ?_⟩
    by_cases hlt : n' < n
    · exact .inl hlt
    · rcases hfirst (n', hostKind reg'.routeHost) (mem_rankedKinds.mpr hrank) hlt with heq | hnone
      · obtain ⟨rfl, hkind'⟩ := Prod.mk.inj heq
        exact .inr ⟨rfl, htie j reg' hj hin' hkind'⟩
      · rw [map_eq_none_iff] at hnone
        exact absurd hnone (answer_ne_none hshared (mem_of_getElem? hj) hin')

def tlsBackend (n : UInt8) : Backend :=
  ⟨⟨.v4 (.ofOctets 10 0 0 n), 443⟩, 1, [], true, .lit "tls", .forward⟩

/-- A listener's route for one name and a shared one for its domain. -/
def tlsRegistrations : List TlsRegistration :=
  [⟨0, none, bytes "*.x.com", [tlsBackend 1]⟩, ⟨443, none, bytes "a.x.com", [tlsBackend 2]⟩]

theorem tlsRoute_precedence_shared :
    (TlsPlan.ofListeners [(none, .noCert), (none, .terminate)] : TlsPlan Empty).select none =
      (TlsPlan.ofListeners [(none, .terminate), (none, .noCert), (none, .terminate)] :
        TlsPlan Empty).select none ∧
    tlsRoute (table Empty tlsRegistrations) (some (bytes "b.x.com")) 443 none ≠ none := by
  refine ⟨tlsRoute_precedence.1 Empty _ _ (fun l => ?_) none, fun hnone => ?_⟩
  · simp only [mem_cons, not_mem_nil, or_false]
    tauto
  · have hall := ((tlsRoute_precedence.2 Empty tlsRegistrations 443 none (some (bytes "b.x.com"))
      (by decide) (by decide)).1.mp hnone) _ mem_cons_self rfl
    revert hall
    decide

end
end Portail.Proxy
