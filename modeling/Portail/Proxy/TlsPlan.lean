import Portail.Config.Wire
import Portail.Routing.Search

/-!
# Plans of TLS ports

What a TLS port serves (`proxy/tls.rs`): the listener an SNI selects, and the
certificate the port's terminating config answers with. The two are found apart, the
first in a plan of all listeners and the second among the certificates that loaded.
Reading PEM and keys is left to a `CertEnv`.
-/

namespace Portail.Proxy

open Lib Http Routing Config List

section

/-- How a TLS listener serves the connections its SNI selects. -/
inductive TlsKind
  | terminate
  | noCert
  | passthrough
  deriving DecidableEq

/-- Which of two listeners on one hostname takes it. -/
def TlsKind.rank : TlsKind → ℕ
  | passthrough => 0
  | noCert => 1
  | terminate => 2

structure TlsListener where
  kind : TlsKind
  hostname : Option Bytes
  deriving DecidableEq

variable (C : Type)

/-- The certificates of a terminating config, by what the client names. -/
structure SniCertResolver where
  certs : Map Bytes C
  wildcardCerts : Map Bytes C
  byName : Map Bytes C
  fallback : Option C

structure ServerConfig where
  certResolver : SniCertResolver C
  alpnProtocols : List Bytes

structure TlsPlan where
  terminate : Option (ServerConfig C)
  exact : Map Bytes TlsListener
  wildcard : Map Bytes TlsListener
  catchAll : Option TlsListener
  passesThrough : Bool

variable {C}

def SniCertResolver.resolve (r : SniCertResolver C) (sni : Option Bytes) : Option C :=
  match sni with
  | none => r.fallback
  | some sni =>
    let sniLower := lowercase sni
    (r.certs.lookup sniLower).or <|
    ((parentDomains sniLower).findSome? r.wildcardCerts.lookup).or <|
    (r.byName.lookup sniLower).or r.fallback

namespace TlsPlan

def empty : TlsPlan C := ⟨none, ∅, ∅, none, false⟩

def replaces (kind : TlsKind) (held : Option TlsListener) : Bool :=
  held.all fun held => held.kind.rank < kind.rank

def add (plan : TlsPlan C) (hostname : Option Bytes) (kind : TlsKind) : TlsPlan C :=
  let plan := { plan with passesThrough := plan.passesThrough || kind == .passthrough }
  let hostname := hostname.map lowercase
  let listener : TlsListener := ⟨kind, hostname⟩
  match hostname with
  | none => if replaces kind plan.catchAll then { plan with catchAll := some listener } else plan
  | some host =>
    match stripStar host with
    | some parent =>
      if replaces kind (plan.wildcard.lookup parent) then
        { plan with wildcard := plan.wildcard.insert parent listener }
      else plan
    | none =>
      if replaces kind (plan.exact.lookup host) then
        { plan with exact := plan.exact.insert host listener }
      else plan

/-- The listener an SNI in lowercase selects. -/
def select (plan : TlsPlan C) (sni : Option Bytes) : Option TlsListener :=
  match sni with
  | none => plan.catchAll
  | some sni =>
    (plan.exact.lookup sni).or <|
    ((parentDomains sni).findSome? plan.wildcard.lookup).or plan.catchAll

def serves (plan : TlsPlan C) : Bool := plan.terminate.isSome || plan.passesThrough

end TlsPlan

variable (C) in
/-- What becomes of a connection on a TLS port: closed, forwarded as it is under the listener's
hostname, or a handshake with the certificate the resolver answers. -/
inductive TlsOutcome
  | refused
  | forwarded (hostname : Option Bytes)
  | handshake (cert : Option C)
  deriving DecidableEq

/-- `serve_tls_connection`, from the ClientHello's SNI on. -/
def TlsPlan.serveTlsConnection (plan : TlsPlan C) (sni : Option Bytes) : TlsOutcome C :=
  match plan.select (sni.map lowercase) with
  | none => .refused
  | some listener =>
    match listener.kind with
    | .passthrough => .forwarded listener.hostname
    | .noCert => .refused
    | .terminate =>
      match plan.terminate with
      | some config => .handshake (config.certResolver.resolve sni)
      | none => .refused

end

section

/-- The parts outside the proxy: parsed PEM pairs `P` become certified keys `C`. -/
structure CertEnv (P C : Type) where
  parsePemCertAndKey : Bytes → Bytes → Option P
  buildCertifiedKey : P → Option C
  /-- The files of the certificate directory. -/
  read : Bytes → Option Bytes

variable {P C : Type}

/-- A pair in memory is preferred to the files. -/
def loadCertAndKey (env : CertEnv P C) (certRef : CertificateRef) : Option P :=
  match certRef.certPem, certRef.keyPem with
  | some certPem, some keyPem => env.parsePemCertAndKey certPem keyPem
  | _, _ => do
    let certPem ← env.read (certRef.name.octets ++ bytes ".crt")
    let keyPem ← env.read (certRef.name.octets ++ bytes ".key")
    env.parsePemCertAndKey certPem keyPem

def loadCertifiedKey (env : CertEnv P C) (certRef : CertificateRef) : Option C :=
  (loadCertAndKey env certRef).bind env.buildCertifiedKey

/-- The Secret and the listener hostname it serves. -/
abbrev CertKey := Option Str × Str × Option Str

def certKey (certRef : CertificateRef) : CertKey := (certRef.ns, certRef.name, certRef.hostname)

/-- The accumulators of `build_terminating`. -/
structure LoadedCerts (C : Type) where
  resolver : SniCertResolver C
  loaded : Finset CertKey

namespace LoadedCerts

def empty : LoadedCerts C := ⟨⟨∅, ∅, ∅, none⟩, ∅⟩

def insertCert (resolver : SniCertResolver C) (certRef : CertificateRef) (key : C) :
    SniCertResolver C :=
  match certRef.hostname with
  | some hostname =>
    let sniName := lowercase hostname.octets
    match stripStar sniName with
    | some stripped => { resolver with wildcardCerts := resolver.wildcardCerts.insert stripped key }
    | none => { resolver with certs := resolver.certs.insert sniName key }
  | none =>
    { resolver with
      fallback := some key
      byName := resolver.byName.insert (lowercase certRef.name.octets) key }

/-- A ref that does not load is skipped. -/
def push (env : CertEnv P C) (acc : LoadedCerts C) (certRef : CertificateRef) : LoadedCerts C :=
  match loadCertifiedKey env certRef with
  | none => acc
  | some key => ⟨insertCert acc.resolver certRef key, insert (certKey certRef) acc.loaded⟩

end LoadedCerts

def buildTerminating (env : CertEnv P C) (certRefs : List CertificateRef) (http2 : Bool) :
    Result (ServerConfig C × Finset CertKey) :=
  if certRefs.isEmpty then
    .error [.text "TLS Terminate mode requires at least one certificateRef"]
  else
    let ⟨resolver, loaded⟩ := certRefs.foldl (LoadedCerts.push env) .empty
    if resolver.fallback.isNone && resolver.certs.keys.isEmpty &&
        resolver.wildcardCerts.keys.isEmpty then
      .error [.text "No valid certificates could be loaded from ", .num certRefs.length,
        .text " ref(s)"]
    else
      .ok (⟨resolver, if http2 then [bytes "h2", bytes "http/1.1"] else [bytes "http/1.1"]⟩, loaded)

end

section

variable {C : Type}

/-- A listener hostname as plans and resolvers compare it. -/
def nameOf (hostname : Option Str) : Option Bytes := hostname.map fun h => lowercase h.octets

/-- Where a listener hostname stands in a plan or a resolver. -/
def nameKind : Option Bytes → HostKind
  | none => .catchAll
  | some h =>
    match stripStar h with
    | some parent => .wildcard parent
    | none => .exact h

theorem nameKind_inj {a b : Option Bytes} (h : nameKind a = nameKind b) : a = b := by
  have hsome (x : Bytes) : nameKind (some x) ≠ .catchAll := by
    cases hx : stripStar x <;> simp [nameKind, hx]
  cases a with
  | none =>
    cases b with
    | none => rfl
    | some y => exact absurd h.symm (hsome y)
  | some x =>
    cases b with
    | none => exact absurd h (hsome x)
    | some y =>
      cases hx : stripStar x <;> cases hy : stripStar y <;>
        simp only [nameKind, hx, hy, HostKind.exact.injEq, HostKind.wildcard.injEq,
          reduceCtorEq] at h
      · rw [h]
      · rw [stripStar_eq_some.mp hx, stripStar_eq_some.mp hy, h]

/-- The specificity of a listener hostname is that of its kind. -/
theorem listenerSpecificity_eq (lh : Option Bytes) (host : Bytes) :
    listenerSpecificity lh host = (nameKind lh).specificity host := by
  cases lh with
  | none => rfl
  | some h =>
    cases hs : stripStar h <;>
      simp [listenerSpecificity, patternSpecificity, nameKind, HostKind.specificity, hs]

def TlsPlan.at (plan : TlsPlan C) : HostKind → Option TlsListener
  | .exact host => plan.exact.lookup host
  | .wildcard parent => plan.wildcard.lookup parent
  | .catchAll => plan.catchAll

def SniCertResolver.at (r : SniCertResolver C) : HostKind → Option C
  | .exact host => r.certs.lookup host
  | .wildcard parent => r.wildcardCerts.lookup parent
  | .catchAll => r.fallback

theorem lookup_insert_eq {V : Type} (m : Map Bytes V) (key k : Bytes) (v : V) :
    (m.insert key v).lookup k = if key = k then some v else m.lookup k := by
  split_ifs with h
  · subst h
    exact AList.lookup_insert m
  · exact AList.lookup_insert_ne (Ne.symm h)

theorem TlsPlan.at_add (plan : TlsPlan C) (hostname : Option Bytes) (kind : TlsKind)
    (k : HostKind) :
    (plan.add hostname kind).at k =
      if nameKind (hostname.map lowercase) = k ∧ replaces kind (plan.at k) = true then
        some ⟨kind, hostname.map lowercase⟩
      else plan.at k := by
  unfold TlsPlan.add
  generalize hostname.map lowercase = name
  cases name with
  | none =>
    simp only
    cases k <;> by_cases hr : replaces kind plan.catchAll = true <;> simp [TlsPlan.at, nameKind, hr]
  | some host =>
    cases hs : stripStar host with simp only [hs, nameKind]
    | none =>
      by_cases hr : replaces kind (plan.exact.lookup host) = true <;> cases k <;>
        simp only [hr, TlsPlan.at, reduceCtorEq, false_and, if_false, if_true, HostKind.exact.injEq,
          lookup_insert_eq, Bool.false_eq_true]
      all_goals grind
    | some parent =>
      by_cases hr : replaces kind (plan.wildcard.lookup parent) = true <;> cases k <;>
        simp only [hr, TlsPlan.at, reduceCtorEq, false_and, if_false, if_true,
          HostKind.wildcard.injEq, lookup_insert_eq, Bool.false_eq_true]
      all_goals grind

theorem LoadedCerts.at_insertCert (r : SniCertResolver C) (certRef : CertificateRef) (key : C)
    (k : HostKind) :
    (insertCert r certRef key).at k =
      if nameKind (nameOf certRef.hostname) = k then some key else r.at k := by
  unfold insertCert nameOf
  cases certRef.hostname with
  | none => cases k <;> simp [SniCertResolver.at, nameKind]
  | some hostname =>
    cases hs : stripStar (lowercase hostname.octets) <;> cases k <;>
      simp [SniCertResolver.at, nameKind, hs, lookup_insert_eq]

theorem LoadedCerts.byName_insertCert (r : SniCertResolver C) (certRef : CertificateRef) (key : C)
    (name : Bytes) :
    (insertCert r certRef key).byName.lookup name =
      if certRef.hostname = none ∧ lowercase certRef.name.octets = name then some key
      else r.byName.lookup name := by
  unfold insertCert
  cases certRef.hostname with
  | none => simp [lookup_insert_eq]
  | some hostname => cases hs : stripStar (lowercase hostname.octets) <;> simp [hs]

/-- The kinds of hostname a host selects, but for the catch-all. -/
def namedKinds (host : Bytes) : List HostKind :=
  .exact host :: (parentDomains host).map HostKind.wildcard

theorem findSome?_namedKinds {β : Type} (f : HostKind → Option β) (host : Bytes) :
    (namedKinds host).findSome? f =
      (f (.exact host)).or ((parentDomains host).findSome? fun d => f (.wildcard d)) := by
  rw [namedKinds, findSome?_cons, findSome?_map]
  cases f (.exact host) <;> rfl

theorem TlsPlan.select_eq (plan : TlsPlan C) (sni : Bytes) :
    plan.select (some sni) = ((namedKinds sni).findSome? plan.at).or (plan.at .catchAll) := by
  rw [findSome?_namedKinds, Option.or_assoc]
  rfl

theorem SniCertResolver.resolve_eq (r : SniCertResolver C) (sni : Bytes) :
    r.resolve (some sni) = ((namedKinds (lowercase sni)).findSome? r.at).or
      ((r.byName.lookup (lowercase sni)).or (r.at .catchAll)) := by
  rw [findSome?_namedKinds, Option.or_assoc]
  rfl

end

section

variable {P C : Type} (env : CertEnv P C)

/-- What a resolver answers comes from refs that loaded, and every ref that loaded has an
answer. -/
structure LoadedCerts.Holds (refs : List CertificateRef) (acc : LoadedCerts C) : Prop where
  at_mem {k : HostKind} {c : C} : acc.resolver.at k = some c →
    ∃ r ∈ refs, nameKind (nameOf r.hostname) = k ∧ loadCertifiedKey env r = some c
  byName_mem {name : Bytes} {c : C} : acc.resolver.byName.lookup name = some c →
    ∃ r ∈ refs, r.hostname = none ∧ loadCertifiedKey env r = some c
  loaded_at {key : CertKey} : key ∈ acc.loaded →
    ∃ r ∈ refs, certKey r = key ∧ (acc.resolver.at (nameKind (nameOf r.hostname))).isSome

variable {env} {refs : List CertificateRef} {acc : LoadedCerts C}

theorem LoadedCerts.Holds.push
    (h : acc.Holds env refs) (r : CertificateRef) : (acc.push env r).Holds env (refs ++ [r]) := by
  have mono {p : CertificateRef → Prop} (hp : ∃ x ∈ refs, p x) : ∃ x ∈ refs ++ [r], p x := by
    obtain ⟨x, hx, hpx⟩ := hp
    exact ⟨x, mem_append_left _ hx, hpx⟩
  unfold LoadedCerts.push
  cases hload : loadCertifiedKey env r with
  | none =>
    exact ⟨fun hk => mono (h.at_mem hk), fun hn => mono (h.byName_mem hn),
      fun hk => mono (h.loaded_at hk)⟩
  | some key =>
    constructor
    · intro k c hk
      rw [at_insertCert] at hk
      split_ifs at hk with hr
      · cases hk
        exact ⟨r, by simp, hr, hload⟩
      · exact mono (h.at_mem hk)
    · intro name c hn
      rw [byName_insertCert] at hn
      split_ifs at hn with hr
      · cases hn
        exact ⟨r, by simp, hr.1, hload⟩
      · exact mono (h.byName_mem hn)
    · intro ck hck
      rcases Finset.mem_insert.mp hck with rfl | hck
      · exact ⟨r, by simp, rfl, by simp [at_insertCert]⟩
      · obtain ⟨x, hx, hxk, hat⟩ := h.loaded_at hck
        refine ⟨x, mem_append_left _ hx, hxk, ?_⟩
        rw [at_insertCert]
        split_ifs
        · rfl
        · exact hat

theorem LoadedCerts.Holds.foldl {done : List CertificateRef}
    (h : acc.Holds env done) (refs : List CertificateRef) :
    (refs.foldl (LoadedCerts.push env) acc).Holds env (done ++ refs) := by
  induction refs generalizing done acc with
  | nil => simpa using h
  | cons r refs ih => simpa using ih (h.push r)

theorem buildTerminating_holds {http2 : Bool} {config : ServerConfig C} {loaded : Finset CertKey}
    (h : buildTerminating env refs http2 = .ok (config, loaded)) :
    LoadedCerts.Holds env refs ⟨config.certResolver, loaded⟩ := by
  have hempty : (LoadedCerts.empty : LoadedCerts C).Holds env [] := by
    constructor
    · intro k c hk
      cases k <;> simp [LoadedCerts.empty, SniCertResolver.at] at hk
    · intro name c hn
      simp [LoadedCerts.empty] at hn
    · intro key hkey
      simp [LoadedCerts.empty] at hkey
  have hrun := hempty.foldl refs
  unfold buildTerminating at h
  generalize refs.foldl (LoadedCerts.push env) .empty = acc at h hrun
  obtain ⟨resolver, keys⟩ := acc
  simp only at h
  split_ifs at h
  all_goals
    obtain ⟨rfl, rfl⟩ := Prod.mk.inj (Except.ok.inj h)
    exact hrun

end
end Portail.Proxy
