import Portail.Lib.Stable
import Portail.Proxy.PlanPorts

/-!
# The certificate a connection is answered with

A plan selects a listener by the SNI, the terminating config a certificate. They agree
when the config in place is for the refs of the list. A pass that takes an unchanged
fingerprint for unchanged refs does not ensure that: the fingerprint runs the texts of a
ref together, so that refs of other listeners may have it too.
-/

namespace Portail.Proxy

open Lib Http Routing Config List
open Option hiding any any_eq_true

variable {P C : Type} {listeners : List ListenerConfig} {refs : List CertificateRef}
  {passes : List (List ListenerConfig)}

/-- The terminating configs after passes over listener lists. -/
def builtAfter (env : CertEnv P C) (http2 : Bool) (passes : List (List ListenerConfig)) :
    BuiltConfigs C :=
  passes.foldl (fun built listeners => (planPorts env http2 listeners built).built) fun _ => none

/-- A certificate loaded for a ref in one of the passes, from the PEM its Secret then had. -/
def LoadedFor (env : CertEnv P C) (passes : List (List ListenerConfig)) (port : UInt16)
    (r : CertificateRef) (c : C) : Prop :=
  ∃ listeners ∈ passes, ∃ refs, mergeCertRefsByPort listeners port = some refs ∧
    ∃ r₀ ∈ refs, certKey r₀ = certKey r ∧ loadCertifiedKey env r₀ = some c

/-- Where a terminating listener is selected, the handshake answers with a certificate loaded
for an HTTPS listener of the port with its hostname. -/
def AnswersOwnCert (env : CertEnv P C) (passes : List (List ListenerConfig))
    (listeners : List ListenerConfig) (port : UInt16) (plan : TlsPlan C) (sni : Option Bytes) :
    Prop :=
  ∀ held, plan.select (sni.map lowercase) = some held → held.kind = .terminate →
    ∃ c l r, plan.serveTlsConnection sni = .handshake (some c) ∧ HttpsOn listeners port l ∧
      nameOf l.hostname = held.hostname ∧ r ∈ certificateRefs l ∧
      LoadedFor env (passes ++ [listeners]) port r c

/-- The HTTPS and passthrough listeners of a port. -/
def TlsOn (listeners : List ListenerConfig) (port : UInt16) (l : ListenerConfig) : Prop :=
  l ∈ listeners ∧ l.port = port ∧ (l.protocol = .https ∨ l.isTlsPassthrough = true)

/-- No TLS listener of the port is more specific for the SNI; without one, only a listener
without hostname takes the connection. -/
def MostSpecificTls (listeners : List ListenerConfig) (port : UInt16) (l : ListenerConfig) :
    Option Bytes → Prop
  | none => TlsOn listeners port l ∧ l.hostname = none
  | some sni => TlsOn listeners port l ∧
      ∃ n, listenerSpecificity (nameOf l.hostname) (lowercase sni) = some n ∧
        ∀ l', TlsOn listeners port l' → ∀ m,
          listenerSpecificity (nameOf l'.hostname) (lowercase sni) = some m → m ≤ n

/-- Where no HTTPS listener of the most specific hostname has a certificate in the config, the
connection is refused. -/
def RefusesWithoutCert (listeners : List ListenerConfig) (port : UInt16)
    (built : Option (BuiltConfig C)) (plan : TlsPlan C) (sni : Option Bytes) : Prop :=
  ∀ l, MostSpecificTls listeners port l sni → l.protocol = .https →
    (∀ l', HttpsOn listeners port l' → nameOf l'.hostname = nameOf l.hostname →
      built.any (·.hasCertOf l') = false) →
    plan.serveTlsConnection sni = .refused

/-- A config kept because of its fingerprint is for the refs of the list. -/
def SoundReuse (built : BuiltConfigs C) (listeners : List ListenerConfig) : Prop :=
  ∀ port b refs, built port = some b → mergeCertRefsByPort listeners port = some refs →
    b.fingerprint = computeCertFingerprint refs → b.refs = certKeys refs

section

variable {env : CertEnv P C} {http2 : Bool}

def BuiltConfig.From (env : CertEnv P C) (b : BuiltConfig C) (refs : List CertificateRef) : Prop :=
  b.refs = certKeys refs ∧ LoadedCerts.Holds env refs ⟨b.config.certResolver, b.loaded⟩

/-- What a successful rebuild of refs makes. -/
structure BuiltConfig.Made (env : CertEnv P C) (http2 : Bool) (b : BuiltConfig C)
    (refs : List CertificateRef) : Prop where
  fingerprint : b.fingerprint = computeCertFingerprint refs
  keys : b.refs = certKeys refs
  config : buildTerminating env refs http2 = .ok (b.config, b.loaded)

variable {b : BuiltConfig C} {port : UInt16} {built : BuiltConfigs C}

theorem BuiltConfig.Made.from (h : b.Made env http2 refs) :
    b.From env refs := ⟨h.keys, buildTerminating_holds h.config⟩

/-- A pass keeps the config, for the fingerprint or for the refs, or builds one from the refs. -/
theorem rebuild_eq_some {built : Option (BuiltConfig C)}
    (h : (rebuild env http2 refs built).1 = some b) :
    built = some b ∧ (b.fingerprint = computeCertFingerprint refs ∨ b.refs = certKeys refs) ∨
      b.Made env http2 refs := by
  have kept {p : BuiltConfig C → Bool} (hany : built.any p = true) (hb : built = some b) :
      p b = true := by simpa [hb] using hany
  unfold rebuild at h
  simp only at h
  cases hbuild : buildTerminating env refs http2 with simp only [hbuild] at h
  | ok result =>
    split_ifs at h with hempty hfingerprint
    · exact .inl ⟨h, .inl (by simpa using kept hfingerprint h)⟩
    · cases h
      exact .inr ⟨rfl, rfl, hbuild⟩
  | error e =>
    split_ifs at h with hempty hfingerprint hrefs
    · exact .inl ⟨h, .inl (by simpa using kept hfingerprint h)⟩
    · exact .inl ⟨h, .inr (by simpa using kept hrefs h)⟩

theorem planPorts_built (h : (planPorts env http2 listeners built).built port = some b) :
    ∃ refs, mergeCertRefsByPort listeners port = some refs ∧
      (built port = some b ∧
        (b.fingerprint = computeCertFingerprint refs ∨ b.refs = certKeys refs) ∨
        b.Made env http2 refs) := by
  simp only [planPorts] at h
  cases hrefs : mergeCertRefsByPort listeners port with
  | none => simp [hrefs] at h
  | some refs =>
    rw [hrefs] at h
    exact ⟨refs, rfl, rebuild_eq_some h⟩

/-- Every config in place was built from the refs of one of the passes. -/
theorem builtAfter_made (h : builtAfter env http2 passes port = some b) :
    ∃ listeners ∈ passes, ∃ refs, mergeCertRefsByPort listeners port = some refs ∧
      b.Made env http2 refs := by
  induction passes using List.reverseRecOn generalizing b with
  | nil => simp [builtAfter] at h
  | append_singleton passes listeners ih =>
    rw [builtAfter, foldl_append, foldl_cons, foldl_nil] at h
    obtain ⟨refs, hrefs, ⟨hkept, -⟩ | hnew⟩ := planPorts_built h
    · obtain ⟨ls, hls, hmade⟩ := ih hkept
      exact ⟨ls, mem_append_left _ hls, hmade⟩
    · exact ⟨listeners, by simp, refs, hrefs, hnew⟩

theorem builtAfter_append (passes : List (List ListenerConfig)) (listeners : List ListenerConfig) :
    builtAfter env http2 (passes ++ [listeners]) =
      (planPorts env http2 listeners (builtAfter env http2 passes)).built := by
  rw [builtAfter, foldl_append, foldl_cons, foldl_nil, ← builtAfter]

theorem refs_of_soundReuse (hreuse : SoundReuse built listeners)
    (h : (planPorts env http2 listeners built).built port = some b) :
    ∃ refs, mergeCertRefsByPort listeners port = some refs ∧ b.refs = certKeys refs := by
  obtain ⟨refs, hrefs, ⟨hkept, hfingerprint | hkeys⟩ | hnew⟩ := planPorts_built h
  · exact ⟨refs, hrefs, hreuse port b refs hkept hrefs hfingerprint⟩
  · exact ⟨refs, hrefs, hkeys⟩
  · exact ⟨refs, hrefs, hnew.keys⟩

end

section

variable {env : CertEnv P C} {http2 : Bool} {built : BuiltConfigs C}
  {port : UInt16} {l : ListenerConfig} {plan : TlsPlan C} {held : TlsListener} {sni : Option Bytes}
  {plans : Plans C}

theorem planKind_https (h : l.protocol = .https) :
    planKind built l =
      some (some (if (built l.port).any (·.hasCertOf l) then .terminate else .noCert)) := by
  simp [planKind, h]

theorem https_of_planKind {kind : TlsKind} (h : planKind built l = some (some kind))
    (hkind : kind ≠ .passthrough) : l.protocol = .https := by
  unfold planKind at h
  split at h
  case h_5 =>
    split_ifs at h
    simp only [Option.some.injEq] at h
    exact absurd h.symm hkind
  all_goals simp_all

theorem exists_of_hasCertOf {b : BuiltConfig C} (h : b.hasCertOf l = true) :
    ∃ r ∈ certificateRefs l, certKey r ∈ b.loaded := by
  unfold BuiltConfig.hasCertOf at h
  cases htls : l.tls with
  | none => simp [htls] at h
  | some t =>
    simp only [htls, Option.any_some, any_eq_true, decide_eq_true_eq] at h
    simpa [certificateRefs, htls] using h

theorem nameOf_eq_of_certKey {r r' : CertificateRef} (h : certKey r = certKey r') :
    nameOf r.hostname = nameOf r'.hostname := by
  have hhost : r.hostname = r'.hostname := congrArg (fun key => key.2.2) h
  rw [hhost]

theorem mem_certKeys {key : CertKey} : key ∈ certKeys refs ↔ ∃ r ∈ refs, certKey r = key := by
  simp [certKeys]

/-- The two searches agree when the resolver has nothing where the plan has nothing, and has
something where the plan's answer stands. -/
theorem resolve_of_select {resolver : SniCertResolver C}
    (hnone : ∀ k, plan.at k = none → resolver.at k = none)
    (hsome : ∀ k, plan.at k = some held → (resolver.at k).isSome)
    (hselect : plan.select (sni.map lowercase) = some held) :
    ∃ c, resolver.resolve sni = some c ∧
      ((∃ k, plan.at k = some held ∧ resolver.at k = some c) ∨
        plan.at .catchAll = some held ∧ ∃ name, resolver.byName.lookup name = some c) := by
  cases sni with
  | none =>
    obtain ⟨c, hc⟩ := isSome_iff_exists.mp (hsome .catchAll hselect)
    exact ⟨c, hc, .inl ⟨.catchAll, hselect, hc⟩⟩
  | some sni =>
    rw [map_some, TlsPlan.select_eq] at hselect
    rw [SniCertResolver.resolve_eq]
    cases hnamed : (namedKinds (lowercase sni)).findSome? plan.at with
    | some x =>
      obtain rfl : x = held := by simpa [hnamed] using hselect
      obtain ⟨k, -, hk, hagree⟩ := findSome?_agree (fun k _ => hnone k) hnamed
      obtain ⟨c, hc⟩ := isSome_iff_exists.mp (hsome k hk)
      refine ⟨c, ?_, .inl ⟨k, hk, hc⟩⟩
      rw [hagree (hsome k hk), hc, some_or]
    | none =>
      -- the catch-all's, by the name of its Secret or the one that loaded last
      rw [hnamed, none_or] at hselect
      have hnothing : (namedKinds (lowercase sni)).findSome? resolver.at = none :=
        findSome?_eq_none_iff.mpr fun k hk =>
          hnone k (findSome?_eq_none_iff.mp hnamed k hk)
      obtain ⟨c, hc⟩ := isSome_iff_exists.mp (hsome .catchAll hselect)
      rw [hnothing, none_or, hc]
      cases hname : resolver.byName.lookup (lowercase sni) with
      | some d => exact ⟨d, rfl, .inr ⟨hselect, _, hname⟩⟩
      | none => exact ⟨c, rfl, .inl ⟨.catchAll, hselect, hc⟩⟩

/-- Every ref the config was built from is, up to its PEM, one of an HTTPS listener. -/
theorem listener_of_source {src : List CertificateRef}
    (hcarried : ∀ l ∈ listeners, ∀ r ∈ certificateRefs l, r.hostname = l.hostname)
    (hrefs : mergeCertRefsByPort listeners port = some refs) (hkeys : certKeys src = certKeys refs)
    {r₀ : CertificateRef} (hr₀ : r₀ ∈ src) :
    ∃ l r, HttpsOn listeners port l ∧ r ∈ certificateRefs l ∧ certKey r₀ = certKey r ∧
      nameOf l.hostname = nameOf r₀.hostname := by
  obtain ⟨r, hr, hkey⟩ : ∃ r ∈ refs, certKey r = certKey r₀ :=
    mem_certKeys.mp (hkeys ▸ mem_certKeys.mpr ⟨r₀, hr₀, rfl⟩)
  obtain ⟨l, hl, hlr⟩ := mem_mergeCertRefs hrefs hr
  refine ⟨l, r, hl, hlr, hkey.symm, ?_⟩
  rw [← hcarried l hl.1 r hlr]
  exact nameOf_eq_of_certKey hkey

theorem plan_at (h : plans port = some (some plan)) (k : HostKind) :
    plans.at port k = plan.at k := by
  simp [Plans.at, h]

/-- What a plan terminates has a certificate in the port's config. -/
theorem terminating_listener {k : HostKind} (hholds : plans.Holds built listeners)
    (hplan : plans port = some (some plan)) (hat : plan.at k = some held)
    (hkind : held.kind = .terminate) :
    ∃ l b, HttpsOn listeners port l ∧ built port = some b ∧ b.hasCertOf l = true ∧
      nameOf l.hostname = held.hostname ∧ nameKind held.hostname = k := by
  obtain ⟨l, hl, rfl, hlkind, hname, hheld⟩ := hholds.mem ((plan_at hplan k).trans hat)
  have hhttps := https_of_planKind hlkind (by rw [hkind]; decide)
  rw [planKind_https hhttps, hkind] at hlkind
  cases hb : built l.port with
  | none => simp [hb] at hlkind
  | some b =>
    have hcert : b.hasCertOf l = true := by
      by_contra hno
      simp [hb, hno] at hlkind
    exact ⟨l, b, ⟨hl, hhttps, rfl⟩, rfl, hcert, hname, hheld⟩

theorem exists_at_of_select (h : plan.select sni = some held) : ∃ k, plan.at k = some held := by
  cases sni with
  | none => exact ⟨.catchAll, h⟩
  | some sni =>
    rw [TlsPlan.select_eq, or_eq_some_iff] at h
    rcases h with h | ⟨-, h⟩
    · obtain ⟨k, -, hk⟩ := exists_of_findSome?_eq_some h
      exact ⟨k, hk⟩
    · exact ⟨.catchAll, h⟩

theorem answersOwnCert (passes : List (List ListenerConfig))
    (hcarried : ∀ l ∈ listeners, ∀ r ∈ certificateRefs l, r.hostname = l.hostname)
    (hreuse : SoundReuse (builtAfter env http2 passes) listeners)
    (hplan : (planPorts env http2 listeners (builtAfter env http2 passes)).plans port =
      some (some plan)) (sni : Option Bytes) :
    AnswersOwnCert env passes listeners port plan sni := by
  intro held hselect hkind
  have hholds := planPorts_holds env http2 listeners (builtAfter env http2 passes)
  have hterminate := planPorts_terminate hplan
  -- the port has a config, since the listener found its certificate in it
  obtain ⟨k₀, hk₀⟩ := exists_at_of_select hselect
  obtain ⟨_, b, -, hb, -⟩ := terminating_listener hholds hplan hk₀ hkind
  obtain ⟨refs, hrefs, hbrefs⟩ := refs_of_soundReuse hreuse hb
  obtain ⟨ls, hls, src, hsrc, hmade⟩ :=
    builtAfter_made ((congrFun (builtAfter_append passes listeners) port).trans hb)
  have hfrom := hmade.from
  have hkeys : certKeys src = certKeys refs := hfrom.1.symm.trans hbrefs
  have hnone (k : HostKind) (hk : plan.at k = none) : b.config.certResolver.at k = none := by
    by_contra hne
    obtain ⟨c, hc⟩ := ne_none_iff_exists'.mp hne
    obtain ⟨r₀, hr₀, rfl, -⟩ := hfrom.2.at_mem hc
    obtain ⟨l, r, hl, -, -, hname⟩ := listener_of_source hcarried hrefs hkeys hr₀
    obtain ⟨x, hx, -⟩ := hholds.rank hl.1 (planKind_https hl.2.1)
    rw [hl.2.2, plan_at hplan, hname, hk] at hx
    cases hx
  have hsome (k : HostKind) (hk : plan.at k = some held) :
      (b.config.certResolver.at k).isSome := by
    obtain ⟨l, b', hl, hb', hcert, hname, rfl⟩ := terminating_listener hholds hplan hk hkind
    obtain rfl : b = b' := some.inj (hb.symm.trans hb')
    obtain ⟨r, hr, hloaded⟩ := exists_of_hasCertOf hcert
    obtain ⟨r₀, -, hkey, hat⟩ := hfrom.2.loaded_at hloaded
    rwa [nameOf_eq_of_certKey hkey, hcarried l hl.1 r hr, hname] at hat
  obtain ⟨c, hresolve, hanswer⟩ := resolve_of_select hnone hsome hselect
  have hserve : plan.serveTlsConnection sni = .handshake (some c) := by
    simp [TlsPlan.serveTlsConnection, hselect, hkind, hterminate, hb, hresolve]
  -- the answer was loaded for a ref of the selected hostname
  obtain ⟨r₀, hr₀, hload, hname₀⟩ : ∃ r₀ ∈ src, loadCertifiedKey env r₀ = some c ∧
      nameOf r₀.hostname = held.hostname := by
    rcases hanswer with ⟨k, hk, hc⟩ | ⟨hk, name, hc⟩
    · obtain ⟨r₀, hr₀, hkind₀, hload⟩ := hfrom.2.at_mem hc
      obtain ⟨l, hl, -, -, -, hheld⟩ := hholds.mem ((plan_at hplan k).trans hk)
      exact ⟨r₀, hr₀, hload, nameKind_inj (hkind₀.trans hheld.symm)⟩
    · obtain ⟨r₀, hr₀, hnohost, hload⟩ := hfrom.2.byName_mem hc
      obtain ⟨l, hl, -, -, -, hheld⟩ := hholds.mem ((plan_at hplan .catchAll).trans hk)
      refine ⟨r₀, hr₀, hload, nameKind_inj (Eq.trans ?_ hheld.symm)⟩
      rw [hnohost]
      rfl
  obtain ⟨l, r, hl, hr, hkey, hname⟩ := listener_of_source hcarried hrefs hkeys hr₀
  exact ⟨c, l, r, hserve, hl, hname.trans hname₀, hr, ls, hls, src, hsrc, r₀, hr₀, hkey, hload⟩

theorem select_hostKinds (plan : TlsPlan C) (sni : Bytes) :
    plan.select (some sni) = (hostKinds sni).findSome? fun nk => plan.at nk.2 := by
  rw [TlsPlan.select_eq, hostKinds, namedKinds, findSome?_append, findSome?_cons,
    findSome?_cons, findSome?_map, findSome?_map, findSome?_singleton]
  rfl

theorem select_of_mostSpecific {sni : Bytes} {k : HostKind} {n : ℕ}
    (hk : k.specificity sni = some n) (hat : (plan.at k).isSome)
    (hmost : ∀ k' m, k'.specificity sni = some m → (plan.at k').isSome → m ≤ n) :
    plan.select (some sni) = plan.at k := by
  rw [select_hostKinds]
  have hmem := mem_hostKinds.mpr hk
  cases hfind : (hostKinds sni).findSome? fun nk => plan.at nk.2 with
  | none =>
    rw [findSome?_eq_none_iff.mp hfind _ hmem] at hat
    cases hat
  | some held =>
    obtain ⟨⟨n', k'⟩, hmem', hk', hfirst⟩ := findSome?_spec (hostKinds_pairwise sni) hfind
    have hle : n' ≤ n := hmost k' n' (mem_hostKinds.mp hmem') (by simp [hk'])
    rcases hfirst _ hmem hle.not_gt with heq | hnone
    · obtain ⟨rfl, rfl⟩ := Prod.mk.inj heq
      exact hk'.symm
    · rw [hnone] at hat
      cases hat

theorem tlsOn_of_planKind {kind : TlsKind} (hl : l ∈ listeners)
    (h : planKind built l = some (some kind)) : TlsOn listeners l.port l := by
  by_cases hkind : kind = .passthrough
  · refine ⟨hl, rfl, ?_⟩
    unfold planKind at h
    split at h <;> simp_all
  · exact ⟨hl, rfl, .inl (https_of_planKind h hkind)⟩

theorem refusesWithoutCert (hplan : (planPorts env http2 listeners built).plans port =
      some (some plan)) (sni : Option Bytes) :
    RefusesWithoutCert listeners port ((planPorts env http2 listeners built).built port) plan
      sni := by
  intro l hmost hhttps hcerts
  have hholds := planPorts_holds env http2 listeners built
  have hl : HttpsOn listeners port l := by
    cases sni <;> exact ⟨hmost.1.1, hhttps, hmost.1.2.1⟩
  have hkind : planKind (planPorts env http2 listeners built).built l = some (some .noCert) := by
    rw [planKind_https hhttps, hl.2.2, hcerts l hl rfl]
    rfl
  obtain ⟨held, hheld, hrank⟩ := hholds.rank hl.1 hkind
  rw [hl.2.2, plan_at hplan] at hheld
  have hselect : plan.select (sni.map lowercase) = some held := by
    cases sni with
    | none =>
      rw [hmost.2] at hheld
      exact hheld
    | some sni =>
      obtain ⟨-, n, hn, hle⟩ := hmost
      rw [listenerSpecificity_eq] at hn
      rw [map_some, select_of_mostSpecific hn (by simp [hheld]) ?_, hheld]
      intro k' m hm hsome
      obtain ⟨x, hx⟩ := isSome_iff_exists.mp hsome
      obtain ⟨l', hl', rfl, hkind', hname', rfl⟩ := hholds.mem ((plan_at hplan k').trans hx)
      refine hle l' (tlsOn_of_planKind hl' hkind') m ?_
      rw [listenerSpecificity_eq, hname', hm]
  unfold TlsPlan.serveTlsConnection
  rw [hselect]
  cases hk : held.kind with
  | noCert => simp [hk]
  | passthrough => simp [hk, TlsKind.rank] at hrank
  | terminate =>
    obtain ⟨l', b, hl', hb, hcert, hname, hsame⟩ := terminating_listener hholds hplan hheld hk
    have := hcerts l' hl' (hname.trans (nameKind_inj hsame))
    simp [hb, hcert] at this

/-- After any passes, and where the last one reuses a config only for its own refs: a terminating
listener's connections are answered with a certificate of its hostname, and those of a hostname
without a certificate are refused. -/
theorem own_cert_or_refused (env : CertEnv P C) (http2 : Bool)
    (passes : List (List ListenerConfig)) (listeners : List ListenerConfig)
    (hcarried : ∀ l ∈ listeners, ∀ r ∈ certificateRefs l, r.hostname = l.hostname)
    (hreuse : SoundReuse (builtAfter env http2 passes) listeners) (port : UInt16)
    (plan : TlsPlan C) (hplan : (planPorts env http2 listeners
      (builtAfter env http2 passes)).plans port = some (some plan)) (sni : Option Bytes) :
    AnswersOwnCert env passes listeners port plan sni ∧
      RefusesWithoutCert listeners port
        ((planPorts env http2 listeners (builtAfter env http2 passes)).built port) plan sni :=
  ⟨answersOwnCert passes hcarried hreuse hplan sni, refusesWithoutCert hplan sni⟩

end

/-- PEM that is its own certificate. -/
def textEnv : CertEnv Bytes Bytes := ⟨fun certPem _ => some certPem, some, fun _ => none⟩

def secretRef (name hostname certPem keyPem : Str) : CertificateRef :=
  ⟨name, some (Str.lit "n"), some hostname, some certPem.octets, some keyPem.octets⟩

def httpsListener (hostname : Str) (refs : List CertificateRef) : ListenerConfig :=
  ⟨hostname, .https, 443, none, some hostname, none, none, some ⟨.terminate, refs⟩, none⟩

def ownRef : CertificateRef := secretRef (Str.lit "a") (Str.lit "h.com") (Str.lit "A") (Str.lit "K")

/-- One listener with two certificates. -/
def oneHost : List ListenerConfig :=
  [httpsListener (Str.lit "h.com")
    [ownRef, secretRef (Str.lit "xb") (Str.lit "h.com") (Str.lit "B") (Str.lit "L")]]

/-- The second certificate now is another listener's, under a shorter Secret name. -/
def twoHosts : List ListenerConfig :=
  [httpsListener (Str.lit "h.com") [ownRef],
    httpsListener (Str.lit "bh.com")
      [secretRef (Str.lit "x") (Str.lit "bh.com") (Str.lit "B") (Str.lit "L")]]

def planAfter (passes : List (List ListenerConfig)) (listeners : List ListenerConfig) :
    Option (TlsPlan Bytes) :=
  ((planPorts textEnv false listeners (builtAfter textEnv false passes)).plans 443).join

theorem planAfter_eq_some {plan : TlsPlan Bytes} (h : planAfter passes listeners = some plan) :
    (planPorts textEnv false listeners (builtAfter textEnv false passes)).plans 443 =
      some (some plan) := by
  simpa [planAfter, join_eq_some_iff] using h

theorem twoHosts_serve :
    (planAfter [oneHost] twoHosts).map (·.serveTlsConnection (some (bytes "h.com"))) =
      some (.handshake (some (bytes "B"))) := by
  decide +kernel

theorem twoHosts_select :
    (planAfter [oneHost] twoHosts).bind (·.select ((some (bytes "h.com")).map lowercase)) =
      some ⟨.terminate, some (bytes "h.com")⟩ := by
  decide +kernel

/-- The own ref is the only one of the hostname, and only the own certificate loads for it. -/
theorem loadedFor_ownRef {l : ListenerConfig} {r : CertificateRef} {c : Bytes}
    (hl : l ∈ twoHosts) (hname : nameOf l.hostname = some (bytes "h.com"))
    (hr : r ∈ certificateRefs l)
    (hloaded : LoadedFor textEnv ([oneHost] ++ [twoHosts]) 443 r c) : c = bytes "A" := by
  have hown : r = ownRef := by
    have hall : ∀ l ∈ twoHosts, nameOf l.hostname = some (bytes "h.com") →
        ∀ r ∈ certificateRefs l, r = ownRef := by decide +kernel
    exact hall l hl hname r hr
  have hall : ∀ listeners ∈ [oneHost] ++ [twoHosts],
      ∀ r₀ ∈ (mergeCertRefsByPort listeners 443).getD [], certKey r₀ = certKey ownRef →
        loadCertifiedKey textEnv r₀ = some (bytes "A") := by decide +kernel
  obtain ⟨listeners, hmem, refs, hrefs, r₀, hr₀, hkey, hload⟩ := hloaded
  have hload' := hall listeners hmem r₀ (by simpa [hrefs] using hr₀) (hkey.trans (by rw [hown]))
  exact some.inj (hload.symm.trans hload')

/-- The refs of both lists have one fingerprint, so that the config with both certificates under
the first hostname stays, and answers for it with what now is the second listener's. -/
theorem answered_with_other_cert :
    (∀ l ∈ twoHosts, ∀ r ∈ certificateRefs l, r.hostname = l.hostname) ∧
    ∃ plan, (planPorts textEnv false twoHosts (builtAfter textEnv false [oneHost])).plans 443 =
        some (some plan) ∧
      plan.select ((some (bytes "h.com")).map lowercase) = some ⟨.terminate, some (bytes "h.com")⟩ ∧
      plan.serveTlsConnection (some (bytes "h.com")) = .handshake (some (bytes "B")) ∧
      ¬ AnswersOwnCert textEnv [oneHost] twoHosts 443 plan (some (bytes "h.com")) := by
  obtain ⟨plan, hplan, hserve⟩ := map_eq_some_iff.mp twoHosts_serve
  have hselect := twoHosts_select
  rw [hplan, bind_some] at hselect
  refine ⟨by decide, plan, planAfter_eq_some hplan, hselect, hserve, fun h => ?_⟩
  obtain ⟨c, l, r, hc, hl, hname, hr, hloaded⟩ := h _ hselect rfl
  obtain rfl : bytes "B" = c := by simpa [hserve] using hc
  have := loadedFor_ownRef hl.1 hname hr hloaded
  revert this
  decide

/-- A second pass over the listeners keeps the config of the first, which is for their refs, and
answers with the own certificate. -/
theorem own_cert_or_refused_again : ∃ plan, planAfter [twoHosts] twoHosts = some plan ∧
    plan.serveTlsConnection (some (bytes "h.com")) = .handshake (some (bytes "A")) ∧
    AnswersOwnCert textEnv [twoHosts] twoHosts 443 plan (some (bytes "h.com")) := by
  have hserve : (planAfter [twoHosts] twoHosts).map
      (·.serveTlsConnection (some (bytes "h.com"))) = some (.handshake (some (bytes "A"))) := by
    decide +kernel
  have hreuse : SoundReuse (builtAfter textEnv false [twoHosts]) twoHosts := by
    intro port b refs hb hrefs _
    obtain ⟨built, hbuilt, ⟨hkept, -⟩ | hnew⟩ := planPorts_built hb
    · cases hkept
    · rw [hnew.keys, some.inj (hrefs.symm.trans hbuilt)]
  obtain ⟨plan, hplan, hserve⟩ := map_eq_some_iff.mp hserve
  refine ⟨plan, hplan, hserve, ?_⟩
  exact (own_cert_or_refused textEnv false [twoHosts] twoHosts (by decide) hreuse
    443 plan (planAfter_eq_some hplan) (some (bytes "h.com"))).1

end Portail.Proxy
