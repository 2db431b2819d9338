import Portail.Proxy.CertChoice

/-!
# Plans and their history

What earlier passes leave behind shows in a pass in two ways: a config kept because its
fingerprint is that of the refs, and one kept when a rebuild of the same refs loads nothing.
The second is meant. The first goes unseen as long as the octets that the fingerprint is taken
of tell the refs of a port apart; run together without separators, they need not.
-/

namespace Portail.Proxy

open Lib Http Routing Config

variable {P C : Type} {refs : List CertificateRef}

/-- The refs of a port in one of the passes. -/
def MergedIn (passes : List (List ListenerConfig)) (port : UInt16) (refs : List CertificateRef) :
    Prop :=
  ∃ listeners ∈ passes, mergeCertRefsByPort listeners port = some refs

/-- What a pass finds to serve on a port that it could not rebuild: the last config that an
earlier pass made, of refs with the same keys. -/
structure KeepsLastGood (env : CertEnv P C) (http2 : Bool) (passes : List (List ListenerConfig))
    (listeners : List ListenerConfig) (port : UInt16) (b : BuiltConfig C) : Prop where
  failed : ∃ refs e, mergeCertRefsByPort listeners port = some refs ∧
    buildTerminating env refs http2 = .error e ∧ b.refs = certKeys refs
  lastGood : builtAfter env http2 passes port = some b ∧
    ∃ refs, MergedIn passes port refs ∧ b.Made env http2 refs
  kept : (planPorts env http2 listeners (builtAfter env http2 passes)).built port = some b

section

variable {built₁ built₂ : BuiltConfigs C} {port : UInt16}

theorem addToPlans_congr (hbuilt : built₁ port = built₂ port) {plans₁ plans₂ : Plans C}
    (hplans : plans₁ port = plans₂ port) (l : ListenerConfig) :
    addToPlans built₁ plans₁ l port = addToPlans built₂ plans₂ l port := by
  by_cases hport : port = l.port
  · subst hport
    have hkind : planKind built₁ l = planKind built₂ l := by simp only [planKind, hbuilt]
    unfold addToPlans
    rw [hkind]
    cases planKind built₂ l with
    | none => exact hplans
    | some kind => simp only [hplans, Function.update_self]
  · have hsame (built : BuiltConfigs C) (plans : Plans C) :
        addToPlans built plans l port = plans port := by
      unfold addToPlans
      cases planKind built l with
      | none => rfl
      | some kind => simp only [Function.update_of_ne hport]
    rw [hsame, hsame, hplans]

/-- The plan of a port depends on the config of that port alone. -/
theorem plans_congr (env : CertEnv P C) (http2 : Bool) (listeners : List ListenerConfig)
    (h : (planPorts env http2 listeners built₁).built port =
      (planPorts env http2 listeners built₂).built port) :
    (planPorts env http2 listeners built₁).plans port =
      (planPorts env http2 listeners built₂).plans port := by
  have hfold := List.foldl_rel (r := fun plans₁ plans₂ : Plans C => plans₁ port = plans₂ port)
    (l := listeners) (a := fun _ => none) (b := fun _ => none) rfl
    fun l _ _ _ hplans => addToPlans_congr h hplans l
  simp only [planPorts] at h hfold ⊢
  rw [hfold, h]

end

section

variable {env : CertEnv P C} {http2 : Bool}

theorem rebuild_none_of_made {b : BuiltConfig C}
    (h : b.Made env http2 refs) : (rebuild env http2 refs none).1 = some b := by
  have hempty : refs.isEmpty = false := by
    cases refs with
    | nil => cases h.config
    | cons r refs => rfl
  simp [rebuild, hempty, h.config, ← h.fingerprint, ← h.keys]

variable (env http2)

/-- A rebuild gives what a first one would, but for a config of the same fingerprint or, after a
failure, of the same keys. -/
theorem rebuild_cases (refs : List CertificateRef) (built : Option (BuiltConfig C)) :
    (rebuild env http2 refs built).1 = (rebuild env http2 refs none).1 ∨
    ∃ b, built = some b ∧ (rebuild env http2 refs built).1 = some b ∧
      (b.fingerprint = computeCertFingerprint refs ∨
        ∃ e, buildTerminating env refs http2 = .error e ∧ b.refs = certKeys refs) := by
  cases built with
  | none => exact .inl rfl
  | some b =>
    by_cases hempty : refs.isEmpty = true
    · exact .inl (by simp [rebuild, hempty])
    by_cases hfingerprint : b.fingerprint = computeCertFingerprint refs
    · exact .inr ⟨b, rfl, by simp [rebuild, hempty, hfingerprint], .inl hfingerprint⟩
    cases hbuild : buildTerminating env refs http2 with
    | ok result => exact .inl (by simp [rebuild, hempty, hfingerprint, hbuild])
    | error e =>
      by_cases hkeys : b.refs = certKeys refs
      · exact .inr ⟨b, rfl, by simp [rebuild, hempty, hfingerprint, hbuild, hkeys],
          .inr ⟨e, rfl, hkeys⟩⟩
      · exact .inl (by simp [rebuild, hempty, hfingerprint, hbuild, hkeys])

theorem planPorts_built_eq (listeners : List ListenerConfig)
    (built : BuiltConfigs C) (port : UInt16) :
    (planPorts env http2 listeners built).built port =
      (mergeCertRefsByPort listeners port).bind fun refs =>
        (rebuild env http2 refs (built port)).1 := by
  simp only [planPorts]
  cases mergeCertRefsByPort listeners port <;> rfl

/-- The plans after any passes are those of the last list alone, ports apart that keep their last
good config, if the octets written for the refs of a port tell those of the last list from those
of the passes before. -/
theorem plans_of_last_list (passes : List (List ListenerConfig)) (listeners : List ListenerConfig)
    (hfnv : ∀ port refs₀ refs, MergedIn passes port refs₀ →
      mergeCertRefsByPort listeners port = some refs →
      fnv1a (refs₀.flatMap refOctets) = fnv1a (refs.flatMap refOctets) →
      refs₀.flatMap refOctets = refs.flatMap refOctets)
    (hoctets : ∀ port refs₀ refs, MergedIn passes port refs₀ →
      mergeCertRefsByPort listeners port = some refs →
      refs₀.flatMap refOctets = refs.flatMap refOctets → refs₀ = refs) (port : UInt16) :
    (planPorts env http2 listeners (builtAfter env http2 passes)).plans port =
      (planPorts env http2 listeners fun _ => none).plans port ∨
    ∃ b, KeepsLastGood env http2 passes listeners port b ∧
      ∀ plan, (planPorts env http2 listeners (builtAfter env http2 passes)).plans port =
        some (some plan) → plan.terminate = some b.config := by
  have hbuilt := planPorts_built_eq env http2 listeners (builtAfter env http2 passes) port
  have hfresh := planPorts_built_eq env http2 listeners (fun _ => none) port
  cases hrefs : mergeCertRefsByPort listeners port with
  | none =>
    rw [hrefs] at hbuilt hfresh
    exact .inl (plans_congr env http2 listeners (hbuilt.trans hfresh.symm))
  | some refs =>
    rw [hrefs, Option.bind_some] at hbuilt hfresh
    rcases rebuild_cases env http2 refs (builtAfter env http2 passes port) with
      hsame | ⟨b, hb, hkept, hreason⟩
    · exact .inl (plans_congr env http2 listeners (hbuilt.trans (hsame.trans hfresh.symm)))
    · obtain ⟨ls, hls, refs₀, hrefs₀, hmade⟩ := builtAfter_made hb
      rcases hreason with hfingerprint | ⟨e, hfailed, hkeys⟩
      · -- the octets are those of the refs the config was made of
        have hsame : refs₀ = refs :=
          hoctets port refs₀ refs ⟨ls, hls, hrefs₀⟩ hrefs
            (hfnv port refs₀ refs ⟨ls, hls, hrefs₀⟩ hrefs
              (hmade.fingerprint.symm.trans hfingerprint))
        rw [hsame] at hmade
        have hagain := rebuild_none_of_made hmade
        exact .inl (plans_congr env http2 listeners
          (hbuilt.trans (hkept.trans (hfresh.trans hagain).symm)))
      · refine .inr ⟨b, ⟨⟨refs, e, hrefs, hfailed, hkeys⟩, ⟨hb, refs₀, ⟨ls, hls, hrefs₀⟩, hmade⟩,
          hbuilt.trans hkept⟩, fun plan hplan => ?_⟩
        rw [planPorts_terminate hplan, hbuilt, hkept]
        rfl

end

/-- A listener whose certificate is a Secret of a namespace. -/
def shopListener (ns name : Str) : List ListenerConfig :=
  [httpsListener (Str.lit "shop.example")
    [⟨name, some ns, some (Str.lit "shop.example"), some (bytes "A"), some (bytes "K")⟩]]

def beforeMove : List ListenerConfig := shopListener (Str.lit "edge") (Str.lit "stls")

/-- The same certificate in another Secret, whose namespace and name run together as before. -/
def afterMove : List ListenerConfig := shopListener (Str.lit "edges") (Str.lit "tls")

theorem afterMove_builds (h : mergeCertRefsByPort afterMove 443 = some refs) :
    (buildTerminating textEnv refs false).toOption.isSome = true := by
  have hbuilds : ((mergeCertRefsByPort afterMove 443).all fun refs =>
      (buildTerminating textEnv refs false).toOption.isSome) = true := by decide +kernel
  rw [h] at hbuilds
  exact hbuilds

/-- A data plane that has seen the old Secret refuses the SNI that one without history serves. -/
theorem moved_secret_refused :
    (mergeCertRefsByPort beforeMove 443).map (·.flatMap refOctets) =
      (mergeCertRefsByPort afterMove 443).map (·.flatMap refOctets) ∧
    (planAfter [beforeMove] afterMove).map (·.serveTlsConnection (some (bytes "shop.example"))) =
      some .refused ∧
    (planAfter [] afterMove).map (·.serveTlsConnection (some (bytes "shop.example"))) =
      some (.handshake (some (bytes "A"))) ∧
    ¬∃ b, KeepsLastGood textEnv false [beforeMove] afterMove 443 b := by
  refine ⟨by decide +kernel, by decide +kernel, by decide +kernel, ?_⟩
  rintro ⟨b, ⟨refs, e, hrefs, hfailed, -⟩, -, -⟩
  have hbuilds := afterMove_builds hrefs
  rw [hfailed] at hbuilds
  cases hbuilds

/-- A second pass over one list. -/
theorem plans_of_last_list_again :
    (planPorts textEnv false afterMove (builtAfter textEnv false [afterMove])).plans 443 =
      (planPorts textEnv false afterMove fun _ => none).plans 443 ∨
    ∃ b, KeepsLastGood textEnv false [afterMove] afterMove 443 b ∧
      ∀ plan, (planPorts textEnv false afterMove (builtAfter textEnv false [afterMove])).plans 443 =
        some (some plan) → plan.terminate = some b.config := by
  have hsame : ∀ port refs₀ refs, MergedIn [afterMove] port refs₀ →
      mergeCertRefsByPort afterMove port = some refs → refs₀ = refs := by
    rintro port refs₀ refs ⟨ls, hls, hrefs₀⟩ hrefs
    obtain rfl := List.mem_singleton.mp hls
    exact Option.some.inj (hrefs₀.symm.trans hrefs)
  exact plans_of_last_list textEnv false [afterMove] afterMove
    (fun port refs₀ refs h₀ h _ => by rw [hsame port refs₀ refs h₀ h])
    (fun port refs₀ refs h₀ h _ => hsame port refs₀ refs h₀ h) 443

end Portail.Proxy
