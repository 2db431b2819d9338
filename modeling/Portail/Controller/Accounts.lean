import Portail.Controller.Auth

/-!
# The accounts of Gateways

Data planes of a Gateway run as a ServiceAccount named after it, and are told apart by that
account alone. A name that is no label is hashed, and the name it is hashed to can be the name of
another Gateway as it stands. No other two Gateways share an account (`identities_apart_iff`).
-/

namespace Portail.Controller.Auth

open Lib Http Sync ServiceAccount List

section

variable {sha256 : Bytes → Bytes} {name name' : Bytes}

/-- The names a Gateway may have. -/
def isDns1123Subdomain (s : Bytes) : Bool :=
  s.length ≤ 253 && (s.splitOn 0x2e).all fun part =>
    !part.isEmpty && part.all (fun c => isDns1123Alnum c || c == 0x2d) &&
      part.head?.all isDns1123Alnum && part.getLast?.all isDns1123Alnum

theorem byte_of_subdomain (h : isDns1123Subdomain name = true) {c : UInt8} (hc : c ∈ name) :
    c = 0x2e ∨ (isDns1123Alnum c || c == 0x2d) = true := by
  refine or_iff_not_imp_left.mpr fun hdot => ?_
  obtain ⟨part, hpart, hmem⟩ := exists_mem_splitOn hc hdot
  simp only [isDns1123Subdomain, Bool.and_eq_true, all_eq_true] at h
  exact (h.2 part hpart).1.1.2 c hmem

def hashOf (sha256 : Bytes → Bytes) (name : Bytes) : Bytes :=
  (hexDigits (sha256 name)).take hashHexDigits

/-- What stands behind `portail-` for a name that is no label there. -/
def hashedForm (sha256 : Bytes → Bytes) (name : Bytes) : Bytes :=
  let label := name.map fun c => if c = 0x2e then 0x2d else c
  let cut := if 46 ≤ label.length && isUtf8 (label.take 46) then label.take 46 else label
  cut.rdropWhile (· == 0x2d) ++ bytes "-" ++ hashOf sha256 name

def keepsName (name : Bytes) : Bool := isDns1123Label (bytes "portail-" ++ name)

theorem resourceName_eq (sha256 : Bytes → Bytes) (name : Bytes) : resourceName sha256 name =
    bytes "portail-" ++ if keepsName name then name else hashedForm sha256 name := by
  have hcut : maxDns1123Label - (bytes "portail-").length - 1 - hashHexDigits = 46 := by decide
  unfold resourceName keepsName
  simp only [hcut]
  by_cases h : isDns1123Label (bytes "portail-" ++ name) = true
  · rw [if_pos h, if_pos h]
  · rw [if_neg h, if_neg h, hashedForm, append_assoc, append_assoc, append_assoc]
    rfl

theorem alnum_hexDigits {digest : Bytes} {c : UInt8} (h : c ∈ hexDigits digest) :
    isDns1123Alnum c = true := by
  have hchar : ∀ d < 16, isDns1123Alnum (hexChar d) = true := by decide
  obtain ⟨b, -, hb⟩ := mem_flatMap.mp h
  have := b.toNat_lt
  rcases mem_pair.mp hb with rfl | rfl
  · exact hchar _ (by omega)
  · exact hchar _ (by omega)

theorem length_hexDigits (digest : Bytes) : (hexDigits digest).length = 2 * digest.length := by
  rw [hexDigits, length_flatMap]
  simp [mul_comm]

theorem length_hashOf (hlen : ∀ x, (sha256 x).length = 32) (name : Bytes) :
    (hashOf sha256 name).length = 8 := by
  simp [hashOf, length_hexDigits, hlen, hashHexDigits]

/-- What is left of a name before its hash. -/
theorem exists_cut (sha256 : Bytes → Bytes) (h : isDns1123Subdomain name = true) :
    ∃ cut, hashedForm sha256 name = cut ++ bytes "-" ++ hashOf sha256 name ∧ cut.length ≤ 46 ∧
      ∀ c ∈ cut, (isDns1123Alnum c || c == 0x2d) = true := by
  have hbyte : ∀ c ∈ name.map fun c => if c = 0x2e then 0x2d else c,
      (isDns1123Alnum c || c == 0x2d) = true := by
    intro c hc
    obtain ⟨b, hb, rfl⟩ := mem_map.mp hc
    split_ifs with hdot
    · rfl
    · exact (byte_of_subdomain h hb).resolve_left hdot
  have hascii : ∀ c : UInt8, (isDns1123Alnum c || c == 0x2d) = true → c < 0x80 :=
    forall_octet (by decide +kernel)
  have hutf8 := isUtf8_of_ascii fun c hc => hascii c (hbyte c (mem_of_mem_take (i := 46) hc))
  have hcut {l : Bytes} : l.rdropWhile (· == 0x2d) <+: l := rdropWhile_prefix ..
  refine ⟨_, rfl, hcut.length_le.trans ?_, fun c hc => ?_⟩
  · simp only [hutf8, Bool.and_true, decide_eq_true_eq]
    split_ifs with hlong
    · exact length_take_le _ _
    · omega
  · have hmem := hcut.subset hc
    split_ifs at hmem
    · exact hbyte c (mem_of_mem_take hmem)
    · exact hbyte c hmem

theorem keepsName_hashedForm (hlen : ∀ x, (sha256 x).length = 32)
    (h : isDns1123Subdomain name = true) : keepsName (hashedForm sha256 name) = true := by
  obtain ⟨cut, hcut, hlength, hbyte⟩ := exists_cut sha256 h
  have hhash := length_hashOf hlen name
  have halnum : ∀ c ∈ hashOf sha256 name, isDns1123Alnum c = true :=
    fun c hc => alnum_hexDigits (mem_of_mem_take hc)
  have hlast : (bytes "portail-" ++ hashedForm sha256 name).getLast? =
      (hashOf sha256 name).getLast? := by
    rw [hcut, ← append_assoc]
    exact getLast?_append_of_ne_nil _ (ne_nil_of_length_pos (by omega))
  unfold keepsName isDns1123Label
  simp only [Bool.and_eq_true, decide_eq_true_eq, all_eq_true, hlast]
  refine ⟨⟨⟨⟨rfl, ?_⟩, ?_⟩, rfl⟩, ?_⟩
  · rw [hcut]
    simp only [length_append, hhash, maxDns1123Label]
    have : (bytes "portail-").length = 8 ∧ (bytes "-").length = 1 := by decide
    omega
  · have hpieces : ∀ c ∈ bytes "portail-" ++ bytes "-", (isDns1123Alnum c || c == 0x2d) = true := by
      decide
    intro c hc
    simp only [hcut, mem_append, or_assoc] at hc hpieces
    rcases hc with hc | hc | hc | hc
    · exact hpieces c (.inl hc)
    · exact hbyte c hc
    · exact hpieces c (.inr hc)
    · rw [halnum c hc, Bool.true_or]
  · cases hcase : (hashOf sha256 name).getLast? with
    | none => rfl
    | some c => exact halnum c (mem_of_getLast? hcase)

/-- Two names that differ are kept or hashed apart, or one is the hashed form of the other. -/
theorem resourceName_eq_iff (hlen : ∀ x, (sha256 x).length = 32)
    (h : isDns1123Subdomain name = true) (h' : isDns1123Subdomain name' = true) (hne : name ≠ name')
    (hhash : hashOf sha256 name ≠ hashOf sha256 name') :
    resourceName sha256 name = resourceName sha256 name' ↔
      keepsName name' = false ∧ name = hashedForm sha256 name' ∨
        keepsName name = false ∧ name' = hashedForm sha256 name := by
  rw [resourceName_eq, resourceName_eq, append_right_inj]
  have hkept := keepsName_hashedForm hlen h
  have hkept' := keepsName_hashedForm hlen h'
  cases hname : keepsName name with
  | true =>
    cases hname' : keepsName name' with
    | true => simp [hne]
    | false => simp
  | false =>
    cases hname' : keepsName name' with
    | true => simp [eq_comm]
    | false =>
      have hnot : name ≠ hashedForm sha256 name' := fun heq => by simp [heq, hkept'] at hname
      have hnot' : name' ≠ hashedForm sha256 name := fun heq => by simp [heq, hkept] at hname'
      simp only [Bool.false_eq_true, if_false, hnot, hnot', and_false, or_false, iff_false]
      intro heq
      refine hhash (append_inj_right' heq ?_)
      rw [length_hashOf hlen, length_hashOf hlen]

end

section

variable (auth : Authenticator) {gateway other : GatewayKey}

/-- In one namespace, the name of the first is what that of the second is hashed to. -/
def Mimics (sha256 : Bytes → Bytes) (gateway other : GatewayKey) : Prop :=
  gateway.ns = other.ns ∧ keepsName other.name.octets = false ∧
    gateway.name.octets = hashedForm sha256 other.name.octets

/-- A pod so reviewed is sent the snapshot of the Gateway. -/
def Authorizes (reviewed : Reviewed) (gateway : GatewayKey) : Prop :=
  ∃ r consulted, r.gateway = gateway ∧
    checkAccount auth r consulted reviewed = .handled r consulted reviewed.podUid

/-- The Gateways have identities of their own. -/
structure Apart (gateway other : GatewayKey) : Prop where
  label : isDns1123Label (of auth.sha256 gateway).name = true
  label_other : isDns1123Label (of auth.sha256 other).name = true
  account : of auth.sha256 gateway ≠ of auth.sha256 other
  snapshot : ∀ reviewed, Authorizes auth reviewed gateway → ¬Authorizes auth reviewed other

theorem authorizes_iff {reviewed : Reviewed} : Authorizes auth reviewed gateway ↔
    reviewed.account = of auth.sha256 gateway := by
  constructor
  · rintro ⟨r, consulted, rfl, h⟩
    by_contra hne
    rw [checkAccount, if_pos hne] at h
    cases h
  · intro h
    exact ⟨⟨[], gateway, 0⟩, 0, rfl, if_neg (not_not.mpr h)⟩

theorem label_account (hlen : ∀ x, (auth.sha256 x).length = 32)
    (h : isDns1123Subdomain gateway.name.octets = true) :
    isDns1123Label (of auth.sha256 gateway).name = true := by
  rw [of, resourceName_eq]
  cases hname : keepsName gateway.name.octets with
  | true => exact hname
  | false => exact keepsName_hashedForm hlen h

/-- Two Gateways have identities of their own exactly when neither's name is what the other's is
hashed to. -/
theorem identities_apart_iff (hlen : ∀ x, (auth.sha256 x).length = 32) (hne : gateway ≠ other)
    (h : isDns1123Subdomain gateway.name.octets = true)
    (hother : isDns1123Subdomain other.name.octets = true) (hhash : gateway.name ≠ other.name →
      hashOf auth.sha256 gateway.name.octets ≠ hashOf auth.sha256 other.name.octets) :
    Apart auth gateway other ↔
      ¬(Mimics auth.sha256 gateway other ∨ Mimics auth.sha256 other gateway) := by
  have haccount : of auth.sha256 gateway = of auth.sha256 other ↔
      Mimics auth.sha256 gateway other ∨ Mimics auth.sha256 other gateway := by
    simp only [of, mk.injEq, Mimics, ← Str.ext_iff]
    by_cases hns : gateway.ns = other.ns
    · have hname : gateway.name ≠ other.name := by
        intro hname
        cases gateway
        cases other
        simp_all
      rw [resourceName_eq_iff hlen h hother (fun heq => hname (Str.ext heq)) (hhash hname)]
      simp [hns]
    · simp [hns, Ne.symm hns]
  rw [← haccount]
  refine ⟨Apart.account, fun hacc =>
    ⟨label_account auth hlen h, label_account auth hlen hother, hacc,
    fun reviewed hauth hauth' => hacc ?_⟩⟩
  rw [← (authorizes_iff auth).mp hauth, (authorizes_iff auth).mp hauth']

/-- The digest of `gw.example` begins as SHA-256 has it. -/
def exampleDigest (name : Bytes) : Bytes :=
  if name = bytes "gw.example" then [0xf8, 0xa6, 0x90, 0x0a] ++ List.replicate 28 0
  else List.replicate 32 0

theorem length_exampleDigest (name : Bytes) : (exampleDigest name).length = 32 := by
  unfold exampleDigest
  split_ifs <;> rfl

def exampleAuth : Authenticator := ⟨bytes "controller", [], exampleDigest, fun _ _ => none⟩

def gatewayNamed (name : String) : GatewayKey := ⟨.lit "default", .lit name⟩

theorem identities_apart_iff_short :
    Apart exampleAuth (gatewayNamed "a-b") (gatewayNamed "gw.example") :=
  (identities_apart_iff exampleAuth length_exampleDigest (by decide) (by decide +kernel)
    (by decide +kernel) (fun _ => by decide +kernel)).mpr (by
      unfold Mimics
      decide +kernel)

/-- A Gateway takes the account of another, and is sent its snapshot. -/
theorem hashed_name_taken :
    isDns1123Subdomain (bytes "gw.example") = true ∧
    isDns1123Subdomain (bytes "gw-example-f8a6900a") = true ∧
    hashOf exampleDigest (bytes "gw.example") ≠ hashOf exampleDigest (bytes "gw-example-f8a6900a") ∧
    of exampleDigest (gatewayNamed "gw.example") =
      of exampleDigest (gatewayNamed "gw-example-f8a6900a") ∧
    ∃ reviewed, Authorizes exampleAuth reviewed (gatewayNamed "gw.example") ∧
      Authorizes exampleAuth reviewed (gatewayNamed "gw-example-f8a6900a") := by
  have hsame : of exampleDigest (gatewayNamed "gw.example") =
      of exampleDigest (gatewayNamed "gw-example-f8a6900a") := by decide +kernel
  refine ⟨by decide +kernel, by decide +kernel, by decide +kernel, hsame, ?_⟩
  exact ⟨⟨_, bytes "uid"⟩, (authorizes_iff exampleAuth).mpr rfl,
    (authorizes_iff exampleAuth).mpr hsame⟩

end
end Portail.Controller.Auth
