import Portail.Config.Wire
import Portail.Lib.Base64

/-!
# Signed answers

What the controller signs (`sync/signed.rs`): a context line, the poll's nonce and the
body. No nonce holds a line feed, so that the message says which of the five kinds an
answer is, which poll it answers and what it says (`message_inj`).
-/

namespace Portail.Sync

open Lib Http Config

inductive Signed
  | snapshot
  | gone
  | unchanged
  | pending
  | leave
  deriving DecidableEq

def Signed.context : Signed → Bytes
  | snapshot => bytes "portail sync v1 snapshot\n"
  | gone => bytes "portail sync v1 gone\n"
  | unchanged => bytes "portail sync v1 unchanged\n"
  | pending => bytes "portail sync v1 pending\n"
  | leave => bytes "portail sync v1 leave\n"

def Signed.message (kind : Signed) (nonce body : Bytes) : Bytes :=
  kind.context ++ nonce ++ bytes "\n" ++ body

def nonceBytes : ℕ := 16

def newNonce (random : Bytes) : Bytes := base64Encode random

def validNonce (nonce : Bytes) : Bool :=
  (base64Decode nonce).any fun octets => octets.length = nonceBytes

/-- What the controller signs. Its server refuses every request whose nonce is not valid before
it signs anything. -/
structure SignedAnswer where
  kind : Signed
  nonce : Bytes
  body : Bytes
  valid : validNonce nonce = true

def SignedAnswer.message (a : SignedAnswer) : Bytes := a.kind.message a.nonce a.body

structure GatewayKey where
  ns : Str
  name : Str
  deriving DecidableEq

def GatewayKey.display (k : GatewayKey) : Message := [.display k.ns, .text "/", .display k.name]

/-- The first value of each header, by its name in lowercase. -/
abbrev Headers := String → Option Bytes

/-- The checks of a leaf certificate at a time, and of a signature with its key: each fails with
a text or passes. -/
structure AnswerVerifier where
  verifyServerCert : Bytes → ℕ → Option Message
  verifySignature : Bytes → Bytes → Bytes → Option Message

def decodedHeader (headers : Headers) (name : String) : Result Bytes :=
  match headers name with
  | none => .error [.text "unsigned: no ", .text name, .text " header"]
  | some value =>
    match base64Decode value with
    | none => .error [.text name, .text " is not base64"]
    | some octets => .ok octets

def AnswerVerifier.verify (v : AnswerVerifier) (kind : Signed) (nonce : Bytes) (headers : Headers)
    (body : Bytes) (now : ℕ) : Result Unit := do
  let signature ← decodedHeader headers "x-portail-signature"
  let leaf ← decodedHeader headers "x-portail-signer"
  match v.verifyServerCert leaf now with
  | some e => .error ([.text "signer certificate refused: "] ++ e)
  | none =>
    match v.verifySignature leaf (kind.message nonce body) signature with
    | some e => .error ([.text "bad signature: "] ++ e)
    | none => .ok ()

/-- A signature verifies only for a message the controller signed. -/
def AnswerVerifier.Unforgeable (v : AnswerVerifier) (log : Set SignedAnswer) : Prop :=
  ∀ leaf now message signature, v.verifyServerCert leaf now = none →
    v.verifySignature leaf message signature = none → ∃ a ∈ log, a.message = message

/-- The controller signed the body, as an answer of the kind to the poll of the nonce. -/
def Vouched (log : Set SignedAnswer) (kind : Signed) (nonce body : Bytes) : Prop :=
  ∃ a ∈ log, a.kind = kind ∧ a.nonce = nonce ∧ a.body = body

theorem context_line (kind : Signed) :
    ∃ name, kind.context = name ++ [lf] ∧ lf ∉ name := by
  cases kind
  · exact ⟨bytes "portail sync v1 snapshot", by decide, by decide⟩
  · exact ⟨bytes "portail sync v1 gone", by decide, by decide⟩
  · exact ⟨bytes "portail sync v1 unchanged", by decide, by decide⟩
  · exact ⟨bytes "portail sync v1 pending", by decide, by decide⟩
  · exact ⟨bytes "portail sync v1 leave", by decide, by decide⟩

theorem context_inj {kind kind' : Signed} (h : kind.context = kind'.context) : kind = kind' := by
  cases kind <;> cases kind' <;> first | rfl | exact absurd h (by decide)

theorem line_inj {a b x y : Bytes} (ha : lf ∉ a) (hb : lf ∉ b) (h : a ++ lf :: x = b ++ lf :: y) :
    a = b ∧ x = y := by
  have hrun {l : Bytes} (hl : lf ∉ l) : ∀ c ∈ l, (c != lf) = true := fun c hc => by
    simpa using fun hcl : c = lf => hl (hcl ▸ hc)
  have htake := congrArg (List.takeWhile (· != lf)) h
  rw [takeWhile_run (hrun ha) (by simp), takeWhile_run (hrun hb) (by simp)] at htake
  subst htake
  exact ⟨rfl, by simpa using h⟩

theorem lf_not_base64 : isBase64 lf = false := by decide

theorem lf_notMem_newNonce (random : Bytes) : lf ∉ newNonce random := fun h => by
  have := isBase64_encode random lf h
  simp [lf_not_base64] at this

theorem lf_notMem_of_validNonce {nonce : Bytes} (h : validNonce nonce = true) :
    lf ∉ nonce := fun hmem => by
  unfold validNonce at h
  cases hdecode : base64Decode nonce with
  | none => simp [hdecode] at h
  | some octets =>
    have := isBase64_of_decode hdecode lf hmem
    simp [lf_not_base64] at this

theorem message_inj {kind kind' : Signed} {nonce nonce' body body' : Bytes}
    (hn : lf ∉ nonce) (hn' : lf ∉ nonce')
    (h : kind.message nonce body = kind'.message nonce' body') :
    kind = kind' ∧ nonce = nonce' ∧ body = body' := by
  obtain ⟨name, hname, hfree⟩ := context_line kind
  obtain ⟨name', hname', hfree'⟩ := context_line kind'
  have hlf : bytes "\n" = [lf] := by decide
  simp only [Signed.message, hname, hname', hlf, List.append_assoc, List.singleton_append] at h
  obtain ⟨rfl, hrest⟩ := line_inj hfree hfree' h
  obtain ⟨rfl, rfl⟩ := line_inj hn hn' hrest
  exact ⟨context_inj (hname.trans hname'.symm), rfl, rfl⟩

/-- An answer that verifies was signed as such. -/
theorem vouched_of_verify {v : AnswerVerifier} {log : Set SignedAnswer} (hsig : v.Unforgeable log)
    {kind : Signed} {nonce body : Bytes} {headers : Headers} {now : ℕ}
    (hn : lf ∉ nonce) (h : v.verify kind nonce headers body now = .ok ()) :
    Vouched log kind nonce body := by
  unfold AnswerVerifier.verify at h
  cases hheader : decodedHeader headers "x-portail-signature" with
  | error e => simp [hheader, bind, Except.bind] at h
  | ok signature =>
    cases hleaf : decodedHeader headers "x-portail-signer" with
    | error e => simp [hheader, hleaf, bind, Except.bind] at h
    | ok leaf =>
      cases hcert : v.verifyServerCert leaf now with
      | some e => simp [hheader, hleaf, hcert, bind, Except.bind] at h
      | none =>
        cases hsignature : v.verifySignature leaf (kind.message nonce body) signature with
        | some e => simp [hheader, hleaf, hcert, hsignature, bind, Except.bind] at h
        | none =>
          obtain ⟨a, ha, hmessage⟩ := hsig leaf now _ signature hcert hsignature
          exact ⟨a, ha, message_inj (lf_notMem_of_validNonce a.valid) hn hmessage⟩

end Portail.Sync
