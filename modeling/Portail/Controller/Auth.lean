import Portail.Dataplane.SyncLoop
import Portail.Lib.IpAddr
import Portail.Lib.Maps
import Portail.Lib.Runs
import Portail.Routing.Table

/-!
# Sync request authentication

`controller/auth.rs`: a request is taken for an instance of a Gateway on the word of a
TokenReview, which may come from a cache by token hash. Requests take their steps in any
order, and the apiserver may answer a review with anything, or not at all. The cache and
what is evicted from it are modelled in full; the permits and rates that throttle reviews
are a choice open at each request, and so is the time a review takes.
-/

namespace Portail.Controller.Auth

open Lib Http Sync Routing

def maxDns1123Label : ℕ := 63

def isDns1123Alnum (c : UInt8) : Bool := isAsciiLowercase c || isAsciiDigit c

def isDns1123Label (s : Bytes) : Bool :=
  !s.isEmpty && s.length ≤ maxDns1123Label && s.all (fun c => isDns1123Alnum c || c == 0x2d) &&
    s.head?.all isDns1123Alnum && s.getLast?.all isDns1123Alnum

def hexDigits (digest : Bytes) : Bytes :=
  digest.flatMap fun b => [hexChar (b.toNat / 16), hexChar (b.toNat % 16)]

def hashHexDigits : ℕ := 8

/-- The name of a Gateway's ServiceAccount. One that is no label is cut, with a hash of the whole
name at its end. -/
def resourceName (sha256 : Bytes → Bytes) (gateway : Bytes) : Bytes :=
  let name := bytes "portail-" ++ gateway
  if isDns1123Label name then name
  else
    let label := gateway.map fun c => if c = 0x2e then 0x2d else c
    let maxCut := maxDns1123Label - (bytes "portail-").length - 1 - hashHexDigits
    let cut := if maxCut ≤ label.length && isUtf8 (label.take maxCut) then label.take maxCut
      else label
    bytes "portail-" ++ cut.rdropWhile (· == 0x2d) ++ bytes "-" ++
      (hexDigits (sha256 gateway)).take hashHexDigits

structure ServiceAccount where
  ns : Bytes
  name : Bytes
  deriving DecidableEq

def saPrefix : Bytes := bytes "system:serviceaccount:"

def ServiceAccount.username (a : ServiceAccount) : Bytes := saPrefix ++ a.ns ++ colon :: a.name

def ServiceAccount.fromUsername (username : Bytes) : Option ServiceAccount :=
  if saPrefix.isPrefixOf username then
    let rest := username.drop saPrefix.length
    (memchr colon rest).bind fun i =>
      let ns := rest.take i
      let name := rest.drop (i + 1)
      if !ns.isEmpty && !name.isEmpty && !name.contains colon then some ⟨ns, name⟩ else none
  else none

/-- The one a Gateway's data planes run as. -/
def ServiceAccount.of (sha256 : Bytes → Bytes) (gateway : GatewayKey) : ServiceAccount :=
  ⟨gateway.ns.octets, resourceName sha256 gateway.name.octets⟩

/-- In milliseconds, as every time here. -/
def cacheTtl : ℕ := 30000

def staleTtl : ℕ := 30000

def maxVerdicts : ℕ := 4096

def maxVerdictsPerPod : ℕ := 2

structure UserInfo where
  username : Option Bytes
  extra : Map Bytes (List Bytes)

structure TokenReviewStatus where
  authenticated : Option Bool
  audiences : List Bytes
  user : Option UserInfo

/-- What a TokenReview said a token is. -/
structure Reviewed where
  account : ServiceAccount
  podUid : Bytes
  deriving DecidableEq

abbrev TokenHash := Bytes

/-- When each verdict was taken; `none` is a rejection. -/
structure Verdicts where
  byToken : Map TokenHash (ℕ × Option Reviewed)
  swept : Option ℕ

inductive Cached
  | fresh (reviewed : Reviewed)
  | rejected
  | expired (reviewed : Reviewed)
  | unknown

def Verdicts.cached (verdicts : Verdicts) (hash : TokenHash) (now : ℕ) : Cached :=
  match verdicts.byToken.lookup hash with
  | none => .unknown
  | some (at_, some reviewed) =>
    if now - at_ < cacheTtl then .fresh reviewed
    else if now - at_ < cacheTtl + staleTtl then .expired reviewed
    else .unknown
  | some (at_, none) => if now - at_ < cacheTtl then .rejected else .unknown

/-- One sweep per TTL. -/
def Verdicts.sweep (verdicts : Verdicts) (now : ℕ) : Verdicts :=
  let ttl (verdict : Option Reviewed) := if verdict.isSome then cacheTtl + staleTtl else cacheTtl
  if verdicts.swept.all fun swept => cacheTtl ≤ now - swept then
    ⟨retain (fun _ entry => now - entry.1 < ttl entry.2) verdicts.byToken, some now⟩
  else verdicts

/-- No room is left for one more token. -/
def fullFor (byToken : Map TokenHash (ℕ × Option Reviewed)) (hash : TokenHash) : Bool :=
  maxVerdicts ≤ byToken.keys.length && (byToken.lookup hash).isNone

/-- Rejections go first, then the oldest quarter. -/
def makeRoom (byToken : Map TokenHash (ℕ × Option Reviewed)) (hash : TokenHash) :
    Map TokenHash (ℕ × Option Reviewed) :=
  let byToken : Map TokenHash (ℕ × Option Reviewed) :=
    if fullFor byToken hash then retain (fun _ entry => entry.2.isSome) byToken else byToken
  if fullFor byToken hash then
    let ages := ((Map.values byToken).map Prod.fst).insertionSort (· ≤ ·)
    let cutoff := ages.getD (maxVerdicts / 4) 0
    retain (fun _ entry => cutoff < entry.1) byToken
  else byToken

def olderFirst (a b : ℕ × TokenHash) : Prop := a.1 < b.1 ∨ a.1 = b.1 ∧ ¬b.2 < a.2

instance : DecidableRel olderFirst := fun a b =>
  inferInstanceAs (Decidable (a.1 < b.1 ∨ a.1 = b.1 ∧ ¬b.2 < a.2))

/-- A pod's older tokens make room for its next one. -/
def dropSamePod (byToken : Map TokenHash (ℕ × Option Reviewed)) (hash : TokenHash)
    (reviewed : Reviewed) : Map TokenHash (ℕ × Option Reviewed) :=
  let samePod := (byToken.entries.filter fun e =>
    e.1 != hash && e.2.2.any fun r => r.podUid == reviewed.podUid).map fun e => (e.2.1, e.1)
  if maxVerdictsPerPod ≤ samePod.length then
    ((samePod.insertionSort olderFirst).take (samePod.length - maxVerdictsPerPod + 1)).foldl
      (fun m old => m.erase old.2) byToken
  else byToken

def Verdicts.remember (verdicts : Verdicts) (hash : TokenHash) (verdict : Option Reviewed)
    (now : ℕ) : Verdicts :=
  let swept := verdicts.sweep now
  let byToken := makeRoom swept.byToken hash
  let byToken : Map TokenHash (ℕ × Option Reviewed) :=
    match verdict with
    | some reviewed => dropSamePod byToken hash reviewed
    | none => byToken
  { swept with byToken := byToken.insert hash (now, verdict) }

section

/-- The authenticator; what the token itself claims to be, at a wall clock time, is left open. -/
structure Authenticator where
  audience : Bytes
  refused : List ServiceAccount
  sha256 : Bytes → Bytes
  precheck : Bytes → ℕ → Option ServiceAccount

/-- Of the controller Service in a namespace, running as `own` when known. -/
def Authenticator.new (sha256 : Bytes → Bytes)
    (precheck : Bytes → Bytes → ℕ → Option ServiceAccount) (ns service : Bytes)
    (own : Option ServiceAccount) : Authenticator :=
  let audience := service ++ bytes "." ++ ns ++ bytes ".svc"
  ⟨audience, ⟨ns, service⟩ :: own.toList, sha256, precheck audience⟩

def podUidKey : Bytes := bytes "authentication.kubernetes.io/pod-uid"

def Authenticator.verdict (auth : Authenticator) (status : TokenReviewStatus) :
    Option Reviewed :=
  if status.authenticated != some true then none
  else if !status.audiences.contains auth.audience then none
  else
    status.user.bind fun user =>
      (user.username.bind ServiceAccount.fromUsername).bind fun account =>
        ((user.extra.lookup podUidKey).bind List.head?).map fun podUid => ⟨account, podUid⟩

inductive Refusal
  | unauthenticated
  | forbidden
  | throttled
  | unavailable
  deriving DecidableEq

/-- A request, and when it came. -/
structure Request where
  token : Bytes
  gateway : GatewayKey
  came : ℕ

/-- Where a request stands; `consulted` is when it read the cache. -/
inductive Phase
  | absent
  | came (r : Request)
  | asking (r : Request) (consulted : ℕ)
  | renewing (r : Request) (consulted : ℕ) (stale : Reviewed)
  | reviewing (r : Request) (consulted : ℕ) (stale : Option Reviewed)
  | reviewed (r : Request) (consulted : ℕ) (reviewed : Reviewed)
  | handled (r : Request) (consulted : ℕ) (podUid : Bytes)
  | refused (why : Refusal)
  | dropped

/-- What is remembered of a run: the answers of the apiserver and the renewals without one. -/
inductive Event (ι : Type)
  | answered (token : Bytes) (status : TokenReviewStatus) (at_ : ℕ)
  | noVerdict (request : ι)

structure World (ι : Type) where
  now : ℕ
  verdicts : Verdicts
  requests : ι → Phase
  history : List (Event ι)

/-- The first stage and `authenticate` up to its first await. -/
def consult (auth : Authenticator) (verdicts : Verdicts) (now wall : ℕ) (r : Request) : Phase :=
  match auth.precheck r.token wall with
  | none => .refused .unauthenticated
  | some claimed =>
    let expected := ServiceAccount.of auth.sha256 r.gateway
    if claimed ≠ expected then .refused .unauthenticated
    else if expected ∈ auth.refused then .refused .forbidden
    else
      match verdicts.cached (auth.sha256 r.token) now with
      | .fresh reviewed => .reviewed r now reviewed
      | .rejected => .refused .unauthenticated
      | .expired stale => .renewing r now stale
      | .unknown => .asking r now

def afterReview (r : Request) (consulted : ℕ) : Option Reviewed → Phase
  | some reviewed => .reviewed r consulted reviewed
  | none => .refused .unauthenticated

def afterFailure (r : Request) (consulted : ℕ) : Option Reviewed → Phase
  | some stale => .reviewed r consulted stale
  | none => .refused .unavailable

def checkAccount (auth : Authenticator) (r : Request) (consulted : ℕ) (reviewed : Reviewed) :
    Phase :=
  if reviewed.account ≠ ServiceAccount.of auth.sha256 r.gateway then .refused .forbidden
  else .handled r consulted reviewed.podUid

def Phase.finished : Phase → Bool
  | .handled .. | .refused _ | .dropped => true
  | _ => false

variable {ι : Type} [DecidableEq ι]

/-- A request goes on to its next phase. -/
def World.moveTo (w : World ι) (i : ι) (phase : Phase) : World ι :=
  { w with requests := Function.update w.requests i phase }

variable (auth : Authenticator) (tokens : Set Bytes) in
/-- A step of a request or of the clock, where requests present some of the tokens. An answer is
taken, its verdict remembered, at one time. -/
inductive Step (w : World ι) : World ι → Prop
  | tick (d : ℕ) : Step w { w with now := w.now + d }
  | come {i r} : w.requests i = .absent → r.token ∈ tokens →
      r.came = w.now → Step w (w.moveTo i (.came r))
  | consult {i r} (wall : ℕ) : w.requests i = .came r →
      Step w (w.moveTo i (consult auth w.verdicts w.now wall r))
  | throttle {i r consulted} :
      w.requests i = .asking r consulted → Step w (w.moveTo i (.refused .throttled))
  | ask {i r consulted} : w.requests i = .asking r consulted →
      Step w (w.moveTo i (.reviewing r consulted none))
  | renew {i r consulted stale} : w.requests i = .renewing r consulted stale →
      Step w (w.moveTo i (.reviewing r consulted (some stale)))
  | noPermit {i r consulted stale} : w.requests i = .renewing r consulted stale →
      Step w { w.moveTo i (.reviewed r consulted stale) with history := .noVerdict i :: w.history }
  | answer {i r consulted stale} (status : TokenReviewStatus) :
      w.requests i = .reviewing r consulted stale →
      Step w
        { w.moveTo i (afterReview r consulted (auth.verdict status)) with
          verdicts := w.verdicts.remember (auth.sha256 r.token) (auth.verdict status) w.now
          history := .answered r.token status w.now :: w.history }
  | fail {i r consulted stale} : w.requests i = .reviewing r consulted stale →
      Step w
        { w.moveTo i (afterFailure r consulted stale) with history := .noVerdict i :: w.history }
  | check {i r consulted reviewed} : w.requests i = .reviewed r consulted reviewed →
      Step w (w.moveTo i (checkAccount auth r consulted reviewed))
  | drop {i} : (w.requests i).finished = false →
      Step w (w.moveTo i .dropped)

/-- Nothing has come, and nothing is cached. -/
def Fresh (w : World ι) : Prop :=
  w.verdicts = ⟨∅, none⟩ ∧ (∀ i, w.requests i = .absent) ∧ w.history = []

end
end Portail.Controller.Auth
