import Portail.Http.RequestHead

/-!
# What the fields of a head say

Each field contributes on its own to the reading of a head (`Field.hostPart`,
`Field.lengthPart`, ...). A head without violation is read by adding these
contributions up (`HeadState.readLines_eq`), and the violations the parser flags
are those of single fields and repeated ones (`FieldsOk`).
-/

namespace Portail.Http

open Lib List

section

/-- The names the parser acts on, in the order it tries them. -/
def fieldTable : List (String × FieldName) :=
  [("host", .host), ("content-length", .contentLength), ("transfer-encoding", .transferEncoding),
    ("upgrade", .upgrade), ("connection", .connection), ("expect", .expect),
    ("keep-alive", .keepAlive), ("proxy-connection", .proxyConnection), ("te", .te),
    ("trailer", .trailer), ("http2-settings", .http2Settings), ("forwarded", .forwardingClaim),
    ("x-forwarded-ssl", .forwardingClaim), ("x-forwarded-host", .forwardingClaim),
    ("x-forwarded-port", .forwardingClaim), ("x-forwarded-proto", .forwardingClaim),
    ("x-forwarded-scheme", .forwardingClaim)]

variable {name : Bytes} {lit : String} {k : FieldName}

theorem eqIgnore_of_named {len : ℕ} {first : UInt8} (h : named name len first lit = true) :
    eqIgnoreAsciiCase name (bytes lit) = true := by
  simp only [named, Bool.and_eq_true] at h
  exact h.2

/-- The dispatch of `named` does not see the case of a name either. -/
theorem named_congr {x y : Bytes} (h : eqIgnoreAsciiCase x y = true) : named x = named y := by
  have hlow : ∀ b : UInt8, b ||| 0x20 = toAsciiLowercase b ||| 0x20 :=
    forall_octet (by decide +kernel)
  have hhead : x.headD 0 ||| 0x20 = y.headD 0 ||| 0x20 := by
    have hmap := eqIgnoreAsciiCase_iff.mp h
    cases x with
    | nil => cases y with
      | nil => rfl
      | cons b y => simp at hmap
    | cons a x => cases y with
      | nil => simp at hmap
      | cons b y =>
        simp only [map_cons, List.cons.injEq] at hmap
        rw [headD_cons, headD_cons, hlow a, hlow b, hmap.1]
  funext len first lit
  rw [named, named, eqIgnoreAsciiCase_length h, hhead, eqIgnoreAsciiCase_congr h]

theorem fieldName_congr {x y : Bytes} (h : eqIgnoreAsciiCase x y = true) :
    fieldName x = fieldName y := by
  have hclaim : isForwardingClaim x = isForwardingClaim y := by
    rw [isForwardingClaim, isForwardingClaim, named_congr h]
  rw [fieldName, fieldName, named_congr h, hclaim]

theorem fieldName_of_mem (hmem : (lit, k) ∈ fieldTable)
    (h : eqIgnoreAsciiCase name (bytes lit) = true) : fieldName name = k := by
  have htable : ∀ p ∈ fieldTable, fieldName (bytes p.1) = p.2 := by decide +kernel
  rw [fieldName_congr h]
  exact htable _ hmem

theorem mem_of_fieldName (h : fieldName name = k) (hk : k ≠ .other) :
    ∃ lit, (lit, k) ∈ fieldTable ∧ eqIgnoreAsciiCase name (bytes lit) = true := by
  have hcase : ∀ {c : Bool} {a b : FieldName}, (if c = true then a else b) = k →
      (c = true ∧ a = k) ∨ b = k := by
    intro c a b h
    cases c
    · exact .inr h
    · exact .inl ⟨rfl, h⟩
  rw [fieldName] at h
  iterate 11
    rcases hcase h with ⟨hn, rfl⟩ | h
    · exact ⟨_, by simp [fieldTable], eqIgnore_of_named hn⟩
  rcases hcase h with ⟨hclaim, rfl⟩ | h
  · simp only [isForwardingClaim, Bool.or_eq_true] at hclaim
    rcases hclaim with ((((h | h) | h) | h) | h) | h <;>
      exact ⟨_, by simp [fieldTable], eqIgnore_of_named h⟩
  · exact absurd h.symm hk

/-- A name the table lists once is recognised exactly up to case. -/
theorem fieldName_eq_iff (hmem : (lit, k) ∈ fieldTable)
    (honly : ∀ p ∈ fieldTable, p.2 = k → p.1 = lit) (hk : k ≠ .other) :
    fieldName name = k ↔ eqIgnoreAsciiCase name (bytes lit) = true := by
  constructor
  · intro h
    obtain ⟨lit', hmem', heq⟩ := mem_of_fieldName h hk
    obtain rfl : lit' = lit := honly _ hmem' rfl
    exact heq
  · exact fieldName_of_mem hmem

end

namespace Field

variable (f : Field)

def kind : FieldName := fieldName f.name

def hostPart : Option Bytes :=
  if f.kind = .host then (splitHost (trimOws f.value)).map (trimOws f.value).take else none

def lengthPart : Option ℕ :=
  if f.kind = .contentLength then parseDigits (trimOws f.value) else none

def isCoding : Bool := decide (f.kind = .transferEncoding)

def offersUpgrade : Bool := decide (f.kind = .upgrade) && !offersH2c f.value

def offersH2cUpgrade : Bool := decide (f.kind = .upgrade) && offersH2c f.value

def expectsContinue : Bool :=
  decide (f.kind = .expect) && eqIgnoreAsciiCase (trimOws f.value) (bytes "100-continue")

def tokens : List Bytes :=
  if f.kind = .connection then (f.value.splitOn comma).map trimOws else []

end Field

def isCloseToken (t : Bytes) : Bool := eqIgnoreAsciiCase t (bytes "close")

def isKeepAliveToken (t : Bytes) : Bool := eqIgnoreAsciiCase t (bytes "keep-alive")

def isUpgradeToken (t : Bytes) : Bool := eqIgnoreAsciiCase t (bytes "upgrade")

/-- A token that nominates a header the span path would not strip. -/
def isExtraToken (t : Bytes) : Bool :=
  !isCloseToken t && !isKeepAliveToken t && !isUpgradeToken t && !HeadState.isPinned t &&
    (!t.isEmpty && !eqIgnoreAsciiCase t (bytes "http2-settings"))

def keepaliveToken (acc : Option Bool) (t : Bytes) : Option Bool :=
  if isCloseToken t then some false else if isKeepAliveToken t then some true else acc

variable {t : Bytes} {http10 : Bool}

theorem isPinned_iff : HeadState.isPinned t = true ↔
    eqIgnoreAsciiCase t (bytes "content-length") = true ∨
      eqIgnoreAsciiCase t (bytes "transfer-encoding") = true ∨
      eqIgnoreAsciiCase t (bytes "host") = true := by
  simp [HeadState.isPinned, HeadState.pinnedNames]

theorem isPinned_congr {u : Bytes} (h : eqIgnoreAsciiCase t u = true) :
    HeadState.isPinned t = HeadState.isPinned u := by
  simp only [HeadState.isPinned, eqIgnoreAsciiCase_congr h]

theorem not_pinned_of_close (h : isCloseToken t = true) :
    HeadState.isPinned t = false ∧ isUpgradeToken t = false := by
  rw [isPinned_congr h, isUpgradeToken, eqIgnoreAsciiCase_congr h]
  decide

theorem not_pinned_of_keepAlive (h : isKeepAliveToken t = true) :
    HeadState.isPinned t = false ∧ isUpgradeToken t = false := by
  rw [isPinned_congr h, isUpgradeToken, eqIgnoreAsciiCase_congr h]
  decide

theorem not_pinned_of_upgrade (h : isUpgradeToken t = true) : HeadState.isPinned t = false := by
  rw [isPinned_congr h]
  decide

@[simp] theorem StripSpans.orSlowPath_false (s : StripSpans) : s.orSlowPath false = s := by
  simp [StripSpans.orSlowPath]

theorem StripSpans.orSlowPath_orSlowPath (s : StripSpans) (a b : Bool) :
    (s.orSlowPath a).orSlowPath b = s.orSlowPath (a || b) := by
  simp [StripSpans.orSlowPath, Bool.or_assoc]

namespace HeadState

theorem readConnectionToken_eq (st : HeadState) (t : Bytes) :
    st.readConnectionToken t =
      { st with
        violation := st.violation || isPinned t
        explicitKeepalive := keepaliveToken st.explicitKeepalive t
        connectionHasUpgrade := st.connectionHasUpgrade || isUpgradeToken t
        stripSpans := st.stripSpans.orSlowPath (isExtraToken t) } := by
  by_cases hc : isCloseToken t = true
  · obtain ⟨hp, hu⟩ := not_pinned_of_close hc
    have hc' : eqIgnoreAsciiCase t (bytes "close") = true := hc
    simp [readConnectionToken, hc', hp, hu, keepaliveToken, hc, isExtraToken]
  have hc : isCloseToken t = false := by simpa using hc
  have hc' : eqIgnoreAsciiCase t (bytes "close") = false := hc
  by_cases hk : isKeepAliveToken t = true
  · obtain ⟨hp, hu⟩ := not_pinned_of_keepAlive hk
    have hk' : eqIgnoreAsciiCase t (bytes "keep-alive") = true := hk
    simp [readConnectionToken, hc', hk', hp, hu, keepaliveToken, hc, hk, isExtraToken]
  have hk : isKeepAliveToken t = false := by simpa using hk
  have hk' : eqIgnoreAsciiCase t (bytes "keep-alive") = false := hk
  by_cases hu : isUpgradeToken t = true
  · have hp := not_pinned_of_upgrade hu
    have hu' : eqIgnoreAsciiCase t (bytes "upgrade") = true := hu
    simp [readConnectionToken, hc', hk', hu', hp, hu, keepaliveToken, hc, hk, isExtraToken]
  have hu : isUpgradeToken t = false := by simpa using hu
  have hu' : eqIgnoreAsciiCase t (bytes "upgrade") = false := hu
  by_cases hp : isPinned t = true
  · simp [readConnectionToken, hc', hk', hu', hp, hu, keepaliveToken, hc, hk, isExtraToken]
  have hp : isPinned t = false := by simpa using hp
  by_cases hx : (!t.isEmpty && !eqIgnoreAsciiCase t (bytes "http2-settings")) = true
  · simp only [readConnectionToken, hc', hk', hu', hp, hx, hu, keepaliveToken, hc, hk, isExtraToken]
    simp
  · have hx : (!t.isEmpty && !eqIgnoreAsciiCase t (bytes "http2-settings")) = false := by
      simpa using hx
    simp only [readConnectionToken, hc', hk', hu', hp, hx, hu, keepaliveToken, hc, hk, isExtraToken]
    simp

theorem readConnectionTokens_eq (st : HeadState) (ts : List Bytes) :
    ts.foldl (fun st t => st.readConnectionToken (trimOws t)) st =
      { st with
        violation := st.violation || (ts.map trimOws).any isPinned
        explicitKeepalive := (ts.map trimOws).foldl keepaliveToken st.explicitKeepalive
        connectionHasUpgrade := st.connectionHasUpgrade || (ts.map trimOws).any isUpgradeToken
        stripSpans := st.stripSpans.orSlowPath ((ts.map trimOws).any isExtraToken) } := by
  induction ts generalizing st with
  | nil => simp
  | cons t ts ih =>
    rw [foldl_cons, ih, readConnectionToken_eq]
    simp [StripSpans.orSlowPath_orSlowPath, Bool.or_assoc]

end HeadState

namespace Field

variable (f : Field)

/-- What the parser asks of a field by itself. -/
def ok (http10 : Bool) : Bool :=
  match f.kind with
  | .host => (splitHost (trimOws f.value)).isSome
  | .contentLength => (parseDigits (trimOws f.value)).isSome
  | .transferEncoding => !http10 && eqIgnoreAsciiCase (trimOws f.value) (bytes "chunked")
  | .connection => !f.tokens.any HeadState.isPinned
  | _ => true

/-- What forwarding does with the line. -/
def lineKind : LineKind :=
  match f.kind with
  | .host | .contentLength | .transferEncoding | .other => .keep
  | .upgrade => if offersH2c f.value then .strip else .upgrade
  | _ => .strip

end Field

namespace HeadState

/-- The locals after one field without violation. -/
def advance (st : HeadState) (f : Field) : HeadState :=
  { st with
    pos := st.pos + f.wire.length
    host := st.host <|> f.hostPart
    explicitKeepalive := f.tokens.foldl keepaliveToken st.explicitKeepalive
    contentLength := st.contentLength <|> f.lengthPart
    isChunked := st.isChunked || f.isCoding
    hasUpgradeHeader := st.hasUpgradeHeader || f.offersUpgrade
    offersH2cUpgrade := st.offersH2cUpgrade || f.offersH2cUpgrade
    connectionHasUpgrade := st.connectionHasUpgrade || f.tokens.any isUpgradeToken
    expectContinue := st.expectContinue || f.expectsContinue
    stripSpans :=
      let spans := st.stripSpans.orSlowPath
        (f.offersUpgrade && st.hasUpgradeHeader || f.tokens.any isExtraToken)
      if f.lineKind = .strip then spans.push st.pos (st.pos + f.wire.length) else spans
    upgradeSpan :=
      if f.lineKind = .upgrade then some (asU32 st.pos, asU32 (st.pos + f.wire.length))
      else st.upgradeSpan }

/-- A field may come next: it is in order by itself and repeats no field that must not be. -/
def admits (http10 : Bool) (st : HeadState) (f : Field) : Bool :=
  f.ok http10 && !(decide (f.kind = .host) && st.host.isSome) &&
    !(decide (f.kind = .contentLength) && st.contentLength.isSome) && !(f.isCoding && st.isChunked)

theorem readField_eq (http10 : Bool) (st : HeadState) (f : Field) (hv : st.violation = false) :
    (st.readField http10 f.name f.value).1.violation = !st.admits http10 f ∧
      (st.admits http10 f = true → (st.readField http10 f.name f.value).2 = f.lineKind ∧
        (st.readField http10 f.name f.value).1 =
          { st.advance f with
            pos := st.pos
            upgradeSpan := st.upgradeSpan
            stripSpans := st.stripSpans.orSlowPath
              (f.offersUpgrade && st.hasUpgradeHeader || f.tokens.any isExtraToken) }) := by
  have hkind : fieldName f.name = f.kind := rfl
  obtain ⟨violation, pos, host, keepalive, length, chunked, upgrade, h2c, connection, spans, span,
    expect, terminated⟩ := st
  obtain rfl : violation = false := hv
  cases hk : f.kind
  case' host => cases hs : splitHost (trimOws f.value) <;> cases host
  case' contentLength => cases hs : parseDigits (trimOws f.value) <;> cases length
  case' transferEncoding =>
    cases hc : eqIgnoreAsciiCase (trimOws f.value) (bytes "chunked") <;> cases http10 <;>
      cases chunked
  case' upgrade => cases hh : offersH2c f.value
  case' expect => cases hh : eqIgnoreAsciiCase (trimOws f.value) (bytes "100-continue")
  all_goals
    simp [*, readField, readConnectionTokens_eq, admits, advance, Field.ok, Field.hostPart,
      Field.lengthPart, Field.isCoding, Field.offersUpgrade, Field.offersH2cUpgrade,
      Field.expectsContinue, Field.tokens, Field.lineKind]

theorem readOne_eq (http10 : Bool) (st : HeadState) (f : Field) (hv : st.violation = false) :
    (st.readOne http10 f).violation = !st.admits http10 f ∧
      (st.admits http10 f = true → st.readOne http10 f = st.advance f) := by
  obtain ⟨hviolation, heq⟩ :=
    readField_eq http10 { st with pos := st.pos + f.wire.length } f hv
  have hadmits : ({ st with pos := st.pos + f.wire.length } : HeadState).admits http10 f =
      st.admits http10 f := rfl
  rw [hadmits] at hviolation heq
  cases ha : st.admits http10 f with
  | false =>
    simp only [ha, Bool.not_false] at hviolation
    simp [readOne, readLine, hviolation]
  | true =>
    obtain ⟨hkind, hstate⟩ := heq ha
    simp only [ha, Bool.not_true] at hviolation
    have hone : st.readOne http10 f = st.advance f := by
      rw [readOne, readLine]
      dsimp only
      rw [hviolation, hkind, hstate, if_neg Bool.false_ne_true]
      cases hline : f.lineKind <;> simp only [recordLine, advance, hline] <;> rfl
    refine ⟨?_, fun _ => hone⟩
    rw [hone]
    exact hv

/-- Every field is admitted where it stands. -/
def admitsAll (http10 : Bool) (st : HeadState) : List Field → Bool
  | [] => true
  | f :: fs => st.admits http10 f && (st.advance f).admitsAll http10 fs

/-- Reading the fields of a head: a violation unless all are admitted, else their sum. -/
theorem readLines_eq (http10 : Bool) (fs : List Field) (st : HeadState)
    (hv : st.violation = false) :
    (st.readLines http10 fs).violation = !st.admitsAll http10 fs ∧
      (st.admitsAll http10 fs = true →
        st.readLines http10 fs = { fs.foldl advance st with terminated := true }) := by
  induction fs generalizing st with
  | nil => exact ⟨hv, fun _ => rfl⟩
  | cons f fs ih =>
    obtain ⟨hviolation, heq⟩ := readOne_eq http10 st f hv
    cases ha : st.admits http10 f with
    | false => simp [readLines, admitsAll, hviolation, ha]
    | true =>
      have hnext : (st.advance f).violation = false := hv
      simp only [readLines, admitsAll, ha, heq ha, hnext, Bool.true_and, Bool.false_eq_true,
        if_false, foldl_cons]
      exact ih (st.advance f) hnext

theorem foldl_advance (fs : List Field) (st : HeadState) :
    (fs.foldl advance st).violation = st.violation ∧
    (fs.foldl advance st).pos = st.pos + (fieldsWire fs).length ∧
    (fs.foldl advance st).host = (st.host <|> fs.findSome? Field.hostPart) ∧
    (fs.foldl advance st).contentLength = (st.contentLength <|> fs.findSome? Field.lengthPart) ∧
    (fs.foldl advance st).isChunked = (st.isChunked || fs.any Field.isCoding) ∧
    (fs.foldl advance st).hasUpgradeHeader = (st.hasUpgradeHeader || fs.any Field.offersUpgrade) ∧
    (fs.foldl advance st).offersH2cUpgrade =
      (st.offersH2cUpgrade || fs.any Field.offersH2cUpgrade) ∧
    (fs.foldl advance st).connectionHasUpgrade =
      (st.connectionHasUpgrade || fs.any fun f => f.tokens.any isUpgradeToken) := by
  induction fs generalizing st with
  | nil => simp
  | cons f fs ih =>
    obtain ⟨h1, h2, h3, h4, h5, h6, h7, h8⟩ := ih (st.advance f)
    rw [foldl_cons, h1, h2, h3, h4, h5, h6, h7, h8]
    refine ⟨rfl, ?_, ?_, ?_, ?_, ?_, ?_, ?_⟩
    · simp [advance, add_assoc]
    · cases hf : f.hostPart <;> simp [advance, hf]
    · cases hf : f.lengthPart <;> simp [advance, hf]
    all_goals simp [advance, Bool.or_assoc]

end HeadState

/-- How often a field of a name is sent. -/
def repeated (n : FieldName) (fs : List Field) : ℕ := fs.countP fun f => decide (f.kind = n)

/-- The fields of a head the parser takes: each in order by itself, and neither Host,
Content-Length nor Transfer-Encoding sent twice. -/
structure FieldsOk (http10 : Bool) (fs : List Field) : Prop where
  each : ∀ f ∈ fs, f.ok http10 = true
  host_once : repeated .host fs ≤ 1
  length_once : repeated .contentLength fs ≤ 1
  coding_once : repeated .transferEncoding fs ≤ 1

theorem repeated_cons (n : FieldName) (f : Field) (fs : List Field) :
    repeated n (f :: fs) = repeated n fs + (decide (f.kind = n)).toNat := by
  rw [repeated, countP_cons]
  by_cases h : f.kind = n <;> simp [h, repeated]

theorem Field.hostPart_isSome {f : Field} (h : f.ok http10 = true) :
    f.hostPart.isSome = decide (f.kind = .host) := by
  by_cases hk : f.kind = .host
  · simp only [Field.ok, hk] at h
    simp [Field.hostPart, hk, h]
  · simp [Field.hostPart, hk]

theorem Field.lengthPart_isSome {f : Field} (h : f.ok http10 = true) :
    f.lengthPart.isSome = decide (f.kind = .contentLength) := by
  by_cases hk : f.kind = .contentLength
  · simp only [Field.ok, hk] at h
    simp [Field.lengthPart, hk, h]
  · simp [Field.lengthPart, hk]

theorem once_step {met now : Bool} {n : ℕ} :
    (!(now && met)) = true ∧ n + (met || now).toNat ≤ 1 ↔ n + now.toNat + met.toNat ≤ 1 := by
  cases met <;> cases now <;> simp

namespace HeadState

theorem admitsAll_iff (http10 : Bool) (fs : List Field) (st : HeadState) :
    st.admitsAll http10 fs = true ↔
      (∀ f ∈ fs, f.ok http10 = true) ∧
      repeated .host fs + st.host.isSome.toNat ≤ 1 ∧
      repeated .contentLength fs + st.contentLength.isSome.toNat ≤ 1 ∧
      repeated .transferEncoding fs + st.isChunked.toNat ≤ 1 := by
  induction fs generalizing st with
  | nil =>
    have hle := Bool.toNat_le st.host.isSome
    have hle' := Bool.toNat_le st.contentLength.isSome
    have hle'' := Bool.toNat_le st.isChunked
    simp [admitsAll, repeated, hle, hle', hle'']
  | cons f fs ih =>
    simp only [admitsAll, Bool.and_eq_true, ih, forall_mem_cons, repeated_cons, admits]
    by_cases hok : f.ok http10 = true
    · have hhost : (st.advance f).host.isSome = (st.host.isSome || decide (f.kind = .host)) := by
        rw [← Field.hostPart_isSome hok]
        cases h : st.host <;> simp [advance, h]
      have hlength : (st.advance f).contentLength.isSome =
          (st.contentLength.isSome || decide (f.kind = .contentLength)) := by
        rw [← Field.lengthPart_isSome hok]
        cases h : st.contentLength <;> simp [advance, h]
      have hcoding : (st.advance f).isChunked =
          (st.isChunked || decide (f.kind = .transferEncoding)) := rfl
      rw [hhost, hlength, hcoding, Field.isCoding, ← once_step, ← once_step, ← once_step]
      tauto
    · simp [hok]

end HeadState

/-- From the start of a head, the parser flags no field exactly when they are in order. -/
theorem fieldsOk_iff {fs : List Field} {pos : ℕ} :
    HeadState.admitsAll http10 { violation := false, pos } fs = true ↔ FieldsOk http10 fs := by
  rw [HeadState.admitsAll_iff]
  constructor
  · rintro ⟨heach, hhost, hlength, hcoding⟩
    exact ⟨heach, by simpa using hhost, by simpa using hlength, by simpa using hcoding⟩
  · rintro ⟨heach, hhost, hlength, hcoding⟩
    exact ⟨heach, by simpa using hhost, by simpa using hlength, by simpa using hcoding⟩

end Portail.Http
