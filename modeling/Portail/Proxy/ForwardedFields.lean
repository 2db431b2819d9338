import Portail.Proxy.RequestTarget

/-!
# The fields of a forwarded request

Both ways of assembling the outgoing head drop, replace or keep each field of the
client's head and then add the proxy's own (`assembleForwardHeaders_eq`,
`assembleForwardHeadersSlow_eq`). `Relays` says what the two have in common, which
is all that framing and routing depend on.
-/

namespace Portail.Proxy

open Lib Http Field List Option Bool

def written (name value : Bytes) (hname : isToken name = true)
    (hvalue : ∀ b ∈ value, isFieldValueByte b = true) : Field where
  name := name
  value := sp :: value
  name_token := hname
  value_text := by
    intro b hb
    rcases mem_cons.mp hb with rfl | hb
    · decide
    · exact hvalue b hb

theorem written_wire {name value : Bytes} (hname : isToken name = true)
    (hvalue : ∀ b ∈ value, isFieldValueByte b = true) :
    (written name value hname hvalue).wire = putHeader name value := by
  have hsep : bytes ": " = [colon, sp] := by decide
  simp [written, wire, putHeader, hsep]

/-- The Host line that stands for an authority. -/
def Authority.field (a : Authority) : Field :=
  written (bytes "Host") a.text (by decide) fun b hb => (a.text_byte b hb).1

theorem Authority.field_wire (a : Authority) : a.field.wire = putHost a.text := written_wire ..

theorem Authority.field_kind (a : Authority) : a.field.kind = .host :=
  show fieldName (bytes "Host") = .host by decide

theorem Authority.trimOws_field (a : Authority) : trimOws a.field.value = a.host ++ a.port := by
  have hows : ∀ b ∈ a.text, isOws b = false := fun b hb => (a.text_byte b hb).2.1
  rw [show a.field.value = sp :: a.text from rfl, trimOws_sp_cons,
    trimOws_of_trimmed (trimmed_of_forall hows)]
  rfl

theorem Authority.field_namesHost (a : Authority) : a.field.NamesHost a.host :=
  ⟨a.field.kind_host_iff.mp a.field_kind, a.port, a.trimOws_field, a.isHost, a.isPort⟩

theorem Authority.field_ok (a : Authority) (http10 : Bool) : a.field.ok http10 = true := by
  simp only [ok, a.field_kind, a.trimOws_field, splitHost_authority a.isHost a.isPort]
  rfl

theorem isFieldValueByte_of_ipText : ∀ b : UInt8, isIpText b = true → isFieldValueByte b = true :=
  forall_octet (by decide +kernel)

def forwardedFor (clientIp : IpAddr) : Field :=
  written (bytes "X-Forwarded-For") clientIp.display (by decide) fun b hb =>
    isFieldValueByte_of_ipText b (clientIp.display_text b hb)

def forwardedProto (isTls : Bool) : Field :=
  written (bytes "X-Forwarded-Proto") (if isTls then bytes "https" else bytes "http") (by decide)
    (by cases isTls <;> decide)

def connectionUpgrade : Field :=
  written (bytes "Connection") (bytes "upgrade") isToken_connection (by decide)

theorem forwardedLines_eq (clientIp : IpAddr) (isTls : Bool) :
    forwardedLines clientIp isTls = fieldsWire [forwardedFor clientIp, forwardedProto isTls] := by
  have htext : bytes "X-Forwarded-For: " ++ clientIp.display ++ bytes "\r\nX-Forwarded-Proto: " ++
      (if isTls then bytes "https" else bytes "http") ++ crlf =
      fieldsWire [forwardedFor clientIp, forwardedProto isTls] := by
    have hfor : bytes "X-Forwarded-For: " = bytes "X-Forwarded-For" ++ bytes ": " := by decide
    have hproto : bytes "\r\nX-Forwarded-Proto: " =
        crlf ++ (bytes "X-Forwarded-Proto" ++ bytes ": ") := by decide
    rw [fieldsWire_cons, fieldsWire_cons, forwardedFor, forwardedProto, written_wire, written_wire,
      putHeader, putHeader, hfor, hproto]
    simp
  have hlen : (fieldsWire [forwardedFor clientIp, forwardedProto isTls]).length ≤ forwardedCap := by
    have hip := clientIp.display_length_le
    have hcap : forwardedCap = 90 := by decide
    have hfor : (bytes "X-Forwarded-For: ").length = 17 := by decide
    have hproto : (bytes "\r\nX-Forwarded-Proto: ").length = 21 := by decide
    have hscheme : (if isTls then bytes "https" else bytes "http").length ≤ 5 := by
      cases isTls <;> decide
    rw [← htext, hcap]
    simp only [length_append, hfor, hproto, length_cons, length_nil]
    omega
  have hcap : forwardedCap < 2 ^ 8 := by decide
  rw [forwardedLines]
  simp only [htext, take_of_length_le hlen]
  rw [Nat.mod_eq_of_lt (lt_of_le_of_lt hlen hcap), take_length]

/-- The lines the proxy adds: `host` where an HTTP/1.0 client sent none. -/
def proxyFields (clientIp : IpAddr) (isTls keepUpgrade : Bool) (host : Option Authority) :
    List Field :=
  [forwardedFor clientIp, forwardedProto isTls] ++
    (if keepUpgrade then [connectionUpgrade] else []) ++ (host.map Authority.field).toList

theorem appendForwardHeaders_eq (clientIp : IpAddr) (isTls keepUpgrade : Bool)
    (a : Option Authority) (line : Option (ℕ × ℕ)) :
    appendForwardHeaders (forwardedLines clientIp isTls) keepUpgrade
        (a.map fun a => ⟨a.text, line⟩) =
      fieldsWire (proxyFields clientIp isTls keepUpgrade (if line.isNone then a else none)) := by
  have hupgrade : bytes "Connection: upgrade\r\n" = connectionUpgrade.wire := by decide
  rw [proxyFields, fieldsWire_append, fieldsWire_append, ← forwardedLines_eq]
  cases keepUpgrade <;> cases a <;> cases line <;>
    simp [appendForwardHeaders, hupgrade, Authority.field_wire]

def stripEdit (f : Field) : Option Bytes := if f.lineKind = .strip then some [] else none

def upgradeEdit (keepUpgrade : Bool) (f : Field) : Option Bytes :=
  if f.lineKind = .upgrade ∧ keepUpgrade = false then some [] else none

def hostEdit (authority : Option Bytes) (f : Field) : Option Bytes :=
  if f.kind = .host then authority.map putHost else none

theorem lineKind_upgrade_iff (f : Field) : f.lineKind = .upgrade ↔ f.offersUpgrade = true := by
  cases hk : f.kind <;> cases hh : offersH2c f.value <;> simp [lineKind, offersUpgrade, hk, hh]

/-- A field that leaves the head on the span path: what the parser recorded for it. -/
theorem advance_spans {st : HeadState} {f : Field}
    (hslow : (st.advance f).stripSpans.needsSlowPath = false)
    (hlen : st.pos + f.wire.length < 2 ^ 32) :
    st.stripSpans.needsSlowPath = false ∧
      (f.lineKind = .upgrade → st.hasUpgradeHeader = false) ∧
      (st.advance f).stripSpans.spans.map spanCut = st.stripSpans.spans.map spanCut ++
        ((stripEdit f).map fun text => ⟨st.pos, st.pos + f.wire.length, text⟩).toList := by
  by_cases hstrip : f.lineKind = .strip
  · simp only [HeadState.advance, hstrip, if_true] at hslow ⊢
    obtain ⟨hclear, hspans⟩ := StripSpans.push_spec hslow
    refine ⟨(or_eq_false_iff.mp hclear).1, fun hline => ?_, ?_⟩
    · cases hline
    · rw [hspans, asU32_of_lt (by omega), asU32_of_lt hlen]
      simp [stripEdit, hstrip, spanCut, StripSpans.orSlowPath]
  · simp only [HeadState.advance, hstrip, if_false, StripSpans.orSlowPath, or_eq_false_iff]
      at hslow ⊢
    refine ⟨hslow.1, fun hline => ?_, by simp [stripEdit, hstrip]⟩
    simpa [(lineKind_upgrade_iff f).mp hline] using hslow.2.1

/-- The spans of a head on the span path are its lines to strip, in order. -/
theorem foldl_advance_spans {fs : List Field} (st : HeadState)
    (hslow : (fs.foldl HeadState.advance st).stripSpans.needsSlowPath = false)
    (hlen : st.pos + (fieldsWire fs).length < 2 ^ 32)
    (hupgrade : st.hasUpgradeHeader = st.upgradeSpan.isSome) :
    st.stripSpans.needsSlowPath = false ∧
      (fs.foldl HeadState.advance st).stripSpans.spans.map spanCut =
        st.stripSpans.spans.map spanCut ++ cutsAt wire stripEdit st.pos fs ∧
      (fs.foldl HeadState.advance st).upgradeSpan.toList.map spanCut =
        st.upgradeSpan.toList.map spanCut ++ cutsAt wire (upgradeEdit false) st.pos fs := by
  induction fs generalizing st with
  | nil => exact ⟨hslow, by simp [cutsAt], by simp [cutsAt]⟩
  | cons f fs ih =>
    rw [fieldsWire_cons, length_append, ← add_assoc] at hlen
    have hone : st.pos + f.wire.length < 2 ^ 32 := by omega
    have hnext : (st.advance f).hasUpgradeHeader = (st.advance f).upgradeSpan.isSome := by
      by_cases hline : f.lineKind = .upgrade
      · simp [HeadState.advance, hline, (lineKind_upgrade_iff f).mp hline]
      · have hoffers : f.offersUpgrade = false := by
          rwa [lineKind_upgrade_iff, not_eq_true] at hline
        simp [HeadState.advance, hline, hoffers, hupgrade]
    obtain ⟨hslow', hspans, hspan⟩ := ih (st.advance f) hslow hlen hnext
    obtain ⟨hclear, hfirst, hstep⟩ := advance_spans hslow' hone
    have hpos : (st.advance f).pos = st.pos + f.wire.length := rfl
    refine ⟨hclear, ?_, ?_⟩
    · rw [foldl_cons, hspans, hstep, hpos, cutsAt_cons, append_assoc]
    · rw [foldl_cons, hspan, hpos, cutsAt_cons, ← append_assoc]
      congr 1
      by_cases hline : f.lineKind = .upgrade
      · have hnone : st.upgradeSpan = none := by
          rw [hfirst hline] at hupgrade
          simpa using hupgrade.symm
        simp [HeadState.advance, hline, hnone, upgradeEdit, spanCut, asU32_of_lt hone,
          asU32_of_lt (show st.pos < 2 ^ 32 by omega)]
      · simp [HeadState.advance, hline, upgradeEdit]

theorem host_opening (f : Field) (rest : Bytes) :
    eqIgnoreAsciiCase ((f.line ++ rest).take 5) (bytes "host:") = true ↔ f.kind = .host := by
  have hcolon : ∀ b : UInt8, toAsciiLowercase b = colon ↔ b = colon :=
    forall_octet (by decide +kernel)
  have hname : colon ∉ f.name := fun hb => (tchar_spec colon (f.name_tchar colon hb)).2.2.1 rfl
  rw [f.kind_host_iff, isNamed]
  constructor
  · intro h
    have hlen := eqIgnoreAsciiCase_length h
    rw [show (bytes "host:").length = 5 by decide] at hlen
    obtain ⟨w, c, hw⟩ : ∃ w c, (f.line ++ rest).take 5 = w ++ [c] := by
      refine ⟨_, _, (dropLast_append_getLast ?_).symm⟩
      rintro hnil
      simp [hnil] at hlen
    rw [hw, eqIgnoreAsciiCase_iff, show (bytes "host:").map toAsciiLowercase =
      (bytes "host").map toAsciiLowercase ++ [colon] by decide, map_append] at h
    obtain ⟨hhost, hc⟩ := append_inj' h rfl
    obtain rfl : c = colon := (hcolon c).mp (by simpa using hc)
    have hwcolon : colon ∉ w := by
      intro hb
      have hmem : toAsciiLowercase colon ∈ w.map toAsciiLowercase := mem_map_of_mem hb
      rw [hhost] at hmem
      exact absurd hmem (by decide)
    -- both end at the first colon of the line
    have hfirst : memchr colon (f.line ++ rest) = some w.length := by
      rw [← take_append_drop 5 (f.line ++ rest), hw, append_assoc]
      exact memchr_append hwcolon _
    have hsecond : memchr colon (f.line ++ rest) = some f.name.length := by
      rw [line, append_assoc]
      exact memchr_append hname _
    have hwname : f.name = w := by
      rw [hfirst] at hsecond
      have hsplit := take_append_drop 5 (f.line ++ rest)
      rw [hw, append_assoc, line, append_assoc] at hsplit
      exact (append_inj_left hsplit (some.inj hsecond)).symm
    rw [eqIgnoreAsciiCase_iff, hwname]
    exact hhost
  · intro h
    have hlen : f.name.length = 4 := eqIgnoreAsciiCase_length h
    have htake : (f.line ++ rest).take 5 = f.name ++ [colon] := by
      rw [line, append_assoc, cons_append,
        show f.name ++ colon :: (f.value ++ rest) =
          (f.name ++ [colon]) ++ (f.value ++ rest) by simp]
      exact take_left' (by simp [hlen])
    rw [htake, eqIgnoreAsciiCase_iff, map_append, eqIgnoreAsciiCase_iff.mp h]
    decide

theorem splitOn_lf_fields (fs : List Field) : (fieldsWire fs ++ crlf).splitOn lf =
    fs.map (fun f => f.line ++ [cr]) ++ [[cr], []] := by
  induction fs with
  | nil => decide
  | cons f fs ih =>
    rw [fieldsWire_cons, f.wire_eq, append_assoc, append_assoc,
      splitOn_lf_line f.lf_not_mem_line, ih]
    rfl

/-- The Host line `host_line` finds, as a cut. -/
theorem hostLineFrom_fields {fs : List Field} (start : ℕ)
    (hlen : start + (fieldsWire fs).length < 2 ^ 32) (honce : repeated .host fs ≤ 1)
    (text : Bytes) :
    ((hostLineFrom start (fs.map (fun f => f.line ++ [cr]) ++ [[cr], []])).toList.map
        fun l => (⟨l.1, l.2, text⟩ : Cut UInt8)) =
      cutsAt wire (fun f => if f.kind = .host then some text else none) start fs := by
  induction fs generalizing start with
  | nil => simp [hostLineFrom, cutsAt]
  | cons f fs ih =>
    rw [fieldsWire_cons, length_append, ← add_assoc] at hlen
    rw [repeated_cons] at honce
    have hstop : start + (f.line ++ [cr]).length + 1 = start + f.wire.length := by
      simp [f.wire_eq]
      omega
    obtain ⟨next, rest, hnext⟩ : ∃ next rest,
        fs.map (fun f => f.line ++ [cr]) ++ [[cr], []] = next :: rest := by
      cases fs <;> exact ⟨_, _, rfl⟩
    have hopen : (5 ≤ (f.line ++ [cr]).length + 1 ∧
        eqIgnoreAsciiCase ((f.line ++ [cr] ++ [lf]).take 5) (bytes "host:") = true) ↔
          f.kind = .host := by
      rw [← host_opening f crlf, append_assoc]
      refine and_iff_right_of_imp fun h => ?_
      have hlen := eqIgnoreAsciiCase_length h
      rw [show (bytes "host:").length = 5 by decide, length_take] at hlen
      simp only [length_append, length_cons, length_nil] at hlen ⊢
      omega
    rw [map_cons, cons_append, hnext, hostLineFrom, ← hnext, cutsAt_cons]
    simp only [hopen, hstop]
    by_cases hk : f.kind = .host
    · have hrest : ∀ g ∈ fs, g.kind ≠ .host := by
        intro g hg hkg
        have hzero : repeated .host fs = 0 := by simp [hk] at honce; exact honce
        rw [repeated, countP_eq_zero] at hzero
        exact hzero g hg (by simp [hkg])
      rw [if_pos hk, if_pos hk, cutsAt_eq_nil_iff.mpr fun g hg => if_neg (hrest g hg),
        asU32_of_lt (by omega), asU32_of_lt (by omega)]
      rfl
    · rw [if_neg hk, if_neg hk, ih _ (by omega) (le_trans (Nat.le_add_right _ _) honce)]
      rfl

section

def hostCut (text : Bytes) (line : ℕ × ℕ) : Cut UInt8 := ⟨line.1, line.2, text⟩

/-- The two lines cut besides the spans are merged by where they start. -/
theorem linesInOrder_eq {u l : Option (ℕ × ℕ)} (text : Bytes) (hne : ∀ x ∈ u, ∀ y ∈ l, x.1 ≠ y.1) :
    ((linesInOrder u l).map fun line => hostCut (if some line = l then text else []) line) =
      mergeCuts (u.toList.map spanCut) (l.toList.map (hostCut text)) := by
  cases u with
  | none =>
    cases l with
    | none => simp [linesInOrder, mergeCuts]
    | some l => simp [linesInOrder, mergeCuts]
  | some u =>
    cases l with
    | none => simp [linesInOrder, mergeCuts, spanCut, hostCut]
    | some l =>
      have hne1 : u.1 ≠ l.1 := hne u rfl l rfl
      have hne2 : u ≠ l := fun h => hne1 (by rw [h])
      by_cases hlt : l.1 < u.1
      · simp [linesInOrder, mergeCuts, spanCut, hostCut, hlt, hne2]
      · have hle : u.1 ≤ l.1 := Nat.le_of_not_lt hlt
        simp [linesInOrder, mergeCuts, spanCut, hostCut, hlt, hne2, hle, Ne.symm hne1]

theorem edits_disjoint (keepUpgrade : Bool) (authority : Option Bytes) (f : Field) :
    upgradeEdit keepUpgrade f = none ∨ hostEdit authority f = none := by
  by_cases hk : f.kind = .host
  · left
    simp [upgradeEdit, lineKind, hk]
  · right
    simp [hostEdit, hk]

theorem strip_disjoint (keepUpgrade : Bool) (authority : Option Bytes) (f : Field) :
    stripEdit f = none ∨ (upgradeEdit keepUpgrade f).or (hostEdit authority f) = none := by
  by_cases hline : f.lineKind = .strip
  · right
    have hk : f.kind ≠ .host := by
      intro hk
      simp [lineKind, hk] at hline
    simp [upgradeEdit, hostEdit, hline, hk]
  · left
    simp [stripEdit, hline]

/-- What the span path writes for a field. -/
def spanText (keepUpgrade : Bool) (authority : Option Bytes) (f : Field) : Bytes :=
  ((stripEdit f).or ((upgradeEdit keepUpgrade f).or (hostEdit authority f))).getD f.wire

/-- What the span path does with one field. -/
def spanPass (keepUpgrade : Bool) (a : Option Authority) (f : Field) : Option Field :=
  match f.lineKind with
  | .strip => none
  | .upgrade => if keepUpgrade then some f else none
  | .keep => if f.kind = .host then some ((a.map Authority.field).getD f) else some f

theorem spanPass_wire (keepUpgrade : Bool) (a : Option Authority) (f : Field) :
    spanText keepUpgrade (a.map Authority.text) f =
      ((spanPass keepUpgrade a f).map wire).getD [] := by
  unfold spanText
  cases hline : f.lineKind with
  | strip => simp [stripEdit, spanPass, hline]
  | upgrade =>
    have hk : f.kind ≠ .host := by
      intro hk
      simp [lineKind, hk] at hline
    cases keepUpgrade <;> simp [stripEdit, upgradeEdit, hostEdit, spanPass, hline, hk]
  | keep =>
    by_cases hk : f.kind = .host
    · cases a <;> simp [stripEdit, upgradeEdit, hostEdit, spanPass, hline, hk, Authority.field_wire]
    · simp [stripEdit, upgradeEdit, hostEdit, spanPass, hline, hk]

theorem fieldsWire_filterMap (d : Field → Option Field) (fs : List Field) :
    fieldsWire (fs.filterMap d) = fs.flatMap fun f => ((d f).map wire).getD [] := by
  induction fs with
  | nil => rfl
  | cons f fs ih =>
    cases hd : d f with
    | none => simp [filterMap_cons_none hd, hd, ih]
    | some g => simp [filterMap_cons_some hd, hd, ih]

/-- The request line sent for a new path, or the client's own. -/
def outgoingLine (line : Bytes) (path : Option Bytes) : Bytes :=
  (path.map fun path => putRequestLine line path none).getD line

variable {h : RequestHead}

theorem headerStart_eq (h : RequestHead) :
    h.headerStart = h.firstLine.length + 2 := by
  have hversion : (httpVersion h.http10).length = 8 := by
    cases h.http10 <;> decide
  simp only [RequestHead.headerStart, requestLine, length_append, length_cons, hversion]
  omega

theorem hostLine_wire (hs : h.Strict) : hostLine h.wire =
    hostLineFrom h.headerStart (h.fields.map (fun f => f.line ++ [cr]) ++ [[cr], []]) := by
  rw [wire_eq_line, hostLine, splitOn_lf_line hs.firstLine_plain.2, splitOn_lf_fields,
    headerStart_eq]
  cases h.fields <;> simp

theorem hostLine_isNone_iff (hs : h.Strict) (hlen : h.wire.length < 2 ^ 32) :
    (hostLine h.wire).isNone = true ↔ ∀ f ∈ h.fields, f.kind ≠ .host := by
  rw [RequestHead.wire_length] at hlen
  have hline := hostLineFrom_fields h.headerStart (by omega)
    (RequestHead.fieldsOk_of_strict hs).host_once []
  rw [← hostLine_wire hs] at hline
  have hnil : (hostLine h.wire).isNone = true ↔
      cutsAt wire (fun f => if f.kind = .host then some ([] : Bytes) else none) h.headerStart
        h.fields = [] := by
    rw [← hline]
    cases hostLine h.wire <;> simp
  rw [hnil, cutsAt_eq_nil_iff]
  simp

theorem wire_drop_fields (h : RequestHead) :
    h.wire.drop h.headerStart = h.fields.flatMap wire ++ crlf := by
  rw [wire_eq_line, headerStart_eq, ← append_assoc, ← append_assoc, append_assoc]
  exact drop_left' (by simp)

theorem endState_spans (hlen : h.wire.length < 2 ^ 32)
    (hslow : h.endState.stripSpans.needsSlowPath = false) :
    h.endState.stripSpans.spans.map spanCut =
        cutsAt wire stripEdit h.headerStart h.fields ∧
      h.endState.upgradeSpan.toList.map spanCut =
        cutsAt wire (upgradeEdit false) h.headerStart h.fields := by
  rw [RequestHead.wire_length] at hlen
  obtain ⟨-, hspans, hspan⟩ := foldl_advance_spans
    h.startState hslow (by simp only [RequestHead.startState]; omega) rfl
  exact ⟨hspans, hspan⟩

def hostText (authority : Option Bytes) : Bytes := (authority.map putHost).getD []

/-- An origin-form rewrite of a head, whatever authority it gives. -/
def originWith (raw : Bytes) (authority : Option Bytes) : Option OriginForm :=
  authority.map fun authority => ⟨authority, hostLine raw⟩

theorem originOf_eq (raw : Bytes) (a : Option Authority) :
    originOf raw a = originWith raw (a.map Authority.text) := by
  cases a <;> rfl

/-- The lines cut besides the spans are the Upgrade line that is not kept and the Host line that
is replaced. -/
theorem cutLines_eq (hs : h.Strict) (hlen : h.wire.length < 2 ^ 32)
    (hslow : h.endState.stripSpans.needsSlowPath = false) (keepUpgrade : Bool)
    (authority : Option Bytes) :
    ((linesInOrder (h.endState.upgradeSpan.filter fun _ => !keepUpgrade)
        ((originWith h.wire authority).bind OriginForm.hostLine)).map fun line =>
      hostCut (if some line = (originWith h.wire authority).bind OriginForm.hostLine
        then hostText authority else []) line) =
      cutsAt wire (fun f => (upgradeEdit keepUpgrade f).or (hostEdit authority f)) h.headerStart
        h.fields := by
  have hok := RequestHead.fieldsOk_of_strict hs
  obtain ⟨-, hspan⟩ := endState_spans hlen hslow
  rw [RequestHead.wire_length] at hlen
  have hupgrade : (h.endState.upgradeSpan.filter fun _ => !keepUpgrade).toList.map spanCut =
      cutsAt wire (upgradeEdit keepUpgrade) h.headerStart h.fields := by
    cases keepUpgrade with
    | false =>
      rw [← hspan]
      cases h.endState.upgradeSpan <;> rfl
    | true =>
      rw [cutsAt_eq_nil_iff.mpr fun f _ => by simp [upgradeEdit]]
      simp
  have hhost : ((originWith h.wire authority).bind OriginForm.hostLine).toList.map
      (hostCut (hostText authority)) = cutsAt wire (hostEdit authority) h.headerStart h.fields := by
    cases authority with
    | none =>
      rw [cutsAt_eq_nil_iff.mpr fun f _ => by simp [hostEdit]]
      rfl
    | some authority =>
      have hline := hostLineFrom_fields h.headerStart (by omega) hok.host_once (putHost authority)
      rw [← hostLine_wire hs] at hline
      exact hline
  rw [linesInOrder_eq, hupgrade, hhost,
    mergeCuts_cutsAt wire_ne fun f _ => edits_disjoint keepUpgrade authority f]
  intro x hx y hy
  have hx' : spanCut x ∈ cutsAt wire (upgradeEdit keepUpgrade) h.headerStart h.fields := by
    rw [← hupgrade]
    exact mem_map_of_mem (mem_toList.mpr hx)
  have hy' : hostCut (hostText authority) y ∈ cutsAt wire (hostEdit authority) h.headerStart
      h.fields := by
    rw [← hhost]
    exact mem_map_of_mem (mem_toList.mpr hy)
  exact start_ne_of_mem_cutsAt wire_ne (fun f _ => edits_disjoint keepUpgrade authority f) hx' hy'

theorem copySpans_eq (hlen : h.wire.length < 2 ^ 32)
    (hslow : h.endState.stripSpans.needsSlowPath = false) (keepUpgrade : Bool)
    (authority : Option Bytes) {cursor : ℕ} (hcursor : cursor ≤ h.headerStart) (out : Bytes)
    {st : ℕ × Bytes} (hst : st = mergeCopy h.wire (h.endState.stripSpans.spans.map spanCut)
      (cutsAt wire (fun f => (upgradeEdit keepUpgrade f).or (hostEdit authority f)) h.headerStart
        h.fields) (cursor, out)) :
    st.2 ++ slice h.wire st.1 (h.wire.length - 2) =
      out ++ slice h.wire cursor h.headerStart ++
        h.fields.flatMap (spanText keepUpgrade authority) := by
  obtain ⟨hspans, -⟩ := endState_spans hlen hslow
  rw [mergeCopy_eq, hspans,
    mergeCuts_cutsAt wire_ne fun f _ => strip_disjoint keepUpgrade authority f] at hst
  have hstop : h.wire.length - 2 = h.headerStart + (h.fields.flatMap wire).length := by
    rw [RequestHead.wire_length]
    rfl
  have hcopy := copyCuts_segments (fun f =>
    (stripEdit f).or ((upgradeEdit keepUpgrade f).or (hostEdit authority f)))
    (wire_drop_fields h) hcursor hstop out
  rw [hst]
  exact hcopy

/-- A head as it is forwarded: the request line, what is written for the client's lines, and the
proxy's own. -/
def forwardedText (h : RequestHead) (path : Option Bytes) (authority : Option Bytes)
    (forwarded lines : Bytes) : Bytes :=
  outgoingLine h.firstLine path ++ crlf ++ lines ++
    appendForwardHeaders forwarded h.isUpgrade (originWith h.wire authority) ++ crlf

/-- What the span path writes for each field. -/
theorem assembleForwardHeaders_text (hs : h.Strict) (hlen : h.wire.length < 2 ^ 32)
    (hslow : h.endState.stripSpans.needsSlowPath = false) (path authority : Option Bytes)
    (forwarded : Bytes) :
    assembleForwardHeaders h.wire path h.endState.stripSpans h.endState.upgradeSpan h.isUpgrade
        (originWith h.wire authority) forwarded =
      forwardedText h path authority forwarded
        (h.fields.flatMap (spanText h.isUpgrade authority)) := by
  have hlines := cutLines_eq hs hlen hslow h.isUpgrade authority
  have htext : ((originWith h.wire authority).map fun o => putHost o.authority).getD [] =
      hostText authority := by
    cases authority <;> rfl
  have hcr : memchr cr h.wire = some h.firstLine.length := by
    rw [wire_eq_line]
    exact memchr_append hs.firstLine_plain.1 _
  have htake : h.wire.take h.firstLine.length =
      h.firstLine := by
    rw [wire_eq_line, take_left]
  have hline : slice h.wire 0 h.headerStart =
      h.firstLine ++ crlf := by
    rw [wire_eq_line, headerStart_eq, ← append_assoc, slice, drop_zero]
    exact take_left' (by simp)
  have hend : slice h.wire h.firstLine.length h.headerStart = crlf := by
    rw [wire_eq_line, headerStart_eq]
    exact slice_append rfl rfl
  have hst : ∀ start, mergeCopy h.wire (h.endState.stripSpans.spans.map spanCut) _ start =
      mergeCopy h.wire (h.endState.stripSpans.spans.map spanCut) _ start :=
    fun start => congrArg (fun lines => mergeCopy h.wire _ lines start) hlines
  unfold assembleForwardHeaders forwardedText
  simp only [htext]
  congr 2
  cases path with
  | none =>
    refine (copySpans_eq hlen hslow _ authority (Nat.zero_le _) [] (hst _)).trans ?_
    rw [hline]
    rfl
  | some path =>
    simp only [hcr, getD_some, htake]
    refine (copySpans_eq hlen hslow _ authority ?_ _ (hst _)).trans ?_
    · rw [headerStart_eq]
      omega
    · rw [hend]
      rfl

theorem assembleForwardHeaders_eq (hs : h.Strict) (hlen : h.wire.length < 2 ^ 32)
    (hslow : h.endState.stripSpans.needsSlowPath = false) (path : Option Bytes)
    (a : Option Authority) (forwarded : Bytes) :
    assembleForwardHeaders h.wire path h.endState.stripSpans h.endState.upgradeSpan h.isUpgrade
        (originWith h.wire (a.map Authority.text)) forwarded =
      forwardedText h path (a.map Authority.text) forwarded
        (fieldsWire (h.fields.filterMap (spanPass h.isUpgrade a))) := by
  rw [assembleForwardHeaders_text hs hlen hslow, fieldsWire_filterMap]
  simp only [← spanPass_wire]

end

section

theorem isHopByHopRequestHeader_congr {x y : Bytes} (h : eqIgnoreAsciiCase x y = true) :
    isHopByHopRequestHeader x = isHopByHopRequestHeader y := by
  have hhead : x.head?.map toAsciiLowercase = y.head?.map toAsciiLowercase := by
    rw [← head?_map, ← head?_map, eqIgnoreAsciiCase_iff.mp h]
  have hclaim : isForwardingClaim x = isForwardingClaim y := by
    rw [isForwardingClaim, isForwardingClaim, named_congr h]
  unfold isHopByHopRequestHeader
  simp only [hhead, hclaim, eqIgnoreAsciiCase_congr h]

/-- The kinds of line that are stripped by name whatever else the head says. -/
def hopByHopKinds : List FieldName :=
  [.connection, .keepAlive, .proxyConnection, .te, .trailer, .expect, .http2Settings,
    .forwardingClaim]

/-- The names stripped by name are those the parser strips. -/
theorem isHopByHopRequestHeader_iff (name : Bytes) :
    isHopByHopRequestHeader name = true ↔ fieldName name ∈ hopByHopKinds := by
  constructor
  · intro h
    have hlit : ∀ lit, fieldName (bytes lit) ∈ hopByHopKinds →
        eqIgnoreAsciiCase name (bytes lit) = true → fieldName name ∈ hopByHopKinds := by
      intro lit hmem heq
      rwa [fieldName_congr heq]
    unfold isHopByHopRequestHeader at h
    split at h
    case h_4 => exact (or_eq_true_iff.mp h).elim (hlit _ (by decide)) (hlit _ (by decide))
    case h_7 | h_8 =>
      simp only [isForwardingClaim, or_eq_true] at h
      rcases h with ((((h | h) | h) | h) | h) | h <;> exact hlit _ (by decide) (eqIgnore_of_named h)
    case h_9 => cases h
    all_goals exact hlit _ (by decide) h
  · intro h
    have hne : fieldName name ≠ .other := by
      intro hother
      rw [hother] at h
      exact absurd h (by decide)
    obtain ⟨lit, hmem, heq⟩ := mem_of_fieldName rfl hne
    have htable : ∀ p ∈ fieldTable, p.2 ∈ hopByHopKinds →
        isHopByHopRequestHeader (bytes p.1) = true := by decide +kernel
    rw [isHopByHopRequestHeader_congr heq]
    exact htable _ hmem h

theorem isHopByHopRequestHeader_kind (f : Field) :
    isHopByHopRequestHeader f.name = decide (f.kind ∈ hopByHopKinds) := by
  rw [Bool.eq_iff_iff, decide_eq_true_eq]
  exact isHopByHopRequestHeader_iff f.name

/-- What the line path does with one field. -/
def linePass (nominated : List Bytes) (keepUpgrade : Bool) (a : Option Authority) (f : Field) :
    Option Field :=
  if f.kind = .host ∧ a.isSome then a.map Authority.field
  else if f.kind = .upgrade then if keepUpgrade then some f else none
  else if isHopByHopRequestHeader f.name || nominated.any fun n => eqIgnoreAsciiCase f.name n then
    none
  else some f

theorem isNamed_eq_decide {f : Field} {lit : String} {k : FieldName}
    (h : f.kind = k ↔ f.isNamed lit = true) :
    eqIgnoreAsciiCase f.name (bytes lit) = decide (f.kind = k) := by
  rw [Bool.eq_iff_iff, decide_eq_true_eq, h]
  rfl

theorem kind_upgrade_iff (f : Field) : f.kind = .upgrade ↔ f.isNamed "upgrade" = true :=
  fieldName_eq_iff (by decide) (by decide) (by decide)

/-- What the line path writes for a field. -/
def lineText (nominated : List Bytes) (keepUpgrade : Bool) (authority : Option Bytes) (f : Field) :
    Bytes :=
  if f.kind = .host ∧ authority.isSome then hostText authority
  else if f.kind = .upgrade then if keepUpgrade then f.wire else []
  else if isHopByHopRequestHeader f.name || nominated.any fun n => eqIgnoreAsciiCase f.name n then
    []
  else f.wire

theorem forwardLine_text (nominated : List Bytes) (keepUpgrade : Bool) (raw : Bytes)
    (authority : Option Bytes) (f : Field) :
    forwardLine nominated keepUpgrade (originWith raw authority) f.line =
      lineText nominated keepUpgrade authority f := by
  have hname : f.line.take f.name.length = f.name := by rw [line, take_left]
  simp only [forwardLine, memchr_colon_line, hname, isNamed_eq_decide f.kind_host_iff,
    isNamed_eq_decide (kind_upgrade_iff f), lineText, ← f.wire_eq]
  by_cases hhost : f.kind = .host ∧ authority.isSome
  · obtain ⟨hk, hsome⟩ := hhost
    obtain ⟨authority, rfl⟩ := isSome_iff_exists.mp hsome
    simp [hk, originWith, Option.filter, hostText]
  · have hnone : (originWith raw authority).filter (fun _ => decide (f.kind = .host)) = none := by
      cases authority with
      | none => rfl
      | some authority => simp [originWith, show f.kind ≠ .host by simpa using hhost]
    rw [hnone, if_neg hhost]
    by_cases hup : f.kind = .upgrade
    · cases keepUpgrade <;> simp [hup]
    · simp only [hup, decide_false, false_eq_true, if_false]

theorem linePass_wire (nominated : List Bytes) (keepUpgrade : Bool) (a : Option Authority)
    (f : Field) :
    lineText nominated keepUpgrade (a.map Authority.text) f =
      ((linePass nominated keepUpgrade a f).map wire).getD [] := by
  unfold lineText linePass
  rw [isSome_map]
  split_ifs with hhost
  · obtain ⟨a, rfl⟩ := isSome_iff_exists.mp hhost.2
    simp [hostText, Authority.field_wire]
  all_goals rfl

variable {h : RequestHead}

theorem headerLines_wire (hs : h.Strict) : headerLines h.wire =
    h.firstLine :: h.fields.map line := by
  rw [wire_eq_line, headerLines_line hs.firstLine_plain.2 (by simp [requestLine]),
    headerLines_fields]

/-- What the line path writes for each field. -/
theorem assembleForwardHeadersSlow_text (hs : h.Strict) (path authority : Option Bytes)
    (forwarded : Bytes) :
    assembleForwardHeadersSlow h.wire path h.isUpgrade (originWith h.wire authority) forwarded =
      forwardedText h path authority forwarded (h.fields.flatMap
        (lineText (nominatedHeaders (headerLines h.wire)) h.isUpgrade authority)) := by
  rw [assembleForwardHeadersSlow]
  simp only [headerLines_wire hs, flatMap_map, forwardLine_text]
  cases path <;> rfl

theorem assembleForwardHeadersSlow_eq (hs : h.Strict) (path : Option Bytes) (a : Option Authority)
    (forwarded : Bytes) :
    assembleForwardHeadersSlow h.wire path h.isUpgrade (originWith h.wire (a.map Authority.text))
        forwarded =
      forwardedText h path (a.map Authority.text) forwarded (fieldsWire (h.fields.filterMap
        (linePass (nominatedHeaders (headerLines h.wire)) h.isUpgrade a))) := by
  rw [assembleForwardHeadersSlow_text hs, fieldsWire_filterMap]
  simp only [← linePass_wire]

end
end Portail.Proxy
