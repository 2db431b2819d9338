import Portail.Proxy.RoundTrip

/-!
# The hop-by-hop lines of a request

The parser splits Connection lines into tokens by octets, the line path of the forwarder
as text. Where the parser leaves a head on the span path the two read the same tokens, and
both paths write the same head but for lines named `close` (`spans_agree_with_lines`).
-/

namespace Portail.Proxy

open Lib Http Routing List

/-- ASCII, with SP and HTAB the only white space. -/
def isPlain (b : UInt8) : Bool := decide (b < 0x80) && !(decide (0x0a ≤ b) && decide (b ≤ 0x0d))

/-- Of the given texts, those that open with a plain octet are SP and HTAB. -/
def PlainHeads (chars : List Bytes) : Prop :=
  ∀ c ∈ chars, c ≠ [] ∧ (isPlain (c.headD 0) = true → c = [c.headD 0] ∧ isOws (c.headD 0) = true)

section

variable {chars : List Bytes} (hchars : PlainHeads chars)
include hchars

theorem find?_plain (hows : ∀ b, isOws b = true → [b] ∈ chars) {b : UInt8} (hb : isPlain b = true)
    (rest : Bytes) :
    chars.find? (·.isPrefixOf (b :: rest)) = if isOws b then some [b] else none := by
  cases hfound : chars.find? (·.isPrefixOf (b :: rest)) with
  | none =>
    rw [find?_eq_none] at hfound
    rw [if_neg]
    intro hsome
    exact hfound [b] (hows b hsome) (by simp)
  | some c =>
    have hmem := mem_of_find?_eq_some hfound
    have hprefix : c.isPrefixOf (b :: rest) = true := by simpa using find?_some hfound
    cases c with
    | nil => exact absurd rfl (hchars [] hmem).1
    | cons b' cs =>
      rw [isPrefixOf_cons_cons, Bool.and_eq_true, beq_iff_eq] at hprefix
      obtain ⟨rfl, -⟩ := hprefix
      obtain ⟨hone, hsome⟩ := (hchars _ hmem).2 hb
      rw [headD_cons] at hone hsome
      rw [hone, if_pos hsome]

theorem dropLeading_plain (hows : ∀ b, isOws b = true → [b] ∈ chars) {text : Bytes}
    (htext : ∀ b ∈ text, isPlain b = true) {turns : ℕ} (hturns : text.length ≤ turns) :
    dropLeading chars turns text = text.dropWhile isOws := by
  induction text generalizing turns with
  | nil =>
    have hnone : chars.find? (·.isPrefixOf []) = none := by
      rw [find?_eq_none]
      intro c hc
      simpa using (hchars c hc).1
    cases turns with
    | zero => rfl
    | succ turns =>
      rw [dropLeading, hnone]
      rfl
  | cons b text ih =>
    cases turns with
    | zero => cases hturns
    | succ turns =>
      rw [dropLeading, find?_plain hchars hows (htext b mem_cons_self)]
      cases hb : isOws b with
      | true =>
        have hrest := ih (fun c hc => htext c (mem_cons_of_mem _ hc))
          (Nat.le_of_succ_le_succ hturns)
        simpa [hb] using hrest
      | false => simp [hb]

end

/-- On plain text, trimming white space is trimming SP and HTAB. -/
theorem trimText_plain {text : Bytes} (htext : ∀ b ∈ text, isPlain b = true) :
    trimText text = trimOws text := by
  have hows : ∀ b, isOws b = true → [b] ∈ whitespaceChars := by
    intro b hb
    have hcases : b = sp ∨ b = htab := by simpa [isOws] using hb
    rcases hcases with rfl | rfl <;> decide
  have hows' : ∀ b, isOws b = true → [b] ∈ whitespaceChars.map List.reverse := fun b hb =>
    mem_map.mpr ⟨[b], hows b hb, rfl⟩
  have hheads : PlainHeads whitespaceChars := by
    unfold PlainHeads
    decide
  have hheads' : PlainHeads (whitespaceChars.map List.reverse) := by
    unfold PlainHeads
    decide
  have hrest : ∀ b ∈ (text.dropWhile isOws).reverse, isPlain b = true := fun b hb =>
    htext b ((dropWhile_sublist isOws).subset (mem_reverse.mp hb))
  rw [trimText, dropLeading_plain hheads hows htext le_rfl,
    dropLeading_plain hheads' hows' hrest (by simp)]
  rfl

variable {f : Field}

section

/-- The tokens of a Connection line as the line path reads them: none when it is no text. -/
def textTokens (f : Field) : List Bytes :=
  if f.kind = .connection ∧ isUtf8 f.value = true then
    ((trimText f.value).splitOn comma).map trimText
  else []

theorem headerValueIf_field (f : Field) : headerValueIf f.line (bytes "connection") =
    if f.kind = .connection ∧ isUtf8 f.value = true then some (trimText f.value) else none := by
  have hname : f.line.take f.name.length = f.name := by rw [Field.line, take_left]
  have hvalue : f.line.drop (f.name.length + 1) = f.value := by
    rw [Field.line, ← drop_drop, drop_left]
    rfl
  have hkind : eqIgnoreAsciiCase f.name (bytes "connection") = true ↔ f.kind = .connection :=
    f.kind_connection_iff.symm
  simp only [headerValueIf, memchr_colon_line, Option.bind_eq_bind, Option.bind_some, hname, hvalue,
    hkind, Option.pure_def]

variable {h : RequestHead}

/-- The request line is no Connection line: a space stands before its first colon. -/
theorem headerValueIf_requestLine (hs : h.Strict) :
    headerValueIf h.firstLine (bytes "connection") = none := by
  have hcolon : colon ∉ h.method := fun hb =>
    (tchar_spec colon ((isToken_iff.mp hs.method_token).2 colon hb)).2.2.1 rfl
  have hspace : colon ≠ sp := by decide
  rcases memchr_cases colon (h.target ++ sp :: httpVersion h.http10) with
    ⟨-, hno⟩ | ⟨u, v, hrest, hu, -⟩
  · have hnone : memchr colon h.firstLine = none := by
      rw [memchr_eq_none, RequestHead.firstLine, requestLine, mem_append, mem_cons]
      simp [hcolon, hspace, hno]
    rw [headerValueIf, hnone]
    rfl
  · have hline : h.firstLine = (h.method ++ sp :: u) ++ colon :: v := by
      rw [RequestHead.firstLine, requestLine, hrest]
      simp
    have hfind : memchr colon h.firstLine =
        some (h.method ++ sp :: u).length := by
      rw [hline]
      exact memchr_append (by simp [hcolon, hspace, hu]) v
    have hne : eqIgnoreAsciiCase (h.method ++ sp :: u) (bytes "connection") = false := by
      rw [Bool.eq_false_iff]
      intro heq
      have hmem : toAsciiLowercase sp ∈ (bytes "connection").map toAsciiLowercase := by
        rw [← eqIgnoreAsciiCase_iff.mp heq]
        exact mem_map_of_mem (by simp)
      exact absurd hmem (by decide)
    have htake : h.firstLine.take (h.method ++ sp :: u).length =
        h.method ++ sp :: u := by
      rw [hline, take_left]
    simp only [headerValueIf, hfind, Option.bind_eq_bind, Option.bind_some, htake, hne,
      Bool.false_eq_true, false_and, if_false]

theorem mem_nominatedHeaders (hs : h.Strict) {n : Bytes} :
    n ∈ nominatedHeaders (headerLines h.wire) ↔
      (∃ f ∈ h.fields, n ∈ textTokens f) ∧ n ≠ [] ∧ HeadState.isPinned n = false := by
  have hvalues : (headerLines h.wire).filterMap (headerValueIf · (bytes "connection")) =
      h.fields.filterMap fun f => headerValueIf f.line (bytes "connection") := by
    rw [headerLines_wire hs, filterMap_cons, headerValueIf_requestLine hs, filterMap_map]
    rfl
  rw [nominatedHeaders, hvalues]
  simp only [mem_flatMap, mem_filterMap, mem_filter, headerValueIf_field, textTokens,
    Bool.and_eq_true, Bool.not_eq_true', isEmpty_eq_false_iff]
  constructor
  · rintro ⟨value, ⟨f, hf, hvalue⟩, hn, hne, hpinned⟩
    split_ifs at hvalue with htext
    cases hvalue
    exact ⟨⟨f, hf, by rwa [if_pos htext]⟩, hne, hpinned⟩
  · rintro ⟨⟨f, hf, hn⟩, hne, hpinned⟩
    split_ifs at hn with htext
    · exact ⟨_, ⟨f, hf, if_pos htext⟩, hn, hne, hpinned⟩
    · cases hn

/-- A token the span path knows of: it names no header, or one of four. -/
theorem knownToken {t : Bytes} (hextra : isExtraToken t = false)
    (hpinned : HeadState.isPinned t = false) :
    t = [] ∨ ∃ lit ∈ ["close", "keep-alive", "upgrade", "http2-settings"],
      eqIgnoreAsciiCase t (bytes lit) = true := by
  by_contra hnot
  push Not at hnot
  obtain ⟨hne, hlit⟩ := hnot
  have hempty : t.isEmpty = false := by simpa using hne
  have hno : ∀ lit ∈ ["close", "keep-alive", "upgrade", "http2-settings"],
      eqIgnoreAsciiCase t (bytes lit) = false := fun lit hmem => by simpa using hlit lit hmem
  simp only [forall_mem_cons] at hno
  simp [isExtraToken, isCloseToken, isKeepAliveToken, isUpgradeToken, hpinned, hempty,
    hno] at hextra

theorem plain_of_knownToken {t : Bytes} (hextra : isExtraToken t = false)
    (hpinned : HeadState.isPinned t = false) : ∀ b ∈ t, isPlain b = true := by
  have hplain : ∀ lit ∈ ["close", "keep-alive", "upgrade", "http2-settings"], ∀ b : UInt8,
      toAsciiLowercase b ∈ (bytes lit).map toAsciiLowercase → isPlain b = true := by
    intro lit hlit
    refine forall_octet ?_
    revert lit
    decide +kernel
  intro b hb
  rcases knownToken hextra hpinned with rfl | ⟨lit, hlit, heq⟩
  · cases hb
  · refine hplain lit hlit b ?_
    rw [← eqIgnoreAsciiCase_iff.mp heq]
    exact mem_map_of_mem hb

/-- Where no token is unknown, both readings of a Connection line are the same. -/
theorem textTokens_eq {http10 : Bool} (hok : f.ok http10 = true)
    (hextra : f.tokens.any isExtraToken = false) : textTokens f = f.tokens := by
  by_cases hk : f.kind = .connection
  · have hpinned : f.tokens.any HeadState.isPinned = false := by simpa [Field.ok, hk] using hok
    have htokens : f.tokens = (f.value.splitOn comma).map trimOws := if_pos hk
    rw [htokens] at hextra hpinned
    have hows : ∀ b : UInt8, isOws b = true → isPlain b = true := forall_octet (by decide +kernel)
    have hplain : ∀ b ∈ f.value, isPlain b = true := by
      intro b hb
      by_cases hcomma : b = comma
      · rw [hcomma]
        decide
      · obtain ⟨piece, hpiece, hb⟩ := exists_mem_splitOn hb hcomma
        have hmem : trimOws piece ∈ (f.value.splitOn comma).map trimOws :=
          mem_map_of_mem hpiece
        rcases mem_trimOws hb with hb | hb
        · exact hows b hb
        · exact plain_of_knownToken (by simpa using any_eq_false.mp hextra _ hmem)
            (by simpa using any_eq_false.mp hpinned _ hmem) b hb
    have hutf8 : isUtf8 f.value = true := by
      refine isUtf8_of_ascii fun b hb => ?_
      have hb := hplain b hb
      simp only [isPlain, Bool.and_eq_true, decide_eq_true_eq] at hb
      exact hb.1
    have hpiece : ∀ p ∈ (trimOws f.value).splitOn comma, trimText p = trimOws p := by
      intro p hp
      obtain ⟨l, r, hvalue, -, -⟩ := exists_padding f.value
      refine trimText_plain fun b hb => hplain b ?_
      rw [hvalue]
      exact mem_append_right _ (mem_append_left _ (mem_of_mem_splitOn hp hb))
    rw [textTokens, if_pos ⟨hk, hutf8⟩, trimText_plain hplain, map_congr_left hpiece,
      map_trimOws_splitOn, htokens]
  · have hnone : f.tokens = [] := if_neg hk
    rw [textTokens, if_neg (fun h => hk h.1), hnone]

end

section

theorem flatMap_filter {α β : Type*} (p : α → Bool) (g : α → List β) (xs : List α) :
    (xs.filter p).flatMap g = xs.flatMap fun x => if p x then g x else [] := by
  induction xs with
  | nil => rfl
  | cons x xs ih => cases hp : p x <;> simp [hp, ih]

variable {h : RequestHead}

theorem needsSlowPath_advance {st : HeadState}
    (hslow : (st.advance f).stripSpans.needsSlowPath = false) :
    st.stripSpans.needsSlowPath = false ∧ f.tokens.any isExtraToken = false := by
  have hclear : (st.stripSpans.orSlowPath (f.offersUpgrade && st.hasUpgradeHeader ||
      f.tokens.any isExtraToken)).needsSlowPath = false := by
    simp only [HeadState.advance] at hslow
    split_ifs at hslow
    · exact (StripSpans.push_spec hslow).1
    · exact hslow
  simp only [StripSpans.orSlowPath, Bool.or_eq_false_iff] at hclear
  exact ⟨hclear.1, hclear.2.2⟩

theorem extraToken_of_spanPath {fs : List Field} {st : HeadState}
    (hslow : (fs.foldl HeadState.advance st).stripSpans.needsSlowPath = false) :
    st.stripSpans.needsSlowPath = false ∧ ∀ f ∈ fs, f.tokens.any isExtraToken = false := by
  induction fs generalizing st with
  | nil => exact ⟨hslow, by simp⟩
  | cons f fs ih =>
    obtain ⟨hnext, hrest⟩ := ih hslow
    obtain ⟨hclear, hf⟩ := needsSlowPath_advance hnext
    exact ⟨hclear, forall_mem_cons.mpr ⟨hf, hrest⟩⟩

/-- A Connection line carries the `close` option. -/
def saysClose (h : RequestHead) : Bool := h.fields.any fun f => f.tokens.any isCloseToken

/-- The names collected from a head on the span path, of those not stripped anyway. -/
theorem nominated_iff_close (hs : h.Strict)
    (hslow : h.endState.stripSpans.needsSlowPath = false) (hk : f.kind = .other) :
    ((nominatedHeaders (headerLines h.wire)).any fun n => eqIgnoreAsciiCase f.name n) =
      (saysClose h && f.isNamed "close") := by
  have hok := RequestHead.fieldsOk_of_strict hs
  obtain ⟨-, hextra⟩ := extraToken_of_spanPath hslow
  have htokens : ∀ g ∈ h.fields, textTokens g = g.tokens := fun g hg =>
    textTokens_eq (hok.each g hg) (hextra g hg)
  rw [Bool.eq_iff_iff, any_eq_true, Bool.and_eq_true, saysClose, any_eq_true]
  constructor
  · rintro ⟨n, hn, hname⟩
    obtain ⟨⟨g, hg, hn⟩, hne, hpinned⟩ := (mem_nominatedHeaders hs).mp hn
    rw [htokens g hg] at hn
    have hknown : isExtraToken n = false := by simpa using any_eq_false.mp (hextra g hg) n hn
    obtain ⟨lit, hlit, heq⟩ := (knownToken hknown hpinned).resolve_left hne
    have hnamed : eqIgnoreAsciiCase f.name (bytes lit) = true := eqIgnoreAsciiCase_trans hname heq
    have hkind : f.kind = fieldName (bytes lit) := fieldName_congr hnamed
    rw [hk] at hkind
    -- of the four names only `close` is one the parser does not know
    have honly : ∀ lit ∈ ["close", "keep-alive", "upgrade", "http2-settings"],
        .other = fieldName (bytes lit) → lit = "close" := by decide +kernel
    obtain rfl := honly lit hlit hkind
    exact ⟨⟨g, hg, any_eq_true.mpr ⟨n, hn, heq⟩⟩, hnamed⟩
  · rintro ⟨⟨g, hg, hclose⟩, hnamed⟩
    obtain ⟨n, hn, hclose⟩ := any_eq_true.mp hclose
    have hne : n ≠ [] := by
      rintro rfl
      exact absurd hclose (by decide)
    refine ⟨n, (mem_nominatedHeaders hs).mpr
      ⟨⟨g, hg, by rwa [htokens g hg]⟩, hne, (not_pinned_of_close hclose).1⟩, ?_⟩
    exact eqIgnoreAsciiCase_trans hnamed (eqIgnoreAsciiCase_symm hclose)

theorem kind_of_close (hclose : f.isNamed "close" = true) : f.kind = .other :=
  (fieldName_congr hclose).trans (by decide)

/-- The line path writes of a field what the span path does, or nothing for a `close` line. -/
theorem lineText_eq_spanText (hs : h.Strict) (hslow : h.endState.stripSpans.needsSlowPath = false)
    (authority : Option Bytes) (hf : f ∈ h.fields) :
    lineText (nominatedHeaders (headerLines h.wire)) h.isUpgrade authority f =
      if saysClose h && f.isNamed "close" then [] else spanText h.isUpgrade authority f := by
  have hhop := isHopByHopRequestHeader_kind f
  have hpinned (hk : f.kind = .contentLength ∨ f.kind = .transferEncoding ∨ f.kind = .host) :=
    not_nominated (headerLines h.wire) hk
  by_cases hother : f.kind = .other
  · rw [lineText, nominated_iff_close hs hslow hother]
    simp [spanText, stripEdit, upgradeEdit, hostEdit, Field.lineKind, hother, hhop, hopByHopKinds]
  · have hclose : f.isNamed "close" = false := by
      rw [Bool.eq_false_iff]
      exact fun hclose => hother (kind_of_close hclose)
    rw [hclose, Bool.and_false, if_neg Bool.false_ne_true, lineText, hhop]
    cases hk : f.kind with
    | other => exact absurd hk hother
    | host =>
      cases authority <;>
        simp [spanText, stripEdit, upgradeEdit, hostEdit, Field.lineKind, hk, hopByHopKinds,
          hostText, hpinned]
    | upgrade =>
      cases hup : h.isUpgrade with
      | false =>
        cases hh2c : offersH2c f.value <;>
          simp [spanText, stripEdit, upgradeEdit, hostEdit, Field.lineKind, hk, hh2c]
      | true =>
        simp [spanText, stripEdit, upgradeEdit, hostEdit, Field.lineKind, hk,
          not_h2c_of_isUpgrade hup hf hk]
    | contentLength | transferEncoding =>
      simp [spanText, stripEdit, upgradeEdit, hostEdit, Field.lineKind, hk, hopByHopKinds, hpinned]
    | _ => simp [spanText, stripEdit, Field.lineKind, hk, hopByHopKinds]

/-- On the span path both ways of forwarding write the same head, except that the line path also
leaves out lines named `close` when a Connection line carries that option. -/
theorem spans_agree_with_lines (data : Bytes) (info : HttpRequestInfo)
    (hacc : accepted data = some info) (hlen : (data.take info.headLen).length < 2 ^ 32)
    (hslow : info.stripSpans.needsSlowPath = false) :
    ∃ h : RequestHead, h.Strict ∧ h.wire = data.take info.headLen ∧
      ∀ (path authority : Option Bytes) (forwarded : Bytes),
        assembleForwardHeaders h.wire path info.stripSpans info.upgradeSpan info.isUpgrade
            (originWith h.wire authority) forwarded =
          forwardedText h path authority forwarded
            (h.fields.flatMap (spanText h.isUpgrade authority)) ∧
        assembleForwardHeadersSlow h.wire path info.isUpgrade (originWith h.wire authority)
            forwarded =
          forwardedText h path authority forwarded
            ((h.fields.filter fun f => !(saysClose h && f.isNamed "close")).flatMap
              (spanText h.isUpgrade authority)) := by
  obtain ⟨h, target, path, offset, tail, ⟨hs, hform, -⟩, rfl, rfl⟩ := exists_head_of_accepted hacc
  rw [h.take_headLen] at hlen ⊢
  refine ⟨h, hs, rfl, fun path authority forwarded => ⟨?_, ?_⟩⟩
  · exact assembleForwardHeaders_text hs hlen hslow path authority forwarded
  · refine (assembleForwardHeadersSlow_text hs path authority forwarded).trans ?_
    have hlines : h.fields.flatMap
        (lineText (nominatedHeaders (headerLines h.wire)) h.isUpgrade authority) =
        (h.fields.filter fun f => !(saysClose h && f.isNamed "close")).flatMap
          (spanText h.isUpgrade authority) := by
      rw [flatMap_filter]
      refine flatMap_congr fun f hf => ?_
      rw [lineText_eq_spanText hs hslow authority hf]
      cases saysClose h && f.isNamed "close" <;> rfl
    rw [hlines]

/-- A head whose Connection line says `close`, with a line of that name. -/
def closeNamed : Bytes :=
  bytes "GET / HTTP/1.1\r\nHost: a\r\nConnection: close\r\nClose: 1\r\n\r\n"

theorem spans_agree_with_lines_close : ∃ (info : HttpRequestInfo) (h : RequestHead),
    accepted closeNamed = some info ∧ info.stripSpans.needsSlowPath = false ∧
    h.wire = closeNamed.take info.headLen ∧
    assembleForwardHeadersSlow h.wire none info.isUpgrade none [] =
      forwardedText h none none [] ((h.fields.filter fun f =>
        !(saysClose h && f.isNamed "close")).flatMap (spanText h.isUpgrade none)) := by
  have hread : ((accepted closeNamed).map fun info => info.stripSpans.needsSlowPath) =
      some false := by decide +kernel
  obtain ⟨info, hacc, hslow⟩ := Option.map_eq_some_iff.mp hread
  have hlen : (closeNamed.take info.headLen).length < 2 ^ 32 :=
    lt_of_le_of_lt (length_take_le' _ _) (by decide)
  obtain ⟨h, -, hwire, hboth⟩ := spans_agree_with_lines closeNamed info hacc hlen hslow
  exact ⟨info, h, hacc, hslow, hwire, (hboth none none []).2⟩

end
end Portail.Proxy
