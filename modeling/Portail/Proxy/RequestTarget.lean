import Portail.Http.FieldKinds
import Portail.Proxy.ForwardHeaders

/-!
# The target of a forwarded request

The request line forwarding writes (`putRequestLine_eq`), the authority it finds
in an absolute-form target (`originForm_of_form`), and the path it sends, the one
that was routed (`requestMeta_path`).
-/

namespace Portail.Proxy

open Lib Http List

theorem splitQuery_spec (path : Bytes) : ∃ q, path = (splitQuery path).1 ++ q ∧
    question ∉ (splitQuery path).1 ∧
    (q = [] ∧ (splitQuery path).2 = [] ∨ q = question :: (splitQuery path).2) := by
  rcases memchr_cases question path with ⟨hnone, hmem⟩ | ⟨x, y, rfl, hx, hsome⟩
  · have hsplit : splitQuery path = (path, []) := by rw [splitQuery, hnone]
    exact ⟨[], by simp [hsplit], by rw [hsplit]; exact hmem, .inl ⟨rfl, by rw [hsplit]⟩⟩
  · have hsplit : splitQuery (x ++ question :: y) = (x, y) := by
      rw [splitQuery, hsome]
      simp
    exact ⟨question :: y, by simp [hsplit], by simpa [hsplit] using hx, .inr (by simp [hsplit])⟩

variable {path target method : Bytes}

theorem splitQuery_nil (h : question ∉ path) : splitQuery path = (path, []) := by
  rw [splitQuery, memchr_eq_none.mpr h]

theorem splitQuery_cons (h : question ∉ path) (query : Bytes) :
    splitQuery (path ++ question :: query) = (path, query) := by
  rw [splitQuery, memchr_append h]
  simp

/-- The query of a rewritten target, `q` the request's with its `?`. -/
def joinQuery (valueQuery : Option Bytes) (q : Bytes) : Bytes :=
  match valueQuery with
  | none => q
  | some v => question :: (v ++ if 1 < q.length then queryGlue v ++ q.tail else [])

theorem targetBounds_line (hm : sp ∉ method) (ht : sp ∉ target)
    (http10 : Bool) : targetBounds (requestLine method target http10) =
      some (method.length + 1, method.length + 1 + target.length) := by
  have hdrop : (requestLine method target http10).drop (method.length + 1) =
      target ++ sp :: httpVersion http10 := by
    rw [requestLine, ← drop_drop, drop_left]
    rfl
  have hfirst : memchr sp (requestLine method target http10) = some method.length :=
    memchr_append hm _
  simp [targetBounds, hfirst, hdrop, memchr_append ht]

/-- The path is replaced, and the query kept or joined with the value's. -/
theorem putRequestLine_eq {pre q : Bytes} (hm : sp ∉ method) (ht : sp ∉ pre ++ q)
    (hpre : question ∉ pre) (hq : q = [] ∨ ∃ r, q = question :: r) (http10 : Bool) (path : Bytes)
    (valueQuery : Option Bytes) :
    putRequestLine (requestLine method (pre ++ q) http10) path valueQuery =
      requestLine method (path ++ joinQuery valueQuery q) http10 := by
  have hline : requestLine method (pre ++ q) http10 =
      (method ++ [sp]) ++ (pre ++ (q ++ (sp :: httpVersion http10))) := by simp [requestLine]
  have hslice : ∀ front mid rest, requestLine method (pre ++ q) http10 = front ++ (mid ++ rest) →
      ∀ start stop, start = front.length → stop = front.length + mid.length →
      slice (requestLine method (pre ++ q) http10) start stop = mid := by
    intro front mid rest hsplit start stop hstart hstop
    rw [hsplit]
    exact slice_append hstart hstop
  have htarget : slice (requestLine method (pre ++ q) http10) (method.length + 1)
      (method.length + 1 + (pre ++ q).length) = pre ++ q :=
    hslice (method ++ [sp]) (pre ++ q) (sp :: httpVersion http10) (by simp [requestLine]) _ _
      (by simp) (by simp)
  have hquery : ((memchr question (pre ++ q)).map (method.length + 1 + ·)).getD
      (method.length + 1 + (pre ++ q).length) = method.length + 1 + pre.length := by
    rcases hq with rfl | ⟨r, rfl⟩
    · rw [memchr_eq_none.mpr (by simpa using hpre)]
      simp
    · rw [memchr_append hpre]
      rfl
  have hkept : slice (requestLine method (pre ++ q) http10) (method.length + 1 + pre.length)
      (method.length + 1 + (pre ++ q).length) = q :=
    hslice ((method ++ [sp]) ++ pre) q (sp :: httpVersion http10) (by simp [requestLine]) _ _
      (by simp; omega) (by simp; omega)
  have htake : (requestLine method (pre ++ q) http10).take (method.length + 1) =
      method ++ [sp] := by
    rw [hline]
    exact take_left' (by simp)
  have hdrop : (requestLine method (pre ++ q) http10).drop
      (method.length + 1 + (pre ++ q).length) = sp :: httpVersion http10 := by
    rw [hline, show (method ++ [sp]) ++ (pre ++ (q ++ (sp :: httpVersion http10))) =
      ((method ++ [sp]) ++ (pre ++ q)) ++ (sp :: httpVersion http10) by simp]
    exact drop_left' (by simp; omega)
  rw [putRequestLine, targetBounds_line hm ht]
  simp only [htarget, hquery, htake, hdrop]
  cases valueQuery with
  | none =>
    simp only [hkept]
    simp [joinQuery, requestLine]
  | some v =>
    rcases hq with rfl | ⟨r, rfl⟩
    · simp [joinQuery, requestLine]
    · -- the request's query without its `?`
      have hrest : slice (requestLine method (pre ++ question :: r) http10)
          (method.length + 1 + pre.length + 1)
          (method.length + 1 + (pre ++ question :: r).length) = r :=
        hslice ((method ++ [sp]) ++ pre ++ [question]) r (sp :: httpVersion http10)
          (by simp [requestLine]) _ _ (by simp; omega) (by simp; omega)
      have hlen : method.length + 1 + (pre ++ question :: r).length >
          method.length + 1 + pre.length + 1 ↔ 1 < (question :: r).length := by
        simp only [length_append, length_cons]
        omega
      simp only [hrest, hlen, joinQuery, tail_cons]
      simp [requestLine]

theorem authority_byte {host port : Bytes} (hhost : IsUriHost host) (hport : IsPortSuffix port) :
    ∀ b ∈ host ++ port, isFieldValueByte b = true ∧ isOws b = false ∧ b ≠ question := by
  intro b hb
  rcases mem_append.mp hb with hb | hb
  · rcases hhost with hhost | ⟨run, -, hrun, rfl⟩
    · obtain ⟨-, -, -, -, hows, hvalue, -, hq⟩ := host_byte_spec b (hhost b hb)
      exact ⟨hvalue, hows, hq⟩
    · simp only [mem_cons, mem_append, not_mem_nil, or_false] at hb
      rcases hb with rfl | hb | rfl
      · decide
      · obtain ⟨-, -, -, hows, hvalue, -, hq⟩ := ipLiteralByte_spec b (hrun b hb)
        exact ⟨hvalue, hows, hq⟩
      · decide
  · rcases hport with rfl | ⟨digits, hdigits, rfl⟩
    · simp at hb
    · rcases mem_cons.mp hb with rfl | hb
      · decide
      · obtain ⟨-, -, hows, hvalue, -, hq⟩ := digit_spec b (hdigits b hb)
        exact ⟨hvalue, hows, hq⟩

/-- `host[:port]`, the host not empty. -/
structure Authority where
  host : Bytes
  port : Bytes
  host_ne : host ≠ []
  isHost : IsUriHost host
  isPort : IsPortSuffix port

def Authority.text (a : Authority) : Bytes := a.host ++ a.port

theorem Authority.text_ne (a : Authority) : a.text ≠ [] := by simp [text, a.host_ne]

theorem Authority.text_byte (a : Authority) :
    ∀ b ∈ a.text, isFieldValueByte b = true ∧ isOws b = false ∧ b ≠ question :=
  authority_byte a.isHost a.isPort

/-- What is kept of an absolute-form target while its head is forwarded. -/
def originOf (raw : Bytes) (a : Option Authority) : Option OriginForm :=
  a.map fun a => ⟨a.text, hostLine raw⟩

theorem question_not_mem_front {scheme host port : Bytes} (h : IsHttpScheme scheme)
    (hhost : IsUriHost host) (hport : IsPortSuffix port) : question ∉ scheme ++ (host ++ port) := by
  rw [mem_append, not_or]
  refine ⟨fun hmem => ?_, fun hb => (authority_byte hhost hport question hb).2.2 rfl⟩
  have hlower := mem_map_of_mem (f := toAsciiLowercase) hmem
  rcases h with h | h <;> rw [eqIgnoreAsciiCase_iff.mp h] at hlower <;> revert hlower <;> decide

variable {authority : Option Bytes} {offset : Option ℕ}

theorem exists_query_of_form (h : TargetForm method target authority path offset) :
    ∃ pre q, target = pre ++ q ∧ question ∉ pre ∧
      (∀ b ∈ (splitQuery path).1, b ∈ pre ∨ b = slash) ∧ path = (splitQuery path).1 ++ q ∧
      (q = [] ∧ (splitQuery path).2 = [] ∨ q = question :: (splitQuery path).2) := by
  obtain ⟨q, hpath, hmem, hq⟩ := splitQuery_spec path
  cases h with
  | origin h | asterisk h => exact ⟨_, q, hpath, hmem, fun b hb => .inl hb, hpath, hq⟩
  | @absolute scheme host port path hscheme hne hhost hport hslash =>
    refine ⟨scheme ++ (host ++ port) ++ (splitQuery path).1, q, ?_, ?_,
      fun b hb => .inl (mem_append_right _ hb), hpath, hq⟩
    · conv_lhs => rw [hpath]
      simp
    · rw [mem_append, not_or]
      exact ⟨question_not_mem_front hscheme hhost hport, hmem⟩
  | @authority scheme host port hscheme hne hhost hport =>
    have hsplit : splitQuery (bytes "/") = (bytes "/", []) := by decide
    rw [hsplit] at hpath hq ⊢
    obtain rfl : q = [] := by simpa using hpath
    have hslash : ∀ b ∈ bytes "/", b = slash := by decide
    exact ⟨scheme ++ (host ++ port), [], by simp, question_not_mem_front hscheme hhost hport,
      fun b hb => .inr (hslash b hb), by simp, .inl ⟨rfl, rfl⟩⟩

theorem scheme_octets {scheme : Bytes} (h : IsHttpScheme scheme) (rest : Bytes) :
    (scheme ++ rest)[0]? ≠ some slash ∧ (scheme ++ rest)[0]? ≠ some 0x2a ∧
      (scheme ++ rest)[0]? ≠ none ∧
      (if (scheme ++ rest)[4]? = some colon then 7 else 8) = scheme.length := by
  have hget : ∀ lit : String, eqIgnoreAsciiCase scheme (bytes lit) = true →
      ∀ i < (bytes lit).length,
      ((scheme ++ rest)[i]?).map toAsciiLowercase = ((bytes lit).map toAsciiLowercase)[i]? := by
    intro lit heq i hi
    rw [← eqIgnoreAsciiCase_iff.mp heq, getElem?_append_left
      (by rw [eqIgnoreAsciiCase_length heq]; exact hi), getElem?_map]
  have hfirst : ∀ c : Option UInt8, c.map toAsciiLowercase = some 0x68 →
      c ≠ some slash ∧ c ≠ some 0x2a ∧ c ≠ none := by
    intro c hc
    refine ⟨?_, ?_, ?_⟩ <;> rintro rfl <;> exact absurd hc (by decide)
  have hcolon : ∀ b : UInt8, toAsciiLowercase b = colon ↔ b = colon :=
    forall_octet (by decide +kernel)
  rcases h with h | h
  · have h0 := hfirst _ ((hget _ h 0 (by decide)).trans (by decide))
    have h4 := (hget _ h 4 (by decide)).trans (show _ = some colon by decide)
    obtain ⟨b, hb, hlow⟩ := Option.map_eq_some_iff.mp h4
    rw [hb, (hcolon b).mp hlow, if_pos rfl, eqIgnoreAsciiCase_length h]
    exact ⟨h0.1, h0.2.1, h0.2.2, by decide⟩
  · have h0 := hfirst _ ((hget _ h 0 (by decide)).trans (by decide))
    have h4 := (hget _ h 4 (by decide)).trans (show _ = some (0x73 : UInt8) by decide)
    have hne : (scheme ++ rest)[4]? ≠ some colon := by
      intro hb
      rw [hb] at h4
      exact absurd h4 (by decide)
    rw [if_neg hne, eqIgnoreAsciiCase_length h]
    exact ⟨h0.1, h0.2.1, h0.2.2, by decide⟩

section

variable {off : ℕ}

theorem offset_of_form (h : TargetForm method target authority path (some off)) :
    ∃ front, target = front ++ path ∧ off = front.length := by
  cases h with
  | origin h | asterisk h => exact ⟨[], rfl, rfl⟩
  | @absolute scheme host port _ _ _ _ _ _ =>
    exact ⟨scheme ++ (host ++ port), by simp, by simp⟩

theorem path_utf8_of_form (h : TargetForm method target authority path offset)
    (hutf8 : isUtf8 target = true) : isUtf8 path = true ∧ isUtf8 (splitQuery path).1 = true := by
  have hpath : isUtf8 path = true := by
    cases h with
    | origin h | asterisk h => exact hutf8
    | @absolute scheme host port path _ _ _ _ hslash =>
      obtain ⟨rest, rfl⟩ : ∃ rest, path = slash :: rest := by
        cases path with
        | nil => simp at hslash
        | cons c rest => exact ⟨rest, by simpa using hslash⟩
      rw [← append_assoc] at hutf8
      rw [isUtf8_cons (by decide)]
      exact ((isUtf8_cut (by decide)).mp hutf8).2
    | authority => decide
  refine ⟨hpath, ?_⟩
  obtain ⟨q, hsplit, -, hq⟩ := splitQuery_spec path
  rw [hsplit] at hpath
  rcases hq with ⟨rfl, -⟩ | rfl
  · simpa using hpath
  · exact ((isUtf8_cut (by decide)).mp hpath).1

variable {h : RequestHead} {authority : Option Bytes} {path : Bytes} {offset : Option ℕ}

theorem wire_eq_line (h : RequestHead) :
    h.wire = h.firstLine ++ (crlf ++ (fieldsWire h.fields ++ crlf)) := by
  simp [RequestHead.wire, requestLine, versionWire]

theorem wire_drop_target (h : RequestHead) : h.wire.drop (h.method.length + 1) =
    h.target ++ (versionWire h.http10 ++ (fieldsWire h.fields ++ crlf)) := by
  rw [RequestHead.wire, ← drop_drop, drop_left]
  rfl

/-- Where the path lies in a head, when the target holds it. -/
theorem path_in_wire (hform : TargetForm h.method h.target authority path (some off)) :
    ∃ rest, h.wire.drop (h.method.length + 1 + off) = (splitQuery path).1 ++ rest := by
  obtain ⟨front, htarget, rfl⟩ := offset_of_form hform
  obtain ⟨q, hsplit, -, -⟩ := splitQuery_spec path
  have hdrop := wire_drop_target h
  rw [htarget, append_assoc] at hdrop
  refine ⟨q ++ (versionWire h.http10 ++ (fieldsWire h.fields ++ crlf)), ?_⟩
  rw [drop_of_drop hdrop rfl]
  conv_lhs => rw [hsplit]
  simp

theorem le_length_of_drop {data mid rest : Bytes} {k : ℕ} (h : data.drop k = mid ++ rest)
    (hmid : mid ≠ []) : k + mid.length ≤ data.length := by
  have hlen := congrArg List.length h
  have hpos := length_pos_iff.mpr hmid
  rw [length_drop, length_append] at hlen
  omega

theorem path_head_of_form (hform : TargetForm h.method h.target authority path offset) :
    path.head? = some slash ∨ path = bytes "*" ∧ h.method = bytes "OPTIONS" := by
  generalize htarget : h.target = target at hform
  cases hform with
  | origin h => exact .inl h
  | asterisk hmethod => exact .inr ⟨rfl, hmethod⟩
  | absolute _ _ _ _ hslash => exact .inl hslash
  | authority => exact .inl (by decide)

theorem splitQuery_path_ne (hform : TargetForm h.method h.target authority path offset) :
    (splitQuery path).1 ≠ [] := by
  obtain ⟨q, hsplit, -, hq⟩ := splitQuery_spec path
  intro hnil
  rw [hnil, nil_append] at hsplit
  rcases path_head_of_form hform with hhead | ⟨hstar, -⟩
  · rcases hq with ⟨rfl, -⟩ | hq
    · simp [hsplit] at hhead
    · rw [hsplit, hq] at hhead
      exact absurd hhead (by simp; decide)
  · rw [hstar] at hnil
    exact absurd hnil (by decide)

theorem subsliceSpan_some {base sub : Bytes} (hfits : off + sub.length ≤ base.length)
    (hlen : base.length < 2 ^ 32) :
    subsliceSpan base sub (some off) = some (off, off + sub.length) := by
  rw [subsliceSpan, Option.bind_some, if_pos hfits, asU32_of_lt (by omega), asU32_of_lt (by omega)]

/-- The span the request processor records for the path. -/
theorem pathSpan_eq (hform : TargetForm h.method h.target authority path offset) (tail : Bytes)
    (hlen : (h.wire ++ tail).length < 2 ^ 32) (c : Cow) :
    (requestMeta (h.wire ++ tail) (h.info authority path offset) c).pathSpan =
      offset.map fun off => (h.method.length + 1 + off,
        h.method.length + 1 + off + (splitQuery path).1.length) := by
  cases offset with
  | none => rfl
  | some off =>
    obtain ⟨rest, hdrop⟩ := path_in_wire hform
    have hle := le_length_of_drop hdrop (splitQuery_path_ne hform)
    refine subsliceSpan_some (le_trans hle ?_) hlen
    simp

theorem requestMeta_path (hs : h.Strict)
    (hform : TargetForm h.method h.target authority path offset) (tail : Bytes)
    (hlen : (h.wire ++ tail).length < 2 ^ 32) {c : Cow}
    (hc : normalizePath (splitQuery path).1 = some c) :
    (requestMeta (h.wire ++ tail) (h.info authority path offset) c).path h.wire = c.text := by
  have hutf8 := (path_utf8_of_form hform ((isUtf8_cut (by decide)).mp hs.line_utf8).2).2
  rw [RequestMeta.path, pathSpan_eq hform tail hlen]
  rcases normalizePath_spec hc with rfl | ⟨p, kept, rfl, -⟩
  · cases offset with
    | some off =>
      obtain ⟨rest, hdrop⟩ := path_in_wire hform
      have hle := le_length_of_drop hdrop (splitQuery_path_ne hform)
      have hslice : slice h.wire (h.method.length + 1 + off)
          (h.method.length + 1 + off + (splitQuery path).1.length) = (splitQuery path).1 :=
        slice_of_drop hdrop rfl
      simp only [requestMeta, Option.map_some, hslice, hutf8]
      rw [if_pos ⟨by omega, hle, trivial⟩]
      rfl
    | none =>
      have hpath : path = bytes "/" := by
        generalize h.target = target at hform
        cases hform
        rfl
      subst hpath
      exact (show bytes "/" = (splitQuery (bytes "/")).1 by decide)
  · rfl

theorem sp_not_mem_method (hs : h.Strict) : sp ∉ h.method := fun hb =>
  (tchar_spec sp ((isToken_iff.mp hs.method_token).2 sp hb)).2.2.2.1 rfl

theorem sp_not_mem_target (ht : IsTargetText target) : sp ∉ target := by
  intro hb
  rcases ht.1 sp hb with hb | hb
  · exact absurd hb (by decide)
  · exact absurd hb (by decide)

theorem wire_getElem? (h : RequestHead) (i : ℕ) : h.wire[h.method.length + 1 + i]? =
    (h.target ++ (versionWire h.http10 ++ (fieldsWire h.fields ++ crlf)))[i]? := by
  rw [← wire_drop_target, getElem?_drop]

/-- What `OriginForm::of` makes of a target that opens with a scheme, wherever its authority
ends. -/
theorem originForm_of_scheme (hs : h.Strict) {scheme auth rest : Bytes}
    (hscheme : IsHttpScheme scheme) (hauth : ∀ b ∈ auth, b ≠ sp) (hne : auth ≠ [])
    (htarget : h.target = scheme ++ (auth ++ rest)) {span : Option (ℕ × ℕ)}
    (hspan : span = none ∧ rest = [] ∨
      span.map Prod.fst = some (h.method.length + 1 + (scheme.length + auth.length))) :
    OriginForm.of h.wire span = some ⟨auth, hostLine h.wire⟩ := by
  have hsp : memchr sp h.wire = some h.method.length := memchr_append (sp_not_mem_method hs) _
  generalize hV : versionWire h.http10 ++ (fieldsWire h.fields ++ crlf) = V
  have hget : ∀ i, h.wire[h.method.length + 1 + i]? = (scheme ++ (auth ++ (rest ++ V)))[i]? := by
    intro i
    rw [wire_getElem?, hV, htarget]
    simp
  have hdrop : h.wire.drop (h.method.length + 1) = scheme ++ (auth ++ (rest ++ V)) := by
    rw [wire_drop_target, hV, htarget]
    simp
  obtain ⟨hslash, hstar, hsome, hlen⟩ := scheme_octets hscheme (auth ++ (rest ++ V))
  have hstart : h.wire.drop (h.method.length + 1 + scheme.length) = auth ++ (rest ++ V) :=
    drop_of_drop hdrop rfl
  have hauthority : slice h.wire (h.method.length + 1 + scheme.length)
      (h.method.length + 1 + scheme.length + auth.length) = auth := slice_of_drop hstart rfl
  have hzero : h.wire[h.method.length + 1]? = (scheme ++ (auth ++ (rest ++ V)))[0]? := hget 0
  rw [← hzero] at hslash hstar hsome
  rw [← hget] at hlen
  rcases hspan with ⟨rfl, rfl⟩ | hspan
  · -- the authority ends with the target
    have hend : memchr sp (auth ++ ([] ++ V)) = some auth.length := by
      rw [nil_append, ← hV]
      exact memchr_append (fun hb => hauth sp hb rfl) _
    simp only [OriginForm.of, Option.map_none, Option.any_none, Bool.false_eq_true, if_false, hsp,
      hslash, hstar, hsome, or_self, hlen, hstart, hend, Option.map_some, Option.bind_eq_bind,
      Option.bind_some, Option.pure_def, hauthority]
  · -- the authority ends where the path starts, past an octet that is no SP
    rw [← add_assoc] at hspan
    have hlast : h.wire[h.method.length + 1 + scheme.length + auth.length - 1]? ≠ some sp := by
      have hpos := length_pos_iff.mpr hne
      rw [show h.method.length + 1 + scheme.length + auth.length - 1 =
        h.method.length + 1 + (scheme.length + (auth.length - 1)) by omega, hget,
        getElem?_append_right (by omega), Nat.add_sub_cancel_left,
        getElem?_append_left (by omega)]
      intro hb
      exact hauth sp (mem_of_getElem? hb) rfl
    simp only [OriginForm.of, hspan, Option.any_some, beq_iff_eq, hlast, if_false, hsp,
      hslash, hstar, hsome, or_self, hlen, Option.bind_eq_bind, Option.bind_some, Option.pure_def,
      hauthority]

/-- An absolute-form target leaves as origin-form, its authority kept for the Host line. -/
theorem originForm_of_form (hs : h.Strict)
    (hform : TargetForm h.method h.target authority path offset) :
    ∃ a : Option Authority, authority = a.map Authority.host ∧
      OriginForm.of h.wire (offset.map fun off => (h.method.length + 1 + off,
        h.method.length + 1 + off + (splitQuery path).1.length)) = originOf h.wire a := by
  have hprev : h.wire[h.method.length + 1 + 0 - 1]? = some sp := by
    simp [RequestHead.wire]
  have hsp : ∀ a : Authority, ∀ b ∈ a.text, b ≠ sp := by
    rintro a b hb rfl
    exact absurd (a.text_byte sp hb).2.1 (by decide)
  generalize htarget : h.target = target at hform
  cases hform with
  | origin hhead | asterisk =>
    refine ⟨none, rfl, ?_⟩
    simp only [OriginForm.of, Option.map_some, Option.any_some, hprev, beq_self_eq_true, if_true]
    rfl
  | @absolute scheme host port path hscheme hne hhost hport hslash =>
    let a : Authority := ⟨host, port, hne, hhost, hport⟩
    refine ⟨some a, rfl, ?_⟩
    exact originForm_of_scheme hs hscheme (hsp a) a.text_ne htarget (.inr rfl)
  | @authority scheme host port hscheme hne hhost hport =>
    let a : Authority := ⟨host, port, hne, hhost, hport⟩
    refine ⟨some a, rfl, ?_⟩
    have htarget' : h.target = scheme ++ (a.text ++ []) := by
      rw [htarget, append_nil]
      rfl
    exact originForm_of_scheme hs hscheme (hsp a) a.text_ne htarget' (.inl ⟨rfl, rfl⟩)

end
end Portail.Proxy
