import Portail.Http.RequestFields

/-!
# The strict request grammar

The language `extract_routing_info` accepts, stated over syntax trees. A head of
this grammar is accepted whatever follows it and read from its own octets alone
(`RequestHead.ReadsAs.accepted_wire`); an accepted text begins with such a head
(`exists_head_of_accepted`).
-/

namespace Portail.Http

open Lib HeadState List

structure RequestHead where
  method : Bytes
  target : Bytes
  http10 : Bool
  fields : List Field

/-- `SP HTTP-version CRLF`. -/
def versionWire (http10 : Bool) : Bytes := sp :: (httpVersion http10 ++ crlf)

def RequestHead.wire (h : RequestHead) : Bytes :=
  h.method ++ (sp :: (h.target ++ (versionWire h.http10 ++ (fieldsWire h.fields ++ crlf))))

theorem readVersion_wire (http10 : Bool) :
    readVersion (httpVersion http10 ++ crlf) = some http10 := by
  cases http10 <;> decide

theorem readVersion_eq_some {text : Bytes} {http10 : Bool} (h : readVersion text = some http10) :
    text = httpVersion http10 ++ crlf := by
  rw [readVersion] at h
  split_ifs at h with h1 h2
  · cases h; exact h1
  · cases h; exact h2

theorem versionWire_length (http10 : Bool) : (versionWire http10).length = 11 := by
  cases http10 <;> decide

variable {method target : Bytes}

/-- A request line without its CRLF. -/
def requestLine (method target : Bytes) (http10 : Bool) : Bytes :=
  method ++ (sp :: (target ++ (sp :: httpVersion http10)))

/-- An octet that ends no line. -/
def InLine (b : UInt8) : Prop := b ≠ cr ∧ b ≠ lf

theorem token_plain {name : Bytes} (h : isToken name = true) : ∀ b ∈ name, InLine b := by
  intro b hb
  have hspec := tchar_spec b ((isToken_iff.mp h).2 b hb)
  exact ⟨hspec.1, hspec.2.1⟩

theorem IsTargetText.plain (h : IsTargetText target) : ∀ b ∈ target, InLine b := by
  have hspec : ∀ b : UInt8, is b .target = true ∨ b = backslash → b ≠ cr ∧ b ≠ lf :=
    forall_octet (by decide +kernel)
  exact fun b hb => hspec b (h.1 b hb)

theorem lineEnds_not_mem {text : Bytes} (h : ∀ b ∈ text, InLine b) : cr ∉ text ∧ lf ∉ text :=
  ⟨fun hcr => (h cr hcr).1 rfl, fun hlf => (h lf hlf).2 rfl⟩

theorem requestLine_plain (hmethod : isToken method = true) (htarget : ∀ b ∈ target, InLine b)
    (http10 : Bool) :
    cr ∉ requestLine method target http10 ∧ lf ∉ requestLine method target http10 := by
  refine lineEnds_not_mem fun b hb => ?_
  have hversion : ∀ b ∈ sp :: httpVersion http10, b ≠ cr ∧ b ≠ lf := by cases http10 <;> decide
  rw [requestLine, mem_append, mem_cons, mem_append] at hb
  rcases hb with hb | rfl | hb | hb
  · exact token_plain hmethod b hb
  · exact ⟨by decide, by decide⟩
  · exact htarget b hb
  · exact hversion b hb

theorem readRequestLine_wire (hmethod : isToken method = true)
    (htarget : IsTargetText target) (hne : target ≠ [])
    (hutf8 : isUtf8 (method ++ (sp :: target)) = true) (http10 : Bool) (rest : Bytes) :
    readRequestLine (method ++ (sp :: (target ++ (versionWire http10 ++ rest)))) =
      .ok ⟨method, target, method.length + 1, method.length + 1 + target.length, http10⟩ := by
  obtain ⟨hmne, hmchars⟩ := isToken_iff.mp hmethod
  generalize hdata : method ++ (sp :: (target ++ (versionWire http10 ++ rest))) = data
  have hrun : data.takeWhile isTchar = method := by
    rw [← hdata]
    exact takeWhile_run hmchars isTchar_sp _
  have h0 : data.drop 0 = method ++ (sp :: (target ++ (versionWire http10 ++ rest))) := hdata.symm
  have h1 : data.drop method.length = sp :: (target ++ (versionWire http10 ++ rest)) := by
    simpa using drop_of_drop h0 rfl
  have h2 : data.drop (method.length + 1) = target ++ (versionWire http10 ++ rest) :=
    drop_succ_of_drop h1
  have h3 : data.drop (method.length + 1 + target.length) = versionWire http10 ++ rest :=
    drop_of_drop h2 rfl
  have h4 : data.drop (method.length + 1 + target.length + 1) =
      httpVersion http10 ++ crlf ++ rest := drop_succ_of_drop h3
  have hend : targetEnd data (method.length + 1) = method.length + 1 + target.length :=
    targetEnd_complete h2 htarget
  have hvlen : (httpVersion http10 ++ crlf).length = 10 := by cases http10 <;> decide
  have hversion : slice data (method.length + 1 + target.length + 1)
      (method.length + 1 + target.length + 11) = httpVersion http10 ++ crlf :=
    slice_of_drop h4 (by rw [hvlen])
  have htake : data.take (method.length + 1 + target.length) = method ++ (sp :: target) := by
    rw [← hdata, show method ++ (sp :: (target ++ (versionWire http10 ++ rest))) =
      (method ++ (sp :: target)) ++ (versionWire http10 ++ rest) by simp]
    exact take_left' (by simp; omega)
  have hlen : method.length ≠ 0 := by simpa using hmne
  have htlen : target.length ≠ 0 := by simpa using hne
  simp only [readRequestLine, hrun, hend, hversion, readVersion_wire, htake, hutf8,
    getElem?_of_drop h1, getElem?_of_drop h3]
  simp [hlen, htlen, versionWire]

variable {data host : Bytes} {line : RequestLine}

theorem readRequestLine_sound (h : readRequestLine data = .ok line) :
    isToken line.method = true ∧ IsTargetText line.target ∧ line.target ≠ [] ∧
      isUtf8 (line.method ++ (sp :: line.target)) = true ∧
      line.start = line.method.length + 1 ∧ line.stop = line.start + line.target.length ∧
      ∃ rest, data = line.method ++
        (sp :: (line.target ++ (versionWire line.isHttp10 ++ rest))) := by
  unfold readRequestLine at h
  dsimp only at h
  split_ifs at h with hm ht hutf8
  swap
  · split at h <;> cases h
  obtain ⟨hmne, hsp⟩ := not_or.mp hm
  obtain ⟨htne, hsp'⟩ := not_or.mp ht
  rw [not_not] at hsp hsp'
  split at h
  · cases h
  next http10 hversion =>
  obtain ⟨target, rest, hdrop, hend, htext⟩ :=
    targetEnd_sound data ((data.takeWhile isTchar).length + 1)
  rw [hend] at h htne hsp' hversion hutf8
  -- the text, piece by piece
  have hmchars : ∀ b ∈ data.takeWhile isTchar, isTchar b = true := fun b hb => mem_takeWhile_imp hb
  have hmdrop := (dropWhile_eq_drop (p := isTchar) data).symm
  rw [cons_of_getElem? hsp, hdrop] at hmdrop
  have hrest := drop_of_drop hdrop rfl
  rw [cons_of_getElem? hsp'] at hrest
  have hv := readVersion_eq_some hversion
  have htail := take_append_drop 10
    (data.drop ((data.takeWhile isTchar).length + 1 + target.length + 1))
  rw [slice, show ∀ n, n + 11 - (n + 1) = 10 by omega] at hv
  rw [hv] at htail
  have hsplit := takeWhile_append_dropWhile (p := isTchar) (l := data)
  rw [← hmdrop, ← hrest, ← htail] at hsplit
  generalize data.takeWhile isTchar = method at *
  have htake : data.take (method.length + 1 + target.length) = method ++ (sp :: target) := by
    rw [← hsplit, show ∀ t : Bytes, method ++ sp :: (target ++ sp :: t) =
      (method ++ (sp :: target)) ++ sp :: t by simp]
    exact take_left' (by simp; omega)
  rw [htake] at h hutf8
  rw [take_left' rfl, show method.length + 1 = (method ++ [sp]).length by simp,
    show method ++ sp :: target = (method ++ [sp]) ++ target by simp, drop_left] at h
  cases h
  refine ⟨isToken_iff.mpr ⟨?_, hmchars⟩, htext, ?_, hutf8, by simp, by simp,
    _, by simpa [versionWire] using hsplit.symm⟩
  · rintro rfl
    exact hmne rfl
  · rintro rfl
    exact htne rfl

section

variable (method : Bytes) in
/-- The forms of a request target: the host its authority names, the path it gives and
where in the target that path starts. -/
inductive TargetForm : Bytes → Option Bytes → Bytes → Option ℕ → Prop
  | origin {target : Bytes} (h : target.head? = some slash) :
      TargetForm target none target (some 0)
  | asterisk (h : method = bytes "OPTIONS") :
      TargetForm (bytes "*") none (bytes "*") (some 0)
  | absolute {scheme host port path : Bytes}
      (hscheme : eqIgnoreAsciiCase scheme (bytes "http://") = true ∨
        eqIgnoreAsciiCase scheme (bytes "https://") = true)
      (hne : host ≠ []) (hhost : IsUriHost host) (hport : IsPortSuffix port)
      (hpath : path.head? = some slash) :
      TargetForm (scheme ++ (host ++ port ++ path)) (some host) path
        (some (scheme.length + (host ++ port).length))
  | authority {scheme host port : Bytes}
      (hscheme : eqIgnoreAsciiCase scheme (bytes "http://") = true ∨
        eqIgnoreAsciiCase scheme (bytes "https://") = true)
      (hne : host ≠ []) (hhost : IsUriHost host) (hport : IsPortSuffix port) :
      TargetForm (scheme ++ (host ++ port)) (some host) (bytes "/") none

variable {host port target : Bytes}

theorem isUriHost_no_slash (h : IsUriHost host) : slash ∉ host := by
  intro hmem
  rcases h with h | ⟨run, -, hrun, rfl⟩
  · exact (host_byte_spec slash (h slash hmem)).2.2.1 rfl
  · simp only [mem_cons, mem_append, not_mem_nil, or_false] at hmem
    rcases hmem with hmem | hmem | hmem
    · exact absurd hmem (by decide)
    · exact (ipLiteralByte_spec slash (hrun slash hmem)).2.1 rfl
    · exact absurd hmem (by decide)

theorem isPortSuffix_no_slash (h : IsPortSuffix port) : slash ∉ port := by
  intro hmem
  rcases h with rfl | ⟨digits, hdigits, rfl⟩
  · simp at hmem
  · rcases mem_cons.mp hmem with hmem | hmem
    · exact absurd hmem (by decide)
    · exact (digit_spec slash (hdigits slash hmem)).1 rfl

theorem slash_not_mem_authority (hhost : IsUriHost host) (hport : IsPortSuffix port) :
    slash ∉ host ++ port := by
  rw [mem_append, not_or]
  exact ⟨isUriHost_no_slash hhost, isPortSuffix_no_slash hport⟩

theorem splitHost_authority (hhost : IsUriHost host) (hport : IsPortSuffix port) :
    splitHost (host ++ port) = some host.length :=
  splitHost_eq_some_iff.mpr ⟨host, port, rfl, rfl, hhost, hport⟩

abbrev IsHttpScheme (scheme : Bytes) : Prop :=
  eqIgnoreAsciiCase scheme (bytes "http://") = true ∨
    eqIgnoreAsciiCase scheme (bytes "https://") = true

/-- A target that opens with a scheme: the scheme found, and no other form. -/
theorem scheme_spec {scheme : Bytes} (h : IsHttpScheme scheme) (rest : Bytes) :
    absoluteSchemeLen (scheme ++ rest) = some scheme.length ∧
      (scheme ++ rest).head? ≠ some slash ∧ scheme ++ rest ≠ bytes "*" := by
  have hopen : ∀ lit : String, 7 ≤ (bytes lit).length →
      ((bytes lit).map toAsciiLowercase).head? = some 0x68 →
      eqIgnoreAsciiCase scheme (bytes lit) = true →
      (scheme ++ rest).head? ≠ some slash ∧ scheme ++ rest ≠ bytes "*" := by
    intro lit hlen hhead heq
    rw [← eqIgnoreAsciiCase_iff.mp heq] at hhead
    rw [← eqIgnoreAsciiCase_length heq] at hlen
    cases scheme with
    | nil => simp at hhead
    | cons c scheme =>
      refine ⟨fun hc => ?_, fun hstar => ?_⟩
      · obtain rfl : c = slash := by simpa using hc
        exact absurd hhead (by simp; decide)
      · have := congrArg List.length hstar
        have hone : (bytes "*").length = 1 := by decide
        simp only [length_append, hone] at this
        omega
  rcases h with h | h
  · have hlen : scheme.length = 7 := eqIgnoreAsciiCase_length h
    refine ⟨?_, hopen _ (by decide) (by decide) h⟩
    have htake : (scheme ++ rest).take 7 = scheme := take_left' hlen
    rw [absoluteSchemeLen, htake, if_pos ⟨by simp [hlen], h⟩, hlen]
  · have hlen : scheme.length = 8 := eqIgnoreAsciiCase_length h
    refine ⟨?_, hopen _ (by decide) (by decide) h⟩
    have htake : (scheme ++ rest).take 8 = scheme := take_left' hlen
    have hother : eqIgnoreAsciiCase ((scheme ++ rest).take 7) (bytes "http://") = false := by
      rw [take_append_of_le_length (by omega), eqIgnoreAsciiCase, map_take,
        eqIgnoreAsciiCase_iff.mp h]
      decide
    rw [absoluteSchemeLen, hother, htake, if_neg (by simp), if_pos ⟨by simp [hlen], h⟩, hlen]

theorem absoluteSchemeLen_eq_some {n : ℕ} (h : absoluteSchemeLen target = some n) :
    ∃ scheme rest, target = scheme ++ rest ∧ n = scheme.length ∧ IsHttpScheme scheme := by
  rw [absoluteSchemeLen] at h
  split_ifs at h with h7 h8
  · cases h
    exact ⟨target.take 7, target.drop 7, (take_append_drop ..).symm, by simp [h7.1], .inl h7.2⟩
  · cases h
    exact ⟨target.take 8, target.drop 8, (take_append_drop ..).symm, by simp [h8.1], .inr h8.2⟩

theorem readTarget_of_form {path : Bytes} {host : Option Bytes} {offset : Option ℕ}
    (hmethod : method ≠ bytes "CONNECT") (h : TargetForm method target host path offset)
    (start : ℕ) :
    readTarget method target start = ⟨false, host, path, offset.map (start + ·)⟩ := by
  rw [readTarget, if_neg hmethod]
  cases h with
  | origin h => simp [h]
  | asterisk h =>
    have hhead : (bytes "*").head? ≠ some slash := by decide
    rw [if_pos hhead, if_pos rfl]
    simp [h]
  | @absolute scheme host port path hscheme hne hhost hport hpath =>
    obtain ⟨hlen, hhead, hstar⟩ := scheme_spec hscheme (host ++ port ++ path)
    obtain ⟨path, rfl⟩ : ∃ p, path = slash :: p := by
      cases path with
      | nil => simp at hpath
      | cons c p => exact ⟨p, by simpa using hpath⟩
    have hmem := memchr_append (slash_not_mem_authority hhost hport) path
    have hpos : 0 < host.length := length_pos_iff.mpr hne
    rw [if_pos hhead, if_neg hstar, hlen]
    simp only [drop_left, hmem, Option.getD_some, take_left,
      splitHost_authority hhost hport, hpos, if_true]
    rw [if_pos (by simp)]
    simp [add_assoc]
  | @authority scheme host port hscheme hne hhost hport =>
    obtain ⟨hlen, hhead, hstar⟩ := scheme_spec hscheme (host ++ port)
    have hmem : memchr slash (host ++ port) = none :=
      memchr_eq_none.mpr (slash_not_mem_authority hhost hport)
    have hpos : 0 < host.length := length_pos_iff.mpr hne
    rw [if_pos hhead, if_neg hstar, hlen]
    simp only [drop_left, hmem, Option.getD_none, take_length,
      splitHost_authority hhost hport, hpos, if_true, take_left]
    simp

theorem readTarget_sound {start : ℕ} (h : (readTarget method target start).violation = false) :
    method ≠ bytes "CONNECT" ∧ ∃ host path offset, TargetForm method target host path offset := by
  unfold readTarget at h
  by_cases hmethod : method = bytes "CONNECT"
  · simp [hmethod] at h
  refine ⟨hmethod, ?_⟩
  rw [if_neg hmethod] at h
  by_cases hhead : target.head? = some slash
  · exact ⟨_, _, _, .origin hhead⟩
  rw [if_pos hhead] at h
  by_cases hstar : target = bytes "*"
  · rw [if_pos hstar] at h
    subst hstar
    exact ⟨_, _, _, .asterisk (by simpa using h)⟩
  rw [if_neg hstar] at h
  cases hscheme : absoluteSchemeLen target with
  | none => simp [hscheme] at h
  | some n =>
    obtain ⟨scheme, rest, rfl, rfl, hs⟩ := absoluteSchemeLen_eq_some hscheme
    simp only [hscheme, drop_left] at h
    -- the authority is all of `rest` up to its first slash
    obtain ⟨authority, path, hrest, hlen, hpath⟩ : ∃ authority path, rest = authority ++ path ∧
        (memchr slash rest).getD rest.length = authority.length ∧
        (path = [] ∨ path.head? = some slash) := by
      rcases memchr_cases slash rest with ⟨hnone, -⟩ | ⟨x, y, hxy, -, hsome⟩
      · exact ⟨rest, [], by simp, by simp [hnone], .inl rfl⟩
      · exact ⟨x, slash :: y, hxy, by simp [hsome], .inr rfl⟩
    subst hrest
    simp only [hlen, take_left] at h
    obtain ⟨k, hsplit, hk⟩ : ∃ k, splitHost authority = some k ∧ 0 < k := by
      cases hsplit : splitHost authority with
      | none => simp only [hsplit] at h; split_ifs at h
      | some k =>
        refine ⟨k, rfl, ?_⟩
        by_contra hk
        simp only [hsplit, hk, if_false] at h
        split_ifs at h
    obtain ⟨host, port, rfl, rfl, hhost, hport⟩ := splitHost_eq_some_iff.mp hsplit
    have hne : host ≠ [] := length_pos_iff.mp hk
    rcases hpath with rfl | hpath
    · rw [append_nil]
      exact ⟨_, _, _, .authority hs hne hhost hport⟩
    · exact ⟨_, _, _, .absolute hs hne hhost hport hpath⟩

end

namespace Field

variable (f : Field)

def isNamed (lit : String) : Bool := eqIgnoreAsciiCase f.name (bytes lit)

def NamesHost (host : Bytes) : Prop :=
  f.isNamed "host" = true ∧
    ∃ port, trimOws f.value = host ++ port ∧ IsUriHost host ∧ IsPortSuffix port

/-- The grammar's demands on a single line. -/
structure Conforms (http10 : Bool) : Prop where
  host : f.isNamed "host" = true → ∃ host, f.NamesHost host
  length : f.isNamed "content-length" = true → trimOws f.value ≠ [] ∧
    (∀ b ∈ trimOws f.value, isAsciiDigit b = true) ∧ decimalValue 0 (trimOws f.value) < 2 ^ 64
  coding : f.isNamed "transfer-encoding" = true → http10 = false ∧
    eqIgnoreAsciiCase (trimOws f.value) (bytes "chunked") = true
  connection : f.isNamed "connection" = true → ∀ token ∈ f.value.splitOn comma,
    ∀ name ∈ ["content-length", "transfer-encoding", "host"],
      eqIgnoreAsciiCase (trimOws token) (bytes name) = false

end Field

/-- A head of the strict grammar. -/
structure RequestHead.Strict (h : RequestHead) : Prop where
  method_token : isToken h.method = true
  method_ne : h.method ≠ bytes "CONNECT"
  target_text : IsTargetText h.target
  line_utf8 : isUtf8 (h.method ++ (sp :: h.target)) = true
  target_form : ∃ authority path offset, TargetForm h.method h.target authority path offset ∧
    ∀ a ∈ authority, ∀ f ∈ h.fields, ∀ host, f.NamesHost host → eqIgnoreAsciiCase a host = true
  lines : ∀ f ∈ h.fields, f.Conforms h.http10
  host_once : (h.fields.filter (·.isNamed "host")).length ≤ 1
  host_present : h.http10 = false → ∃ f ∈ h.fields, ∃ host, f.NamesHost host ∧ host ≠ []
  length_once : (h.fields.filter (·.isNamed "content-length")).length ≤ 1
  coding_once : (h.fields.filter (·.isNamed "transfer-encoding")).length ≤ 1
  one_framing : ¬ ((∃ f ∈ h.fields, f.isNamed "content-length" = true) ∧
    ∃ f ∈ h.fields, f.isNamed "transfer-encoding" = true)

namespace Field

variable (f : Field)

theorem kind_host_iff : f.kind = .host ↔ f.isNamed "host" = true :=
  fieldName_eq_iff (by decide) (by decide) (by decide)

theorem kind_length_iff : f.kind = .contentLength ↔ f.isNamed "content-length" = true :=
  fieldName_eq_iff (by decide) (by decide) (by decide)

theorem kind_coding_iff : f.kind = .transferEncoding ↔ f.isNamed "transfer-encoding" = true :=
  fieldName_eq_iff (by decide) (by decide) (by decide)

theorem kind_connection_iff : f.kind = .connection ↔ f.isNamed "connection" = true :=
  fieldName_eq_iff (by decide) (by decide) (by decide)

theorem hostPart_eq_some {f : Field} : f.hostPart = some host ↔ f.NamesHost host := by
  rw [NamesHost, ← kind_host_iff, hostPart]
  by_cases hk : f.kind = .host
  · simp only [hk, if_true, true_and, Option.map_eq_some_iff]
    constructor
    · rintro ⟨n, hn, rfl⟩
      obtain ⟨host, port, hv, rfl, hhost, hport⟩ := splitHost_eq_some_iff.mp hn
      rw [hv, take_left]
      exact ⟨port, rfl, hhost, hport⟩
    · rintro ⟨port, hv, hhost, hport⟩
      exact ⟨host.length, by rw [hv, splitHost_authority hhost hport], by rw [hv, take_left]⟩
  · simp [hk]

theorem ok_iff (http10 : Bool) : f.ok http10 = true ↔ f.Conforms http10 := by
  have hhost : (splitHost (trimOws f.value)).isSome = true ↔
      ∃ host port, trimOws f.value = host ++ port ∧ IsUriHost host ∧ IsPortSuffix port := by
    rw [Option.isSome_iff_exists]
    simp only [splitHost_eq_some_iff]
    constructor
    · rintro ⟨n, host, port, hv, -, hh, hp⟩
      exact ⟨host, port, hv, hh, hp⟩
    · rintro ⟨host, port, hv, hh, hp⟩
      exact ⟨_, host, port, hv, rfl, hh, hp⟩
  have hlength : (parseDigits (trimOws f.value)).isSome = true ↔ trimOws f.value ≠ [] ∧
      (∀ b ∈ trimOws f.value, isAsciiDigit b = true) ∧
        decimalValue 0 (trimOws f.value) < 2 ^ 64 := by
    rw [Option.isSome_iff_exists]
    simp only [parseDigits, readDecimal_eq_some]
    constructor
    · rintro ⟨n, hne, hdigits, rfl, hlt⟩
      exact ⟨hne, hdigits, hlt⟩
    · rintro ⟨hne, hdigits, hlt⟩
      exact ⟨_, hne, hdigits, rfl, hlt⟩
  have hconforms : f.Conforms http10 ↔
      (f.kind = .host → (splitHost (trimOws f.value)).isSome = true) ∧
      (f.kind = .contentLength → (parseDigits (trimOws f.value)).isSome = true) ∧
      (f.kind = .transferEncoding → http10 = false ∧
        eqIgnoreAsciiCase (trimOws f.value) (bytes "chunked") = true) ∧
      (f.kind = .connection → ∀ token ∈ f.value.splitOn comma,
        isPinned (trimOws token) = false) := by
    simp only [kind_host_iff, kind_length_iff, kind_coding_iff, kind_connection_iff, hhost, hlength]
    constructor
    · rintro ⟨h1, h2, h3, h4⟩
      refine ⟨fun h => ?_, h2, h3, fun h token ht => ?_⟩
      · obtain ⟨host, -, port, hv⟩ := h1 h
        exact ⟨host, port, hv⟩
      · rw [isPinned, any_eq_false]
        exact fun name hname => by simpa using h4 h token ht name hname
    · rintro ⟨h1, h2, h3, h4⟩
      refine ⟨fun h => ?_, h2, h3, fun h token ht name hname => ?_⟩
      · obtain ⟨host, port, hv⟩ := h1 h
        exact ⟨host, h, port, hv⟩
      · have hp := h4 h token ht
        rw [isPinned, any_eq_false] at hp
        simpa using hp name hname
  rw [hconforms]
  cases hk : f.kind <;> simp [ok, hk, tokens]

end Field

/-- The locals at the end of the pass, when it flags nothing. -/
structure Passes (line : RequestLine) (target : TargetReading) (st : HeadState) (host : Bytes) :
    Prop where
  violation : st.violation = false
  terminated : st.terminated = true
  host_eq : requestHost line.isHttp10 false st.host target.targetHost = .ok host
  authority : ∀ a ∈ target.targetHost, eqIgnoreAsciiCase a host = true
  host_ne : line.isHttp10 = false → host ≠ []
  one_framing : (st.contentLength.isSome && st.isChunked) = false
  utf8 : isUtf8 host = true

theorem accept_finishHead {target : TargetReading} {st : HeadState} {info : HttpRequestInfo} :
    accept (finishHead data line target st) = some info ↔
      ∃ host, Passes line target st host ∧ info = routingInfo data line target st host false := by
  by_cases hflag : (st.violation || !st.terminated) = true
  · -- flagged: the host is still computed, but nothing clears the flag
    have hleft : accept (finishHead data line target st) = none := by
      simp only [finishHead, hflag, bind, Except.bind]
      cases hhost : requestHost line.isHttp10 true st.host target.targetHost with
      | error e => rfl
      | ok host =>
        dsimp only
        split_ifs
        · simp [accept, routingInfo]
        · rfl
    rw [hleft]
    constructor
    · intro h
      cases h
    · rintro ⟨host, hp, -⟩
      simp [hp.violation, hp.terminated] at hflag
  · simp only [Bool.or_eq_true, Bool.not_eq_true', not_or, Bool.not_eq_true,
      Bool.not_eq_false] at hflag
    obtain ⟨hv, ht⟩ := hflag
    simp only [finishHead, hv, ht, Bool.not_true, Bool.or_self, Bool.false_or, bind, Except.bind]
    cases hhost : requestHost line.isHttp10 false st.host target.targetHost with
    | error e =>
      constructor
      · intro h
        cases h
      · rintro ⟨host, hp, -⟩
        have := hp.host_eq
        rw [hhost] at this
        cases this
    | ok host =>
      dsimp only
      generalize hflags : (target.targetHost.any (fun t => !eqIgnoreAsciiCase t host) ||
        (host.isEmpty && !line.isHttp10 || st.contentLength.isSome && st.isChunked)) = flags
      have hclear : flags = false ↔ (∀ a ∈ target.targetHost, eqIgnoreAsciiCase a host = true) ∧
          (line.isHttp10 = false → host ≠ []) ∧
          (st.contentLength.isSome && st.isChunked) = false := by
        rw [← hflags, Bool.or_eq_false_iff, Bool.or_eq_false_iff, Bool.and_eq_false_iff]
        refine and_congr ?_ (and_congr ?_ Iff.rfl)
        · cases target.targetHost <;> simp
        · cases line.isHttp10 <;> simp
      constructor
      · intro h
        split_ifs at h with hutf8
        · rw [accept] at h
          split_ifs at h with hviolation
          cases h
          have hfalse : flags = false := by simpa [routingInfo] using hviolation
          obtain ⟨hauth, hne, hframe⟩ := hclear.mp hfalse
          exact ⟨host, ⟨hv, ht, hhost, hauth, hne, hframe, hutf8⟩, by rw [hfalse]⟩
        · cases h
      · rintro ⟨host', hp, rfl⟩
        obtain rfl : host = host' := by
          have := hp.host_eq
          rw [hhost] at this
          exact Except.ok.inj this
        have hfalse : flags = false := hclear.mpr ⟨hp.authority, hp.host_ne, hp.one_framing⟩
        simp [accept, hp.utf8, hfalse, routingInfo]

theorem accepted_of_line (h : readRequestLine data = .ok line) :
    accepted data = accept (finishHead data line (readTarget line.method line.target line.start)
      (readHeaders data line (readTarget line.method line.target line.start))) := by
  simp [accepted, extractRoutingInfo, h, bind, Except.bind]

theorem exists_line_of_accepted {info : HttpRequestInfo}
    (h : accepted data = some info) : ∃ line, readRequestLine data = .ok line := by
  cases hline : readRequestLine data with
  | ok line => exact ⟨line, rfl⟩
  | error e => simp [accepted, extractRoutingInfo, hline, bind, Except.bind, accept] at h

section

namespace RequestHead

variable (h : RequestHead)

abbrev firstLine : Bytes := requestLine h.method h.target h.http10

def headerStart : ℕ := h.method.length + 1 + h.target.length + 11

/-- The parser's locals before the fields. -/
def startState : HeadState := { violation := false, pos := h.headerStart }

/-- The parser's locals past the fields. -/
def endState : HeadState := { h.fields.foldl advance h.startState with terminated := true }

def hostLine : Option Bytes := h.fields.findSome? Field.hostPart

def contentLength : Option ℕ := h.fields.findSome? Field.lengthPart

def isChunked : Bool := h.fields.any Field.isCoding

def isUpgrade : Bool :=
  h.fields.any Field.offersUpgrade && h.fields.any (fun f => f.tokens.any isUpgradeToken) &&
    !h.fields.any Field.offersH2cUpgrade

/-- The host a request is routed by: the Host line's, else the authority's. -/
def routedHost (authority : Option Bytes) : Bytes := h.hostLine.getD (authority.getD [])

/-- What the parser makes of a head whose target has the given reading. -/
def info (authority : Option Bytes) (path : Bytes) (offset : Option ℕ) : HttpRequestInfo :=
  { method := h.method
    host := h.routedHost authority
    path := (splitQuery path).1
    pathAt := offset.map (h.method.length + 1 + ·)
    queryString := (splitQuery path).2
    keepalive := h.endState.explicitKeepalive.getD (!h.http10)
    headerData := fieldsWire h.fields
    headLen := h.wire.length
    contentLength := h.contentLength
    isChunked := h.isChunked
    isUpgrade := h.isUpgrade
    headerViolation := false
    stripSpans := h.endState.stripSpans
    upgradeSpan := h.endState.upgradeSpan
    expectContinue := h.endState.expectContinue }

theorem endState_spec : h.endState.violation = false ∧ h.endState.terminated = true ∧
    h.endState.pos = h.headerStart + (fieldsWire h.fields).length ∧
    h.endState.host = h.hostLine ∧ h.endState.contentLength = h.contentLength ∧
    h.endState.isChunked = h.isChunked ∧
    (h.endState.hasUpgradeHeader && h.endState.connectionHasUpgrade &&
      !h.endState.offersH2cUpgrade) = h.isUpgrade := by
  obtain ⟨h1, h2, h3, h4, h5, h6, h7, h8⟩ :=
    foldl_advance h.fields h.startState
  refine ⟨h1, rfl, h2, h3, h4, h5, ?_⟩
  simp only [endState, h6, h7, h8]
  rfl

theorem wire_length : h.wire.length = h.headerStart + (fieldsWire h.fields).length + 2 := by
  simp only [wire, headerStart, length_append, length_cons, versionWire_length]
  simp
  omega

variable {h}

theorem repeated_eq_filter (fs : List Field) {k : FieldName} {lit : String}
    (hk : ∀ f : Field, f.kind = k ↔ f.isNamed lit = true) :
    repeated k fs = (fs.filter (·.isNamed lit)).length := by
  rw [repeated, countP_eq_length_filter]
  congr 2
  funext f
  simp [hk f]

theorem fieldsOk_of_strict (hs : h.Strict) : FieldsOk h.http10 h.fields where
  each f hf := (f.ok_iff h.http10).mpr (hs.lines f hf)
  host_once := by rw [repeated_eq_filter _ Field.kind_host_iff]; exact hs.host_once
  length_once := by rw [repeated_eq_filter _ Field.kind_length_iff]; exact hs.length_once
  coding_once := by rw [repeated_eq_filter _ Field.kind_coding_iff]; exact hs.coding_once

/-- The Host line found is the only one there is. -/
theorem hostLine_iff (hok : FieldsOk h.http10 h.fields) :
    h.hostLine = some host ↔ ∃ f ∈ h.fields, f.NamesHost host := by
  simp only [← Field.hostPart_eq_some]
  constructor
  · intro hfind
    exact exists_of_findSome?_eq_some hfind
  · rintro ⟨f, hf, hpart⟩
    refine findSome?_of_once (q := fun f : Field => decide (f.kind = .host)) ?_
      hok.host_once hf hpart
    intro g hg
    simp only [decide_eq_true_eq]
    by_contra hk
    simp [Field.hostPart, hk] at hg

theorem contentLength_isSome (hok : FieldsOk h.http10 h.fields) :
    h.contentLength.isSome = true ↔ ∃ f ∈ h.fields, f.isNamed "content-length" = true := by
  rw [contentLength, findSome?_isSome_iff]
  refine exists_congr fun f => and_congr_right fun hf => ?_
  rw [Field.lengthPart_isSome (hok.each f hf), decide_eq_true_eq, Field.kind_length_iff]

theorem isChunked_iff :
    h.isChunked = true ↔ ∃ f ∈ h.fields, f.isNamed "transfer-encoding" = true := by
  simp [isChunked, Field.isCoding, Field.kind_coding_iff]

end RequestHead

open RequestHead

theorem isUriHost_ascii (h : IsUriHost host) : ∀ b ∈ host, b < 0x80 := by
  intro b hb
  rcases h with h | ⟨run, -, hrun, rfl⟩
  · exact (host_byte_spec b (h b hb)).2.2.2.1
  · simp only [mem_cons, mem_append, not_mem_nil, or_false] at hb
    rcases hb with rfl | hb | rfl
    · decide
    · exact (ipLiteralByte_spec b (hrun b hb)).2.2.1
    · decide

variable {path : Bytes} {offset : Option ℕ} {authority : Option Bytes} {h : RequestHead}

theorem TargetForm.authority_host {a : Bytes}
    (h : TargetForm method target (some a) path offset) : a ≠ [] ∧ IsUriHost a := by
  cases h with
  | absolute hs hne hhost => exact ⟨hne, hhost⟩
  | authority hs hne hhost => exact ⟨hne, hhost⟩

theorem TargetForm.target_ne
    (h : TargetForm method target authority path offset) : target ≠ [] := by
  cases h with
  | origin h =>
    rintro rfl
    simp at h
  | asterisk h => decide
  | absolute hs hne | authority hs hne => simp [hne]

/-- A strict head whose target reads as an authority and a path. -/
structure RequestHead.ReadsAs (h : RequestHead) (authority : Option Bytes) (path : Bytes)
    (offset : Option ℕ) : Prop where
  strict : h.Strict
  form : TargetForm h.method h.target authority path offset
  names : ∀ a ∈ authority, ∀ f ∈ h.fields, ∀ host, f.NamesHost host →
    eqIgnoreAsciiCase a host = true

theorem RequestHead.ReadsAs.passes (hr : h.ReadsAs authority path offset) (start stop : ℕ)
    (offset' : Option ℕ) :
    Passes ⟨h.method, h.target, start, stop, h.http10⟩ ⟨false, authority, path, offset'⟩ h.endState
      (h.routedHost authority) := by
  obtain ⟨hs, hform, hnames⟩ := hr
  have hok := fieldsOk_of_strict hs
  obtain ⟨e1, e2, -, e4, e5, e6, -⟩ := h.endState_spec
  have hframing : (h.endState.contentLength.isSome && h.endState.isChunked) = false := by
    rw [e5, e6, Bool.eq_false_iff]
    intro hboth
    obtain ⟨hlength, hchunked⟩ := (Bool.and_eq_true _ _).mp hboth
    exact hs.one_framing ⟨(contentLength_isSome hok).mp hlength, isChunked_iff.mp hchunked⟩
  cases hline : h.hostLine with
  | some host =>
    obtain ⟨f, hf, hnamed⟩ := (hostLine_iff hok).mp hline
    have hhost : IsUriHost host := hnamed.2.choose_spec.2.1
    have hrouted : h.routedHost authority = host := by simp [routedHost, hline]
    rw [hrouted]
    refine ⟨e1, e2, by simp [requestHost, e4, hline], fun a ha => hnames a ha f hf host hnamed,
      fun h11 => ?_, hframing, isUtf8_of_ascii (isUriHost_ascii hhost)⟩
    obtain ⟨g, hg, host', hnamed', hne⟩ := hs.host_present h11
    have hline' := (hostLine_iff hok).mpr ⟨g, hg, hnamed'⟩
    rw [hline] at hline'
    cases hline'
    exact hne
  | none =>
    -- without a Host line the request is HTTP/1.0, and the authority is the host
    have h10 : h.http10 = true := by
      by_contra h11
      obtain ⟨g, hg, host, hnamed, -⟩ := hs.host_present (by simpa using h11)
      have hline' := (hostLine_iff hok).mpr ⟨g, hg, hnamed⟩
      rw [hline] at hline'
      cases hline'
    have hrouted : h.routedHost authority = authority.getD [] := by
      simp [routedHost, hline]
    rw [hrouted]
    refine ⟨e1, e2, by simp [requestHost, e4, hline, h10], ?_, fun h11 => ?_, hframing, ?_⟩
    · rintro a ha
      obtain rfl : authority = some a := ha
      simp
    · rw [show h.http10 = false from h11] at h10
      cases h10
    · cases authority with
      | none => rfl
      | some a => exact isUtf8_of_ascii (isUriHost_ascii hform.authority_host.2)

variable (htoken : isToken h.method = true) (hmethod : h.method ≠ bytes "CONNECT")
  (htext : IsTargetText h.target) (hutf8 : isUtf8 (h.method ++ (sp :: h.target)) = true)
  (hform : TargetForm h.method h.target authority path offset)

include htoken hmethod htext hutf8 hform in
/-- What the reader does with a head whose request line is in order. -/
theorem RequestHead.accepted_line (tail : Bytes) :
    accepted (h.wire ++ tail) = accept (finishHead (h.wire ++ tail)
      ⟨h.method, h.target, h.method.length + 1, h.method.length + 1 + h.target.length, h.http10⟩
      ⟨false, authority, path, offset.map (h.method.length + 1 + ·)⟩
      (readLines h.http10 h.startState h.fields)) ∧
    (h.wire ++ tail).drop h.headerStart = fieldsWire h.fields ++ (crlf ++ tail) := by
  have hdata : h.wire ++ tail = h.method ++ (sp :: (h.target ++ (versionWire h.http10 ++
      (fieldsWire h.fields ++ (crlf ++ tail))))) := by simp [wire]
  have hline := readRequestLine_wire htoken htext hform.target_ne hutf8
    h.http10 (fieldsWire h.fields ++ (crlf ++ tail))
  rw [← hdata] at hline
  have htarget := readTarget_of_form hmethod hform (h.method.length + 1)
  have hdrop : (h.wire ++ tail).drop h.headerStart = fieldsWire h.fields ++ (crlf ++ tail) := by
    rw [hdata, show ∀ t : Bytes, h.method ++ (sp :: (h.target ++ (versionWire h.http10 ++ t))) =
      (h.method ++ (sp :: (h.target ++ versionWire h.http10))) ++ t by simp]
    exact drop_left' (by simp [headerStart, versionWire_length]; omega)
  have hread : (headLoop (h.wire ++ tail) h.http10).run h.startState = _ :=
    headLoop_wire h.fields hdrop rfl
  refine ⟨?_, hdrop⟩
  rw [accepted_of_line hline, htarget, ← hread]
  rfl

/-- A strict head is accepted, and read from its own octets, whatever follows it. -/
theorem RequestHead.ReadsAs.accepted_wire (hr : h.ReadsAs authority path offset) (tail : Bytes) :
    accepted (h.wire ++ tail) = some (h.info authority path offset) := by
  have hs := hr.strict
  obtain ⟨hread, hdrop⟩ := accepted_line hs.method_token hs.method_ne hs.target_text
    hs.line_utf8 hr.form tail
  obtain ⟨-, hsum⟩ := readLines_eq h.http10 h.fields h.startState rfl
  have hend : readLines h.http10 h.startState h.fields = h.endState :=
    hsum (fieldsOk_iff.mpr (fieldsOk_of_strict hs))
  obtain ⟨-, -, e3, -, e5, e6, e7⟩ := h.endState_spec
  rw [hread, hend, accept_finishHead]
  refine ⟨h.routedHost authority, hr.passes _ _ _, ?_⟩
  have hslice : slice (h.wire ++ tail) h.headerStart h.endState.pos = fieldsWire h.fields :=
    slice_of_drop hdrop e3
  rw [info, ← e5, ← e6, ← e7, ← hslice, h.wire_length, ← e3]
  rfl

include htoken hmethod htext hutf8 hform in
/-- A head that passes is strict: what the reader checks is all the grammar asks. -/
theorem RequestHead.strict_of_passes {start stop : ℕ} {offset' : Option ℕ}
    (hp : Passes ⟨h.method, h.target, start, stop, h.http10⟩ ⟨false, authority, path, offset'⟩
      (readLines h.http10 h.startState h.fields) host) :
    h.ReadsAs authority path offset := by
  obtain ⟨hadmits, hsum⟩ := readLines_eq h.http10 h.fields h.startState rfl
  have hall : admitsAll h.http10 h.startState h.fields = true := by
    simpa [hp.violation] using hadmits
  have hok : FieldsOk h.http10 h.fields := fieldsOk_iff.mp hall
  have hend : readLines h.http10 h.startState h.fields = h.endState := by
    rw [hsum hall, endState]
  rw [hend] at hp
  obtain ⟨-, -, -, e4, e5, e6, -⟩ := h.endState_spec
  have hhost : ∀ {b}, h.hostLine = some b → b = host := by
    intro b hb
    have heq := hp.host_eq
    rw [e4, hb] at heq
    exact Except.ok.inj heq
  have hnames : ∀ a ∈ authority, ∀ f ∈ h.fields, ∀ b, f.NamesHost b →
      eqIgnoreAsciiCase a b = true := by
    intro a ha f hf b hb
    rw [hhost ((hostLine_iff hok).mpr ⟨f, hf, hb⟩)]
    exact hp.authority a ha
  refine ⟨?_, hform, hnames⟩
  exact {
    method_token := htoken
    method_ne := hmethod
    target_text := htext
    line_utf8 := hutf8
    target_form := ⟨authority, path, offset, hform, hnames⟩
    lines := fun f hf => (f.ok_iff h.http10).mp (hok.each f hf)
    host_once := by
      rw [← repeated_eq_filter _ Field.kind_host_iff]; exact hok.host_once
    host_present := by
      intro h11
      cases hb : h.hostLine with
      | none =>
        have heq := hp.host_eq
        rw [e4, hb] at heq
        simp only [h11] at heq
        cases heq
      | some b =>
        obtain ⟨f, hf, hnamed⟩ := (hostLine_iff hok).mp hb
        exact ⟨f, hf, b, hnamed, hhost hb ▸ hp.host_ne h11⟩
    length_once := by
      rw [← repeated_eq_filter _ Field.kind_length_iff]; exact hok.length_once
    coding_once := by
      rw [← repeated_eq_filter _ Field.kind_coding_iff]; exact hok.coding_once
    one_framing := by
      rintro ⟨hlength, hcoding⟩
      have hone := hp.one_framing
      rw [e5, e6, (contentLength_isSome hok).mpr hlength, isChunked_iff.mpr hcoding] at hone
      cases hone }

theorem exists_head_of_accepted {info : HttpRequestInfo} (hacc : accepted data = some info) :
    ∃ (h : RequestHead) (authority : Option Bytes) (path : Bytes) (offset : Option ℕ)
      (tail : Bytes), h.ReadsAs authority path offset ∧ data = h.wire ++ tail ∧
        info = h.info authority path offset := by
  obtain ⟨line, hline⟩ := exists_line_of_accepted hacc
  obtain ⟨host, hp, -⟩ := accept_finishHead.mp (accepted_of_line hline ▸ hacc)
  obtain ⟨htoken, htext, -, hutf8, hstart, hstop, rest, hdata⟩ := readRequestLine_sound hline
  -- the loop got to the blank line, so the text goes on with fields
  obtain ⟨hviolation, fs, tail, hdrop⟩ := headLoop_sound _ rfl hp.violation hp.terminated
  obtain ⟨hmethod, authority, path, offset, hform⟩ := readTarget_sound hviolation
  have htarget := readTarget_of_form hmethod hform line.start
  have hpos : line.stop + 11 =
      (line.method ++ (sp :: (line.target ++ versionWire line.isHttp10))).length := by
    simp [hstop, hstart, versionWire_length]
    omega
  have hrest : rest = fieldsWire fs ++ (crlf ++ tail) := by
    rw [← hdrop]
    dsimp only
    rw [hdata, show line.method ++ (sp :: (line.target ++ (versionWire line.isHttp10 ++ rest))) =
      (line.method ++ (sp :: (line.target ++ versionWire line.isHttp10))) ++ rest by simp]
    exact (drop_left' hpos.symm).symm
  let h : RequestHead := ⟨line.method, line.target, line.isHttp10, fs⟩
  have hheader : line.stop + 11 = h.headerStart := by
    rw [headerStart, hstop, hstart]
  have hread : readHeaders data line
      ⟨false, authority, path, offset.map (line.start + ·)⟩ =
        readLines line.isHttp10 { violation := false, pos := line.stop + 11 } fs :=
    headLoop_wire fs hdrop rfl
  rw [htarget, hread, hheader] at hp
  have hr := h.strict_of_passes htoken hmethod htext hutf8 hform hp
  obtain rfl : data = h.wire ++ tail := by
    rw [hdata, hrest]
    simp [wire, h]
  exact ⟨h, authority, path, offset, tail, hr, rfl,
    Option.some.inj (hacc.symm.trans (hr.accepted_wire tail))⟩

theorem RequestHead.take_headLen (tail : Bytes) :
    (h.wire ++ tail).take (h.info authority path offset).headLen = h.wire :=
  take_left

include htoken hmethod htext hutf8 hform in
theorem RequestHead.strict_of_accepted {tail : Bytes} {info : HttpRequestInfo}
    (hacc : accepted (h.wire ++ tail) = some info) : h.Strict := by
  rw [(accepted_line htoken hmethod htext hutf8 hform tail).1, accept_finishHead] at hacc
  obtain ⟨host, hp, -⟩ := hacc
  exact (h.strict_of_passes htoken hmethod htext hutf8 hform hp).strict

theorem headerEnd_fields (fs : List Field) {x : Bytes} (hx : cr ∉ x) (tail : Bytes) :
    headerEnd (x ++ (crlf ++ (fieldsWire fs ++ (crlf ++ tail)))) =
      some (x.length + 2 + (fieldsWire fs).length + 2) := by
  have hend := headerEnd_lines (fs.map Field.line)
    (forall_mem_map.mpr fun f _ => ⟨f.line_ne, f.cr_not_mem_line⟩) hx tail
  simp only [flatMap_map, ← Field.wire_eq] at hend
  exact hend

theorem RequestHead.Strict.firstLine_plain (hs : h.Strict) : cr ∉ h.firstLine ∧ lf ∉ h.firstLine :=
  requestLine_plain hs.method_token hs.target_text.plain h.http10

/-- The blank line of a strict head is the first one of any text it begins. -/
theorem RequestHead.Strict.findHeaderEnd_wire (hs : h.Strict) (tail : Bytes) :
    findHeaderEnd (h.wire ++ tail) = some h.wire.length := by
  have hdata : h.wire ++ tail =
      h.firstLine ++ (crlf ++ (fieldsWire h.fields ++ (crlf ++ tail))) := by
    simp [wire, requestLine, versionWire]
  rw [findHeaderEnd_eq, hdata, headerEnd_fields h.fields hs.firstLine_plain.1]
  simp [wire, requestLine, versionWire]
  omega

/-- A text is accepted exactly when it begins with a strict head. The head ends where
`find_header_end` says, and the result depends on no octet past it. -/
theorem accepted_iff_strict_head (d : Bytes) :
    ((accepted d).isSome = true ↔ ∃ h : RequestHead, h.Strict ∧ h.wire <+: d) ∧
      ∀ info, accepted d = some info → findHeaderEnd d = some info.headLen ∧
        ∀ d' : Bytes, d'.take info.headLen = d.take info.headLen → accepted d' = some info := by
  refine ⟨⟨fun hsome => ?_, ?_⟩, fun info hacc => ?_⟩
  · obtain ⟨info, hacc⟩ := Option.isSome_iff_exists.mp hsome
    obtain ⟨h, _, _, _, tail, hr, rfl, -⟩ := exists_head_of_accepted hacc
    exact ⟨h, hr.strict, tail, rfl⟩
  · rintro ⟨h, hs, tail, rfl⟩
    obtain ⟨authority, path, offset, hform, hnames⟩ := hs.target_form
    rw [RequestHead.ReadsAs.accepted_wire ⟨hs, hform, hnames⟩ tail]
    rfl
  · obtain ⟨h, authority, path, offset, tail, hr, rfl, rfl⟩ := exists_head_of_accepted hacc
    refine ⟨hr.strict.findHeaderEnd_wire tail, fun d' hd' => ?_⟩
    rw [take_headLen] at hd'
    rw [← take_append_drop (h.info authority path offset).headLen d', hd']
    exact hr.accepted_wire _

end
end Portail.Http
