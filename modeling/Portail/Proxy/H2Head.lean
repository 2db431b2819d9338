import Portail.Proxy.FilteredHead

/-!
# The head of an h2 request

The bridge writes an h2 request as an h1 head and replays it through the engine, whose parser reads
it again. What the parser makes of an accepted head is the request: nothing of it ends a line or
adds a framing header (`synthRequestHead_read`).
-/

namespace Portail.Proxy

open Lib Http RequestHead List

section

/-- A header name of the h2 side: a token in lower case. -/
structure HeaderName where
  text : Bytes
  token : isToken text = true
  lower : text.map toAsciiLowercase = text

/-- A header value of the h2 side: no CR, LF or NUL. -/
structure HeaderValue where
  octets : Bytes
  plain : ∀ b ∈ octets, b ≠ cr ∧ b ≠ lf ∧ b ≠ 0

/-- `HeaderValue::to_str`: visible ASCII. -/
def HeaderValue.toStr (v : HeaderValue) : Option Bytes :=
  if v.octets.all fun b => (0x20 ≤ b && b < 0x7f) || b == htab then some v.octets else none

/-- Neither a control octet nor SP. -/
def isUriOctet (b : UInt8) : Bool := 0x20 < b && b != 0x7f

/-- The parts of an h2 request, the headers in the order of their map. -/
structure RequestParts where
  method : Bytes
  method_token : isToken method = true
  authority : Option Bytes
  authority_text : ∀ a ∈ authority, ∀ b ∈ a, isUriOctet b = true
  pathAndQuery : Option Bytes
  path_text : ∀ p ∈ pathAndQuery, (p.head? = some slash ∨ p = bytes "*") ∧
    ∀ b ∈ p, isUriOctet b = true ∧ b ≠ 0x23
  headers : List (HeaderName × HeaderValue)

def skipRequestHeader (name : Bytes) (noBody : Bool) : Bool :=
  isHopByHopRequestHeader name || name == bytes "host" || name == bytes "upgrade" ||
    name == bytes "transfer-encoding" || (noBody && name == bytes "content-length")

def bridgedLine (name value : Bytes) : Bytes := name ++ (colon :: sp :: value)

/-- One turn of the header loop: the head so far, and the cookies set aside. -/
def pushHeader (noBody : Bool) (acc : Bytes × List Bytes) (header : HeaderName × HeaderValue) :
    Bytes × List Bytes :=
  if header.1.text = bytes "cookie" then (acc.1, acc.2 ++ [header.2.octets])
  else if skipRequestHeader header.1.text noBody then acc
  else (acc.1 ++ bridgedLine header.1.text header.2.octets ++ crlf, acc.2)

namespace RequestParts

variable (parts : RequestParts)

/-- Where the request goes: its authority, else its Host header. -/
def hostAuthority : Option Bytes :=
  parts.authority.or
    ((parts.headers.find? fun header => header.1.text == bytes "host").bind fun header =>
      header.2.toStr)

def path : Bytes := parts.pathAndQuery.getD (bytes "/")

def hasContentLength : Bool :=
  parts.headers.any fun header => header.1.text == bytes "content-length"

end RequestParts

open RequestParts

def synthRequestHead (parts : RequestParts) (noBody : Bool) : Option (Bytes × Bool) :=
  if parts.method = bytes "CONNECT" then none
  else
    parts.hostAuthority.map fun authority =>
      let chunkBody := !noBody && !parts.hasContentLength
      let head := parts.method ++ [sp] ++ parts.path ++ bytes " HTTP/1.1\r\nhost: " ++
        authority ++ crlf
      let (head, cookies) := parts.headers.foldl (pushHeader noBody) (head, [])
      let head := if cookies.isEmpty then head
        else head ++ bytes "cookie: " ++ (bytes "; ").intercalate cookies ++ crlf
      let head := head ++ bytes "connection: close\r\n"
      let head := if noBody then head ++ bytes "content-length: 0\r\n"
        else if chunkBody then head ++ bytes "transfer-encoding: chunked\r\n"
        else head
      (head ++ crlf, chunkBody)

end

section

namespace RequestParts

variable (parts : RequestParts)

/-- The header lines of the request but for those skipped, and for the cookies. -/
def keptHeaders (noBody : Bool) : List (Bytes × Bytes) :=
  (parts.headers.filter fun header => header.1.text != bytes "cookie" &&
    !skipRequestHeader header.1.text noBody).map fun header => (header.1.text, header.2.octets)

def cookies : List Bytes :=
  (parts.headers.filter fun header => header.1.text == bytes "cookie").map fun header =>
    header.2.octets

def cookieLine : List (Bytes × Bytes) :=
  if parts.cookies.isEmpty then [] else [(bytes "cookie", (bytes "; ").intercalate parts.cookies)]

/-- What says how long the body is, where the request's own headers do not. -/
def framingLine (noBody : Bool) : List (Bytes × Bytes) :=
  if noBody then [(bytes "content-length", bytes "0")]
  else if parts.hasContentLength then []
  else [(bytes "transfer-encoding", bytes "chunked")]

def bridgedFields (authority : Bytes) (noBody : Bool) : List (Bytes × Bytes) :=
  (bytes "host", authority) :: (parts.keptHeaders noBody ++ (parts.cookieLine ++
    ((bytes "connection", bytes "close") :: parts.framingLine noBody)))

end RequestParts

open RequestParts

/-- A head is written line by line. -/
def linesOf (fields : List (Bytes × Bytes)) : List Bytes := fields.map fun p => bridgedLine p.1 p.2

theorem foldl_pushHeader (noBody : Bool) (headers : List (HeaderName × HeaderValue)) (head : Bytes)
    (cookies : List Bytes) :
    headers.foldl (pushHeader noBody) (head, cookies) =
      (head ++ blockWire (linesOf ((headers.filter fun header => header.1.text != bytes "cookie" &&
          !skipRequestHeader header.1.text noBody).map fun header =>
            (header.1.text, header.2.octets))),
        cookies ++ (headers.filter fun header => header.1.text == bytes "cookie").map fun header =>
          header.2.octets) := by
  induction headers generalizing head cookies with
  | nil => simp [linesOf, blockWire]
  | cons header headers ih =>
    rw [foldl_cons, pushHeader]
    by_cases hcookie : header.1.text = bytes "cookie"
    · rw [if_pos hcookie, ih]
      simp [hcookie]
    · have hbeq : (header.1.text == bytes "cookie") = false := beq_eq_false_iff_ne.mpr hcookie
      rw [if_neg hcookie]
      by_cases hskip : skipRequestHeader header.1.text noBody = true
      · rw [if_pos hskip, ih]
        simp [hbeq, hskip]
      · rw [if_neg hskip, ih]
        simp [hcookie, hbeq, hskip, linesOf, blockWire]

theorem synthRequestHead_eq (parts : RequestParts) (noBody : Bool) :
    synthRequestHead parts noBody = if parts.method = bytes "CONNECT" then none
      else parts.hostAuthority.map fun authority =>
        (headOf (requestLine parts.method parts.path false)
          (linesOf (parts.bridgedFields authority noBody)),
            !noBody && !parts.hasContentLength) := by
  have hhost : bytes " HTTP/1.1\r\nhost: " = sp :: (httpVersion false ++ (crlf ++
      (bytes "host" ++ [colon, sp]))) := by decide
  have hcookie : bytes "cookie: " = bytes "cookie" ++ [colon, sp] := by decide
  have hclose : bytes "connection: close\r\n" = bridgedLine (bytes "connection") (bytes "close") ++
      crlf := by decide
  have hlength : bytes "content-length: 0\r\n" = bridgedLine (bytes "content-length") (bytes "0") ++
      crlf := by decide
  have hcoding : bytes "transfer-encoding: chunked\r\n" =
      bridgedLine (bytes "transfer-encoding") (bytes "chunked") ++ crlf := by decide
  unfold synthRequestHead
  by_cases hconnect : parts.method = bytes "CONNECT"
  · rw [if_pos hconnect, if_pos hconnect]
  rw [if_neg hconnect, if_neg hconnect]
  refine congrArg (parts.hostAuthority.map ·) (funext fun authority => ?_)
  dsimp only
  rw [foldl_pushHeader, nil_append, ← cookies, ← keptHeaders, hhost,
    hcookie, hclose, hlength, hcoding]
  refine Prod.ext ?_ rfl
  dsimp only
  rw [headOf, bridgedFields, cookieLine, framingLine]
  cases parts.cookies.isEmpty <;> cases noBody <;> cases parts.hasContentLength <;>
    simp [requestLine, linesOf, bridgedLine, blockWire]

end

/-- An accepted head of lines is a strict head line by line. -/
theorem exists_head_of_lines {line : Bytes} {lines : List Bytes} (hline : cr ∉ line ∧ lf ∉ line)
    (hlines : ∀ l ∈ lines, l ≠ [] ∧ cr ∉ l ∧ lf ∉ l) {info : HttpRequestInfo}
    (hacc : accepted (headOf line lines) = some info) :
    ∃ (h : RequestHead) (authority : Option Bytes) (path : Bytes) (offset : Option ℕ),
      h.ReadsAs authority path offset ∧ h.wire = headOf line lines ∧
        h.firstLine = line ∧ h.fields.map Field.line = lines ∧
        info = h.info authority path offset := by
  obtain ⟨h, authority, path, offset, tail, hr, htail, hinfo⟩ := exists_head_of_accepted hacc
  have hs := hr.strict
  replace htail := htail.symm
  have hend := hs.findHeaderEnd_wire tail
  have hblock : headerEnd (headOf line lines) =
      some (line.length + 2 + (blockWire lines).length + 2) :=
    headerEnd_lines lines (fun l hl => ⟨(hlines l hl).1, (hlines l hl).2.1⟩) hline.1 []
  rw [htail, findHeaderEnd_eq, hblock] at hend
  have hlen : (headOf line lines).length = h.wire.length := by
    rw [← Option.some.inj hend, headOf]
    simp only [length_append, show crlf.length = 2 from rfl]
    omega
  obtain rfl : tail = [] := by
    have hcount := congrArg List.length htail
    rw [length_append] at hcount
    exact length_eq_zero_iff.mp (by omega)
  rw [append_nil] at htail
  -- both texts have the same first line and the same lines behind it
  have hsame : fieldLines h.wire = lines := by
    rw [htail, fieldLines_headOf hline.2 fun l hl => ⟨(hlines l hl).1, (hlines l hl).2.2⟩]
  have hfirst : (splitFirstLine h.wire).1 = line := by
    rw [htail, splitFirstLine_headOf hline.2]
  rw [(fieldLines_wire hs.firstLine_plain.2).1] at hsame
  rw [(fieldLines_wire hs.firstLine_plain.2).2] at hfirst
  exact ⟨h, authority, path, offset, hr, htail, hfirst, hsame, hinfo⟩

theorem fields_of_lines {fs : List Field} {pairs : List (Bytes × Bytes)}
    (hnames : ∀ p ∈ pairs, colon ∉ p.1)
    (h : fs.map Field.line = pairs.map fun p => bridgedLine p.1 p.2) :
    fs.map (fun f => (f.name, f.value)) = pairs.map fun p => (p.1, sp :: p.2) := by
  induction pairs generalizing fs with
  | nil => rw [map_nil, map_eq_nil_iff] at h; rw [h]; rfl
  | cons p pairs ih =>
    cases fs with
    | nil => cases h
    | cons f fs =>
      rw [map_cons, map_cons, List.cons.injEq] at h
      obtain ⟨hf, hfs⟩ := h
      have hcolon : colon ∉ f.name := fun hc => (tchar_spec colon (f.name_tchar colon hc)).2.2.1 rfl
      obtain ⟨hname, hvalue⟩ := append_cons_unique hcolon (hnames p mem_cons_self) hf
      rw [map_cons, map_cons, ih (fun q hq => hnames q (mem_cons_of_mem p hq)) hfs, hname, hvalue]

variable {parts : RequestParts} {p : Bytes × Bytes} {authority : Bytes}

section

theorem inLine_uri : ∀ b : UInt8, isUriOctet b = true → InLine b ∧ b ≠ sp := by
  unfold InLine
  exact forall_octet (by decide +kernel)

theorem RequestParts.hostAuthority_plain
    (h : parts.hostAuthority = some authority) : ∀ b ∈ authority, InLine b := by
  rcases Option.or_eq_some_iff.mp h with h | ⟨-, h⟩
  · exact fun b hb => (inLine_uri b (parts.authority_text authority h b hb)).1
  · obtain ⟨header, -, h⟩ := Option.bind_eq_some_iff.mp h
    unfold HeaderValue.toStr at h
    split_ifs at h
    cases h
    exact fun b hb => ⟨(header.2.plain b hb).1, (header.2.plain b hb).2.1⟩

theorem RequestParts.path_plain (parts : RequestParts) : ∀ b ∈ parts.path, InLine b ∧ b ≠ sp := by
  unfold path
  cases h : parts.pathAndQuery with
  | none =>
    unfold InLine
    decide
  | some p => exact fun b hb => inLine_uri b ((parts.path_text p h).2 b hb).1

theorem RequestParts.path_form (parts : RequestParts) :
    parts.path.head? = some slash ∨ parts.path = bytes "*" := by
  unfold path
  cases h : parts.pathAndQuery with
  | none => exact .inl (by decide)
  | some p => exact (parts.path_text p h).1

theorem mem_intercalate {sep : Bytes} {xs : List Bytes} {b : UInt8} (h : b ∈ sep.intercalate xs) :
    b ∈ sep ∨ ∃ x ∈ xs, b ∈ x := by
  induction xs with
  | nil => simp at h
  | cons x xs ih =>
    cases xs with
    | nil => exact .inr ⟨x, mem_cons_self, by simpa using h⟩
    | cons y ys =>
      rw [intercalate_cons_cons, mem_append, mem_append] at h
      rcases h with (hx | hsep) | hrest
      · exact .inr ⟨x, mem_cons_self, hx⟩
      · exact .inl hsep
      · exact (ih hrest).imp_right fun ⟨z, hz, hb⟩ => ⟨z, mem_cons_of_mem x hz, hb⟩

namespace RequestParts

variable {parts : RequestParts} {authority : Bytes} {noBody : Bool} {p : Bytes × Bytes}

theorem mem_bridgedFields : p ∈ parts.bridgedFields authority noBody ↔
    p = (bytes "host", authority) ∨ p ∈ parts.keptHeaders noBody ∨ p ∈ parts.cookieLine ∨
      p = (bytes "connection", bytes "close") ∨ p ∈ parts.framingLine noBody := by
  simp only [bridgedFields, mem_cons, mem_append]

theorem mem_keptHeaders : p ∈ parts.keptHeaders noBody ↔
    ∃ header ∈ parts.headers, header.1.text ≠ bytes "cookie" ∧
      skipRequestHeader header.1.text noBody = false ∧ p = (header.1.text, header.2.octets) := by
  simp only [keptHeaders, mem_map, mem_filter, Bool.and_eq_true, bne_iff_ne,
    Bool.not_eq_true', and_assoc, @eq_comm _ p]

theorem mem_cookieLine (h : p ∈ parts.cookieLine) :
    p = (bytes "cookie", (bytes "; ").intercalate parts.cookies) := by
  unfold cookieLine at h
  split_ifs at h
  · cases h
  · exact mem_singleton.mp h

theorem mem_framingLine (h : p ∈ parts.framingLine noBody) :
    p = (bytes "content-length", bytes "0") ∨ p = (bytes "transfer-encoding", bytes "chunked") := by
  unfold framingLine at h
  split_ifs at h
  · exact .inl (mem_singleton.mp h)
  · cases h
  · exact .inr (mem_singleton.mp h)

/-- The names written are tokens, and no value ends its line. -/
theorem bridgedFields_plain (hauth : ∀ b ∈ authority, InLine b)
    (h : p ∈ parts.bridgedFields authority noBody) :
    isToken p.1 = true ∧ ∀ b ∈ p.2, InLine b := by
  have hplain (header : HeaderName × HeaderValue) : ∀ b ∈ header.2.octets, InLine b :=
    fun b hb => ⟨(header.2.plain b hb).1, (header.2.plain b hb).2.1⟩
  have hhost : isToken (bytes "host") = true := by decide
  have hcookieToken : isToken (bytes "cookie") = true := by decide
  rcases mem_bridgedFields.mp h with rfl | hkept | hcookie | rfl | hframing
  · exact ⟨hhost, hauth⟩
  · obtain ⟨header, -, -, -, rfl⟩ := mem_keptHeaders.mp hkept
    exact ⟨header.1.token, hplain header⟩
  · obtain rfl := mem_cookieLine hcookie
    refine ⟨hcookieToken, fun b hb => ?_⟩
    rcases mem_intercalate hb with hsep | ⟨x, hx, hb⟩
    · have hsep' : ∀ b ∈ bytes "; ", b ≠ cr ∧ b ≠ lf := by decide
      exact hsep' b hsep
    · obtain ⟨header, -, rfl⟩ := mem_map.mp hx
      exact hplain header b hb
  · have hclose : ∀ b ∈ bytes "close", b ≠ cr ∧ b ≠ lf := by decide
    exact ⟨by decide, hclose⟩
  · have hzero : ∀ b ∈ bytes "0", b ≠ cr ∧ b ≠ lf := by decide
    have hchunked : ∀ b ∈ bytes "chunked", b ≠ cr ∧ b ≠ lf := by decide
    rcases mem_framingLine hframing with rfl | rfl
    · exact ⟨by decide, hzero⟩
    · exact ⟨by decide, hchunked⟩

/-- The one Connection line written is the bridge's own. -/
theorem connection_close (h : p ∈ parts.bridgedFields authority noBody)
    (hkind : fieldName p.1 = .connection) : p.2 = bytes "close" := by
  have hhost : fieldName (bytes "host") ≠ .connection := by decide
  have hcookieKind : fieldName (bytes "cookie") ≠ .connection := by decide
  rcases mem_bridgedFields.mp h with rfl | hkept | hcookie | rfl | hframing
  · exact absurd hkind hhost
  · obtain ⟨header, -, -, hskip, rfl⟩ := mem_keptHeaders.mp hkept
    have hhop : isHopByHopRequestHeader header.1.text = true :=
      (isHopByHopRequestHeader_iff _).mpr (by rw [hkind]; decide)
    rw [skipRequestHeader, hhop] at hskip
    cases hskip
  · obtain rfl := mem_cookieLine hcookie
    exact absurd hkind hcookieKind
  · rfl
  · rcases mem_framingLine hframing with rfl | rfl
    · exact absurd hkind (by decide)
    · exact absurd hkind (by decide)

end RequestParts

open RequestParts

theorem colon_not_mem_token {name : Bytes} (h : isToken name = true) : colon ∉ name := fun hc =>
  (tchar_spec colon ((isToken_iff.mp h).2 colon hc)).2.2.1 rfl

theorem line_plain (hname : isToken p.1 = true) (hvalue : ∀ b ∈ p.2, InLine b) :
    bridgedLine p.1 p.2 ≠ [] ∧ cr ∉ bridgedLine p.1 p.2 ∧ lf ∉ bridgedLine p.1 p.2 := by
  refine ⟨by simp [bridgedLine], lineEnds_not_mem fun b hb => ?_⟩
  rw [bridgedLine, mem_append, mem_cons, mem_cons] at hb
  rcases hb with hb | rfl | rfl | hb
  · exact token_plain hname b hb
  · exact ⟨by decide, by decide⟩
  · exact ⟨by decide, by decide⟩
  · exact hvalue b hb

end

section

variable {h : RequestHead} {f : Field}

theorem contentLength_of_mem (hs : h.Strict) (hf : f ∈ h.fields)
    (hname : f.isNamed "content-length" = true) :
    h.contentLength = parseDigits (trimOws f.value) ∧ h.contentLength.isSome = true := by
  have hok := fieldsOk_of_strict hs
  have hkind : f.kind = .contentLength := f.kind_length_iff.mpr hname
  have hpart : f.lengthPart = parseDigits (trimOws f.value) := by
    rw [Field.lengthPart, if_pos hkind]
  have hsome : f.lengthPart.isSome = true := by
    rw [Field.lengthPart_isSome (hok.each f hf), hkind]
    rfl
  obtain ⟨n, hn⟩ := Option.isSome_iff_exists.mp hsome
  have hfind : h.contentLength = some n := by
    refine findSome?_of_once (q := fun f : Field => decide (f.kind = .contentLength)) ?_
      hok.length_once hf hn
    intro g hg
    by_contra hk
    simp only [decide_eq_true_eq] at hk
    simp [Field.lengthPart, hk] at hg
  rw [hfind, ← hpart, hn]
  exact ⟨rfl, rfl⟩

theorem explicitKeepalive_foldl (fs : List Field) (st : HeadState) :
    (fs.foldl HeadState.advance st).explicitKeepalive =
      (fs.flatMap Field.tokens).foldl keepaliveToken st.explicitKeepalive := by
  induction fs generalizing st with
  | nil => rfl
  | cons f fs ih =>
    rw [foldl_cons, ih, flatMap_cons, foldl_append]
    rfl

theorem foldl_keepaliveToken_close {ts : List Bytes} (hclose : ∀ t ∈ ts, isCloseToken t = true)
    {acc : Option Bool} (hne : ts ≠ [] ∨ acc = some false) :
    ts.foldl keepaliveToken acc = some false := by
  induction ts generalizing acc with
  | nil => exact hne.resolve_left (by simp)
  | cons t ts ih =>
    rw [foldl_cons, keepaliveToken, if_pos (hclose t mem_cons_self)]
    exact ih (fun u hu => hclose u (mem_cons_of_mem t hu)) (.inr rfl)

theorem keepalive_close (hf : f ∈ h.fields) (hne : f.tokens ≠ [])
    (hclose : ∀ f ∈ h.fields, ∀ t ∈ f.tokens, isCloseToken t = true) (authority : Option Bytes)
    (path : Bytes) (offset : Option ℕ) : (h.info authority path offset).keepalive = false := by
  have hend : h.endState.explicitKeepalive = some false := by
    rw [endState]
    dsimp only
    rw [explicitKeepalive_foldl]
    refine foldl_keepaliveToken_close (fun t ht => ?_) (.inl fun hnil => hne ?_)
    · obtain ⟨g, hg, ht⟩ := mem_flatMap.mp ht
      exact hclose g hg t ht
    · exact flatMap_eq_nil_iff.mp hnil f hf
  rw [info]
  dsimp only
  rw [hend]
  rfl

/-- What the parser reads of the head written for a request is the request. -/
structure ReadBack (parts : RequestParts) (noBody : Bool) (head : Bytes) (chunkBody : Bool)
    (info : HttpRequestInfo) : Prop where
  whole : info.headLen = head.length
  method : info.method = parts.method
  path : (info.path, info.queryString) = splitQuery parts.path
  fields : ∃ authority port, parts.hostAuthority = some authority ∧
    trimOws authority = info.host ++ port ∧ IsUriHost info.host ∧ IsPortSuffix port ∧
    info.headerData = blockWire (linesOf (parts.bridgedFields authority noBody))
  closes : info.keepalive = false
  no_body : noBody = true → info.contentLength = some 0 ∧ info.isChunked = false
  chunked : info.isChunked = true ↔ noBody = false ∧ parts.hasContentLength = false
  chunked_body : chunkBody = info.isChunked ∧ (info.isChunked = true → info.contentLength = none)
  own_length : noBody = false → ∀ header ∈ parts.headers, header.1.text = bytes "content-length" →
    info.contentLength = parseDigits (trimOws header.2.octets) ∧ info.contentLength.isSome = true

theorem requestLine_unique {m t m' t' : Bytes} {http10 : Bool} (hm : sp ∉ m) (hm' : sp ∉ m')
    (ht : sp ∉ t) (ht' : sp ∉ t') (h : requestLine m t http10 = requestLine m' t' false) :
    m = m' ∧ t = t' ∧ http10 = false := by
  obtain ⟨hmethod, hrest⟩ := append_cons_unique hm hm' h
  obtain ⟨htarget, hversion⟩ := append_cons_unique ht ht' hrest
  refine ⟨hmethod, htarget, ?_⟩
  cases http10 with
  | false => rfl
  | true => exact absurd hversion (by decide)

/-- A target in origin or asterisk form is the path read, with its query. -/
theorem path_of_form {authority : Option Bytes} {path : Bytes} {offset : Option ℕ}
    (hform : TargetForm h.method h.target authority path offset)
    (htarget : h.target.head? = some slash ∨ h.target = bytes "*") :
    ((h.info authority path offset).path, (h.info authority path offset).queryString) =
      splitQuery h.target := by
  obtain ⟨method, target, http10, fields⟩ := h
  cases hform with
  | origin | asterisk => rfl
  | absolute hscheme | authority hscheme =>
    obtain ⟨-, hslash, hstar⟩ := scheme_spec hscheme _
    exact absurd htarget (not_or.mpr ⟨hslash, hstar⟩)

/-- The fields of a head are those written. -/
def Carries (h : RequestHead) (pairs : List (Bytes × Bytes)) : Prop :=
  h.fields.map (fun f => (f.name, f.value)) = pairs.map fun p => (p.1, sp :: p.2)

namespace Carries

variable {h : RequestHead} {pairs : List (Bytes × Bytes)} {v : Bytes}

theorem exists_field (hc : Carries h pairs) (hp : p ∈ pairs) :
    ∃ f ∈ h.fields, f.name = p.1 ∧ f.value = sp :: p.2 := by
  obtain ⟨f, hf, heq⟩ := mem_map.mp (hc ▸ mem_map_of_mem hp)
  exact ⟨f, hf, Prod.mk.inj heq⟩

theorem exists_pair (hc : Carries h pairs) (hf : f ∈ h.fields) :
    ∃ p ∈ pairs, f.name = p.1 ∧ f.value = sp :: p.2 := by
  obtain ⟨p, hp, heq⟩ := mem_map.mp (hc ▸ mem_map_of_mem hf)
  exact ⟨p, hp, Prod.mk.inj heq.symm⟩

theorem isNamed_of_name {lit : String} (hname : f.name = bytes lit) : f.isNamed lit = true := by
  rw [Field.isNamed, hname, eqIgnoreAsciiCase_refl]

theorem contentLength (hc : Carries h pairs) (hs : h.Strict)
    (hp : (bytes "content-length", v) ∈ pairs) :
    h.contentLength = parseDigits (trimOws v) ∧ h.contentLength.isSome = true ∧
      h.isChunked = false := by
  obtain ⟨f, hf, hname, hvalue⟩ := hc.exists_field hp
  have hnamed := isNamed_of_name hname
  obtain ⟨hread, hsome⟩ := contentLength_of_mem hs hf hnamed
  rw [hvalue, trimOws_sp_cons] at hread
  refine ⟨hread, hsome, ?_⟩
  rw [Bool.eq_false_iff, ne_eq, isChunked_iff]
  exact fun hcoding => hs.one_framing ⟨⟨f, hf, hnamed⟩, hcoding⟩

theorem isChunked (hc : Carries h pairs) (hs : h.Strict)
    (hp : (bytes "transfer-encoding", v) ∈ pairs) :
    h.isChunked = true ∧ h.contentLength = none := by
  obtain ⟨f, hf, hname, -⟩ := hc.exists_field hp
  have hcoding : ∃ f ∈ h.fields, f.isNamed "transfer-encoding" = true :=
    ⟨f, hf, isNamed_of_name hname⟩
  refine ⟨isChunked_iff.mpr hcoding, ?_⟩
  rw [← Option.not_isSome_iff_eq_none, contentLength_isSome (fieldsOk_of_strict hs)]
  exact fun hlength => hs.one_framing ⟨hlength, hcoding⟩

theorem host (hc : Carries h pairs) (hs : h.Strict) (hp : (bytes "host", v) ∈ pairs)
    (target : Option Bytes) :
    ∃ port, trimOws v = h.routedHost target ++ port ∧ IsUriHost (h.routedHost target) ∧
      IsPortSuffix port := by
  obtain ⟨f, hf, hname, hvalue⟩ := hc.exists_field hp
  obtain ⟨host, hhost⟩ := (hs.lines f hf).host (isNamed_of_name hname)
  have hrouted : h.routedHost target = host := by
    rw [routedHost, (hostLine_iff (fieldsOk_of_strict hs)).mpr ⟨f, hf, hhost⟩]
    rfl
  rw [hrouted]
  obtain ⟨-, port, hport⟩ := hhost
  rw [hvalue, trimOws_sp_cons] at hport
  exact ⟨port, hport⟩

theorem closes (hc : Carries h pairs) (hclose : (bytes "connection", bytes "close") ∈ pairs)
    (hone : ∀ p ∈ pairs, fieldName p.1 = .connection → p.2 = bytes "close")
    (target : Option Bytes) (path : Bytes) (offset : Option ℕ) :
    (h.info target path offset).keepalive = false := by
  have htokens {f : Field} (hkind : f.kind = .connection) (hvalue : f.value = sp :: bytes "close") :
      f.tokens = [bytes "close"] := by
    rw [Field.tokens, if_pos hkind, hvalue]
    decide
  obtain ⟨f, hf, hname, hvalue⟩ := hc.exists_field hclose
  have hkind : f.kind = .connection := f.kind_connection_iff.mpr (isNamed_of_name hname)
  refine keepalive_close hf (by rw [htokens hkind hvalue]; simp) (fun g hg t ht => ?_) target path
    offset
  obtain ⟨p, hp, hname, hvalue⟩ := hc.exists_pair hg
  by_cases hconnection : g.kind = .connection
  · rw [hone p hp (hname ▸ hconnection)] at hvalue
    rw [htokens hconnection hvalue, mem_singleton] at ht
    rw [ht]
    decide
  · rw [Field.tokens, if_neg hconnection] at ht
    cases ht

end Carries

/-- A Content-Length of a request with a body is not skipped. -/
theorem RequestParts.own_length {header : HeaderName × HeaderValue}
    (hheader : header ∈ parts.headers) (hname : header.1.text = bytes "content-length")
    (authority : Bytes) :
    (bytes "content-length", header.2.octets) ∈ parts.bridgedFields authority false := by
  have hcookie : bytes "content-length" ≠ bytes "cookie" := by decide
  have hskip : skipRequestHeader (bytes "content-length") false = false := by decide
  refine mem_bridgedFields.mpr (.inr (.inl (mem_keptHeaders.mpr ⟨header, hheader, ?_, ?_, ?_⟩)))
  · rwa [hname]
  · rwa [hname]
  · rw [hname]

/-- How the head is framed: by the bridge, or by the request's own length. -/
theorem Carries.framing {noBody : Bool}
    (hc : Carries h (parts.bridgedFields authority noBody)) (hs : h.Strict) :
    noBody = true ∧ h.contentLength = some 0 ∧ h.isChunked = false ∨
      noBody = false ∧ parts.hasContentLength = false ∧ h.isChunked = true ∧
        h.contentLength = none ∨
      noBody = false ∧ parts.hasContentLength = true ∧ h.isChunked = false := by
  have hframing {p : Bytes × Bytes} (hp : p ∈ parts.framingLine noBody) :
      p ∈ parts.bridgedFields authority noBody :=
    RequestParts.mem_bridgedFields.mpr (.inr (.inr (.inr (.inr hp))))
  cases noBody with
  | true =>
    have hzero : parseDigits (trimOws (bytes "0")) = some 0 := by decide
    obtain ⟨hread, -, hcoding⟩ := hc.contentLength hs (hframing mem_cons_self)
    exact .inl ⟨rfl, hread.trans hzero, hcoding⟩
  | false =>
    cases hlength : parts.hasContentLength with
    | true =>
      obtain ⟨header, hheader, hname⟩ := any_eq_true.mp hlength
      obtain ⟨-, -, hcoding⟩ := hc.contentLength hs
        (RequestParts.own_length hheader (beq_iff_eq.mp hname) authority)
      exact .inr (.inr ⟨rfl, rfl, hcoding⟩)
    | false =>
      have hcoding : (bytes "transfer-encoding", bytes "chunked") ∈ parts.framingLine false := by
        rw [RequestParts.framingLine, hlength]
        exact mem_cons_self
      exact .inr (.inl ⟨rfl, rfl, hc.isChunked hs (hframing hcoding)⟩)

/-- A head the bridge wrote and the parser accepts is read as the request it was written for. -/
theorem synthRequestHead_read {parts : RequestParts} {noBody : Bool} {head : Bytes}
    {chunkBody : Bool} {info : HttpRequestInfo}
    (hsynth : synthRequestHead parts noBody = some (head, chunkBody))
    (hacc : accepted head = some info) : ReadBack parts noBody head chunkBody info := by
  rw [synthRequestHead_eq] at hsynth
  split_ifs at hsynth with hconnect
  obtain ⟨authority, hauth, hhead⟩ := Option.map_eq_some_iff.mp hsynth
  obtain ⟨rfl, rfl⟩ := Prod.mk.inj hhead
  have hplain := fun p (hp : p ∈ parts.bridgedFields authority noBody) =>
    RequestParts.bridgedFields_plain (RequestParts.hostAuthority_plain hauth) hp
  have hlines : ∀ l ∈ linesOf (parts.bridgedFields authority noBody), l ≠ [] ∧ cr ∉ l ∧ lf ∉ l := by
    intro l hl
    obtain ⟨p, hp, rfl⟩ := mem_map.mp hl
    exact line_plain (hplain p hp).1 (hplain p hp).2
  obtain ⟨h, target, path, offset, ⟨hs, hform, -⟩, hwire, hrequest, hfields, rfl⟩ :=
    exists_head_of_lines (requestLine_plain parts.method_token
      (fun b hb => (parts.path_plain b hb).1) false) hlines hacc
  have hcarries : Carries h (parts.bridgedFields authority noBody) :=
    fields_of_lines (fun p hp => colon_not_mem_token (hplain p hp).1) hfields
  have hsp {m : Bytes} (hm : isToken m = true) : sp ∉ m := fun hsp =>
    absurd ((isToken_iff.mp hm).2 sp hsp) (by decide)
  have htargetSp : sp ∉ h.target := by
    intro hsp
    rcases hs.target_text.1 sp hsp with hsp | hsp
    · exact absurd hsp (by decide)
    · exact absurd hsp (by decide)
  obtain ⟨hmethod, htarget, -⟩ := requestLine_unique (hsp hs.method_token) (hsp parts.method_token)
    htargetSp (fun hsp => (parts.path_plain sp hsp).2 rfl) hrequest
  obtain ⟨port, hport⟩ := hcarries.host hs
    (RequestParts.mem_bridgedFields.mpr (.inl rfl)) target
  have hdata :
      fieldsWire h.fields = blockWire (linesOf (parts.bridgedFields authority noBody)) := by
    rw [← hfields, blockWire_fields]
  have hlength : (h.info target path offset).contentLength = h.contentLength := rfl
  have hchunked : (h.info target path offset).isChunked = h.isChunked := rfl
  have hframing := hcarries.framing hs
  exact {
    whole := congrArg List.length hwire
    method := hmethod
    path := htarget ▸ path_of_form hform (htarget ▸ parts.path_form)
    fields := ⟨authority, port, hauth, hport.1, hport.2.1, hport.2.2, hdata⟩
    closes := hcarries.closes
      (RequestParts.mem_bridgedFields.mpr (.inr (.inr (.inr (.inl rfl)))))
      (fun p hp => RequestParts.connection_close hp) target path offset
    no_body := by
      rintro rfl
      rcases hframing with ⟨-, hread⟩ | ⟨hbody, -⟩ | ⟨hbody, -⟩
      · exact hread
      · cases hbody
      · cases hbody
    chunked := by
      rw [hchunked]
      rcases hframing with ⟨rfl, -, hc⟩ | ⟨rfl, hlen, hc, -⟩ | ⟨rfl, hlen, hc⟩
      · simp [hc]
      · simp [hc, hlen]
      · simp [hc, hlen]
    chunked_body := by
      rw [hchunked, hlength]
      rcases hframing with ⟨rfl, -, hc⟩ | ⟨rfl, hlen, hc, hnone⟩ | ⟨rfl, hlen, hc⟩
      · simp [hc]
      · simp [hc, hlen, hnone]
      · simp [hc, hlen]
    own_length := by
      rintro rfl header hheader hname
      obtain ⟨hread, hsome, -⟩ := hcarries.contentLength hs
        (RequestParts.own_length hheader hname authority)
      exact ⟨hread, hsome⟩ }

theorem get_token : isToken (bytes "GET") = true := by decide

theorem authority_octets : ∀ a ∈ some (bytes "a.b"), ∀ b ∈ a, isUriOctet b = true := by
  intro a ha
  cases ha
  decide

theorem query_octets : ∀ p ∈ some (bytes "/x?y"), (p.head? = some slash ∨ p = bytes "*") ∧
    ∀ b ∈ p, isUriOctet b = true ∧ b ≠ 0x23 := by
  intro p hp
  cases hp
  decide

theorem cookie_token : isToken (bytes "cookie") = true := by decide

theorem cookie_lower : (bytes "cookie").map toAsciiLowercase = bytes "cookie" := by decide

theorem crumb_plain : ∀ b ∈ bytes "c=1", b ≠ cr ∧ b ≠ lf ∧ b ≠ 0 := by decide

/-- A request with two cookies. -/
def cookieParts : RequestParts :=
  ⟨bytes "GET", get_token, some (bytes "a.b"), authority_octets, some (bytes "/x?y"), query_octets,
    List.replicate 2 (⟨bytes "cookie", cookie_token, cookie_lower⟩, ⟨bytes "c=1", crumb_plain⟩)⟩

def cookieHead : Bytes :=
  bytes "GET /x?y HTTP/1.1\r\nhost: a.b\r\ncookie: c=1; c=1\r\n" ++
    bytes "connection: close\r\ncontent-length: 0\r\n\r\n"

theorem synthRequestHead_read_cookies :
    ∃ info, synthRequestHead cookieParts true = some (cookieHead, false) ∧
      accepted cookieHead = some info ∧ ReadBack cookieParts true cookieHead false info := by
  have hhead : synthRequestHead cookieParts true = some (cookieHead, false) := by decide +kernel
  have hsome : (accepted cookieHead).isSome = true := by decide +kernel
  obtain ⟨info, hinfo⟩ := Option.isSome_iff_exists.mp hsome
  exact ⟨info, hhead, hinfo, synthRequestHead_read hhead hinfo⟩

end

end Portail.Proxy
