import Portail.Proxy.ForwardedFields

/-!
# What is forwarded is read back the same

The outgoing head is a strict head again, framed and routed as the client's
(`assembleOutgoing_spec`): whatever the proxy decided about a request, its backend
decides too.
-/

namespace Portail.Proxy

open Lib Http Routing RequestHead List

section

/-- What both assemblies do with the fields that frame and route a message. -/
structure Relays (h : RequestHead) (a : Option Authority) (d : Field → Option Field) : Prop where
  kind : ∀ f ∈ h.fields, ∀ g ∈ d f, g.kind = f.kind
  framing : ∀ f ∈ h.fields, f.kind = .contentLength ∨ f.kind = .transferEncoding → d f = some f
  connection : ∀ f ∈ h.fields, f.kind = .connection → d f = none
  upgrade : ∀ f ∈ h.fields, f.kind = .upgrade → d f = if h.isUpgrade then some f else none
  host : ∀ f ∈ h.fields, f.kind = .host → d f = some ((a.map Authority.field).getD f)

variable {h : RequestHead}

theorem not_h2c_of_isUpgrade (hup : h.isUpgrade = true) {f : Field} (hf : f ∈ h.fields)
    (hk : f.kind = .upgrade) : offersH2c f.value = false := by
  simp only [isUpgrade, Bool.and_eq_true, Bool.not_eq_true', any_eq_false] at hup
  simpa [Field.offersH2cUpgrade, hk] using hup.2 f hf

theorem spanPass_relays (a : Option Authority) : Relays h a (spanPass h.isUpgrade a) where
  kind f _ g hg := by
    simp only [spanPass, Option.mem_def] at hg
    split at hg
    · cases hg
    · split_ifs at hg
      cases hg
      rfl
    · split_ifs at hg with hk
      · cases a with
        | none => cases hg; rfl
        | some a => cases hg; exact a.field_kind.trans hk.symm
      · cases hg; rfl
  framing f _ hk := by rcases hk with hk | hk <;> simp [spanPass, Field.lineKind, hk]
  connection f _ hk := by simp [spanPass, Field.lineKind, hk]
  upgrade f hf hk := by
    cases hup : h.isUpgrade with
    | true => simp [spanPass, Field.lineKind, hk, not_h2c_of_isUpgrade hup hf hk]
    | false => cases hh : offersH2c f.value <;> simp [spanPass, Field.lineKind, hk, hh]
  host f _ hk := by simp [spanPass, Field.lineKind, hk]

/-- No Connection line strips what the message is framed and routed by. -/
theorem not_nominated (lines : List Bytes) {f : Field}
    (hk : f.kind = .contentLength ∨ f.kind = .transferEncoding ∨ f.kind = .host) :
    ((nominatedHeaders lines).any fun n => eqIgnoreAsciiCase f.name n) = false := by
  rw [any_eq_false]
  intro n hn hname
  simp only [nominatedHeaders, mem_flatMap, mem_filter] at hn
  obtain ⟨value, -, -, hn⟩ := hn
  have hpinned : HeadState.isPinned n = true := by
    rw [isPinned_iff, eqIgnoreAsciiCase_congr (eqIgnoreAsciiCase_symm hname),
      eqIgnoreAsciiCase_congr (eqIgnoreAsciiCase_symm hname),
      eqIgnoreAsciiCase_congr (eqIgnoreAsciiCase_symm hname)]
    rw [f.kind_length_iff, f.kind_coding_iff, f.kind_host_iff] at hk
    exact hk
  simp [hpinned] at hn

theorem linePass_relays (lines : List Bytes) (a : Option Authority) :
    Relays h a (linePass (nominatedHeaders lines) h.isUpgrade a) where
  kind f _ g hg := by
    simp only [linePass, Option.mem_def] at hg
    split_ifs at hg with hhost
    · obtain ⟨hk, ha⟩ := hhost
      obtain ⟨a, rfl⟩ := Option.isSome_iff_exists.mp ha
      cases hg
      rw [a.field_kind, hk]
    all_goals cases hg; rfl
  framing f _ hk := by
    have hnot := not_nominated lines (f := f) (by tauto)
    have hhop := isHopByHopRequestHeader_kind f
    rcases hk with hk | hk <;> simp [linePass, hk, hnot, hhop, hopByHopKinds]
  connection f _ hk := by
    simp [linePass, isHopByHopRequestHeader_kind, hk, hopByHopKinds]
  upgrade f _ hk := by simp [linePass, hk]
  host f _ hk := by
    have hnot := not_nominated lines (f := f) (by tauto)
    cases a with
    | none => simp [linePass, hk, hnot, isHopByHopRequestHeader_kind, hopByHopKinds]
    | some a => simp [linePass, hk]

end

section

variable {h : RequestHead} {a : Option Authority} {d : Field → Option Field}

def sentFields (h : RequestHead) (a : Option Authority) (d : Field → Option Field)
    (clientIp : IpAddr) (isTls : Bool) : List Field :=
  h.fields.filterMap d ++ proxyFields clientIp isTls h.isUpgrade
    (if (hostLine h.wire).isNone then a else none)

/-- The proxy's own lines, by kind: none of them frames the message. -/
theorem ofKind_proxyFields (clientIp : IpAddr) (isTls keepUpgrade : Bool)
    (host : Option Authority) :
    (∀ k, k = .contentLength ∨ k = .transferEncoding ∨ k = .upgrade →
      ofKind k (proxyFields clientIp isTls keepUpgrade host) = []) ∧
    ofKind .connection (proxyFields clientIp isTls keepUpgrade host) =
      (if keepUpgrade then [connectionUpgrade] else []) ∧
    ofKind .host (proxyFields clientIp isTls keepUpgrade host) =
      (host.map Authority.field).toList := by
  have hfor : (forwardedFor clientIp).kind = .other :=
    show fieldName (bytes "X-Forwarded-For") = .other by decide
  have hproto : (forwardedProto isTls).kind = .forwardingClaim :=
    show fieldName (bytes "X-Forwarded-Proto") = .forwardingClaim by decide
  have hconnection : connectionUpgrade.kind = .connection :=
    show fieldName (bytes "Connection") = .connection by decide
  refine ⟨?_, ?_, ?_⟩
  · rintro k (rfl | rfl | rfl) <;> cases keepUpgrade <;> cases host <;>
      simp [proxyFields, ofKind_cons, hfor, hproto, hconnection, Authority.field_kind]
  all_goals
    cases keepUpgrade <;> cases host <;>
      simp [proxyFields, ofKind_cons, hfor, hproto, hconnection, Authority.field_kind]

variable (hd : Relays h a d) (clientIp : IpAddr) (isTls : Bool)
include hd

theorem ofKind_sentFields (k : FieldName) : ofKind k (sentFields h a d clientIp isTls) =
    (ofKind k h.fields).filterMap d ++ ofKind k (proxyFields clientIp isTls h.isUpgrade
      (if (hostLine h.wire).isNone then a else none)) := by
  rw [sentFields, ofKind_append, ofKind_filterMap hd.kind]

theorem sentFields_framing {k : FieldName} (hk : k = .contentLength ∨ k = .transferEncoding) :
    ofKind k (sentFields h a d clientIp isTls) = ofKind k h.fields := by
  rw [ofKind_sentFields hd, (ofKind_proxyFields ..).1 _ (hk.imp_right .inl), append_nil,
    ofKind_filterMap_self fun f hf hkind => hd.framing f hf (hkind ▸ hk)]

theorem sentFields_connection : ofKind .connection (sentFields h a d clientIp isTls) =
    if h.isUpgrade then [connectionUpgrade] else [] := by
  rw [ofKind_sentFields hd, (ofKind_proxyFields ..).2.1,
    ofKind_filterMap_nil hd.connection, nil_append]

theorem sentFields_upgrade : ofKind .upgrade (sentFields h a d clientIp isTls) =
    if h.isUpgrade then ofKind .upgrade h.fields else [] := by
  rw [ofKind_sentFields hd, (ofKind_proxyFields ..).1 _ (.inr (.inr rfl)), append_nil]
  have hupgrade := hd.upgrade
  cases hup : h.isUpgrade with rw [hup] at hupgrade
  | true => exact ofKind_filterMap_self hupgrade
  | false => exact ofKind_filterMap_nil hupgrade

/-- The Host line sent: the client's, or the one its authority gives. -/
theorem sentFields_host (hs : h.Strict) (hlen : h.wire.length < 2 ^ 32) :
    ofKind .host (sentFields h a d clientIp isTls) =
      (a.map fun a => [a.field]).getD (ofKind .host h.fields) := by
  rw [ofKind_sentFields hd, (ofKind_proxyFields ..).2.2]
  cases a with
  | none => simpa using ofKind_filterMap_self hd.host
  | some a =>
    have honce := (fieldsOk_of_strict hs).host_once
    rw [repeated_eq_ofKind] at honce
    cases hfs : ofKind .host h.fields with
    | nil =>
      have hnone : (hostLine h.wire).isNone = true := by
        rw [hostLine_isNone_iff hs hlen]
        intro f hf hk
        have hmem : f ∈ ofKind .host h.fields := mem_ofKind.mpr ⟨hf, hk⟩
        simp [hfs] at hmem
      simp [hnone]
    | cons f fs =>
      obtain rfl : fs = [] := by simpa [hfs] using honce
      have hmem : f ∈ ofKind .host h.fields := by simp [hfs]
      obtain ⟨hf, hk⟩ := mem_ofKind.mp hmem
      have hsome : ¬ (hostLine h.wire).isNone = true := by
        rw [hostLine_isNone_iff hs hlen]
        exact fun hall => hall f hf hk
      rw [if_neg hsome, filterMap_cons_some (hd.host f hf hk)]
      rfl

end

section

variable {h : RequestHead} {authority : Option Bytes} {path : Bytes} {offset : Option ℕ} {c : Cow}

/-- The target sent: the routed path, and the query as the client sent it. -/
structure SentTarget (path : Bytes) (c : Cow) (q : Bytes) : Prop where
  query : q = [] ∧ (splitQuery path).2 = [] ∨ q = question :: (splitQuery path).2
  text : IsTargetText (c.text ++ q)
  utf8 : isUtf8 (c.text ++ q) = true
  no_query : question ∉ c.text
  head : c.text.head? = some slash ∨ c.text ++ q = bytes "*" ∧ path = bytes "*"

theorem SentTarget.splitQuery_eq {q : Bytes} (ht : SentTarget path c q) :
    splitQuery (c.text ++ q) = (c.text, (splitQuery path).2) := by
  rcases ht.query with ⟨rfl, hquery⟩ | rfl
  · rw [append_nil, splitQuery_nil ht.no_query, hquery]
  · rw [splitQuery_cons ht.no_query]

theorem target_byte_of_no_query {target pre q : Bytes} (ht : IsTargetText target)
    (hsplit : target = pre ++ q) (hpre : question ∉ pre) : ∀ b ∈ pre, is b .target = true := by
  intro b hb
  rcases ht.1 b (by simp [hsplit, hb]) with hb' | rfl
  · exact hb'
  · obtain ⟨x, y, rfl⟩ := append_of_mem hb
    have hmem := ht.2 x (y ++ q) (by simp [hsplit])
    exact absurd (mem_append_left _ hmem) hpre

theorem exists_sentTarget (hs : h.Strict)
    (hform : TargetForm h.method h.target authority path offset)
    (hc : normalizePath (splitQuery path).1 = some c) :
    ∃ pre q, h.target = pre ++ q ∧ question ∉ pre ∧ path = (splitQuery path).1 ++ q ∧
      SentTarget path c q := by
  obtain ⟨pre, q, htarget, hpre, hmem, hpath, hq⟩ := exists_query_of_form hform
  obtain ⟨hhead, hbytes, hutf8⟩ := normalizePath_text hc
  have htext := hs.target_text
  have hu := ((isUtf8_cut (by decide)).mp hs.line_utf8).2
  have hpathutf8 := (path_utf8_of_form hform hu).2
  have hbyte : ∀ b ∈ c.text, is b .target = true := by
    intro b hb
    rcases hmem b (hbytes b hb) with hb | rfl
    · exact target_byte_of_no_query htext htarget hpre b hb
    · decide
  have hno : question ∉ c.text := by
    intro hb
    rcases hmem question (hbytes question hb) with hb | hb
    · exact hpre hb
    · exact absurd hb (by decide)
  refine ⟨pre, q, htarget, hpre, hpath, hq, ?_, ?_, hno, ?_⟩
  · rcases hq with ⟨rfl, -⟩ | rfl
    · rw [append_nil]
      exact isTargetText_of_forall hbyte
    · rw [show ∀ r, c.text ++ question :: r = (c.text ++ [question]) ++ r by simp]
      refine isTargetText_append ?_ (by simp) ?_
      · intro b hb
        rcases mem_append.mp hb with hb | hb
        · exact hbyte b hb
        · obtain rfl : b = question := by simpa using hb
          decide
      · exact fun b hb => htext.1 b (by simp [htarget, hb])
  · rcases hq with ⟨rfl, -⟩ | rfl
    · rw [append_nil]
      exact hutf8 hpathutf8
    · rw [htarget] at hu
      exact (isUtf8_cut (by decide)).mpr ⟨hutf8 hpathutf8, ((isUtf8_cut (by decide)).mp hu).2⟩
  · rcases path_head_of_form hform with hslash | ⟨hstar, -⟩
    · left
      rw [hhead]
      have hne := splitQuery_path_ne hform
      rw [hpath] at hslash
      obtain ⟨b, rest, hcons⟩ := exists_cons_of_ne_nil hne
      rw [hcons] at hslash ⊢
      simpa using hslash
    · right
      have hsplit : splitQuery (bytes "*") = (bytes "*", []) := by decide
      have hnormal : normalizePath (bytes "*") = some (.borrowed (bytes "*")) := by decide
      rw [hstar, hsplit] at hpath hc
      rw [hnormal] at hc
      cases hc
      obtain rfl : q = [] := by simpa using hpath
      exact ⟨rfl, hstar⟩

theorem outgoingLine_eq (hs : h.Strict)
    (hform : TargetForm h.method h.target authority path offset) (tail : Bytes)
    (hlen : (h.wire ++ tail).length < 2 ^ 32)
    (hc : normalizePath (splitQuery path).1 = some c) {a : Option Authority}
    (ha : authority = a.map Authority.host) {pre q : Bytes} (htarget : h.target = pre ++ q)
    (hpre : question ∉ pre) (hpath : path = (splitQuery path).1 ++ q)
    (hq : q = [] ∨ ∃ r, q = question :: r) :
    let m := requestMeta (h.wire ++ tail) (h.info authority path offset) c
    outgoingLine h.firstLine
        (if a.isSome then some (m.path h.wire) else m.normalizedPath) =
      requestLine h.method (c.text ++ q) h.http10 := by
  intro m
  have hsp : sp ∉ pre ++ q := htarget ▸ sp_not_mem_target hs.target_text
  have hput : ∀ p, outgoingLine h.firstLine (some p) =
      requestLine h.method (p ++ q) h.http10 := by
    intro p
    rw [RequestHead.firstLine, htarget]
    exact putRequestLine_eq (sp_not_mem_method hs) hsp hpre hq h.http10 p none
  have hmpath : m.path h.wire = c.text := requestMeta_path hs hform tail hlen hc
  cases a with
  | some a => rw [Option.isSome_some, if_pos rfl, hmpath, hput]
  | none =>
    have hself : h.target = path := by
      obtain rfl : authority = none := ha
      generalize h.target = target at hform
      cases hform <;> rfl
    rcases normalizePath_spec hc with rfl | ⟨p, kept, rfl, -⟩
    · have hnone : m.normalizedPath = none := rfl
      rw [Option.isSome_none, if_neg Bool.false_ne_true, hnone, RequestHead.firstLine, hself]
      conv_lhs => rw [hpath]
      rfl
    · have hsome : m.normalizedPath = some p := rfl
      rw [Option.isSome_none, if_neg Bool.false_ne_true, hsome, hput]
      rfl

end

section

variable {h : RequestHead} {authority : Option Bytes} {path q : Bytes} {offset : Option ℕ} {c : Cow}
  {a : Option Authority} {d : Field → Option Field}

def sentHead (h : RequestHead) (a : Option Authority) (d : Field → Option Field)
    (target : Bytes) (clientIp : IpAddr) (isTls : Bool) : RequestHead :=
  ⟨h.method, target, h.http10, sentFields h a d clientIp isTls⟩

theorem connectionUpgrade_ok (http10 : Bool) : connectionUpgrade.ok http10 = true := by
  cases http10 <;> decide

theorem sentHead_hostLine (hs : h.Strict) (hlen : h.wire.length < 2 ^ 32) (hd : Relays h a d)
    (target : Bytes) (clientIp : IpAddr) (isTls : Bool) :
    (sentHead h a d target clientIp isTls).hostLine =
      (a.map fun a => some a.host).getD h.hostLine := by
  rw [hostLine_ofKind, hostLine_ofKind,
    show (sentHead h a d target clientIp isTls).fields = sentFields h a d clientIp isTls from rfl,
    sentFields_host hd clientIp isTls hs hlen]
  cases a with
  | none => rfl
  | some a =>
    have hpart := Field.hostPart_eq_some.mpr a.field_namesHost
    simp [hpart]

theorem sentHead_isUpgrade (hd : Relays h a d) (target : Bytes) (clientIp : IpAddr)
    (isTls : Bool) : (sentHead h a d target clientIp isTls).isUpgrade = h.isUpgrade := by
  have htoken : ([connectionUpgrade].any fun f => f.tokens.any isUpgradeToken) = true := by decide
  rw [isUpgrade_ofKind,
    show (sentHead h a d target clientIp isTls).fields = sentFields h a d clientIp isTls from rfl,
    sentFields_upgrade hd, sentFields_connection hd]
  cases hup : h.isUpgrade with
  | false => rfl
  | true =>
    have hup' := hup
    rw [isUpgrade_ofKind] at hup'
    simp only [Bool.and_eq_true] at hup'
    simp only [if_true, htoken, hup'.1.1, hup'.2, Bool.and_self]

theorem reframes_sentHead (hs : h.Strict) (hlen : h.wire.length < 2 ^ 32) (hd : Relays h a d)
    (hform : TargetForm h.method h.target authority path offset) (ht : SentTarget path c q)
    (clientIp : IpAddr) (isTls : Bool) :
    Reframes h (sentHead h a d (c.text ++ q) clientIp isTls) := by
  have hok := fieldsOk_of_strict hs
  have hhost := sentFields_host hd clientIp isTls hs hlen
  exact {
    method := rfl
    version := rfl
    length := sentFields_framing hd clientIp isTls (.inl rfl)
    coding := sentFields_framing hd clientIp isTls (.inr rfl)
    connection := by
      intro f hf hk
      have hmem : f ∈ ofKind .connection (sentFields h a d clientIp isTls) :=
        mem_ofKind.mpr ⟨hf, hk⟩
      rw [sentFields_connection hd] at hmem
      split_ifs at hmem
      · obtain rfl : f = connectionUpgrade := by simpa using hmem
        exact connectionUpgrade_ok _
      · simp at hmem
    host_ok := by
      intro f hf hk
      have hmem : f ∈ ofKind .host (sentFields h a d clientIp isTls) := mem_ofKind.mpr ⟨hf, hk⟩
      rw [hhost] at hmem
      cases a with
      | none => exact hok.each f (mem_ofKind.mp hmem).1
      | some a =>
        obtain rfl : f = a.field := by simpa using hmem
        exact a.field_ok _
    host_once := by
      rw [show (sentHead h a d (c.text ++ q) clientIp isTls).fields =
        sentFields h a d clientIp isTls from rfl, hhost]
      cases a with
      | none =>
        have honce := hok.host_once
        rwa [repeated_eq_ofKind] at honce
      | some a => exact le_rfl
    host_present := by
      intro h11
      rw [sentHead_hostLine hs hlen hd]
      cases a with
      | none =>
        obtain ⟨f, hf, host, hnamed, hne⟩ := hs.host_present h11
        exact ⟨host, (hostLine_iff hok).mpr ⟨f, hf, hnamed⟩, hne⟩
      | some a => exact ⟨a.host, rfl, a.host_ne⟩
    target_text := ht.text
    target_utf8 := ht.utf8
    target_form := by
      change TargetForm h.method (c.text ++ q) none (c.text ++ q) (some 0)
      rcases ht.head with hslash | ⟨hstar, hpath⟩
      · refine .origin ?_
        obtain ⟨b, rest, hcons⟩ := exists_cons_of_ne_nil
          (show c.text ≠ [] by rintro hnil; simp [hnil] at hslash)
        rw [hcons] at hslash
        simpa [hcons] using hslash
      · rw [hstar]
        rcases path_head_of_form hform with hslash | ⟨-, hmethod⟩
        · rw [hpath] at hslash
          exact absurd hslash (by decide)
        · exact .asterisk hmethod }

/-- The outgoing head: strict, framed as the client's, with the routed path and host. -/
theorem assembleOutgoing_spec (hr : h.ReadsAs authority path offset) (tail : Bytes)
    (hlen : (h.wire ++ tail).length < 2 ^ 32)
    (hc : normalizePath (splitQuery path).1 = some c) (clientIp : IpAddr) (isTls : Bool) :
    ∃ (h' : RequestHead) (q : Bytes),
      assembleOutgoing h.wire (requestMeta (h.wire ++ tail) (h.info authority path offset) c)
        (forwardedLines clientIp isTls) = h'.wire ∧
      Reframes h h' ∧ h'.isUpgrade = h.isUpgrade ∧ h'.target = c.text ++ q ∧
      SentTarget path c q ∧
      eqIgnoreAsciiCase (h'.routedHost none) (h.routedHost authority) = true := by
  obtain ⟨hs, hform, hnames⟩ := hr
  have hok := fieldsOk_of_strict hs
  have hwire : h.wire.length < 2 ^ 32 := by
    rw [length_append] at hlen
    omega
  obtain ⟨a, ha, horigin⟩ := originForm_of_form hs hform
  rw [← pathSpan_eq hform tail hlen c] at horigin
  obtain ⟨pre, q, htarget, hpre, hpath, ht⟩ := exists_sentTarget hs hform hc
  have hq : q = [] ∨ ∃ r, q = question :: r := by
    rcases ht.query with ⟨rfl, -⟩ | rfl
    · exact .inl rfl
    · exact .inr ⟨_, rfl⟩
  have hline := outgoingLine_eq hs hform tail hlen hc ha htarget hpre hpath hq
  -- whichever way the head is assembled, each field is relayed alike
  obtain ⟨d, hd, hassemble⟩ : ∃ d, Relays h a d ∧
      assembleOutgoing h.wire (requestMeta (h.wire ++ tail) (h.info authority path offset) c)
        (forwardedLines clientIp isTls) =
      requestLine h.method (c.text ++ q) h.http10 ++ crlf ++ fieldsWire (h.fields.filterMap d) ++
        appendForwardHeaders (forwardedLines clientIp isTls) h.isUpgrade (originOf h.wire a) ++
        crlf := by
    have hsome : (originOf h.wire a).isSome = a.isSome := by cases a <;> rfl
    rw [assembleOutgoing]
    simp only [horigin, hsome]
    by_cases hslow : h.endState.stripSpans.needsSlowPath = true
    · refine ⟨_, linePass_relays (headerLines h.wire) a, (if_pos hslow).trans ?_⟩
      rw [← hline, originOf_eq]
      exact assembleForwardHeadersSlow_eq hs _ a _
    · refine ⟨_, spanPass_relays a, (if_neg hslow).trans ?_⟩
      rw [← hline, originOf_eq]
      exact assembleForwardHeaders_eq hs hwire (by simpa using hslow) _ a _
  refine ⟨sentHead h a d (c.text ++ q) clientIp isTls, q, ?_,
    reframes_sentHead hs hwire hd hform ht clientIp isTls, sentHead_isUpgrade hd _ _ _, rfl, ht, ?_⟩
  · rw [hassemble, originOf, appendForwardHeaders_eq,
      wire_eq_line (sentHead h a d (c.text ++ q) clientIp isTls)]
    simp [sentHead, sentFields, fieldsWire_append]
  · rw [routedHost, sentHead_hostLine hs hwire hd, routedHost]
    cases a with
    | none =>
      obtain rfl : authority = none := ha
      exact eqIgnoreAsciiCase_refl _
    | some a =>
      obtain rfl : authority = some a.host := ha
      cases hhost : h.hostLine with
      | none => exact eqIgnoreAsciiCase_refl _
      | some host =>
        obtain ⟨f, hf, hnamed⟩ := (hostLine_iff hok).mp hhost
        exact hnames a.host rfl f hf host hnamed

end

section

variable {R : Type}

theorem buildOutgoingHeaders_eq_assemble {buf : Bytes} {reqHeaderEnd : ℕ} {rule : HttpRouteRule R}
    {backend : Backend} (hrule : rule.filters = []) (hbackend : backend.filters = [])
    (m : RequestMeta) (peerIp : IpAddr) (isTls : Bool) :
    buildOutgoingHeaders buf reqHeaderEnd rule backend m peerIp isTls =
      assembleOutgoing (buf.take reqHeaderEnd) m (forwardedLines peerIp isTls) := by
  simp [buildOutgoingHeaders, filteredHead, hrule, hbackend, extractHeaderMods, extractUrlRewrite]

/-- A request forwarded without filters is read by its backend as the proxy read it: the same
message, for the path that was routed. -/
theorem buildOutgoingHeaders_roundTrip (data : Bytes) (hlen : data.length < 2 ^ 32)
    (info : HttpRequestInfo) (hacc : accepted data = some info) (c : Cow)
    (hpath : normalizePath info.path = some c) (rule : HttpRouteRule R) (backend : Backend)
    (hrule : rule.filters = []) (hbackend : backend.filters = []) (peerIp : IpAddr) (isTls : Bool) :
    ∃ sent, accepted (buildOutgoingHeaders data info.headLen rule backend
        (requestMeta data info c) peerIp isTls) = some sent ∧
      sent.method = info.method ∧ sent.queryString = info.queryString ∧
      sent.contentLength = info.contentLength ∧ sent.isChunked = info.isChunked ∧
      sent.isUpgrade = info.isUpgrade ∧ eqIgnoreAsciiCase sent.host info.host = true ∧
      sent.path = c.text := by
  obtain ⟨h, authority, path, offset, tail, hread, rfl, rfl⟩ := exists_head_of_accepted hacc
  obtain ⟨h', q, hwire, hr, hup, htarget, ht, hhost⟩ :=
    assembleOutgoing_spec hread tail hlen hpath peerIp isTls
  rw [buildOutgoingHeaders_eq_assemble hrule hbackend, h.take_headLen, hwire]
  have hsent := hr.accepted_wire hread.strict []
  rw [append_nil] at hsent
  refine ⟨_, hsent, hr.method, ?_, hr.contentLength_eq, hr.isChunked_eq, hup, hhost, ?_⟩
  · change (splitQuery h'.target).2 = (splitQuery path).2
    rw [htarget, ht.splitQuery_eq]
  · change (splitQuery h'.target).1 = c.text
    rw [htarget, ht.splitQuery_eq]

/-- An absolute-form request with dot-segments, a hop-by-hop line and a body behind it. -/
theorem buildOutgoingHeaders_roundTrip_absolute : ∃ info c sent,
    accepted (bytes "GET http://A.b/x/../y?z HTTP/1.1\r\nTE: t\r\nHost: a.b\r\n\r\nrest") =
      some info ∧
    normalizePath info.path = some c ∧
    accepted (buildOutgoingHeaders
      (bytes "GET http://A.b/x/../y?z HTTP/1.1\r\nTE: t\r\nHost: a.b\r\n\r\nrest") info.headLen
      (⟨none, .pathPrefix, Str.lit "/", none, [], [], [], [], false, 0⟩ : HttpRouteRule Unit)
      ⟨⟨.v4 ⟨[127, 0, 0, 1], rfl⟩, 80⟩, 1, [], false, Str.lit "b", .forward⟩
      (requestMeta (bytes "GET http://A.b/x/../y?z HTTP/1.1\r\nTE: t\r\nHost: a.b\r\n\r\nrest")
        info c) (.v4 ⟨[10, 0, 0, 1], rfl⟩) true) = some sent ∧
    sent.queryString = info.queryString ∧ sent.path = c.text := by
  have hsome : ((accepted (bytes
      "GET http://A.b/x/../y?z HTTP/1.1\r\nTE: t\r\nHost: a.b\r\n\r\nrest")).bind
        fun info => normalizePath info.path).isSome = true := by decide +kernel
  obtain ⟨c, hc⟩ := Option.isSome_iff_exists.mp hsome
  obtain ⟨info, hacc, hpath⟩ := Option.bind_eq_some_iff.mp hc
  obtain ⟨sent, hsent, -, hquery, -, -, -, -, hsentPath⟩ :=
    buildOutgoingHeaders_roundTrip _ (by decide) info hacc c hpath
      (⟨none, .pathPrefix, Str.lit "/", none, [], [], [], [], false, 0⟩ : HttpRouteRule Unit)
      ⟨⟨.v4 ⟨[127, 0, 0, 1], rfl⟩, 80⟩, 1, [], false, Str.lit "b", .forward⟩ rfl rfl
      (.v4 ⟨[10, 0, 0, 1], rfl⟩) true
  exact ⟨info, c, sent, hacc, hpath, hsent, hquery, hsentPath⟩

end
end Portail.Proxy
