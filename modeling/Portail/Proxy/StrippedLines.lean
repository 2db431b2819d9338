import Portail.Proxy.HopByHop

/-!
# Which of the client's lines are forwarded

The lines that concern only the client's connection, and those a Connection line
nominates, are for the proxy alone. The line path does not see the tokens of a Connection
line that is no UTF-8, and trims more than white space off the others, so what it leaves
out is what was nominated exactly when both readings agree (`hopByHop_stripped_iff`).
-/

namespace Portail.Proxy

open Lib Http Routing Authority List

section

/-- The names of the lines that are never forwarded. -/
def strippedNames : List String :=
  ["Connection", "Keep-Alive", "Proxy-Connection", "TE", "Trailer", "Expect", "HTTP2-Settings",
    "Forwarded", "X-Forwarded-Host", "X-Forwarded-Port", "X-Forwarded-Proto", "X-Forwarded-Scheme",
    "X-Forwarded-Ssl"]

/-- The tokens of a Connection line that nominate no line. -/
def exemptTokens : List String :=
  ["close", "keep-alive", "Content-Length", "Transfer-Encoding", "Host"]

variable (h : RequestHead)

/-- Some token of a Connection line nominates the name. -/
def isNominated (name : Bytes) : Bool :=
  h.fields.any fun g => g.tokens.any fun t => eqIgnoreAsciiCase name t &&
    !exemptTokens.any fun e => eqIgnoreAsciiCase t (bytes e)

/-- The line is one to forward. -/
def mayPass (f : Field) : Bool :=
  if f.isNamed "upgrade" then h.isUpgrade
  else !strippedNames.any f.isNamed && !isNominated h f.name

/-- A line named `close` under that option, which either path may forward or not. -/
def setAside (f : Field) : Bool := saysClose h && f.isNamed "close"

/-- A line as it is forwarded, the Host line with the target's authority where it has one. -/
def hostReplaced (authority : Option Bytes) (f : Field) : Bytes :=
  if f.kind = .host then (authority.map putHost).getD f.wire else f.wire

/-- Of the client's lines those to forward are in the head sent, as they came and in order, and no
others. -/
def HopByHopStripped (path authority : Option Bytes) (forwarded sent : Bytes) : Prop :=
  ∃ keep : Field → Bool,
    (∀ f ∈ h.fields, setAside h f = false → keep f = mayPass h f) ∧
    sent = forwardedText h path authority forwarded
      ((h.fields.filter keep).flatMap (hostReplaced authority))

/-- The tokens, as they are read, name the line of a header that is not pinned. -/
def namedBy (tokens : Field → List Bytes) (f : Field) : Bool :=
  h.fields.any fun g => (tokens g).any fun t => eqIgnoreAsciiCase f.name t && !HeadState.isPinned t

/-- Both ways of reading Connection lines nominate the same of the head's other lines. -/
def ReadAlike : Prop :=
  ∀ f ∈ h.fields, f.isNamed "upgrade" = false → strippedNames.any f.isNamed = false →
    setAside h f = false → namedBy h Field.tokens f = namedBy h textTokens f

variable {h} {f : Field} {a : Option Authority}

theorem isHopByHopRequestHeader_eq (f : Field) :
    isHopByHopRequestHeader f.name = strippedNames.any f.isNamed := by
  rw [Bool.eq_iff_iff, isHopByHopRequestHeader_iff, any_eq_true]
  constructor
  · intro hkind
    have hne : fieldName f.name ≠ .other := by
      intro hother
      rw [hother] at hkind
      exact absurd hkind (by decide)
    obtain ⟨lit, hmem, heq⟩ := mem_of_fieldName rfl hne
    have hlisted : ∀ p ∈ fieldTable, p.2 ∈ hopByHopKinds →
        ∃ s ∈ strippedNames, eqIgnoreAsciiCase (bytes p.1) (bytes s) = true := by decide +kernel
    obtain ⟨s, hs, hlit⟩ := hlisted _ hmem hkind
    exact ⟨s, hs, eqIgnoreAsciiCase_trans heq hlit⟩
  · rintro ⟨s, hs, hnamed⟩
    have hlisted : ∀ s ∈ strippedNames, fieldName (bytes s) ∈ hopByHopKinds := by decide +kernel
    rw [fieldName_congr hnamed]
    exact hlisted s hs

def lineKept (h : RequestHead) (f : Field) : Bool :=
  if f.isNamed "upgrade" then h.isUpgrade
  else !strippedNames.any f.isNamed && !namedBy h textTokens f

theorem nominated_eq (hs : h.Strict) (f : Field) :
    ((nominatedHeaders (headerLines h.wire)).any fun n => eqIgnoreAsciiCase f.name n) =
      namedBy h textTokens f := by
  rw [Bool.eq_iff_iff, any_eq_true, namedBy, any_eq_true]
  constructor
  · rintro ⟨n, hn, hname⟩
    obtain ⟨⟨g, hg, hn⟩, -, hpinned⟩ := (mem_nominatedHeaders hs).mp hn
    exact ⟨g, hg, any_eq_true.mpr ⟨n, hn, by simp [hname, hpinned]⟩⟩
  · rintro ⟨g, hg, hany⟩
    obtain ⟨n, hn, hname⟩ := any_eq_true.mp hany
    rw [Bool.and_eq_true, Bool.not_eq_true'] at hname
    refine ⟨n, (mem_nominatedHeaders hs).mpr ⟨⟨g, hg, hn⟩, ?_, hname.2⟩, hname.1⟩
    rintro rfl
    have hlen := eqIgnoreAsciiCase_length hname.1
    exact f.name_ne (length_eq_zero_iff.mp hlen)

theorem lineText_eq (hs : h.Strict) (authority : Option Bytes) (f : Field) :
    lineText (nominatedHeaders (headerLines h.wire)) h.isUpgrade authority f =
      if lineKept h f then hostReplaced authority f else [] := by
  have hupgrade : f.isNamed "upgrade" = decide (f.kind = .upgrade) := by
    rw [Bool.eq_iff_iff, decide_eq_true_eq, kind_upgrade_iff]
  rw [lineText, nominated_eq hs, isHopByHopRequestHeader_eq, lineKept, hupgrade]
  by_cases hk : f.kind = .host
  · have hhop : strippedNames.any f.isNamed = false := by
      rw [← isHopByHopRequestHeader_eq, isHopByHopRequestHeader_kind, hk]
      decide
    have hnamed : namedBy h textTokens f = false := by
      rw [← nominated_eq hs]
      exact not_nominated _ (.inr (.inr hk))
    cases authority <;> simp [hk, hhop, hnamed, hostReplaced, hostText]
  · by_cases hup : f.kind = .upgrade
    · cases h.isUpgrade <;> simp [hup, hostReplaced]
    · cases strippedNames.any f.isNamed <;> cases namedBy h textTokens f <;>
        simp [hk, hup, hostReplaced]

/-- The lines of a forwarded head, whichever path wrote it. -/
theorem exists_kept (hs : h.Strict) (hlen : h.wire.length < 2 ^ 32) (path authority : Option Bytes)
    (forwarded : Bytes) :
    ∃ kept : Field → Bool, (∀ f ∈ h.fields, setAside h f = false → kept f = lineKept h f) ∧
      (if h.endState.stripSpans.needsSlowPath then
          assembleForwardHeadersSlow h.wire path h.isUpgrade (originWith h.wire authority) forwarded
        else assembleForwardHeaders h.wire path h.endState.stripSpans h.endState.upgradeSpan
          h.isUpgrade (originWith h.wire authority) forwarded) =
        forwardedText h path authority forwarded
          ((h.fields.filter kept).flatMap (hostReplaced authority)) := by
  cases hslow : h.endState.stripSpans.needsSlowPath with
  | true =>
    refine ⟨lineKept h, fun f _ _ => rfl, ?_⟩
    rw [if_pos rfl, assembleForwardHeadersSlow_text hs, flatMap_filter,
      flatMap_congr fun f _ => lineText_eq hs authority f]
  | false =>
    refine ⟨fun f => setAside h f || lineKept h f, fun f _ haside => by simp [haside], ?_⟩
    have hlines : h.fields.flatMap (spanText h.isUpgrade authority) =
        (h.fields.filter fun f => setAside h f || lineKept h f).flatMap
          (hostReplaced authority) := by
      rw [flatMap_filter]
      refine flatMap_congr fun f hf => ?_
      have hline := lineText_eq_spanText hs hslow authority hf
      rw [lineText_eq hs] at hline
      cases haside : setAside h f with
      | false =>
        rw [← setAside, haside] at hline
        simpa using hline.symm
      | true =>
        have hk : f.kind = .other := kind_of_close (Bool.and_eq_true_iff.mp haside).2
        simp [spanText, stripEdit, upgradeEdit, hostEdit, hostReplaced, Field.lineKind, hk]
    rw [if_neg Bool.false_ne_true, assembleForwardHeaders_text hs hlen hslow, hlines]

theorem Field.line_injective : Function.Injective Field.line := by
  intro f g hline
  have hname : f.name.length = g.name.length := by
    have hcolon := memchr_colon_line f
    rw [hline, memchr_colon_line g] at hcolon
    exact (Option.some.inj hcolon).symm
  obtain ⟨hn, hv⟩ := append_inj hline hname
  exact Field.ext hn (cons.inj hv).2

theorem fieldsWire_injective : Function.Injective fieldsWire := by
  intro fs gs hwire
  have hlines : fs.map Field.line = gs.map Field.line := by
    rw [← headerLines_fields, ← headerLines_fields, hwire]
  exact map_injective_iff.mpr Field.line_injective hlines

/-- The field a line is forwarded as. -/
def hostField (a : Option Authority) (f : Field) : Field :=
  if f.kind = .host then (a.map field).getD f else f

theorem hostField_wire (a : Option Authority) (f : Field) :
    (hostField a f).wire = hostReplaced (a.map text) f := by
  unfold hostField hostReplaced
  split_ifs
  · cases a with
    | none => rfl
    | some a => exact a.field_wire
  · rfl

theorem hostField_kind (a : Option Authority) (f : Field) : (hostField a f).kind = f.kind := by
  unfold hostField
  split_ifs with hk
  · cases a with
    | none => rfl
    | some a => exact a.field_kind.trans hk.symm
  · rfl

/-- Which lines but Host were forwarded can be read off the head sent. -/
theorem kept_of_wire {fs : List Field} {p q : Field → Bool}
    (hwire : (fs.filter p).flatMap (hostReplaced (a.map text)) =
      (fs.filter q).flatMap (hostReplaced (a.map text))) (hf : f ∈ fs)
    (hk : f.kind ≠ .host) (hp : p f = true) : q f = true := by
  have hfields (p : Field → Bool) :
      (fs.filter p).flatMap (hostReplaced (a.map text)) =
        fieldsWire ((fs.filter p).map (hostField a)) := by
    rw [fieldsWire, flatMap_map]
    exact flatMap_congr fun f _ => (hostField_wire a f).symm
  rw [hfields, hfields] at hwire
  have hsame (g : Field) (hg : g.kind ≠ .host) : hostField a g = g := if_neg hg
  have hmem : f ∈ (fs.filter p).map (hostField a) :=
    mem_map.mpr ⟨f, mem_filter.mpr ⟨hf, hp⟩, hsame f hk⟩
  rw [fieldsWire_injective hwire] at hmem
  obtain ⟨g, hg, hgf⟩ := mem_map.mp hmem
  have hgk : g.kind ≠ .host := by rwa [← hostField_kind a, hgf]
  rw [hsame g hgk] at hgf
  rw [← hgf]
  exact (mem_filter.mp hg).2

/-- For a line that is not set aside, the tokens that nominate it are those not pinned. -/
theorem isNominated_eq (hstrip : strippedNames.any f.isNamed = false)
    (haside : setAside h f = false) : isNominated h f.name = namedBy h Field.tokens f := by
  have hexempt : ∀ g ∈ h.fields, ∀ t ∈ g.tokens, eqIgnoreAsciiCase f.name t = true →
      (exemptTokens.any fun e => eqIgnoreAsciiCase t (bytes e)) = HeadState.isPinned t := by
    intro g hg t ht hname
    have hclose : eqIgnoreAsciiCase t (bytes "close") = false := by
      rw [Bool.eq_false_iff]
      intro hclose
      have hsays : saysClose h = true :=
        any_eq_true.mpr ⟨g, hg, any_eq_true.mpr ⟨t, ht, hclose⟩⟩
      have hnamed : f.isNamed "close" = true := eqIgnoreAsciiCase_trans hname hclose
      simp [setAside, hsays, hnamed] at haside
    have halive : eqIgnoreAsciiCase t (bytes "keep-alive") = false := by
      rw [Bool.eq_false_iff]
      intro halive
      have hnamed : f.isNamed "Keep-Alive" = true :=
        eqIgnoreAsciiCase_trans (eqIgnoreAsciiCase_trans hname halive) (by decide)
      exact any_eq_false.mp hstrip "Keep-Alive" (by decide) hnamed
    have hcase : ∀ x y : String, eqIgnoreAsciiCase (bytes x) (bytes y) = true →
        eqIgnoreAsciiCase t (bytes x) = eqIgnoreAsciiCase t (bytes y) := by
      intro x y hxy
      exact eqIgnoreAsciiCase_congr_right hxy t
    simp only [exemptTokens, any_cons, any_nil, hclose, halive, Bool.false_or,
      Bool.or_false, hcase "Content-Length" "content-length" (by decide),
      hcase "Transfer-Encoding" "transfer-encoding" (by decide), hcase "Host" "host" (by decide)]
    rw [HeadState.isPinned, HeadState.pinnedNames]
    simp
  rw [isNominated, namedBy, Bool.eq_iff_iff, any_eq_true, any_eq_true]
  refine exists_congr fun g => and_congr_right fun hg => ?_
  rw [any_eq_true, any_eq_true]
  refine exists_congr fun t => and_congr_right fun ht => ?_
  cases hname : eqIgnoreAsciiCase f.name t with
  | false => rfl
  | true => rw [hexempt g hg t ht hname]

theorem mayPass_eq_lineKept_iff (haside : setAside h f = false) :
    mayPass h f = lineKept h f ↔ (f.isNamed "upgrade" = false →
      strippedNames.any f.isNamed = false → namedBy h Field.tokens f = namedBy h textTokens f) := by
  unfold mayPass lineKept
  cases hup : f.isNamed "upgrade" with
  | true => simp
  | false =>
    cases hstrip : strippedNames.any f.isNamed with
    | true => simp
    | false =>
      rw [isNominated_eq hstrip haside]
      cases namedBy h Field.tokens f <;> cases namedBy h textTokens f <;> simp

theorem namedBy_host (hk : f.kind = .host) (tokens : Field → List Bytes) :
    namedBy h tokens f = false := by
  have hnamed : eqIgnoreAsciiCase f.name (bytes "host") = true := f.kind_host_iff.mp hk
  rw [namedBy, any_eq_false]
  intro g _
  rw [Bool.not_eq_true, any_eq_false]
  intro t _
  rw [Bool.and_eq_true, Bool.not_eq_true', not_and, Bool.not_eq_false, isPinned_iff]
  exact fun hname => .inr (.inr (eqIgnoreAsciiCase_trans (eqIgnoreAsciiCase_symm hname) hnamed))

/-- A head that keeps what the line path keeps is stripped as it should when both readings of the
Connection lines agree. -/
theorem hopByHopStripped_iff {kept : Field → Bool}
    (hkept : ∀ f ∈ h.fields, setAside h f = false → kept f = lineKept h f) (path : Option Bytes)
    (forwarded : Bytes) :
    HopByHopStripped h path (a.map text) forwarded
        (forwardedText h path (a.map text) forwarded
          ((h.fields.filter kept).flatMap (hostReplaced (a.map text)))) ↔
      ReadAlike h := by
  constructor
  · rintro ⟨keep, hkeep, hsent⟩ f hf hup hstrip haside
    by_cases hk : f.kind = .host
    · rw [namedBy_host hk, namedBy_host hk]
    · have hwire : (h.fields.filter kept).flatMap (hostReplaced (a.map text)) =
          (h.fields.filter keep).flatMap (hostReplaced (a.map text)) := by
        simpa [forwardedText] using hsent
      have hsame : keep f = kept f := by
        rw [Bool.eq_iff_iff]
        exact ⟨kept_of_wire hwire.symm hf hk, kept_of_wire hwire hf hk⟩
      rw [hkeep f hf haside, hkept f hf haside] at hsame
      exact (mayPass_eq_lineKept_iff haside).mp hsame hup hstrip
  · intro halike
    refine ⟨kept, fun f hf haside => ?_, rfl⟩
    rw [hkept f hf haside]
    exact ((mayPass_eq_lineKept_iff haside).mpr fun hup hstrip =>
      halike f hf hup hstrip haside).symm

end

section

variable {R : Type}

/-- A request forwarded without filters carries the client's lines but the hop-by-hop ones exactly
when both readings of its Connection lines nominate the same of its lines. -/
theorem hopByHop_stripped_iff (data : Bytes) (hlen : data.length < 2 ^ 32)
    (info : HttpRequestInfo) (hacc : accepted data = some info) (c : Cow)
    (hpath : normalizePath info.path = some c) (rule : HttpRouteRule R) (backend : Backend)
    (hrule : rule.filters = []) (hbackend : backend.filters = []) (peerIp : IpAddr) (isTls : Bool) :
    ∃ (h : RequestHead) (a : Option Authority), h.Strict ∧ h.wire = data.take info.headLen ∧
      OriginForm.of h.wire (requestMeta data info c).pathSpan = originOf h.wire a ∧
      (HopByHopStripped h
          (if a.isSome then some ((requestMeta data info c).path h.wire)
            else (requestMeta data info c).normalizedPath)
          (a.map text) (forwardedLines peerIp isTls)
          (buildOutgoingHeaders data info.headLen rule backend (requestMeta data info c) peerIp
            isTls) ↔
        ReadAlike h) := by
  obtain ⟨h, authority, path, offset, tail, ⟨hs, hform, -⟩, rfl, rfl⟩ :=
    exists_head_of_accepted hacc
  have hwire : h.wire.length < 2 ^ 32 := by
    rw [length_append] at hlen
    omega
  obtain ⟨a, -, horigin⟩ := originForm_of_form hs hform
  rw [← pathSpan_eq hform tail hlen c] at horigin
  refine ⟨h, a, hs, h.take_headLen tail |>.symm, horigin, ?_⟩
  have hsome : (originOf h.wire a).isSome = a.isSome := by cases a <;> rfl
  rw [buildOutgoingHeaders_eq_assemble hrule hbackend, h.take_headLen, assembleOutgoing]
  simp only [horigin, hsome]
  rw [originOf_eq]
  let m := requestMeta (h.wire ++ tail) (h.info authority path offset) c
  let sentPath := if a.isSome then some (m.path h.wire) else m.normalizedPath
  obtain ⟨kept, hkept, hsent⟩ := exists_kept hs hwire sentPath (a.map text)
    (forwardedLines peerIp isTls)
  have hiff := hopByHopStripped_iff (a := a) hkept sentPath (forwardedLines peerIp isTls)
  rw [← hsent] at hiff
  exact hiff

theorem isToken_host : isToken (bytes "Host") = true := by decide

def hostA : Field := ⟨bytes "Host", bytes " a", isToken_host, by decide⟩

/-- A Connection line that nominates `X-Secret` and then is no UTF-8. -/
def nominating : Field :=
  ⟨bytes "Connection", bytes " X-Secret, " ++ [0xff], by decide, by decide⟩

def secret : Field := ⟨bytes "X-Secret", bytes " 1", by decide, by decide⟩

def secretNominated : RequestHead := ⟨bytes "GET", bytes "/", false, [hostA, nominating, secret]⟩

def plainRule : HttpRouteRule Unit := ⟨none, .pathPrefix, .lit "/", none, [], [], [], [], false, 0⟩

def plainBackend : Backend :=
  ⟨⟨.v4 (.ofOctets 127 0 0 1), 80⟩, 1, [], false, .lit "b", .forward⟩

def clientIp : IpAddr := .v4 (.ofOctets 10 0 0 1)

/-- The nominated line is forwarded. -/
theorem nominated_line_forwarded : ∃ (info : HttpRequestInfo) (c : Cow) (sent : Bytes),
    accepted secretNominated.wire = some info ∧ normalizePath info.path = some c ∧
    buildOutgoingHeaders secretNominated.wire info.headLen plainRule plainBackend
      (requestMeta secretNominated.wire info c) clientIp false = sent ∧
    sent = bytes ("GET / HTTP/1.1\r\nHost: a\r\nX-Secret: 1\r\nX-Forwarded-For: 10.0.0.1\r\n" ++
      "X-Forwarded-Proto: http\r\n\r\n") ∧
    isNominated secretNominated secret.name = true ∧
    ¬HopByHopStripped secretNominated none none (forwardedLines clientIp false) sent := by
  have hsent : ((accepted secretNominated.wire).bind fun info =>
      (normalizePath info.path).map fun c => buildOutgoingHeaders secretNominated.wire info.headLen
        plainRule plainBackend (requestMeta secretNominated.wire info c) clientIp false) =
      some (bytes ("GET / HTTP/1.1\r\nHost: a\r\nX-Secret: 1\r\nX-Forwarded-For: 10.0.0.1\r\n" ++
        "X-Forwarded-Proto: http\r\n\r\n")) := by decide +kernel
  obtain ⟨info, hacc, hinfo⟩ := Option.bind_eq_some_iff.mp hsent
  obtain ⟨c, hc, hsent⟩ := Option.map_eq_some_iff.mp hinfo
  refine ⟨info, c, _, hacc, hc, rfl, hsent, by decide +kernel, ?_⟩
  rw [hsent]
  rintro ⟨keep, hkeep, hstripped⟩
  have hhost : keep hostA = true := hkeep hostA (by simp [secretNominated]) (by decide +kernel)
  have hconnection : keep nominating = false :=
    hkeep nominating (by simp [secretNominated]) (by decide +kernel)
  have hsecret : keep secret = false := hkeep secret (by simp [secretNominated]) (by decide +kernel)
  have hfields : secretNominated.fields.filter keep = [hostA] := by
    simp [secretNominated, hhost, hconnection, hsecret]
  rw [hfields] at hstripped
  revert hstripped
  decide +kernel

theorem hopByHop_stripped_iff_plain :
    ∃ (info : HttpRequestInfo) (c : Cow) (h : RequestHead) (a : Option Authority),
      accepted closeNamed = some info ∧ normalizePath info.path = some c ∧
      h.wire = closeNamed.take info.headLen ∧
      (HopByHopStripped h
          (if a.isSome then some ((requestMeta closeNamed info c).path h.wire)
            else (requestMeta closeNamed info c).normalizedPath)
          (a.map text) (forwardedLines clientIp false)
          (buildOutgoingHeaders closeNamed info.headLen plainRule plainBackend
            (requestMeta closeNamed info c) clientIp false) ↔
        ReadAlike h) := by
  have hsome : ((accepted closeNamed).bind fun info => normalizePath info.path).isSome = true := by
    decide +kernel
  obtain ⟨c, hc⟩ := Option.isSome_iff_exists.mp hsome
  obtain ⟨info, hacc, hc⟩ := Option.bind_eq_some_iff.mp hc
  obtain ⟨h, a, -, hwire, -, hiff⟩ := hopByHop_stripped_iff closeNamed (by decide) info hacc c hc
    plainRule plainBackend rfl rfl clientIp false
  exact ⟨info, c, h, a, hacc, hc, hwire, hiff⟩

end
end Portail.Proxy
