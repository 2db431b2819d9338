import Portail.Config.Build
import Portail.Proxy.HeaderEdits

/-!
# Response header modifiers of two levels

A rule and its backend each carry a response header modifier. `extract_response_mods` takes
the rule's and falls back to the backend's, and an accepted upgrade is sent as it came.
What the client gets is the head edited by both exactly when the skipped edits would leave
its lines as they are (`forwardedHead_layered_iff`).
-/

namespace Portail.Proxy

open Lib Http Routing Config
open List hiding set

section

variable {R : Type}

/-- The rule's modifier, or the backend's when the rule has none. -/
def extractResponseMods (rule : Routing.HttpRouteRule R) (backend : Backend) :
    Option HeaderModifications :=
  (extractHeaderMods true rule.filters).or (extractHeaderMods true backend.filters)

/-- The head `forward_response_headers` writes to the client. An accepted upgrade is forwarded
verbatim; a 101 that was not asked for is answered by an error instead. -/
def forwardedHead (raw : Bytes) (h : ResponseHead) (cuts : Option ResponseCuts)
    (clientClose expectUpgrade : Bool) (mods : Option HeaderModifications) : Option Bytes :=
  if h.status = 101 then if expectUpgrade then some raw else none
  else some (clientHead raw h cuts clientClose mods)

end

/-- The modifier of a list of filters, which holds one at most. -/
def responseModifier (filters : List HttpRouteFilter) : Option HeaderModifierConfig :=
  filters.findSome? fun
    | .responseHeaderModifier config => some config
    | _ => none

/-- The head as the modifiers find it. -/
def baseHead (raw : Bytes) (h : ResponseHead) (cuts : Option ResponseCuts) (clientClose : Bool) :
    Bytes :=
  if h.status = 101 then raw
  else sanitizeResponseHeaders raw (contentLengthOf h) cuts clientClose

/-- A head edited by the modifier of one level. -/
def modifiedHead (head : Bytes) (config : Option HeaderModifierConfig) : Bytes :=
  config.elim head fun config => applyResponseHeaderMods head (modsOf config)

/-- The modifiers there are, the rule's first. -/
def levels (rule backend : Option HeaderModifierConfig) : List HeaderModifications :=
  (rule.toList ++ backend.toList).map modsOf

/-- The lines of a head after its first. -/
def fieldLines (head : Bytes) : List Bytes := headerLines (splitFirstLine head).2

def modifiedLinesOf (config : Option HeaderModifierConfig) (lines : List Bytes) : List Bytes :=
  config.elim lines fun config => editedLines (modsOf config) lines

/-- A head of a first line and others. -/
def headOf (first : Bytes) (lines : List Bytes) : Bytes :=
  first ++ (crlf ++ (blockWire lines ++ crlf))

theorem filterMap_append_eq_self_iff {α : Type} {f : α → Option α}
    (hf : ∀ a b, f a = some b → f b ≠ none) (l last : List α) :
    l.filterMap f ++ last = l ↔
      ∃ kept, l = kept ++ last ∧ (∀ a ∈ kept, f a = some a) ∧ ∀ a ∈ last, f a = none := by
  constructor
  · intro h
    induction l with
    | nil =>
      rw [filterMap_nil, nil_append] at h
      exact ⟨[], h.symm, by simp, by simp [h]⟩
    | cons a l ih =>
      cases hfa : f a with
      | none =>
        -- a line that some other was edited to would not be dropped itself
        have hnone : (a :: l).filterMap f = [] := by
          cases hmapped : (a :: l).filterMap f with
          | nil => rfl
          | cons b rest =>
            rw [hmapped, cons_append, cons.injEq] at h
            obtain ⟨c, -, hc⟩ := mem_filterMap.mp (hmapped ▸ mem_cons_self)
            rw [h.1] at hc
            exact absurd hfa (hf c a hc)
        rw [hnone, nil_append] at h
        exact ⟨[], h.symm, by simp, fun b hb => filterMap_eq_nil_iff.mp hnone b (h ▸ hb)⟩
      | some b =>
        rw [filterMap_cons_some hfa, cons_append, cons.injEq] at h
        obtain ⟨kept, hl, hkept, hlast⟩ := ih h.2
        exact ⟨a :: kept, by rw [hl, cons_append],
          forall_mem_cons.mpr ⟨by rw [hfa, h.1], hkept⟩, hlast⟩
  · rintro ⟨kept, rfl, hkept, hlast⟩
    have hsame : kept.filterMap f = kept := by
      rw [filterMap_congr (g := some) hkept, filterMap_some]
    rw [filterMap_append, hsame, filterMap_eq_nil_iff.mpr hlast, append_nil]

/-- A line as modifiers in turn leave it. -/
def editBy (ms : List HeaderModifications) (line : Bytes) : Option Bytes :=
  ms.foldlM (fun line m => editLine m line) line

/-- What modifiers in turn write behind the lines, each editing what those before it wrote. -/
def appendedBy : List HeaderModifications → List Bytes → List Bytes
  | [], _ => []
  | m :: ms, lines =>
    ((unmet m lines ++ m.add).map entryLine).filterMap (editBy ms) ++
      appendedBy ms (editedLines m lines)

/-- Modifiers in turn leave lines as they are: what they write behind them stands at the end
already and is removed first, and each line before it comes back. -/
def Leave (ms : List HeaderModifications) (lines : List Bytes) : Prop :=
  ∃ kept, lines = kept ++ appendedBy ms lines ∧ (∀ line ∈ kept, editBy ms line = some line) ∧
    ∀ line ∈ appendedBy ms lines, editBy ms line = none

theorem editedLines_by (ms : List HeaderModifications) (lines : List Bytes) :
    ms.foldl (fun lines m => editedLines m lines) lines =
      lines.filterMap (editBy ms) ++ appendedBy ms lines := by
  induction ms generalizing lines with
  | nil =>
    rw [appendedBy, append_nil]
    exact filterMap_some.symm
  | cons m ms ih =>
    rw [foldl_cons, ih, appendedBy, ← append_assoc]
    congr 1
    conv_lhs => rw [editedLines]
    rw [filterMap_append, filterMap_filterMap]
    rfl

section

variable {m m' : HeaderModifications} {ms : List HeaderModifications} {line line' : Bytes}

theorem editLine_eq_none :
    editLine m line = none ↔ ∃ name ∈ lineName line, removes m name = true := by
  unfold editLine
  cases lineName line with
  | none => simp
  | some name =>
    dsimp only
    split_ifs with hremoves
    · simpa using hremoves
    · cases setEntry m name <;> simpa using hremoves

/-- An edited line is of the name it was of, so that the same modifiers remove it. -/
theorem editLine_eq_none_congr (hm : ModsOk m) (h : editLine m line = some line') :
    editLine m' line' = none ↔ editLine m' line = none := by
  unfold editLine at h
  split at h
  · cases h
    rfl
  · next name hname =>
    split_ifs at h
    split at h
    · next e hset =>
      cases h
      obtain ⟨l, -, hl, hline⟩ := (hm.set_ok e (mem_of_find?_eq_some hset)).entry
      have hsame : eqIgnoreAsciiCase e.name.octets name = true := by
        simpa using find?_some hset
      rw [editLine_eq_none, editLine_eq_none, hname, ← hline, lineName_line, hl]
      simp only [Option.mem_def, Option.some.injEq, exists_eq_left', removes]
      simp only [eqIgnoreAsciiCase_congr_right hsame]
    · cases h
      rfl

theorem editBy_eq_none (hms : ∀ m ∈ ms, ModsOk m) :
    editBy ms line = none ↔ ∃ m ∈ ms, editLine m line = none := by
  induction ms generalizing line with
  | nil => simp [editBy]
  | cons m ms ih =>
    rw [forall_mem_cons] at hms
    simp only [mem_cons, exists_eq_or_imp]
    cases hline : editLine m line with
    | none => simp [editBy, hline]
    | some line' =>
      have hnext : editBy (m :: ms) line = editBy ms line' := by simp [editBy, hline]
      rw [hnext, ih hms.2]
      simp only [editLine_eq_none_congr hms.1 hline, reduceCtorEq, false_or]

theorem editBy_congr (hms : ∀ m ∈ ms, ModsOk m) (h : editBy ms line = some line') :
    editLine m' line' = none ↔ editLine m' line = none := by
  induction ms generalizing line with
  | nil =>
    cases h
    rfl
  | cons m ms ih =>
    rw [forall_mem_cons] at hms
    obtain ⟨next, hnext, h⟩ := Option.bind_eq_some_iff.mp h
    exact (ih hms.2 h).trans (editLine_eq_none_congr hms.1 hnext)

theorem leave_iff (hms : ∀ m ∈ ms, ModsOk m) (lines : List Bytes) :
    ms.foldl (fun lines m => editedLines m lines) lines = lines ↔ Leave ms lines := by
  rw [editedLines_by]
  refine filterMap_append_eq_self_iff (fun line line' hline hnone => ?_) lines (appendedBy ms lines)
  obtain ⟨m, hm, hnone⟩ := (editBy_eq_none hms).mp hnone
  have hlost := (editBy_eq_none hms).mpr ⟨m, hm, (editBy_congr hms hline).mp hnone⟩
  rw [hline] at hlost
  cases hlost

end

theorem lf_not_mem_firstLine (head : Bytes) : lf ∉ (splitFirstLine head).1 := by
  have hstrip {line : Bytes} (h : lf ∉ line) : lf ∉ stripCr line := by
    unfold stripCr
    split_ifs
    · exact fun hmem => h (mem_of_mem_dropLast hmem)
    · exact h
  refine hstrip ?_
  obtain ⟨hnone, hlf⟩ | ⟨x, y, rfl, hx, hsome⟩ := memchr_cases lf head
  · have hlast : head.getLast? ≠ some lf := fun h => hlf (mem_of_getLast? h)
    simpa [hnone, hlast] using hlf
  · have htake : (x ++ lf :: y).take (x.length + 1) = x ++ [lf] := by
      rw [take_length_add_append]
      rfl
    simpa [hsome, htake] using hx

section

variable {first : Bytes} {lines : List Bytes}

theorem fieldLines_line (head : Bytes) : ∀ line ∈ fieldLines head, line ≠ [] ∧ lf ∉ line :=
  fun _ hline => mem_headerLines hline

theorem splitFirstLine_headOf (hfirst : lf ∉ first) :
    splitFirstLine (headOf first lines) = (first, blockWire lines ++ crlf) :=
  splitFirstLine_line hfirst _

theorem fieldLines_headOf (hfirst : lf ∉ first) (hlines : ∀ line ∈ lines, line ≠ [] ∧ lf ∉ line) :
    fieldLines (headOf first lines) = lines := by
  rw [fieldLines, splitFirstLine_headOf hfirst, headerLines_block hlines]

theorem applyResponseHeaderMods_eq (head : Bytes) (m : HeaderModifications) :
    applyResponseHeaderMods head m =
      headOf (splitFirstLine head).1 (editedLines m (fieldLines head)) := by
  simp only [applyResponseHeaderMods, applyHeaderModsInner_edited, headOf, fieldLines, append_assoc]

end

section

variable {rule backend : Option HeaderModifierConfig}
  (hrule : ∀ c ∈ rule, ModsOk (modsOf c)) (hbackend : ∀ c ∈ backend, ModsOk (modsOf c))

theorem modifiedHead_some (head : Bytes) (c : HeaderModifierConfig) :
    modifiedHead head (some c) =
      headOf (splitFirstLine head).1 (editedLines (modsOf c) (fieldLines head)) :=
  applyResponseHeaderMods_eq head (modsOf c)

theorem modifiedHead_firstLine (head : Bytes) (c : Option HeaderModifierConfig) :
    (splitFirstLine (modifiedHead head c)).1 = (splitFirstLine head).1 := by
  cases c with
  | none => rfl
  | some c => rw [modifiedHead_some, splitFirstLine_headOf (lf_not_mem_firstLine head)]

include hrule in
theorem fieldLines_modifiedHead (head : Bytes) :
    fieldLines (modifiedHead head rule) = modifiedLinesOf rule (fieldLines head) := by
  cases rule with
  | none => rfl
  | some c =>
    rw [modifiedHead_some, fieldLines_headOf (lf_not_mem_firstLine head)
      (editedLines_line (hrule c rfl) (fieldLines_line head))]
    rfl

include hrule hbackend in
/-- Both levels leave a head as it was when there is no modifier, or it is written line by line
and they leave its lines. -/
theorem modified_twice_eq_iff (head : Bytes) :
    modifiedHead (modifiedHead head rule) backend = head ↔
      (rule = none ∧ backend = none) ∨
        (headOf (splitFirstLine head).1 (fieldLines head) = head ∧
          Leave (levels rule backend) (fieldLines head)) := by
  have hlevels : modifiedLinesOf backend (modifiedLinesOf rule (fieldLines head)) =
      (levels rule backend).foldl (fun lines m => editedLines m lines) (fieldLines head) := by
    cases rule <;> cases backend <;> rfl
  have hok : ∀ m ∈ levels rule backend, ModsOk m := by
    intro m hm
    obtain ⟨c, hc, rfl⟩ := mem_map.mp hm
    rcases mem_append.mp hc with hc | hc
    · exact hrule c (Option.mem_toList.mp hc)
    · exact hbackend c (Option.mem_toList.mp hc)
  rw [← leave_iff hok, ← hlevels]
  have hlines : fieldLines (modifiedHead (modifiedHead head rule) backend) =
      modifiedLinesOf backend (modifiedLinesOf rule (fieldLines head)) := by
    rw [fieldLines_modifiedHead hbackend, fieldLines_modifiedHead hrule]
  have hwritten : (rule = none ∧ backend = none) ∨
      modifiedHead (modifiedHead head rule) backend = headOf (splitFirstLine head).1
        (modifiedLinesOf backend (modifiedLinesOf rule (fieldLines head))) := by
    cases backend with
    | none =>
      cases rule with
      | none => exact .inl ⟨rfl, rfl⟩
      | some r => exact .inr (modifiedHead_some head r)
    | some b =>
      right
      rw [modifiedHead_some, modifiedHead_firstLine, fieldLines_modifiedHead hrule]
      rfl
  constructor
  · intro hsame
    rcases hwritten with hnone | hwritten
    · exact .inl hnone
    · rw [hsame] at hlines hwritten
      exact .inr ⟨by rw [← hlines] at hwritten; exact hwritten.symm, hlines.symm⟩
  · rintro (⟨rfl, rfl⟩ | ⟨hhead, hlines⟩)
    · rfl
    · rcases hwritten with ⟨rfl, rfl⟩ | hwritten
      · rfl
      · rw [hwritten, hlines, hhead]

end

theorem findSome?_responseMods (filters : List HttpRouteFilter) :
    (filters.findSome? fun f => f.ready?.bind fun t => extractHeaderMods true [t]) =
      (responseModifier filters).map modsOf := by
  rw [responseModifier, map_findSome?]
  congr 1
  funext f
  cases f with
  | requestMirror backendRef percent fraction =>
    rw [ready?_mirror]
    rfl
  | requestHeaderModifier config | responseHeaderModifier config | requestRedirect config
  | urlRewrite config => rfl

variable {filters : List HttpRouteFilter} {found : List HttpFilter} {f : HttpRouteFilter}

theorem extractHeaderMods_ruleFilters {r : Resolver} {compiled : List CompiledFilter}
    (hcompile : List.Forall₂ (fun f c => compileFilter f = .ok c) filters compiled)
    (hfound : ruleFilters r compiled = .ok found) :
    extractHeaderMods true found = (responseModifier filters).map modsOf := by
  rw [extractHeaderMods_eq, findSome?_ruleFilters (fun _ _ => rfl) hcompile hfound,
    findSome?_responseMods]

theorem ready_backendFilter {t : HttpFilter}
    (h : compileBackendFilter f = .ok t) : f.ready? = some t := by
  unfold compileBackendFilter at h
  rw [seq_eq_ok, seq_eq_ok] at h
  obtain ⟨c, hc, hready⟩ := bind_eq_ok.mp h.2.2
  rw [HttpRouteFilter.ready?, hc]
  cases c with
  | ready filter =>
    cases hready
    rfl
  | mirror backend fraction => cases hready

theorem extractHeaderMods_backendFilters {b : BackendRef}
    (h : compileBackendFilters b = .ok found) :
    extractHeaderMods true found = (responseModifier b.filters).map modsOf := by
  rw [compileBackendFilters, seq_eq_ok, collect_eq_ok] at h
  obtain ⟨-, h⟩ := h
  rw [extractHeaderMods_eq, ← findSome?_responseMods]
  generalize b.filters = filters at h ⊢
  induction h with
  | nil => rfl
  | cons hf _ ih =>
    rw [findSome?_cons, findSome?_cons, ready_backendFilter hf, ih]
    rfl

theorem modsOk_responseModifier (hcheck : ∀ f ∈ filters, checkFilter f = .ok ()) :
    ∀ c ∈ responseModifier filters, ModsOk (modsOf c) := by
  intro c hc
  obtain ⟨f, hf, hsome⟩ := exists_of_findSome?_eq_some hc
  cases f with
  | responseHeaderModifier config =>
    cases hsome
    exact modsOk_of_modifierOk (checkHeaderModifier_eq_ok.mp (mapError_eq_ok.mp (hcheck _ hf)))
  | requestHeaderModifier _ | requestRedirect _ | urlRewrite _ | requestMirror _ _ _ => cases hsome

theorem checkFilter_of_compileBackendFilter {t : HttpFilter}
    (h : compileBackendFilter f = .ok t) : checkFilter f = .ok () := by
  unfold compileBackendFilter at h
  rw [seq_eq_ok, seq_eq_ok] at h
  exact mapError_eq_ok.mp h.2.1

section

variable {R : Type} [RegexEngine R]

/-- The head sent for a rule and a backend that compile is the one both their modifiers edit, in
turn, exactly when one of them has none or the backend's leaves the lines the rule's makes of the
backend's head; for an accepted upgrade, when there is none or the two leave the head. -/
theorem forwardedHead_layered_iff {source : Config.HttpRouteRule} {compiled : CompiledRule R}
    {r : Resolver} {rule : Routing.HttpRouteRule R} {ref : BackendRef} {backend : Backend}
    (hcompiled : compileRule source = .ok compiled)
    (hrule : ruleFilters r compiled.filters = .ok rule.filters)
    (hbackend : compileBackendFilters ref = .ok backend.filters)
    (raw : Bytes) (h : ResponseHead) (cuts : Option ResponseCuts) (clientClose expectUpgrade : Bool)
    {sent : Bytes} (hsent : forwardedHead raw h cuts clientClose expectUpgrade
      (extractResponseMods rule backend) = some sent) :
    sent = modifiedHead (modifiedHead (baseHead raw h cuts clientClose)
        (responseModifier source.filters)) (responseModifier ref.filters) ↔
      if h.status = 101 then
        (responseModifier source.filters = none ∧ responseModifier ref.filters = none) ∨
          (headOf (splitFirstLine raw).1 (fieldLines raw) = raw ∧
            Leave (levels (responseModifier source.filters) (responseModifier ref.filters))
              (fieldLines raw))
      else
        ∀ r ∈ responseModifier source.filters, ∀ b ∈ responseModifier ref.filters,
          Leave [modsOf b] (editedLines (modsOf r)
            (fieldLines (sanitizeResponseHeaders raw (contentLengthOf h) cuts clientClose))) := by
  obtain ⟨-, -, -, -, -, hfilters⟩ := compileRule_eq_ok.mp hcompiled
  have hrefs := (seq_eq_ok.mp hbackend).2
  rw [collect_eq_ok] at hrefs
  have hruleOk : ∀ c ∈ responseModifier source.filters, ModsOk (modsOf c) :=
    modsOk_responseModifier fun f hf => checkFilter_of_compileRule hcompiled hf
  have hbackendOk : ∀ c ∈ responseModifier ref.filters, ModsOk (modsOf c) :=
    modsOk_responseModifier fun f hf => by
      obtain ⟨t, -, ht⟩ := forall₂_exists_right hrefs hf
      exact checkFilter_of_compileBackendFilter ht
  have hmods : extractResponseMods rule backend =
      ((responseModifier source.filters).or (responseModifier ref.filters)).map modsOf := by
    rw [extractResponseMods, extractHeaderMods_ruleFilters hfilters hrule,
      extractHeaderMods_backendFilters hbackend, Option.map_or]
  rw [hmods] at hsent
  generalize responseModifier source.filters = ruleMod at *
  generalize responseModifier ref.filters = backendMod at *
  unfold forwardedHead at hsent
  by_cases hupgrade : h.status = 101
  · rw [if_pos hupgrade] at hsent ⊢
    split_ifs at hsent
    cases hsent
    rw [baseHead, if_pos hupgrade, eq_comm, modified_twice_eq_iff hruleOk hbackendOk]
  · rw [if_neg hupgrade] at hsent ⊢
    cases hsent
    rw [baseHead, if_neg hupgrade]
    cases ruleMod with
    | none => cases backendMod <;> simp [clientHead, modifiedHead]
    | some c =>
      have hhead : clientHead raw h cuts clientClose
          (((some c).or backendMod).map modsOf) =
          modifiedHead (sanitizeResponseHeaders raw (contentLengthOf h) cuts clientClose)
            (some c) := rfl
      rw [hhead]
      generalize sanitizeResponseHeaders raw (contentLengthOf h) cuts clientClose = base
      cases backendMod with
      | none => simp [modifiedHead]
      | some b =>
        have hwritten : headOf (splitFirstLine (modifiedHead base (some c))).1
            (fieldLines (modifiedHead base (some c))) = modifiedHead base (some c) := by
          rw [fieldLines_modifiedHead hruleOk, modifiedHead_firstLine, modifiedHead_some]
          rfl
        have hnone : ∀ x ∈ (none : Option HeaderModifierConfig), ModsOk (modsOf x) := by simp
        have htwice := modified_twice_eq_iff hnone hbackendOk (modifiedHead base (some c))
        rw [fieldLines_modifiedHead hruleOk] at hwritten htwice
        rw [eq_comm]
        refine htwice.trans ?_
        rw [hwritten]
        simp [levels, modifiedLinesOf]

def setOne (name : String) : HttpRouteFilter :=
  .responseHeaderModifier ⟨[], [⟨.lit name, .lit "1"⟩], []⟩

/-- A backend that sets `X-Backend`, and rules that forward to it. -/
def layeredRef : BackendRef :=
  ⟨.lit "svc", 80, 1, .lit "", .lit "Service", [setOne "X-Backend"], none, false⟩

def layeredRule (filters : List HttpRouteFilter) : Config.HttpRouteRule :=
  ⟨[], filters, [layeredRef]⟩

def layeredBackend : Backend :=
  ⟨⟨.v4 (.ofOctets 10 0 0 1), 80⟩, 1,
    [.responseHeaderModifier [] [⟨.lit "X-Backend", .lit "1"⟩] []], false, .lit "svc", .forward⟩

def layeredTable (filters : List HttpFilter) : Routing.HttpRouteRule Empty :=
  ⟨none, .pathPrefix, .lit "/", none, [], [], filters, [layeredBackend], true, 0⟩

/-- A reply without a body, and where its scan cuts it. -/
def okReply : Bytes := bytes "HTTP/1.1 200 OK\r\nContent-Length: 0\r\n\r\n"

def okHead : ResponseHead := ⟨200, .length 0, false⟩

def okCuts : ResponseCuts := ⟨.empty, some ((17, 36), (33, 34))⟩

/-- The rule sets `X-Rule`, so the backend's `X-Backend` is not written. -/
theorem backend_modifier_skipped :
    ∃ (compiled : CompiledRule Empty) (rule : Routing.HttpRouteRule Empty) (sent : Bytes),
      compileRule (layeredRule [setOne "X-Rule"]) = .ok compiled ∧
      ruleFilters (podResolver []) compiled.filters = .ok rule.filters ∧
      compileBackendFilters layeredRef = .ok layeredBackend.filters ∧
      scanResponseHead okReply = .head okReply.length okHead (some okCuts) ∧
      forwardedHead okReply okHead (some okCuts) false false
        (extractResponseMods rule layeredBackend) = some sent ∧
      sent = bytes "HTTP/1.1 200 OK\r\nContent-Length: 0\r\nX-Rule: 1\r\n\r\n" ∧
      sent ≠ modifiedHead (modifiedHead (baseHead okReply okHead (some okCuts) false)
        (responseModifier [setOne "X-Rule"])) (responseModifier layeredRef.filters) := by
  refine ⟨_, layeredTable [.responseHeaderModifier [] [⟨.lit "X-Rule", .lit "1"⟩] []], _, rfl, rfl,
    rfl, rfl, rfl, ?_, ?_⟩
  · decide +kernel
  · decide +kernel

/-- Without a modifier on the rule the backend's is written. -/
theorem forwardedHead_layered_backend :
    ∃ (compiled : CompiledRule Empty) (rule : Routing.HttpRouteRule Empty) (sent : Bytes),
      compileRule (layeredRule []) = .ok compiled ∧
      ruleFilters (podResolver []) compiled.filters = .ok rule.filters ∧
      compileBackendFilters layeredRef = .ok layeredBackend.filters ∧
      forwardedHead okReply okHead (some okCuts) false false
        (extractResponseMods rule layeredBackend) = some sent ∧
      sent = modifiedHead (modifiedHead (baseHead okReply okHead (some okCuts) false) none)
        (responseModifier layeredRef.filters) := by
  refine ⟨_, layeredTable [], _, rfl, rfl, rfl, rfl, ?_⟩
  have hfilters : ruleFilters (podResolver []) [] = .ok (layeredTable []).filters := rfl
  have hcompiled : compileRule (R := Empty) (layeredRule []) = .ok _ := rfl
  have hiff := forwardedHead_layered_iff hcompiled hfilters
    (show compileBackendFilters layeredRef = .ok layeredBackend.filters from rfl) okReply
    okHead (some okCuts) false false rfl
  exact hiff.mpr fun r hr => nomatch hr

end
end Portail.Proxy
