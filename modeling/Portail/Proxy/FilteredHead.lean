import Portail.Proxy.PrefixRewrite
import Portail.Proxy.ResponseMods

/-!
# The head after its filters

A rule's rewrite and modifier, then the backend's modifier, edit the assembled head. What
is sent is a head again: its framing fields are those assembled, its target has the
rewritten path, and its Host line is the one set last (`filteredHead_head`).
-/

namespace Portail.Proxy

open Lib Http Routing Config List

section

def noMods : HeaderModifications := ⟨[], [], []⟩

/-- The modifier of a pass that also rewrites the host. -/
def passMods (mods : Option HeaderModifications) (hostname : Option Str) : HeaderModifications :=
  let mods := mods.getD noMods
  { mods with set := (hostname.map (HttpHeader.mk (.lit "Host"))).toList ++ mods.set }

variable {mods : Option HeaderModifications} {host : Str}

/-- The locals of the pass with the host among the entries. -/
def ModState.withHost (st : ModState) : ModState :=
  { setApplied := st.hostMissing.isNone :: st.setApplied
    hostMissing := none
    out := st.out }

/-- A rewritten host is written as a first `set` entry for it would be. -/
theorem modifyLine_host (hremove : ∀ m ∈ mods, removes m (bytes "host") = false) (st : ModState)
    (line : Bytes) :
    modifyLine (some (passMods mods (some host))) none st.withHost line =
      (modifyLine mods (some host.octets) st line).withHost := by
  unfold modifyLine
  cases memchr colon line with
  | none => rfl
  | some colonPos =>
    dsimp only
    generalize line.take colonPos = name
    have hset : (passMods mods (some host)).set = ⟨.lit "Host", host⟩ :: (mods.getD noMods).set :=
      rfl
    have hremoved : (passMods mods (some host)).remove = (mods.getD noMods).remove := rfl
    have hhost : eqIgnoreAsciiCase (Str.lit "Host").octets (bytes "host") = true := by decide
    simp only [Option.filter_none, hset, hremoved, zipIdx_cons, find?_cons]
    cases hname : eqIgnoreAsciiCase name (bytes "host") with
    | true =>
      have hkept : ((mods.getD noMods).remove.any fun r => eqIgnoreAsciiCase r.octets name) =
          false := by
        cases mods with
        | none => rfl
        | some m => exact (removes_congr (eqIgnoreAsciiCase_symm hname)).trans (hremove m rfl)
      have hsame : eqIgnoreAsciiCase (Str.lit "Host").octets name = true :=
        eqIgnoreAsciiCase_trans hhost (eqIgnoreAsciiCase_symm hname)
      simp only [hkept, hsame, Option.filter_some, if_true, Bool.false_eq_true, if_false]
      rfl
    | false =>
      have hsame : eqIgnoreAsciiCase (Str.lit "Host").octets name = false := by
        rw [eqIgnoreAsciiCase_congr hhost, eqIgnoreAsciiCase_comm, hname]
      simp only [hsame, Option.filter_some, Bool.false_eq_true, if_false]
      cases mods with
      | none => rfl
      | some m =>
        simp only [Option.getD_some]
        split_ifs
        · rfl
        · rw [find?_zipIdx (fun h : HttpHeader => eqIgnoreAsciiCase h.name.octets name),
            find?_zipIdx (fun h : HttpHeader => eqIgnoreAsciiCase h.name.octets name)]
          cases m.set.find? fun h => eqIgnoreAsciiCase h.name.octets name with
          | none => rfl
          | some h =>
            cases m.set.findIdx? fun h => eqIgnoreAsciiCase h.name.octets name <;> rfl

/-- The host to write is written once or still missing. -/
theorem modifyLines_hostMissing (mods : Option HeaderModifications) (rewriteHostname : Option Bytes)
    (lines : List Bytes) (st : ModState)
    (hst : st.hostMissing = none ∨ st.hostMissing = rewriteHostname) :
    let last := lines.foldl (modifyLine mods rewriteHostname) st
    last.hostMissing = none ∨ last.hostMissing = rewriteHostname := by
  let Kept (st : ModState) : Prop := st.hostMissing = none ∨ st.hostMissing = rewriteHostname
  refine foldlRecOn (motive := Kept) lines _ hst fun st hst line _ => ?_
  unfold modifyLine
  dsimp only
  split
  · exact hst
  · split
    · exact .inl rfl
    · split
      · exact hst
      · split_ifs
        · exact hst
        · split <;> exact hst

theorem applyHeaderModsInner_getD (raw : Bytes) (mods : Option HeaderModifications)
    (rewriteHostname : Option Bytes) :
    applyHeaderModsInner raw mods rewriteHostname =
      let st := (headerLines raw).foldl (modifyLine mods rewriteHostname)
        ⟨List.replicate (mods.getD noMods).set.length false, rewriteHostname, []⟩
      st.out ++ (st.hostMissing.map putHost).getD [] ++
        ((unappliedSets (mods.getD noMods).set st.setApplied ++ (mods.getD noMods).add).flatMap
          fun h => putHeader h.name.octets h.value.octets) ++ crlf := by
  cases mods with
  | some m => rfl
  | none => rfl

theorem applyHeaderModsInner_pass (raw : Bytes) (mods : Option HeaderModifications)
    (hostname : Option Str)
    (hremove : hostname.isSome = true → ∀ m ∈ mods, removes m (bytes "host") = false) :
    applyHeaderModsInner raw mods (hostname.map Str.octets) =
      applyHeaderModsInner raw (some (passMods mods hostname)) none := by
  cases hostname with
  | none =>
    cases mods with
    | some m => rfl
    | none =>
      have hline : modifyLine none none = modifyLine (some (passMods none none)) none := by
        funext st line
        unfold modifyLine
        cases memchr colon line <;> rfl
      simp only [applyHeaderModsInner, Option.map_none, hline]
      rfl
  | some host =>
    rw [Option.map_some, applyHeaderModsInner_getD, applyHeaderModsInner_getD]
    have hstart : (⟨List.replicate (passMods mods (some host)).set.length false, none, []⟩ :
        ModState) = ModState.withHost
          ⟨List.replicate (mods.getD noMods).set.length false, some host.octets, []⟩ := rfl
    have hmissing := modifyLines_hostMissing mods (some host.octets) (headerLines raw)
      ⟨List.replicate (mods.getD noMods).set.length false, some host.octets, []⟩ (.inr rfl)
    rw [Option.getD_some, hstart, foldl_hom ModState.withHost (modifyLine_host (hremove rfl))]
    generalize (headerLines raw).foldl (modifyLine mods (some host.octets)) _ = st at hmissing ⊢
    obtain ⟨setApplied, hostMissing, out⟩ := st
    have hname : (Str.lit "Host").octets = bytes "Host" := rfl
    rcases hmissing with hmissing | hmissing
    all_goals
      obtain rfl := hmissing
      simp [ModState.withHost, unappliedSets, passMods, putHost, hname]

end

section

variable {m : HeaderModifications} {fs gs : List Field}

theorem lineName_field (f : Field) : lineName f.line = some f.name := by
  have hcolon : colon ∉ f.name := fun hmem => (tchar_spec colon (f.name_tchar colon hmem)).2.2.1 rfl
  rw [lineName, Field.line, memchr_append hcolon]
  simp

theorem fieldLine_injective : Function.Injective Field.line := by
  intro f g h
  have hname : f.name = g.name := by
    have := congrArg lineName h
    rwa [lineName_field, lineName_field, Option.some.injEq] at this
  have hvalue : f.value = g.value := by
    rw [Field.line, Field.line, hname] at h
    exact (cons.inj (append_cancel_left h)).2
  exact Field.ext hname hvalue

theorem isLineOf_field (f : Field) (lit : String) :
    isLineOf (bytes lit) f.line = f.isNamed lit := by
  rw [isLineOf, lineName_field f, Option.any_some, eqIgnoreAsciiCase_comm]
  rfl

theorem map_line_ofKind {k : FieldName} {lit : String}
    (hk : ∀ f : Field, f.kind = k ↔ f.isNamed lit = true) (fs : List Field) :
    (ofKind k fs).map Field.line = (fs.map Field.line).filter (isLineOf (bytes lit)) := by
  rw [filter_map, ofKind]
  congr 1
  refine filter_congr fun f _ => ?_
  rw [Function.comp_apply, isLineOf_field f, Bool.eq_iff_iff, decide_eq_true_iff]
  exact hk f

/-- A line of a head is what a field is written as. -/
theorem exists_field_of_entry {e : HttpHeader} (ok : HeaderOk e) :
    ∃ f : Field, f.line = entryLine e ∧ f.value = sp :: e.value.octets := by
  refine ⟨written e.name.octets e.value.octets ok.1 ok.2, ?_, rfl⟩
  have hsep : bytes ": " = [colon, sp] := by decide
  simp [Field.line, written, entryLine, hsep]

/-- A block of fields is one again after a modifier. -/
theorem exists_editedFields (hm : ModsOk m) (fs : List Field) :
    ∃ gs : List Field, editedLines m (fs.map Field.line) = gs.map Field.line := by
  have hentry {e : HttpHeader} (ok : HeaderOk e) : ∃ f : Field, f.line = entryLine e :=
    (exists_field_of_entry ok).imp fun _ => And.left
  have hall : ∀ line ∈ editedLines m (fs.map Field.line), ∃ f : Field, f.line = line := by
    intro line hline
    rcases mem_append.mp hline with hline | hline
    · obtain ⟨old, hold, hedit⟩ := mem_filterMap.mp hline
      obtain ⟨f, -, rfl⟩ := mem_map.mp hold
      rw [editLine, lineName_field f] at hedit
      dsimp only at hedit
      split_ifs at hedit
      cases hset : setEntry m f.name with rw [hset] at hedit
      | some e =>
        exact Option.some.inj hedit ▸ hentry (hm.set_ok e (mem_of_find?_eq_some hset))
      | none => exact ⟨f, Option.some.inj hedit⟩
    · obtain ⟨e, he, rfl⟩ := mem_map.mp hline
      rcases mem_append.mp he with he | he
      · exact hentry (hm.set_ok e (mem_of_mem_unmet he))
      · exact hentry (hm.add_ok e he)
  have hrange : editedLines m (fs.map Field.line) ∈ Set.range (List.map Field.line) := by
    rw [Set.range_list_map]
    exact hall
  obtain ⟨gs, hgs⟩ := hrange
  exact ⟨gs, hgs.symm⟩

theorem ofKind_untouched (hm : ModsOk m) {k : FieldName} {lit : String}
    (hk : ∀ f : Field, f.kind = k ↔ f.isNamed lit = true) (hno : Untouched m lit)
    (hgs : editedLines m (fs.map Field.line) = gs.map Field.line) : ofKind k gs = ofKind k fs := by
  have hremove : removes m (bytes lit) = false :=
    any_eq_false.mpr fun r hr => by simp [hno.remove_ne r hr]
  have hsets : setsOf m (bytes lit) = [] :=
    filter_eq_nil_iff.mpr fun e he => by simp [hno.set_ne e he]
  have hadds : (m.add.filter fun e => eqIgnoreAsciiCase e.name.octets (bytes lit)) = [] :=
    filter_eq_nil_iff.mpr fun e he => by simp [hno.add_ne e he]
  have hentry : setEntry m (bytes lit) = none :=
    find?_eq_none.mpr fun e he => by simp [hno.set_ne e he]
  refine map_injective_iff.mpr fieldLine_injective ?_
  rw [map_line_ofKind hk, map_line_ofKind hk, ← hgs, filter_editedLines hm, hremove, hsets, hadds,
    hentry]
  simp

/-- The Host lines after a modifier that leaves one at most: the one it sets, or as before. -/
theorem hostLines_edited (hm : ModsOk m)
    (hadd : ∀ e ∈ m.add, eqIgnoreAsciiCase e.name.octets (bytes "host") = false)
    (hremove : removes m (bytes "host") = false) (hone : (setsOf m (bytes "host")).length ≤ 1)
    {lines : List Bytes} (hlines : (lines.filter (isLineOf (bytes "host"))).length ≤ 1) :
    (editedLines m lines).filter (isLineOf (bytes "host")) =
      (setEntry m (bytes "host")).elim (lines.filter (isLineOf (bytes "host")))
        fun e => [entryLine e] := by
  have hadds : (m.add.filter fun e => eqIgnoreAsciiCase e.name.octets (bytes "host")) = [] :=
    filter_eq_nil_iff.mpr fun e he => by simp [hadd e he]
  have hentry : setEntry m (bytes "host") = (setsOf m (bytes "host")).head? := by
    rw [setEntry, setsOf, head?_filter]
  rw [filter_editedLines hm, hremove, hadds, hentry]
  have hany : lines.any (isLineOf (bytes "host")) =
      !(lines.filter (isLineOf (bytes "host"))).isEmpty := by
    rw [Bool.eq_iff_iff]
    simp [filter_eq_nil_iff]
  rw [hany]
  cases hsets : setsOf m (bytes "host") with
  | nil => simp
  | cons e rest =>
    obtain rfl : rest = [] := by simpa [hsets] using hone
    cases hfilter : lines.filter (isLineOf (bytes "host")) with
    | nil => simp
    | cons line others =>
      obtain rfl : others = [] := by simpa [hfilter] using hlines
      simp

end

/-- The fields that frame a request, and offer an upgrade. -/
def keptKinds : List (FieldName × String) :=
  [(.contentLength, "content-length"), (.transferEncoding, "transfer-encoding"),
    (.connection, "connection"), (.upgrade, "upgrade")]

theorem kind_iff_of_kept : ∀ x ∈ keptKinds, ∀ f : Field, f.kind = x.1 ↔ f.isNamed x.2 = true := by
  intro x hx f
  simp only [keptKinds, mem_cons, not_mem_nil, or_false] at hx
  rcases hx with rfl | rfl | rfl | rfl
  · exact f.kind_length_iff
  · exact f.kind_coding_iff
  · exact f.kind_connection_iff
  · exact fieldName_eq_iff (by decide) (by decide) (by decide)

/-- What the checks make sure of for the modifier of a request. -/
structure RequestMods (m : HeaderModifications) : Prop extends ModsOk m where
  untouched : ∀ x ∈ keptKinds, Untouched m x.2
  host_add : ∀ e ∈ m.add, eqIgnoreAsciiCase e.name.octets (bytes "host") = false
  host_remove : removes m (bytes "host") = false
  host_once : (setsOf m (bytes "host")).length ≤ 1

theorem requestMods_of_modifierOk {config : HeaderModifierConfig}
    (ok : ModifierOk .request config) :
    RequestMods (modsOf config) where
  toModsOk := modsOk_of_modifierOk ok
  untouched x hx := by
    have hlisted : ∀ x ∈ keptKinds, ∃ f ∈ framing .request,
        eqIgnoreAsciiCase (bytes f) (bytes x.2) = true := by decide
    exact untouched_of_modifierOk ok (hlisted x hx)
  host_add e he := by
    rw [Bool.eq_false_iff]
    intro hhost
    cases (ok.add_ok e he).name_ok.host_set rfl hhost
  host_remove := by
    rw [removes, any_eq_false]
    intro r hr hhost
    cases (ok.remove_ok r hr).host_set rfl hhost
  host_once := ok.one_host rfl

variable {mods : Option HeaderModifications} {hostname : Option Str} {h : RequestHead}

/-- The pass of a rule, which does not both rewrite and set the host. -/
theorem requestMods_pass (hmods : ∀ m ∈ mods, RequestMods m)
    (hhost : ∀ host ∈ hostname, ∀ b ∈ host.octets, isFieldValueByte b = true)
    (hone : hostname.isSome = true → ∀ m ∈ mods, setsOf m (bytes "host") = []) :
    RequestMods (passMods mods hostname) := by
  have hnone : RequestMods noMods := {
    set_ok := by simp [noMods]
    add_ok := by simp [noMods]
    untouched := fun x _ => ⟨by simp [noMods], by simp [noMods], by simp [noMods]⟩
    host_add := by simp [noMods]
    host_remove := rfl
    host_once := by simp [setsOf, noMods] }
  have hm : RequestMods (mods.getD noMods) := by
    cases mods with
    | none => exact hnone
    | some m => exact hmods m rfl
  cases hostname with
  | none => exact hm
  | some host =>
    have hsets : setsOf (mods.getD noMods) (bytes "host") = [] := by
      cases mods with
      | none => rfl
      | some m => exact hone rfl m rfl
    have hset : (passMods mods (some host)).set = ⟨.lit "Host", host⟩ :: (mods.getD noMods).set :=
      rfl
    exact {
      set_ok := by
        rw [hset, forall_mem_cons]
        have htoken : isToken (Str.lit "Host").octets = true := by decide
        exact ⟨⟨htoken, hhost host rfl⟩, hm.set_ok⟩
      add_ok := hm.add_ok
      untouched := fun x hx => {
        set_ne := by
          rw [hset, forall_mem_cons]
          have hother : ∀ x ∈ keptKinds,
              eqIgnoreAsciiCase (Str.lit "Host").octets (bytes x.2) = false := by decide
          exact ⟨hother x hx, (hm.untouched x hx).set_ne⟩
        add_ne := (hm.untouched x hx).add_ne
        remove_ne := (hm.untouched x hx).remove_ne }
      host_add := hm.host_add
      host_remove := hm.host_remove
      host_once := by
        rw [setsOf, hset, filter_cons]
        rw [setsOf] at hsets
        rw [hsets]
        split_ifs <;> simp }

section

variable {m : HeaderModifications} {fs : List Field}

/-- A head's text read as a first line and lines behind it. -/
theorem fieldLines_wire {h : RequestHead} (hlf : lf ∉ h.firstLine) :
    fieldLines h.wire = h.fields.map Field.line ∧ (splitFirstLine h.wire).1 = h.firstLine := by
  have hwire : h.wire = headOf h.firstLine (h.fields.map Field.line) := by
    rw [wire_eq_line, headOf, blockWire_fields]
  rw [hwire, splitFirstLine_headOf hlf]
  exact ⟨fieldLines_headOf hlf (forall_mem_map.mpr fun f _ => ⟨f.line_ne, f.lf_not_mem_line⟩), rfl⟩

theorem applyHeaderModsInner_fields (hm : RequestMods m) (honce : (ofKind .host fs).length ≤ 1) :
    ∃ gs, applyHeaderModsInner (fieldsWire fs ++ crlf) (some m) none = fieldsWire gs ++ crlf ∧
      (∀ x ∈ keptKinds, ofKind x.1 gs = ofKind x.1 fs) ∧
      (ofKind .host gs).map Field.line = (setEntry m (bytes "host")).elim
        ((ofKind .host fs).map Field.line) fun e => [entryLine e] := by
  obtain ⟨gs, hgs⟩ := exists_editedFields hm.toModsOk fs
  refine ⟨gs, ?_, fun x hx => ?_, ?_⟩
  · rw [applyHeaderModsInner_edited, headerLines_fields, hgs, blockWire_fields]
  · exact ofKind_untouched hm.toModsOk (kind_iff_of_kept x hx) (hm.untouched x hx) hgs
  · have hlines : ((fs.map Field.line).filter (isLineOf (bytes "host"))).length ≤ 1 := by
      rw [← map_line_ofKind Field.kind_host_iff, length_map]
      exact honce
    rw [map_line_ofKind Field.kind_host_iff, ← hgs, map_line_ofKind Field.kind_host_iff]
    exact hostLines_edited hm.toModsOk hm.host_add hm.host_remove hm.host_once hlines

/-- A head with the parts of its request line in order. -/
structure LineOk (h : RequestHead) : Prop where
  method_token : isToken h.method = true
  method_ne : h.method ≠ bytes "CONNECT"
  target_text : IsTargetText h.target
  target_utf8 : isUtf8 h.target = true
  target_form : TargetForm h.method h.target none h.target (some 0)

/-- `h'` is `h` with another target and edited fields, none of which frames it. -/
structure Edits (h h' : RequestHead) : Prop where
  method : h'.method = h.method
  version : h'.http10 = h.http10
  kept : ∀ x ∈ keptKinds, ofKind x.1 h'.fields = ofKind x.1 h.fields

theorem Edits.trans {h₁ h₂ h₃ : RequestHead} (e₁ : Edits h₁ h₂) (e₂ : Edits h₂ h₃) :
    Edits h₁ h₃ where
  method := e₂.method.trans e₁.method
  version := e₂.version.trans e₁.version
  kept x hx := (e₂.kept x hx).trans (e₁.kept x hx)

def hostLines (h : RequestHead) : List Bytes := (ofKind .host h.fields).map Field.line

theorem applyRequestHeaderModifications_head
    (hlf : lf ∉ h.firstLine) (honce : (hostLines h).length ≤ 1) {urlRewrite : Option URLRewrite}
    (hhostname : urlRewrite.bind URLRewrite.hostname = hostname.map Str.octets)
    (hremove : ∀ m ∈ mods, removes m (bytes "host") = false)
    (hm : RequestMods (passMods mods hostname)) {target : Bytes}
    (hput : (urlRewrite.bind URLRewrite.path).elim h.firstLine
      (fun path => putRequestLine h.firstLine path.path path.query) =
        requestLine h.method target h.http10) :
    ∃ h' : RequestHead, applyRequestHeaderModifications h.wire mods urlRewrite = h'.wire ∧
      Edits h h' ∧ h'.target = target ∧
      hostLines h' = (setEntry (passMods mods hostname) (bytes "host")).elim (hostLines h)
        fun e => [entryLine e] := by
  rw [hostLines, length_map] at honce
  obtain ⟨gs, hwire, hkept, hhost⟩ := applyHeaderModsInner_fields hm honce
  refine ⟨⟨h.method, target, h.http10, gs⟩, ?_, ⟨rfl, rfl, hkept⟩, rfl, hhost⟩
  rw [applyRequestHeaderModifications, rewriteRequestHead, wire_eq_line, splitFirstLine_line hlf,
    wire_eq_line]
  dsimp only
  rw [hhostname, applyHeaderModsInner_pass _ _ _ fun _ => hremove, hwire, append_assoc]
  refine Eq.trans ?_ (congrArg (· ++ _) hput)
  cases urlRewrite.bind URLRewrite.path with
  | none => rfl
  | some path => rfl

end

section

variable {path query target requestPath : Bytes}

theorem Targets.isUtf8 (h : Targets path query target) (hpath : isUtf8 path = true)
    (hquery : isUtf8 query = true) : isUtf8 target = true := by
  rcases h with rfl | ⟨-, rfl⟩
  · exact (isUtf8_cut (by decide)).mpr ⟨hpath, hquery⟩
  · exact hpath

theorem isUtf8_joinedQuery {valueQuery : Option Bytes}
    (hvalue : ∀ v ∈ valueQuery, isUtf8 v = true) (hquery : isUtf8 query = true) :
    isUtf8 (joinedQuery valueQuery query) = true := by
  have hvalue' : isUtf8 (valueQuery.getD []) = true := by
    cases valueQuery with
    | none => rfl
    | some v => exact hvalue v rfl
  unfold joinedQuery
  dsimp only
  split_ifs
  · exact isUtf8_append hvalue' hquery
  · exact isUtf8_append (isUtf8_append hvalue' (isUtf8_bytes "&")) hquery

theorem isUtf8_joinPrefixPath {valuePath suffix : Bytes} (hvalue : isUtf8 valuePath = true)
    (hsuffix : isUtf8 suffix = true) : isUtf8 (joinPrefixPath valuePath suffix) = true := by
  have hslash : slash < 0x80 := by decide
  have hdrop : isUtf8 (dropSlash valuePath) = true := by
    by_cases hlast : valuePath.getLast? = some slash
    · rw [← dropSlash_append hlast] at hvalue
      exact ((isUtf8_cut hslash).mp hvalue).1
    · rwa [dropSlash, if_neg hlast]
  rw [joinPrefixPath_eq]
  split_ifs
  · decide
  · exact hvalue
  · exact isUtf8_append hdrop hsuffix
  · exact (isUtf8_cut hslash).mpr ⟨hdrop, hsuffix⟩

theorem isUtf8_prefixRemainder (rulePath : Str)
    (h : isUtf8 requestPath = true) :
    isUtf8 (prefixRemainder rulePath.octets requestPath) = true := by
  unfold prefixRemainder
  split_ifs with hbegins
  · obtain ⟨rest, rfl⟩ := isPrefixOf_iff_prefix.mp hbegins
    rw [drop_left]
    exact (isUtf8_append_iff rulePath.utf8 rest).mp h
  · rfl

/-- The path a checked value gives is one a target may open with. -/
theorem rewrittenPath_ok {filter : String} {value : HttpURLRewritePath}
    (hvalue : checkRewritePath filter value = .ok ()) (rulePath : Str)
    (hutf8 : isUtf8 requestPath = true) :
    let path := (rewrittenPath rulePath.octets requestPath value.toTable).path
    path.head? = some slash ∧ isUtf8 path = true := by
  cases value with
  | replaceFullPath text =>
    exact ⟨head_pathValue (checkPath_eq_ok.mp (mapError_eq_ok.mp hvalue)).1,
      (PathValue.ofStr text).path.utf8⟩
  | replacePrefixMatch text =>
    exact ⟨head_joinPrefixPath (head_of_checkRewritePath hvalue) _,
      isUtf8_joinPrefixPath (PathValue.ofStr text).path.utf8
        (isUtf8_prefixRemainder rulePath hutf8)⟩

end

section

variable {R : Type}

/-- Whether a rule has filters is known from it and its backends. -/
theorem buildOutgoingHeaders_filtered {rule : Routing.HttpRouteRule R} {backend : Backend}
    (hbackend : backend ∈ rule.backends) (buf : Bytes) (reqHeaderEnd : ℕ) (m : RequestMeta)
    (peerIp : IpAddr) (isTls : Bool) :
    buildOutgoingHeaders buf reqHeaderEnd (ListenerScope.withFilters rule) backend m peerIp isTls =
      filteredHead (assembleOutgoing (buf.take reqHeaderEnd) m (forwardedLines peerIp isTls))
        (extractHeaderMods false rule.filters)
        (extractUrlRewrite rule.path.octets (m.path (buf.take reqHeaderEnd)) rule.filters)
        (extractHeaderMods false backend.filters) := by
  cases hfilters : (ListenerScope.withFilters rule).hasFilters with
  | true =>
    rw [buildOutgoingHeaders, if_pos hfilters]
    rfl
  | false =>
    simp only [ListenerScope.withFilters, Bool.or_eq_false_iff, Bool.not_eq_false',
      List.isEmpty_iff, List.any_eq_false, Bool.not_eq_true', Bool.not_eq_false] at hfilters
    obtain ⟨hrule, hbackends⟩ := hfilters
    have hnone : backend.filters = [] := hbackends backend hbackend
    rw [buildOutgoingHeaders_eq_assemble (by exact hrule) hnone, hrule, hnone]
    rfl

variable {ruleMods backendMods : Option HeaderModifications} {urlRewrite : Option URLRewrite}
  {hostname : Option Str}

/-- The target with its path rewritten. -/
def rewrittenTarget (urlRewrite : Option URLRewrite) (pre q : Bytes) : Bytes :=
  (urlRewrite.bind URLRewrite.path).elim (pre ++ q) fun path => path.path ++ joinQuery path.query q

/-- The entry that sets the Host line: the backend's, or that of the rule's pass. -/
def finalHost (ruleMods : Option HeaderModifications) (hostname : Option Str)
    (backendMods : Option HeaderModifications) : Option HttpHeader :=
  (backendMods.bind (setEntry · (bytes "host"))).or
    (setEntry (passMods ruleMods hostname) (bytes "host"))

theorem filteredHead_head (hline : LineOk h) (honce : (hostLines h).length ≤ 1) {pre q : Bytes}
    (htarget : h.target = pre ++ q) (hpre : question ∉ pre) (hq : q = [] ∨ ∃ r, q = question :: r)
    (hhostname : urlRewrite.bind URLRewrite.hostname = hostname.map Str.octets)
    (hrule : ∀ m ∈ ruleMods, RequestMods m) (hpass : RequestMods (passMods ruleMods hostname))
    (hbackend : ∀ m ∈ backendMods, RequestMods m)
    (hnew : IsTargetText (rewrittenTarget urlRewrite pre q)) :
    ∃ h' : RequestHead, filteredHead h.wire ruleMods urlRewrite backendMods = h'.wire ∧
      Edits h h' ∧ h'.target = rewrittenTarget urlRewrite pre q ∧
      hostLines h' = (finalHost ruleMods hostname backendMods).elim (hostLines h)
        fun e => [entryLine e] := by
  have hput : (urlRewrite.bind URLRewrite.path).elim h.firstLine
      (fun path => putRequestLine h.firstLine path.path path.query) =
        requestLine h.method (rewrittenTarget urlRewrite pre q) h.http10 := by
    unfold rewrittenTarget
    rw [RequestHead.firstLine, htarget]
    cases urlRewrite.bind URLRewrite.path with
    | none => rfl
    | some path =>
      have hmethod : sp ∉ h.method := fun hb =>
        (tchar_spec sp ((isToken_iff.mp hline.method_token).2 sp hb)).2.2.2.1 rfl
      exact putRequestLine_eq hmethod (htarget ▸ sp_not_mem_target hline.target_text) hpre hq
        _ _ _
  unfold filteredHead
  split_ifs with hany
  · have hlf := (requestLine_plain hline.method_token hline.target_text.plain h.http10).2
    obtain ⟨h₁, hwire₁, hedits₁, htarget₁, hhost₁⟩ := applyRequestHeaderModifications_head hlf
      honce hhostname (fun m hm => (hrule m hm).host_remove) hpass hput
    cases backendMods with
    | none => exact ⟨h₁, hwire₁, hedits₁, htarget₁, hhost₁⟩
    | some m =>
      have hm := hbackend m rfl
      have hlf₁ : lf ∉ requestLine h₁.method h₁.target h₁.http10 := by
        rw [hedits₁.method, htarget₁]
        exact (requestLine_plain hline.method_token hnew.plain h₁.http10).2
      have honce₁ : (hostLines h₁).length ≤ 1 := by
        rw [hhost₁]
        cases setEntry (passMods ruleMods hostname) (bytes "host") with
        | none => exact honce
        | some e => exact le_rfl
      have hpass₂ : RequestMods (passMods (some m) none) := hm
      have hnone : (none : Option URLRewrite).bind URLRewrite.hostname =
          (none : Option Str).map Str.octets := rfl
      obtain ⟨h₂, hwire₂, hedits₂, htarget₂, hhost₂⟩ :=
        applyRequestHeaderModifications_head hlf₁ honce₁ hnone
          (fun _ h => Option.some.inj h ▸ hm.host_remove) hpass₂ rfl
      refine ⟨h₂, ?_, hedits₁.trans hedits₂, htarget₂.trans htarget₁, ?_⟩
      · rw [← hwire₂, ← hwire₁]
      · rw [hhost₂, hhost₁]
        have hself : passMods (some m) none = m := rfl
        rw [hself, finalHost, Option.bind_some]
        cases setEntry m (bytes "host") <;> rfl
  · simp only [not_or, Bool.not_eq_true, Option.isSome_eq_false_iff,
      Option.isNone_iff_eq_none] at hany
    obtain ⟨rfl, rfl, rfl⟩ := hany
    obtain rfl : hostname = none := by simpa using hhostname.symm
    exact ⟨h, rfl, ⟨rfl, rfl, fun _ _ => rfl⟩, htarget, rfl⟩

end
end Portail.Proxy
