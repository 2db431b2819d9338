import Portail.Http.ResponseLines
import Portail.Proxy.HeaderMods

/-!
# Header modifiers on lines

`apply_header_mods_inner` turns a block of header lines into another
(`applyHeaderModsInner_edited`), and leaves the lines of a name that no entry names as they
were, in number and in order (`modifiedLines_untouched`).
-/

namespace Portail.Proxy

open Lib Http Routing HeadLine List

/-- The line written for a name and a value, where both may stand in a head. -/
def lineOf (name value : Bytes) : Option HeadLine :=
  if h : isToken name = true ∧ ∀ b ∈ value, isFieldValueByte b = true then
    some
      { name
        value := sp :: value
        name_token := h.1
        value_line := by
          intro b hb
          rcases mem_cons.mp hb with rfl | hb
          · decide
          · exact isLineByte_of_value b (h.2 b hb) }
  else none

def headerLine (h : HttpHeader) : Option HeadLine := lineOf h.name.octets h.value.octets

def hostLineOf (host : Bytes) : Option HeadLine := lineOf (bytes "Host") host

/-- What the configuration check makes sure of for an entry. -/
def HeaderOk (h : HttpHeader) : Prop :=
  isToken h.name.octets = true ∧ ∀ b ∈ h.value.octets, isFieldValueByte b = true

structure ModsOk (m : HeaderModifications) : Prop where
  set_ok : ∀ h ∈ m.set, HeaderOk h
  add_ok : ∀ h ∈ m.add, HeaderOk h

variable {h : HttpHeader}

section

def setEntry (m : HeaderModifications) (name : Bytes) : Option HttpHeader :=
  m.set.find? fun h => eqIgnoreAsciiCase h.name.octets name

def removes (m : HeaderModifications) (name : Bytes) : Bool :=
  m.remove.any fun r => eqIgnoreAsciiCase r.octets name

theorem find?_zipIdx {α : Type*} (p : α → Bool) (xs : List α) (n : ℕ) :
    (xs.zipIdx n).find? (fun x => p x.1) =
      (xs.find? p).bind fun x => (xs.findIdx? p).map fun i => (x, i + n) := by
  induction xs generalizing n with
  | nil => rfl
  | cons x xs ih =>
    rw [zipIdx_cons, find?_cons, find?_cons, findIdx?_cons]
    cases hx : p x with
    | true => simp
    | false =>
      simp only [ih, Bool.false_eq_true, if_false, Option.map_map]
      congr 1
      funext y
      congr 1
      funext i
      simp only [Function.comp_apply, Prod.mk.injEq, true_and]
      omega

theorem set_true_eq (a : List Bool) (i : ℕ) : a.set i true = a.mapIdx fun j b => b || (i == j) := by
  refine ext_getElem? fun j => ?_
  rw [getElem?_set, getElem?_mapIdx]
  by_cases hij : i = j
  · subst hij
    by_cases hlt : i < a.length <;> simp [hlt]
  · cases a[j]? <;> simp [hij]

theorem mapIdx_self {α : Type*} {f : ℕ → α → α} (h : ∀ i x, f i x = x) (a : List α) :
    a.mapIdx f = a := by
  refine ext_getElem? fun i => ?_
  rw [getElem?_mapIdx]
  cases a[i]? <;> simp [h]

theorem unappliedSets_eq (set : List HttpHeader) (raised : ℕ → Bool) :
    unappliedSets set ((List.replicate set.length false).mapIdx fun i applied =>
      applied || raised i) =
        set.zipIdx.filterMap fun x => if raised x.2 then none else some x.1 := by
  have hzip : set.zip ((List.replicate set.length false).mapIdx fun i applied =>
      applied || raised i) = set.zipIdx.map fun x => (x.1, raised x.2) := by
    refine ext_getElem (by simp) fun i _ _ => ?_
    simp
  rw [unappliedSets, hzip, filterMap_map]
  rfl

/-- The name of a line; one without a colon has none. -/
def lineName (line : Bytes) : Option Bytes := (memchr colon line).map line.take

/-- The line is of the name, ignoring case. -/
def isLineOf (name line : Bytes) : Bool := (lineName line).any (eqIgnoreAsciiCase name)

def entryLine (h : HttpHeader) : Bytes := h.name.octets ++ bytes ": " ++ h.value.octets

variable (m : HeaderModifications)

def editLine (line : Bytes) : Option Bytes :=
  match lineName line with
  | none => some line
  | some name =>
    if removes m name then none
    else
      match setEntry m name with
      | some h => some (entryLine h)
      | none => some line

/-- The line meets the `set` entry at index `i`. -/
def meets (i : ℕ) (line : Bytes) : Bool :=
  (lineName line).any fun name => !removes m name &&
    m.set.findIdx? (fun h => eqIgnoreAsciiCase h.name.octets name) == some i

/-- The `set` entries that no line meets. -/
def unmet (lines : List Bytes) : List HttpHeader :=
  m.set.zipIdx.filterMap fun x => if lines.any (meets m x.2) then none else some x.1

/-- The lines after the pass. -/
def editedLines (lines : List Bytes) : List Bytes :=
  lines.filterMap (editLine m) ++ (unmet m lines ++ m.add).map entryLine

theorem blockWire_append (xs ys : List Bytes) :
    blockWire (xs ++ ys) = blockWire xs ++ blockWire ys := flatMap_append

theorem putHeader_eq (h : HttpHeader) :
    putHeader h.name.octets h.value.octets = entryLine h ++ crlf := rfl

theorem modifyLine_edit (st : ModState) (line : Bytes) :
    modifyLine (some m) none st line =
      { setApplied := st.setApplied.mapIdx fun i applied => applied || meets m i line
        hostMissing := st.hostMissing
        out := st.out ++ blockWire (editLine m line).toList } := by
  have hsame (hno : ∀ i, meets m i line = false) :
      (st.setApplied.mapIdx fun i applied => applied || meets m i line) = st.setApplied :=
    mapIdx_self (fun i x => by simp [hno i]) _
  unfold modifyLine
  cases hcolon : memchr colon line with
  | none =>
    have hname : lineName line = none := by simp [lineName, hcolon]
    rw [hsame fun i => by simp [meets, hname]]
    simp [editLine, hname, blockWire]
  | some p =>
    have hname : lineName line = some (line.take p) := by simp [lineName, hcolon]
    simp only [Option.filter_none, ← removes.eq_1]
    cases hremove : removes m (line.take p) with
    | true =>
      rw [hsame fun i => by simp [meets, hname, hremove]]
      simp [editLine, hname, hremove, blockWire]
    | false =>
      have hfind := find?_zipIdx
        (fun h : HttpHeader => eqIgnoreAsciiCase h.name.octets (line.take p)) m.set 0
      cases hset : setEntry m (line.take p) with
      | none =>
        have hidx : m.set.findIdx? (fun h => eqIgnoreAsciiCase h.name.octets (line.take p)) =
            none := by
          rw [findIdx?_eq_none_iff]
          simpa [setEntry] using hset
        rw [hsame fun i => by simp [meets, hname, hidx]]
        simp only [editLine, hname, hremove, hset, blockWire]
        rw [setEntry] at hset
        simp [hfind, hset]
      | some h =>
        simp only [editLine, hname, hremove, hset, blockWire]
        rw [setEntry] at hset
        obtain ⟨i, hi⟩ : ∃ i, m.set.findIdx?
            (fun h => eqIgnoreAsciiCase h.name.octets (line.take p)) = some i := by
          have hnamed : eqIgnoreAsciiCase h.name.octets (line.take p) = true := by
            simpa using find?_some hset
          rw [← Option.isSome_iff_exists, findIdx?_isSome, any_eq_true]
          exact ⟨h, mem_of_find?_eq_some hset, hnamed⟩
        have hmark : (fun (j : ℕ) (applied : Bool) => applied || meets m j line) =
            fun j b => b || (i == j) := by
          funext j b
          simp [meets, hname, hremove, hi]
        rw [hmark, ← set_true_eq]
        simp [hfind, hset, hi, putHeader_eq]

theorem modifyLine_edits (lines : List Bytes) (st : ModState) :
    lines.foldl (modifyLine (some m) none) st =
      { setApplied := st.setApplied.mapIdx fun i applied => applied || lines.any (meets m i)
        hostMissing := st.hostMissing
        out := st.out ++ blockWire (lines.filterMap (editLine m)) } := by
  induction lines generalizing st with
  | nil =>
    rw [mapIdx_self fun i b => by simp]
    simp [blockWire]
  | cons line lines ih =>
    rw [foldl_cons, modifyLine_edit, ih]
    congr 1
    · refine ext_getElem? fun i => ?_
      simp only [getElem?_mapIdx, Option.map_map]
      congr 1
      funext b
      simp [Bool.or_assoc]
    · rw [append_assoc, ← blockWire_append]
      congr 2
      cases hedit : editLine m line <;> simp [hedit]

theorem applyHeaderModsInner_edited (raw : Bytes) :
    applyHeaderModsInner raw (some m) none =
      blockWire (editedLines m (headerLines raw)) ++ crlf := by
  have hflags : unappliedSets m.set ((List.replicate m.set.length false).mapIdx fun i applied =>
      applied || (headerLines raw).any (meets m i)) = unmet m (headerLines raw) :=
    unappliedSets_eq m.set fun i => (headerLines raw).any (meets m i)
  simp only [applyHeaderModsInner, modifyLine_edits, hflags, editedLines, blockWire_append]
  simp [blockWire, flatMap_map, putHeader_eq]

theorem lineName_line (l : HeadLine) : lineName l.line = some l.name := by
  rw [lineName, l.memchr_colon, Option.map_some, l.take_name]

theorem HeaderOk.entry (ok : HeaderOk h) :
    ∃ l, headerLine h = some l ∧ l.name = h.name.octets ∧ l.line = entryLine h := by
  have hsep : bytes ": " = [colon, sp] := by decide
  refine ⟨_, dif_pos ok, rfl, ?_⟩
  simp [line, entryLine, hsep]

end

section

variable (mods : Option HeaderModifications) (rewriteHostname : Option Bytes)

def modifyOf (l : HeadLine) : Option HeadLine :=
  match rewriteHostname.filter fun _ => l.isHost with
  | some newHost => hostLineOf newHost
  | none =>
    match mods with
    | none => some l
    | some m =>
      if removes m l.name then none
      else
        match setEntry m l.name with
        | some h => headerLine h
        | none => some l

/-- The line meets the `set` entry at index `i`. -/
def hits (m : HeaderModifications) (i : ℕ) (l : HeadLine) : Bool :=
  (rewriteHostname.filter fun _ => l.isHost).isNone && !removes m l.name &&
    m.set.findIdx? (fun h => eqIgnoreAsciiCase h.name.octets l.name) == some i

/-- The `set` entries that no line meets. -/
def unapplied (m : HeaderModifications) (ls : List HeadLine) : List HttpHeader :=
  m.set.zipIdx.filterMap fun x => if ls.any (hits rewriteHostname m x.2) then none else some x.1

/-- The lines after the pass. -/
def modifiedLines (ls : List HeadLine) : List HeadLine :=
  ls.filterMap (modifyOf mods rewriteHostname) ++
    (if ls.any isHost then none else rewriteHostname.bind hostLineOf).toList ++
    match mods with
    | some m => (unapplied rewriteHostname m ls ++ m.add).filterMap headerLine
    | none => []

variable {mods rewriteHostname}

variable {m : HeaderModifications} {l : HeadLine} {names : List String} {ls : List HeadLine}

theorem mem_of_mem_unapplied (hh : h ∈ unapplied rewriteHostname m ls) : h ∈ m.set := by
  obtain ⟨x, hmem, hif⟩ := mem_filterMap.mp hh
  split_ifs at hif
  cases hif
  exact fst_mem_of_mem_zipIdx hmem

theorem editLine_line (hm : ModsOk m) (l : HeadLine) :
    editLine m l.line = (modifyOf (some m) none l).map line := by
  simp only [editLine, lineName_line, modifyOf, Option.filter_none]
  split_ifs
  · rfl
  · cases hset : setEntry m l.name with
    | none => rfl
    | some h =>
      obtain ⟨line, hline, -, hentry⟩ := (hm.set_ok h (mem_of_find?_eq_some hset)).entry
      simp [hline, hentry]

theorem editedLines_lines (hm : ModsOk m) (ls : List HeadLine) :
    editedLines m (ls.map line) = (modifiedLines (some m) none ls).map line := by
  have hunmet : unmet m (ls.map line) = unapplied none m ls := by
    simp only [unmet, unapplied, any_map]
    congr 1
    funext x
    congr 3
    funext l
    simp [meets, hits, lineName_line]
  have hedits : (ls.map line).filterMap (editLine m) =
      (ls.filterMap (modifyOf (some m) none)).map line := by
    rw [filterMap_map, map_filterMap]
    exact filterMap_congr fun l _ => editLine_line hm l
  have hentries : (unapplied none m ls ++ m.add).map entryLine =
      ((unapplied none m ls ++ m.add).filterMap headerLine).map line := by
    rw [map_filterMap, ← filterMap_eq_map]
    refine filterMap_congr fun h hh => ?_
    have hok : HeaderOk h := by
      rcases mem_append.mp hh with hh | hh
      · exact hm.set_ok h (mem_of_mem_unapplied hh)
      · exact hm.add_ok h hh
    obtain ⟨line, hline, -, hentry⟩ := hok.entry
    simp [hline, hentry]
  simp [editedLines, modifiedLines, hedits, hunmet, hentries]

/-- No entry of the modifier has the name. -/
structure Untouched (m : HeaderModifications) (name : String) : Prop where
  set_ne : ∀ h ∈ m.set, eqIgnoreAsciiCase h.name.octets (bytes name) = false
  add_ne : ∀ h ∈ m.add, eqIgnoreAsciiCase h.name.octets (bytes name) = false
  remove_ne : ∀ r ∈ m.remove, eqIgnoreAsciiCase r.octets (bytes name) = false

theorem isAmong_headerLine (hl : headerLine h = some l)
    (hne : ∀ name ∈ names, eqIgnoreAsciiCase h.name.octets (bytes name) = false) :
    l.isAmong names = false := by
  unfold headerLine lineOf at hl
  split_ifs at hl
  cases hl
  exact any_eq_false.mpr fun name hname => by simp [isNamed, hne name hname]

theorem modifyOf_untouched {name : String} (hmods : ∀ m ∈ mods, Untouched m name)
    (hl : l.isNamed name = true) : modifyOf mods none l = some l := by
  unfold modifyOf
  cases mods with
  | none => rfl
  | some m =>
    have hm := hmods m rfl
    have hremove : removes m l.name = false := by
      rw [removes, any_eq_false]
      intro r hr heq
      exact absurd (eqIgnoreAsciiCase_trans heq hl) (by simp [hm.remove_ne r hr])
    have hset : setEntry m l.name = none := by
      rw [setEntry, find?_eq_none]
      intro h hh heq
      exact absurd (eqIgnoreAsciiCase_trans heq hl) (by simp [hm.set_ne h hh])
    simp [hremove, hset]

/-- A line that comes out of the pass is an entry's, or unchanged. -/
theorem modifyOf_cases {l' : HeadLine} (h : modifyOf mods none l = some l') :
    l' = l ∨ ∃ m ∈ mods, ∃ hd ∈ m.set, headerLine hd = some l' := by
  cases mods with
  | none => exact .inl (Option.some.inj h).symm
  | some m =>
    simp only [modifyOf, Option.filter_none] at h
    split_ifs at h
    cases hset : setEntry m l.name with rw [hset] at h
    | none => exact .inl (Option.some.inj h).symm
    | some hd => exact .inr ⟨m, rfl, hd, mem_of_find?_eq_some hset, h⟩

/-- Every line after the pass is one of the block's or an entry's. -/
theorem mem_modifiedLines (h : l ∈ modifiedLines mods none ls) :
    l ∈ ls ∨ ∃ m ∈ mods, ∃ hd ∈ m.set ++ m.add, headerLine hd = some l := by
  simp only [modifiedLines, Option.bind_none, ite_self, Option.toList_none, append_nil,
    mem_append] at h
  rcases h with h | h
  · obtain ⟨l₀, hmem, hline⟩ := mem_filterMap.mp h
    obtain rfl | ⟨m, hm, hd, hset, hline⟩ := modifyOf_cases hline
    · exact .inl hmem
    · exact .inr ⟨m, hm, hd, mem_append_left _ hset, hline⟩
  · cases mods with
    | none => cases h
    | some m =>
      obtain ⟨hd, hmem, hline⟩ := mem_filterMap.mp h
      refine .inr ⟨m, rfl, hd, ?_, hline⟩
      rcases mem_append.mp hmem with hmem | hmem
      · exact mem_append_left _ (mem_of_mem_unapplied hmem)
      · exact mem_append_right _ hmem

/-- The lines of names that no entry names stay as they are, in number and in order. -/
theorem modifiedLines_untouched
    (hmods : ∀ m ∈ mods, ∀ name ∈ names, Untouched m name) (ls : List HeadLine) :
    (modifiedLines mods none ls).filter (isAmong · names) = ls.filter (isAmong · names) := by
  have hkept : (ls.filterMap (modifyOf mods none)).filter (isAmong · names) =
      ls.filter (isAmong · names) := by
    induction ls with
    | nil => rfl
    | cons l ls ih =>
      cases hl : l.isAmong names with
      | true =>
        obtain ⟨name, hname, hnamed⟩ := any_eq_true.mp hl
        rw [filterMap_cons_some (modifyOf_untouched (fun m hm => hmods m hm name hname) hnamed)]
        simp only [filter_cons, hl, if_true, ih]
      | false =>
        rw [filter_cons_of_neg (by simp [hl])]
        cases hm : modifyOf mods none l with
        | none => rw [filterMap_cons_none hm, ih]
        | some l' =>
          have hl' : l'.isAmong names = false := by
            obtain rfl | ⟨m, hm, hd, hmem, hline⟩ := modifyOf_cases hm
            · exact hl
            · exact isAmong_headerLine hline fun name hname =>
                (hmods m hm name hname).set_ne hd hmem
          rw [filterMap_cons_some hm, filter_cons_of_neg (by simp [hl']), ih]
  simp only [modifiedLines, Option.bind_none, ite_self, Option.toList_none, append_nil,
    filter_append, hkept]
  cases mods with
  | none => simp
  | some m =>
    rw [append_right_eq_self, filter_eq_nil_iff]
    intro l hl
    obtain ⟨hd, hmem, hline⟩ := mem_filterMap.mp hl
    rw [isAmong_headerLine hline]
    · exact Bool.false_ne_true
    intro name hname
    rcases mem_append.mp hmem with hmem | hmem
    · exact (hmods m rfl name hname).set_ne hd (mem_of_mem_unapplied hmem)
    · exact (hmods m rfl name hname).add_ne hd hmem

end
end Portail.Proxy
