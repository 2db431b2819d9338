import Portail.Proxy.ClientHead

/-!
# What a header modifier does to a block

`apply_header_mods_inner` on any block of lines, whatever stands in them. Removal,
addition and the lines of other names are as the modifier says. A `set` entry is written
once for every line of its name, so it stands on one line exactly when at most one came
in and no other entry sets the name (`headerMods_applied_iff`).
-/

namespace Portail.Proxy

open Lib Http Routing Config List

section

variable {m : HeaderModifications} {lines : List Bytes} {name : Bytes}

variable {h : HttpHeader} {line : Bytes}

theorem lineName_entryLine (ok : HeaderOk h) : lineName (entryLine h) = some h.name.octets := by
  obtain ⟨l, -, hname, hline⟩ := ok.entry
  rw [← hline, lineName_line, hname]

theorem isLineOf_entryLine (ok : HeaderOk h) (name : Bytes) :
    isLineOf name (entryLine h) = eqIgnoreAsciiCase name h.name.octets := by
  rw [isLineOf, lineName_entryLine ok, Option.any_some]

theorem entryLine_line (ok : HeaderOk h) : entryLine h ≠ [] ∧ lf ∉ entryLine h := by
  obtain ⟨l, -, -, hline⟩ := ok.entry
  exact hline ▸ ⟨l.line_ne, l.lf_not_mem_line⟩

theorem removes_congr {other : Bytes} (h : eqIgnoreAsciiCase name other = true) :
    removes m other = removes m name := by
  unfold removes
  congr 1
  funext r
  exact (eqIgnoreAsciiCase_congr_right h r.octets).symm

theorem setEntry_congr {other : Bytes} (h : eqIgnoreAsciiCase name other = true) :
    setEntry m other = setEntry m name := by
  unfold setEntry
  congr 1
  funext e
  exact (eqIgnoreAsciiCase_congr_right h e.name.octets).symm

/-- A line keeps its name through the pass, up to case. -/
theorem isLineOf_of_edit (hm : ModsOk m) {edited : Bytes} (h : editLine m line = some edited)
    (name : Bytes) : isLineOf name edited = isLineOf name line := by
  unfold editLine at h
  cases hname : lineName line with rw [hname] at h
  | none => rw [Option.some.inj h]
  | some n =>
    dsimp only at h
    split_ifs at h
    cases hset : setEntry m n with rw [hset] at h
    | none => rw [Option.some.inj h]
    | some e =>
      cases h
      have hsame : eqIgnoreAsciiCase e.name.octets n = true := by
        simpa using find?_some hset
      rw [isLineOf_entryLine (hm.set_ok e (mem_of_find?_eq_some hset)), isLineOf, hname,
        Option.any_some, eqIgnoreAsciiCase_congr_right hsame]

theorem editLine_of_isLineOf (h : isLineOf name line = true) :
    editLine m line = if removes m name then none else
      some ((setEntry m name).elim line entryLine) := by
  obtain ⟨n, hn, hsame⟩ := (Option.any_eq_true _ _).mp h
  rw [editLine, hn]
  simp only [removes_congr hsame, setEntry_congr hsame]
  split_ifs
  · rfl
  · cases setEntry m name with
    | none => rfl
    | some e => rfl

theorem filter_filterMap_comm {α : Type} {f : α → Option α} {p : α → Bool}
    (h : ∀ {x y}, f x = some y → p y = p x) (xs : List α) :
    (xs.filterMap f).filter p = (xs.filter p).filterMap f := by
  rw [filter_filterMap, filterMap_filter]
  refine filterMap_congr fun x _ => ?_
  cases hx : f x with
  | none => simp
  | some y => cases hp : p x <;> simp [Option.filter, h hx, hp]

theorem filter_edits (hm : ModsOk m) (name : Bytes) (lines : List Bytes) :
    (lines.filterMap (editLine m)).filter (isLineOf name) =
      if removes m name then []
      else (lines.filter (isLineOf name)).map fun line =>
        (setEntry m name).elim line entryLine := by
  rw [filter_filterMap_comm fun h => isLineOf_of_edit hm h name,
    filterMap_congr fun line hline => editLine_of_isLineOf (mem_filter.mp hline).2]
  split_ifs
  · exact filterMap_eq_nil_iff.mpr fun _ _ => rfl
  · exact congrFun filterMap_eq_map _

/-- The entries left of those of a name, where the flag of the first may be raised. -/
theorem filter_unraised (q : HttpHeader → Bool) (raised : ℕ → Bool) (first : Bool)
    (set : List HttpHeader) (n : ℕ) (h : ∀ i e, set[i]? = some e → q e = true →
      raised (n + i) = (first && set.findIdx? q == some i)) :
    ((set.zipIdx n).filterMap fun x => if raised x.2 then none else some x.1).filter q =
      if first then (set.filter q).tail else set.filter q := by
  induction set generalizing n first with
  | nil => simp
  | cons e rest ih =>
    rw [zipIdx_cons, filterMap_cons]
    cases he : q e with
    | true =>
      have hidx : (e :: rest).findIdx? q = some 0 := by simp [findIdx?_cons, he]
      have hhead : raised n = first := by simpa [hidx] using h 0 e rfl he
      have hrest := ih false (n + 1) fun i e' hi he' => by
        have := h (i + 1) e' hi he'
        rw [hidx] at this
        rw [add_assoc, add_comm 1, this]
        simp
      rw [if_neg (by simp)] at hrest
      cases first with
      | true => simp [hhead, hrest, he]
      | false => simp [hhead, hrest, he]
    | false =>
      have hrest := ih first (n + 1) fun i e' hi he' => by
        have := h (i + 1) e' hi he'
        rw [findIdx?_cons, he] at this
        rw [add_assoc, add_comm 1, this]
        cases rest.findIdx? q <;> simp
      rw [filter_cons_of_neg (by simp [he]), ← hrest]
      cases raised n with
      | true => rfl
      | false => simp [he]

variable (m) in
def setsOf (name : Bytes) : List HttpHeader :=
  m.set.filter fun h => eqIgnoreAsciiCase h.name.octets name

/-- A `set` entry is met by the lines of its name, if it is the first for it. -/
theorem any_meets {i : ℕ} {e : HttpHeader} (hi : m.set[i]? = some e)
    (he : eqIgnoreAsciiCase e.name.octets name = true) :
    lines.any (meets m i) = ((!removes m name && lines.any (isLineOf name)) &&
      m.set.findIdx? (fun h => eqIgnoreAsciiCase h.name.octets name) == some i) := by
  have hcongr {other : Bytes} (hsame : eqIgnoreAsciiCase name other = true) :
      m.set.findIdx? (fun h => eqIgnoreAsciiCase h.name.octets other) =
        m.set.findIdx? fun h => eqIgnoreAsciiCase h.name.octets name := by
    congr 1
    funext h
    exact (eqIgnoreAsciiCase_congr_right hsame h.name.octets).symm
  rw [Bool.eq_iff_iff]
  simp only [any_eq_true, Bool.and_eq_true, Bool.not_eq_true', beq_iff_eq]
  constructor
  · rintro ⟨line, hline, hmeets⟩
    obtain ⟨n, hn, hmeets⟩ := (Option.any_eq_true _ _).mp hmeets
    simp only [Bool.and_eq_true, Bool.not_eq_true', beq_iff_eq] at hmeets
    obtain ⟨hlt, hnamed, -⟩ := findIdx?_eq_some_iff_getElem.mp hmeets.2
    have hget : m.set[i] = e := (List.getElem?_eq_some_iff.mp hi).2
    rw [hget] at hnamed
    have hsame : eqIgnoreAsciiCase name n = true :=
      eqIgnoreAsciiCase_trans (eqIgnoreAsciiCase_symm he) hnamed
    rw [removes_congr hsame, hcongr hsame] at hmeets
    exact ⟨⟨hmeets.1, line, hline, by simp [isLineOf, hn, hsame]⟩, hmeets.2⟩
  · rintro ⟨⟨hremove, line, hline, hnamed⟩, hidx⟩
    obtain ⟨n, hn, hsame⟩ := (Option.any_eq_true _ _).mp hnamed
    refine ⟨line, hline, ?_⟩
    simp [meets, hn, removes_congr hsame, hcongr hsame, hremove, hidx]

theorem mem_of_mem_unmet (hh : h ∈ unmet m lines) : h ∈ m.set := by
  obtain ⟨x, hmem, hif⟩ := mem_filterMap.mp hh
  split_ifs at hif
  cases hif
  exact fst_mem_of_mem_zipIdx hmem

theorem filter_unmet (lines : List Bytes) (name : Bytes) :
    (unmet m lines).filter (fun h => eqIgnoreAsciiCase h.name.octets name) =
      if !removes m name && lines.any (isLineOf name) then (setsOf m name).tail
      else setsOf m name := by
  have hraised : ∀ i e, m.set[i]? = some e → eqIgnoreAsciiCase e.name.octets name = true →
      lines.any (meets m (0 + i)) = ((!removes m name && lines.any (isLineOf name)) &&
        m.set.findIdx? (fun h => eqIgnoreAsciiCase h.name.octets name) == some i) := by
    intro i e hi he
    rw [zero_add]
    exact any_meets hi he
  exact filter_unraised (fun h => eqIgnoreAsciiCase h.name.octets name)
    (fun i => lines.any (meets m i)) _ m.set 0 hraised

theorem filter_entryLines {hs : List HttpHeader} (ok : ∀ h ∈ hs, HeaderOk h) (name : Bytes) :
    (hs.map entryLine).filter (isLineOf name) =
      (hs.filter fun h => eqIgnoreAsciiCase h.name.octets name).map entryLine := by
  rw [filter_map]
  congr 1
  refine filter_congr fun h hh => ?_
  rw [Function.comp_apply, isLineOf_entryLine (ok h hh), eqIgnoreAsciiCase_comm]

theorem editedLines_line (hm : ModsOk m) (hlines : ∀ line ∈ lines, line ≠ [] ∧ lf ∉ line) :
    ∀ line ∈ editedLines m lines, line ≠ [] ∧ lf ∉ line := by
  intro line hline
  rcases mem_append.mp hline with hline | hline
  · obtain ⟨old, hold, hedit⟩ := mem_filterMap.mp hline
    unfold editLine at hedit
    split at hedit
    · exact Option.some.inj hedit ▸ hlines old hold
    · split_ifs at hedit
      split at hedit
      · next h hset =>
        exact Option.some.inj hedit ▸ entryLine_line (hm.set_ok h (mem_of_find?_eq_some hset))
      · exact Option.some.inj hedit ▸ hlines old hold
  · obtain ⟨h, hh, rfl⟩ := mem_map.mp hline
    rcases mem_append.mp hh with hh | hh
    · exact entryLine_line (hm.set_ok h (mem_of_mem_unmet hh))
    · exact entryLine_line (hm.add_ok h hh)

theorem filter_editedLines (hm : ModsOk m) (lines : List Bytes) (name : Bytes) :
    (editedLines m lines).filter (isLineOf name) =
      (if removes m name then []
        else (lines.filter (isLineOf name)).map fun line =>
          (setEntry m name).elim line entryLine) ++
      (if !removes m name && lines.any (isLineOf name) then (setsOf m name).tail
        else setsOf m name).map entryLine ++
      (m.add.filter fun h => eqIgnoreAsciiCase h.name.octets name).map entryLine := by
  have hunmet : ∀ h ∈ unmet m lines, HeaderOk h := fun h hh => hm.set_ok h (mem_of_mem_unmet hh)
  rw [editedLines, map_append, filter_append, filter_append, filter_edits hm,
    filter_entryLines hunmet, filter_entryLines hm.add_ok, filter_unmet, append_assoc]

variable (m) in
/-- The line is of a name that is set or removed. -/
def touched (line : Bytes) : Bool :=
  m.set.any (fun h => isLineOf h.name.octets line) || m.remove.any fun r => isLineOf r.octets line

theorem editLine_untouched (h : touched m line = false) : editLine m line = some line := by
  rw [touched, Bool.or_eq_false_iff, any_eq_false, any_eq_false] at h
  unfold editLine
  cases hname : lineName line with
  | none => rfl
  | some n =>
    have hno {name : Bytes} (hline : ¬isLineOf name line = true) :
        eqIgnoreAsciiCase name n = false := by simpa [isLineOf, hname] using hline
    have hremove : removes m n = false := by
      rw [removes, any_eq_false]
      exact fun r hr => by simp [hno (h.2 r hr)]
    have hset : setEntry m n = none := by
      rw [setEntry, find?_eq_none]
      exact fun e he => by simp [hno (h.1 e he)]
    simp [hremove, hset]

theorem touched_of_edit (hm : ModsOk m) {edited : Bytes} (h : editLine m line = some edited) :
    touched m edited = touched m line := by
  simp only [touched, isLineOf_of_edit hm h]

theorem filter_untouched_edits (hm : ModsOk m) (lines : List Bytes) :
    (lines.filterMap (editLine m)).filter (fun line => !touched m line) =
      lines.filter fun line => !touched m line := by
  rw [filter_filterMap_comm fun h => congrArg _ (touched_of_edit hm h)]
  refine (filterMap_congr fun line hline => ?_).trans filterMap_some
  exact editLine_untouched (by simpa using (mem_filter.mp hline).2)

theorem filter_untouched (hm : ModsOk m) (lines : List Bytes) :
    (editedLines m lines).filter (fun line => !touched m line) =
      (lines.filter fun line => !touched m line) ++
        (m.add.map entryLine).filter fun line => !touched m line := by
  have hunmet : ((unmet m lines).map entryLine).filter (fun line => !touched m line) = [] := by
    rw [filter_eq_nil_iff]
    intro line hline
    obtain ⟨h, hh, rfl⟩ := mem_map.mp hline
    have hset := mem_of_mem_unmet hh
    have hnamed : isLineOf h.name.octets (entryLine h) = true := by
      rw [isLineOf_entryLine (hm.set_ok h hset), eqIgnoreAsciiCase_refl]
    simp only [touched, Bool.not_eq_true', Bool.not_eq_false, Bool.or_eq_true]
    exact .inl (any_eq_true.mpr ⟨h, hset, hnamed⟩)
  rw [editedLines, map_append, filter_append, filter_append,
    filter_untouched_edits hm, hunmet, nil_append]

/-- No line of a removed name is left of those that came in. -/
theorem mem_removed (hm : ModsOk m) (hline : line ∈ editedLines m lines)
    (hremove : removes m name = true) (hnamed : isLineOf name line = true) :
    ∃ h ∈ m.set ++ m.add, line = entryLine h := by
  have hmem := mem_filter.mpr ⟨hline, hnamed⟩
  rw [filter_editedLines hm, hremove] at hmem
  simp only [if_true, Bool.not_true, Bool.false_and, Bool.false_eq_true, if_false,
    nil_append, mem_append, mem_map] at hmem
  rcases hmem with ⟨h, hh, rfl⟩ | ⟨h, hh, rfl⟩
  · exact ⟨h, mem_append_left _ (mem_of_mem_filter hh), rfl⟩
  · exact ⟨h, mem_append_right _ (mem_of_mem_filter hh), rfl⟩

/-- A name is on one line after the pass where one entry sets it and at most one line of it came
in. -/
theorem filter_eq_singleton_iff (hm : ModsOk m) (hh : h ∈ m.set)
    (hadd : ∀ a ∈ m.add, eqIgnoreAsciiCase a.name.octets h.name.octets = false) :
    (editedLines m lines).filter (isLineOf h.name.octets) = [entryLine h] ↔
      (setsOf m h.name.octets).length = 1 ∧ (removes m h.name.octets = true ∨
        (lines.filter (isLineOf h.name.octets)).length ≤ 1) := by
  have hnone : (m.add.filter fun a => eqIgnoreAsciiCase a.name.octets h.name.octets) = [] :=
    filter_eq_nil_iff.mpr fun a ha => by simp [hadd a ha]
  have hmem : h ∈ setsOf m h.name.octets := mem_filter.mpr ⟨hh, eqIgnoreAsciiCase_refl _⟩
  have hentry : setEntry m h.name.octets = (setsOf m h.name.octets).head? := by
    rw [setEntry, setsOf, head?_filter]
  obtain ⟨first, rest, hsets⟩ := exists_cons_of_ne_nil (ne_nil_of_mem hmem)
  rw [hsets] at hmem
  rw [filter_editedLines hm, hnone, hentry, hsets]
  simp only [map_nil, append_nil, head?_cons, Option.elim_some, map_const', tail_cons, length_cons]
  have hany : lines.any (isLineOf h.name.octets) =
      decide (0 < (lines.filter (isLineOf h.name.octets)).length) := by
    rw [Bool.eq_iff_iff, any_eq_true, decide_eq_true_iff, length_filter_pos_iff]
  have hone : (List.map entryLine (first :: rest) = [entryLine h]) ↔ rest.length + 1 = 1 := by
    constructor
    · intro heq
      simpa using congrArg List.length heq
    · intro hlen
      obtain rfl : rest = [] := length_eq_zero_iff.mp (by omega)
      obtain rfl := mem_singleton.mp hmem
      rfl
  rw [hany]
  generalize (lines.filter (isLineOf h.name.octets)).length = came
  cases hremove : removes m h.name.octets with
  | true => simpa using hone
  | false =>
    rcases Nat.eq_zero_or_pos came with rfl | hcame
    · simpa using hone
    · simp only [Bool.false_eq_true, if_false, Bool.not_false, Bool.true_and, hcame, decide_true,
        if_true, false_or]
      constructor
      · intro heq
        have hlen := congrArg List.length heq
        simp only [length_append, length_replicate, length_map, length_singleton] at hlen
        omega
      · rintro ⟨hrest, hle⟩
        obtain rfl : rest = [] := length_eq_zero_iff.mp (by omega)
        obtain rfl : came = 1 := by omega
        obtain rfl := mem_singleton.mp hmem
        rfl

end

/-- The modifier did what it says: a name that is set stands on one line, of a removed one only
what was put back is left, what is added stands at the end, and all else is as it was. -/
structure ModsApplied (m : HeaderModifications) (lines edited : List Bytes) : Prop where
  set_once : ∀ h ∈ m.set,
    (∀ a ∈ m.add, eqIgnoreAsciiCase a.name.octets h.name.octets = false) →
      edited.filter (isLineOf h.name.octets) = [entryLine h]
  removed : ∀ r ∈ m.remove, ∀ line ∈ edited, isLineOf r.octets line = true →
    ∃ h ∈ m.set ++ m.add, line = entryLine h
  added : m.add.map entryLine <:+ edited
  others : edited.filter (fun line => !touched m line) =
    (lines.filter fun line => !touched m line) ++
      (m.add.map entryLine).filter fun line => !touched m line

/-- A modifier that passes the check does what it says to a block exactly when, of every name it
sets and does not add to, it has one entry and the block, unless it is removed, one line at
most. -/
theorem headerMods_applied_iff (config : HeaderModifierConfig) (side : Side)
    (hconfig : checkHeaderModifier config side = .ok ()) (raw : Bytes) :
    ModsApplied (modsOf config) (headerLines raw)
        (headerLines (applyHeaderModsInner raw (some (modsOf config)) none)) ↔
      ∀ h ∈ config.set,
        (∀ a ∈ config.add, eqIgnoreAsciiCase a.name.octets h.name.octets = false) →
        (config.set.filter fun e => eqIgnoreAsciiCase e.name.octets h.name.octets).length = 1 ∧
          (config.remove.any (fun r => eqIgnoreAsciiCase r.octets h.name.octets) = true ∨
            ((headerLines raw).filter (isLineOf h.name.octets)).length ≤ 1) := by
  have hm : ModsOk (modsOf config) := modsOk_of_modifierOk (checkHeaderModifier_eq_ok.mp hconfig)
  rw [applyHeaderModsInner_edited,
    headerLines_block (editedLines_line hm fun line hline => mem_headerLines hline)]
  constructor
  · intro happlied h hh hadd
    exact (filter_eq_singleton_iff hm hh hadd).mp (happlied.set_once h hh hadd)
  · intro honce
    refine ⟨fun h hh hadd => ?_, fun r hr line hline hnamed => ?_, ?_, filter_untouched hm _⟩
    · exact (filter_eq_singleton_iff hm hh hadd).mpr (honce h hh hadd)
    · have hremove : removes (modsOf config) r.octets = true :=
        any_eq_true.mpr ⟨r, hr, eqIgnoreAsciiCase_refl _⟩
      exact mem_removed hm hline hremove hnamed
    · refine ⟨(headerLines raw).filterMap (editLine (modsOf config)) ++
        (unmet (modsOf config) (headerLines raw)).map entryLine, ?_⟩
      rw [editedLines, map_append, append_assoc]

/-- A modifier that sets `X-A`, and a block with two lines of it. -/
def setTwice : HeaderModifierConfig := ⟨[], [⟨.lit "X-A", .lit "3"⟩], []⟩

def twoLines : Bytes := bytes "X-A: 1\r\nX-A: 2\r\n\r\n"

/-- Both lines are replaced, so the entry stands twice. -/
theorem set_written_twice :
    checkHeaderModifier setTwice .request = .ok () ∧
    headerLines (applyHeaderModsInner twoLines (some (modsOf setTwice)) none) =
      [bytes "X-A: 3", bytes "X-A: 3"] ∧
    ¬ModsApplied (modsOf setTwice) (headerLines twoLines)
      (headerLines (applyHeaderModsInner twoLines (some (modsOf setTwice)) none)) := by
  have hlines : headerLines (applyHeaderModsInner twoLines (some (modsOf setTwice)) none) =
      [bytes "X-A: 3", bytes "X-A: 3"] := by decide +kernel
  refine ⟨rfl, hlines, fun happlied => ?_⟩
  have honce := happlied.set_once ⟨.lit "X-A", .lit "3"⟩ mem_cons_self (forall_mem_nil _)
  rw [hlines] at honce
  revert honce
  decide +kernel

theorem headerMods_applied_single :
    checkHeaderModifier setTwice .response = .ok () ∧
    ModsApplied (modsOf setTwice) (headerLines (bytes "X-A: 1\r\nB: 2\r\n\r\n"))
      (headerLines (applyHeaderModsInner (bytes "X-A: 1\r\nB: 2\r\n\r\n")
        (some (modsOf setTwice)) none)) := by
  refine ⟨rfl, (headerMods_applied_iff setTwice .response rfl _).mpr ?_⟩
  intro h hh _
  obtain rfl := mem_singleton.mp hh
  decide +kernel

end Portail.Proxy
