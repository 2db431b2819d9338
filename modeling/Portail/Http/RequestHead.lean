import Portail.Http.RequestParser

/-!
# Request heads as syntax

A head is a request line and a list of fields. The header loop of the parser is
a fold over the fields: on the text of a head it computes `readLines`
(`headLoop_wire`), and whatever it gets through is the text of fields ended by
a blank line (`headLoop_sound`).
-/

namespace Portail.Http

open Lib List

/-- One header line: a token and a value free of control octets but HTAB. -/
@[ext] structure Field where
  name : Bytes
  value : Bytes
  name_token : isToken name = true
  value_text : ∀ b ∈ value, isFieldValueByte b = true

def Field.wire (f : Field) : Bytes := f.name ++ (colon :: (f.value ++ crlf))

def fieldsWire (fs : List Field) : Bytes := fs.flatMap Field.wire

@[simp] theorem fieldsWire_nil : fieldsWire [] = [] := rfl

@[simp] theorem fieldsWire_cons (f : Field) (fs : List Field) :
    fieldsWire (f :: fs) = f.wire ++ fieldsWire fs := rfl

theorem fieldsWire_append (fs gs : List Field) :
    fieldsWire (fs ++ gs) = fieldsWire fs ++ fieldsWire gs := by
  simp [fieldsWire]

theorem Field.wire_length (f : Field) : f.wire.length = f.name.length + f.value.length + 3 := by
  simp [Field.wire]
  omega

theorem isToken_iff {s : Bytes} : isToken s = true ↔ s ≠ [] ∧ ∀ b ∈ s, isTchar b = true := by
  cases s <;> simp [isToken]

theorem isToken_connection : isToken (bytes "Connection") = true := by decide

theorem tchar_spec : ∀ b : UInt8, isTchar b = true →
    b ≠ cr ∧ b ≠ lf ∧ b ≠ colon ∧ b ≠ sp ∧ b < 0x80 ∧ isFieldValueByte b = true ∧ isOws b = false :=
  forall_octet (by decide +kernel)

theorem value_byte_spec : ∀ b : UInt8, isFieldValueByte b = true → b ≠ cr ∧ b ≠ lf :=
  forall_octet (by decide +kernel)

theorem isTchar_sp : isTchar sp = false := by decide

theorem isTchar_colon : isTchar colon = false := by decide

theorem is_value_cr : is cr .value = false := by decide

namespace Field

variable (f : Field)

theorem name_ne : f.name ≠ [] := (isToken_iff.mp f.name_token).1

theorem name_tchar : ∀ b ∈ f.name, isTchar b = true := (isToken_iff.mp f.name_token).2

def line : Bytes := f.name ++ (colon :: f.value)

theorem wire_eq : f.wire = f.line ++ crlf := by simp [wire, line]

theorem line_ne : f.line ≠ [] := by simp [line, f.name_ne]

theorem line_text : ∀ b ∈ f.line, isFieldValueByte b = true := by
  intro b hb
  simp only [line, mem_append, mem_cons] at hb
  rcases hb with hb | rfl | hb
  · exact (tchar_spec b (f.name_tchar b hb)).2.2.2.2.2.1
  · decide
  · exact f.value_text b hb

theorem cr_not_mem_line : cr ∉ f.line := fun h => (value_byte_spec cr (f.line_text cr h)).1 rfl

theorem lf_not_mem_line : lf ∉ f.line := fun h => (value_byte_spec lf (f.line_text lf h)).2 rfl

theorem wire_ne : f.wire ≠ [] := by simp [wire]

theorem wire_head : ∃ b rest, f.wire = b :: rest ∧ isTchar b = true := by
  obtain ⟨b, name, hname⟩ := exists_cons_of_ne_nil f.name_ne
  refine ⟨b, name ++ (colon :: (f.value ++ crlf)), by simp [wire, hname], ?_⟩
  exact f.name_tchar b (by simp [hname])

end Field

section

namespace HeadState

/-- One field, read at the current position. -/
def readOne (http10 : Bool) (st : HeadState) (f : Field) : HeadState :=
  st.readLine http10 f.name f.value (st.pos + f.wire.length)

/-- The fields of a head up to the first violation, then its blank line. -/
def readLines (http10 : Bool) (st : HeadState) : List Field → HeadState
  | [] => { st with terminated := true }
  | f :: fs =>
    let next := st.readOne http10 f
    if next.violation then next else next.readLines http10 fs

theorem readOne_pos (http10 : Bool) (st : HeadState) (f : Field) :
    (st.readOne http10 f).pos = st.pos + f.wire.length := (readLine_frame ..).1

end HeadState

variable {data : Bytes} {st : HeadState} {http10 : Bool}

theorem headTurn_field {rest : Bytes} (http10 : Bool) {f : Field}
    (hdrop : data.drop st.pos = f.wire ++ rest) (hv : st.violation = false) :
    headTurn data http10 st =
      if (st.readOne http10 f).violation then .inr (st.readOne http10 f)
      else .inl (st.readOne http10 f) := by
  obtain ⟨b, w, hw, hb⟩ := f.wire_head
  have hcons : data.drop st.pos = b :: (w ++ rest) := by rw [hdrop, hw]; rfl
  have hcr : b ≠ cr := (tchar_spec b hb).1
  have hname : (b :: (w ++ rest)).takeWhile isTchar = f.name := by
    rw [← cons_append, ← hw, Field.wire, append_assoc, cons_append]
    exact takeWhile_run f.name_tchar isTchar_colon _
  have hshape : data.drop st.pos =
      f.name ++ (colon :: (f.value ++ (cr :: lf :: rest))) := by
    rw [hdrop]; simp [Field.wire]
  have hcolon : data.drop (st.pos + f.name.length) = colon :: (f.value ++ (cr :: lf :: rest)) :=
    drop_of_drop hshape rfl
  have hvalue : data.drop (st.pos + f.name.length + 1) = f.value ++ (cr :: lf :: rest) :=
    drop_succ_of_drop hcolon
  have hscan : scanValue data (st.pos + f.name.length + 1) =
      st.pos + f.name.length + 1 + f.value.length := by
    rw [scanValue_eq, hvalue, takeWhile_run (p := (is · .value)) f.value_text is_value_cr]
  have hend := drop_of_drop hvalue rfl
  have hend' : data.drop (st.pos + f.name.length + 1 + f.value.length + 1) = lf :: rest :=
    drop_succ_of_drop hend
  have hne : ¬ st.pos + f.name.length = st.pos := by
    have := length_pos_iff.mpr f.name_ne
    omega
  have hstop : st.pos + f.name.length + 1 + f.value.length + 2 = st.pos + f.wire.length := by
    rw [f.wire_length]; omega
  simp only [headTurn, hv, hcons, hname, hcr, hscan, getElem?_of_drop hcolon,
    getElem?_of_drop hend, getElem?_of_drop hend', slice_of_drop hvalue rfl, hstop, hne]
  simp only [Bool.false_eq_true, if_false, head?_cons, ne_eq, not_true, or_self]
  rfl

theorem headTurn_blank {tail : Bytes} (hdrop : data.drop st.pos = crlf ++ tail)
    (hv : st.violation = false) :
    headTurn data http10 st = .inr { st with terminated := true } := by
  have hlf : data.drop (st.pos + 1) = lf :: tail := drop_succ_of_drop hdrop
  simp [headTurn, hv, hdrop, getElem?_of_drop hlf]

/-- On the text of a head the loop is the fold over its fields. -/
theorem headLoop_wire {tail : Bytes} (fs : List Field)
    (hdrop : data.drop st.pos = fieldsWire fs ++ (crlf ++ tail)) (hv : st.violation = false) :
    (headLoop data http10).run st = st.readLines http10 fs := by
  induction fs generalizing st with
  | nil => exact (headLoop data http10).run_exit (headTurn_blank hdrop hv)
  | cons f fs ih =>
    rw [fieldsWire_cons, append_assoc] at hdrop
    have hturn := headTurn_field http10 hdrop hv
    rw [HeadState.readLines]
    by_cases hnext : (st.readOne http10 f).violation = true
    · rw [if_pos hnext] at hturn
      simp only [hnext, if_true]
      exact (headLoop data http10).run_exit hturn
    · rw [if_neg hnext] at hturn
      rw [(headLoop data http10).run_again hturn]
      simp only [hnext]
      refine ih ?_ (by simpa using hnext)
      rw [HeadState.readOne_pos]
      exact drop_of_drop hdrop rfl

theorem drop_run {xs : Bytes} {pos : ℕ} (p : UInt8 → Bool) (hdrop : data.drop pos = xs) :
    data.drop (pos + (xs.takeWhile p).length) = xs.dropWhile p := by
  rw [← drop_drop, hdrop, dropWhile_eq_drop]

theorem cons_of_getElem? {i : ℕ} {c : UInt8} (h : data[i]? = some c) :
    data.drop i = c :: data.drop (i + 1) := by
  obtain ⟨hlt, rfl⟩ := List.getElem?_eq_some_iff.mp h
  exact drop_eq_getElem_cons hlt

/-- The tests of one turn, passed, leave the text of a field behind. -/
theorem exists_field {text : Bytes} {pos : ℕ} (hdrop : data.drop pos = text)
    (hne : text.takeWhile isTchar ≠ [])
    (hcolon : data[pos + (text.takeWhile isTchar).length]? = some colon)
    (hcr : data[scanValue data (pos + (text.takeWhile isTchar).length + 1)]? = some cr)
    (hlf : data[scanValue data (pos + (text.takeWhile isTchar).length + 1) + 1]? = some lf) :
    ∃ f rest, text = Field.wire f ++ rest := by
  have hname := drop_run isTchar hdrop
  rw [cons_of_getElem? hcolon] at hname
  have hvalue := drop_run (is · .value)
    (rfl : data.drop (pos + (text.takeWhile isTchar).length + 1) = _)
  rw [← scanValue_eq, cons_of_getElem? hcr, cons_of_getElem? hlf] at hvalue
  have htext := takeWhile_append_dropWhile (p := isTchar) (l := text)
  have hrest := takeWhile_append_dropWhile (p := (is · .value))
    (l := data.drop (pos + (text.takeWhile isTchar).length + 1))
  rw [← hvalue] at hrest
  rw [← hname, ← hrest] at htext
  have hvalues : ∀ b ∈ (data.drop (pos + (text.takeWhile isTchar).length + 1)).takeWhile
      (is · .value), isFieldValueByte b = true :=
    fun b hb => mem_takeWhile_imp (p := (is · .value)) hb
  refine ⟨⟨_, _, isToken_iff.mpr ⟨hne, fun b hb => mem_takeWhile_imp hb⟩, hvalues⟩,
    data.drop (scanValue data (pos + (text.takeWhile isTchar).length + 1) + 1 + 1), ?_⟩
  rw [Field.wire]
  simpa using htext.symm

theorem headTurn_again {next : HeadState} (h : headTurn data http10 st = .inl next) :
    st.violation = false ∧ ∃ f rest, data.drop st.pos = Field.wire f ++ rest := by
  unfold headTurn at h
  split_ifs at h with hv
  split at h
  · cases h
  · next b rest hdrop =>
    dsimp only at h
    split_ifs at h with hcr hname hvalue hviolation
    obtain ⟨hne, hcolon⟩ := not_or.mp hname
    obtain ⟨hend, hend'⟩ := not_or.mp hvalue
    rw [not_not] at hcolon hend hend'
    refine ⟨by simpa using hv, ?_⟩
    rw [hdrop]
    exact exists_field hdrop (fun hnil => hne (by rw [hnil]; rfl)) hcolon hend hend'

/-- The loop leaves unflagged and terminated only at the blank line. -/
theorem headTurn_exit {r : HeadState} (h : headTurn data http10 st = .inr r)
    (hterm : st.terminated = false) (hv : r.violation = false) (ht : r.terminated = true) :
    st.violation = false ∧ ∃ tail, data.drop st.pos = crlf ++ tail := by
  unfold headTurn at h
  split_ifs at h with hviolation
  · cases h
    simp [hterm] at ht
  split at h
  · cases h
    simp [hterm] at ht
  · next b rest hdrop =>
    dsimp only at h
    split_ifs at h with hcr hname hvalue hnext
    · cases h
      refine ⟨by simpa using hviolation, ?_⟩
      obtain rfl := hcr
      have hlf : data[st.pos + 1]? = some lf := by simpa using ht
      have hdrop1 : data.drop (st.pos + 1) = rest := drop_succ_of_drop hdrop
      rw [← hdrop1, cons_of_getElem? hlf] at hdrop
      exact ⟨data.drop (st.pos + 1 + 1), hdrop⟩
    · cases h
      cases hv
    · cases h
      cases hv
    · cases h
      rw [hnext] at hv
      cases hv

/-- A head the loop gets through is fields and a blank line. -/
theorem headLoop_sound (st : HeadState) (hterm : st.terminated = false)
    (hv : ((headLoop data http10).run st).violation = false)
    (ht : ((headLoop data http10).run st).terminated = true) :
    st.violation = false ∧ ∃ fs tail, data.drop st.pos = fieldsWire fs ++ (crlf ++ tail) := by
  induction st using (headLoop data http10).induct with
  | h st ih =>
    cases hturn : (headLoop data http10).turn st with
    | inr r =>
      rw [(headLoop data http10).run_exit hturn] at hv ht
      obtain ⟨hst, tail, htail⟩ := headTurn_exit hturn hterm hv ht
      exact ⟨hst, [], tail, htail⟩
    | inl next =>
      rw [(headLoop data http10).run_again hturn] at hv ht
      obtain ⟨hst, f, rest, hf⟩ := headTurn_again hturn
      have hnext : next = st.readOne http10 f := by
        have hturn' := headTurn_field http10 hf hst
        rw [show headTurn data http10 st = .inl next from hturn] at hturn'
        split_ifs at hturn'
        exact Sum.inl.inj hturn'
      subst hnext
      obtain ⟨-, fs, tail, hfs⟩ := ih _ hturn ((HeadState.readLine_frame ..).2.trans hterm) hv ht
      rw [HeadState.readOne_pos, drop_of_drop hf rfl] at hfs
      exact ⟨hst, f :: fs, tail, by rw [hf, hfs]; simp⟩

end
end Portail.Http
