import Portail.Http.Chunked

/-!
# The chunked grammar

The strict `chunked-body` grammar as syntax trees, and the proof that the
observer of `Chunked` recognises it: after any number of octets its phase is
the derivative of the language by what it has seen.
-/

namespace Portail.Http

open Lib ChunkedStream List

section

def isCtl (b : UInt8) : Bool := b < 0x20 || b == 0x7f

/-- No control octet but HTAB. -/
def isTextOctet (b : UInt8) : Bool := b == htab || !isCtl b

theorem isFieldValueByte_eq : ∀ b : UInt8, isFieldValueByte b = isTextOctet b :=
  forall_octet (by decide +kernel)

def hexValue (acc : ℕ) (digits : Bytes) : ℕ :=
  digits.foldl (fun acc b => 16 * acc + ((hexDigit b).getD 0).toNat) acc

/-- `chunk-size [ chunk-ext ] CRLF`, the extension made of `ext` octets. -/
structure SizeLine (ext : UInt8 → Bool) where
  digits : Bytes
  extension : Option Bytes
  digits_ne : digits ≠ []
  digits_hex : ∀ b ∈ digits, isAsciiHexdigit b = true
  size_lt : hexValue 0 digits < 2 ^ 64
  extension_ok : ∀ e ∈ extension, ∀ b ∈ e, ext b = true

def extensionWire : Option Bytes → Bytes
  | none => []
  | some e => 0x3b :: e

variable {ext : UInt8 → Bool}

def SizeLine.size (l : SizeLine ext) : ℕ := hexValue 0 l.digits

def SizeLine.wire (l : SizeLine ext) : Bytes := l.digits ++ (extensionWire l.extension ++ crlf)

structure Chunk (ext : UInt8 → Bool) where
  line : SizeLine ext
  data : Bytes
  data_ne : data ≠ []
  size_eq : line.size = data.length

def Chunk.wire (c : Chunk ext) : Bytes := c.line.wire ++ (c.data ++ crlf)

structure TrailerLine where
  first : UInt8
  rest : Bytes
  first_name : first ∉ [sp, htab, colon]
  text : ∀ b ∈ first :: rest, isTextOctet b = true
  has_colon : colon ∈ rest

def TrailerLine.wire (t : TrailerLine) : Bytes := t.first :: (t.rest ++ crlf)

/-- `*chunk last-chunk trailer-section CRLF`. -/
structure ChunkedBody (ext : UInt8 → Bool) where
  chunks : List (Chunk ext)
  last : SizeLine ext
  last_zero : last.size = 0
  trailers : List TrailerLine

def trailerWire (ts : List TrailerLine) : Bytes := ts.flatMap TrailerLine.wire ++ crlf

def ChunkedBody.wire (b : ChunkedBody ext) : Bytes :=
  b.chunks.flatMap Chunk.wire ++ (b.last.wire ++ trailerWire b.trailers)

def ChunkedBody.data (b : ChunkedBody ext) : Bytes := b.chunks.flatMap Chunk.data

end

section

/-- A whole body and its message. -/
def IsBody (w d : Bytes) : Prop :=
  ∃ body : ChunkedBody isTextOctet, body.wire = w ∧ body.data = d

def IsTrailers (w : Bytes) : Prop := ∃ ts, w = trailerWire ts

/-- What follows the line of a chunk of the given size. -/
def AfterLine (size : ℕ) (w d : Bytes) : Prop :=
  if size = 0 then IsTrailers w ∧ d = []
  else ∃ c t, w = c ++ (crlf ++ t) ∧ c.length = size ∧ ∃ d', d = c ++ d' ∧ IsBody t d'

/-- What follows the digits of a chunk of the given size. -/
def AfterDigits (size : ℕ) (w d : Bytes) : Prop :=
  ∃ extension t, w = extensionWire extension ++ (crlf ++ t) ∧
    (∀ e ∈ extension, ∀ b ∈ e, isTextOctet b = true) ∧ AfterLine size t d

/-- The words, with their payload, that complete a body from a phase. -/
def Completes : Phase → Bytes → Bytes → Prop
  | .size hex hasDigit, w, d =>
    ∃ digits t, w = digits ++ t ∧ (∀ b ∈ digits, isAsciiHexdigit b = true) ∧
      (hasDigit = true ∨ digits ≠ []) ∧ (digits = [] ∨ hexValue hex digits < 2 ^ 64) ∧
      AfterDigits (hexValue hex digits) t d
  | .sizeExt n, w, d =>
    ∃ e t, w = e ++ (crlf ++ t) ∧ (∀ b ∈ e, isTextOctet b = true) ∧ AfterLine n t d
  | .sizeCrlf n, w, d => ∃ t, w = lf :: t ∧ AfterLine n t d
  | .data n, w, d =>
    ∃ c t, w = c ++ (crlf ++ t) ∧ c.length = n ∧ ∃ d', d = c ++ d' ∧ IsBody t d'
  | .dataCrlf false, w, d => ∃ t, w = cr :: lf :: t ∧ IsBody t d
  | .dataCrlf true, w, d => ∃ t, w = lf :: t ∧ IsBody t d
  | .trailerLineStart, w, d => IsTrailers w ∧ d = []
  | .trailerLine sawColon, w, d =>
    ∃ l t, w = l ++ (crlf ++ t) ∧ (∀ b ∈ l, isTextOctet b = true) ∧
      (sawColon = true ∨ colon ∈ l) ∧ IsTrailers t ∧ d = []
  | .trailerCr true, w, d => w = [lf] ∧ d = []
  | .trailerCr false, w, d => ∃ t, w = lf :: t ∧ IsTrailers t ∧ d = []
  | .done, w, d => w = [] ∧ d = []
  | .broken, _, _ => False

variable {w d : Bytes} {a : UInt8} {n : ℕ} {Q : Bytes → Bytes → Prop}

@[simp] theorem completes_broken : ¬ Completes .broken w d := id

theorem exists_line_cons :
    (∃ l t, a :: w = l ++ (crlf ++ t) ∧ Q l t) ↔
      (a = cr ∧ ∃ t, w = lf :: t ∧ Q [] t) ∨ ∃ l t, w = l ++ (crlf ++ t) ∧ Q (a :: l) t := by
  constructor
  · rintro ⟨l, t, hw, hQ⟩
    cases l with
    | nil =>
      obtain ⟨rfl, rfl⟩ := cons.inj hw
      exact .inl ⟨rfl, t, rfl, hQ⟩
    | cons b l =>
      obtain ⟨rfl, rfl⟩ := cons.inj hw
      exact .inr ⟨l, t, rfl, hQ⟩
  · rintro (⟨rfl, t, rfl, hQ⟩ | ⟨l, t, rfl, hQ⟩)
    · exact ⟨[], t, rfl, hQ⟩
    · exact ⟨a :: l, t, rfl, hQ⟩

theorem trailerWire_cons (t : TrailerLine) (ts : List TrailerLine) :
    trailerWire (t :: ts) = t.first :: (t.rest ++ (crlf ++ trailerWire ts)) := by
  simp [trailerWire, TrailerLine.wire]

theorem isTrailers_cons :
    IsTrailers (a :: w) ↔ (a = cr ∧ w = [lf]) ∨
      (a ∉ [sp, htab, colon] ∧ isTextOctet a = true ∧ Completes (.trailerLine false) w []) := by
  constructor
  · rintro ⟨ts, hw⟩
    cases ts with
    | nil =>
      obtain ⟨rfl, rfl⟩ := cons.inj hw
      exact .inl ⟨rfl, rfl⟩
    | cons t ts =>
      rw [trailerWire_cons] at hw
      obtain ⟨rfl, rfl⟩ := cons.inj hw
      refine .inr ⟨t.first_name, t.text _ (by simp), t.rest, trailerWire ts, rfl, ?_,
        .inr t.has_colon, ⟨ts, rfl⟩, rfl⟩
      exact fun b hb => t.text b (by simp [hb])
  · rintro (⟨rfl, rfl⟩ | ⟨hname, htext, l, t, rfl, hl, hcolon, ⟨ts, rfl⟩, -⟩)
    · exact ⟨[], rfl⟩
    · have hline : ∀ b ∈ a :: l, isTextOctet b = true := by
        intro b hb
        rcases mem_cons.mp hb with rfl | hb
        · exact htext
        · exact hl b hb
      refine ⟨⟨a, l, hname, hline, by simpa using hcolon⟩ :: ts, ?_⟩
      rw [trailerWire_cons]

theorem not_isTrailers_nil : ¬ IsTrailers [] := by
  rintro ⟨ts, h⟩
  simp [trailerWire] at h

theorem afterDigits_cons :
    AfterDigits n (a :: w) d ↔
      (a = 0x3b ∧ Completes (.sizeExt n) w d) ∨ (a = cr ∧ Completes (.sizeCrlf n) w d) := by
  constructor
  · rintro ⟨extension, t, hw, hext, hline⟩
    cases extension with
    | none =>
      obtain ⟨rfl, rfl⟩ := cons.inj hw
      exact .inr ⟨rfl, t, rfl, hline⟩
    | some e =>
      obtain ⟨rfl, rfl⟩ := cons.inj hw
      exact .inl ⟨rfl, e, t, rfl, hext e rfl, hline⟩
  · rintro (⟨rfl, e, t, rfl, he, hline⟩ | ⟨rfl, t, rfl, hline⟩)
    · exact ⟨some e, t, rfl, by simpa using he, hline⟩
    · exact ⟨none, t, rfl, by simp, hline⟩

theorem not_afterDigits_nil : ¬ AfterDigits n [] d := by
  rintro ⟨extension, t, hw, -⟩
  cases extension <;> simp [extensionWire] at hw

/-- A body is one size line and what its size calls for. -/
theorem isBody_iff : IsBody w d ↔ Completes .start w d := by
  constructor
  · rintro ⟨⟨chunks, last, hzero, trailers⟩, rfl, rfl⟩
    cases chunks with
    | nil =>
      refine ⟨last.digits, _, ?_, last.digits_hex, .inr last.digits_ne,
        .inr last.size_lt,
        last.extension, trailerWire trailers, rfl, last.extension_ok, ?_⟩
      · simp [ChunkedBody.wire, SizeLine.wire]
      · have hsize : hexValue 0 last.digits = 0 := hzero
        rw [AfterLine, if_pos hsize]
        exact ⟨⟨trailers, rfl⟩, rfl⟩
    | cons c chunks =>
      refine ⟨c.line.digits, _, ?_, c.line.digits_hex, .inr c.line.digits_ne,
        .inr c.line.size_lt,
        c.line.extension, c.data ++ (crlf ++ ChunkedBody.wire ⟨chunks, last, hzero, trailers⟩),
        rfl, c.line.extension_ok, ?_⟩
      · simp [ChunkedBody.wire, SizeLine.wire, Chunk.wire]
      · have hsize : hexValue 0 c.line.digits = c.data.length := c.size_eq
        have hpos : c.data.length ≠ 0 := by simpa using c.data_ne
        rw [AfterLine, hsize, if_neg hpos]
        exact ⟨c.data, _, rfl, rfl, _, rfl, _, rfl, rfl⟩
  · rintro ⟨digits, t, rfl, hhex, hne, hlt, extension, t, rfl, hext, hline⟩
    replace hne : digits ≠ [] := by simpa using hne
    let line : SizeLine isTextOctet :=
      ⟨digits, extension, hne, hhex, hlt.resolve_left hne, hext⟩
    rw [AfterLine] at hline
    split at hline
    · next hzero =>
      obtain ⟨⟨ts, rfl⟩, rfl⟩ := hline
      refine ⟨⟨[], line, hzero, ts⟩, ?_, rfl⟩
      simp [ChunkedBody.wire, SizeLine.wire, line]
    · next hpos =>
      obtain ⟨c, t, rfl, hlen, d', rfl, ⟨chunks, last, hzero, trailers⟩, rfl, rfl⟩ := hline
      have hc : c ≠ [] := by
        rintro rfl
        exact hpos hlen.symm
      refine ⟨⟨⟨line, c, hc, hlen.symm⟩ :: chunks, last, hzero, trailers⟩, ?_, ?_⟩
      · simp [ChunkedBody.wire, SizeLine.wire, Chunk.wire, line]
      · simp [ChunkedBody.data]

theorem hexDigit_spec : ∀ b : UInt8, (hexDigit b).isSome = isAsciiHexdigit b ∧
    ((hexDigit b).getD 0).toNat < 16 ∧
    (isAsciiHexdigit b = true → b ≠ 0x3b ∧ b ≠ cr) :=
  forall_octet (by decide +kernel)

theorem shiftHex_eq (hex : ℕ) {nibble : UInt8} (h : nibble.toNat < 16) :
    shiftHex hex nibble = if hex < 2 ^ 60 then some (16 * hex + nibble.toNat) else none := by
  have hor : hex <<< 4 ||| nibble.toNat = 16 * hex + nibble.toNat := by
    rw [← Nat.shiftLeft_add_eq_or_of_lt (by simpa using h), Nat.shiftLeft_eq]
    omega
  rw [shiftHex, hor, Nat.shiftRight_eq_div_pow]
  by_cases hlt : hex < 2 ^ 60
  · rw [if_pos hlt, if_neg (not_not.mpr (Nat.div_eq_of_lt hlt))]
  · have hne : hex / 2 ^ 60 ≠ 0 := by
      have := Nat.div_pos (not_lt.mp hlt) (by decide)
      omega
    rw [if_neg hlt, if_pos hne]

theorem le_hexValue (acc : ℕ) (digits : Bytes) : acc ≤ hexValue acc digits :=
  le_foldl (fun _ _ => by omega) acc digits

theorem hexValue_cons (acc : ℕ) (b : UInt8) (digits : Bytes) :
    hexValue acc (b :: digits) = hexValue (16 * acc + ((hexDigit b).getD 0).toNat) digits := rfl

theorem completes_size_cons {hex : ℕ} {hasDigit : Bool} :
    Completes (.size hex hasDigit) (a :: w) d ↔
      Completes (Phase.step (.size hex hasDigit) a) w d := by
  obtain ⟨hsome, hlt, hne⟩ := hexDigit_spec a
  cases hd : hexDigit a with
  | some nibble =>
    have ha : isAsciiHexdigit a = true := by rw [← hsome, hd]; rfl
    rw [hd, Option.getD_some] at hlt
    have hval : ∀ ds, hexValue hex (a :: ds) = hexValue (16 * hex + nibble.toNat) ds := by
      intro ds
      rw [hexValue_cons, hd, Option.getD_some]
    -- a digit is neither `;` nor CR, so it belongs to the digits
    have hpeel : Completes (.size hex hasDigit) (a :: w) d ↔
        hex < 2 ^ 60 ∧ Completes (.size (16 * hex + nibble.toNat) true) w d := by
      constructor
      · rintro ⟨digits, t, hw, hhex, -, hfits, hafter⟩
        cases digits with
        | nil =>
          rw [nil_append] at hw
          subst hw
          rcases afterDigits_cons.mp hafter with ⟨h, -⟩ | ⟨h, -⟩
          · exact absurd h (hne ha).1
          · exact absurd h (hne ha).2
        | cons b digits =>
          obtain ⟨rfl, rfl⟩ := cons.inj hw
          rw [hval] at hfits hafter
          replace hfits := hfits.resolve_left (by simp)
          have hge := le_hexValue (16 * hex + nibble.toNat) digits
          exact ⟨by omega, digits, t, rfl, fun b hb => hhex b (by simp [hb]), .inl rfl,
            .inr hfits, hafter⟩
      · rintro ⟨hsmall, digits, t, rfl, hhex, -, hfits, hafter⟩
        refine ⟨a :: digits, t, rfl, ?_, .inr (by simp), .inr ?_, by rwa [hval]⟩
        swap
        · rw [hval]
          rcases hfits with rfl | hfits
          · rw [hexValue, foldl_nil]
            omega
          · exact hfits
        intro b hb
        rcases mem_cons.mp hb with rfl | hb
        · exact ha
        · exact hhex b hb
    rw [hpeel]
    simp only [Phase.step, hd, shiftHex_eq hex hlt]
    by_cases hhex : hex < 2 ^ 60
    · simp only [hhex, true_and, if_true]
    · simp only [hhex, false_and, if_false]
      rfl
  | none =>
    have ha : isAsciiHexdigit a = false := by rw [← hsome, hd]; rfl
    have hpeel : Completes (.size hex hasDigit) (a :: w) d ↔
        hasDigit = true ∧ AfterDigits hex (a :: w) d := by
      constructor
      · rintro ⟨digits, t, hw, hhex, hhas, -, hafter⟩
        cases digits with
        | nil =>
          rw [nil_append] at hw
          subst hw
          exact ⟨by simpa using hhas, hafter⟩
        | cons b digits =>
          obtain ⟨rfl, rfl⟩ := cons.inj hw
          simp [ha] at hhex
      · rintro ⟨hhas, hafter⟩
        exact ⟨[], a :: w, rfl, by simp, .inl hhas, .inl rfl, hafter⟩
    rw [hpeel, afterDigits_cons]
    simp only [Phase.step, hd]
    have hdistinct : (0x3b : UInt8) ≠ cr := by decide
    by_cases hext : a = 0x3b
    · subst hext
      cases hasDigit <;> simp [hdistinct]
    · cases hasDigit <;> by_cases hcr : a = cr
      all_goals simp [hext, hcr, hdistinct.symm]

theorem isTextOctet_cr : isTextOctet cr = false := by decide

theorem exists_text_cons :
    (∃ l t, a :: w = l ++ (crlf ++ t) ∧ (∀ b ∈ l, isTextOctet b = true) ∧ Q l t) ↔
      if a = cr then ∃ t, w = lf :: t ∧ Q [] t
      else isTextOctet a = true ∧
        ∃ l t, w = l ++ (crlf ++ t) ∧ (∀ b ∈ l, isTextOctet b = true) ∧ Q (a :: l) t := by
  rw [exists_line_cons (Q := fun l t => (∀ b ∈ l, isTextOctet b = true) ∧ Q l t)]
  by_cases ha : a = cr
  · subst ha
    simp [isTextOctet_cr]
  · simp only [ha, false_and, false_or, if_false, forall_mem_cons]
    constructor
    · rintro ⟨l, t, hw, ⟨htext, hl⟩, hQ⟩
      exact ⟨htext, l, t, hw, hl, hQ⟩
    · rintro ⟨htext, l, t, hw, hl, hQ⟩
      exact ⟨l, t, hw, ⟨htext, hl⟩, hQ⟩

theorem completes_sizeExt_cons :
    Completes (.sizeExt n) (a :: w) d ↔ Completes (Phase.step (.sizeExt n) a) w d := by
  rw [Completes, exists_text_cons (Q := fun _ t => AfterLine n t d)]
  simp only [Phase.step, isFieldValueByte_eq]
  by_cases hcr : a = cr
  · simp only [hcr, if_true]
    rfl
  · by_cases htext : isTextOctet a = true
    · simp only [hcr, htext, if_false, if_true, true_and]
      rfl
    · simp [hcr, htext]

theorem completes_sizeCrlf_cons :
    Completes (.sizeCrlf n) (a :: w) d ↔ Completes (Phase.step (.sizeCrlf n) a) w d := by
  by_cases hlf : a = lf
  · subst hlf
    by_cases hn : n = 0
    · simp [Completes, Phase.step, AfterLine, hn]
    · simp [Completes, Phase.step, AfterLine, hn]
  · simp [Completes, Phase.step, hlf]

theorem completes_data_zero : Completes (.data 0) w d ↔ Completes (.dataCrlf false) w d := by
  simp [Completes]

theorem completes_data_cons :
    Completes (.data (n + 1)) (a :: w) d ↔
      ∃ d', Completes (if n = 0 then .dataCrlf false else .data n) w d' ∧ d = [a] ++ d' := by
  have hnext : ∀ d', Completes (if n = 0 then .dataCrlf false else .data n) w d' ↔
      Completes (.data n) w d' := by
    intro d'
    by_cases hn : n = 0
    · rw [if_pos hn, hn, completes_data_zero]
    · rw [if_neg hn]
  simp only [hnext]
  rw [Completes, exists_line_cons (Q := fun c t => c.length = n + 1 ∧ ∃ d', d = c ++ d' ∧
    IsBody t d')]
  constructor
  · rintro (⟨-, t, -, hlen, -⟩ | ⟨c, t, hw, hlen, d', rfl, hbody⟩)
    · simp at hlen
    · exact ⟨c ++ d', ⟨c, t, hw, by simpa using hlen, d', rfl, hbody⟩, rfl⟩
  · rintro ⟨d', ⟨c, t, hw, hlen, d'', rfl, hbody⟩, rfl⟩
    exact .inr ⟨c, t, hw, by simpa using hlen, d'', rfl, hbody⟩

theorem completes_dataCrlf_cons {sawCr : Bool} :
    Completes (.dataCrlf sawCr) (a :: w) d ↔ Completes (Phase.step (.dataCrlf sawCr) a) w d := by
  cases sawCr with
  | false => by_cases ha : a = cr <;> simp [Completes, Phase.step, ha]
  | true =>
    by_cases ha : a = lf
    · subst ha
      rw [show Phase.step (.dataCrlf true) lf = .start from rfl, ← isBody_iff]
      simp [Completes]
    · simp [Completes, Phase.step, ha]

theorem completes_trailerLineStart_cons :
    Completes .trailerLineStart (a :: w) d ↔ Completes (Phase.step .trailerLineStart a) w d := by
  rw [Completes, isTrailers_cons]
  simp only [Phase.step, isFieldValueByte_eq]
  by_cases hcr : a = cr
  · subst hcr
    simp [Completes, isTextOctet_cr]
  by_cases hname : a ∈ [sp, htab, colon]
  · have hbad : a = sp ∨ a = htab ∨ a = colon := by simpa using hname
    simp [hcr, hbad, hname]
  · have hgood : ¬ (a = sp ∨ a = htab ∨ a = colon) := by simpa using hname
    by_cases htext : isTextOctet a = true
    · by_cases hd : d = []
      · subst hd
        simp [hcr, hgood, htext]
      · simp [hcr, hgood, htext, hd, Completes]
    · simp [hcr, hgood, htext]

theorem completes_trailerLine_cons {sawColon : Bool} :
    Completes (.trailerLine sawColon) (a :: w) d ↔
      Completes (Phase.step (.trailerLine sawColon) a) w d := by
  rw [Completes, exists_text_cons (Q := fun l t => (sawColon = true ∨ colon ∈ l) ∧
    IsTrailers t ∧ d = [])]
  simp only [Phase.step, isFieldValueByte_eq]
  by_cases hcr : a = cr
  · subst hcr
    have hline : cr ≠ colon ∧ cr ≠ htab := by decide
    cases sawColon with
    | false => simp [isTextOctet_cr, hline]
    | true => simp [Completes]
  by_cases hcolon : a = colon
  · subst hcolon
    simp [Completes, hcr, show isTextOctet colon = true by decide]
  have hmem : ∀ l, colon ∈ a :: l ↔ colon ∈ l := fun l => by simp [Ne.symm hcolon]
  by_cases htab : a = htab
  · subst htab
    simp [Completes, hcr, hcolon, hmem, show isTextOctet Lib.htab = true by decide]
  by_cases htext : isTextOctet a = true
  · simp [Completes, hcr, hcolon, htab, hmem, htext]
  · simp [hcr, hcolon, htab, htext]

theorem completes_trailerCr_cons {blank : Bool} :
    Completes (.trailerCr blank) (a :: w) d ↔ Completes (Phase.step (.trailerCr blank) a) w d := by
  cases blank <;> by_cases ha : a = lf <;> simp [Completes, Phase.step, ha]

theorem completes_nil {p : Phase} : Completes p [] d ↔ p.isDone = true ∧ d = [] := by
  cases p with
  | dataCrlf sawCr => cases sawCr <;> simp [Completes, Phase.isDone]
  | trailerCr blank => cases blank <;> simp [Completes, Phase.isDone]
  | trailerLineStart => simp [Completes, Phase.isDone, not_isTrailers_nil]
  | size hex hasDigit =>
    simp only [Phase.isDone, Bool.false_eq_true, false_and, iff_false]
    rintro ⟨digits, t, hw, -, -, -, hafter⟩
    obtain ⟨rfl, rfl⟩ := append_eq_nil_iff.mp hw.symm
    exact not_afterDigits_nil hafter
  | _ => simp [Completes, Phase.isDone]

/-- Each octet moves the observer to the derivative of the chunked language. -/
theorem chunkedObserver_recognises : chunkedObserver.Recognises Completes where
  nil := completes_nil
  cons := by
    intro p a w d hgo
    have houter : ∀ q : Phase, (∃ d', Completes q w d' ∧ d = [] ++ d') ↔ Completes q w d := by
      simp
    cases p with
    | size hex hasDigit => exact completes_size_cons.trans (houter _).symm
    | sizeExt n => exact completes_sizeExt_cons.trans (houter _).symm
    | sizeCrlf n => exact completes_sizeCrlf_cons.trans (houter _).symm
    | data n =>
      cases n with
      | zero =>
        exact (completes_data_zero.trans completes_dataCrlf_cons).trans (houter _).symm
      | succ n => exact completes_data_cons
    | dataCrlf sawCr => exact completes_dataCrlf_cons.trans (houter _).symm
    | trailerLineStart => exact completes_trailerLineStart_cons.trans (houter _).symm
    | trailerLine sawColon => exact completes_trailerLine_cons.trans (houter _).symm
    | trailerCr blank => exact completes_trailerCr_cons.trans (houter _).symm
    | done | broken => cases hgo
  done_cons := by
    intro p a w d hdone h
    cases p <;> simp_all [chunkedObserver, Phase.isDone, Completes]
  broken := by
    intro p w d hbroken h
    cases p <;> simp_all [chunkedObserver, Phase.isBroken, Completes]

end

theorem IsBody.complete {w d : Bytes} (h : IsBody w d) (rest : Bytes) :
    chunkedObserver.done (chunkedObserver.consume .start (w ++ rest)).state = true ∧
      (chunkedObserver.consume .start (w ++ rest)).count = w.length ∧
      (chunkedObserver.consume .start (w ++ rest)).out = d :=
  chunkedObserver_recognises.complete (isBody_iff.mp h) rest

/-- Short of its last octet, a body leaves the observer waiting. -/
theorem IsBody.cut {w d : Bytes} (h : IsBody w d) {slices : List Bytes}
    (hcut : slices.flatten <+: w) (hne : slices.flatten ≠ w) :
    (new.decodeAll [] slices).1.isTerminated = false ∧
      (new.decodeAll [] slices).1.isBroken = false := by
  obtain ⟨more, hmore⟩ := hcut
  obtain ⟨-, hcount, -⟩ := h.complete []
  rw [append_nil, ← hmore, chunkedObserver.consume_append, length_append] at hcount
  have hphase : (new.decodeAll [] slices).1.phase =
      (chunkedObserver.consume .start slices.flatten).state := by
    rw [decodeAll_eq, Observer.feed_eq]
    rfl
  have hlive : chunkedObserver.stopped (chunkedObserver.consume .start slices.flatten).state =
      false := by
    by_contra hstop
    have hle := chunkedObserver.count_le .start slices.flatten
    rw [chunkedObserver.consume_of_stopped (by simpa using hstop)] at hcount
    have hnil : more = [] := length_eq_zero_iff.mp (by dsimp only at hcount; omega)
    exact hne (by rw [← hmore, hnil, append_nil])
  rw [← hphase] at hlive
  exact Bool.or_eq_false_iff.mp hlive

/-- However a stream is cut into slices, it terminates the observer exactly when it
begins with a chunked body; that body is what was consumed, its message what was
decoded. A stream that has terminated or broken consumes nothing more. -/
theorem decodeAll_terminated_iff_body (slices : List Bytes) :
    ((new.decodeAll [] slices).1.isTerminated = true ↔
      ∃ body : ChunkedBody isTextOctet, body.wire <+: slices.flatten) ∧
    (∀ body : ChunkedBody isTextOctet, body.wire <+: slices.flatten →
      (new.decodeAll [] slices).2 = (body.wire, body.data)) ∧
    new.observeAll slices = ((new.decodeAll [] slices).1, (new.decodeAll [] slices).2.1) ∧
    ∀ s : ChunkedStream, (s.isTerminated || s.isBroken) = true → ∀ out more,
      s.decodeAll out more = (s, [], out) ∧ s.observeAll more = (s, []) := by
  have hstart : new.phase = .start := rfl
  refine ⟨?_, ?_, ?_, ?_⟩
  · rw [decodeAll_eq, hstart, Observer.feed_eq]
    refine Iff.trans chunkedObserver_recognises.done_iff ?_
    simp only [← isBody_iff, IsBody]
    constructor
    · rintro ⟨w, d, hpre, body, rfl, -⟩
      exact ⟨body, hpre⟩
    · rintro ⟨body, hpre⟩
      exact ⟨_, _, hpre, body, rfl, rfl⟩
  · rintro body ⟨rest, hrest⟩
    obtain ⟨-, hcount, hout⟩ := IsBody.complete ⟨body, rfl, rfl⟩ rest
    rw [decodeAll_eq, hstart, Observer.feed_eq, ← hrest, hcount, hout]
    simp
  · rw [decodeAll_eq, observeAll_eq]
  · intro s hs out more
    have hstop : chunkedObserver.stopped s.phase = true := hs
    rw [decodeAll_eq, observeAll_eq, chunkedObserver.feed_of_stopped hstop]
    simp

theorem ChunkedBody.exists_sizeLine {ext : UInt8 → Bool} (body : ChunkedBody ext) :
    ∃ (l : SizeLine ext) (rest : Bytes), body.wire = l.wire ++ rest := by
  obtain ⟨chunks, last, hzero, trailers⟩ := body
  cases chunks with
  | nil => exact ⟨last, _, rfl⟩
  | cons c chunks => exact ⟨c.line, _, by simp [ChunkedBody.wire, Chunk.wire]; rfl⟩

/-- A tab in a chunk extension is accepted although it is a control octet. -/
theorem tab_in_extension_terminates :
    (new.decodeAll [] [bytes "0;\t\r\n\r\n"]).1.isTerminated = true ∧
      ¬ ∃ body : ChunkedBody (fun b => !isCtl b), body.wire <+: bytes "0;\t\r\n\r\n" := by
  refine ⟨by decide +kernel, ?_⟩
  rintro ⟨body, tail, htail⟩
  obtain ⟨⟨digits, extension, hne, hhex, _, hext⟩, rest, hwire⟩ := body.exists_sizeLine
  have htext : bytes "0;\t\r\n\r\n" = [0x30, 0x3b, htab, cr, lf, cr, lf] := by decide
  rw [hwire, htext, SizeLine.wire] at htail
  obtain ⟨b, digits, rfl⟩ := exists_cons_of_ne_nil hne
  simp only [cons_append, List.cons.injEq, append_assoc] at htail
  obtain ⟨rfl, htail⟩ := htail
  -- the second octet is no digit and no CR, so it opens an extension
  cases digits with
  | cons b digits =>
    obtain ⟨rfl, -⟩ := cons.inj htail
    exact absurd (hhex 0x3b (by simp)) (by decide)
  | nil =>
    cases extension with
    | none => exact absurd (cons.inj htail).1 (by decide)
    | some e =>
      replace htail := (cons.inj htail).2
      cases e with
      | nil => exact absurd (cons.inj htail).1 (by decide)
      | cons b e =>
        obtain ⟨rfl, -⟩ := cons.inj htail
        exact absurd (hext _ rfl htab (by simp)) (by decide)

end Portail.Http
