import Portail.Http.ChunkedGrammar

/-!
# Where a chunked stream breaks

The observer breaks at the first octet after which no chunked body is possible: every
phase it can reach can be completed. The sizes it keeps are below `2 ^ 64`. In a grammar
whose sizes are not bounded, a size line too long for 64 bits is the one exception.
-/

namespace Portail.Http

open Lib ChunkedStream List Option

/-- The sizes a phase holds are 64-bit, and data is never down to nothing. -/
def Phase.Live : Phase → Prop
  | size hex hasDigit => hex < 2 ^ 64 ∧ (hasDigit = false → hex = 0)
  | sizeExt n => n < 2 ^ 64
  | sizeCrlf n => n < 2 ^ 64
  | data n => 0 < n ∧ n < 2 ^ 64
  | _ => True

theorem shiftHex_lt {hex h : ℕ} {b nibble : UInt8} (hb : hexDigit b = some nibble)
    (hshift : shiftHex hex nibble = some h) : h = 16 * hex + nibble.toNat ∧ h < 2 ^ 64 := by
  have hnibble : nibble.toNat < 16 := by
    have hspec := (hexDigit_spec b).2.1
    rwa [hb] at hspec
  rw [shiftHex_eq hex hnibble] at hshift
  split_ifs at hshift with hlt
  have hvalue := some.inj hshift
  omega

variable {p : Phase}

theorem Phase.Live.step (h : p.Live) (hdata : p.inData = false) (b : UInt8) : (p.step b).Live := by
  cases p with
  | size hex hasDigit =>
    obtain ⟨hhex, -⟩ := h
    simp only [Phase.step]
    cases hb : hexDigit b with simp only
    | none =>
      split_ifs
      · exact hhex
      · exact hhex
      · trivial
    | some nibble =>
      cases hshift : shiftHex hex nibble with
      | none => trivial
      | some h => exact ⟨(shiftHex_lt hb hshift).2, by simp⟩
  | sizeExt n =>
    simp only [Phase.step]
    split_ifs
    · exact h
    · exact h
    · trivial
  | sizeCrlf n =>
    simp only [Phase.step]
    split_ifs with hzero hlf
    · trivial
    · have hpos : n ≠ 0 := fun hn => hzero ⟨hlf, hn⟩
      exact ⟨Nat.pos_of_ne_zero hpos, h⟩
    · trivial
  | data n => cases hdata
  | dataCrlf sawCr =>
    simp only [Phase.step]
    split_ifs
    · trivial
    · exact ⟨by decide, fun _ => rfl⟩
    · trivial
  | trailerLineStart | trailerLine | trailerCr =>
    simp only [Phase.step]
    split_ifs <;> trivial
  | done | broken => trivial

theorem Phase.Live.data {n k : ℕ} (h : (Phase.data n).Live) :
    (if n - k = 0 then Phase.dataCrlf false else .data (n - k)).Live := by
  obtain ⟨-, hlt⟩ := h
  split_ifs with hzero
  · trivial
  · exact ⟨Nat.pos_of_ne_zero hzero, by omega⟩

theorem Phase.Live.observer (h : p.Live) (b : UInt8) : (chunkedObserver.step p b).1.Live := by
  by_cases hdata : p.inData = true
  · cases p with
    | data n =>
      obtain ⟨hpos, hlt⟩ := h
      obtain ⟨r, rfl⟩ : ∃ r, n = r + 1 := ⟨n - 1, by omega⟩
      have hnext := Phase.Live.data (k := 1) (n := r + 1) ⟨hpos, hlt⟩
      exact hnext
    | _ => simp [Phase.inData] at hdata
  · have hdata : p.inData = false := by simpa using hdata
    rw [chunkedObserver_step hdata]
    exact h.step hdata b

theorem Phase.Live.turn (h : p.Live) (input out : Bytes) (i : ℕ) :
    (∀ c, advanceTurn input ⟨p, i, out⟩ = .inl c → c.phase.Live) ∧
      ∀ r, advanceTurn input ⟨p, i, out⟩ = .inr r → r.1.phase.Live := by
  cases hdrop : input.drop i with
  | nil =>
    simp only [advanceTurn, hdrop]
    exact ⟨by simp, by rintro _ ⟨⟩; exact h⟩
  | cons b rest =>
    have hframing (hdata : p.inData = false) (hgo : chunkedObserver.stopped p = false) :
        (∀ c, advanceTurn input ⟨p, i, out⟩ = .inl c → c.phase.Live) ∧
          ∀ r, advanceTurn input ⟨p, i, out⟩ = .inr r → r.1.phase.Live := by
      have hnext := h.step hdata b
      rw [advanceTurn_step out hdrop hdata hgo]
      split_ifs
      · exact ⟨by simp, by rintro _ ⟨⟩; exact hnext⟩
      · exact ⟨by rintro _ ⟨⟩; exact hnext, by simp⟩
    cases p with
    | data n =>
      simp only [advanceTurn, hdrop]
      exact ⟨by rintro _ ⟨⟩; exact h.data, by simp⟩
    | done | broken =>
      simp only [advanceTurn, hdrop]
      exact ⟨by simp, by rintro _ ⟨⟩; trivial⟩
    | _ => exact hframing rfl rfl

/-- The phases a stream goes through, between slices and inside of one. -/
inductive Reaches : Phase → Prop
  | new : Reaches new.phase
  | again {p input out i c} : Reaches p →
      advanceTurn input ⟨p, i, out⟩ = .inl c → Reaches c.phase
  | leave {p input out i r} : Reaches p →
      advanceTurn input ⟨p, i, out⟩ = .inr r → Reaches r.1.phase

theorem Reaches.live (h : Reaches p) : p.Live := by
  induction h with
  | new => exact ⟨by decide, fun _ => rfl⟩
  | again _ hturn ih => exact (ih.turn ..).1 _ hturn
  | leave _ hturn ih => exact (ih.turn ..).2 _ hturn

theorem isTrailers_crlf : IsTrailers crlf := ⟨[], by simp [trailerWire]⟩

theorem isBody_empty : IsBody (bytes "0\r\n\r\n") [] := by
  rw [isBody_iff]
  refine ⟨bytes "0", crlf ++ crlf, by decide, by decide, by decide, .inr (by decide), none, crlf,
    rfl, by simp, ?_⟩
  exact ⟨isTrailers_crlf, rfl⟩

theorem IsBody.cons {w d : Bytes} (h : IsBody w d) (c : Chunk isTextOctet) :
    IsBody (c.wire ++ w) (c.data ++ d) := by
  obtain ⟨body, rfl, rfl⟩ := h
  refine ⟨⟨c :: body.chunks, body.last, body.last_zero, body.trailers⟩, ?_, ?_⟩
  · simp [ChunkedBody.wire]
  · simp [ChunkedBody.data]

theorem exists_afterLine (n : ℕ) : ∃ w d, AfterLine n w d := by
  by_cases hn : n = 0
  · exact ⟨crlf, [], by simp [AfterLine, hn, isTrailers_crlf]⟩
  · refine ⟨List.replicate n 0 ++ (crlf ++ bytes "0\r\n\r\n"), List.replicate n 0 ++ [], ?_⟩
    rw [AfterLine, if_neg hn]
    exact ⟨_, _, rfl, by simp, _, rfl, isBody_empty⟩

/-- Every live phase can be completed. -/
theorem Phase.Live.viable (h : p.Live) (hb : p.isBroken = false) : ∃ w d, Completes p w d := by
  cases p with
  | size hex hasDigit =>
    obtain ⟨-, hzero⟩ := h
    cases hasDigit with
    | true =>
      obtain ⟨w, d, hw⟩ := exists_afterLine hex
      exact ⟨crlf ++ w, d, [], crlf ++ w, rfl, by simp, .inl rfl, .inl rfl, none, w, rfl,
        by simp, hw⟩
    | false =>
      obtain rfl := hzero rfl
      exact ⟨_, _, isBody_iff.mp isBody_empty⟩
  | sizeExt n =>
    obtain ⟨w, d, hw⟩ := exists_afterLine n
    exact ⟨crlf ++ w, d, [], w, rfl, by simp, hw⟩
  | sizeCrlf n =>
    obtain ⟨w, d, hw⟩ := exists_afterLine n
    exact ⟨lf :: w, d, w, rfl, hw⟩
  | data n =>
    exact ⟨List.replicate n 0 ++ (crlf ++ bytes "0\r\n\r\n"), List.replicate n 0 ++ [], _, _,
      rfl, by simp, _, rfl, isBody_empty⟩
  | dataCrlf sawCr =>
    cases sawCr with
    | false => exact ⟨cr :: lf :: bytes "0\r\n\r\n", [], _, rfl, isBody_empty⟩
    | true => exact ⟨lf :: bytes "0\r\n\r\n", [], _, rfl, isBody_empty⟩
  | trailerLineStart => exact ⟨crlf, [], isTrailers_crlf, rfl⟩
  | trailerLine sawColon =>
    exact ⟨[colon] ++ (crlf ++ crlf), [], [colon], crlf, rfl, by decide, .inr (by simp),
      isTrailers_crlf, rfl⟩
  | trailerCr blank =>
    cases blank with
    | true => exact ⟨[lf], [], rfl, rfl⟩
    | false => exact ⟨lf :: crlf, [], crlf, rfl, isTrailers_crlf, rfl⟩
  | done => exact ⟨[], [], rfl, rfl⟩
  | broken => cases hb

section

/-- A size line of any size. -/
structure WideLine where
  digits : Bytes
  extension : Option Bytes
  digits_ne : digits ≠ []
  digits_hex : ∀ b ∈ digits, isAsciiHexdigit b = true
  extension_ok : ∀ e ∈ extension, ∀ b ∈ e, isTextOctet b = true

def WideLine.size (l : WideLine) : ℕ := hexValue 0 l.digits

def WideLine.wire (l : WideLine) : Bytes := l.digits ++ (extensionWire l.extension ++ crlf)

/-- The body grammar without a bound on sizes. -/
inductive WideBody : Bytes → Prop
  | last (l : WideLine) (ts : List TrailerLine) (hsize : l.size = 0) :
      WideBody (l.wire ++ trailerWire ts)
  | chunk (l : WideLine) {data rest} (hne : data ≠ []) (hsize : l.size = data.length) :
      WideBody rest → WideBody (l.wire ++ (data ++ (crlf ++ rest)))

/-- The text ends in the digits of a chunk size that does not fit 64 bits. -/
def OverflowsSize (text : Bytes) : Prop :=
  ∃ (chunks : List (Chunk isTextOctet)) (digits : Bytes),
    text = chunks.flatMap Chunk.wire ++ digits ∧ (∀ b ∈ digits, isAsciiHexdigit b = true) ∧
      2 ^ 64 ≤ hexValue 0 digits

def WideLine.bounded (l : WideLine) (h : l.size < 2 ^ 64) : SizeLine isTextOctet :=
  ⟨l.digits, l.extension, l.digits_ne, l.digits_hex, h, l.extension_ok⟩

variable {hex : ℕ} {text : Bytes}

theorem step_size_digit (hasDigit : Bool) {b : UInt8} (hb : isAsciiHexdigit b = true) :
    chunkedObserver.step (.size hex hasDigit) b =
      if 16 * hex + ((hexDigit b).getD 0).toNat < 2 ^ 64 then
        (.size (16 * hex + ((hexDigit b).getD 0).toNat) true, [])
      else (.broken, []) := by
  obtain ⟨hsome, hnibble, -⟩ := hexDigit_spec b
  rw [hb] at hsome
  obtain ⟨nibble, hdigit⟩ := isSome_iff_exists.mp hsome
  rw [hdigit, getD_some] at hnibble ⊢
  rw [chunkedObserver_step rfl]
  have hfits : hex < 2 ^ 60 ↔ 16 * hex + nibble.toNat < 2 ^ 64 := by omega
  simp only [Phase.step, hdigit, shiftHex_eq hex hnibble, hfits]
  split_ifs <;> rfl

theorem consume_digits {digits : Bytes} (hhex : ∀ b ∈ digits, isAsciiHexdigit b = true)
    (hasDigit : Bool) (hlt : hexValue hex digits < 2 ^ 64) :
    (chunkedObserver.consume (.size hex hasDigit) digits).state =
      .size (hexValue hex digits) (hasDigit || !digits.isEmpty) := by
  induction digits generalizing hex hasDigit with
  | nil => simp [Observer.consume, hexValue]
  | cons b digits ih =>
    rw [hexValue_cons] at hlt ⊢
    have hstep := (step_size_digit hasDigit (hhex b (by simp))).trans
      (if_pos (lt_of_le_of_lt (le_hexValue _ _) hlt))
    rw [chunkedObserver.consume_cons rfl (by rw [hstep]; rfl), hstep]
    simp [ih (fun c hc => hhex c (by simp [hc])) true hlt]

/-- The digits of a size that does not: the machine breaks where the value gets too large. -/
theorem consume_overflow {digits : Bytes} (hhex : ∀ b ∈ digits, isAsciiHexdigit b = true) (hex : ℕ)
    (hasDigit : Bool) (hsmall : hex < 2 ^ 64) (hge : 2 ^ 64 ≤ hexValue hex digits) :
    chunkedObserver.broken (chunkedObserver.consume (.size hex hasDigit) digits).state = true ∧
      2 ^ 64 ≤ hexValue hex
        (digits.take ((chunkedObserver.consume (.size hex hasDigit) digits).count + 1)) := by
  induction digits generalizing hex hasDigit with
  | nil =>
    simp only [hexValue, foldl_nil] at hge
    omega
  | cons b digits ih =>
    have hb := hhex b (by simp)
    by_cases hnext : 16 * hex + ((hexDigit b).getD 0).toNat < 2 ^ 64
    · have hstep := (step_size_digit hasDigit hb).trans (if_pos hnext)
      rw [chunkedObserver.consume_cons rfl (by rw [hstep]; rfl), hstep]
      exact ih (fun c hc => hhex c (by simp [hc])) _ true hnext hge
    · have hstep := (step_size_digit hasDigit hb).trans (if_neg hnext)
      rw [chunkedObserver.consume_break rfl (by rw [hstep]; rfl), hstep]
      exact ⟨rfl, not_lt.mp hnext⟩

theorem consume_text {n : ℕ} {e : Bytes} (he : ∀ b ∈ e, isTextOctet b = true) :
    (chunkedObserver.consume (.sizeExt n) e).state = .sizeExt n := by
  induction e with
  | nil => rfl
  | cons b e ih =>
    have hb := he b (by simp)
    have hcr : b ≠ cr := by
      rintro rfl
      simp [isTextOctet_cr] at hb
    have hstep : chunkedObserver.step (.sizeExt n) b = (.sizeExt n, []) := by
      rw [chunkedObserver_step rfl]
      simp [Phase.step, hcr, isFieldValueByte_eq, hb]
    rw [chunkedObserver.consume_cons rfl (by rw [hstep]; rfl), hstep]
    exact ih fun c hc => he c (by simp [hc])

theorem consume_lineEnd {n : ℕ} (hn : n ≠ 0) {extension : Option Bytes}
    (hext : ∀ e ∈ extension, ∀ b ∈ e, isTextOctet b = true) :
    (chunkedObserver.consume (.size n true) (extensionWire extension ++ crlf)).state = .data n := by
  have hcrlf {p : Phase} (hp : chunkedObserver.step p cr = (.sizeCrlf n, []))
      (hgo : chunkedObserver.stopped p = false) :
      (chunkedObserver.consume p crlf).state = .data n := by
    have hlf : chunkedObserver.step (.sizeCrlf n) lf = (.data n, []) := by
      rw [chunkedObserver_step rfl]
      simp [Phase.step, hn]
    rw [crlf, chunkedObserver.consume_cons hgo (by rw [hp]; rfl), hp,
      chunkedObserver.consume_cons rfl (by rw [hlf]; rfl), hlf]
    rfl
  cases extension with
  | none => exact hcrlf (p := .size n true) rfl rfl
  | some e =>
    have hopen : chunkedObserver.step (.size n true) 0x3b = (.sizeExt n, []) := rfl
    rw [extensionWire, cons_append, chunkedObserver.consume_cons rfl (by rw [hopen]; rfl),
      hopen, chunkedObserver.consume_append]
    simp only [consume_text (hext e rfl)]
    exact hcrlf (p := .sizeExt n) rfl rfl

/-- A whole chunk leads from the start of a size line to the next one. -/
theorem consume_chunk (c : Chunk isTextOctet) :
    (chunkedObserver.consume .start c.wire).state = .start := by
  have hsize : hexValue 0 c.line.digits = c.data.length := c.size_eq
  have hpos : c.data.length ≠ 0 := by simpa using c.data_ne
  have hdigits := consume_digits c.line.digits_hex false c.line.size_lt
  have hne : (false || !c.line.digits.isEmpty) = true := by simpa using c.line.digits_ne
  rw [hsize, hne] at hdigits
  have hline := consume_lineEnd hpos c.line.extension_ok
  have hdata : (chunkedObserver.consume (.data c.data.length) c.data).state = .dataCrlf false := by
    rw [consume_data _ c.data_ne]
    simp [Observer.consume]
  have hend : (chunkedObserver.consume (.dataCrlf false) crlf).state = .start := by decide
  rw [Chunk.wire, SizeLine.wire, append_assoc, chunkedObserver.consume_append]
  simp only
  rw [show Phase.start = .size 0 false from rfl, hdigits, chunkedObserver.consume_append]
  simp only
  rw [hline, chunkedObserver.consume_append]
  simp only
  rw [hdata, hend]
  rfl

/-- A break comes at the first octet after which no body is possible. -/
theorem broken_start
    (h : chunkedObserver.broken (chunkedObserver.consume .start text).state = true) :
    (chunkedObserver.consume .start text).count < text.length ∧
      (∃ w d, IsBody (text.take (chunkedObserver.consume .start text).count ++ w) d) ∧
      ¬ ∃ w d, IsBody (text.take ((chunkedObserver.consume .start text).count + 1) ++ w) d := by
  simp only [isBody_iff]
  exact chunkedObserver_recognises.broken_first (fun _ b hlive _ => hlive.observer b)
    (fun _ hlive hb => hlive.viable hb) Reaches.new.live rfl h

theorem OverflowsSize.cons (h : OverflowsSize text) (c : Chunk isTextOctet) :
    OverflowsSize (c.wire ++ text) := by
  obtain ⟨chunks, digits, rfl, hhex, hge⟩ := h
  exact ⟨c :: chunks, digits, by simp, hhex, hge⟩

/-- A text that breaks the machine at its last octet, and can go on in the wide grammar, ends in
digits of too large a size. -/
theorem WideBody.overflows {body : Bytes} (h : WideBody body) {w : Bytes} (hbody : body = text ++ w)
    (hbroken : chunkedObserver.broken (chunkedObserver.consume .start text).state = true)
    (hlast : (chunkedObserver.consume .start text).count + 1 = text.length) :
    OverflowsSize text := by
  induction h generalizing text with
  | last l ts hsize =>
    exfalso
    have hlt : l.size < 2 ^ 64 := by omega
    obtain ⟨hdone, -⟩ := IsBody.complete ⟨⟨[], l.bounded hlt, hsize, ts⟩, rfl, rfl⟩ []
    have hwire : ChunkedBody.wire ⟨[], l.bounded hlt, hsize, ts⟩ ++ [] = text ++ w := by
      rw [append_nil, ← hbody]
      rfl
    rw [hwire, (chunkedObserver.consume_append_broken hbroken w).1] at hdone
    generalize (chunkedObserver.consume .start text).state = p at hdone hbroken
    cases p with
    | broken => cases hdone
    | _ => cases hbroken
  | @chunk l data rest hne hsize hrest ih =>
    by_cases hlt : l.size < 2 ^ 64
    · let c : Chunk isTextOctet := ⟨l.bounded hlt, data, hne, hsize⟩
      have hc := consume_chunk c
      have hwire : c.wire ++ rest = text ++ w := by
        rw [← hbody]
        simp [c, Chunk.wire, SizeLine.wire, WideLine.wire, WideLine.bounded]
      rcases append_eq_append_iff.mp hwire with ⟨a, rfl, rfl⟩ | ⟨b, hcut, rfl⟩
      · have hcount : (chunkedObserver.consume .start c.wire).count = c.wire.length := by
          rcases chunkedObserver.count_eq_or_stopped .start c.wire with hcount | hstop
          · exact hcount
          · rw [hc] at hstop
            cases hstop
        rw [chunkedObserver.consume_append, hc] at hbroken hlast
        simp only [hcount, length_append] at hlast
        exact (ih rfl hbroken (by omega)).cons c
      · exfalso
        rw [hcut, (chunkedObserver.consume_append_broken hbroken b).1] at hc
        rw [hc] at hbroken
        cases hbroken
    · obtain ⟨hdigits, hge⟩ :=
        consume_overflow l.digits_hex 0 false (by decide) (not_lt.mp hlt)
      obtain ⟨hshort, -⟩ := broken_start hdigits
      have hprefix : text ++ w = l.digits ++ (extensionWire l.extension ++ crlf ++
          (data ++ (crlf ++ rest))) := by
        rw [← hbody]
        simp [WideLine.wire]
      have hsame : (chunkedObserver.consume .start text).count =
          (chunkedObserver.consume .start l.digits).count := by
        rw [← (chunkedObserver.consume_append_broken hbroken w).2, hprefix]
        exact (chunkedObserver.consume_append_broken hdigits _).2
      have htext : text = l.digits.take ((chunkedObserver.consume .start l.digits).count + 1) := by
        have htake := congrArg (List.take text.length) hprefix
        rw [take_left, take_append_of_le_length (by omega), ← hlast, hsame] at htake
        exact htake
      refine ⟨[], text, rfl, fun b hb => l.digits_hex b ?_, ?_⟩
      · rw [htext] at hb
        exact mem_of_mem_take hb
      · rw [htext]
        exact hge

theorem wideBody_empty : WideBody (bytes "0\r\n\r\n") :=
  WideBody.last ⟨bytes "0", none, by decide, by decide, by simp⟩ [] rfl

theorem WideBody.cons {rest : Bytes} (h : WideBody rest) (c : Chunk isTextOctet) :
    WideBody (c.wire ++ rest) := by
  have hwide := WideBody.chunk ⟨c.line.digits, c.line.extension, c.line.digits_ne,
    c.line.digits_hex, c.line.extension_ok⟩ c.data_ne c.size_eq h
  simpa [WideLine.wire, Chunk.wire, SizeLine.wire] using hwide

/-- Too large a size has a body all the same. -/
theorem OverflowsSize.exists_wide (h : OverflowsSize text) : ∃ w, WideBody (text ++ w) := by
  obtain ⟨chunks, digits, rfl, hhex, hge⟩ := h
  have hpos : hexValue 0 digits ≠ 0 := by omega
  have hne : digits ≠ [] := by
    rintro rfl
    exact hpos rfl
  refine ⟨crlf ++ (List.replicate (hexValue 0 digits) 0 ++ (crlf ++ bytes "0\r\n\r\n")), ?_⟩
  induction chunks with
  | nil =>
    have hdata : List.replicate (hexValue 0 digits) (0 : UInt8) ≠ [] := by
      rwa [Ne, replicate_eq_nil_iff]
    have hwide := WideBody.chunk ⟨digits, none, hne, hhex, by simp⟩ hdata (by simp [WideLine.size])
      wideBody_empty
    simpa [WideLine.wire, extensionWire] using hwide
  | cons c chunks ih =>
    rw [flatMap_cons, append_assoc, append_assoc]
    rw [append_assoc] at ih
    exact ih.cons c

end

/-- The machine breaks at the first octet after which no chunked body is possible; with sizes of
any length one is possible only where a size gets too large for 64 bits. The phases it goes through
hold 64-bit sizes, a digit never wraps one, and none is data with nothing left: at least one octet
of it is passed over in bulk. -/
theorem breaks_at_first_offence :
    (∀ text : Bytes, (new.observe text).1.isBroken = true →
      (new.observe text).2 < text.length ∧
      (∃ w d, IsBody (text.take (new.observe text).2 ++ w) d) ∧
      (¬ ∃ w d, IsBody (text.take ((new.observe text).2 + 1) ++ w) d) ∧
      ((∃ w, WideBody (text.take ((new.observe text).2 + 1) ++ w)) ↔
        OverflowsSize (text.take ((new.observe text).2 + 1)))) ∧
    (∀ p, Reaches p → p.Live) ∧
    (∀ n, Reaches (.data n) → ∀ (input out : Bytes) (i : ℕ), i < input.length →
      ∃ k, 0 < k ∧ advanceTurn input ⟨.data n, i, out⟩ =
        .inl ⟨if n - k = 0 then .dataCrlf false else .data (n - k), i + k,
          out ++ (input.drop i).take k⟩) ∧
    ∀ hex hasDigit, Reaches (.size hex hasDigit) → ∀ b nibble h, hexDigit b = some nibble →
      shiftHex hex nibble = some h → h = 16 * hex + nibble.toNat ∧ h < 2 ^ 64 := by
  refine ⟨fun text hbroken => ?_, fun p hp => hp.live, fun n hn input out i hi => ?_,
    fun hex hasDigit _ b nibble h hb hshift => shiftHex_lt hb hshift⟩
  · have hstart : new.phase = .start := rfl
    simp only [observe, advance_eq, hstart] at hbroken ⊢
    have hbreak : chunkedObserver.broken (chunkedObserver.consume .start text).state = true :=
      hbroken
    obtain ⟨hlt, hbefore, hafter⟩ := broken_start hbreak
    refine ⟨hlt, hbefore, hafter, ?_, OverflowsSize.exists_wide⟩
    rintro ⟨w, hw⟩
    -- the machine breaks on the text cut after the offence, at its last octet
    have hcut := chunkedObserver.consume_take_broken hbreak
    refine hw.overflows rfl ?_ ?_
    · rwa [hcut]
    · rw [hcut, length_take]
      omega
  · obtain ⟨hpos, -⟩ := hn.live
    cases hdrop : input.drop i with
    | nil =>
      have hle := drop_eq_nil_iff.mp hdrop
      omega
    | cons b rest =>
      refine ⟨min n (rest.length + 1), by omega, ?_⟩
      simp only [advanceTurn, hdrop]

end Portail.Http
