import Portail.Lib.Loop
import Portail.Lib.Observer
import Portail.Http.ByteClass

/-!
# The chunked stream observer

`chunked.rs`: a state machine that follows a `Transfer-Encoding: chunked` body
through the slices in which it is relayed. Chunk data is skipped in bulk; the
machine proper only sees framing octets.
-/

namespace Portail.Http

open Lib List Bool

inductive Phase
  | size (hex : ℕ) (hasDigit : Bool)
  | sizeExt (size : ℕ)
  | sizeCrlf (size : ℕ)
  | data (remaining : ℕ)
  | dataCrlf (sawCr : Bool)
  | trailerLineStart
  | trailerLine (sawColon : Bool)
  | trailerCr (blank : Bool)
  | done
  | broken
  deriving DecidableEq, Repr

/-- Shifts a 64-bit hex accumulator left by one nibble; `none` on overflow. -/
def shiftHex (hex : ℕ) (nibble : UInt8) : Option ℕ :=
  if hex >>> 60 ≠ 0 then none else some (hex <<< 4 ||| nibble.toNat)

/-- The value of a hex digit, in either case. -/
def hexDigit (b : UInt8) : Option UInt8 :=
  if 0x30 ≤ b ∧ b ≤ 0x39 then some (b - 0x30)
  else if 0x61 ≤ b ∧ b ≤ 0x66 then some (b - 0x61 + 10)
  else if 0x41 ≤ b ∧ b ≤ 0x46 then some (b - 0x41 + 10)
  else none

namespace Phase

def isDone : Phase → Bool
  | done => true
  | _ => false

def isBroken : Phase → Bool
  | broken => true
  | _ => false

def inData : Phase → Bool
  | data _ => true
  | _ => false

def start : Phase := size 0 false

/-- One framing octet. -/
def step (phase : Phase) (byte : UInt8) : Phase :=
  match phase with
  | size hex hasDigit =>
    match hexDigit byte with
    | some nibble =>
      match shiftHex hex nibble with
      | some h => size h true
      | none => broken
    | none =>
      if byte = 0x3b ∧ hasDigit then sizeExt hex
      else if byte = cr ∧ hasDigit then sizeCrlf hex
      else broken
  | sizeExt n =>
    if byte = cr then sizeCrlf n
    else if isFieldValueByte byte then sizeExt n
    else broken
  | sizeCrlf n =>
    if byte = lf ∧ n = 0 then trailerLineStart
    else if byte = lf then data n
    else broken
  -- chunk data never gets here, it is skipped in bulk
  | data _ => broken
  | dataCrlf sawCr =>
    if sawCr = false ∧ byte = cr then dataCrlf true
    else if sawCr = true ∧ byte = lf then start
    else broken
  | trailerLineStart =>
    if byte = cr then trailerCr true
    else if byte = sp ∨ byte = htab ∨ byte = colon then broken
    else if !isFieldValueByte byte then broken
    else trailerLine false
  | trailerLine sawColon =>
    if byte = cr ∧ sawColon then trailerCr false
    else if byte = colon then trailerLine true
    else if byte = htab then trailerLine sawColon
    else if !isFieldValueByte byte then broken
    else trailerLine sawColon
  | trailerCr blank =>
    if byte = lf ∧ blank then done
    else if byte = lf then trailerLineStart
    else broken
  | done => broken
  | broken => broken

end Phase

structure ChunkedStream where
  phase : Phase
  deriving DecidableEq, Repr

namespace ChunkedStream

/-- An observer positioned at the first chunk-size line. -/
def new : ChunkedStream := ⟨.start⟩

def isTerminated (s : ChunkedStream) : Bool := s.phase.isDone

/-- The framing was found malformed. -/
def isBroken (s : ChunkedStream) : Bool := s.phase.isBroken

/-- The locals of `advance`: the machine, the read index, the payload handed on so far. -/
structure Cursor where
  phase : Phase
  i : ℕ
  out : Bytes

/-- Rank of a cursor: a turn in `data` may move the phase only. -/
def Cursor.rank (input : Bytes) (c : Cursor) : ℕ :=
  2 * (input.length - c.i) + c.phase.inData.toNat

def advanceTurn (input : Bytes) (c : Cursor) : Cursor ⊕ (ChunkedStream × ℕ × Bytes) :=
  match input.drop c.i with
  | [] => .inr (⟨c.phase⟩, c.i, c.out)
  | byte :: rest =>
    match c.phase with
    | .done => .inr (⟨.done⟩, c.i, c.out)
    | .broken => .inr (⟨.broken⟩, 0, c.out)
    | .data remaining =>
      let take := min remaining (rest.length + 1)
      let left := remaining - take
      .inl ⟨if left = 0 then .dataCrlf false else .data left, c.i + take,
        c.out ++ (byte :: rest).take take⟩
    | phase =>
      let next := phase.step byte
      if next.isBroken then .inr (⟨next⟩, c.i, c.out) else .inl ⟨next, c.i + 1, c.out⟩

theorem advanceTurn_rank {input : Bytes} {c c' : Cursor} (h : advanceTurn input c = .inl c') :
    c'.rank input < c.rank input := by
  unfold advanceTurn at h
  split at h
  · cases h
  · next byte rest hdrop =>
    have hlen : (input.drop c.i).length = rest.length + 1 := by rw [hdrop]; rfl
    rw [length_drop] at hlen
    split at h
    · cases h
    · cases h
    · next remaining hphase =>
      cases h
      simp only [Cursor.rank, hphase]
      by_cases hleft : remaining - min remaining (rest.length + 1) = 0
      · simp only [if_pos hleft, Phase.inData, toNat_true, toNat_false]
        omega
      · simp only [if_neg hleft, Phase.inData, toNat_true]
        omega
    · dsimp only at h
      split at h
      · cases h
      · cases h
        have hle := toNat_le (c.phase.step byte).inData
        simp only [Cursor.rank]
        omega

def advanceLoop (input : Bytes) : Loop Cursor (ChunkedStream × ℕ × Bytes) where
  turn := advanceTurn input
  measure := Cursor.rank input
  decreases := advanceTurn_rank

/-- Drives the machine over one slice: the stream after it, the octets consumed, the
chunk payload met. -/
def advance (s : ChunkedStream) (input : Bytes) : ChunkedStream × ℕ × Bytes :=
  (advanceLoop input).run ⟨s.phase, 0, []⟩

def observe (s : ChunkedStream) (input : Bytes) : ChunkedStream × ℕ :=
  let (s, consumed, _) := s.advance input
  (s, consumed)

/-- Like `observe`, but appends the chunk payloads to `out`. -/
def decodeInto (s : ChunkedStream) (input out : Bytes) : ChunkedStream × ℕ × Bytes :=
  let (s, consumed, data) := s.advance input
  (s, consumed, out ++ data)

/-- Successive slices fed to `observe`, with the octets consumed from each. -/
def observeAll (s : ChunkedStream) : List Bytes → ChunkedStream × Bytes
  | [] => (s, [])
  | slice :: rest =>
    let (s, consumed) := s.observe slice
    let (s, taken) := observeAll s rest
    (s, slice.take consumed ++ taken)

/-- Successive slices fed to `decodeInto`. -/
def decodeAll (s : ChunkedStream) (out : Bytes) : List Bytes → ChunkedStream × Bytes × Bytes
  | [] => (s, [], out)
  | slice :: rest =>
    let (s, consumed, out) := s.decodeInto slice out
    let (s, taken, out) := decodeAll s out rest
    (s, slice.take consumed ++ taken, out)

end ChunkedStream

open ChunkedStream

/-- The same machine octet by octet, chunk data included. -/
def chunkedObserver : Observer Phase UInt8 UInt8 where
  step
    | .data 0, b => (Phase.step (.dataCrlf false) b, [])
    | .data (r + 1), b => (if r = 0 then .dataCrlf false else .data r, [b])
    | p, b => (p.step b, [])
  done := Phase.isDone
  broken := Phase.isBroken

/-- Skipping chunk data in bulk is walking over it. -/
theorem consume_data (r : ℕ) {xs : Bytes} (hxs : xs ≠ []) :
    chunkedObserver.consume (.data r) xs =
      let k := min r xs.length
      let t := chunkedObserver.consume (if r - k = 0 then .dataCrlf false else .data (r - k))
        (xs.drop k)
      ⟨t.state, t.count + k, xs.take k ++ t.out⟩ := by
  induction r generalizing xs with
  | zero =>
    obtain ⟨b, rest, rfl⟩ := exists_cons_of_ne_nil hxs
    have h0 : chunkedObserver.consume (.data 0) (b :: rest) =
        chunkedObserver.consume (.dataCrlf false) (b :: rest) := rfl
    simp [h0]
  | succ r ih =>
    obtain ⟨b, rest, rfl⟩ := exists_cons_of_ne_nil hxs
    have hk : min (r + 1) (b :: rest).length = min r rest.length + 1 := by simp
    rw [hk]
    have hstep : chunkedObserver.step (.data (r + 1)) b =
        (if r = 0 then .dataCrlf false else .data r, [b]) := rfl
    have hgo : chunkedObserver.stopped (.data (r + 1)) = false := rfl
    have hnext : chunkedObserver.broken (if r = 0 then .dataCrlf false else .data r) = false := by
      split <;> rfl
    simp only [Observer.consume, hgo, hstep, hnext, false_eq_true, if_false]
    by_cases hr : r = 0
    · subst hr; simp
    by_cases hrest : rest = []
    · subst hrest; simp [hr]
    · rw [if_neg hr, ih hrest]
      ext <;> simp [add_assoc]

theorem chunkedObserver_step {p : Phase} (hp : p.inData = false) (b : UInt8) :
    chunkedObserver.step p b = (p.step b, []) := by
  cases p <;> first | rfl | simp [Phase.inData] at hp

theorem advanceTurn_step {input rest : Bytes} {i : ℕ} {byte : UInt8} {p : Phase} (out : Bytes)
    (hdrop : input.drop i = byte :: rest) (hdata : p.inData = false)
    (hgo : chunkedObserver.stopped p = false) :
    advanceTurn input ⟨p, i, out⟩ =
      if (p.step byte).isBroken then .inr (⟨p.step byte⟩, i, out)
      else .inl ⟨p.step byte, i + 1, out⟩ := by
  cases p with
  | data r => simp [Phase.inData] at hdata
  | done | broken => exact absurd hgo (by decide)
  | _ => simp only [advanceTurn, hdrop]

/-- The loop from any cursor: what is left of the slice goes to the octetwise machine. -/
theorem advanceLoop_run (input : Bytes) (c : ChunkedStream.Cursor)
    (hc : c.phase.isBroken = true → c.i = 0) :
    (advanceLoop input).run c =
      let t := chunkedObserver.consume c.phase (input.drop c.i)
      (⟨t.state⟩, t.count + c.i, c.out ++ t.out) := by
  -- along the turns; only a stream broken on entry, at index 0, reports 0
  induction c using (advanceLoop input).induct with
  | h c ih =>
    have hagain : ∀ c', advanceTurn input c = .inl c' → c'.phase.isBroken = false →
        (advanceLoop input).run c =
          let t := chunkedObserver.consume c'.phase (input.drop c'.i)
          (⟨t.state⟩, t.count + c'.i, c'.out ++ t.out) := by
      intro c' hturn hlive
      rw [(advanceLoop input).run_again hturn]
      exact ih c' hturn (by simp [hlive])
    have hexit : ∀ r, advanceTurn input c = .inr r →
        (advanceLoop input).run c = r :=
      fun r hturn => (advanceLoop input).run_exit hturn
    obtain ⟨phase, i, out⟩ := c
    cases hdrop : input.drop i with
    | nil =>
      rw [hexit (⟨phase⟩, i, out) (by simp [advanceTurn, hdrop])]
      simp [Observer.consume]
    | cons byte rest =>
      by_cases hstop : chunkedObserver.stopped phase = true
      · rw [chunkedObserver.consume_of_stopped hstop]
        cases phase with
        | done => exact hexit _ (by simp [advanceTurn, hdrop])
        | broken =>
          obtain rfl : i = 0 := hc rfl
          exact hexit _ (by simp only [advanceTurn, hdrop]; simp)
        | _ => cases hstop
      have hgo : chunkedObserver.stopped phase = false := by simpa using hstop
      by_cases hdata : phase.inData = true
      · cases phase with
        | data remaining =>
          rw [hagain _ (by simp only [advanceTurn, hdrop]; rfl) (by
            dsimp only; split <;> rfl)]
          simp only [consume_data remaining (cons_ne_nil byte rest), length_cons, append_assoc]
          rw [← drop_drop, hdrop, add_assoc, add_comm i]
        | _ => simp [Phase.inData] at hdata
      have hdata : phase.inData = false := by simpa using hdata
      have hturn := advanceTurn_step out hdrop hdata hgo
      have hbroken : ∀ p, chunkedObserver.broken p = p.isBroken := fun _ => rfl
      simp only [Observer.consume, hgo, chunkedObserver_step hdata, hbroken, false_eq_true,
        if_false, nil_append]
      by_cases hnext : (phase.step byte).isBroken = true
      · rw [if_pos hnext] at hturn ⊢
        simpa using hexit _ hturn
      · rw [if_neg hnext] at hturn ⊢
        rw [hagain _ hturn (by simpa using hnext), ← drop_drop, hdrop]
        simp only [drop_one, tail_cons]
        rw [add_assoc, add_comm i]

theorem advance_eq (s : ChunkedStream) (input : Bytes) :
    s.advance input =
      (⟨(chunkedObserver.consume s.phase input).state⟩,
        (chunkedObserver.consume s.phase input).count,
        (chunkedObserver.consume s.phase input).out) := by
  rw [advance, advanceLoop_run _ _ fun _ => rfl]
  simp

theorem decodeAll_eq (s : ChunkedStream) (out : Bytes) (slices : List Bytes) :
    s.decodeAll out slices =
      (⟨(chunkedObserver.feed s.phase slices).state⟩, (chunkedObserver.feed s.phase slices).taken,
        out ++ (chunkedObserver.feed s.phase slices).out) := by
  induction slices generalizing s out with
  | nil => simp [decodeAll, Observer.feed]
  | cons slice rest ih =>
    simp [decodeAll, decodeInto, advance_eq, ih, Observer.feed]

theorem observeAll_eq (s : ChunkedStream) (slices : List Bytes) :
    s.observeAll slices =
      (⟨(chunkedObserver.feed s.phase slices).state⟩,
        (chunkedObserver.feed s.phase slices).taken) := by
  induction slices generalizing s with
  | nil => simp [observeAll, Observer.feed]
  | cons slice rest ih =>
    simp [observeAll, observe, advance_eq, ih, Observer.feed]

end Portail.Http
