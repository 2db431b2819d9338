import Portail.Http.ChunkedOffence
import Portail.Lib.Decimal

/-!
# The body of an h2 request

The bridge writes the DATA frames of an h2 request into the engine's pipe, framed as chunks where
the request has no Content-Length. The engine's decoder reads the frames back and is done at the
last octet written; a body that was cut off is never taken for a whole one
(`pumpRequestBody_decodes`).
-/

namespace Portail.Proxy

open Lib Http List

/-- A DATA frame; the length of a frame has 24 bits. -/
structure DataFrame where
  data : Bytes
  fits : data.length < 2 ^ 24

/-- What the bridge gets when it asks for more of a body; no more events end the stream. -/
inductive BodyEvent
  | data (frame : DataFrame)
  | failed
  | idle

inductive PumpError
  | requestBody
  | idle
  deriving DecidableEq

/-- The engine's pipe: what was written into it, how much it still takes before the engine closes
its half, and the flow-control window given back. -/
structure Pump where
  written : Bytes
  room : Option ℕ
  released : ℕ

namespace Pump

/-- A pipe the engine keeps reading. -/
def start : Pump := ⟨[], none, 0⟩

def writeAll (p : Pump) (framed : Bytes) : Pump × Bool :=
  match p.room with
  | none => (⟨p.written ++ framed, none, p.released⟩, true)
  | some room =>
    (⟨p.written ++ framed.take room, some (room - framed.length), p.released⟩, framed.length ≤ room)

def releaseCapacity (p : Pump) (n : ℕ) : Pump := ⟨p.written, p.room, p.released + n⟩

end Pump

def chunkTerminator : Bytes := bytes "0\r\n\r\n"

def frameChunk (data : Bytes) : Bytes := toHex data.length ++ crlf ++ data ++ crlf

def pumpRequestBody (chunked : Bool) (p : Pump) : List BodyEvent → Pump × Except PumpError Unit
  | [] => (if chunked then (p.writeAll chunkTerminator).1 else p, .ok ())
  | .failed :: _ => (p, .error .requestBody)
  | .idle :: _ => (p, .error .idle)
  | .data frame :: events =>
    if frame.data.length = 0 then pumpRequestBody chunked p events
    else
      let (p, writeOk) := p.writeAll (if chunked then frameChunk frame.data else frame.data)
      let p := p.releaseCapacity frame.data.length
      if writeOk then pumpRequestBody chunked p events else (p, .ok ())

theorem hexChar_digit : ∀ d < 16, isAsciiHexdigit (hexChar d) = true ∧
    ((hexDigit (hexChar d)).getD 0).toNat = d := by
  decide

theorem hexValue_toHex (n : ℕ) : hexValue 0 (toHex n) = n :=
  foldl_numeral (fun _ d hd => by rw [(hexChar_digit d hd).2, add_comm]) (by decide) n

theorem exists_chunk (frame : DataFrame) (hne : frame.data ≠ []) :
    ∃ c : Chunk isTextOctet, c.wire = frameChunk frame.data ∧ c.data = frame.data := by
  have hhex : ∀ b ∈ toHex frame.data.length, isAsciiHexdigit b = true := by
    intro b hb
    obtain ⟨d, hd, rfl⟩ := mem_numeral (by omega) hb
    exact (hexChar_digit d hd).1
  have hlt := frame.fits
  refine ⟨⟨⟨toHex frame.data.length, none, numeral_ne _, hhex, ?_, by simp⟩, frame.data, hne,
    hexValue_toHex _⟩, ?_, rfl⟩
  · rw [hexValue_toHex]
    omega
  · simp [Chunk.wire, SizeLine.wire, extensionWire, frameChunk]

/-- What the frames are written as, the empty ones left out. -/
def framesWire (frames : List DataFrame) : Bytes :=
  frames.flatMap fun frame => if frame.data.length = 0 then [] else frameChunk frame.data

def bodyWire (frames : List DataFrame) : Bytes := framesWire frames ++ chunkTerminator

theorem bodyWire_cons (frame : DataFrame) (frames : List DataFrame) :
    bodyWire (frame :: frames) =
      (if frame.data.length = 0 then [] else frameChunk frame.data) ++ bodyWire frames := by
  rw [bodyWire, framesWire, flatMap_cons, append_assoc]
  rfl

theorem isBody_bodyWire (frames : List DataFrame) :
    IsBody (bodyWire frames) (frames.flatMap DataFrame.data) := by
  induction frames with
  | nil => exact isBody_empty
  | cons frame frames ih =>
    rw [bodyWire_cons, flatMap_cons]
    split_ifs with hzero
    · rw [length_eq_zero_iff.mp hzero]
      exact ih
    · obtain ⟨c, hc, hdata⟩ := exists_chunk frame fun hnil => hzero (by rw [hnil]; rfl)
      rw [← hc, ← hdata]
      exact ih.cons c

/-- The frames that came over an open pipe are written as a whole body. -/
theorem written_frames {p : Pump} (hroom : p.room = none) (frames : List DataFrame) :
    (pumpRequestBody true p (frames.map BodyEvent.data)).1.written =
      p.written ++ bodyWire frames := by
  have hopen {p : Pump} (hroom : p.room = none) (framed : Bytes) :
      p.writeAll framed = (⟨p.written ++ framed, none, p.released⟩, true) := by
    rw [Pump.writeAll, hroom]
  induction frames generalizing p with
  | nil =>
    rw [map_nil, pumpRequestBody, if_pos rfl, hopen hroom]
    rfl
  | cons frame frames ih =>
    rw [map_cons, pumpRequestBody, bodyWire_cons]
    by_cases hzero : frame.data.length = 0
    · rw [if_pos hzero, if_pos hzero, ih hroom, nil_append]
    · rw [if_neg hzero, if_neg hzero, if_pos rfl, hopen hroom]
      dsimp only
      rw [if_pos rfl, ih rfl, Pump.releaseCapacity, append_assoc]

/-- However the pipe's octets are cut into slices, the decoder reads the frames back from them
and is done at the last one, not before. -/
theorem pumpRequestBody_decodes (frames : List DataFrame) :
    let written := (pumpRequestBody true .start (frames.map BodyEvent.data)).1.written
    (∀ slices : List Bytes, slices.flatten = written →
      (ChunkedStream.new.decodeAll [] slices).1.isTerminated = true ∧
        (ChunkedStream.new.decodeAll [] slices).2 = (written, frames.flatMap DataFrame.data)) ∧
    ∀ slices : List Bytes, slices.flatten <+: written → slices.flatten ≠ written →
      (ChunkedStream.new.decodeAll [] slices).1.isTerminated = false ∧
        (ChunkedStream.new.decodeAll [] slices).1.isBroken = false := by
  intro written
  have hwritten : written = bodyWire frames := written_frames rfl frames
  rw [hwritten]
  refine ⟨fun slices hslices => ?_, fun slices hcut hne => (isBody_bodyWire frames).cut hcut hne⟩
  obtain ⟨hdone, hcount, hout⟩ := (isBody_bodyWire frames).complete []
  rw [append_nil, ← hslices] at hdone hcount hout
  rw [decodeAll_eq, Observer.feed_eq]
  refine ⟨hdone, Prod.ext ?_ hout⟩
  exact (congrArg (slices.flatten.take ·) hcount).trans (by rw [take_length, hslices])

theorem emptyFrame_fits : ([] : Bytes).length < 2 ^ 24 := by decide

theorem textFrame_fits : (bytes "0\r\n\r\n").length < 2 ^ 24 := by decide

/-- A frame that reads like the end of a body, between empty ones. -/
def terminatorFrames : List DataFrame :=
  [⟨[], emptyFrame_fits⟩, ⟨bytes "0\r\n\r\n", textFrame_fits⟩, ⟨[], emptyFrame_fits⟩]

theorem pumpRequestBody_decodes_terminator :
    (ChunkedStream.new.decodeAll []
        [bytes "5\r\n0\r\n", bytes "\r\n\r\n0\r\n\r\n"]).2.2 = bytes "0\r\n\r\n" ∧
      (ChunkedStream.new.decodeAll [] [bytes "5\r\n0\r\n\r\n"]).1.isTerminated = false := by
  have h := pumpRequestBody_decodes terminatorFrames
  refine ⟨congrArg Prod.snd (h.1 _ (by decide)).2, (h.2 _ (by decide) (by decide)).1⟩

end Portail.Proxy
