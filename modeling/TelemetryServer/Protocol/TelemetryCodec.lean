import TelemetryServer.Lib.Blocks

/-! The wire format: 32-byte frames with a fixed eight-byte header.

A record's `value` is kept as its 64-bit pattern, which is all the codec looks at. -/

namespace TelemetryServer.Protocol

def kMagic : UInt32 := 0x544C5259
def kVersion : UInt16 := 1
def kFrameSize : Nat := 32

structure TelemetryRecord where
  sensorId : UInt32 := 0
  metricId : UInt32 := 0
  timestampNs : UInt64 := 0
  value : UInt64 := 0
  deriving DecidableEq, Repr

inductive DecodeError
  | none
  | invalidSize
  | invalidMagic
  | unsupportedVersion
  | invalidDeclaredFrameSize
  deriving DecidableEq, Repr

structure DecodeResult where
  record : TelemetryRecord := {}
  error : DecodeError := .none
  deriving DecidableEq, Repr

def DecodeResult.ok (result : DecodeResult) : Bool := result.error == .none

structure Frame where
  bytes : List UInt8
  size_eq : bytes.length = kFrameSize
  deriving DecidableEq, Repr

/-- The first 32 bytes of `l`, as a copy into a frame takes them. -/
def Frame.ofBytes (l : List UInt8) : Frame :=
  ⟨(l ++ List.replicate kFrameSize 0).take kFrameSize, by simp [kFrameSize]⟩

def Frame.zero : Frame := .ofBytes []

def Frame.set (frame : Frame) (index : Nat) (byte : UInt8) : Frame :=
  ⟨frame.bytes.set index byte, by rw [List.length_set, frame.size_eq]⟩

def kMagicOffset : Nat := 0
def kVersionOffset : Nat := 4
def kFrameSizeOffset : Nat := 6
def kSensorIdOffset : Nat := 8
def kMetricIdOffset : Nat := 12
def kTimestampOffset : Nat := 16
def kValueOffset : Nat := 24

def writeU16 (frame : Frame) (offset : Nat) (value : UInt16) : Frame :=
  (frame.set offset ((value >>> 8) &&& 0xFF).toUInt8).set (offset + 1) (value &&& 0xFF).toUInt8

def writeU32 (frame : Frame) (offset : Nat) (value : UInt32) : Frame :=
  (((frame.set offset ((value >>> 24) &&& 0xFF).toUInt8).set (offset + 1)
    ((value >>> 16) &&& 0xFF).toUInt8).set (offset + 2)
    ((value >>> 8) &&& 0xFF).toUInt8).set (offset + 3) (value &&& 0xFF).toUInt8

def writeU64 (frame : Frame) (offset : Nat) (value : UInt64) : Frame :=
  (List.range 8).foldl (fun frame index =>
    frame.set (offset + index) ((value >>> (UInt64.ofNat ((7 - index) * 8))) &&& 0xFF).toUInt8) frame

def readU16 (frame : List UInt8) (offset : Nat) : UInt16 :=
  let byte0 := (frame.getD offset 0).toUInt16
  let byte1 := (frame.getD (offset + 1) 0).toUInt16
  (byte0 <<< 8) ||| byte1

def readU32 (frame : List UInt8) (offset : Nat) : UInt32 :=
  let byte0 := (frame.getD offset 0).toUInt32
  let byte1 := (frame.getD (offset + 1) 0).toUInt32
  let byte2 := (frame.getD (offset + 2) 0).toUInt32
  let byte3 := (frame.getD (offset + 3) 0).toUInt32
  (byte0 <<< 24) ||| (byte1 <<< 16) ||| (byte2 <<< 8) ||| byte3

def readU64 (frame : List UInt8) (offset : Nat) : UInt64 :=
  (List.range 8).foldl (fun value index =>
    (value <<< 8) ||| (frame.getD (offset + index) 0).toUInt64) 0

def encode (record : TelemetryRecord) : Frame :=
  let frame := Frame.zero
  let frame := writeU32 frame kMagicOffset kMagic
  let frame := writeU16 frame kVersionOffset kVersion
  let frame := writeU16 frame kFrameSizeOffset (UInt16.ofNat kFrameSize)
  let frame := writeU32 frame kSensorIdOffset record.sensorId
  let frame := writeU32 frame kMetricIdOffset record.metricId
  let frame := writeU64 frame kTimestampOffset record.timestampNs
  writeU64 frame kValueOffset record.value

def decode (frame : List UInt8) : DecodeResult :=
  if frame.length ≠ kFrameSize then { error := .invalidSize }
  else if readU32 frame kMagicOffset ≠ kMagic then { error := .invalidMagic }
  else if readU16 frame kVersionOffset ≠ kVersion then { error := .unsupportedVersion }
  else if readU16 frame kFrameSizeOffset ≠ UInt16.ofNat kFrameSize then
    { error := .invalidDeclaredFrameSize }
  else
    { record :=
        { sensorId := readU32 frame kSensorIdOffset
          metricId := readU32 frame kMetricIdOffset
          timestampNs := readU64 frame kTimestampOffset
          value := readU64 frame kValueOffset } }

def DecodeError.toString : DecodeError → String
  | .none => "none"
  | .invalidSize => "invalid frame size"
  | .invalidMagic => "invalid magic"
  | .unsupportedVersion => "unsupported version"
  | .invalidDeclaredFrameSize => "invalid declared frame size"

/-- A frame the server may publish and the reader may store. -/
def Frame.Valid (frame : Frame) : Prop := (decode frame.bytes).ok = true

instance (frame : Frame) : Decidable frame.Valid := inferInstanceAs (Decidable (_ = true))

/-- The complete frames of a byte string, in order. -/
def frames (bytes : List UInt8) : List Frame :=
  (Blocks.blocks kFrameSize bytes).map Frame.ofBytes

def bytesOf (fs : List Frame) : List UInt8 := (fs.map Frame.bytes).flatten

theorem Frame.ofBytes_bytes {l : List UInt8} (long : kFrameSize ≤ l.length) :
    (Frame.ofBytes l).bytes = l.take kFrameSize := by
  simp only [Frame.ofBytes]
  exact List.take_append_of_le_length long

@[simp] theorem Frame.ofBytes_self (frame : Frame) : Frame.ofBytes frame.bytes = frame := by
  cases frame with
  | mk bytes size_eq =>
      have same := Frame.ofBytes_bytes (l := bytes) (by omega)
      rw [← size_eq, List.take_length] at same
      simp only [Frame.ofBytes] at same ⊢
      simp only [same]

theorem bytesOf_append (fs gs : List Frame) : bytesOf (fs ++ gs) = bytesOf fs ++ bytesOf gs := by
  simp [bytesOf]

theorem bytesOf_length (fs : List Frame) : (bytesOf fs).length = kFrameSize * fs.length := by
  have whole : ∀ b ∈ fs.map Frame.bytes, b.length = kFrameSize := by
    intro b member
    obtain ⟨frame, _, rfl⟩ := List.mem_map.mp member
    exact frame.size_eq
  rw [bytesOf, Blocks.flatten_length whole, List.length_map]

theorem frames_length (bytes : List UInt8) : (frames bytes).length = bytes.length / kFrameSize := by
  rw [frames, List.length_map, Blocks.blocks_length]

theorem frames_bytes (bytes : List UInt8) :
    (frames bytes).map Frame.bytes = Blocks.blocks kFrameSize bytes := by
  rw [frames, List.map_map]
  conv_rhs => rw [← List.map_id (Blocks.blocks kFrameSize bytes)]
  apply List.map_congr_left
  intro b member
  have whole := Blocks.length_of_mem_blocks member
  rw [Function.comp_apply, Frame.ofBytes_bytes (le_of_eq whole.symm), ← whole, List.take_length, id]

theorem bytesOf_frames (bytes : List UInt8) : bytesOf (frames bytes) = Blocks.cut kFrameSize bytes := by
  rw [bytesOf, frames_bytes, Blocks.flatten_blocks]

theorem frames_bytesOf_append (fs : List Frame) (rest : List UInt8) :
    frames (bytesOf fs ++ rest) = fs ++ frames rest := by
  have whole : ∀ b ∈ fs.map Frame.bytes, b.length = kFrameSize := by
    intro b member
    obtain ⟨frame, _, rfl⟩ := List.mem_map.mp member
    exact frame.size_eq
  rw [frames, bytesOf, Blocks.blocks_flatten_append (by decide) whole, List.map_append, List.map_map]
  congr 1
  conv_rhs => rw [← List.map_id fs]
  apply List.map_congr_left
  intro frame _
  simp

theorem frames_of_lt {bytes : List UInt8} (short : bytes.length < kFrameSize) : frames bytes = [] := by
  rw [frames, Blocks.blocks_of_lt short, List.map_nil]

theorem frames_append {a : List UInt8} (aligned : kFrameSize ∣ a.length) (b : List UInt8) :
    frames (a ++ b) = frames a ++ frames b := by
  rw [frames, Blocks.blocks_append (by decide) aligned, List.map_append, frames, frames]

/-- Bytes that arrive later leave the frames before them as they are. -/
theorem frames_front (a b : List UInt8) : frames a <+: frames (a ++ b) := by
  have whole : kFrameSize ∣ (bytesOf (frames a)).length := by
    rw [bytesOf_frames]
    exact Blocks.dvd_cut_length _ _
  have front : frames (bytesOf (frames a)) = frames a := by
    have split := frames_bytesOf_append (frames a) []
    have none : frames [] = [] := frames_of_lt (by decide)
    rwa [List.append_nil, none, List.append_nil] at split
  have cut : a = bytesOf (frames a) ++ a.drop (kFrameSize * (a.length / kFrameSize)) := by
    rw [bytesOf_frames, Blocks.cut_append_drop]
  conv_rhs => rw [cut, List.append_assoc, frames_append whole, front]
  exact List.prefix_append _ _

/-- Taking whole frames off the front of a byte string takes them off its list of frames. -/
theorem frames_split {bytes : List UInt8} {n : Nat} (enough : n ≤ (frames bytes).length) :
    frames (bytes.take (n * kFrameSize)) = (frames bytes).take n ∧
      frames (bytes.drop (n * kFrameSize)) = (frames bytes).drop n ∧
      bytesOf (frames (bytes.take (n * kFrameSize))) = bytes.take (n * kFrameSize) := by
  rw [frames_length] at enough
  have size : (bytes.take (n * kFrameSize)).length = n * kFrameSize := by
    rw [List.length_take]
    simp only [kFrameSize] at enough ⊢
    omega
  have aligned : kFrameSize ∣ (bytes.take (n * kFrameSize)).length := by
    rw [size]
    exact Nat.dvd_mul_left _ _
  have count : (frames (bytes.take (n * kFrameSize))).length = n := by
    rw [frames_length, size, Nat.mul_div_cancel _ (by decide)]
  have split : frames bytes =
      frames (bytes.take (n * kFrameSize)) ++ frames (bytes.drop (n * kFrameSize)) := by
    rw [← frames_append aligned, List.take_append_drop]
  refine ⟨?_, ?_, ?_⟩
  · rw [split, List.take_left' count]
  · rw [split, List.drop_left' count]
  · rw [bytesOf_frames, Blocks.cut_eq_self aligned]

end TelemetryServer.Protocol
