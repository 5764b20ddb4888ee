import Mathlib.Data.Set.Function
import Mathlib.Tactic.NormNum
import TelemetryServer.Lib.BigEndian
import TelemetryServer.Protocol.TelemetryCodec

namespace TelemetryServer.Protocol

open BigEndian

/-- The eight bytes every accepted frame starts with. -/
def header : List UInt8 := [0x54, 0x4C, 0x52, 0x59, 0x00, 0x01, 0x00, 0x20]

def field (frame : List UInt8) (offset width : Nat) : List UInt8 := (frame.drop offset).take width

theorem field_length {frame : List UInt8} {offset width : Nat}
    (inside : offset + width ≤ frame.length) : (field frame offset width).length = width := by
  rw [field, List.length_take, List.length_drop]
  omega

theorem field_eq {frame : List UInt8} {offset width : Nat} (inside : offset + width ≤ frame.length) :
    field frame offset width = (List.range width).map (fun i => frame.getD (offset + i) 0) := by
  apply List.ext_getElem
  · rw [field_length inside, List.length_map, List.length_range]
  · intro i here _
    rw [field_length inside] at here
    rw [List.getElem_map, List.getElem_range, List.getD_eq_getElem _ _ (by omega)]
    simp [field]

theorem field_append {before middle after : List UInt8} {offset width : Nat}
    (start : before.length = offset) (size : middle.length = width) :
    field (before ++ middle ++ after) offset width = middle := by
  rw [field, List.append_assoc, List.drop_left' start, List.take_left' size]

section Readers

variable {frame : List UInt8} {offset : Nat}

theorem readU16_toNat (inside : offset + 2 ≤ frame.length) :
    (readU16 frame offset).toNat = value (field frame offset 2) := by
  have bytes : field frame offset 2 = [frame.getD offset 0, frame.getD (offset + 1) 0] := field_eq inside
  rw [bytes, readU16]
  generalize frame.getD offset 0 = byte0
  generalize frame.getD (offset + 1) 0 = byte1
  have fits := byte0.toNat_lt
  rw [UInt16.toNat_or, UInt16.toNat_shiftLeft, UInt8.toNat_toUInt16, UInt8.toNat_toUInt16]
  change byte0.toNat <<< 8 % 2 ^ 16 ||| byte1.toNat = value ([byte0] ++ [byte1])
  rw [Nat.mod_eq_of_lt (by rw [Nat.shiftLeft_eq]; omega), shift_or, value_concat, value_single]

theorem readU32_toNat (inside : offset + 4 ≤ frame.length) :
    (readU32 frame offset).toNat = value (field frame offset 4) := by
  have bytes : field frame offset 4 = [frame.getD offset 0, frame.getD (offset + 1) 0,
    frame.getD (offset + 2) 0, frame.getD (offset + 3) 0] := field_eq inside
  rw [bytes, readU32]
  generalize frame.getD offset 0 = byte0
  generalize frame.getD (offset + 1) 0 = byte1
  generalize frame.getD (offset + 2) 0 = byte2
  generalize frame.getD (offset + 3) 0 = byte3
  have shifted : ∀ (byte : UInt8) (k : Nat), k ≤ 24 → byte.toNat <<< k % 2 ^ 32 = byte.toNat <<< k := by
    intro byte k small
    apply Nat.mod_eq_of_lt
    rw [Nat.shiftLeft_eq]
    calc byte.toNat * 2 ^ k < 2 ^ 8 * 2 ^ k := Nat.mul_lt_mul_of_pos_right byte.toNat_lt (by positivity)
      _ = 2 ^ (8 + k) := (pow_add 2 8 k).symm
      _ ≤ 2 ^ 32 := Nat.pow_le_pow_right (by decide) (by omega)
  rw [UInt32.toNat_or, UInt32.toNat_or, UInt32.toNat_or, UInt32.toNat_shiftLeft,
    UInt32.toNat_shiftLeft, UInt32.toNat_shiftLeft, UInt8.toNat_toUInt32, UInt8.toNat_toUInt32,
    UInt8.toNat_toUInt32, UInt8.toNat_toUInt32]
  change byte0.toNat <<< 24 % 2 ^ 32 ||| byte1.toNat <<< 16 % 2 ^ 32 ||| byte2.toNat <<< 8 % 2 ^ 32 |||
    byte3.toNat = value ((([byte0] ++ [byte1]) ++ [byte2]) ++ [byte3])
  rw [shifted byte0 24 le_rfl, shifted byte1 16 (by decide), shifted byte2 8 (by decide)]
  -- the shifts nest: each byte is shifted in behind the ones before it
  calc byte0.toNat <<< 24 ||| byte1.toNat <<< 16 ||| byte2.toNat <<< 8 ||| byte3.toNat
      = ((byte0.toNat <<< 8 ||| byte1.toNat) <<< 8 ||| byte2.toNat) <<< 8 ||| byte3.toNat := by
        simp only [Nat.shiftLeft_or_distrib, ← Nat.shiftLeft_add]
    _ = value ((([byte0] ++ [byte1]) ++ [byte2]) ++ [byte3]) := by
        rw [shift_or, shift_or, shift_or, value_concat, value_concat, value_concat, value_single]

/-- One round of the loop of `readU64`. -/
theorem shiftIn_toNat {before : UInt64} {byte : UInt8} (small : before.toNat < 2 ^ 56) :
    (before <<< 8 ||| byte.toUInt64).toNat = before.toNat * 256 + byte.toNat := by
  rw [UInt64.toNat_or, UInt64.toNat_shiftLeft, UInt8.toNat_toUInt64]
  change before.toNat <<< 8 % 2 ^ 64 ||| byte.toNat = _
  rw [Nat.mod_eq_of_lt (by rw [Nat.shiftLeft_eq]; omega), shift_or]

theorem readU64_toNat (inside : offset + 8 ≤ frame.length) :
    (readU64 frame offset).toNat = value (field frame offset 8) := by
  have rounds : ∀ k ≤ 8, ((List.range k).foldl (fun (value : UInt64) index =>
      (value <<< 8) ||| (frame.getD (offset + index) 0).toUInt64) 0).toNat =
      value ((List.range k).map (fun i => frame.getD (offset + i) 0)) := by
    intro k
    induction k with
    | zero => exact fun _ => rfl
    | succ k ih =>
        intro bound
        have before := ih (by omega)
        have less := value_lt ((List.range k).map (fun i => frame.getD (offset + i) 0))
        have small : 256 ^ ((List.range k).map (fun i => frame.getD (offset + i) 0)).length ≤ 2 ^ 56 := by
          rw [List.length_map, List.length_range, show 256 = 2 ^ 8 by rfl, ← pow_mul]
          exact Nat.pow_le_pow_right (by decide) (by omega)
        rw [List.range_succ, List.foldl_append, List.map_append, List.map_singleton, value_concat,
          ← before]
        exact shiftIn_toNat (by omega)
  rw [field_eq inside]
  exact rounds 8 le_rfl

end Readers

section Writers

def put (frame : Frame) (offset width n : Nat) : Frame :=
  (List.range width).foldl (fun frame index =>
    frame.set (offset + index) (UInt8.ofNat (n / 256 ^ (width - 1 - index)))) frame

theorem put_bytes {frame : Frame} {before after : List UInt8} (offset width n : Nat)
    (bytes : frame.bytes = before ++ after) (start : before.length = offset)
    (room : width ≤ after.length) :
    (put frame offset width n).bytes = before ++ digits width n ++ after.drop width := by
  have rounds : ∀ (f : Nat → UInt8) (k : Nat), k ≤ after.length →
      ((List.range k).foldl (fun frame index => frame.set (offset + index) (f index)) frame).bytes =
        before ++ (List.range k).map f ++ after.drop k := by
    intro f k
    induction k with
    | zero =>
        intro _
        simpa using bytes
    | succ k ih =>
        intro bound
        have size : (before ++ (List.range k).map f).length = offset + k := by
          rw [List.length_append, List.length_map, List.length_range, start]
        rw [List.range_succ, List.foldl_append, List.map_append, List.map_singleton]
        change (Frame.bytes _).set (offset + k) (f k) = _
        rw [ih (by omega), List.set_append_right _ _ (by omega), size, Nat.sub_self,
          List.drop_eq_getElem_cons (by omega), List.set_cons_zero]
        simp
  exact rounds _ width room

theorem shiftRight_and (n k : Nat) : n >>> (8 * k) &&& 255 = n / 256 ^ k % 256 := by
  rw [Nat.shiftRight_eq_div_pow, pow_mul]
  exact Nat.and_two_pow_sub_one_eq_mod _ 8

theorem toUInt8_eq {byte : UInt8} {n : Nat} (same : byte.toNat = n % 256) : byte = UInt8.ofNat n :=
  UInt8.toNat_inj.mp (same.trans UInt8.toNat_ofNat'.symm)

theorem writeU16_eq (frame : Frame) (offset : Nat) (n : UInt16) :
    writeU16 frame offset n = put frame offset 2 n.toNat := by
  have high : ((n >>> 8) &&& 0xFF).toUInt8 = UInt8.ofNat (n.toNat / 256 ^ 1) := by
    apply toUInt8_eq
    rw [UInt16.toNat_toUInt8, UInt16.toNat_and, UInt16.toNat_shiftRight]
    exact (congrArg (· % 256) (shiftRight_and n.toNat 1)).trans (Nat.mod_mod _ _)
  have low : (n &&& 0xFF).toUInt8 = UInt8.ofNat (n.toNat / 256 ^ 0) := by
    apply toUInt8_eq
    rw [UInt16.toNat_toUInt8, UInt16.toNat_and]
    exact (congrArg (· % 256) (shiftRight_and n.toNat 0)).trans (Nat.mod_mod _ _)
  rw [writeU16, high, low]
  rfl

theorem writeU32_eq (frame : Frame) (offset : Nat) (n : UInt32) :
    writeU32 frame offset n = put frame offset 4 n.toNat := by
  have byte : ∀ (shift : UInt32) (k : Nat), shift.toNat % 32 = 8 * k →
      ((n >>> shift) &&& 0xFF).toUInt8 = UInt8.ofNat (n.toNat / 256 ^ k) := by
    intro shift k same
    apply toUInt8_eq
    rw [UInt32.toNat_toUInt8, UInt32.toNat_and, UInt32.toNat_shiftRight, same]
    exact (congrArg (· % 256) (shiftRight_and n.toNat k)).trans (Nat.mod_mod _ _)
  have low : (n &&& 0xFF).toUInt8 = UInt8.ofNat (n.toNat / 256 ^ 0) := by
    apply toUInt8_eq
    rw [UInt32.toNat_toUInt8, UInt32.toNat_and]
    exact (congrArg (· % 256) (shiftRight_and n.toNat 0)).trans (Nat.mod_mod _ _)
  rw [writeU32, byte 24 3 rfl, byte 16 2 rfl, byte 8 1 rfl, low]
  rfl

theorem writeU64_eq (frame : Frame) (offset : Nat) (n : UInt64) :
    writeU64 frame offset n = put frame offset 8 n.toNat := by
  have byte : ∀ index, index < 8 → ((n >>> (UInt64.ofNat ((7 - index) * 8))) &&& 0xFF).toUInt8 =
      UInt8.ofNat (n.toNat / 256 ^ (8 - 1 - index)) := by
    intro index bound
    have shift : (UInt64.ofNat ((7 - index) * 8)).toNat % 64 = 8 * (7 - index) := by
      rw [UInt64.toNat_ofNat', Nat.mod_mod_of_dvd _ (by decide), Nat.mul_comm]
      exact Nat.mod_eq_of_lt (by omega)
    apply toUInt8_eq
    rw [UInt64.toNat_toUInt8, UInt64.toNat_and, UInt64.toNat_shiftRight, shift]
    exact (congrArg (· % 256) (shiftRight_and n.toNat (7 - index))).trans (Nat.mod_mod _ _)
  rw [writeU64, put]
  apply List.foldl_ext
  intro before index inside
  rw [byte index (List.mem_range.mp inside)]

end Writers

/-- A frame is its header and the digits of the four fields. -/
theorem encode_bytes (record : TelemetryRecord) : (encode record).bytes =
    header ++ digits 4 record.sensorId.toNat ++ digits 4 record.metricId.toNat ++
      digits 8 record.timestampNs.toNat ++ digits 8 record.value.toNat := by
  have zero : Frame.zero.bytes = [] ++ List.replicate 32 0 := rfl
  have rest : ∀ k w, (List.replicate k (0 : UInt8)).drop w = List.replicate (k - w) 0 :=
    fun k w => List.drop_replicate
  have room : ∀ {w k : Nat}, w ≤ k → w ≤ (List.replicate k (0 : UInt8)).length := by
    intro w k less
    rwa [List.length_replicate]
  rw [encode]
  simp only [writeU16_eq, writeU32_eq, writeU64_eq]
  have magic := put_bytes kMagicOffset 4 kMagic.toNat zero rfl
    (room (by decide))
  rw [rest] at magic
  have version := put_bytes kVersionOffset 2 kVersion.toNat magic
    (by simp [digits_length, kVersionOffset]) (room (by decide))
  rw [rest] at version
  have size := put_bytes kFrameSizeOffset 2 (UInt16.ofNat kFrameSize).toNat
    version (by simp [digits_length, kFrameSizeOffset]) (room (by decide))
  rw [rest] at size
  have sensor := put_bytes kSensorIdOffset 4 record.sensorId.toNat size
    (by simp [digits_length, kSensorIdOffset]) (room (by decide))
  rw [rest] at sensor
  have metric := put_bytes kMetricIdOffset 4 record.metricId.toNat sensor
    (by simp [digits_length, kMetricIdOffset]) (room (by decide))
  rw [rest] at metric
  have stamp := put_bytes kTimestampOffset 8 record.timestampNs.toNat metric
    (by simp [digits_length, kTimestampOffset]) (room (by decide))
  rw [rest] at stamp
  have last := put_bytes kValueOffset 8 record.value.toNat stamp
    (by simp [digits_length, kValueOffset]) (room (by decide))
  rw [rest] at last
  rw [last]
  exact List.append_nil _

/-- A frame of the right length falls into its header and the four fields. -/
theorem fields_eq {frame : List UInt8} (size : frame.length = kFrameSize) :
    frame = frame.take 8 ++ field frame kSensorIdOffset 4 ++ field frame kMetricIdOffset 4 ++
      field frame kTimestampOffset 8 ++ field frame kValueOffset 8 := by
  have last : field frame kValueOffset 8 = frame.drop kValueOffset := by
    rw [field]
    apply List.take_of_length_le
    rw [List.length_drop, size]
    decide
  have step : ∀ offset width, frame.take offset ++ field frame offset width =
      frame.take (offset + width) := fun offset width => (List.take_add).symm
  rw [last]
  change _ = frame.take 8 ++ field frame 8 4 ++ field frame 12 4 ++ field frame 16 8 ++ frame.drop 24
  rw [step, step, step, List.take_append_drop]

/-- Exactly the frames of the right length and header are accepted. -/
theorem decode_ok_iff (frame : List UInt8) :
    (decode frame).ok = true ↔ frame.length = kFrameSize ∧ header <+: frame := by
  by_cases size : frame.length = kFrameSize
  · have number : ∀ (offset width : Nat) (bytes : List UInt8), offset + width ≤ kFrameSize →
        bytes.length = width →
        (value (field frame offset width) = value bytes ↔ field frame offset width = bytes) := by
      intro offset width bytes inside long
      refine ⟨eq_of_value_eq ?_, congrArg value⟩
      rw [field_length (by omega), long]
    have magic : readU32 frame kMagicOffset = kMagic ↔ field frame 0 4 = [0x54, 0x4C, 0x52, 0x59] := by
      rw [← number 0 4 _ (by decide) rfl, ← readU32_toNat (by rw [size]; decide), ← UInt32.toNat_inj]
      rfl
    have version : readU16 frame kVersionOffset = kVersion ↔ field frame 4 2 = [0x00, 0x01] := by
      rw [← number 4 2 _ (by decide) rfl, ← readU16_toNat (by rw [size]; decide), ← UInt16.toNat_inj]
      rfl
    have declared : readU16 frame kFrameSizeOffset = UInt16.ofNat kFrameSize ↔
        field frame 6 2 = [0x00, 0x20] := by
      rw [← number 6 2 _ (by decide) rfl, ← readU16_toNat (by rw [size]; decide), ← UInt16.toNat_inj]
      rfl
    have split : frame.take 8 = field frame 0 4 ++ field frame 4 2 ++ field frame 6 2 := by
      change _ = frame.take 4 ++ (frame.drop 4).take 2 ++ (frame.drop 6).take 2
      rw [← List.take_add, ← List.take_add]
    have accepted : (decode frame).ok = true ↔ readU32 frame kMagicOffset = kMagic ∧
        readU16 frame kVersionOffset = kVersion ∧
        readU16 frame kFrameSizeOffset = UInt16.ofNat kFrameSize := by
      rw [decode, if_neg (by simpa using size)]
      split
      · next wrong => simp [DecodeResult.ok, wrong]
      split
      · next wrong => simp [DecodeResult.ok, wrong]
      split
      · next wrong => simp [DecodeResult.ok, wrong]
      · next one two three => simp_all [DecodeResult.ok]
    rw [accepted, magic, version, declared, List.prefix_iff_eq_take]
    change _ ↔ _ ∧ header = frame.take 8
    rw [split]
    constructor
    · rintro ⟨one, two, three⟩
      rw [one, two, three]
      exact ⟨size, rfl⟩
    · rintro ⟨_, same⟩
      have long : ∀ {offset width : Nat}, offset + width ≤ kFrameSize →
          (field frame offset width).length = width := fun inside => field_length (by omega)
      have same' : ([0x54, 0x4C, 0x52, 0x59] ++ [0x00, 0x01] ++ [0x00, 0x20] : List UInt8) =
        field frame 0 4 ++ field frame 4 2 ++ field frame 6 2 := same
      rcases List.append_inj' same' (by rw [long (by decide)]; rfl) with ⟨front, three⟩
      rcases List.append_inj' front (by rw [long (by decide)]; rfl) with ⟨one, two⟩
      exact ⟨one.symm, two.symm, three.symm⟩
  · have rejected : (decode frame).ok = false := by
      rw [decode, if_pos size]
      rfl
    simp [rejected, size]

theorem decode_record {frame : List UInt8} (ok : (decode frame).ok = true) : decode frame =
    { record :=
        { sensorId := readU32 frame kSensorIdOffset
          metricId := readU32 frame kMetricIdOffset
          timestampNs := readU64 frame kTimestampOffset
          value := readU64 frame kValueOffset } } := by
  rw [decode] at ok ⊢
  split at ok
  · cases ok
  split at ok
  · cases ok
  split at ok
  · cases ok
  split at ok
  · cases ok
  · next size magic version declared => rw [if_neg size, if_neg magic, if_neg version, if_neg declared]

theorem encode_decode {frame : List UInt8} (ok : (decode frame).ok = true) :
    (encode (decode frame).record).bytes = frame := by
  have accepted := (decode_ok_iff frame).mp ok
  have size := accepted.1
  have start : frame.take 8 = header := (List.prefix_iff_eq_take.mp accepted.2).symm
  rw [encode_bytes, decode_record ok]
  change header ++ digits 4 (readU32 frame kSensorIdOffset).toNat ++
    digits 4 (readU32 frame kMetricIdOffset).toNat ++
    digits 8 (readU64 frame kTimestampOffset).toNat ++ digits 8 (readU64 frame kValueOffset).toNat = frame
  have inside : ∀ {offset width : Nat}, offset + width ≤ kFrameSize → offset + width ≤ frame.length :=
    fun less => size ▸ less
  rw [readU32_toNat (inside (by decide)), readU32_toNat (inside (by decide)),
    readU64_toNat (inside (by decide)), readU64_toNat (inside (by decide)),
    digits_value (field_length (inside (by decide))), digits_value (field_length (inside (by decide))),
    digits_value (field_length (inside (by decide))), digits_value (field_length (inside (by decide))),
    ← start]
  exact (fields_eq size).symm

theorem encode_ok (record : TelemetryRecord) : (decode (encode record).bytes).ok = true := by
  refine (decode_ok_iff _).mpr ⟨(encode record).size_eq, ?_⟩
  rw [encode_bytes, List.append_assoc, List.append_assoc, List.append_assoc]
  exact List.prefix_append _ _

theorem decode_encode (record : TelemetryRecord) :
    decode (encode record).bytes = { record := record, error := .none } := by
  have size := (encode record).size_eq
  have inside : ∀ {offset width : Nat}, offset + width ≤ kFrameSize →
      offset + width ≤ (encode record).bytes.length := fun less => size.symm ▸ less
  have number : ∀ (offset width n : Nat) (before after : List UInt8), before.length = offset →
      (encode record).bytes = before ++ digits width n ++ after → n < 256 ^ width →
      value (field (encode record).bytes offset width) = n := by
    intro offset width n before after start bytes small
    rw [bytes, field_append start (digits_length width n), value_digits, Nat.mod_eq_of_lt small]
  have bytes := encode_bytes record
  have sensor : readU32 (encode record).bytes kSensorIdOffset = record.sensorId := by
    apply UInt32.toNat_inj.mp
    rw [readU32_toNat (inside (by decide))]
    refine number _ 4 _ header (digits 4 record.metricId.toNat ++ digits 8 record.timestampNs.toNat ++
      digits 8 record.value.toNat) rfl ?_ record.sensorId.toNat_lt
    simpa only [List.append_assoc] using bytes
  have metric : readU32 (encode record).bytes kMetricIdOffset = record.metricId := by
    apply UInt32.toNat_inj.mp
    rw [readU32_toNat (inside (by decide))]
    refine number _ 4 _ (header ++ digits 4 record.sensorId.toNat)
      (digits 8 record.timestampNs.toNat ++ digits 8 record.value.toNat) ?_ ?_ record.metricId.toNat_lt
    · rw [List.length_append, digits_length]
      rfl
    · simpa only [List.append_assoc] using bytes
  have stamp : readU64 (encode record).bytes kTimestampOffset = record.timestampNs := by
    apply UInt64.toNat_inj.mp
    rw [readU64_toNat (inside (by decide))]
    refine number _ 8 _ (header ++ digits 4 record.sensorId.toNat ++ digits 4 record.metricId.toNat)
      (digits 8 record.value.toNat) ?_ bytes record.timestampNs.toNat_lt
    rw [List.length_append, List.length_append, digits_length, digits_length]
    rfl
  have last : readU64 (encode record).bytes kValueOffset = record.value := by
    apply UInt64.toNat_inj.mp
    rw [readU64_toNat (inside (by decide))]
    refine number _ 8 _ (header ++ digits 4 record.sensorId.toNat ++ digits 4 record.metricId.toNat ++
      digits 8 record.timestampNs.toNat) [] ?_ ?_ record.value.toNat_lt
    · rw [List.length_append, List.length_append, List.length_append, digits_length, digits_length,
        digits_length]
      rfl
    · rw [bytes, List.append_nil]
  rw [decode_record (encode_ok record), sensor, metric, stamp, last]

/-- `encode` and `decode` are inverse to each other, between all records and the byte strings of
32 bytes that start with the header. -/
theorem codec_bijective :
    (∀ record, decode (encode record).bytes = { record := record, error := .none }) ∧
    (∀ bytes, (decode bytes).ok = true ↔ bytes.length = kFrameSize ∧ header <+: bytes) ∧
    (∀ bytes, (decode bytes).ok = true → (encode (decode bytes).record).bytes = bytes) ∧
    Set.BijOn (fun record => (encode record).bytes) Set.univ {bytes | (decode bytes).ok = true} := by
  refine ⟨decode_encode, decode_ok_iff, fun _ => encode_decode, ?_, ?_, ?_⟩
  · exact fun record _ => encode_ok record
  · intro a _ b _ same
    have records := congrArg (fun bytes => (decode bytes).record) same
    simpa only [decode_encode] using records
  · exact fun bytes ok => ⟨(decode bytes).record, trivial, encode_decode ok⟩

end TelemetryServer.Protocol
