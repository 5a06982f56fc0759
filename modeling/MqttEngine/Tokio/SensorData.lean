import MqttEngine.Lib.Utf8
import MqttEngine.Packet.Varint
import MqttEngine.Tokio.Stream

/-!
# Sensor data

`SensorDataType` of `stream.rs`: the payloads of a data stream, each behind a tag. A series carries
the number of its values in 16 bits and an image the length of its mime type in 8 bits. The encoder
writes these numbers without a check, and the decoder falls back to `raw` only where bytes are
missing, so a longer series comes back as the values that the reduced number covers
(`decode_encode_timeSeries`). All other data comes back as it was (`decode_encode_iff`).

Floating point values are their bit patterns.

## Main definitions

* `SensorDataType.encode`, `SensorDataType.decode`.
* `SensorDataType.Prefixed` — the lengths that an encoding carries fit their prefixes.

## Main results

* `decode_encode_iff` — which data an encoding keeps.
* `carries_iff` — the same through the wire format of a chunk.
-/

namespace MqttEngine.Tokio

/-! ## Integers and strings -/

/-- The last `size` bytes of a number, most significant byte first. -/
def putBytes : ℕ → ℕ → List UInt8
  | 0, _ => []
  | size + 1, x => UInt8.ofNat (x / 256 ^ size) :: putBytes size x

/-- The number in the first `size` bytes. -/
def getBytes (size : ℕ) (data : List UInt8) : ℕ :=
  (data.take size).foldl (fun acc b => 256 * acc + b.toNat) 0

/-- `put_u16`. -/
def putU16 (x : UInt16) : List UInt8 := putBytes 2 x.toNat

/-- `get_u16`. -/
def getU16 (data : List UInt8) : UInt16 := UInt16.ofNat (getBytes 2 data)

/-- `put_u32`. -/
def putU32 (x : UInt32) : List UInt8 := putBytes 4 x.toNat

/-- `get_u32`. -/
def getU32 (data : List UInt8) : UInt32 := UInt32.ofNat (getBytes 4 data)

/-- `String::from_utf8_lossy`. -/
def fromUtf8Lossy (bytes : List UInt8) : String := String.ofList (Utf8.lossy bytes)

@[simp] theorem length_putBytes (size x : ℕ) : (putBytes size x).length = size := by
  induction size with
  | zero => rfl
  | succ size ih => simp [putBytes, ih]

theorem foldl_putBytes (size x acc : ℕ) :
    (putBytes size x).foldl (fun acc b => 256 * acc + b.toNat) acc =
      256 ^ size * acc + x % 256 ^ size := by
  induction size generalizing acc with
  | zero => simp [putBytes, Nat.mod_one]
  | succ size ih =>
    have hsplit : x % 256 ^ (size + 1) = x % 256 ^ size + 256 ^ size * (x / 256 ^ size % 256) := by
      rw [pow_succ, Nat.mod_mul]
    simp only [putBytes, List.foldl_cons, ih, UInt8.toNat_ofNat', hsplit]
    ring

theorem getBytes_putBytes {size x : ℕ} (h : x < 256 ^ size) (rest : List UInt8) :
    getBytes size (putBytes size x ++ rest) = x := by
  rw [getBytes, List.take_left' (length_putBytes size x), foldl_putBytes, Nat.mod_eq_of_lt h]
  simp

@[simp] theorem length_putU16 (x : UInt16) : (putU16 x).length = 2 := length_putBytes _ _

@[simp] theorem length_putU32 (x : UInt32) : (putU32 x).length = 4 := length_putBytes _ _

@[simp] theorem getU16_putU16 (x : UInt16) (rest : List UInt8) : getU16 (putU16 x ++ rest) = x := by
  rw [getU16, putU16, getBytes_putBytes (by simpa using x.toNat_lt), UInt16.ofNat_toNat]

@[simp] theorem getU32_putU32 (x : UInt32) (rest : List UInt8) : getU32 (putU32 x ++ rest) = x := by
  rw [getU32, putU32, getBytes_putBytes (by simpa using x.toNat_lt), UInt32.ofNat_toNat]

theorem strBytes_eq_encode (s : String) : strBytes s = Utf8.encode s.toList := by
  rw [strBytes, ← String.utf8Encode_toList]
  simp [List.utf8Encode, Utf8.encode]

@[simp] theorem fromUtf8Lossy_strBytes (s : String) : fromUtf8Lossy (strBytes s) = s := by
  rw [fromUtf8Lossy, strBytes_eq_encode, Utf8.lossy_encode, String.ofList_toList]

theorem fromUtf8Lossy_take_ne {s : String} {k : ℕ} (h : k + 12 < (strBytes s).length) :
    fromUtf8Lossy ((strBytes s).take k) ≠ s := by
  rw [strBytes_eq_encode] at h ⊢
  intro heq
  have hlossy := congrArg String.toList heq
  rw [fromUtf8Lossy, String.toList_ofList] at hlossy
  exact Utf8.lossy_take_ne h hlossy

/-! ## The data -/

/-- `SensorDataType`. -/
inductive SensorDataType where
  | raw (bytes : List UInt8)
  | timeSeries (values : List UInt64)
  | timeSeriesF32 (values : List UInt32)
  | json (text : String)
  | audioPcm (sampleRate : UInt32) (channels : UInt8) (data : List UInt8)
  | imageFrame (mime : String) (data : List UInt8)
  deriving DecidableEq

namespace SensorDataType

/-- `TAG_RAW`. -/
def tagRaw : UInt8 := 0x01

/-- `TAG_TIMESERIES_F64`. -/
def tagTimeseriesF64 : UInt8 := 0x02

/-- `TAG_TIMESERIES_F32`. -/
def tagTimeseriesF32 : UInt8 := 0x03

/-- `TAG_JSON`. -/
def tagJson : UInt8 := 0x04

/-- `TAG_AUDIO_PCM`. -/
def tagAudioPcm : UInt8 := 0x05

/-- `TAG_IMAGE_FRAME`. -/
def tagImageFrame : UInt8 := 0x06

/-- `encode`. The lengths are cast to the types of their prefixes. -/
def encode : SensorDataType → List UInt8
  | raw bytes => tagRaw :: bytes
  | timeSeries values =>
    tagTimeseriesF64 :: (putU16 (UInt16.ofNat values.length) ++ values.flatMap putU64)
  | timeSeriesF32 values =>
    tagTimeseriesF32 :: (putU16 (UInt16.ofNat values.length) ++ values.flatMap putU32)
  | json text => tagJson :: strBytes text
  | audioPcm sampleRate channels data =>
    tagAudioPcm :: (putU32 sampleRate ++ channels :: data)
  | imageFrame mime data =>
    tagImageFrame :: UInt8.ofNat (strBytes mime).length :: (strBytes mime ++ data)

/-- The loop that reads `count` values of `size` bytes. -/
def getSeries {α : Type} (size : ℕ) (get : List UInt8 → α) : ℕ → List UInt8 → List α
  | 0, _ => []
  | count + 1, slice => get slice :: getSeries size get count (slice.drop size)

/-- The values behind a number of values, unless bytes are missing. -/
def decodeSeries {α : Type} (size : ℕ) (get : List UInt8 → α) (slice : List UInt8) :
    Option (List α) :=
  if 2 ≤ slice.length then
    let count := (getU16 slice).toNat
    let slice := slice.drop 2
    if count * size ≤ slice.length then some (getSeries size get count slice) else none
  else none

/-- `decode`. -/
def decode (payload : List UInt8) : SensorDataType :=
  match payload with
  | [] => raw payload
  | tag :: slice =>
    if tag = tagRaw then raw slice
    else if tag = tagTimeseriesF64 then
      match decodeSeries 8 getU64 slice with
      | some vals => timeSeries vals
      | none => raw payload
    else if tag = tagTimeseriesF32 then
      match decodeSeries 4 getU32 slice with
      | some vals => timeSeriesF32 vals
      | none => raw payload
    else if tag = tagJson then json (fromUtf8Lossy slice)
    else if tag = tagAudioPcm then
      if 5 ≤ slice.length then
        audioPcm (getU32 slice) ((slice.drop 4).headD 0) (slice.drop 5)
      else raw payload
    else if tag = tagImageFrame then
      match slice with
      | mimeLen :: slice =>
        if mimeLen.toNat ≤ slice.length then
          imageFrame (fromUtf8Lossy (slice.take mimeLen.toNat)) (slice.drop mimeLen.toNat)
        else raw payload
      | [] => raw payload
    else raw payload

/-- The lengths that the encoding carries fit their prefixes. -/
def Prefixed : SensorDataType → Prop
  | timeSeries values => values.length < 2 ^ 16
  | timeSeriesF32 values => values.length < 2 ^ 16
  | imageFrame mime _ => (strBytes mime).length < 2 ^ 8
  | _ => True

instance : DecidablePred Prefixed
  | timeSeries values => inferInstanceAs (Decidable (values.length < 2 ^ 16))
  | timeSeriesF32 values => inferInstanceAs (Decidable (values.length < 2 ^ 16))
  | imageFrame mime _ => inferInstanceAs (Decidable ((strBytes mime).length < 2 ^ 8))
  | raw _ | json _ | audioPcm _ _ _ => inferInstanceAs (Decidable True)

/-! ## What comes back -/

section
variable {α : Type} {size : ℕ} {put : α → List UInt8} {get : List UInt8 → α}

theorem length_flatMap_put (hsize : ∀ x, (put x).length = size) (values : List α) :
    (values.flatMap put).length = values.length * size := by
  induction values with
  | nil => simp
  | cons x values ih =>
    rw [List.flatMap_cons, List.length_append, hsize, ih, List.length_cons]
    ring

theorem getSeries_flatMap (hsize : ∀ x, (put x).length = size)
    (hget : ∀ x rest, get (put x ++ rest) = x) (values : List α) {count : ℕ}
    (h : count ≤ values.length) :
    getSeries size get count (values.flatMap put) = values.take count := by
  induction values generalizing count with
  | nil =>
    obtain rfl : count = 0 := by simpa using h
    rfl
  | cons x values ih =>
    cases count with
    | zero => rfl
    | succ count =>
      have hcount : count ≤ values.length := by simpa using h
      rw [getSeries, List.flatMap_cons, hget, List.drop_left' (hsize x), ih hcount,
        List.take_succ_cons]

/-- The number of values is read back modulo `2 ^ 16`. -/
theorem decodeSeries_encode (hsize : ∀ x, (put x).length = size)
    (hget : ∀ x rest, get (put x ++ rest) = x) (values : List α) :
    decodeSeries size get (putU16 (UInt16.ofNat values.length) ++ values.flatMap put) =
      some (values.take (values.length % 2 ^ 16)) := by
  have hcount : values.length % 2 ^ 16 ≤ values.length := Nat.mod_le _ _
  have hbytes : values.length % 2 ^ 16 * size ≤ (values.flatMap put).length := by
    rw [length_flatMap_put hsize]
    exact Nat.mul_le_mul_right size hcount
  have htwo : 2 ≤ (putU16 (UInt16.ofNat values.length) ++ values.flatMap put).length := by simp
  rw [decodeSeries, if_pos htwo, getU16_putU16, List.drop_left' (length_putU16 _),
    UInt16.toNat_ofNat']
  simp only [if_pos hbytes, getSeries_flatMap hsize hget values hcount]

end

theorem decode_encode_timeSeries (values : List UInt64) :
    decode (timeSeries values).encode = timeSeries (values.take (values.length % 2 ^ 16)) := by
  have h := decodeSeries_encode length_putU64 getU64_putU64 values
  simp only [decode, encode, h]
  rfl

theorem decode_encode_timeSeriesF32 (values : List UInt32) :
    decode (timeSeriesF32 values).encode =
      timeSeriesF32 (values.take (values.length % 2 ^ 16)) := by
  have h := decodeSeries_encode length_putU32 getU32_putU32 values
  simp only [decode, encode, h]
  rfl

theorem decode_encode_imageFrame (mime : String) (data : List UInt8) :
    decode (imageFrame mime data).encode =
      imageFrame (fromUtf8Lossy ((strBytes mime).take ((strBytes mime).length % 2 ^ 8)))
        ((strBytes mime ++ data).drop ((strBytes mime).length % 2 ^ 8)) := by
  have hle : (strBytes mime).length % 2 ^ 8 ≤ (strBytes mime).length := Nat.mod_le _ _
  have hslice : (strBytes mime).length % 2 ^ 8 ≤ (strBytes mime ++ data).length := by
    rw [List.length_append]
    omega
  simp only [decode, encode, tagRaw, tagTimeseriesF64, tagTimeseriesF32, tagJson, tagAudioPcm,
    tagImageFrame, UInt8.toNat_ofNat', if_pos hslice, List.take_append_of_le_length hle]
  rfl

/-- An encoding keeps the data if and only if its lengths fit their prefixes. -/
theorem decode_encode_iff (d : SensorDataType) : decode d.encode = d ↔ d.Prefixed := by
  cases d with
  | raw bytes => simp [decode, encode, Prefixed]
  | timeSeries values =>
    rw [decode_encode_timeSeries, timeSeries.injEq, List.take_eq_self_iff, Prefixed]
    omega
  | timeSeriesF32 values =>
    rw [decode_encode_timeSeriesF32, timeSeriesF32.injEq, List.take_eq_self_iff, Prefixed]
    omega
  | json text =>
    simp [decode, encode, Prefixed, tagRaw, tagTimeseriesF64, tagTimeseriesF32, tagJson]
  | audioPcm sampleRate channels data =>
    have hlength : 5 ≤ (putU32 sampleRate ++ channels :: data).length := by
      simp
      omega
    have hdata : (putU32 sampleRate ++ channels :: data).drop 5 = data := by
      rw [← List.drop_drop (i := 1) (j := 4), List.drop_left' (length_putU32 _), List.drop_one,
        List.tail_cons]
    simp only [decode, encode, if_pos hlength, getU32_putU32, List.drop_left' (length_putU32 _),
      hdata, Prefixed, iff_true]
    rfl
  | imageFrame mime data =>
    rw [decode_encode_imageFrame, imageFrame.injEq, Prefixed]
    constructor
    · intro h
      by_contra hlong
      exact fromUtf8Lossy_take_ne (by omega) h.1
    · intro h
      rw [Nat.mod_eq_of_lt h]
      simp

end SensorDataType

/-! ## Through the wire format -/

namespace StreamChunk

/-- `to_sensor_data`. -/
def toSensorData (chunk : StreamChunk) : SensorDataType := SensorDataType.decode chunk.payload

theorem ofWire_topic (topic : String) (chunk : StreamChunk) :
    ofWire topic chunk.encodeWire = { chunk with topic, isRecovery := false } :=
  ofWire_encodeWire { chunk with topic }

/-- The encoded chunk with the payload `d.encode` is decoded to one with the same numbers and
the data `d`. -/
def Carries (E : Type) (topic : String) (chunk : StreamChunk) (d : SensorDataType) : Prop :=
  ∃ decoded, (decodeWire topic (encodeWire { chunk with payload := d.encode }) :
      Except (ClientError E) StreamChunk) = .ok decoded ∧
    decoded.seqId = chunk.seqId ∧ decoded.timestampNs = chunk.timestampNs ∧
    decoded.toSensorData = d

/-- A chunk carries sensor data if and only if the lengths in the data fit their prefixes. -/
theorem carries_iff (E : Type) (topic : String) (chunk : StreamChunk) (d : SensorDataType) :
    chunk.Carries E topic d ↔ d.Prefixed := by
  rw [Carries, decodeWire, ofWire_topic, ← SensorDataType.decode_encode_iff]
  constructor
  · rintro ⟨decoded, hdecoded, -, -, hd⟩
    cases hdecoded
    exact hd
  · intro hd
    exact ⟨_, rfl, rfl, rfl, hd⟩

/-- A series of `2 ^ 16` values is sent as one of no values. -/
theorem not_carries_timeSeries : ¬ ∀ (topic : String) (chunk : StreamChunk) (d : SensorDataType),
    chunk.Carries Unit topic d := by
  intro h
  obtain ⟨decoded, hdecoded, -, -, hd⟩ :=
    h "s" ⟨1, 0, "s", [], false⟩ (.timeSeries (List.replicate (2 ^ 16) 0))
  rw [decodeWire, ofWire_topic] at hdecoded
  cases hdecoded
  rw [toSensorData, SensorDataType.decode_encode_timeSeries, List.length_replicate, Nat.mod_self,
    List.take_zero] at hd
  have hlength := congrArg List.length (SensorDataType.timeSeries.inj hd)
  rw [List.length_replicate, List.length_nil] at hlength
  omega

end StreamChunk

end MqttEngine.Tokio
