import MqttEngine.Lib.Base128
import MqttEngine.Lib.Cursor
import MqttEngine.Lib.Reader
import MqttEngine.Packet.Types
import Mathlib.Tactic.Ring

/-!
# Variable byte integers, strings and binary data

The primitive readers and writers of `varint.rs`. A reader takes the cursor and the buffer
and returns what it read with the new cursor; it indexes the buffer only through
`Checked.index` and `Checked.range`, so an access out of bounds would be a panic.

Further sections state `Reads` for each reader and `Emits` for each writer, and that the readers
return on any bytes. Four loops go over the digits of a variable byte integer, two of them reading
and two writing; `vbi_agree` says that they agree on the format.
-/

namespace MqttEngine
open Checked SliceWriter

/-! ## Bytes, strings and 16-bit words -/

/-- `s.as_bytes()`. -/
def strBytes (s : String) : List UInt8 := s.toByteArray.data.toList

/-- `core::str::from_utf8(bytes)`. -/
def fromUtf8 (bytes : List UInt8) : Option String :=
  if h : (ByteArray.mk bytes.toArray).IsValidUTF8 then some (String.ofByteArray _ h) else none

@[simp] theorem fromUtf8_strBytes (s : String) : fromUtf8 (strBytes s) = some s := by
  have h : ByteArray.mk (strBytes s).toArray = s.toByteArray := by simp [strBytes]
  unfold fromUtf8
  simp only [h, s.isValidUTF8, dite_true]

theorem strBytes_of_fromUtf8 {bytes : List UInt8} {s : String} (h : fromUtf8 bytes = some s) :
    strBytes s = bytes := by
  unfold fromUtf8 at h
  split at h <;> cases h
  rfl

/-- `u16::from_be_bytes([hi, lo])`. -/
def fromBeBytes (hi lo : UInt8) : UInt16 := UInt16.ofNat (256 * hi.toNat + lo.toNat)

/-- `x.to_be_bytes()`. -/
def toBeBytes (x : UInt16) : List UInt8 := [UInt8.ofNat (x.toNat / 256), UInt8.ofNat (x.toNat % 256)]

@[simp] theorem length_toBeBytes (x : UInt16) : (toBeBytes x).length = 2 := rfl

theorem fromBeBytes_toBeBytes (x : UInt16) :
    fromBeBytes (UInt8.ofNat (x.toNat / 256)) (UInt8.ofNat (x.toNat % 256)) = x := by
  have hx := x.toNat_lt
  apply UInt16.toNat_inj.mp
  simp only [fromBeBytes, UInt16.toNat_ofNat', UInt8.toNat_ofNat']
  omega

theorem toBeBytes_append_inj {x y : UInt16} {t u : List UInt8}
    (h : toBeBytes x ++ t = toBeBytes y ++ u) : x = y := by
  have hbytes : toBeBytes x = toBeBytes y := (List.append_inj h rfl).1
  simp only [toBeBytes, List.cons.injEq, and_true] at hbytes
  rw [← fromBeBytes_toBeBytes x, hbytes.1, hbytes.2, fromBeBytes_toBeBytes]

/-! ## Variable byte integers -/

/-- The loop of the two readers, with `k` rounds left before the fifth byte. -/
def vbiLoop (buf : List UInt8) (cursor : ℕ) : ℕ → ℕ → ℕ → ℕ → Checked PacketError (ℕ × ℕ)
  | 0, _, _, _ => .error (.err .malformedPacket)
  | k + 1, i, multiplier, value => do
    let encodedByte ← get buf (cursor + i) .incompletePacket
    let value := value + (encodedByte &&& 127).toNat * multiplier
    if encodedByte &&& 128 = 0 then .ok (value, i + 1)
    else vbiLoop buf cursor k (i + 1) (multiplier * 128) value

/-- `read_variable_byte_integer`. -/
def readVariableByteInteger (cursor : ℕ) (buf : List UInt8) : Checked PacketError (ℕ × ℕ) := do
  let (value, len) ← vbiLoop buf cursor 4 0 1 0
  .ok (value, cursor + len)

/-- `peek_variable_byte_integer`, which returns the value and the bytes it takes. -/
def peekVariableByteInteger (buf : List UInt8) : Checked PacketError (ℕ × ℕ) :=
  vbiLoop buf 0 4 0 1 0

/-- The loop of the two writers. A round divides the value by 128, so `fuel` above the
value is never used up. -/
def writeVbiLoop : ℕ → ℕ → SliceWriter PacketError UInt8 Unit
  | 0, _ => throw .diverge
  | fuel + 1, val => do
    let encodedByte := UInt8.ofNat (val % 128)
    let val := val / 128
    putByte .bufferTooSmall (if val > 0 then encodedByte ||| 128 else encodedByte)
    if val = 0 then pure () else writeVbiLoop fuel val

/-- `write_variable_byte_integer`. -/
def writeVariableByteInteger (val : ℕ) : SliceWriter PacketError UInt8 Unit :=
  writeVbiLoop (val + 1) val

/-- `write_variable_byte_integer_len`: the same loop from the start of a slice, which
returns the number of bytes written. -/
def writeVariableByteIntegerLen (val : ℕ) : EStateM (Fault PacketError) (List UInt8) ℕ :=
  fromStart (writeVbiLoop (val + 1) val)

/-! ## Length-prefixed data -/

/-- `u16::from_be_bytes([buf[cursor], buf[cursor + 1]])`. -/
def readU16 (cursor : ℕ) (buf : List UInt8) : Checked PacketError UInt16 := do
  let hi ← index buf cursor
  let lo ← index buf (cursor + 1)
  .ok (fromBeBytes hi lo)

/-- The common part of `read_utf8_string` and `read_binary_data`. -/
def readLengthPrefixed (cursor : ℕ) (buf : List UInt8) : Checked PacketError (List UInt8 × ℕ) :=
  if cursor + 2 > buf.length then .error (.err .incompletePacket)
  else do
    let len := (← readU16 cursor buf).toNat
    let cursor := cursor + 2
    if cursor + len > buf.length then .error (.err .incompletePacket)
    else do
      let data ← range buf cursor (cursor + len)
      .ok (data, cursor + len)

/-- `read_utf8_string`. -/
def readUtf8String (cursor : ℕ) (buf : List UInt8) : Checked PacketError (String × ℕ) := do
  let (bytes, cursor) ← readLengthPrefixed cursor buf
  match fromUtf8 bytes with
  | some s => .ok (s, cursor)
  | none => .error (.err .invalidUtf8String)

/-- `read_binary_data`. -/
def readBinaryData (cursor : ℕ) (buf : List UInt8) : Checked PacketError (List UInt8 × ℕ) :=
  readLengthPrefixed cursor buf

/-- The common part of `write_utf8_string` and `write_binary_data`: it works on a slice and
returns the number of bytes written. -/
def writeLengthPrefixed (data : List UInt8) : EStateM (Fault PacketError) (List UInt8) ℕ := fun buf =>
  if data.length > 65535 then .error (.err .payloadTooLarge) buf
  else
    let requiredSpace := 2 + data.length
    if requiredSpace ≤ buf.length then
      .ok requiredSpace (toBeBytes (UInt16.ofNat data.length) ++ data ++ buf.drop requiredSpace)
    else .error (.err .bufferTooSmall) buf

/-- `write_utf8_string`. -/
def writeUtf8String (s : String) : EStateM (Fault PacketError) (List UInt8) ℕ :=
  writeLengthPrefixed (strBytes s)

/-- `write_binary_data`. -/
def writeBinaryData (data : List UInt8) : EStateM (Fault PacketError) (List UInt8) ℕ :=
  writeLengthPrefixed data

/-! ## What the readers return -/

theorem and127_toNat (b : UInt8) : (b &&& 127).toNat = b.toNat % 128 := by
  rw [UInt8.toNat_and]
  exact Nat.and_two_pow_sub_one_eq_mod b.toNat 7

theorem and128_eq_zero (b : UInt8) : b &&& 128 = 0 ↔ b.toNat < 128 := by
  have h : ∀ i : Fin 256, ((UInt8.ofNat i.val &&& 128 = 0) ↔ i.val < 128) := by
    decide +kernel
  have hb := h ⟨b.toNat, b.toNat_lt⟩
  simpa using hb

/-- The reading loop computes the reading of a base-128 number at the cursor, scaled and
shifted by what the rounds before have accumulated. -/
theorem vbiLoop_eq (buf : List UInt8) (cursor k i multiplier value : ℕ) :
    vbiLoop buf cursor k i multiplier value =
      match Base128.read k (buf.drop (cursor + i)) with
      | .value n len => .ok (value + n * multiplier, i + len)
      | .incomplete => .error (.err .incompletePacket)
      | .overlong => .error (.err .malformedPacket) := by
  induction k generalizing i multiplier value with
  | zero => rfl
  | succ k ih =>
    rw [vbiLoop]
    by_cases hlt : cursor + i < buf.length
    · rw [get_of_lt hlt, List.drop_eq_getElem_cons hlt, Base128.read]
      simp only [ok_bind, and128_eq_zero, and127_toNat]
      by_cases hb : buf[cursor + i].toNat < 128
      · simp only [hb, if_true, Nat.mod_eq_of_lt hb]
      · simp only [hb, if_false, ih, show cursor + (i + 1) = cursor + i + 1 by omega]
        cases Base128.read k (buf.drop (cursor + i + 1)) with
        | value n len =>
          simp only [Except.ok.injEq, Prod.mk.injEq]
          exact ⟨by ring, by omega⟩
        | incomplete => rfl
        | overlong => rfl
    · have hle : buf.length ≤ cursor + i := by omega
      rw [get_of_le hle, List.drop_of_length_le hle]
      rfl

/-- `read_variable_byte_integer` reads a base-128 number of at most four bytes. -/
theorem readVariableByteInteger_eq (cursor : ℕ) (buf : List UInt8) :
    readVariableByteInteger cursor buf =
      match Base128.read 4 (buf.drop cursor) with
      | .value n len => .ok (n, cursor + len)
      | .incomplete => .error (.err .incompletePacket)
      | .overlong => .error (.err .malformedPacket) := by
  rw [readVariableByteInteger, vbiLoop_eq]
  simp only [Nat.add_zero]
  split <;> simp

/-- `peek_variable_byte_integer` reads the number at the front of its slice. -/
theorem peekVariableByteInteger_eq (buf : List UInt8) :
    peekVariableByteInteger buf =
      match Base128.read 4 buf with
      | .value n len => .ok (n, len)
      | .incomplete => .error (.err .incompletePacket)
      | .overlong => .error (.err .malformedPacket) := by
  rw [peekVariableByteInteger, vbiLoop_eq]
  simp only [Nat.add_zero, List.drop_zero]
  split <;> simp

theorem or128_toNat {n : ℕ} (hn : n < 128) : UInt8.ofNat n ||| 128 = UInt8.ofNat (n + 128) := by
  have h : ∀ i : Fin 128, UInt8.ofNat i.val ||| 128 = UInt8.ofNat (i.val + 128) := by
    decide +kernel
  exact h ⟨n, hn⟩

/-! ## Wherever the bytes stand -/

theorem readU16_of_drop {buf rest : List UInt8} {cursor : ℕ} {x : UInt16}
    (h : buf.drop cursor = toBeBytes x ++ rest) : readU16 cursor buf = .ok x := by
  simp only [toBeBytes, List.cons_append, List.nil_append] at h
  rw [readU16, index_of_drop h, ok_bind, index_of_drop (drop_succ_of_cons h), ok_bind,
    fromBeBytes_toBeBytes]

theorem reads_vbi {n : ℕ} (h : n < 128 ^ 4) :
    Reads readVariableByteInteger (Base128.encode n) n := by
  intro cursor buf rest hbuf
  rw [readVariableByteInteger_eq, hbuf, Base128.read_encode_append (by omega) h]

/-- The bytes of length-prefixed data. -/
def lengthPrefixed (data : List UInt8) : List UInt8 :=
  toBeBytes (UInt16.ofNat data.length) ++ data

@[simp] theorem length_lengthPrefixed (data : List UInt8) :
    (lengthPrefixed data).length = 2 + data.length := by
  simp [lengthPrefixed]

theorem reads_lengthPrefixed {data : List UInt8} (h : data.length ≤ 65535) :
    Reads readLengthPrefixed (lengthPrefixed data) data := by
  intro cursor buf rest hbuf
  have hlen := length_of_drop hbuf (by simp [lengthPrefixed, toBeBytes])
  simp only [List.length_append, length_lengthPrefixed] at hlen
  rw [lengthPrefixed, List.append_assoc] at hbuf
  have hdata := drop_add_of_append hbuf
  have hsize : (UInt16.ofNat data.length).toNat = data.length := by
    rw [UInt16.toNat_ofNat']; omega
  rw [readLengthPrefixed, if_neg (by omega), readU16_of_drop hbuf, ok_bind, hsize]
  simp only [length_toBeBytes] at hdata
  rw [if_neg (by omega), range_of_drop hdata (by omega), ok_bind, length_lengthPrefixed,
    Nat.add_assoc]

theorem reads_utf8String {s : String} (h : (strBytes s).length ≤ 65535) :
    Reads readUtf8String (lengthPrefixed (strBytes s)) s := by
  intro cursor buf rest hbuf
  rw [readUtf8String, reads_lengthPrefixed h cursor buf rest hbuf]
  simp

theorem reads_binaryData {data : List UInt8} (h : data.length ≤ 65535) :
    Reads readBinaryData (lengthPrefixed data) data := reads_lengthPrefixed h

/-! ## The readers return -/

theorem advances_vbi (cursor : ℕ) (buf : List UInt8) :
    Advances (readVariableByteInteger cursor buf) cursor := by
  rw [readVariableByteInteger_eq]
  cases h : Base128.read 4 (buf.drop cursor) with
  | value n len =>
    have hpos := (Base128.read_eq_value h).1
    refine ⟨returns_ok _, ?_⟩
    rintro x c ⟨⟩
    omega
  | incomplete => exact ⟨returns_err _, by rintro x c ⟨⟩⟩
  | overlong => exact ⟨returns_err _, by rintro x c ⟨⟩⟩

theorem returns_readU16 {cursor : ℕ} {buf : List UInt8} (h : cursor + 2 ≤ buf.length) :
    Returns (readU16 cursor buf) := by
  rw [readU16, index_of_lt (show cursor < buf.length by omega), ok_bind,
    index_of_lt (show cursor + 1 < buf.length by omega), ok_bind]
  exact returns_ok _

theorem advances_lengthPrefixed (cursor : ℕ) (buf : List UInt8) :
    Advances (readLengthPrefixed cursor buf) cursor := by
  unfold readLengthPrefixed
  split
  · exact ⟨returns_err _, by rintro x c ⟨⟩⟩
  · rename_i h
    constructor
    · apply Returns.bind (returns_readU16 (by omega))
      intro len _
      dsimp only
      split
      · exact returns_err _
      · rw [range_of_le (by omega) (by omega)]
        exact returns_ok _
    · intro x c hok
      obtain ⟨len, _, hok⟩ := bind_eq_ok.mp hok
      dsimp only at hok
      split at hok
      · cases hok
      · obtain ⟨data, _, hok⟩ := bind_eq_ok.mp hok
        cases hok
        omega

theorem advances_utf8String (cursor : ℕ) (buf : List UInt8) :
    Advances (readUtf8String cursor buf) cursor := by
  obtain ⟨hreturns, hmoves⟩ := advances_lengthPrefixed cursor buf
  constructor
  · apply Returns.bind hreturns
    rintro ⟨bytes, c⟩ _
    dsimp only
    split <;> simp
  · intro x c hok
    obtain ⟨⟨bytes, c'⟩, hread, hok⟩ := bind_eq_ok.mp hok
    dsimp only at hok
    split at hok
    · cases hok
      exact hmoves bytes c hread
    · cases hok

theorem advances_binaryData (cursor : ℕ) (buf : List UInt8) :
    Advances (readBinaryData cursor buf) cursor := advances_lengthPrefixed cursor buf

/-! ## What the writers emit -/

theorem overruns_writeVbiLoop (fuel val : ℕ) :
    Overruns PacketError.bufferTooSmall (writeVbiLoop (fuel + 1) val) :=
  Overruns.bind (Overruns.putByte _) _

/-- With enough fuel the writing loop emits the base-128 encoding. -/
theorem emits_writeVbiLoop {fuel val : ℕ} (h : val < fuel) :
    Emits .bufferTooSmall True (writeVbiLoop fuel val) (Base128.encode val) := by
  induction fuel generalizing val with
  | zero => omega
  | succ fuel ih =>
    simp only [writeVbiLoop]
    by_cases hval : val < 128
    · have hdiv : val / 128 = 0 := by omega
      simp only [hdiv, gt_iff_lt, lt_irrefl, if_false, if_true]
      rw [Base128.encode_of_lt hval, Nat.mod_eq_of_lt hval]
      exact ((Emits.putByte _).bind Emits.pure).congr (by simp) (by simp)
    · have hdiv : 0 < val / 128 := by omega
      simp only [gt_iff_lt, hdiv, if_true, Nat.ne_of_gt hdiv, if_false]
      rw [Base128.encode_of_ge (by omega), or128_toNat (by omega)]
      exact ((Emits.putByte _).bind (ih (by omega))).congr (by simp) (by simp)

theorem emits_vbi (val : ℕ) :
    Emits .bufferTooSmall True (writeVariableByteInteger val) (Base128.encode val) :=
  emits_writeVbiLoop (Nat.lt_succ_self val)

theorem emits_vbiLen (val : ℕ) :
    Emits .bufferTooSmall True (onTail .bufferTooSmall (writeVariableByteIntegerLen val))
      (Base128.encode val) :=
  (emits_vbi val).onTail

/-- The length field is written to the front of a slice with room for it. -/
theorem writeVariableByteIntegerLen_fits (val : ℕ) {buf : List UInt8}
    (h : (Base128.encode val).length ≤ buf.length) :
    writeVariableByteIntegerLen val buf = .ok (Base128.encode val).length
      (Base128.encode val ++ buf.drop (Base128.encode val).length) := by
  have hwrite := (emits_vbi val).fits trivial ⟨buf, 0⟩ (by rwa [Nat.zero_add])
  rw [writeVariableByteInteger] at hwrite
  rw [writeVariableByteIntegerLen, fromStart, hwrite]
  simp [Out.patch]

theorem length_writeLengthPrefixed (data buf : List UInt8) :
    (writeLengthPrefixed data buf).final.length = buf.length := by
  unfold writeLengthPrefixed
  split
  · rfl
  · dsimp only
    split
    · simp only [EStateM.Result.final_ok, List.length_append, length_toBeBytes, List.length_drop]
      omega
    · rfl

theorem emits_lengthPrefixed (data : List UInt8) :
    Emits .bufferTooSmall (data.length ≤ 65535)
      (onTail .bufferTooSmall (writeLengthPrefixed data)) (lengthPrefixed data) where
  fits h s hs := by
    simp only [length_lengthPrefixed] at hs
    have hroom : 2 + data.length ≤ s.buf.length - s.cursor := by omega
    simp only [onTail, writeLengthPrefixed, show s.cursor ≤ s.buf.length by omega, if_true,
      show ¬ data.length > 65535 by omega, if_false, List.length_drop, hroom]
    simp [Out.patch, lengthPrefixed, List.drop_drop]
  short h s hc hs := by
    simp only [length_lengthPrefixed] at hs
    have hroom : ¬ 2 + data.length ≤ s.buf.length - s.cursor := by omega
    simp only [onTail, writeLengthPrefixed, hc, if_true, show ¬ data.length > 65535 by omega,
      if_false, List.length_drop, hroom]
    exact ⟨_, rfl⟩
  fails h s hc := by
    simp only [onTail, writeLengthPrefixed, hc, if_true, show data.length > 65535 by omega]
    exact ⟨_, _, rfl⟩
  length s := length_onTail (length_writeLengthPrefixed data) s

theorem emits_utf8String (s : String) :
    Emits .bufferTooSmall ((strBytes s).length ≤ 65535)
      (onTail .bufferTooSmall (writeUtf8String s)) (lengthPrefixed (strBytes s)) :=
  emits_lengthPrefixed _

theorem emits_binaryData (data : List UInt8) :
    Emits .bufferTooSmall (data.length ≤ 65535)
      (onTail .bufferTooSmall (writeBinaryData data)) (lengthPrefixed data) :=
  emits_lengthPrefixed data

/-! ## The four loops agree -/

/-- The two writers put the bytes `bs` at the cursor, and the reader finds the value there; or
neither of them has room. `write_variable_byte_integer_len` is given what is behind the cursor. -/
def WrittenAs (val : ℕ) (bs : List UInt8) (s : Out UInt8) : Prop :=
  (s.cursor + bs.length ≤ s.buf.length ∧
    writeVariableByteInteger val s = .ok () (s.patch bs) ∧
    writeVariableByteIntegerLen val (s.buf.drop s.cursor) =
      .ok bs.length (bs ++ s.buf.drop (s.cursor + bs.length)) ∧
    readVariableByteInteger s.cursor (s.patch bs).buf = .ok (val, s.cursor + bs.length)) ∨
  (s.buf.length < s.cursor + bs.length ∧
    (∃ s', writeVariableByteInteger val s = .error (.err .bufferTooSmall) s') ∧
    ∃ buf', writeVariableByteIntegerLen val (s.buf.drop s.cursor) =
      .error (.err .bufferTooSmall) buf')

/-- The two readers return the same value, which is not too large, and move as far; or they return
the same error. -/
def ReadAlike (cursor : ℕ) (buf : List UInt8) : Prop :=
  (∃ value len, value ≤ 268435455 ∧
    readVariableByteInteger cursor buf = .ok (value, cursor + len) ∧
    peekVariableByteInteger (buf.drop cursor) = .ok (value, len)) ∨
  ∃ e, readVariableByteInteger cursor buf = .error (.err e) ∧
    peekVariableByteInteger (buf.drop cursor) = .error (.err e)

theorem readAlike (cursor : ℕ) (buf : List UInt8) : ReadAlike cursor buf := by
  rw [ReadAlike, readVariableByteInteger_eq, peekVariableByteInteger_eq]
  cases hread : Base128.read 4 (buf.drop cursor) with
  | value n len =>
    have hlt := (Base128.read_eq_value hread).2.2.2
    exact .inl ⟨n, len, by omega, rfl, rfl⟩
  | incomplete => exact .inr ⟨_, rfl, rfl⟩
  | overlong => exact .inr ⟨_, rfl, rfl⟩

/-- Without room for its bytes a value is not written, wherever the cursor stands. -/
theorem writeVariableByteInteger_short {val : ℕ} {s : Out UInt8}
    (h : s.buf.length < s.cursor + (Base128.encode val).length) :
    ∃ s', writeVariableByteInteger val s = .error (.err .bufferTooSmall) s' := by
  by_cases hc : s.cursor ≤ s.buf.length
  · exact (emits_vbi val).short trivial s hc h
  · exact ⟨s, overruns_writeVbiLoop val val s (by omega)⟩

theorem writtenAs {val : ℕ} (h : val ≤ 268435455) (s : Out UInt8) :
    WrittenAs val (Base128.encode val) s := by
  by_cases hroom : s.cursor + (Base128.encode val).length ≤ s.buf.length
  · have hfits : (Base128.encode val).length ≤ (s.buf.drop s.cursor).length := by
      rw [List.length_drop]
      omega
    have hlen := writeVariableByteIntegerLen_fits val hfits
    have hdrop := s.drop_patch (Base128.encode val) (by omega) 0
    rw [Nat.add_zero, List.drop_zero] at hdrop
    rw [List.drop_drop] at hlen
    exact .inl ⟨hroom, (emits_vbi val).fits trivial s hroom, hlen,
      reads_vbi (by omega) s.cursor _ _ hdrop⟩
  · have hshort : s.buf.length < s.cursor + (Base128.encode val).length := by omega
    have hfront : (s.buf.drop s.cursor).length < 0 + (Base128.encode val).length := by
      have hpos := Base128.length_encode_pos val
      rw [List.length_drop]
      omega
    obtain ⟨t, ht⟩ : ∃ t, writeVariableByteInteger val ⟨s.buf.drop s.cursor, 0⟩ =
      .error (.err .bufferTooSmall) t := writeVariableByteInteger_short hfront
    refine .inr ⟨hshort, writeVariableByteInteger_short hshort, t.buf, ?_⟩
    rw [writeVariableByteInteger] at ht
    rw [writeVariableByteIntegerLen, fromStart, ht]

/-- **Variable byte integers.** A value is written as the same one to four bytes by both writers,
and no shorter ones are read as it; both readers take any bytes alike. -/
theorem vbi_agree {val : ℕ} (h : val ≤ 268435455) :
    (∃ bs : List UInt8, 1 ≤ bs.length ∧ bs.length ≤ 4 ∧
      (∀ cursor buf cursor', readVariableByteInteger cursor buf = .ok (val, cursor') →
        cursor + bs.length ≤ cursor') ∧
      ∀ s, WrittenAs val bs s) ∧
    ∀ cursor buf, ReadAlike cursor buf := by
  refine ⟨⟨Base128.encode val, Base128.length_encode_pos val,
    Base128.length_encode_le (by omega) (by omega), fun cursor buf cursor' hread => ?_,
    writtenAs h⟩, readAlike⟩
  rw [readVariableByteInteger_eq] at hread
  cases hvalue : Base128.read 4 (buf.drop cursor) with
  | value n len =>
    rw [hvalue] at hread
    cases hread
    exact Nat.add_le_add_left (Base128.length_encode_le_of_read hvalue) cursor
  | incomplete =>
    rw [hvalue] at hread
    cases hread
  | overlong =>
    rw [hvalue] at hread
    cases hread

/-- The greatest value takes four bytes. -/
theorem vbi_agree_max : 268435455 ≤ 268435455 ∧
    ∃ bs : List UInt8, bs.length ≤ 4 ∧ ∀ s, WrittenAs 268435455 bs s := by
  obtain ⟨⟨bs, -, hle, -, hwritten⟩, -⟩ := vbi_agree (le_refl 268435455)
  exact ⟨le_rfl, bs, hle, hwritten⟩

end MqttEngine
