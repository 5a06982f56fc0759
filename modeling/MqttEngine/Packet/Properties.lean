import MqttEngine.Packet.Varint

/-!
# MQTT 5 properties

`read_properties` and `write_properties`. A property block is a length followed by
identifiers with their data; how much data belongs to an identifier is decided by
`propertyDataLen`, and `Property.WellShaped` says that a property carries exactly as much.

## Main results

* `reads_properties` — a block of well-shaped properties is read back as it was written.
* `emits_properties` — what `write_properties` writes.
* `returns_readProperties` — reading a block neither panics nor loops, on any bytes.
-/

namespace MqttEngine
open Checked SliceWriter

/-! ## Reading -/

/-- The length of the data of property `id`, whose data starts at `dataStart`. -/
def propertyDataLen (id : UInt8) (dataStart : ℕ) (buf : List UInt8) : Checked PacketError ℕ :=
  -- Byte properties
  if id ∈ [0x01, 0x17, 0x24, 0x25, 0x28, 0x29, 0x2A] then .ok 1
  -- 2-byte integer properties
  else if id ∈ [0x13, 0x21, 0x22] then .ok 2
  -- 4-byte integer properties
  else if id ∈ [0x02, 0x11, 0x18, 0x23, 0x27] then .ok 4
  -- UTF-8 string or binary data
  else if id ∈ [0x03, 0x08, 0x12, 0x15, 0x1A, 0x1C, 0x1F, 0x09, 0x16] then do
    let hi ← get buf dataStart .malformedPacket
    let lo ← get buf (dataStart + 1) .malformedPacket
    .ok (2 + (fromBeBytes hi lo).toNat)
  -- User property (pair of UTF-8 strings)
  else if id = 0x26 then do
    let hi ← get buf dataStart .malformedPacket
    let lo ← get buf (dataStart + 1) .malformedPacket
    let keyLen := (fromBeBytes hi lo).toNat
    let valStart := dataStart + 2 + keyLen
    let hi ← get buf valStart .malformedPacket
    let lo ← get buf (valStart + 1) .malformedPacket
    .ok (2 + keyLen + 2 + (fromBeBytes hi lo).toNat)
  -- Variable byte integer properties
  else if id = 0x0B then do
    let (_, tempCursor) ← readVariableByteInteger dataStart buf
    sub tempCursor dataStart
  else .ok 1

/-- One round of the loop of `read_properties`: a property that ends at `propEnd` or before. -/
def readProperty (propEnd cursor : ℕ) (buf : List UInt8) : Checked PacketError (Property × ℕ) := do
  let id ← index buf cursor
  let dataStart := cursor + 1
  let dataLen ← propertyDataLen id dataStart buf
  failIf (dataStart + dataLen > propEnd) .malformedPacket
  let data ← range buf dataStart (dataStart + dataLen)
  .ok ({ id, data }, dataStart + dataLen)

/-- `read_properties`. -/
def readProperties (cursor : ℕ) (buf : List UInt8) : Checked PacketError (Properties × ℕ) := do
  let (propLen, cursor) ← readVariableByteInteger cursor buf
  let propEnd := cursor + propLen
  failIf (propEnd > buf.length) .incompletePacket
  readItems .tooManyProperties (readProperty propEnd) buf propEnd propLen cursor .empty

/-! ## Writing -/

/-- `write_properties`. -/
def writeProperties (properties : List Property) : SliceWriter PacketError UInt8 Unit := do
  let totalPropLen := (properties.map fun prop => 1 + prop.data.length).sum
  writeVariableByteInteger totalPropLen
  properties.forM fun prop => do
    putByte .bufferTooSmall prop.id
    putSlice .bufferTooSmall prop.data

/-- The bytes of one property. -/
def Property.bytes (p : Property) : List UInt8 := p.id :: p.data

/-- The bytes of a property block, without its length. -/
def propertiesBody (ps : List Property) : List UInt8 := ps.flatMap Property.bytes

/-- The bytes of a property block. -/
def propertiesBytes (ps : List Property) : List UInt8 :=
  Base128.encode (propertiesBody ps).length ++ propertiesBody ps

theorem length_propertiesBody (ps : List Property) :
    (propertiesBody ps).length = (ps.map fun prop => 1 + prop.data.length).sum := by
  induction ps with
  | nil => rfl
  | cons p ps ih =>
    simp only [propertiesBody, List.flatMap_cons, List.length_append, List.map_cons,
      List.sum_cons] at ih ⊢
    rw [ih]
    simp only [Property.bytes, List.length_cons]
    omega

theorem emits_properties (ps : List Property) :
    Emits .bufferTooSmall True (writeProperties ps) (propertiesBytes ps) := by
  have hprop (prop : Property) : Emits PacketError.bufferTooSmall (True ∧ True)
      (do putByte .bufferTooSmall prop.id; putSlice .bufferTooSmall prop.data) prop.bytes :=
    (Emits.putByte prop.id).bind (Emits.putSlice prop.data)
  have hloop := Emits.forM ps hprop
  rw [propertiesBytes, length_propertiesBody]
  exact ((emits_vbi _).bind hloop).congr (by simp) rfl

/-! ## Well-shaped properties are read back -/

/-- The data has the length that `read_properties` assigns to the identifier. -/
def Property.WellShaped (p : Property) : Prop :=
  propertyDataLen p.id 0 p.data = .ok p.data.length

instance (p : Property) : Decidable p.WellShaped := by
  unfold Property.WellShaped
  infer_instance

/-- A byte of data that stands in the buffer is found there. -/
theorem get_of_get_data {buf data rest : List UInt8} {start i : ℕ} {b : UInt8} {e : PacketError}
    (hbuf : buf.drop start = data ++ rest) (h : get data i e = .ok b) :
    get buf (start + i) e = .ok b := by
  rw [get_eq_ok] at h ⊢
  have hlt : i < data.length := (List.getElem?_eq_some_iff.mp h).1
  rw [← List.getElem?_drop, hbuf, List.getElem?_append_left hlt, h]

/-- The length rule looks at nothing but the data that it finds. -/
theorem propertyDataLen_congr {id : UInt8} {buf buf' : List UInt8} {start start' len : ℕ}
    (h : propertyDataLen id start buf = .ok len)
    (hget : ∀ {i : ℕ} {b : UInt8}, i < len → get buf (start + i) PacketError.malformedPacket = .ok b →
      get buf' (start' + i) PacketError.malformedPacket = .ok b)
    (hvbi : ∀ {n l : ℕ}, l ≤ len → Base128.read 4 (buf.drop start) = .value n l →
      Base128.read 4 (buf'.drop start') = .value n l) :
    propertyDataLen id start' buf' = .ok len := by
  unfold propertyDataLen at h ⊢
  split
  · rename_i hid
    rwa [if_pos hid] at h
  rename_i h1
  rw [if_neg h1] at h
  split
  · rename_i hid
    rwa [if_pos hid] at h
  rename_i h2
  rw [if_neg h2] at h
  split
  · rename_i hid
    rwa [if_pos hid] at h
  rename_i h3
  rw [if_neg h3] at h
  split
  · -- A length-prefixed string: its two length bytes stand in the data.
    rename_i hid
    rw [if_pos hid, bind_eq_ok] at h
    obtain ⟨hi, hhi, h⟩ := h
    obtain ⟨lo, hlo, h⟩ := bind_eq_ok.mp h
    cases h
    have hhi' := hget (i := 0) (by omega) hhi
    rw [Nat.add_zero] at hhi'
    rw [hhi', ok_bind, hget (by omega) hlo, ok_bind]
  rename_i h4
  rw [if_neg h4] at h
  split
  · rename_i hid
    rw [if_pos hid, bind_eq_ok] at h
    obtain ⟨hi, hhi, h⟩ := h
    obtain ⟨lo, hlo, h⟩ := bind_eq_ok.mp h
    obtain ⟨hi', hhi', h⟩ := bind_eq_ok.mp h
    obtain ⟨lo', hlo', h⟩ := bind_eq_ok.mp h
    cases h
    simp only [Nat.add_assoc start] at hhi' hlo'
    have hfirst := hget (i := 0) (by omega) hhi
    rw [Nat.add_zero] at hfirst
    rw [hfirst, ok_bind, hget (by omega) hlo, ok_bind]
    simp only [Nat.add_assoc start']
    rw [hget (by omega) hhi', ok_bind, hget (by omega) hlo', ok_bind]
  rename_i h5
  rw [if_neg h5] at h
  split
  · rename_i hid
    rw [if_pos hid, readVariableByteInteger_eq] at h
    rw [readVariableByteInteger_eq]
    cases hr : Base128.read 4 (buf.drop start) with
    | value n l =>
      rw [hr] at h
      simp only [ok_bind, sub_of_le (Nat.le_add_right start l), Nat.add_sub_cancel_left] at h
      cases h
      rw [hvbi le_rfl hr]
      simp only [ok_bind, sub_of_le (Nat.le_add_right start' len), Nat.add_sub_cancel_left]
    | incomplete => rw [hr] at h; cases h
    | overlong => rw [hr] at h; cases h
  rename_i h6
  rwa [if_neg h6] at h

/-- The data may stand anywhere in a buffer. -/
theorem propertyDataLen_of_wellShaped {id : UInt8} {buf data rest : List UInt8} {start : ℕ}
    (hbuf : buf.drop start = data ++ rest) (h : propertyDataLen id 0 data = .ok data.length) :
    propertyDataLen id start buf = .ok data.length := by
  apply propertyDataLen_congr h
  · intro i b _ hb
    rw [Nat.zero_add] at hb
    exact get_of_get_data hbuf hb
  · intro n l _ hr
    rw [hbuf]
    exact Base128.read_append hr rest

/-- A well-shaped property is read back, below any bound it fits under. -/
theorem readProperty_of_drop {p : Property} (hp : p.WellShaped) {propEnd cursor : ℕ}
    {buf rest : List UInt8} (hbuf : buf.drop cursor = p.bytes ++ rest)
    (hend : cursor + p.bytes.length ≤ propEnd) :
    readProperty propEnd cursor buf = .ok (p, cursor + p.bytes.length) := by
  have hlen := length_of_drop hbuf (by simp [Property.bytes])
  simp only [Property.bytes, List.cons_append, List.length_cons, List.length_append] at hbuf hlen
  have hdata := drop_succ_of_cons hbuf
  simp only [Property.bytes, List.length_cons] at hend ⊢
  rw [readProperty, index_of_drop hbuf, ok_bind]
  dsimp only
  rw [propertyDataLen_of_wellShaped hdata hp, ok_bind, failIf_of_not (by omega), ok_bind,
    range_of_drop hdata (by omega), ok_bind]
  simp [Nat.add_comm, Nat.add_left_comm]

/-- A block of well-shaped properties is read back as it was written. -/
theorem reads_properties {ps : Properties} (hps : ∀ p ∈ ps.toList, p.WellShaped)
    (hlen : (propertiesBody ps.toList).length < 128 ^ 4) :
    Reads readProperties (propertiesBytes ps.toList) ps := by
  intro cursor buf rest hbuf
  have hsize := length_of_drop hbuf (by simp [propertiesBytes, Base128.encode_ne_nil])
  simp only [propertiesBytes, List.append_assoc, List.length_append] at hbuf hsize
  have hbody := drop_add_of_append hbuf
  rw [readProperties, reads_vbi hlen cursor buf _ hbuf, ok_bind]
  dsimp only
  rw [failIf_of_not (by omega), ok_bind]
  apply (readItems_append ?_ hbody rfl (Nat.le_refl _) (List.nil_append _)).trans
  · simp [propertiesBytes, propertiesBody, Nat.add_assoc]
  · intro p hp
    exact ⟨by simp [Property.bytes], fun _ _ hdrop hend => readProperty_of_drop (hps p hp) hdrop hend⟩

/-! ## Reading a block returns -/

theorem returns_propertyDataLen (id : UInt8) (dataStart : ℕ) (buf : List UInt8) :
    Returns (propertyDataLen id dataStart buf) := by
  have hget (i : ℕ) {β : Type} (f : UInt8 → Checked PacketError β) (hf : ∀ b, Returns (f b)) :
      Returns (get buf i .malformedPacket >>= f) :=
    Returns.bind (returns_get _ _ _) fun b _ => hf b
  unfold propertyDataLen
  split
  · exact returns_ok _
  split
  · exact returns_ok _
  split
  · exact returns_ok _
  split
  · exact hget _ _ fun hi => hget _ _ fun lo => returns_ok _
  split
  · exact hget _ _ fun hi => hget _ _ fun lo => hget _ _ fun hi' => hget _ _ fun lo' => returns_ok _
  split
  · obtain ⟨hreturns, hmoves⟩ := advances_vbi dataStart buf
    apply Returns.bind hreturns
    rintro ⟨n, c⟩ hok
    have := hmoves n c hok
    dsimp only
    rw [sub_of_le (by omega)]
    exact returns_ok _
  · exact returns_ok _

theorem advances_readProperty {propEnd cursor : ℕ} {buf : List UInt8} (hc : cursor < propEnd)
    (hend : propEnd ≤ buf.length) : Advances (readProperty propEnd cursor buf) cursor := by
  rw [readProperty, index_of_lt (by omega), ok_bind]
  constructor
  · apply Returns.bind (returns_propertyDataLen _ _ _)
    intro len _
    apply Returns.bind (returns_failIf _ _)
    intro _ hfit
    rw [failIf_eq_ok] at hfit
    rw [range_of_le (by omega) (by omega)]
    exact returns_ok _
  · intro x c hok
    obtain ⟨len, _, hok⟩ := bind_eq_ok.mp hok
    obtain ⟨_, _, hok⟩ := bind_eq_ok.mp hok
    obtain ⟨data, _, hok⟩ := bind_eq_ok.mp hok
    cases hok
    omega

/-- Reading a block neither panics nor loops, on any bytes. -/
theorem returns_readProperties (cursor : ℕ) (buf : List UInt8) :
    Returns (readProperties cursor buf) := by
  apply Returns.bind (advances_vbi cursor buf).1
  rintro ⟨propLen, c⟩ _
  apply Returns.bind (returns_failIf _ _)
  intro _ hfit
  rw [failIf_eq_ok] at hfit
  apply returns_readItems _ (by omega)
  intro cursor hc
  exact advances_readProperty hc (by omega)

end MqttEngine
