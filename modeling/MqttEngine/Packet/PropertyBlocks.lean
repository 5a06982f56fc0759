import MqttEngine.Packet.Properties
import Mathlib.Tactic.FinCases

/-!
# Property blocks

What `read_properties` accepts, and how its length rules stand to the types that MQTT 5 gives
its properties. A block that has been read falls into the properties of the list, each of the
shape its identifier asks for, and nothing of it is left out. The rules agree with the type
table of MQTT 5 on every identifier but one: 0x23, the topic alias, is a two-byte integer and
is read as four bytes.

## Main definitions

* `PropertyType`, `propertyType` — the type table of MQTT 5.
* `Property.WellFormed` — the data is a value of the type of the identifier.

## Main results

* `readProperties_exact` — a block that is read is consumed byte for byte.
* `properties_roundTrip_iff` — well-formed properties are read back unless one is a topic alias.
-/

namespace MqttEngine
open Checked SliceWriter

/-! ## What has been read -/

section
variable {buf : List UInt8} {cursor propEnd : ℕ}

theorem get_take {data : List UInt8} {start i len : ℕ} {e : PacketError} {b : UInt8}
    (hdata : data = (buf.drop start).take len) (hi : i < len) (h : get buf (start + i) e = .ok b) :
    get data i e = .ok b := by
  rw [get_eq_ok] at h ⊢
  rw [hdata, List.getElem?_take_of_lt hi, List.getElem?_drop, h]

/-- The rule asks of the data alone what it has asked of the buffer. -/
theorem propertyDataLen_take {id : UInt8} {start len : ℕ}
    (h : propertyDataLen id start buf = .ok len) :
    propertyDataLen id 0 ((buf.drop start).take len) = .ok len := by
  apply propertyDataLen_congr h
  · intro i b hi hb
    rw [Nat.zero_add]
    exact get_take rfl hi hb
  · intro n l hl hr
    exact Base128.read_take_of_le hr hl

/-- A property that has been read is the bytes it was read from. -/
theorem consumes_readProperty (hend : propEnd ≤ buf.length) :
    Consumes (fun part (p : Property) => part = p.bytes ∧ p.WellShaped) buf propEnd cursor
      (readProperty propEnd cursor buf) := by
  intro p c h
  obtain ⟨id, hid, h⟩ := bind_eq_ok.mp h
  obtain ⟨len, hlen, h⟩ := bind_eq_ok.mp h
  obtain ⟨_, hfit, h⟩ := bind_eq_ok.mp h
  obtain ⟨data, hdata, h⟩ := bind_eq_ok.mp h
  rw [failIf_eq_ok] at hfit
  cases h
  rw [range_of_le (by omega) (by omega), List.drop_take, Nat.add_sub_cancel_left] at hdata
  cases hdata
  have hlength : ((buf.drop (cursor + 1)).take len).length = len := by
    rw [List.length_take, List.length_drop]
    omega
  have hshape := propertyDataLen_take hlen
  refine ⟨id :: (buf.drop (cursor + 1)).take len, ?_, ?_, by omega, rfl, ?_⟩
  · have hlt : cursor < buf.length := by omega
    rw [index_of_lt hlt] at hid
    cases hid
    have hrest : buf.drop (cursor + 1 + len) = (buf.drop (cursor + 1)).drop len :=
      List.drop_drop.symm
    rw [List.drop_eq_getElem_cons hlt, List.cons_append, hrest, List.take_append_drop]
  · rw [List.length_cons, hlength]
    omega
  · rw [Property.WellShaped, hlength]
    exact hshape

end

/-- A block that has been read: where its length says that it ends, and the properties whose
bytes it is. -/
theorem readProperties_ok {cursor c : ℕ} {buf : List UInt8} {ps : Properties}
    (h : readProperties cursor buf = .ok (ps, c)) :
    ∃ propLen start, readVariableByteInteger cursor buf = .ok (propLen, start) ∧
      c = start + propLen ∧ c ≤ buf.length ∧ (propertiesBody ps.toList).length = propLen ∧
      buf.drop start = propertiesBody ps.toList ++ buf.drop c ∧ ∀ p ∈ ps.toList, p.WellShaped := by
  obtain ⟨⟨propLen, start⟩, hvbi, h⟩ := bind_eq_ok.mp h
  obtain ⟨_, hfit, h⟩ := bind_eq_ok.mp h
  rw [failIf_eq_ok] at hfit
  obtain ⟨parts, xs, hall, hparts, hc, hdrop, hlen⟩ :=
    readItems_consumes (fun _ _ => consumes_readProperty (Nat.le_of_not_lt hfit))
      (Nat.le_add_right start propLen) h
  have hbody : parts.flatten = propertiesBody ps.toList ∧ ∀ p ∈ ps.toList, p.WellShaped := by
    rw [hall, BoundedVec.toList_empty, List.nil_append]
    clear hall hdrop hlen
    induction hparts with
    | nil => exact ⟨rfl, by simp⟩
    | cons hx _ ih =>
      rw [List.flatten_cons, ih.1, hx.1]
      exact ⟨rfl, List.forall_mem_cons.mpr ⟨hx.2, ih.2⟩⟩
  rw [hbody.1] at hdrop hlen
  subst hc
  exact ⟨propLen, start, hvbi, rfl, by omega, by omega, hdrop, hbody.2⟩

/-- The cursor ends where the length of the block says, the properties are the bytes of the
block, and writing them gives these bytes again. -/
theorem readProperties_exact {cursor c : ℕ} {buf : List UInt8} {ps : Properties}
    (h : readProperties cursor buf = .ok (ps, c)) :
    ∃ propLen start, readVariableByteInteger cursor buf = .ok (propLen, start) ∧
      c = start + propLen ∧ c ≤ buf.length ∧
      (ps.toList.flatMap fun p => p.id :: p.data) = (buf.take c).drop start ∧
      ∀ out : Out UInt8,
        out.cursor + (Base128.encode propLen).length + propLen ≤ out.buf.length →
          writeProperties ps.toList out =
            .ok () (out.patch (Base128.encode propLen ++ (buf.take c).drop start)) := by
  obtain ⟨propLen, start, hvbi, hc, hle, hlen, hdrop, -⟩ := readProperties_ok h
  have hblock : propertiesBody ps.toList = (buf.take c).drop start := by
    rw [List.drop_take, hdrop, hc, Nat.add_sub_cancel_left, ← hlen, List.take_left]
  refine ⟨propLen, start, hvbi, hc, hle, hblock, fun out hout => ?_⟩
  have hbytes : propertiesBytes ps.toList =
      Base128.encode propLen ++ (buf.take c).drop start := by
    rw [propertiesBytes, hlen, hblock]
  rw [← hbytes]
  apply (emits_properties ps.toList).fits trivial
  rw [propertiesBytes, hlen, List.length_append, hlen]
  omega

/-- A user property behind a length field of two bytes is consumed byte for byte. -/
theorem readProperties_exact_user :
    ∃ propLen start,
      readVariableByteInteger 1 [0, 0x87, 0x00, 0x26, 0, 1, 97, 0, 1, 98, 7] = .ok (propLen, start) ∧
      10 = start + propLen ∧ 10 ≤ 11 ∧
      ([⟨0x26, [0, 1, 97, 0, 1, 98]⟩].flatMap fun p : Property => p.id :: p.data) =
        ([0, 0x87, 0x00, 0x26, 0, 1, 97, 0, 1, 98, 7].take 10).drop start ∧
      ∀ out : Out UInt8,
        out.cursor + (Base128.encode propLen).length + propLen ≤ out.buf.length →
          writeProperties [⟨0x26, [0, 1, 97, 0, 1, 98]⟩] out =
            .ok () (out.patch (Base128.encode propLen ++
              ([0, 0x87, 0x00, 0x26, 0, 1, 97, 0, 1, 98, 7].take 10).drop start)) :=
  have h : readProperties 1 [0, 0x87, 0x00, 0x26, 0, 1, 97, 0, 1, 98, 7] =
      .ok (⟨[⟨0x26, [0, 1, 97, 0, 1, 98]⟩], by decide⟩, 10) := by decide +kernel
  readProperties_exact h

/-! ## The types of MQTT 5 -/

/-- The types that MQTT 5 gives its properties. -/
inductive PropertyType
  | byte
  | twoByteInteger
  | fourByteInteger
  | variableByteInteger
  | stringOrBinary
  | stringPair
  deriving DecidableEq, Repr

/-- The type table of MQTT 5. -/
def propertyType (id : UInt8) : Option PropertyType :=
  if id ∈ [0x01, 0x17, 0x19, 0x24, 0x25, 0x28, 0x29, 0x2A] then some .byte
  else if id ∈ [0x13, 0x21, 0x22, 0x23] then some .twoByteInteger
  else if id ∈ [0x02, 0x11, 0x18, 0x27] then some .fourByteInteger
  else if id = 0x0B then some .variableByteInteger
  else if id ∈ [0x03, 0x08, 0x09, 0x12, 0x15, 0x16, 0x1A, 0x1C, 0x1F] then some .stringOrBinary
  else if id = 0x26 then some .stringPair
  else none

/-- The data is a value of the type. A string is taken as any bytes behind their length, of which
the strings of well-formed UTF-8 are some. -/
def PropertyType.Value : PropertyType → List UInt8 → Prop
  | .byte, data => data.length = 1
  | .twoByteInteger, data => data.length = 2
  | .fourByteInteger, data => data.length = 4
  | .variableByteInteger, data => ∃ n < 128 ^ 4, data = Base128.encode n
  | .stringOrBinary, data => ∃ bytes, bytes.length ≤ 65535 ∧ data = lengthPrefixed bytes
  | .stringPair, data => ∃ key value, key.length ≤ 65535 ∧ value.length ≤ 65535 ∧
      data = lengthPrefixed key ++ lengthPrefixed value

/-- The data of the property is a value of the type that MQTT 5 gives its identifier. -/
def Property.WellFormed (p : Property) : Prop :=
  ∃ type, propertyType p.id = some type ∧ type.Value p.data

theorem lengthPrefixed_eq_cons (bytes : List UInt8) : ∃ hi lo,
    lengthPrefixed bytes = hi :: lo :: bytes ∧
      (bytes.length ≤ 65535 → (fromBeBytes hi lo).toNat = bytes.length) := by
  refine ⟨_, _, rfl, fun h => ?_⟩
  rw [fromBeBytes_toBeBytes, UInt16.toNat_ofNat']
  omega

/-- A value of its type has the shape that is read back, but for a topic alias. -/
theorem wellShaped_of_wellFormed {p : Property} (h : p.WellFormed) (hid : p.id ≠ 0x23) :
    p.WellShaped := by
  obtain ⟨id, data⟩ := p
  obtain ⟨type, htype, hvalue⟩ := h
  dsimp only [Property.WellShaped] at htype hvalue hid ⊢
  unfold propertyType at htype
  split at htype
  · rename_i hmem
    cases htype
    fin_cases hmem <;> exact congrArg Except.ok hvalue.symm
  split at htype
  · rename_i hmem
    cases htype
    fin_cases hmem <;> first | exact congrArg Except.ok hvalue.symm | exact absurd rfl hid
  split at htype
  · rename_i hmem
    cases htype
    fin_cases hmem <;> exact congrArg Except.ok hvalue.symm
  split at htype
  · rename_i hmem
    cases htype
    obtain ⟨n, hn, rfl⟩ := hvalue
    have hread := reads_vbi hn 0 (Base128.encode n) [] (by simp)
    subst hmem
    change (readVariableByteInteger 0 (Base128.encode n) >>= fun x => sub x.2 0) = _
    rw [hread, ok_bind, sub_of_le (Nat.zero_le _), Nat.zero_add, Nat.sub_zero]
  split at htype
  · rename_i hmem
    cases htype
    obtain ⟨bytes, hbytes, rfl⟩ := hvalue
    obtain ⟨hi, lo, hcons, hlen⟩ := lengthPrefixed_eq_cons bytes
    rw [hcons]
    have hok : (.ok (2 + (fromBeBytes hi lo).toNat) : Checked PacketError ℕ) =
        .ok (hi :: lo :: bytes).length := by
      rw [hlen hbytes, List.length_cons, List.length_cons]
      congr 1
      omega
    fin_cases hmem <;> exact hok
  split at htype
  · rename_i hmem
    cases htype
    obtain ⟨key, value, hkey, hval, rfl⟩ := hvalue
    obtain ⟨hi, lo, hcons, hlen⟩ := lengthPrefixed_eq_cons key
    obtain ⟨hi', lo', hcons', hlen'⟩ := lengthPrefixed_eq_cons value
    have hdrop : (lengthPrefixed key ++ lengthPrefixed value).drop (2 + key.length) =
        hi' :: lo' :: value := by
      rw [← length_lengthPrefixed key, List.drop_left, hcons']
    subst hmem
    rw [hcons, hcons'] at hdrop ⊢
    change (get (hi :: lo :: key ++ hi' :: lo' :: value) (0 + 2 + (fromBeBytes hi lo).toNat)
      PacketError.malformedPacket >>= fun hi'' => get (hi :: lo :: key ++ hi' :: lo' :: value)
        (0 + 2 + (fromBeBytes hi lo).toNat + 1) .malformedPacket >>= fun lo'' =>
          .ok (2 + (fromBeBytes hi lo).toNat + 2 + (fromBeBytes hi'' lo'').toNat)) = _
    rw [hlen hkey, Nat.zero_add, get_of_drop hdrop, ok_bind, get_of_drop (drop_succ_of_cons hdrop),
      ok_bind, hlen' hval]
    simp only [List.length_append, List.length_cons, Except.ok.injEq]
    omega
  · cases htype

/-- A topic alias of two bytes does not have the shape that is read. -/
theorem not_wellShaped_topicAlias {p : Property} (h : p.WellFormed) (hid : p.id = 0x23) :
    ¬ p.WellShaped := by
  obtain ⟨id, data⟩ := p
  obtain ⟨type, htype, hvalue⟩ := h
  dsimp only at hid
  subst hid
  obtain rfl : PropertyType.twoByteInteger = type := Option.some.inj htype
  intro hshape
  have hfour : (.ok 4 : Checked PacketError ℕ) = .ok data.length := hshape
  cases hvalue.symm.trans (Except.ok.inj hfour).symm

theorem length_le_of_value {type : PropertyType} {data : List UInt8} (h : type.Value data) :
    data.length ≤ 131074 := by
  cases type with
  | byte | twoByteInteger | fourByteInteger =>
    simp only [PropertyType.Value] at h
    omega
  | variableByteInteger =>
    obtain ⟨n, hn, rfl⟩ := h
    have := Base128.length_encode_le (show 0 < 4 by decide) hn
    omega
  | stringOrBinary =>
    obtain ⟨bytes, hbytes, rfl⟩ := h
    rw [length_lengthPrefixed]
    omega
  | stringPair =>
    obtain ⟨key, value, hkey, hval, rfl⟩ := h
    rw [List.length_append, length_lengthPrefixed, length_lengthPrefixed]
    omega

theorem length_propertiesBody_le {ps : List Property} (h : ∀ p ∈ ps, p.WellFormed) :
    (propertiesBody ps).length ≤ ps.length * 131075 := by
  induction ps with
  | nil => rfl
  | cons p ps ih =>
    obtain ⟨type, _, hvalue⟩ := h p (by simp)
    have hdata := length_le_of_value hvalue
    have hrest := ih fun q hq => h q (by simp [hq])
    rw [length_propertiesBody] at hrest ⊢
    rw [List.map_cons, List.sum_cons, List.length_cons]
    omega

/-- Eight well-formed properties are never too long for a length field. -/
theorem length_propertiesBody_of_wellFormed {ps : Properties}
    (h : ∀ p ∈ ps.toList, p.WellFormed) : (propertiesBody ps.toList).length < 128 ^ 4 := by
  have hbody := length_propertiesBody_le h
  have hcount := ps.length_le
  omega

/-- Well-formed properties are read back as they were written, wherever the block stands and
whatever stands around it, exactly if none of them is a topic alias. -/
theorem properties_roundTrip_iff (ps : Properties) (h : ∀ p ∈ ps.toList, p.WellFormed)
    {buf : List UInt8} {cursor : ℕ}
    (hroom : cursor + (propertiesBytes ps.toList).length ≤ buf.length) :
    (∃ s, writeProperties ps.toList ⟨buf, cursor⟩ = .ok () s ∧
      readProperties cursor s.buf = .ok (ps, s.cursor)) ↔ ∀ p ∈ ps.toList, p.id ≠ 0x23 := by
  have hwrite := (emits_properties ps.toList).fits trivial ⟨buf, cursor⟩ hroom
  constructor
  · rintro ⟨s, -, hread⟩ p hp hid
    obtain ⟨_, _, _, _, _, _, _, hshape⟩ := readProperties_ok hread
    exact not_wellShaped_topicAlias (h p hp) hid (hshape p hp)
  · intro hid
    have hshape (p : Property) (hp : p ∈ ps.toList) : p.WellShaped :=
      wellShaped_of_wellFormed (h p hp) (hid p hp)
    refine ⟨_, hwrite, ?_⟩
    apply reads_properties hshape (length_propertiesBody_of_wellFormed h) cursor _
      (buf.drop (cursor + (propertiesBytes ps.toList).length))
    have hfront : (buf.take cursor).length = cursor := by
      rw [List.length_take]
      omega
    rw [Out.patch, List.append_assoc]
    exact List.drop_left' hfront

/-- A response topic and a user property are read back from the middle of a buffer. -/
theorem properties_roundTrip_response :
    (∀ p ∈ [⟨0x08, [0, 1, 97]⟩, (⟨0x26, [0, 1, 98, 0, 0]⟩ : Property)], p.WellFormed) ∧
      ∃ s, writeProperties [⟨0x08, [0, 1, 97]⟩, ⟨0x26, [0, 1, 98, 0, 0]⟩]
          ⟨[9, 9, 0, 0, 0, 0, 0, 0, 0, 0, 0, 0, 0, 7], 2⟩ = .ok () s ∧
        readProperties 2 s.buf =
          .ok (⟨[⟨0x08, [0, 1, 97]⟩, ⟨0x26, [0, 1, 98, 0, 0]⟩], by decide⟩, s.cursor) := by
  have hformed : ∀ p ∈ [⟨0x08, [0, 1, 97]⟩, (⟨0x26, [0, 1, 98, 0, 0]⟩ : Property)],
      p.WellFormed := by
    simp only [List.forall_mem_cons, List.not_mem_nil, false_implies, implies_true, and_true]
    exact ⟨⟨.stringOrBinary, rfl, [97], by decide, rfl⟩,
      ⟨.stringPair, rfl, [98], [], by decide, by decide, rfl⟩⟩
  exact ⟨hformed, (properties_roundTrip_iff
    ⟨[⟨0x08, [0, 1, 97]⟩, ⟨0x26, [0, 1, 98, 0, 0]⟩], by decide⟩ hformed
      (by decide +kernel)).mpr (by decide)⟩

/-- A topic alias is a well-formed property, and reading it fails. -/
theorem topicAlias_lost :
    ¬ ∀ (ps : Properties) (buf : List UInt8) (cursor : ℕ), (∀ p ∈ ps.toList, p.WellFormed) →
      cursor + (propertiesBytes ps.toList).length ≤ buf.length →
        ∃ s, writeProperties ps.toList ⟨buf, cursor⟩ = .ok () s ∧
          readProperties cursor s.buf = .ok (ps, s.cursor) := by
  intro h
  obtain ⟨s, hwrite, hread⟩ := h ⟨[⟨0x23, [0, 1]⟩], by decide⟩ [0, 0, 0, 0] 0
    (by
      simp only [List.forall_mem_cons, List.not_mem_nil, false_implies, implies_true, and_true]
      exact ⟨.twoByteInteger, rfl, rfl⟩)
    (by decide +kernel)
  have hbuf : s = ⟨[3, 0x23, 0, 1], 4⟩ := by
    cases hwrite
    rfl
  rw [hbuf] at hread
  revert hread
  decide +kernel

end MqttEngine
