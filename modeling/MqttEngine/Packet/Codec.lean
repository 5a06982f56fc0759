import MqttEngine.Packet.Properties

/-!
# Encoders and decoders of the control packets

The encoders and decoders of `codec.rs`. An encoder reserves four bytes for the remaining
length, writes the content behind them, and then moves the content to where the length
really ends; this frame is `encodeFramed`, and each packet supplies its first byte and its
content. A decoder passes the cursor on explicitly. It compares it in some places with the
end of the content that the remaining length declares, and in others only with the end of
the buffer; each comparison stands where the source has it.

`RawPacketFrameIter` cuts a stream into frames without decoding them.
-/

namespace MqttEngine
open Checked SliceWriter

/-! ## Encoding -/

/-- What `EncodePacket::encode` is: it fills the buffer and returns the number of bytes. -/
abbrev Encoder := EStateM (Fault PacketError) (List UInt8) ℕ

/-- The frame around every content: first byte, four reserved bytes, content, remaining
length, and the content moved behind it. -/
def encodeFramed (first : UInt8) (content : SliceWriter PacketError UInt8 Unit) : Encoder := fun buf =>
  let frame : SliceWriter PacketError UInt8 ℕ := do
    putByte .bufferTooSmall first
    let remainingLenPos ← position
    seek (remainingLenPos + 4)
    let contentStart ← position
    content
    let contentEnd ← position
    let remainingLen := contentEnd - contentStart
    seek remainingLenPos
    onTail .bufferTooSmall (writeVariableByteIntegerLen remainingLen)
    let headerLen ← position
    copyWithin contentStart contentEnd headerLen
    pure (headerLen + remainingLen)
  match frame ⟨buf, 0⟩ with
  | .ok n s => .ok n s.buf
  | .error e s => .error e s.buf

/-- The properties are written in version 5 only. -/
def writeV5Properties (version : MqttVersion) (properties : Properties) :
    SliceWriter PacketError UInt8 Unit :=
  when (version = .v5) (writeProperties properties.toList)

/-- The CONNECT flags. -/
def Connect.flags (self : Connect) : UInt8 :=
  let flags : UInt8 := 0
  let flags := if self.cleanSession then flags ||| 0x02 else flags
  let flags := match self.will with
    | some will =>
      let flags := flags ||| 0x04
      let flags := flags ||| (will.qos.toByte <<< 3)
      if will.retain then flags ||| 0x20 else flags
    | none => flags
  let flags := if self.password.isSome then flags ||| 0x40 else flags
  if self.username.isSome then flags ||| 0x80 else flags

/-- The will in the payload of CONNECT. -/
def Will.write (will : Will) (version : MqttVersion) : SliceWriter PacketError UInt8 Unit := do
  writeV5Properties version will.properties
  onTail .bufferTooSmall (writeUtf8String will.topic)
  onTail .bufferTooSmall (writeBinaryData will.payload)

/-- The content of CONNECT. -/
def Connect.write (self : Connect) (version : MqttVersion) : SliceWriter PacketError UInt8 Unit := do
  onTail .bufferTooSmall (writeUtf8String "MQTT")
  putByte .bufferTooSmall (match version with
    | .v3_1_1 | .v3 => 0x04
    | .v5 => 0x05)
  putByte .bufferTooSmall self.flags
  putSlice .bufferTooSmall (toBeBytes self.keepAlive)
  writeV5Properties version self.properties
  onTail .bufferTooSmall (writeUtf8String self.clientId)
  whenSome self.will fun will => will.write version
  whenSome self.username fun user => onTail .bufferTooSmall (writeUtf8String user)
  whenSome self.password fun pass => onTail .bufferTooSmall (writeUtf8String pass)

/-- `Connect::encode`. -/
def Connect.encode (self : Connect) (version : MqttVersion) : Encoder :=
  encodeFramed 0x10 (self.write version)

/-- The content of CONNACK. -/
def ConnAck.write (self : ConnAck) (version : MqttVersion) : SliceWriter PacketError UInt8 Unit := do
  putByte .bufferTooSmall (if self.sessionPresent then 0x01 else 0x00)
  putByte .bufferTooSmall self.reasonCode
  writeV5Properties version self.properties

/-- `ConnAck::encode`. -/
def ConnAck.encode (self : ConnAck) (version : MqttVersion) : Encoder :=
  encodeFramed 0x20 (self.write version)

/-- The first byte of PUBLISH. -/
def Publish.header (self : Publish) : UInt8 :=
  let flags : UInt8 := 0x30
  let flags := if self.dup then flags ||| 0x08 else flags
  let flags := flags ||| (self.qos.toByte <<< 1)
  if self.retain then flags ||| 0x01 else flags

/-- The content of PUBLISH. -/
def Publish.write (self : Publish) (version : MqttVersion) : SliceWriter PacketError UInt8 Unit := do
  onTail .bufferTooSmall (writeUtf8String self.topic)
  when (self.qos ≠ .atMostOnce)
    (putSlice .bufferTooSmall (toBeBytes (self.packetId.getD 1)))
  writeV5Properties version self.properties
  putSlice .bufferTooSmall self.payload

/-- `Publish::encode`. -/
def Publish.encode (self : Publish) (version : MqttVersion) : Encoder :=
  encodeFramed self.header (self.write version)

/-- Reason code and properties of an acknowledgement or a DISCONNECT, left out in version 5
when there is nothing to say and in the older versions always. -/
def writeReason (version : MqttVersion) (reasonCode : UInt8) (properties : Properties) :
    SliceWriter PacketError UInt8 Unit :=
  when (version = .v5 ∧ (properties.toList ≠ [] ∨ reasonCode ≠ 0)) do
    putByte .bufferTooSmall reasonCode
    writeProperties properties.toList

/-- The content of the four publish acknowledgements. -/
def Ack.write (self : Ack) (version : MqttVersion) : SliceWriter PacketError UInt8 Unit := do
  putSlice .bufferTooSmall (toBeBytes self.packetId)
  writeReason version self.reasonCode self.properties

/-- `impl_ack_packet!`: the encoder of an acknowledgement with the given first byte. -/
def Ack.encode (firstByte : UInt8) (self : Ack) (version : MqttVersion) : Encoder :=
  encodeFramed firstByte (self.write version)

/-- `PubAck::encode`. -/
def PubAck.encode : PubAck → MqttVersion → Encoder := Ack.encode 0x40
/-- `PubRec::encode`. -/
def PubRec.encode : PubRec → MqttVersion → Encoder := Ack.encode 0x50
/-- `PubRel::encode`; the first byte has a reserved bit set. -/
def PubRel.encode : PubRel → MqttVersion → Encoder := Ack.encode 0x62
/-- `PubComp::encode`. -/
def PubComp.encode : PubComp → MqttVersion → Encoder := Ack.encode 0x70

/-- The content of SUBSCRIBE. -/
def Subscribe.write (self : Subscribe) (version : MqttVersion) : SliceWriter PacketError UInt8 Unit := do
  putSlice .bufferTooSmall (toBeBytes self.packetId)
  writeV5Properties version self.properties
  self.topics.toList.forM fun (topic, qos) => do
    onTail .bufferTooSmall (writeUtf8String topic)
    putByte .bufferTooSmall qos.toByte

/-- `Subscribe::encode`. -/
def Subscribe.encode (self : Subscribe) (version : MqttVersion) : Encoder :=
  encodeFramed 0x82 (self.write version)

/-- The content of SUBACK and UNSUBACK. -/
def CodesAck.write (self : CodesAck) (version : MqttVersion) : SliceWriter PacketError UInt8 Unit := do
  putSlice .bufferTooSmall (toBeBytes self.packetId)
  writeV5Properties version self.properties
  self.reasonCodes.toList.forM fun rc => putByte .bufferTooSmall rc

/-- `SubAck::encode`. -/
def SubAck.encode (self : SubAck) (version : MqttVersion) : Encoder :=
  encodeFramed 0x90 (CodesAck.write self version)

/-- The content of UNSUBSCRIBE. -/
def Unsubscribe.write (self : Unsubscribe) (version : MqttVersion) :
    SliceWriter PacketError UInt8 Unit := do
  putSlice .bufferTooSmall (toBeBytes self.packetId)
  writeV5Properties version self.properties
  self.topics.toList.forM fun topic => onTail .bufferTooSmall (writeUtf8String topic)

/-- `Unsubscribe::encode`. -/
def Unsubscribe.encode (self : Unsubscribe) (version : MqttVersion) : Encoder :=
  encodeFramed 0xA2 (self.write version)

/-- `UnsubAck::encode`. -/
def UnsubAck.encode (self : UnsubAck) (version : MqttVersion) : Encoder :=
  encodeFramed 0xB0 (CodesAck.write self version)

/-- The encoder of a packet without content. -/
def encodeBare (first : UInt8) : Encoder := fun buf =>
  if buf.length < 2 then .error (.err .bufferTooSmall) buf
  else .ok 2 (first :: 0x00 :: buf.drop 2)

/-- `PingReq::encode`. -/
def PingReq.encode (_version : MqttVersion) : Encoder := encodeBare 0xC0
/-- `PingResp::encode`. -/
def PingResp.encode (_version : MqttVersion) : Encoder := encodeBare 0xD0

/-- `Disconnect::encode`. -/
def Disconnect.encode (self : Disconnect) (version : MqttVersion) : Encoder :=
  encodeFramed 0xE0 (writeReason version self.reasonCode self.properties)

/-- `p.encode(buf, version)` for a packet of any kind. -/
def MqttPacket.encode : MqttPacket → MqttVersion → Encoder
  | .connect p => p.encode
  | .connAck p => p.encode
  | .publish p => p.encode
  | .pubAck p => PubAck.encode p
  | .pubRec p => PubRec.encode p
  | .pubRel p => PubRel.encode p
  | .pubComp p => PubComp.encode p
  | .subscribe p => p.encode
  | .subAck p => SubAck.encode p
  | .unsubscribe p => p.encode
  | .unsubAck p => UnsubAck.encode p
  | .pingReq => PingReq.encode
  | .pingResp => PingResp.encode
  | .disconnect p => p.encode

/-! ## Decoding -/

/-- The start of every decoder: where the content starts, and where the remaining length
says that it ends. -/
def readContentBounds (buf : List UInt8) : Checked PacketError (ℕ × ℕ) := do
  let (remainingLen, cursor) ← readVariableByteInteger 1 buf
  let contentEnd := cursor + remainingLen
  failIf (contentEnd > buf.length) .incompletePacket
  .ok (cursor, contentEnd)

/-- A 16-bit word that must end within the content. -/
def readWord (contentEnd cursor : ℕ) (buf : List UInt8) : Checked PacketError (UInt16 × ℕ) := do
  failIf (cursor + 2 > contentEnd) .incompletePacket
  let word ← readU16 cursor buf
  .ok (word, cursor + 2)

/-- A property block, read under a condition. -/
def readPropertiesIf (c : Prop) [Decidable c] (cursor : ℕ) (buf : List UInt8) :
    Checked PacketError (Properties × ℕ) :=
  if c then readProperties cursor buf else .ok (.empty, cursor)

/-- A field that is read if its flag is set. -/
def readIf {β : Type} (flag : Bool) (read : ℕ → List UInt8 → Checked PacketError (β × ℕ))
    (cursor : ℕ) (buf : List UInt8) : Checked PacketError (Option β × ℕ) :=
  if flag then do
    let (x, cursor) ← read cursor buf
    .ok (some x, cursor)
  else .ok (none, cursor)

/-- The will in the payload of CONNECT; `v5` says that property blocks are present. -/
def Will.read (v5 : Bool) (contentEnd : ℕ) (qos : QoS) (retain : Bool) (cursor : ℕ)
    (buf : List UInt8) : Checked PacketError (Will × ℕ) := do
  let (properties, cursor) ← readPropertiesIf (v5 ∧ cursor < contentEnd) cursor buf
  let (topic, cursor) ← readUtf8String cursor buf
  let (payload, cursor) ← readBinaryData cursor buf
  .ok ({ topic, payload, qos, retain, properties }, cursor)

/-- `Connect::decode`. -/
def Connect.decode (buf : List UInt8) (version : MqttVersion) : Checked PacketError Connect := do
  let (cursor, contentEnd) ← readContentBounds buf
  let (protocolName, cursor) ← readUtf8String cursor buf
  let protocolLevel ← get buf cursor .incompletePacket
  let cursor := cursor + 1
  failIf (protocolName ≠ "MQTT" ∧ protocolName ≠ "MQIsdp") .malformedPacket
  let flags ← get buf cursor .incompletePacket
  let cursor := cursor + 1
  let cleanSession : Bool := flags &&& 0x02 ≠ 0
  let willFlag : Bool := flags &&& 0x04 ≠ 0
  let willQos := QoS.fromByte ((flags >>> 3) &&& 0x03)
  let willRetain : Bool := flags &&& 0x20 ≠ 0
  let passwordFlag : Bool := flags &&& 0x40 ≠ 0
  let usernameFlag : Bool := flags &&& 0x80 ≠ 0
  let (keepAlive, cursor) ← readWord contentEnd cursor buf
  let v5 : Bool := version = .v5 ∨ protocolLevel = 5
  let (properties, cursor) ← readPropertiesIf (v5 ∧ cursor < contentEnd) cursor buf
  let (clientId, cursor) ← readUtf8String cursor buf
  let (will, cursor) ← readIf willFlag (Will.read v5 contentEnd willQos willRetain) cursor buf
  let (username, cursor) ← readIf usernameFlag readUtf8String cursor buf
  let (password, _) ← readIf passwordFlag readUtf8String cursor buf
  .ok { clientId, keepAlive, cleanSession, username, password, will, properties }

/-- `ConnAck::decode`. -/
def ConnAck.decode (buf : List UInt8) (version : MqttVersion) : Checked PacketError ConnAck := do
  let (cursor, contentEnd) ← readContentBounds buf
  failIf (cursor + 2 > contentEnd) .incompletePacket
  let sessionPresent : Bool := (← index buf cursor) &&& 0x01 ≠ 0
  let cursor := cursor + 1
  let reasonCode ← index buf cursor
  let cursor := cursor + 1
  let (properties, _) ← readPropertiesIf (version = .v5 ∧ cursor < contentEnd) cursor buf
  .ok { sessionPresent, reasonCode, properties }

/-- `Publish::decode`. The payload is the slice from the cursor to the end of the content,
and nothing makes sure that the cursor has not passed that end. -/
def Publish.decode (buf : List UInt8) (version : MqttVersion) : Checked PacketError Publish := do
  failIf (buf = []) .incompletePacket
  let header ← index buf 0
  let dup : Bool := header &&& 0x08 ≠ 0
  let qos := QoS.fromByte ((header >>> 1) &&& 0x03)
  let retain : Bool := header &&& 0x01 ≠ 0
  let (cursor, contentEnd) ← readContentBounds buf
  let (topic, cursor) ← readUtf8String cursor buf
  let (packetId, cursor) ← readIf (qos ≠ .atMostOnce) (readWord contentEnd) cursor buf
  let (properties, cursor) ← readPropertiesIf (version = .v5 ∧ cursor < contentEnd) cursor buf
  let payload ← range buf cursor contentEnd
  .ok { dup, qos, retain, topic, packetId, payload, properties }

/-- Reason code and properties at the end of an acknowledgement or a DISCONNECT. -/
def readReason (version : MqttVersion) (contentEnd cursor : ℕ) (buf : List UInt8) :
    Checked PacketError (UInt8 × Properties) :=
  if version = .v5 ∧ cursor < contentEnd then do
    let reasonCode ← get buf cursor .incompletePacket
    let cursor := cursor + 1
    let (properties, _) ← readPropertiesIf (cursor < contentEnd) cursor buf
    .ok (reasonCode, properties)
  else .ok (0, .empty)

/-- `impl_ack_packet!`: the decoder of PUBACK, PUBREC, PUBREL and PUBCOMP. -/
def Ack.decode (buf : List UInt8) (version : MqttVersion) : Checked PacketError Ack := do
  let (cursor, contentEnd) ← readContentBounds buf
  let (packetId, cursor) ← readWord contentEnd cursor buf
  let (reasonCode, properties) ← readReason version contentEnd cursor buf
  .ok { packetId, reasonCode, properties }

/-- The start of SUBSCRIBE, UNSUBSCRIBE and their acknowledgements: packet id and
properties, and the cursor behind them with the end of the content. -/
def readIdAndProperties (buf : List UInt8) (version : MqttVersion) :
    Checked PacketError (UInt16 × Properties × ℕ × ℕ) := do
  let (cursor, contentEnd) ← readContentBounds buf
  let (packetId, cursor) ← readWord contentEnd cursor buf
  let (properties, cursor) ← readPropertiesIf (version = .v5 ∧ cursor < contentEnd) cursor buf
  .ok (packetId, properties, cursor, contentEnd)

/-- A topic filter with its requested quality of service. -/
def readTopic (cursor : ℕ) (buf : List UInt8) : Checked PacketError ((String × QoS) × ℕ) := do
  let (topic, cursor) ← readUtf8String cursor buf
  let qosByte ← get buf cursor .incompletePacket
  .ok ((topic, QoS.fromByte qosByte), cursor + 1)

/-- A reason code. -/
def readCode (cursor : ℕ) (buf : List UInt8) : Checked PacketError (UInt8 × ℕ) := do
  let byte ← get buf cursor .incompletePacket
  .ok (byte, cursor + 1)

/-- The loop of the decoders that read up to eight items until the content ends. -/
def readList {β : Type} (item : ℕ → List UInt8 → Checked PacketError (β × ℕ))
    (contentEnd cursor : ℕ) (buf : List UInt8) : Checked PacketError (BoundedVec β 8) := do
  let (items, _) ← readItems .batchCapacityExceeded item buf contentEnd (contentEnd - cursor)
    cursor .empty
  .ok items

/-- `Subscribe::decode`. -/
def Subscribe.decode (buf : List UInt8) (version : MqttVersion) :
    Checked PacketError Subscribe := do
  let (packetId, properties, cursor, contentEnd) ← readIdAndProperties buf version
  let topics ← readList readTopic contentEnd cursor buf
  .ok { packetId, topics, properties }

/-- `SubAck::decode` and `UnsubAck::decode`. -/
def CodesAck.decode (buf : List UInt8) (version : MqttVersion) : Checked PacketError CodesAck := do
  let (packetId, properties, cursor, contentEnd) ← readIdAndProperties buf version
  let reasonCodes ← readList readCode contentEnd cursor buf
  .ok { packetId, reasonCodes, properties }

/-- `Unsubscribe::decode`. -/
def Unsubscribe.decode (buf : List UInt8) (version : MqttVersion) :
    Checked PacketError Unsubscribe := do
  let (packetId, properties, cursor, contentEnd) ← readIdAndProperties buf version
  let topics ← readList readUtf8String contentEnd cursor buf
  .ok { packetId, topics, properties }

/-- `Disconnect::decode`. -/
def Disconnect.decode (buf : List UInt8) (version : MqttVersion) :
    Checked PacketError Disconnect :=
  if buf.length > 1 then do
    let (cursor, contentEnd) ← readContentBounds buf
    let (reasonCode, properties) ← readReason version contentEnd cursor buf
    .ok { reasonCode, properties }
  else .ok .new

/-- The `match` of `decode`: the decoder for a packet type. -/
def decodeType (packetType : UInt8) (buf : List UInt8) (version : MqttVersion) :
    Checked PacketError MqttPacket :=
  match packetType.toNat with
  | 1 => (Connect.decode buf version).map .connect
  | 2 => (ConnAck.decode buf version).map .connAck
  | 3 => (Publish.decode buf version).map .publish
  | 4 => (Ack.decode buf version).map .pubAck
  | 5 => (Ack.decode buf version).map .pubRec
  | 6 => (Ack.decode buf version).map .pubRel
  | 7 => (Ack.decode buf version).map .pubComp
  | 8 => (Subscribe.decode buf version).map .subscribe
  | 9 => (CodesAck.decode buf version).map .subAck
  | 10 => (Unsubscribe.decode buf version).map .unsubscribe
  | 11 => (CodesAck.decode buf version).map .unsubAck
  | 12 => .ok .pingReq
  | 13 => .ok .pingResp
  | 14 => (Disconnect.decode buf version).map .disconnect
  | _ => .error (.err (.invalidPacketType packetType))

/-- `decode`: the packet type is the high half of the first byte. -/
def decode (buf : List UInt8) (version : MqttVersion) : Checked PacketError (Option MqttPacket) :=
  match buf with
  | [] => .ok none
  | first :: _ => (decodeType (first >>> 4) buf version).map some

/-! ## Cutting a stream into frames -/

/-- `RawPacketFrameIter`. -/
structure RawPacketFrameIter where
  buffer : List UInt8
  offset : ℕ

/-- `RawPacketFrameIter::new`. -/
def RawPacketFrameIter.new (buffer : List UInt8) : RawPacketFrameIter := { buffer, offset := 0 }

/-- `RawPacketFrameIter::next`. A length field that cannot be read is reported as an error,
and the iterator stays where it is. -/
def RawPacketFrameIter.next (self : RawPacketFrameIter) :
    Checked PacketError (Option (Except PacketError (List UInt8)) × RawPacketFrameIter) :=
  if self.offset ≥ self.buffer.length then .ok (none, self)
  else do
    let slice ← range self.buffer self.offset self.buffer.length
    if slice.length < 2 then .ok (none, self)
    else do
      let tail ← range slice 1 slice.length
      match peekVariableByteInteger tail with
      | .ok (remainingLen, lenBytes) =>
        let totalPacketLen := 1 + lenBytes + remainingLen
        if slice.length < totalPacketLen then .ok (none, self)
        else do
          let packetSlice ← range slice 0 totalPacketLen
          .ok (some (.ok packetSlice), { self with offset := self.offset + totalPacketLen })
      | .error (.err e) => .ok (some (.error e), self)
      | .error f => .error f

end MqttEngine
