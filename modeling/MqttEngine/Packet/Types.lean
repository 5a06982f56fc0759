import MqttEngine.Lib.BoundedVec
import MqttEngine.Lib.Checked

/-!
# Control packets

The data model of `mqtt-packet`: error codes, quality of service, protocol versions, and
the fourteen control packets with all their fields. A property list and a topic list are
`heapless` vectors of capacity 8, so they are `BoundedVec`s here and cannot be overfilled.

The four acknowledgements PUBACK, PUBREC, PUBREL and PUBCOMP have one layout, `Ack`; SUBACK
and UNSUBACK share `CodesAck`. Each keeps its own name and its own constructor of
`MqttPacket`.
-/

namespace MqttEngine

/-- Error encountered during serialization or deserialization. -/
inductive PacketError
  | bufferTooSmall
  | incompletePacket
  | malformedPacket
  | invalidPacketType (t : UInt8)
  | invalidUtf8String
  | tooManyProperties
  | batchCapacityExceeded
  | payloadTooLarge
  | unsupportedQoS
  deriving DecidableEq, Repr

/-- Quality of service. -/
inductive QoS
  | atMostOnce
  | atLeastOnce
  | exactlyOnce
  deriving DecidableEq, Repr

/-- `QoS::from(u8)`; every value above 1 is read as `ExactlyOnce`. -/
def QoS.fromByte (val : UInt8) : QoS :=
  if val = 0 then .atMostOnce else if val = 1 then .atLeastOnce else .exactlyOnce

/-- `qos as u8`. -/
def QoS.toByte : QoS → UInt8
  | .atMostOnce => 0
  | .atLeastOnce => 1
  | .exactlyOnce => 2

@[simp] theorem QoS.fromByte_toByte (q : QoS) : QoS.fromByte q.toByte = q := by
  cases q <;> rfl

/-- Protocol version. -/
inductive MqttVersion
  | v3_1_1
  | v3
  | v5
  deriving DecidableEq, Repr

/-- An MQTT 5 property: its identifier and its undecoded data. -/
structure Property where
  id : UInt8
  data : List UInt8
  deriving DecidableEq, Repr

/-- `Vec<Property, 8>`. -/
abbrev Properties := BoundedVec Property 8

/-- Last will and testament. -/
structure Will where
  topic : String
  payload : List UInt8
  qos : QoS
  retain : Bool
  properties : Properties
  deriving DecidableEq

/-- CONNECT. -/
structure Connect where
  cleanSession : Bool
  keepAlive : UInt16
  clientId : String
  username : Option String
  password : Option String
  will : Option Will
  properties : Properties
  deriving DecidableEq

/-- CONNACK. -/
structure ConnAck where
  sessionPresent : Bool
  reasonCode : UInt8
  properties : Properties
  deriving DecidableEq

/-- PUBLISH. -/
structure Publish where
  dup : Bool
  qos : QoS
  retain : Bool
  topic : String
  packetId : Option UInt16
  payload : List UInt8
  properties : Properties
  deriving DecidableEq

/-- The common layout of the four publish acknowledgements. -/
structure Ack where
  packetId : UInt16
  reasonCode : UInt8
  properties : Properties
  deriving DecidableEq

/-- PUBACK. -/
abbrev PubAck := Ack
/-- PUBREC. -/
abbrev PubRec := Ack
/-- PUBREL. -/
abbrev PubRel := Ack
/-- PUBCOMP. -/
abbrev PubComp := Ack

/-- SUBSCRIBE. -/
structure Subscribe where
  packetId : UInt16
  topics : BoundedVec (String × QoS) 8
  properties : Properties
  deriving DecidableEq

/-- The common layout of SUBACK and UNSUBACK. -/
structure CodesAck where
  packetId : UInt16
  reasonCodes : BoundedVec UInt8 8
  properties : Properties
  deriving DecidableEq

/-- SUBACK. -/
abbrev SubAck := CodesAck
/-- UNSUBACK. -/
abbrev UnsubAck := CodesAck

/-- UNSUBSCRIBE. -/
structure Unsubscribe where
  packetId : UInt16
  topics : BoundedVec String 8
  properties : Properties
  deriving DecidableEq

/-- DISCONNECT. -/
structure Disconnect where
  reasonCode : UInt8
  properties : Properties
  deriving DecidableEq

/-- All control packets. -/
inductive MqttPacket
  | connect (p : Connect)
  | connAck (p : ConnAck)
  | publish (p : Publish)
  | pubAck (p : PubAck)
  | pubRec (p : PubRec)
  | pubRel (p : PubRel)
  | pubComp (p : PubComp)
  | subscribe (p : Subscribe)
  | subAck (p : SubAck)
  | unsubscribe (p : Unsubscribe)
  | unsubAck (p : UnsubAck)
  | pingReq
  | pingResp
  | disconnect (p : Disconnect)
  deriving DecidableEq

/-! ## Constructors -/

def Will.new (topic : String) (payload : List UInt8) (qos : QoS) (retain : Bool) : Will :=
  { topic, payload, qos, retain, properties := .empty }

def Connect.new (clientId : String) (keepAlive : UInt16) (cleanSession : Bool) : Connect :=
  { clientId, keepAlive, cleanSession, username := none, password := none, will := none,
    properties := .empty }

/-- `Publish::new`; the packet id defaults to 1 above QoS 0. -/
def Publish.new (topic : String) (payload : List UInt8) (qos : QoS) : Publish :=
  { dup := false, qos, retain := false, topic,
    packetId := if qos = .atMostOnce then none else some 1,
    payload, properties := .empty }

/-- `PubAck::new`, `PubRec::new`, `PubRel::new` and `PubComp::new`. -/
def Ack.new (packetId : UInt16) : Ack := { packetId, reasonCode := 0, properties := .empty }

def Subscribe.new (packetId : UInt16) : Subscribe :=
  { packetId, topics := .empty, properties := .empty }

/-- `Subscribe::add_topic`. -/
def Subscribe.addTopic (self : Subscribe) (topic : String) (qos : QoS) :
    Checked PacketError Subscribe :=
  match self.topics.push (topic, qos) with
  | some topics => .ok { self with topics }
  | none => .error (.err .batchCapacityExceeded)

def Unsubscribe.new (packetId : UInt16) : Unsubscribe :=
  { packetId, topics := .empty, properties := .empty }

/-- `Unsubscribe::add_topic`. -/
def Unsubscribe.addTopic (self : Unsubscribe) (topic : String) :
    Checked PacketError Unsubscribe :=
  match self.topics.push topic with
  | some topics => .ok { self with topics }
  | none => .error (.err .batchCapacityExceeded)

def Disconnect.new : Disconnect := { reasonCode := 0, properties := .empty }

end MqttEngine
