import MqttEngine.Embedded.Client
import Mathlib.Algebra.Group.Action.Defs
import Mathlib.Algebra.Order.BigOperators.Group.List
import Mathlib.Logic.Relation

/-!
# What the operations of the client do, step by step

An operation that does not publish is made of three kinds of steps: it sends a packet, it
takes entries out of the in-flight table or marks them, and it changes what neither the
transport nor the table sees. `Moves P` is a sequence of such steps in which only packets
with `P` are sent. Each operation is walked through once here; what holds over whole runs is
then a matter of what one step keeps.

`sendPacket` is specified exactly, because the publishing operations need to know when it
fails.

## Main definitions

* `afterSend` — the state after something has been handed to `send`.
* `Move`, `Moves` — the steps of an operation.

## Main results

* `encodeTx_spec`, `sendPacket_fits`, `sendPacket_unfit` — what encoding and sending do.
* `moves_connect`, `moves_subscribe`, `moves_poll` and the others — the operations are made
  of steps.
-/

namespace MqttEngine
open Checked

/-! ## The transmit buffer -/

namespace Buffer
variable {n : ℕ}

theorem bytes_setTail (self : Buffer n) {cursor : ℕ} {tail : List UInt8} (hc : cursor ≤ n)
    (h : tail.length = n - cursor) :
    (self.setTail cursor tail).bytes = self.bytes.take cursor ++ tail := by
  have hlen : (self.bytes.take cursor ++ tail).length = n := by
    rw [List.length_append, List.length_take, self.length_eq]
    omega
  rw [setTail, dif_pos hlen]

/-- What stands in front of the cursor stays. -/
theorem take_setTail (self : Buffer n) {cursor : ℕ} {tail : List UInt8} (hc : cursor ≤ n)
    (h : tail.length = n - cursor) :
    (self.setTail cursor tail).bytes.take cursor = self.bytes.take cursor := by
  have hlen : (self.bytes.take cursor).length = cursor := by
    rw [List.length_take, self.length_eq]
    omega
  rw [bytes_setTail self hc h, List.take_left' hlen]

variable {p : MqttPacket} {version : MqttVersion}

/-- Encoding behind a cursor fills the rest of the buffer, whatever comes of it. -/
theorem length_encode_drop (self : Buffer n) (p : MqttPacket) (version : MqttVersion)
    (cursor : ℕ) :
    (p.encode version (self.bytes.drop cursor)).final.length = n - cursor := by
  rw [length_encode, List.length_drop, self.length_eq]

/-- A packet that has been encoded stands behind the cursor. -/
theorem take_setTail_encode {self : Buffer n} {cursor len : ℕ} {tail : List UInt8} (hc : cursor ≤ n)
    (h : p.encode version (self.bytes.drop cursor) = .ok len tail)
    (hm : p.Measured version (n - cursor)) :
    p.Fits version (n - cursor) ∧ len = (p.wire version).length ∧
      (self.setTail cursor tail).bytes.take (cursor + len) =
        self.bytes.take cursor ++ p.wire version := by
  have hdrop : (self.bytes.drop cursor).length = n - cursor := by
    rw [List.length_drop, self.length_eq]
  have hlen := self.length_encode_drop p version cursor
  rw [h, EStateM.Result.final_ok] at hlen
  obtain ⟨he, hroom, rfl, -, rest, rfl⟩ := encode_ok h (by rwa [hdrop])
  rw [hdrop] at hroom
  refine ⟨⟨he, hroom⟩, rfl, ?_⟩
  rw [bytes_setTail _ hc hlen, ← List.append_assoc]
  apply List.take_left'
  rw [List.length_append, List.length_take, self.length_eq]
  omega

/-- A packet that fits behind the cursor is encoded. -/
theorem encode_drop_fits (self : Buffer n) {cursor : ℕ} (hp : p.Fits version (n - cursor))
    (hm : p.Measured version (n - cursor)) :
    ∃ tail, p.encode version (self.bytes.drop cursor) = .ok (p.wire version).length tail := by
  have hroom : p.room version ≤ (self.bytes.drop cursor).length := by
    rw [List.length_drop, self.length_eq]
    exact hp.2
  obtain ⟨rest, hencode, -⟩ := encode_fits hp.1 hroom (hm hp.1 hp.2)
  exact ⟨_, hencode⟩

end Buffer

/-! ## The packets that the client sends on its own -/

/-- The acknowledgements that the client sends. -/
def MqttPacket.IsAck (p : MqttPacket) : Prop :=
  ∃ id, p = .pubAck (Ack.new id) ∨ p = .pubRec (Ack.new id) ∨ p = .pubRel (Ack.new id) ∨
    p = .pubComp (Ack.new id)

/-- However long its fields, if it can be encoded its remaining length has at most four
bytes. -/
def MqttPacket.Short (p : MqttPacket) : Prop :=
  ∀ version, p.Encodable → (p.content version).length < 128 ^ 4

theorem MqttPacket.Short.measured {p : MqttPacket} (h : p.Short) (version : MqttVersion) (size : ℕ) :
    p.Measured version size := fun hp _ => h version hp

theorem short_of_isAck {p : MqttPacket} (h : p.IsAck) : p.Short := by
  intro version _
  obtain ⟨id, rfl | rfl | rfl | rfl⟩ := h <;>
    simp [MqttPacket.content, Ack.new, reasonBytes]

theorem short_pingReq : MqttPacket.Short .pingReq := by
  intro version _
  simp [MqttPacket.content]

theorem short_disconnect : MqttPacket.Short (.disconnect .new) := by
  intro version _
  simp [MqttPacket.content, Disconnect.new, reasonBytes]

/-- An empty property block takes at most one byte. -/
theorem length_v5PropertiesBytes_empty (version : MqttVersion) :
    (v5PropertiesBytes version .empty).length ≤ 1 := by
  have h : propertiesBytes [] = [0] := by decide +kernel
  rw [v5PropertiesBytes, BoundedVec.toList_empty, h]
  split <;> simp

/-- Packet id and an empty property block take at most three bytes. -/
theorem length_idAndPropertiesBytes (version : MqttVersion) (packetId : UInt16) :
    (idAndPropertiesBytes version packetId .empty).length ≤ 3 := by
  have := length_v5PropertiesBytes_empty version
  rw [idAndPropertiesBytes, List.length_append, length_toBeBytes]
  omega

/-- At most eight items of at most `2 ^ 17` bytes. -/
theorem length_flatMap_le {β : Type} (items : BoundedVec β 8) {f : β → List UInt8}
    (h : ∀ x ∈ items.toList, (f x).length ≤ 2 ^ 17) :
    (items.toList.flatMap f).length ≤ 8 * 2 ^ 17 := by
  rw [List.length_flatMap]
  calc (items.toList.map fun x => (f x).length).sum
      ≤ (items.toList.map fun x => (f x).length).length • 2 ^ 17 := by
        apply List.sum_le_card_nsmul
        simpa using h
    _ ≤ 8 * 2 ^ 17 := by
        rw [List.length_map, smul_eq_mul]
        exact Nat.mul_le_mul_right _ items.length_le

theorem short_subscribe {p : Subscribe} (h : p.properties = .empty) :
    MqttPacket.Short (.subscribe p) := by
  intro version hp
  have hhead := length_idAndPropertiesBytes version p.packetId
  have htopics := length_flatMap_le p.topics (f := topicBytes) <| by
    intro topic htopic
    have := hp (strBytes topic.1) (List.mem_map.mpr ⟨topic, htopic, rfl⟩)
    simp only [topicBytes, List.length_append, length_lengthPrefixed, List.length_singleton]
    omega
  rw [MqttPacket.content, h, List.length_append]
  omega

theorem short_unsubscribe {p : Unsubscribe} (h : p.properties = .empty) :
    MqttPacket.Short (.unsubscribe p) := by
  intro version hp
  have hhead := length_idAndPropertiesBytes version p.packetId
  have htopics := length_flatMap_le p.topics (f := fun topic => lengthPrefixed (strBytes topic)) <| by
    intro topic htopic
    have := hp (strBytes topic) (List.mem_map.mpr ⟨topic, htopic, rfl⟩)
    rw [length_lengthPrefixed]
    omega
  rw [MqttPacket.content, h, List.length_append]
  omega

theorem short_connect {p : Connect} (h : p.properties = .empty)
    (hwill : ∀ will ∈ p.will, will.properties = .empty) : MqttPacket.Short (.connect p) := by
  intro version hp
  have hname : (lengthPrefixed (strBytes "MQTT")).length = 6 := by decide +kernel
  have hprops := length_v5PropertiesBytes_empty version
  have hclient : (strBytes p.clientId).length ≤ 65535 := hp _ (by simp [MqttPacket.prefixed])
  have hbytes (text : Option String) (htext : ∀ s ∈ text, (strBytes s).length ≤ 65535) :
      (optionalBytes text).length ≤ 65537 := by
    cases text with
    | none => simp [optionalBytes]
    | some s =>
      have := htext s rfl
      rw [optionalBytes, Option.elim_some, length_lengthPrefixed]
      omega
  have husername := hbytes p.username fun s hs => hp _ (by
    simp [MqttPacket.prefixed, Option.mem_def.mp hs])
  have hpassword := hbytes p.password fun s hs => hp _ (by
    simp [MqttPacket.prefixed, Option.mem_def.mp hs])
  have hwill : (p.will.elim [] (Will.bytes version)).length ≤ 131075 := by
    rcases hw : p.will with _ | will
    · simp
    · have htopic : (strBytes will.topic).length ≤ 65535 := hp _ (by simp [MqttPacket.prefixed, hw])
      have hpayload : will.payload.length ≤ 65535 := hp _ (by simp [MqttPacket.prefixed, hw])
      simp only [Option.elim_some, Will.bytes, hwill will hw, List.length_append,
        length_lengthPrefixed]
      omega
  simp only [MqttPacket.content, h, List.length_append, hname, length_lengthPrefixed, toBeBytes,
    List.length_cons, List.length_nil]
  omega

/-- No send to come fails. -/
def Transport.SendsOk {E : Type} {bufSize : ℕ} (self : Transport E bufSize) : Prop :=
  ∀ r ∈ self.sendResults, r = none

instance {E : Type} {bufSize : ℕ} (self : Transport E bufSize) : Decidable self.SendsOk :=
  inferInstanceAs (Decidable (∀ r ∈ self.sendResults, r = none))

theorem Transport.SendsOk.suffix {E : Type} {bufSize : ℕ} {t t' : Transport E bufSize}
    (h : t.SendsOk) (hsuffix : t'.sendResults <:+ t.sendResults) : t'.SendsOk :=
  fun r hr => h r (hsuffix.subset hr)

namespace MqttClient
variable {E : Type} {bufSize maxInflight : ℕ}

/-- The state after `bytes` have been handed to `send`. -/
def afterSend (s : MqttClient E bufSize maxInflight) (tx : Buffer bufSize)
    (sendResults : List (Option E)) (bytes : List UInt8) : MqttClient E bufSize maxInflight :=
  { s with
    txBuffer := tx
    transport := { s.transport with sendResults, sent := s.transport.sent ++ [bytes] } }

/-- The state with another transmit buffer. -/
def withTx (s : MqttClient E bufSize maxInflight) (tx : Buffer bufSize) :
    MqttClient E bufSize maxInflight :=
  { s with txBuffer := tx }

section
variable (s : MqttClient E bufSize maxInflight) (tx : Buffer bufSize)
  (sendResults : List (Option E)) (bytes : List UInt8)

@[simp] theorem sent_afterSend :
    (s.afterSend tx sendResults bytes).transport.sent = s.transport.sent ++ [bytes] := rfl
@[simp] theorem sendResults_afterSend :
    (s.afterSend tx sendResults bytes).transport.sendResults = sendResults := rfl
@[simp] theorem options_afterSend : (s.afterSend tx sendResults bytes).options = s.options := rfl
@[simp] theorem inflight_afterSend : (s.afterSend tx sendResults bytes).inflight = s.inflight := rfl
@[simp] theorem state_afterSend : (s.afterSend tx sendResults bytes).state = s.state := rfl
@[simp] theorem txBuffer_afterSend : (s.afterSend tx sendResults bytes).txBuffer = tx := rfl
@[simp] theorem transport_withTx : (s.withTx tx).transport = s.transport := rfl
@[simp] theorem options_withTx : (s.withTx tx).options = s.options := rfl
@[simp] theorem inflight_withTx : (s.withTx tx).inflight = s.inflight := rfl
@[simp] theorem txBuffer_withTx : (s.withTx tx).txBuffer = tx := rfl

end

/-! ## Encoding and sending -/

/-- What encoding into the transmit buffer does: it leaves what stands in front of the cursor,
and a packet it has encoded stands behind the cursor. -/
theorem encodeTx_spec {s : MqttClient E bufSize maxInflight} {cursor : ℕ} (hc : cursor ≤ bufSize)
    (p : MqttPacket) :
    ∃ tx r, encodeTx cursor p s = .ok r (s.withTx tx) ∧
      tx.bytes.take cursor = s.txBuffer.bytes.take cursor ∧
      ∀ n, r = .ok n → p.Measured s.options.version (bufSize - cursor) →
        p.Fits s.options.version (bufSize - cursor) ∧ n = (p.wire s.options.version).length ∧
          tx.bytes.take (cursor + n) = s.txBuffer.bytes.take cursor ++ p.wire s.options.version := by
  have hlen := s.txBuffer.length_encode_drop p s.options.version cursor
  rw [encodeTx, if_pos hc]
  rcases hencode : p.encode s.options.version (s.txBuffer.bytes.drop cursor) with
    ⟨n, tail⟩ | ⟨e, tail⟩
  · rw [hencode, EStateM.Result.final_ok] at hlen
    refine ⟨s.txBuffer.setTail cursor tail, .ok n, rfl, Buffer.take_setTail _ hc hlen, ?_⟩
    intro m hm hmeasured
    cases hm
    exact Buffer.take_setTail_encode hc hencode hmeasured
  · rw [hencode, EStateM.Result.final_error] at hlen
    refine ⟨s.txBuffer.setTail cursor tail, .error e, rfl, Buffer.take_setTail _ hc hlen, ?_⟩
    intro m hm
    cases hm

/-- A packet that fits behind the cursor is encoded there. -/
theorem encodeTx_fits {s : MqttClient E bufSize maxInflight} {cursor : ℕ} (hc : cursor ≤ bufSize)
    {p : MqttPacket} (hp : p.Fits s.options.version (bufSize - cursor))
    (hm : p.Measured s.options.version (bufSize - cursor)) :
    ∃ tx, encodeTx cursor p s = .ok (.ok (p.wire s.options.version).length) (s.withTx tx) ∧
      tx.bytes.take (cursor + (p.wire s.options.version).length) =
        s.txBuffer.bytes.take cursor ++ p.wire s.options.version := by
  obtain ⟨rest, hencode⟩ := s.txBuffer.encode_drop_fits hp hm
  obtain ⟨tx, r, hok, -, hspec⟩ := encodeTx_spec (s := s) hc p
  have hr : r = .ok (p.wire s.options.version).length := by
    rw [encodeTx, if_pos hc, hencode] at hok
    cases hok
    rfl
  subst hr
  obtain ⟨-, -, htake⟩ := hspec _ rfl hm
  exact ⟨tx, hok, htake⟩

/-- A packet without enough room behind the cursor is reported as such. -/
theorem encodeTx_small {s : MqttClient E bufSize maxInflight} {cursor : ℕ} (hc : cursor ≤ bufSize)
    {p : MqttPacket} (hbare : ¬ p.Bare) (hdisc : ∀ d, p ≠ .disconnect d)
    (hsmall : bufSize - cursor < 5 ∨
      (p.Encodable ∧ bufSize - cursor < p.room s.options.version)) :
    ∃ tx, encodeTx cursor p s = .ok (.error (.err .bufferTooSmall)) (s.withTx tx) ∧
      tx.bytes.take cursor = s.txBuffer.bytes.take cursor := by
  have hdrop : (s.txBuffer.bytes.drop cursor).length = bufSize - cursor := by
    rw [List.length_drop, s.txBuffer.length_eq]
  rw [← hdrop] at hsmall
  obtain ⟨tail, hencode⟩ := encode_small hbare hdisc hsmall
  obtain ⟨tx, r, hok, htake, -⟩ := encodeTx_spec (s := s) hc p
  have hr : r = .error (.err .bufferTooSmall) := by
    rw [encodeTx, if_pos hc, hencode] at hok
    cases hok
    rfl
  subst hr
  exact ⟨tx, hok, htake⟩

theorem send_of_nil {s : MqttClient E bufSize maxInflight} (h : s.transport.sendResults = [])
    (bytes : List UInt8) : send bytes s = .ok () (s.afterSend s.txBuffer [] bytes) := by
  simp only [send, h]
  rw [afterSend, ← h]

theorem send_of_ok {s : MqttClient E bufSize maxInflight} (h : s.transport.SendsOk)
    (bytes : List UInt8) :
    send bytes s = .ok () (s.afterSend s.txBuffer s.transport.sendResults.tail bytes) := by
  rcases hresults : s.transport.sendResults with _ | ⟨r, later⟩
  · exact send_of_nil hresults bytes
  · obtain rfl := h r (by simp [hresults])
    simp [send, hresults, afterSend]

theorem sendTx_of_le {s : MqttClient E bufSize maxInflight} {len : ℕ} (h : len ≤ bufSize) :
    sendTx len s = send (s.txBuffer.bytes.take len) s := by
  have hrange : (range s.txBuffer.bytes 0 len : Checked PacketError (List UInt8)) =
      .ok (s.txBuffer.bytes.take len) := by
    rw [range_of_le (Nat.zero_le _) (by rw [s.txBuffer.length_eq]; exact h), List.drop_zero]
  change (lift (range s.txBuffer.bytes 0 len) >>= send) s = _
  rw [hrange]
  rfl

/-- A packet that fits is handed to `send`. -/
theorem sendPacket_of_fits {s : MqttClient E bufSize maxInflight} {p : MqttPacket}
    (hp : p.Fits s.options.version bufSize) (hm : p.Measured s.options.version bufSize) :
    ∃ tx, sendPacket p s = send (p.wire s.options.version) (s.withTx tx) := by
  obtain ⟨tx, hencode, htake⟩ := encodeTx_fits (Nat.zero_le _) hp hm
  have hle : (p.wire s.options.version).length ≤ bufSize := by
    have hlen := congrArg List.length htake
    rw [List.length_take, tx.length_eq, List.take_zero, List.nil_append] at hlen
    omega
  rw [Nat.zero_add, List.take_zero, List.nil_append] at htake
  refine ⟨tx, ?_⟩
  rw [sendPacket, run_bind hencode]
  change sendTx _ (s.withTx tx) = _
  rw [sendTx_of_le hle, txBuffer_withTx, htake]

/-- A packet that fits is sent. -/
theorem sendPacket_fits {s : MqttClient E bufSize maxInflight} (h : s.transport.sendResults = [])
    {p : MqttPacket} (hp : p.Fits s.options.version bufSize)
    (hm : p.Measured s.options.version bufSize) :
    ∃ tx, sendPacket p s = .ok () (s.afterSend tx [] (p.wire s.options.version)) := by
  obtain ⟨tx, hrun⟩ := sendPacket_of_fits hp hm
  refine ⟨tx, ?_⟩
  rw [hrun, send_of_nil (s := s.withTx tx) h]
  rfl

/-- The same over a transport whose sends to come do not fail. -/
theorem sendPacket_of_ok {s : MqttClient E bufSize maxInflight} (h : s.transport.SendsOk)
    {p : MqttPacket} (hp : p.Fits s.options.version bufSize)
    (hm : p.Measured s.options.version bufSize) :
    ∃ tx, sendPacket p s =
      .ok () (s.afterSend tx s.transport.sendResults.tail (p.wire s.options.version)) := by
  obtain ⟨tx, hrun⟩ := sendPacket_of_fits hp hm
  refine ⟨tx, ?_⟩
  rw [hrun, send_of_ok (s := s.withTx tx) h]
  rfl

/-- A packet that does not fit is not sent. -/
theorem sendPacket_unfit {s : MqttClient E bufSize maxInflight} {p : MqttPacket}
    (hm : p.Measured s.options.version bufSize) (hp : ¬ p.Fits s.options.version bufSize) :
    ∃ e tx, sendPacket p s = .error e (s.withTx tx) := by
  obtain ⟨tx, r, hencode, -, hspec⟩ := encodeTx_spec (s := s) (Nat.zero_le _) p
  rcases r with (e | _ | _) | n
  · exact ⟨_, tx, by rw [sendPacket, run_bind hencode]; rfl⟩
  · exact ⟨_, tx, by rw [sendPacket, run_bind hencode]; rfl⟩
  · exact ⟨_, tx, by rw [sendPacket, run_bind hencode]; rfl⟩
  · exact absurd (hspec n rfl hm).1 hp

/-! ## Steps -/

/-- Neither the transport nor the table sees a difference. -/
structure Local (s s' : MqttClient E bufSize maxInflight) : Prop where
  options : s'.options = s.options
  sent : s'.transport.sent = s.transport.sent
  sendResults : s'.transport.sendResults <:+ s.transport.sendResults
  inflight : s'.inflight = s.inflight

/-- A step of an operation that sends packets with `P`. -/
inductive Move (P : MqttPacket → Prop) (s : MqttClient E bufSize maxInflight) :
    MqttClient E bufSize maxInflight → Prop
  | quiet {s' : MqttClient E bufSize maxInflight} (h : Local s s') : Move P s s'
  | send (tx : Buffer bufSize) {sendResults : List (Option E)} {bytes : List UInt8}
      {p : MqttPacket} (hresults : sendResults <:+ s.transport.sendResults) (hp : P p)
      (hbytes : p.Measured s.options.version bufSize →
        p.Fits s.options.version bufSize ∧ bytes = p.wire s.options.version) :
      Move P s (s.afterSend tx sendResults bytes)
  | table (inflight : InflightQueue maxInflight)
      (h : inflight.outboundIds ⊆ s.inflight.outboundIds) : Move P s { s with inflight }

/-- The steps of an operation that starts in `s`. -/
abbrev Moves (P : MqttPacket → Prop) (s : MqttClient E bufSize maxInflight) :
    MqttClient E bufSize maxInflight → Prop :=
  Relation.ReflTransGen (Move P) s

section
variable {P : MqttPacket → Prop} {s₀ s : MqttClient E bufSize maxInflight}

theorem Moves.quiet {s' : MqttClient E bufSize maxInflight} (h : Moves P s₀ s) (hlocal : Local s s') :
    Moves P s₀ s' := h.tail (.quiet hlocal)

theorem Move.options {s' : MqttClient E bufSize maxInflight} (h : Move P s s') :
    s'.options = s.options := by
  cases h with
  | quiet h => exact h.options
  | send => rfl
  | table => rfl

theorem Moves.options (h : Moves P s₀ s) : s.options = s₀.options := by
  induction h with
  | refl => rfl
  | tail _ hmove ih => rw [hmove.options, ih]

theorem Move.sendResults {s' : MqttClient E bufSize maxInflight} (h : Move P s s') :
    s'.transport.sendResults <:+ s.transport.sendResults := by
  cases h with
  | quiet h => exact h.sendResults
  | send _ h => exact h
  | table => exact List.suffix_rfl

theorem Moves.results (h : Moves P s₀ s) :
    s.transport.sendResults <:+ s₀.transport.sendResults := by
  induction h with
  | refl => exact List.suffix_rfl
  | tail _ hmove ih => exact hmove.sendResults.trans ih

theorem Moves.sendResults (h : Moves P s₀ s) (hsend : s₀.transport.sendResults = []) :
    s.transport.sendResults = [] :=
  List.suffix_nil.mp (hsend ▸ h.results)

theorem Move.ids {s' : MqttClient E bufSize maxInflight} (h : Move P s s') :
    s'.inflight.outboundIds ⊆ s.inflight.outboundIds := by
  cases h with
  | quiet h => rw [h.inflight]
  | send => exact subset_rfl
  | table _ h => exact h

/-- The steps of an operation that does not publish add no id. -/
theorem Moves.ids (h : Moves P s₀ s) : s.inflight.outboundIds ⊆ s₀.inflight.outboundIds := by
  induction h with
  | refl => exact subset_rfl
  | tail _ hmove ih => exact hmove.ids.trans ih

/-- A program that only reads or writes what neither the transport nor the table sees. -/
theorem moves_modify {g : MqttClient E bufSize maxInflight → MqttClient E bufSize maxInflight}
    (h : ∀ s, Local s (g s)) :
    Preserves (Moves P s₀) (modifyThe _ g : ClientM E bufSize maxInflight PUnit) :=
  Preserves.modify fun s hs => hs.quiet (h s)

theorem moves_fail {α : Type} (e : MqttError E) :
    Preserves (Moves P s₀) (fail e : ClientM E bufSize maxInflight α) := Preserves.throw _

theorem moves_lift {α : Type} (x : Checked PacketError α) :
    Preserves (Moves P s₀) (lift x : ClientM E bufSize maxInflight α) := by
  rcases x with (e | _ | _) | a
  · exact moves_fail _
  · exact Preserves.throw _
  · exact Preserves.throw _
  · exact Preserves.pure a

theorem moves_requireConnected : Preserves (Moves P s₀) requireConnected := by
  apply Preserves.get_bind
  intro s _
  exact Preserves.ite (fun _ => moves_fail _) fun _ => Preserves.pure _

theorem moves_setState (state : ConnectionState) : Preserves (Moves P s₀) (setState state) :=
  moves_modify fun _ => ⟨rfl, rfl, List.suffix_rfl, rfl⟩

theorem moves_setLastTx (now : ℕ) : Preserves (Moves P s₀) (setLastTx now) :=
  moves_modify fun _ => ⟨rfl, rfl, List.suffix_rfl, rfl⟩

theorem moves_getNextPacketId : Preserves (Moves P s₀) getNextPacketId :=
  fun _ hs => hs.quiet ⟨rfl, rfl, List.suffix_rfl, rfl⟩

theorem moves_recv : Preserves (Moves P s₀) recv := by
  intro s hs
  simp only [Ends, recv]
  split
  · rename_i heq
    split at heq <;> cases heq
    exact hs.quiet ⟨rfl, rfl, List.suffix_rfl, rfl⟩
  · rename_i heq
    split at heq <;> cases heq
    · exact hs
    · exact hs.quiet ⟨rfl, rfl, List.suffix_rfl, rfl⟩

theorem moves_decodeRx (n : ℕ) : Preserves (Moves P s₀) (decodeRx n) := by
  apply Preserves.get_bind
  intro s _
  apply Preserves.bind (moves_lift _)
  intro bytes
  exact moves_lift _

/-- Handing a packet over is one step, whatever the transport says. -/
theorem moves_sendPacket {p : MqttPacket} (hp : P p) :
    Preserves (Moves P s₀) (sendPacket p) := by
  intro s hs
  obtain ⟨tx, r, hencode, -, hspec⟩ := encodeTx_spec (s := s) (Nat.zero_le _) p
  have htx : Moves P s₀ (s.withTx tx) := hs.quiet ⟨rfl, rfl, List.suffix_rfl, rfl⟩
  simp only [Ends, sendPacket, run_bind hencode]
  rcases r with (e | _ | _) | n
  · exact htx
  · exact htx
  · exact htx
  · change Ends (sendTx n) (s.withTx tx) _ _
    by_cases hn : n ≤ bufSize
    · have hbytes (hm : p.Measured s.options.version bufSize) :
          p.Fits s.options.version bufSize ∧ tx.bytes.take n = p.wire s.options.version := by
        obtain ⟨hfits, -, h⟩ := hspec n rfl hm
        rw [Nat.zero_add, List.take_zero, List.nil_append] at h
        exact ⟨hfits, h⟩
      rw [Ends, sendTx_of_le hn, send]
      simp only [transport_withTx]
      rcases hresults : s.transport.sendResults with _ | ⟨_ | e, rest⟩
      · exact htx.tail (.send tx (List.nil_suffix) hp hbytes)
      · exact htx.tail (.send tx (by simp [hresults]) hp hbytes)
      · exact htx.quiet ⟨rfl, rfl, by simp [hresults], rfl⟩
    · have hpanic : (range tx.bytes 0 n : Checked PacketError (List UInt8)) = .error .panic :=
        if_neg (by rw [tx.length_eq]; omega)
      have : sendTx n (s.withTx tx) = .error .panic (s.withTx tx) := by
        change (lift (range tx.bytes 0 n) >>= send) (s.withTx tx) = _
        rw [hpanic]
        rfl
      rw [Ends, this]
      exact htx

/-! ## The operations -/

theorem properties_of_addTopics {topics : List (String × QoS)} {sub sub' : Subscribe}
    (hsub : sub.properties = .empty)
    (h : topics.foldlM (fun sub (t, q) => sub.addTopic t q) sub = .ok sub') :
    sub'.properties = .empty := by
  refine Checked.foldlM_invariant (I := fun sub => sub.properties = .empty) h hsub ?_
  intro sub next topic hsub hnext
  dsimp only [Subscribe.addTopic] at hnext
  split at hnext <;> cases hnext
  exact hsub

theorem properties_of_removeTopics {topics : List String} {unsub unsub' : Unsubscribe}
    (hunsub : unsub.properties = .empty)
    (h : topics.foldlM (fun unsub t => unsub.addTopic t) unsub = .ok unsub') :
    unsub'.properties = .empty := by
  refine Checked.foldlM_invariant (I := fun unsub => unsub.properties = .empty) h hunsub ?_
  intro unsub next topic hunsub hnext
  dsimp only [Unsubscribe.addTopic] at hnext
  split at hnext <;> cases hnext
  exact hunsub

theorem moves_updateInflight
    {f : InflightQueue maxInflight → Option (InflightQueue maxInflight)}
    (h : ∀ q q', f q = some q' → q'.outboundIds ⊆ q.outboundIds) :
    Preserves (Moves P s₀) (updateInflight f : ClientM E bufSize maxInflight Unit) := by
  apply Preserves.modify
  intro s hs
  apply hs.tail
  apply Move.table
  rcases hf : f s.inflight with _ | q
  · exact subset_rfl
  · exact h _ _ hf

theorem moves_connect (now : ℕ) (h : P (.connect (connectPacket s₀.options))) :
    Preserves (Moves P s₀) (connect now) := by
  apply Preserves.bind (moves_setState _)
  intro _
  apply Preserves.get_bind
  intro s hs
  rw [hs.options]
  apply Preserves.bind (moves_sendPacket h)
  intro _
  apply Preserves.bind (moves_setLastTx _)
  intro _
  apply Preserves.bind moves_recv
  intro n
  have hrefuse (e : MqttError E) : Preserves (Moves P s₀)
      (do setState .disconnected; fail e : ClientM E bufSize maxInflight Unit) :=
    Preserves.bind (moves_setState _) fun _ => moves_fail e
  apply Preserves.ite
  · intro _
    exact hrefuse _
  · intro _
    apply Preserves.bind (moves_decodeRx n)
    intro packet
    split
    · apply Preserves.ite
      · intro _
        apply Preserves.modify
        intro s hs
        have hcleared : Moves P s₀ { s with inflight := .empty } := by
          apply hs.tail
          apply Move.table
          rw [InflightQueue.outboundIds_empty]
          exact Set.empty_subset _
        exact hcleared.quiet ⟨rfl, rfl, List.suffix_rfl, rfl⟩
      · intro _
        exact hrefuse _
    · exact hrefuse _

/-- Going on with the value of a call of the packet layer. -/
theorem moves_lift_bind {α β : Type} {x : Checked PacketError α}
    {f : α → ClientM E bufSize maxInflight β} (h : ∀ a, x = .ok a → Preserves (Moves P s₀) (f a)) :
    Preserves (Moves P s₀) (lift x >>= f) := by
  rcases x with (e | _ | _) | a
  · exact moves_fail _
  · exact Preserves.throw _
  · exact Preserves.throw _
  · exact h a rfl

/-- Sending a packet of its own under a fresh id, as `subscribe` and `unsubscribe` do. -/
theorem moves_request {p : MqttPacket} (hp : P p) (now : ℕ) (id : UInt16) :
    Preserves (Moves P s₀)
      (do sendPacket p; setLastTx now; pure id : ClientM E bufSize maxInflight UInt16) := by
  apply Preserves.bind (moves_sendPacket hp)
  intro _
  apply Preserves.bind (moves_setLastTx _)
  intro _
  exact Preserves.pure _

theorem moves_subscribe (topics : List (String × QoS)) (now : ℕ)
    (h : ∀ p : Subscribe, p.properties = .empty → P (.subscribe p)) :
    Preserves (Moves P s₀) (subscribe topics now) := by
  apply Preserves.bind moves_requireConnected
  intro _
  apply Preserves.bind moves_getNextPacketId
  intro id
  apply moves_lift_bind
  intro sub hsub
  exact moves_request (h sub (properties_of_addTopics rfl hsub)) now id

theorem moves_unsubscribe (topics : List String) (now : ℕ)
    (h : ∀ p : Unsubscribe, p.properties = .empty → P (.unsubscribe p)) :
    Preserves (Moves P s₀) (unsubscribe topics now) := by
  apply Preserves.bind moves_requireConnected
  intro _
  apply Preserves.bind moves_getNextPacketId
  intro id
  apply moves_lift_bind
  intro unsub hunsub
  exact moves_request (h unsub (properties_of_removeTopics rfl hunsub)) now id

theorem moves_handlePacket (packet : MqttPacket) (h : ∀ p : MqttPacket, p.IsAck → P p) :
    Preserves (Moves P s₀) (handlePacket packet) := by
  have hack (id : UInt16) : P (.pubAck (Ack.new id)) ∧ P (.pubRec (Ack.new id)) ∧
      P (.pubRel (Ack.new id)) ∧ P (.pubComp (Ack.new id)) :=
    ⟨h _ ⟨id, by simp⟩, h _ ⟨id, by simp⟩, h _ ⟨id, by simp⟩, h _ ⟨id, by simp⟩⟩
  unfold handlePacket
  split
  · split
    · exact Preserves.bind (moves_sendPacket (hack _).1) fun _ => Preserves.pure _
    · apply Preserves.bind (moves_sendPacket (hack _).2.1)
      intro _
      apply Preserves.bind
        (moves_updateInflight fun q q' => InflightQueue.outboundIds_trackInboundQos2)
      intro _
      exact Preserves.pure _
    · exact Preserves.pure _
  · apply Preserves.bind (moves_updateInflight fun q q' => InflightQueue.outboundIds_complete)
    intro _
    exact Preserves.pure _
  · apply Preserves.bind (moves_updateInflight fun q q' => InflightQueue.outboundIds_handlePubrec)
    intro _
    exact Preserves.bind (moves_sendPacket (hack _).2.2.1) fun _ => Preserves.pure _
  · apply Preserves.bind (moves_updateInflight fun q q' => InflightQueue.outboundIds_complete)
    intro _
    exact Preserves.bind (moves_sendPacket (hack _).2.2.2) fun _ => Preserves.pure _
  · apply Preserves.bind (moves_updateInflight fun q q' => InflightQueue.outboundIds_complete)
    intro _
    exact Preserves.pure _
  · exact Preserves.pure _
  · exact Preserves.pure _
  · exact Preserves.pure _
  · exact Preserves.bind (moves_setState _) fun _ => Preserves.pure _
  · exact Preserves.pure _

theorem moves_pingIfDue (now : ℕ) (h : P .pingReq) : Preserves (Moves P s₀) (pingIfDue now) := by
  apply Preserves.get_bind
  intro s _
  apply Preserves.ite
  · intro _
    exact Preserves.bind (moves_sendPacket h) fun _ => moves_setLastTx _
  · intro _
    exact Preserves.pure _

theorem moves_setRxLen (n : ℕ) : Preserves (Moves P s₀)
    (modify fun s => { s with rxLen := n } : ClientM E bufSize maxInflight Unit) :=
  moves_modify fun _ => ⟨rfl, rfl, List.suffix_rfl, rfl⟩

theorem moves_poll (now : ℕ) (hping : P .pingReq) (hack : ∀ p : MqttPacket, p.IsAck → P p) :
    Preserves (Moves P s₀) (poll now) := by
  apply Preserves.bind moves_requireConnected
  intro _
  apply Preserves.bind (moves_pingIfDue now hping)
  intro _
  apply Preserves.bind moves_recv
  intro n
  apply Preserves.ite
  · intro _
    exact Preserves.pure _
  · intro _
    apply Preserves.bind (moves_setRxLen n)
    intro _
    apply Preserves.bind (moves_decodeRx n)
    intro packet
    split
    · exact moves_handlePacket _ hack
    · exact Preserves.pure _

theorem moves_pollBatchLoop (maxEvents fuel : ℕ) (iter : RawPacketFrameIter)
    (events : BoundedVec MqttEvent maxEvents) (hack : ∀ p : MqttPacket, p.IsAck → P p) :
    Preserves (Moves P s₀) (pollBatchLoop maxEvents fuel iter events) := by
  induction fuel generalizing iter events with
  | zero => exact Preserves.throw _
  | succ fuel ih =>
    apply Preserves.bind (moves_lift _)
    intro next
    dsimp only
    split
    · exact Preserves.pure _
    · exact moves_fail _
    · apply Preserves.get_bind
      intro s _
      apply Preserves.bind (moves_lift _)
      intro packet
      split
      · exact Preserves.bind (moves_handlePacket _ hack) fun _ => ih _ _
      · exact ih _ _

theorem moves_pollBatch (maxEvents : ℕ) (hack : ∀ p : MqttPacket, p.IsAck → P p) :
    Preserves (Moves P s₀) (pollBatch maxEvents) := by
  apply Preserves.bind moves_requireConnected
  intro _
  apply Preserves.bind moves_recv
  intro n
  apply Preserves.ite
  · intro _
    exact Preserves.pure _
  · intro _
    apply Preserves.bind (moves_setRxLen n)
    intro _
    apply Preserves.get_bind
    intro s _
    apply Preserves.bind (moves_lift _)
    intro bytes
    exact moves_pollBatchLoop _ _ _ _ hack

theorem moves_disconnect (h : P (.disconnect .new)) : Preserves (Moves P s₀) disconnect := by
  apply Preserves.get_bind
  intro s _
  apply Preserves.ite
  · intro _
    exact Preserves.pure _
  · intro _
    exact Preserves.bind (moves_sendPacket h) fun _ => moves_setState _

end

end MqttClient

end MqttEngine
