import MqttEngine.Tokio.Operations
import MqttEngine.Tokio.System

/-!
# The recovery of a session

After a reconnect `performSessionDataRecovery` walks through what is in flight and then through the
active subscriptions, and writes a packet for each entry; it ignores what the encoder and the
transport report. Over a transport that does not fail, and with nothing in the offline queue, what
it writes is specified exactly, in whatever order the hash maps yield their entries.

A packet is carried by the buffer if there is room for it and its remaining length has at most four
bytes, as MQTT demands. The encoder does not look at the second condition: it reserves four bytes,
and a longer length overwrites the content behind them, or pushes it out of the buffer. So the
recovery is faithful (`Recovers`) exactly when no message in flight is as long as that.

## Main definitions

* `MqttPacket.Carried`, `MqttPacket.frames` — what a buffer of some size carries.
* `resent`, `resubscribed` — what the recovery ought to write.
* `Recovers` — it writes that, and leaves the tables alone.

## Main results

* `ends_tryWritePacket` — one packet.
* `recovers_iff` — when the recovery is faithful.
-/

namespace MqttEngine

/-- The packet is one of MQTT, with a remaining length of at most four bytes, and a buffer of this
size has room for it. -/
def MqttPacket.Carried (version : MqttVersion) (size : ℕ) (p : MqttPacket) : Prop :=
  p.Fits version size ∧ (p.content version).length < 128 ^ 4

instance (version : MqttVersion) (size : ℕ) (p : MqttPacket) : Decidable (p.Carried version size) :=
  inferInstanceAs (Decidable (_ ∧ _))

/-- The frame of the packet, if the buffer carries it. -/
def MqttPacket.frames (version : MqttVersion) (size : ℕ) (p : MqttPacket) : List (List UInt8) :=
  if p.Carried version size then [p.wire version] else []

namespace Tokio
open Checked

variable {E R S W : Type} {maxPacketSize : ℕ}

/-! ## What is to be written -/

/-- The PUBLISH of a message in flight, with DUP. -/
def resendPacket (entry : UInt16 × PublishMessage × Option R) : MqttPacket :=
  EventLoop.publishPacket entry.2.1 (some entry.1) true

/-- The messages in flight, one PUBLISH for each that the buffer carries. -/
def resent (version : MqttVersion) (size : ℕ)
    (entries : List (UInt16 × PublishMessage × Option R)) : List (List UInt8) :=
  entries.flatMap fun entry => (resendPacket entry).frames version size

/-- The active subscriptions, one SUBSCRIBE for each that the buffer carries; each takes the next
packet id. -/
def resubscribed (version : MqttVersion) (size : ℕ) : UInt16 → List (String × QoS) →
    List (List UInt8)
  | _, [] => []
  | next, (topic, qos) :: rest =>
    (EventLoop.subscribePacket next topic qos).frames version size ++
      resubscribed version size (EventLoop.succPacketId next) rest

/-- The recovery writes what is in flight, then the subscriptions, and nothing else, and leaves both
as they are. -/
def Recovers (order : HashOrder) (now : ℕ) (s : Conn E R S W maxPacketSize) : Prop :=
  ∃ s', EventLoop.performSessionDataRecovery order now s = .ok () s' ∧
    s'.socket.written = s.socket.written ++
      resent s.options.version maxPacketSize (order.entries s.inflightPublishes) ++
      resubscribed s.options.version maxPacketSize s.nextPacketId
        (order.entries s.activeSubscriptions) ∧
    s'.inflightPublishes = s.inflightPublishes ∧ s'.activeSubscriptions = s.activeSubscriptions

/-! ## Writing packets -/

/-- From one state to the other only the given frames have been written, over a transport that does
not fail. -/
structure Conn.Wrote (new : List (List UInt8)) (s s' : Conn E R S W maxPacketSize) : Prop where
  loop : s'.toEventLoop = { s.toEventLoop with txBuf := s'.txBuf }
  written : s'.socket.written = s.socket.written ++ new
  steady : s'.socket.Steady

namespace Conn.Wrote
variable {new new' : List (List UInt8)} {s s' s'' : Conn E R S W maxPacketSize}

theorem refl (h : s.socket.Steady) : Wrote [] s s := ⟨rfl, by simp, h⟩

theorem trans (h : Wrote new s s') (h' : Wrote new' s' s'') : Wrote (new ++ new') s s'' :=
  ⟨by rw [h'.loop, h.loop], by rw [h'.written, h.written, List.append_assoc], h'.steady⟩

theorem options (h : Wrote new s s') : s'.options = s.options :=
  (congrArg EventLoop.options h.loop).trans rfl

theorem nextPacketId (h : Wrote new s s') : s'.nextPacketId = s.nextPacketId :=
  (congrArg EventLoop.nextPacketId h.loop).trans rfl

theorem inflightPublishes (h : Wrote new s s') : s'.inflightPublishes = s.inflightPublishes :=
  (congrArg EventLoop.inflightPublishes h.loop).trans rfl

theorem activeSubscriptions (h : Wrote new s s') :
    s'.activeSubscriptions = s.activeSubscriptions :=
  (congrArg EventLoop.activeSubscriptions h.loop).trans rfl

end Conn.Wrote

namespace EventLoop
open Conn
variable {s s' : Conn E R S W maxPacketSize} {p : MqttPacket}

/-- A packet is written if the buffer carries it. Beyond that nothing is promised of a packet that
is too long for MQTT, except that it is not passed over. -/
theorem ends_tryWritePacket (hsteady : s.socket.Steady) (hdisc : ∀ d, p ≠ .disconnect d) :
    Ends (tryWritePacket p) s
      (fun _ s' => ∃ new, Wrote new s s' ∧
        (p.Measured s.options.version maxPacketSize →
          new = p.frames s.options.version maxPacketSize) ∧
        new.length = if p.Fits s.options.version maxPacketSize then 1 else 0)
      fun _ _ => ¬ p.Measured s.options.version maxPacketSize := by
  have hwrite (len : ℕ) (tx : Buffer maxPacketSize) (hle : len ≤ maxPacketSize) :
      ignore (writeTx len) (s.withTx tx) =
        .ok () ((s.withTx tx).withSocket (s.socket.wrote (tx.bytes.take len))) := by
    rw [ignore, writeTx_of_le hle, writeAll_of_ok (s := s.withTx tx) hsteady.writeOk]
    rfl
  have hwrote (tx : Buffer maxPacketSize) (bytes : List UInt8) :
      Wrote [bytes] s ((s.withTx tx).withSocket (s.socket.wrote bytes)) :=
    ⟨rfl, rfl, hsteady.wrote bytes⟩
  by_cases hfits : p.Fits s.options.version maxPacketSize
  · rw [if_pos hfits]
    by_cases hmeasured : p.Measured s.options.version maxPacketSize
    · -- The packet is carried.
      obtain ⟨tx, hencode, htake⟩ := encodeTx_fits (Nat.zero_le _) hfits hmeasured
      rw [Nat.zero_add, List.take_zero, List.nil_append] at htake
      have hle : (p.wire s.options.version).length ≤ maxPacketSize := by
        have hlength := congrArg List.length htake
        rw [List.length_take, tx.length_eq] at hlength
        omega
      rw [Ends, tryWritePacket, run_bind hencode]
      dsimp only
      rw [hwrite _ tx hle, htake]
      refine ⟨_, hwrote tx _, fun _ => ?_, rfl⟩
      rw [MqttPacket.frames, if_pos ⟨hfits, hmeasured hfits.1 hfits.2⟩]
    · -- The packet is too long: it is encoded somehow, or the encoder panics.
      have hlong : 4 ≤ (p.content s.options.version).length := by
        by_contra hshort
        exact hmeasured fun _ _ => by omega
      obtain ⟨tx, r, hencode, -⟩ := encodeTx_spec (s := s) (Nat.zero_le _) p
      rw [Ends, tryWritePacket, run_bind hencode]
      rcases r with (e | _ | _) | len
      · rw [encodeTx, if_pos (Nat.zero_le _)] at hencode
        split at hencode
        · cases hencode
        · rename_i hrefused
          cases hencode
          refine absurd hrefused (encode_not_refused hfits.1 ?_ hlong)
          rw [List.drop_zero, s.txBuf.length_eq]
          exact hfits.2
      · exact hmeasured
      · exact hmeasured
      · dsimp only
        by_cases hle : len ≤ maxPacketSize
        · rw [hwrite _ tx hle]
          exact ⟨_, hwrote tx _, fun h => absurd h hmeasured, rfl⟩
        · have hrange : (range tx.bytes 0 len : Checked PacketError _) = .error .panic := by
            rw [range, if_neg]
            rw [tx.length_eq]
            omega
          have hpanic : ignore (writeTx len) (s.withTx tx) = .error .panic (s.withTx tx) := by
            have hwriteTx : writeTx len (s.withTx tx) = .error .panic (s.withTx tx) := by
              change (orMalformed (range tx.bytes 0 len) >>= writeAll) (s.withTx tx) = _
              rw [hrange]
              rfl
            rw [ignore, hwriteTx]
          rw [hpanic]
          exact hmeasured
  · -- There is no room for the packet.
    obtain ⟨tx, e, hencode, -⟩ := encodeTx_unfit (s := s) (Nat.zero_le _) hdisc hfits
    rw [Ends, tryWritePacket, run_bind hencode, if_neg hfits]
    refine ⟨[], ⟨rfl, by simp [withTx], hsteady⟩, fun _ => ?_, rfl⟩
    rw [MqttPacket.frames, if_neg fun h => hfits h.1]

/-! ## The two loops -/

/-- A loop that writes a packet for each entry. -/
theorem ends_forM_tryWritePacket {γ : Type} (packet : γ → MqttPacket)
    (hdisc : ∀ a d, packet a ≠ .disconnect d) (l : List γ) (hsteady : s.socket.Steady) :
    Ends (l.forM fun a => tryWritePacket (packet a)) s
      (fun _ s' => ∃ new, Wrote new s s' ∧
        ((∀ a ∈ l, (packet a).Measured s.options.version maxPacketSize) →
          new = l.flatMap fun a => (packet a).frames s.options.version maxPacketSize) ∧
        new.length = l.countP fun a => (packet a).Fits s.options.version maxPacketSize)
      fun _ _ => ∃ a ∈ l, ¬ (packet a).Measured s.options.version maxPacketSize := by
  induction l generalizing s with
  | nil => exact ⟨[], .refl hsteady, fun _ => rfl, rfl⟩
  | cons a l ih =>
    apply Ends.bind
    apply (ends_tryWritePacket hsteady (hdisc a)).mono
    · rintro _ t ⟨new, hwrote, hnew, hlength⟩
      apply (ih hwrote.steady).mono
      · rintro _ u ⟨new', hwrote', hnew', hlength'⟩
        rw [hwrote.options] at hnew' hlength'
        refine ⟨new ++ new', hwrote.trans hwrote', fun hall => ?_, ?_⟩
        · rw [List.flatMap_cons, hnew (hall a (by simp)), hnew' fun b hb => hall b (by simp [hb])]
        · rw [List.length_append, hlength, hlength', List.countP_cons, Nat.add_comm]
          simp
      · rintro _ _ ⟨b, hb, hmeasured⟩
        rw [hwrote.options] at hmeasured
        exact ⟨b, by simp [hb], hmeasured⟩
    · exact fun _ _ h => ⟨a, by simp, h⟩

/-- The loop over the subscriptions; each takes a packet id. -/
theorem ends_resubscribe (l : List (String × QoS)) (hsteady : s.socket.Steady) :
    Ends (l.forM fun (topic, qos) => do
        let pid ← getNextPacketId
        tryWritePacket (subscribePacket pid topic qos)) s
      (fun _ s' => Wrote (resubscribed s.options.version maxPacketSize s.nextPacketId l)
        { s with nextPacketId := succPacketId^[l.length] s.nextPacketId } s')
      fun _ _ => False := by
  induction l generalizing s with
  | nil => exact .refl hsteady
  | cons e l ih =>
    let taken : Conn E R S W maxPacketSize :=
      { s with nextPacketId := succPacketId s.nextPacketId }
    let p := subscribePacket s.nextPacketId e.1 e.2
    have hmeasured : p.Measured s.options.version maxPacketSize :=
      (short_subscribePacket s.nextPacketId e.1 e.2).measured _ _
    have hdisc : ∀ d, p ≠ .disconnect d := by
      simp [p, subscribePacket]
    have hfirst : Ends (do
        let pid ← getNextPacketId
        tryWritePacket (subscribePacket pid e.1 e.2)) s
        (fun _ t => Wrote (p.frames s.options.version maxPacketSize) taken t)
        fun _ _ => False := by
      have htake : getNextPacketId s = .ok s.nextPacketId taken := rfl
      rw [Ends, run_bind htake]
      apply (ends_tryWritePacket (s := taken) hsteady hdisc).mono
      · rintro _ t ⟨new, hwrote, hnew, -⟩
        rwa [hnew hmeasured] at hwrote
      · exact fun _ _ h => h hmeasured
    apply Ends.bind
    apply hfirst.mono
    · intro _ t hwrote
      apply (ih hwrote.steady).mono
      · intro _ u hwrote'
        have hversion : t.options.version = s.options.version :=
          congrArg ClientOptions.version hwrote.options
        rw [hversion, hwrote.nextPacketId] at hwrote'
        have hrenewed : Wrote (p.frames s.options.version maxPacketSize)
            { taken with nextPacketId := succPacketId^[l.length] taken.nextPacketId }
            { t with nextPacketId := succPacketId^[l.length] taken.nextPacketId } :=
          ⟨by rw [hwrote.loop], hwrote.written, hwrote.steady⟩
        exact hrenewed.trans hwrote'
      · exact fun _ _ h => h
    · exact fun _ _ h => h

/-! ## The recovery -/

theorem entries_nil {α : Type} (order : HashOrder) : order.entries ([] : List α) = [] :=
  (order.perm []).eq_nil

/-- A flush over a transport that does not fail. -/
theorem ends_ignore_flush (hsteady : s.socket.Steady) :
    Ends (ignore flush) s (fun _ s' => Wrote [] s s') fun _ _ => False := by
  rw [Ends, ignore, flush_of_ok hsteady.flushOk]
  exact ⟨rfl, by simp, hsteady.flushed⟩

/-- The second half of the recovery. -/
theorem ends_resubscribeAll {new : List (List UInt8)} (order : HashOrder) (now : ℕ)
    (hwrote : Wrote new s s') (hqueue : s.offlineQueue = [])
    (hauto : s.options.recovery.autoResubscribe) :
    Ends (resubscribeAll order now s) s'
      (fun _ t => t.socket.written = s.socket.written ++ new ++
          resubscribed s.options.version maxPacketSize s.nextPacketId
            (order.entries s.activeSubscriptions) ∧
        t.inflightPublishes = s.inflightPublishes ∧ t.activeSubscriptions = s.activeSubscriptions)
      fun _ _ => False := by
  rw [resubscribeAll, hqueue]
  apply Ends.ite
  · intro _
    apply Ends.bind
    apply (ends_resubscribe (order.entries s.activeSubscriptions) hwrote.steady).mono
    · intro _ t hsubscribed
      apply Ends.bind
      apply (ends_ignore_flush hsubscribed.steady).mono
      · intro _ u hflushed
        have hall := hsubscribed.trans hflushed
        have hversion : s'.options.version = s.options.version :=
          congrArg ClientOptions.version hwrote.options
        refine ⟨?_, hall.inflightPublishes.trans hwrote.inflightPublishes,
          hall.activeSubscriptions.trans hwrote.activeSubscriptions⟩
        rw [hall.written, List.append_nil, hversion, hwrote.nextPacketId, ← hwrote.written]
      · exact fun _ _ h => h
    · exact fun _ _ h => h
  · intro hnone
    have hempty : s.activeSubscriptions = [] := by
      simpa [hauto] using hnone
    refine ⟨?_, hwrote.inflightPublishes, hwrote.activeSubscriptions⟩
    rw [hwrote.written, hempty, entries_nil, resubscribed, List.append_nil]

/-- What the recovery does with nothing in the offline queue. -/
theorem ends_performSessionDataRecovery (order : HashOrder) (now : ℕ) (hsteady : s.socket.Steady)
    (hqueue : s.offlineQueue = []) (hresend : s.options.recovery.resendUnackedInflight)
    (hauto : s.options.recovery.autoResubscribe) :
    Ends (performSessionDataRecovery order now) s
      (fun _ s' => ∃ new, s'.socket.written = s.socket.written ++ new ++
          resubscribed s.options.version maxPacketSize s.nextPacketId
            (order.entries s.activeSubscriptions) ∧
        s'.inflightPublishes = s.inflightPublishes ∧
        s'.activeSubscriptions = s.activeSubscriptions ∧
        ((∀ entry ∈ s.inflightPublishes,
          (resendPacket entry).Measured s.options.version maxPacketSize) →
          new = resent s.options.version maxPacketSize (order.entries s.inflightPublishes)) ∧
        new.length = (order.entries s.inflightPublishes).countP fun entry =>
          (resendPacket entry).Fits s.options.version maxPacketSize)
      fun _ _ => ∃ entry ∈ s.inflightPublishes,
        ¬ (resendPacket entry).Measured s.options.version maxPacketSize := by
  have hmem {entry : UInt16 × PublishMessage × Option R} :
      entry ∈ order.entries s.inflightPublishes ↔ entry ∈ s.inflightPublishes :=
    (order.perm s.inflightPublishes).mem_iff
  rw [Ends, performSessionDataRecovery_eq]
  apply Ends.ite
  · intro _
    have hloop := ends_forM_tryWritePacket (s := s) (resendPacket (R := R))
      (by simp [resendPacket, publishPacket]) (order.entries s.inflightPublishes) hsteady
    apply Ends.bind
    apply hloop.mono
    · rintro _ t ⟨new, hwrote, hnew, hlength⟩
      apply Ends.bind
      apply (ends_ignore_flush hwrote.steady).mono
      · intro _ u hflushed
        have hboth := hwrote.trans hflushed
        rw [List.append_nil] at hboth
        apply (ends_resubscribeAll order now hboth hqueue hauto).mono
        · rintro _ v ⟨hwritten, hinflight, hactive⟩
          refine ⟨new, hwritten, hinflight, hactive, fun hall => ?_, hlength⟩
          exact hnew fun entry hentry => hall entry (hmem.mp hentry)
        · exact fun _ _ h => h.elim
      · exact fun _ _ h => h.elim
    · rintro _ _ ⟨entry, hentry, hmeasured⟩
      exact ⟨entry, hmem.mp hentry, hmeasured⟩
  · intro hnone
    have hempty : s.inflightPublishes = [] := by
      simpa [hresend] using hnone
    apply (ends_resubscribeAll order now (.refl hsteady) hqueue hauto).mono
    · rintro _ v ⟨hwritten, hinflight, hactive⟩
      refine ⟨[], hwritten, hinflight, hactive, ?_, ?_⟩
      · simp [hempty, entries_nil, resent]
      · simp [hempty, entries_nil]
    · exact fun _ _ h => h.elim

end EventLoop

/-! ## Faithful recovery -/

section
open EventLoop
variable {s : Conn E R S W maxPacketSize}

theorem length_frames (version : MqttVersion) (size : ℕ) (p : MqttPacket) :
    (p.frames version size).length = if p.Carried version size then 1 else 0 := by
  rw [MqttPacket.frames]
  split <;> rfl

/-- As many packets are resent as are carried. -/
theorem length_resent (version : MqttVersion) (size : ℕ)
    (entries : List (UInt16 × PublishMessage × Option R)) :
    (resent version size entries).length =
      entries.countP fun entry => (resendPacket entry).Carried version size := by
  induction entries with
  | nil => rfl
  | cons entry entries ih =>
    rw [resent, List.flatMap_cons, List.length_append, length_frames, ← resent, ih,
      List.countP_cons, Nat.add_comm]
    simp

/-- A weaker condition counts more, when it holds of an element of which the other does not. -/
theorem countP_lt_countP {α : Type} {p q : α → Bool} {l : List α} {a : α}
    (h : ∀ x ∈ l, p x = true → q x = true) (ha : a ∈ l) (hp : ¬ p a = true) (hq : q a = true) :
    l.countP p < l.countP q := by
  obtain ⟨pre, post, rfl⟩ := List.append_of_mem ha
  have hpre : pre.countP p ≤ pre.countP q :=
    List.countP_mono_left fun x hx => h x (by simp [hx])
  have hpost : post.countP p ≤ post.countP q :=
    List.countP_mono_left fun x hx => h x (by simp [hx])
  simp [List.countP_append, hp, hq]
  omega

/-- A message that is too long for MQTT spoils the recovery. -/
theorem measured_of_recovers {order : HashOrder} {now : ℕ} (hsteady : s.socket.Steady)
    (hqueue : s.offlineQueue = []) (hresend : s.options.recovery.resendUnackedInflight)
    (hauto : s.options.recovery.autoResubscribe) (h : Recovers order now s) :
    ∀ entry ∈ s.inflightPublishes,
      (resendPacket entry).Measured s.options.version maxPacketSize := by
  have hends := ends_performSessionDataRecovery order now hsteady hqueue hresend hauto
  obtain ⟨s', hrun, hwritten, -⟩ := h
  rw [Ends, hrun] at hends
  obtain ⟨new, hwritten', -, -, -, hlength⟩ := hends
  -- As many packets are written as there is room for, and as many ought to be as are carried.
  have hnew : new = resent s.options.version maxPacketSize (order.entries s.inflightPublishes) := by
    rw [hwritten, List.append_left_inj, List.append_right_inj] at hwritten'
    exact hwritten'.symm
  rw [hnew, length_resent] at hlength
  intro entry hentry hencodable hroom
  by_contra hlong
  have hlt : (order.entries s.inflightPublishes).countP (fun entry =>
        (resendPacket entry).Carried s.options.version maxPacketSize) <
      (order.entries s.inflightPublishes).countP fun entry =>
        (resendPacket entry).Fits s.options.version maxPacketSize := by
    apply countP_lt_countP (a := entry)
    · intro other _ hcarried
      simp only [decide_eq_true_eq] at hcarried ⊢
      exact hcarried.1
    · exact (order.perm s.inflightPublishes).mem_iff.mpr hentry
    · simp only [decide_eq_true_eq]
      exact fun hcarried => hlong hcarried.2
    · simp only [decide_eq_true_eq]
      exact ⟨hencodable, hroom⟩
  omega

/-- **The recovery is faithful exactly when no message in flight that the buffer has room for is
too long for MQTT.** -/
theorem recovers_iff (order : HashOrder) (now : ℕ) (hsteady : s.socket.Steady)
    (hqueue : s.offlineQueue = []) (hresend : s.options.recovery.resendUnackedInflight)
    (hauto : s.options.recovery.autoResubscribe) :
    Recovers order now s ↔ ∀ entry ∈ s.inflightPublishes,
      (resendPacket entry).Measured s.options.version maxPacketSize := by
  constructor
  · exact measured_of_recovers hsteady hqueue hresend hauto
  · intro hall
    have hends := ends_performSessionDataRecovery order now hsteady hqueue hresend hauto
    rw [Ends] at hends
    split at hends
    · rename_i s' hrun
      obtain ⟨new, hwritten, hinflight, hactive, hnew, -⟩ := hends
      exact ⟨s', hrun, hnew hall ▸ hwritten, hinflight, hactive⟩
    · obtain ⟨entry, hentry, hmeasured⟩ := hends
      exact absurd (hall entry hentry) hmeasured

end

/-- A message in flight under packet id 1. -/
def unacknowledged (payload : List UInt8) : UInt16 × PublishMessage × Option ℕ :=
  (1, { PublishMessage.new "t" payload with qos := .atLeastOnce }, none)

/-- A client with a message in flight and a subscription, on a new connection. -/
def interrupted (size : ℕ) (payload : List UInt8) : Conn Unit ℕ ℕ Unit size :=
  { EventLoop.new (ClientOptions.new "c" fun _ => 0) () 0 with
    inflightPublishes := [unacknowledged payload]
    activeSubscriptions := [("a", .atLeastOnce)]
    socket := .sending [] }

theorem recovers_interrupted : Recovers LoopSystem.listed 0 (interrupted 64 [1]) :=
  (recovers_iff LoopSystem.listed 0 (Socket.steady_sending []) rfl rfl rfl).mpr (by decide +kernel)

theorem length_content_unacknowledged (payload : List UInt8) :
    ((resendPacket (unacknowledged payload)).content .v3_1_1).length = 5 + payload.length := by
  have htopic : (strBytes "t").length = 1 := by decide +kernel
  simp [unacknowledged, resendPacket, EventLoop.publishPacket, PublishMessage.new, Publish.new,
    MqttPacket.content, v5PropertiesBytes, htopic]
  omega

theorem encodable_unacknowledged (payload : List UInt8) :
    (resendPacket (unacknowledged payload)).Encodable := by
  intro data hdata
  obtain rfl := List.mem_singleton.mp hdata
  change (strBytes "t").length ≤ 65535
  decide +kernel

/-- Payloads that are too long for MQTT, and for which there is room, spoil the recovery. -/
theorem not_recovers_interrupted {size : ℕ} {payload : List UInt8} (hlong : 128 ^ 4 ≤ payload.length)
    (hsize : payload.length + 10 ≤ size) : ¬ Recovers LoopSystem.listed 0 (interrupted size payload) := by
  intro h
  have hmeasured : (resendPacket (unacknowledged payload)).Measured .v3_1_1 size :=
    measured_of_recovers (Socket.steady_sending []) rfl rfl rfl h _ (List.mem_singleton.mpr rfl)
  have hlength := length_content_unacknowledged payload
  have hroom : (resendPacket (unacknowledged payload)).room .v3_1_1 ≤ size := by
    change 5 + ((resendPacket (unacknowledged payload)).content .v3_1_1).length ≤ size
    omega
  have hshort := hmeasured (encodable_unacknowledged payload) hroom
  omega

/-- A message that is too long for MQTT by a few bytes is not passed over. -/
theorem spoils_recovery :
    ¬ Recovers LoopSystem.listed 0 (interrupted (128 ^ 4 + 64) (List.replicate (128 ^ 4) 0)) :=
  not_recovers_interrupted (by rw [List.length_replicate]) (by rw [List.length_replicate]; omega)

end Tokio

end MqttEngine
