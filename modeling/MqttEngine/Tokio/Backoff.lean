import MqttEngine.Tokio.Reading
import MqttEngine.Tokio.Stamps

/-!
# Attempts to connect

A call of `connect_with_backoff` makes attempts until one succeeds, or until as many have failed as
the policy permits. The attempts are counted in the loop; the count is zero whenever a call begins,
because an attempt that succeeds resets it and `run` does not survive a call that fails. Whether
reconnecting is enabled at all is asked in `run` only, after a connection has been lost. A delay of
the policy may panic, which ends the call.

## Main definitions

* `connectWithBackoff` — a call, over the results of its dials.
* `DelaysDefined` — a call comes to no delay that panics.
* `ReconnectPolicy.permitted`, `Respects` — how many attempts a call may make; a call that keeps to
  it.
* `LoopSystem.Connecting` — a call begins.

## Main results

* `silent_performSessionDataRecovery` — the recovery of a session does not fail.
* `shares_performConnectHandshake` — what the handshake depends on.
* `connectAttempt_spec`, `connectWithBackoff_spec` — an attempt, and a call.
* `panics_iff` — when a call panics.
* `reconnectAttempt_of_runs` — the count is zero when a call begins.
* `respects_iff` — the calls that keep to the policy.
-/

namespace MqttEngine.Tokio
open Checked Conn EventLoop

section
variable {E R S W : Type} {maxPacketSize n : ℕ} {s : Conn E R S W maxPacketSize}

/-! ## The count -/

/-- So many attempts have been made. -/
def Attempts (n : ℕ) (s : Conn E R S W maxPacketSize) : Prop := s.reconnectAttempt = n

theorem attempts_of_sends {s' : Conn E R S W maxPacketSize} (hs : Attempts n s)
    (h : Sends (fun _ => True) s s') : Attempts n s' :=
  (congrArg EventLoop.reconnectAttempt h.loop).trans hs

theorem attempts_sends {α : Type} {x : ConnM E R S W maxPacketSize α}
    (h : ∀ s₀, Preserves (Sends (fun _ => True) s₀) x) : Preserves (Attempts n) x :=
  preserves_of_sends (fun _ _ => attempts_of_sends) h

theorem attempts_tracked (hs : Attempts n s) (message : PublishMessage) (ackSender : Option R) :
    Attempts n (tracked s message ackSender) := by
  rw [tracked]
  split <;> exact hs

theorem attempts_published (hs : Attempts n s) (message : PublishMessage) (ackSender : Option R) :
    Attempts n (published s message ackSender) := by
  rw [published]
  split
  · exact attempts_tracked hs message ackSender
  · exact hs

theorem attempts_sendPublishDirect (message : PublishMessage) (ackSender : Option R) (now : ℕ) :
    Preserves (Attempts n : Conn E R S W maxPacketSize → Prop)
      (sendPublishDirect message ackSender now) :=
  preserves_sendPublishDirect (fun _ _ => attempts_of_sends) (fun _ => trivial)
    (fun _ hs => attempts_published hs message ackSender) now

theorem attempts_sendDisconnect :
    Preserves (Attempts n : Conn E R S W maxPacketSize → Prop) sendDisconnect :=
  preserves_sendDisconnect (fun _ _ => attempts_of_sends) trivial fun _ _ hs => hs

theorem attempts_handleClientRequest (request : ClientRequest R S) (now : ℕ) :
    Preserves (Attempts n : Conn E R S W maxPacketSize → Prop) (handleClientRequest request now) := by
  have hpublish (hrequest : request.IsPublish) :
      Preserves (Attempts n : Conn E R S W maxPacketSize → Prop) (handleClientRequest request now) :=
    preserves_publishing (fun _ _ => attempts_of_sends) (fun _ => trivial)
      (fun _ message ackSender hs => attempts_published hs message ackSender)
      (fun _ message hs => attempts_tracked hs message none) (fun _ _ hs => hs) hrequest now
  cases request with
  | subscribe topic qos respSender streamSender =>
    exact fun s hs => ends_subscribe hs
      (attempts_sends fun _ => sends_sendPacket trivial now) (fun _ _ hs => hs) respSender
  | unsubscribe topic respSender =>
    exact fun s hs => ends_unsubscribe hs
      (attempts_sends fun _ => sends_sendPacket trivial now) (fun _ _ hs => hs) respSender
  | disconnect respSender =>
    apply Preserves.bind attempts_sendDisconnect
    intro _
    exact Preserves.bind (Preserves.modify fun _ hs => hs) fun _ => Preserves.throw _
  | _ => exact hpublish trivial

theorem attempts_driveRequest (request : Option (ClientRequest R S)) (now : ℕ) :
    Preserves (Attempts n : Conn E R S W maxPacketSize → Prop) (driveRequest request now) := by
  rcases request with _ | request
  · exact Preserves.bind (preserves_ignore attempts_sendDisconnect) fun _ => Preserves.pure _
  · exact Preserves.bind (attempts_handleClientRequest request now) fun _ => Preserves.pure _

theorem attempts_handle [DecidableEq S] (ch : Mpsc W S PublishMessage) (received : Received)
    (now : ℕ) :
    Preserves (Attempts n : Conn E R S W maxPacketSize → Prop) (handle ch now received) :=
  preserves_handle ch now (fun _ _ => attempts_of_sends) trivial (fun _ _ _ hs => hs)
    (fun _ _ hs => hs) (fun _ _ hs => hs) (fun _ _ hs => hs) received

/-! ## The recovery of a session -/

theorem silent_writing (p : MqttPacket) :
    EventLoop.Silent (Attempts n : Conn E R S W maxPacketSize → Prop) (tryWritePacket p) :=
  fun s hs => (silent_tryWritePacket s .refl).mono (fun _ _ h => attempts_of_sends hs h)
    fun _ _ h => h

theorem silent_flushOfflineQueue (now : ℕ) (messages : List PublishMessage) :
    EventLoop.Silent (Attempts n : Conn E R S W maxPacketSize → Prop)
      (flushOfflineQueue now messages) := by
  induction messages with
  | nil => exact fun _ hs => hs
  | cons message messages ih =>
    have hpop : EventLoop.Silent (Attempts n : Conn E R S W maxPacketSize → Prop)
        (modify fun s => { s with offlineQueue := messages }) := fun _ hs => hs
    apply hpop.bind
    intro _
    apply (silent_ignore (attempts_sendPublishDirect message none now)).bind
    intro _
    exact ih

/-- **The recovery of a session does not fail**, and makes no attempt to connect. -/
theorem silent_performSessionDataRecovery (order : HashOrder) (now : ℕ) :
    EventLoop.Silent (Attempts n : Conn E R S W maxPacketSize → Prop)
      (performSessionDataRecovery order now) := by
  have hflush :
      EventLoop.Silent (Attempts n : Conn E R S W maxPacketSize → Prop) (ignore flush) :=
    silent_ignore (attempts_sends fun _ => sends_flush)
  have hrest (s : Conn E R S W maxPacketSize) :
      EventLoop.Silent (Attempts n : Conn E R S W maxPacketSize → Prop)
        (resubscribeAll order now s) := by
    have hnext :
        EventLoop.Silent (Attempts n : Conn E R S W maxPacketSize → Prop) getNextPacketId :=
      fun _ ht => ht
    have hone (e : String × QoS) :
        EventLoop.Silent (Attempts n : Conn E R S W maxPacketSize → Prop) (do
          let pid ← getNextPacketId
          tryWritePacket (subscribePacket pid e.1 e.2)) :=
      hnext.bind fun pid => silent_writing (subscribePacket pid e.1 e.2)
    intro t ht
    apply Ends.ite
    · intro _
      have hall := EventLoop.Silent.forM hone (order.entries s.activeSubscriptions)
      exact (hall.bind fun _ => hflush.bind fun _ => silent_flushOfflineQueue now _) t ht
    · intro _
      exact silent_flushOfflineQueue now _ t ht
  intro s hs
  rw [Ends, performSessionDataRecovery_eq]
  apply Ends.ite
  · intro _
    have hone (e : UInt16 × PublishMessage × Option R) :
        EventLoop.Silent (Attempts n : Conn E R S W maxPacketSize → Prop)
          (tryWritePacket (publishPacket e.2.1 (some e.1) true)) := silent_writing _
    have hall := EventLoop.Silent.forM hone (order.entries s.inflightPublishes)
    exact (hall.bind fun _ => hflush.bind fun _ => hrest s) s hs
  · intro _
    exact hrest s s hs

/-! ## What the handshake depends on -/

/-- The options and the transport are the same. -/
def Shares (s t : Conn E R S W maxPacketSize) : Prop := t.options = s.options ∧ t.socket = s.socket

theorem shares_writeAll (bytes : List UInt8) :
    Agree Shares (writeAll bytes : ConnM E R S W maxPacketSize Unit) (writeAll bytes) := by
  rintro s t ⟨hoptions, hsocket⟩
  simp only [writeAll, hsocket]
  rcases s.socket.writeResults with _ | ⟨_ | ⟨n, e⟩, later⟩ <;> exact ⟨rfl, hoptions, rfl⟩

theorem shares_flush : Agree Shares (flush : ConnM E R S W maxPacketSize Unit) flush := by
  rintro s t ⟨hoptions, hsocket⟩
  simp only [flush, hsocket]
  rcases s.socket.flushResults with _ | ⟨_ | e, later⟩
  · exact ⟨rfl, hoptions, hsocket⟩
  · exact ⟨rfl, hoptions, rfl⟩
  · exact ⟨rfl, hoptions, rfl⟩

/-- The handshake from its read on. -/
def readAnswer : ConnM E R S W maxPacketSize Unit := do
  match ← EventLoop.read 0 with
  | none => fail .timeout
  | some readLen =>
    if readLen = 0 then fail (.protocol .invalidResponse)
    else do
      let s ← get
      let bytes ← lift (.protocol .invalidResponse) (range s.rxBuf.bytes 0 readLen)
      match ← lift (.protocol .invalidResponse) (decode bytes s.options.version) with
      | some (.connAck connack) =>
        if connack.reasonCode = 0 then pure ()
        else fail (.connectionRefused connack.reasonCode)
      | _ => fail (.protocol .invalidResponse)

/-- What is decoded is what has been read, whatever the buffer held before. -/
theorem shares_readAnswer :
    Agree Shares (readAnswer : ConnM E R S W maxPacketSize Unit) readAnswer := by
  rintro s t ⟨hoptions, hsocket⟩
  by_cases hzero : 0 = maxPacketSize
  · subst hzero
    exact ⟨rfl, hoptions, hsocket⟩
  rcases hincoming : s.socket.incoming with _ | ⟨e | segment, later⟩
  · have hread (u : Conn E R S W maxPacketSize) (hu : u.socket = s.socket) :
        EventLoop.read 0 u = .ok none u := by
      simp [EventLoop.read, hzero, hu, hincoming]
    rw [readAnswer, run_bind (hread s rfl), run_bind (hread t hsocket)]
    exact ⟨rfl, hoptions, hsocket⟩
  · have hread (u : Conn E R S W maxPacketSize) (hu : u.socket = s.socket) :
        EventLoop.read 0 u =
          .error (.err (.io (.os e))) (u.withSocket { s.socket with incoming := later }) := by
      simp [EventLoop.read, hzero, hu, hincoming, withSocket]
    rw [readAnswer, run_bind_error (hread s rfl), run_bind_error (hread t hsocket)]
    exact ⟨rfl, hoptions, rfl⟩
  · let data := segment.take maxPacketSize
    obtain ⟨later', hread⟩ : ∃ later', ∀ u : Conn E R S W maxPacketSize, u.socket = s.socket →
        EventLoop.read 0 u =
          .ok (some data.length) (afterRead u (receiveAt u.rxBuf 0 data) later') := by
      refine ⟨if segment.drop maxPacketSize = [] then later
        else .ok (segment.drop maxPacketSize) :: later, fun u hu => ?_⟩
      simp [EventLoop.read, hu, hincoming, hzero, data, afterRead]
    have hrange (u : Conn E R S W maxPacketSize) :
        (range (receiveAt u.rxBuf 0 data).bytes 0 data.length : Checked PacketError (List UInt8)) =
          .ok data := by
      have hle : data.length ≤ maxPacketSize := by simp [data]
      rw [range_of_le (Nat.zero_le _) (by rwa [Buffer.length_eq]), List.drop_zero,
        take_receiveAt_zero _ hle]
    rw [readAnswer, run_bind (hread s rfl), run_bind (hread t hsocket)]
    dsimp only
    split
    · exact ⟨rfl, hoptions, by simp [afterRead, hsocket]⟩
    change Alike Shares ((lift _ (range (receiveAt s.rxBuf 0 data).bytes 0 data.length) >>= _) _)
      ((lift _ (range (receiveAt t.rxBuf 0 data).bytes 0 data.length) >>= _) _)
    rw [hrange, hrange]
    change Alike Shares ((lift _ (decode data s.options.version) >>= _) _)
      ((lift _ (decode data t.options.version) >>= _) _)
    rw [hoptions]
    refine Agree.bind ?_ ?_ _ _ ⟨hoptions, by simp [afterRead, hsocket]⟩
    · rcases decode data s.options.version with (e | _ | _) | packet
      · exact .throw _
      · exact .throw _
      · exact .throw _
      · exact .pure packet
    · intro packet
      split
      · split
        · exact .pure ()
        · exact .throw _
      · exact .throw _

/-- **The handshake** depends on the options and on the transport alone. -/
theorem shares_performConnectHandshake :
    Agree Shares (performConnectHandshake : ConnM E R S W maxPacketSize Unit)
      performConnectHandshake := by
  rintro s t ⟨hoptions, hsocket⟩
  have hmeasured := (short_connectPacket s.options).measured s.options.version maxPacketSize
  change Alike Shares ((encodeTx 0 (.connect (connectPacket s.options)) >>= _) s)
    ((encodeTx 0 (.connect (connectPacket t.options)) >>= _) t)
  rw [hoptions]
  by_cases hfits : (MqttPacket.connect (connectPacket s.options)).Fits s.options.version maxPacketSize
  · obtain ⟨tx, hencode, htake⟩ := encodeTx_fits (s := s) (Nat.zero_le _) hfits hmeasured
    rw [← hoptions] at hfits hmeasured
    obtain ⟨tx', hencode', htake'⟩ := encodeTx_fits (s := t) (Nat.zero_le _) hfits hmeasured
    rw [hoptions] at hencode' htake'
    rw [Nat.zero_add, List.take_zero, List.nil_append] at htake htake'
    have hle := le_of_take_eq htake rfl
    rw [run_bind hencode, run_bind hencode']
    change Alike Shares ((writeTx _ >>= fun _ => flush >>= fun _ => readAnswer) (s.withTx tx))
      ((writeTx _ >>= fun _ => flush >>= fun _ => readAnswer) (t.withTx tx'))
    rw [run_bind_congr (writeTx_of_le hle), run_bind_congr (writeTx_of_le hle), txBuf_withTx,
      txBuf_withTx, htake, htake']
    exact Agree.bind (shares_writeAll _) (fun _ => shares_flush.bind fun _ => shares_readAnswer) _ _
      ⟨hoptions, hsocket⟩
  · obtain ⟨tx, e, hencode, -⟩ := encodeTx_unfit (s := s) (Nat.zero_le _) (by simp) hfits
    rw [← hoptions] at hfits
    obtain ⟨tx', e', hencode', -⟩ := encodeTx_unfit (s := t) (Nat.zero_le _) (by simp) hfits
    rw [hoptions] at hencode'
    rw [run_bind hencode, run_bind hencode']
    exact ⟨rfl, hoptions, hsocket⟩

theorem accepts_congr {self loop : EventLoop E R S W maxPacketSize}
    (h : loop.options = self.options) (socket : Socket E) :
    accepts loop socket = accepts self socket := by
  have halike := shares_performConnectHandshake
    { self.startAttempt with socket := socket.opened }
    { loop.startAttempt with socket := socket.opened } ⟨h, rfl⟩
  simp only [accepts, handshake]
  split <;> split <;> simp_all [Alike]

/-- There is no transport, or the broker does not accept the connection. -/
def Refuses (self : EventLoop E R S W maxPacketSize) (dial : Except (ClientError E) (Socket E)) :
    Prop :=
  ∀ socket, dial = .ok socket → ¬ accepts self socket

theorem refuses_congr {self loop : EventLoop E R S W maxPacketSize}
    (h : loop.options = self.options) {dial : Except (ClientError E) (Socket E)} :
    Refuses loop dial ↔ Refuses self dial := by
  simp only [Refuses, accepts_congr h]

/-! ## An attempt -/

/-- How an attempt ends: the broker accepts, or the attempt is the last one that is permitted, or
there will be another. -/
inductive Attempted (self : EventLoop E R S W maxPacketSize)
    (dial : Except (ClientError E) (Socket E)) :
    Attempt E → EventLoop E R S W maxPacketSize → Prop
  | connected {loop : EventLoop E R S W maxPacketSize} {socket : Socket E} (hdial : dial = .ok socket)
      (haccepts : accepts self socket) (hcount : loop.reconnectAttempt = 0) :
      Attempted self dial .connected loop
  | failed {loop : EventLoop E R S W maxPacketSize} {e : ClientError E} {limit : ℕ}
      (hrefused : Refuses self dial)
      (hcount : loop.reconnectAttempt = self.reconnectAttempt + 1)
      (hoptions : loop.options = self.options)
      (hmax : self.options.reconnect.maxRetries = some limit)
      (hlast : limit ≤ self.reconnectAttempt + 1) :
      Attempted self dial (.failed e) loop
  | retry {loop : EventLoop E R S W maxPacketSize}
      (hrefused : Refuses self dial)
      (hcount : loop.reconnectAttempt = self.reconnectAttempt + 1)
      (hoptions : loop.options = self.options) (htransport : loop.transport = self.transport)
      (hstatus : loop.statuses.getLast? = some .connecting)
      (hmore : ∀ limit ∈ self.options.reconnect.maxRetries, self.reconnectAttempt + 1 < limit) :
      Attempted self dial .retry loop

theorem attempted_failed {self loop : EventLoop E R S W maxPacketSize}
    {dial : Except (ClientError E) (Socket E)} (e : ClientError E)
    (hrefused : Refuses self dial)
    (hoptions : loop.options = self.options) (htransport : loop.transport = self.transport)
    (hstatus : loop.statuses = self.startAttempt.statuses)
    (hcount : loop.reconnectAttempt = self.reconnectAttempt + 1) :
    Attempted self dial (loop.attemptFailed e) loop := by
  have hlast : loop.statuses.getLast? = some .connecting := by
    simp [hstatus, startAttempt]
  rw [attemptFailed, hoptions, hcount]
  split
  · rename_i limit hmax
    split
    · exact .failed hrefused hcount hoptions hmax ‹_›
    · refine .retry hrefused hcount hoptions htransport hlast fun limit' hmax' => ?_
      rw [hmax, Option.mem_some_iff] at hmax'
      omega
  · rename_i hnone
    exact .retry hrefused hcount hoptions htransport hlast fun limit hmax => by simp [hnone] at hmax

/-- **An attempt.** -/
theorem connectAttempt_spec {self loop : EventLoop E R S W maxPacketSize} {order : HashOrder}
    {dial : Except (ClientError E) (Socket E)} {now : ℕ} {attempt : Attempt E}
    {dropped : Option (Socket E)}
    (h : self.connectAttempt order (dial.map Socket.opened) now = some (attempt, loop, dropped)) :
    Attempted self dial attempt loop := by
  obtain ⟨-, h⟩ := connectAttempt_eq_some.mp h
  rw [finishAttempt.eq_def] at h
  rcases dial with e | socket
  · cases h
    exact attempted_failed e (by simp [Refuses]) rfl rfl rfl rfl
  dsimp only [Except.map] at h
  rcases hrun : handshake self socket with ⟨u, c⟩ | ⟨e, c⟩
  · have hrun' : performConnectHandshake { self.startAttempt with socket := socket.opened } =
      .ok u c := hrun
    rw [hrun'] at h
    dsimp only at h
    have hrecovery := silent_performSessionDataRecovery (n := 0) order now
      { c with reconnectAttempt := 0, statuses := c.statuses ++ [.connected], lastTx := now } rfl
    split at h
    · rename_i t hok
      cases h
      exact .connected rfl (accepts_iff.mpr ⟨c, hrun⟩) (hrecovery.ok_of hok)
    · rename_i e t herror
      exact absurd rfl (hrecovery.error_of herror e)
    · cases h
  · have hrun' : performConnectHandshake { self.startAttempt with socket := socket.opened } =
      .error e c := hrun
    have hrefused : Refuses self (.ok socket) := by
      rintro _ ⟨⟩ haccepts
      obtain ⟨c', hok⟩ := accepts_iff.mp haccepts
      rw [hrun] at hok
      cases hok
    have hloop := ((sends_performConnectHandshake (P := fun _ => True) trivial
      { self.startAttempt with socket := socket.opened } .refl).error_of hrun).loop
    rw [hrun'] at h
    rcases e with e | _ | _
    · cases h
      exact attempted_failed e hrefused ((congrArg EventLoop.options hloop).trans rfl)
        ((congrArg EventLoop.transport hloop).trans rfl)
        ((congrArg EventLoop.statuses hloop).trans rfl)
        ((congrArg EventLoop.reconnectAttempt hloop).trans rfl)
    · cases h
    · cases h

/-! ## A call -/

/-- What a call of `connect_with_backoff` has done: its attempts, what it has returned or that it has
panicked, if it has ended, and the loop. -/
structure BackoffCall (E R S W : Type) (maxPacketSize : ℕ) where
  made : List (Attempt E)
  returned : Option (Checked (ClientError E) Unit)
  loop : EventLoop E R S W maxPacketSize

/-- `connect_with_backoff`, over the results of its dials and the instants of the attempts. A call
that would make another attempt waits for the next result. There is no call if a handshake or a
recovery panics. -/
def connectWithBackoff (order : HashOrder)
    (outcomes : List (Except (ClientError E) (Socket E) × ℕ))
    (self : EventLoop E R S W maxPacketSize) : Option (BackoffCall E R S W maxPacketSize) :=
  match self.options.reconnect.computeDelay (self.reconnectAttempt + 1) with
  | none =>
    some { made := [], returned := some (.error .panic)
           loop := { self with reconnectAttempt := self.reconnectAttempt + 1 } }
  | some _ =>
    match outcomes with
    | [] => some { made := [], returned := none, loop := self }
    | (dial, now) :: outcomes =>
      match self.connectAttempt order (dial.map Socket.opened) now with
      | none => none
      | some (.connected, loop, _) => some { made := [.connected], returned := some (.ok ()), loop }
      | some (.failed e, loop, _) =>
        some { made := [.failed e], returned := some (.error (.err e)), loop }
      | some (.retry, loop, _) =>
        (connectWithBackoff order outcomes loop).map fun call =>
          { call with made := .retry :: call.made }

/-- The attempt has not connected. -/
def Attempt.Fails : Attempt E → Prop
  | .connected => False
  | .retry | .failed _ => True

/-- What a call does that begins after `count` attempts. -/
structure Backed (count : ℕ) (maxRetries : Option ℕ) (call : BackoffCall E R S W maxPacketSize) :
    Prop where
  idle : call.made = [] → (call.returned = none ∨ call.returned = some (.error .panic)) ∧
    count ≤ call.loop.reconnectAttempt
  attempts : ∀ limit ∈ maxRetries, count + call.made.length ≤ max (count + 1) limit
  failed : (∃ e, call.returned = some (.error (.err e))) ↔
    call.made ≠ [] ∧ (∀ attempt ∈ call.made, attempt.Fails) ∧
      ∃ limit ∈ maxRetries, limit ≤ count + call.made.length
  reset : call.made ≠ [] → (call.loop.reconnectAttempt = 0 ↔ call.returned = some (.ok ()))

/-- After an attempt that is not the last one permitted, the call goes on. -/
theorem Backed.retry {count : ℕ} {maxRetries : Option ℕ} {call : BackoffCall E R S W maxPacketSize}
    (h : Backed (count + 1) maxRetries call) (hmore : ∀ limit ∈ maxRetries, count + 1 < limit) :
    Backed count maxRetries { call with made := .retry :: call.made } := by
  refine ⟨by simp, fun limit hlimit => ?_, ?_, fun _ => ?_⟩
  · have hle := h.attempts limit hlimit
    have hlt := hmore limit hlimit
    simp only [List.length_cons]
    omega
  · have hlength : count + (call.made.length + 1) = count + 1 + call.made.length := by omega
    rw [h.failed, List.length_cons, hlength, List.forall_mem_cons]
    constructor
    · rintro ⟨-, hfails, hlast⟩
      exact ⟨by simp, ⟨trivial, hfails⟩, hlast⟩
    · rintro ⟨-, ⟨-, hfails⟩, limit, hlimit, hle⟩
      refine ⟨fun hnone => ?_, hfails, limit, hlimit, hle⟩
      have hlt := hmore limit hlimit
      rw [hnone, List.length_nil] at hle
      omega
  · by_cases hnone : call.made = []
    · obtain ⟨hreturned, hcount⟩ := h.idle hnone
      refine iff_of_false (by dsimp only; omega) ?_
      rcases hreturned with hreturned | hreturned <;> simp [hreturned]
    · exact h.reset hnone

theorem connectWithBackoff_spec {order : HashOrder}
    {outcomes : List (Except (ClientError E) (Socket E) × ℕ)}
    {self : EventLoop E R S W maxPacketSize} {call : BackoffCall E R S W maxPacketSize}
    (h : connectWithBackoff order outcomes self = some call) :
    Backed self.reconnectAttempt self.options.reconnect.maxRetries call := by
  induction outcomes generalizing self call with
  | nil =>
    rw [connectWithBackoff] at h
    split at h
    · cases h
      exact ⟨fun _ => ⟨.inr rfl, by simp⟩, fun limit _ => by simp, by simp, by simp⟩
    · cases h
      exact ⟨fun _ => ⟨.inl rfl, le_rfl⟩, fun limit _ => by simp, by simp, by simp⟩
  | cons outcome outcomes ih =>
    rw [connectWithBackoff] at h
    split at h
    · cases h
      exact ⟨fun _ => ⟨.inr rfl, by simp⟩, fun limit _ => by simp, by simp, by simp⟩
    split at h
    · cases h
    · rename_i loop dropped hattempt
      cases h
      cases connectAttempt_spec hattempt with
      | connected hdial haccepts hcount =>
        exact ⟨by simp, fun limit _ => by simp, by simp [Attempt.Fails], by simp [hcount]⟩
    · rename_i e loop dropped hattempt
      cases h
      cases connectAttempt_spec hattempt with
      | failed hrefused hcount hoptions hmax hlast =>
        refine ⟨by simp, fun limit _ => by simp, ?_, by simp [hcount]⟩
        simp [Attempt.Fails, hmax, hlast]
    · rename_i loop dropped hattempt
      obtain ⟨later, hlater, rfl⟩ := Option.map_eq_some_iff.mp h
      have hbacked := ih hlater
      cases connectAttempt_spec hattempt with
      | retry hrefused hcount hoptions htransport hstatus hmore =>
        rw [hcount, hoptions] at hbacked
        exact hbacked.retry hmore

/-! ## The delays -/

/-- A call that begins after `count` attempts comes to no delay that panics: as long as its attempts
are refused and another one is permitted, there is a delay. -/
def DelaysDefined (count : ℕ) (self : EventLoop E R S W maxPacketSize)
    (outcomes : List (Except (ClientError E) (Socket E) × ℕ)) : Prop :=
  ∀ k ≤ outcomes.length, (∀ outcome ∈ outcomes.take k, Refuses self outcome.1) →
    (∀ limit ∈ self.options.reconnect.maxRetries, count + k < max (count + 1) limit) →
    self.options.reconnect.computeDelay (count + k + 1) ≠ none

section
variable {count : ℕ} {self loop : EventLoop E R S W maxPacketSize}
  {outcome : Except (ClientError E) (Socket E) × ℕ}
  {outcomes : List (Except (ClientError E) (Socket E) × ℕ)}

/-- A call that ends with its first attempt has its delay. -/
theorem delaysDefined_of_last
    (hdelay : self.options.reconnect.computeDelay (count + 1) ≠ none)
    (hlast : Refuses self outcome.1 →
      ∃ limit ∈ self.options.reconnect.maxRetries, limit ≤ count + 1) :
    DelaysDefined count self (outcome :: outcomes) := by
  rintro (_ | k) - hrefused hpermitted
  · exact hdelay
  · obtain ⟨limit, hlimit, hle⟩ := hlast (hrefused outcome (by simp))
    have hlt := hpermitted limit hlimit
    omega

/-- After an attempt that is not the last one permitted, there are the delays of the others. -/
theorem delaysDefined_cons (hdelay : self.options.reconnect.computeDelay (count + 1) ≠ none)
    (hrefused : Refuses self outcome.1) (hoptions : loop.options = self.options)
    (hmore : ∀ limit ∈ self.options.reconnect.maxRetries, count + 1 < limit) :
    DelaysDefined count self (outcome :: outcomes) ↔ DelaysDefined (count + 1) loop outcomes := by
  have hcount (k : ℕ) : count + (k + 1) = count + 1 + k := by omega
  constructor
  · intro h k hk hall hpermitted
    rw [hoptions] at hpermitted ⊢
    rw [← hcount k] at hpermitted ⊢
    refine h (k + 1) (by simpa using hk) ?_ fun limit hlimit => ?_
    · rw [List.take_succ_cons, List.forall_mem_cons]
      exact ⟨hrefused, fun o ho => (refuses_congr hoptions).mp (hall o ho)⟩
    · have hlt := hpermitted limit hlimit
      have hlimit' := hmore limit hlimit
      omega
  · rintro h (_ | k) hk hall hpermitted
    · exact hdelay
    · rw [hcount k, ← hoptions] at hpermitted ⊢
      refine h k (by simpa using hk) (fun o ho => ?_) fun limit hlimit => ?_
      · exact (refuses_congr hoptions).mpr (hall o (by simp [ho]))
      · have hlt := hpermitted limit hlimit
        omega

/-- **A call panics** just if it comes to a delay that does. -/
theorem panics_iff {order : HashOrder} {call : BackoffCall E R S W maxPacketSize}
    (h : connectWithBackoff order outcomes self = some call) :
    call.returned = some (.error .panic) ↔ ¬ DelaysDefined self.reconnectAttempt self outcomes := by
  induction outcomes generalizing self call with
  | nil =>
    rw [connectWithBackoff] at h
    split at h
    · rename_i hnone
      cases h
      exact iff_of_true rfl fun hall => hall 0 le_rfl (by simp) (by simp) hnone
    · rename_i hdelay
      cases h
      refine iff_of_false (by simp) (not_not.mpr ?_)
      rintro k hk - -
      obtain rfl := Nat.le_zero.mp hk
      simp [hdelay]
  | cons outcome outcomes ih =>
    rw [connectWithBackoff] at h
    split at h
    · rename_i hnone
      cases h
      exact iff_of_true rfl fun hall => hall 0 (Nat.zero_le _) (by simp) (by simp) hnone
    rename_i hdelay
    have hsome : self.options.reconnect.computeDelay (self.reconnectAttempt + 1) ≠ none := by
      simp [hdelay]
    split at h
    · cases h
    · rename_i loop dropped hattempt
      cases h
      refine iff_of_false (by simp) (not_not.mpr (delaysDefined_of_last hsome fun hrefused => ?_))
      cases connectAttempt_spec hattempt with
      | connected hdial haccepts => exact absurd haccepts (hrefused _ hdial)
    · rename_i e loop dropped hattempt
      cases h
      refine iff_of_false (by simp) (not_not.mpr (delaysDefined_of_last hsome fun _ => ?_))
      cases connectAttempt_spec hattempt with
      | failed hrefused hcount hoptions hmax hlast => exact ⟨_, hmax, hlast⟩
    · rename_i loop dropped hattempt
      obtain ⟨later, hlater, rfl⟩ := Option.map_eq_some_iff.mp h
      cases connectAttempt_spec hattempt with
      | retry hrefused hcount hoptions htransport hstatus hmore =>
        have hpanics := ih hlater
        rw [hcount, ← delaysDefined_cons hsome hrefused hoptions hmore] at hpanics
        exact hpanics

end

/-! ## The policy -/

/-- How many attempts a call may make, if there is a limit. -/
def ReconnectPolicy.permitted (self : ReconnectPolicy) : Option ℕ :=
  if self.enabled then self.maxRetries.map (max 1) else some 1

/-- The call makes no more attempts than it may, fails just if it has made as many and all have
failed, resets the count just if it succeeds, and does not panic. -/
structure Respects (policy : ReconnectPolicy) (call : BackoffCall E R S W maxPacketSize) : Prop where
  attempts : ∀ limit ∈ policy.permitted, call.made.length ≤ limit
  failed : (∃ e, call.returned = some (.error (.err e))) ↔
    (∀ attempt ∈ call.made, attempt.Fails) ∧ some call.made.length = policy.permitted
  reset : call.made ≠ [] → (call.loop.reconnectAttempt = 0 ↔ call.returned = some (.ok ()))
  returns : call.returned ≠ some (.error .panic)

/-- The first attempt connects, or there has been none. -/
def FirstConnects (self : EventLoop E R S W maxPacketSize)
    (outcomes : List (Except (ClientError E) (Socket E) × ℕ)) : Prop :=
  ∀ outcome ∈ outcomes.head?, ∃ socket, outcome.1 = .ok socket ∧ accepts self socket

section
variable {policy : ReconnectPolicy} {call : BackoffCall E R S W maxPacketSize}

/-- A call that stops at the limit of the policy. -/
theorem Backed.respects (h : Backed 0 policy.maxRetries call)
    (hpermitted : policy.permitted = policy.maxRetries.map (max 1))
    (hreturns : call.returned ≠ some (.error .panic)) : Respects policy call := by
  refine ⟨fun limit hlimit => ?_, ?_, h.reset, hreturns⟩
  · rw [hpermitted] at hlimit
    obtain ⟨retries, hretries, rfl⟩ := Option.map_eq_some_iff.mp hlimit
    simpa using h.attempts retries hretries
  · rw [h.failed, hpermitted]
    constructor
    · rintro ⟨hmade, hfails, retries, hretries, hle⟩
      have hlength := List.length_pos_of_ne_nil hmade
      have hmost := h.attempts retries hretries
      refine ⟨hfails, ?_⟩
      rw [Option.mem_def.mp hretries, Option.map_some, Option.some_inj]
      omega
    · rintro ⟨hfails, hlength⟩
      obtain ⟨retries, hretries, hmax⟩ := Option.map_eq_some_iff.mp hlength.symm
      refine ⟨fun hnone => ?_, hfails, retries, hretries, by omega⟩
      rw [hnone, List.length_nil] at hmax
      omega

/-- Where the limit does not count, a first attempt that fails is not the last. -/
theorem not_respects_of_refused {self : EventLoop E R S W maxPacketSize} {order : HashOrder}
    {outcomes : List (Except (ClientError E) (Socket E) × ℕ)} (hzero : self.reconnectAttempt = 0)
    (hpolicy : self.options.reconnect = policy) (hdisabled : policy.enabled = false)
    (hmore : ∀ limit ∈ policy.maxRetries, 1 < limit)
    (h : connectWithBackoff order outcomes self = some call) (hrespects : Respects policy call) :
    FirstConnects self outcomes := by
  have hpermitted : policy.permitted = some 1 := by simp [ReconnectPolicy.permitted, hdisabled]
  rcases outcomes with _ | ⟨⟨dial, now⟩, outcomes⟩
  · exact fun _ hnone => by cases hnone
  rintro _ ⟨⟩
  rw [connectWithBackoff] at h
  split at h
  · cases h
    exact absurd rfl hrespects.returns
  split at h
  · cases h
  · rename_i loop dropped hattempt
    cases connectAttempt_spec hattempt with
    | connected hdial haccepts hcount => exact ⟨_, hdial, haccepts⟩
  · rename_i e loop dropped hattempt
    cases connectAttempt_spec hattempt with
    | failed hrefused hcount hoptions hmax hlast =>
      have hlt := hmore _ (hpolicy ▸ hmax)
      omega
  · rename_i loop dropped hattempt
    obtain ⟨later, hlater, rfl⟩ := Option.map_eq_some_iff.mp h
    -- The call has made one attempt or more; after one it has not returned.
    have hone := hrespects.attempts 1 (by simp [hpermitted])
    have hnone : later.made = [] := by simpa using hone
    obtain ⟨e, herror⟩ := hrespects.failed.mpr (by simp [hnone, hpermitted, Attempt.Fails])
    rcases ((connectWithBackoff_spec hlater).idle hnone).1 with hreturned | hreturned
    · rw [hreturned] at herror
      cases herror
    · exact absurd hreturned hrespects.returns

/-- A call whose first attempt connects makes no other. -/
theorem respects_of_firstConnects {self : EventLoop E R S W maxPacketSize} {order : HashOrder}
    {outcomes : List (Except (ClientError E) (Socket E) × ℕ)} (hdisabled : policy.enabled = false)
    (h : connectWithBackoff order outcomes self = some call)
    (hfirst : FirstConnects self outcomes) (hreturns : call.returned ≠ some (.error .panic)) :
    Respects policy call := by
  have hpermitted : policy.permitted = some 1 := by simp [ReconnectPolicy.permitted, hdisabled]
  rcases outcomes with _ | ⟨⟨dial, now⟩, outcomes⟩
  · rw [connectWithBackoff] at h
    split at h
    · cases h
      exact absurd rfl hreturns
    · cases h
      exact ⟨by simp, by simp [hpermitted], by simp, hreturns⟩
  obtain ⟨socket, hdial, haccepts⟩ := hfirst _ rfl
  rw [connectWithBackoff] at h
  split at h
  · cases h
    exact absurd rfl hreturns
  split at h
  · cases h
  · rename_i loop dropped hattempt
    cases h
    cases connectAttempt_spec hattempt with
    | connected _ _ hcount =>
      exact ⟨by simp [hpermitted], by simp [Attempt.Fails], by simp [hcount], hreturns⟩
  · rename_i e loop dropped hattempt
    cases connectAttempt_spec hattempt with
    | failed hrefused => exact absurd haccepts (hrefused socket hdial)
  · rename_i loop dropped hattempt
    cases connectAttempt_spec hattempt with
    | retry hrefused => exact absurd haccepts (hrefused socket hdial)

/-- A call that begins with the count zero. -/
theorem respects_iff_of_zero {self : EventLoop E R S W maxPacketSize} {order : HashOrder}
    {outcomes : List (Except (ClientError E) (Socket E) × ℕ)} (hzero : self.reconnectAttempt = 0)
    (hpolicy : self.options.reconnect = policy)
    (h : connectWithBackoff order outcomes self = some call) :
    Respects policy call ↔ DelaysDefined 0 self outcomes ∧
      (policy.enabled = true ∨ (∃ limit ∈ policy.maxRetries, limit ≤ 1) ∨
        FirstConnects self outcomes) := by
  have hbacked := connectWithBackoff_spec h
  have hpanics := panics_iff h
  rw [hzero, hpolicy] at hbacked
  rw [hzero] at hpanics
  constructor
  · intro hrespects
    refine ⟨of_not_not fun hnot => hrespects.returns (hpanics.mpr hnot), ?_⟩
    by_contra hnot
    rw [not_or, not_or, Bool.not_eq_true] at hnot
    obtain ⟨hdisabled, hlimit, hfirst⟩ := hnot
    refine hfirst (not_respects_of_refused hzero hpolicy hdisabled (fun limit hmem => ?_) h hrespects)
    exact Nat.lt_of_not_le fun hle => hlimit ⟨limit, hmem, hle⟩
  · rintro ⟨hdelays, hcase⟩
    have hreturns : call.returned ≠ some (.error .panic) := fun hpanic => hpanics.mp hpanic hdelays
    rcases hcase with henabled | ⟨limit, hlimit, hle⟩ | hfirst
    · exact hbacked.respects (by simp [ReconnectPolicy.permitted, henabled]) hreturns
    · refine hbacked.respects ?_ hreturns
      rw [ReconnectPolicy.permitted, Option.mem_def.mp hlimit, Option.map_some, max_eq_left hle,
        ite_self]
    · rcases Bool.eq_false_or_eq_true policy.enabled with henabled | hdisabled
      · exact hbacked.respects (by simp [ReconnectPolicy.permitted, henabled]) hreturns
      · exact respects_of_firstConnects hdisabled h hfirst hreturns

end

/-! ## Runs -/

namespace LoopSystem
variable [DecidableEq S] {ch : Mpsc W S PublishMessage} {order : HashOrder}
  {s t : LoopSystem E R S W maxPacketSize} {event : Event E R S W}

/-- `run` is about to call `connect_with_backoff`: there is no transport, and no attempt has been
announced yet. -/
def Connecting (self : LoopSystem E R S W maxPacketSize) : Prop :=
  self.phase = .idle ∧ self.loop.transport = none ∧ self.loop.statuses.getLast? = some .disconnected

/-- The count is zero, except within a call that goes on, and after `run` has returned. -/
def Counted (self : LoopSystem E R S W maxPacketSize) : Prop :=
  self.phase = .stopped ∨ self.loop.reconnectAttempt = 0 ∨
    self.phase = .idle ∧ self.loop.transport = none ∧
      self.loop.statuses.getLast? = some .connecting

theorem counted_attempt {dial : Except (ClientError E) (Socket E)} {now : ℕ}
    (h : s.step ch order (.attempt dial now) = some t) : t.Counted := by
  obtain ⟨hphase, hnone, attempt, loop, dropped, hattempt, hend⟩ := step_attempt h
  cases connectAttempt_spec hattempt with
  | connected _ _ hcount =>
    rcases hend with ⟨⟨e, he⟩, -⟩ | rfl
    · cases he
    · exact .inr (.inl hcount)
  | failed _ _ _ hmax =>
    rw [step.eq_def, hphase] at h
    simp only [hnone, hattempt, Option.isSome_none, Bool.false_eq_true, if_false,
      Option.some_inj] at h
    subst h
    exact .inl rfl
  | retry _ _ _ htransport hstatus =>
    rcases hend with ⟨⟨e, he⟩, -⟩ | rfl
    · cases he
    · exact .inr (.inr ⟨hphase, htransport.trans hnone, hstatus⟩)

/-- Only attempts to connect count. -/
theorem establishes_zero (hs : s.loop.reconnectAttempt = 0)
    (hevent : ∀ dial now, event ≠ .attempt dial now) :
    s.Establishes ch order (fun loop => loop.reconnectAttempt = 0) event := by
  cases event with
  | attempt dial now => exact absurd rfl (hevent dial now)
  | read =>
    exact fun _ rxCursor _ => attempts_sends (fun _ => sends_receiveFrames rxCursor) _ hs
  | handle now => exact fun _ _ received _ _ => attempts_handle ch received now _ hs
  | request request now => exact fun _ _ _ => attempts_driveRequest request now _ hs
  | tick now => exact fun _ _ _ => attempts_sends (fun _ => sends_driveTick trivial now) _ hs
  | enter => exact hs
  | arrive segment => exact hs
  | channels w => exact hs

theorem counted_step (hs : s.Counted) (h : s.step ch order event = some t) : t.Counted := by
  by_cases hevent : ∃ dial now, event = .attempt dial now
  · obtain ⟨dial, now, rfl⟩ := hevent
    exact counted_attempt h
  rcases hs with hstopped | hzero | ⟨hphase, hnone, hstatus⟩
  · obtain ⟨w, rfl⟩ := step_stopped hstopped h
    exact .inl hstopped
  · refine .inr (.inl (loop_step (Q := fun loop => loop.reconnectAttempt = 0) h
      (fun _ _ _ h => h) (establishes_zero hzero fun dial now heq => hevent ⟨dial, now, heq⟩)))
  · -- Within a call nothing happens but attempts, and what the streams do.
    cases event with
    | channels w =>
      cases h
      exact .inr (.inr ⟨hphase, hnone, hstatus⟩)
    | attempt dial now => exact absurd ⟨dial, now, rfl⟩ hevent
    | enter =>
      obtain ⟨-, socket, hsocket, -⟩ := step_enter h
      rw [hnone] at hsocket
      cases hsocket
    | _ => simp [step.eq_def, hphase] at h

/-- **The count is zero when a call begins.** -/
theorem reconnectAttempt_of_runs {options : ClientOptions} {channels : W} {now : ℕ}
    (h : Runs ch order (fun _ _ => True) (start options channels now) s) (hs : s.Connecting) :
    s.loop.reconnectAttempt = 0 := by
  have hcounted : s.Counted :=
    h.invariant (I := Counted) (.inr (.inl rfl)) fun _ _ _ hs _ hstep => counted_step hs hstep
  obtain ⟨hphase, -, hstatus⟩ := hs
  rcases hcounted with hstopped | hzero | ⟨-, -, hconnecting⟩
  · rw [hphase] at hstopped
    cases hstopped
  · exact hzero
  · rw [hstatus] at hconnecting
    cases hconnecting

/-- **Which calls keep to the policy.** Those of a policy with reconnecting enabled, or with at most
one retry, and those whose first attempt connects, as long as no delay that they come to panics. -/
theorem respects_iff {options : ClientOptions} {channels : W} {now : ℕ}
    (hrun : Runs ch order (fun _ _ => True) (start options channels now) s) (hs : s.Connecting)
    {outcomes : List (Except (ClientError E) (Socket E) × ℕ)}
    {call : BackoffCall E R S W maxPacketSize}
    (h : connectWithBackoff order outcomes s.loop = some call) :
    Respects options.reconnect call ↔ DelaysDefined 0 s.loop outcomes ∧
      (options.reconnect.enabled = true ∨ (∃ limit ∈ options.reconnect.maxRetries, limit ≤ 1) ∨
        FirstConnects s.loop outcomes) :=
  respects_iff_of_zero (reconnectAttempt_of_runs hrun hs)
    (congrArg ClientOptions.reconnect (options_of_runs hrun)) h

/-- A new loop with the given policy. -/
def startWith (enabled : Bool) (maxRetries : Option ℕ) :
    LoopSystem Unit ℕ ℕ (ℕ → Queue PublishMessage) 16 :=
  start { ClientOptions.new "c" (fun _ => 0) with
    reconnect := { enabled, maxRetries, scaledDelay := fun _ => some 0 } } (fun _ => ⟨false, [], 1⟩) 0

/-- No broker can be reached. -/
def unreachable (attempts : ℕ) : List (Except (ClientError Unit) (Socket Unit) × ℕ) :=
  List.replicate attempts (.error .timeout, 0)

/-- Two attempts fail, and there is no third. -/
theorem respects_iff_twice :
    ∃ call, connectWithBackoff listed (unreachable 3) (startWith true (some 2)).loop = some call ∧
      Respects (startWith true (some 2)).loop.options.reconnect call := by
  have hrun : Runs (.queues ℕ PublishMessage) listed (fun _ _ => True) (startWith true (some 2))
    (startWith true (some 2)) := .refl
  have hcall : connectWithBackoff listed (unreachable 3) (startWith true (some 2)).loop =
    some _ := rfl
  have hdelays : DelaysDefined 0 (startWith true (some 2)).loop (unreachable 3) := by
    intro k _ _ _
    simp [ReconnectPolicy.computeDelay, startWith, LoopSystem.start, EventLoop.new]
  exact ⟨_, hcall, (respects_iff hrun ⟨rfl, rfl, rfl⟩ hcall).mpr ⟨hdelays, .inl rfl⟩⟩

/-- Without reconnecting, a second attempt follows the first. -/
theorem not_respects_disabled :
    (startWith false none).Connecting ∧
      ∃ call, connectWithBackoff listed (unreachable 2) (startWith false none).loop = some call ∧
        ¬ Respects (startWith false none).loop.options.reconnect call := by
  refine ⟨⟨rfl, rfl, rfl⟩, _, rfl, fun h => ?_⟩
  have htwice := h.attempts 1 rfl
  revert htwice
  decide

end LoopSystem

end

end MqttEngine.Tokio
