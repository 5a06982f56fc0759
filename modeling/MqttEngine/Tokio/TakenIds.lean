import MqttEngine.Lib.RollingIds
import MqttEngine.Tokio.Operations

/-!
# The packet ids that the event loop takes

Publishes, subscriptions and unsubscriptions take their packet ids from one rolling counter and
wait under them in three maps; the subscriptions of a recovered session take ids and wait
nowhere. The counter looks at none of the maps. `requestTakes` and `attemptTakes` list the ids
that are taken, each with the ids that wait at that moment.

`Goes` says what a program does with the counter and the maps. It is composed along the programs:
ids are taken one after the other, and where each of them is fresh, no publish that waits is
replaced.

## Main definitions

* `EventLoop.pendingIds`, `EventLoop.Apart` — the ids that wait.
* `requestTakes`, `attemptTakes` — the ids that are taken.
* `Goes`, `GoesExcept` — what a program does with the counter and the maps.

## Main results

* `goes_handleClientRequest`, `goes_connectAttempt` — requests and attempts to connect.
* `goes_handle` — frames that are acted on.
-/

namespace MqttEngine.Tokio
open Checked Conn Rolling

section
variable {E R S W : Type} {maxPacketSize : ℕ}

/-! ## The ids that wait -/

namespace EventLoop

/-- The ids that wait for an acknowledgement. -/
def pendingIds (self : EventLoop E R S W maxPacketSize) : List UInt16 :=
  self.inflightPublishes.keys ++ self.inflightSubscribes.keys ++ self.inflightUnsubscribes.keys

/-- An id waits in one map only. -/
structure Apart (t : EventLoop E R S W maxPacketSize) : Prop where
  publish_subscribe : ∀ i ∈ t.inflightPublishes.keys, i ∉ t.inflightSubscribes.keys
  publish_unsubscribe : ∀ i ∈ t.inflightPublishes.keys, i ∉ t.inflightUnsubscribes.keys
  subscribe_unsubscribe : ∀ i ∈ t.inflightSubscribes.keys, i ∉ t.inflightUnsubscribes.keys

/-- The next id is taken. -/
def takeNext (self : EventLoop E R S W maxPacketSize) (keeps : Bool) : Take :=
  { id := self.nextPacketId, keeps, pending := self.pendingIds }

end EventLoop

open EventLoop

/-- The ids that publishes take. -/
def publishTakes : List PublishMessage → Conn E R S W maxPacketSize → List Take
  | [], _ => []
  | message :: messages, s =>
    (if message.qos ≠ .atMostOnce then [s.takeNext true] else []) ++
      publishTakes messages (tracked s message none)

/-- The messages of a batch that are reached. -/
def reached : List PublishMessage → ℕ → ℕ → Conn E R S W maxPacketSize → List PublishMessage
  | [], _, _, _ => []
  | message :: messages, cursor, count, s =>
    message ::
      match sendPublishBatchRound message cursor count s with
      | .ok (cursor, count) s => reached messages cursor count s
      | .error _ _ => []

/-- The state after publishes have taken their packet ids. -/
def trackedAll : List PublishMessage → Conn E R S W maxPacketSize → Conn E R S W maxPacketSize
  | [], s => s
  | message :: messages, s => trackedAll messages (tracked s message none)

/-- The ids that a request takes. A SUBSCRIBE or UNSUBSCRIBE that is not sent does not wait. -/
def requestTakes (s : Conn E R S W maxPacketSize) (request : ClientRequest R S) (now : ℕ) : List Take :=
  match request with
  | .publish message _ => publishTakes [message] s
  | .publishBatch messages _ => publishTakes (reached messages 0 0 s) s
  | .subscribe _ _ _ _ | .unsubscribe _ _ =>
    [s.takeNext (match handleClientRequest request now s with
      | .ok _ _ => true
      | .error _ _ => false)]
  | .publishDatagram _ _ _ | .disconnect _ => []

/-- The state after the ids of `n` subscriptions that do not wait. -/
def renewed : ℕ → Conn E R S W maxPacketSize → Conn E R S W maxPacketSize
  | 0, s => s
  | n + 1, s => renewed n { s with nextPacketId := succPacketId s.nextPacketId }

/-- The ids of `n` subscriptions that do not wait. -/
def renewalTakes : ℕ → Conn E R S W maxPacketSize → List Take
  | 0, _ => []
  | n + 1, s =>
    s.takeNext false :: renewalTakes n { s with nextPacketId := succPacketId s.nextPacketId }

/-- The ids that the recovery of a session takes. -/
def recoveryTakes (s : Conn E R S W maxPacketSize) : List Take :=
  let n := if s.options.recovery.autoResubscribe then s.activeSubscriptions.length else 0
  renewalTakes n s ++ publishTakes s.offlineQueue (renewed n s)

/-- The ids that an attempt to connect takes. -/
def attemptTakes (self : EventLoop E R S W maxPacketSize) (dial : Except (ClientError E) (Socket E))
    (now : ℕ) : List Take :=
  match dial with
  | .error _ => []
  | .ok socket =>
    match performConnectHandshake { self.startAttempt with socket } with
    | .ok _ s =>
      recoveryTakes { s with
        reconnectAttempt := 0, statuses := s.statuses ++ [.connected], lastTx := now }
    | .error _ _ => []

/-! ## What a program does with the counter and the maps -/

/-- The counter and the maps are the same. -/
structure SameIds (s s' : EventLoop E R S W maxPacketSize) : Prop where
  next : s'.nextPacketId = s.nextPacketId
  publishes : s'.inflightPublishes = s.inflightPublishes
  subscribes : s'.inflightSubscribes = s.inflightSubscribes
  unsubscribes : s'.inflightUnsubscribes = s.inflightUnsubscribes

/-- Ids are taken one after the other. Where each of them is fresh, every publish that waits goes
on to wait, and the maps stay apart. -/
structure Goes (log : List Take) (s s' : EventLoop E R S W maxPacketSize) : Prop where
  follows : Follows s.nextPacketId { i | i ∈ s.pendingIds } log s'.nextPacketId
    { i | i ∈ s'.pendingIds }
  apart : Rolling.Fresh log → s.Apart → s'.Apart
  kept : Rolling.Fresh log → ∀ i entry, s.inflightPublishes.get? i = some entry →
    s'.inflightPublishes.get? i = some entry

theorem fresh_append {log log' : List Take} :
    Rolling.Fresh (log ++ log') ↔ Rolling.Fresh log ∧ Rolling.Fresh log' := by
  simp only [Rolling.Fresh, List.mem_append, or_imp, forall_and]

section
variable {s s' s'' : EventLoop E R S W maxPacketSize} {log log' : List Take}

theorem SameIds.refl : SameIds s s := ⟨rfl, rfl, rfl, rfl⟩

theorem SameIds.trans (h : SameIds s s') (h' : SameIds s' s'') : SameIds s s'' :=
  ⟨h'.next.trans h.next, h'.publishes.trans h.publishes, h'.subscribes.trans h.subscribes,
    h'.unsubscribes.trans h.unsubscribes⟩

theorem SameIds.pendingIds_eq (h : SameIds s s') : s'.pendingIds = s.pendingIds := by
  simp [EventLoop.pendingIds, h.publishes, h.subscribes, h.unsubscribes]

theorem SameIds.takeNext_eq (h : SameIds s s') (keeps : Bool) :
    s'.takeNext keeps = s.takeNext keeps := by
  simp [takeNext, h.next, h.pendingIds_eq]

theorem SameIds.goes (h : SameIds s s') : Goes [] s s' where
  follows := by
    rw [h.next, h.pendingIds_eq]
    exact .refl subset_rfl
  apart _ hs := by
    constructor
    · simpa [h.publishes, h.subscribes] using hs.publish_subscribe
    · simpa [h.publishes, h.unsubscribes] using hs.publish_unsubscribe
    · simpa [h.subscribes, h.unsubscribes] using hs.subscribe_unsubscribe
  kept _ i entry hentry := by rwa [h.publishes]

theorem Goes.append (h : Goes log s s') (h' : Goes log' s' s'') : Goes (log ++ log') s s'' where
  follows := h.follows.append fun _ hsub => h'.follows.mono hsub
  apart hfresh hs :=
    h'.apart (fresh_append.mp hfresh).2 (h.apart (fresh_append.mp hfresh).1 hs)
  kept hfresh i entry hentry :=
    h'.kept (fresh_append.mp hfresh).2 i entry (h.kept (fresh_append.mp hfresh).1 i entry hentry)

theorem Goes.sameIds (h : Goes log s s') (h' : SameIds s' s'') : Goes log s s'' := by
  have hboth := h.append h'.goes
  rwa [List.append_nil] at hboth

theorem SameIds.goes_of (h : SameIds s s') (h' : Goes log s' s'') : Goes log s s'' :=
  h.goes.append h'

/-- The next id is taken and does not wait. -/
theorem goes_skip : Goes [s.takeNext false] s { s with nextPacketId := succPacketId s.nextPacketId } where
  follows := ⟨rfl, fun _ h => h, rfl, Set.subset_union_left⟩
  apart _ hs := ⟨hs.publish_subscribe, hs.publish_unsubscribe, hs.subscribe_unsubscribe⟩
  kept _ _ _ hentry := hentry

/-- The next id is taken by a publish. -/
theorem goes_publish (entry : PublishMessage × Option R) :
    Goes [s.takeNext true] s { s with
      nextPacketId := succPacketId s.nextPacketId
      inflightPublishes := s.inflightPublishes.set s.nextPacketId entry } where
  follows := by
    refine ⟨rfl, fun _ h => h, rfl, fun i hi => ?_⟩
    simpa [EventLoop.pendingIds, Assoc.mem_keys_set, takeNext, or_assoc, or_comm, or_left_comm] using hi
  apart hfresh hs := by
    have hid : s.nextPacketId ∉ s.pendingIds := hfresh _ (List.mem_singleton_self _) rfl
    simp [EventLoop.pendingIds] at hid
    constructor
    · simpa [Assoc.mem_keys_set, hid] using hs.publish_subscribe
    · simpa [Assoc.mem_keys_set, hid] using hs.publish_unsubscribe
    · exact hs.subscribe_unsubscribe
  kept hfresh i entry' hentry := by
    have hid : s.nextPacketId ∉ s.pendingIds := hfresh _ (List.mem_singleton_self _) rfl
    have hne : i ≠ s.nextPacketId := by
      rintro rfl
      have hmem : s.nextPacketId ∈ s.inflightPublishes.keys := by simp [Assoc.mem_keys, hentry]
      simp [EventLoop.pendingIds, hmem] at hid
    simpa [Assoc.get?_set, hne] using hentry

/-- The next id is taken by a SUBSCRIBE. -/
theorem goes_subscribe (sender : R) :
    Goes [s.takeNext true] s { s with
      nextPacketId := succPacketId s.nextPacketId
      inflightSubscribes := s.inflightSubscribes.set s.nextPacketId sender } where
  follows := by
    refine ⟨rfl, fun _ h => h, rfl, fun i hi => ?_⟩
    simpa [EventLoop.pendingIds, Assoc.mem_keys_set, takeNext, or_assoc, or_comm, or_left_comm] using hi
  apart hfresh hs := by
    have hid : s.nextPacketId ∉ s.pendingIds := hfresh _ (List.mem_singleton_self _) rfl
    simp [EventLoop.pendingIds] at hid
    refine ⟨fun i hi => ?_, hs.publish_unsubscribe, ?_⟩
    · have hne : i ≠ s.nextPacketId := fun h => hid.1 (h ▸ hi)
      simpa [Assoc.mem_keys_set, hne] using hs.publish_subscribe i hi
    · simpa [Assoc.mem_keys_set, hid] using hs.subscribe_unsubscribe
  kept _ _ _ hentry := hentry

/-- The next id is taken by an UNSUBSCRIBE. -/
theorem goes_unsubscribe (sender : R) :
    Goes [s.takeNext true] s { s with
      nextPacketId := succPacketId s.nextPacketId
      inflightUnsubscribes := s.inflightUnsubscribes.set s.nextPacketId sender } where
  follows := by
    refine ⟨rfl, fun _ h => h, rfl, fun i hi => ?_⟩
    simpa [EventLoop.pendingIds, Assoc.mem_keys_set, takeNext, or_assoc, or_comm, or_left_comm] using hi
  apart hfresh hs := by
    have hid : s.nextPacketId ∉ s.pendingIds := hfresh _ (List.mem_singleton_self _) rfl
    simp [EventLoop.pendingIds] at hid
    refine ⟨hs.publish_subscribe, fun i hi => ?_, fun i hi => ?_⟩
    · have hne : i ≠ s.nextPacketId := fun h => hid.1 (h ▸ hi)
      simpa [Assoc.mem_keys_set, hne] using hs.publish_unsubscribe i hi
    · have hne : i ≠ s.nextPacketId := fun h => hid.2.1 (h ▸ hi)
      simpa [Assoc.mem_keys_set, hne] using hs.subscribe_unsubscribe i hi
  kept _ _ _ hentry := hentry

end

/-! ## Programs -/

section
variable {P : UInt8 → Prop} {s s' : Conn E R S W maxPacketSize}

theorem sameIds_of_sends (h : Sends P s s') : SameIds s.toEventLoop s'.toEventLoop := by
  rw [h.loop]
  exact ⟨rfl, rfl, rfl, rfl⟩

/-- The counter and the maps are those of `s`. -/
def Unmoved (s s' : Conn E R S W maxPacketSize) : Prop := SameIds s.toEventLoop s'.toEventLoop

theorem sameIds_sends {α : Type} {x : ConnM E R S W maxPacketSize α}
    (h : ∀ s₀, Preserves (Sends P s₀) x) : Preserves (Unmoved s) x :=
  preserves_of_sends (fun _ _ hs hsends => SameIds.trans hs (sameIds_of_sends hsends)) h

theorem sameIds_modify {g : Conn E R S W maxPacketSize → Conn E R S W maxPacketSize}
    (h : ∀ s, Unmoved s (g s)) :
    Preserves (Unmoved s) (modifyThe _ g : ConnM E R S W maxPacketSize PUnit) :=
  Preserves.modify fun s hs => SameIds.trans hs (h s)

theorem unmoved_sendSome (sender : Option R) (answer : Answer E) :
    Preserves (Unmoved s) (sendSome sender answer : ConnM E R S W maxPacketSize Unit) := by
  apply preserves_sendSome
  intro t h
  exact SameIds.trans h ⟨rfl, rfl, rfl, rfl⟩

theorem unmoved_tracked (h : Unmoved s s') (message : PublishMessage) (ackSender : Option R) :
    Unmoved (tracked s message ackSender) (tracked s' message ackSender) := by
  rw [tracked, tracked]
  split
  · constructor
    · simp [h.next]
    · simp [h.next, h.publishes]
    · exact h.subscribes
    · exact h.unsubscribes
  · exact h

theorem unmoved_trackedAll (h : Unmoved s s') (messages : List PublishMessage) :
    Unmoved (trackedAll messages s) (trackedAll messages s') := by
  induction messages generalizing s s' with
  | nil => exact h
  | cons message messages ih => exact ih (unmoved_tracked h message none)

/-- Only the ids matter for what publishes take. -/
theorem publishTakes_congr (h : SameIds s.toEventLoop s'.toEventLoop)
    (messages : List PublishMessage) : publishTakes messages s' = publishTakes messages s := by
  induction messages generalizing s s' with
  | nil => rfl
  | cons message messages ih =>
    rw [publishTakes, publishTakes, h.takeNext_eq, ih (unmoved_tracked h message none)]

theorem publishTakes_cons (message : PublishMessage) (messages : List PublishMessage)
    (s : Conn E R S W maxPacketSize) :
    publishTakes (message :: messages) s =
      publishTakes [message] s ++ publishTakes messages (tracked s message none) := by
  simp [publishTakes]

theorem goes_tracked (message : PublishMessage) (ackSender : Option R) :
    Goes (publishTakes [message] s) s.toEventLoop (tracked s message ackSender).toEventLoop := by
  rw [publishTakes, publishTakes, List.append_nil, tracked]
  by_cases hqos : message.qos ≠ .atMostOnce
  · rw [if_pos hqos, if_pos hqos]
    exact goes_publish _
  · rw [if_neg hqos, if_neg hqos]
    exact SameIds.refl.goes

theorem goes_trackedAll (messages : List PublishMessage) :
    Goes (publishTakes messages s) s.toEventLoop (trackedAll messages s).toEventLoop := by
  induction messages generalizing s with
  | nil => exact SameIds.refl.goes
  | cons message messages ih =>
    rw [publishTakes_cons]
    exact (goes_tracked message none).append ih

/-- A publish changes the counter and the maps as it is tracked. -/
theorem unmoved_published (message : PublishMessage) (ackSender : Option R) :
    Unmoved (tracked s message ackSender) (published s message ackSender) := by
  rw [published]
  split
  · exact .refl
  · rename_i hqos
    rw [tracked, if_neg hqos]
    exact ⟨rfl, rfl, rfl, rfl⟩

theorem unmoved_sendPublishDirect (message : PublishMessage) (ackSender : Option R) (now : ℕ) :
    Ends (sendPublishDirect message ackSender now) s
      (fun _ s' => Unmoved (tracked s message ackSender) s')
      fun _ s' => Unmoved (tracked s message ackSender) s' := by
  rw [Ends, sendPublishDirect_eq]
  exact sameIds_sends (P := fun _ => True) (fun _ => sends_sendPacket trivial now) _
    (unmoved_published message ackSender)

/-- A round of a batch takes one id at most, whatever it ends in. -/
theorem sameIds_sendPublishBatchRound (message : PublishMessage) (cursor count : ℕ) :
    Ends (sendPublishBatchRound message cursor count) s
      (fun _ s' => SameIds (tracked s message none).toEventLoop s'.toEventLoop)
      fun _ s' => SameIds (tracked s message none).toEventLoop s'.toEventLoop := by
  have hencode (cursor : ℕ) (p : MqttPacket) :
      Preserves (Unmoved (tracked s message none)) (encodeTx cursor p) :=
    sameIds_sends (P := fun _ => True) fun _ => sends_encodeTx cursor p
  rw [Ends, sendPublishBatchRound, run_bind (trackPublish_eq message none)]
  -- Nothing but the tracking looks at the counter or the tables.
  refine Preserves.bind (I := Unmoved (tracked s message none)) (hencode _ _) ?_ _ .refl
  rintro ((e | _ | _) | len)
  · apply Preserves.ite
    · intro _
      apply Preserves.bind (sameIds_sends fun _ => sends_writeTx cursor)
      intro _
      apply Preserves.bind (hencode _ _)
      intro r
      exact Preserves.bind (preserves_lift _ _ _) fun _ => Preserves.pure _
    · intro _
      exact Preserves.pure _
  · exact preserves_lift _ _ _
  · exact preserves_lift _ _ _
  · exact Preserves.pure _

/-- A batch tracks the messages that it reaches. -/
theorem unmoved_sendPublishBatchLoop (messages : List PublishMessage) (cursor count : ℕ) :
    Ends (sendPublishBatchLoop messages cursor count) s
      (fun _ s' => Unmoved (trackedAll (reached messages cursor count s) s) s')
      fun _ s' => Unmoved (trackedAll (reached messages cursor count s) s) s' := by
  induction messages generalizing cursor count s with
  | nil => exact SameIds.refl
  | cons message messages ih =>
    have hround := sameIds_sendPublishBatchRound message cursor count (s := s)
    rw [reached]
    rcases hend : sendPublishBatchRound message cursor count s with ⟨⟨cursor', count'⟩, s'⟩ | ⟨e, s'⟩
    · have hsame := unmoved_trackedAll (hround.ok_of hend) (reached messages cursor' count' s')
      rw [Ends, sendPublishBatchLoop, run_bind hend]
      exact (ih cursor' count').mono (fun _ _ h => hsame.trans h) fun _ _ h => hsame.trans h
    · rw [Ends, sendPublishBatchLoop, run_bind_error hend]
      exact hround.error_of hend

theorem unmoved_sendPublishBatchDirect (messages : List PublishMessage) (now : ℕ) :
    Ends (sendPublishBatchDirect messages now) s
      (fun _ s' => Unmoved (trackedAll (reached messages 0 0 s) s) s')
      fun _ s' => Unmoved (trackedAll (reached messages 0 0 s) s) s' := by
  apply Ends.bind
  apply (unmoved_sendPublishBatchLoop messages 0 0).mono
  · rintro ⟨cursor, count⟩ t ht
    have hsend : Preserves (Unmoved (trackedAll (reached messages 0 0 s) s))
        (do writeTx cursor; flush; setLastTx now; pure count) := by
      apply Preserves.bind (sameIds_sends fun _ => sends_writeTx cursor)
      intro _
      apply Preserves.bind (sameIds_sends (P := fun _ => True) fun _ => sends_flush)
      intro _
      apply Preserves.bind (sameIds_sends (P := fun _ => True) fun _ => sends_setLastTx now)
      intro _
      exact Preserves.pure _
    apply Ends.ite
    · intro _
      exact hsend t ht
    · intro _
      exact ht
  · exact fun _ _ h => h

/-- A batch, with the answer that it ends in. -/
theorem unmoved_publishBatch (messages : List PublishMessage) (ackSender : Option R) (now : ℕ) :
    Ends (handleClientRequest (.publishBatch messages ackSender) now) s
      (fun _ s' => Unmoved (trackedAll (reached messages 0 0 s) s) s')
      fun _ s' => Unmoved (trackedAll (reached messages 0 0 s) s) s' := by
  apply Ends.bind
  apply (unmoved_sendPublishBatchDirect messages now).mono
  · exact fun count s' hs' => unmoved_sendSome _ _ s' hs'
  · exact fun _ _ h => h

theorem sameIds_sendDisconnect : Preserves (Unmoved s) sendDisconnect :=
  preserves_sendDisconnect (P := fun _ => True)
    (fun _ _ hs hsends => SameIds.trans hs (sameIds_of_sends hsends)) trivial
    fun _ _ hs => SameIds.trans hs ⟨rfl, rfl, rfl, rfl⟩

/-- A request takes its ids, whatever it ends in. -/
theorem goes_handleClientRequest (request : ClientRequest R S) (now : ℕ) :
    Ends (handleClientRequest request now) s
      (fun _ s' => Goes (requestTakes s request now) s.toEventLoop s'.toEventLoop)
      fun _ s' => Goes (requestTakes s request now) s.toEventLoop s'.toEventLoop := by
  cases request with
  | publish message ackSender =>
    have htracked := goes_tracked message ackSender (s := s)
    exact (unmoved_sendPublishDirect message ackSender now).mono (fun _ _ h => htracked.sameIds h)
      fun _ _ h => htracked.sameIds h
  | publishBatch messages ackSender =>
    have htracked := goes_trackedAll (reached messages 0 0 s) (s := s)
    exact (unmoved_publishBatch messages ackSender now).mono (fun _ _ h => htracked.sameIds h)
      fun _ _ h => htracked.sameIds h
  | publishDatagram topic payload ackSender =>
    have hsame : Preserves (Unmoved s)
        (handleClientRequest (.publishDatagram topic payload ackSender) now) := by
      apply Preserves.bind (sameIds_sends (P := fun _ => True) fun _ => sends_encodeTx 0 _)
      intro r
      apply Preserves.bind (preserves_lift _ _ _)
      intro len
      apply Preserves.bind (sameIds_sends (P := fun _ => True) fun _ => sends_sendDatagram len)
      intro result
      exact unmoved_sendSome _ _
    exact (hsame s .refl).mono (fun _ _ h => h.goes) fun _ _ h => h.goes
  | subscribe topic qos respSender streamSender =>
    have hsend := sameIds_sends (fun _ => sends_sendPacket (P := fun _ => True)
      (p := subscribePacket s.nextPacketId topic qos) trivial now)
      (subscribed s topic qos streamSender) .refl
    have hskip : Goes [s.takeNext false] s.toEventLoop
        (subscribed s topic qos streamSender).toEventLoop :=
      goes_skip.sameIds ⟨rfl, rfl, rfl, rfl⟩
    rw [requestTakes, Ends, handle_subscribe]
    rcases hend : sendPacket (subscribePacket s.nextPacketId topic qos) now
      (subscribed s topic qos streamSender) with ⟨u, s'⟩ | ⟨e, s'⟩
    · have hsame := hsend.ok_of hend
      rw [run_bind hend]
      exact (goes_subscribe respSender).sameIds
        ⟨hsame.next, hsame.publishes,
          congrArg (Assoc.set · s.nextPacketId respSender) hsame.subscribes, hsame.unsubscribes⟩
    · rw [run_bind_error hend]
      exact hskip.sameIds (hsend.error_of hend)
  | unsubscribe topic respSender =>
    have hsend := sameIds_sends (fun _ => sends_sendPacket (P := fun _ => True)
      (p := unsubscribePacket s.nextPacketId topic) trivial now) (unsubscribed s topic) .refl
    have hskip : Goes [s.takeNext false] s.toEventLoop (unsubscribed s topic).toEventLoop :=
      goes_skip.sameIds ⟨rfl, rfl, rfl, rfl⟩
    rw [requestTakes, Ends, handle_unsubscribe]
    rcases hend : sendPacket (unsubscribePacket s.nextPacketId topic) now (unsubscribed s topic) with
      ⟨u, s'⟩ | ⟨e, s'⟩
    · have hsame := hsend.ok_of hend
      rw [run_bind hend]
      exact (goes_unsubscribe respSender).sameIds
        ⟨hsame.next, hsame.publishes, hsame.subscribes,
          congrArg (Assoc.set · s.nextPacketId respSender) hsame.unsubscribes⟩
    · rw [run_bind_error hend]
      exact hskip.sameIds (hsend.error_of hend)
  | disconnect respSender =>
    have hsend : Preserves (Unmoved s) (send respSender (.done (.ok ()))) :=
      sameIds_modify fun _ => ⟨rfl, rfl, rfl, rfl⟩
    have hsame : Preserves (Unmoved s) (handleClientRequest (.disconnect respSender) now) := by
      apply Preserves.bind sameIds_sendDisconnect
      intro _
      apply Preserves.bind hsend
      intro _
      exact Preserves.throw _
    exact (hsame s .refl).mono (fun _ _ h => h.goes) fun _ _ h => h.goes

/-! ## Connecting -/

theorem unmoved_tryWritePacket (p : MqttPacket) : EventLoop.Silent (Unmoved s) (tryWritePacket p) := by
  intro s' hs'
  exact (silent_tryWritePacket s' .refl).mono
    (fun _ _ h => SameIds.trans hs' (sameIds_of_sends h)) fun _ _ h => h

theorem unmoved_flush : EventLoop.Silent (Unmoved s) (ignore flush) :=
  silent_ignore (sameIds_sends (P := fun _ => True) fun _ => sends_flush)

theorem goes_flushOfflineQueue (messages : List PublishMessage) (now : ℕ) :
    Ends (flushOfflineQueue now messages) s
      (fun _ s' => Goes (publishTakes messages s) s.toEventLoop s'.toEventLoop)
      fun e _ => ∀ e', e ≠ .err e' := by
  induction messages generalizing s with
  | nil => exact SameIds.refl.goes
  | cons message messages ih =>
    let popped : Conn E R S W maxPacketSize := { s with offlineQueue := messages }
    have hpopped : Unmoved s popped := ⟨rfl, rfl, rfl, rfl⟩
    have hsend := ends_ignore (unmoved_sendPublishDirect message none now (s := popped))
    change Ends (do ignore (sendPublishDirect message none now); flushOfflineQueue now messages)
      popped _ _
    rw [← publishTakes_congr hpopped, publishTakes_cons]
    apply Ends.bind
    apply hsend.mono
    · intro _ s' hs'
      rw [← publishTakes_congr hs']
      exact ih.mono
        (fun _ _ h => hpopped.goes_of ((goes_tracked message none).append (hs'.goes_of h)))
        fun _ _ h => h
    · exact fun _ _ h => h.1

theorem unmoved_renewed (h : Unmoved s s') (n : ℕ) : Unmoved (renewed n s) (renewed n s') := by
  induction n generalizing s s' with
  | zero => exact h
  | succ n ih => exact ih ⟨by simp [h.next], h.publishes, h.subscribes, h.unsubscribes⟩

theorem renewalTakes_congr (h : Unmoved s s') (n : ℕ) : renewalTakes n s' = renewalTakes n s := by
  induction n generalizing s s' with
  | zero => rfl
  | succ n ih =>
    rw [renewalTakes, renewalTakes, h.takeNext_eq, ih]
    exact ⟨by simp [h.next], h.publishes, h.subscribes, h.unsubscribes⟩

/-- Subscribing again takes ids that do not wait. -/
theorem goes_resubscribe (subscriptions : List (String × QoS)) :
    Ends (subscriptions.forM fun (topic, qos) => do
        let pid ← getNextPacketId
        tryWritePacket (subscribePacket pid topic qos) : ConnM E R S W maxPacketSize PUnit) s
      (fun _ s' => Goes (renewalTakes subscriptions.length s) s.toEventLoop s'.toEventLoop ∧
        Unmoved (renewed subscriptions.length s) s')
      fun e _ => ∀ e', e ≠ .err e' := by
  induction subscriptions generalizing s with
  | nil => exact ⟨SameIds.refl.goes, .refl⟩
  | cons subscription subscriptions ih =>
    let taken : Conn E R S W maxPacketSize :=
      { s with nextPacketId := succPacketId s.nextPacketId }
    have hfirst : Ends (do
        let pid ← getNextPacketId
        tryWritePacket (subscribePacket pid subscription.1 subscription.2)) s
        (fun _ s' => Unmoved taken s') fun e _ => ∀ e', e ≠ .err e' := by
      have htake : getNextPacketId s = .ok s.nextPacketId taken := rfl
      rw [Ends, run_bind htake]
      exact unmoved_tryWritePacket _ taken .refl
    apply Ends.bind
    apply hfirst.mono
    · intro _ s' hs'
      apply ih.mono
      · rintro _ s'' ⟨hgoes, hrenewed⟩
        rw [renewalTakes_congr hs'] at hgoes
        exact ⟨goes_skip.append (hs'.goes_of hgoes), (unmoved_renewed hs' _).trans hrenewed⟩
      · exact fun _ _ h => h
    · exact fun _ _ h => h

/-- The recovery of a session takes its ids; it reports no error. -/
theorem goes_performSessionDataRecovery (order : HashOrder) (now : ℕ) :
    Ends (performSessionDataRecovery order now) s
      (fun _ s' => Goes (recoveryTakes s) s.toEventLoop s'.toEventLoop) fun e _ => ∀ e', e ≠ .err e' := by
  have hresubscribe : ∀ s', Unmoved s s' → Ends (resubscribeAll order now s) s'
      (fun _ s'' => Goes (recoveryTakes s) s.toEventLoop s''.toEventLoop)
      fun e _ => ∀ e', e ≠ .err e' := by
    intro s' hs'
    rw [recoveryTakes]
    have hqueue {n : ℕ} {t : Conn E R S W maxPacketSize}
        (ht : Goes (renewalTakes n s) s.toEventLoop t.toEventLoop) (hrenewed : Unmoved (renewed n s) t) :
        Ends (flushOfflineQueue now s.offlineQueue) t
          (fun _ s'' => Goes (renewalTakes n s ++ publishTakes s.offlineQueue (renewed n s))
            s.toEventLoop s''.toEventLoop)
          fun e _ => ∀ e', e ≠ .err e' := by
      rw [← publishTakes_congr hrenewed]
      exact (goes_flushOfflineQueue s.offlineQueue now).mono (fun _ _ h => ht.append h) fun _ _ h => h
    apply Ends.ite
    · rintro ⟨hauto, -⟩
      rw [if_pos hauto, ← (order.perm s.activeSubscriptions).length_eq]
      apply Ends.bind
      apply (goes_resubscribe (order.entries s.activeSubscriptions)).mono
      · rintro _ t ⟨hgoes, hrenewed⟩
        rw [renewalTakes_congr hs'] at hgoes
        apply Ends.bind
        apply (unmoved_flush t .refl).mono
        · intro _ u hu
          exact hqueue ((hs'.goes_of hgoes).sameIds hu)
            (((unmoved_renewed hs' _).trans hrenewed).trans hu)
        · exact fun _ _ h => h
      · exact fun _ _ h => h
    · intro hnone
      have hzero : (if s.options.recovery.autoResubscribe then s.activeSubscriptions.length else 0) =
          0 := by
        by_cases hauto : s.options.recovery.autoResubscribe <;> simp_all
      rw [hzero]
      exact hqueue hs'.goes hs'
  rw [Ends, performSessionDataRecovery_eq]
  apply Ends.ite
  · intro _
    apply Ends.bind
    apply (EventLoop.Silent.forM (fun _ => unmoved_tryWritePacket _) _ s .refl).mono
    · intro _ t ht
      apply Ends.bind
      exact (unmoved_flush t ht).mono (fun _ u hu => hresubscribe u hu) fun _ _ h => h
    · exact fun _ _ h => h
  · intro _
    exact hresubscribe s .refl

theorem goes_connectAttempt {self loop : EventLoop E R S W maxPacketSize} {order : HashOrder}
    {dial : Except (ClientError E) (Socket E)} {now : ℕ} {attempt : Attempt E}
    {socket : Option (Socket E)}
    (h : self.connectAttempt order dial now = some (attempt, loop, socket)) :
    Goes (attemptTakes self dial now) self loop := by
  obtain ⟨-, h⟩ := connectAttempt_eq_some.mp h
  rw [finishAttempt.eq_def] at h
  rw [attemptTakes.eq_def]
  rcases dial with e | opened
  · cases h
    exact SameIds.goes ⟨rfl, rfl, rfl, rfl⟩
  · let s : Conn E R S W maxPacketSize := { self.startAttempt with socket := opened }
    have hstart : SameIds self s.toEventLoop := ⟨rfl, rfl, rfl, rfl⟩
    have hhandshake := sends_performConnectHandshake (P := fun _ => True) trivial s .refl
    dsimp only at h ⊢
    rcases hrun : performConnectHandshake s with ⟨u, s'⟩ | ⟨(e | _ | _), s'⟩
    · let t : Conn E R S W maxPacketSize :=
        { s' with reconnectAttempt := 0, statuses := s'.statuses ++ [.connected], lastTx := now }
      have hconnected : SameIds self t.toEventLoop :=
        (hstart.trans (sameIds_of_sends (hhandshake.ok_of hrun))).trans ⟨rfl, rfl, rfl, rfl⟩
      have hrecovery := goes_performSessionDataRecovery order now (s := t)
      rw [hrun] at h
      dsimp only at h
      rcases hrun' : performSessionDataRecovery order now t with ⟨u, c⟩ | ⟨e, c⟩
      · rw [hrun'] at h
        cases h
        exact (hconnected.goes_of (hrecovery.ok_of hrun')).sameIds ⟨rfl, rfl, rfl, rfl⟩
      · have hnever := hrecovery.error_of hrun'
        rw [hrun'] at h
        rcases e with e | _ | _
        · exact absurd rfl (hnever e)
        · cases h
        · cases h
    · rw [hrun] at h
      cases h
      exact (hstart.trans (sameIds_of_sends (hhandshake.error_of hrun))).goes
    · rw [hrun] at h
      cases h
    · rw [hrun] at h
      cases h

end

/-! ## Acknowledgements -/

/-- The publish that a packet acknowledges. -/
def acknowledgedId : MqttPacket → Option UInt16
  | .pubAck ack => some ack.packetId
  | _ => none

/-- Ids are taken as before, but a publish that is acknowledged waits no longer. -/
structure GoesExcept (released : Option UInt16) (log : List Take)
    (s s' : EventLoop E R S W maxPacketSize) : Prop where
  follows : Follows s.nextPacketId { i | i ∈ s.pendingIds } log s'.nextPacketId
    { i | i ∈ s'.pendingIds }
  apart : Rolling.Fresh log → s.Apart → s'.Apart
  kept : Rolling.Fresh log → ∀ i entry, s.inflightPublishes.get? i = some entry → released ≠ some i →
    s'.inflightPublishes.get? i = some entry

section
variable {s s' : Conn E R S W maxPacketSize} {log : List Take}

theorem Goes.except {s s' : EventLoop E R S W maxPacketSize} (h : Goes log s s')
    (released : Option UInt16) : GoesExcept released log s s' :=
  ⟨h.follows, h.apart, fun hfresh i entry hentry _ => h.kept hfresh i entry hentry⟩

theorem GoesExcept.sameIds {released : Option UInt16} {log : List Take}
    {s s' s'' : EventLoop E R S W maxPacketSize} (h : GoesExcept released log s s')
    (h' : SameIds s' s'') : GoesExcept released log s s'' := by
  refine ⟨?_, fun hfresh hs => h'.goes.apart (by simp [Rolling.Fresh]) (h.apart hfresh hs), ?_⟩
  · rw [h'.next, h'.pendingIds_eq]
    exact h.follows
  · intro hfresh i entry hentry hne
    rw [h'.publishes]
    exact h.kept hfresh i entry hentry hne

theorem goes_completedPublish (packetId : UInt16) :
    GoesExcept (some packetId) [] s.toEventLoop (completedPublish s packetId).toEventLoop where
  follows := by
    refine .refl fun i hi => ?_
    simp only [completedPublish, EventLoop.pendingIds, Set.mem_ofPred_eq, List.mem_append,
      Assoc.mem_keys_erase] at hi ⊢
    tauto
  apart _ hs := by
    constructor
    · simpa [completedPublish, Assoc.mem_keys_erase] using fun i _ h => hs.publish_subscribe i h
    · simpa [completedPublish, Assoc.mem_keys_erase] using fun i _ h => hs.publish_unsubscribe i h
    · exact hs.subscribe_unsubscribe
  kept _ i entry hentry hne := by
    have hi : i ≠ packetId := fun h => hne (by rw [h])
    simpa [completedPublish, Assoc.get?_erase, hi] using hentry

theorem goes_completedSubscribe (packetId : UInt16) :
    Goes [] s.toEventLoop (completedSubscribe s packetId).toEventLoop where
  follows := by
    refine .refl fun i hi => ?_
    simp only [completedSubscribe, EventLoop.pendingIds, Set.mem_ofPred_eq, List.mem_append,
      Assoc.mem_keys_erase] at hi ⊢
    tauto
  apart _ hs := by
    refine ⟨fun i hi => ?_, hs.publish_unsubscribe, ?_⟩
    · have := hs.publish_subscribe i hi
      simp [completedSubscribe, Assoc.mem_keys_erase, this]
    · simpa [completedSubscribe, Assoc.mem_keys_erase] using fun i _ h => hs.subscribe_unsubscribe i h
  kept _ _ _ hentry := hentry

theorem goes_completedUnsubscribe (packetId : UInt16) :
    Goes [] s.toEventLoop (completedUnsubscribe s packetId).toEventLoop where
  follows := by
    refine .refl fun i hi => ?_
    simp only [completedUnsubscribe, EventLoop.pendingIds, Set.mem_ofPred_eq, List.mem_append,
      Assoc.mem_keys_erase] at hi ⊢
    tauto
  apart _ hs := by
    refine ⟨hs.publish_subscribe, fun i hi => ?_, fun i hi => ?_⟩
    · have := hs.publish_unsubscribe i hi
      simp [completedUnsubscribe, Assoc.mem_keys_erase, this]
    · have := hs.subscribe_unsubscribe i hi
      simp [completedUnsubscribe, Assoc.mem_keys_erase, this]
  kept _ _ _ hentry := hentry

/-- A frame that is acted on takes no id. -/
theorem goes_handle [DecidableEq S] (ch : Mpsc W S PublishMessage) (received : Received) (now : ℕ) :
    Ends (handle ch now received) s
      (fun _ s' => GoesExcept (acknowledgedId received.packet) [] s.toEventLoop s'.toEventLoop)
      fun _ s' => GoesExcept (acknowledgedId received.packet) [] s.toEventLoop s'.toEventLoop := by
  have hquiet {x : ConnM E R S W maxPacketSize Unit} (h : Preserves (Unmoved s) x) :
      Ends x s
        (fun _ s' => GoesExcept (acknowledgedId received.packet) [] s.toEventLoop s'.toEventLoop)
        fun _ s' => GoesExcept (acknowledgedId received.packet) [] s.toEventLoop s'.toEventLoop :=
    (h s .refl).mono (fun _ _ h => h.goes.except _) fun _ _ h => h.goes.except _
  obtain ⟨frame, packet⟩ := received
  cases packet with
  | publish p =>
    apply hquiet
    have hdispatch (message : PublishMessage) : Preserves (Unmoved s) (dispatch ch message) :=
      sameIds_modify fun _ => ⟨rfl, rfl, rfl, rfl⟩
    exact Preserves.bind
      (sameIds_sends (P := fun _ => True) fun _ => sends_acknowledgePublish _ now trivial)
      fun _ => hdispatch _
  | pubAck ack =>
    change Ends (performAction ch now (.pubAck ack.packetId)) s _ _
    rw [Ends, performAction_pubAck]
    exact goes_completedPublish ack.packetId
  | subAck suback =>
    change Ends (performAction ch now (.subAck suback.packetId)) s _ _
    rw [Ends, performAction_subAck]
    exact (goes_completedSubscribe suback.packetId).except _
  | unsubAck unsuback =>
    change Ends (performAction ch now (.unsubAck unsuback.packetId)) s _ _
    rw [Ends, performAction_unsubAck]
    exact (goes_completedUnsubscribe unsuback.packetId).except _
  | disconnect d => exact hquiet (Preserves.throw _)
  | _ => exact hquiet (Preserves.pure _)

end

end

end MqttEngine.Tokio
