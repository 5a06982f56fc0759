import MqttEngine.Tokio.Deliveries

/-!
# What is done with frames

`acted` says what should be done with a frame: the message of a PUBLISH is dispatched, behind a
PUBACK if it has QoS 1, and an acknowledgement completes what it acknowledges. `handle` does this
as far as the PUBACKs fit into the transmit buffer, and as long as they are written and flushed.

## Main definitions

* `acted` — what should be done with a frame, if so many PUBACKs are written.
* `Conn.seen` — a state without the buffers and the scripts of the transport.
* `Socket.Holds` — so many writes and flushes succeed.

## Main results

* `forM_holds`, `forM_fails` — what is done with frames.
* `acts_iff` — when everything is done that should be.
-/

namespace MqttEngine.Tokio
open Checked Conn EventLoop

/-! ## Writes that succeed -/

namespace Socket
variable {E : Type} {s t u : Socket E} {m : ℕ}

/-- The next `n` writes and the next `n` flushes succeed. -/
def Holds (self : Socket E) (n : ℕ) : Prop :=
  (∀ r ∈ self.writeResults.take n, r = none) ∧ ∀ r ∈ self.flushResults.take n, r = none

@[simp] theorem holds_zero : s.Holds 0 := by simp [Holds]

theorem holds_one : s.Holds 1 ↔ s.WriteOk ∧ s.FlushOk := by
  simp [Holds, WriteOk, FlushOk, List.take_one]

theorem Holds.of_add {n : ℕ} (h : s.Holds (m + n)) : s.Holds m := by
  simp only [Holds, List.take_add, List.mem_append, or_imp, forall_and] at h
  exact ⟨h.1.1, h.2.1⟩

theorem Steady.holds (h : s.Steady) (n : ℕ) : s.Holds n :=
  ⟨fun r hr => h.writes r (List.mem_of_mem_take hr),
    fun r hr => h.flushes r (List.mem_of_mem_take hr)⟩

/-- The transport `t` has done `n` more writes and flushes. -/
structure After (s : Socket E) (n : ℕ) (t : Socket E) : Prop where
  writes : t.writeResults = s.writeResults.drop n
  flushes : t.flushResults = s.flushResults.drop n

theorem After.zero : s.After 0 s := ⟨rfl, rfl⟩

theorem After.holds (h : s.After m t) (n : ℕ) : s.Holds (m + n) ↔ s.Holds m ∧ t.Holds n := by
  simp only [Holds, h.writes, h.flushes, List.take_add, List.mem_append, or_imp, forall_and]
  tauto

end Socket

section
variable {E R S W : Type} {maxPacketSize : ℕ} {s t : Conn E R S W maxPacketSize}

/-! ## What should be done -/

/-- A state without the buffers and the scripts of the transport. -/
def Conn.seen (s : Conn E R S W maxPacketSize) : Conn E R S W maxPacketSize :=
  { s with
    rxBuf := .zero, txBuf := .zero, lastTx := 0
    socket := { s.socket with incoming := [], writeResults := [], flushResults := [] } }

/-- The packet id that the PUBACK for a frame should have. -/
def answered : Received → Option UInt16
  | ⟨_, .publish p⟩ => if p.qos = .atLeastOnce then p.packetId else none
  | _ => none

/-- The packet id of the PUBACK for a frame, if a buffer of this size takes the PUBACK. -/
def fitting (version : MqttVersion) (size : ℕ) (received : Received) : Option UInt16 :=
  (answered received).filter fun packetId => decide ((pubAckPacket packetId).Fits version size)

/-- The state after a PUBACK. -/
def acked (s : Conn E R S W maxPacketSize) (packetId : Option UInt16) :
    Conn E R S W maxPacketSize :=
  match packetId with
  | some packetId => s.withSocket { s.socket with
      written := s.socket.written ++ [(pubAckPacket packetId).wire s.options.version] }
  | none => s

/-! ## PUBACKs -/

section
variable {received : Received}

theorem fitting_eq_none {version : MqttVersion} {packetId : UInt16}
    (hanswer : answered received = some packetId)
    (h : ¬ (pubAckPacket packetId).Fits version maxPacketSize) :
    fitting version maxPacketSize received = none := by
  simp [fitting, hanswer, h]

theorem fitting_eq_some {version : MqttVersion} {packetId : UInt16}
    (hanswer : answered received = some packetId)
    (h : (pubAckPacket packetId).Fits version maxPacketSize) :
    fitting version maxPacketSize received = some packetId := by
  simp [fitting, hanswer, h]

variable {frame : List UInt8} {p : Publish}

theorem acknowledgePublish_some {packetId : UInt16}
    (h : answered ⟨frame, .publish p⟩ = some packetId) (now : ℕ) :
    acknowledgePublish (publishedMessage p) now = (acknowledge packetId now :
      ConnM E R S W maxPacketSize Unit) := by
  obtain ⟨hqos, hid⟩ : p.qos = .atLeastOnce ∧ p.packetId = some packetId := by
    simpa [answered] using h
  simp [acknowledgePublish, publishedMessage, hqos, hid]

theorem acknowledgePublish_none (h : answered ⟨frame, .publish p⟩ = none) (now : ℕ) :
    acknowledgePublish (publishedMessage p) now = (pure () : ConnM E R S W maxPacketSize Unit) := by
  have hid : p.qos = .atLeastOnce → p.packetId = none := by
    simpa [answered] using h
  rw [acknowledgePublish.eq_def]
  split
  · rename_i packetId hqos hsome
    have hnone := hid hqos
    rw [show p.packetId = some packetId from hsome] at hnone
    cases hnone
  · rfl

/-- A PUBACK that fits is written, as long as the transport does not fail. -/
theorem acknowledgePublish_holds
    (h : s.socket.Holds (fitting s.options.version maxPacketSize ⟨frame, .publish p⟩).toList.length)
    (now : ℕ) :
    ∃ c, acknowledgePublish (publishedMessage p) now s = .ok () c ∧
      c.seen = (acked s (fitting s.options.version maxPacketSize ⟨frame, .publish p⟩)).seen ∧
      s.socket.After (fitting s.options.version maxPacketSize ⟨frame, .publish p⟩).toList.length
        c.socket := by
  cases hanswer : answered ⟨frame, .publish p⟩ with
  | none =>
    rw [acknowledgePublish_none hanswer, fitting, hanswer]
    exact ⟨s, rfl, rfl, .zero⟩
  | some packetId =>
    rw [acknowledgePublish_some hanswer]
    by_cases hfits : (pubAckPacket packetId).Fits s.options.version maxPacketSize
    · rw [fitting_eq_some hanswer hfits] at h ⊢
      obtain ⟨hwrite, hflush⟩ := Socket.holds_one.mp h
      have hshort : (pubAckPacket packetId).Short := short_of_isAck ⟨packetId, .inl rfl⟩
      obtain ⟨tx, hsend⟩ := sendPacket_fits hfits (hshort.measured _ _) hwrite hflush now
      refine ⟨_, (acknowledge_fits hfits now).trans hsend, rfl, ?_, ?_⟩
      · exact (List.drop_one).symm
      · exact (List.drop_one).symm
    · rw [fitting_eq_none hanswer hfits]
      obtain ⟨tx, hack⟩ := acknowledge_unfit hfits now
      exact ⟨_, hack, rfl, .zero⟩

theorem acknowledgePublish_fails
    (h : ¬ s.socket.Holds (fitting s.options.version maxPacketSize ⟨frame, .publish p⟩).toList.length)
    (now : ℕ) : ∃ e c, acknowledgePublish (publishedMessage p) now s = .error e c := by
  cases hanswer : answered ⟨frame, .publish p⟩ with
  | none => exact absurd (by simp [fitting, hanswer]) h
  | some packetId =>
    by_cases hfits : (pubAckPacket packetId).Fits s.options.version maxPacketSize
    · rw [fitting_eq_some hanswer hfits] at h
      obtain ⟨e, c, hack, -⟩ := acknowledge_failed hfits (fun hok => h (Socket.holds_one.mpr hok)) now
      exact ⟨_, c, by rw [acknowledgePublish_some hanswer, hack]⟩
    · exact absurd (by simp [fitting_eq_none hanswer hfits]) h

end

/-! ## Frames -/

section
variable [DecidableEq S] (ch : Mpsc W S PublishMessage)

/-- The state after a frame, without a PUBACK. -/
def performed (s : Conn E R S W maxPacketSize) (received : Received) : Conn E R S W maxPacketSize :=
  match received.packet with
  | .publish p => LoopSystem.dispatched ch s (publishedMessage p)
  | .pubAck ack => completedPublish s ack.packetId
  | .subAck suback => completedSubscribe s suback.packetId
  | .unsubAck unsuback => completedUnsubscribe s unsuback.packetId
  | _ => s

/-- The state after a frame, if the PUBACKs of `answer` are written. -/
def acted (answer : Received → Option UInt16) (s : Conn E R S W maxPacketSize)
    (received : Received) : Conn E R S W maxPacketSize :=
  performed ch (acked s (answer received)) received

end

theorem seen_acked (h : s.seen = t.seen) (packetId : Option UInt16) :
    (acked s packetId).seen = (acked t packetId).seen := by
  have hseen (s : Conn E R S W maxPacketSize) : (acked s packetId).seen = (acked s.seen packetId).seen := by
    cases packetId <;> rfl
  rw [hseen s, hseen t, h]

theorem written_acked (packetId : Option UInt16) :
    (acked s packetId).socket.written.length =
      s.socket.written.length + packetId.toList.length := by
  cases packetId <;> simp [acked]

section
variable [DecidableEq S] {ch : Mpsc W S PublishMessage} {answer : Received → Option UInt16}
  {received : Received}

theorem seen_performed (h : s.seen = t.seen) :
    (performed ch s received).seen = (performed ch t received).seen := by
  have hseen (s : Conn E R S W maxPacketSize) :
      (performed ch s received).seen = (performed ch s.seen received).seen := by
    obtain ⟨frame, packet⟩ := received
    cases packet <;> rfl
  rw [hseen s, hseen t, h]

/-- What should be done depends only on what can be seen. -/
theorem seen_acted (h : s.seen = t.seen) :
    (acted ch answer s received).seen = (acted ch answer t received).seen :=
  seen_performed (seen_acked h _)

theorem seen_foldl_acted (h : s.seen = t.seen) (received : List Received) :
    (received.foldl (acted ch answer) s).seen = (received.foldl (acted ch answer) t).seen := by
  induction received generalizing s t with
  | nil => exact h
  | cons r received ih => exact ih (seen_acted h)

theorem options_acted (answer : Received → Option UInt16) (s : Conn E R S W maxPacketSize)
    (received : Received) : (acted ch answer s received).options = s.options := by
  obtain ⟨frame, packet⟩ := received
  cases hanswer : answer ⟨frame, packet⟩ <;> cases packet <;> simp [acted, hanswer] <;> rfl

/-- The PUBACKs that are written. -/
theorem written_foldl_acted (received : List Received) (s : Conn E R S W maxPacketSize) :
    (received.foldl (acted ch answer) s).socket.written.length =
      s.socket.written.length + (received.filterMap answer).length := by
  induction received generalizing s with
  | nil => rfl
  | cons r received ih =>
    have hwritten : (acted ch answer s r).socket.written.length =
        s.socket.written.length + (answer r).toList.length := by
      rw [← written_acked]
      obtain ⟨frame, packet⟩ := r
      cases packet <;> rfl
    rw [List.foldl_cons, ih, hwritten, List.filterMap_cons]
    cases answer r <;> simp; omega

variable (ch) in
/-- A frame, as long as the transport does not fail. -/
theorem handle_holds (hdisconnect : ∀ d, received.packet ≠ .disconnect d)
    (h : s.socket.Holds (fitting s.options.version maxPacketSize received).toList.length) (now : ℕ) :
    ∃ c, handle ch now received s = .ok () c ∧
      c.seen = (acted ch (fitting s.options.version maxPacketSize) s received).seen ∧
      s.socket.After (fitting s.options.version maxPacketSize received).toList.length c.socket := by
  obtain ⟨frame, packet⟩ := received
  cases packet with
  | publish p =>
    obtain ⟨c, hrun, hseen, hafter⟩ := acknowledgePublish_holds h now
    exact ⟨LoopSystem.dispatched ch c (publishedMessage p), run_bind hrun,
      (seen_performed hseen : (performed ch c ⟨frame, .publish p⟩).seen = _), hafter⟩
  | pubAck ack => exact ⟨_, performAction_pubAck ch _ now, rfl, .zero⟩
  | subAck suback => exact ⟨_, performAction_subAck ch _ now, rfl, .zero⟩
  | unsubAck unsuback => exact ⟨_, performAction_unsubAck ch _ now, rfl, .zero⟩
  | disconnect d => exact absurd rfl (hdisconnect d)
  | _ => exact ⟨s, rfl, rfl, .zero⟩

variable (ch) in
theorem handle_fails
    (h : ¬ s.socket.Holds (fitting s.options.version maxPacketSize received).toList.length) (now : ℕ) :
    ∃ e c, handle ch now received s = .error e c := by
  obtain ⟨frame, packet⟩ := received
  cases packet with
  | publish p =>
    obtain ⟨e, c, hrun⟩ := acknowledgePublish_fails h now
    exact ⟨e, c, run_bind_error hrun⟩
  | _ => exact absurd Socket.holds_zero h

theorem length_filterMap_cons (received : Received) (later : List Received) :
    ((received :: later).filterMap answer).length =
      (answer received).toList.length + (later.filterMap answer).length := by
  rw [List.filterMap_cons]
  cases answer received <;> simp [Nat.add_comm]

variable {frames : List Received}

variable (ch) in
/-- **Frames**, as long as the transport does not fail. -/
theorem forM_holds (hdisconnect : ∀ r ∈ frames, ∀ d, r.packet ≠ .disconnect d)
    (h : s.socket.Holds (frames.filterMap (fitting s.options.version maxPacketSize)).length)
    (now : ℕ) :
    ∃ c, frames.forM (handle ch now) s = .ok () c ∧
      c.seen = (frames.foldl (acted ch (fitting s.options.version maxPacketSize)) s).seen := by
  induction frames generalizing s with
  | nil => exact ⟨s, rfl, rfl⟩
  | cons r frames ih =>
    rw [length_filterMap_cons] at h
    obtain ⟨t, hrun, hseen, hafter⟩ :=
      handle_holds ch (hdisconnect r List.mem_cons_self) h.of_add now
    have hoptions : t.options = s.options :=
      (congrArg (·.options) hseen).trans (options_acted _ _ _)
    obtain ⟨c, hrest, hc⟩ := ih (s := t) (fun r hr => hdisconnect r (List.mem_cons_of_mem _ hr))
      (by rw [hoptions]; exact ((hafter.holds _).mp h).2)
    refine ⟨c, (run_bind hrun).trans hrest, ?_⟩
    rw [hc, hoptions]
    exact seen_foldl_acted hseen frames

variable (ch) in
theorem forM_fails (hdisconnect : ∀ r ∈ frames, ∀ d, r.packet ≠ .disconnect d)
    (h : ¬ s.socket.Holds (frames.filterMap (fitting s.options.version maxPacketSize)).length)
    (now : ℕ) : ∃ e c, frames.forM (handle ch now) s = .error e c := by
  induction frames generalizing s with
  | nil => exact absurd Socket.holds_zero h
  | cons r frames ih =>
    rw [length_filterMap_cons] at h
    by_cases hr : s.socket.Holds (fitting s.options.version maxPacketSize r).toList.length
    · obtain ⟨t, hrun, hseen, hafter⟩ :=
        handle_holds ch (hdisconnect r List.mem_cons_self) hr now
      have hoptions : t.options = s.options :=
        (congrArg (·.options) hseen).trans (options_acted _ _ _)
      obtain ⟨e, c, hrest⟩ := ih (s := t) (fun r hr => hdisconnect r (List.mem_cons_of_mem _ hr))
        (by rw [hoptions]; exact fun hrest => h ((hafter.holds _).mpr ⟨hr, hrest⟩))
      exact ⟨e, c, (run_bind hrun).trans hrest⟩
    · obtain ⟨e, c, hrun⟩ := handle_fails ch hr now
      exact ⟨e, c, run_bind_error hrun⟩

variable (ch) in
/-- **Everything is done that should be**, if the PUBACKs fit and the transport does not fail, and
otherwise not. -/
theorem acts_iff (hdisconnect : ∀ r ∈ frames, ∀ d, r.packet ≠ .disconnect d) (now : ℕ) :
    (∃ c, frames.forM (handle ch now) s = .ok () c ∧
      c.seen = (frames.foldl (acted ch answered) s).seen) ↔
    (∀ r ∈ frames, ∀ packetId ∈ answered r,
      (pubAckPacket packetId).Fits s.options.version maxPacketSize) ∧
      s.socket.Holds (frames.filterMap answered).length := by
  constructor
  · rintro ⟨c, hrun, hc⟩
    by_cases h : s.socket.Holds (frames.filterMap (fitting s.options.version maxPacketSize)).length
    · obtain ⟨c', hrun', hc'⟩ := forM_holds ch hdisconnect h now
      rw [hrun] at hrun'
      cases hrun'
      have hlength : (frames.filterMap (fitting s.options.version maxPacketSize)).length =
          (frames.filterMap answered).length := by
        have hwritten := congrArg (fun c => c.socket.written.length) (hc'.symm.trans hc)
        change (frames.foldl _ s).socket.written.length = (frames.foldl _ s).socket.written.length
          at hwritten
        rw [written_foldl_acted, written_foldl_acted] at hwritten
        exact Nat.add_left_cancel hwritten
      refine ⟨?_, hlength ▸ h⟩
      change (frames.filterMap fun r => (answered r).filter _).length = _ at hlength
      rw [← List.filter_filterMap, List.length_filter_eq_length_iff] at hlength
      intro r hr packetId hanswer
      simpa using hlength packetId (List.mem_filterMap.mpr ⟨r, hr, hanswer⟩)
    · obtain ⟨e, c', hrun'⟩ := forM_fails ch hdisconnect h now
      rw [hrun] at hrun'
      cases hrun'
  · rintro ⟨hfits, h⟩
    have hanswer : ∀ r ∈ frames, fitting s.options.version maxPacketSize r = answered r := by
      intro r hr
      cases h : answered r with
      | none => simp [fitting, h]
      | some packetId => exact fitting_eq_some h (hfits r hr packetId h)
    rw [← List.filterMap_congr hanswer] at h
    obtain ⟨c, hrun, hc⟩ := forM_holds ch hdisconnect h now
    refine ⟨c, hrun, hc.trans (congrArg seen ?_)⟩
    exact List.foldl_ext _ _ s fun t r hr => by rw [acted, acted, hanswer r hr]

end

end

end MqttEngine.Tokio
