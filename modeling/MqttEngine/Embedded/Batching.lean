import MqttEngine.Embedded.Receiving

/-!
# `poll_batch` and successive polls

`poll` and `poll_batch` have a copy each of the handling of a received packet. `Link` is what
that handling reads and changes, and `Link.frame` is what it does there, for sends that may
fail. `Link.polls` handles the frames of a list as calls of `poll` do that stop at the first
error, `Link.batch` as one call of `poll_batch` does, and the client refines both.

They differ where a call fails behind an event, which the batch loses, and where frames
follow a DISCONNECT, which the polls no longer look at.

## Main definitions

* `Link`, `Link.frame`, `Link.polls`, `Link.batch` — the handling of frames.
* `pollEach`, `pollAll` — the calls of the client.
* `Steady` — when the calls come to the same.

## Main results

* `pollEach_link`, `pollAll_link` — the client refines `Link.polls` and `Link.batch`.
* `sameAsPolls_iff` — the batch is the successive polls if and only if the frames are steady.
-/

namespace MqttEngine
open Checked MqttClient

section
variable {E : Type} {bufSize maxInflight : ℕ}

/-- What the handling of packets reads and changes. -/
structure Link (E : Type) (maxInflight : ℕ) where
  options : MqttOptions
  state : ConnectionState
  sent : List (List UInt8)
  sendResults : List (Option E)
  inflight : InflightQueue maxInflight

/-- The part of the client that the handling of packets is about. -/
def MqttClient.link (c : MqttClient E bufSize maxInflight) : Link E maxInflight where
  options := c.options
  state := c.state
  sent := c.transport.sent
  sendResults := c.transport.sendResults
  inflight := c.inflight

@[simp] theorem options_link (c : MqttClient E bufSize maxInflight) : c.link.options = c.options :=
  rfl

@[simp] theorem state_link (c : MqttClient E bufSize maxInflight) : c.link.state = c.state := rfl

namespace MqttPacket

/-- The packet is a PUBLISH. -/
def isPublish : MqttPacket → Bool
  | .publish _ => true
  | _ => false

/-- A buffer of `size` bytes and the sends to come do not let the packet be acknowledged. -/
def Unanswered (size : ℕ) (results : List (Option E)) (p : MqttPacket) : Prop :=
  p.acks ≠ [] ∧ (size < 7 ∨ (results.head?.bind fun r => r).isSome)

instance (size : ℕ) (results : List (Option E)) (p : MqttPacket) :
    Decidable (p.Unanswered size results) := inferInstanceAs (Decidable (_ ∧ _))

end MqttPacket

namespace Link

/-- Sending an acknowledgement, and whether it succeeds. -/
def answer (size : ℕ) (q : MqttPacket) (l : Link E maxInflight) : Bool × Link E maxInflight :=
  if size < 7 then (false, l)
  else
    match l.sendResults with
    | some _ :: results => (false, { l with sendResults := results })
    | results =>
      (true, { l with
        sendResults := results.tail, sent := l.sent ++ [q.wire l.options.version] })

/-- The table after a packet. -/
def settle (p : MqttPacket) (l : Link E maxInflight) : Link E maxInflight :=
  { l with inflight := p.settle l.inflight }

/-- Handling a packet, and whether it succeeds. A PUBLISH is acknowledged before the table is
changed, the other packets afterwards. -/
def handle (size : ℕ) (p : MqttPacket) (l : Link E maxInflight) : Bool × Link E maxInflight :=
  match p.acks with
  | [] => (true, { l.settle p with state := p.stateAfter l.state })
  | q :: _ =>
    if p.isPublish then
      let (done, l) := l.answer size q
      (done, if done then l.settle p else l)
    else (l.settle p).answer size q

/-- Handling a frame: its event, unless it fails. -/
def frame (size : ℕ) (f : List UInt8) (l : Link E maxInflight) :
    Option (Option MqttEvent) × Link E maxInflight :=
  match decode f l.options.version with
  | .ok (some p) =>
    let (done, l) := l.handle size p
    (if done then some p.event else none, l)
  | .ok none => (some none, l)
  | .error _ => (none, l)

/-- The events of successive polls, which stop at an error and behind a DISCONNECT. -/
def polls (size : ℕ) : List (List UInt8) → Link E maxInflight →
    List MqttEvent × Link E maxInflight
  | [], l => ([], l)
  | f :: fs, l =>
    if l.state ≠ .connected then ([], l)
    else
      match l.frame size f with
      | (some event, l) => ((polls size fs l).map (event.toList ++ ·) fun l => l)
      | (none, l) => ([], l)

/-- The events of a batch, unless it fails. -/
def batch (size : ℕ) : List (List UInt8) → Link E maxInflight →
    Option (List MqttEvent) × Link E maxInflight
  | [], l => (some [], l)
  | f :: fs, l =>
    match l.frame size f with
    | (some event, l) => ((batch size fs l).map (Option.map (event.toList ++ ·)) fun l => l)
    | (none, l) => (none, l)

end Link

/-! ## The client refines the link -/

/-- What no handling of a packet changes. -/
structure Kept (s s' : MqttClient E bufSize maxInflight) : Prop where
  incoming : s'.transport.incoming = s.transport.incoming
  lastTxTime : s'.lastTxTime = s.lastTxTime
  options : s'.options = s.options

theorem Kept.refl (s : MqttClient E bufSize maxInflight) : Kept s s := ⟨rfl, rfl, rfl⟩

theorem Kept.trans {s s' s'' : MqttClient E bufSize maxInflight} (h : Kept s s') (h' : Kept s' s'') :
    Kept s s'' :=
  ⟨h'.incoming.trans h.incoming, h'.lastTxTime.trans h.lastTxTime, h'.options.trans h.options⟩

/-- The program succeeds and changes the link as `r` says. -/
def Mirrors {α : Type} (x : ClientM E bufSize maxInflight α) (s : MqttClient E bufSize maxInflight)
    (r : Bool × Link E maxInflight) : Prop :=
  Ends x s (fun _ s' => r = (true, s'.link) ∧ Kept s s') fun _ s' => r = (false, s'.link) ∧ Kept s s'

theorem mirrors_sendPacket {q : MqttPacket} (hq : q.IsAck) (s : MqttClient E bufSize maxInflight) :
    Mirrors (sendPacket q) s (s.link.answer bufSize q) := by
  rw [Mirrors, Ends, Link.answer]
  have hmeasured := (short_of_isAck hq).measured s.options.version bufSize
  by_cases hsize : bufSize < 7
  · have hfits : ¬ q.Fits s.options.version bufSize := by
      obtain ⟨id, rfl | rfl | rfl | rfl⟩ := hq
      all_goals
        simp [MqttPacket.Fits, MqttPacket.room, MqttPacket.content, Ack.new, reasonBytes]
        omega
    obtain ⟨e, tx, hrun⟩ := sendPacket_unfit hmeasured hfits
    rw [hrun, if_pos hsize]
    exact ⟨rfl, rfl, rfl, rfl⟩
  · obtain ⟨tx, hrun⟩ := sendPacket_of_fits
      (MqttPacket.fits_of_isAck hq (Nat.le_of_not_lt hsize) s.options.version) hmeasured
    rw [hrun, if_neg hsize, send, transport_withTx]
    have hlink : s.link.sendResults = s.transport.sendResults := rfl
    rw [hlink]
    rcases hresults : s.transport.sendResults with _ | ⟨_ | e, results⟩
    · refine ⟨?_, rfl, rfl, rfl⟩
      simp [MqttClient.link, withTx, hresults]
    · exact ⟨rfl, rfl, rfl, rfl⟩
    · exact ⟨rfl, rfl, rfl, rfl⟩

/-- What is done when the acknowledgement has been sent. -/
theorem Mirrors.andThen {α β : Type} {x : ClientM E bufSize maxInflight α}
    {f : α → ClientM E bufSize maxInflight β} {s : MqttClient E bufSize maxInflight}
    {r : Bool × Link E maxInflight} {b : β} {g : MqttClient E bufSize maxInflight →
      MqttClient E bufSize maxInflight} {k : Link E maxInflight → Link E maxInflight}
    (h : Mirrors x s r) (hf : ∀ a s', f a s' = .ok b (g s')) (hg : ∀ s', Kept s' (g s'))
    (hk : ∀ s', (g s').link = k s'.link) :
    Mirrors (x >>= f) s (r.1, if r.1 then k r.2 else r.2) := by
  rw [Mirrors, Ends] at h ⊢
  rcases hrun : x s with ⟨a, s'⟩ | ⟨e, s'⟩
  · rw [hrun] at h
    rw [run_bind hrun, hf, h.1]
    exact ⟨by simp [hk], h.2.trans (hg s')⟩
  · rw [hrun] at h
    rw [run_bind_error hrun, h.1]
    exact ⟨rfl, h.2⟩

/-- Only the event is left to yield. -/
theorem Mirrors.yield {α β : Type} {x : ClientM E bufSize maxInflight α}
    {s : MqttClient E bufSize maxInflight} {r : Bool × Link E maxInflight} (h : Mirrors x s r)
    (b : β) : Mirrors (do let _ ← x; pure b) s r := by
  have hyield := h.andThen (f := fun _ => pure b) (g := fun s => s) (k := fun l => l) (b := b)
    (fun _ _ => rfl) Kept.refl fun _ => rfl
  rwa [ite_self] at hyield

/-- What is done before the acknowledgement is sent. -/
theorem mirrors_after {α β : Type} {x : ClientM E bufSize maxInflight α}
    {f : α → ClientM E bufSize maxInflight β} {s s' : MqttClient E bufSize maxInflight} {a : α}
    {r : Bool × Link E maxInflight} (hx : x s = .ok a s') (hkept : Kept s s')
    (h : Mirrors (f a) s' r) : Mirrors (x >>= f) s r := by
  rw [Mirrors, Ends, run_bind hx]
  exact Ends.mono h (fun _ _ h => ⟨h.1, hkept.trans h.2⟩) fun _ _ h => ⟨h.1, hkept.trans h.2⟩

theorem mirrors_handlePacket (p : MqttPacket) (s : MqttClient E bufSize maxInflight) :
    Mirrors (handlePacket p) s (s.link.handle bufSize p) := by
  rw [Link.handle]
  cases p with
  | publish p =>
    rcases hqos : p.qos with _ | _ | _
    · simp only [MqttPacket.acks, handlePacket, hqos]
      refine ⟨?_, Kept.refl s⟩
      simp [Link.settle, MqttPacket.settle, MqttPacket.stateAfter, hqos, MqttClient.link]
    · rcases hid : p.packetId with _ | pid
      · simp only [MqttPacket.acks, handlePacket, hqos, hid]
        refine ⟨?_, Kept.refl s⟩
        simp [Link.settle, MqttPacket.settle, MqttPacket.stateAfter, hqos, MqttClient.link]
      · simp only [MqttPacket.acks, handlePacket, hqos, hid]
        have hack := mirrors_sendPacket (q := .pubAck (Ack.new pid)) ⟨pid, .inl rfl⟩ s
        simpa [MqttPacket.isPublish, Link.settle, MqttPacket.settle, hqos] using
          hack.yield (some (MqttEvent.publish p))
    · rcases hid : p.packetId with _ | pid
      · simp only [MqttPacket.acks, handlePacket, hqos, hid]
        refine ⟨?_, Kept.refl s⟩
        simp [Link.settle, MqttPacket.settle, MqttPacket.stateAfter, hqos, hid, MqttClient.link]
      · simp only [MqttPacket.acks, handlePacket, hqos, hid]
        have hack := mirrors_sendPacket (q := .pubRec (Ack.new pid)) ⟨pid, .inr (.inl rfl)⟩ s
        refine hack.andThen (k := (·.settle (.publish p))) (fun _ s' => run_bind
          (updateInflight_eq (·.trackInboundQos2 pid) s')) ?_ ?_
        · exact fun _ => ⟨rfl, rfl, rfl⟩
        · intro s'
          simp [MqttClient.link, Link.settle, MqttPacket.settle, hqos, hid]
  | pubAck ack => exact ⟨rfl, rfl, rfl, rfl⟩
  | pubRec rec =>
    have hack := mirrors_sendPacket (q := .pubRel (Ack.new rec.packetId)) ⟨_, .inr (.inr (.inl rfl))⟩
      { s with inflight := (s.inflight.handlePubrec rec.packetId).getD s.inflight }
    exact mirrors_after (updateInflight_eq _ s) ⟨rfl, rfl, rfl⟩ (hack.yield _)
  | pubRel rel =>
    have hack := mirrors_sendPacket (q := .pubComp (Ack.new rel.packetId))
      ⟨_, .inr (.inr (.inr rfl))⟩
      { s with inflight := (s.inflight.handlePubrel rel.packetId).getD s.inflight }
    exact mirrors_after (updateInflight_eq _ s) ⟨rfl, rfl, rfl⟩ (hack.yield _)
  | _ => exact ⟨rfl, rfl, rfl, rfl⟩

theorem handlePacket_event (p : MqttPacket) (s : MqttClient E bufSize maxInflight) :
    Ends (handlePacket p) s (fun event _ => event = p.event) fun _ _ => True := by
  cases p with
  | publish p =>
    rw [handlePacket]
    split
    · exact Ends.bind_any fun _ _ => rfl
    · exact Ends.bind_any fun _ _ => Ends.bind_any fun _ _ => rfl
    · exact rfl
  | pubAck ack => exact rfl
  | pubRec rec => exact Ends.bind_any fun _ _ => Ends.bind_any fun _ _ => rfl
  | pubRel rel => exact Ends.bind_any fun _ _ => Ends.bind_any fun _ _ => rfl
  | _ => exact rfl

/-- What both operations do with a frame. -/
def receiveFrame (version : MqttVersion) (f : List UInt8) :
    ClientM E bufSize maxInflight (Option MqttEvent) := do
  match ← lift (decode f version) with
  | some packet => handlePacket packet
  | none => pure none

theorem receiveFrame_link (f : List UInt8) (s : MqttClient E bufSize maxInflight) :
    Ends (receiveFrame s.options.version f) s
      (fun event s' => s.link.frame bufSize f = (some event, s'.link) ∧ Kept s s')
      fun _ s' => s.link.frame bufSize f = (none, s'.link) ∧ Kept s s' := by
  rw [receiveFrame, Link.frame, options_link]
  rcases decode f s.options.version with (e | _ | _) | _ | p
  · exact ⟨rfl, Kept.refl s⟩
  · exact ⟨rfl, Kept.refl s⟩
  · exact ⟨rfl, Kept.refl s⟩
  · exact ⟨rfl, Kept.refl s⟩
  · apply Ends.mono ((mirrors_handlePacket p s).and (handlePacket_event p s))
    · rintro event s' ⟨⟨hlink, hkept⟩, rfl⟩
      exact ⟨by simp [hlink], hkept⟩
    · rintro e s' ⟨⟨hlink, hkept⟩, -⟩
      exact ⟨by simp [hlink], hkept⟩

/-! ## The calls -/

/-- Successive calls of `poll` at the instants `nows`, which stop at the first error. -/
def pollEach : List ℕ → MqttClient E bufSize maxInflight →
    List MqttEvent × MqttClient E bufSize maxInflight
  | [], c => ([], c)
  | now :: nows, c =>
    match poll now c with
    | .ok event c => (pollEach nows c).map (event.toList ++ ·) fun c => c
    | .error _ c => ([], c)

/-- A call of `poll_batch`. -/
def pollAll (maxEvents : ℕ) (c : MqttClient E bufSize maxInflight) :
    List MqttEvent × MqttClient E bufSize maxInflight :=
  match pollBatch maxEvents c with
  | .ok events c => (events.toList, c)
  | .error _ c => ([], c)

/-- A keep-alive ping is due at the instant `now`. -/
def PingDue (c : MqttClient E bufSize maxInflight) (now : ℕ) : Prop :=
  now - c.lastTxTime ≥ c.options.keepAlive / 2

theorem poll_frame {s : MqttClient E bufSize maxInflight} {chunk : BoundedVec UInt8 bufSize}
    {later : List (Except E (BoundedVec UInt8 bufSize))} {now : ℕ} (hconnected : s.state = .connected)
    (h : s.transport.incoming = .ok chunk :: later) (hne : chunk.toList ≠ [])
    (hdue : ¬ PingDue s now) :
    poll now s = receiveFrame s.options.version chunk.toList (taken s chunk later) := by
  have hping : pingIfDue now s = .ok () s := by
    rw [PingDue] at hdue
    rw [pingIfDue_eq, if_neg hdue]
  rw [poll, run_bind (requireConnected_of_connected hconnected), run_bind hping, receive_eq h hne]
  apply run_bind_congr
  rw [decodeRx_eq]

/-- The polls refine their model. -/
theorem pollEach_link {frames : List (ℕ × BoundedVec UInt8 bufSize)}
    {c : MqttClient E bufSize maxInflight} (hframes : ∀ f ∈ frames, f.2.toList ≠ [])
    (hdue : ∀ f ∈ frames, ¬ PingDue c f.1)
    (hincoming : c.transport.incoming = frames.map fun f => .ok f.2) :
    (pollEach (frames.map (·.1)) c).map (fun events => events) link =
      c.link.polls bufSize (frames.map (·.2.toList)) := by
  induction frames generalizing c with
  | nil => rfl
  | cons f frames ih =>
    rw [List.map_cons, List.map_cons, pollEach, Link.polls]
    by_cases hconnected : c.state = .connected
    · rw [if_neg (by simpa using hconnected)]
      rw [poll_frame hconnected hincoming (hframes f (by simp)) (hdue f (by simp))]
      have hframe := receiveFrame_link f.2.toList
        (taken c f.2 (frames.map fun f => .ok f.2))
      change Ends (receiveFrame c.options.version _) _ (fun _ _ => c.link.frame _ _ = _ ∧ _)
        (fun _ _ => c.link.frame _ _ = _ ∧ _) at hframe
      rw [Ends] at hframe
      split at hframe
      · rename_i event c' hrun
        obtain ⟨hlink, hkept⟩ := hframe
        rw [hrun, hlink]
        dsimp only
        have hrest := ih (c := c') (fun g hg => hframes g (by simp [hg]))
          (fun g hg => by
            have := hdue g (by simp [hg])
            rwa [PingDue, hkept.lastTxTime, hkept.options])
          (by rw [hkept.incoming]; rfl)
        rw [← hrest]
        rfl
      · rename_i e c' hrun
        rw [hrun, hframe.1]
        rfl
    · rw [if_pos (by simpa using hconnected), poll,
        run_bind_error (requireConnected_of_not hconnected)]
      rfl

/-- A round of the frame loop takes the frame at the front of what is left. -/
theorem pollBatchLoop_frame {maxEvents fuel : ℕ} {iter : RawPacketFrameIter}
    {events : BoundedVec MqttEvent maxEvents} {f rest : List UInt8}
    {s : MqttClient E bufSize maxInflight} (hframe : framing.IsFrame f)
    (hrest : iter.rest = f ++ rest) :
    pollBatchLoop maxEvents (fuel + 1) iter events s =
      (receiveFrame s.options.version f >>= fun event =>
        pollBatchLoop maxEvents fuel (iter.skip f.length) (pushEvent events event)) s := by
  have hsize : framing.size iter.rest = some f.length := by
    rw [hrest]
    exact framing.stable _ hframe
  have hnext := RawPacketFrameIter.next_of_complete hsize (by rw [hrest]; simp)
  rw [hrest, List.take_left] at hnext
  rw [pollBatchLoop, hnext, receiveFrame]
  change (lift (decode f s.options.version) >>= _) s =
    ((lift (decode f s.options.version) >>= _) >>= _) s
  rcases decode f s.options.version with (e | _ | _) | _ | p <;> rfl

/-- The frame loop refines its model. -/
theorem pollBatchLoop_link {maxEvents fuel : ℕ} {iter : RawPacketFrameIter}
    {events : BoundedVec MqttEvent maxEvents} {fs : List (List UInt8)}
    {s : MqttClient E bufSize maxInflight} (hframes : ∀ f ∈ fs, framing.IsFrame f)
    (hrest : iter.rest = fs.flatten) (hfuel : fs.length < fuel)
    (hroom : events.toList.length + fs.length ≤ maxEvents) :
    Ends (pollBatchLoop maxEvents fuel iter events) s
      (fun events' s' => (s.link.batch bufSize fs).map (Option.map (events.toList ++ ·)) (fun l => l) =
        (some events'.toList, s'.link))
      fun _ s' => s.link.batch bufSize fs = (none, s'.link) := by
  induction fuel generalizing s iter events fs with
  | zero => exact absurd hfuel (Nat.not_lt_zero _)
  | succ fuel ih =>
    rcases fs with _ | ⟨f, fs⟩
    · rw [List.flatten_nil] at hrest
      rw [Ends, pollBatchLoop, RawPacketFrameIter.next_of_incomplete (.inl (by simp [hrest]))]
      simp [Link.batch, lift, bind, EStateM.bind, Pure.pure, EStateM.pure]
    · rw [List.flatten_cons] at hrest
      rw [List.length_cons] at hroom hfuel
      rw [Ends, pollBatchLoop_frame (hframes f (by simp)) hrest, ← Ends]
      apply Ends.bind
      apply (receiveFrame_link f s).mono
      · rintro event s' ⟨hlink, -⟩
        have hpush : (pushEvent events event).toList = events.toList ++ event.toList :=
          toList_pushEvent (by omega)
        have htail : ∀ g ∈ fs, framing.IsFrame g := fun g hg => hframes g (by simp [hg])
        have hrest' : Ends (pollBatchLoop maxEvents fuel (iter.skip f.length) (pushEvent events event))
            s' _ _ := ih htail (by simp [hrest]) (by omega) (by
            rw [hpush, List.length_append]
            have : event.toList.length ≤ 1 := by cases event <;> simp
            omega)
        apply hrest'.mono
        · intro events' s'' h
          rw [Link.batch, hlink, ← h, hpush]
          dsimp only
          rcases Link.batch bufSize fs s'.link with ⟨r, l⟩
          simp [Function.comp_def]
        · intro e s'' h
          rw [Link.batch, hlink]
          dsimp only
          rw [h]
          rfl
      · rintro e s' ⟨hlink, -⟩
        rw [Link.batch, hlink]

/-- The batch refines its model. -/
theorem pollAll_link {frames : List (List UInt8)} {chunk : BoundedVec UInt8 bufSize}
    {c : MqttClient E bufSize maxInflight} {later : List (Except E (BoundedVec UInt8 bufSize))}
    {maxEvents : ℕ} (hconnected : c.state = .connected)
    (hincoming : c.transport.incoming = .ok chunk :: later)
    (hframes : ∀ f ∈ frames, framing.IsFrame f) (hchunk : chunk.toList = frames.flatten)
    (hroom : frames.length ≤ maxEvents) :
    (pollAll maxEvents c).map (fun events => events) link =
      (c.link.batch bufSize frames).map (·.getD []) fun l => l := by
  have hcount := Framing.length_le_flatten hframes
  by_cases hne : chunk.toList = []
  · have hnil : frames = [] := by
      rw [hchunk] at hne
      rw [hne, List.length_nil] at hcount
      exact List.length_eq_zero_iff.mp (by omega)
    have hrecv : recv c = .ok 0 { taken c chunk later with rxLen := c.rxLen } := by
      simp only [recv, hincoming, taken, hne, List.length_nil]
    rw [pollAll, pollBatch, run_bind (requireConnected_of_connected hconnected), run_bind hrecv, hnil]
    rfl
  · rw [pollAll, pollBatch_eq hconnected hincoming hne]
    have hloop : Ends (pollBatchLoop maxEvents (chunk.toList.length + 1) (.new chunk.toList) .empty)
        (taken c chunk later) _ _ :=
      pollBatchLoop_link hframes (by rw [RawPacketFrameIter.rest_new, hchunk])
        (by rw [hchunk]; omega)
      (by simpa using hroom)
    have hlink : (taken c chunk later).link = c.link := rfl
    rw [Ends, hlink] at hloop
    split at hloop
    · rename_i events c' hrun
      rw [hrun]
      rcases hbatch : c.link.batch bufSize frames with ⟨r, l⟩
      rw [hbatch] at hloop
      simp only [Prod.map, BoundedVec.toList_empty, List.nil_append, Prod.mk.injEq] at hloop
      obtain ⟨hr, rfl⟩ := hloop
      rw [Option.map_id'] at hr
      simp [hr]
    · rename_i e c' hrun
      rw [hrun, hloop]
      rfl

/-! ## When the two agree -/

/-- The frame holds a packet that becomes no event. -/
def Silent (version : MqttVersion) (f : List UInt8) : Prop :=
  ∃ p, decode f version = .ok p ∧ p.bind MqttPacket.event = none

/-- Once an event has been seen, no frame fails; and behind a DISCONNECT there are silent frames
only. A frame fails if it cannot be decoded, or its packet cannot be acknowledged. -/
def Steady (size : ℕ) (version : MqttVersion) :
    Bool → List (Option E) → List (List UInt8) → Prop
  | _, _, [] => True
  | seen, results, f :: fs =>
    match decode f version with
    | .ok (some p) =>
      if p.Unanswered size results then seen = false
      else if p.event = some .disconnect then ∀ g ∈ fs, Silent version g
      else Steady size version (seen || p.event.isSome) (results.drop p.acks.length) fs
    | .ok none => Steady size version seen results fs
    | .error _ => seen = false

namespace Link
variable {size : ℕ} {l : Link E maxInflight} {p : MqttPacket}

/-- What an acknowledgement leaves. -/
theorem answer_spec (size : ℕ) (q : MqttPacket) (l : Link E maxInflight) :
    ((l.answer size q).1 = false ↔ size < 7 ∨ (l.sendResults.head?.bind fun r => r).isSome) ∧
      (l.answer size q).2.options = l.options ∧ (l.answer size q).2.state = l.state ∧
      ((l.answer size q).1 = true → (l.answer size q).2.sendResults = l.sendResults.drop 1) := by
  rw [answer]
  by_cases hsize : size < 7
  · simp [hsize]
  · rcases hresults : l.sendResults with _ | ⟨_ | e, results⟩ <;> simp [hsize]

/-- What an acknowledgement sends. -/
theorem sent_answer (size : ℕ) (q : MqttPacket) (l : Link E maxInflight) :
    (l.answer size q).2.sent =
      l.sent ++ if (l.answer size q).1 then [q.wire l.options.version] else [] := by
  rw [answer]
  by_cases hsize : size < 7
  · simp [hsize]
  · rcases hresults : l.sendResults with _ | ⟨_ | e, results⟩ <;> simp [hsize]

theorem acks_cases (p : MqttPacket) :
    p.acks = [] ∨ ∃ q, p.acks = [q] ∧ p.stateAfter l.state = l.state := by
  cases p with
  | publish p =>
    rcases hqos : p.qos with _ | _ | _ <;> rcases hid : p.packetId with _ | pid <;>
      simp [MqttPacket.acks, MqttPacket.stateAfter, hqos, hid]
  | pubRec rec => exact .inr ⟨_, rfl, rfl⟩
  | pubRel rel => exact .inr ⟨_, rfl, rfl⟩
  | _ => exact .inl rfl

/-- Handling a packet fails if and only if it cannot be acknowledged. -/
theorem handle_spec (size : ℕ) (p : MqttPacket) (l : Link E maxInflight) :
    ((l.handle size p).1 = false ↔ p.Unanswered size l.sendResults) ∧
      (l.handle size p).2.options = l.options ∧
      (l.handle size p).2.state = p.stateAfter l.state ∧
      ((l.handle size p).1 = true →
        (l.handle size p).2.sendResults = l.sendResults.drop p.acks.length) := by
  rw [handle, MqttPacket.Unanswered]
  rcases acks_cases (l := l) p with hacks | ⟨q, hacks, hstate⟩
  · simp [hacks, settle]
  · have hne : p.acks ≠ [] := by simp [hacks]
    by_cases hpublish : p.isPublish
    · obtain ⟨hfail, hoptions, hsame, hresults⟩ := answer_spec size q l
      simp only [hacks, hpublish, if_true]
      refine ⟨?_, ?_, ?_, ?_⟩
      · simpa using hfail
      · split <;> exact hoptions
      · rw [hstate]
        split <;> exact hsame
      · intro hdone
        rw [if_pos hdone]
        exact hresults hdone
    · obtain ⟨hfail, hoptions, hsame, hresults⟩ := answer_spec size q (l.settle p)
      simp only [hacks, hpublish]
      refine ⟨hfail.trans (by simp [settle]), hoptions, ?_, hresults⟩
      rw [hstate]
      exact hsame

/-- What handling a packet sends. -/
theorem sent_handle (size : ℕ) (p : MqttPacket) (l : Link E maxInflight) :
    (l.handle size p).2.sent =
      l.sent ++ if (l.handle size p).1 then ackBytes l.options.version [p] else [] := by
  rw [handle]
  rcases acks_cases (l := l) p with hacks | ⟨q, hacks, -⟩
  · simp [hacks, settle, ackBytes]
  · have hsent := sent_answer size q l
    have hsettled := sent_answer size q (l.settle p)
    by_cases hpublish : p.isPublish
    · simp only [hacks, hpublish, if_true]
      rcases hanswer : l.answer size q with ⟨_ | _, l'⟩
      · simpa [hanswer] using hsent
      · simpa [hanswer, settle, ackBytes, hacks] using hsent
    · simp only [hacks, hpublish, Bool.false_eq_true, if_false]
      rw [hsettled]
      simp only [settle, ackBytes, hacks, List.flatMap_singleton, List.map_singleton]
      rfl

/-- A silent packet changes nothing. -/
theorem handle_of_silent (h : p.event = none) : l.handle size p = (true, l) := by
  cases p with
  | connect | connAck | subscribe | unsubscribe | pingReq => rfl
  | _ => cases h

theorem frame_of_silent {f : List UInt8} (h : Silent l.options.version f) :
    l.frame size f = (some none, l) := by
  obtain ⟨_ | p, hdecode, hevent⟩ := h
  · rw [frame, hdecode]
  · rw [frame, hdecode]
    simp only [handle_of_silent hevent]
    simpa using hevent

/-- A frame that succeeds without an event is silent. -/
theorem silent_of_frame {f : List UInt8} {l' : Link E maxInflight}
    (h : l.frame size f = (some none, l')) : Silent l.options.version f := by
  rw [frame] at h
  split at h
  · rename_i p hdecode
    refine ⟨some p, hdecode, ?_⟩
    dsimp only at h
    split at h
    · exact (Prod.mk.inj h).1 |> Option.some.inj
    · cases h
  · rename_i hdecode
    exact ⟨none, hdecode, rfl⟩
  · cases h

/-- A batch without an event is one of silent frames. -/
theorem batch_eq_nil {fs : List (List UInt8)} :
    (l.batch size fs).1 = some [] ↔ ∀ f ∈ fs, Silent l.options.version f := by
  induction fs with
  | nil => simp [batch]
  | cons f fs ih =>
    rw [batch, List.forall_mem_cons]
    constructor
    · intro h
      rcases hframe : l.frame size f with ⟨_ | _ | event, l'⟩
      · simp [hframe] at h
      · have hsilent := silent_of_frame hframe
        rw [frame_of_silent hsilent, Prod.mk.injEq] at hframe
        obtain ⟨-, rfl⟩ := hframe
        rw [frame_of_silent hsilent] at h
        refine ⟨hsilent, ih.mp ?_⟩
        simpa using h
      · rw [hframe] at h
        rcases hbatch : (batch size fs l').1 <;> simp [hbatch] at h
    · intro h
      rw [frame_of_silent h.1]
      simpa using ih.mpr h.2

/-- A batch of silent frames changes nothing. -/
theorem batch_of_silent {fs : List (List UInt8)} (h : ∀ f ∈ fs, Silent l.options.version f) :
    l.batch size fs = (some [], l) := by
  induction fs with
  | nil => rfl
  | cons f fs ih =>
    rw [batch, frame_of_silent (h f (by simp))]
    simp [ih fun g hg => h g (by simp [hg])]

/-- Behind a DISCONNECT the polls end. -/
theorem polls_of_not (h : l.state ≠ .connected) (fs : List (List UInt8)) :
    l.polls size fs = ([], l) := by
  cases fs with
  | nil => rfl
  | cons f fs => rw [polls, if_pos h]

/-- A packet that succeeds leaves the connection as it was, unless it is a DISCONNECT. -/
theorem stateAfter_eq (p : MqttPacket) (state : ConnectionState) :
    p.stateAfter state = if p.event = some .disconnect then .disconnected else state := by
  cases p <;> simp [MqttPacket.stateAfter, MqttPacket.event]

variable (size) in
/-- What a frame does, in terms of its packet. -/
theorem frame_of_packet {f : List UInt8} (h : decode f l.options.version = .ok (some p)) :
    ((l.frame size f).1 = none ∧ p.Unanswered size l.sendResults) ∨
      ∃ l', l.frame size f = (some p.event, l') ∧ ¬ p.Unanswered size l.sendResults ∧
        l'.options = l.options ∧ l'.state = p.stateAfter l.state ∧
        l'.sendResults = l.sendResults.drop p.acks.length := by
  obtain ⟨hfail, hoptions, hstate, hresults⟩ := handle_spec size p l
  rw [frame, h]
  rcases hhandle : l.handle size p with ⟨_ | _, l'⟩
  · rw [hhandle] at hfail
    exact .inl ⟨by simp [hhandle], hfail.mp rfl⟩
  · rw [hhandle] at hfail hoptions hstate hresults
    exact .inr ⟨l', by simp [hhandle], by simpa using hfail, hoptions, hstate, hresults rfl⟩

variable (size) in
/-- The events of a batch behind the events `seen` are those of the polls if and only if the
frames are steady. -/
theorem events_iff (hconnected : l.state = .connected) (seen : List MqttEvent)
    (fs : List (List UInt8)) :
    ((l.batch size fs).1.map (seen ++ ·)).getD [] = seen ++ (l.polls size fs).1 ↔
      Steady size l.options.version (!seen.isEmpty) l.sendResults fs := by
  induction fs generalizing l seen with
  | nil => simp [batch, polls, Steady]
  | cons f fs ih =>
    rw [batch, polls, if_neg (by simp [hconnected]), Steady]
    rcases hdecode : decode f l.options.version with e | _ | p
    · rw [frame, hdecode]
      simp
    · rw [frame, hdecode]
      simpa using ih hconnected seen
    · rcases frame_of_packet size hdecode with
        ⟨hframe, hun⟩ | ⟨l', hframe, hun, hoptions, hstate, hresults⟩
      · rcases hres : l.frame size f with ⟨_ | _, l'⟩
        · simp [hun]
        · simp [hres] at hframe
      · rw [stateAfter_eq] at hstate
        rw [hframe]
        simp only [if_neg hun]
        by_cases hdisc : p.event = some .disconnect
        · rw [if_pos hdisc] at hstate
          rw [if_pos hdisc, hdisc, polls_of_not (by simp [hstate]), ← hoptions, ← batch_eq_nil]
          rcases batch size fs l' with ⟨_ | events, l''⟩ <;> simp
        · rw [if_neg hdisc, hconnected] at hstate
          have hrest := ih hstate (seen ++ p.event.toList)
          rw [hoptions, hresults] at hrest
          rw [if_neg hdisc]
          have hseen : (!(seen ++ p.event.toList).isEmpty) = (!seen.isEmpty || p.event.isSome) := by
            cases p.event <;> simp
          rw [hseen] at hrest
          simpa [Option.map_map, Function.comp_def, List.append_assoc] using hrest

/-- Steady frames leave the same behind. -/
theorem link_of_steady {seen : Bool} {fs : List (List UInt8)} (hconnected : l.state = .connected)
    (h : Steady size l.options.version seen l.sendResults fs) :
    (l.batch size fs).2 = (l.polls size fs).2 := by
  induction fs generalizing l seen with
  | nil => rfl
  | cons f fs ih =>
    rw [Steady] at h
    rw [batch, polls, if_neg (by simp [hconnected])]
    rcases hdecode : decode f l.options.version with e | _ | p
    · rw [frame, hdecode]
    · rw [hdecode] at h
      rw [frame, hdecode]
      exact ih hconnected h
    · rw [hdecode] at h
      dsimp only at h
      rcases frame_of_packet size hdecode with
        ⟨hframe, -⟩ | ⟨l', hframe, hun, hoptions, hstate, hresults⟩
      · rcases hres : l.frame size f with ⟨_ | _, l'⟩
        · rfl
        · simp [hres] at hframe
      · rw [if_neg hun] at h
        rw [stateAfter_eq] at hstate
        rw [hframe]
        by_cases hdisc : p.event = some .disconnect
        · rw [if_pos hdisc] at h hstate
          rw [← hoptions] at h
          dsimp only
          rw [polls_of_not (by simp [hstate]), batch_of_silent h]
          rfl
        · rw [if_neg hdisc] at h hstate
          rw [hconnected] at hstate
          rw [← hoptions, ← hresults] at h
          exact ih hstate h

end Link

/-! ## The two operations -/

/-- A batch that receives the frames at once comes to the same as polls that receive them one
after the other, each at its instant. -/
structure SameAsPolls (c : MqttClient E bufSize maxInflight)
    (frames : List (ℕ × BoundedVec UInt8 bufSize)) (chunk : BoundedVec UInt8 bufSize)
    (maxEvents : ℕ) : Prop where
  events : (pollAll maxEvents (withIncoming c [.ok chunk])).1 =
    (pollEach (frames.map (·.1)) (withIncoming c (frames.map fun f => .ok f.2))).1
  sent : (pollAll maxEvents (withIncoming c [.ok chunk])).2.transport.sent =
    (pollEach (frames.map (·.1)) (withIncoming c (frames.map fun f => .ok f.2))).2.transport.sent
  state : (pollAll maxEvents (withIncoming c [.ok chunk])).2.state =
    (pollEach (frames.map (·.1)) (withIncoming c (frames.map fun f => .ok f.2))).2.state
  inflight : (pollAll maxEvents (withIncoming c [.ok chunk])).2.inflight =
    (pollEach (frames.map (·.1)) (withIncoming c (frames.map fun f => .ok f.2))).2.inflight

/-- In a connected client, while no ping is due, a batch of complete frames is the successive
polls if and only if the frames are steady. -/
theorem sameAsPolls_iff {c : MqttClient E bufSize maxInflight}
    {frames : List (ℕ × BoundedVec UInt8 bufSize)} {chunk : BoundedVec UInt8 bufSize}
    {maxEvents : ℕ} (hconnected : c.state = .connected)
    (hframes : ∀ f ∈ frames, framing.IsFrame f.2.toList)
    (hchunk : chunk.toList = (frames.map fun f => f.2.toList).flatten)
    (hroom : frames.length ≤ maxEvents) (hdue : ∀ f ∈ frames, ¬ PingDue c f.1) :
    SameAsPolls c frames chunk maxEvents ↔
      Steady bufSize c.options.version false c.transport.sendResults
        (frames.map fun f => f.2.toList) := by
  have hne (f) (hf : f ∈ frames) : f.2.toList ≠ [] := by
    intro hnil
    have := hframes f hf
    rw [hnil] at this
    cases this
  have hlink (later : List (Except E (BoundedVec UInt8 bufSize))) :
      (withIncoming c later).link = c.link := rfl
  have hpolls := pollEach_link (c := withIncoming c (frames.map fun f => .ok f.2)) hne hdue rfl
  have hbatch : (pollAll maxEvents (withIncoming c [.ok chunk])).map (fun events => events) link = _ :=
    pollAll_link hconnected rfl (List.forall_mem_map.mpr hframes) hchunk (by simpa using hroom)
  rw [hlink] at hpolls hbatch
  have hevents := Link.events_iff bufSize (l := c.link) hconnected [] (frames.map fun f => f.2.toList)
  have hpollEvents := congrArg Prod.fst hpolls
  have hpollLink := congrArg Prod.snd hpolls
  have hbatchEvents := congrArg Prod.fst hbatch
  have hbatchLink := congrArg Prod.snd hbatch
  simp only [Prod.map] at hpollEvents hpollLink hbatchEvents hbatchLink
  simp only [List.nil_append, Option.map_id', ← hpollEvents, ← hbatchEvents] at hevents
  constructor
  · intro h
    exact hevents.mp h.events
  · intro h
    have hsame := Link.link_of_steady (l := c.link) hconnected h
    rw [← hpollLink, ← hbatchLink] at hsame
    exact ⟨hevents.mpr h, congrArg Link.sent hsame, congrArg Link.state hsame,
      congrArg Link.inflight hsame⟩

end

/-- A client that is connected over a transport whose sends do not fail. -/
def connectedClient : MqttClient Unit 64 4 :=
  { MqttClient.new ⟨[], [], []⟩ plainOptions 0 with state := .connected }

/-- A publish that is acknowledged, and a ping response. -/
theorem sameAsPolls_iff_two :
    SameAsPolls connectedClient [(0, ⟨[0x32, 5, 0, 1, 97, 0, 7], by decide⟩), (1, ⟨[0xD0, 0], by decide⟩)]
        ⟨[0x32, 5, 0, 1, 97, 0, 7, 0xD0, 0], by decide⟩ 2 ↔
      Steady 64 connectedClient.options.version false connectedClient.transport.sendResults
        [[0x32, 5, 0, 1, 97, 0, 7], [0xD0, 0]] := by
  apply sameAsPolls_iff
  · rfl
  · simp only [List.forall_mem_cons]
    exact ⟨by decide, by decide, by simp⟩
  · rfl
  · decide
  · simp only [List.forall_mem_cons, PingDue]
    exact ⟨by decide, by decide, by simp⟩

/-- The event of a ping response is lost when a frame follows that cannot be decoded. -/
theorem batch_loses_event :
    ¬ ∀ (c : MqttClient Unit 64 4) (frames : List (ℕ × BoundedVec UInt8 64))
      (chunk : BoundedVec UInt8 64) (maxEvents : ℕ), c.state = .connected →
      (∀ f ∈ frames, framing.IsFrame f.2.toList) →
      chunk.toList = (frames.map fun f => f.2.toList).flatten → frames.length ≤ maxEvents →
      (∀ f ∈ frames, ¬ PingDue c f.1) → SameAsPolls c frames chunk maxEvents := by
  intro hall
  have h := hall connectedClient [(0, ⟨[0xD0, 0], by decide⟩), (0, ⟨[0x00, 0], by decide⟩)]
    ⟨[0xD0, 0, 0x00, 0], by decide⟩ 2 rfl (by simp only [List.forall_mem_cons]; decide) rfl
    (by decide) (by simp only [List.forall_mem_cons, PingDue]; decide)
  have hevents := h.events
  revert hevents
  decide +kernel

end MqttEngine
