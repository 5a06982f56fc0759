import MqttEngine.Embedded.ConnectionStates
import MqttEngine.Lib.Machine

/-!
# The keep-alive that the embedded client advertises

The CONNECT carries the keep-alive in seconds, cut to 16 bits. `poll` goes by the duration itself:
it sends a PINGREQ when half of it has passed since `last_tx_time`. A run is put on a clock: calls
take no time, and while the client is connected time passes up to the instant at which half the
keep-alive has passed, and beyond it only after a call of `poll`. A call that waits for bytes may be
given up.

## Main definitions

* `TimedClient`, `TimedClient.step` — runs on a clock.
* `advertised`, `PingsInTime` — the keep-alive of the CONNECT, and what the broker expects.
* `Connectable` — the CONNECT can be sent.

## Main results

* `called_exec` — what a call does to `last_tx_time`.
* `sound_of_reaches` — the client transmits whenever half the keep-alive has passed.
* `pingsInTime` — when that is often enough for the keep-alive it has advertised.
-/

namespace MqttEngine
open Checked MqttClient ClientSystem

/-! ## Runs on a clock -/

/-- What happens: time passes, or there is a call, or a call that waits for bytes is given up. -/
inductive TimedCall (E : Type) (bufSize : ℕ)
  | wait (d : ℕ)
  | call (call : Call E bufSize)
  | abandon (call : ClientCall)

/-- It is a call of `poll`. -/
def ClientCall.isPoll : ClientCall → Bool
  | .poll _ => true
  | _ => false

/-- The client and the clock. -/
structure TimedClient (E : Type) (bufSize maxInflight : ℕ) where
  system : ClientSystem E bufSize maxInflight
  clock : ℕ
  /-- When a call of the client has last handed something to `send`. -/
  lastPacket : ℕ
  /-- `poll` has been called at the present instant. -/
  polled : Bool

namespace TimedClient
variable {E : Type} {bufSize maxInflight : ℕ}

/-- A new client, at the instant `now`. -/
def start (options : MqttOptions) (incoming : List (Except E (BoundedVec UInt8 bufSize)))
    (now : ℕ) : TimedClient E bufSize maxInflight :=
  { system := .start options incoming now, clock := now, lastPacket := now, polled := false }

/-- The client of a state. -/
def client (self : TimedClient E bufSize maxInflight) : MqttClient E bufSize maxInflight :=
  self.system.client

/-- Half the keep-alive. -/
def half (self : TimedClient E bufSize maxInflight) : ℕ := self.client.options.keepAlive / 2

/-- Time may pass: up to the instant at which `poll` has to be called, and beyond it if `poll` has
been called. -/
def Waits (self : TimedClient E bufSize maxInflight) (d : ℕ) : Prop :=
  self.client.state = .connected →
    self.clock + d ≤ self.client.lastTxTime + self.half ∨
      self.polled ∧ self.half ≤ self.clock - self.client.lastTxTime

instance (self : TimedClient E bufSize maxInflight) (d : ℕ) : Decidable (self.Waits d) := by
  unfold Waits
  infer_instance

/-- A call reads the present instant from the clock. -/
def OnTime (self : TimedClient E bufSize maxInflight) (call : ClientCall) : Prop :=
  ∀ now ∈ call.now, now = self.clock

instance (self : TimedClient E bufSize maxInflight) (call : ClientCall) :
    Decidable (self.OnTime call) := by
  unfold OnTime
  infer_instance

/-- The state after a call of the client. -/
def after (self : TimedClient E bufSize maxInflight) (call : ClientCall)
    (system : ClientSystem E bufSize maxInflight) : TimedClient E bufSize maxInflight :=
  { self with
    system
    lastPacket := if newlySent self.client system.client = [] then self.lastPacket else self.clock
    polled := self.polled || call.isPoll }

def step (self : TimedClient E bufSize maxInflight) :
    TimedCall E bufSize → Option (TimedClient E bufSize maxInflight)
  | .wait d =>
    if self.Waits d then
      some { self with clock := self.clock + d, polled := self.polled && d = 0 }
    else none
  | .call (.client call) =>
    if self.OnTime call then (self.system.step (.client call)).map (self.after call) else none
  | .call call => (self.system.step call).map fun system => { self with system }
  | .abandon call =>
    if self.OnTime call then
      match self.system.writer, call.exec self.client with
      | none, .error .diverge client =>
        some (self.after call (self.system.afterClient call false none client))
      | _, _ => none
    else none

/-- What is reached from a new client. -/
def Reached (options : MqttOptions) (t : TimedClient E bufSize maxInflight) : Prop :=
  ∃ (incoming : List (Except E (BoundedVec UInt8 bufSize))) (now : ℕ),
    Machine.Reaches step (fun _ _ => True) (start options incoming now) t

end TimedClient

/-- The keep-alive of the CONNECT, in seconds. -/
def advertised (options : MqttOptions) : ℕ := (connectPacket options).keepAlive.toNat

/-- While the client is connected, it hands something to `send` within one and a half times the
keep-alive that it has advertised; and it advertises none only if its keep-alive is below a
second. -/
structure PingsInTime (E : Type) (bufSize maxInflight : ℕ) (options : MqttOptions) : Prop where
  inTime : ∀ t : TimedClient E bufSize maxInflight, t.Reached options →
    t.client.state = .connected → 0 < advertised options →
      2 * (t.clock - t.lastPacket) ≤ 3 * (advertised options * 1000000)
  enabled : advertised options = 0 → options.keepAlive < 1000000

/-- The CONNECT fits into the transmit buffer. -/
def Connectable (bufSize : ℕ) (options : MqttOptions) : Prop :=
  (MqttPacket.connect (connectPacket options)).Fits options.version bufSize ∧
    ((MqttPacket.connect (connectPacket options)).encoded options.version).length ≤ bufSize

instance (bufSize : ℕ) (options : MqttOptions) : Decidable (Connectable bufSize options) :=
  inferInstanceAs (Decidable (_ ∧ _))

section
variable {E : Type} {bufSize maxInflight : ℕ} {c c₀ s : MqttClient E bufSize maxInflight}
  {now : ℕ}

/-! ## What a call does to the time of the last transmission -/

/-- From one client to the other `last_tx_time` has been set to `now` only if something has been
sent. -/
structure Restamped (now : ℕ) (c c' : MqttClient E bufSize maxInflight) : Prop where
  options : c'.options = c.options
  grown : c.transport.sent.length ≤ c'.transport.sent.length
  stamp : c'.lastTxTime = c.lastTxTime ∨
    c'.lastTxTime = now ∧ c.transport.sent.length < c'.transport.sent.length

theorem carried_restamped : Carried (Restamped now c₀) := by
  apply carried_of_frame
  intro s s' hoptions hlast hgrown _ hs
  refine ⟨hoptions.trans hs.options, hs.grown.trans hgrown, ?_⟩
  rcases hs.stamp with hsame | ⟨hnow, hlt⟩
  · exact .inl (hlast.trans hsame)
  · exact .inr ⟨hlast.trans hnow, hlt.trans_le hgrown⟩

theorem stamped_restamped (bytes : List UInt8) : Stamped (Restamped now c₀) now (send bytes) := by
  intro s hs
  rw [Ends, send]
  have hsent : Restamped now c₀ { s with
      transport := { s.transport with sent := s.transport.sent ++ [bytes] }, lastTxTime := now } :=
    ⟨hs.options, hs.grown.trans (by simp),
      .inr ⟨rfl, hs.grown.trans_lt (by simp)⟩⟩
  rcases s.transport.sendResults with _ | ⟨_ | e, later⟩
  · exact ⟨hsent.options, hsent.grown, hsent.stamp⟩
  · exact ⟨hsent.options, hsent.grown, hsent.stamp⟩
  · exact ⟨hs.options, hs.grown, hs.stamp⟩

/-- The client is not connected. -/
def Unconnected (c : MqttClient E bufSize maxInflight) : Prop := c.state ≠ .connected

theorem carried_unconnected : Carried (Unconnected : MqttClient E bufSize maxInflight → Prop) :=
  carried_of_frame fun _ _ _ _ _ hstate hs hconnected => hs (hstate hconnected)

theorem stamped_unconnected (bytes : List UInt8) :
    Stamped (Unconnected : MqttClient E bufSize maxInflight → Prop) now (send bytes) := by
  intro s hs
  exact (carried_unconnected.sent bytes s hs).mono (fun _ _ hs' => hs') fun _ _ hs' => hs'

theorem carried_lastTx (last : ℕ) :
    Carried (fun c : MqttClient E bufSize maxInflight => c.lastTxTime = last) :=
  carried_of_frame fun _ _ _ hlast _ _ hs => hlast.trans hs

/-! ### `connect` -/

/-- A CONNECT that has been sent fits. -/
theorem connectable_of_connect {c' : MqttClient E bufSize maxInflight}
    (h : connect now c = .ok () c') : Connectable bufSize c.options := by
  have hbare : ¬ (connectOf c).Bare := by simp [MqttPacket.Bare, connectOf]
  rw [connect_eq] at h
  obtain ⟨_, s', hsend, -⟩ := ok_of_bind h
  by_contra hunfit
  by_cases hfits : (connectOf c).Fits c.options.version bufSize
  · obtain ⟨s'', hpanics⟩ := sendPacket_panics (s := { c with state := .connecting }) hbare hfits
      (Nat.lt_of_not_le fun hle => hunfit ⟨hfits, hle⟩)
    cases hpanics.symm.trans hsend
  · obtain ⟨e, tx, hrefused⟩ := sendPacket_refused (s := { c with state := .connecting })
      (p := connectOf c) (content_connect _ _) hbare hfits
    cases hrefused.symm.trans hsend

/-- The answer to a CONNECT does not change the time of the transmission. -/
theorem ends_finishConnect {n : ℕ}
    (hs : (Restamped now c₀ s ∧ Unconnected s) ∧ s.lastTxTime = now) :
    Ends (finishConnect n) s (fun _ s' => Restamped now c₀ s' ∧ s'.lastTxTime = now)
      fun _ s' => Restamped now c₀ s' ∧ Unconnected s' := by
  have hrefuse (e : MqttError E) {s : MqttClient E bufSize maxInflight}
      (hs : (Restamped now c₀ s ∧ Unconnected s) ∧ s.lastTxTime = now) :
      Ends (do setState .disconnected; fail e : ClientM E bufSize maxInflight Unit) s
        (fun _ s' => Restamped now c₀ s' ∧ s'.lastTxTime = now)
        fun _ s' => Restamped now c₀ s' ∧ Unconnected s' :=
    Ends.bind ((carried_restamped.and carried_unconnected).disconnected s hs.1)
  unfold finishConnect
  apply Ends.ite
  · intro _
    exact hrefuse _ hs
  · intro _
    apply Ends.bind
    refine (preserves_decodeRx (I := fun s => (Restamped now c₀ s ∧ Unconnected s) ∧
      s.lastTxTime = now) n s hs).mono ?_ fun _ _ hs' => hs'.1
    intro packet s' hs'
    split
    · apply Ends.ite
      · intro _
        exact ⟨⟨hs'.1.1.options, hs'.1.1.grown, hs'.1.1.stamp⟩, hs'.2⟩
      · intro _
        exact hrefuse _ hs'
    · exact hrefuse _ hs'

/-- `connect` sets the time, unless it fails; then the client is not connected. -/
theorem ends_connect (c : MqttClient E bufSize maxInflight) (now : ℕ) :
    Ends (connect now) c (fun _ c' => Restamped now c c' ∧ c'.lastTxTime = now)
      fun _ c' => Restamped now c c' ∧ Unconnected c' := by
  have hcarried : Carried fun s => Restamped now c s ∧ Unconnected s :=
    carried_restamped.and carried_unconnected
  have hconnecting : Restamped now c { c with state := .connecting } ∧
      Unconnected { c with state := .connecting } :=
    ⟨⟨rfl, le_rfl, .inl rfl⟩, by simp [Unconnected]⟩
  have hsend := stamped_sendPacket
    (fun bytes => (stamped_restamped bytes).and (stamped_unconnected bytes)) hcarried (connectOf c)
    _ hconnecting
  rw [Ends, connect_eq]
  apply Ends.bind
  refine hsend.mono ?_ fun _ _ hs' => hs'
  intro _ s' hs'
  apply Ends.bind
  apply Ends.modify
  apply Ends.bind
  refine ((hcarried.and (carried_lastTx now)).received _ ⟨hs', rfl⟩).mono ?_ fun _ _ hs => hs.1
  intro n s hs
  exact ends_finishConnect hs

/-! ### `poll` -/

/-- Half the keep-alive has not passed, or the time has been set. -/
theorem ends_poll (hready : Ready c) (hconnected : c.state = .connected) (now : ℕ) :
    Ends (poll now) c
      (fun _ c' => c'.lastTxTime = now ∨ now - c'.lastTxTime < c.options.keepAlive / 2)
      fun _ c' => c'.lastTxTime = now ∨ now - c'.lastTxTime < c.options.keepAlive / 2 := by
  have hcarried : Carried fun s : MqttClient E bufSize maxInflight =>
      s.lastTxTime = now ∨ now - s.lastTxTime < c.options.keepAlive / 2 := by
    apply carried_of_frame
    intro s s' _ hlast _ _ hs
    rwa [hlast]
  obtain ⟨s, hping, -⟩ := pingIfDue_spec hready.sendResults (hready.room hconnected) now
  have hs : s.lastTxTime = now ∨ now - s.lastTxTime < c.options.keepAlive / 2 := by
    rw [pingIfDue_eq] at hping
    split at hping
    · obtain ⟨_, s', -, hlast⟩ := ok_of_bind hping
      cases hlast
      exact .inl rfl
    · rename_i hnot
      cases hping
      exact .inr (Nat.lt_of_not_le hnot)
  apply Ends.bind
  rw [Ends, requireConnected_of_connected hconnected]
  apply Ends.bind
  rw [Ends, hping]
  exact carried_receive hcarried s hs

/-! ### All calls -/

/-- What a call at the instant `now` does to the time of the last transmission. -/
structure Called (call : ClientCall) (now : ℕ) (c c' : MqttClient E bufSize maxInflight) :
    Prop where
  ready : Ready c'
  restamped : Restamped now c c'
  connected : c'.state = .connected →
    c.state = .connected ∨ c'.lastTxTime = now ∧ Connectable bufSize c.options
  polled : call.isPoll → c.state = .connected →
    c'.lastTxTime = now ∨ now - c'.lastTxTime < c.options.keepAlive / 2

theorem called_exec (hready : Ready c) (call : ClientCall) (hnow : ∀ n ∈ call.now, n = now) :
    Ends call.exec c (fun _ c' => Called call now c c') fun _ c' => Called call now c c' := by
  have hready' := ready_exec call c hready
  by_cases hconnect : ∃ n, call = .connect n
  · obtain ⟨n, rfl⟩ := hconnect
    obtain rfl : n = now := hnow n rfl
    have hends : Ends (ClientCall.connect n).exec c
        (fun _ c' => Ready c' → Called (.connect n) n c c')
        fun _ c' => Ready c' → Called (.connect n) n c c' := by
      rw [Ends, ClientCall.exec]
      rcases hrun : connect n c with ⟨_, c'⟩ | ⟨e, c'⟩
      · have hends := (ends_connect c n).ok_of hrun
        rw [run_bind hrun]
        exact fun hr => ⟨hr, hends.1, fun _ => .inr ⟨hends.2, connectable_of_connect hrun⟩,
          fun hpoll => by cases hpoll⟩
      · have hends := (ends_connect c n).error_of hrun
        rw [run_bind_error hrun]
        exact fun hr => ⟨hr, hends.1, fun hconnected => absurd hconnected hends.2,
          fun hpoll => by cases hpoll⟩
    exact (hready'.and hends).mono (fun _ _ h => h.2 h.1) fun _ _ h => h.2 h.1
  · have hcall : ∀ n, call ≠ .connect n := by simpa using hconnect
    have hrestamped : Ends call.exec c (fun _ c' => Restamped now c c')
        fun _ c' => Restamped now c c' := by
      apply carried_exec ?_ (preserves_trackOutbound ?_) carried_restamped call hcall ?_ c
        ⟨rfl, le_rfl, .inl rfl⟩
      · exact fun s hs => ⟨hs.options, hs.grown, hs.stamp⟩
      · exact fun s _ hs => ⟨hs.options, hs.grown, hs.stamp⟩
      · rintro n hn
        rw [hnow n hn]
        exact stamped_restamped
    have hstate : Ends call.exec c (fun _ c' => c'.state = .connected → c.state = .connected)
        fun _ c' => c'.state = .connected → c.state = .connected := by
      by_cases hc : c.state = .connected
      · exact Ends.trivial.mono (fun _ _ _ _ => hc) fun _ _ _ _ => hc
      · exact (carried_exec (fun _ hs => hs) (preserves_trackOutbound fun _ _ hs => hs)
          carried_unconnected call hcall (fun _ _ => stamped_unconnected) c hc).mono
          (fun _ _ hs' hconnected => absurd hconnected hs') fun _ _ hs' hconnected =>
            absurd hconnected hs'
    have hpolled : Ends call.exec c
        (fun _ c' => call.isPoll → c.state = .connected →
          c'.lastTxTime = now ∨ now - c'.lastTxTime < c.options.keepAlive / 2)
        fun _ c' => call.isPoll → c.state = .connected →
          c'.lastTxTime = now ∨ now - c'.lastTxTime < c.options.keepAlive / 2 := by
      by_cases hc : c.state = .connected
      · cases call with
        | poll n =>
          obtain rfl : n = now := hnow n rfl
          apply Ends.bind
          exact (ends_poll hready hc n).mono (fun _ _ hs' _ _ => hs') fun _ _ hs' _ _ => hs'
        | _ => exact Ends.trivial.mono (fun _ _ _ h => by cases h) fun _ _ _ h => by cases h
      · exact Ends.trivial.mono (fun _ _ _ _ h => absurd h hc) fun _ _ _ _ h => absurd h hc
    exact (hready'.and (hrestamped.and (hstate.and hpolled))).mono
      (fun _ _ h => ⟨h.1, h.2.1, fun hc => .inl (h.2.2.1 hc), h.2.2.2⟩)
      fun _ _ h => ⟨h.1, h.2.1, fun hc => .inl (h.2.2.1 hc), h.2.2.2⟩

/-! ## Runs -/

namespace TimedClient
variable {t t' : TimedClient E bufSize maxInflight} {options : MqttOptions}

/-- The time of the last transmission is not ahead of what has been sent, and a connected client is
never late. -/
structure Sound (options : MqttOptions) (t : TimedClient E bufSize maxInflight) : Prop where
  ready : Ready t.client
  asMade : t.client.options = options
  stamped : t.client.lastTxTime ≤ t.lastPacket
  past : t.lastPacket ≤ t.clock
  onTime : t.client.state = .connected → 0 < options.keepAlive / 2 →
    t.clock ≤ t.client.lastTxTime + options.keepAlive / 2 ∧
      (t.polled → t.clock < t.client.lastTxTime + options.keepAlive / 2)
  connectable : t.client.state = .connected → Connectable bufSize options

theorem lastPacket_after (call : ClientCall) (system : ClientSystem E bufSize maxInflight) :
    (t.after call system).lastPacket =
      if system.client.transport.sent.length ≤ t.client.transport.sent.length then t.lastPacket
      else t.clock := by
  simp only [after, newlySent, List.drop_eq_nil_iff]

theorem sound_after {call : ClientCall} {system : ClientSystem E bufSize maxInflight}
    (h : t.Sound options) (hcall : Called call t.clock t.client system.client) :
    (t.after call system).Sound options := by
  have hlast := lastPacket_after (t := t) call system
  have hpast : (t.after call system).lastPacket ≤ t.clock := by
    rw [hlast]
    split
    · exact h.past
    · exact le_rfl
  refine ⟨hcall.ready, hcall.restamped.options.trans h.asMade, ?_, hpast, ?_, ?_⟩
  · change system.client.lastTxTime ≤ _
    rw [hlast]
    have hbefore := h.stamped.trans h.past
    rcases hcall.restamped.stamp with hsame | ⟨hnow, hlt⟩
    · rw [hsame]
      split
      · exact h.stamped
      · exact hbefore
    · rw [hnow, if_neg (Nat.not_le_of_lt hlt)]
  · intro hconnected hpos
    change t.clock ≤ system.client.lastTxTime + _ ∧
      ((t.polled || call.isPoll) = true → t.clock < system.client.lastTxTime + _)
    rcases hcall.connected hconnected with hbefore | ⟨hnow, -⟩
    · obtain ⟨hclock, hpolled⟩ := h.onTime hbefore hpos
      rcases hcall.restamped.stamp with hsame | ⟨hnow, -⟩
      · rw [hsame]
        refine ⟨hclock, fun hp => ?_⟩
        rcases Bool.or_eq_true_iff.mp hp with hp | hp
        · exact hpolled hp
        · have hends := hcall.polled hp hbefore
          rw [hsame, h.asMade] at hends
          omega
      · omega
    · omega
  · intro hconnected
    rcases hcall.connected hconnected with hbefore | ⟨-, hfits⟩
    · exact h.connectable hbefore
    · rwa [h.asMade] at hfits

/-- What leaves the client as it is, but for its transport, keeps the promise. -/
theorem sound_same {system : ClientSystem E bufSize maxInflight} (h : t.Sound options)
    (hsystem : Ready system.client ∧ system.client.options = t.client.options ∧
      system.client.lastTxTime = t.client.lastTxTime ∧ system.client.state = t.client.state) :
    ({ t with system } : TimedClient E bufSize maxInflight).Sound options := by
  obtain ⟨hready, hoptions, hlast, hstate⟩ := hsystem
  refine ⟨hready, hoptions.trans h.asMade, hlast.trans_le h.stamped, h.past, ?_, ?_⟩
  · intro hconnected
    change _ → t.clock ≤ system.client.lastTxTime + _ ∧
      (_ → t.clock < system.client.lastTxTime + _)
    rw [hlast]
    exact h.onTime (hstate.symm.trans hconnected)
  · exact fun hconnected => h.connectable (hstate.symm.trans hconnected)

theorem sound_wait {d : ℕ} (h : t.Sound options) (hwaits : t.Waits d) :
    ({ t with clock := t.clock + d, polled := t.polled && d = 0 } :
      TimedClient E bufSize maxInflight).Sound options := by
  refine ⟨h.ready, h.asMade, h.stamped, h.past.trans (Nat.le_add_right _ _), ?_, h.connectable⟩
  intro hconnected hpos
  change t.clock + d ≤ t.client.lastTxTime + _ ∧
    ((t.polled && decide (d = 0)) = true → t.clock + d < t.client.lastTxTime + _)
  obtain ⟨-, hpolled⟩ := h.onTime hconnected hpos
  have hhalf : t.half = options.keepAlive / 2 := by rw [half, h.asMade]
  have hwaits := hwaits hconnected
  rw [hhalf] at hwaits
  constructor
  · rcases hwaits with hle | ⟨hp, hdue⟩
    · exact hle
    · have hearly := hpolled hp
      omega
  · intro hp
    simp only [Bool.and_eq_true, decide_eq_true_eq] at hp
    have hearly := hpolled hp.1
    omega

theorem sound_step {action : TimedCall E bufSize} (h : t.Sound options)
    (hstep : t.step action = some t') : t'.Sound options := by
  have hquiet (call : Call E bufSize) {system : ClientSystem E bufSize maxInflight}
      (hcall : ∀ call', call ≠ .client call') (hrun : t.system.step call = some system) :
      ({ t with system } : TimedClient E bufSize maxInflight).Sound options := by
    apply sound_same h
    refine step_keeps (I := fun c => Ready c ∧ c.options = t.client.options ∧
      c.lastTxTime = t.client.lastTxTime ∧ c.state = t.client.state) ?_ ?_
      (fun call' hc => absurd hc (hcall call')) ⟨h.ready, rfl, rfl, rfl⟩ hrun
    · intro bytes s hs
      rw [Ends, send_of_ok hs.1.sendResults]
      exact ⟨⟨sendsOk_afterSend hs.1.sendResults _ bytes, hs.1.room⟩, hs.2⟩
    · exact fun c incoming hc => ⟨⟨hc.1.sendResults, hc.1.room⟩, hc.2⟩
  cases action with
  | wait d =>
    rw [step] at hstep
    split at hstep
    · rename_i hwaits
      cases hstep
      exact sound_wait h hwaits
    · cases hstep
  | call call =>
    cases call with
    | client call =>
      rw [step] at hstep
      split at hstep
      · rename_i hnow
        obtain ⟨system, hsystem, rfl⟩ := Option.map_eq_some_iff.mp hstep
        apply sound_after h
        have hexec := called_exec h.ready call hnow
        obtain ⟨-, ⟨writer, client, hrun, rfl⟩ | ⟨e, client, hrun, rfl⟩⟩ := step_client hsystem
        · rw [client_afterClient]
          exact hexec.ok_of hrun
        · rw [client_afterClient]
          exact hexec.error_of hrun
      · cases hstep
    | writer call =>
      obtain ⟨system, hsystem, rfl⟩ := Option.map_eq_some_iff.mp hstep
      exact hquiet _ (by simp) hsystem
    | receive result =>
      cases hstep
      exact hquiet (.receive result) (by simp) rfl
  | abandon call =>
    rw [step] at hstep
    split at hstep
    · rename_i hnow
      split at hstep
      · rename_i client _ hrun
        cases hstep
        apply sound_after h
        rw [client_afterClient]
        exact (called_exec h.ready call hnow).error_of hrun
      · cases hstep
    · cases hstep

/-- In every run the client transmits whenever half the keep-alive has passed. -/
theorem sound_of_reached (h : t.Reached options) : t.Sound options := by
  obtain ⟨incoming, now, hreaches⟩ := h
  apply hreaches.invariant
  · have hstart : (start options incoming now : TimedClient E bufSize maxInflight).client.state ≠
        .connected := by
      simp [start, client, ClientSystem.start, MqttClient.new]
    have hready : Ready (start options incoming now : TimedClient E bufSize maxInflight).client :=
      ⟨fun _ hr => absurd hr List.not_mem_nil, fun h => absurd h hstart⟩
    exact ⟨hready, rfl, le_rfl, le_rfl, fun h => absurd h hstart, fun h => absurd h hstart⟩
  · exact fun s t action hs _ hstep => sound_step hs hstep

end TimedClient

/-! ## The advertised keep-alive -/

theorem advertised_eq (options : MqttOptions) :
    advertised options = options.keepAlive / 1000000 % 65536 := by
  simp [advertised, connectPacket, Connect.new, UInt16.toNat_ofNat']

/-- A keep-alive that 16 bits of seconds can hold is advertised without loss, but for the fraction
of a second. -/
theorem half_le_of_lt {options : MqttOptions} (hlt : options.keepAlive < 65536 * 1000000)
    (hpos : 0 < advertised options) :
    2 * (options.keepAlive / 2) ≤ 3 * (advertised options * 1000000) := by
  rw [advertised_eq] at hpos ⊢
  omega

/-- A CONNACK that accepts the connection, of the version. -/
def acceptance : MqttVersion → List UInt8
  | .v5 => [0x20, 0x03, 0x00, 0x00, 0x00]
  | _ => [0x20, 0x02, 0x00, 0x00]

theorem decode_acceptance (version : MqttVersion) :
    decode (acceptance version) version = .ok (some (.connAck ⟨false, 0, .empty⟩)) := by
  cases version <;> rfl

/-- A broker that accepts the connection connects a client whose CONNECT fits. -/
theorem connect_accepted {chunk : BoundedVec UInt8 bufSize}
    {later : List (Except E (BoundedVec UInt8 bufSize))} (hfits : Connectable bufSize c.options)
    (hsend : c.transport.sendResults = []) (hincoming : c.transport.incoming = .ok chunk :: later)
    (hchunk : chunk.toList = acceptance c.options.version) (now : ℕ) :
    ∃ c', connect now c = .ok () c' ∧ c'.state = .connected := by
  obtain ⟨tx, hsent⟩ := sendPacket_encoded (s := { c with state := .connecting })
    (p := connectOf c) hfits.1 hfits.2 hsend
  rw [connect_eq, run_bind hsent]
  let s : MqttClient E bufSize maxInflight :=
    { ({ c with state := .connecting } : MqttClient E bufSize maxInflight).afterSend tx []
        ((connectOf c).encoded c.options.version) with lastTxTime := now }
  have hrecv : recv s = .ok chunk.toList.length { taken s chunk later with rxLen := s.rxLen } := by
    have hs : s.transport.incoming = .ok chunk :: later := hincoming
    simp only [recv, hs, taken]
  change ∃ c', (recv >>= finishConnect) s = .ok () c' ∧ c'.state = .connected
  have hsome : chunk.toList.length ≠ 0 := by
    rw [hchunk]
    cases c.options.version <;> simp [acceptance]
  rw [run_bind hrecv, finishConnect, if_neg hsome]
  have hdecode := decodeRx_of_range (s := { taken s chunk later with rxLen := s.rxLen })
    (range_rxBuffer s chunk later)
  rw [hchunk] at hdecode
  change _ = lift (decode (acceptance c.options.version) c.options.version) _ at hdecode
  rw [decode_acceptance, ← hchunk] at hdecode
  have haccepted : decodeRx chunk.toList.length { taken s chunk later with rxLen := s.rxLen } =
      .ok (some (.connAck ⟨false, 0, .empty⟩)) { taken s chunk later with rxLen := s.rxLen } :=
    hdecode
  rw [run_bind haccepted]
  exact ⟨_, rfl, rfl⟩

/-- A client that connects and has nothing to send is silent for half its keep-alive. -/
theorem exists_silent (E : Type) (maxInflight : ℕ) {options : MqttOptions}
    (hfits : Connectable bufSize options) :
    ∃ t : TimedClient E bufSize maxInflight, t.Reached options ∧ t.client.state = .connected ∧
      t.clock - t.lastPacket = options.keepAlive / 2 := by
  have hroom : (acceptance options.version).length ≤ bufSize := by
    have hle := hfits.1.2
    simp only [MqttPacket.room] at hle
    have hshort : (acceptance options.version).length ≤ 5 := by
      cases options.version <;> simp [acceptance]
    omega
  let t₀ : TimedClient E bufSize maxInflight := .start options [.ok ⟨_, hroom⟩] 0
  obtain ⟨c', hrun, hconnected⟩ := connect_accepted (c := t₀.client) hfits rfl rfl rfl 0
  let t₁ := t₀.after (.connect 0) (t₀.system.afterClient (.connect 0) true none c')
  have hstep₁ : t₀.step (.call (.client (.connect 0))) = some t₁ := by
    have hnow : t₀.OnTime (.connect 0) := by
      intro n hn
      cases hn
      rfl
    have hexec : (ClientCall.connect 0).exec t₀.system.client = .ok none c' := by
      change (connect 0 >>= fun _ => pure none) t₀.client = _
      rw [run_bind hrun]
      rfl
    rw [TimedClient.step, if_pos hnow, ClientSystem.step, if_neg (by simp [t₀, TimedClient.start,
      ClientSystem.start]), hexec]
    rfl
  have hreached₁ : t₁.Reached options := ⟨_, _, .single ⟨_, trivial, hstep₁⟩⟩
  have hhalf : t₁.half = options.keepAlive / 2 := by
    rw [TimedClient.half, (TimedClient.sound_of_reached hreached₁).asMade]
  have hwaits : t₁.Waits (options.keepAlive / 2) := by
    intro _
    rw [hhalf]
    exact .inl (Nat.add_le_add_right (Nat.zero_le _) _)
  have hlast : t₁.lastPacket = 0 := by
    rw [TimedClient.lastPacket_after]
    split
    · rfl
    · rfl
  refine ⟨_, ⟨_, _, .tail (.single ⟨_, trivial, hstep₁⟩)
    ⟨.wait (options.keepAlive / 2), trivial, if_pos hwaits⟩⟩, hconnected, ?_⟩
  change 0 + options.keepAlive / 2 - t₁.lastPacket = _
  rw [hlast]
  omega

theorem pingsInTime_of_le {options : MqttOptions}
    (hgap : 0 < advertised options → Connectable bufSize options →
      2 * (options.keepAlive / 2) ≤ 3 * (advertised options * 1000000))
    (henabled : advertised options = 0 → options.keepAlive < 1000000) :
    PingsInTime E bufSize maxInflight options where
  inTime t ht hconnected hpos := by
    have hsound := TimedClient.sound_of_reached ht
    have hle := hgap hpos (hsound.connectable hconnected)
    rcases Nat.eq_zero_or_pos (options.keepAlive / 2) with hzero | hhalf
    · rw [advertised_eq] at hpos
      omega
    · have hclock := (hsound.onTime hconnected hhalf).1
      have hstamped := hsound.stamped
      omega
  enabled := henabled

end

/-- **When the client keeps the promise of its CONNECT.** Its keep-alive is below 65536 seconds, or
what 16 bits leave of the seconds happens to be long enough for half of it; or something is left,
and the CONNECT does not fit. -/
theorem pingsInTime {E : Type} {bufSize maxInflight : ℕ} (options : MqttOptions) :
    PingsInTime E bufSize maxInflight options ↔
      options.keepAlive < 65536 * 1000000 ∨
      2 * (options.keepAlive / 2) ≤ 3 * (options.keepAlive / 1000000 % 65536 * 1000000) ∨
      options.keepAlive / 1000000 % 65536 ≠ 0 ∧ ¬ Connectable bufSize options := by
  have hadvertised := advertised_eq options
  constructor
  · intro h
    by_contra! hnot
    obtain ⟨hlong, hlate, hconnectable⟩ := hnot
    by_cases hzero : options.keepAlive / 1000000 % 65536 = 0
    · have henabled := h.enabled (hadvertised.trans hzero)
      omega
    · obtain ⟨t, hreached, hconnected, hgap⟩ :=
        exists_silent E maxInflight (hconnectable hzero)
      have hle := h.inTime t hreached hconnected (by omega)
      rw [hgap, hadvertised] at hle
      omega
  · intro h
    apply pingsInTime_of_le
    · intro hpos hfits
      rcases h with hlt | hle | ⟨-, hunfit⟩
      · exact half_le_of_lt hlt hpos
      · rwa [hadvertised]
      · exact absurd hfits hunfit
    · intro hzero
      omega

/-- The options of a client with a keep-alive of 65537 seconds: it advertises one second. -/
def slowOptions : MqttOptions := { plainOptions with keepAlive := 65537 * 1000000 }

/-- Its first PINGREQ comes after nine hours. -/
theorem not_pingsInTime_slow : ¬ PingsInTime Unit 64 4 slowOptions := by
  intro h
  obtain ⟨t, hreached, hconnected, hgap⟩ :=
    exists_silent Unit 4 (show Connectable 64 slowOptions by decide +kernel)
  have hone : advertised slowOptions = 1 := by decide
  have hle := h.inTime t hreached hconnected (hone.symm ▸ Nat.one_pos)
  rw [hgap, hone] at hle
  exact absurd hle (by decide)

end MqttEngine
