import MqttEngine.Tokio.InflightPublishes
import MqttEngine.Tokio.Recovery

/-!
# The order in which publishes are resent

MQTT asks that the publishes on one topic be resent in the order in which they were sent. The
history of a run has that order, and of two publishes in flight one was sent before the other
(`before_or_before`). The loop, however, keeps only a hash map of them, which yields its entries
in any order (`HashOrder.exists_entries_eq`). So the order is right under every iteration order
exactly when no two publishes on one topic are resent.

## Main definitions

* `InSendOrder` — what has been written is in the order of the history.
* `ResendsInOrder` — every reconnect resends in that order.
* `EventLoop.OnePerTopic` — no two publishes on one topic are resent.

## Main results

* `resendsInOrder_iff` — when publishes are resent in order.
* `resends_out_of_order` — a run after which they are not.
-/

namespace MqttEngine.Tokio
open Checked Conn EventLoop

/-! ## Orders of a hash map -/

/-- A hash map may yield its entries in any order. -/
theorem HashOrder.exists_entries_eq {α : Type} {l l' : List α} (h : l'.Perm l) :
    ∃ order : HashOrder, order.entries l = l' := by
  classical
  let entries {γ : Type} (m : List γ) : List γ :=
    if heq : (⟨γ, m⟩ : (γ : Type) × List γ) = ⟨α, l⟩ then
      cast (congrArg (fun x : (γ : Type) × List γ => List x.1) heq.symm) l'
    else m
  have hperm {γ : Type} (m : List γ) : (entries m).Perm m := by
    by_cases heq : (⟨γ, m⟩ : (γ : Type) × List γ) = ⟨α, l⟩
    · simp only [entries, dif_pos heq]
      cases heq
      exact h
    · simp only [entries, dif_neg heq]
      exact .refl m
  exact ⟨⟨entries, hperm⟩, by simp [entries]⟩

/-- Any two entries may come first. -/
theorem HashOrder.exists_entries_eq_cons {α : Type} {l : List α} {a b : α} (ha : a ∈ l) (hb : b ∈ l)
    (hne : a ≠ b) : ∃ (order : HashOrder) (rest : List α), order.entries l = a :: b :: rest := by
  obtain ⟨pre, post, rfl⟩ := List.append_of_mem ha
  have hrest : b ∈ pre ++ post := by
    simpa [hne.symm] using hb
  obtain ⟨pre', post', hsplit⟩ := List.append_of_mem hrest
  have hperm : (a :: b :: (pre' ++ post')).Perm (pre ++ a :: post) := by
    have hb' : (b :: (pre' ++ post')).Perm (pre ++ post) := by
      rw [hsplit]
      exact List.perm_middle.symm
    exact (hb'.cons a).trans List.perm_middle.symm
  obtain ⟨order, horder⟩ := exists_entries_eq hperm
  exact ⟨order, pre' ++ post', horder⟩

section
variable {E R S W : Type} {maxPacketSize : ℕ}

/-! ## Resending in order -/

/-- The frame of a resent message, as the options of the loop have it. -/
def resendFrame (s : Conn E R S W maxPacketSize) (entry : UInt16 × PublishMessage × Option R) :
    List UInt8 :=
  (resendPacket entry).wire s.options.version

/-- The frames on one topic that have been written from one state to the other, of messages in
flight, are in the order of the history. -/
def InSendOrder (history : List (UInt16 × PublishMessage)) (s s' : Conn E R S W maxPacketSize) : Prop :=
  ∀ e ∈ s.inflightPublishes, ∀ e' ∈ s.inflightPublishes, e ≠ e' → e.2.1.topic = e'.2.1.topic →
    (resendPacket e).Carried s.options.version maxPacketSize →
    (resendPacket e').Carried s.options.version maxPacketSize →
    [resendFrame s e, resendFrame s e'].Sublist
      (s'.socket.written.drop s.socket.written.length) →
    Machine.Before (·.1) (e.1, e.2.1) (e'.1, e'.2.1) history

/-- The state after a handshake. -/
def connected (s : Conn E R S W maxPacketSize) (now : ℕ) : Conn E R S W maxPacketSize :=
  { s with reconnectAttempt := 0, statuses := s.statuses ++ [.connected], lastTx := now }

/-- Over every new transport and under every order of the hash maps, the recovery resends in the
order of the history, as far as it comes. -/
def ResendsInOrder (history : List (UInt16 × PublishMessage))
    (self : EventLoop E R S W maxPacketSize) : Prop :=
  ∀ (socket : Socket E) (c : Conn E R S W maxPacketSize) (order : HashOrder) (now : ℕ),
    handshake self socket = .ok () c →
      Ends (performSessionDataRecovery order now) (connected c now)
        (fun _ s' => InSendOrder history (connected c now) s')
        fun _ s' => InSendOrder history (connected c now) s'

/-- Of the messages in flight on one topic at most one is resent. -/
def EventLoop.OnePerTopic (self : EventLoop E R S W maxPacketSize) : Prop :=
  self.options.recovery.resendUnackedInflight → ∀ e ∈ self.inflightPublishes,
    ∀ e' ∈ self.inflightPublishes, e.2.1.topic = e'.2.1.topic →
      (resendPacket e).Carried self.options.version maxPacketSize →
      (resendPacket e').Carried self.options.version maxPacketSize → e = e'

/-! ## A transport that no longer fails -/

/-- The transport, if nothing more fails. -/
def Socket.calm (t : Socket E) : Socket E := { t with writeResults := [], flushResults := [] }

theorem Socket.steady_calm (t : Socket E) : t.calm.Steady := ⟨by simp [calm], by simp [calm]⟩

/-- The connection, if nothing more fails. -/
def Conn.calm (s : Conn E R S W maxPacketSize) : Conn E R S W maxPacketSize :=
  s.withSocket s.socket.calm

/-- What the program does, it does also over a transport that fails less. -/
def Calm {α : Type} (x : ConnM E R S W maxPacketSize α) : Prop :=
  ∀ s a t, x s = .ok a t → x s.calm = .ok a t.calm

section
variable {α β : Type} {x : ConnM E R S W maxPacketSize α}

theorem Calm.pure (a : α) : Calm (Pure.pure a : ConnM E R S W maxPacketSize α) := by
  intro s a t h
  cases h
  rfl

theorem Calm.throw (e : Fault (ClientError E)) :
    Calm (MonadExcept.throw e : ConnM E R S W maxPacketSize α) := by
  intro s a t h
  cases h

theorem Calm.bind {f : α → ConnM E R S W maxPacketSize β} (hx : Calm x) (hf : ∀ a, Calm (f a)) :
    Calm (x >>= f) := by
  intro s b t h
  rcases hrun : x s with ⟨a, u⟩ | ⟨e, u⟩
  · rw [run_bind hrun] at h
    rw [run_bind (hx s a u hrun)]
    exact hf a u b t h
  · rw [run_bind_error hrun] at h
    cases h

/-- A program may look at the state, but not at the transport. -/
theorem Calm.get_bind {f : Conn E R S W maxPacketSize → ConnM E R S W maxPacketSize α}
    (hf : ∀ s, Calm (f s)) (hsame : ∀ s, f s.calm = f s) : Calm (MonadState.get >>= f) := by
  intro s a t h
  change f s.calm s.calm = .ok a t.calm
  rw [hsame]
  exact hf s s a t h

theorem calm_lift (e : ClientError E) (x : Checked PacketError α) :
    Calm (lift e x : ConnM E R S W maxPacketSize α) := by
  rcases x with (e' | _ | _) | a
  · exact .throw _
  · exact .throw _
  · exact .throw _
  · exact .pure a

theorem calm_encodeTx (cursor : ℕ) (p : MqttPacket) :
    Calm (encodeTx cursor p : ConnM E R S W maxPacketSize _) := by
  intro s a t h
  rw [encodeTx] at h ⊢
  split at h
  · rename_i hcursor
    rw [if_pos hcursor]
    split at h
    · rename_i len tail hencode
      have hcalm : p.encode s.calm.options.version (s.calm.txBuf.bytes.drop cursor) =
          .ok len tail := hencode
      cases h
      rw [hcalm]
      rfl
    · rename_i e tail hencode
      have hcalm : p.encode s.calm.options.version (s.calm.txBuf.bytes.drop cursor) =
          .error e tail := hencode
      cases h
      rw [hcalm]
      rfl
  · cases h

theorem calm_writeAll (bytes : List UInt8) : Calm (writeAll bytes : ConnM E R S W maxPacketSize _) := by
  intro s a t h
  rw [writeAll] at h
  split at h
  · cases h
  · cases h
    rfl
  · cases h
    rfl

theorem calm_flush : Calm (flush : ConnM E R S W maxPacketSize _) := by
  intro s a t h
  rw [flush] at h
  split at h
  · cases h
  · cases h
    rfl
  · cases h
    rfl

theorem calm_read (cursor : ℕ) : Calm (read cursor : ConnM E R S W maxPacketSize _) := by
  intro s a t h
  rw [EventLoop.read] at h ⊢
  split at h
  · cases h
  · rename_i hpanic
    rw [if_neg hpanic]
    split at h
    · rename_i hfull
      cases h
      rw [if_pos hfull]
    · rename_i hroom
      rw [if_neg hroom]
      have hcalm : s.calm.socket.incoming = s.socket.incoming := rfl
      rcases hincoming : s.socket.incoming with _ | ⟨e | segment, incoming⟩
      · simp only [hincoming] at h
        simp only [hcalm, hincoming]
        cases h
        rfl
      · simp only [hincoming] at h
        cases h
      · simp only [hincoming] at h
        simp only [hcalm, hincoming]
        cases h
        rfl

theorem calm_writeTx (len : ℕ) : Calm (writeTx len : ConnM E R S W maxPacketSize _) :=
  Calm.get_bind (fun _ => Calm.bind (calm_lift _ _) fun _ => calm_writeAll _) fun _ => rfl

theorem calm_performConnectHandshake :
    Calm (performConnectHandshake : ConnM E R S W maxPacketSize Unit) := by
  apply Calm.get_bind _ fun _ => rfl
  intro s
  apply Calm.bind (calm_encodeTx 0 _)
  intro r
  apply Calm.bind (calm_lift _ _)
  intro len
  apply Calm.bind (calm_writeTx len)
  intro _
  apply Calm.bind calm_flush
  intro _
  apply Calm.bind (calm_read 0)
  intro readLen
  split
  · exact .throw _
  · rename_i n
    by_cases hn : n = 0
    · rw [if_pos hn]
      exact .throw _
    · rw [if_neg hn]
      apply Calm.get_bind _ fun _ => rfl
      intro s
      apply Calm.bind (calm_lift _ _)
      intro bytes
      apply Calm.bind (calm_lift _ _)
      intro packet
      split
      · rename_i connack
        by_cases hcode : connack.reasonCode = 0
        · rw [if_pos hcode]
          exact .pure _
        · rw [if_neg hcode]
          exact .throw _
      · exact .throw _

end

/-! ## Reconnecting -/

variable {self : EventLoop E R S W maxPacketSize} {socket : Socket E}
  {s s' s'' c : Conn E R S W maxPacketSize} {log : List (UInt16 × PublishMessage)}

/-- A handshake that succeeds leaves the session alone. -/
structure Resumes (self : EventLoop E R S W maxPacketSize) (c : Conn E R S W maxPacketSize) :
    Prop where
  options : c.options = self.options
  inflight : c.inflightPublishes = self.inflightPublishes
  queue : c.offlineQueue = self.offlineQueue

theorem resumes_of_handshake (h : handshake self socket = .ok () c) : Resumes self c := by
  have hloop := ((sends_performConnectHandshake (P := fun _ => True) trivial
    { self.startAttempt with socket := socket.opened } .refl).ok_of h).loop
  constructor
  · exact (congrArg EventLoop.options hloop).trans rfl
  · exact (congrArg EventLoop.inflightPublishes hloop).trans rfl
  · exact (congrArg EventLoop.offlineQueue hloop).trans rfl

/-! ## At most one publish on each topic -/

/-- From one state to the other only SUBSCRIBE packets have been written, and nothing that is in
flight is to be resent. -/
structure Subscribing (s s' : Conn E R S W maxPacketSize) : Prop where
  resend : ¬ s'.options.recovery.resendUnackedInflight
  queue : s'.offlineQueue = []
  written : ∃ new, s'.socket.written = s.socket.written ++ new ∧
    ∀ bytes ∈ new, ∀ b ∈ bytes.head?, b = 0x82

theorem Subscribing.sends (h : Subscribing s s') (hsends : Sends (· = 0x82) s' s'') :
    Subscribing s s'' := by
  obtain ⟨new, hnew, hsubscribe⟩ := h.written
  obtain ⟨new', hnew', hsubscribe'⟩ := hsends.written
  have hloop := hsends.loop
  constructor
  · rw [hloop]
    exact h.resend
  · rw [hloop]
    exact h.queue
  · refine ⟨new ++ new', by rw [hnew', hnew, List.append_assoc], fun bytes hbytes => ?_⟩
    rcases List.mem_append.mp hbytes with hbytes | hbytes
    · exact hsubscribe bytes hbytes
    · exact hsubscribe' bytes hbytes

theorem subscribing_performSessionDataRecovery (order : HashOrder) (now : ℕ) :
    Preserves (Subscribing s) (performSessionDataRecovery order now) := by
  apply preserves_performSessionDataRecovery
  · exact fun s' hs' hresend _ _ => absurd hresend hs'.resend
  · exact preserves_of_sends (fun _ _ => Subscribing.sends) fun _ => sends_flush
  · intro _ _ e _
    have hnext : Preserves (Subscribing s) getNextPacketId :=
      fun _ hs' => ⟨hs'.resend, hs'.queue, hs'.written⟩
    apply Preserves.bind hnext
    intro pid
    obtain ⟨p, hp, -⟩ := subscribePacket_eq pid e.1 e.2
    exact preserves_of_sends (fun _ _ => Subscribing.sends)
      fun _ => sends_tryWritePacket (by rw [hp]; rfl)
  · intro s' hs'
    rw [hs'.queue]
    exact Preserves.pure _

/-- The frame of a PUBLISH is none of a SUBSCRIBE. -/
theorem head_resendFrame (entry : UInt16 × PublishMessage × Option R) :
    ∀ b ∈ (resendFrame s entry).head?, b ≠ 0x82 := by
  rintro b hb rfl
  have htype := packetType_first (resendPacket entry)
  have hfirst : (resendPacket entry).first = 0x82 := Option.some.inj hb
  rw [hfirst] at htype
  have hpublish : (0x82 : UInt8) >>> 4 = 3 := htype
  exact absurd hpublish (by decide)

theorem inSendOrder_of_subscribing (h : Subscribing s s') : InSendOrder log s s' := by
  intro e _ e' _ _ _ _ _ hsublist
  obtain ⟨new, hnew, hsubscribe⟩ := h.written
  rw [hnew, List.drop_left] at hsublist
  have hmem : resendFrame s e ∈ new := hsublist.mem (by simp)
  exact absurd (hsubscribe _ hmem _ rfl) (head_resendFrame (s := s) e _ rfl)

/-- Where at most one publish is resent on each topic, all is in order. -/
theorem resendsInOrder_of_onePerTopic (hqueue : self.offlineQueue = []) (h : self.OnePerTopic) :
    ResendsInOrder log self := by
  intro socket c order now hhandshake
  obtain ⟨hoptions, hinflight, hkept⟩ := resumes_of_handshake hhandshake
  by_cases hresend : self.options.recovery.resendUnackedInflight
  · have hsame (s' : Conn E R S W maxPacketSize) : InSendOrder log (connected c now) s' := by
      intro e he e' he' hne htopic hcarried hcarried' _
      have hone := h hresend e (hinflight ▸ he) e' (hinflight ▸ he') htopic
      rw [← hoptions] at hone
      exact absurd (hone hcarried hcarried') hne
    exact Ends.trivial.mono (fun _ s' _ => hsame s') fun _ s' _ => hsame s'
  · have hstart : Subscribing (connected c now) (connected c now) := by
      refine ⟨?_, hkept.trans hqueue, [], by simp, by simp⟩
      change ¬ c.options.recovery.resendUnackedInflight
      rwa [hoptions]
    exact (subscribing_performSessionDataRecovery order now _ hstart).mono
      (fun _ _ => inSendOrder_of_subscribing) fun _ _ => inSendOrder_of_subscribing

/-! ## Two publishes on one topic -/

/-- What has been written since begins with these frames. -/
def Begins (frames : List (List UInt8)) (s s' : Conn E R S W maxPacketSize) : Prop :=
  ∃ new, s'.socket.written = s.socket.written ++ frames ++ new

theorem Begins.sends {frames : List (List UInt8)} (h : Begins frames s s')
    (hsends : Sends (fun _ => True) s' s'') : Begins frames s s'' := by
  obtain ⟨new, hnew⟩ := h
  obtain ⟨new', hnew', -⟩ := hsends.written
  exact ⟨new ++ new', by rw [hnew', hnew, List.append_assoc]⟩

/-- Two messages that come first are resent first, one after the other. -/
theorem begins_performSessionDataRecovery {order : HashOrder} (now : ℕ)
    {e e' : UInt16 × PublishMessage × Option R} {rest : List (UInt16 × PublishMessage × Option R)}
    (hsteady : s.socket.Steady) (hqueue : s.offlineQueue = [])
    (hresend : s.options.recovery.resendUnackedInflight)
    (hentries : order.entries s.inflightPublishes = e :: e' :: rest)
    (hcarried : (resendPacket e).Carried s.options.version maxPacketSize)
    (hcarried' : (resendPacket e').Carried s.options.version maxPacketSize) :
    Ends (performSessionDataRecovery order now) s
      (fun _ s' => Begins [resendFrame s e, resendFrame s e'] s s')
      fun _ s' => Begins [resendFrame s e, resendFrame s e'] s s' := by
  let frames := [resendFrame s e, resendFrame s e']
  have hsends {α : Type} {x : ConnM E R S W maxPacketSize α}
      (h : ∀ s₀, Preserves (Sends (fun _ => True) s₀) x) : Preserves (Begins frames s) x :=
    preserves_of_sends (fun _ _ => Begins.sends) h
  have hwrite {t : Conn E R S W maxPacketSize} {entry : UInt16 × PublishMessage × Option R}
      (hversion : t.options = s.options) (hsteady : t.socket.Steady)
      (hcarried : (resendPacket entry).Carried s.options.version maxPacketSize) :
      Ends (tryWritePacket (resendPacket entry)) t
        (fun _ t' => Wrote [resendFrame s entry] t t') fun _ _ => False := by
    have hmeasured : (resendPacket entry).Measured t.options.version maxPacketSize :=
      fun _ _ => hversion ▸ hcarried.2
    apply (ends_tryWritePacket hsteady (by simp [resendPacket, publishPacket])).mono
    · rintro _ t' ⟨new, hwrote, hnew, -⟩
      rw [hnew hmeasured, hversion, MqttPacket.frames, if_pos hcarried] at hwrote
      exact hwrote
    · exact fun _ _ h => h hmeasured
  have hloop : Ends ((order.entries s.inflightPublishes).forM fun entry =>
        tryWritePacket (resendPacket entry)) s
      (fun _ s' => Begins frames s s') fun _ s' => Begins frames s s' := by
    rw [hentries]
    apply Ends.bind
    apply (hwrite rfl hsteady hcarried).mono
    · intro _ t ht
      apply Ends.bind
      apply (hwrite ht.options ht.steady hcarried').mono
      · intro _ u hu
        have hboth := ht.trans hu
        have hrest : Preserves (Begins frames s)
            (rest.forM fun entry => tryWritePacket (resendPacket entry)) :=
          Preserves.forM fun _ _ => hsends fun _ => sends_tryWritePacket trivial
        exact hrest u ⟨[], by simpa using hboth.written⟩
      · exact fun _ _ h => h.elim
    · exact fun _ _ h => h.elim
  have hrest : Preserves (Begins frames s) (resubscribeAll order now s) := by
    apply preserves_resubscribeAll order (hsends fun _ => sends_flush)
    · intro e _
      have hnext : Preserves (Begins frames s) getNextPacketId := fun _ hs' => hs'
      exact Preserves.bind hnext fun pid => hsends fun _ => sends_tryWritePacket trivial
    · rw [hqueue]
      exact Preserves.pure _
  rw [Ends, performSessionDataRecovery_eq]
  apply Ends.ite
  · intro _
    apply Ends.bind
    apply hloop.mono
    · intro _ t ht
      exact Preserves.bind (preserves_ignore (hsends fun _ => sends_flush)) (fun _ => hrest) t ht
    · exact fun _ _ h => h
  · intro hnone
    have hempty : s.inflightPublishes = [] := by
      simpa [hresend] using hnone
    rw [hempty, entries_nil] at hentries
    cases hentries

/-- Where all is in order, of two messages that are resent on one topic the first was sent before
the second. -/
theorem before_of_resendsInOrder (hqueue : self.offlineQueue = [])
    (hhandshake : handshake self socket = .ok () c) (hsteady : c.socket.Steady) (h : ResendsInOrder log self)
    (hresend : self.options.recovery.resendUnackedInflight)
    {e e' : UInt16 × PublishMessage × Option R} (he : e ∈ self.inflightPublishes)
    (he' : e' ∈ self.inflightPublishes) (hne : e ≠ e') (htopic : e.2.1.topic = e'.2.1.topic)
    (hcarried : (resendPacket e).Carried self.options.version maxPacketSize)
    (hcarried' : (resendPacket e').Carried self.options.version maxPacketSize) :
    Machine.Before (·.1) (e.1, e.2.1) (e'.1, e'.2.1) log := by
  obtain ⟨hoptions, hinflight, hkept⟩ := resumes_of_handshake hhandshake
  obtain ⟨order, rest, hentries⟩ := HashOrder.exists_entries_eq_cons he he' hne
  rw [← hinflight] at he he' hentries
  rw [← hoptions] at hcarried hcarried' hresend
  have hbegins := begins_performSessionDataRecovery (s := connected c 0) 0
    hsteady (hkept.trans hqueue) hresend hentries hcarried hcarried'
  have horder {s' : Conn E R S W maxPacketSize} (hinorder : InSendOrder log (connected c 0) s')
      (hwritten : Begins [resendFrame (connected c 0) e, resendFrame (connected c 0) e']
        (connected c 0) s') :
      Machine.Before (·.1) (e.1, e.2.1) (e'.1, e'.2.1) log := by
    obtain ⟨new, hnew⟩ := hwritten
    refine hinorder e he e' he' hne htopic hcarried hcarried' ?_
    rw [hnew, List.append_assoc, List.drop_left]
    exact List.sublist_append_left _ _
  have hends := (h socket c order 0 hhandshake).and hbegins
  rcases hrun : performSessionDataRecovery order 0 (connected c 0) with ⟨u, s'⟩ | ⟨fault, s'⟩
  · exact horder (hends.ok_of hrun).1 (hends.ok_of hrun).2
  · exact horder (hends.error_of hrun).1 (hends.error_of hrun).2

/-- Where all is in order, at most one publish is resent on each topic. -/
theorem onePerTopic_of_resendsInOrder (hqueue : self.offlineQueue = [])
    (haccepts : accepts self socket) (h : ResendsInOrder log self) : self.OnePerTopic := by
  obtain ⟨c, hhandshake⟩ := accepts_iff.mp haccepts
  have hcalm : handshake self socket.calm = .ok () c.calm :=
    calm_performConnectHandshake { self.startAttempt with socket := socket.opened } () c hhandshake
  have hsteady : c.calm.socket.Steady := c.socket.steady_calm
  intro hresend e he e' he' htopic hcarried hcarried'
  by_contra hne
  have hbefore := before_of_resendsInOrder hqueue hcalm hsteady h hresend he he' hne htopic
    hcarried hcarried'
  exact hbefore.asymm (before_of_resendsInOrder hqueue hcalm hsteady h hresend he' he (Ne.symm hne)
    htopic.symm hcarried' hcarried)

namespace LoopSystem
variable [DecidableEq S] {ch : Mpsc W S PublishMessage} {order : HashOrder}

/-- Of two publishes in flight one was sent before the other. -/
theorem before_or_before {options : ClientOptions} {channels : W} {now : ℕ}
    {steps : List (Step E R S W maxPacketSize)} {s : LoopSystem E R S W maxPacketSize}
    (h : Traced ch order (start options channels now) steps s) :
    ∀ e ∈ s.loop.pending, ∀ e' ∈ s.loop.pending, e ≠ e' →
      Machine.Before (·.1) e e' (history steps) ∨ Machine.Before (·.1) e' e (history steps) :=
  fun e he e' he' hne =>
    Machine.before_or_before (latest_history h e he) (latest_history h e' he') hne

/-- **After any run, a reconnect resends the publishes on one topic in the order in which they were
sent, whatever the order of the hash map, exactly when it resends at most one on each topic.** -/
theorem resendsInOrder_iff {options : ClientOptions} {channels : W} {now : ℕ}
    {steps : List (Step E R S W maxPacketSize)} {s : LoopSystem E R S W maxPacketSize}
    (h : Traced ch order (start options channels now) steps s) {socket : Socket E}
    (haccepts : accepts s.loop socket) :
    ResendsInOrder (history steps) s.loop ↔ s.loop.OnePerTopic := by
  have hqueue := offlineQueue_nil h
  exact ⟨onePerTopic_of_resendsInOrder hqueue haccepts, resendsInOrder_of_onePerTopic hqueue⟩

end LoopSystem

end

namespace LoopSystem
variable {R S W : Type} {maxPacketSize : ℕ}

instance [DecidableEq R] (self : EventLoop Unit R S W maxPacketSize) : Decidable self.OnePerTopic :=
  inferInstanceAs (Decidable (_ → ∀ e ∈ _, ∀ e' ∈ _, _))

/-- A client that connects, publishes on these topics and loses its connection. -/
def losing (topics : List String) : List (Event Unit ℕ ℕ (ℕ → Queue PublishMessage)) :=
  connecting [] ++
    (topics.map fun topic =>
      .request (some (.publish { PublishMessage.new topic [1] with qos := .atLeastOnce } none)) 0) ++
    [.arrive (.ok []), .read]

/-- Two publishes on two topics. -/
theorem resendsInOrder_sample :
    ∃ steps s, Traced (.queues ℕ PublishMessage) listed fresh steps s ∧
      s.loop.inflightPublishes.length = 2 ∧ ResendsInOrder (history steps) s.loop := by
  have heval : (runTraced (.queues ℕ PublishMessage) listed (losing ["a", "b"]) fresh).map
      (fun x => (x.2.loop.inflightPublishes.length, accepts x.2.loop accepting,
        decide x.2.loop.OnePerTopic)) = some (2, true, true) := by
    decide +kernel
  obtain ⟨⟨steps, s⟩, hrun, hs⟩ := Option.map_eq_some_iff.mp heval
  simp only [Prod.mk.injEq, decide_eq_true_eq] at hs
  obtain ⟨hlength, haccepts, hone⟩ := hs
  have htraced := traced_of_runTraced hrun
  exact ⟨steps, s, htraced, hlength, (resendsInOrder_iff htraced haccepts).mpr hone⟩

/-- Two publishes on one topic may be resent the wrong way round. -/
theorem resends_out_of_order :
    ¬ ∀ steps s, Traced (.queues ℕ PublishMessage) listed fresh steps s →
      ResendsInOrder (history steps) s.loop := by
  intro hall
  have heval : (runTraced (.queues ℕ PublishMessage) listed (losing ["a", "a"]) fresh).map
      (fun x => (accepts x.2.loop accepting, decide x.2.loop.OnePerTopic)) = some (true, false) := by
    decide +kernel
  obtain ⟨⟨steps, s⟩, hrun, hs⟩ := Option.map_eq_some_iff.mp heval
  simp only [Prod.mk.injEq, decide_eq_false_iff_not] at hs
  have htraced := traced_of_runTraced hrun
  exact hs.2 (onePerTopic_of_resendsInOrder (offlineQueue_nil htraced) hs.1
    (hall steps s htraced))

end LoopSystem

end MqttEngine.Tokio
