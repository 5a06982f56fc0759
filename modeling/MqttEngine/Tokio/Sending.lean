import MqttEngine.Embedded.Sending
import MqttEngine.Tokio.EventLoop

/-!
# Sending and receiving on a connection

Most programs of the event loop only use the transport: they write packets and read bytes, and
leave everything else alone. `Conn.Transmits` says so, with what may follow what has been written,
and each of these programs is walked through once. `Conn.Sends` is the case in which only the first
byte of each write matters: a write begins with the first byte of a packet, whether all of it is
written or not.

Where the transport does not fail, the programs are specified exactly.

## Main definitions

* `Socket.Steady` — a transport that does not fail.
* `Conn.Transmits`, `Conn.Sends` — only the transport has been used.

## Main results

* `encodeTx_spec`, `sendPacket_fits`, `sendPacket_unfit` — what encoding and sending do.
* `transmits_sendPacket`, `transmits_receiveFrames` and the others — programs that only use the
  transport.
-/

namespace MqttEngine.Tokio
open Checked

/-! ## Transports -/

namespace Socket
variable {E : Type}

/-- The next write does not fail. -/
def WriteOk (self : Socket E) : Prop := ∀ r ∈ self.writeResults.head?, r = none

/-- The next flush does not fail. -/
def FlushOk (self : Socket E) : Prop := ∀ r ∈ self.flushResults.head?, r = none

/-- No write and no flush fails. -/
structure Steady (t : Socket E) : Prop where
  writes : ∀ r ∈ t.writeResults, r = none
  flushes : ∀ r ∈ t.flushResults, r = none

/-- The transport after a write that has succeeded. -/
def wrote (self : Socket E) (bytes : List UInt8) : Socket E :=
  { self with writeResults := self.writeResults.tail, written := self.written ++ [bytes] }

/-- The transport after a flush that has succeeded. -/
def flushed (self : Socket E) : Socket E := { self with flushResults := self.flushResults.tail }

section
variable (self : Socket E) (bytes : List UInt8)

@[simp] theorem written_wrote : (self.wrote bytes).written = self.written ++ [bytes] := rfl
@[simp] theorem incoming_wrote : (self.wrote bytes).incoming = self.incoming := rfl
@[simp] theorem datagramResults_wrote : (self.wrote bytes).datagramResults = self.datagramResults := rfl
@[simp] theorem written_flushed : self.flushed.written = self.written := rfl
@[simp] theorem incoming_flushed : self.flushed.incoming = self.incoming := rfl

end

variable {self : Socket E}

theorem Steady.writeOk (h : self.Steady) : self.WriteOk :=
  fun r hr => h.writes r (List.mem_of_mem_head? hr)

theorem Steady.flushOk (h : self.Steady) : self.FlushOk :=
  fun r hr => h.flushes r (List.mem_of_mem_head? hr)

theorem Steady.wrote (h : self.Steady) (bytes : List UInt8) : (self.wrote bytes).Steady :=
  ⟨fun r hr => h.writes r (List.mem_of_mem_tail hr), h.flushes⟩

theorem Steady.flushed (h : self.Steady) : self.flushed.Steady :=
  ⟨h.writes, fun r hr => h.flushes r (List.mem_of_mem_tail hr)⟩

theorem steady_sending (incoming : List (List UInt8)) : (sending incoming : Socket E).Steady :=
  ⟨by simp [sending], by simp [sending]⟩

end Socket

/-! ## Only the transport is used -/

namespace Conn
variable {E R S W : Type} {maxPacketSize : ℕ}

/-- The state with another transmit buffer. -/
def withTx (s : Conn E R S W maxPacketSize) (txBuf : Buffer maxPacketSize) :
    Conn E R S W maxPacketSize :=
  { s with txBuf }

/-- The state with another transport. -/
def withSocket (s : Conn E R S W maxPacketSize) (socket : Socket E) : Conn E R S W maxPacketSize :=
  { s with socket }

/-- The state after something has been sent. -/
def withLastTx (s : Conn E R S W maxPacketSize) (lastTx : ℕ) : Conn E R S W maxPacketSize :=
  { s with lastTx }

section
variable (s : Conn E R S W maxPacketSize) (tx : Buffer maxPacketSize) (t : Socket E) (now : ℕ)

@[simp] theorem socket_withTx : (s.withTx tx).socket = s.socket := rfl
@[simp] theorem txBuf_withTx : (s.withTx tx).txBuf = tx := rfl
@[simp] theorem options_withTx : (s.withTx tx).options = s.options := rfl
@[simp] theorem socket_withSocket : (s.withSocket t).socket = t := rfl
@[simp] theorem txBuf_withSocket : (s.withSocket t).txBuf = s.txBuf := rfl
@[simp] theorem options_withSocket : (s.withSocket t).options = s.options := rfl
@[simp] theorem socket_withLastTx : (s.withLastTx now).socket = s.socket := rfl
@[simp] theorem options_withLastTx : (s.withLastTx now).options = s.options := rfl

end

/-- From one state to the other only the transport has been used, and every write is a beginning of
bytes in `C`: all of them, or what a write that has failed has written. A transport that does not
fail stays one. -/
structure Transmits (C : MqttVersion → List UInt8 → Prop) (s s' : Conn E R S W maxPacketSize) :
    Prop where
  loop : s'.toEventLoop =
    { s.toEventLoop with rxBuf := s'.rxBuf, txBuf := s'.txBuf, lastTx := s'.lastTx }
  written : ∃ new, s'.socket.written = s.socket.written ++ new ∧
    ∀ bytes ∈ new, ∃ whole, C s.options.version whole ∧ bytes <+: whole
  steady : s.socket.Steady → s'.socket.Steady

/-- From one state to the other only the transport has been used, and every write begins with a
byte in `P`. A transport that does not fail stays one. -/
structure Sends (P : UInt8 → Prop) (s s' : Conn E R S W maxPacketSize) : Prop where
  loop : s'.toEventLoop =
    { s.toEventLoop with rxBuf := s'.rxBuf, txBuf := s'.txBuf, lastTx := s'.lastTx }
  written : ∃ new, s'.socket.written = s.socket.written ++ new ∧
    ∀ bytes ∈ new, ∀ b ∈ bytes.head?, P b
  steady : s.socket.Steady → s'.socket.Steady

namespace Transmits
variable {C : MqttVersion → List UInt8 → Prop} {s s' s'' : Conn E R S W maxPacketSize}

theorem options (h : Transmits C s s') : s'.options = s.options :=
  (congrArg EventLoop.options h.loop).trans rfl

theorem refl : Transmits C s s := ⟨rfl, ⟨[], by simp, by simp⟩, id⟩

theorem trans (h : Transmits C s s') (h' : Transmits C s' s'') : Transmits C s s'' := by
  obtain ⟨new, hnew, hC⟩ := h.written
  obtain ⟨new', hnew', hC'⟩ := h'.written
  rw [h.options] at hC'
  refine ⟨by rw [h'.loop, h.loop],
    ⟨new ++ new', by rw [hnew', hnew, List.append_assoc], ?_⟩, h'.steady ∘ h.steady⟩
  intro bytes hbytes
  exact (List.mem_append.mp hbytes).elim (hC bytes) (hC' bytes)

/-- Nothing is written. -/
theorem quiet (h : Transmits C s s') (hloop : s''.toEventLoop =
      { s'.toEventLoop with rxBuf := s''.rxBuf, txBuf := s''.txBuf, lastTx := s''.lastTx })
    (hwritten : s''.socket.written = s'.socket.written)
    (hsteady : s'.socket.Steady → s''.socket.Steady) : Transmits C s s'' :=
  h.trans ⟨hloop, ⟨[], by simp [hwritten], by simp⟩, hsteady⟩

/-- The transport stays as it is. -/
theorem same (h : Transmits C s s') (hloop : s''.toEventLoop =
      { s'.toEventLoop with rxBuf := s''.rxBuf, txBuf := s''.txBuf, lastTx := s''.lastTx })
    (hsocket : s''.socket = s'.socket) : Transmits C s s'' :=
  h.quiet hloop (by rw [hsocket]) (by rw [hsocket]; exact id)

/-- Something is written. -/
theorem write (h : Transmits C s s') {bytes whole : List UInt8} (hC : C s.options.version whole)
    (hbytes : bytes <+: whole) (hloop : s''.toEventLoop =
      { s'.toEventLoop with rxBuf := s''.rxBuf, txBuf := s''.txBuf, lastTx := s''.lastTx })
    (hwritten : s''.socket.written = s'.socket.written ++ [bytes])
    (hsteady : s'.socket.Steady → s''.socket.Steady) : Transmits C s s'' := by
  rw [← h.options] at hC
  exact h.trans ⟨hloop, ⟨[bytes], hwritten, by simpa using ⟨whole, hC, hbytes⟩⟩, hsteady⟩

end Transmits

/-- Bytes that begin with a byte in `P`. -/
def Heads (P : UInt8 → Prop) (_ : MqttVersion) (bytes : List UInt8) : Prop := ∀ b ∈ bytes.head?, P b

theorem Transmits.sends {P : UInt8 → Prop} {s s' : Conn E R S W maxPacketSize}
    (h : Transmits (Heads P) s s') : Sends P s s' := by
  obtain ⟨new, hnew, hC⟩ := h.written
  refine ⟨h.loop, ⟨new, hnew, fun bytes hbytes b hb => ?_⟩, h.steady⟩
  obtain ⟨whole, hwhole, t, rfl⟩ := hC bytes hbytes
  apply hwhole b
  rw [Option.mem_def, List.head?_append, Option.mem_def.mp hb]
  rfl

namespace Sends
variable {P Q : UInt8 → Prop} {s s' s'' : Conn E R S W maxPacketSize}

theorem refl : Sends P s s := ⟨rfl, ⟨[], by simp, by simp⟩, id⟩

theorem trans (h : Sends P s s') (h' : Sends P s' s'') : Sends P s s'' := by
  obtain ⟨new, hnew, hP⟩ := h.written
  obtain ⟨new', hnew', hP'⟩ := h'.written
  refine ⟨by rw [h'.loop, h.loop],
    ⟨new ++ new', by rw [hnew', hnew, List.append_assoc], ?_⟩, h'.steady ∘ h.steady⟩
  intro bytes hbytes
  exact (List.mem_append.mp hbytes).elim (hP bytes) (hP' bytes)

end Sends

end Conn

namespace EventLoop
open Conn
variable {E R S W : Type} {maxPacketSize : ℕ} {s : Conn E R S W maxPacketSize} {p : MqttPacket}

/-! ## What encoding and sending do -/

/-- What encoding into the transmit buffer does: it leaves what stands in front of the cursor,
and a packet it has encoded stands behind the cursor. -/
theorem encodeTx_spec {cursor : ℕ} (hc : cursor ≤ maxPacketSize) (p : MqttPacket) :
    ∃ tx r, encodeTx cursor p s = .ok r (s.withTx tx) ∧
      tx.bytes.take cursor = s.txBuf.bytes.take cursor ∧
      (∀ n, r = .ok n → cursor = 0 → tx.bytes.head? = some p.first) ∧
      ∀ n, r = .ok n → p.Measured s.options.version (maxPacketSize - cursor) →
        p.Fits s.options.version (maxPacketSize - cursor) ∧
          n = (p.wire s.options.version).length ∧
          tx.bytes.take (cursor + n) = s.txBuf.bytes.take cursor ++ p.wire s.options.version := by
  have hlen := s.txBuf.length_encode_drop p s.options.version cursor
  rw [encodeTx, if_pos hc]
  rcases hencode : p.encode s.options.version (s.txBuf.bytes.drop cursor) with
    ⟨n, tail⟩ | ⟨e, tail⟩
  · rw [hencode, EStateM.Result.final_ok] at hlen
    refine ⟨s.txBuf.setTail cursor tail, .ok n, rfl, Buffer.take_setTail _ hc hlen, ?_, ?_⟩
    · rintro m - rfl
      rw [Buffer.bytes_setTail _ hc hlen]
      simpa using (head_encode hencode).2
    · intro m hm hmeasured
      cases hm
      exact Buffer.take_setTail_encode hc hencode hmeasured
  · rw [hencode, EStateM.Result.final_error] at hlen
    exact ⟨s.txBuf.setTail cursor tail, .error e, rfl, Buffer.take_setTail _ hc hlen, by simp, by simp⟩

/-- Bytes that stand in a buffer have room in it. -/
theorem le_of_take_eq {n len : ℕ} {tx : Buffer n} {bytes : List UInt8}
    (h : tx.bytes.take len = bytes) (hlen : len = bytes.length) : len ≤ n := by
  have := congrArg List.length h
  rw [List.length_take, tx.length_eq] at this
  omega

/-- A packet that fits behind the cursor is encoded there. -/
theorem encodeTx_fits {cursor : ℕ} (hc : cursor ≤ maxPacketSize)
    (hp : p.Fits s.options.version (maxPacketSize - cursor))
    (hm : p.Measured s.options.version (maxPacketSize - cursor)) :
    ∃ tx, encodeTx cursor p s = .ok (.ok (p.wire s.options.version).length) (s.withTx tx) ∧
      tx.bytes.take (cursor + (p.wire s.options.version).length) =
        s.txBuf.bytes.take cursor ++ p.wire s.options.version := by
  obtain ⟨tail, hencode⟩ := s.txBuf.encode_drop_fits hp hm
  obtain ⟨tx, r, hok, -, -, hspec⟩ := encodeTx_spec (s := s) hc p
  have hr : r = .ok (p.wire s.options.version).length := by
    rw [encodeTx, if_pos hc, hencode] at hok
    cases hok
    rfl
  subst hr
  exact ⟨tx, hok, (hspec _ rfl hm).2.2⟩

/-- A packet that does not fit behind the cursor is reported as an error. -/
theorem encodeTx_unfit {cursor : ℕ} (hc : cursor ≤ maxPacketSize) (hdisc : ∀ d, p ≠ .disconnect d)
    (hp : ¬ p.Fits s.options.version (maxPacketSize - cursor)) :
    ∃ tx e, encodeTx cursor p s = .ok (.error (.err e)) (s.withTx tx) ∧
      tx.bytes.take cursor = s.txBuf.bytes.take cursor := by
  have hm : p.Measured s.options.version (maxPacketSize - cursor) :=
    fun he hroom => absurd ⟨he, hroom⟩ hp
  obtain ⟨tx, r, hok, htake, -, hspec⟩ := encodeTx_spec (s := s) hc p
  rcases r with e | n
  · have herror : ∃ e', e = .err e' := by
      rw [encodeTx, if_pos hc] at hok
      rcases hencode : p.encode s.options.version (s.txBuf.bytes.drop cursor) with
        ⟨n, tail⟩ | ⟨e', tail⟩
      · rw [hencode] at hok
        cases hok
      · rw [hencode] at hok
        cases hok
        apply encode_error hdisc _ hencode
        rwa [List.length_drop, s.txBuf.length_eq]
    obtain ⟨e', rfl⟩ := herror
    exact ⟨tx, e', hok, htake⟩
  · exact absurd (hspec n rfl hm).1 hp

theorem writeAll_of_ok (h : s.socket.WriteOk) (bytes : List UInt8) :
    writeAll bytes s = .ok () (s.withSocket (s.socket.wrote bytes)) := by
  rcases hresults : s.socket.writeResults with _ | ⟨r, later⟩
  · simp [writeAll, hresults, withSocket, Socket.wrote]
  · obtain rfl := h r (by simp [hresults])
    simp [writeAll, hresults, withSocket, Socket.wrote]

theorem flush_of_ok (h : s.socket.FlushOk) : flush s = .ok () (s.withSocket s.socket.flushed) := by
  rcases hresults : s.socket.flushResults with _ | ⟨r, later⟩
  · simp [flush, hresults, withSocket, Socket.flushed]
    rw [← hresults]
  · obtain rfl := h r (by simp [hresults])
    simp [flush, hresults, withSocket, Socket.flushed]

theorem writeTx_of_le {len : ℕ} (h : len ≤ maxPacketSize) :
    writeTx len s = writeAll (s.txBuf.bytes.take len) s := by
  have hrange : (range s.txBuf.bytes 0 len : Checked PacketError (List UInt8)) =
      .ok (s.txBuf.bytes.take len) := by
    rw [range_of_le (Nat.zero_le _) (by rw [s.txBuf.length_eq]; exact h), List.drop_zero]
  change (orMalformed (range s.txBuf.bytes 0 len) >>= writeAll) s = _
  rw [hrange]
  rfl

/-- A packet that fits is written, and then the transport is flushed. -/
theorem sendPacket_of_fits (hp : p.Fits s.options.version maxPacketSize)
    (hm : p.Measured s.options.version maxPacketSize) (now : ℕ) :
    ∃ tx, sendPacket p now s =
      (do writeAll (p.wire s.options.version); flush; setLastTx now) (s.withTx tx) := by
  obtain ⟨tx, hencode, htake⟩ := encodeTx_fits (Nat.zero_le _) hp hm
  rw [Nat.zero_add, List.take_zero, List.nil_append] at htake
  have hle := le_of_take_eq htake rfl
  refine ⟨tx, ?_⟩
  rw [sendPacket, run_bind hencode]
  change (writeTx (p.wire s.options.version).length >>= fun _ => _) (s.withTx tx) = _
  apply run_bind_congr
  rw [writeTx_of_le hle, txBuf_withTx, htake]

/-- The state after a packet has been sent. -/
def afterSend (s : Conn E R S W maxPacketSize) (tx : Buffer maxPacketSize) (bytes : List UInt8)
    (now : ℕ) : Conn E R S W maxPacketSize :=
  ((s.withTx tx).withSocket (s.socket.wrote bytes).flushed).withLastTx now

/-- A packet that fits is sent, unless the transport fails. -/
theorem sendPacket_fits (hp : p.Fits s.options.version maxPacketSize)
    (hm : p.Measured s.options.version maxPacketSize) (hwrite : s.socket.WriteOk)
    (hflush : s.socket.FlushOk) (now : ℕ) :
    ∃ tx, sendPacket p now s = .ok () (afterSend s tx (p.wire s.options.version) now) := by
  obtain ⟨tx, hrun⟩ := sendPacket_of_fits hp hm now
  refine ⟨tx, ?_⟩
  let t := (s.withTx tx).withSocket (s.socket.wrote (p.wire s.options.version))
  have hflushed : flush t = .ok () (t.withSocket t.socket.flushed) := flush_of_ok hflush
  rw [hrun, run_bind (writeAll_of_ok (s := s.withTx tx) hwrite _)]
  exact run_bind hflushed

/-- A packet that does not fit is not sent. -/
theorem sendPacket_unfit (hdisc : ∀ d, p ≠ .disconnect d)
    (hp : ¬ p.Fits s.options.version maxPacketSize) (now : ℕ) :
    ∃ tx, sendPacket p now s = .error (.err (.protocol .malformedPacket)) (s.withTx tx) := by
  obtain ⟨tx, e, hencode, -⟩ := encodeTx_unfit (Nat.zero_le _) hdisc hp
  refine ⟨tx, ?_⟩
  rw [sendPacket, run_bind hencode]
  rfl

/-! ## Programs that only use the transport -/

section
variable {C : MqttVersion → List UInt8 → Prop} {P : UInt8 → Prop} {s₀ : Conn E R S W maxPacketSize}

/-- An invariant that writing keeps. -/
theorem preserves_of_transmits {α : Type} {I : Conn E R S W maxPacketSize → Prop}
    {x : ConnM E R S W maxPacketSize α} (hI : ∀ s s', I s → Transmits C s s' → I s')
    (h : ∀ s₀, Preserves (Transmits C s₀) x) : Preserves I x :=
  fun s hs => (h s s .refl).mono (fun _ s' => hI s s' hs) fun _ s' => hI s s' hs

theorem sends_of_transmits {α : Type} {x : ConnM E R S W maxPacketSize α}
    (h : ∀ s₀, Preserves (Transmits (Heads P) s₀) x) : Preserves (Sends P s₀) x :=
  preserves_of_transmits (fun _ _ hs h => hs.trans h.sends) h

/-- An invariant that the use of the transport keeps. -/
theorem preserves_of_sends {α : Type} {I : Conn E R S W maxPacketSize → Prop}
    {x : ConnM E R S W maxPacketSize α} (hI : ∀ s s', I s → Sends P s s' → I s')
    (h : ∀ s₀, Preserves (Sends P s₀) x) : Preserves I x :=
  fun s hs => (h s s .refl).mono (fun _ s' => hI s s' hs) fun _ s' => hI s s' hs

/-- A program whose errors are ignored ends in a panic or without an error. -/
theorem ends_ignore {x : ConnM E R S W maxPacketSize Unit}
    {Q : Conn E R S W maxPacketSize → Prop} (h : Ends x s (fun _ => Q) fun _ => Q) :
    Ends (ignore x) s (fun _ => Q) fun e s' => (∀ e', e ≠ .err e') ∧ Q s' := by
  rw [Ends] at h ⊢
  rw [ignore]
  rcases hend : x s with ⟨u, s'⟩ | ⟨(e | _ | _), s'⟩
  · rwa [hend] at h
  · rwa [hend] at h
  · rw [hend] at h
    exact ⟨by simp, h⟩
  · rw [hend] at h
    exact ⟨by simp, h⟩

/-- Started in a state with the invariant, the program reports no error. -/
def Silent {α : Type} (I : Conn E R S W maxPacketSize → Prop) (x : ConnM E R S W maxPacketSize α) :
    Prop :=
  ∀ s, I s → Ends x s (fun _ s' => I s') fun e _ => ∀ e', e ≠ .err e'

theorem Silent.bind {α β : Type} {I : Conn E R S W maxPacketSize → Prop}
    {x : ConnM E R S W maxPacketSize α} {f : α → ConnM E R S W maxPacketSize β} (hx : Silent I x)
    (hf : ∀ a, Silent I (f a)) : Silent I (x >>= f) := fun s hs =>
  Ends.bind <| (hx s hs).mono (fun a s' hs' => hf a s' hs') fun _ _ h => h

theorem Silent.forM {γ : Type} {I : Conn E R S W maxPacketSize → Prop}
    {f : γ → ConnM E R S W maxPacketSize PUnit} (h : ∀ a, Silent I (f a)) (l : List γ) :
    Silent I (l.forM f) := by
  induction l with
  | nil => exact fun _ hs => hs
  | cons a l ih =>
    apply (h a).bind
    intro _
    exact ih

theorem silent_ignore {I : Conn E R S W maxPacketSize → Prop}
    {x : ConnM E R S W maxPacketSize Unit} (h : Preserves I x) : Silent I (ignore x) :=
  fun s hs => (ends_ignore (h s hs)).mono (fun _ _ h => h) fun _ _ h => h.1

theorem preserves_ignore {I : Conn E R S W maxPacketSize → Prop}
    {x : ConnM E R S W maxPacketSize Unit} (h : Preserves I x) : Preserves I (ignore x) := by
  intro s hs
  have hx := h s hs
  rw [Ends] at hx ⊢
  rw [ignore]
  rcases hend : x s with ⟨u, s'⟩ | ⟨(e | _ | _), s'⟩
  all_goals
    rw [hend] at hx
    exact hx

theorem preserves_lift {α : Type} (I : Conn E R S W maxPacketSize → Prop) (e : ClientError E)
    (x : Checked PacketError α) : Preserves I (lift e x) := by
  rcases x with (e' | _ | _) | a
  · exact Preserves.throw _
  · exact Preserves.throw _
  · exact Preserves.throw _
  · exact Preserves.pure a

/-- Nothing comes after a call of the packet layer that has failed. -/
theorem lift_error_bind {α β : Type} (e : ClientError E) (fault : Fault PacketError)
    (f : α → ConnM E R S W maxPacketSize β) (s : Conn E R S W maxPacketSize) :
    ∃ e', (lift e (.error fault) >>= f) s = .error e' s := by
  rcases fault with e' | _ | _
  · exact ⟨.err e, rfl⟩
  · exact ⟨.panic, rfl⟩
  · exact ⟨.diverge, rfl⟩

theorem preserves_lift_error {α β : Type} (I : Conn E R S W maxPacketSize → Prop) (e : ClientError E)
    (fault : Fault PacketError) (f : α → ConnM E R S W maxPacketSize β) :
    Preserves I (lift e (.error fault) >>= f) := by
  intro s hs
  obtain ⟨e', h⟩ := lift_error_bind e fault f s
  rw [Ends, h]
  exact hs

theorem preserves_flush {I : Conn E R S W maxPacketSize → Prop}
    (hI : ∀ s t, I s → t.written = s.socket.written → (s.socket.Steady → t.Steady) →
      I (s.withSocket t)) : Preserves I flush := by
  intro s hs
  rw [Ends, flush]
  rcases hresults : s.socket.flushResults with _ | ⟨r, later⟩
  · exact hs
  · have hsteady (h : s.socket.Steady) : { s.socket with flushResults := later }.Steady :=
      ⟨h.writes, fun r hr => h.flushes r (by simp [hresults, hr])⟩
    cases r with
    | none => exact hI s _ hs rfl hsteady
    | some e => exact hI s _ hs rfl hsteady

/-- Where bytes in `C` end, the packet may be encoded. -/
def Extends (C : MqttVersion → List UInt8 → Prop) (p : MqttPacket) : Prop :=
  ∀ ⦃version bytes buf n buf'⦄, C version bytes → p.encode version buf = .ok n buf' →
    C version (bytes ++ buf'.take n)

/-- The transmit buffer begins with `len` bytes in `C`. -/
def Loaded (C : MqttVersion → List UInt8 → Prop) (len : ℕ) (s : Conn E R S W maxPacketSize) : Prop :=
  C s.options.version (s.txBuf.bytes.take len)

theorem loaded_zero (hC : ∀ version, C version []) (s : Conn E R S W maxPacketSize) : Loaded C 0 s :=
  hC s.options.version

/-- Nothing, which has no first byte. -/
theorem heads_nil (version : MqttVersion) : Heads P version [] := by simp [Heads]

theorem extends_heads (hP : P p.first) : Extends (Heads P) p := by
  intro version bytes buf n buf' hbytes hencode b hb
  obtain ⟨hpos, hhead⟩ := head_encode hencode
  rw [List.head?_append, List.head?_take, if_neg (by omega), hhead] at hb
  rcases bytes with _ | ⟨c, bytes⟩
  · cases hb
    exact hP
  · exact hbytes b hb

theorem transmits_flush : Preserves (Transmits C s₀) flush :=
  preserves_flush fun _ _ h hwritten hsteady => h.quiet rfl hwritten hsteady

theorem transmits_setLastTx (now : ℕ) : Preserves (Transmits C s₀) (setLastTx now) :=
  Preserves.modify fun _ h => h.same rfl rfl

/-- Also a write that fails has written a beginning of the bytes. -/
theorem ends_writeAll (hs : Transmits C s₀ s) {bytes : List UInt8} (h : C s.options.version bytes) :
    Ends (writeAll bytes) s (fun _ s' => Transmits C s₀ s') fun _ s' => Transmits C s₀ s' := by
  rw [hs.options] at h
  rw [Ends, writeAll]
  rcases hresults : s.socket.writeResults with _ | ⟨r, later⟩
  · exact hs.write h (List.prefix_refl bytes) rfl rfl fun h => ⟨by simp, h.flushes⟩
  · have hsteady (h : s.socket.Steady) (written : List (List UInt8)) :
        { s.socket with writeResults := later, written }.Steady :=
      ⟨fun r hr => h.writes r (by simp [hresults, hr]), h.flushes⟩
    rcases r with _ | ⟨n, e⟩
    · exact hs.write h (List.prefix_refl bytes) rfl rfl fun h => hsteady h _
    · exact hs.write h (List.take_prefix n bytes) rfl rfl fun h => hsteady h _

theorem ends_writeTx (hs : Transmits C s₀ s) {len : ℕ} (h : Loaded C len s) :
    Ends (writeTx len) s (fun _ s' => Transmits C s₀ s') fun _ s' => Transmits C s₀ s' := by
  by_cases hlen : len ≤ maxPacketSize
  · rw [Ends, writeTx_of_le hlen]
    exact ends_writeAll hs h
  · have hrange : (range s.txBuf.bytes 0 len : Checked PacketError (List UInt8)) = .error .panic := by
      rw [range, if_neg (by rw [s.txBuf.length_eq]; omega)]
    change Ends (orMalformed (range s.txBuf.bytes 0 len) >>= writeAll) s _ _
    rw [hrange]
    exact preserves_lift_error _ _ _ _ s hs

/-- Encoding behind the cursor keeps what stands in front of it, and extends it by the packet. -/
theorem ends_encodeTx (hs : Transmits C s₀ s) {cursor : ℕ} (hp : Extends C p)
    (hloaded : Loaded C cursor s) :
    Ends (encodeTx cursor p) s
      (fun r s' => Transmits C s₀ s' ∧ Loaded C cursor s' ∧
        ∀ n, r = .ok n → Loaded C (cursor + n) s')
      fun _ s' => Transmits C s₀ s' := by
  by_cases hc : cursor ≤ maxPacketSize
  · have hlen := s.txBuf.length_encode_drop p s.options.version cursor
    rw [Ends, encodeTx, if_pos hc]
    rcases hencode : p.encode s.options.version (s.txBuf.bytes.drop cursor) with
      ⟨n, tail⟩ | ⟨e, tail⟩
    · rw [hencode, EStateM.Result.final_ok] at hlen
      refine ⟨hs.same rfl rfl, ?_, ?_⟩
      · rwa [Loaded, Buffer.take_setTail _ hc hlen]
      · rintro m ⟨⟩
        have hfront : (s.txBuf.bytes.take cursor).length = cursor := by
          rw [List.length_take, s.txBuf.length_eq, Nat.min_eq_left hc]
        rw [Loaded, Buffer.bytes_setTail _ hc hlen, List.take_append, hfront,
          List.take_of_length_le (by omega), Nat.add_sub_cancel_left]
        exact hp hloaded hencode
    · rw [hencode, EStateM.Result.final_error] at hlen
      refine ⟨hs.same rfl rfl, ?_, by simp⟩
      rwa [Loaded, Buffer.take_setTail _ hc hlen]
  · rw [Ends, encodeTx, if_neg hc]
    exact hs

theorem transmits_encodeTx (cursor : ℕ) (p : MqttPacket) :
    Preserves (Transmits C s₀) (encodeTx cursor p) := by
  intro s hs
  by_cases hc : cursor ≤ maxPacketSize
  · obtain ⟨tx, r, hok, -⟩ := encodeTx_spec (s := s) hc p
    rw [Ends, hok]
    exact hs.same rfl rfl
  · rw [Ends, encodeTx, if_neg hc]
    exact hs

/-- What has been encoded is written. -/
theorem ends_writeTx_bind {α : Type} {f : Unit → ConnM E R S W maxPacketSize α}
    (hs : Transmits C s₀ s) {len : ℕ} (h : Loaded C len s) (hf : Preserves (Transmits C s₀) (f ())) :
    Ends (writeTx len >>= f) s (fun _ s' => Transmits C s₀ s') fun _ s' => Transmits C s₀ s' := by
  apply Ends.bind
  exact (ends_writeTx hs h).mono (fun _ s' h => hf s' h) fun _ _ h => h

section
variable (hC : ∀ version, C version []) (hp : Extends C p)
include hC hp

/-- After a packet has been encoded it may be written. -/
theorem transmits_encodeTx_bind {α : Type} {f : Checked PacketError ℕ → ConnM E R S W maxPacketSize α}
    (hok : ∀ n s, Transmits C s₀ s → Loaded C n s →
      Ends (f (.ok n)) s (fun _ s' => Transmits C s₀ s') fun _ s' => Transmits C s₀ s')
    (herror : ∀ e, Preserves (Transmits C s₀) (f (.error e))) :
    Preserves (Transmits C s₀) (encodeTx 0 p >>= f) := by
  intro s hs
  apply Ends.bind
  apply (ends_encodeTx hs hp (loaded_zero hC s)).mono
  · rintro (e | n) s' ⟨hs', -, hloaded⟩
    · exact herror e s' hs'
    · exact hok n s' hs' (by simpa using hloaded n rfl)
  · exact fun _ _ h => h

theorem transmits_sendPacket (now : ℕ) : Preserves (Transmits C s₀) (sendPacket p now) := by
  apply transmits_encodeTx_bind hC hp
  · intro n s hs hloaded
    exact ends_writeTx_bind hs hloaded
      (Preserves.bind transmits_flush fun _ => transmits_setLastTx now)
  · intro e
    exact preserves_lift_error _ _ _ _

theorem transmits_tryWritePacket : Preserves (Transmits C s₀) (tryWritePacket p) := by
  apply transmits_encodeTx_bind hC hp
  · intro n s hs hloaded
    exact (ends_ignore (ends_writeTx hs hloaded)).mono (fun _ _ h => h) fun _ _ h => h.2
  · rintro (e | _ | _)
    · exact Preserves.pure _
    · exact preserves_lift _ _ _
    · exact preserves_lift _ _ _

end

theorem sends_flush : Preserves (Sends P s₀) flush := sends_of_transmits fun _ => transmits_flush

theorem sends_setLastTx (now : ℕ) : Preserves (Sends P s₀) (setLastTx now) :=
  sends_of_transmits fun _ => transmits_setLastTx now

theorem sends_encodeTx (cursor : ℕ) (p : MqttPacket) : Preserves (Sends P s₀) (encodeTx cursor p) :=
  sends_of_transmits fun _ => transmits_encodeTx cursor p

theorem sends_writeTx (len : ℕ) : Preserves (Sends (fun _ => True) s₀) (writeTx len) :=
  sends_of_transmits fun _ _ hs => ends_writeTx hs fun _ _ => trivial

theorem sends_sendPacket (hP : P p.first) (now : ℕ) : Preserves (Sends P s₀) (sendPacket p now) :=
  sends_of_transmits fun _ => transmits_sendPacket heads_nil (extends_heads hP) now

theorem sends_tryWritePacket (hP : P p.first) : Preserves (Sends P s₀) (tryWritePacket p) :=
  sends_of_transmits fun _ => transmits_tryWritePacket heads_nil (extends_heads hP)

theorem silent_tryWritePacket : Silent (Sends (fun _ => True) s₀) (tryWritePacket p) := by
  intro s hs
  apply Ends.bind
  have hencode : Ends (encodeTx 0 p) s (fun _ s' => Sends (fun _ => True) s₀ s')
      fun _ s' => Sends (fun _ => True) s₀ s' := sends_encodeTx 0 p s hs
  obtain ⟨tx, r, hok, -⟩ := encodeTx_spec (s := s) (Nat.zero_le _) p
  rw [Ends, hok] at hencode ⊢
  rcases r with (e | _ | _) | len
  · exact hencode
  · exact Ends.throw fun _ h => by cases h
  · exact Ends.throw fun _ h => by cases h
  · exact silent_ignore (sends_writeTx len) _ hencode

/-- The PUBACK of a packet id. -/
theorem transmits_acknowledgePublish (hC : ∀ version, C version [])
    (hp : ∀ packetId, Extends C (.pubAck (Ack.new packetId))) (message : PublishMessage) (now : ℕ) :
    Preserves (Transmits C s₀) (acknowledgePublish message now) := by
  unfold acknowledgePublish
  split
  · apply transmits_encodeTx_bind hC (hp _)
    · intro n s hs hloaded
      exact ends_writeTx_bind hs hloaded
        (Preserves.bind transmits_flush fun _ => transmits_setLastTx now)
    · rintro (e | _ | _)
      · exact Preserves.pure _
      · exact preserves_lift _ _ _
      · exact preserves_lift _ _ _
  · exact Preserves.pure _

theorem sends_acknowledgePublish (message : PublishMessage) (now : ℕ) (hP : P 0x40) :
    Preserves (Sends P s₀) (acknowledgePublish message now) :=
  sends_of_transmits fun _ =>
    transmits_acknowledgePublish heads_nil (fun _ => extends_heads hP) message now

theorem transmits_sendDatagram (len : ℕ) : Preserves (Transmits C s₀) (sendDatagram len) := by
  apply Preserves.get_bind
  intro s _
  apply Preserves.bind (preserves_lift _ _ _)
  intro bytes
  apply Preserves.get_bind
  intro s _
  dsimp only
  split
  · exact Preserves.pure _
  · apply Preserves.bind (Preserves.modify fun _ h => h.quiet rfl rfl fun h => ⟨h.writes, h.flushes⟩)
    exact fun _ => Preserves.pure _
  · apply Preserves.bind (Preserves.modify fun _ h => h.quiet rfl rfl fun h => ⟨h.writes, h.flushes⟩)
    exact fun _ => Preserves.pure _

theorem transmits_read (cursor : ℕ) : Preserves (Transmits C s₀) (read cursor) := by
  intro s hs
  rw [Ends, read]
  by_cases hbehind : cursor > maxPacketSize
  · rw [if_pos hbehind]
    exact hs
  · rw [if_neg hbehind]
    by_cases hfull : cursor = maxPacketSize
    · rw [if_pos hfull]
      exact hs
    · rw [if_neg hfull]
      dsimp only
      rcases s.socket.incoming with _ | ⟨e | segment, later⟩
      · exact hs
      · exact hs.quiet rfl rfl fun h => ⟨h.writes, h.flushes⟩
      · exact hs.quiet rfl rfl fun h => ⟨h.writes, h.flushes⟩

/-- Cutting and decoding changes nothing at all. -/
theorem parseFrames_state (fuel : ℕ) (iter : RawPacketFrameIter) (received : List Received)
    (consumed : ℕ) (I : Conn E R S W maxPacketSize → Prop) :
    Preserves I (parseFrames fuel iter received consumed) := by
  induction fuel generalizing iter received consumed with
  | zero => exact Preserves.throw _
  | succ fuel ih =>
    apply Preserves.bind (preserves_lift _ _ _)
    intro next
    dsimp only
    split
    · exact Preserves.pure _
    · exact ih _ _ _
    · apply Preserves.get_bind
      intro s _
      exact Preserves.bind (preserves_lift _ _ _) fun _ => ih _ _ _

/-- Reading and the receive buffer are all that a receive changes. -/
theorem preserves_receiveFrames {I : Conn E R S W maxPacketSize → Prop}
    (hread : ∀ cursor, Preserves I (EventLoop.read cursor))
    (hbuf : ∀ s rxBuf, I s → I { s with rxBuf }) (rxCursor : ℕ) :
    Preserves I (receiveFrames rxCursor) := by
  apply Preserves.bind (hread rxCursor)
  intro n
  split
  · exact Preserves.pure _
  · apply Preserves.ite
    · intro _
      exact Preserves.throw _
    · intro _
      apply Preserves.get_bind
      intro s _
      apply Preserves.bind (preserves_lift _ _ _)
      intro bytes
      apply Preserves.bind (parseFrames_state _ _ _ _ _)
      intro parsed
      apply Preserves.bind (preserves_lift _ _ _)
      intro left
      apply Preserves.ite
      · intro _
        exact Preserves.bind (Preserves.modify fun s h => hbuf s _ h) fun _ => Preserves.pure _
      · intro _
        exact Preserves.pure _

theorem transmits_receiveFrames (rxCursor : ℕ) :
    Preserves (Transmits C s₀) (receiveFrames rxCursor) :=
  preserves_receiveFrames transmits_read (fun _ _ h => h.same rfl rfl) rxCursor

theorem transmits_driveTick (hC : ∀ version, C version []) (hp : Extends C .pingReq) (now : ℕ) :
    Preserves (Transmits C s₀) (driveTick now) := by
  apply Preserves.get_bind
  intro s _
  apply Preserves.ite
  · intro _
    exact transmits_sendPacket hC hp now
  · intro _
    exact Preserves.pure _

theorem transmits_performConnectHandshake (hC : ∀ version, C version [])
    (hp : ∀ options, Extends C (.connect (connectPacket options))) :
    Preserves (Transmits C s₀) performConnectHandshake := by
  apply Preserves.get_bind
  intro s _
  apply transmits_encodeTx_bind hC (hp s.options)
  · intro n s hs hloaded
    apply ends_writeTx_bind hs hloaded
    apply Preserves.bind transmits_flush
    intro _
    apply Preserves.bind (transmits_read 0)
    intro readLen
    split
    · exact Preserves.throw _
    · apply Preserves.ite
      · intro _
        exact Preserves.throw _
      · intro _
        apply Preserves.get_bind
        intro s _
        apply Preserves.bind (preserves_lift _ _ _)
        intro bytes
        apply Preserves.bind (preserves_lift _ _ _)
        intro packet
        split
        · apply Preserves.ite
          · intro _
            exact Preserves.pure _
          · intro _
            exact Preserves.throw _
        · exact Preserves.throw _
  · intro e
    exact preserves_lift_error _ _ _ _

theorem sends_sendDatagram (len : ℕ) : Preserves (Sends P s₀) (sendDatagram len) :=
  sends_of_transmits fun _ => transmits_sendDatagram len

theorem sends_receiveFrames (rxCursor : ℕ) : Preserves (Sends P s₀) (receiveFrames rxCursor) :=
  sends_of_transmits fun _ => transmits_receiveFrames rxCursor

theorem sends_driveTick (hP : P 0xC0) (now : ℕ) : Preserves (Sends P s₀) (driveTick now) :=
  sends_of_transmits fun _ => transmits_driveTick heads_nil (extends_heads hP) now

theorem sends_performConnectHandshake (hP : P 0x10) :
    Preserves (Sends P s₀) performConnectHandshake :=
  sends_of_transmits fun _ =>
    transmits_performConnectHandshake heads_nil fun _ => extends_heads hP

/-! ## Publishing -/

/-- The packet id that a publish takes. -/
def takenId (s : Conn E R S W maxPacketSize) (message : PublishMessage) : Option UInt16 :=
  if message.qos ≠ .atMostOnce then some s.nextPacketId else none

/-- The state after a publish has taken its packet id. -/
def tracked (s : Conn E R S W maxPacketSize) (message : PublishMessage) (ackSender : Option R) :
    Conn E R S W maxPacketSize :=
  if message.qos ≠ .atMostOnce then
    { s with
      nextPacketId := succPacketId s.nextPacketId
      inflightPublishes := s.inflightPublishes.set s.nextPacketId
        ({ message with packetId := some s.nextPacketId }, ackSender) }
  else s

theorem trackPublish_eq (message : PublishMessage) (ackSender : Option R) :
    trackPublish message ackSender s = .ok (takenId s message) (tracked s message ackSender) := by
  rw [trackPublish, takenId, tracked]
  split <;> rfl

@[simp] theorem socket_tracked (message : PublishMessage) (ackSender : Option R) :
    (tracked s message ackSender).socket = s.socket := by
  rw [tracked]
  split <;> rfl

@[simp] theorem txBuf_tracked (message : PublishMessage) (ackSender : Option R) :
    (tracked s message ackSender).txBuf = s.txBuf := by
  rw [tracked]
  split <;> rfl

@[simp] theorem options_tracked (message : PublishMessage) (ackSender : Option R) :
    (tracked s message ackSender).options = s.options := by
  rw [tracked]
  split <;> rfl

@[simp] theorem answers_tracked (message : PublishMessage) (ackSender : Option R) :
    (tracked s message ackSender).answers = s.answers := by
  rw [tracked]
  split <;> rfl

section
variable {I : Conn E R S W maxPacketSize → Prop} (hC : ∀ version, C version [])
  (hI : ∀ s s', I s → Transmits C s s' → I s')
include hC hI

/-- A round of a batch: the buffer holds the packets that are to be written. -/
theorem ends_sendPublishBatchRound {cursor : ℕ} (hs : I s) (hloaded : Loaded C cursor s)
    {message : PublishMessage} (hp : ∀ id, Extends C (publishPacket message id message.dup))
    (htrack : ∀ s, I s → I (tracked s message none)) (count : ℕ) :
    Ends (sendPublishBatchRound message cursor count) s (fun next s' => I s' ∧ Loaded C next.1 s')
      fun _ s' => I s' := by
  let t := tracked s message none
  have ht : I t := htrack s hs
  have hfront : Loaded C cursor t := by simpa [t, Loaded] using hloaded
  rw [Ends, sendPublishBatchRound, run_bind (trackPublish_eq message none)]
  apply Ends.bind
  apply (ends_encodeTx (Transmits.refl (C := C) (s := t)) (hp _) hfront).mono
  · rintro r s' ⟨hsends, hkept, hextended⟩
    have hI' : I s' := hI t s' ht hsends
    rcases r with (e | _ | _) | len
    · apply Ends.ite
      · intro _
        apply Ends.bind
        apply (ends_writeTx hsends hkept).mono
        · intro _ u hu
          apply Ends.bind
          apply (ends_encodeTx hu (hp _) (loaded_zero hC u)).mono
          · rintro (fault | len) v ⟨hv, -, hextended⟩
            · obtain ⟨e', herror⟩ := lift_error_bind (.protocol .malformedPacket) fault
                (fun len => pure (len, count + 1)) v
              rw [Ends, orMalformed, herror]
              exact hI t v ht hv
            · exact ⟨hI t v ht hv, by simpa using hextended len rfl⟩
          · exact fun _ v hv => hI t v ht hv
        · exact fun _ u hu => hI t u ht hu
      · intro _
        exact ⟨hI', hkept⟩
    · exact hI'
    · exact hI'
    · exact ⟨hI', hextended len rfl⟩
  · exact fun _ s' h => hI t s' ht h

/-- A batch. -/
theorem preserves_sendPublishBatchDirect {messages : List PublishMessage}
    (hp : ∀ message ∈ messages, ∀ id, Extends C (publishPacket message id message.dup))
    (htrack : ∀ message ∈ messages, ∀ s, I s → I (tracked s message none)) (now : ℕ) :
    Preserves I (sendPublishBatchDirect messages now) := by
  have hloop (cursor count : ℕ) (s : Conn E R S W maxPacketSize) (hs : I s)
      (hloaded : Loaded C cursor s) :
      Ends (sendPublishBatchLoop messages cursor count) s
        (fun next s' => I s' ∧ Loaded C next.1 s') fun _ s' => I s' := by
    induction messages generalizing cursor count s with
    | nil => exact ⟨hs, hloaded⟩
    | cons message messages ih =>
      apply Ends.bind
      apply (ends_sendPublishBatchRound hC hI hs hloaded (hp message (by simp))
        (htrack message (by simp)) count).mono
      · rintro ⟨cursor', count'⟩ s' ⟨hs', hloaded'⟩
        exact ih (fun m hm => hp m (by simp [hm])) (fun m hm => htrack m (by simp [hm])) cursor'
          count' s' hs' hloaded'
      · exact fun _ _ h => h
  intro s hs
  apply Ends.bind
  apply (hloop 0 0 s hs (loaded_zero hC s)).mono
  · rintro ⟨cursor, count⟩ t ⟨ht, hloaded⟩
    apply Ends.ite
    · intro _
      have hrest : Preserves (Transmits C t) (do flush; setLastTx now; pure count) :=
        Preserves.bind transmits_flush fun _ =>
          Preserves.bind (transmits_setLastTx now) fun _ => Preserves.pure count
      exact (ends_writeTx_bind .refl hloaded hrest).mono (fun _ u h => hI t u ht h)
        fun _ u h => hI t u ht h
    · intro _
      exact ht
  · exact fun _ _ h => h

end

end

end EventLoop

end MqttEngine.Tokio
