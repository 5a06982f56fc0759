import MqttEngine.Packet.Trailing

/-!
# Decoding a frame from a longer buffer

What `decode` returns on a frame with other bytes behind it, as `poll` and the connect
handshakes decode it from the receive buffer. The decoders compare some of their reads with
the end of the content, and leave others to the end of the buffer: strings, binary data,
property blocks, and the single bytes behind a topic or a protocol name. Where one of these
would reach beyond the frame, the frame alone is reported as incomplete, and in a longer
buffer it takes bytes of what follows.

## Main definitions

* `Overreads` — a reader of `decode` reaches beyond the frame.

## Main results

* `decode_append_iff` — `decode` looks only at its own frame unless a reader reaches beyond it.
-/

namespace MqttEngine
open Checked

/-! ## Where a decoder reaches beyond the frame -/

/-- The payload of CONNECT, with the properties in front of it. -/
def Connect.readPayload (v5 : Bool) (flags : UInt8) (contentEnd cursor : ℕ) (buf : List UInt8) :
    Checked PacketError
      ((Properties × String × Option Will × Option String × Option String) × ℕ) := do
  let (properties, cursor) ← readPropertiesIf (v5 ∧ cursor < contentEnd) cursor buf
  let (clientId, cursor) ← readUtf8String cursor buf
  let (will, cursor) ← readIf (flags &&& 0x04 ≠ 0)
    (Will.read v5 contentEnd (QoS.fromByte ((flags >>> 3) &&& 0x03)) (flags &&& 0x20 ≠ 0)) cursor buf
  let (username, cursor) ← readIf (flags &&& 0x80 ≠ 0) readUtf8String cursor buf
  let (password, cursor) ← readIf (flags &&& 0x40 ≠ 0) readUtf8String cursor buf
  .ok ((properties, clientId, will, username, password), cursor)

/-- CONNECT: the protocol name, the level behind a name that is refused, or a field of the
payload. -/
def Connect.Overreads (f : List UInt8) (version : MqttVersion) (start stop : ℕ) : Prop :=
  RunsOut (readUtf8String start f) ∨
    ∃ name pos, readUtf8String start f = .ok (name, pos) ∧
      if name = "MQTT" ∨ name = "MQIsdp" then
        pos + 4 ≤ stop ∧ ∃ level flags, f[pos]? = some level ∧ f[pos + 1]? = some flags ∧
          RunsOut (Connect.readPayload (version = .v5 ∨ level = 5) flags stop (pos + 4) f)
      else pos = stop

/-- CONNACK: the property block. -/
def ConnAck.Overreads (f : List UInt8) (version : MqttVersion) (start stop : ℕ) : Prop :=
  start + 2 ≤ stop ∧ RunsOut (readPropertiesIf (version = .v5 ∧ start + 2 < stop) (start + 2) f)

/-- PUBLISH: the topic or the property block. -/
def Publish.Overreads (f : List UInt8) (version : MqttVersion) (header : UInt8)
    (start stop : ℕ) : Prop :=
  RunsOut (readUtf8String start f) ∨
    ∃ topic topicEnd, readUtf8String start f = .ok (topic, topicEnd) ∧
      let idEnd := if publishQoS header = .atMostOnce then topicEnd else topicEnd + 2
      RunsOut (readPropertiesIf (version = .v5 ∧ idEnd < stop) idEnd f)

/-- The publish acknowledgements: the property block. -/
def Ack.Overreads (f : List UInt8) (version : MqttVersion) (start stop : ℕ) : Prop :=
  start + 2 ≤ stop ∧ RunsOut (readReason version stop (start + 2) f)

/-- SUBSCRIBE, UNSUBSCRIBE and their acknowledgements: the property block or an item of the
list. -/
def ListOverreads {β : Type} (item : ℕ → List UInt8 → Checked PacketError (β × ℕ))
    (f : List UInt8) (version : MqttVersion) (start stop : ℕ) : Prop :=
  start + 2 ≤ stop ∧
    (RunsOut (readPropertiesIf (version = .v5 ∧ start + 2 < stop) (start + 2) f) ∨
      ∃ properties pos, readPropertiesIf (version = .v5 ∧ start + 2 < stop) (start + 2) f =
        .ok (properties, pos) ∧ RunsOut (readList item stop pos f))

/-- DISCONNECT: the property block. -/
def Disconnect.Overreads (f : List UInt8) (version : MqttVersion) (start stop : ℕ) : Prop :=
  RunsOut (readReason version stop start f)

/-- A reader of the decoder for a packet type reaches beyond the frame. -/
def OverreadsType (packetType : ℕ) (f : List UInt8) (version : MqttVersion) (header : UInt8)
    (start stop : ℕ) : Prop :=
  match packetType with
  | 1 => Connect.Overreads f version start stop
  | 2 => ConnAck.Overreads f version start stop
  | 3 => Publish.Overreads f version header start stop
  | 4 | 5 | 6 | 7 => Ack.Overreads f version start stop
  | 8 => ListOverreads readTopic f version start stop
  | 9 | 11 => ListOverreads readCode f version start stop
  | 10 => ListOverreads readUtf8String f version start stop
  | 14 => Disconnect.Overreads f version start stop
  | _ => False

/-- A reader of `decode` reaches beyond the frame `f`. -/
def Overreads (f : List UInt8) (version : MqttVersion) : Prop :=
  ∃ header tail start stop, f = header :: tail ∧ readContentBounds f = .ok (start, stop) ∧
    OverreadsType (header >>> 4).toNat f version header start stop

/-! ## Readers of the decoders -/

section
variable {β γ : Type} {f : List UInt8} {n : ℕ} {cursor : ℕ}

theorem tracks_propertiesIf {c : Prop} [Decidable c] (hcursor : cursor ≤ f.length)
    (hn : reach + 65537 ≤ n) : Tracks f n (readPropertiesIf c cursor) := by
  by_cases hc : c
  · have hread : readPropertiesIf c cursor = readProperties cursor := by
      funext buf
      rw [readPropertiesIf, if_pos hc]
    have hroom : reach + 4 ≤ n := Nat.le_trans (Nat.add_le_add_left (by decide) _) hn
    rw [hread]
    exact tracks_properties hcursor hroom
  · have hread : readPropertiesIf c cursor = fun _ => .ok (.empty, cursor) := by
      funext buf
      rw [readPropertiesIf, if_neg hc]
    rw [hread]
    exact tracks_ok hcursor

theorem tracks_readIf {flag : Bool} {read : ℕ → List UInt8 → Checked PacketError (β × ℕ)}
    (hcursor : cursor ≤ f.length) (h : Tracks f n (read cursor)) :
    Tracks f n (readIf flag read cursor) := by
  cases flag with
  | false => exact tracks_ok hcursor
  | true =>
    change Tracks f n fun buf => read cursor buf >>= fun x => .ok (some x.1, x.2)
    apply Tracks.bind h
    · intro a c ha
      exact tracks_ok (h.inside a c ha)
    · intro hrun
      exact (h.leaves hrun).bind fun a c hle hreach => leavesFrame_ok hle hreach

/-- Behind the frame a sequence that starts with a string fails. -/
theorem leaves_string_bind {g : String × ℕ → Checked PacketError (γ × ℕ)} (h : f.length ≤ cursor)
    (hcursor : cursor ≤ f.length + reach) (hn : reach + 65537 ≤ n) :
    LeavesFrame f (readUtf8String cursor (f ++ filler n) >>= g) := by
  rw [utf8String_filler hcursor hn (.inl (by omega))]
  exact leavesFrame_error (by decide)

/-- A sequence that starts with a string. -/
theorem Tracks.string_bind {g : String × ℕ → List UInt8 → Checked PacketError (γ × ℕ)}
    (hcursor : cursor ≤ f.length) (hn : reach + 65537 ≤ n)
    (hg : ∀ a c, c ≤ f.length → Tracks f n (g (a, c))) :
    Tracks f n fun buf => readUtf8String cursor buf >>= fun x => g x buf := by
  have hread := tracks_utf8String hcursor hn
  apply Tracks.bind hread
  · intro a c ha
    exact hg a c (hread.inside a c ha)
  · intro hrun
    rw [utf8String_filler (by omega) hn (.inr (runsOut_utf8String.mp hrun))]
    exact leavesFrame_error (by decide)

theorem tracks_will {v5 : Bool} {qos : QoS} {retain : Bool} {stop : ℕ}
    (hcursor : cursor ≤ f.length) (hn : reach + 65537 ≤ n) :
    Tracks f n (Will.read v5 stop qos retain cursor) := by
  have hprops := tracks_propertiesIf (f := f) (c := v5 ∧ cursor < stop) hcursor hn
  apply Tracks.bind hprops
  · intro properties c hc
    apply Tracks.string_bind (hprops.inside properties c hc) hn
    intro topic c hc
    have hpayload := tracks_lengthPrefixed hc hn
    apply Tracks.bind hpayload
    · intro payload c hc
      exact tracks_ok (hpayload.inside payload c hc)
    · intro hrun
      exact (hpayload.leaves hrun).bind fun _ _ hle hreach => leavesFrame_ok hle hreach
  · intro hrun
    exact (hprops.leaves hrun).bind fun _ _ hle hreach => leaves_string_bind hle hreach hn

/-- Behind the frame a string that is read under a flag fails, or nothing is read. -/
theorem leaves_readIf {flag : Bool} (h : f.length ≤ cursor) (hcursor : cursor ≤ f.length + reach)
    (hn : reach + 65537 ≤ n) :
    LeavesFrame f (readIf flag readUtf8String cursor (f ++ filler n)) := by
  cases flag with
  | false => exact leavesFrame_ok h hcursor
  | true => exact leaves_string_bind h hcursor hn

theorem tracks_payload {v5 : Bool} {flags : UInt8} {stop : ℕ} (hcursor : cursor ≤ f.length)
    (hn : reach + 65537 ≤ n) : Tracks f n (Connect.readPayload v5 flags stop cursor) := by
  have hprops := tracks_propertiesIf (f := f) (c := v5 ∧ cursor < stop) hcursor hn
  apply Tracks.bind hprops
  · intro properties c hc
    apply Tracks.string_bind (hprops.inside properties c hc) hn
    intro clientId c hc
    have hwill : Tracks f n (readIf (flags &&& 0x04 ≠ 0)
        (Will.read v5 stop (QoS.fromByte ((flags >>> 3) &&& 0x03)) (flags &&& 0x20 ≠ 0)) c) :=
      tracks_readIf hc (tracks_will hc hn)
    apply Tracks.bind hwill
    · intro will c hc
      have hc := hwill.inside will c hc
      have husername : Tracks f n (readIf (flags &&& 0x80 ≠ 0) readUtf8String c) :=
        tracks_readIf hc (tracks_utf8String hc hn)
      apply Tracks.bind husername
      · intro username c hc
        have hc := husername.inside username c hc
        have hpassword : Tracks f n (readIf (flags &&& 0x40 ≠ 0) readUtf8String c) :=
          tracks_readIf hc (tracks_utf8String hc hn)
        apply Tracks.bind hpassword
        · intro password c hc
          exact tracks_ok (hpassword.inside password c hc)
        · intro hrun
          exact (hpassword.leaves hrun).bind fun _ _ hle hreach => leavesFrame_ok hle hreach
      · intro hrun
        apply (husername.leaves hrun).bind
        intro _ _ hle hreach
        exact (leaves_readIf hle hreach hn).bind fun _ _ hle hreach => leavesFrame_ok hle hreach
    · intro hrun
      apply (hwill.leaves hrun).bind
      intro _ _ hle hreach
      apply (leaves_readIf hle hreach hn).bind
      intro _ _ hle hreach
      exact (leaves_readIf hle hreach hn).bind fun _ _ hle hreach => leavesFrame_ok hle hreach
  · intro hrun
    exact (hprops.leaves hrun).bind fun _ _ hle hreach => leaves_string_bind hle hreach hn

/-- A byte that is taken without a bound. -/
theorem tracks_get {g : UInt8 → β} (hcursor : cursor ≤ f.length) (hn : reach + 65537 ≤ n) :
    Tracks f n fun buf =>
      get buf cursor .incompletePacket >>= fun b => .ok (g b, cursor + 1) := by
  rcases Nat.lt_or_ge cursor f.length with hlt | hge
  · have hf (t : List UInt8) : get (f ++ t) cursor PacketError.incompletePacket = .ok f[cursor] := by
      rw [get_append hlt, get_of_lt hlt]
    have hf' : get f cursor PacketError.incompletePacket = .ok f[cursor] := get_of_lt hlt _
    refine ⟨fun _ t => by simp only [hf, hf'], fun h => ?_, fun a c h => ?_⟩
    · rw [hf', ok_bind] at h
      exact absurd h (not_runsOut_ok _)
    · rw [hf', ok_bind] at h
      cases h
      omega
  · have hf : get f cursor PacketError.incompletePacket = .error (.err .incompletePacket) :=
      get_of_le hge _
    refine ⟨fun h => absurd (RunsOut.bind hf) h, fun _ => ?_, fun a c h => ?_⟩
    · have hlt : cursor < (f ++ filler n).length := by
        rw [List.length_append, length_filler]
        omega
      rw [get_of_lt hlt, ok_bind]
      exact leavesFrame_ok (by omega) (by simp only [reach]; omega)
    · rw [hf, error_bind] at h
      cases h

theorem tracks_topic (hcursor : cursor ≤ f.length) (hn : reach + 65537 ≤ n) :
    Tracks f n (readTopic cursor) := by
  apply Tracks.string_bind hcursor hn
  intro topic c hc
  exact tracks_get hc hn

theorem tracks_code (hcursor : cursor ≤ f.length) (hn : reach + 65537 ≤ n) :
    Tracks f n (readCode cursor) := tracks_get hcursor hn

/-! ## Verdicts -/

variable (f n) in
/-- The call is independent of what follows the frame, unless `R` holds; then it reports an
early end on the frame alone, but not with filler behind it. -/
structure Verdict (r : List UInt8 → Checked PacketError β) (R : Prop) : Prop where
  stays : ¬ R → ∀ t, r (f ++ t) = r f
  leaves : R → RunsOut (r f) ∧ ¬ RunsOut (r (f ++ filler n))

namespace Verdict
variable {R R' : Prop} {r r' : List UInt8 → Checked PacketError β}

theorem forall_iff (h : Verdict f n r R) : (∀ t, r (f ++ t) = r f) ↔ ¬ R := by
  refine ⟨fun hall hR => ?_, h.stays⟩
  obtain ⟨hrun, hleft⟩ := h.leaves hR
  rw [hall] at hleft
  exact hleft hrun

theorem of_eq (h : ∀ t, r (f ++ t) = r f) (hR : ¬ R) : Verdict f n r R :=
  ⟨fun _ => h, fun h => absurd h hR⟩

theorem iff (h : Verdict f n r R) (hR : R ↔ R') : Verdict f n r R' :=
  ⟨fun h' => h.stays (hR.not.mpr h'), fun h' => h.leaves (hR.mpr h')⟩

/-- Two calls that agree on the frame and on every longer buffer. -/
theorem congr (h : Verdict f n r' R) (hr : ∀ t, r (f ++ t) = r' (f ++ t)) : Verdict f n r R := by
  have hf := hr []
  rw [List.append_nil] at hf
  refine ⟨fun hR t => ?_, fun hR => ?_⟩
  · rw [hr, hf]
    exact h.stays hR t
  · rw [hr, hf]
    exact h.leaves hR

theorem map (h : Verdict f n r R) (g : β → γ) : Verdict f n (fun buf => (r buf).map g) R where
  stays hR t := by rw [h.stays hR t]
  leaves hR := by
    rw [runsOut_map, runsOut_map]
    exact h.leaves hR

/-- A reader is followed by a call. -/
theorem bind {α : Type} {r : List UInt8 → Checked PacketError (α × ℕ)}
    {g : α × ℕ → List UInt8 → Checked PacketError β} {S : α × ℕ → Prop} (h : Tracks f n r)
    (hg : ∀ a c, r f = .ok (a, c) → Verdict f n (g (a, c)) (S (a, c)))
    (hout : RunsOut (r f) → ¬ RunsOut (r (f ++ filler n) >>= fun x => g x (f ++ filler n))) :
    Verdict f n (fun buf => r buf >>= fun x => g x buf)
      (RunsOut (r f) ∨ ∃ x, r f = .ok x ∧ S x) := by
  by_cases hrun : RunsOut (r f)
  · exact ⟨fun hR => absurd (.inl hrun) hR, fun _ => ⟨hrun.bind, hout hrun⟩⟩
  · have hr := h.stays hrun
    cases hrf : r f with
    | error e =>
      rw [hrf] at hr hrun
      apply of_eq
      · intro t
        simp only [hr, hrf]
        rfl
      · rintro (h | ⟨x, h, -⟩)
        · exact hrun h
        · cases h
    | ok x =>
      rw [hrf] at hr
      have hx := hg x.1 x.2 hrf
      refine ⟨fun hR t => ?_, fun hR => ?_⟩
      · simp only [hr, hrf, ok_bind]
        exact hx.stays (fun hS => hR (.inr ⟨x, rfl, hS⟩)) t
      · simp only [hr, hrf, ok_bind]
        rcases hR with hR | ⟨y, hy, hS⟩
        · exact absurd hR (not_runsOut_ok _)
        · cases hy
          exact hx.leaves hS

/-- A bounded read, which does not depend on what follows, is followed by a call. -/
theorem bind_bounded {α : Type} {x : List UInt8 → Checked PacketError α}
    {g : α → List UInt8 → Checked PacketError β} {S : α → Prop} (h : ∀ t, x (f ++ t) = x f)
    (hg : ∀ a, x f = .ok a → Verdict f n (g a) (S a)) :
    Verdict f n (fun buf => x buf >>= fun a => g a buf) (∃ a, x f = .ok a ∧ S a) := by
  cases hxf : x f with
  | error e =>
    apply of_eq
    · intro t
      simp only [h, hxf]
      rfl
    · rintro ⟨a, ha, -⟩
      cases ha
  | ok a =>
    refine ⟨fun hR t => ?_, fun hR => ?_⟩
    · simp only [h, hxf, ok_bind]
      exact (hg a hxf).stays (fun hS => hR ⟨a, rfl, hS⟩) t
    · obtain ⟨b, hb, hS⟩ := hR
      cases hb
      simp only [h, hxf, ok_bind]
      exact (hg a hxf).leaves hS

theorem ok (a : β) : Verdict f n (fun _ => .ok a) False := of_eq (fun _ => rfl) not_false

theorem bind_ok (h : Verdict f n r R) (g : β → γ) :
    Verdict f n (fun buf => r buf >>= fun x => .ok (g x)) R where
  stays hR t := by simp only [h.stays hR t]
  leaves hR := by
    have hrun (x : Checked PacketError β) : RunsOut (x >>= fun a => .ok (g a)) ↔ RunsOut x := by
      cases x <;> simp [RunsOut, Bind.bind, Except.bind]
    rw [hrun, hrun]
    exact h.leaves hR

/-- A reader at the end of a call. -/
theorem of_tracks {α : Type} {r : List UInt8 → Checked PacketError (α × ℕ)} (h : Tracks f n r)
    (g : α × ℕ → β) : Verdict f n (fun buf => r buf >>= fun x => .ok (g x)) (RunsOut (r f)) := by
  refine (bind h (S := fun _ => False) (fun a c _ => ok (g (a, c))) ?_).iff (by simp)
  intro hrun
  rcases h.leaves hrun with ⟨e, he, hne⟩ | ⟨a, c, ha, -, -⟩
  · rw [he]
    simpa [runsOut_error] using hne
  · rw [ha]
    exact not_runsOut_ok _

end Verdict

theorem verdict_reason {version : MqttVersion} (hn : reach + 65537 ≤ n) :
    Verdict f n (readReason version f.length cursor)
      (RunsOut (readReason version f.length cursor f)) := by
  by_cases hpresent : version = .v5 ∧ cursor < f.length
  · have hread (buf : List UInt8) : readReason version f.length cursor buf =
        get buf cursor .incompletePacket >>= fun reasonCode =>
          readPropertiesIf (cursor + 1 < f.length) (cursor + 1) buf >>= fun x =>
            .ok (reasonCode, x.1) := by
      rw [readReason, if_pos hpresent]
    have hget (t : List UInt8) :
        get (f ++ t) cursor PacketError.incompletePacket = get f cursor .incompletePacket :=
      get_append hpresent.2 t _
    have hprops := tracks_propertiesIf (f := f) (c := cursor + 1 < f.length)
      (show cursor + 1 ≤ f.length by omega) hn
    have hbind : Verdict f n
        (fun buf => get buf cursor .incompletePacket >>= fun reasonCode =>
          readPropertiesIf (cursor + 1 < f.length) (cursor + 1) buf >>= fun x =>
            .ok (reasonCode, x.1)) _ :=
      Verdict.bind_bounded hget fun reasonCode _ =>
        Verdict.of_tracks hprops fun x => (reasonCode, x.1)
    apply (hbind.congr fun t => hread _).iff
    rw [hread, get_of_lt hpresent.2, ok_bind, runsOut_bind]
    simp
  · have hread (buf : List UInt8) : readReason version f.length cursor buf = .ok (0, .empty) := by
      rw [readReason, if_neg hpresent]
    apply Verdict.of_eq
    · intro t
      rw [hread, hread]
    · rw [hread]
      exact not_runsOut_ok _

/-- A call that starts with a packet id, which has to lie in the content. -/
theorem verdict_word {r : List UInt8 → Checked PacketError β} {start : ℕ}
    {g : UInt16 × ℕ → List UInt8 → Checked PacketError β} {R : Prop}
    (hr : ∀ t, r (f ++ t) = readWord f.length start (f ++ t) >>= fun x => g x (f ++ t))
    (hg : start + 2 ≤ f.length → ∀ x, Verdict f n (g (x, start + 2)) R) :
    Verdict f n r (start + 2 ≤ f.length ∧ R) := by
  have hbind := Verdict.bind_bounded (g := g) (S := fun _ => R)
    (readWord_append start (Nat.le_refl f.length)) fun (x, pos) hx => by
      obtain ⟨rfl, hle⟩ := readWord_spec hx
      exact hg hle x
  apply (hbind.congr hr).iff
  constructor
  · rintro ⟨⟨x, pos⟩, hx, hR⟩
    exact ⟨(readWord_spec hx).2, hR⟩
  · rintro ⟨hle, hR⟩
    obtain ⟨x, hx⟩ := readWord_of_le hle (Nat.le_refl f.length)
    exact ⟨_, hx, hR⟩

/-- The loop over the items of a packet. -/
theorem verdict_list {item : ℕ → List UInt8 → Checked PacketError (β × ℕ)} {stop : ℕ}
    (hstop : stop ≤ f.length) (hitem : ∀ c ≤ f.length, Tracks f n (item c))
    (hcursor : cursor ≤ f.length) :
    Verdict f n (readList item stop cursor) (RunsOut (readList item stop cursor f)) := by
  have hloop := tracks_readItems (show PacketError.batchCapacityExceeded ≠ .incompletePacket by decide)
    hstop (fun c hc => hitem c (by omega)) hcursor (stop - cursor) (.empty : BoundedVec β 8)
  have hlist : Verdict f n (readList item stop cursor) _ := Verdict.of_tracks hloop fun x => x.1
  apply hlist.iff
  rw [readList, runsOut_bind, iff_self_or]
  rintro ⟨_, _, h⟩
  exact absurd h (not_runsOut_ok _)

/-! ## The decoders -/

section
variable {version : MqttVersion} {start : ℕ}

theorem verdict_connAck (hbounds : ∀ t, readContentBounds (f ++ t) = .ok (start, f.length))
    (hn : reach + 65537 ≤ n) :
    Verdict f n (fun buf => ConnAck.decode buf version)
      (ConnAck.Overreads f version start f.length) := by
  by_cases hfit : start + 2 ≤ f.length
  · have hprops := tracks_propertiesIf (f := f) (c := version = .v5 ∧ start + 2 < f.length) hfit hn
    have hindex (i : ℕ) (hi : i < f.length) (t : List UInt8) :
        (index (f ++ t) i : Checked PacketError UInt8) = .ok f[i] := by
      rw [index_append hi, index_of_lt hi]
    refine ((Verdict.of_tracks hprops fun x => ({
      sessionPresent := f[start] &&& 0x01 ≠ 0
      reasonCode := f[start + 1]
      properties := x.1 } : ConnAck)).congr fun t => ?_).iff ?_
    · rw [ConnAck.decode, hbounds, ok_bind]
      dsimp only
      rw [failIf_of_not (by omega), ok_bind, hindex start (by omega), ok_bind,
        hindex (start + 1) (by omega), ok_bind]
    · rw [ConnAck.Overreads, and_iff_right hfit]
  · apply Verdict.of_eq
    · intro t
      have hall (t : List UInt8) :
          ConnAck.decode (f ++ t) version = .error (.err .incompletePacket) := by
        rw [ConnAck.decode, hbounds, ok_bind]
        dsimp only
        rw [failIf, if_pos (by omega)]
        rfl
      have hf := hall []
      rw [List.append_nil] at hf
      rw [hall, hf]
    · exact fun h => hfit h.1

theorem verdict_ack (hbounds : ∀ t, readContentBounds (f ++ t) = .ok (start, f.length))
    (hn : reach + 65537 ≤ n) :
    Verdict f n (fun buf => Ack.decode buf version) (Ack.Overreads f version start f.length) := by
  refine verdict_word (g := fun x buf => readReason version f.length x.2 buf >>= fun y =>
    .ok { packetId := x.1, reasonCode := y.1, properties := y.2 }) (fun t => ?_) fun _ packetId => ?_
  · rw [Ack.decode, hbounds]
    rfl
  · exact (verdict_reason hn).bind_ok _

theorem verdict_disconnect (hbounds : ∀ t, readContentBounds (f ++ t) = .ok (start, f.length))
    (hstart : 1 < start ∧ start ≤ f.length) (hn : reach + 65537 ≤ n) :
    Verdict f n (fun buf => Disconnect.decode buf version)
      (Disconnect.Overreads f version start f.length) := by
  refine ((verdict_reason hn).bind_ok fun x => ({
    reasonCode := x.1, properties := x.2 } : Disconnect)).congr fun t => ?_
  rw [Disconnect.decode, if_pos (by rw [List.length_append]; omega), hbounds]
  rfl

/-- The packets that consist of a packet id, properties and a list. -/
theorem verdict_items {item : ℕ → List UInt8 → Checked PacketError (β × ℕ)}
    (hbounds : ∀ t, readContentBounds (f ++ t) = .ok (start, f.length))
    (hn : reach + 65537 ≤ n) (hitem : ∀ c ≤ f.length, Tracks f n (item c))
    {k : UInt16 × Properties × BoundedVec β 8 → γ} {r : List UInt8 → Checked PacketError γ}
    (hr : ∀ buf, r buf = readIdAndProperties buf version >>= fun x =>
      readList item x.2.2.2 x.2.2.1 buf >>= fun items => .ok (k (x.1, x.2.1, items))) :
    Verdict f n r (ListOverreads item f version start f.length) := by
  refine (verdict_word (g := fun x buf =>
    readPropertiesIf (version = .v5 ∧ x.2 < f.length) x.2 buf >>= fun y =>
      readList item f.length y.2 buf >>= fun items => .ok (k (x.1, y.1, items)))
    (fun t => ?_) fun hle packetId => ?_)
  · rw [hr, readIdAndProperties, hbounds, ok_bind]
    dsimp only
    rcases readWord f.length start (f ++ t) with e | ⟨packetId, c⟩
    · rfl
    · simp only [ok_bind]
      rcases readPropertiesIf (version = .v5 ∧ c < f.length) c (f ++ t) with e | ⟨properties, c'⟩
      · rfl
      · rfl
  · have hprops := tracks_propertiesIf (f := f) (c := version = .v5 ∧ start + 2 < f.length) hle hn
    have hbind := Verdict.bind
      (g := fun y buf => readList item f.length y.2 buf >>= fun items =>
        .ok (k (packetId, y.1, items)))
      (S := fun y => RunsOut (readList item f.length y.2 f)) hprops
      (fun properties pos hpos => (verdict_list (Nat.le_refl _) hitem
        (hprops.inside properties pos hpos)).bind_ok _) ?_
    · apply hbind.iff
      simp
    · intro hrun
      rcases hprops.leaves hrun with ⟨e, he, hne⟩ | ⟨properties, pos, hpos, hle, -⟩
      · rw [he]
        simpa [runsOut_error] using hne
      · rw [hpos, ok_bind, readList, readItems_of_le hle]
        exact not_runsOut_ok _

theorem verdict_publish {header : UInt8} {tail : List UInt8} (hf : f = header :: tail)
    (hbounds : ∀ t, readContentBounds (f ++ t) = .ok (start, f.length)) (hstart : start ≤ f.length)
    (hn : reach + 65537 ≤ n) :
    Verdict f n (fun buf => Publish.decode buf version)
      (Publish.Overreads f version header start f.length) := by
  have htopic := tracks_utf8String hstart hn
  -- The packet: topic, packet id, properties, and the rest of the content as payload.
  have hprops (topic : String) (idEnd : ℕ) (id : Option UInt16) (hid : idEnd ≤ f.length) :
      Verdict f n (fun buf => readPropertiesIf (version = .v5 ∧ idEnd < f.length) idEnd buf >>= fun y =>
        range buf y.2 f.length >>= fun payload => .ok ({
          dup := header &&& 0x08 ≠ 0, qos := publishQoS header, retain := header &&& 0x01 ≠ 0,
          topic, packetId := id, payload, properties := y.1 } : Publish))
        (RunsOut (readPropertiesIf (version = .v5 ∧ idEnd < f.length) idEnd f)) := by
    have htracks := tracks_propertiesIf (f := f) (c := version = .v5 ∧ idEnd < f.length) hid hn
    have hbind := Verdict.bind
      (g := fun y buf => range buf y.2 f.length >>= fun payload => .ok ({
          dup := header &&& 0x08 ≠ 0, qos := publishQoS header, retain := header &&& 0x01 ≠ 0,
          topic, packetId := id, payload, properties := y.1 } : Publish))
      (S := fun _ => False) htracks (fun properties pos hpos => ?_) ?_
    · apply hbind.iff
      simp
    · have hpos := htracks.inside properties pos hpos
      apply Verdict.of_eq _ not_false
      intro t
      dsimp only
      rw [range_of_le hpos (by rw [List.length_append]; omega), range_of_le hpos (Nat.le_refl _),
        List.take_append_of_le_length (Nat.le_refl _)]
    · intro hrun
      rcases htracks.leaves hrun with ⟨e, he, hne⟩ | ⟨properties, pos, hpos, -, -⟩
      · rw [he]
        simpa [runsOut_error] using hne
      · rw [hpos, ok_bind, range]
        split
        · exact not_runsOut_ok _
        · simp [runsOut_error]
  have hword (c : ℕ) (t : List UInt8) :
      readIf (publishQoS header ≠ .atMostOnce) (readWord f.length) c (f ++ t) =
        readIf (publishQoS header ≠ .atMostOnce) (readWord f.length) c f := by
    rw [readIf, readIf, readWord_append _ (Nat.le_refl _)]
  have hbind := Verdict.bind
    (g := fun x buf =>
      readIf (publishQoS header ≠ .atMostOnce) (readWord f.length) x.2 buf >>= fun y =>
        readPropertiesIf (version = .v5 ∧ y.2 < f.length) y.2 buf >>= fun z =>
          range buf z.2 f.length >>= fun payload => .ok ({
            dup := header &&& 0x08 ≠ 0, qos := publishQoS header, retain := header &&& 0x01 ≠ 0,
            topic := x.1, packetId := y.1, payload, properties := z.1 } : Publish))
    (S := fun x => ∃ y, readIf (publishQoS header ≠ .atMostOnce) (readWord f.length) x.2 f = .ok y ∧
      RunsOut (readPropertiesIf (version = .v5 ∧ y.2 < f.length) y.2 f))
    htopic (fun topic pos hpos => Verdict.bind_bounded (hword pos) fun y hid => ?_) ?_
  · refine (hbind.congr fun t => ?_).iff ?_
    · have hindex : (index (f ++ t) 0 : Checked PacketError UInt8) = .ok header := by
        rw [hf]
        rfl
      rw [Publish.decode, failIf_of_not (by simp [hf]), ok_bind, hindex, ok_bind, hbounds]
      rfl
    · rw [Publish.Overreads]
      apply or_congr_right
      constructor
      · rintro ⟨⟨topic, pos⟩, hpos, ⟨id, idEnd⟩, hid, hout⟩
        refine ⟨topic, pos, hpos, ?_⟩
        rw [← (readId_spec hid).1]
        exact hout
      · rintro ⟨topic, pos, hpos, hout⟩
        refine ⟨⟨topic, pos⟩, hpos, ?_⟩
        by_cases hqos : publishQoS header = .atMostOnce
        · simp only [hqos, if_true] at hout
          exact ⟨(none, pos), by simp [readIf, hqos], hout⟩
        · simp only [hqos, if_false] at hout
          have hle : pos + 2 ≤ f.length := by
            by_contra hlt
            rw [readPropertiesIf, if_neg (by omega)] at hout
            exact not_runsOut_ok _ hout
          obtain ⟨x, hx⟩ := readWord_of_le hle (Nat.le_refl f.length)
          exact ⟨(some x, pos + 2), by simp [readIf, hqos, hx], hout⟩
  · apply hprops
    have hspec := readId_spec hid
    have hpos := htopic.inside topic pos hpos
    by_cases hqos : publishQoS header = .atMostOnce
    · rw [if_pos hqos] at hspec
      omega
    · have := hspec.2 hqos
      rw [if_neg hqos] at hspec
      omega
  · intro hrun
    rw [utf8String_filler (by omega) hn (.inr (runsOut_utf8String.mp hrun))]
    simp [runsOut_error]

/-- CONNECT behind the protocol name. -/
theorem verdict_afterName {name : String} {pos : ℕ} (hpos : pos ≤ f.length)
    (hn : reach + 65537 ≤ n) {g : UInt8 → UInt8 → UInt16 → _ → β} :
    Verdict f n (fun buf => get buf pos .incompletePacket >>= fun level =>
      failIf (name ≠ "MQTT" ∧ name ≠ "MQIsdp") .malformedPacket >>= fun _ =>
        get buf (pos + 1) .incompletePacket >>= fun flags =>
          readWord f.length (pos + 2) buf >>= fun x =>
            Connect.readPayload (version = .v5 ∨ level = 5) flags f.length x.2 buf >>= fun y =>
              .ok (g level flags x.1 y.1))
      (if name = "MQTT" ∨ name = "MQIsdp" then
        pos + 4 ≤ f.length ∧ ∃ level flags, f[pos]? = some level ∧ f[pos + 1]? = some flags ∧
          RunsOut (Connect.readPayload (version = .v5 ∨ level = 5) flags f.length (pos + 4) f)
      else pos = f.length) := by
  by_cases hname : name = "MQTT" ∨ name = "MQIsdp"
  · rw [if_pos hname]
    have haccept : failIf (name ≠ "MQTT" ∧ name ≠ "MQIsdp") PacketError.malformedPacket = .ok () :=
      failIf_of_not (fun h => hname.elim h.1 h.2) _
    simp only [haccept, ok_bind]
    by_cases hfit : pos + 4 ≤ f.length
    · have hget (i : ℕ) (hi : i < f.length) (t : List UInt8) :
          get (f ++ t) i PacketError.incompletePacket = .ok f[i] := by
        rw [get_append hi, get_of_lt hi]
      obtain ⟨x, hx⟩ := readWord_of_le (show pos + 2 + 2 ≤ f.length by omega) (Nat.le_refl f.length)
      have hpayload : Tracks f n (Connect.readPayload (version = .v5 ∨ f[pos] = 5) f[pos + 1]
        f.length (pos + 4)) := tracks_payload hfit hn
      refine ((Verdict.of_tracks hpayload fun y => g f[pos] f[pos + 1] x y.1).congr
        fun t => ?_).iff ?_
      · rw [hget pos (by omega), ok_bind, hget (pos + 1) (by omega), ok_bind,
          readWord_append _ (Nat.le_refl _), hx]
        rfl
      · rw [and_iff_right hfit, List.getElem?_eq_getElem (show pos < f.length by omega),
          List.getElem?_eq_getElem (show pos + 1 < f.length by omega)]
        simp
    · -- Where the flags or the keep-alive are missing, they are missed in any buffer.
      apply Verdict.of_eq _ fun h => hfit h.1
      have hshort (buf : List UInt8) : readWord f.length (pos + 2) buf =
          .error (.err .incompletePacket) := by
        rw [readWord, failIf, if_pos (by omega)]
        rfl
      have hall (buf : List UInt8) : (get buf pos .incompletePacket >>= fun level =>
          get buf (pos + 1) .incompletePacket >>= fun flags =>
            readWord f.length (pos + 2) buf >>= fun x =>
              Connect.readPayload (version = .v5 ∨ level = 5) flags f.length x.2 buf >>= fun y =>
                .ok (g level flags x.1 y.1)) = .error (.err .incompletePacket) := by
        rcases Nat.lt_or_ge (pos + 1) buf.length with hlt | hge
        · rw [get_of_lt (show pos < buf.length by omega), ok_bind, get_of_lt hlt, ok_bind, hshort]
          rfl
        · rw [get_of_le hge]
          rcases Nat.lt_or_ge pos buf.length with hlt | hge
          · rw [get_of_lt hlt]
            rfl
          · rw [get_of_le hge]
            rfl
      intro t
      rw [hall, hall]
  · rw [if_neg hname]
    have hrefuse : failIf (name ≠ "MQTT" ∧ name ≠ "MQIsdp") PacketError.malformedPacket =
        .error (.err .malformedPacket) := by
      rw [failIf, if_pos (not_or.mp hname)]
    simp only [hrefuse, error_bind]
    rcases Nat.lt_or_ge pos f.length with hlt | hge
    · apply Verdict.of_eq _ (by omega)
      intro t
      rw [get_append hlt]
    · have hmissing : get f pos PacketError.incompletePacket = .error (.err .incompletePacket) :=
        get_of_le hge _
      have hfilled : pos < (f ++ filler n).length := by
        rw [List.length_append, length_filler]
        omega
      refine ⟨fun h => absurd (Nat.le_antisymm hpos hge) h, fun _ => ⟨?_, ?_⟩⟩
      · rw [hmissing]
        rfl
      · rw [get_of_lt hfilled, ok_bind]
        simp [runsOut_error]

/-- The CONNECT that the fields of the content make. -/
def Connect.ofFields (flags : UInt8) (keepAlive : UInt16)
    (fields : Properties × String × Option Will × Option String × Option String) : Connect where
  cleanSession := flags &&& 0x02 ≠ 0
  keepAlive := keepAlive
  clientId := fields.2.1
  username := fields.2.2.2.1
  password := fields.2.2.2.2
  will := fields.2.2.1
  properties := fields.1

/-- `Connect::decode` behind the bounds of the content. -/
theorem Connect.decode_eq {buf : List UInt8} {stop : ℕ}
    (hbounds : readContentBounds buf = .ok (start, stop)) :
    Connect.decode buf version = readUtf8String start buf >>= fun x =>
      get buf x.2 .incompletePacket >>= fun level =>
        failIf (x.1 ≠ "MQTT" ∧ x.1 ≠ "MQIsdp") .malformedPacket >>= fun _ =>
          get buf (x.2 + 1) .incompletePacket >>= fun flags =>
            readWord stop (x.2 + 2) buf >>= fun y =>
              Connect.readPayload (version = .v5 ∨ level = 5) flags stop y.2 buf >>= fun z =>
                .ok (Connect.ofFields flags y.1 z.1) := by
  have hassoc (v5 : Bool) (flags : UInt8) (keepAlive : UInt16) (pos : ℕ) :
      (Connect.readPayload v5 flags stop pos buf >>= fun z =>
        .ok (Connect.ofFields flags keepAlive z.1)) =
      (do
        let (properties, cursor) ← readPropertiesIf (v5 ∧ pos < stop) pos buf
        let (clientId, cursor) ← readUtf8String cursor buf
        let (will, cursor) ← readIf (flags &&& 0x04 ≠ 0)
          (Will.read v5 stop (QoS.fromByte ((flags >>> 3) &&& 0x03)) (flags &&& 0x20 ≠ 0)) cursor buf
        let (username, cursor) ← readIf (flags &&& 0x80 ≠ 0) readUtf8String cursor buf
        let (password, _) ← readIf (flags &&& 0x40 ≠ 0) readUtf8String cursor buf
        .ok (Connect.ofFields flags keepAlive (properties, clientId, will, username, password))) := by
    rw [Connect.readPayload]
    rcases readPropertiesIf (v5 ∧ pos < stop) pos buf with e | ⟨properties, c⟩
    · rfl
    simp only [ok_bind]
    rcases readUtf8String c buf with e | ⟨clientId, c⟩
    · rfl
    simp only [ok_bind]
    rcases readIf (flags &&& 0x04 ≠ 0) (Will.read v5 stop (QoS.fromByte ((flags >>> 3) &&& 0x03))
      (flags &&& 0x20 ≠ 0)) c buf with e | ⟨will, c⟩
    · rfl
    simp only [ok_bind]
    rcases readIf (flags &&& 0x80 ≠ 0) readUtf8String c buf with e | ⟨username, c⟩
    · rfl
    simp only [ok_bind]
    rcases readIf (flags &&& 0x40 ≠ 0) readUtf8String c buf with e | ⟨password, c⟩
    · rfl
    · rfl
  simp only [hassoc]
  rw [Connect.decode, hbounds]
  rfl

theorem verdict_connect (hbounds : ∀ t, readContentBounds (f ++ t) = .ok (start, f.length))
    (hstart : start ≤ f.length) (hn : reach + 65537 ≤ n) :
    Verdict f n (fun buf => Connect.decode buf version)
      (Connect.Overreads f version start f.length) := by
  have hname := tracks_utf8String hstart hn
  have hbind := Verdict.bind
    (g := fun x buf => get buf x.2 .incompletePacket >>= fun level =>
      failIf (x.1 ≠ "MQTT" ∧ x.1 ≠ "MQIsdp") .malformedPacket >>= fun _ =>
        get buf (x.2 + 1) .incompletePacket >>= fun flags =>
          readWord f.length (x.2 + 2) buf >>= fun y =>
            Connect.readPayload (version = .v5 ∨ level = 5) flags f.length y.2 buf >>= fun z =>
              .ok (Connect.ofFields flags y.1 z.1))
    (S := fun x => if x.1 = "MQTT" ∨ x.1 = "MQIsdp" then
        x.2 + 4 ≤ f.length ∧ ∃ level flags, f[x.2]? = some level ∧ f[x.2 + 1]? = some flags ∧
          RunsOut (Connect.readPayload (version = .v5 ∨ level = 5) flags f.length (x.2 + 4) f)
      else x.2 = f.length)
    hname (fun name pos hpos => verdict_afterName (hname.inside name pos hpos) hn) ?_
  · refine (hbind.congr fun t => Connect.decode_eq (hbounds t)).iff ?_
    rw [Connect.Overreads]
    simp
  · intro hrun
    rw [utf8String_filler (by omega) hn (.inr (runsOut_utf8String.mp hrun))]
    simp [runsOut_error]

/-! ## decode -/

theorem verdict_subscribe (hbounds : ∀ t, readContentBounds (f ++ t) = .ok (start, f.length))
    (hn : reach + 65537 ≤ n) :
    Verdict f n (fun buf => Subscribe.decode buf version)
      (ListOverreads readTopic f version start f.length) :=
  verdict_items (k := fun x => ({ packetId := x.1, topics := x.2.2, properties := x.2.1 } : Subscribe))
    hbounds hn (fun _ hc => tracks_topic hc hn) fun _ => rfl

theorem verdict_codesAck (hbounds : ∀ t, readContentBounds (f ++ t) = .ok (start, f.length))
    (hn : reach + 65537 ≤ n) :
    Verdict f n (fun buf => CodesAck.decode buf version)
      (ListOverreads readCode f version start f.length) :=
  verdict_items (k := fun x => ({ packetId := x.1, reasonCodes := x.2.2, properties := x.2.1 } : CodesAck))
    hbounds hn (fun _ hc => tracks_code hc hn) fun _ => rfl

theorem verdict_unsubscribe (hbounds : ∀ t, readContentBounds (f ++ t) = .ok (start, f.length))
    (hn : reach + 65537 ≤ n) :
    Verdict f n (fun buf => Unsubscribe.decode buf version)
      (ListOverreads readUtf8String f version start f.length) :=
  verdict_items (k := fun x => ({ packetId := x.1, topics := x.2.2, properties := x.2.1 } : Unsubscribe))
    hbounds hn (fun _ hc => tracks_utf8String hc hn) fun _ => rfl

end

/-- Where the content of a frame starts and ends, also in a longer buffer. -/
theorem bounds_of_isFrame (h : framing.IsFrame f) :
    ∃ header tail start, f = header :: tail ∧ 1 < start ∧ start ≤ f.length ∧
      ∀ t, readContentBounds (f ++ t) = .ok (start, f.length) := by
  obtain ⟨header, tail, k, len, rfl, hread, hlen⟩ := frameSize_eq_some h
  have hpos := (Base128.read_eq_value hread).1
  refine ⟨header, tail, 1 + len, rfl, by omega, by omega, fun t => ?_⟩
  rw [readContentBounds, readVariableByteInteger_eq, List.cons_append, List.drop_one,
    List.tail_cons, Base128.read_append hread, ok_bind]
  dsimp only
  rw [failIf_of_not (by simp only [List.length_cons, List.length_append] at *; omega), ok_bind, hlen]

theorem verdict_decode (h : framing.IsFrame f) (hn : reach + 65537 ≤ n) (version : MqttVersion) :
    Verdict f n (fun buf => decode buf version) (Overreads f version) := by
  obtain ⟨header, tail, start, hf, hpos, hstart, hbounds⟩ := bounds_of_isFrame h
  have hf0 : readContentBounds f = .ok (start, f.length) := by simpa using hbounds []
  have hcases : Overreads f version ↔
      OverreadsType (header >>> 4).toNat f version header start f.length := by
    constructor
    · rintro ⟨header', tail', start', stop', hf', hbounds', hover⟩
      rw [hf] at hf'
      rw [hf0] at hbounds'
      cases hf'
      cases hbounds'
      exact hover
    · intro hover
      exact ⟨header, tail, start, f.length, hf, hf0, hover⟩
  have htype : Verdict f n (fun buf => decodeType (header >>> 4) buf version)
      (Overreads f version) := by
    apply Verdict.iff _ hcases.symm
    unfold decodeType
    split
    · rename_i hk
      rw [hk]
      exact (verdict_connect hbounds hstart hn).map MqttPacket.connect
    · rename_i hk
      rw [hk]
      exact (verdict_connAck hbounds hn).map MqttPacket.connAck
    · rename_i hk
      rw [hk]
      exact (verdict_publish hf hbounds hstart hn).map MqttPacket.publish
    · rename_i hk
      rw [hk]
      exact (verdict_ack hbounds hn).map MqttPacket.pubAck
    · rename_i hk
      rw [hk]
      exact (verdict_ack hbounds hn).map MqttPacket.pubRec
    · rename_i hk
      rw [hk]
      exact (verdict_ack hbounds hn).map MqttPacket.pubRel
    · rename_i hk
      rw [hk]
      exact (verdict_ack hbounds hn).map MqttPacket.pubComp
    · rename_i hk
      rw [hk]
      exact (verdict_subscribe hbounds hn).map MqttPacket.subscribe
    · rename_i hk
      rw [hk]
      exact (verdict_codesAck hbounds hn).map MqttPacket.subAck
    · rename_i hk
      rw [hk]
      exact (verdict_unsubscribe hbounds hn).map MqttPacket.unsubscribe
    · rename_i hk
      rw [hk]
      exact (verdict_codesAck hbounds hn).map MqttPacket.unsubAck
    · rename_i hk
      rw [hk]
      exact Verdict.ok _
    · rename_i hk
      rw [hk]
      exact Verdict.ok _
    · rename_i hk
      rw [hk]
      exact (verdict_disconnect hbounds ⟨hpos, hstart⟩ hn).map MqttPacket.disconnect
    · apply Verdict.of_eq (fun _ => rfl)
      intro hover
      unfold OverreadsType at hover
      split at hover <;> simp_all
  refine (htype.map some).congr fun t => ?_
  rw [hf]
  rfl

/-- On a frame `decode` returns the same with whatever bytes behind it, unless one of its
readers reaches beyond the frame. -/
theorem decode_append_iff {f : List UInt8} (h : framing.IsFrame f) (version : MqttVersion) :
    (∀ t, decode (f ++ t) version = decode f version) ↔ ¬ Overreads f version :=
  (verdict_decode h (Nat.le_refl _) version).forall_iff

/-- A PUBLISH with a topic, a packet id, a property and a payload, of version 5. -/
def ownPublish : List UInt8 :=
  [0x32, 0x09, 0x00, 0x01, 0x61, 0x00, 0x07, 0x02, 0x01, 0x01, 0x2A]

/-- Its readers end within it. -/
theorem decode_append_publish :
    framing.IsFrame ownPublish ∧
      ∀ t, decode (ownPublish ++ t) .v5 = decode ownPublish .v5 := by
  have hframe : framing.IsFrame ownPublish := by decide
  refine ⟨hframe, (decode_append_iff hframe .v5).mpr ?_⟩
  rintro ⟨header, tail, start, stop, hf, hbounds, h⟩
  cases hf
  have hstart : readContentBounds ownPublish = .ok (2, 11) := by decide +kernel
  cases hstart.symm.trans hbounds
  have htopic : readUtf8String 2 ownPublish = .ok ("a", 5) := by decide +kernel
  have hproperties : ∃ properties, readPropertiesIf True 7 ownPublish = .ok (properties, 10) :=
    ⟨⟨[{ id := 0x01, data := [0x01] }], by decide⟩, by decide +kernel⟩
  rcases h with h | ⟨topic, pos, hread, h⟩
  · cases htopic.symm.trans h
  · cases htopic.symm.trans hread
    obtain ⟨properties, hok⟩ := hproperties
    cases hok.symm.trans h

/-- A CONNACK whose property block is longer than the frame takes its property from what
follows. -/
theorem decode_append_connAck :
    framing.IsFrame [0x20, 0x03, 0x00, 0x00, 0x02] ∧
      decode [0x20, 0x03, 0x00, 0x00, 0x02] .v5 = .error (.err .incompletePacket) ∧
      decode ([0x20, 0x03, 0x00, 0x00, 0x02] ++ [0x25, 0x01]) .v5 =
        .ok (some (.connAck {
          sessionPresent := false, reasonCode := 0,
          properties := ⟨[{ id := 0x25, data := [0x01] }], by decide⟩ })) := by
  decide +kernel

end

end MqttEngine
