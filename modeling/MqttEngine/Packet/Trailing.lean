import MqttEngine.Packet.Framing
import MqttEngine.Packet.Safety
import Mathlib.Data.List.GetD

/-!
# Readers in a longer buffer

What a reader returns on a frame that has other bytes behind it. As long as it does not run
out of the frame, what follows does not matter to it. The readers for strings, binary data
and property blocks compare the cursor with the end of the buffer only, so in a longer buffer
they go on into what follows.

A reader that runs out is followed here into bytes `0xFF`. They end no variable byte integer
and occur in no string, so that a reader that takes one of them does not report an early end
any more.

## Main definitions

* `RunsOut` — a reader reports that the buffer ends too early.
* `LeavesFrame` — a reader ends behind the frame, or in an error that is not an early end.
* `Tracks` — a reader that is independent of what follows, unless it runs out.

## Main results

* `tracks_utf8String`, `tracks_lengthPrefixed`, `tracks_properties` — the unbounded readers.
* `tracks_readItems` — the loop over the items of a packet.
-/

namespace MqttEngine
open Checked

/-- The call reports that the buffer ends too early. -/
def RunsOut {β : Type} (x : Checked PacketError β) : Prop := x = .error (.err .incompletePacket)

/-- Bytes that end no variable byte integer and occur in no string. -/
def filler (n : ℕ) : List UInt8 := List.replicate n 0xFF

/-- How far behind a frame a reader that ran out of it can end. -/
@[irreducible] def reach : ℕ := 128 ^ 4 + 65537

@[simp] theorem length_filler (n : ℕ) : (filler n).length = n := List.length_replicate

section RunsOut
variable {β γ : Type} {x : Checked PacketError β} {g : β → Checked PacketError γ}

@[simp] theorem not_runsOut_ok (a : β) : ¬ RunsOut (.ok a : Checked PacketError β) := nofun

@[simp] theorem runsOut_incomplete :
    RunsOut (.error (.err .incompletePacket) : Checked PacketError β) := rfl

theorem runsOut_error {e : Fault PacketError} :
    RunsOut (.error e : Checked PacketError β) ↔ e = .err .incompletePacket := by
  simp [RunsOut]

theorem RunsOut.bind (h : RunsOut x) : RunsOut (x >>= g) := by
  rw [RunsOut] at h
  rw [h]
  rfl

theorem runsOut_map {f : β → γ} : RunsOut (x.map f) ↔ RunsOut x := by
  cases x <;> simp [RunsOut, Except.map]

/-- A sequence runs out in its first call or in its second. -/
theorem runsOut_bind : RunsOut (x >>= g) ↔ RunsOut x ∨ ∃ a, x = .ok a ∧ RunsOut (g a) := by
  cases x <;> simp [RunsOut, Bind.bind, Except.bind]

end RunsOut

/-! ## Bytes behind the frame -/

/-- No character is encoded with the byte `0xFF`. -/
theorem utf8EncodeChar_ne_ff (c : Char) : (0xFF : UInt8) ∉ String.utf8EncodeChar c := by
  intro h
  have hc := c.val.toNat_lt
  have hff : ∀ n, (0xFF : UInt8) = UInt8.ofNat n → n % 256 = 255 := by
    intro n hn
    have := congrArg UInt8.toNat hn
    simpa [UInt8.toNat_ofNat'] using this.symm
  simp only [String.utf8EncodeChar] at h
  -- One to four bytes, by the size of the code point.
  split at h
  · simp only [List.mem_singleton] at h
    have := hff _ h
    omega
  · split at h
    · simp only [List.mem_cons, List.not_mem_nil, or_false] at h
      rcases h with h | h
      all_goals
        have := hff _ h
        omega
    · split at h
      · simp only [List.mem_cons, List.not_mem_nil, or_false] at h
        rcases h with h | h | h
        all_goals
          have := hff _ h
          omega
      · simp only [List.mem_cons, List.not_mem_nil, or_false] at h
        rcases h with h | h | h | h
        all_goals
          have := hff _ h
          omega

theorem fromUtf8_of_ff {bytes : List UInt8} (h : 0xFF ∈ bytes) : fromUtf8 bytes = none := by
  unfold fromUtf8
  split
  · rename_i hvalid
    obtain ⟨cs, hcs⟩ := hvalid
    have hmem : (0xFF : UInt8) ∈ cs.utf8Encode.data.toList := by
      rw [← hcs]
      exact h
    obtain ⟨c, -, hc⟩ : ∃ c ∈ cs, (0xFF : UInt8) ∈ String.utf8EncodeChar c := by
      simpa [List.utf8Encode] using hmem
    exact absurd hc (utf8EncodeChar_ne_ff c)
  · rfl

/-- A call that went beyond the frame `f`: an error other than an early end, or a value with
the cursor behind the frame. -/
def LeavesFrame {β : Type} (f : List UInt8) (x : Checked PacketError (β × ℕ)) : Prop :=
  (∃ e, x = .error e ∧ e ≠ .err .incompletePacket) ∨
    ∃ a c, x = .ok (a, c) ∧ f.length ≤ c ∧ c ≤ f.length + reach

section
variable {β γ : Type} {f : List UInt8} {n : ℕ}

theorem LeavesFrame.bind {x : Checked PacketError (β × ℕ)}
    {g : β × ℕ → Checked PacketError (γ × ℕ)} (h : LeavesFrame f x)
    (hg : ∀ a c, f.length ≤ c → c ≤ f.length + reach → LeavesFrame f (g (a, c))) :
    LeavesFrame f (x >>= g) := by
  rcases h with ⟨e, rfl, he⟩ | ⟨a, c, rfl, hle, hreach⟩
  · exact .inl ⟨e, rfl, he⟩
  · exact hg a c hle hreach

theorem leavesFrame_ok {a : β} {c : ℕ} (h : f.length ≤ c) (h' : c ≤ f.length + reach) :
    LeavesFrame f (.ok (a, c)) := .inr ⟨a, c, rfl, h, h'⟩

theorem leavesFrame_error {e : PacketError} (h : e ≠ .incompletePacket) :
    LeavesFrame f (.error (.err e) : Checked PacketError (β × ℕ)) :=
  .inl ⟨_, rfl, by simpa using h⟩

variable (f n) in
/-- A reader on the frame `f` that is independent of what follows, unless it runs out; then
`n` bytes of filler take it out of the frame. -/
structure Tracks (r : List UInt8 → Checked PacketError (β × ℕ)) : Prop where
  stays : ¬ RunsOut (r f) → ∀ t, r (f ++ t) = r f
  leaves : RunsOut (r f) → LeavesFrame f (r (f ++ filler n))
  inside : ∀ a c, r f = .ok (a, c) → c ≤ f.length

/-- Readers in sequence. -/
theorem Tracks.bind {r : List UInt8 → Checked PacketError (β × ℕ)}
    {g : β × ℕ → List UInt8 → Checked PacketError (γ × ℕ)} (h : Tracks f n r)
    (hg : ∀ a c, r f = .ok (a, c) → Tracks f n (g (a, c)))
    (hout : RunsOut (r f) →
      LeavesFrame f (r (f ++ filler n) >>= fun x => g x (f ++ filler n))) :
    Tracks f n fun buf => r buf >>= fun x => g x buf := by
  by_cases hrun : RunsOut (r f)
  · have hwhole : RunsOut (r f >>= fun x => g x f) := hrun.bind
    constructor
    · exact fun hne => absurd hwhole hne
    · exact fun _ => hout hrun
    · intro a c hok
      rw [RunsOut] at hwhole
      rw [hwhole] at hok
      cases hok
  · have hr := h.stays hrun
    cases hrf : r f with
    | error e =>
      rw [hrf] at hr hrun
      constructor
      · intro _ t
        simp only [hr, hrf]
        rfl
      · intro hwhole
        rw [runsOut_error] at hrun
        simp only [hrf, error_bind, runsOut_error] at hwhole
        exact absurd hwhole hrun
      · intro a c hok
        simp only [hrf, error_bind] at hok
        cases hok
    | ok x =>
      rw [hrf] at hr
      have hx := hg x.1 x.2 hrf
      constructor
      · intro hne t
        simp only [hr, hrf, ok_bind] at hne ⊢
        exact hx.stays hne t
      · intro hwhole
        simp only [hrf, ok_bind] at hwhole
        simp only [hr, ok_bind]
        exact hx.leaves hwhole
      · intro a c hok
        simp only [hrf, ok_bind] at hok
        exact hx.inside a c hok

theorem tracks_ok {a : β} {c : ℕ} (h : c ≤ f.length) :
    Tracks f n fun _ => (.ok (a, c) : Checked PacketError (β × ℕ)) where
  stays _ _ := rfl
  leaves h := absurd h (not_runsOut_ok _)
  inside _ _ h' := by cases h'; exact h

/-! ## Variable byte integers, strings and binary data -/

theorem tracks_vbi {cursor : ℕ} (hcursor : cursor ≤ f.length) (hn : 4 ≤ n) :
    Tracks f n (readVariableByteInteger cursor) where
  stays h t := by
    rw [readVariableByteInteger_eq] at h
    rw [readVariableByteInteger_eq, readVariableByteInteger_eq,
      List.drop_append_of_le_length hcursor]
    cases hread : Base128.read 4 (f.drop cursor) with
    | value k len => rw [Base128.read_append hread]
    | incomplete => simp [hread] at h
    | overlong => rw [Base128.read_append_of_overlong hread]
  leaves h := by
    rw [readVariableByteInteger_eq] at h
    rw [readVariableByteInteger_eq, List.drop_append_of_le_length hcursor]
    cases hread : Base128.read 4 (f.drop cursor) with
    | value k len => simp [hread] at h
    | incomplete =>
      rw [filler, Base128.read_append_replicate hread (by decide) hn]
      exact leavesFrame_error (by decide)
    | overlong => simp [hread, runsOut_error] at h
  inside a c h := by
    rw [readVariableByteInteger_eq] at h
    cases hread : Base128.read 4 (f.drop cursor) with
    | value k len =>
      have hlen := (Base128.read_eq_value hread).2.2.1
      rw [List.length_drop] at hlen
      simp only [hread, Except.ok.injEq, Prod.mk.injEq] at h
      omega
    | incomplete => simp [hread] at h
    | overlong => simp [hread] at h

/-- The length in front of length-prefixed data. -/
def prefixAt (buf : List UInt8) (cursor : ℕ) : ℕ :=
  (fromBeBytes (buf.getD cursor 0) (buf.getD (cursor + 1) 0)).toNat

theorem fromBeBytes_toNat (hi lo : UInt8) :
    (fromBeBytes hi lo).toNat = 256 * hi.toNat + lo.toNat := by
  have hhi := hi.toNat_lt
  have hlo := lo.toNat_lt
  rw [fromBeBytes, UInt16.toNat_ofNat']
  omega

theorem readLengthPrefixed_eq (cursor : ℕ) (buf : List UInt8) :
    readLengthPrefixed cursor buf =
      if cursor + 2 + prefixAt buf cursor > buf.length then .error (.err .incompletePacket)
      else .ok ((buf.drop (cursor + 2)).take (prefixAt buf cursor),
        cursor + 2 + prefixAt buf cursor) := by
  rw [readLengthPrefixed]
  by_cases hshort : cursor + 2 > buf.length
  · rw [if_pos hshort, if_pos (by omega)]
  · have h1 : cursor < buf.length := by omega
    have h2 : cursor + 1 < buf.length := by omega
    have hprefix : readU16 cursor buf = .ok (fromBeBytes (buf.getD cursor 0) (buf.getD (cursor + 1) 0)) := by
      rw [readU16, index_of_lt h1, ok_bind, index_of_lt h2, ok_bind,
        List.getD_eq_getElem _ _ h1, List.getD_eq_getElem _ _ h2]
    rw [if_neg hshort, hprefix, ok_bind]
    change (if cursor + 2 + prefixAt buf cursor > buf.length then _ else _) = _
    by_cases hlong : cursor + 2 + prefixAt buf cursor > buf.length
    · rw [if_pos hlong, if_pos hlong]
    · rw [if_neg hlong, if_neg hlong]
      change (range buf (cursor + 2) (cursor + 2 + prefixAt buf cursor) >>= _) = _
      rw [range_of_le (by omega) (by omega), ok_bind, List.drop_take, Nat.add_sub_cancel_left]
      rfl

theorem prefixAt_append {cursor : ℕ} (h : cursor + 2 ≤ f.length) (t : List UInt8) :
    prefixAt (f ++ t) cursor = prefixAt f cursor := by
  rw [prefixAt, prefixAt, List.getD_append _ _ _ _ (by omega), List.getD_append _ _ _ _ (by omega)]

/-- A length that reaches into the filler is not zero. -/
theorem prefixAt_filler_pos {cursor : ℕ} (h : f.length < cursor + 2)
    (hn : cursor + 2 ≤ f.length + n) : 0 < prefixAt (f ++ filler n) cursor := by
  have hlo : (f ++ filler n).getD (cursor + 1) 0 = 0xFF := by
    rw [List.getD_append_right _ _ _ _ (by omega), filler,
      List.getD_eq_getElem _ _ (by rw [List.length_replicate]; omega), List.getElem_replicate]
  rw [prefixAt, fromBeBytes_toNat, hlo, show (0xFF : UInt8).toNat = 255 from rfl]
  omega

/-- Data that reaches into the filler has a byte `0xFF`. -/
theorem lengthPrefixed_filler {cursor : ℕ} (hcursor : cursor ≤ f.length + reach)
    (hn : reach + 65537 ≤ n)
    (h : f.length < cursor + 2 ∨ RunsOut (readLengthPrefixed cursor f)) :
    ∃ data pos, readLengthPrefixed cursor (f ++ filler n) = .ok (data, pos) ∧ 0xFF ∈ data ∧
      f.length ≤ pos ∧ pos ≤ cursor + 65537 := by
  have hlen : (f ++ filler n).length = f.length + n := by
    rw [List.length_append, length_filler]
  have hprefix : prefixAt (f ++ filler n) cursor < 65536 := UInt16.toNat_lt _
  have hbeyond : 0 < prefixAt (f ++ filler n) cursor ∧
      f.length < cursor + 2 + prefixAt (f ++ filler n) cursor := by
    by_cases hshort : f.length < cursor + 2
    · exact ⟨prefixAt_filler_pos hshort (by omega), by omega⟩
    · have hout := h.resolve_left hshort
      rw [readLengthPrefixed_eq] at hout
      rw [prefixAt_append (by omega)]
      split at hout
      · omega
      · exact absurd hout (not_runsOut_ok _)
  refine ⟨_, _, by rw [readLengthPrefixed_eq, if_neg (by omega)], ?_, by omega, by omega⟩
  -- The last byte of the data is filler.
  have hlast : (((f ++ filler n).drop (cursor + 2)).take (prefixAt (f ++ filler n) cursor))[
      prefixAt (f ++ filler n) cursor - 1]? = some 0xFF := by
    rw [List.getElem?_take_of_lt (by omega), List.getElem?_drop,
      List.getElem?_append_right (by omega)]
    generalize prefixAt (f ++ filler n) cursor = len at *
    rw [filler, List.getElem?_replicate, if_pos (by omega)]
  exact List.mem_of_getElem? hlast

theorem tracks_lengthPrefixed {cursor : ℕ} (hcursor : cursor ≤ f.length)
    (hn : reach + 65537 ≤ n) : Tracks f n (readLengthPrefixed cursor) where
  stays h t := by
    rw [readLengthPrefixed_eq] at h
    split at h
    · exact absurd runsOut_incomplete h
    · rename_i hfit
      rw [readLengthPrefixed_eq, readLengthPrefixed_eq, prefixAt_append (by omega), if_neg hfit,
        if_neg (by rw [List.length_append]; omega), List.drop_append_of_le_length (by omega),
        List.take_append_of_le_length (by rw [List.length_drop]; omega)]
  leaves h := by
    obtain ⟨data, pos, hread, -, hle, hpos⟩ := lengthPrefixed_filler (by omega) hn (.inr h)
    rw [hread]
    exact leavesFrame_ok hle (by rw [reach]; omega)
  inside a c h := by
    rw [readLengthPrefixed_eq] at h
    split at h
    · cases h
    · cases h
      omega

/-- A string that reaches into the filler is not valid. -/
theorem utf8String_filler {cursor : ℕ} (hcursor : cursor ≤ f.length + reach)
    (hn : reach + 65537 ≤ n)
    (h : f.length < cursor + 2 ∨ RunsOut (readLengthPrefixed cursor f)) :
    readUtf8String cursor (f ++ filler n) = .error (.err .invalidUtf8String) := by
  obtain ⟨data, pos, hread, hff, -, -⟩ := lengthPrefixed_filler hcursor hn h
  rw [readUtf8String, hread, ok_bind]
  simp only [fromUtf8_of_ff hff]

/-- A string runs out where its length prefix or its bytes do. -/
theorem runsOut_utf8String {cursor : ℕ} {buf : List UInt8} :
    RunsOut (readUtf8String cursor buf) ↔ RunsOut (readLengthPrefixed cursor buf) := by
  rw [readUtf8String, runsOut_bind, or_iff_left]
  rintro ⟨⟨bytes, c⟩, -, h⟩
  dsimp only at h
  split at h
  · exact not_runsOut_ok _ h
  · simp [runsOut_error] at h

theorem tracks_utf8String {cursor : ℕ} (hcursor : cursor ≤ f.length) (hn : reach + 65537 ≤ n) :
    Tracks f n (readUtf8String cursor) where
  stays h t := by
    have hread := (tracks_lengthPrefixed hcursor hn).stays (runsOut_utf8String.not.mp h) t
    rw [readUtf8String, readUtf8String, hread]
  leaves h := by
    rw [utf8String_filler (by omega) hn (.inr (runsOut_utf8String.mp h))]
    exact leavesFrame_error (by decide)
  inside a c h := by
    obtain ⟨⟨bytes, c'⟩, hread, h⟩ := bind_eq_ok.mp h
    have hinside := (tracks_lengthPrefixed hcursor hn).inside bytes c' hread
    dsimp only at h
    split at h
    · cases h
      exact hinside
    · cases h

/-- A byte behind the cursor, if it lies in the frame. -/
theorem get_append {cursor : ℕ} (h : cursor < f.length) (t : List UInt8) (e : PacketError) :
    get (f ++ t) cursor e = get f cursor e := by
  simp only [Checked.get, List.getElem?_append_left h]

theorem index_append {cursor : ℕ} (h : cursor < f.length) (t : List UInt8) :
    (index (f ++ t) cursor : Checked PacketError UInt8) = index f cursor := by
  rw [index, index, List.getElem?_append_left h]

theorem readWord_append {stop : ℕ} (cursor : ℕ) (h : stop ≤ f.length) (t : List UInt8) :
    readWord stop cursor (f ++ t) = readWord stop cursor f := by
  rw [readWord, readWord]
  by_cases hfit : cursor + 2 > stop
  · rw [failIf, if_pos hfit]
    rfl
  · rw [failIf_of_not hfit, ok_bind, ok_bind, readU16, readU16, index_append (by omega),
      index_append (by omega)]

/-! ## Property blocks -/

/-- The length of a property's data is the same in the frame and with `t` behind it; or the
data begins behind the frame, and the length only tells that with `t` behind it. -/
def LengthAgrees (f t : List UInt8) (start : ℕ) (r : List UInt8 → Checked PacketError ℕ) : Prop :=
  r (f ++ t) = r f ∨
    r f = .error (.err .malformedPacket) ∧ ∃ len, r (f ++ t) = .ok len ∧ f.length < start + len

section
variable {β : Type} {buf : List UInt8} {pos : ℕ} {e : PacketError}
  {k : UInt8 → UInt8 → Checked PacketError β}

theorem word_of_fit (h : pos + 1 < buf.length) :
    (get buf pos e >>= fun hi => get buf (pos + 1) e >>= fun lo => k hi lo) =
      k buf[pos] buf[pos + 1] := by
  rw [get_of_lt (show pos < buf.length by omega), get_of_lt h]
  rfl

theorem word_of_short (h : buf.length ≤ pos + 1) :
    (get buf pos e >>= fun hi => get buf (pos + 1) e >>= fun lo => k hi lo) =
      .error (.err e) := by
  rw [get_of_le h]
  rcases Nat.lt_or_ge pos buf.length with hlt | hge
  · rw [get_of_lt hlt]
    rfl
  · rw [get_of_le hge]
    rfl

end

/-- A length that depends on the two bytes at `pos`. -/
theorem lengthAgrees_word {t : List UInt8} {start pos least : ℕ} (hleast : pos + 2 ≤ start + least)
    {k : UInt8 → UInt8 → List UInt8 → Checked PacketError ℕ}
    (hk : ∀ hi lo buf, k hi lo buf = .error (.err .malformedPacket) ∨
      ∃ len, k hi lo buf = .ok len ∧ least ≤ len)
    (hin : ∀ hi lo, LengthAgrees f t start (k hi lo)) :
    LengthAgrees f t start fun buf => get buf pos .malformedPacket >>= fun hi =>
      get buf (pos + 1) .malformedPacket >>= fun lo => k hi lo buf := by
  by_cases hfit : pos + 1 < f.length
  · simp only [LengthAgrees, get_append (show pos < f.length by omega), get_append hfit,
      get_of_lt (show pos < f.length by omega), get_of_lt hfit, ok_bind]
    exact hin _ _
  · simp only [LengthAgrees]
    rw [word_of_short (show f.length ≤ pos + 1 by omega)]
    rcases Nat.lt_or_ge (pos + 1) (f ++ t).length with hlt | hge
    · rw [word_of_fit hlt]
      rcases hk (f ++ t)[pos] (f ++ t)[pos + 1] (f ++ t) with herr | ⟨len, hlen, hle⟩
      · exact .inl herr
      · exact .inr ⟨rfl, len, hlen, by omega⟩
    · exact .inl (word_of_short hge)

theorem propertyDataLen_append (id : UInt8) {start : ℕ} (hstart : start ≤ f.length)
    (h : ¬ RunsOut (propertyDataLen id start f)) (t : List UInt8) :
    LengthAgrees f t start fun buf => propertyDataLen id start buf := by
  unfold propertyDataLen at h ⊢
  split
  · exact .inl rfl
  rename_i h1
  rw [if_neg h1] at h
  split
  · exact .inl rfl
  rename_i h2
  rw [if_neg h2] at h
  split
  · exact .inl rfl
  rename_i h3
  rw [if_neg h3] at h
  split
  · exact lengthAgrees_word (Nat.le_refl _) (fun _ _ _ => .inr ⟨_, rfl, by omega⟩)
      fun _ _ => .inl rfl
  rename_i h4
  rw [if_neg h4] at h
  split
  · -- The pair of strings: the second length stands behind the first string.
    apply lengthAgrees_word (Nat.le_refl _)
    · intro hi lo buf
      dsimp only
      rcases Nat.lt_or_ge (start + 2 + (fromBeBytes hi lo).toNat + 1) buf.length with hlt | hge
      · rw [word_of_fit hlt]
        exact .inr ⟨_, rfl, by omega⟩
      · exact .inl (word_of_short hge)
    · intro hi lo
      apply lengthAgrees_word (show start + 2 + (fromBeBytes hi lo).toNat + 2 ≤
        start + (2 + (fromBeBytes hi lo).toNat + 2) by omega)
      · exact fun _ _ _ => .inr ⟨_, rfl, by omega⟩
      · exact fun _ _ => .inl rfl
  rename_i h5
  rw [if_neg h5] at h
  split
  · rename_i hid
    rw [if_pos hid, runsOut_bind, not_or] at h
    left
    dsimp only
    rw [(tracks_vbi (n := 4) hstart (Nat.le_refl 4)).stays h.1 t]
  · exact .inl rfl

/-- Only the length of a variable byte integer runs out. -/
theorem runsOut_propertyDataLen {id : UInt8} {start : ℕ} {buf : List UInt8}
    (h : RunsOut (propertyDataLen id start buf)) :
    id = 0x0B ∧ Base128.read 4 (buf.drop start) = .incomplete := by
  have hword {β : Type} (pos : ℕ) (k : UInt8 → UInt8 → Checked PacketError β)
      (hk : ∀ hi lo, ¬ RunsOut (k hi lo)) :
      ¬ RunsOut (get buf pos .malformedPacket >>= fun hi =>
        get buf (pos + 1) .malformedPacket >>= fun lo => k hi lo) := by
    rcases Nat.lt_or_ge (pos + 1) buf.length with hlt | hge
    · rw [word_of_fit hlt]
      exact hk _ _
    · rw [word_of_short hge]
      simp [runsOut_error]
  unfold propertyDataLen at h
  split at h
  · exact absurd h (not_runsOut_ok _)
  split at h
  · exact absurd h (not_runsOut_ok _)
  split at h
  · exact absurd h (not_runsOut_ok _)
  split at h
  · exact absurd h (hword _ _ fun _ _ => not_runsOut_ok _)
  split at h
  · exact absurd h (hword _ _ fun _ _ => hword _ _ fun _ _ => not_runsOut_ok _)
  split at h
  · rename_i hid
    refine ⟨hid, ?_⟩
    rcases runsOut_bind.mp h with hread | ⟨⟨k, pos⟩, hread, hsub⟩
    · rw [readVariableByteInteger_eq] at hread
      cases hvbi : Base128.read 4 (buf.drop start) with
      | value k len => simp [hvbi] at hread
      | incomplete => rfl
      | overlong => simp [hvbi, runsOut_error] at hread
    · have hmoves := (advances_vbi start buf).2 k pos hread
      dsimp only at hsub
      rw [sub_of_le (by omega)] at hsub
      exact absurd hsub (not_runsOut_ok _)
  · exact absurd h (not_runsOut_ok _)

theorem readProperty_end {propEnd cursor : ℕ} {buf : List UInt8} {p : Property} {c : ℕ}
    (h : readProperty propEnd cursor buf = .ok (p, c)) : c ≤ propEnd := by
  obtain ⟨_, _, h⟩ := bind_eq_ok.mp h
  obtain ⟨len, _, h⟩ := bind_eq_ok.mp h
  obtain ⟨_, hfit, h⟩ := bind_eq_ok.mp h
  obtain ⟨_, _, h⟩ := bind_eq_ok.mp h
  rw [failIf_eq_ok] at hfit
  cases h
  omega

/-- A property runs out only in its length. -/
theorem runsOut_property {propEnd cursor : ℕ} {buf : List UInt8} (hcursor : cursor < propEnd)
    (hend : propEnd ≤ buf.length) (h : RunsOut (readProperty propEnd cursor buf)) :
    RunsOut (propertyDataLen buf[cursor] (cursor + 1) buf) := by
  rw [readProperty, index_of_lt (show cursor < buf.length by omega), ok_bind, runsOut_bind] at h
  rcases h with h | ⟨len, -, h⟩
  · exact h
  · rcases runsOut_bind.mp h with h | ⟨_, hfit, h⟩
    · rw [failIf] at h
      split at h
      · simp [runsOut_error] at h
      · exact absurd h (not_runsOut_ok _)
    · rw [failIf_eq_ok] at hfit
      rw [range_of_le (by omega) (by omega)] at h
      exact absurd h (not_runsOut_ok _)

/-- A property that lies in the frame, or runs out of it. -/
theorem tracks_property {propEnd cursor : ℕ} (hcursor : cursor < propEnd)
    (hend : propEnd ≤ f.length) (hn : 4 ≤ n) : Tracks f n (readProperty propEnd cursor) where
  stays h t := by
    have hindex := index_append (show cursor < f.length by omega) t
    rw [readProperty, index_of_lt (show cursor < f.length by omega), ok_bind, runsOut_bind,
      not_or] at h
    rw [readProperty, readProperty, hindex, index_of_lt (show cursor < f.length by omega), ok_bind,
      ok_bind]
    rcases propertyDataLen_append f[cursor] (show cursor + 1 ≤ f.length by omega) h.1 t with
      hsame | ⟨hshort, len, hlen, hbeyond⟩
    · dsimp only at hsame ⊢
      rw [hsame]
      cases hlen : propertyDataLen f[cursor] (cursor + 1) f with
      | error e => rfl
      | ok len =>
        rw [ok_bind, ok_bind]
        by_cases hfit : cursor + 1 + len > propEnd
        · rw [failIf, if_pos hfit]
          rfl
        · have hdata : (range (f ++ t) (cursor + 1) (cursor + 1 + len) : Checked PacketError _) =
              range f (cursor + 1) (cursor + 1 + len) := by
            rw [range_of_le (by omega) (by rw [List.length_append]; omega),
              range_of_le (by omega) (by omega), List.take_append_of_le_length (by omega)]
          rw [failIf_of_not hfit, ok_bind, ok_bind, hdata]
    · -- The length tells that the property ends behind the block.
      dsimp only at hshort hlen ⊢
      rw [hshort, hlen, ok_bind, failIf, if_pos (by omega)]
      rfl
  leaves h := by
    obtain ⟨hid, hread⟩ := runsOut_propertyDataLen (runsOut_property hcursor hend h)
    have hvbi : readVariableByteInteger (cursor + 1) (f ++ filler n) =
        .error (.err .malformedPacket) := by
      rw [readVariableByteInteger_eq, List.drop_append_of_le_length (by omega), filler,
        Base128.read_append_replicate hread (by decide) hn]
    have hlen : propertyDataLen f[cursor] (cursor + 1) (f ++ filler n) =
        .error (.err .malformedPacket) := by
      rw [hid]
      change (readVariableByteInteger (cursor + 1) (f ++ filler n) >>= _) = _
      rw [hvbi]
      rfl
    rw [readProperty, index_append (show cursor < f.length by omega),
      index_of_lt (show cursor < f.length by omega), ok_bind]
    dsimp only
    rw [hlen]
    exact leavesFrame_error (by decide)
  inside _ _ h := Nat.le_trans (readProperty_end h) hend

/-! ## Loops over items -/

/-- A loop over items that ends in the frame. -/
theorem tracks_readItems {β : Type} {N : ℕ} {full : PacketError} (hfull : full ≠ .incompletePacket)
    {item : ℕ → List UInt8 → Checked PacketError (β × ℕ)} {stop : ℕ} (hstop : stop ≤ f.length)
    (hitem : ∀ c < stop, Tracks f n (item c)) {cursor : ℕ} (hcursor : cursor ≤ f.length)
    (fuel : ℕ) (items : BoundedVec β N) :
    Tracks f n fun buf => readItems full item buf stop fuel cursor items := by
  induction fuel generalizing cursor items with
  | zero =>
    rcases Nat.lt_or_ge cursor stop with hlt | hge
    · simp only [readItems, if_pos hlt]
      exact ⟨fun _ _ => rfl, fun h => by simp [runsOut_error] at h, fun _ _ h => by cases h⟩
    · simp only [readItems_of_le hge]
      exact tracks_ok hcursor
  | succ fuel ih =>
    rcases Nat.lt_or_ge cursor stop with hlt | hge
    · simp only [readItems_of_lt hlt]
      apply Tracks.bind (hitem cursor hlt)
      · intro x c hx
        cases hpush : items.push x with
        | none =>
          exact ⟨fun _ _ => rfl, fun h => by simp [runsOut_error, hfull] at h,
            fun _ _ h => by cases h⟩
        | some items' => exact ih ((hitem cursor hlt).inside x c hx) items'
      · intro hrun
        apply ((hitem cursor hlt).leaves hrun).bind
        intro x c hle hreach
        cases hpush : items.push x with
        | none => exact leavesFrame_error hfull
        | some items' =>
          dsimp only
          rw [readItems_of_le (by omega)]
          exact leavesFrame_ok hle hreach
    · simp only [readItems_of_le hge]
      exact tracks_ok hcursor

/-- A loop whose items neither run out nor pass the end stops at the end. -/
theorem readItems_within {β : Type} {N : ℕ} {full : PacketError} (hfull : full ≠ .incompletePacket)
    {item : ℕ → List UInt8 → Checked PacketError (β × ℕ)} {buf : List UInt8} {stop : ℕ}
    (hitem : ∀ c < stop, ¬ RunsOut (item c buf) ∧ ∀ x c', item c buf = .ok (x, c') → c' ≤ stop)
    {cursor : ℕ} (hcursor : cursor ≤ stop) (fuel : ℕ) (items : BoundedVec β N) :
    ¬ RunsOut (readItems full item buf stop fuel cursor items) ∧
      ∀ xs c, readItems full item buf stop fuel cursor items = .ok (xs, c) → c = stop := by
  induction fuel generalizing cursor items with
  | zero =>
    rcases Nat.lt_or_ge cursor stop with hlt | hge
    · simp only [readItems, if_pos hlt]
      exact ⟨by simp [runsOut_error], fun _ _ h => by cases h⟩
    · rw [readItems_of_le hge]
      refine ⟨not_runsOut_ok _, ?_⟩
      rintro xs c ⟨⟩
      omega
  | succ fuel ih =>
    rcases Nat.lt_or_ge cursor stop with hlt | hge
    · obtain ⟨hcomplete, hle⟩ := hitem cursor hlt
      rw [readItems_of_lt hlt]
      cases hx : item cursor buf with
      | error e =>
        rw [hx, runsOut_error] at hcomplete
        rw [error_bind]
        exact ⟨by rwa [runsOut_error], fun _ _ h => by cases h⟩
      | ok x =>
        rw [ok_bind]
        cases hpush : items.push x.1 with
        | none => exact ⟨by simp [runsOut_error, hfull], fun _ _ h => by cases h⟩
        | some items' => exact ih (hle x.1 x.2 hx) items'
    · rw [readItems_of_le hge]
      refine ⟨not_runsOut_ok _, ?_⟩
      rintro xs c ⟨⟩
      omega

/-- A block that ends behind the frame ends in the filler. -/
theorem leaves_block {pos len : ℕ} (hpos : pos ≤ f.length) (hlen : len < 128 ^ 4)
    (hn : reach + 4 ≤ n) (hout : f.length < pos + len) :
    LeavesFrame f (readItems .tooManyProperties (readProperty (pos + len)) (f ++ filler n)
      (pos + len) len pos (.empty : Properties)) := by
  have hroom : pos + len + 4 ≤ (f ++ filler n).length := by
    rw [List.length_append, length_filler]
    rw [reach] at hn
    omega
  have hitem (c : ℕ) (hc : c < pos + len) :
      ¬ RunsOut (readProperty (pos + len) c (f ++ filler n)) ∧
        ∀ p c', readProperty (pos + len) c (f ++ filler n) = .ok (p, c') → c' ≤ pos + len := by
    refine ⟨fun hrun => ?_, fun _ _ hx => readProperty_end hx⟩
    -- Four bytes of room are enough for the length of a property.
    have hread := (runsOut_propertyDataLen (runsOut_property hc (by omega) hrun)).2
    exact Base128.read_ne_incomplete (by rw [List.length_drop]; omega) hread
  have hloop := readItems_within (show PacketError.tooManyProperties ≠ .incompletePacket by decide)
    hitem (Nat.le_add_right pos len) len (.empty : Properties)
  rcases hres : readItems .tooManyProperties (readProperty (pos + len)) (f ++ filler n)
      (pos + len) len pos (.empty : Properties) with e | ⟨ps, c⟩
  · rw [hres, runsOut_error] at hloop
    exact .inl ⟨e, rfl, hloop.1⟩
  · rw [hloop.2 ps c hres]
    exact leavesFrame_ok (by omega) (by rw [reach]; omega)

theorem vbi_lt {cursor : ℕ} {buf : List UInt8} {len pos : ℕ}
    (h : readVariableByteInteger cursor buf = .ok (len, pos)) : len < 128 ^ 4 := by
  rw [readVariableByteInteger_eq] at h
  cases hvbi : Base128.read 4 (buf.drop cursor) with
  | value k l =>
    have hlt := (Base128.read_eq_value hvbi).2.2.2
    simp only [hvbi, Except.ok.injEq, Prod.mk.injEq] at h
    omega
  | incomplete => simp [hvbi] at h
  | overlong => simp [hvbi] at h

/-- A property block. -/
theorem tracks_properties {cursor : ℕ} (hcursor : cursor ≤ f.length) (hn : reach + 4 ≤ n) :
    Tracks f n (readProperties cursor) := by
  have hvbi := tracks_vbi hcursor (show 4 ≤ n by omega)
  by_cases hout : RunsOut (readVariableByteInteger cursor f)
  · -- The length of the block is cut off, and does not end in the filler.
    have hfiller : LeavesFrame f (readProperties cursor (f ++ filler n)) := by
      have hread : readVariableByteInteger cursor (f ++ filler n) =
          .error (.err .malformedPacket) := by
        rw [readVariableByteInteger_eq] at hout
        rw [readVariableByteInteger_eq, List.drop_append_of_le_length hcursor]
        cases hread : Base128.read 4 (f.drop cursor) with
        | value k len => simp [hread] at hout
        | incomplete => rw [filler, Base128.read_append_replicate hread (by decide) (by omega)]
        | overlong => simp [hread, runsOut_error] at hout
      rw [readProperties, hread]
      exact leavesFrame_error (by decide)
    refine ⟨fun h => absurd hout.bind h, fun _ => hfiller, fun a c h => ?_⟩
    rw [RunsOut] at hout
    rw [readProperties, hout] at h
    cases h
  · cases hread : readVariableByteInteger cursor f with
    | error e =>
      have hsame (t : List UInt8) : readProperties cursor (f ++ t) = .error e := by
        rw [readProperties, hvbi.stays hout t, hread]
        rfl
      have hf : readProperties cursor f = .error e := by
        rw [readProperties, hread]
        rfl
      rw [hread] at hout
      refine ⟨fun _ t => by rw [hsame, hf], fun h => ?_, fun a c h => ?_⟩
      · rw [hf, runsOut_error] at h
        exact absurd (runsOut_error.mpr h) hout
      · rw [hf] at h
        cases h
    | ok x =>
      obtain ⟨len, pos⟩ := x
      have hpos := hvbi.inside len pos hread
      have hbody (t : List UInt8) : readProperties cursor (f ++ t) =
          failIf (pos + len > (f ++ t).length) .incompletePacket >>= fun _ =>
            readItems .tooManyProperties (readProperty (pos + len)) (f ++ t) (pos + len) len pos
              .empty := by
        rw [readProperties, hvbi.stays hout t, hread]
        rfl
      have hf := hbody []
      rw [List.append_nil] at hf
      by_cases hfit : pos + len > f.length
      · have hrun : readProperties cursor f = .error (.err .incompletePacket) := by
          rw [hf, failIf, if_pos hfit]
          rfl
        refine ⟨fun h => absurd hrun h, fun _ => ?_, fun a c h => ?_⟩
        · have hlen := vbi_lt hread
          rw [reach] at hn
          rw [hbody, failIf_of_not (by rw [List.length_append, length_filler]; omega), ok_bind]
          exact leaves_block hpos hlen (by rw [reach]; omega) hfit
        · rw [hrun] at h
          cases h
      · have hloop := tracks_readItems
          (show PacketError.tooManyProperties ≠ .incompletePacket by decide)
          (show pos + len ≤ f.length by omega)
          (fun c hc => tracks_property (n := n) hc (by omega) (by omega)) hpos len
          (.empty : Properties)
        have hf' : readProperties cursor f =
            readItems .tooManyProperties (readProperty (pos + len)) f (pos + len) len pos
              .empty := by
          rw [hf, failIf_of_not hfit, ok_bind]
        have hbody' (t : List UInt8) : readProperties cursor (f ++ t) =
            readItems .tooManyProperties (readProperty (pos + len)) (f ++ t) (pos + len) len pos
              .empty := by
          rw [hbody, failIf_of_not (by rw [List.length_append]; omega), ok_bind]
        refine ⟨fun h t => ?_, fun h => ?_, fun a c h => ?_⟩
        · rw [hbody', hf']
          rw [hf'] at h
          exact hloop.stays h t
        · rw [hbody']
          rw [hf'] at h
          exact hloop.leaves h
        · rw [hf'] at h
          exact hloop.inside a c h

end

end MqttEngine
