import MqttEngine.Bridges.Emission
import MqttEngine.Lib.Multipart
import Mathlib.Data.List.TakeWhile

/-!
# The bridge to MJPEG

`CameraMjpegBridge` of `web.rs` turns each frame that it polls into a part of a multipart stream.
The header of the part says how long the frame is. So a browser finds the frames again, whatever
bytes they have and however the stream is cut on its way.

## Main definitions

* `CameraMjpegBridge`, `CameraMjpegBridge.pollNext` — the bridge.

## Main results

* `contents_chunks` — the frames are found again.
* `contents_emitted` — a browser gets the frames that were sent after it had subscribed, in order.
-/

namespace MqttEngine.Bridges
open MqttEngine.Tokio

/-- `CameraMjpegBridge`. -/
structure CameraMjpegBridge where
  stream : WebClientStream
  boundary : String

namespace CameraMjpegBridge

/-- What is written in front of a frame. -/
def header (boundary : String) (length : ℕ) : String :=
  "--" ++ boundary ++ "\r\nContent-Type: image/jpeg\r\nContent-Length: " ++ toString length ++
    "\r\n\r\n"

/-- The bytes that are emitted for a frame. -/
def chunk (boundary : String) (jpegBytes : List UInt8) : List UInt8 :=
  strBytes (header boundary jpegBytes.length) ++ jpegBytes ++ [13, 10]

/-- `poll_next`. -/
def pollNext (E : Type) (self : CameraMjpegBridge) :
    Poll (Option (Except (ClientError E) (List UInt8))) × CameraMjpegBridge :=
  let (polled, stream) := self.stream.pollNext E
  (match polled with
    | .ready (some (.ok jpegBytes)) => .ready (some (.ok (chunk self.boundary jpegBytes)))
    | .ready (some (.error e)) => .ready (some (.error e))
    | .ready none => .ready none
    | .pending => .pending,
    { self with stream })

/-! ## The parts -/

/-- The header without the delimiter. -/
def fields (length : ℕ) : List UInt8 :=
  strBytes "Content-Type: image/jpeg" ++ [13, 10] ++
    (strBytes "Content-Length: " ++ Utf8.encode (Nat.toDigits 10 length))

theorem strBytes_append (s t : String) : strBytes (s ++ t) = strBytes s ++ strBytes t := by
  rw [strBytes_eq_encode, strBytes_eq_encode, strBytes_eq_encode, String.toList_append,
    Utf8.encode_append]

/-- What is emitted for a frame is a part. -/
theorem chunk_eq_part (boundary : String) (jpegBytes : List UInt8) :
    chunk boundary jpegBytes =
      Multipart.part (strBytes boundary) (fields jpegBytes.length) jpegBytes := by
  have hdigits (n : ℕ) : strBytes (toString n) = Utf8.encode (Nat.toDigits 10 n) := by
    rw [strBytes_eq_encode]
    congr 1
    exact Nat.toList_repr
  have hmiddle : strBytes "\r\nContent-Type: image/jpeg\r\nContent-Length: " =
      [13, 10] ++ strBytes "Content-Type: image/jpeg" ++ [13, 10] ++
        strBytes "Content-Length: " := by
    decide
  have hdashes : strBytes "--" = [45, 45] := by decide
  have hblank : strBytes "\r\n\r\n" = Multipart.blankLine := by decide
  simp only [chunk, header, strBytes_append, hdigits, hmiddle, hdashes, hblank, Multipart.part,
    Multipart.delimiter, Multipart.crlf, fields, List.append_assoc]

/-- A line of digits. -/
theorem digit_ascii {n : ℕ} {c : Char} (h : c ∈ Nat.toDigits 10 n) : 48 ≤ c.toNat ∧ c.toNat ≤ 57 :=
  Decimal.toNat_lt_of_isDigit (Decimal.isDigit_of_mem_toDigits h)

theorem cr_not_mem_digits (n : ℕ) : (13 : UInt8) ∉ Utf8.encode (Nat.toDigits 10 n) := by
  rw [Utf8.encode_of_ascii fun c hc => by have := digit_ascii hc; omega]
  intro hmem
  obtain ⟨c, hc, hcr⟩ := List.mem_map.mp hmem
  have hdigit := digit_ascii hc
  have hnat := congrArg UInt8.toNat hcr
  rw [UInt8.toNat_ofNat'] at hnat
  have : (13 : UInt8).toNat = 13 := rfl
  omega

theorem text_encode {cs : List Char} (h : ∀ c ∈ cs, c.toNat < 128) :
    Multipart.text (Utf8.encode cs) = cs := by
  rw [Utf8.encode_of_ascii h, Multipart.text, List.map_map]
  refine (List.map_congr_left fun c hc => ?_).trans (List.map_id cs)
  have hlt := h c hc
  have hnat : (UInt8.ofNat c.toNat).toNat = c.toNat := by
    rw [UInt8.toNat_ofNat', Nat.mod_eq_of_lt (by omega)]
  simp [hnat]

/-- The header ends where its empty line begins. -/
theorem before_fields (length : ℕ) :
    Multipart.before Multipart.blankLine (fields length ++ Multipart.blankLine) =
      some (fields length) := by
  set digits := Utf8.encode (Nat.toDigits 10 length) with hdigits
  have hlast : Multipart.before Multipart.blankLine
      ((strBytes "Content-Length: " ++ digits) ++ Multipart.blankLine) =
        some (strBytes "Content-Length: " ++ digits) := by
    have hmem : (13 : UInt8) ∉ strBytes "Content-Length: " ++ digits := by
      rw [List.mem_append, not_or]
      exact ⟨by decide, cr_not_mem_digits length⟩
    rw [Multipart.blankLine, Multipart.before_of_not_mem hmem]
    simp [Multipart.before_cons_of_begins]
  -- the first line is ended by CR LF, and the second one begins with a letter
  have hfirst (rest : List UInt8) : Multipart.before Multipart.blankLine (13 :: 10 :: 67 :: rest) =
      (Multipart.before Multipart.blankLine (67 :: rest)).map fun later => 13 :: 10 :: later := by
    rw [Multipart.before_cons_of_not_begins (by simp [Multipart.blankLine]),
      Multipart.before_cons_of_not_begins (by simp [Multipart.blankLine]), Option.map_map]
    rfl
  have hletter : strBytes "Content-Length: " = 67 :: strBytes "ontent-Length: " := by decide
  have hsplit : fields length ++ Multipart.blankLine =
      strBytes "Content-Type: image/jpeg" ++
        13 :: 10 :: 67 :: (strBytes "ontent-Length: " ++ digits ++ Multipart.blankLine) := by
    simp [fields, hletter, hdigits]
  have hline : (13 : UInt8) ∉ strBytes "Content-Type: image/jpeg" := by decide
  rw [hletter, List.cons_append, List.cons_append] at hlast
  rw [hsplit, Multipart.blankLine, Multipart.before_of_not_mem hline, ← Multipart.blankLine, hfirst,
    hlast]
  simp [fields, hletter, hdigits]

theorem contentLength_fields (length : ℕ) :
    Multipart.contentLength (Multipart.text (fields length)) = some length := by
  have htext : Multipart.text (fields length) = "Content-Type: image/jpeg".toList ++
      '\r' :: '\n' :: ("Content-Length: ".toList ++ Nat.toDigits 10 length) := by
    have hdigits : Multipart.text (Utf8.encode (Nat.toDigits 10 length)) = Nat.toDigits 10 length :=
      text_encode fun c hc => by have := digit_ascii hc; omega
    have htype : Multipart.text (strBytes "Content-Type: image/jpeg") =
        "Content-Type: image/jpeg".toList := by decide
    have hcrlf : Multipart.text [13, 10] = ['\r', '\n'] := by decide
    have hname : Multipart.text (strBytes "Content-Length: ") = "Content-Length: ".toList := by
      decide
    have happend (bs cs : List UInt8) :
        Multipart.text (bs ++ cs) = Multipart.text bs ++ Multipart.text cs := List.map_append
    rw [fields, happend, happend, happend, htype, hcrlf, hname, hdigits]
    simp
  have hcr : '\r' ∉ "Content-Length: ".toList ++ Nat.toDigits 10 length := by
    rw [List.mem_append, not_or]
    refine ⟨by decide, fun h => ?_⟩
    have hdigit := digit_ascii h
    have : '\r'.toNat = 13 := rfl
    omega
  have htype : Multipart.fieldValue "content-length".toList "Content-Type: image/jpeg".toList =
      none := by
    decide
  have hvalue : Multipart.fieldValue "content-length".toList
      ("Content-Length: ".toList ++ Nat.toDigits 10 length) = some (Nat.toDigits 10 length) := by
    have hline : "Content-Length: ".toList ++ Nat.toDigits 10 length =
        "Content-Length".toList ++ ':' :: ' ' :: Nat.toDigits 10 length := by
      simp
    have hdrop : (Nat.toDigits 10 length).dropWhile (fun c => decide (c = ' ')) =
        Nat.toDigits 10 length := by
      rw [List.dropWhile_eq_self_iff]
      intro hpos hspace
      have hdigit := digit_ascii (List.getElem_mem hpos)
      rw [of_decide_eq_true hspace] at hdigit
      exact absurd hdigit (by decide)
    rw [hline, Multipart.fieldValue_append (by decide), if_pos (by decide),
      List.dropWhile_cons_of_pos (by decide), hdrop]
  rw [Multipart.contentLength, htext, Multipart.lines_append_crlf (by decide),
    Multipart.lines_of_not_mem hcr]
  simp only [List.nil_append, List.findSome?_cons, htype, hvalue, Option.bind_none,
    Option.bind_some, Decimal.parse_toDigits]

theorem isFrame_chunk (boundary : String) (jpegBytes : List UInt8) :
    (Multipart.framing (strBytes boundary)).IsFrame (chunk boundary jpegBytes) := by
  rw [chunk_eq_part]
  exact Multipart.isFrame_part (before_fields _) (contentLength_fields _)

@[simp] theorem content_chunk (boundary : String) (jpegBytes : List UInt8) :
    Multipart.content (strBytes boundary) (chunk boundary jpegBytes) = jpegBytes := by
  rw [chunk_eq_part]
  exact Multipart.content_part (before_fields _) (contentLength_fields _)

/-- **The frames are found again**, whatever bytes they and the boundary have, and however the
stream is cut. -/
theorem contents_chunks {boundary : String} {frames chunks : List (List UInt8)}
    (h : chunks.flatten = (frames.map (chunk boundary)).flatten) :
    Multipart.contents (strBytes boundary) chunks = frames := by
  rw [Multipart.contents_parts _ h, List.map_map]
  · exact (List.map_congr_left fun jpegBytes _ => content_chunk boundary jpegBytes).trans
      (List.map_id frames)
  · intro p hp
    obtain ⟨jpegBytes, -, rfl⟩ := List.mem_map.mp hp
    exact isFrame_chunk boundary jpegBytes

/-! ## In a run of the hub -/

/-- The bytes that the bridge gives when it is polled. -/
def give (boundary : String) (client : WebClientStream) : List UInt8 :=
  bytes (pollNext Empty { stream := client, boundary }).1

theorem gives_give (boundary : String) : Gives (give boundary) (chunk boundary) := by
  intro client
  rw [give, pollNext]
  rcases WebClientStream.pollNext_cases Empty client with ⟨payload, queue, -, hpoll⟩ | ⟨-, hpoll⟩
  · rw [hpoll]
    rfl
  · rw [hpoll]
    cases client.taskEnded <;> rfl

/-- **A browser gets the frames that were sent after it had subscribed, in order.** In every run of
the hub, the parts that it finds in what the bridge has given are the frames that the bridge has
polled, however the stream is cut on its way, and these are some of the frames that were sent since
then, in their order and each at most once. -/
theorem contents_emitted {E : Type} {subscribed : Except (ClientError E) Unit} {topic : String}
    {broadcastCapacity : ℕ} {hub s s' t : MqttBroadcastHub} {events : List MqttBroadcastHub.Event}
    (hnew : MqttBroadcastHub.new subscribed topic broadcastCapacity = .ok hub)
    (hbefore : MqttBroadcastHub.Reaches MqttBroadcastHub.Any hub s)
    (hsubscribe : s.step .subscribe = some s')
    (hevents : events.foldlM MqttBroadcastHub.step s' = some t) (boundary : String)
    {chunks : List (List UInt8)}
    (hchunks : chunks.flatten =
      MqttBroadcastHub.emitted (give boundary) s.clients.length s' events) :
    ∃ client later, t.clients[s.clients.length]? = some client ∧ t.sent = s.sent ++ later ∧
      Multipart.contents (strBytes boundary) chunks = client.polled ∧
      client.polled.Sublist later := by
  obtain ⟨client, later, hclient, hsent, hsublist, hemitted⟩ :=
    MqttBroadcastHub.emitted_after hnew hbefore hsubscribe hevents (gives_give boundary)
  exact ⟨client, later, hclient, hsent, contents_chunks (hchunks.trans hemitted), hsublist⟩

/-- A frame that contains the boundary, on its way in two pieces. -/
theorem contents_emitted_boundary : ∃ s t,
    MqttBroadcastHub.fresh.step .subscribe = some s ∧
    [.message (some (.new "t" (strBytes "--frame"))), .task 0, .task 0, .poll 0].foldlM
      MqttBroadcastHub.step s = some t ∧
    ∃ client later, t.clients[0]? = some client ∧ t.sent = [] ++ later ∧
      Multipart.contents (strBytes "frame")
        [(chunk "frame" (strBytes "--frame")).take 40,
          (chunk "frame" (strBytes "--frame")).drop 40] = client.polled ∧
      client.polled.Sublist later :=
  ⟨_, _, rfl, rfl, contents_emitted MqttBroadcastHub.new_fresh .refl rfl
    (show [MqttBroadcastHub.Event.message (some (.new "t" (strBytes "--frame"))), .task 0, .task 0,
      .poll 0].foldlM MqttBroadcastHub.step _ = some _ from rfl) "frame" (by decide)⟩

end CameraMjpegBridge

end MqttEngine.Bridges
