import MqttEngine.Tokio.StreamDelivery
import MqttEngine.Tokio.StreamEnd

/-!
# Data streams in a user interface

`SlintStreamBinding::bind_ordered_datastream` of `slint_support.rs` spawns a task that hands each
chunk of an ordered stream to a callback of the user interface, until the stream ends or fails. When
the subscription has been closed the task comes to an end: each chunk that it hands over was still
to be received or was buffered, and none of these comes again.

## Main definitions

* `forward` — the loop of the task.

## Main results

* `forward_ended` — the task ends.
* `forwarded_of_run` — what the callback gets.
-/

namespace MqttEngine.Bridges
open MqttEngine.Tokio DataStreamConsumer

namespace SlintStreamBinding
variable {E : Type}

/-- The loop of the task of `bind_ordered_datastream`, for so many rounds: the chunks that the
callback gets, and whether the task has ended. -/
def forward (E : Type) : ℕ → DataStreamConsumer → List StreamChunk × Bool
  | 0, _ => ([], false)
  | fuel + 1, consumer =>
    match outcome (recvOrdered (E := E)) consumer with
    | (.ok (some chunk), consumer) =>
      let (chunks, ended) := forward E fuel consumer
      (chunk :: chunks, ended)
    | _ => ([], true)

section
variable {w n e : ℕ} {consumer : DataStreamConsumer} {received arrivals : List Tokio.PublishMessage}

/-- The callback gets what the calls return. -/
theorem forward_init (fuel : ℕ) (consumer : DataStreamConsumer) :
    (forward E fuel consumer).1 <+: returned E consumer fuel := by
  induction fuel generalizing consumer with
  | zero => exact List.nil_prefix
  | succ fuel ih =>
    rw [forward, returned_succ]
    split
    · rename_i chunk consumer' hcall
      rw [hcall]
      exact List.prefix_append_right_inj [chunk] |>.mpr (ih consumer')
    · exact List.nil_prefix

/-- The task ends, for what is still to be received or buffered gets less with each chunk. -/
theorem forward_ended {fuel : ℕ} (h : Lags arrivals w consumer received)
    (hsize : consumer.reorderBuffer.size ≤ w)
    (hfuel : consumer.subscription.length + consumer.reorderBuffer.size < fuel) :
    (forward E fuel consumer).2 = true := by
  induction fuel generalizing consumer received with
  | zero => omega
  | succ fuel ih =>
    have hcall := recvOrdered_answers (E := E) h hsize
    rw [forward]
    generalize outcome (recvOrdered (E := E)) consumer = call at hcall
    cases hcall with
    | chunk h' hsize' _ _ _ hfewer => exact ih h' hsize' (by omega)
    | overflow => rfl
    | closed => rfl

/-- From the number `e` on the callback gets the chunks as long as there are any. -/
theorem length_forward (hcomplete : Complete n arrivals) (hn : n + 1 < 2 ^ 64)
    (h : Ordered arrivals consumer received e) (fuel : ℕ) :
    (forward E fuel consumer).1.length = min fuel (n + 1 - e) := by
  induction fuel generalizing consumer received e with
  | zero => simp [forward]
  | succ fuel ih =>
    have hcall := recvOrdered_spec (E := E) hcomplete h
    rw [forward]
    generalize outcome (recvOrdered (E := E)) consumer = call at hcall
    cases hcall with
    | chunk hle _ _ h' =>
      rw [List.length_cons, ih h']
      omega
    | overflow hle hnext => omega
    | closed hlt h' =>
      rw [List.length_nil]
      omega

/-- Each of the numbers arrives in a message of its own. -/
theorem le_length_of_complete (h : Complete n arrivals) : n ≤ arrivals.length := by
  have hsub : Finset.Icc 1 n ⊆ (arrivals.map sequenceNumber).toFinset := by
    intro k hk
    rw [Finset.mem_Icc] at hk
    exact List.mem_toFinset.mpr ((h k).mpr hk)
  calc n = (Finset.Icc 1 n).card := by simp
    _ ≤ (arrivals.map sequenceNumber).toFinset.card := Finset.card_le_card hsub
    _ ≤ arrivals.length := (List.toFinset_card_le _).trans (List.length_map _).le

end

/-- **What the callback gets.** Whatever is lost, repeated or reordered on the way, the task ends
when the subscription has been closed, after at most one round more than messages have arrived. The
callback gets chunks that were sent, unchanged, in the order of their numbers, and none twice. If
everything arrives and the window is wide enough, it gets all of them. -/
theorem forwarded_of_run {topic : String} {qos : QoS} {journalCapacity : ℕ}
    {actions : List ProducerAction} {s : ProducerSystem E} {arrivals : List Tokio.PublishMessage}
    (hrun : actions.foldlM ProducerSystem.step (.start E (.new topic qos journalCapacity)) = some s)
    (hissued : s.issued < 2 ^ 64 - 1) (harrivals : ∀ msg ∈ arrivals, Conveyed s.requests msg)
    (w : ℕ) :
    ∃ chunks, forward E (arrivals.length + 1) (new arrivals w) = (chunks, true) ∧
      chunks.Sublist (sentChunks topic (sends actions)) ∧
      (Complete s.issued arrivals → Within w arrivals →
        chunks = sentChunks topic (sends actions)) := by
  have hstreams := streams_of_foldlM hrun
  have hended : (forward E (arrivals.length + 1) (new arrivals w)).2 = true :=
    forward_ended (lags_new arrivals w) (by simp [new]) (by simp [new])
  have hsublist := (forward_init (E := E) (arrivals.length + 1) (new arrivals w)).sublist.trans
    (sublist_of_streams hstreams hissued harrivals w (arrivals.length + 1)).2
  refine ⟨_, Prod.ext rfl hended, hsublist, fun hcomplete hwithin => hsublist.eq_of_length ?_⟩
  have hle := le_length_of_complete hcomplete
  rw [length_forward hcomplete (by omega) (ordered_new hwithin), length_sentChunks,
    ← hstreams.issued]
  omega

/-- The second of two messages arrives first, and twice. -/
theorem forwarded_of_run_repeated : ∃ s chunks,
    sampleActions.foldlM ProducerSystem.step (.start Empty (.new "t" .atMostOnce 2)) = some s ∧
      forward Empty 4 (new (sampleMessages ++ sampleMessages).tail 1) = (chunks, true) ∧
      chunks.Sublist (sentChunks "t" (sends sampleActions)) := by
  obtain ⟨s, hrun, hissued, -, -, -, hrequests, -⟩ := run_sampleActions
  obtain ⟨chunks, hforward, hsublist, -⟩ := forwarded_of_run hrun (by rw [hissued]; decide)
    (fun msg (hmsg : msg ∈ (sampleMessages ++ sampleMessages).tail) =>
      ⟨msg, hrequests ▸ List.mem_of_mem_tail hmsg, rfl, rfl⟩) 1
  exact ⟨s, chunks, hrun, hforward, hsublist⟩

end SlintStreamBinding

end MqttEngine.Bridges
