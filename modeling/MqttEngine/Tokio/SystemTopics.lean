import MqttEngine.Tokio.Registry

/-!
# System topics

A topic that begins with `$` is one of the system, and the protocol keeps it from filters that
begin with a wildcard: whoever subscribes to `#` does not ask for the internals of a broker. The
router makes no such difference. It gets system topics right exactly as long as no filter that
begins with a wildcard matches them, or its subscriber could not take the message anyway.

## Main definitions

* `SystemTopic`, `WildFirst` — the topics and filters in question.
* `Registry.allowed` — the registered pairs that match by the rules of the protocol.
* `TopicRouter.ObeysProtocol` — a message goes to these pairs.

## Main results

* `dispatch_obeysProtocol_iff` — when a message does.
-/

namespace MqttEngine.Tokio

/-- The topic is one of the system. -/
def SystemTopic (topic : String) : Prop := topic.toList.head? = some '$'

/-- The filter begins with a wildcard. -/
def WildFirst (filter : String) : Prop :=
  filter.toList.head? = some '#' ∨ filter.toList.head? = some '+'

instance (topic : String) : Decidable (SystemTopic topic) := inferInstanceAs (Decidable (_ = _))

instance (filter : String) : Decidable (WildFirst filter) := inferInstanceAs (Decidable (_ ∨ _))

section
variable {S : Type} [DecidableEq S]

/-- The registered pairs that match by the rules of the protocol. -/
def Registry.allowed (self : Registry S) (topic : String) : Registry S :=
  (self.matched topic).filter fun pair => ¬ (SystemTopic topic ∧ WildFirst pair.1)

/-- How many of them have this sender. -/
def Registry.allowedCopies (self : Registry S) (topic : String) (sender : S) : ℕ :=
  (self.allowed topic).countP fun pair => pair.2 = sender

variable {W : Type} (ch : Mpsc W S PublishMessage)

/-- Every open channel gets a message as often as the protocol says, as far as it has places. -/
def TopicRouter.ObeysProtocol (router : TopicRouter S) (registry : Registry S)
    (message : PublishMessage) (w : W) : Prop :=
  ∀ sender, ch.accepted (router.dispatch ch message w).2 sender =
    ch.accepted w sender ++ List.replicate
      (if ch.isClosed w sender then 0
        else min (registry.allowedCopies message.topic sender) (ch.free w sender)) message

/-- What each channel gets of a message. -/
theorem accepted_dispatch_append {router : TopicRouter S} {registry : Registry S}
    (h : Represents router.root registry) (message : PublishMessage) (w : W) (sender : S) :
    ch.accepted (router.dispatch ch message w).2 sender =
      ch.accepted w sender ++ List.replicate
        (if ch.isClosed w sender then 0
          else min (registry.copies message.topic sender) (ch.free w sender)) message := by
  obtain ⟨⟨senders, hworld, hperm⟩, -⟩ := dispatch_spec ch message h w
  rw [hworld]
  by_cases hclosed : ch.isClosed w sender = true
  · have hnot : sender ∉ senders := by
      rw [hperm.mem_iff, TrieNode.opened, List.mem_filter, hclosed]
      simp
    rw [if_pos hclosed, ch.accepted_deliver_of_not_mem hnot, List.replicate_zero, List.append_nil]
  · rw [Bool.not_eq_true] at hclosed
    have hcount : senders.count sender = registry.copies message.topic sender := by
      rw [hperm.count_eq, TrieNode.opened, List.count_filter (by simp [hclosed]), List.count,
        List.countP_map, Registry.copies]
      rfl
    rw [hclosed, ch.accepted_deliver_of_open hclosed, hcount]
    rfl

/-- The registered pairs that match are allowed, or they begin with a wildcard. -/
theorem copies_eq_add (registry : Registry S) (topic : String) (sender : S) :
    registry.copies topic sender = registry.allowedCopies topic sender +
      (registry.matched topic).countP fun pair =>
        pair.2 = sender ∧ SystemTopic topic ∧ WildFirst pair.1 := by
  rw [Registry.copies, Registry.allowedCopies, Registry.allowed, List.countP_filter]
  induction registry.matched topic with
  | nil => rfl
  | cons pair rest ih =>
    rw [List.countP_cons, List.countP_cons, List.countP_cons, ih]
    by_cases hsender : pair.2 = sender
    · by_cases hwild : SystemTopic topic ∧ WildFirst pair.1
      · simp [hsender, hwild]
        omega
      · simp [hsender, hwild]
        omega
    · simp [hsender]

/-- **System topics.** After any insertions and removals, a message goes to those that the protocol
names exactly if no filter that begins with a wildcard matches a system topic, save for channels
that are closed or that those other filters fill up. -/
theorem dispatch_obeysProtocol_iff (E : Type) {ops : List (RouterOp S)}
    (hvalid : ∀ op ∈ ops, (validateTopicFilter op.filter : Except (ClientError E) Unit) = .ok ()) :
    ∃ router : TopicRouter S, (TopicRouter.new.run ops : Except (ClientError E) _) = .ok router ∧
      ∀ (message : PublishMessage) (w : W),
        router.ObeysProtocol ch (ops.foldl Registry.apply []) message w ↔
          ∀ pair ∈ ops.foldl Registry.apply [], SystemTopic message.topic → WildFirst pair.1 →
            levelsMatch (levels pair.1) (levels message.topic) →
              ch.isClosed w pair.2 = true ∨
                ch.free w pair.2 ≤
                  Registry.allowedCopies (ops.foldl Registry.apply []) message.topic pair.2 := by
  obtain ⟨router, hrun, h⟩ := represents_run represents_new hvalid
  refine ⟨router, hrun, fun message w => ?_⟩
  generalize ops.foldl Registry.apply [] = registry at h
  constructor
  · intro hobeys pair hpair hsystem hwild hmatch
    have hsent := hobeys pair.2
    rw [accepted_dispatch_append ch h, List.append_cancel_left_eq, List.replicate_left_inj] at hsent
    by_cases hclosed : ch.isClosed w pair.2 = true
    · exact .inl hclosed
    · rw [if_neg hclosed, if_neg hclosed, copies_eq_add] at hsent
      have hpos : 0 < (registry.matched message.topic).countP fun other =>
          other.2 = pair.2 ∧ SystemTopic message.topic ∧ WildFirst other.1 := by
        rw [List.countP_pos_iff]
        exact ⟨pair, List.mem_filter.mpr ⟨hpair, hmatch⟩, by simp [hsystem, hwild]⟩
      exact .inr (by omega)
  · intro hfree sender
    rw [accepted_dispatch_append ch h, List.append_cancel_left_eq, List.replicate_left_inj]
    by_cases hclosed : ch.isClosed w sender = true
    · rw [if_pos hclosed, if_pos hclosed]
    · rw [if_neg hclosed, if_neg hclosed, copies_eq_add]
      rcases Nat.eq_zero_or_pos ((registry.matched message.topic).countP fun other =>
          other.2 = sender ∧ SystemTopic message.topic ∧ WildFirst other.1) with hzero | hpos
      · rw [hzero, Nat.add_zero]
      · obtain ⟨pair, hpair, hkind⟩ := List.countP_pos_iff.mp hpos
        simp only [decide_eq_true_eq] at hkind
        obtain ⟨rfl, hsystem, hwild⟩ := hkind
        obtain ⟨hmem, hmatch⟩ := List.mem_filter.mp hpair
        have hfull := (hfree pair hmem hsystem hwild hmatch).resolve_left hclosed
        omega

end

/-- A filter of the system, one that is no wildcard at its begin, and one that does not match. -/
def systemOps : List (RouterOp ℕ) :=
  [.insert "$SYS/#" 0, .insert "$SYS/+/load" 1, .insert "+/uptime" 2]

/-- A message on a system topic goes to the filters that name the system. -/
theorem dispatch_obeysProtocol_sample :
    ∃ router : TopicRouter ℕ,
      (TopicRouter.new.run systemOps : Except (ClientError Unit) _) = .ok router ∧
      router.ObeysProtocol (Mpsc.queues ℕ PublishMessage) (systemOps.foldl Registry.apply [])
        (PublishMessage.new "$SYS/broker/load" [1]) fun _ => ⟨false, [], 128⟩ := by
  have hvalid : ∀ op ∈ systemOps,
      (validateTopicFilter op.filter : Except (ClientError Unit) Unit) = .ok () := by
    decide +kernel
  obtain ⟨router, hrun, hiff⟩ :=
    dispatch_obeysProtocol_iff (Mpsc.queues ℕ PublishMessage) Unit hvalid
  refine ⟨router, hrun, (hiff _ _).mpr ?_⟩
  have hnone : ∀ pair ∈ systemOps.foldl Registry.apply [], WildFirst pair.1 →
      ¬ levelsMatch (levels pair.1) (levels "$SYS/broker/load") := by
    decide +kernel
  exact fun pair hpair _ hwild hmatch => absurd hmatch (hnone pair hpair hwild)

/-- A subscriber to everything is sent what the system publishes. -/
theorem everything_gets_system :
    ¬ ∀ (ops : List (RouterOp ℕ)),
      (∀ op ∈ ops, (validateTopicFilter op.filter : Except (ClientError Unit) Unit) = .ok ()) →
      ∃ router : TopicRouter ℕ, (TopicRouter.new.run ops : Except (ClientError Unit) _) = .ok router ∧
        ∀ (message : PublishMessage) (w : ℕ → Queue PublishMessage),
          SystemTopic message.topic → router.ObeysProtocol (Mpsc.queues ℕ PublishMessage)
            (ops.foldl Registry.apply []) message w := by
  intro hall
  have hvalid : ∀ op ∈ [RouterOp.insert "#" 0],
      (validateTopicFilter op.filter : Except (ClientError Unit) Unit) = .ok () := by
    decide +kernel
  obtain ⟨router, hrun, hobeys⟩ := hall _ hvalid
  obtain ⟨router', hrun', h⟩ := represents_run represents_new hvalid
  rw [hrun] at hrun'
  cases hrun'
  have hsent := hobeys (PublishMessage.new "$SYS/load" [1]) (fun _ => ⟨false, [], 1⟩)
    (by decide +kernel) 0
  rw [accepted_dispatch_append _ h, List.append_cancel_left_eq, List.replicate_left_inj] at hsent
  revert hsent
  decide +kernel

end MqttEngine.Tokio
