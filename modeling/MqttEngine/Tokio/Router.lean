import MqttEngine.Tokio.Types

/-!
# The topic router

A trie over the levels of topic filters. A node keeps the senders of the filters that end at
it, and those of the filters that end there with `#`; children are reached by a level or by
`+`. `matchAndDispatch` walks all paths that a topic matches, and drops the senders whose
channel is closed.

The functions work on the list of levels of a filter or topic; where the source counts the
depth, the rest of the list is what is left of it.

## Main definitions

* `validateTopicFilter`, `validatePublishTopic` — what filters and topics may be.
* `TrieNode`, `TopicRouter` — the trie and its operations.
-/

namespace MqttEngine.Tokio

/-- `filter.split('/')`. -/
def levels (filter : String) : List String := (filter.toList.splitOn '/').map String.ofList

section
variable {E : Type}

/-- The loop of `validate_topic_filter`. -/
def validateLevels : List String → Except (ClientError E) Unit
  | [] => .ok ()
  | level :: rest =>
    if level = "#" then
      if rest ≠ [] then
        .error (.invalidTopic "Multi-level wildcard '#' must be the last token in topic filter")
      else validateLevels rest
    else if '#' ∈ level.toList then
      .error (.invalidTopic "Invalid multi-level wildcard placement")
    else if '+' ∈ level.toList ∧ level ≠ "+" then
      .error (.invalidTopic "Single-level wildcard '+' must occupy an entire level")
    else validateLevels rest

/-- `validate_topic_filter`. -/
def validateTopicFilter (filter : String) : Except (ClientError E) Unit :=
  if filter = "" then .error (.invalidTopic "Topic filter cannot be empty")
  else if '\x00' ∈ filter.toList then
    .error (.invalidTopic "Topic filter cannot contain null characters")
  else validateLevels (levels filter)

/-- `validate_publish_topic`. -/
def validatePublishTopic (topic : String) : Except (ClientError E) Unit :=
  if topic = "" then .error (.invalidTopic "Publish topic cannot be empty")
  else if '\x00' ∈ topic.toList then
    .error (.invalidTopic "Publish topic cannot contain null characters")
  else if '+' ∈ topic.toList ∨ '#' ∈ topic.toList then
    .error (.invalidTopic "Publish topic cannot contain wildcards ('+' or '#')")
  else .ok ()

end

/-- A trie node storing topic subscriptions. -/
structure TrieNode (S : Type) where
  exactChildren : List (String × TrieNode S) := []
  plusChild : Option (TrieNode S) := none
  hashSubscribers : List S := []
  exactSubscribers : List S := []

namespace TrieNode
variable {S : Type}

def isEmpty (self : TrieNode S) : Bool :=
  self.exactChildren.isEmpty && self.plusChild.isNone && self.hashSubscribers.isEmpty &&
    self.exactSubscribers.isEmpty

/-- The loop of `TopicRouter::insert`. Behind the last level the node has been reached. -/
def insert (sender : S) : List String → TrieNode S → TrieNode S
  | [], curr => { curr with exactSubscribers := curr.exactSubscribers ++ [sender] }
  | level :: rest, curr =>
    if level = "#" then { curr with hashSubscribers := curr.hashSubscribers ++ [sender] }
    else if level = "+" then
      { curr with plusChild := some (insert sender rest (curr.plusChild.getD {})) }
    else
      { curr with
        exactChildren := Assoc.set curr.exactChildren level
          (insert sender rest ((Assoc.get? curr.exactChildren level).getD {})) }

/-- `TopicRouter::remove_recursive`: the node, and whether it is empty now. -/
def removeRecursive : List String → TrieNode S → TrieNode S × Bool
  | [], node =>
    let node := { node with exactSubscribers := [] }
    (node, node.isEmpty)
  | level :: rest, node =>
    if level = "#" then
      let node := { node with hashSubscribers := [] }
      (node, node.isEmpty)
    else if level = "+" then
      let node :=
        match node.plusChild with
        | some plus =>
          let (plus, empty) := removeRecursive rest plus
          { node with plusChild := if empty then none else some plus }
        | none => node
      (node, node.isEmpty)
    else
      let node :=
        match Assoc.get? node.exactChildren level with
        | some child =>
          let (child, empty) := removeRecursive rest child
          { node with
            exactChildren :=
              if empty then Assoc.erase node.exactChildren level
              else Assoc.set node.exactChildren level child }
        | none => node
      (node, node.isEmpty)

variable {W : Type} [DecidableEq S] (ch : Mpsc W S PublishMessage) (message : PublishMessage)

/-- `subscribers.retain(..)`: the message is sent to those whose channel is open, and the
others are dropped. -/
def retainOpen : List S → W → List S × W
  | [], w => ([], w)
  | sender :: senders, w =>
    if ch.isClosed w sender then retainOpen senders w
    else
      let (kept, w) := retainOpen senders (ch.trySend w sender message)
      (sender :: kept, w)

/-- `TopicRouter::match_and_dispatch`. -/
def matchAndDispatch : List String → TrieNode S → W → TrieNode S × W
  | [], node, w =>
    let (hashSubscribers, w) := retainOpen ch message node.hashSubscribers w
    let (exactSubscribers, w) := retainOpen ch message node.exactSubscribers w
    ({ node with hashSubscribers, exactSubscribers }, w)
  | level :: rest, node, w =>
    let (hashSubscribers, w) := retainOpen ch message node.hashSubscribers w
    let (exactChildren, w) :=
      match Assoc.get? node.exactChildren level with
      | some child =>
        let (child, w) := matchAndDispatch rest child w
        (Assoc.set node.exactChildren level child, w)
      | none => (node.exactChildren, w)
    let (plusChild, w) :=
      match node.plusChild with
      | some plus =>
        let (plus, w) := matchAndDispatch rest plus w
        (some plus, w)
      | none => (none, w)
    ({ node with exactChildren, plusChild, hashSubscribers }, w)

end TrieNode

/-- `TopicRouter`. -/
structure TopicRouter (S : Type) where
  root : TrieNode S

namespace TopicRouter
variable {E S W : Type}

/-- `TopicRouter::new`. -/
def new : TopicRouter S := ⟨{}⟩

/-- `TopicRouter::insert`. -/
def insert (self : TopicRouter S) (filter : String) (sender : S) :
    Except (ClientError E) (TopicRouter S) := do
  validateTopicFilter filter
  pure ⟨self.root.insert sender (levels filter)⟩

/-- `TopicRouter::remove`. -/
def remove (self : TopicRouter S) (filter : String) : Except (ClientError E) (TopicRouter S) := do
  validateTopicFilter filter
  pure ⟨(self.root.removeRecursive (levels filter)).1⟩

/-- `TopicRouter::dispatch`. -/
def dispatch [DecidableEq S] (ch : Mpsc W S PublishMessage) (self : TopicRouter S)
    (message : PublishMessage) (w : W) : TopicRouter S × W :=
  let (root, w) := self.root.matchAndDispatch ch message (levels message.topic) w
  (⟨root⟩, w)

end TopicRouter

end MqttEngine.Tokio
