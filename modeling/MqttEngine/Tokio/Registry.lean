import Mathlib.Data.List.Perm.Basic
import MqttEngine.Tokio.Router

/-!
# The router as a registry

What the router is for: it keeps the pairs of a filter and a sender that are registered, and
a message goes to the sender of every pair whose filter matches its topic. `Registry` is that
list of pairs. A trie stands for a registry if it keeps, at the end of each filter, the
senders that are registered under it.

## Main definitions

* `levelsMatch` — when a filter matches a topic.
* `Registry`, `RouterOp` — the abstract router and the operations that change it.
* `TrieNode.subscribers` — what a trie keeps under a filter.
* `matching` — the filters that match a topic.

## Main results

* `subscribers_insert`, `subscribers_remove` — what the operations do to the subscribers of each
  filter.
* `dispatched_matchAndDispatch` — a message goes to the subscribers of the matching filters.
* `dispatch_registered` — the router delivers one copy for each pair that matches.
-/

namespace MqttEngine.Tokio

/-! ## Filters -/

/-- The filter matches the topic, level by level. -/
def levelsMatch : List String → List String → Bool
  | [], topic => topic.isEmpty
  | level :: filter, topic =>
    if level = "#" then true
    else
      match topic with
      | [] => false
      | name :: topic => (level = "+" || level = name) && levelsMatch filter topic

/-- `#` stands at the end only. -/
def HashLast : List String → Prop
  | [] => True
  | level :: filter => (level = "#" → filter = []) ∧ HashLast filter

theorem hashLast_of_validateLevels {E : Type} {filter : List String}
    (h : (validateLevels filter : Except (ClientError E) Unit) = .ok ()) : HashLast filter := by
  induction filter with
  | nil => trivial
  | cons level filter ih =>
    rw [validateLevels] at h
    by_cases hhash : level = "#"
    · rw [if_pos hhash] at h
      by_cases hrest : filter = []
      · subst hrest
        exact ⟨fun _ => rfl, trivial⟩
      · rw [if_pos hrest] at h
        cases h
    · rw [if_neg hhash] at h
      split at h
      · cases h
      · split at h
        · cases h
        · exact ⟨fun h => absurd h hhash, ih h⟩

theorem hashLast_of_valid {E : Type} {filter : String}
    (h : (validateTopicFilter filter : Except (ClientError E) Unit) = .ok ()) :
    HashLast (levels filter) := by
  rw [validateTopicFilter] at h
  split at h
  · cases h
  · split at h
    · cases h
    · exact hashLast_of_validateLevels h

/-- Filters with the same levels are equal. -/
theorem levels_inj {filter filter' : String} (h : levels filter = levels filter') :
    filter = filter' := by
  have hsplit : filter.toList.splitOn '/' = filter'.toList.splitOn '/' :=
    List.map_injective_iff.mpr (fun _ _ h => String.ofList_inj.mp h) h
  have hjoin := congrArg (fun parts => ['/'].intercalate parts) hsplit
  simp only [List.intercalate_splitOn] at hjoin
  exact String.toList_inj.mp hjoin

/-! ## What a trie keeps -/

namespace TrieNode
variable {S : Type}

/-- The child that a level leads to. -/
def child (self : TrieNode S) (level : String) : Option (TrieNode S) :=
  if level = "+" then self.plusChild else Assoc.get? self.exactChildren level

/-- The senders that are kept under a filter. -/
def subscribers : List String → TrieNode S → List S
  | [], node => node.exactSubscribers
  | level :: filter, node =>
    if level = "#" then node.hashSubscribers
    else ((node.child level).map (subscribers filter)).getD []

/-- No level that is a wildcard leads to a child. -/
inductive Clean : TrieNode S → Prop
  | node {self : TrieNode S} (plain : ∀ e ∈ self.exactChildren, e.1 ≠ "+" ∧ e.1 ≠ "#")
      (exact : ∀ e ∈ self.exactChildren, Clean e.2)
      (plus : ∀ child, self.plusChild = some child → Clean child) : Clean self

theorem clean_empty : Clean ({} : TrieNode S) :=
  .node (by simp) (by simp) (by simp)

theorem subscribers_of_isEmpty {node : TrieNode S} (h : node.isEmpty) (filter : List String) :
    node.subscribers filter = [] := by
  simp only [isEmpty, Bool.and_eq_true, List.isEmpty_iff, Option.isNone_iff_eq_none] at h
  obtain ⟨⟨⟨hchildren, hplus⟩, hhash⟩, hexact⟩ := h
  cases filter with
  | nil => exact hexact
  | cons level filter =>
    rw [subscribers]
    split
    · exact hhash
    · simp [child, hchildren, hplus]

@[simp] theorem subscribers_empty (filter : List String) :
    subscribers filter ({} : TrieNode S) = [] := subscribers_of_isEmpty rfl filter

/-! ### Changing a child -/

/-- The node with another child, or none, at a level. -/
def setChild (self : TrieNode S) (level : String) (child : Option (TrieNode S)) : TrieNode S :=
  if level = "+" then { self with plusChild := child }
  else
    { self with
      exactChildren :=
        child.elim (Assoc.erase self.exactChildren level) (Assoc.set self.exactChildren level) }

section
variable (self : TrieNode S) (level level' : String) (c : Option (TrieNode S))

theorem child_setChild :
    (self.setChild level c).child level' = if level' = level then c else self.child level' := by
  rw [setChild]
  by_cases hplus : level = "+"
  · subst hplus
    by_cases h : level' = "+" <;> simp [child, h]
  · by_cases h : level' = "+"
    · subst h
      have hne : ¬ "+" = level := fun h => hplus h.symm
      simp [child, hplus, hne]
    · cases c <;> simp [child, h, hplus, Assoc.get?_set, Assoc.get?_erase]

@[simp] theorem hashSubscribers_setChild :
    (self.setChild level c).hashSubscribers = self.hashSubscribers := by
  rw [setChild]
  split <;> rfl

@[simp] theorem exactSubscribers_setChild :
    (self.setChild level c).exactSubscribers = self.exactSubscribers := by
  rw [setChild]
  split <;> rfl

end

/-- Only the filters that begin with the level see the change. -/
theorem subscribers_setChild (self : TrieNode S) {level : String} (hlevel : level ≠ "#")
    (c : Option (TrieNode S)) (filter : List String) :
    (self.setChild level c).subscribers filter =
      if filter.head? = some level then (c.map (subscribers filter.tail)).getD []
      else self.subscribers filter := by
  cases filter with
  | nil => simp [subscribers]
  | cons level' filter =>
    rw [subscribers, subscribers, child_setChild]
    by_cases h : level' = level
    · subst h
      simp [hlevel]
    · simp [h]

/-- A child at a level that is no wildcard keeps the trie clean. -/
theorem Clean.setChild {self : TrieNode S} (h : self.Clean) {level : String} (hlevel : level ≠ "#")
    {c : Option (TrieNode S)} (hc : ∀ child, c = some child → child.Clean) :
    (self.setChild level c).Clean := by
  obtain ⟨plain, exact, plus⟩ := h
  rw [TrieNode.setChild]
  by_cases hplus : level = "+"
  · rw [if_pos hplus]
    exact .node plain exact hc
  · rw [if_neg hplus]
    rcases c with _ | c
    · exact .node (fun e he => plain e (Assoc.mem_erase.mp he).1)
        (fun e he => exact e (Assoc.mem_erase.mp he).1) plus
    · refine .node ?_ ?_ plus
      · intro e he
        rcases Assoc.mem_set.mp he with rfl | ⟨he, -⟩
        · exact ⟨hplus, hlevel⟩
        · exact plain e he
      · intro e he
        rcases Assoc.mem_set.mp he with rfl | ⟨he, -⟩
        · exact hc c rfl
        · exact exact e he

/-- The children of a clean node are clean. -/
theorem Clean.child {self c : TrieNode S} (h : self.Clean) {level : String}
    (hc : self.child level = some c) : c.Clean := by
  obtain ⟨-, exact, plus⟩ := h
  rw [TrieNode.child] at hc
  split at hc
  · exact plus c hc
  · exact exact _ (Assoc.mem_of_get? hc)

/-- What a node keeps itself does not matter. -/
theorem Clean.congr {self node : TrieNode S} (h : self.Clean)
    (hexact : node.exactChildren = self.exactChildren) (hplus : node.plusChild = self.plusChild) :
    node.Clean := by
  obtain ⟨plain, exact, plus⟩ := h
  exact .node (hexact ▸ plain) (hexact ▸ exact) (hplus ▸ plus)

/-! ### Inserting and removing -/

theorem insert_cons {level : String} (hlevel : level ≠ "#") (sender : S) (filter : List String)
    (node : TrieNode S) :
    node.insert sender (level :: filter) =
      node.setChild level (some (insert sender filter ((node.child level).getD {}))) := by
  rw [insert, if_neg hlevel, setChild, child]
  split <;> rfl

/-- The filter that a sender is inserted under gets it, and the others stay as they are. -/
theorem subscribers_insert {filter filter' : List String} (h : HashLast filter)
    (h' : HashLast filter') (sender : S) (node : TrieNode S) :
    (node.insert sender filter).subscribers filter' =
      node.subscribers filter' ++ if filter' = filter then [sender] else [] := by
  induction filter generalizing filter' node with
  | nil => cases filter' <;> simp [insert, subscribers, child]
  | cons level filter ih =>
    by_cases hhash : level = "#"
    · obtain rfl := h.1 hhash
      subst hhash
      cases filter' with
      | nil => simp [insert, subscribers]
      | cons level' filter' =>
        by_cases hhash' : level' = "#"
        · obtain rfl := h'.1 hhash'
          simp [insert, subscribers, hhash']
        · simp [insert, subscribers, hhash', child]
    · rw [insert_cons hhash, subscribers_setChild _ hhash]
      cases filter' with
      | nil => simp
      | cons level' filter' =>
        by_cases hlevel : level' = level
        · subst hlevel
          have hrest := ih h.2 h'.2 ((node.child level').getD {})
          rw [subscribers, if_neg hhash]
          cases hchild : node.child level' <;> simpa [hchild] using hrest
        · simp [hlevel]

theorem clean_insert {node : TrieNode S} (h : node.Clean) (sender : S) (filter : List String) :
    (node.insert sender filter).Clean := by
  induction filter generalizing node with
  | nil => exact h.congr rfl rfl
  | cons level filter ih =>
    by_cases hhash : level = "#"
    · rw [insert, if_pos hhash]
      exact h.congr rfl rfl
    · rw [insert_cons hhash]
      apply h.setChild hhash
      intro c hc
      obtain rfl := Option.some.inj hc
      rcases hchild : node.child level with _ | c
      · exact ih clean_empty
      · exact ih (h.child hchild)

theorem removeRecursive_snd (filter : List String) (node : TrieNode S) :
    (node.removeRecursive filter).2 = (node.removeRecursive filter).1.isEmpty := by
  cases filter with
  | nil => rfl
  | cons level filter =>
    rw [removeRecursive]
    split
    · rfl
    · split <;> rfl

theorem removeRecursive_cons {level : String} (hlevel : level ≠ "#") (filter : List String)
    (node : TrieNode S) :
    (node.removeRecursive (level :: filter)).1 =
      match node.child level with
      | some c =>
        node.setChild level
          (if (c.removeRecursive filter).1.isEmpty then none else some (c.removeRecursive filter).1)
      | none => node := by
  rw [removeRecursive, if_neg hlevel, child]
  split
  · rename_i hplus
    rcases node.plusChild with _ | c
    · rfl
    · simp only [setChild, if_pos hplus, removeRecursive_snd]
  · rename_i hplus
    rcases Assoc.get? node.exactChildren level with _ | c
    · rfl
    · simp only [setChild, if_neg hplus, removeRecursive_snd]
      split <;> rfl

/-- Removing a filter takes its senders away, and leaves the others as they are. -/
theorem subscribers_remove {filter filter' : List String} (h : HashLast filter)
    (h' : HashLast filter') (node : TrieNode S) :
    (node.removeRecursive filter).1.subscribers filter' =
      if filter' = filter then [] else node.subscribers filter' := by
  induction filter generalizing filter' node with
  | nil => cases filter' <;> simp [removeRecursive, subscribers, child]
  | cons level filter ih =>
    by_cases hhash : level = "#"
    · obtain rfl := h.1 hhash
      subst hhash
      cases filter' with
      | nil => simp [removeRecursive, subscribers]
      | cons level' filter' =>
        by_cases hhash' : level' = "#"
        · obtain rfl := h'.1 hhash'
          simp [removeRecursive, subscribers, hhash']
        · simp [removeRecursive, subscribers, hhash', child]
    · rw [removeRecursive_cons hhash]
      cases filter' with
      | nil =>
        cases node.child level <;> simp [subscribers]
      | cons level' filter' =>
        rcases hchild : node.child level with _ | c
        · by_cases heq : level' :: filter' = level :: filter
          · obtain ⟨rfl, rfl⟩ := List.cons.inj heq
            simp [subscribers, hhash, hchild]
          · simp [heq]
        · have hrest := ih h.2 h'.2 c
          rw [subscribers_setChild _ hhash]
          by_cases hlevel : level' = level
          · subst hlevel
            simp only [List.head?_cons, if_true, List.tail_cons, List.cons.injEq, true_and]
            rw [subscribers, if_neg hhash, hchild]
            split
            · rename_i hempty
              rw [subscribers_of_isEmpty hempty] at hrest
              simpa using hrest
            · simpa using hrest
          · simp [hlevel]

theorem clean_remove {node : TrieNode S} (h : node.Clean) (filter : List String) :
    (node.removeRecursive filter).1.Clean := by
  induction filter generalizing node with
  | nil => exact h.congr rfl rfl
  | cons level filter ih =>
    by_cases hhash : level = "#"
    · rw [removeRecursive, if_pos hhash]
      exact h.congr rfl rfl
    · rw [removeRecursive_cons hhash]
      rcases hchild : node.child level with _ | c
      · exact h
      · apply h.setChild hhash
        intro c' hc'
        split at hc'
        · cases hc'
        · obtain rfl := Option.some.inj hc'
          exact ih (h.child hchild)

/-! ### Dispatching -/

/-- The filters that match a topic, in the order in which the trie is searched for them. -/
def matching : List String → List (List String)
  | [] => [["#"], []]
  | name :: topic =>
    ["#"] :: ((if name = "+" ∨ name = "#" then [] else (matching topic).map (name :: ·)) ++
      (matching topic).map ("+" :: ·))

theorem hashLast_of_mem_matching {topic filter : List String} (h : filter ∈ matching topic) :
    HashLast filter := by
  induction topic generalizing filter with
  | nil =>
    simp only [matching, List.mem_cons, List.not_mem_nil, or_false] at h
    rcases h with rfl | rfl <;> simp [HashLast]
  | cons name topic ih =>
    rw [matching, List.mem_cons, List.mem_append, List.mem_map] at h
    rcases h with rfl | h | ⟨filter, hfilter, rfl⟩
    · simp [HashLast]
    · split at h
      · cases h
      · rename_i hname
        obtain ⟨filter, hfilter, rfl⟩ := List.mem_map.mp h
        exact ⟨fun hhash => absurd (.inr hhash) hname, ih hfilter⟩
    · exact ⟨by simp, ih hfilter⟩

variable {W : Type} [DecidableEq S] (ch : Mpsc W S PublishMessage) (message : PublishMessage)

/-- The senders whose channel is open. -/
def opened (w : W) (senders : List S) : List S := senders.filter fun s => !ch.isClosed w s

theorem retainOpen_eq (senders : List S) (w : W) :
    retainOpen ch message senders w =
      (opened ch w senders, ch.deliver w (opened ch w senders) message) := by
  induction senders generalizing w with
  | nil => rfl
  | cons sender senders ih =>
    rw [retainOpen]
    by_cases hclosed : ch.isClosed w sender
    · rw [if_pos hclosed, ih]
      simp [opened, hclosed]
    · rw [if_neg hclosed, ih]
      simp [opened, hclosed, ch.isClosed_trySend]

@[simp] theorem opened_deliver (w : W) (senders senders' : List S) :
    opened ch (ch.deliver w senders message) senders' = opened ch w senders' := by
  simp [opened]

/-- Going on to the child at a level. -/
def visit (level : String) (topic : List String) (node : TrieNode S) (w : W) : TrieNode S × W :=
  match node.child level with
  | some c =>
    (node.setChild level (some (matchAndDispatch ch message topic c w).1),
      (matchAndDispatch ch message topic c w).2)
  | none => (node, w)

/-- The steps of the search, one child after the other. -/
theorem matchAndDispatch_cons {node : TrieNode S} (h : node.Clean) (name : String)
    (topic : List String) (w : W) :
    matchAndDispatch ch message (name :: topic) node w =
      let w' := ch.deliver w (opened ch w node.hashSubscribers) message
      let r := if name = "+" then (node, w') else visit ch message name topic node w'
      let r' := visit ch message "+" topic r.1 r.2
      ({ r'.1 with hashSubscribers := opened ch w node.hashSubscribers }, r'.2) := by
  obtain ⟨plain, -, -⟩ := h
  rw [matchAndDispatch, retainOpen_eq]
  by_cases hname : name = "+"
  · have hnone : Assoc.get? node.exactChildren name = none := by
      rw [Assoc.get?_eq_none]
      intro hmem
      obtain ⟨e, he, hkey⟩ := List.mem_map.mp hmem
      exact (plain e he).1 (hkey.trans hname)
    simp only [hnone, if_pos hname, visit, child, setChild]
    rcases hplus : node.plusChild with _ | c <;> simp [hplus]
  · simp only [if_neg hname, visit, child, setChild]
    rcases Assoc.get? node.exactChildren name with _ | c
    · rcases hplus : node.plusChild with _ | c <;> simp [hplus]
    · rcases node.plusChild with _ | c' <;> simp

/-- A search goes to the open subscribers of the filters that match, drops the closed ones, and
leaves the other filters alone. -/
structure Dispatched (topic : List String) (node : TrieNode S) (w : W) (r : TrieNode S × W) :
    Prop where
  world : r.2 = ch.deliver w
    ((matching topic).flatMap fun filter => opened ch w (node.subscribers filter)) message
  subscribers : ∀ filter, HashLast filter →
    r.1.subscribers filter =
      if levelsMatch filter topic then opened ch w (node.subscribers filter)
      else node.subscribers filter
  clean : r.1.Clean

/-- What going on to a child does. -/
theorem visit_spec {level : String} (hlevel : level ≠ "#") {topic : List String} {node : TrieNode S}
    (h : node.Clean) (w : W)
    (ih : ∀ {c : TrieNode S}, c.Clean →
      Dispatched ch message topic c w (matchAndDispatch ch message topic c w)) :
    (visit ch message level topic node w).2 = ch.deliver w
        ((matching topic).flatMap fun filter => opened ch w (node.subscribers (level :: filter)))
        message ∧
      (∀ filter, HashLast filter →
        (visit ch message level topic node w).1.subscribers filter =
          if filter.head? = some level ∧ levelsMatch filter.tail topic then
            opened ch w (node.subscribers filter)
          else node.subscribers filter) ∧
      (visit ch message level topic node w).1.Clean := by
  rw [visit]
  rcases hchild : node.child level with _ | c
  · have hnone (filter : List String) : node.subscribers (level :: filter) = [] := by
      simp [TrieNode.subscribers, hlevel, hchild]
    refine ⟨?_, ?_, h⟩
    · have hnil : ((matching topic).flatMap fun filter =>
          opened ch w (node.subscribers (level :: filter))) = [] :=
        List.flatMap_eq_nil_iff.mpr fun filter _ => by simp [hnone, opened]
      rw [hnil]
      rfl
    · intro filter _
      dsimp only
      split_ifs with hmatch
      · rcases filter with _ | ⟨level', filter⟩
        · simp at hmatch
        · obtain rfl := Option.some.inj hmatch.1
          simp [hnone, opened]
      · rfl
  · obtain ⟨hworld, hsubs, hclean⟩ := ih (h.child hchild)
    refine ⟨?_, ?_, ?_⟩
    · simpa [TrieNode.subscribers, hlevel, hchild] using hworld
    · intro filter hfilter
      rw [subscribers_setChild _ hlevel]
      by_cases hhead : filter.head? = some level
      · rcases filter with _ | ⟨level', filter⟩
        · simp at hhead
        · obtain rfl := Option.some.inj hhead
          simpa [TrieNode.subscribers, hlevel, hchild] using hsubs filter hfilter.2
      · simp [hhead]
    · apply h.setChild hlevel
      intro c' hc'
      obtain rfl := Option.some.inj hc'
      exact hclean

/-- Going on to the child at the name in the topic, which is none at a wildcard. -/
theorem first_visit {topic : List String} {node : TrieNode S} (h : node.Clean) (name : String)
    (w : W)
    (ih : ∀ {c : TrieNode S}, c.Clean →
      Dispatched ch message topic c w (matchAndDispatch ch message topic c w)) :
    let r := if name = "+" then (node, w) else visit ch message name topic node w
    r.2 = ch.deliver w
        ((if name = "+" ∨ name = "#" then [] else (matching topic).map (name :: ·)).flatMap
          fun filter => opened ch w (node.subscribers filter)) message ∧
      (∀ filter, HashLast filter →
        r.1.subscribers filter =
          if (name ≠ "+" ∧ name ≠ "#") ∧ filter.head? = some name ∧ levelsMatch filter.tail topic then
            opened ch w (node.subscribers filter)
          else node.subscribers filter) ∧
      r.1.Clean := by
  dsimp only
  by_cases hplus : name = "+"
  · simp [hplus, h]
  · by_cases hhash : name = "#"
    · have hnone : node.child "#" = none := by
        obtain ⟨plain, -, -⟩ := h
        rw [child, if_neg (by decide), Assoc.get?_eq_none]
        intro hmem
        obtain ⟨e, he, hkey⟩ := List.mem_map.mp hmem
        exact (plain e he).2 hkey
      simp [hhash, visit, hnone, h]
    · obtain ⟨hworld, hsubs, hclean⟩ := visit_spec ch message hhash h w ih
      simpa [hplus, hhash, List.flatMap_map] using ⟨hworld, hsubs, hclean⟩

/-- What the search does. -/
theorem dispatched_matchAndDispatch (topic : List String) {node : TrieNode S} (h : node.Clean)
    (w : W) : Dispatched ch message topic node w (matchAndDispatch ch message topic node w) := by
  induction topic generalizing node w with
  | nil =>
    rw [matchAndDispatch]
    simp only [retainOpen_eq, opened_deliver]
    constructor
    · simp [matching, TrieNode.subscribers, Mpsc.deliver_append]
    · intro filter hfilter
      rcases filter with _ | ⟨level, filter⟩
      · simp [TrieNode.subscribers, levelsMatch]
      · by_cases hhash : level = "#"
        · simp [TrieNode.subscribers, levelsMatch, hhash]
        · simp [TrieNode.subscribers, levelsMatch, hhash, child]
    · exact h.congr rfl rfl
  | cons name topic ih =>
    rw [matchAndDispatch_cons ch message h]
    dsimp only
    obtain ⟨hworld, hsubs, hclean⟩ := first_visit ch message h name
      (ch.deliver w (opened ch w node.hashSubscribers) message) fun hc => ih hc _
    generalize (if name = "+" then (node, ch.deliver w (opened ch w node.hashSubscribers) message)
      else visit ch message name topic node
        (ch.deliver w (opened ch w node.hashSubscribers) message)) = r at *
    obtain ⟨hworld', hsubs', hclean'⟩ := visit_spec ch message (by decide : "+" ≠ "#") hclean r.2
      fun hc => ih hc _
    have hopened (senders : List S) : opened ch r.2 senders = opened ch w senders := by
      simp [hworld]
    simp only [hopened, opened_deliver] at hsubs hworld' hworld hsubs'
    constructor
    · have hplus : ∀ filter ∈ matching topic,
          r.1.subscribers ("+" :: filter) = node.subscribers ("+" :: filter) := by
        intro filter hfilter
        rw [hsubs ("+" :: filter) ⟨by simp, hashLast_of_mem_matching hfilter⟩, if_neg]
        rintro ⟨⟨hne, -⟩, hhead, -⟩
        exact hne (Option.some.inj hhead).symm
      have hcongr : ((matching topic).flatMap fun filter =>
          opened ch w (r.1.subscribers ("+" :: filter))) =
          (matching topic).flatMap fun filter => opened ch w (node.subscribers ("+" :: filter)) :=
        List.flatMap_congr fun filter hfilter => by rw [hplus filter hfilter]
      rw [hworld', hcongr, hworld, ← Mpsc.deliver_append, ← Mpsc.deliver_append]
      simp [matching, TrieNode.subscribers, List.flatMap_map]
    · intro filter hfilter
      rcases filter with _ | ⟨level, filter⟩
      · have hexact := hsubs [] trivial
        have hexact' := hsubs' [] trivial
        simp only [TrieNode.subscribers, levelsMatch] at hexact hexact' ⊢
        simpa [hexact] using hexact'
      · by_cases hhash : level = "#"
        · simp [TrieNode.subscribers, levelsMatch, hhash]
        · have hsame : subscribers (level :: filter)
              { (visit ch message "+" topic r.1 r.2).1 with
                hashSubscribers := opened ch w node.hashSubscribers } =
              (visit ch message "+" topic r.1 r.2).1.subscribers (level :: filter) := by
            simp [TrieNode.subscribers, hhash, child]
          dsimp only at hsame ⊢
          rw [hsame, hsubs' _ hfilter, hsubs _ hfilter, levelsMatch, if_neg hhash]
          by_cases hplus : level = "+"
          · subst hplus
            by_cases hname : "+" = name
            · simp [← hname]
            · simp [hname]
          · by_cases hname : level = name
            · subst hname
              simp [hplus, hhash]
            · simp [hplus, hname]
    · exact hclean'.congr rfl rfl

end TrieNode

/-! ## The registry -/

/-- The pairs of a filter and a sender that are registered. -/
abbrev Registry (S : Type) := List (String × S)

/-- An operation that changes the router. -/
inductive RouterOp (S : Type)
  | insert (filter : String) (sender : S)
  | remove (filter : String)

section
variable {E S W : Type}

/-- The filter of the operation. -/
def RouterOp.filter : RouterOp S → String
  | .insert filter _ => filter
  | .remove filter => filter

/-- What the operation does to the registered pairs. -/
def Registry.apply (self : Registry S) : RouterOp S → Registry S
  | .insert filter sender => self ++ [(filter, sender)]
  | .remove filter => self.filter fun pair => pair.1 ≠ filter

/-- What the operation does to the router. -/
def TopicRouter.apply (self : TopicRouter S) : RouterOp S → Except (ClientError E) (TopicRouter S)
  | .insert filter sender => self.insert filter sender
  | .remove filter => self.remove filter

/-- The trie keeps the registered pairs. -/
structure Represents (root : TrieNode S) (registry : Registry S) : Prop where
  clean : root.Clean
  hashLast : ∀ pair ∈ registry, HashLast (levels pair.1)
  subscribers : ∀ filter, HashLast filter →
    root.subscribers filter = (registry.filter fun pair => levels pair.1 = filter).map (·.2)

theorem represents_new : Represents (TopicRouter.new : TopicRouter S).root [] :=
  ⟨TrieNode.clean_empty, by simp, fun _ _ => TrieNode.subscribers_empty _⟩

theorem Represents.insert {root : TrieNode S} {registry : Registry S} (h : Represents root registry)
    {filter : String} (hlast : HashLast (levels filter)) (sender : S) :
    Represents (root.insert sender (levels filter)) (registry ++ [(filter, sender)]) := by
  refine ⟨TrieNode.clean_insert h.clean sender _, ?_, ?_⟩
  · intro pair hpair
    rcases List.mem_append.mp hpair with hpair | hpair
    · exact h.hashLast pair hpair
    · rw [List.mem_singleton.mp hpair]
      exact hlast
  intro filter' hlast'
  rw [TrieNode.subscribers_insert hlast hlast', h.subscribers filter' hlast']
  by_cases heq : filter' = levels filter
  · simp [heq]
  · have hne : ¬ levels filter = filter' := fun h => heq h.symm
    simp [heq, hne]

theorem Represents.remove {root : TrieNode S} {registry : Registry S} (h : Represents root registry)
    {filter : String} (hlast : HashLast (levels filter)) :
    Represents (root.removeRecursive (levels filter)).1
      (registry.filter fun pair => pair.1 ≠ filter) := by
  refine ⟨TrieNode.clean_remove h.clean _,
    fun pair hpair => h.hashLast pair (List.mem_filter.mp hpair).1, ?_⟩
  intro filter' hlast'
  rw [TrieNode.subscribers_remove hlast hlast', h.subscribers filter' hlast', List.filter_filter]
  by_cases heq : filter' = levels filter
  · rw [if_pos heq]
    symm
    rw [List.map_eq_nil_iff, List.filter_eq_nil_iff]
    intro pair _ hpair
    simp only [ne_eq, decide_not, Bool.and_eq_true, decide_eq_true_eq, Bool.not_eq_true',
      decide_eq_false_iff_not] at hpair
    exact hpair.2 (levels_inj (hpair.1.trans heq))
  · rw [if_neg heq]
    congr 1
    apply List.filter_congr
    intro pair _
    by_cases hpair : levels pair.1 = filter'
    · have hne : pair.1 ≠ filter := fun h => heq (by rw [← hpair, h])
      simp [hpair, hne]
    · simp [hpair]

/-- An operation on the router is the operation on the registry. -/
theorem represents_apply {router : TopicRouter S} {registry : Registry S}
    (h : Represents router.root registry) (op : RouterOp S)
    (hvalid : (validateTopicFilter op.filter : Except (ClientError E) Unit) = .ok ()) :
    ∃ router', (router.apply op : Except (ClientError E) _) = .ok router' ∧
      Represents router'.root (registry.apply op) := by
  have hlast := hashLast_of_valid hvalid
  cases op with
  | insert filter sender =>
    refine ⟨⟨router.root.insert sender (levels filter)⟩, ?_, h.insert hlast sender⟩
    change (validateTopicFilter filter >>= fun _ => pure _) = _
    rw [show validateTopicFilter filter = _ from hvalid]
    rfl
  | remove filter =>
    refine ⟨⟨(router.root.removeRecursive (levels filter)).1⟩, ?_, h.remove hlast⟩
    change (validateTopicFilter filter >>= fun _ => pure _) = _
    rw [show validateTopicFilter filter = _ from hvalid]
    rfl

/-- The router after a list of operations. -/
def TopicRouter.run (ops : List (RouterOp S)) (self : TopicRouter S) :
    Except (ClientError E) (TopicRouter S) :=
  ops.foldlM (fun router op => router.apply op) self

/-- A list of operations on the router is the list of operations on the registry. -/
theorem represents_run {ops : List (RouterOp S)} {router : TopicRouter S} {registry : Registry S}
    (h : Represents router.root registry)
    (hvalid : ∀ op ∈ ops, (validateTopicFilter op.filter : Except (ClientError E) Unit) = .ok ()) :
    ∃ router', (router.run ops : Except (ClientError E) _) = .ok router' ∧
      Represents router'.root (ops.foldl Registry.apply registry) := by
  induction ops generalizing router registry with
  | nil => exact ⟨router, rfl, h⟩
  | cons op ops ih =>
    obtain ⟨router', happly, h'⟩ := represents_apply h op (hvalid op (by simp))
    obtain ⟨router'', hrun, h''⟩ := ih h' fun op hop => hvalid op (by simp [hop])
    refine ⟨router'', ?_, h''⟩
    rw [TopicRouter.run, List.foldlM_cons, happly]
    exact hrun

/-! ## Deliveries -/

theorem mem_matching {filter : List String} (h : HashLast filter) (topic : List String) :
    filter ∈ TrieNode.matching topic ↔ levelsMatch filter topic := by
  induction filter generalizing topic with
  | nil => cases topic <;> simp [TrieNode.matching, levelsMatch]
  | cons level filter ih =>
    by_cases hhash : level = "#"
    · obtain rfl := h.1 hhash
      cases topic <;> simp [TrieNode.matching, levelsMatch, hhash]
    · cases topic with
      | nil => simp [TrieNode.matching, levelsMatch, hhash]
      | cons name topic =>
        simp only [TrieNode.matching, levelsMatch, if_neg hhash, List.mem_cons, List.mem_append,
          List.mem_map, Bool.and_eq_true, ← ih h.2 topic]
        by_cases hname : name = "+" ∨ name = "#"
        · have hlevel : level = name → level = "+" := by
            rintro rfl
            exact hname.resolve_right hhash
          have hiff : level = "+" ∨ level = name ↔ "+" = level := by
            rw [or_iff_left_of_imp hlevel]
            exact eq_comm
          simp [hname, hhash, hiff, and_comm]
        · rw [not_or] at hname
          by_cases hplus : level = "+"
          · subst hplus
            simp [hname]
          · simp [hname, hhash, hplus, and_comm, eq_comm]

theorem nodup_matching (topic : List String) : (TrieNode.matching topic).Nodup := by
  induction topic with
  | nil => simp [TrieNode.matching]
  | cons name topic ih =>
    have hplus := ih.map (f := ("+" :: ·)) (List.cons_injective)
    rw [TrieNode.matching, List.nodup_cons]
    split_ifs with hname
    · exact ⟨by simp, hplus⟩
    · have hlevel := ih.map (f := (name :: ·)) (List.cons_injective)
      rw [not_or] at hname
      refine ⟨by simp [hname.2], List.nodup_append.mpr ⟨hlevel, hplus, ?_⟩⟩
      intro filter hfilter filter' hfilter'
      obtain ⟨-, -, rfl⟩ := List.mem_map.mp hfilter
      obtain ⟨-, -, rfl⟩ := List.mem_map.mp hfilter'
      simp [hname.1]

/-- The entries with one of the keys, key by key. -/
theorem perm_flatMap_filter {α κ : Type} [DecidableEq κ] (key : α → κ) {keys : List κ}
    (h : keys.Nodup) (l : List α) :
    (keys.flatMap fun k => l.filter fun a => key a = k).Perm (l.filter fun a => key a ∈ keys) := by
  induction keys with
  | nil => simp
  | cons k keys ih =>
    obtain ⟨hk, hkeys⟩ := List.nodup_cons.mp h
    rw [List.flatMap_cons]
    have hfirst : (l.filter fun a => key a ∈ k :: keys).filter (fun a => key a = k) =
        l.filter fun a => key a = k := by
      rw [List.filter_filter]
      apply List.filter_congr
      intro a _
      by_cases ha : key a = k <;> simp [ha]
    have hrest : (l.filter fun a => key a ∈ k :: keys).filter (fun a => !decide (key a = k)) =
        l.filter fun a => key a ∈ keys := by
      rw [List.filter_filter]
      apply List.filter_congr
      intro a _
      by_cases ha : key a = k
      · simp [ha, hk]
      · simp [ha]
    have hsplit := List.filter_append_perm (fun a => decide (key a = k))
      (l.filter fun a => key a ∈ k :: keys)
    rw [hfirst, hrest] at hsplit
    exact ((ih hkeys).append_left _).trans hsplit

/-- The registered pairs whose filter matches the topic. -/
def Registry.matched (self : Registry S) (topic : String) : Registry S :=
  self.filter fun pair => levelsMatch (levels pair.1) (levels topic)

section
variable [DecidableEq S] (ch : Mpsc W S PublishMessage) (message : PublishMessage)

/-- The router sends the message to the open senders of the pairs that match, and drops the pairs
that match and whose sender is closed. -/
theorem dispatch_spec {router : TopicRouter S} {registry : Registry S}
    (h : Represents router.root registry) (w : W) :
    (∃ senders, (router.dispatch ch message w).2 = ch.deliver w senders message ∧
      senders.Perm (TrieNode.opened ch w ((registry.matched message.topic).map (·.2)))) ∧
    Represents (router.dispatch ch message w).1.root
      (registry.filter fun pair =>
        !(levelsMatch (levels pair.1) (levels message.topic) && ch.isClosed w pair.2)) := by
  obtain ⟨hworld, hsubs, hclean⟩ :=
    TrieNode.dispatched_matchAndDispatch ch message (levels message.topic) h.clean w
  refine ⟨⟨_, hworld, ?_⟩, hclean,
    fun pair hpair => h.hashLast pair (List.mem_filter.mp hpair).1, ?_⟩
  · have hkept : ((TrieNode.matching (levels message.topic)).flatMap fun filter =>
        TrieNode.opened ch w (router.root.subscribers filter)) =
        TrieNode.opened ch w (((TrieNode.matching (levels message.topic)).flatMap fun filter =>
          registry.filter fun pair => levels pair.1 = filter).map (·.2)) := by
      rw [List.map_flatMap, TrieNode.opened, List.filter_flatMap]
      apply List.flatMap_congr
      intro filter hfilter
      rw [h.subscribers filter (TrieNode.hashLast_of_mem_matching hfilter)]
      rfl
    rw [hkept]
    apply List.Perm.filter
    apply List.Perm.map
    refine (perm_flatMap_filter (fun pair : String × S => levels pair.1) (nodup_matching _)
      registry).trans (List.Perm.of_eq ?_)
    apply List.filter_congr
    intro pair hpair
    simp [mem_matching (h.hashLast pair hpair)]
  · intro filter hfilter
    refine (hsubs filter hfilter).trans ?_
    rw [h.subscribers filter hfilter, List.filter_filter]
    by_cases hmatch : levelsMatch filter (levels message.topic)
    · rw [if_pos hmatch, TrieNode.opened, List.filter_map, List.filter_filter]
      congr 1
      apply List.filter_congr
      intro pair _
      by_cases hpair : levels pair.1 = filter
      · simp [hpair, hmatch]
      · simp [hpair]
    · rw [if_neg hmatch]
      congr 1
      apply List.filter_congr
      intro pair _
      by_cases hpair : levels pair.1 = filter
      · simp [hpair, hmatch]
      · simp [hpair]

/-- How many of the registered pairs match and have this sender. -/
def Registry.copies (self : Registry S) (topic : String) (sender : S) : ℕ :=
  (self.matched topic).countP fun pair => pair.2 = sender

/-- After any insertions and removals, a message goes once to the sender of each registered pair
whose filter matches, and to no other. -/
theorem dispatch_registered {ops : List (RouterOp S)}
    (hvalid : ∀ op ∈ ops, (validateTopicFilter op.filter : Except (ClientError E) Unit) = .ok ()) :
    ∃ router : TopicRouter S, (TopicRouter.new.run ops : Except (ClientError E) _) = .ok router ∧
      ∀ (message : PublishMessage) (w : W),
        (∀ pair ∈ ops.foldl Registry.apply [], ch.isClosed w pair.2 = false) →
        (∀ sender, Registry.copies (ops.foldl Registry.apply []) message.topic sender ≤
          ch.free w sender) →
        ∀ sender, ch.accepted (router.dispatch ch message w).2 sender = ch.accepted w sender ++
          List.replicate (Registry.copies (ops.foldl Registry.apply []) message.topic sender)
            message := by
  obtain ⟨router, hrun, h⟩ := represents_run represents_new hvalid
  refine ⟨router, hrun, ?_⟩
  intro message w hopen hroom sender
  obtain ⟨⟨senders, hworld, hperm⟩, -⟩ := dispatch_spec ch message h w
  have hall : TrieNode.opened ch w
      ((Registry.matched (ops.foldl Registry.apply []) message.topic).map (·.2)) =
      (Registry.matched (ops.foldl Registry.apply []) message.topic).map (·.2) := by
    rw [TrieNode.opened, List.filter_eq_self]
    intro s hs
    obtain ⟨pair, hpair, rfl⟩ := List.mem_map.mp hs
    simp [hopen pair (List.mem_filter.mp hpair).1]
  rw [hall] at hperm
  have hcount (s : S) : senders.count s =
      Registry.copies (ops.foldl Registry.apply []) message.topic s := by
    rw [hperm.count_eq, List.count, List.countP_map, Registry.copies]
    rfl
  rw [hworld, ch.accepted_deliver, hcount]
  · intro s hs
    obtain ⟨pair, hpair, rfl⟩ := List.mem_map.mp (hperm.mem_iff.mp hs)
    exact hopen pair (List.mem_filter.mp hpair).1
  · intro s _
    rw [hcount]
    exact hroom s

end

end

/-- The operations of the run below. -/
def sampleOps : List (RouterOp ℕ) :=
  [.insert "a/+" 0, .insert "#" 0, .insert "a/b" 1, .remove "a/b", .insert "a//#" 1,
    .insert "+/b" 1]

/-- Two filters of one sender and one of another match; a filter that does not match and one that
was removed get nothing. -/
theorem dispatch_registered_sample :
    ∃ router : TopicRouter ℕ,
      (TopicRouter.new.run sampleOps : Except (ClientError Unit) _) = .ok router ∧
      ∀ sender, ((router.dispatch (Mpsc.queues ℕ PublishMessage) (PublishMessage.new "a/b" [1])
          fun _ => ⟨false, [], 128⟩).2 sender).accepted =
        List.replicate (Registry.copies (sampleOps.foldl Registry.apply []) "a/b" sender)
          (PublishMessage.new "a/b" [1]) := by
  have hvalid : ∀ op ∈ sampleOps,
      (validateTopicFilter op.filter : Except (ClientError Unit) Unit) = .ok () := by
    decide +kernel
  obtain ⟨router, hrun, h⟩ := dispatch_registered (Mpsc.queues ℕ PublishMessage) hvalid
  refine ⟨router, hrun, ?_⟩
  intro sender
  have hroom (s : ℕ) : Registry.copies (sampleOps.foldl Registry.apply []) "a/b" s ≤ 128 := by
    refine (List.countP_le_length).trans ?_
    decide +kernel
  exact h (.new "a/b" [1]) (fun _ => ⟨false, [], 128⟩) (fun _ _ => rfl) hroom sender

end MqttEngine.Tokio
