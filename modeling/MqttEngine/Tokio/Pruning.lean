import MqttEngine.Tokio.Registry

/-!
# The nodes of the router's trie

`remove` takes away the nodes on its path that have become empty. `dispatch` drops the senders
that it finds closed, but takes no node away, so that a branch stays when the last sender in it
is dropped. In a run the trie is pruned after every operation if and only if this never happens.

Receivers may be closed while the router searches. `sweep` is what a search leaves of the trie
for any answers to its questions; `dispatch` is the case in which nobody interferes.

## Main definitions

* `TrieNode.nodeAt`, `TrieNode.Live`, `TrieNode.Pruned` — the nodes of a trie.
* `TrieNode.sweep` — what a search leaves.
* `RouterEvent`, `StaysPruned` — runs in which the trie stays pruned.
* `Spares` — the search leaves no branch without senders.

## Main results

* `pruned_insert`, `pruned_remove`, `pruned_sweep` — when the operations keep a trie pruned.
* `matchAndDispatch_fst` — `dispatch` sweeps.
* `Represents.isSome_nodeAt_iff` — the nodes of a pruned trie.
* `staysPruned_iff` — when a run keeps the trie pruned.
-/

namespace MqttEngine.Tokio

/-- The levels of a filter that lead to a node, which are those before `#`. -/
def nodePath (filter : List String) : List String := filter.takeWhile (· ≠ "#")

@[simp] theorem nodePath_nil : nodePath [] = [] := rfl

theorem nodePath_cons {level : String} (h : level ≠ "#") (filter : List String) :
    nodePath (level :: filter) = level :: nodePath filter := by
  simp [nodePath, h]

@[simp] theorem nodePath_hash (filter : List String) : nodePath ("#" :: filter) = [] := by
  simp [nodePath]

theorem nodePath_append {path : List String} (h : "#" ∉ path) (filter : List String) :
    nodePath (path ++ filter) = path ++ nodePath filter := by
  rw [nodePath, List.takeWhile_append_of_pos]
  · rfl
  · intro level hlevel
    simpa using fun heq : level = "#" => h (heq ▸ hlevel)

theorem hashLast_append {path filter : List String} (h : "#" ∉ path) (hfilter : HashLast filter) :
    HashLast (path ++ filter) := by
  induction path with
  | nil => exact hfilter
  | cons level path ih =>
    obtain ⟨hlevel, hpath⟩ := List.ne_and_not_mem_of_not_mem_cons h
    exact ⟨fun heq => absurd heq.symm hlevel, ih hpath⟩

namespace TrieNode
variable {S : Type}

/-! ## The nodes -/

/-- The node that a path of levels leads to. -/
def nodeAt : List String → TrieNode S → Option (TrieNode S)
  | [], node => some node
  | level :: path, node => (node.child level).bind (nodeAt path)

/-- A sender is stored at the node. -/
def Stores (node : TrieNode S) : Prop := node.hashSubscribers ≠ [] ∨ node.exactSubscribers ≠ []

/-- A sender is stored in the subtree of the node. -/
def Live (node : TrieNode S) : Prop := ∃ path n, node.nodeAt path = some n ∧ n.Stores

/-- A sender is stored in the subtree of every node but the root. -/
def Pruned (root : TrieNode S) : Prop := ∀ path n, path ≠ [] → root.nodeAt path = some n → n.Live

theorem nodeAt_append (path path' : List String) (node : TrieNode S) :
    node.nodeAt (path ++ path') = (node.nodeAt path).bind (nodeAt path') := by
  induction path generalizing node with
  | nil => rfl
  | cons level path ih =>
    rw [List.cons_append, nodeAt, nodeAt]
    cases node.child level with
    | none => rfl
    | some c => exact ih c

theorem Stores.live {node : TrieNode S} (h : node.Stores) : node.Live := ⟨[], node, rfl, h⟩

/-- A sender in the subtree of a child is in the subtree of its parent. -/
theorem Live.of_child {node c : TrieNode S} {level : String} (hc : node.child level = some c)
    (h : c.Live) : node.Live := by
  obtain ⟨path, n, hn, hstores⟩ := h
  exact ⟨level :: path, n, by rw [nodeAt, hc]; exact hn, hstores⟩

/-- A trie is pruned if its children are, and have senders in their subtrees. -/
theorem pruned_iff {node : TrieNode S} :
    node.Pruned ↔ ∀ level c, node.child level = some c → c.Live ∧ c.Pruned := by
  constructor
  · intro h level c hc
    refine ⟨h [level] c (by simp) (by simp [nodeAt, hc]), fun path n _ hn => ?_⟩
    exact h (level :: path) n (by simp) (by rw [nodeAt, hc]; exact hn)
  · intro h path n hpath hn
    rcases path with _ | ⟨level, path⟩
    · exact absurd rfl hpath
    · obtain ⟨c, hc, hn⟩ := Option.bind_eq_some_iff.mp hn
      obtain ⟨hlive, hpruned⟩ := h level c hc
      rcases path with _ | ⟨level', path⟩
      · obtain rfl := Option.some.inj hn
        exact hlive
      · exact hpruned _ n (by simp) hn

theorem pruned_empty : ({} : TrieNode S).Pruned := by
  rw [pruned_iff]
  intro level c hc
  simp [child] at hc

/-- Other senders at the node itself do not matter. -/
theorem Pruned.congr {self node : TrieNode S} (h : self.Pruned)
    (hchild : ∀ level, node.child level = self.child level) : node.Pruned := by
  rw [pruned_iff] at h ⊢
  intro level c hc
  exact h level c ((hchild level).symm.trans hc)

/-- A child that is pruned and has a sender in its subtree keeps the trie pruned. -/
theorem Pruned.setChild {self : TrieNode S} (h : self.Pruned) {level : String}
    {c : Option (TrieNode S)} (hc : ∀ child, c = some child → child.Live ∧ child.Pruned) :
    (self.setChild level c).Pruned := by
  rw [pruned_iff] at h ⊢
  intro level' c' hc'
  rw [child_setChild] at hc'
  split at hc'
  · exact hc c' hc'
  · exact h level' c' hc'

/-! ### Inserting and removing -/

theorem live_insert (sender : S) (filter : List String) (node : TrieNode S) :
    (node.insert sender filter).Live := by
  induction filter generalizing node with
  | nil => exact Stores.live (.inr (by simp [insert]))
  | cons level filter ih =>
    by_cases hhash : level = "#"
    · exact Stores.live (.inl (by simp [insert, hhash]))
    · rw [insert_cons hhash]
      exact Live.of_child (by rw [child_setChild, if_pos rfl]) (ih _)

theorem pruned_insert {node : TrieNode S} (h : node.Pruned) (sender : S) (filter : List String) :
    (node.insert sender filter).Pruned := by
  induction filter generalizing node with
  | nil => exact h.congr fun _ => rfl
  | cons level filter ih =>
    by_cases hhash : level = "#"
    · rw [insert, if_pos hhash]
      exact h.congr fun _ => rfl
    · rw [insert_cons hhash]
      apply h.setChild
      intro c hc
      obtain rfl := Option.some.inj hc
      refine ⟨live_insert sender filter _, ih ?_⟩
      rcases hchild : node.child level with _ | c
      · exact pruned_empty
      · exact (pruned_iff.mp h level c hchild).2

/-- A node that is not empty has a sender at itself or below a child. -/
theorem Pruned.live {node : TrieNode S} (h : node.Pruned) (hclean : node.Clean)
    (hempty : ¬ node.isEmpty) : node.Live := by
  by_cases hstores : node.Stores
  · exact hstores.live
  · rw [Stores, not_or, not_not, not_not] at hstores
    have hchild : ∃ level c, node.child level = some c := by
      rcases hplus : node.plusChild with _ | c
      · rcases hchildren : node.exactChildren with _ | ⟨e, children⟩
        · exact absurd (by simp [isEmpty, hplus, hchildren, hstores]) hempty
        · obtain ⟨plain, -, -⟩ := hclean
          have hlevel := (plain e (by simp [hchildren])).1
          exact ⟨e.1, e.2, by simp [child, hlevel, hchildren, Assoc.get?_cons]⟩
      · exact ⟨"+", c, by simp [child, hplus]⟩
    obtain ⟨level, c, hc⟩ := hchild
    exact Live.of_child hc (pruned_iff.mp h level c hc).1

theorem pruned_remove {node : TrieNode S} (h : node.Pruned) (hclean : node.Clean)
    (filter : List String) : (node.removeRecursive filter).1.Pruned := by
  induction filter generalizing node with
  | nil => exact h.congr fun _ => rfl
  | cons level filter ih =>
    by_cases hhash : level = "#"
    · rw [removeRecursive, if_pos hhash]
      exact h.congr fun _ => rfl
    · rw [removeRecursive_cons hhash]
      rcases hchild : node.child level with _ | c
      · exact h
      · have hc := ih (pruned_iff.mp h level c hchild).2 (hclean.child hchild)
        apply h.setChild
        intro c' hc'
        split at hc'
        · cases hc'
        · rename_i hempty
          obtain rfl := Option.some.inj hc'
          exact ⟨hc.live (clean_remove (hclean.child hchild) filter) hempty, hc⟩

/-! ### Senders and nodes -/

/-- The node of a filter keeps the senders that are registered under it. -/
theorem subscribers_of_nodeAt {path : List String} (h : "#" ∉ path) {root n : TrieNode S}
    (hn : root.nodeAt path = some n) (filter : List String) :
    root.subscribers (path ++ filter) = n.subscribers filter := by
  induction path generalizing root with
  | nil =>
    obtain rfl := Option.some.inj hn
    rfl
  | cons level path ih =>
    obtain ⟨hlevel, hpath⟩ := List.ne_and_not_mem_of_not_mem_cons h
    obtain ⟨c, hc, hn⟩ := Option.bind_eq_some_iff.mp hn
    rw [List.cons_append, subscribers, if_neg (Ne.symm hlevel), hc]
    exact ih hpath hn

/-- No path of a clean trie goes through a `#`. -/
theorem Clean.not_mem {root n : TrieNode S} (h : root.Clean) {path : List String}
    (hn : root.nodeAt path = some n) : "#" ∉ path := by
  induction path generalizing root with
  | nil => simp
  | cons level path ih =>
    obtain ⟨c, hc, hn⟩ := Option.bind_eq_some_iff.mp hn
    refine List.not_mem_cons_of_ne_of_not_mem ?_ (ih (h.child hc) hn)
    rintro rfl
    obtain ⟨plain, -, -⟩ := h
    rw [TrieNode.child, if_neg (by decide)] at hc
    exact (plain _ (Assoc.mem_of_get? hc)).2 rfl

/-- The senders that are registered under a filter are stored at its node. -/
theorem nodeAt_of_subscribers {filter : List String} {root : TrieNode S}
    (h : root.subscribers filter ≠ []) :
    ∃ n, root.nodeAt (nodePath filter) = some n ∧ n.Stores := by
  induction filter generalizing root with
  | nil => exact ⟨root, rfl, .inr h⟩
  | cons level filter ih =>
    by_cases hhash : level = "#"
    · subst hhash
      rw [subscribers, if_pos rfl] at h
      exact ⟨root, by rw [nodePath_hash]; rfl, .inl h⟩
    · rw [subscribers, if_neg hhash] at h
      rcases hc : root.child level with _ | c
      · simp [hc] at h
      · rw [hc] at h
        obtain ⟨n, hn, hstores⟩ := ih h
        exact ⟨n, by rw [nodePath_cons hhash, nodeAt, hc]; exact hn, hstores⟩

/-- The `i`-th sender under the filter. -/
def Stored (root : TrieNode S) (filter : List String) (i : ℕ) : Prop :=
  HashLast filter ∧ i < (root.subscribers filter).length

theorem Stored.subscribers_ne_nil {root : TrieNode S} {filter : List String} {i : ℕ}
    (h : root.Stored filter i) : root.subscribers filter ≠ [] :=
  List.ne_nil_of_length_pos (Nat.zero_lt_of_lt h.2)

/-- What is stored in the subtree of a node is registered under a filter that leads through it. -/
theorem live_iff {root n : TrieNode S} (h : root.Clean) {path : List String}
    (hn : root.nodeAt path = some n) :
    n.Live ↔ ∃ filter i, root.Stored filter i ∧ path <+: nodePath filter := by
  constructor
  · rintro ⟨path', m, hm, hstores⟩
    have hroot : root.nodeAt (path ++ path') = some m := by rw [nodeAt_append, hn]; exact hm
    have hnot := h.not_mem hroot
    have hstored (filter : List String) (hlast : HashLast filter) (hpath : nodePath filter = [])
        (hne : m.subscribers filter ≠ []) :
        ∃ filter i, root.Stored filter i ∧ path <+: nodePath filter := by
      refine ⟨path ++ path' ++ filter, 0, ⟨hashLast_append hnot hlast, ?_⟩, ?_⟩
      · rw [subscribers_of_nodeAt hnot hroot]
        exact List.length_pos_iff.mpr hne
      · rw [nodePath_append hnot, hpath, List.append_nil]
        exact List.prefix_append path path'
    rcases hstores with hhash | hexact
    · have hne : m.subscribers ["#"] ≠ [] := by simpa [subscribers] using hhash
      exact hstored ["#"] ⟨fun _ => rfl, trivial⟩ (nodePath_hash _) hne
    · exact hstored [] trivial rfl hexact
  · rintro ⟨filter, i, hstored, path', hpath⟩
    obtain ⟨m, hm, hstores⟩ := nodeAt_of_subscribers hstored.subscribers_ne_nil
    rw [← hpath, nodeAt_append, hn] at hm
    exact ⟨path', m, hm, hstores⟩

/-! ## Sweeping -/

/-- `subscribers.retain(..)`, where the channels of the senders at the places in `found` are
closed. -/
def remaining (found : ℕ → Bool) (senders : List S) : List S :=
  (senders.zipIdx.filter fun e => !found e.2).map (·.1)

theorem remaining_ne_nil {found : ℕ → Bool} {senders : List S} :
    remaining found senders ≠ [] ↔ ∃ i < senders.length, found i = false := by
  rw [remaining, Ne, List.map_eq_nil_iff, List.filter_eq_nil_iff]
  constructor
  · intro h
    by_contra hall
    refine h fun e he => ?_
    obtain ⟨hlt, -⟩ := List.getElem?_eq_some_iff.mp (List.mem_zipIdx_iff_getElem?.mp he)
    intro hfound
    exact hall ⟨e.2, hlt, by simpa using hfound⟩
  · rintro ⟨i, hlt, hi⟩ hall
    exact hall (senders[i], i) (by simp [List.mem_zipIdx_iff_getElem?]) (by simp [hi])

/-- What `match_and_dispatch` leaves of the trie, where the channel of the `i`-th sender under a
filter is closed when the search comes to it if `found filter i`. -/
def sweep : (List String → ℕ → Bool) → List String → TrieNode S → TrieNode S
  | found, [], node =>
    { node with
      hashSubscribers := remaining (found ["#"]) node.hashSubscribers
      exactSubscribers := remaining (found []) node.exactSubscribers }
  | found, level :: rest, node =>
    { node with
      hashSubscribers := remaining (found ["#"]) node.hashSubscribers
      exactChildren :=
        match Assoc.get? node.exactChildren level with
        | some child =>
          Assoc.set node.exactChildren level
            (sweep (fun filter => found (level :: filter)) rest child)
        | none => node.exactChildren
      plusChild := node.plusChild.map (sweep (fun filter => found ("+" :: filter)) rest) }

section
variable (found : List String → ℕ → Bool)

/-- The search changes the children that the topic leads to, and takes none away. -/
theorem child_sweep (name : String) (topic : List String) (node : TrieNode S) (level : String) :
    (node.sweep found (name :: topic)).child level = (node.child level).map fun c =>
      if level = "+" ∨ level = name then c.sweep (fun filter => found (level :: filter)) topic
      else c := by
  rw [sweep, child, child]
  by_cases hplus : level = "+"
  · simp [hplus]
  · simp only [hplus, false_or]
    rcases hchild : Assoc.get? node.exactChildren name with _ | c
    · by_cases hname : level = name
      · simp [hname, hchild]
      · simp [hname]
    · by_cases hname : level = name
      · subst hname
        simp [hchild]
      · simp [hname, Assoc.get?_set]

/-- The nodes stay where they are. -/
theorem isSome_nodeAt_sweep (topic path : List String) (node : TrieNode S) :
    ((node.sweep found topic).nodeAt path).isSome = (node.nodeAt path).isSome := by
  induction path generalizing found topic node with
  | nil => rfl
  | cons level path ih =>
    rcases topic with _ | ⟨name, topic⟩
    · rfl
    · rw [nodeAt, nodeAt, child_sweep]
      rcases node.child level with _ | c
      · rfl
      · dsimp only [Option.map_some, Option.bind_some]
        split
        · exact ih _ topic c
        · rfl

/-- The filters that match the topic keep the senders that are not found closed, and the others keep
theirs. -/
theorem subscribers_sweep {filter : List String} (h : HashLast filter) (topic : List String)
    (node : TrieNode S) :
    (node.sweep found topic).subscribers filter =
      if levelsMatch filter topic then remaining (found filter) (node.subscribers filter)
      else node.subscribers filter := by
  induction filter generalizing found topic node with
  | nil => cases topic <;> simp [sweep, subscribers, levelsMatch]
  | cons level filter ih =>
    by_cases hhash : level = "#"
    · obtain rfl := h.1 hhash
      subst hhash
      cases topic <;> simp [sweep, subscribers, levelsMatch]
    · rcases topic with _ | ⟨name, topic⟩
      · simp [sweep, subscribers, levelsMatch, hhash, child]
      · rw [subscribers, subscribers, if_neg hhash, if_neg hhash, child_sweep, levelsMatch,
          if_neg hhash]
        rcases node.child level with _ | c
        · simp [remaining]
        · have hc := ih (fun filter => found (level :: filter)) h.2 topic c
          by_cases hlevel : level = "+" ∨ level = name
          · simp [hlevel, hc]
          · rw [not_or] at hlevel
            simp [hlevel]

theorem clean_sweep {node : TrieNode S} (h : node.Clean) (topic : List String) :
    (node.sweep found topic).Clean := by
  induction topic generalizing found node with
  | nil => exact h.congr rfl rfl
  | cons name topic ih =>
    obtain ⟨plain, exact, plus⟩ := h
    rw [sweep]
    refine .node ?_ ?_ ?_
    · intro e he
      dsimp only at he
      split at he
      · rename_i c hc
        rcases Assoc.mem_set.mp he with rfl | ⟨he, -⟩
        · exact plain (name, c) (Assoc.mem_of_get? hc)
        · exact plain e he
      · exact plain e he
    · intro e he
      dsimp only at he
      split at he
      · rename_i c hc
        rcases Assoc.mem_set.mp he with rfl | ⟨he, -⟩
        · exact ih _ (exact _ (Assoc.mem_of_get? hc))
        · exact exact e he
      · exact exact e he
    · intro c hc
      obtain ⟨c', hc', rfl⟩ := Option.map_eq_some_iff.mp hc
      exact ih _ (plus c' hc')

/-- The search drops the `i`-th sender under the filter. -/
def Dropped (topic filter : List String) (i : ℕ) : Prop :=
  levelsMatch filter topic ∧ found filter i

/-- Where a sender is dropped below the root, one that is not is stored there or further down. -/
def Spares (topic : List String) (root : TrieNode S) : Prop :=
  ∀ filter i, root.Stored filter i → Dropped found topic filter i → nodePath filter ≠ [] →
    ∃ filter' j, root.Stored filter' j ∧ ¬ Dropped found topic filter' j ∧
      nodePath filter <+: nodePath filter'

/-- What has not been dropped is what is stored afterwards. -/
theorem exists_stored_sweep {filter : List String} {topic : List String} {root : TrieNode S} :
    (∃ i, (root.sweep found topic).Stored filter i) ↔
      ∃ i, root.Stored filter i ∧ ¬ Dropped found topic filter i := by
  by_cases hlast : HashLast filter
  · simp only [Stored, hlast, true_and, subscribers_sweep found hlast, Dropped]
    by_cases hmatch : levelsMatch filter topic
    · simp only [hmatch, true_and, Bool.not_eq_true]
      rw [← remaining_ne_nil, ← List.length_pos_iff]
      exact ⟨fun ⟨i, hi⟩ => Nat.zero_lt_of_lt hi, fun h => ⟨0, h⟩⟩
    · simp [hmatch]
  · simp [Stored, hlast]

variable {topic : List String} {root : TrieNode S}

theorem live_sweep_iff (hclean : root.Clean) {path : List String} {n : TrieNode S}
    (hn : (root.sweep found topic).nodeAt path = some n) :
    n.Live ↔ ∃ filter i, root.Stored filter i ∧ ¬ Dropped found topic filter i ∧
      path <+: nodePath filter := by
  rw [live_iff (clean_sweep found hclean topic) hn]
  constructor
  · rintro ⟨filter, i, hstored, hpath⟩
    obtain ⟨j, hj, hkept⟩ := (exists_stored_sweep found).mp ⟨i, hstored⟩
    exact ⟨filter, j, hj, hkept, hpath⟩
  · rintro ⟨filter, j, hj, hkept, hpath⟩
    obtain ⟨i, hstored⟩ := (exists_stored_sweep found).mpr ⟨j, hj, hkept⟩
    exact ⟨filter, i, hstored, hpath⟩

/-- A search that leaves the trie pruned has spared the branches in which it has dropped a
sender. -/
theorem spares_of_pruned (hclean : root.Clean) (h : (root.sweep found topic).Pruned) :
    Spares found topic root := by
  intro filter i hstored _ hpath
  obtain ⟨n, hn, -⟩ := nodeAt_of_subscribers hstored.subscribers_ne_nil
  have hpresent := isSome_nodeAt_sweep found topic (nodePath filter) root
  rw [hn, Option.isSome_some] at hpresent
  obtain ⟨n', hn'⟩ := Option.isSome_iff_exists.mp hpresent
  exact (live_sweep_iff found hclean hn').mp (h _ n' hpath hn')

/-- A search that spares these branches keeps a pruned trie pruned. -/
theorem pruned_sweep (hclean : root.Clean) (h : root.Pruned) (hspares : Spares found topic root) :
    (root.sweep found topic).Pruned := by
  intro path n' hpath hn'
  have hpresent := isSome_nodeAt_sweep found topic path root
  rw [hn', Option.isSome_some] at hpresent
  obtain ⟨n, hn⟩ := Option.isSome_iff_exists.mp hpresent.symm
  obtain ⟨filter, i, hstored, hprefix⟩ := (live_iff hclean hn).mp (h path n hpath hn)
  rw [live_sweep_iff found hclean hn']
  by_cases hdropped : Dropped found topic filter i
  · have hne : nodePath filter ≠ [] := by
      intro hnil
      rw [hnil] at hprefix
      exact hpath (List.prefix_nil.mp hprefix)
    obtain ⟨filter', j, hj, hkept, hbelow⟩ := hspares filter i hstored hdropped hne
    exact ⟨filter', j, hj, hkept, hprefix.trans hbelow⟩
  · exact ⟨filter, i, hstored, hdropped, hprefix⟩

end

/-! ### Dispatching -/

section
variable {W : Type} [DecidableEq S] (ch : Mpsc W S PublishMessage)

/-- Whether the channel of the `i`-th sender under a filter is closed. -/
def closedIn (w : W) (root : TrieNode S) (filter : List String) (i : ℕ) : Bool :=
  (root.subscribers filter)[i]?.any (ch.isClosed w)

theorem remaining_closed (w : W) (senders : List S) :
    remaining (fun i => senders[i]?.any (ch.isClosed w)) senders = opened ch w senders := by
  have hplaces : (senders.zipIdx.filter fun e => !senders[e.2]?.any (ch.isClosed w)) =
      senders.zipIdx.filter fun e => !ch.isClosed w e.1 := by
    apply List.filter_congr
    intro e he
    rw [List.mem_zipIdx_iff_getElem?.mp he]
    rfl
  rw [remaining, hplaces, opened, ← List.zipIdx_map_fst 0 senders, List.filter_map]
  simp [Function.comp_def]

theorem closedIn_child {w : W} {node c : TrieNode S} {level : String} (hlevel : level ≠ "#")
    (hc : node.child level = some c) :
    (fun filter => closedIn ch w node (level :: filter)) = closedIn ch w c := by
  funext filter i
  rw [closedIn, closedIn, subscribers, if_neg hlevel, hc]
  rfl

theorem isClosed_matchAndDispatch (message : PublishMessage) (topic : List String)
    {node : TrieNode S} (h : node.Clean) (w : W) :
    ch.isClosed (matchAndDispatch ch message topic node w).2 = ch.isClosed w := by
  rw [(dispatched_matchAndDispatch ch message topic h w).world, ch.isClosed_deliver]

theorem opened_congr {w w' : W} (hw : ch.isClosed w' = ch.isClosed w) (senders : List S) :
    opened ch w' senders = opened ch w senders := by
  simp [opened, hw]

theorem remaining_hash (w : W) (node : TrieNode S) :
    remaining (closedIn ch w node ["#"]) node.hashSubscribers = opened ch w node.hashSubscribers :=
  remaining_closed ch w _

/-- `match_and_dispatch` sweeps the trie, when no channel is closed in the meantime. -/
theorem matchAndDispatch_fst (message : PublishMessage) (topic : List String) {node : TrieNode S}
    (h : node.Clean) {w w' : W} (hw : ch.isClosed w' = ch.isClosed w) :
    (matchAndDispatch ch message topic node w').1 = node.sweep (closedIn ch w node) topic := by
  induction topic generalizing node w' with
  | nil =>
    have hexact : remaining (closedIn ch w node []) node.exactSubscribers =
        opened ch w node.exactSubscribers := remaining_closed ch w _
    rw [matchAndDispatch, sweep, remaining_hash, hexact]
    simp only [retainOpen_eq, opened_deliver, opened_congr ch hw]
  | cons name topic ih =>
    rw [matchAndDispatch, sweep, remaining_hash]
    simp only [retainOpen_eq, opened_congr ch hw]
    have hw' : ch.isClosed (ch.deliver w' (opened ch w node.hashSubscribers) message) =
        ch.isClosed w := by
      rw [ch.isClosed_deliver, hw]
    have hswept {level : String} (hlevel : level ≠ "#") {c : TrieNode S}
        (hc : node.child level = some c) {w'' : W} (hw'' : ch.isClosed w'' = ch.isClosed w) :
        (matchAndDispatch ch message topic c w'').1 =
          c.sweep (fun filter => closedIn ch w node (level :: filter)) topic := by
      rw [closedIn_child ch hlevel hc]
      exact ih (h.child hc) hw''
    have hplus : "+" ≠ "#" := by decide
    rcases hget : Assoc.get? node.exactChildren name with _ | c
    · rcases hp : node.plusChild with _ | p
      · rfl
      · simp only [Option.map_some, hswept hplus hp hw']
    · obtain ⟨plain, -, -⟩ := id h
      have hname := plain _ (Assoc.mem_of_get? hget)
      have hc : node.child name = some c := by rw [child, if_neg hname.1, hget]
      have hw'' := (isClosed_matchAndDispatch ch message topic (h.child hc) _).trans hw'
      rcases hp : node.plusChild with _ | p
      · simp only [Option.map_none, hswept hname.2 hc hw']
      · simp only [Option.map_some, hswept hname.2 hc hw', hswept hplus hp hw'']

end

end TrieNode

/-! ## The nodes of a registry -/

section
variable {S : Type} {root : TrieNode S} {registry : Registry S}

theorem Represents.subscribers_ne_nil_iff (h : Represents root registry) {filter : List String}
    (hfilter : HashLast filter) :
    root.subscribers filter ≠ [] ↔ ∃ pair ∈ registry, levels pair.1 = filter := by
  rw [h.subscribers filter hfilter, Ne, List.map_eq_nil_iff, List.filter_eq_nil_iff]
  simp

/-- A pruned trie has the nodes that the registered filters lead through, and no others. -/
theorem Represents.isSome_nodeAt_iff (h : Represents root registry) (hpruned : root.Pruned)
    {path : List String} (hpath : path ≠ []) :
    (root.nodeAt path).isSome ↔ ∃ pair ∈ registry, path <+: nodePath (levels pair.1) := by
  constructor
  · intro hpresent
    obtain ⟨n, hn⟩ := Option.isSome_iff_exists.mp hpresent
    obtain ⟨filter, i, hstored, hprefix⟩ :=
      (TrieNode.live_iff h.clean hn).mp (hpruned path n hpath hn)
    obtain ⟨pair, hpair, rfl⟩ :=
      (h.subscribers_ne_nil_iff hstored.1).mp hstored.subscribers_ne_nil
    exact ⟨pair, hpair, hprefix⟩
  · rintro ⟨pair, hpair, path', hpath'⟩
    have hne := (h.subscribers_ne_nil_iff (h.hashLast pair hpair)).mpr ⟨pair, hpair, rfl⟩
    obtain ⟨n, hn, -⟩ := TrieNode.nodeAt_of_subscribers hne
    rw [← hpath', TrieNode.nodeAt_append] at hn
    obtain ⟨m, hm, -⟩ := Option.bind_eq_some_iff.mp hn
    exact Option.isSome_iff_exists.mpr ⟨m, hm⟩

end

/-! ## Runs -/

open TrieNode

/-- What happens to the router. -/
inductive RouterEvent (S : Type)
  | op (op : RouterOp S)
  /-- The channel of the `i`-th sender under a filter is closed when the search comes to it if
  `found filter i`. -/
  | dispatch (message : PublishMessage) (found : List String → ℕ → Bool)

section
variable {S : Type}

/-- The router after an event. An operation with an invalid filter leaves it as it is. -/
def TopicRouter.after (self : TopicRouter S) : RouterEvent S → TopicRouter S
  | .op op => (self.apply op : Except (ClientError Unit) (TopicRouter S)).toOption.getD self
  | .dispatch message found => ⟨self.root.sweep found (levels message.topic)⟩

/-- The router after a list of events. -/
def TopicRouter.reached (events : List (RouterEvent S)) : TopicRouter S :=
  events.foldl TopicRouter.after .new

/-- The filter of the operation is valid. -/
def RouterOp.Valid (op : RouterOp S) : Prop :=
  (validateTopicFilter op.filter : Except (ClientError Unit) Unit) = .ok ()

/-- A removal leaves no sender under its filter, and a search no sender that it has found closed. -/
def TopicRouter.Drops (self : TopicRouter S) : RouterEvent S → Prop
  | .op (.insert _ _) => True
  | .op (.remove filter) =>
    RouterOp.Valid (.remove filter : RouterOp S) →
      (self.after (.op (.remove filter))).root.subscribers (levels filter) = []
  | .dispatch message found =>
    ∀ filter, HashLast filter → levelsMatch filter (levels message.topic) →
      (self.after (.dispatch message found)).root.subscribers filter =
        remaining (found filter) (self.root.subscribers filter)

/-- The event is an insertion. -/
def RouterEvent.Inserts : RouterEvent S → Prop
  | .op (.insert _ _) => True
  | _ => False

/-- After each removal and each search in a run the senders are dropped that have to be, and the
trie is pruned. -/
def StaysPruned (events : List (RouterEvent S)) : Prop :=
  ∀ done event rest, events = done ++ event :: rest → ¬ event.Inserts →
    (TopicRouter.reached done).Drops event ∧ ((TopicRouter.reached done).after event).root.Pruned

/-- The searches of a run spare the branches in which they drop a sender. -/
def Sparing (events : List (RouterEvent S)) : Prop :=
  ∀ done message found rest, events = done ++ .dispatch message found :: rest →
    Spares found (levels message.topic) (TopicRouter.reached done).root

/-! ### Steps -/

variable {self : TopicRouter S}

/-- What an operation with a valid filter does to the trie. -/
def RouterOp.edit (root : TrieNode S) : RouterOp S → TrieNode S
  | .insert filter sender => root.insert sender (levels filter)
  | .remove filter => (root.removeRecursive (levels filter)).1

theorem apply_eq (op : RouterOp S) :
    (self.apply op : Except (ClientError Unit) (TopicRouter S)) =
      (validateTopicFilter op.filter >>= fun _ => pure ⟨op.edit self.root⟩) := by
  cases op <;> rfl

/-- An operation edits the trie or leaves it as it is. -/
theorem root_after_op (self : TopicRouter S) (op : RouterOp S) :
    op.Valid ∧ (self.after (.op op)).root = op.edit self.root ∨
      ¬ op.Valid ∧ (self.after (.op op)).root = self.root := by
  rw [TopicRouter.after, apply_eq]
  rcases hvalid : (validateTopicFilter op.filter : Except (ClientError Unit) Unit) with e | _
  · refine .inr ⟨?_, rfl⟩
    rw [RouterOp.Valid, hvalid]
    simp
  · exact .inl ⟨hvalid, rfl⟩

/-- Every event drops the senders that it has to. -/
theorem drops (event : RouterEvent S) : self.Drops event := by
  rcases event with (⟨filter, sender⟩ | filter) | ⟨message, found⟩
  · trivial
  · intro hvalid
    have hlast : HashLast (levels filter) := hashLast_of_valid hvalid
    rcases root_after_op self (.remove filter) with ⟨-, hroot⟩ | ⟨hnot, -⟩
    · rw [hroot]
      exact (subscribers_remove hlast hlast _).trans (if_pos rfl)
    · exact absurd hvalid hnot
  · intro filter hlast hmatch
    exact (subscribers_sweep found hlast _ _).trans (if_pos hmatch)

theorem clean_after (h : self.root.Clean) (event : RouterEvent S) :
    (self.after event).root.Clean := by
  rcases event with op | ⟨message, found⟩
  · rcases root_after_op self op with ⟨-, hroot⟩ | ⟨-, hroot⟩
    · rw [hroot]
      cases op with
      | insert filter sender => exact clean_insert h sender _
      | remove filter => exact clean_remove h _
    · rw [hroot]
      exact h
  · exact clean_sweep found h _

/-- An event keeps the trie pruned, if it is no search that does not spare a branch. -/
theorem pruned_after (hclean : self.root.Clean) (h : self.root.Pruned) (event : RouterEvent S)
    (hspares : ∀ message found, event = .dispatch message found →
      Spares found (levels message.topic) self.root) : (self.after event).root.Pruned := by
  rcases event with op | ⟨message, found⟩
  · rcases root_after_op self op with ⟨-, hroot⟩ | ⟨-, hroot⟩
    · rw [hroot]
      cases op with
      | insert filter sender => exact pruned_insert h sender _
      | remove filter => exact pruned_remove h hclean _
    · rw [hroot]
      exact h
  · exact pruned_sweep found hclean h (hspares message found rfl)

/-- A dispatch is a search, if no channel is closed in the meantime. -/
theorem dispatch_fst {W : Type} [DecidableEq S] (ch : Mpsc W S PublishMessage)
    (h : self.root.Clean) (message : PublishMessage) (w : W) :
    (self.dispatch ch message w).1 = self.after (.dispatch message (closedIn ch w self.root)) :=
  congrArg TopicRouter.mk (matchAndDispatch_fst ch message (levels message.topic) h rfl)

/-! ### Whole runs -/

theorem reached_concat (events : List (RouterEvent S)) (event : RouterEvent S) :
    TopicRouter.reached (events ++ [event]) = (TopicRouter.reached events).after event :=
  List.foldl_append

theorem clean_reached (events : List (RouterEvent S)) :
    (TopicRouter.reached events).root.Clean := by
  induction events using List.reverseRecOn with
  | nil => exact clean_empty
  | append_singleton events event ih =>
    rw [reached_concat]
    exact clean_after ih event

theorem Sparing.of_append {events rest : List (RouterEvent S)} (h : Sparing (events ++ rest)) :
    Sparing events := by
  rintro done message found rest' rfl
  exact h done message found (rest' ++ rest) (by simp)

theorem pruned_reached {events : List (RouterEvent S)} (h : Sparing events) :
    (TopicRouter.reached events).root.Pruned := by
  induction events using List.reverseRecOn with
  | nil => exact pruned_empty
  | append_singleton events event ih =>
    rw [reached_concat]
    apply pruned_after (clean_reached events) (ih h.of_append)
    rintro message found rfl
    exact h events message found [] rfl

/-- In a run the trie is pruned after every removal and every search, and the senders are dropped
that have to be, if and only if every search spares the branches in which it drops a sender. A
`dispatch` during which no channel is closed is one of these searches. -/
theorem staysPruned_iff {W : Type} [DecidableEq S] (ch : Mpsc W S PublishMessage)
    (events : List (RouterEvent S)) :
    (StaysPruned events ↔ Sparing events) ∧
      ∀ message w, ((TopicRouter.reached events).dispatch ch message w).1 =
        (TopicRouter.reached events).after
          (.dispatch message (closedIn ch w (TopicRouter.reached events).root)) := by
  refine ⟨⟨?_, ?_⟩, ?_⟩
  · intro h done message found rest hevents
    exact spares_of_pruned found (clean_reached done) (h done _ rest hevents id).2
  · intro h done event rest hevents _
    refine ⟨drops event, ?_⟩
    have hrun : Sparing ((done ++ [event]) ++ rest) := by simpa [← hevents] using h
    rw [← reached_concat]
    exact pruned_reached hrun.of_append
  · intro message w
    exact dispatch_fst ch (clean_reached events) message w

end

/-! ### A branch without senders -/

/-- The only sender is dropped. -/
theorem not_spares_single {found : List String → ℕ → Bool} (h : found ["a"] 0) :
    ¬ Spares found ["a"] (({} : TrieNode ℕ).insert 0 ["a"]) := by
  have hlast : HashLast ["a"] := by simp [HashLast]
  intro hspares
  obtain ⟨filter, j, ⟨hfilter, hj⟩, hkept, -⟩ := hspares ["a"] 0
    ⟨hlast, by simp [subscribers_insert hlast hlast]⟩ ⟨by decide, h⟩ (by decide)
  rw [subscribers_insert hlast hfilter] at hj
  by_cases hsame : filter = ["a"]
  · simp only [hsame, subscribers_empty, if_true, List.nil_append, List.length_singleton,
      Nat.lt_one_iff] at hj
    exact hkept ⟨by rw [hsame]; decide, by rw [hsame, hj]; exact h⟩
  · simp [hsame] at hj

/-- A sender is registered. -/
def registering : List (RouterEvent ℕ) := [.op (.insert "a" 0)]

theorem root_registering :
    (TopicRouter.reached registering).root = ({} : TrieNode ℕ).insert 0 ["a"] := by
  have hlevels : levels "a" = ["a"] := by decide +kernel
  have hvalid : (RouterOp.insert "a" 0 : RouterOp ℕ).Valid := by
    rw [RouterOp.Valid]
    decide +kernel
  rcases root_after_op .new (.insert "a" (0 : ℕ)) with ⟨-, hroot⟩ | ⟨hnot, -⟩
  · rw [← hlevels]
    exact hroot
  · exact absurd hvalid hnot

/-- A message comes when the only receiver is gone. -/
theorem not_pruned_registering {found : List String → ℕ → Bool} (h : found ["a"] 0) :
    ¬ ((TopicRouter.reached registering).after (.dispatch (.new "a" []) found)).root.Pruned := by
  have hlevels : levels "a" = ["a"] := by decide +kernel
  intro hpruned
  have hspares : Spares found (levels "a") (TopicRouter.reached registering).root :=
    spares_of_pruned found (clean_reached _) hpruned
  rw [hlevels, root_registering] at hspares
  exact not_spares_single h hspares

/-- The node of the filter stays, in a search that finds the channel closed and in a dispatch on a
channel that is. -/
theorem not_staysPruned_registering :
    ¬ StaysPruned (registering ++ [.dispatch (.new "a" []) fun _ _ => true]) ∧
      ¬ ((TopicRouter.reached registering).dispatch (.queues ℕ PublishMessage) (.new "a" [])
        fun _ => ⟨true, [], 128⟩).1.root.Pruned := by
  constructor
  · intro h
    exact not_pruned_registering rfl (h registering _ [] rfl id).2
  · rw [dispatch_fst _ (clean_reached _)]
    apply not_pruned_registering
    rw [root_registering]
    rfl

end MqttEngine.Tokio
