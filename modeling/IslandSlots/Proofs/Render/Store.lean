import IslandSlots.Render.Tree
import Mathlib.Data.List.Basic
import Mathlib.Data.List.Count

/-!
# The store of a tree

A node of a tree is kept twice: by its link to its parent, and in the list of its parent's children.
The two agree after every run of calls that make nodes or put text, on whichever nodes they are
called and whether or not they are refused. A call either makes one node, with both entries for it,
or gives one text another content; done in place, a call that is refused writes nothing.
-/

namespace IslandSlots

namespace Kind

/-- Whether a kind is that of a component. -/
def isComponent : Kind → Bool
  | .component .. => true
  | _ => false

/-- Whether nothing can be placed under a kind. -/
def isLeaf : Kind → Bool
  | .text .. | .comment .. | .invalid => true
  | _ => false

variable {kind child : Kind}

theorem ne_root_of_accepts (accepted : kind.accepts child) : child ≠ .root := by
  rintro rfl
  cases kind <;> cases accepted

theorem isSlot_eq_of_accepts (accepted : kind.accepts child) : child.isSlot = kind.isComponent := by
  cases kind <;> cases child <;> first | rfl | cases accepted

theorem isLeaf_eq_of_accepts (accepted : kind.accepts child) : kind.isLeaf = false := by
  cases kind <;> cases child <;> first | rfl | cases accepted

theorem accepts_text (no_component : kind.isComponent = false) (no_leaf : kind.isLeaf = false)
    (content : String) : kind.accepts (.text content) := by
  cases kind with
  | component => cases no_component
  | text | comment | invalid => cases no_leaf
  | _ => rfl

end Kind

namespace Tree

variable {tree next : Tree} {node above : Nat} {kind : Kind}

/-! ## Places without a node -/

theorem kind_of_le (outside : tree.size ≤ node) : tree.kind node = .invalid := by
  rw [kind, Array.getElem?_eq_none outside]
  rfl

theorem parent_of_le (outside : tree.size ≤ node) : tree.parent node = none := by
  rw [parent, Array.getElem?_eq_none outside]
  rfl

theorem lt_size_of_parent (link : tree.parent node = some above) : node < tree.size := by
  by_contra outside
  rw [parent_of_le (Nat.le_of_not_lt outside)] at link
  cases link

theorem children_of_le (outside : tree.size ≤ node) : tree.children node = [] := by
  rw [children, Array.getElem?_eq_none outside]
  rfl

theorem lt_size_of_kind (known : tree.kind node ≠ .invalid) : node < tree.size := by
  by_contra outside
  exact known (kind_of_le (Nat.le_of_not_lt outside))

theorem lt_size_of_accepts (accepted : (tree.kind node).accepts kind) : node < tree.size := by
  apply lt_size_of_kind
  intro missing
  rw [missing] at accepted
  cases kind <;> cases accepted

theorem exists_entry (inside : node < tree.size) : ∃ entry, tree.entries[node]? = some entry :=
  ⟨tree.entries[node], Array.getElem?_eq_getElem inside⟩

theorem lastChild?_eq (tree : Tree) (node : Nat) :
    tree.lastChild? node = (tree.children node).getLast? := by
  rw [lastChild?, children]
  cases tree.entries[node]? with
  | none => rfl
  | some entry => simp

/-! ## What a call does -/

/-- One more node, the last one under an old node. -/
structure Grown (tree next : Tree) (above : Nat) (kind : Kind) : Prop where
  /-- The old node can hold the new one. -/
  accepts : (tree.kind above).accepts kind
  /-- There is one more node. -/
  size : next.size = tree.size + 1
  /-- Only the new node gets a kind. -/
  kind_eq : ∀ node, next.kind node = if node = tree.size then kind else tree.kind node
  /-- Only the new node gets a parent. -/
  parent_eq : ∀ node, next.parent node = if node = tree.size then some above else tree.parent node
  /-- Only the old node gets a child. -/
  children_eq : ∀ node, next.children node =
    tree.children node ++ if node = above then [tree.size] else []

namespace Grown

variable (grown : tree.Grown next above kind)

include grown

theorem inside : above < tree.size :=
  lt_size_of_accepts grown.accepts

theorem kind_new : next.kind tree.size = kind := by
  rw [grown.kind_eq, if_pos rfl]

theorem kind_old (old : node < tree.size) : next.kind node = tree.kind node := by
  rw [grown.kind_eq, if_neg (Nat.ne_of_lt old)]

theorem parent_new : next.parent tree.size = some above := by
  rw [grown.parent_eq, if_pos rfl]

theorem parent_old (old : node < tree.size) : next.parent node = tree.parent node := by
  rw [grown.parent_eq, if_neg (Nat.ne_of_lt old)]

end Grown

/-- One text says something else. -/
structure Reworded (tree next : Tree) (place : Nat) (found content : String) : Prop where
  /-- What the text said. -/
  kind_place : tree.kind place = .text found
  /-- The nodes are the same. -/
  size : next.size = tree.size
  /-- Only the text gets another kind. -/
  kind_eq : ∀ node, next.kind node = if node = place then .text content else tree.kind node
  /-- Parents stay. -/
  parent_eq : ∀ node, next.parent node = tree.parent node
  /-- Children stay. -/
  children_eq : ∀ node, next.children node = tree.children node

/-- What tells no text from another does not tell whether a text was changed. -/
theorem Reworded.test_eq {found content : String} (reworded : tree.Reworded next node found content)
    {β : Type} (test : Kind → β) (same : test (.text content) = test (.text found)) (place : Nat) :
    test (next.kind place) = test (tree.kind place) := by
  rw [reworded.kind_eq]
  split
  next here => rw [here, reworded.kind_place, same]
  next => rfl

/-- The entries once a node is made. -/
theorem getElem?_made (place : Nat) :
    ((tree.entries.modify above fun entry =>
        { entry with children := entry.children.push tree.size }).push
      ⟨kind, some above, #[]⟩)[place]? =
      if place = tree.size then some ⟨kind, some above, #[]⟩
      else tree.entries[place]?.map fun entry =>
        if place = above then { entry with children := entry.children.push tree.size }
        else entry := by
  rw [Array.getElem?_push, Array.size_modify, size]
  split
  · rfl
  · rw [Array.getElem?_modify]
    by_cases here : place = above
    · simp [here]
    · simp [here, Ne.symm here]

/-- A node is refused exactly where it cannot be placed. -/
theorem append_eq_error {refusal : InvalidChild} :
    tree.append above kind = .error refusal ↔
      ¬(tree.kind above).accepts kind ∧ refusal = ⟨tree.kind above, kind⟩ := by
  by_cases accepted : (tree.kind above).accepts kind <;> simp [append, accepted, eq_comm]

/-- A node that is made is one more node, the last one under its parent. -/
theorem append_eq_ok (made : tree.append above kind = .ok (node, next)) :
    node = tree.size ∧ tree.Grown next above kind := by
  rw [append] at made
  split at made
  next accepted =>
    cases made
    have inside := lt_size_of_accepts accepted
    refine ⟨rfl, accepted, by simp [size], fun place => ?_, fun place => ?_, fun place => ?_⟩
    · rw [Tree.kind, getElem?_made, Tree.kind]
      cases tree.entries[place]? <;> split_ifs <;> rfl
    · rw [Tree.parent, getElem?_made, Tree.parent]
      cases tree.entries[place]? <;> split_ifs <;> rfl
    · rw [Tree.children, getElem?_made]
      by_cases fresh : place = tree.size
      · rw [if_pos fresh, children_of_le (Nat.le_of_eq fresh.symm), if_neg (by omega)]
        rfl
      · rw [if_neg fresh, Tree.children]
        by_cases here : place = above
        · subst here
          obtain ⟨entry, found⟩ := exists_entry inside
          simp [found]
        · simp [here]
  next => cases made

/-- Text is put into the last child where that is a text, and into a new node elsewhere. -/
theorem appendText_eq_ok {text : String} (made : tree.appendText above text = .ok (node, next)) :
    (∃ content, (tree.children above).getLast? = some node ∧
        tree.Reworded next node content (content ++ text)) ∨
      node = tree.size ∧ tree.Grown next above (.text text) := by
  rw [appendText] at made
  split at made
  next last last_eq =>
    split at made
    next content is_text =>
      cases made
      rw [lastChild?_eq] at last_eq
      refine .inl ⟨content, last_eq, is_text, by simp [size], fun place => ?_, fun place => ?_,
        fun place => ?_⟩
      · rw [Tree.kind, Array.getElem?_modify, Tree.kind]
        obtain rfl | other := eq_or_ne place node
        · have inside : place < tree.size := lt_size_of_kind (by simp [is_text])
          obtain ⟨entry, found⟩ := exists_entry inside
          simp [found]
        · rw [if_neg other.symm, if_neg other]
      · rw [Tree.parent, Array.getElem?_modify, Tree.parent]
        cases tree.entries[place]? <;> split_ifs <;> rfl
      · rw [Tree.children, Array.getElem?_modify, Tree.children]
        cases tree.entries[place]? <;> split_ifs <;> rfl
    next => exact .inr (append_eq_ok made)
  next => exact .inr (append_eq_ok made)

/-! ## What nodes say -/

/-- The content of the texts among nodes, joined. -/
def texts (tree : Tree) (nodes : List Nat) : String :=
  String.join <| nodes.filterMap fun node =>
    match tree.kind node with
    | .text content => some content
    | _ => none

theorem text_eq_texts (tree : Tree) (node : Nat) :
    tree.text node = tree.texts (tree.children node) := rfl

theorem texts_append (tree : Tree) (front back : List Nat) :
    tree.texts (front ++ back) = tree.texts front ++ tree.texts back := by
  rw [texts, List.filterMap_append, String.join_append]
  rfl

theorem texts_singleton {content : String} (is_text : tree.kind node = .text content) :
    tree.texts [node] = content := by
  simp [texts, is_text, String.join]

theorem texts_congr {nodes : List Nat} (same : ∀ node ∈ nodes, next.kind node = tree.kind node) :
    next.texts nodes = tree.texts nodes := by
  rw [texts, texts]
  congr 1
  apply List.filterMap_congr
  intro node member
  rw [same node member]

/-! ## Calls on a store that is changed in place -/

/-- Work that changes a tree in place, until a child is refused. -/
abbrev Work := EStateM InvalidChild Tree

/-- Makes a node as the last child of `parent`: first the node, then the link to it. -/
def appendWork (parent : Nat) (kind : Kind) : Work Nat := do
  let tree ← get
  if (tree.kind parent).accepts kind then
    modify fun tree => ⟨tree.entries.push ⟨kind, some parent, #[]⟩⟩
    modify fun linked => ⟨linked.entries.modify parent fun entry =>
      { entry with children := entry.children.push tree.size }⟩
    return tree.size
  else throw ⟨tree.kind parent, kind⟩

/-- Puts text at the end of `parent`: into its last child if that is a text, else in a new one. -/
def appendTextWork (parent : Nat) (text : String) : Work Nat := do
  let tree ← get
  match tree.lastChild? parent with
  | some last =>
    match tree.kind last with
    | .text content =>
      modify fun tree => ⟨tree.entries.modify last fun entry =>
        { entry with kind := .text (content ++ text) }⟩
      return last
    | _ => appendWork parent (.text text)
  | none => appendWork parent (.text text)

/-- What is left of a tree after work that was to make another. -/
def settle (tree : Tree) : Except InvalidChild (Nat × Tree) → EStateM.Result InvalidChild Tree Nat
  | .ok (node, next) => .ok node next
  | .error refusal => .error refusal tree

/-- An item is changed whether or not there is another one behind all of them. -/
theorem modify_push {α : Type} {items : Array α} {place : Nat} (inside : place < items.size)
    (change : α → α) (last : α) :
    (items.push last).modify place change = (items.modify place change).push last := by
  apply Array.ext_getElem?
  intro here
  rw [Array.getElem?_modify, Array.getElem?_push, Array.getElem?_push, Array.getElem?_modify,
    Array.size_modify]
  by_cases behind : here = items.size
  · have other : place ≠ here := behind ▸ Nat.ne_of_lt inside
    rw [if_pos behind, if_neg other, if_pos behind]
  · rw [if_neg behind, if_neg behind]

theorem run_appendWork (tree : Tree) (parent : Nat) (kind : Kind) :
    (appendWork parent kind).run tree = tree.settle (tree.append parent kind) := by
  by_cases accepted : (tree.kind parent).accepts kind
  · rw [append, if_pos accepted, settle, ← modify_push (lt_size_of_accepts accepted)]
    exact congrFun (if_pos accepted) tree
  · rw [append, if_neg accepted]
    exact congrFun (if_neg accepted) tree

theorem run_appendTextWork (tree : Tree) (parent : Nat) (text : String) :
    (appendTextWork parent text).run tree = tree.settle (tree.appendText parent text) := by
  have fresh := run_appendWork tree parent (.text text)
  cases last_eq : tree.lastChild? parent with
  | none => simpa [appendTextWork, appendText, last_eq] using fresh
  | some last =>
      cases kind_eq : tree.kind last with
      | text content =>
          simp only [appendTextWork, EStateM.run_bind, EStateM.run_get, appendText, last_eq,
            kind_eq, settle]
          rfl
      | _ => simpa [appendTextWork, appendText, last_eq, kind_eq] using fresh

/-- A call on a tree. -/
inductive Call where
  /-- Makes a node as the last child of `parent`. -/
  | append (parent : Nat) (kind : Kind)
  /-- Puts text at the end of `parent`. -/
  | appendText (parent : Nat) (text : String)
  deriving DecidableEq, Repr

namespace Call

/-- The node that a call is about. -/
def parent : Call → Nat
  | .append parent _ => parent
  | .appendText parent _ => parent

/-- What a call offers to that node. -/
def child : Call → Kind
  | .append _ kind => kind
  | .appendText _ text => .text text

/-- The node that a call makes or extends, with the tree that is made. -/
def outcome (tree : Tree) : Call → Except InvalidChild (Nat × Tree)
  | .append parent kind => tree.append parent kind
  | .appendText parent text => tree.appendText parent text

/-- A call done in place. -/
def work : Call → Work Nat
  | .append parent kind => appendWork parent kind
  | .appendText parent text => appendTextWork parent text

/-- The tree after a call, also one that is refused. -/
def after (tree : Tree) (call : Call) : Tree :=
  match call.work.run tree with
  | .ok _ next => next
  | .error _ next => next

theorem run_work (tree : Tree) (call : Call) :
    call.work.run tree = tree.settle (call.outcome tree) := by
  cases call with
  | append parent kind => exact run_appendWork tree parent kind
  | appendText parent text => exact run_appendTextWork tree parent text

/-- A call makes a tree, or it is refused and changes nothing. -/
theorem after_eq (tree : Tree) (call : Call) :
    (∃ node, call.outcome tree = .ok (node, call.after tree)) ∨
      (∃ refusal, call.outcome tree = .error refusal) ∧ call.after tree = tree := by
  rw [after, run_work]
  cases outcome_eq : call.outcome tree with
  | ok made => exact .inl ⟨made.1, rfl⟩
  | error refusal => exact .inr ⟨⟨refusal, rfl⟩, rfl⟩

end Call

/-- The tree after calls on a tree with nothing in it, refused ones included. -/
def ofCalls (calls : List Call) : Tree :=
  calls.foldl Call.after empty

/-! ## What every tree keeps -/

/-- The links and the lists of a store agree, and every node is where its kind may be. -/
structure WellFormed (tree : Tree) : Prop where
  /-- The first node is the root. -/
  kind_root : tree.kind root = .root
  /-- No other node is the root. -/
  root_of_kind : ∀ node, tree.kind node = .root → node = root
  /-- The root has no parent. -/
  parent_root : tree.parent root = none
  /-- Every other node has a parent, which was made before it. -/
  parent_lt : ∀ node, root < node → node < tree.size → ∃ above < node, tree.parent node = some above
  /-- A node is listed once under its parent, and under no other node. -/
  count_children : ∀ above node,
    (tree.children above).count node = if tree.parent node = some above then 1 else 0
  /-- Children are listed in the order in which they were made. -/
  ascending : ∀ node, (tree.children node).Pairwise (· < ·)
  /-- A slot is under a component. -/
  under_component : ∀ node, (tree.kind node).isSlot →
    ∃ above, tree.parent node = some above ∧ (tree.kind above).isComponent
  /-- A component holds slots. -/
  holds_slots : ∀ node, (tree.kind node).isComponent →
    ∀ child ∈ tree.children node, (tree.kind child).isSlot
  /-- Texts, comments and invalid nodes hold nothing. -/
  leaves : ∀ node, (tree.kind node).isLeaf → tree.children node = []

theorem wellFormed_empty : empty.WellFormed where
  kind_root := rfl
  root_of_kind node is_root := by
    cases node with
    | zero => rfl
    | succ node => cases is_root
  parent_root := rfl
  parent_lt node later inside := absurd (Nat.lt_of_lt_of_le inside later) (Nat.lt_irrefl node)
  count_children above node := by
    cases node <;> cases above <;> rfl
  ascending node := by
    cases node <;> exact .nil
  under_component node slot := by
    cases node <;> cases slot
  holds_slots node component := by
    cases node <;> cases component
  leaves node _ := by
    cases node <;> rfl

namespace WellFormed

variable (formed : tree.WellFormed)

include formed

/-- The root is in the store. -/
theorem size_pos : root < tree.size :=
  lt_size_of_kind (by simp [formed.kind_root])

theorem mem_children {child : Nat} :
    child ∈ tree.children above ↔ tree.parent child = some above := by
  rw [← List.one_le_count_iff, formed.count_children]
  split <;> simp [*]

theorem lt_of_parent {child : Nat} (link : tree.parent child = some above) : above < child := by
  have later : root < child := by
    apply Nat.pos_of_ne_zero
    rintro rfl
    exact absurd (link.symm.trans formed.parent_root) (Option.some_ne_none above)
  obtain ⟨found, earlier, found_eq⟩ := formed.parent_lt child later (lt_size_of_parent link)
  cases link.symm.trans found_eq
  exact earlier

theorem child_lt_size {child : Nat} (listed : child ∈ tree.children above) : child < tree.size :=
  lt_size_of_parent (formed.mem_children.mp listed)

/-- One more node keeps a store well formed. -/
theorem grown (grown : tree.Grown next above kind) : next.WellFormed where
  kind_root := by rw [grown.kind_old formed.size_pos, formed.kind_root]
  root_of_kind place is_root := by
    rw [grown.kind_eq] at is_root
    split at is_root
    · exact absurd is_root (Kind.ne_root_of_accepts grown.accepts)
    · exact formed.root_of_kind place is_root
  parent_root := by rw [grown.parent_old formed.size_pos, formed.parent_root]
  parent_lt place later place_lt := by
    rw [grown.size] at place_lt
    obtain old | rfl := Nat.lt_succ_iff_lt_or_eq.mp place_lt
    · rw [grown.parent_old old]
      exact formed.parent_lt place later old
    · exact ⟨above, grown.inside, grown.parent_new⟩
  count_children upper place := by
    rw [grown.children_eq, List.count_append, formed.count_children]
    obtain rfl | other := eq_or_ne place tree.size
    -- Nothing lists the new node but the list that it is put into.
    · rw [parent_of_le (Nat.le_refl tree.size), grown.parent_new]
      by_cases here : upper = above
      · simp [here]
      · simp [here, Ne.symm here]
    · rw [grown.parent_eq, if_neg other]
      by_cases here : upper = above <;> simp [here, Ne.symm other]
  ascending place := by
    rw [grown.children_eq]
    refine List.pairwise_append.mpr ⟨formed.ascending place, ?_, ?_⟩
    · split
      · exact List.pairwise_singleton _ _
      · exact .nil
    · intro first first_mem second second_mem
      split at second_mem
      · rw [List.mem_singleton.mp second_mem]
        exact formed.child_lt_size first_mem
      · cases second_mem
  under_component place slot := by
    rw [grown.kind_eq] at slot
    split at slot
    next fresh =>
      refine ⟨above, fresh ▸ grown.parent_new, ?_⟩
      rw [grown.kind_old grown.inside, ← Kind.isSlot_eq_of_accepts grown.accepts, slot]
    next =>
      obtain ⟨upper, link, component⟩ := formed.under_component place slot
      have old := lt_size_of_parent link
      refine ⟨upper, by rw [grown.parent_old old, link], ?_⟩
      rwa [grown.kind_old (Nat.lt_trans (formed.lt_of_parent link) old)]
  holds_slots place component child listed := by
    rw [grown.children_eq, List.mem_append] at listed
    obtain old | fresh := listed
    · have child_lt := formed.child_lt_size old
      have place_lt := Nat.lt_trans (formed.lt_of_parent (formed.mem_children.mp old)) child_lt
      rw [grown.kind_old place_lt] at component
      rw [grown.kind_old child_lt]
      exact formed.holds_slots place component child old
    · split at fresh
      next here =>
        rw [here, grown.kind_old grown.inside] at component
        rw [List.mem_singleton.mp fresh, grown.kind_new, Kind.isSlot_eq_of_accepts grown.accepts,
          component]
      next => cases fresh
  leaves place leaf := by
    rw [grown.children_eq]
    split
    next here =>
      rw [here, grown.kind_old grown.inside, Kind.isLeaf_eq_of_accepts grown.accepts] at leaf
      cases leaf
    next =>
      rw [List.append_nil]
      rw [grown.kind_eq] at leaf
      split at leaf
      next fresh => exact children_of_le (Nat.le_of_eq fresh.symm)
      next => exact formed.leaves place leaf

/-- A text that says something else keeps a store well formed. -/
theorem reworded {found content : String} (reworded : tree.Reworded next node found content) :
    next.WellFormed where
  kind_root := by
    have same := reworded.test_eq (fun kind => decide (kind = .root)) rfl root
    simpa [formed.kind_root] using same
  root_of_kind place is_root := by
    have same := reworded.test_eq (fun kind => decide (kind = .root)) rfl place
    exact formed.root_of_kind place (by simpa [is_root] using same)
  parent_root := by rw [reworded.parent_eq, formed.parent_root]
  parent_lt place later place_lt := by
    rw [reworded.parent_eq]
    exact formed.parent_lt place later (reworded.size ▸ place_lt)
  count_children upper place := by
    rw [reworded.children_eq, reworded.parent_eq, formed.count_children]
  ascending place := by
    rw [reworded.children_eq]
    exact formed.ascending place
  under_component place slot := by
    rw [reworded.test_eq Kind.isSlot rfl] at slot
    obtain ⟨upper, link, component⟩ := formed.under_component place slot
    rw [reworded.parent_eq]
    exact ⟨upper, link, by rwa [reworded.test_eq Kind.isComponent rfl]⟩
  holds_slots place component child listed := by
    rw [reworded.test_eq Kind.isComponent rfl] at component
    rw [reworded.children_eq] at listed
    rw [reworded.test_eq Kind.isSlot rfl]
    exact formed.holds_slots place component child listed
  leaves place leaf := by
    rw [reworded.test_eq Kind.isLeaf rfl] at leaf
    rw [reworded.children_eq, formed.leaves place leaf]

/-- A call keeps a store well formed. -/
theorem after (call : Call) : (call.after tree).WellFormed := by
  obtain ⟨node, made⟩ | ⟨-, same⟩ := call.after_eq tree
  · cases call with
    | append parent kind => exact formed.grown (append_eq_ok made).2
    | appendText parent text =>
        obtain ⟨content, -, changed⟩ | ⟨-, grown⟩ := appendText_eq_ok made
        · exact formed.reworded changed
        · exact formed.grown grown
  · rwa [same]

/-- Text is refused exactly where a text cannot be placed, also where it would join another. -/
theorem appendText_eq_error {text : String} {refusal : InvalidChild} :
    tree.appendText above text = .error refusal ↔
      ¬(tree.kind above).accepts (.text text) ∧ refusal = ⟨tree.kind above, .text text⟩ := by
  rw [appendText]
  split
  next last last_eq =>
    split
    next content is_text =>
      -- The acceptance is not looked at here: a node that has a text under it takes another one.
      rw [lastChild?_eq] at last_eq
      have listed := List.mem_of_getLast? last_eq
      have no_component : (tree.kind above).isComponent = false := by
        by_contra component
        have slot := formed.holds_slots above (by simpa using component) last listed
        rw [is_text] at slot
        cases slot
      have no_leaf : (tree.kind above).isLeaf = false := by
        by_contra leaf
        rw [formed.leaves above (by simpa using leaf)] at listed
        cases listed
      simp [Kind.accepts_text no_component no_leaf text]
    next => exact append_eq_error
  next => exact append_eq_error

/-- A call is refused exactly where what it offers cannot be placed. -/
theorem outcome_eq_error {call : Call} {refusal : InvalidChild} :
    call.outcome tree = .error refusal ↔
      ¬(tree.kind call.parent).accepts call.child ∧
        refusal = ⟨tree.kind call.parent, call.child⟩ := by
  cases call with
  | append parent kind => exact append_eq_error
  | appendText parent text => exact formed.appendText_eq_error

/-- What a node says grows by the text that is put at its end. -/
theorem text_appendText {text : String} (made : tree.appendText above text = .ok (node, next)) :
    next.text above = tree.text above ++ text := by
  obtain ⟨content, last_eq, changed⟩ | ⟨-, grown⟩ := appendText_eq_ok made
  · obtain ⟨front, children_eq⟩ := List.getLast?_eq_some_iff.mp last_eq
    have others : ∀ child ∈ front, next.kind child = tree.kind child := by
      intro child member
      have ascending := formed.ascending above
      rw [children_eq] at ascending
      have before := (List.pairwise_append.mp ascending).2.2 child member node List.mem_cons_self
      rw [changed.kind_eq, if_neg (Nat.ne_of_lt before)]
    have now : next.kind node = .text (content ++ text) := by rw [changed.kind_eq, if_pos rfl]
    rw [text_eq_texts, text_eq_texts, changed.children_eq, children_eq, texts_append, texts_append,
      texts_congr others, texts_singleton now, texts_singleton changed.kind_place,
      String.append_assoc]
  · have others : ∀ child ∈ tree.children above, next.kind child = tree.kind child :=
      fun child member => grown.kind_old (formed.child_lt_size member)
    rw [text_eq_texts, text_eq_texts, grown.children_eq, if_pos rfl, texts_append,
      texts_congr others, texts_singleton grown.kind_new]

end WellFormed

theorem wellFormed_foldl {calls : List Call} (formed : tree.WellFormed) :
    (calls.foldl Call.after tree).WellFormed := by
  induction calls generalizing tree with
  | nil => exact formed
  | cons call calls induction => exact induction (formed.after call)

/-- After any calls, the links and the lists of the store agree and every node is where its kind may
be. A further call is refused exactly where what it offers cannot be placed, and then changes
nothing. Else it makes one new last child, or, where text comes behind a text, gives the last child
a longer content, and what a node says grows by the text that is put into it. -/
theorem wellFormed_ofCalls (calls : List Call) :
    (ofCalls calls).WellFormed ∧
      (∀ (call : Call) (refusal : InvalidChild),
        (call.outcome (ofCalls calls) = .error refusal ↔
          ¬((ofCalls calls).kind call.parent).accepts call.child ∧
            refusal = ⟨(ofCalls calls).kind call.parent, call.child⟩) ∧
        (call.outcome (ofCalls calls) = .error refusal →
          call.work.run (ofCalls calls) = .error refusal (ofCalls calls))) ∧
      (∀ parent kind node next, (ofCalls calls).append parent kind = .ok (node, next) →
        node = (ofCalls calls).size ∧ (ofCalls calls).Grown next parent kind) ∧
      ∀ parent text node next, (ofCalls calls).appendText parent text = .ok (node, next) →
        ((∃ content, ((ofCalls calls).children parent).getLast? = some node ∧
            (ofCalls calls).Reworded next node content (content ++ text)) ∨
          node = (ofCalls calls).size ∧ (ofCalls calls).Grown next parent (.text text)) ∧
        next.text parent = (ofCalls calls).text parent ++ text := by
  have formed : (ofCalls calls).WellFormed := wellFormed_foldl wellFormed_empty
  refine ⟨formed, fun call refusal => ⟨formed.outcome_eq_error, fun refused => ?_⟩,
    fun parent kind node next made => append_eq_ok made, fun parent text node next made => ?_⟩
  · rw [Call.run_work, refused]
    rfl
  · exact ⟨appendText_eq_ok made, formed.text_appendText made⟩

/-- Calls that put text under a paragraph twice, and three that are refused. -/
def refusedBetween : List Call :=
  [.append root (.element "p" ""), .appendText 1 "a", .append 2 (.comment .start),
    .append root (.slot "default" none none), .appendText 1 "b",
    .append root (.component "C" "null"), .appendText 3 "c", .append 3 (.slot "default" none none)]

theorem wellFormed_ofCalls_refusedBetween :
    (ofCalls refusedBetween).WellFormed ∧
      (Call.appendText 3 "c").work.run (ofCalls refusedBetween) =
        .error ⟨.component "C" "null", .text "c"⟩ (ofCalls refusedBetween) ∧
      ∃ next, (ofCalls refusedBetween).appendText 1 "d" = .ok (2, next) ∧
        next.text 1 = "ab" ++ "d" := by
  obtain ⟨formed, refused, -, spoken⟩ := wellFormed_ofCalls refusedBetween
  have built : ofCalls refusedBetween =
      ⟨#[⟨.root, none, #[1, 3]⟩, ⟨.element "p" "", some 0, #[2]⟩, ⟨.text "ab", some 1, #[]⟩,
        ⟨.component "C" "null", some 0, #[4]⟩, ⟨.slot "default" none none, some 3, #[]⟩]⟩ := by
    decide +kernel
  refine ⟨formed, (refused _ _).2 (by rw [built]; rfl), ?_⟩
  have made : ∃ next, (ofCalls refusedBetween).appendText 1 "d" = .ok (2, next) := by
    rw [built]
    exact ⟨_, rfl⟩
  obtain ⟨next, made⟩ := made
  have said : (ofCalls refusedBetween).text 1 = "ab" := by
    rw [built]
    decide +kernel
  exact ⟨next, made, said ▸ (spoken 1 "d" 2 next made).2⟩

end Tree

end IslandSlots
