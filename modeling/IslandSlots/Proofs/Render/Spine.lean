import IslandSlots.Proofs.Outcome
import IslandSlots.Proofs.Render.Layout
import IslandSlots.Render.Reconstruct
import Mathlib.Data.List.Basic

/-!
# The open nodes with what is finished under them

A tree in the making, seen as the line of its open nodes, each with the finished branches under
it. Every step of building is a step on this line, and the store of the builder is the line laid
out in the order of the document: the two stay in step through every token and every action.
-/

namespace IslandSlots

open Branch

namespace Kind

/-- Whether a node of some kind needs no end tag. -/
def isImplied : Kind → Bool
  | .element tag _ => Tag.hasOptionalEnd tag
  | _ => false

/-- Whether a kind is that of an element with the given tag. -/
def hasTag (tag : String) : Kind → Bool
  | .element found _ => found == tag
  | _ => false

theorem eq_of_hasTag {tag : String} {kind : Kind} (tagged : kind.hasTag tag) :
    ∃ attrs, kind = .element tag attrs := by
  cases kind with
  | element found attrs =>
      have same : found = tag := by simpa [hasTag] using tagged
      exact ⟨attrs, by rw [same]⟩
  | _ => cases tagged

end Kind

namespace Builder

theorem isInside_eq (builder : Builder) (tag : String) :
    builder.isInside tag = builder.currentKind.hasTag tag := rfl

theorem dropImplied_cons (tree : Tree) (node : Nat) (outer : List Nat) :
    dropImplied tree (node :: outer) =
      if (tree.kind node).isImplied then dropImplied tree outer else node :: outer := by
  rw [dropImplied]
  cases tree.kind node <;> rfl

end Builder

/-- An open node and the finished branches under it. -/
structure Frame where
  /-- What the node stands for. -/
  kind : Kind
  /-- The finished branches in order. -/
  done : List Branch

/-- The open nodes of a tree in the making. -/
structure Spine where
  /-- The innermost open node. -/
  current : Frame
  /-- The open nodes around it, innermost first. -/
  outer : List Frame

namespace Frame

/-- A node with another finished branch. -/
def add (frame : Frame) (branch : Branch) : Frame :=
  ⟨frame.kind, frame.done ++ [branch]⟩

/-- The node as a finished branch. -/
def branch (frame : Frame) : Branch :=
  .node frame.kind frame.done

/-- The entries of an open node and of what is finished under it, with the child that is open. -/
def entries (frame : Frame) (parent : Option Nat) (node : Nat) (child : List Nat) : List Entry :=
  ⟨frame.kind, parent, (places (node + 1) frame.done ++ child).toArray⟩ ::
    entriesAll node (node + 1) frame.done

@[simp]
theorem kind_add (frame : Frame) (branch : Branch) : (frame.add branch).kind = frame.kind := rfl

@[simp]
theorem done_add (frame : Frame) (branch : Branch) :
    (frame.add branch).done = frame.done ++ [branch] := rfl

@[simp]
theorem length_entries (frame : Frame) (parent : Option Nat) (node : Nat) (child : List Nat) :
    (frame.entries parent node child).length = sizeAll frame.done + 1 := by
  simp [entries]

end Frame

namespace Spine

/-- Nothing open but the root, and nothing under it. -/
def start : Spine := ⟨⟨.root, []⟩, []⟩

/-! ## The store of a spine -/

/-- The place of the node that is open directly inside the given ones. -/
def nodeIn : List Frame → Nat
  | [] => Tree.root
  | frame :: outer => nodeIn outer + 1 + sizeAll frame.done

/-- The parent of the node that is open directly inside the given ones. -/
def parentIn : List Frame → Option Nat
  | [] => none
  | _ :: outer => some (nodeIn outer)

/-- The open nodes under the root when the given ones are around the innermost one. -/
def openedIn : List Frame → List Nat
  | [] => []
  | frame :: outer => nodeIn (frame :: outer) :: openedIn outer

/-- The entries of the open nodes around the innermost one. -/
def entriesIn : List Frame → List Entry
  | [] => []
  | frame :: outer =>
    entriesIn outer ++ frame.entries (parentIn outer) (nodeIn outer) [nodeIn (frame :: outer)]

/-- The place of the innermost open node. -/
def node (spine : Spine) : Nat := nodeIn spine.outer

/-- All entries in order. -/
def entries (spine : Spine) : List Entry :=
  entriesIn spine.outer ++ spine.current.entries (parentIn spine.outer) spine.node []

/-- The tree in the making with its open nodes. -/
def builder (spine : Spine) : Builder :=
  ⟨⟨spine.entries.toArray⟩, openedIn spine.outer⟩

/-- How many nodes there are. -/
def size (spine : Spine) : Nat := nodeIn (spine.current :: spine.outer)

@[simp]
theorem length_entriesIn (outer : List Frame) : (entriesIn outer).length = nodeIn outer := by
  induction outer with
  | nil => rfl
  | cons frame outer induction =>
      simp only [entriesIn, List.length_append, induction, Frame.length_entries, nodeIn]
      omega

@[simp]
theorem length_entries (spine : Spine) : spine.entries.length = spine.size := by
  simp only [entries, List.length_append, length_entriesIn, Frame.length_entries, size, nodeIn]
  omega

@[simp]
theorem size_builder (spine : Spine) : spine.builder.tree.size = spine.size := by
  simp [builder, Tree.size]

@[simp]
theorem current_builder (spine : Spine) : spine.builder.current = spine.node := by
  obtain ⟨current, outer⟩ := spine
  cases outer <;> rfl

theorem builder_start : start.builder = Builder.start := rfl

/-- The store holds the innermost open node and what is finished under it. -/
theorem holds_current (spine : Spine) :
    spine.builder.tree.Holds spine.node
      (spine.current.entries (parentIn spine.outer) spine.node []) :=
  ⟨entriesIn spine.outer, [], by simp [builder, entries], by simp [node]⟩

theorem entry_current (spine : Spine) :
    spine.builder.tree.entries[spine.node]? =
      some ⟨spine.current.kind, parentIn spine.outer,
        (places (spine.node + 1) spine.current.done).toArray⟩ := by
  simpa [Frame.entries] using spine.holds_current.head

@[simp]
theorem kind_current (spine : Spine) :
    spine.builder.tree.kind spine.node = spine.current.kind := by
  simp [Tree.kind, entry_current]

@[simp]
theorem currentKind_builder (spine : Spine) : spine.builder.currentKind = spine.current.kind := by
  simp [Builder.currentKind]

/-! ## Steps -/

/-- Adds a finished branch under the innermost open node. -/
def add (spine : Spine) (branch : Branch) : Spine :=
  ⟨spine.current.add branch, spine.outer⟩

/-- Adds finished branches under the innermost open node. -/
def addAll (spine : Spine) (branches : List Branch) : Spine :=
  ⟨⟨spine.current.kind, spine.current.done ++ branches⟩, spine.outer⟩

theorem addAll_nil (spine : Spine) : spine.addAll [] = spine := by
  simp [addAll]

theorem addAll_add (spine : Spine) (branch : Branch) (branches : List Branch) :
    (spine.add branch).addAll branches = spine.addAll (branch :: branches) := by
  simp [addAll, add]

/-- Opens a node under the innermost open one. -/
def opening (spine : Spine) (kind : Kind) : Spine :=
  ⟨⟨kind, []⟩, spine.current :: spine.outer⟩

/-- Finishes the innermost open node; the root stays open. -/
def close (spine : Spine) : Spine :=
  match spine.outer with
  | [] => spine
  | frame :: outer => ⟨frame.add spine.current.branch, outer⟩

/-- The refusal to place a node. -/
def refuse (spine : Spine) (kind : Kind) (offset : Nat) : RenderError :=
  .malformed (.misplaced ⟨spine.current.kind, kind⟩) offset

/-- Places a node under the innermost open one. -/
def place (spine : Spine) (kind : Kind) (offset : Nat) : Except RenderError Spine :=
  if spine.current.kind.accepts kind then .ok (spine.add (.node kind []))
  else .error (spine.refuse kind offset)

/-- Places a node and leaves it open. -/
def enter (spine : Spine) (kind : Kind) (offset : Nat) : Except RenderError Spine :=
  if spine.current.kind.accepts kind then .ok (spine.opening kind)
  else .error (spine.refuse kind offset)

/-- The open nodes once the innermost ones that need no end tag are ended. -/
def endImpliedIn (current : Frame) : List Frame → Spine
  | [] => ⟨current, []⟩
  | frame :: outer =>
    if current.kind.isImplied then endImpliedIn (frame.add current.branch) outer
    else ⟨current, frame :: outer⟩

/-- Ends the innermost elements that need no end tag. -/
def endImplied (spine : Spine) : Spine :=
  endImpliedIn spine.current spine.outer

/-- Closes a node, which has to be the innermost open one once elements that need no end tag are
ended. -/
def leave (spine : Spine) (node offset : Nat) : Except RenderError Spine :=
  let spine := if spine.node = node then spine else spine.endImplied
  if spine.node = node then .ok spine.close
  else .error (.malformed (.neverClosed spine.current.kind) offset)

/-- Closes the innermost element of the given tag at its end tag. -/
def closeTag (spine : Spine) (tag : String) (offset : Nat) : Except RenderError Spine :=
  let spine := if spine.current.kind.hasTag tag then spine else spine.endImplied
  if spine.current.kind.hasTag tag then .ok spine.close
  else .error (.malformed (.unexpectedEnd tag spine.current.kind) offset)

/-- Puts text at the end of branches that end with a text. -/
def joinText (content : String) : List Branch → Option (List Branch)
  | [] => none
  | [.node (.text found) children] => some [.node (.text (found ++ content)) children]
  | [_] => none
  | branch :: next :: rest => (joinText content (next :: rest)).map (branch :: ·)

/-- Puts text under the innermost open node. -/
def text (spine : Spine) (content : String) (offset : Nat) : Except RenderError Spine :=
  match joinText content spine.current.done with
  | some done => .ok ⟨⟨spine.current.kind, done⟩, spine.outer⟩
  | none => spine.place (.text content) offset

/-- Does what a token asks for. -/
def token (spine : Spine) (offset : Nat) : Token → Except RenderError Spine
  | .opening tag attrs selfClosing =>
    if selfClosing then spine.place (.element tag attrs) offset
    else spine.enter (.element tag attrs) offset
  | .closing tag => spine.closeTag tag offset
  | .text content => spine.text content offset
  | .fragmentStart => spine.place (.comment .start) offset
  | .fragmentEnd => spine.place (.comment .stop) offset
  | .comment _ => .ok spine

/-- Does what tokens ask for, in order. -/
def tokens (spine : Spine) (offset : Nat) : List Token → Except RenderError Spine
  | [] => .ok spine
  | token :: rest => do
    let spine ← spine.token offset token
    spine.tokens offset rest

/-- Feeds a chunk of markup. -/
def feed (spine : Spine) (chunk : Markup) (offset : Nat) : Except RenderError Spine :=
  match chunk.tokens with
  | .ok tokens => spine.tokens offset tokens
  | .error error => .error (.malformed (.markup chunk error) offset)

mutual

/-- Does an action. -/
def act (spine : Spine) : Action → Except RenderError Spine
  | .feed chunk offset => spine.feed chunk offset
  | .place kind offset => spine.place kind offset
  | .within kind offset inside => do
    let inner ← spine.enter kind offset
    let inner ← inner.actAll inside
    inner.leave spine.size offset
  | .reject construct offset => .error (.unsupported construct offset)

/-- Does actions in order. -/
def actAll (spine : Spine) : List Action → Except RenderError Spine
  | [] => .ok spine
  | action :: actions => do
    let spine ← spine.act action
    spine.actAll actions

end

/-- The root, when nothing is open that needs an end tag. -/
def finish (spine : Spine) (length : Nat) : Except RenderError Spine :=
  let spine := spine.endImplied
  if spine.outer.isEmpty then .ok spine
  else .error (.malformed (.neverClosed spine.current.kind) length)

/-! ## The builder keeps step -/

private theorem modify_middle {α : Type} {before : List α} {place : Nat}
    (here : before.length = place) (after : List α) (item : α) (change : α → α) :
    (before ++ item :: after).modify place change = before ++ change item :: after := by
  subst here
  induction before with
  | nil => rfl
  | cons first before induction => simp [induction]

/-- Appending under the innermost open node adds an entry and links it. -/
theorem append_builder (spine : Spine) (kind : Kind) :
    spine.builder.tree.append spine.node kind =
      if spine.current.kind.accepts kind then
        .ok (spine.size, (spine.add (.node kind [])).builder.tree)
      else .error ⟨spine.current.kind, kind⟩ := by
  rw [Tree.append, kind_current, size_builder]
  split
  · simp [builder, entries, Frame.entries, add, node, size, nodeIn, places_append,
      entriesAll_append, Branch.entries, entriesAll, places, modify_middle (length_entriesIn _)]
  · rfl

theorem place_builder (spine : Spine) (kind : Kind) (offset : Nat) :
    spine.builder.place kind offset =
      (fun after => (spine.size, after.builder)) <$> spine.place kind offset := by
  rw [Builder.place, current_builder, append_builder, place]
  by_cases accepted : spine.current.kind.accepts kind
  · simp only [accepted, if_true]
    rfl
  · simp only [accepted]
    rfl

theorem opening_builder (spine : Spine) (kind : Kind) :
    (spine.opening kind).builder =
      ⟨(spine.add (.node kind [])).builder.tree, spine.size :: spine.builder.opened⟩ := by
  simp [builder, entries, opening, entriesIn, openedIn, parentIn, nodeIn, node, size, add,
    Frame.entries, places_append, entriesAll_append, places, entriesAll, Branch.entries]

theorem enter_builder (spine : Spine) (kind : Kind) (offset : Nat) :
    spine.builder.enter kind offset =
      (fun after => (spine.size, after.builder)) <$> spine.enter kind offset := by
  rw [Builder.enter, place_builder, place, enter]
  by_cases accepted : spine.current.kind.accepts kind
  · simp only [accepted, if_true, Functor.map, Except.map, opening_builder]
    rfl
  · simp only [accepted]
    rfl

/-- Finishing a node moves nothing in the store. -/
theorem close_builder (spine : Spine) :
    spine.close.builder = ⟨spine.builder.tree, spine.builder.opened.tail⟩ := by
  obtain ⟨current, outer⟩ := spine
  cases outer with
  | nil => rfl
  | cons frame outer =>
      simp [builder, close, entries, entriesIn, openedIn, Frame.entries, Frame.branch, parentIn,
        node, nodeIn, places_append, entriesAll_append, places, entriesAll, Branch.entries]

theorem endImplied_builder (spine : Spine) :
    spine.endImplied.builder = spine.builder.endImplied := by
  obtain ⟨current, outer⟩ := spine
  induction outer generalizing current with
  | nil => rfl
  | cons frame outer induction =>
      have innermost := kind_current ⟨current, frame :: outer⟩
      have closed := close_builder ⟨current, frame :: outer⟩
      have opened : (Spine.mk current (frame :: outer)).builder.opened =
          nodeIn (frame :: outer) :: openedIn outer := rfl
      simp only [node] at innermost
      simp only [close, opened, List.tail_cons] at closed
      rw [Builder.endImplied, opened, Builder.dropImplied_cons, innermost, endImplied, endImpliedIn]
      split
      · have ended := induction (frame.add current.branch)
        rw [closed, Builder.endImplied] at ended
        exact ended
      · rfl

theorem leave_builder (spine : Spine) (node offset : Nat) :
    spine.builder.leave node offset = builder <$> spine.leave node offset := by
  rw [Builder.leave, leave, current_builder]
  simp only [← endImplied_builder, ← apply_ite builder]
  generalize (if spine.node = node then spine else spine.endImplied) = ended
  rw [current_builder, currentKind_builder]
  by_cases here : ended.node = node
  · simp only [here, if_true, ← close_builder]
    rfl
  · simp only [here, if_false]
    rfl

theorem isInside_builder (spine : Spine) (tag : String) :
    spine.builder.isInside tag = spine.current.kind.hasTag tag := by
  rw [Builder.isInside_eq, currentKind_builder]

theorem closeTag_builder (spine : Spine) (tag : String) (offset : Nat) :
    spine.builder.closeTag tag offset = builder <$> spine.closeTag tag offset := by
  rw [Builder.closeTag, closeTag, isInside_builder]
  simp only [← endImplied_builder, ← apply_ite builder]
  generalize (if spine.current.kind.hasTag tag then spine else spine.endImplied) = ended
  rw [isInside_builder, currentKind_builder]
  by_cases here : ended.current.kind.hasTag tag
  · simp only [here, if_true, ← close_builder]
    rfl
  · simp only [here]
    rfl

theorem joinText_concat (content : String) (done : List Branch) (last : Branch) :
    joinText content (done ++ [last]) =
      match last with
      | .node (.text found) children =>
        some (done ++ [.node (.text (found ++ content)) children])
      | _ => none := by
  induction done with
  | nil =>
      obtain ⟨kind, children⟩ := last
      cases kind <;> rfl
  | cons branch done induction =>
      obtain ⟨next, rest, split⟩ : ∃ next rest, done ++ [last] = next :: rest := by
        cases done <;> simp
      rw [List.cons_append, split, joinText, ← split, induction]
      obtain ⟨kind, children⟩ := last
      cases kind <;> rfl

theorem joinText_none {content : String} {done : List Branch} {last : Branch}
    (no_text : ∀ found children, last ≠ .node (.text found) children) :
    joinText content (done ++ [last]) = none := by
  rw [joinText_concat]
  split
  · rename_i found children
    exact absurd rfl (no_text found children)
  · rfl

/-- The place of the node that is finished last. -/
private theorem lastChild_builder (kind : Kind) (done : List Branch) (last : Branch)
    (outer : List Frame) :
    (Spine.mk ⟨kind, done ++ [last]⟩ outer).builder.tree.lastChild? (nodeIn outer) =
      some (nodeIn outer + 1 + sizeAll done) := by
  have entry := entry_current ⟨⟨kind, done ++ [last]⟩, outer⟩
  simp only [node] at entry
  simp [Tree.lastChild?, entry, places_append, places]

/-- The entries around that of the node that is finished last do not depend on its kind. -/
private theorem entries_concat (kind : Kind) (done : List Branch) (children : List Branch)
    (outer : List Frame) :
    ∃ before after : List Entry, before.length = nodeIn outer + 1 + sizeAll done ∧
      ∀ last, (Spine.mk ⟨kind, done ++ [.node last children]⟩ outer).entries =
        before ++ ⟨last, some (nodeIn outer),
          (places (nodeIn outer + 1 + sizeAll done + 1) children).toArray⟩ :: after := by
  refine ⟨entriesIn outer ++
      ⟨kind, parentIn outer, (places (nodeIn outer + 1) (done ++ [.node kind children])).toArray⟩ ::
        entriesAll (nodeIn outer) (nodeIn outer + 1) done,
    entriesAll (nodeIn outer + 1 + sizeAll done) (nodeIn outer + 1 + sizeAll done + 1) children,
    ?_, ?_⟩
  · simp only [List.length_append, List.length_cons, length_entriesIn, length_entriesAll]
    omega
  · intro last
    simp [entries, Frame.entries, node, entriesAll_append, entriesAll, Branch.entries,
      places_append, places]

/-- The kind of the node that is finished last. -/
private theorem kind_last (kind : Kind) (done : List Branch) (last : Kind)
    (children : List Branch) (outer : List Frame) :
    (Spine.mk ⟨kind, done ++ [.node last children]⟩ outer).builder.tree.kind
      (nodeIn outer + 1 + sizeAll done) = last := by
  obtain ⟨before, after, length, entries_eq⟩ := entries_concat kind done children outer
  simp [Tree.kind, builder, entries_eq, ← length]

/-- A text that joins no other is placed as a node. -/
private theorem text_eq_place {builder : Builder} {content : String}
    (fresh : builder.tree.appendText builder.current content =
      builder.tree.append builder.current (.text content)) (offset : Nat) :
    builder.text content offset = Prod.snd <$> builder.place (.text content) offset := by
  rw [Builder.text, fresh, Builder.place]
  cases builder.tree.append builder.current (.text content) <;> rfl

theorem text_builder (spine : Spine) (content : String) (offset : Nat) :
    spine.builder.text content offset = builder <$> spine.text content offset := by
  have placed : Prod.snd <$> spine.builder.place (.text content) offset =
      builder <$> spine.place (.text content) offset := by
    rw [place_builder]
    cases spine.place (.text content) offset <;> rfl
  obtain ⟨⟨kind, done⟩, outer⟩ := spine
  rcases List.eq_nil_or_concat' done with rfl | ⟨init, ⟨last, children⟩, rfl⟩
  · have none_last : (Spine.mk ⟨kind, []⟩ outer).builder.tree.lastChild? (nodeIn outer) = none := by
      have entry := entry_current ⟨⟨kind, []⟩, outer⟩
      simp only [node] at entry
      simp [Tree.lastChild?, entry, places]
    refine (text_eq_place ?_ offset).trans placed
    rw [Tree.appendText, current_builder, Spine.node, none_last]
  · have last_eq := kind_last kind init last children outer
    cases last with
    | text found =>
        obtain ⟨before, after, length, entries_eq⟩ := entries_concat kind init children outer
        rw [Builder.text, Spine.text, Tree.appendText, current_builder, Spine.node,
          lastChild_builder]
        simp only [last_eq, joinText_concat]
        simp [builder, entries_eq, modify_middle length, Functor.map, Except.map]
    | _ =>
        rw [Spine.text, joinText_concat]
        refine (text_eq_place ?_ offset).trans placed
        rw [Tree.appendText, current_builder, Spine.node, lastChild_builder]
        simp only [last_eq]

theorem token_builder (spine : Spine) (offset : Nat) (token : Token) :
    spine.builder.token offset token = builder <$> spine.token offset token := by
  cases token with
  | opening tag attrs selfClosing =>
      rw [Builder.token, Spine.token, place_builder, enter_builder]
      cases selfClosing
      · cases spine.enter (.element tag attrs) offset <;> rfl
      · cases spine.place (.element tag attrs) offset <;> rfl
  | closing tag => exact closeTag_builder spine tag offset
  | text content => exact text_builder spine content offset
  | fragmentStart =>
      rw [Builder.token, Spine.token, place_builder]
      cases spine.place (.comment .start) offset <;> rfl
  | fragmentEnd =>
      rw [Builder.token, Spine.token, place_builder]
      cases spine.place (.comment .stop) offset <;> rfl
  | comment body => rfl

theorem tokens_builder (spine : Spine) (offset : Nat) (tokens : List Token) :
    spine.builder.tokens offset tokens = builder <$> spine.tokens offset tokens := by
  induction tokens generalizing spine with
  | nil => rfl
  | cons token rest induction =>
      rw [Builder.tokens, Spine.tokens, token_builder]
      cases spine.token offset token with
      | error error => rfl
      | ok next => exact induction next

theorem feed_builder (spine : Spine) (chunk : Markup) (offset : Nat) :
    spine.builder.feed chunk offset = builder <$> spine.feed chunk offset := by
  rw [Builder.feed, Spine.feed]
  cases chunk.tokens with
  | error error => rfl
  | ok tokens => exact tokens_builder spine offset tokens

mutual

/-- An action does to the builder what it does to the spine. -/
theorem act_builder (spine : Spine) (action : Action) :
    spine.builder.act action = builder <$> spine.act action := by
  cases action with
  | feed chunk offset => exact feed_builder spine chunk offset
  | place kind offset =>
      rw [Builder.act, Spine.act, place_builder]
      cases spine.place kind offset <;> rfl
  | within kind offset inside =>
      rw [Builder.act, Spine.act, enter_builder]
      cases spine.enter kind offset with
      | error error => rfl
      | ok inner =>
          have step (result : Except RenderError Spine) :
              ((builder <$> result) >>= fun last => last.leave spine.size offset) =
                builder <$> (result >>= fun last => last.leave spine.size offset) := by
            cases result with
            | error error => rfl
            | ok last => exact leave_builder last spine.size offset
          calc
            (inner.builder.actAll inside >>= fun last => last.leave spine.size offset) =
                (builder <$> inner.actAll inside) >>= fun last => last.leave spine.size offset := by
              rw [actAll_builder inner inside]
            _ = _ := step (inner.actAll inside)
  | reject construct offset => rfl

/-- Actions do to the builder what they do to the spine. -/
theorem actAll_builder (spine : Spine) (actions : List Action) :
    spine.builder.actAll actions = builder <$> spine.actAll actions := by
  cases actions with
  | nil => rfl
  | cons action actions =>
      rw [Builder.actAll, Spine.actAll, act_builder]
      cases spine.act action with
      | error error => rfl
      | ok next => exact actAll_builder next actions

end

theorem finish_builder (spine : Spine) (length : Nat) :
    spine.builder.finish length =
      (fun ended => ended.builder.tree) <$> spine.finish length := by
  rw [Builder.finish, Spine.finish, ← endImplied_builder]
  generalize spine.endImplied = ended
  obtain ⟨current, outer⟩ := ended
  cases outer with
  | nil => rfl
  | cons frame outer =>
      have innermost := kind_current ⟨current, frame :: outer⟩
      have opened : (Spine.mk current (frame :: outer)).builder.opened =
          nodeIn (frame :: outer) :: openedIn outer := rfl
      simp only [node] at innermost
      simp only [opened, innermost]
      rfl

/-- A tree with nothing open but its root is the root with what is finished under it. -/
theorem branch_root {spine : Spine} (closed : spine.outer = []) :
    spine.builder.tree.branch Tree.root = spine.current.branch := by
  obtain ⟨current, outer⟩ := spine
  subst closed
  have holds := holds_current ⟨current, []⟩
  have root : (Spine.mk current []).node = Tree.root := rfl
  rw [root, Frame.entries, List.append_nil] at holds
  rw [Tree.branch, Tree.kind, Tree.children, holds.head, Frame.branch]
  congr 1
  simpa using holds.tail.children_eq (Nat.lt_succ_self Tree.root)

/-! ## What a step that succeeds does -/

theorem place_eq_ok {before after : Spine} {kind : Kind} {offset : Nat} :
    before.place kind offset = .ok after ↔
      before.current.kind.accepts kind ∧ after = before.add (.node kind []) := by
  by_cases accepted : before.current.kind.accepts kind <;> simp [place, accepted, eq_comm]

theorem enter_eq_ok {before after : Spine} {kind : Kind} {offset : Nat} :
    before.enter kind offset = .ok after ↔
      before.current.kind.accepts kind ∧ after = before.opening kind := by
  by_cases accepted : before.current.kind.accepts kind <;> simp [enter, accepted, eq_comm]

theorem leave_eq_ok {before after : Spine} {node offset : Nat}
    (step : before.leave node offset = .ok after) :
    ∃ ended, (ended = before ∨ ended = before.endImplied) ∧ ended.node = node ∧
      after = ended.close := by
  rw [leave] at step
  have ended_eq := ite_eq_or_eq (before.node = node) before before.endImplied
  generalize (if before.node = node then before else before.endImplied) = ended at step ended_eq
  by_cases here : ended.node = node
  · rw [if_pos here] at step
    exact ⟨ended, ended_eq, here, (Except.ok.inj step).symm⟩
  · rw [if_neg here] at step
    cases step

theorem closeTag_eq_ok {before after : Spine} {tag : String} {offset : Nat}
    (step : before.closeTag tag offset = .ok after) :
    ∃ ended, (ended = before ∨ ended = before.endImplied) ∧ ended.current.kind.hasTag tag ∧
      after = ended.close := by
  rw [closeTag] at step
  have ended_eq := ite_eq_or_eq (before.current.kind.hasTag tag) before before.endImplied
  generalize (if before.current.kind.hasTag tag then before else before.endImplied) = ended
    at step ended_eq
  by_cases here : ended.current.kind.hasTag tag
  · rw [if_pos here] at step
    exact ⟨ended, ended_eq, here, (Except.ok.inj step).symm⟩
  · rw [if_neg here] at step
    cases step

theorem actAll_append (spine : Spine) (first second : List Action) :
    spine.actAll (first ++ second) = spine.actAll first >>= fun next => next.actAll second := by
  induction first generalizing spine with
  | nil => rfl
  | cons action first induction =>
      rw [List.cons_append, actAll, actAll]
      cases spine.act action with
      | error error => rfl
      | ok next => exact induction next

theorem actAll_cons {spine next after : Spine} {action : Action} {actions : List Action}
    (step : spine.act action = .ok next) (steps : next.actAll actions = .ok after) :
    spine.actAll (action :: actions) = .ok after := by
  rw [actAll, step]
  exact steps

theorem finish_eq_ok {spine ended : Spine} {length : Nat} :
    spine.finish length = .ok ended ↔ spine.endImplied.outer = [] ∧ ended = spine.endImplied := by
  rw [finish]
  by_cases closed : spine.endImplied.outer = []
  · simp [closed, @eq_comm _ ended]
  · simp [closed]

/-- Actions make the tree of a spine that they lead to and that has nothing open but its root, once
elements that need no end tag are ended. -/
theorem ofActions_eq_ok {actions : List Action} {length : Nat} {tree : Tree} :
    Tree.ofActions actions length = .ok tree ↔
      ∃ spine, start.actAll actions = .ok spine ∧ spine.endImplied.outer = [] ∧
        spine.endImplied.builder.tree = tree := by
  rw [Tree.ofActions, ← builder_start, actAll_builder, bind_eq_ok]
  constructor
  · rintro ⟨_, mapped, finished⟩
    obtain ⟨spine, acted, rfl⟩ := map_eq_ok.mp mapped
    rw [finish_builder] at finished
    obtain ⟨ended, ends, rfl⟩ := map_eq_ok.mp finished
    obtain ⟨closed, rfl⟩ := finish_eq_ok.mp ends
    exact ⟨spine, acted, closed, rfl⟩
  · rintro ⟨spine, acted, closed, rfl⟩
    refine ⟨spine.builder, by rw [acted]; rfl, ?_⟩
    rw [finish_builder]
    exact map_eq_ok.mpr ⟨_, finish_eq_ok.mpr ⟨closed, rfl⟩, rfl⟩

/-- The kind of the outermost open node. -/
def baseIn (innermost : Kind) : List Frame → Kind
  | [] => innermost
  | frame :: outer => baseIn frame.kind outer

/-- The kind of the outermost open node. -/
def base (spine : Spine) : Kind :=
  baseIn spine.current.kind spine.outer

@[simp]
theorem base_close (spine : Spine) : spine.close.base = spine.base := by
  obtain ⟨current, outer⟩ := spine
  cases outer <;> rfl

@[simp]
theorem base_endImplied (spine : Spine) : spine.endImplied.base = spine.base := by
  obtain ⟨current, outer⟩ := spine
  induction outer generalizing current with
  | nil => rfl
  | cons frame outer induction =>
      rw [endImplied, endImpliedIn]
      split
      · exact induction (frame.add current.branch)
      · rfl

theorem base_token {before after : Spine} {offset : Nat} {token : Token}
    (step : before.token offset token = .ok after) : after.base = before.base := by
  cases token with
  | opening tag attrs selfClosing =>
      cases selfClosing with
      | true =>
          obtain ⟨-, rfl⟩ := place_eq_ok.mp step
          rfl
      | false =>
          obtain ⟨-, rfl⟩ := enter_eq_ok.mp step
          rfl
  | closing tag =>
      obtain ⟨ended, rfl | rfl, -, rfl⟩ := closeTag_eq_ok step <;> simp
  | text content =>
      rw [token, text] at step
      split at step
      · cases step
        rfl
      · obtain ⟨-, rfl⟩ := place_eq_ok.mp step
        rfl
  | fragmentStart =>
      obtain ⟨-, rfl⟩ := place_eq_ok.mp step
      rfl
  | fragmentEnd =>
      obtain ⟨-, rfl⟩ := place_eq_ok.mp step
      rfl
  | comment body =>
      cases step
      rfl

/-- The outermost open node is the root of the tree. -/
theorem kind_root (spine : Spine) : spine.builder.tree.kind Tree.root = spine.base := by
  have first (outer : List Frame) (current : Frame) (child : List Nat) (tail : List Entry) :
      ∃ entry rest, entriesIn outer ++
        (current.entries (parentIn outer) (nodeIn outer) child ++ tail) = entry :: rest ∧
          entry.kind = baseIn current.kind outer := by
    induction outer generalizing current child tail with
    | nil => exact ⟨_, _, rfl, rfl⟩
    | cons frame outer induction =>
        rw [entriesIn, List.append_assoc]
        exact induction frame _ _
  obtain ⟨entry, rest, entries_eq, kind_eq⟩ := first spine.outer spine.current [] []
  rw [List.append_nil] at entries_eq
  have stored : spine.builder.tree.entries[Tree.root]? = some entry := by
    rw [builder, entries, node, entries_eq]
    rfl
  simp [Tree.kind, stored, kind_eq, base]

end Spine

namespace Builder

/-- A state of building that is reached from the start by tokens, and by placing, entering and
leaving nodes. -/
inductive Reached : Builder → Prop where
  | start : Reached Builder.start
  | token {before after : Builder} (offset : Nat) (token : Token) :
      Reached before → before.token offset token = .ok after → Reached after
  | place {before after : Builder} (kind : Kind) (offset : Nat) {node : Nat} :
      Reached before → before.place kind offset = .ok (node, after) → Reached after
  | enter {before after : Builder} (kind : Kind) (offset : Nat) {node : Nat} :
      Reached before → before.enter kind offset = .ok (node, after) → Reached after
  | leave {before after : Builder} (node offset : Nat) :
      Reached before → before.leave node offset = .ok after → Reached after

/-- Every state that is reached is the layout of a spine under the root. -/
theorem Reached.exists_spine {builder : Builder} (reached : builder.Reached) :
    ∃ spine : Spine, spine.builder = builder ∧ spine.base = .root := by
  induction reached with
  | start => exact ⟨Spine.start, rfl, rfl⟩
  | token offset token _ step induction =>
      obtain ⟨spine, rfl, grounded⟩ := induction
      rw [Spine.token_builder] at step
      obtain ⟨next, taken, rfl⟩ := map_eq_ok.mp step
      exact ⟨next, rfl, (Spine.base_token taken).trans grounded⟩
  | place kind offset _ step induction =>
      obtain ⟨spine, rfl, grounded⟩ := induction
      rw [Spine.place_builder] at step
      obtain ⟨next, placed, same⟩ := map_eq_ok.mp step
      obtain ⟨-, rfl⟩ := Spine.place_eq_ok.mp placed
      exact ⟨_, congrArg Prod.snd same, grounded⟩
  | enter kind offset _ step induction =>
      obtain ⟨spine, rfl, grounded⟩ := induction
      rw [Spine.enter_builder] at step
      obtain ⟨next, entered, same⟩ := map_eq_ok.mp step
      obtain ⟨-, rfl⟩ := Spine.enter_eq_ok.mp entered
      exact ⟨_, congrArg Prod.snd same, grounded⟩
  | leave node offset _ step induction =>
      obtain ⟨spine, rfl, grounded⟩ := induction
      rw [Spine.leave_builder] at step
      obtain ⟨next, left, rfl⟩ := map_eq_ok.mp step
      obtain ⟨ended, rfl | rfl, -, rfl⟩ := Spine.leave_eq_ok left
      · exact ⟨_, rfl, by rw [Spine.base_close, grounded]⟩
      · exact ⟨_, rfl, by rw [Spine.base_close, Spine.base_endImplied, grounded]⟩

end Builder

end IslandSlots
