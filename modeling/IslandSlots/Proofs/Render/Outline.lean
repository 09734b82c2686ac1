import IslandSlots.Proofs.Markup.Grammar
import IslandSlots.Proofs.Render.Arranged
import IslandSlots.Proofs.Render.Calls
import IslandSlots.Proofs.Render.Preorder
import Mathlib.Algebra.BigOperators.Group.Finset.Basic
import Mathlib.Algebra.Order.BigOperators.Group.Finset

/-!
# The lines of an outline

The outline of a rebuilt tree has one line for each node as long as no part that is copied from the
source has more than one. Texts and the names of slots are quoted and tags are names, so none of
them ends a line. Attributes, references, properties, tests, loops and scopes are copied as they
stand, and each line end in one of them is one more in the outline.
-/

namespace IslandSlots

/-! ## Line ends -/

/-- How many line ends a text has. -/
def lineEnds (text : String) : Nat :=
  text.toList.count '\n'

theorem lineEnds_append (front back : String) :
    lineEnds (front ++ back) = lineEnds front + lineEnds back := by
  rw [lineEnds, String.toList_append, List.count_append]
  rfl

theorem lineEnds_join (texts : List String) :
    lineEnds (String.join texts) = (texts.map lineEnds).sum := by
  induction texts with
  | nil => rfl
  | cons text texts induction =>
      rw [String.join_cons, lineEnds_append, induction, List.map_cons, List.sum_cons]

theorem lineEnds_eq_zero {text : String} : lineEnds text = 0 ↔ '\n' ∉ text.toList :=
  List.count_eq_zero

theorem newline_not_mem_toDigits (number : Nat) : '\n' ∉ Nat.toDigits 16 number := by
  induction number using Nat.strongRecOn with
  | ind number induction =>
      rw [Nat.toDigits_eq_if (by decide)]
      split
      · simp
      · have front := induction (number / 16) (by omega)
        simp [front]

theorem newline_not_mem_quotedChar (c : Char) : '\n' ∉ Text.quotedChar c := by
  unfold Text.quotedChar
  split_ifs with quote backslash newline carriage tab null printable
  · decide
  · decide
  · decide
  · decide
  · decide
  · decide
  · simpa using Ne.symm newline
  · simp [Text.codePointEscape, newline_not_mem_toDigits]

/-- A quoted text is on one line. -/
theorem lineEnds_quoted (text : String) : lineEnds (Text.quoted text) = 0 := by
  rw [lineEnds_eq_zero, Text.quoted, String.toList_ofList]
  simp [newline_not_mem_quotedChar]

/-! ## Labels -/

namespace Kind

/-- The parts of a label that are copied from the source as they stand there. -/
def verbatim : Kind → List String
  | .element _ attrs => [attrs]
  | .component reference props => [reference, props]
  | .slot _ scope loop =>
    scope.toList ++ loop.toList.flatMap fun binding => [binding.item, binding.collection]
  | .conditional test _ => [test]
  | .iteration left right => [left, right]
  | _ => []

/-- A tag is made of characters that may stand in a name. -/
def Named : Kind → Prop
  | .element tag _ => ∀ c ∈ tag.toList, Tag.isNameChar c
  | _ => True

/-- A tag that is a name is on one line. -/
theorem lineEnds_eq_zero_of_named {tag attrs : String} (named : (element tag attrs).Named) :
    lineEnds tag = 0 := by
  rw [lineEnds_eq_zero]
  intro found
  have bounds := Tag.bounds_of_isNameChar (named '\n' found)
  exact absurd bounds.1 (by decide)

/-- A label ends a line only where a part that is copied from the source does. -/
theorem lineEnds_label {kind : Kind} (named : kind.Named) :
    lineEnds kind.label = (kind.verbatim.map lineEnds).sum := by
  cases kind with
  | root | otherwise | invalid => rfl
  | element tag attrs =>
      have one_line := lineEnds_eq_zero_of_named named
      rw [label]
      split <;> simp_all [lineEnds, verbatim]
  | component reference props => simp [lineEnds, label, verbatim]
  | slot name scope loop =>
      have one_line := lineEnds_quoted name
      cases scope <;> cases loop <;> simp_all [lineEnds, label, verbatim]
  | conditional test chained => cases chained <;> simp [lineEnds, label, verbatim]
  | iteration left right => simp [lineEnds, label, verbatim]
  | text content => exact lineEnds_quoted content
  | comment marker => cases marker <;> rfl

end Kind

/-! ## Tags of rebuilt trees -/

namespace Token

/-- What a token opens has a tag that is a name. -/
def Named : Token → Prop
  | .opening tag attrs _ => (Kind.element tag attrs).Named
  | _ => True

theorem named_ofStartTag {name : List Char} {inside : List Atom} (start : IsStartTag name inside) :
    (ofStartTag name inside).Named := by
  intro c found
  rw [String.toList_ofList] at found
  exact start.name.all_isNameChar c found

theorem named_of_item {taken behind : List Atom} {tokens : List Token}
    (item : Item taken tokens behind) : ∀ token ∈ tokens, token.Named := by
  cases item with
  | text => exact List.forall_mem_singleton.mpr trivial
  | comment _ made => exact List.forall_mem_singleton.mpr (by cases made <;> trivial)
  | endTag => exact List.forall_mem_singleton.mpr trivial
  | startTag start => exact List.forall_mem_singleton.mpr (named_ofStartTag start)
  | rawText start =>
      refine List.forall_mem_cons.mpr ⟨named_ofStartTag start, ?_⟩
      rw [ofRun]
      split
      · simp
      · exact List.forall_mem_singleton.mpr trivial

theorem named_of_itemized {atoms : List Atom} {tokens : List Token}
    (itemized : Itemized atoms tokens) : ∀ token ∈ tokens, token.Named := by
  induction itemized with
  | nil => simp
  | cons item _ induction => exact List.forall_mem_append.mpr ⟨named_of_item item, induction⟩

end Token

namespace Builder

/-- What is offered to the tree has a tag that is a name, if it has a tag. -/
def AllNamed (calls : List Tree.Call) : Prop :=
  ∀ call ∈ calls, call.child.Named

theorem AllNamed.append {calls more : List Tree.Call} (first : AllNamed calls)
    (second : AllNamed more) : AllNamed (calls ++ more) :=
  List.forall_mem_append.mpr ⟨first, second⟩

theorem allNamed_callsAfter {step : Except RenderError Builder}
    {more : Builder → List Tree.Call} (named : ∀ next, AllNamed (more next)) :
    AllNamed (callsAfter step more) := by
  cases step with
  | ok next => exact named next
  | error error => exact List.forall_mem_nil _

theorem allNamed_tokenCalls (builder : Builder) {token : Token} (named : token.Named) :
    AllNamed (builder.tokenCalls token) := by
  cases token with
  | opening tag attrs selfClosing => exact List.forall_mem_singleton.mpr named
  | closing | comment => exact List.forall_mem_nil _
  | text | fragmentStart | fragmentEnd => exact List.forall_mem_singleton.mpr trivial

theorem allNamed_tokensCalls {tokens : List Token} (named : ∀ token ∈ tokens, token.Named)
    (builder : Builder) (offset : Nat) : AllNamed (builder.tokensCalls offset tokens) := by
  induction tokens generalizing builder with
  | nil => exact List.forall_mem_nil _
  | cons token rest induction =>
      obtain ⟨first, others⟩ := List.forall_mem_cons.mp named
      exact (allNamed_tokenCalls builder first).append
        (allNamed_callsAfter fun next => induction others next)

theorem allNamed_feedCalls (builder : Builder) (chunk : Markup) (offset : Nat) :
    AllNamed (builder.feedCalls chunk offset) := by
  rw [feedCalls]
  split
  · rename_i tokens found
    exact allNamed_tokensCalls
      (Token.named_of_itemized (Token.itemized_of_ofAtoms found)) builder offset
  · exact List.forall_mem_nil _

/-- A row that begins with a node of control flow offers names when what is in it and what comes
after it do. -/
theorem allNamed_within_cons {kind : Kind} {inside rest : List Action} (named : kind.Named)
    (inner : ∀ builder : Builder, AllNamed (builder.callsAll inside))
    (onward : ∀ builder : Builder, AllNamed (builder.callsAll rest)) (builder : Builder)
    (offset : Nat) : AllNamed (builder.callsAll (.within kind offset inside :: rest)) := by
  rw [callsAll, calls]
  refine AllNamed.append (List.forall_mem_cons.mpr ⟨named, ?_⟩) (allNamed_callsAfter onward)
  exact allNamed_callsAfter inner

/-- Arranged actions open elements by markup only, and so with names for tags. -/
theorem allNamed_callsAll {row : Action.Row} {actions : List Action}
    (arranged : Action.Arranged row actions) (builder : Builder) :
    AllNamed (builder.callsAll actions) := by
  induction arranged generalizing builder with
  | nil row => exact List.forall_mem_nil _
  | feed chunk offset _ induction =>
      rw [callsAll, calls]
      exact (allNamed_feedCalls builder chunk offset).append (allNamed_callsAfter induction)
  | invalid offset _ induction =>
      rw [callsAll, calls]
      exact AllNamed.append (List.forall_mem_singleton.mpr trivial) (allNamed_callsAfter induction)
  | reject row construct offset rest => exact List.forall_mem_nil _
  | conditional test offset _ _ _ inner onward =>
      exact allNamed_within_cons (by trivial) inner onward builder offset
  | otherwise offset _ _ inner onward =>
      exact allNamed_within_cons (by trivial) inner onward builder offset
  | iteration left right offset _ _ inner onward =>
      exact allNamed_within_cons (by trivial) inner onward builder offset
  | component reference props offset _ _ inner onward =>
      exact allNamed_within_cons (by trivial) inner onward builder offset
  | slot name scope loop offset _ _ inner onward =>
      exact allNamed_within_cons (by trivial) inner onward builder offset

end Builder

namespace Tree

/-- A call makes no node but what it offers, and texts. -/
theorem named_after {tree : Tree} {call : Call} (named : ∀ node, (tree.kind node).Named)
    (offered : call.child.Named) (node : Nat) : ((call.after tree).kind node).Named := by
  obtain ⟨made, outcome⟩ | ⟨-, same⟩ := call.after_eq tree
  · cases call with
    | append parent kind =>
        rw [(append_eq_ok outcome).2.kind_eq]
        split
        · exact offered
        · exact named node
    | appendText parent text =>
        obtain ⟨content, -, changed⟩ | ⟨-, grown⟩ := appendText_eq_ok outcome
        · rw [changed.kind_eq]
          split
          · trivial
          · exact named node
        · rw [grown.kind_eq]
          split
          · trivial
          · exact named node
  · rw [same]
    exact named node

theorem named_ofCalls {calls : List Call} (offered : Builder.AllNamed calls) (node : Nat) :
    ((ofCalls calls).kind node).Named := by
  have named_foldl : ∀ tree : Tree, (∀ node, (tree.kind node).Named) →
      ∀ node, ((calls.foldl Call.after tree).kind node).Named := by
    induction calls with
    | nil => exact fun tree named => named
    | cons call calls induction =>
        obtain ⟨first, others⟩ := List.forall_mem_cons.mp offered
        exact fun tree named => induction others _ (named_after named first)
  apply named_foldl
  intro node
  cases node <;> trivial

/-! ## Lines -/

variable {tree : Tree}

/-- The line ends that a node copies from the source. -/
def copiedEnds (tree : Tree) (node : Nat) : Nat :=
  ((tree.kind node).verbatim.map lineEnds).sum

theorem copiedEnds_eq_zero {node : Nat} :
    tree.copiedEnds node = 0 ↔ ∀ part ∈ (tree.kind node).verbatim, '\n' ∉ part.toList := by
  simp [copiedEnds, List.sum_eq_zero_iff, lineEnds_eq_zero]

theorem lineEnds_outlineLine {node : Nat} (named : (tree.kind node).Named) (depth : Nat) :
    lineEnds (tree.outlineLine node depth) = tree.copiedEnds node + 1 := by
  have blank : lineEnds (String.ofList (List.replicate (2 * depth) ' ')) = 0 := by
    simp [lineEnds, List.count_replicate]
  rw [outlineLine, lineEnds_append, lineEnds_append, blank, Kind.lineEnds_label named, Nat.zero_add]
  rfl

theorem lineEnds_outline (formed : tree.WellFormed) (named : ∀ node, (tree.kind node).Named) :
    lineEnds tree.outline = tree.size + ∑ node ∈ Finset.range tree.size, tree.copiedEnds node := by
  have line (visit : Nat × Nat) :
      lineEnds (tree.outlineLine visit.1 visit.2) = tree.copiedEnds visit.1 + 1 :=
    lineEnds_outlineLine (named visit.1) visit.2
  calc
    lineEnds tree.outline = (((tree.preorder root 0).map Prod.fst).map fun node =>
        tree.copiedEnds node + 1).sum := by
      rw [formed.outline_eq, lineEnds_join, List.map_map, List.map_map]
      congr 1
      apply List.map_congr_left
      intro visit _
      exact line visit
    _ = ((List.range tree.size).map fun node => tree.copiedEnds node + 1).sum :=
      ((formed.nodes_preorder_root_perm 0).map _).sum_eq
    _ = ∑ node ∈ Finset.range tree.size, (tree.copiedEnds node + 1) := rfl
    _ = tree.size + ∑ node ∈ Finset.range tree.size, tree.copiedEnds node := by
      rw [Finset.sum_add_distrib, Finset.sum_const, Finset.card_range, nsmul_one, Nat.cast_id,
        Nat.add_comm]

/-- The outline of a tree that statements build ends a line for each node, and once more for each
line end in what its nodes copy from the source. -/
theorem ofStatements_lineEnds_outline {helpers : HelperNames} {statements : List Script.Statement}
    {length : Nat} (built : ofStatements helpers statements length = .ok tree) :
    lineEnds tree.outline =
        tree.size + ∑ node ∈ Finset.range tree.size, tree.copiedEnds node ∧
      (lineEnds tree.outline = tree.size ↔
        ∀ node < tree.size, ∀ part ∈ (tree.kind node).verbatim, '\n' ∉ part.toList) := by
  have made : ofCalls (Builder.start.callsAll (Script.statementsActions helpers statements)) =
      tree := foldl_after_of_perform (perform_callsAll built)
  have formed : tree.WellFormed := made ▸ wellFormed_foldl wellFormed_empty
  have offered := Builder.allNamed_callsAll (Script.arranged_statementsActions helpers statements)
    Builder.start
  have named (node : Nat) : (tree.kind node).Named := made ▸ named_ofCalls offered node
  have counted := lineEnds_outline formed named
  refine ⟨counted, ?_⟩
  rw [counted, Nat.add_eq_left, Finset.sum_eq_zero_iff]
  simp only [Finset.mem_range, copiedEnds_eq_zero]

/-- The outline of a rebuilt tree ends a line for each node, and once more for each line end in what
its nodes copy from the source. So it has one line for each node exactly when none of these parts
goes over several lines. -/
theorem reconstruct_lineEnds_outline {source : String} {helpers : HelperNames}
    (rebuilt : reconstruct source helpers = .ok (some tree)) :
    lineEnds tree.outline =
        tree.size + ∑ node ∈ Finset.range tree.size, tree.copiedEnds node ∧
      (lineEnds tree.outline = tree.size ↔
        ∀ node < tree.size, ∀ part ∈ (tree.kind node).verbatim, '\n' ∉ part.toList) := by
  obtain ⟨statements, built⟩ := exists_ofStatements_of_reconstruct rebuilt
  exact ofStatements_lineEnds_outline built

/-- A module that renders a text under a test, which goes over two lines. -/
def testOverLines : String :=
  "function ssrRender(_ctx, _push) \x7b\n" ++
    "if (_ctx.a &&\n_ctx.b) \x7b _push('x') \x7d\n\x7d\n"

theorem reconstruct_testOverLines : reconstruct testOverLines .usual = .ok (some
    ⟨#[⟨.root, none, #[1]⟩, ⟨.conditional "_ctx.a &&\n_ctx.b" false, some 0, #[2]⟩,
      ⟨.text "x", some 1, #[]⟩]⟩) :=
  eq_ok_of_toOption (by decide +kernel)

theorem reconstruct_lineEnds_outline_testOverLines :
    ∃ tree, reconstruct testOverLines .usual = .ok (some tree) ∧
      lineEnds tree.outline = tree.size + ∑ node ∈ Finset.range tree.size, tree.copiedEnds node ∧
        ∑ node ∈ Finset.range tree.size, tree.copiedEnds node = 1 :=
  ⟨_, reconstruct_testOverLines, (reconstruct_lineEnds_outline reconstruct_testOverLines).1,
    by decide +kernel⟩

/-- The test puts a line end into the outline that stands for no node. -/
theorem reconstruct_outline_overLines :
    ∃ tree, reconstruct testOverLines .usual = .ok (some tree) ∧ tree.size = 3 ∧
      lineEnds tree.outline = 4 :=
  ⟨_, reconstruct_testOverLines, by decide, by decide +kernel⟩

end Tree

end IslandSlots
