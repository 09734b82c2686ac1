import IslandSlots.Proofs.Json.Same
import IslandSlots.Proofs.Render.Spine
import IslandSlots.Proofs.Render.Store

/-!
# Trees read back from JSON

The JSON form of a tree says all that the tree says but the order in which its nodes were made:
each kind can be told by its word, each field by its name, and the children are under a name that
no kind has for a field. A reader that goes by names gets the tree back, in whatever order the
members of the objects come.
-/

namespace IslandSlots

open Json

/-! ## Trees as ordered trees of kinds -/

namespace Tree

/-- Two nodes are of one kind and their children are alike, one after the other. -/
inductive Alike (tree other : Tree) : Nat → Nat → Prop where
  /-- Nodes of one kind with children that are alike. -/
  | node {place twin : Nat} (kind_eq : tree.kind place = other.kind twin)
      (children_alike :
        List.Forall₂ (Alike tree other) (tree.children place) (other.children twin)) :
      Alike tree other place twin

/-- A node with everything below it is a branch. -/
inductive HasBranch (tree : Tree) : Nat → Branch → Prop where
  /-- A node with the branches at its children. -/
  | node {place : Nat} {children : List Branch}
      (children_have : List.Forall₂ (HasBranch tree) (tree.children place) children) :
      HasBranch tree place (.node (tree.kind place) children)

variable {tree other : Tree}

mutual

theorem HasBranch.unique {tree : Tree} {node : Nat} {branch found : Branch}
    (has : tree.HasBranch node branch) (has_found : tree.HasBranch node found) :
    branch = found := by
  cases branch with
  | node kind children =>
      cases has with
      | node children_have =>
          cases has_found with
          | node found_have => rw [branches_unique children_have found_have]

theorem branches_unique {tree : Tree} {nodes : List Nat} {branches found : List Branch}
    (have_branches : List.Forall₂ tree.HasBranch nodes branches)
    (have_found : List.Forall₂ tree.HasBranch nodes found) : branches = found := by
  cases branches with
  | nil =>
      cases have_branches
      cases have_found
      rfl
  | cons branch branches =>
      cases have_branches with
      | cons first rest =>
          cases have_found with
          | cons found_first found_rest =>
              rw [first.unique found_first, branches_unique rest found_rest]

end

mutual

/-- Nodes with one branch are alike. -/
theorem HasBranch.alike {tree other : Tree} {place twin : Nat} {branch : Branch}
    (has : tree.HasBranch place branch) (twin_has : other.HasBranch twin branch) :
    tree.Alike other place twin := by
  cases branch with
  | node kind children =>
      cases has with
      | node children_have =>
          -- The kind of the twin is read off the branch that the two nodes have in common.
          generalize found_eq : Branch.node (tree.kind place) children = found at twin_has
          cases twin_has with
          | node twins_have =>
              obtain ⟨kind_eq, rfl⟩ := Branch.node.inj found_eq
              exact .node kind_eq (alike_branches children_have twins_have)

theorem alike_branches {tree other : Tree} {places twins : List Nat} {branches : List Branch}
    (have_branches : List.Forall₂ tree.HasBranch places branches)
    (twins_have : List.Forall₂ other.HasBranch twins branches) :
    List.Forall₂ (tree.Alike other) places twins := by
  cases branches with
  | nil =>
      cases have_branches
      cases twins_have
      exact .nil
  | cons branch branches =>
      cases have_branches with
      | cons first rest =>
          cases twins_have with
          | cons twin_first twin_rest =>
              exact .cons (first.alike twin_first) (alike_branches rest twin_rest)

end

mutual

/-- Nodes that are alike have one branch. -/
theorem Alike.hasBranch {tree other : Tree} {place twin : Nat} {branch : Branch}
    (alike : tree.Alike other place twin) (has : tree.HasBranch place branch) :
    other.HasBranch twin branch := by
  cases branch with
  | node kind children =>
      cases has with
      | node children_have =>
          cases alike with
          | node kind_eq children_alike =>
              rw [kind_eq]
              exact .node (have_branches_of_alike children_alike children_have)

theorem have_branches_of_alike {tree other : Tree} {places twins : List Nat}
    {branches : List Branch} (alike : List.Forall₂ (tree.Alike other) places twins)
    (have_branches : List.Forall₂ tree.HasBranch places branches) :
    List.Forall₂ other.HasBranch twins branches := by
  cases branches with
  | nil =>
      cases have_branches
      cases alike
      exact .nil
  | cons branch branches =>
      cases have_branches with
      | cons first rest =>
          cases alike with
          | cons twin_first twin_rest =>
              exact .cons (twin_first.hasBranch first) (have_branches_of_alike twin_rest rest)

end

/-- In a well-formed store the branch at a node leaves no child out. -/
theorem WellFormed.branch_eq (formed : tree.WellFormed) (node : Nat) :
    tree.branch node = .node (tree.kind node) ((tree.children node).map tree.branch) := by
  rw [Tree.branch, ← List.filterMap_eq_map]
  congr 1
  apply List.filterMap_congr
  intro child listed
  exact dif_pos ⟨formed.lt_of_parent (formed.mem_children.mp listed), formed.child_lt_size listed⟩

theorem WellFormed.hasBranch (formed : tree.WellFormed) (node : Nat) :
    tree.HasBranch node (tree.branch node) := by
  -- Children come later in the store, so fewer and fewer nodes are left behind the one looked at.
  induction left : tree.size - node using Nat.strongRecOn generalizing node with
  | _ _ induction =>
      rw [formed.branch_eq]
      apply HasBranch.node
      rw [List.forall₂_map_right_iff, List.forall₂_same]
      intro child listed
      have later := formed.lt_of_parent (formed.mem_children.mp listed)
      have inside := formed.child_lt_size listed
      exact induction (tree.size - child) (by omega) child rfl

mutual

theorem Holds.hasBranch {tree : Tree} {parent place : Nat} {branch : Branch}
    (holds : tree.Holds place (branch.entries parent place)) : tree.HasBranch place branch := by
  cases branch with
  | node kind children =>
      rw [Branch.entries] at holds
      have kind_eq : tree.kind place = kind := by
        rw [Tree.kind, holds.head]
        rfl
      have listed : tree.children place = Branch.places (place + 1) children := by
        rw [Tree.children, holds.head]
        rfl
      exact kind_eq ▸ .node (listed ▸ holds.tail.haveBranches)

theorem Holds.haveBranches {tree : Tree} {parent place : Nat} {branches : List Branch}
    (holds : tree.Holds place (Branch.entriesAll parent place branches)) :
    List.Forall₂ tree.HasBranch (Branch.places place branches) branches := by
  cases branches with
  | nil => exact .nil
  | cons child children =>
      rw [Branch.entriesAll] at holds
      have rest := holds.right
      rw [Branch.length_entries] at rest
      exact .cons holds.left.hasBranch rest.haveBranches

end

/-- The tree with the given branches under its root, its nodes in the order of the document. -/
def ofForest (forest : List Branch) : Tree :=
  (Spine.start.addAll forest).builder.tree

theorem hasBranch_ofForest (forest : List Branch) :
    (ofForest forest).HasBranch root (.node .root forest) := by
  have holds : (ofForest forest).Holds root _ := (Spine.start.addAll forest).holds_current
  rw [Frame.entries, List.append_nil] at holds
  have kind_eq : (ofForest forest).kind root = .root := by
    rw [Tree.kind, holds.head]
    rfl
  have listed : (ofForest forest).children root = Branch.places (root + 1) forest := by
    rw [Tree.children, holds.head]
    rfl
  exact kind_eq ▸ .node (listed ▸ holds.tail.haveBranches)

end Tree

/-! ## The reader -/

/-- The end of a fragment with the given word. -/
def Marker.ofName? : String → Option Marker
  | "start" => some .start
  | "end" => some .stop
  | _ => none

/-- The binding that a value writes. -/
def Binding.ofJson? : Json → Option Binding
  | .object members => do
    return ⟨← required text? (members.lookup "item"), ← required text? (members.lookup "collection")⟩
  | _ => none

/-- The kind that the members of an object write. -/
def Kind.ofMembers? (members : List (String × Json)) : Option Kind := do
  let text (name : String) := required text? (members.lookup name)
  match ← text "type" with
  | "root" => return .root
  | "element" => return .element (← text "tag") (← text "attrs")
  | "component" => return .component (← text "reference") (← text "props")
  | "slot" =>
    let scope ← orDefault (fun value => value.text?.map some) none (members.lookup "scope")
    let loop ←
      orDefault (fun value => (Binding.ofJson? value).map some) none (members.lookup "iteration")
    return .slot (← text "name") scope loop
  | "conditional" =>
    return .conditional (← text "test") (← required bool? (members.lookup "chained"))
  | "else" => return .otherwise
  | "iteration" => return .iteration (← text "left") (← text "right")
  | "text" => return .text (← text "content")
  | "comment" => return .comment (← Marker.ofName? (← text "marker"))
  | "invalid" => return .invalid
  | _ => none

namespace Branch

mutual

/-- The branch that a value writes. -/
def ofJson? : Json → Option Branch
  | .object members => do return .node (← Kind.ofMembers? members) (← childrenIn? members)
  | _ => none

/-- The branches under the name for children, if there is one among the members. -/
def childrenIn? : List (String × Json) → Option (List Branch)
  | [] => some []
  | (name, value) :: members => if name = "children" then listOfJson? value else childrenIn? members

/-- The branches that an array writes. -/
def listOfJson? : Json → Option (List Branch)
  | .array items => allOfJson? items
  | _ => none

/-- The branches that values write. -/
def allOfJson? : List Json → Option (List Branch)
  | [] => some []
  | item :: items => do return (← ofJson? item) :: (← allOfJson? items)

end

end Branch

/-- The tree that a value writes. -/
def Tree.ofJson? (value : Json) : Option Tree :=
  match Branch.ofJson? value with
  | some (.node .root forest) => some (ofForest forest)
  | _ => none

/-! ## What is written is read -/

theorem Binding.ofJson?_eq {value other : Json} (same : value.Same other) :
    ofJson? value = ofJson? other := by
  cases same with
  | object names_perm values_same =>
      have objects := Same.object names_perm values_same
      rw [ofJson?, ofJson?, objects.required_eq Same.text?_eq, objects.required_eq Same.text?_eq]
  | _ => rfl

namespace Kind

/-- The kind that an object writes does not depend on the order of its members. -/
theorem ofMembers?_eq {members others : List (String × Json)}
    (same : (Json.object members).Same (.object others)) : ofMembers? members = ofMembers? others := by
  have text := same.required_eq Same.text?_eq
  have truth := same.required_eq Same.bool?_eq
  have scope := same.orDefault_eq (fun value => value.text?.map some) none
    fun values => congrArg (Option.map some) values.text?_eq
  have loop := same.orDefault_eq (fun value => (Binding.ofJson? value).map some) none
    fun values => congrArg (Option.map some) (Binding.ofJson?_eq values)
  simp only [ofMembers?, text, truth, scope, loop]

/-- A kind is read from its members, with or without children behind them. -/
theorem ofMembers?_members (kind : Kind) (children : Option Json) :
    ofMembers? (kind.members ++ (children.map (Prod.mk "children")).toList) = some kind := by
  cases kind with
  | slot name scope loop => cases scope <;> cases loop <;> cases children <;> rfl
  | comment marker => cases marker <;> cases children <;> rfl
  | _ => cases children <;> rfl

theorem lookup_children (kind : Kind) (children : Option Json) :
    (kind.members ++ (children.map (Prod.mk "children")).toList).lookup "children" = children := by
  cases kind with
  | slot name scope loop => cases scope <;> cases loop <;> cases children <;> rfl
  | _ => cases children <;> rfl

theorem nodup_members (kind : Kind) (children : Option Json) :
    ((kind.members ++ (children.map (Prod.mk "children")).toList).map Prod.fst).Nodup := by
  cases kind with
  | slot name scope loop => cases scope <;> cases loop <;> cases children <;> simp [members, fields]
  | _ => cases children <;> simp [members, fields]

theorem membersHaveDistinctNames_members (kind : Kind) : MembersHaveDistinctNames kind.members := by
  cases kind with
  | slot name scope loop =>
      cases scope <;> cases loop <;>
        simp [members, fields, MembersHaveDistinctNames, HasDistinctNames]
  | _ => simp [members, fields, MembersHaveDistinctNames, HasDistinctNames]

end Kind

namespace Branch

/-- The JSON form of the children, if there are any. -/
def childrenToJson? : List Branch → Option Json
  | [] => none
  | child :: children => some (.array (allToJson (child :: children)))

theorem toJson_node (kind : Kind) (children : List Branch) :
    (node kind children).toJson =
      .object (kind.members ++ ((childrenToJson? children).map (Prod.mk "children")).toList) := by
  cases children with
  | nil => simp [toJson, childrenToJson?]
  | cons child children => rfl

theorem childrenIn?_eq (members : List (String × Json)) :
    childrenIn? members =
      match members.lookup "children" with
      | some value => listOfJson? value
      | none => some [] := by
  induction members with
  | nil => rfl
  | cons member members induction =>
      obtain ⟨name, value⟩ := member
      rw [childrenIn?, List.lookup_cons]
      by_cases here : name = "children"
      · simp [here]
      · rw [if_neg here, induction, beq_false_of_ne (Ne.symm here)]

mutual

/-- A branch is read from its JSON form, however the members are arranged. -/
theorem ofJson?_toJson {branch : Branch} {value : Json} (same : branch.toJson.Same value) :
    ofJson? value = some branch := by
  cases branch with
  | node kind children =>
      rw [toJson_node] at same
      cases same with
      | object names_perm values_same =>
          have objects := Same.object names_perm values_same
          rw [ofJson?, ← Kind.ofMembers?_eq objects, Kind.ofMembers?_members, childrenIn?_eq]
          obtain ⟨found, found_other⟩ | ⟨form, other, found, found_other, forms⟩ :=
            objects.lookup "children"
          · rw [Kind.lookup_children] at found
            cases children with
            | nil => rw [found_other]; rfl
            | cons => cases found
          · rw [Kind.lookup_children] at found
            cases children with
            | nil => cases found
            | cons child children =>
                cases found
                cases forms with
                | array items_same =>
                    rw [found_other]
                    simp only [listOfJson?]
                    rw [allOfJson?_allToJson items_same]
                    rfl

/-- Branches are read from their JSON forms. -/
theorem allOfJson?_allToJson {branches : List Branch} {items : List Json}
    (same : List.Forall₂ Same (allToJson branches) items) : allOfJson? items = some branches := by
  cases branches with
  | nil =>
      cases same
      rfl
  | cons child children =>
      cases same with
      | cons first rest =>
          rw [allOfJson?, ofJson?_toJson first, allOfJson?_allToJson rest]
          rfl

end

mutual

theorem hasDistinctNames_toJson (branch : Branch) : branch.toJson.HasDistinctNames := by
  cases branch with
  | node kind children =>
      rw [toJson_node]
      refine ⟨Kind.nodup_members kind _, (membersHaveDistinctNames_append _ _).mpr
        ⟨Kind.membersHaveDistinctNames_members kind, ?_⟩⟩
      cases children with
      | nil => trivial
      | cons child children =>
          exact ⟨⟨hasDistinctNames_toJson child, allHaveDistinctNames_allToJson children⟩, trivial⟩

theorem allHaveDistinctNames_allToJson (branches : List Branch) :
    AllHaveDistinctNames (allToJson branches) := by
  cases branches with
  | nil => trivial
  | cons child children =>
      exact ⟨hasDistinctNames_toJson child, allHaveDistinctNames_allToJson children⟩

end

end Branch

namespace Tree

/-- A tree is read from its JSON form, however the members are arranged. -/
theorem WellFormed.ofJson?_toJson {tree : Tree} (formed : tree.WellFormed) {value : Json}
    (same : tree.toJson.Same value) :
    ∃ read, Tree.ofJson? value = some read ∧ read.HasBranch root (tree.branch root) := by
  have written := Branch.ofJson?_toJson same
  rw [formed.branch_eq, formed.kind_root] at written ⊢
  exact ⟨_, by rw [Tree.ofJson?, written], hasBranch_ofForest _⟩

/-- The JSON form of a tree made by any calls is a value with no name twice in an object. Whatever
the order of its members, reading it gives a tree with the same kinds in the same places, and it is
the value of another tree exactly when that one has the same kinds in the same places. -/
theorem toJson_faithful (calls others : List Call) :
    (ofCalls calls).toJson.HasDistinctNames ∧
      (∀ value, (ofCalls calls).toJson.Same value →
        ∃ read, ofJson? value = some read ∧ read.Alike (ofCalls calls) root root) ∧
      ((ofCalls calls).toJson.Same (ofCalls others).toJson ↔
        (ofCalls calls).Alike (ofCalls others) root root) := by
  have formed : (ofCalls calls).WellFormed := wellFormed_foldl wellFormed_empty
  have others_formed : (ofCalls others).WellFormed := wellFormed_foldl wellFormed_empty
  refine ⟨Branch.hasDistinctNames_toJson _, fun value same => ?_, ?_, ?_⟩
  · obtain ⟨read, read_eq, has⟩ := formed.ofJson?_toJson same
    exact ⟨read, read_eq, has.alike (formed.hasBranch root)⟩
  · intro same
    obtain ⟨read, read_eq, has⟩ := formed.ofJson?_toJson same
    obtain ⟨reread, reread_eq, has_other⟩ := others_formed.ofJson?_toJson (.refl _)
    cases read_eq.symm.trans reread_eq
    exact (formed.hasBranch root).alike (has.unique has_other ▸ others_formed.hasBranch root)
  · intro alike
    have branch_eq := (alike.hasBranch (formed.hasBranch root)).unique (others_formed.hasBranch root)
    rw [toJson, toJson, branch_eq]
    exact .refl _

/-- Calls that make a component with a slot before a paragraph, and put text in two pieces. -/
def slotFirst : List Call :=
  [.append root (.component "C" "null"), .append 1 (.slot "default" none none),
    .append root (.element "p" ""), .appendText 3 "a", .appendText 3 "b"]

/-- Calls that make the same nodes in another order, and put the text at once. -/
def slotLast : List Call :=
  [.append root (.component "C" "null"), .append root (.element "p" ""), .appendText 2 "ab",
    .append 1 (.slot "default" none none)]

theorem toJson_faithful_slotFirst :
    (ofCalls slotFirst).Alike (ofCalls slotLast) root root ∧
      (ofCalls slotFirst).toJson.Same (ofCalls slotLast).toJson ∧
      ∃ members read, (ofCalls slotFirst).toJson = .object members ∧
        ofJson? (.object members.reverse) = some read ∧
          read.Alike (ofCalls slotFirst) root root := by
  obtain ⟨distinct, reads, same_iff⟩ := toJson_faithful slotFirst slotLast
  have first : ofCalls slotFirst =
      ⟨#[⟨.root, none, #[1, 3]⟩, ⟨.component "C" "null", some 0, #[2]⟩,
        ⟨.slot "default" none none, some 1, #[]⟩, ⟨.element "p" "", some 0, #[4]⟩,
        ⟨.text "ab", some 3, #[]⟩]⟩ := by
    decide +kernel
  have last : ofCalls slotLast =
      ⟨#[⟨.root, none, #[1, 2]⟩, ⟨.component "C" "null", some 0, #[4]⟩,
        ⟨.element "p" "", some 0, #[3]⟩, ⟨.text "ab", some 2, #[]⟩,
        ⟨.slot "default" none none, some 1, #[]⟩]⟩ := by
    decide +kernel
  have alike : (ofCalls slotFirst).Alike (ofCalls slotLast) root root := by
    rw [first, last]
    exact .node rfl (.cons (.node rfl (.cons (.node rfl .nil) .nil))
      (.cons (.node rfl (.cons (.node rfl .nil) .nil)) .nil))
  refine ⟨alike, same_iff.mpr alike, ?_⟩
  obtain ⟨members, members_eq⟩ : ∃ members, (ofCalls slotFirst).toJson = .object members := by
    rw [toJson, Tree.branch, Branch.toJson_node]
    exact ⟨_, rfl⟩
  rw [members_eq] at distinct reads
  obtain ⟨read, read_eq, read_alike⟩ :=
    reads _ (.of_perm distinct.1 members.reverse_perm.symm)
  exact ⟨members, read, members_eq, read_eq, read_alike⟩

end Tree

end IslandSlots
