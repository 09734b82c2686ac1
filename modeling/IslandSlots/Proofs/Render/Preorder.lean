import IslandSlots.Proofs.Render.Decoding
import IslandSlots.Proofs.Render.Walk
import Mathlib.Data.List.Perm.Subperm

/-!
# Walks in prefix order

The walk over a tree keeps the nodes that are still to come on a stack. On every tree that calls
make, in whichever order they make it, the stack runs empty, and what the walk has taken by then are
the nodes in prefix order: each before its children, which come in order, each with everything below
it. So the nodes below a node are taken once each and no others are, and the outline is the one that
is written by recursion.
-/

namespace IslandSlots

theorem join_flatMap {α : Type} (items : List α) (texts : α → List String) :
    String.join (items.flatMap texts) =
      String.join (items.map fun item => String.join (texts item)) := by
  induction items with
  | nil => rfl
  | cons item items induction =>
      rw [List.flatMap_cons, List.map_cons, String.join_append, String.join_cons, induction]

namespace Branch

mutual

/-- A branch with one node on a line, two spaces deeper than its parent. -/
def outline (depth : Nat) : Branch → String
  | .node kind children =>
    String.ofList (List.replicate (2 * depth) ' ') ++ kind.label ++ "\n" ++
      outlineAll (depth + 1) children

/-- Branches of one depth with one node on a line. -/
def outlineAll (depth : Nat) : List Branch → String
  | [] => ""
  | child :: children => child.outline depth ++ outlineAll depth children

end

theorem outlineAll_eq_join (depth : Nat) (branches : List Branch) :
    outlineAll depth branches = String.join (branches.map (outline depth)) := by
  induction branches with
  | nil => rfl
  | cons child children induction =>
      rw [outlineAll, induction, List.map_cons, String.join_cons]

end Branch

namespace Tree

variable {tree : Tree} {node lower depth : Nat}

/-! ## The walk with its stack -/

/-- The walk from pending nodes ends, when nothing is pending, and takes the visited ones. -/
inductive Visits (tree : Tree) : List (Nat × Nat) → List (Nat × Nat) → Prop where
  | done : Visits tree [] []
  | node (node depth : Nat) {pending visited : List (Nat × Nat)} :
      Visits tree ((tree.children node).map (fun child => (child, depth + 1)) ++ pending) visited →
        Visits tree ((node, depth) :: pending) ((node, depth) :: visited)

/-- Enough steps make the whole walk. -/
theorem Visits.visit_eq {pending visited : List (Nat × Nat)} {steps : Nat}
    (visits : tree.Visits pending visited) (enough : visited.length ≤ steps) :
    tree.visit steps pending = visited := by
  induction visits generalizing steps with
  | done => exact visit_nil tree steps
  | node node depth _ induction =>
      obtain ⟨steps, rfl⟩ := Nat.exists_eq_add_of_le' (Nat.le_trans (Nat.succ_pos _) enough)
      rw [visit, induction (Nat.le_of_succ_le_succ enough)]

/-! ## The walk by recursion -/

/-- A node with its depth, and behind it everything below it. Children come after their parent in
the store; anything else named as a child is left out. -/
def preorder (tree : Tree) (node depth : Nat) : List (Nat × Nat) :=
  (node, depth) :: (tree.children node).flatMap fun child =>
    if _below : node < child ∧ child < tree.size then tree.preorder child (depth + 1) else []
termination_by tree.size - node
decreasing_by omega

/-- Nodes of one depth, each with everything below it. -/
def preorderAll (tree : Tree) (nodes : List Nat) (depth : Nat) : List (Nat × Nat) :=
  nodes.flatMap fun node => tree.preorder node depth

/-- The walk takes nodes of one depth, each with everything below it, when it does so with each. -/
theorem visits_of_forall {nodes : List Nat} {depth : Nat} {pending visited : List (Nat × Nat)}
    (each : ∀ node ∈ nodes, ∀ pending visited, tree.Visits pending visited →
      tree.Visits ((node, depth) :: pending) (tree.preorder node depth ++ visited))
    (rest : tree.Visits pending visited) :
    tree.Visits (nodes.map (fun node => (node, depth)) ++ pending)
      (tree.preorderAll nodes depth ++ visited) := by
  induction nodes with
  | nil => exact rest
  | cons node nodes induction =>
      obtain ⟨first, others⟩ := List.forall_mem_cons.mp each
      rw [preorderAll, List.flatMap_cons, List.append_assoc]
      exact first _ _ (induction others)

/-- Of two nodes that a third one is or is below, one is the other or below it. -/
theorem eq_or_below_of_common {first second : Nat}
    (under_first : lower = first ∨ tree.Below first lower)
    (under_second : lower = second ∨ tree.Below second lower) :
    first = second ∨ tree.Below first second ∨ tree.Below second first := by
  have unique : Relator.RightUnique
      (Function.swap fun upper lower => tree.parent lower = some upper) :=
    fun _ _ _ link other => Option.some.inj (link.symm.trans other)
  have up_first := Relation.reflTransGen_swap.mpr
    (Relation.reflTransGen_iff_eq_or_transGen.mpr under_first)
  have up_second := Relation.reflTransGen_swap.mpr
    (Relation.reflTransGen_iff_eq_or_transGen.mpr under_second)
  rcases up_first.total_of_right_unique unique up_second with reached | reached
  · rcases Relation.reflTransGen_iff_eq_or_transGen.mp (Relation.reflTransGen_swap.mp reached)
      with same | below
    · exact .inl same
    · exact .inr (.inr below)
  · rcases Relation.reflTransGen_iff_eq_or_transGen.mp (Relation.reflTransGen_swap.mp reached)
      with same | below
    · exact .inl same.symm
    · exact .inr (.inl below)

theorem lt_size_of_below (below : tree.Below node lower) : lower < tree.size := by
  obtain ⟨above, -, link⟩ := Relation.TransGen.tail'_iff.mp below
  exact lt_size_of_parent link

/-- Different nodes of a store are no more than it has. -/
theorem length_le_size {nodes : List Nat} (nodup : nodes.Nodup)
    (inside : ∀ node ∈ nodes, node < tree.size) : nodes.length ≤ tree.size := by
  have among : nodes ⊆ List.range tree.size := fun node listed =>
    List.mem_range.mpr (inside node listed)
  simpa using (List.subperm_of_subset nodup among).length_le

namespace WellFormed

variable (formed : tree.WellFormed)

include formed

/-- What is so of a node whenever it is so of its children is so of every node. -/
@[elab_as_elim]
theorem induction_on {motive : Nat → Prop} (node : Nat)
    (step : ∀ node, (∀ child ∈ tree.children node, motive child) → motive node) :
    motive node := by
  -- Children come later in the store, so fewer and fewer nodes are left behind the one looked at.
  induction left : tree.size - node using Nat.strongRecOn generalizing node with
  | _ _ induction =>
      apply step
      intro child listed
      have later := formed.lt_of_parent (formed.mem_children.mp listed)
      have inside := formed.child_lt_size listed
      exact induction (tree.size - child) (by omega) child rfl

theorem preorder_eq (node depth : Nat) :
    tree.preorder node depth =
      (node, depth) :: tree.preorderAll (tree.children node) (depth + 1) := by
  rw [preorder, preorderAll]
  congr 1
  apply List.flatMap_congr
  intro child listed
  exact dif_pos ⟨formed.lt_of_parent (formed.mem_children.mp listed), formed.child_lt_size listed⟩

/-! ## The stack against the recursion -/

/-- The walk takes a node with everything below it before it goes on. -/
theorem visits_preorder (node depth : Nat) {pending visited : List (Nat × Nat)}
    (rest : tree.Visits pending visited) :
    tree.Visits ((node, depth) :: pending) (tree.preorder node depth ++ visited) := by
  induction node using formed.induction_on generalizing depth pending visited with
  | step node induction =>
  rw [formed.preorder_eq]
  apply Visits.node
  exact visits_of_forall (fun child listed _ _ rest => induction child listed (depth + 1) rest) rest

theorem visits_preorderAll (nodes : List Nat) (depth : Nat) :
    tree.Visits (nodes.map fun node => (node, depth)) (tree.preorderAll nodes depth) := by
  have visits : tree.Visits (nodes.map (fun node => (node, depth)) ++ [])
      (tree.preorderAll nodes depth ++ []) :=
    visits_of_forall (fun node _ _ _ rest => formed.visits_preorder node depth rest) .done
  rwa [List.append_nil, List.append_nil] at visits

/-- Depths do not change which nodes are taken. -/
theorem nodes_preorder (node depth other : Nat) :
    (tree.preorder node depth).map Prod.fst = (tree.preorder node other).map Prod.fst := by
  induction node using formed.induction_on generalizing depth other with
  | step node induction =>
  rw [formed.preorder_eq, formed.preorder_eq, preorderAll, preorderAll]
  simp only [List.map_cons, List.map_flatMap]
  congr 1
  apply List.flatMap_congr
  intro child listed
  exact induction child listed _ _

/-! ## Which nodes are taken -/

theorem below_iff :
    tree.Below node lower ↔
      ∃ child ∈ tree.children node, lower = child ∨ tree.Below child lower := by
  simp only [Below, formed.mem_children, ← Relation.reflTransGen_iff_eq_or_transGen]
  exact Relation.TransGen.head'_iff

theorem lt_of_below (below : tree.Below node lower) : node < lower := by
  induction below with
  | single link => exact formed.lt_of_parent link
  | tail _ link induction => exact Nat.lt_trans induction (formed.lt_of_parent link)

theorem mem_preorder :
    lower ∈ (tree.preorder node depth).map Prod.fst ↔ lower = node ∨ tree.Below node lower := by
  induction node using formed.induction_on generalizing depth with
  | step node induction =>
      rw [formed.preorder_eq, preorderAll, List.map_cons, List.mem_cons, List.map_flatMap,
        List.mem_flatMap, formed.below_iff]
      exact or_congr_right (exists_congr fun child => and_congr_right fun listed =>
        induction child listed)

/-- No child of a node is below another one. -/
theorem not_below_sibling {child sibling : Nat} (listed : child ∈ tree.children node)
    (other : sibling ∈ tree.children node) : ¬tree.Below child sibling := by
  intro below
  obtain ⟨above, reached, link⟩ := Relation.TransGen.tail'_iff.mp below
  have same : above = node := Option.some.inj (link.symm.trans (formed.mem_children.mp other))
  subst same
  have later := formed.lt_of_parent (formed.mem_children.mp listed)
  rcases Relation.reflTransGen_iff_eq_or_transGen.mp reached with here | further
  · exact Nat.ne_of_lt later here
  · exact Nat.lt_asymm later (formed.lt_of_below further)

/-- No node is taken with two children of one node. -/
theorem disjoint_preorder {child sibling : Nat} (listed : child ∈ tree.children node)
    (other : sibling ∈ tree.children node) (apart : child ≠ sibling) :
    ((tree.preorder child depth).map Prod.fst).Disjoint
      ((tree.preorder sibling depth).map Prod.fst) := by
  intro lower under_child under_sibling
  rcases eq_or_below_of_common (formed.mem_preorder.mp under_child)
    (formed.mem_preorder.mp under_sibling) with same | below | below
  · exact apart same
  · exact formed.not_below_sibling listed other below
  · exact formed.not_below_sibling other listed below

theorem nodup_preorder (node depth : Nat) : ((tree.preorder node depth).map Prod.fst).Nodup := by
  induction node using formed.induction_on generalizing depth with
  | step node induction =>
      rw [formed.preorder_eq, List.map_cons, preorderAll, List.map_flatMap]
      refine List.nodup_cons.mpr ⟨fun again => ?_, List.nodup_flatMap.mpr ⟨?_, ?_⟩⟩
      · obtain ⟨child, listed, taken⟩ := List.mem_flatMap.mp again
        have below := formed.below_iff.mpr ⟨child, listed, formed.mem_preorder.mp taken⟩
        exact Nat.lt_irrefl node (formed.lt_of_below below)
      · exact fun child listed => induction child listed (depth + 1)
      · refine (formed.ascending node).imp_of_mem fun listed other earlier => ?_
        exact formed.disjoint_preorder listed other (Nat.ne_of_lt earlier)

/-- A walk that begins with a node goes on with those below it. -/
theorem nodes_preorder_eq (node depth other : Nat) :
    (tree.preorder node depth).map Prod.fst =
      node :: (tree.preorderAll (tree.children node) other).map Prod.fst := by
  rw [formed.preorder_eq, preorderAll, preorderAll, List.map_cons, List.map_flatMap,
    List.map_flatMap]
  congr 1
  apply List.flatMap_congr
  intro child _
  exact formed.nodes_preorder child _ _

/-- The walk below a node takes no more steps than there are nodes. -/
theorem descendants_eq_preorderAll (node : Nat) :
    tree.descendants node = (tree.preorderAll (tree.children node) 0).map Prod.fst := by
  have nodes_eq := formed.nodes_preorder_eq node 0 0
  have nodup := formed.nodup_preorder node 0
  rw [nodes_eq, List.nodup_cons] at nodup
  have enough : (tree.preorderAll (tree.children node) 0).length ≤ tree.size := by
    rw [← List.length_map Prod.fst]
    apply length_le_size nodup.2
    intro lower taken
    have among : lower = node ∨ tree.Below node lower := by
      rw [← @mem_preorder _ _ _ 0 formed, nodes_eq]
      exact List.mem_cons_of_mem _ taken
    rcases among with rfl | below
    · exact absurd taken nodup.1
    · exact lt_size_of_below below
  rw [descendants, (formed.visits_preorderAll _ 0).visit_eq enough]

/-- The nodes below a node are those that a walk beginning with it takes after it. -/
theorem nodes_preorder_eq_descendants (node depth : Nat) :
    (tree.preorder node depth).map Prod.fst = node :: tree.descendants node := by
  rw [formed.descendants_eq_preorderAll]
  exact formed.nodes_preorder_eq node depth 0

theorem nodup_cons_descendants (node : Nat) : (node :: tree.descendants node).Nodup := by
  rw [← formed.nodes_preorder_eq_descendants node 0]
  exact formed.nodup_preorder node 0

theorem mem_descendants : lower ∈ tree.descendants node ↔ tree.Below node lower := by
  have taken : lower ∈ node :: tree.descendants node ↔ lower = node ∨ tree.Below node lower := by
    rw [← formed.nodes_preorder_eq_descendants node 0]
    exact formed.mem_preorder
  constructor
  · intro listed
    rcases taken.mp (List.mem_cons_of_mem _ listed) with rfl | below
    · exact absurd listed (List.nodup_cons.mp (formed.nodup_cons_descendants lower)).1
    · exact below
  · intro below
    rcases List.mem_cons.mp (taken.mpr (.inr below)) with rfl | listed
    · exact absurd (formed.lt_of_below below) (Nat.lt_irrefl _)
    · exact listed

/-- The nodes below a node are its children in order, each with the nodes below it. -/
theorem descendants_eq (node : Nat) :
    tree.descendants node =
      (tree.children node).flatMap fun child => child :: tree.descendants child := by
  rw [formed.descendants_eq_preorderAll, preorderAll, List.map_flatMap]
  apply List.flatMap_congr
  intro child _
  exact formed.nodes_preorder_eq_descendants child 0

theorem below_root (node : Nat) (later : root < node) (inside : node < tree.size) :
    tree.Below root node := by
  induction node using Nat.strongRecOn with
  | ind node induction =>
      obtain ⟨above, earlier, link⟩ := formed.parent_lt node later inside
      rcases Nat.eq_zero_or_pos above with rfl | further
      · exact .single link
      · exact (induction above earlier further (Nat.lt_trans earlier inside)).tail link

/-- A walk that begins with the root takes every node of the store once. -/
theorem nodes_preorder_root_perm (depth : Nat) :
    (tree.preorder root depth).map Prod.fst |>.Perm (List.range tree.size) := by
  refine (List.perm_ext_iff_of_nodup (formed.nodup_preorder root depth) List.nodup_range).mpr ?_
  intro node
  rw [formed.mem_preorder, List.mem_range]
  constructor
  · rintro (rfl | below)
    · exact formed.size_pos
    · exact lt_size_of_below below
  · intro inside
    exact (Nat.eq_zero_or_pos node).imp id fun later => formed.below_root node later inside

/-! ## The outline -/

/-- A walk that writes each node on a line writes the branch at the node it begins with. -/
theorem join_outlineLine_preorder (node depth : Nat) :
    String.join ((tree.preorder node depth).map fun (node, depth) => tree.outlineLine node depth) =
      (tree.branch node).outline depth := by
  induction node using formed.induction_on generalizing depth with
  | step node induction =>
      rw [formed.preorder_eq, formed.branch_eq, Branch.outline, Branch.outlineAll_eq_join,
        preorderAll, List.map_cons, String.join_cons, List.map_flatMap, List.map_map,
        join_flatMap]
      congr 2
      apply List.map_congr_left
      intro child listed
      exact induction child listed (depth + 1)

/-- The walk over the whole store takes as many steps as there are nodes. -/
theorem length_preorder_root (depth : Nat) : (tree.preorder root depth).length = tree.size := by
  rw [← List.length_map Prod.fst, (formed.nodes_preorder_root_perm depth).length_eq,
    List.length_range]

theorem visits_root : tree.Visits [(root, 0)] (tree.preorder root 0) := by
  have visits := formed.visits_preorder root 0 Visits.done
  rwa [List.append_nil] at visits

theorem outline_eq :
    tree.outline = String.join ((tree.preorder root 0).map fun (node, depth) =>
      tree.outlineLine node depth) := by
  rw [outline, formed.visits_root.visit_eq (Nat.le_of_eq (formed.length_preorder_root 0))]

end WellFormed

/-- On any tree that calls make, the walk below a node comes to an end by itself. It takes the nodes
that are below the node, each of them once, in prefix order: the children in order, each followed by
what the walk below it takes. The walk of the outline comes to an end too, and its lines are those
that are written by recursion over the branch of the root, in which nothing is left out. -/
theorem walks_ofCalls (calls : List Call) :
    (∀ node,
      (∃ visited,
        (ofCalls calls).Visits (((ofCalls calls).children node).map fun child => (child, 0))
            visited ∧
          (ofCalls calls).descendants node = visited.map Prod.fst) ∧
      ((ofCalls calls).descendants node).Nodup ∧
      (∀ lower, lower ∈ (ofCalls calls).descendants node ↔ (ofCalls calls).Below node lower) ∧
      (ofCalls calls).descendants node =
        ((ofCalls calls).children node).flatMap fun child =>
          child :: (ofCalls calls).descendants child) ∧
    (∃ visited, (ofCalls calls).Visits [(root, 0)] visited ∧
      (ofCalls calls).outline =
        String.join (visited.map fun (node, depth) => (ofCalls calls).outlineLine node depth)) ∧
    (ofCalls calls).outline = ((ofCalls calls).branch root).outline 0 ∧
    ∀ node, (ofCalls calls).branch node =
      .node ((ofCalls calls).kind node) (((ofCalls calls).children node).map (ofCalls calls).branch)
    := by
  have formed : (ofCalls calls).WellFormed := wellFormed_foldl wellFormed_empty
  refine ⟨fun node => ⟨?_, ?_, fun lower => formed.mem_descendants, formed.descendants_eq node⟩,
    ⟨_, formed.visits_root, formed.outline_eq⟩, ?_, formed.branch_eq⟩
  · exact ⟨_, formed.visits_preorderAll _ 0, formed.descendants_eq_preorderAll node⟩
  · exact (List.nodup_cons.mp (formed.nodup_cons_descendants node)).2
  · rw [formed.outline_eq, formed.join_outlineLine_preorder]

/-- Nodes that are made out of order are walked in the order of the document. -/
example : (ofCalls [.append root (.element "ul" ""), .append root (.element "p" ""),
    .append 1 (.element "li" "")]).descendants root = [1, 3, 2] := by decide +kernel

end Tree

end IslandSlots
