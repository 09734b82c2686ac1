import IslandSlots.Proofs.Render.Calls
import IslandSlots.Proofs.Render.Spine
import IslandSlots.Render.Traversal

/-!
# Walks over rebuilt trees

A stretch of the store that holds a branch is walked from its beginning to its end: the walk leaves
the branch where the stretch ends and goes on with what was pending before. Since building a tree
never opens a node anywhere but on the way to the last one, the whole store is such a stretch, and
the order of the document is the order in which nodes are made.
-/

namespace IslandSlots

open Branch

namespace Tree

/-- A walk takes no step where nothing is pending. -/
theorem visit_nil (tree : Tree) (count : Nat) : tree.visit count [] = [] := by
  cases count <;> rfl

mutual

/-- A walk over a branch takes its nodes one after the other, and then what was pending. -/
theorem Holds.visit {tree : Tree} {parent place : Nat} {branch : Branch}
    (holds : tree.Holds place (branch.entries parent place)) (count depth : Nat)
    (pending : List (Nat × Nat)) :
    (tree.visit (branch.size + count) ((place, depth) :: pending)).map Prod.fst =
      List.range' place branch.size ++ (tree.visit count pending).map Prod.fst := by
  cases branch with
  | node kind children =>
      rw [Branch.entries] at holds
      -- One step takes the top and puts the tops of its children in front of what is pending.
      have listed : tree.children place = places (place + 1) children := by
        rw [Tree.children, holds.head]
        simp
      rw [Branch.size, Nat.add_right_comm, Tree.visit, listed, List.map_cons, holds.tail.visitAll,
        List.range'_succ, List.cons_append]

/-- A walk over branches takes their nodes one after the other, and then what was pending. -/
theorem Holds.visitAll {tree : Tree} {parent place : Nat} {branches : List Branch}
    (holds : tree.Holds place (entriesAll parent place branches)) (count depth : Nat)
    (pending : List (Nat × Nat)) :
    (tree.visit (sizeAll branches + count)
        ((places place branches).map (fun child => (child, depth)) ++ pending)).map Prod.fst =
      List.range' place (sizeAll branches) ++ (tree.visit count pending).map Prod.fst := by
  cases branches with
  | nil =>
      rw [sizeAll, Nat.zero_add]
      rfl
  | cons child children =>
      rw [entriesAll] at holds
      have rest := holds.right
      rw [length_entries] at rest
      rw [sizeAll, places, List.map_cons, List.cons_append, Nat.add_assoc, holds.left.visit,
        rest.visitAll, ← List.append_assoc, List.range'_append_1]

end

/-- A walk below the root, when nothing else is open, takes all nodes but the root. -/
theorem visit_root {spine : Spine} (closed : spine.outer = []) {steps : Nat}
    (enough : spine.size ≤ steps + 1) (depth : Nat) :
    (spine.builder.tree.visit steps
      ((spine.builder.tree.children root).map fun child => (child, depth))).map Prod.fst =
        List.range' 1 (spine.size - 1) := by
  obtain ⟨current, outer⟩ := spine
  subst closed
  have holds : (Spine.mk current []).builder.tree.Holds root
      (current.entries none root []) := Spine.holds_current ⟨current, []⟩
  have listed : (Spine.mk current []).builder.tree.children root =
      places (root + 1) current.done := by
    rw [Tree.children, holds.head]
    simp
  have size_eq : (Spine.mk current []).size = sizeAll current.done + 1 := Nat.add_comm _ _
  rw [size_eq] at enough ⊢
  obtain ⟨spare, rfl⟩ := Nat.exists_eq_add_of_le (Nat.le_of_succ_le_succ enough)
  have walked := holds.tail.visitAll spare depth []
  rwa [List.append_nil, visit_nil, List.map_nil, List.append_nil, ← listed] at walked

/-- A walk below the root of a tree that statements build takes the nodes in the order in which they
were made, each once, and ends by itself. -/
theorem ofStatements_descendants {helpers : HelperNames} {statements : List Script.Statement}
    {length : Nat} {tree : Tree} (built : ofStatements helpers statements length = .ok tree) :
    tree.descendants root = List.range' 1 (tree.size - 1) ∧
      ∀ steps, tree.size ≤ steps + 1 →
        (tree.visit steps ((tree.children root).map fun child => (child, 0))).map Prod.fst =
          tree.descendants root := by
  obtain ⟨spine, -, closed, rfl⟩ := Spine.ofActions_eq_ok.mp built
  have walk {steps : Nat} (enough : spine.endImplied.size ≤ steps + 1) :=
    visit_root closed enough 0
  have whole : spine.endImplied.builder.tree.descendants root =
      List.range' 1 (spine.endImplied.size - 1) := by
    rw [descendants, Spine.size_builder]
    exact walk (Nat.le_succ spine.endImplied.size)
  rw [Spine.size_builder, whole]
  exact ⟨rfl, fun steps enough => walk enough⟩

/-- A walk below the root of a rebuilt tree takes the nodes in the order in which they were made,
each once, and ends by itself. -/
theorem reconstruct_descendants {source : String} {helpers : HelperNames} {tree : Tree}
    (rebuilt : reconstruct source helpers = .ok (some tree)) :
    tree.descendants root = List.range' 1 (tree.size - 1) ∧
      ∀ steps, tree.size ≤ steps + 1 →
        (tree.visit steps ((tree.children root).map fun child => (child, 0))).map Prod.fst =
          tree.descendants root := by
  obtain ⟨statements, built⟩ := exists_ofStatements_of_reconstruct rebuilt
  exact ofStatements_descendants built

/-- A module that renders a list, which ends the items that are open, and a text behind it. -/
def listAndText : String :=
  "function ssrRender(_push) \x7b _push('<ul><li>a<li>b')\n" ++
    "if (c) \x7b _push('d') \x7d\n_push('</ul>e') \x7d"

theorem reconstruct_descendants_listAndText :
    ∃ tree, reconstruct listAndText .usual = .ok (some tree) ∧
      tree.descendants root = [1, 2, 3, 4, 5, 6, 7, 8] := by
  have rebuilt : reconstruct listAndText .usual = .ok (some
      ⟨#[⟨.root, none, #[1, 8]⟩, ⟨.element "ul" "", some 0, #[2]⟩,
        ⟨.element "li" "", some 1, #[3, 4]⟩, ⟨.text "a", some 2, #[]⟩,
        ⟨.element "li" "", some 2, #[5, 6]⟩, ⟨.text "b", some 4, #[]⟩,
        ⟨.conditional "c" false, some 4, #[7]⟩, ⟨.text "d", some 6, #[]⟩,
        ⟨.text "e", some 0, #[]⟩]⟩) :=
    eq_ok_of_toOption (by decide +kernel)
  exact ⟨_, rebuilt, (reconstruct_descendants rebuilt).1⟩

end Tree

end IslandSlots
