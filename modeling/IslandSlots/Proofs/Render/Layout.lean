import IslandSlots.Render.Branch
import Mathlib.Logic.Relation

/-!
# Branches laid out in a store

The entries of a branch whose nodes are stored in the order of the document, each node before its
children. A tree that holds such a stretch of entries has the branch at the place where the
stretch begins, and every further node of the stretch is below that place.
-/

namespace IslandSlots

namespace Branch

mutual

/-- How many nodes a branch has. -/
def size : Branch → Nat
  | .node _ children => sizeAll children + 1

/-- How many nodes branches have together. -/
def sizeAll : List Branch → Nat
  | [] => 0
  | child :: children => child.size + sizeAll children

end

/-- Where branches begin that are stored one after the other. -/
def places (place : Nat) : List Branch → List Nat
  | [] => []
  | child :: children => place :: places (place + child.size) children

mutual

/-- The entries of a branch stored from a place on. -/
def entries (parent place : Nat) : Branch → List Entry
  | .node kind children =>
    ⟨kind, some parent, (places (place + 1) children).toArray⟩ ::
      entriesAll place (place + 1) children

/-- The entries of branches stored one after the other. -/
def entriesAll (parent place : Nat) : List Branch → List Entry
  | [] => []
  | child :: children =>
    child.entries parent place ++ entriesAll parent (place + child.size) children

end

/-- The kind of the node at the top of a branch. -/
def kind : Branch → Kind
  | .node kind _ => kind

theorem size_pos (branch : Branch) : 0 < branch.size := by
  cases branch
  simp [size]

@[simp]
theorem sizeAll_append (left right : List Branch) :
    sizeAll (left ++ right) = sizeAll left + sizeAll right := by
  induction left with
  | nil => simp [sizeAll]
  | cons child children induction => simp [sizeAll, induction, Nat.add_assoc]

theorem places_append (place : Nat) (left right : List Branch) :
    places place (left ++ right) = places place left ++ places (place + sizeAll left) right := by
  induction left generalizing place with
  | nil => simp [places, sizeAll]
  | cons child children induction => simp [places, sizeAll, induction, Nat.add_assoc]

theorem entriesAll_append (parent place : Nat) (left right : List Branch) :
    entriesAll parent place (left ++ right) =
      entriesAll parent place left ++ entriesAll parent (place + sizeAll left) right := by
  induction left generalizing place with
  | nil => simp [entriesAll, sizeAll]
  | cons child children induction => simp [entriesAll, sizeAll, induction, Nat.add_assoc]

mutual

@[simp]
theorem length_entries (parent place : Nat) (branch : Branch) :
    (branch.entries parent place).length = branch.size := by
  cases branch with
  | node kind children => simp [entries, size, length_entriesAll]

@[simp]
theorem length_entriesAll (parent place : Nat) (branches : List Branch) :
    (entriesAll parent place branches).length = sizeAll branches := by
  cases branches with
  | nil => rfl
  | cons child children => simp [entriesAll, sizeAll, length_entries, length_entriesAll]

end

theorem le_of_mem_places {place node : Nat} {branches : List Branch}
    (found : node ∈ places place branches) :
    place ≤ node ∧ node < place + sizeAll branches := by
  induction branches generalizing place with
  | nil => simp [places] at found
  | cons child children induction =>
      have positive := child.size_pos
      rcases List.mem_cons.mp found with rfl | later
      · simp only [sizeAll]
        omega
      · have bounds := induction later
        simp only [sizeAll]
        omega

end Branch

namespace Tree

open Branch

/-- A stretch of entries stands in the store from a place on. -/
def Holds (tree : Tree) (place : Nat) (stretch : List Entry) : Prop :=
  ∃ before after, tree.entries.toList = before ++ stretch ++ after ∧ before.length = place

/-- A node is below another: parents lead from it up to the other. -/
def Below (tree : Tree) : Nat → Nat → Prop :=
  Relation.TransGen fun upper lower => tree.parent lower = some upper

variable {tree : Tree} {place : Nat}

theorem Holds.left {front back : List Entry} (holds : tree.Holds place (front ++ back)) :
    tree.Holds place front := by
  obtain ⟨before, after, entries_eq, rfl⟩ := holds
  exact ⟨before, back ++ after, by simp [entries_eq], rfl⟩

theorem Holds.right {front back : List Entry} (holds : tree.Holds place (front ++ back)) :
    tree.Holds (place + front.length) back := by
  obtain ⟨before, after, entries_eq, rfl⟩ := holds
  exact ⟨before ++ front, after, by simp [entries_eq], by simp⟩

theorem Holds.head {entry : Entry} {stretch : List Entry}
    (holds : tree.Holds place (entry :: stretch)) : tree.entries[place]? = some entry := by
  obtain ⟨before, after, entries_eq, rfl⟩ := holds
  rw [← Array.getElem?_toList, entries_eq]
  simp

theorem Holds.tail {entry : Entry} {stretch : List Entry}
    (holds : tree.Holds place (entry :: stretch)) : tree.Holds (place + 1) stretch :=
  @Holds.right tree place [entry] stretch holds

theorem Holds.le_size {stretch : List Entry} (holds : tree.Holds place stretch) :
    place + stretch.length ≤ tree.size := by
  obtain ⟨before, after, entries_eq, rfl⟩ := holds
  have lengths := congrArg List.length entries_eq
  simp only [Array.length_toList, List.length_append] at lengths
  simp only [size]
  omega

mutual

/-- A tree that holds the entries of a branch has that branch. -/
theorem Holds.branch_eq {tree : Tree} {parent place : Nat} {branch : Branch}
    (holds : tree.Holds place (branch.entries parent place)) : tree.branch place = branch := by
  cases branch with
  | node kind children =>
      rw [Branch.entries] at holds
      have entry := holds.head
      rw [Tree.branch, Tree.kind, Tree.children, entry]
      simpa using holds.tail.children_eq (Nat.lt_succ_self place)

/-- A tree that holds the entries of branches has them where they begin. -/
theorem Holds.children_eq {tree : Tree} {parent place : Nat} {branches : List Branch}
    (holds : tree.Holds place (entriesAll parent place branches)) (after : parent < place) :
    ((places place branches).filterMap fun child =>
      if _below : parent < child ∧ child < tree.size then some (tree.branch child) else none) =
        branches := by
  cases branches with
  | nil => rfl
  | cons child children =>
      rw [entriesAll] at holds
      have positive := child.size_pos
      have inside := holds.left.le_size
      have rest := holds.right
      rw [length_entries] at inside rest
      have within : parent < place ∧ place < tree.size := by omega
      simp only [places, List.filterMap_cons, dif_pos within, holds.left.branch_eq]
      rw [rest.children_eq (by omega)]

end

theorem Holds.kinds {parent : Nat} {branches : List Branch}
    (holds : tree.Holds place (entriesAll parent place branches)) :
    (places place branches).map tree.kind = branches.map Branch.kind := by
  induction branches generalizing place with
  | nil => rfl
  | cons child children induction =>
      obtain ⟨kind, grandchildren⟩ := child
      rw [entriesAll] at holds
      have rest := holds.right
      rw [length_entries] at rest
      rw [Branch.entries] at holds
      rw [places, List.map_cons, List.map_cons, induction rest, Tree.kind, holds.left.head]
      rfl

theorem Holds.parent_eq {parent top : Nat} {branches : List Branch}
    (holds : tree.Holds place (entriesAll parent place branches))
    (found : top ∈ places place branches) : tree.parent top = some parent := by
  induction branches generalizing place with
  | nil => cases found
  | cons child children induction =>
      obtain ⟨kind, grandchildren⟩ := child
      rw [entriesAll] at holds
      have rest := holds.right
      rw [length_entries] at rest
      rcases List.mem_cons.mp found with rfl | later
      · rw [Branch.entries] at holds
        rw [Tree.parent, holds.left.head]
        rfl
      · exact induction rest later

mutual

/-- The nodes of a branch past its top are below the top. -/
theorem Holds.below {tree : Tree} {parent place node : Nat} {branch : Branch}
    (holds : tree.Holds place (branch.entries parent place)) (later : place < node)
    (inside : node < place + branch.size) : tree.Below place node := by
  cases branch with
  | node kind children =>
      rw [Branch.entries] at holds
      rw [Branch.size] at inside
      obtain ⟨top, found, place_eq⟩ :=
        holds.tail.top_or_below (show place + 1 ≤ node by omega) (by omega)
      have first : tree.Below place top := .single (holds.tail.parent_eq found)
      rcases place_eq with rfl | below
      · exact first
      · exact first.trans below

/-- The nodes of branches are their tops, and the nodes below these. -/
theorem Holds.top_or_below {tree : Tree} {parent place node : Nat} {branches : List Branch}
    (holds : tree.Holds place (entriesAll parent place branches)) (later : place ≤ node)
    (inside : node < place + sizeAll branches) :
    ∃ top ∈ places place branches, node = top ∨ tree.Below top node := by
  cases branches with
  | nil =>
      simp only [sizeAll] at inside
      omega
  | cons child children =>
      rw [entriesAll] at holds
      rw [sizeAll] at inside
      have rest := holds.right
      rw [length_entries] at rest
      by_cases first : node < place + child.size
      · refine ⟨place, List.mem_cons_self, ?_⟩
        rcases Nat.eq_or_lt_of_le later with rfl | further
        · exact .inl rfl
        · exact .inr (holds.left.below further first)
      · obtain ⟨top, found, place_eq⟩ :=
          rest.top_or_below (show place + child.size ≤ node by omega) (by omega)
        exact ⟨top, List.mem_cons_of_mem _ found, place_eq⟩

end

end Tree

end IslandSlots
