import IslandSlots.Path.Basic
import Mathlib.Data.List.Basic
import Mathlib.Data.List.DropRight

/-!
# Parts of paths put together

The parts of a path made of others are those of the others one behind the other, and the parts of
the directory that a path is in are those of the path without the last.
-/

namespace IslandSlots

/-- A text that is one part of a path, and a name. -/
structure PathPart.IsName (text : String) : Prop where
  /-- It is no dot, no two dots and not empty. -/
  named : PathPart.ofText? text.toList = some (.name text)
  /-- It has no slash. -/
  noSlash : '/' ∉ text.toList

instance (text : String) : Decidable (PathPart.IsName text) :=
  decidable_of_iff (PathPart.ofText? text.toList = some (.name text) ∧ '/' ∉ text.toList)
    ⟨fun holds => ⟨holds.1, holds.2⟩, fun plain => ⟨plain.named, plain.noSlash⟩⟩

namespace Path

/-! ## Texts between slashes -/

theorem splitSlashes_ne_nil (text : List Char) : splitSlashes text ≠ [] := by
  fun_cases splitSlashes text <;> simp_all

theorem splitSlashes_append (front back : List Char) :
    splitSlashes (front ++ '/' :: back) = splitSlashes front ++ splitSlashes back := by
  induction front with
  | nil => simp [splitSlashes]
  | cons c front induction =>
      by_cases slash : c = '/'
      · simp only [List.cons_append, splitSlashes, if_pos slash, induction]
      · obtain ⟨first, more, split⟩ := List.exists_cons_of_ne_nil (splitSlashes_ne_nil front)
        simp only [List.cons_append, splitSlashes, if_neg slash, induction, split]

theorem splitSlashes_of_noSlash {text : List Char} (apart : '/' ∉ text) :
    splitSlashes text = [text] := by
  induction text with
  | nil => rfl
  | cons c text induction =>
      rw [List.mem_cons, not_or] at apart
      simp only [splitSlashes, if_neg (Ne.symm apart.1), induction apart.2]

theorem noSlash_of_mem_splitSlashes {text between : List Char}
    (found : between ∈ splitSlashes text) : '/' ∉ between := by
  induction text generalizing between with
  | nil => simp_all [splitSlashes]
  | cons c text induction =>
      by_cases slash : c = '/'
      · rw [splitSlashes, if_pos slash, List.mem_cons] at found
        obtain rfl | later := found
        · exact List.not_mem_nil
        · exact induction later
      · obtain ⟨first, more, split⟩ := List.exists_cons_of_ne_nil (splitSlashes_ne_nil text)
        simp only [splitSlashes, if_neg slash, split, List.mem_cons] at found
        obtain rfl | later := found
        · have apart := induction (split ▸ List.mem_cons_self)
          exact List.not_mem_cons_of_ne_of_not_mem (Ne.symm slash) apart
        · exact induction (split ▸ List.mem_cons_of_mem first later)

theorem splitSlashes_intercalate {between : List (List Char)} (filled : between ≠ [])
    (apart : ∀ text ∈ between, '/' ∉ text) :
    splitSlashes (List.intercalate ['/'] between) = between := by
  induction between with
  | nil => exact absurd rfl filled
  | cons first rest induction =>
      have first_split := splitSlashes_of_noSlash (apart first List.mem_cons_self)
      cases rest with
      | nil => rw [List.intercalate_singleton, first_split]
      | cons second rest =>
          rw [List.intercalate_cons_cons, List.append_assoc, List.singleton_append,
            splitSlashes_append, first_split,
            induction (List.cons_ne_nil _ _) fun text found =>
              apart text (List.mem_cons_of_mem _ found)]
          rfl

/-! ## Parts of a text -/

/-- The parts that a text between slashes stands for, dots included. -/
def partsOf (text : List Char) : List PathPart :=
  (splitSlashes text).filterMap PathPart.ofText?

/-- Parts without the dots. -/
def counted (parts : List PathPart) : List PathPart :=
  parts.filter (· != .here)

theorem partsOf_append (front back : List Char) :
    partsOf (front ++ '/' :: back) = partsOf front ++ partsOf back := by
  rw [partsOf, splitSlashes_append, List.filterMap_append]
  rfl

theorem partsOf_slash (back : List Char) : partsOf ('/' :: back) = partsOf back :=
  partsOf_append [] back

theorem counted_append (front back : List PathPart) :
    counted (front ++ back) = counted front ++ counted back :=
  List.filter_append front back

/-- Where a path starts: at the top, at a dot that it begins with, or at none of these. -/
def anchor (path : Path) : List PathPart :=
  if path.isAbsolute then [.root]
  else if (partsOf path.text.toList).head? = some .here then [.here]
  else []

theorem parts_eq (path : Path) :
    path.parts = path.anchor ++ counted (partsOf path.text.toList) := by
  rw [parts, anchor]
  split
  · rfl
  · rw [← partsOf]
    split <;> rfl

theorem steps_eq (path : Path) : path.steps =
    (if path.isAbsolute then [.root] else []) ++ partsOf path.text.toList ++
      (if (splitSlashes path.text.toList).getLast? = some [] && path.text != "" then [.here]
        else []) :=
  rfl

theorem counted_steps (path : Path) : counted path.steps = counted path.parts := by
  rw [steps_eq, parts_eq, counted_append, counted_append, counted_append, anchor]
  have ends (ends : Bool) : counted (if ends then [PathPart.here] else []) = [] := by
    cases ends <;> rfl
  rw [ends, List.append_nil]
  split
  · rw [counted, counted, counted, List.filter_filter]
    simp
  · simp only [counted, List.filter_filter, Bool.and_self]
    split <;> simp

/-! ## Names -/

theorem eq_nil_of_ofText?_eq_none {text : List Char} (nothing : PathPart.ofText? text = none) :
    text = [] := by
  rw [PathPart.ofText?.eq_def] at nothing
  split at nothing <;> simp_all

theorem eq_dot_of_ofText?_eq_here {text : List Char} (dot : PathPart.ofText? text = some .here) :
    text = ['.'] := by
  rw [PathPart.ofText?.eq_def] at dot
  split at dot <;> simp_all

theorem isName_of_mem_parts {path : Path} {text : String} (member : .name text ∈ path.parts) :
    PathPart.IsName text := by
  have counts : .name text ∈ counted (partsOf path.text.toList) := by
    rw [parts_eq, List.mem_append] at member
    refine member.resolve_left fun anchored => ?_
    rw [anchor] at anchored
    split at anchored <;> [skip; split at anchored] <;> simp at anchored
  obtain ⟨between, split, part⟩ := List.mem_filterMap.mp (List.mem_filter.mp counts).1
  have text_eq : text.toList = between := by
    rw [PathPart.ofText?.eq_def] at part
    split at part <;> simp_all
    rw [← part, String.toList_ofList]
  exact ⟨text_eq ▸ part, text_eq ▸ noSlash_of_mem_splitSlashes split⟩

/-! ## Paths put together -/

theorem toList_ofNames (names : List String) :
    (ofNames names).text.toList = List.intercalate ['/'] (names.map String.toList) := by
  rw [ofNames, String.toList_intercalate]
  rfl

theorem splitSlashes_ofNames {names : List String} (filled : names ≠ [])
    (plain : ∀ name ∈ names, PathPart.IsName name) :
    splitSlashes (ofNames names).text.toList = names.map String.toList := by
  rw [toList_ofNames]
  refine splitSlashes_intercalate (by simpa using filled) fun text member => ?_
  obtain ⟨name, among, rfl⟩ := List.mem_map.mp member
  exact (plain name among).noSlash

theorem partsOf_ofNames {names : List String} (plain : ∀ name ∈ names, PathPart.IsName name) :
    partsOf (ofNames names).text.toList = names.map .name := by
  by_cases filled : names = []
  · subst filled
    rfl
  · rw [partsOf, splitSlashes_ofNames filled plain, List.filterMap_map]
    exact List.filterMap_eq_map_iff_forall_eq_some.mpr fun name among => (plain name among).named

theorem exists_slash_of_isAbsolute {path : Path} (absolute : path.isAbsolute) :
    ∃ back, path.text.toList = '/' :: back :=
  List.head?_eq_some_iff.mp (of_decide_eq_true absolute)

/-- A path made of names is relative. -/
theorem isAbsolute_ofNames {names : List String} (plain : ∀ name ∈ names, PathPart.IsName name) :
    (ofNames names).isAbsolute = false := by
  rw [Bool.eq_false_iff]
  intro absolute
  obtain ⟨back, text_eq⟩ := exists_slash_of_isAbsolute absolute
  match names, plain with
  | [], _ => cases text_eq
  | first :: rest, plain =>
      have split := splitSlashes_ofNames (List.cons_ne_nil first rest) plain
      rw [text_eq, splitSlashes, if_pos rfl, List.map_cons, List.cons.injEq] at split
      have named := (plain first List.mem_cons_self).named
      rw [← split.1] at named
      cases named

/-- A relative path behind another one stands behind a slash, unless it is alone. -/
theorem toList_join (base : Path) {path : Path} (relative : path.isAbsolute = false) :
    base.text = "" ∧ base.join path = path ∨
      ∃ front, (base.join path).text.toList = front ++ '/' :: path.text.toList ∧
        (base.text.toList = front ∧ front ≠ [] ∨ base.text.toList = front ++ ['/']) := by
  rw [join, relative, if_neg Bool.false_ne_true]
  by_cases empty : base.text = ""
  · left
    rw [if_pos (by simp [empty]), empty, String.empty_append]
    exact ⟨rfl, rfl⟩
  · right
    by_cases closed : base.text.toList.getLast? = some '/'
    · obtain ⟨front, base_eq⟩ := List.getLast?_eq_some_iff.mp closed
      rw [if_pos (by simp [closed])]
      exact ⟨front, by simp [String.toList_append, base_eq], .inr base_eq⟩
    · rw [if_neg (by simp [closed, empty])]
      exact ⟨base.text.toList, by simp [String.toList_append], .inl ⟨rfl, by simpa using empty⟩⟩

/-- A relative path put behind another one leaves the start of that one as it is. -/
theorem join_relative (base : Path) {path : Path} (relative : path.isAbsolute = false) :
    partsOf (base.join path).text.toList = partsOf base.text.toList ++ partsOf path.text.toList ∧
      (base.join path).isAbsolute = base.isAbsolute := by
  obtain ⟨empty, joined⟩ | ⟨front, joined, base_eq⟩ := toList_join base relative
  · rw [joined, relative, isAbsolute, empty]
    exact ⟨rfl, rfl⟩
  · rw [isAbsolute, isAbsolute, joined, partsOf_append]
    obtain ⟨base_eq, filled⟩ | base_eq := base_eq
    · rw [base_eq, List.head?_append_of_ne_nil _ filled]
      exact ⟨rfl, rfl⟩
    · have nothing : partsOf [] = [] := rfl
      rw [base_eq, partsOf_append, nothing, List.append_nil]
      cases front <;> exact ⟨rfl, rfl⟩

/-- The parts of a relative path without dots that is put behind another one follow the parts of
that one. -/
theorem parts_join_relative (base : Path) {path : Path} (relative : path.isAbsolute = false)
    (solid : .here ∉ partsOf path.text.toList) :
    (base.join path).parts = base.parts ++ partsOf path.text.toList := by
  obtain ⟨between, absolute⟩ := join_relative base relative
  have no_dot : counted (partsOf path.text.toList) = partsOf path.text.toList :=
    List.filter_eq_self.mpr fun part member => bne_iff_ne.mpr fun dot => solid (dot ▸ member)
  have head : (partsOf base.text.toList ++ partsOf path.text.toList).head? = some .here ↔
      (partsOf base.text.toList).head? = some .here := by
    cases partsOf base.text.toList with
    | nil => exact ⟨fun dot => absurd (List.mem_of_head? dot) solid, nofun⟩
    | cons part parts => rfl
  rw [parts_eq, parts_eq, anchor, anchor, between, absolute, counted_append, no_dot,
    List.append_assoc]
  simp only [head]

/-- The parts of names put behind a path are its parts with the names behind. -/
theorem parts_join (base : Path) {names : List String}
    (plain : ∀ name ∈ names, PathPart.IsName name) :
    (base.join (ofNames names)).parts = base.parts ++ names.map .name := by
  have named := partsOf_ofNames plain
  rw [parts_join_relative base (isAbsolute_ofNames plain) (by simp [named]), named]

theorem ofNames_singleton (name : String) : ofNames [name] = ⟨name⟩ := by
  simp [ofNames]

/-- The steps of a path end with the name that is put behind it. -/
theorem getLast?_steps_join (base : Path) {name : String} (plain : PathPart.IsName name) :
    (base.join ⟨name⟩).steps.getLast? = some (.name name) := by
  have filled : name.toList ≠ [] := by
    intro empty
    have named := plain.named
    rw [empty] at named
    cases named
  have relative : (⟨name⟩ : Path).isAbsolute = false := by
    rw [Bool.eq_false_iff]
    intro absolute
    obtain ⟨back, text_eq⟩ := exists_slash_of_isAbsolute absolute
    exact plain.noSlash (text_eq ▸ List.mem_cons_self)
  obtain ⟨front, split⟩ :
      ∃ front, splitSlashes (base.join ⟨name⟩).text.toList = front ++ [name.toList] := by
    have alone := splitSlashes_of_noSlash plain.noSlash
    obtain ⟨-, joined⟩ | ⟨front, joined, -⟩ := toList_join base relative
    · exact ⟨[], by rw [joined, alone]; rfl⟩
    · exact ⟨splitSlashes front, by rw [joined, splitSlashes_append, alone]⟩
  rw [steps_eq, split, List.getLast?_concat, partsOf, split, List.filterMap_append,
    List.filterMap_cons_some plain.named]
  simp [filled]

/-! ## The directory around -/

theorem ofText?_of_isIdle {text : List Char} (idle : isIdle text) :
    counted ([text].filterMap PathPart.ofText?) = [] := by
  obtain empty | dot := Bool.or_eq_true_iff.mp idle
  · rw [List.isEmpty_iff.mp empty]
    rfl
  · rw [eq_of_beq dot]
    rfl

theorem exists_part_of_not_isIdle {text : List Char} (solid : ¬ isIdle text) :
    ∃ part, PathPart.ofText? text = some part ∧ part ≠ .here ∧ part ≠ .root := by
  rw [PathPart.ofText?.eq_def]
  split <;> simp_all [isIdle]

/-- The parts that texts between slashes stand for, without the dots. -/
def countedOf (between : List (List Char)) : List PathPart :=
  counted (between.filterMap PathPart.ofText?)

theorem countedOf_append (front back : List (List Char)) :
    countedOf (front ++ back) = countedOf front ++ countedOf back := by
  rw [countedOf, List.filterMap_append, counted_append]
  rfl

theorem countedOf_idle {between : List (List Char)} (idle : ∀ text ∈ between, isIdle text) :
    countedOf between = [] := by
  induction between with
  | nil => rfl
  | cons text rest induction =>
      rw [← List.singleton_append, countedOf_append, induction fun other member =>
        idle other (List.mem_cons_of_mem text member)]
      rw [countedOf, ofText?_of_isIdle (idle text List.mem_cons_self), List.append_nil]

/-- Texts between slashes are idle, or they end with one that counts and idle ones. -/
theorem exists_dropLastCounted (between : List (List Char)) :
    (dropLastCounted between = [] ∧ ∀ text ∈ between, isIdle text) ∨
      ∃ idle last rest, between = dropLastCounted between ++ idle ++ last :: rest ∧
        (∀ text ∈ idle, isIdle text) ∧ ¬ isIdle last ∧ ∀ text ∈ rest, isIdle text := by
  have idle_before (back : List (List Char)) : ∀ text ∈ (back.takeWhile isIdle).reverse,
      isIdle text := fun text member =>
    List.mem_takeWhile_imp (List.mem_reverse.mp member)
  have cut := List.takeWhile_append_dropWhile (p := isIdle) (l := between.reverse)
  rw [dropLastCounted]
  cases behind : between.reverse.dropWhile isIdle with
  | nil =>
      left
      refine ⟨rfl, fun text member => ?_⟩
      rw [behind, List.append_nil] at cut
      exact idle_before _ text (by rw [cut, List.reverse_reverse]; exact member)
  | cons last outer =>
      right
      have solid : ¬ isIdle last := by
        have := List.head_dropWhile_not isIdle (l := between.reverse) (by simp [behind])
        simpa [behind] using this
      have outer_cut := List.takeWhile_append_dropWhile (p := isIdle) (l := outer)
      have whole : between = outer.reverse ++ last :: (between.reverse.takeWhile isIdle).reverse := by
        rw [behind] at cut
        simpa using (congrArg List.reverse cut).symm
      refine ⟨_, last, _, ?_, idle_before outer, solid, idle_before between.reverse⟩
      rwa [List.drop_one, List.tail_cons, ← List.reverse_append, outer_cut]

/-- Without the last that counts, texts between slashes stand for all parts but the last. -/
theorem countedOf_dropLastCounted (between : List (List Char)) :
    countedOf (dropLastCounted between) = (countedOf between).dropLast := by
  obtain ⟨dropped, idles⟩ | ⟨idle, last, rest, split, idles, solid, rests⟩ :=
    exists_dropLastCounted between
  · rw [countedOf_idle idles, dropped]
    rfl
  · obtain ⟨part, is_part, counts, -⟩ := exists_part_of_not_isIdle solid
    have last_part : countedOf [last] = [part] := by
      simp [countedOf, counted, is_part, counts]
    generalize dropLastCounted between = kept at split ⊢
    rw [split, countedOf_append, countedOf_append, ← List.singleton_append, countedOf_append,
      countedOf_idle idles, countedOf_idle rests, last_part, List.append_nil, List.append_nil,
      List.dropLast_concat]

theorem prefix_dropLastCounted (between : List (List Char)) :
    dropLastCounted between <+: between := by
  obtain ⟨dropped, -⟩ | ⟨idle, last, rest, split, -⟩ := exists_dropLastCounted between
  · rw [dropped]
    exact List.nil_prefix
  · rw [List.append_assoc] at split
    exact ⟨_, split.symm⟩

/-- Texts between slashes that are put together again stand for the same parts. -/
theorem countedOf_intercalate {between : List (List Char)} (apart : ∀ text ∈ between, '/' ∉ text) :
    counted (partsOf (List.intercalate ['/'] between)) = countedOf between := by
  by_cases filled : between = []
  · subst filled
    rfl
  · rw [partsOf, splitSlashes_intercalate filled apart]
    rfl

/-- The first text between slashes, and what comes behind it. -/
theorem exists_of_splitSlashes {text first : List Char} {more : List (List Char)}
    (split : splitSlashes text = first :: more) :
    text = first ∧ more = [] ∨ ∃ back, text = first ++ '/' :: back ∧ more = splitSlashes back := by
  by_cases slash : '/' ∈ text
  · obtain ⟨front, back, rfl, apart⟩ := List.eq_append_cons_of_mem slash
    rw [splitSlashes_append, splitSlashes_of_noSlash apart, List.singleton_append,
      List.cons.injEq] at split
    exact .inr ⟨back, by rw [split.1], split.2.symm⟩
  · rw [splitSlashes_of_noSlash slash, List.cons.injEq] at split
    exact .inl ⟨split.1, split.2.symm⟩

theorem parts_absolute (back : List Char) :
    (⟨String.ofList ('/' :: back)⟩ : Path).parts = .root :: counted (partsOf back) := by
  rw [parts_eq, anchor, isAbsolute, String.toList_ofList, partsOf_slash]
  rfl

theorem parts_dot (back : List Char) :
    (⟨String.ofList ('.' :: '/' :: back)⟩ : Path).parts = .here :: counted (partsOf back) := by
  have dot : partsOf ('.' :: '/' :: back) = .here :: partsOf back := partsOf_append ['.'] back
  rw [parts_eq, anchor, isAbsolute, String.toList_ofList, dot]
  rfl

/-- The parts of a path that begins with neither a slash nor a dot between slashes. -/
theorem parts_bare {first : List Char} {part : PathPart} (apart : '/' ∉ first)
    (is_part : PathPart.ofText? first = some part) (solid : part ≠ .here)
    (more : List (List Char)) (between : ∀ text ∈ more, '/' ∉ text) :
    (⟨String.ofList (List.intercalate ['/'] (first :: more))⟩ : Path).parts =
      countedOf (first :: more) := by
  have split := splitSlashes_intercalate (List.cons_ne_nil first more)
    (List.forall_mem_cons.mpr ⟨apart, between⟩)
  have relative : (List.intercalate ['/'] (first :: more)).head? ≠ some '/' := by
    intro starts
    obtain ⟨back, text_eq⟩ := List.head?_eq_some_iff.mp starts
    rw [text_eq, splitSlashes, if_pos rfl, List.cons.injEq] at split
    rw [← split.1] at is_part
    cases is_part
  rw [parts_eq, anchor, isAbsolute, String.toList_ofList, if_neg (by simpa using relative), partsOf,
    split, List.filterMap_cons_some is_part, if_neg (by simpa using solid)]
  rw [countedOf, List.filterMap_cons_some is_part, List.nil_append]

theorem root_notMem_countedOf (between : List (List Char)) : .root ∉ countedOf between := by
  intro member
  obtain ⟨text, -, part⟩ := List.mem_filterMap.mp (List.mem_filter.mp member).1
  rw [PathPart.ofText?.eq_def] at part
  split at part <;> cases part

/-- The parts of the directory around, by where the path starts and what it goes through. -/
theorem parentParts_eq {path : Path} {start : List PathPart} {between : List (List Char)}
    (parts_eq : path.parts = start ++ countedOf between) (short : start.length ≤ 1)
    (long : 1 < path.parts.length) :
    path.parentParts = start ++ countedOf (dropLastCounted between) := by
  have filled : countedOf between ≠ [] := by
    intro nothing
    rw [parts_eq, nothing, List.append_nil] at long
    omega
  rw [parentParts, parts_eq, List.getLast?_append_of_ne_nil _ filled, if_neg,
    List.dropLast_append_of_ne_nil filled, countedOf_dropLastCounted]
  exact fun ends => root_notMem_countedOf between (List.mem_of_getLast? ends)

theorem parts_parent_absolute {path : Path} (absolute : path.isAbsolute)
    (long : 1 < path.parts.length) : path.parent.parts = path.parentParts := by
  obtain ⟨back, text_eq⟩ := exists_slash_of_isAbsolute absolute
  have apart : ∀ text ∈ dropLastCounted (splitSlashes back), '/' ∉ text := fun text member =>
    noSlash_of_mem_splitSlashes ((prefix_dropLastCounted _).subset member)
  have whole : path.parts = [.root] ++ countedOf (splitSlashes back) := by
    rw [parts_eq, anchor, if_pos absolute, text_eq, partsOf_slash]
    rfl
  rw [parentParts_eq whole (Nat.le_refl 1) long, parent, if_neg (Nat.not_le_of_lt long)]
  simp only [absolute, Bool.true_or, if_true, text_eq, List.take_succ_cons, List.take_zero,
    List.drop_succ_cons, List.drop_zero, List.cons_append, List.nil_append]
  rw [parts_absolute, countedOf_intercalate apart]

theorem parts_parent_dot {path : Path} {back : List Char}
    (text_eq : path.text.toList = '.' :: '/' :: back) (long : 1 < path.parts.length) :
    path.parent.parts = path.parentParts := by
  have path_eq : path = ⟨String.ofList ('.' :: '/' :: back)⟩ := by
    rw [← text_eq, String.ofList_toList]
  have whole : path.parts = [.here] ++ countedOf ([] :: splitSlashes back) := by
    rw [path_eq, parts_dot]
    rfl
  have start : path.parts.head? = some .here := by rw [whole]; rfl
  have kept_prefix := prefix_dropLastCounted ([] :: splitSlashes back)
  rw [parentParts_eq whole (Nat.le_refl 1) long, parent, if_neg (Nat.not_le_of_lt long)]
  simp only [start, decide_true, Bool.or_true, if_true, text_eq, List.take_succ_cons,
    List.take_zero, List.drop_succ_cons, List.drop_zero, splitSlashes]
  generalize dropLastCounted ([] :: splitSlashes back) = kept at kept_prefix ⊢
  match kept, kept_prefix with
  | [], _ => rfl
  | [other], within =>
      rw [(List.cons_prefix_cons.mp within).1]
      rfl
  | other :: second :: rest, within =>
      obtain ⟨rfl, later⟩ := List.cons_prefix_cons.mp within
      have apart : ∀ text ∈ second :: rest, '/' ∉ text := fun text member =>
        noSlash_of_mem_splitSlashes (later.subset member)
      rw [List.intercalate_cons_cons, List.nil_append, List.cons_append, List.cons_append,
        List.nil_append, List.nil_append, parts_dot, countedOf_intercalate apart]
      rfl

theorem parts_parent_bare {path : Path} {first : List Char} {more : List (List Char)}
    {part : PathPart} (relative : ¬ path.isAbsolute)
    (split : splitSlashes path.text.toList = first :: more)
    (is_part : PathPart.ofText? first = some part) (solid : part ≠ .here)
    (long : 1 < path.parts.length) : path.parent.parts = path.parentParts := by
  have apart : ∀ text ∈ first :: more, '/' ∉ text := fun text member =>
    noSlash_of_mem_splitSlashes (split ▸ member)
  have whole : path.parts = [] ++ countedOf (first :: more) := by
    rw [parts_eq, anchor, if_neg relative, partsOf, split, List.filterMap_cons_some is_part,
      if_neg (by simpa using solid), ← List.filterMap_cons_some is_part]
    rfl
  have start : path.parts.head? ≠ some .here := by
    intro starts
    rw [whole, List.nil_append] at starts
    simpa using List.of_mem_filter (List.mem_of_head? starts)
  have kept_prefix := prefix_dropLastCounted (first :: more)
  rw [parentParts_eq whole (Nat.zero_le 1) long, parent, if_neg (Nat.not_le_of_lt long)]
  simp only [relative, start, decide_false, Bool.or_false, Bool.false_eq_true, if_false,
    List.take_zero, List.drop_zero, List.nil_append, split]
  generalize dropLastCounted (first :: more) = kept at kept_prefix ⊢
  match kept, kept_prefix with
  | [], _ => rfl
  | other :: rest, within =>
      obtain ⟨rfl, later⟩ := List.cons_prefix_cons.mp within
      exact parts_bare (apart other List.mem_cons_self) is_part solid rest fun text member =>
        apart text (List.mem_cons_of_mem other (later.subset member))

/-- The parts of the directory that a path is in. -/
theorem parts_parent (path : Path) : path.parent.parts = path.parentParts := by
  by_cases short : path.parts.length ≤ 1
  · have nothing : (⟨""⟩ : Path).parts = [] := rfl
    rw [parent, if_pos short, nothing, parentParts]
    match path.parts, short with
    | [], _ => rfl
    | [part], _ => cases part <;> rfl
  have long : 1 < path.parts.length := Nat.lt_of_not_le short
  by_cases absolute : path.isAbsolute
  · exact parts_parent_absolute absolute long
  have text_of {text : List Char} (text_eq : path.text.toList = text) :
      1 < (⟨String.ofList text⟩ : Path).parts.length := by
    rwa [← text_eq, String.ofList_toList]
  obtain ⟨first, more, split⟩ := List.exists_cons_of_ne_nil (splitSlashes_ne_nil path.text.toList)
  have starts := exists_of_splitSlashes split
  cases is_part : PathPart.ofText? first with
  | none =>
      rw [eq_nil_of_ofText?_eq_none is_part] at starts
      obtain ⟨empty, -⟩ | ⟨back, slash, -⟩ := starts
      · exact absurd (text_of empty) (by decide)
      · exact absurd (by simp [isAbsolute, slash]) absolute
  | some part =>
      by_cases dot : part = .here
      · subst dot
        rw [eq_dot_of_ofText?_eq_here is_part] at starts
        obtain ⟨alone, -⟩ | ⟨back, behind, -⟩ := starts
        · exact absurd (text_of alone) (by decide)
        · exact parts_parent_dot behind long
      · exact parts_parent_bare absolute split is_part dot long

end Path

end IslandSlots
