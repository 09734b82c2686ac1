import IslandSlots.Output.Layout
import IslandSlots.Proofs.Path.Parts

/-!
# The directory that all inputs share

The base of a layout has the longest beginning that the directories of all inputs have in common. It
can be found as a path, which is put together from parts again for each input: a path made of the
first parts of another one has these parts and no others.
-/

namespace IslandSlots

/-! ## Paths made of parts -/

/-- A part as it is written in a path. -/
def PathPart.written : PathPart → String
  | .root => "/"
  | .here => "."
  | .up => ".."
  | .name text => text

namespace Path

/-- The path that goes through some parts, each put behind those before it. -/
def ofParts (parts : List PathPart) : Path :=
  parts.foldl (fun path part => path.join ⟨part.written⟩) ⟨""⟩

theorem ofParts_concat (parts : List PathPart) (last : PathPart) :
    ofParts (parts ++ [last]) = (ofParts parts).join ⟨last.written⟩ := by
  rw [ofParts, List.foldl_concat]
  rfl

/-- Behind its first part a path has no top and no dot. -/
theorem inner_of_mem_tail_parts {path : Path} {part : PathPart} (member : part ∈ path.parts.tail) :
    part ≠ .root ∧ part ≠ .here := by
  have counts : part ∈ counted (partsOf path.text.toList) := by
    rw [parts_eq, anchor] at member
    split at member
    · exact member
    · split at member
      · exact member
      · exact List.mem_of_mem_tail member
  refine ⟨?_, bne_iff_ne.mp (List.mem_filter.mp counts).2⟩
  rintro rfl
  exact root_notMem_countedOf (splitSlashes path.text.toList) counts

/-- A top or a dot is the first part of its path. -/
theorem eq_nil_of_outer {path : Path} {front : List PathPart} {last : PathPart}
    (begins : front ++ [last] <+: path.parts) (outer : last = .root ∨ last = .here) :
    front = [] := by
  cases front with
  | nil => rfl
  | cons first front =>
      obtain ⟨behind, whole⟩ := begins
      have inner : last ∈ path.parts.tail := by simp [← whole]
      obtain ⟨not_root, not_here⟩ := inner_of_mem_tail_parts inner
      exact absurd outer (not_or.mpr ⟨not_root, not_here⟩)

/-- The path made of the first parts of another one has these parts. -/
theorem parts_ofParts {path : Path} {parts : List PathPart} (begins : parts <+: path.parts) :
    (ofParts parts).parts = parts := by
  induction parts using List.reverseRecOn with
  | nil => rfl
  | append_singleton front last induction =>
      have front_eq := induction ((List.prefix_append front [last]).trans begins)
      rw [ofParts_concat]
      cases last with
      | root =>
          obtain rfl := eq_nil_of_outer begins (.inl rfl)
          rfl
      | here =>
          obtain rfl := eq_nil_of_outer begins (.inr rfl)
          rfl
      | up =>
          rw [parts_join_relative _ rfl (by decide), front_eq]
          rfl
      | name text =>
          have plain : PathPart.IsName text :=
            isName_of_mem_parts (begins.subset (List.mem_append_right front List.mem_cons_self))
          rw [PathPart.written, ← ofNames_singleton,
            parts_join _ (List.forall_mem_singleton.mpr plain), front_eq]
          rfl

end Path

namespace Layout

/-- The path of the deepest directory that all the inputs share: the one of the first input, cut
down for each of the others to the parts that it has in common with the one of that. -/
def sharedDirectory : List Path → Path
  | [] => ⟨""⟩
  | first :: rest =>
    rest.foldl (fun base input => .ofParts (commonStart base.parts input.parent.parts)) first.parent

/-! ## Common beginnings -/

section Beginnings

variable {start left right : List PathPart} {first : Path} {inputs : List Path}

/-- Two lists begin in the same way up to the end of their longest common beginning. -/
theorem prefix_commonStart_iff :
    start <+: commonStart left right ↔ start <+: left ∧ start <+: right := by
  induction start generalizing left right with
  | nil => simp
  | cons part start induction =>
      match left, right with
      | [], _ => simp [commonStart]
      | _ :: _, [] => simp [commonStart]
      | one :: lefts, other :: rights =>
          rw [commonStart]
          split
          · rename_i same
            subst same
            simp only [List.cons_prefix_cons, induction]
            tauto
          · rename_i different
            refine iff_of_false (by simp) ?_
            rintro ⟨one_begins, other_begins⟩
            obtain ⟨rfl, -⟩ := List.cons_prefix_cons.mp one_begins
            exact different (List.cons_prefix_cons.mp other_begins).1

theorem prefix_commonBase_iff : start <+: commonBase (first :: inputs) ↔
    ∀ input ∈ first :: inputs, start <+: input.parentParts := by
  have folded (base : List PathPart) :
      start <+: inputs.foldl (fun base input => commonStart base input.parentParts) base ↔
        start <+: base ∧ ∀ input ∈ inputs, start <+: input.parentParts := by
    induction inputs generalizing base with
    | nil => simp
    | cons second inputs induction =>
        rw [List.foldl_cons, induction, prefix_commonStart_iff, List.forall_mem_cons, and_assoc]
  rw [commonBase, folded, List.forall_mem_cons]

/-- Lists with the same beginnings are equal. -/
theorem eq_of_prefixes (same : ∀ start, start <+: left ↔ start <+: right) : left = right := by
  have into := (same left).mp List.prefix_rfl
  have back := (same right).mpr List.prefix_rfl
  exact into.eq_of_length_le back.length_le

end Beginnings

/-- Put together again and again, the path has the parts of the base. -/
theorem parts_sharedDirectory (inputs : List Path) :
    (sharedDirectory inputs).parts = commonBase inputs := by
  cases inputs with
  | nil => rfl
  | cons first rest =>
      have folded (base : Path) :
          (rest.foldl (fun base input =>
              .ofParts (commonStart base.parts input.parent.parts)) base).parts =
            rest.foldl (fun base input => commonStart base input.parentParts) base.parts := by
        induction rest generalizing base with
        | nil => rfl
        | cons second rest induction =>
            have begins : commonStart base.parts second.parent.parts <+: base.parts :=
              (prefix_commonStart_iff.mp List.prefix_rfl).1
            rw [List.foldl_cons, List.foldl_cons, induction, Path.parts_ofParts begins,
              Path.parts_parent]
      rw [sharedDirectory, folded, Path.parts_parent, commonBase]

theorem commonBase_prefix {inputs : List Path} {input : Path} (among : input ∈ inputs) :
    commonBase inputs <+: input.parentParts := by
  cases inputs with
  | nil => cases among
  | cons first rest => exact prefix_commonBase_iff.mp List.prefix_rfl input among

/-- The base can be taken away from the directory of each input. -/
theorem commonBase_append_withoutBase {inputs : List Path} {input : Path} (among : input ∈ inputs) :
    commonBase inputs ++ withoutBase (commonBase inputs) input.parentParts = input.parentParts := by
  have begins := commonBase_prefix among
  rw [withoutBase, if_pos (List.isPrefixOf_iff_prefix.mpr begins)]
  exact List.prefix_iff_eq_append.mp begins

/-- The directory that all inputs share is the deepest one around them: its parts are the longest
beginning that the directories of all inputs have in common. So it can be taken away from each of
these, and which inputs there are decides it, in whatever order and however often. It is the base of
the layout. -/
theorem sharedDirectory_greatest {inputs : List Path} (filled : inputs ≠ []) :
    (∀ start, start <+: (sharedDirectory inputs).parts ↔
      ∀ input ∈ inputs, start <+: input.parent.parts) ∧
    (∀ input ∈ inputs, (sharedDirectory inputs).parts ++
      withoutBase (sharedDirectory inputs).parts input.parent.parts = input.parent.parts) ∧
    (∀ others, (∀ input, input ∈ others ↔ input ∈ inputs) →
      (sharedDirectory others).parts = (sharedDirectory inputs).parts) ∧
    ∀ directory, (ofInputs directory inputs).base = (sharedDirectory inputs).parts := by
  simp only [parts_sharedDirectory, Path.parts_parent]
  refine ⟨fun start => ?_, fun input => commonBase_append_withoutBase, fun others same => ?_,
    fun directory => rfl⟩
  · obtain ⟨first, rest, rfl⟩ := List.exists_cons_of_ne_nil filled
    exact prefix_commonBase_iff
  · obtain ⟨first, rest, rfl⟩ := List.exists_cons_of_ne_nil filled
    obtain ⟨other, more, rfl⟩ := List.exists_cons_of_ne_nil
      (List.ne_nil_of_mem ((same first).mpr List.mem_cons_self))
    refine eq_of_prefixes fun start => ?_
    rw [prefix_commonBase_iff, prefix_commonBase_iff]
    exact forall_congr' fun input => imp_congr_left (same input)

/-- A directory that is spelled in three ways, once with a step back behind it. -/
theorem sharedDirectory_greatest_threeSpellings :
    let one : Path := ⟨"/srv/./app/a/x.vue"⟩
    let two : Path := ⟨"/srv//app/../y.vue"⟩
    let three : Path := ⟨"/srv/app/z.vue/"⟩
    let base : List PathPart := [.root, .name "srv", .name "app"]
    (sharedDirectory [one, two, three]).parts = base ∧
      (∀ start, start <+: base ↔ ∀ input ∈ [one, two, three], start <+: input.parent.parts) ∧
      withoutBase base two.parent.parts = [.up] ∧ base ++ [.up] = two.parent.parts ∧
      (sharedDirectory [three, one, three, two]).parts = base ∧
      ∀ directory, (ofInputs directory [one, two, three]).base = base := by
  intro one two three base
  have shared : (sharedDirectory [one, two, three]).parts = base := by decide +kernel
  have behind : withoutBase base two.parent.parts = [.up] := by decide +kernel
  have mixed (one two three : Path) :
      ∀ input, input ∈ [three, one, three, two] ↔ input ∈ [one, two, three] := by
    grind
  obtain ⟨greatest, whole, unordered, base_eq⟩ :=
    sharedDirectory_greatest (List.cons_ne_nil one [two, three])
  rw [shared] at greatest whole unordered base_eq
  have two_whole := whole two (by simp)
  rw [behind] at two_whole
  exact ⟨shared, greatest, behind, two_whole, unordered _ (mixed one two three), base_eq⟩

end Layout

end IslandSlots
