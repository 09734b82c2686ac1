import IslandSlots.Proofs.Template.RoundTrip

/-!
# Templates further on in a file

A template that stands some bytes further on in its file is read in the same way. Its forest is the
same, and so is what is wrong with it; every place in them is as many bytes further on.
-/

namespace IslandSlots

/-! ## Places further on -/

/-- The span some bytes further on. -/
def Span.shift (more : Nat) (span : Span) : Span :=
  ⟨span.start + more, span.stop + more⟩

/-- The opening tag some bytes further on. -/
def OpeningTag.shift (more : Nat) (opening : OpeningTag) : OpeningTag :=
  { opening with span := opening.span.shift more }

/-- The same fault some bytes further on. -/
def TemplateError.shift (more : Nat) (error : TemplateError) : TemplateError :=
  { error with offset := error.offset + more }

/-- The piece some bytes further on. -/
def TemplatePiece.shift (more : Nat) : TemplatePiece → TemplatePiece
  | .opening tag => .opening (tag.shift more)
  | .closing tag span => .closing tag (span.shift more)
  | piece => piece

namespace TemplateNode

mutual

/-- The node with all its tags some bytes further on. -/
def shift (more : Nat) : TemplateNode → TemplateNode
  | .element opening children closing =>
    .element (opening.shift more) (shiftAll more children) (closing.map (Span.shift more))
  | node => node

/-- The nodes with all their tags some bytes further on. -/
def shiftAll (more : Nat) : List TemplateNode → List TemplateNode
  | [] => []
  | node :: nodes => shift more node :: shiftAll more nodes

end

end TemplateNode

/-- The open element some bytes further on. -/
def OpenElement.shift (more : Nat) (element : OpenElement) : OpenElement :=
  ⟨element.opening.shift more, TemplateNode.shiftAll more element.children⟩

/-- What is read of a template, some bytes further on. -/
def Nesting.shift (more : Nat) (nesting : Nesting) : Nesting :=
  ⟨nesting.stack.map (OpenElement.shift more), TemplateNode.shiftAll more nesting.roots⟩

/-- What a step comes to some bytes further on, given how its value is shifted. -/
def shiftOutcome {α : Type} (more : Nat) (shift : α → α) :
    Except TemplateError α → Except TemplateError α
  | .ok value => .ok (shift value)
  | .error error => .error (error.shift more)

variable {more : Nat}

/-- Steps one behind the other can be shifted one by one. -/
theorem shiftOutcome_bind {α β : Type} {shift : α → α} {after : β → β}
    {next later : α → Except TemplateError β} (result : Except TemplateError α)
    (step : ∀ value, later (shift value) = shiftOutcome more after (next value)) :
    (shiftOutcome more shift result >>= later) = shiftOutcome more after (result >>= next) := by
  cases result with
  | ok value => exact step value
  | error error => rfl

/-! ## Pieces further on -/

namespace TemplatePiece

/-- A piece and what follows it, with the piece some bytes further on. -/
def shiftFound (more : Nat) (found : TemplatePiece × List UInt8) : TemplatePiece × List UInt8 :=
  (found.1.shift more, found.2)

variable {offset : Nat} {bytes : List UInt8}

theorem readComment_shift : readComment (offset + more) bytes =
    shiftOutcome more (shiftFound more) (readComment offset bytes) := by
  rw [readComment, readComment]
  split <;> rfl

theorem readInterpolation_shift : readInterpolation (offset + more) bytes =
    shiftOutcome more (shiftFound more) (readInterpolation offset bytes) := by
  rw [readInterpolation, readInterpolation]
  split <;> rfl

theorem readClosing_shift : readClosing (offset + more) bytes =
    shiftOutcome more (shiftFound more) (readClosing offset bytes) := by
  have place_eq (taken : Nat) : offset + more + 2 + taken = offset + 2 + taken + more := by omega
  simp only [readClosing, place_eq]
  split
  · split
    · rw [Nat.add_right_comm _ more 1]
      rfl
    · rfl
  · rfl

theorem readOpening_shift : readOpening (offset + more) bytes =
    shiftOutcome more (shiftFound more) (readOpening offset bytes) := by
  have place_eq (taken : Nat) : offset + more + 1 + taken = offset + 1 + taken + more := by omega
  simp only [readOpening, place_eq]
  split <;> rfl

/-- The piece that begins some bytes further on is the same piece there. -/
theorem read_shift (first : UInt8) : read (offset + more) first bytes =
    shiftOutcome more (shiftFound more) (read offset first bytes) := by
  simp only [read]
  split
  · exact readComment_shift
  · split
    · exact readClosing_shift
    · split
      · exact readOpening_shift
      · split
        · exact readInterpolation_shift
        · rfl

end TemplatePiece

/-! ## Forests further on -/

namespace TemplateNode

theorem shiftAll_eq_map (nodes : List TemplateNode) : shiftAll more nodes = nodes.map (shift more) := by
  induction nodes with
  | nil => rfl
  | cons node nodes induction => rw [shiftAll, induction, List.map_cons]

theorem shiftAll_append (front back : List TemplateNode) :
    shiftAll more (front ++ back) = shiftAll more front ++ shiftAll more back := by
  simp only [shiftAll_eq_map, List.map_append]

theorem isBlank_shift (node : TemplateNode) : (node.shift more).isBlank = node.isBlank := by
  cases node <;> rfl

theorem significant_shiftAll (nodes : List TemplateNode) :
    significant (shiftAll more nodes) = shiftAll more (significant nodes) := by
  rw [significant, significant, shiftAll_eq_map, shiftAll_eq_map, List.filter_map]
  congr 2
  funext node
  exact congrArg _ (isBlank_shift node)

end TemplateNode

namespace Nesting

open TemplateNode

theorem put_shift (nesting : Nesting) (node : TemplateNode) :
    (nesting.shift more).put (node.shift more) = (nesting.put node).shift more := by
  obtain ⟨stack, roots⟩ := nesting
  cases stack <;> simp [put, shift, OpenElement.shift, shiftAll_append, shiftAll]

theorem closed?_shift (tag : String) (span : Span) (stack : List OpenElement)
    (last : List TemplateNode) :
    closed? tag (span.shift more) (stack.map (OpenElement.shift more)) (shiftAll more last) =
      (closed? tag span stack last).map fun found =>
        (found.1.shift more, found.2.map (OpenElement.shift more)) := by
  induction stack generalizing last with
  | nil => rfl
  | cons inner outer induction =>
      rw [List.map_cons, closed?, closed?, OpenElement.shift, ← shiftAll_append]
      by_cases named : inner.opening.tag = tag
      · rw [if_pos named]
        exact if_pos named
      · rw [if_neg named, ← induction]
        exact if_neg named

/-- A piece further on is taken in as it is. -/
theorem add_shift (nesting : Nesting) (piece : TemplatePiece) :
    (nesting.shift more).add (piece.shift more) =
      shiftOutcome more (shift more) (nesting.add piece) := by
  cases piece with
  | opening tag =>
      rw [TemplatePiece.shift, add, add]
      by_cases whole : tag.selfClosing
      · rw [if_pos whole]
        refine (if_pos whole).trans (congrArg Except.ok ?_)
        exact put_shift nesting (.element tag [] none)
      · rw [if_neg whole]
        exact if_neg whole
  | closing tag span =>
      have same : closed? tag (span.shift more) (nesting.shift more).stack [] =
          (closed? tag span nesting.stack []).map fun found =>
            (found.1.shift more, found.2.map (OpenElement.shift more)) :=
        closed?_shift tag span nesting.stack []
      rw [TemplatePiece.shift, add, add, same]
      cases closed? tag span nesting.stack [] with
      | none => rfl
      | some closed => exact congrArg Except.ok (put_shift ⟨closed.2, nesting.roots⟩ closed.1)
  | text content => exact congrArg Except.ok (put_shift nesting (.text content))
  | interpolation expression =>
      exact congrArg Except.ok (put_shift nesting (.interpolation expression))
  | comment body => exact congrArg Except.ok (put_shift nesting (.comment body))

theorem finish_shift (nesting : Nesting) :
    (nesting.shift more).finish = shiftOutcome more (shiftAll more) nesting.finish := by
  obtain ⟨stack, roots⟩ := nesting
  cases stack with
  | nil => exact congrArg Except.ok (significant_shiftAll roots)
  | cons inner outer => rfl

/-- What is left of a template is read further on as it is, whatever is read of it before. -/
theorem forest_shift (nesting : Nesting) (offset : Nat) (bytes : List UInt8) :
    (nesting.shift more).forest (offset + more) bytes =
      shiftOutcome more (shiftAll more) (nesting.forest offset bytes) := by
  match bytes with
  | [] => rw [forest_nil, forest_nil, finish_shift]
  | first :: bytes =>
      rw [forest_cons, forest_cons, TemplatePiece.read_shift]
      cases found : TemplatePiece.read offset first bytes with
      | error error => rfl
      | ok parts =>
          obtain ⟨piece, rest⟩ := parts
          have shorter := TemplatePiece.length_of_read found
          have next_eq : offset + more + 1 + (bytes.length - rest.length) =
              offset + 1 + (bytes.length - rest.length) + more := by
            omega
          have behind (after : Nesting) :=
            forest_shift after (offset + 1 + (bytes.length - rest.length)) rest
          simp only [shiftOutcome, TemplatePiece.shiftFound]
          rw [add_shift, next_eq]
          exact shiftOutcome_bind (nesting.add piece) behind
termination_by bytes.length

end Nesting

/-- A template behind some bytes of its file is read as at the start of a file, with the same nodes
or the same fault, and every place as many bytes further on. -/
theorem TemplateNode.forest_shifted (base : Nat) (template : String) :
    forest base template =
      match forest 0 template with
      | .ok nodes => .ok (shiftAll base nodes)
      | .error error => .error { error with offset := error.offset + base } := by
  have shifted : Nesting.empty.forest (0 + base) (Text.bytes template) =
      shiftOutcome base (shiftAll base) (forest 0 template) :=
    Nesting.forest_shift Nesting.empty 0 (Text.bytes template)
  rw [Nat.zero_add] at shifted
  calc
    forest base template = Nesting.empty.forest base (Text.bytes template) := rfl
    _ = shiftOutcome base (shiftAll base) (forest 0 template) := shifted
    _ = _ := by cases forest 0 template <;> rfl

/-- The place of an element that is left open counts from the start of the file. -/
example : TemplateNode.forest 9 "<i/>é<ul><li>b" matches .error ⟨.unclosed "li", 19⟩ := by
  decide +kernel

end IslandSlots
