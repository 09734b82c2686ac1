import IslandSlots.Component.Tag

/-!
# Bodies of blocks

Where the content of a block ends. Most blocks end at the first closing tag of their name. A
template ends at the closing tag that no template inside it takes: comments are passed over, a
template inside is passed over with all it holds, and one that is never closed counts as text.
-/

namespace IslandSlots.BlockBody

open BlockTag

/-- The content up to the first closing tag of the given name, and what follows that tag. -/
def upToClosing? (name : List Char) : List Char → Option (List Char × List Char)
  | [] => none
  | c :: text =>
    match closing? name (c :: text) with
    | some rest => some ([], rest)
    | none => (upToClosing? name text).map fun (content, rest) => (c :: content, rest)

/-- What follows a comment. -/
def comment? (text : List Char) : Option (List Char) := do
  return (← Text.splitFirst? ['-', '-', '>'] (← Text.after? ['<', '!', '-', '-'] text)).2

/-- The end of a tag: the text from the first `>` or `/>` outside quoted texts on. -/
def tagEnd : List Char → List Char
  | [] => []
  | c :: text =>
    match _found : quoted? (c :: text) with
    | some (_, rest) => tagEnd rest
    | none => if c = '>' || (c = '/' && text.head? = some '>') then c :: text else tagEnd text
termination_by text => text.length
decreasing_by
  · exact length_of_quoted? _found
  · simp

/-- The name of a template block. -/
def templateName : List Char :=
  ['t', 'e', 'm', 'p', 'l', 'a', 't', 'e']

/-- How a template inside a template begins. -/
inductive NestedTag where
  /-- With a tag that ends it at once. -/
  | whole (rest : List Char)
  /-- With a tag after which its content begins. -/
  | opening (content : List Char)

/-- The text after the tag. -/
def NestedTag.behind : NestedTag → List Char
  | .whole rest => rest
  | .opening content => content

/-- The tag of a template inside a template. -/
def nestedTag? (text : List Char) : Option NestedTag := do
  let behind ← Text.after? ('<' :: templateName) text
  if behind.head?.any fun c => isSpace c || c == '/' || c == '>' then
    match tagEnd behind with
    | '/' :: '>' :: rest => some (.whole rest)
    | '>' :: content => some (.opening content)
    | _ => none
  else none

theorem length_of_upToClosing? {name text content rest : List Char}
    (found : upToClosing? name text = some (content, rest)) : rest.length < text.length := by
  induction text generalizing content with
  | nil => simp [upToClosing?] at found
  | cons c text induction =>
    simp only [upToClosing?] at found
    split at found
    · rename_i closes
      simp only [Option.some.injEq, Prod.mk.injEq] at found
      exact found.2 ▸ length_of_closing? closes
    · simp only [Option.map_eq_some_iff, Prod.mk.injEq, Prod.exists] at found
      obtain ⟨_, _, inner, _, rfl⟩ := found
      exact Nat.lt_succ_of_lt (induction inner)

theorem length_of_comment? {text rest : List Char} (found : comment? text = some rest) :
    rest.length < text.length := by
  simp only [comment?, Option.pure_def, Option.bind_eq_bind, Option.bind_eq_some_iff,
    Option.some.injEq] at found
  obtain ⟨inside, opens, ⟨body, after⟩, ends, rfl⟩ := found
  simp [Text.eq_of_after? opens, Text.eq_of_splitFirst? ends]
  omega

theorem length_tagEnd_le (text : List Char) : (tagEnd text).length ≤ text.length := by
  fun_induction tagEnd text with
  | case1 => simp
  | case2 c text _ rest found induction =>
    have shorter := length_of_quoted? found
    omega
  | case3 => simp
  | case4 c text _ _ induction =>
    simp only [List.length_cons]
    omega

theorem length_of_nestedTag? {text : List Char} {tag : NestedTag}
    (found : nestedTag? text = some tag) : tag.behind.length < text.length := by
  simp only [nestedTag?, Option.bind_eq_bind, Option.bind_eq_some_iff] at found
  obtain ⟨behind, starts, found⟩ := found
  have shorter := length_tagEnd_le behind
  have parts := congrArg List.length (Text.eq_of_after? starts)
  simp only [List.length_append, List.length_cons] at parts
  split at found
  · split at found
    · rename_i rest ends
      rw [ends] at shorter
      simp only [List.length_cons] at shorter
      obtain rfl := Option.some.inj found
      simp only [NestedTag.behind]
      omega
    · rename_i content ends
      rw [ends] at shorter
      simp only [List.length_cons] at shorter
      obtain rfl := Option.some.inj found
      simp only [NestedTag.behind]
      omega
    · simp at found
  · simp at found

mutual

/-- The text from the end of the content of a template on. -/
def contentEnd (text : List Char) : { rest : List Char // rest.length ≤ text.length } :=
  match text with
  | [] => ⟨[], Nat.le_refl _⟩
  | c :: tail =>
    match passed? (c :: tail) with
    | some ⟨rest, shorter⟩ =>
      let ⟨ending, bound⟩ := contentEnd rest
      ⟨ending, Nat.le_trans bound (Nat.le_of_lt shorter)⟩
    | none =>
      if (closing? templateName (c :: tail)).isSome then ⟨c :: tail, Nat.le_refl _⟩
      else
        let ⟨ending, bound⟩ := contentEnd tail
        ⟨ending, Nat.le_succ_of_le bound⟩
-- One number, not a pair, so that closed cases can be evaluated.
termination_by 2 * text.length + 1
decreasing_by all_goals simp only [List.length_cons] at *; omega

/-- What follows a comment or a whole template. -/
def passed? (text : List Char) : Option { rest : List Char // rest.length < text.length } :=
  match found : comment? text with
  | some rest => some ⟨rest, length_of_comment? found⟩
  | none =>
    match nested : nestedTag? text with
    | none => none
    | some (.whole rest) => some ⟨rest, length_of_nestedTag? nested⟩
    | some (.opening content) =>
      have shorter : content.length < text.length := length_of_nestedTag? nested
      let ⟨ending, bound⟩ := contentEnd content
      match closes : closing? templateName ending with
      | some rest => some ⟨rest, by have := length_of_closing? closes; omega⟩
      | none => none
termination_by 2 * text.length
decreasing_by all_goals omega

end

/-- Whether a template inside the content at the front of a text is opened and never closed. -/
def leavesOpen (text : List Char) : Bool :=
  match text with
  | [] => false
  | c :: tail =>
    match _found : nestedTag? (c :: tail), passed? (c :: tail) with
    | some (.opening content), some ⟨rest, _⟩ => leavesOpen content || leavesOpen rest
    | some (.opening _), none => true
    | _, some ⟨rest, _⟩ => leavesOpen rest
    | _, none => (closing? templateName (c :: tail)).isNone && leavesOpen tail
termination_by text.length
decreasing_by
  · exact length_of_nestedTag? _found
  all_goals simp_all

/-- The content of a template, and what follows its closing tag. -/
def template? (text : List Char) : Option (List Char × List Char) :=
  let ending := (contentEnd text).val
  (closing? templateName ending).map (text.take (text.length - ending.length), ·)

theorem length_of_template? {text content rest : List Char}
    (found : template? text = some (content, rest)) : rest.length < text.length := by
  simp only [template?, Option.map_eq_some_iff, Prod.mk.injEq] at found
  obtain ⟨_, closes, _, rfl⟩ := found
  exact Nat.lt_of_lt_of_le (length_of_closing? closes) (contentEnd text).property

end IslandSlots.BlockBody
