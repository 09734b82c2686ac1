import IslandSlots.Proofs.Render.Spine

/-!
# The tokens of a tree

A tree read in the order of the document gives back tokens: a start tag and an end tag around the
content of each element, and one token for each text and each end of a fragment. The tree that
chunks of markup build gives back the tokens of the chunks. What differs is the form: ordinary
comments are gone, texts are joined, an element that closes itself has an end tag, and end tags
that may be left out are there.
-/

namespace IslandSlots

namespace Token

/-- The tokens that show in a tree for a token. -/
def spelled : Token → List Token
  | .opening tag attrs true => [.opening tag attrs false, .closing tag]
  | .comment _ => []
  | token => [token]

/-- Puts text after tokens, joined to a text that ends them. -/
def extend (content : String) : List Token → List Token
  | [] => [.text content]
  | [.text found] => [.text (found ++ content)]
  | token :: rest => token :: extend content rest

/-- Adds a token at the end. -/
def push (tokens : List Token) : Token → List Token
  | .text content => extend content tokens
  | token => tokens ++ [token]

/-- Tokens with texts joined that follow one another. -/
def merged (tokens : List Token) : List Token :=
  tokens.foldl push []

/-- Tokens among which further end tags are put, all of elements that may leave theirs out. -/
inductive Completes : List Token → List Token → Prop where
  | nil : Completes [] []
  | keep (token : Token) {tokens completed : List Token} :
      Completes tokens completed → Completes (token :: tokens) (token :: completed)
  | close {tag : String} {tokens completed : List Token} :
      Tag.hasOptionalEnd tag → Completes tokens completed →
        Completes tokens (.closing tag :: completed)

theorem extend_concat_text (content found : String) (tokens : List Token) :
    extend content (tokens ++ [.text found]) = tokens ++ [.text (found ++ content)] := by
  induction tokens with
  | nil => rfl
  | cons token tokens induction =>
      obtain ⟨next, rest, split⟩ : ∃ next rest, tokens ++ [.text found] = next :: rest := by
        cases tokens <;> simp
      rw [List.cons_append, split, extend, ← split, induction, List.cons_append]
      simp

theorem extend_concat {content : String} {tokens : List Token} {last : Token}
    (no_text : ∀ found, last ≠ .text found) :
    extend content (tokens ++ [last]) = tokens ++ [last, .text content] := by
  induction tokens with
  | nil =>
      cases last with
      | text found => exact absurd rfl (no_text found)
      | _ => rfl
  | cons token tokens induction =>
      obtain ⟨next, rest, split⟩ : ∃ next rest, tokens ++ [last] = next :: rest := by
        cases tokens <;> simp
      rw [List.cons_append, split, extend, ← split, induction, List.cons_append]
      simp

namespace Completes

theorem append {left leftCompleted right rightCompleted : List Token}
    (first : Completes left leftCompleted) (second : Completes right rightCompleted) :
    Completes (left ++ right) (leftCompleted ++ rightCompleted) := by
  induction first with
  | nil => exact second
  | keep token _ induction => exact induction.keep token
  | close optional _ induction => exact induction.close optional

theorem refl (tokens : List Token) : Completes tokens tokens := by
  induction tokens with
  | nil => exact .nil
  | cons token tokens induction => exact induction.keep token

theorem closing {tag : String} {tokens completed : List Token}
    (complete : Completes tokens completed) (optional : Tag.hasOptionalEnd tag) :
    Completes tokens (completed ++ [.closing tag]) := by
  have ended : Completes (tokens ++ []) (completed ++ [.closing tag]) :=
    complete.append (.close optional .nil)
  rwa [List.append_nil] at ended

end Completes

end Token

namespace Kind

/-- The tokens of a node that come before those of what is under it. A node that no token makes
shows as an ordinary comment. -/
def before : Kind → List Token
  | .root => []
  | .element tag attrs => [.opening tag attrs false]
  | .text content => [.text content]
  | .comment .start => [.fragmentStart]
  | .comment .stop => [.fragmentEnd]
  | kind => [.comment kind.label]

/-- The tokens of a node that come after those of what is under it. -/
def after : Kind → List Token
  | .element tag _ => [.closing tag]
  | _ => []

end Kind

namespace Branch

mutual

/-- The tokens of a branch in the order of the document. -/
def tokens : Branch → List Token
  | .node kind children => kind.before ++ tokensAll children ++ kind.after

/-- The tokens of branches in order. -/
def tokensAll : List Branch → List Token
  | [] => []
  | child :: children => child.tokens ++ tokensAll children

end

@[simp]
theorem tokensAll_append (left right : List Branch) :
    tokensAll (left ++ right) = tokensAll left ++ tokensAll right := by
  induction left with
  | nil => rfl
  | cons child children induction => simp [tokensAll, induction]

end Branch

namespace Spine

open Branch Token

/-! ## What is written -/

/-- The tokens of the open nodes and of what is finished under them, as far as they are known. -/
def writtenIn (current : Frame) : List Frame → List Token
  | [] => current.kind.before ++ tokensAll current.done
  | frame :: outer =>
    writtenIn frame outer ++ (current.kind.before ++ tokensAll current.done)

/-- The tokens of the open nodes and of what is finished under them, as far as they are known. -/
def written (spine : Spine) : List Token :=
  writtenIn spine.current spine.outer

theorem writtenIn_add (current : Frame) (outer : List Frame) (branch : Branch) :
    writtenIn (current.add branch) outer = writtenIn current outer ++ branch.tokens := by
  cases outer <;> simp [writtenIn, tokensAll]

theorem written_add (spine : Spine) (branch : Branch) :
    (spine.add branch).written = spine.written ++ branch.tokens :=
  writtenIn_add spine.current spine.outer branch

theorem written_opening (spine : Spine) (kind : Kind) :
    (spine.opening kind).written = spine.written ++ kind.before := by
  simp [written, opening, writtenIn, tokensAll]

theorem written_finished (current frame : Frame) (outer : List Frame) :
    writtenIn (frame.add current.branch) outer =
      writtenIn current (frame :: outer) ++ current.kind.after := by
  simp [writtenIn_add, writtenIn, Frame.branch, Branch.tokens]

/-- Ending elements that need no end tag puts in end tags that may be left out. -/
theorem completes_endImplied {spine : Spine} {tokens : List Token}
    (complete : Completes tokens spine.written) : Completes tokens spine.endImplied.written := by
  obtain ⟨current, outer⟩ := spine
  induction outer generalizing current with
  | nil => exact complete
  | cons frame outer induction =>
      rw [endImplied, endImpliedIn]
      split
      · rename_i implied
        apply induction (frame.add current.branch)
        have finished := written_finished current frame outer
        obtain ⟨kind, done⟩ := current
        cases kind with
        | element tag attrs =>
            rw [written, finished]
            exact complete.closing implied
        | _ => cases implied
      · exact complete

/-- The tokens given so far, joined where texts meet, are what is written but for end tags that
may be left out. A text that was given last is the one that is finished last. -/
inductive Spells (spine : Spine) (tokens : List Token) : Prop where
  | text {content : String} {done : List Branch} {given : List Token} :
      spine.current.done = done ++ [.node (.text content) []] →
        tokens = given ++ [.text content] →
          Completes given (writtenIn ⟨spine.current.kind, done⟩ spine.outer) →
            Spells spine tokens
  | other :
      (∀ content, joinText content spine.current.done = none) →
        (∀ content, extend content tokens = tokens ++ [.text content]) →
          Completes tokens spine.written → Spells spine tokens

theorem Spells.completes {spine : Spine} {tokens : List Token} (spells : spine.Spells tokens) :
    Completes tokens spine.written := by
  cases spells with
  | @text content done given done_eq tokens_eq complete =>
      obtain ⟨⟨kind, _⟩, outer⟩ := spine
      subst done_eq tokens_eq
      have added := writtenIn_add ⟨kind, done⟩ outer (.node (.text content) [])
      simp only [Frame.add] at added
      rw [written, added]
      exact complete.append (.refl _)
  | other _ _ complete => exact complete

theorem spells_start : start.Spells [] := by
  apply Spells.other
  · intro content
    rfl
  · intro content
    rfl
  · exact .nil

/-- After a token that is no text, a text begins anew. -/
theorem Spells.ending {spine : Spine} {tokens : List Token} {last : Token}
    (no_join : ∀ content, joinText content spine.current.done = none)
    (no_text : ∀ content, last ≠ .text content)
    (complete : Completes (tokens ++ [last]) spine.written) : spine.Spells (tokens ++ [last]) := by
  apply Spells.other no_join
  · intro content
    rw [extend_concat no_text]
    simp
  · exact complete

/-- A node that holds nothing and is no text adds its own tokens. -/
theorem Spells.leaf {before after : Spine} {tokens : List Token} {kind : Kind} {offset : Nat}
    (spells : before.Spells tokens) (step : before.place kind offset = .ok after)
    (no_text : ∀ content, kind ≠ .text content) :
    (∀ content, joinText content after.current.done = none) ∧
      Completes (tokens ++ (kind.before ++ kind.after)) after.written := by
  obtain ⟨-, rfl⟩ := place_eq_ok.mp step
  constructor
  · intro content
    apply joinText_none
    intro found children same
    exact no_text found (congrArg Branch.kind same)
  · rw [written_add, Branch.tokens, tokensAll, List.append_nil]
    exact spells.completes.append (.refl _)

/-- A token leads from spelled tokens to spelled tokens. -/
theorem Spells.token {before after : Spine} {tokens : List Token} {token : Token} {offset : Nat}
    (spells : before.Spells tokens) (grounded : before.base = .root)
    (step : before.token offset token = .ok after) :
    after.Spells (token.spelled.foldl push tokens) := by
  cases token with
  | opening tag attrs selfClosing =>
      cases selfClosing with
      | true =>
          obtain ⟨no_join, complete⟩ := spells.leaf step (by simp)
          rw [Kind.before, Kind.after, ← List.append_assoc] at complete
          exact .ending no_join (by simp) complete
      | false =>
          obtain ⟨-, rfl⟩ := enter_eq_ok.mp step
          apply Spells.ending
          · intro content
            rfl
          · simp
          · rw [written_opening]
            exact spells.completes.append (.refl _)
  | closing tag =>
      obtain ⟨ended, ended_eq, inside, rfl⟩ := closeTag_eq_ok step
      have complete : Completes tokens ended.written := by
        rcases ended_eq with rfl | rfl
        · exact spells.completes
        · exact completes_endImplied spells.completes
      have base_eq : ended.base = .root := by
        rcases ended_eq with rfl | rfl
        · exact grounded
        · rw [base_endImplied, grounded]
      obtain ⟨⟨kind, done⟩, outer⟩ := ended
      -- What is closed has a tag, so it is not the root and something is around it.
      obtain ⟨attrs, rfl⟩ := Kind.eq_of_hasTag inside
      cases outer with
      | nil => cases base_eq
      | cons frame outer =>
          apply Spells.ending
          · intro content
            exact joinText_none (by simp [Frame.branch])
          · simp
          · rw [written, close, written_finished]
            exact complete.append (.refl _)
  | text content =>
      rw [Spine.token, Spine.text] at step
      cases spells with
      | @text found done given done_eq tokens_eq complete =>
          subst tokens_eq
          rw [done_eq, joinText_concat] at step
          cases step
          exact .text rfl (extend_concat_text content found given) complete
      | other no_join no_text complete =>
          rw [no_join] at step
          obtain ⟨-, rfl⟩ := place_eq_ok.mp step
          exact .text rfl (no_text content) complete
  | fragmentStart =>
      obtain ⟨no_join, complete⟩ := spells.leaf step (by simp)
      exact .ending no_join (by simp) complete
  | fragmentEnd =>
      obtain ⟨no_join, complete⟩ := spells.leaf step (by simp)
      exact .ending no_join (by simp) complete
  | comment body =>
      cases step
      exact spells

/-- Tokens lead from spelled tokens to spelled tokens. -/
theorem Spells.tokens {before after : Spine} {given run : List Token} {offset : Nat}
    (spells : before.Spells given) (grounded : before.base = .root)
    (steps : before.tokens offset run = .ok after) :
    after.Spells ((run.flatMap spelled).foldl push given) ∧ after.base = .root := by
  induction run generalizing before given with
  | nil =>
      cases steps
      exact ⟨spells, grounded⟩
  | cons token run induction =>
      rw [Spine.tokens] at steps
      obtain ⟨next, step, steps⟩ := bind_eq_ok.mp steps
      rw [List.flatMap_cons, List.foldl_append]
      exact induction (spells.token grounded step) ((base_token step).trans grounded) steps

/-- Chunks that are fed in order lead from spelled tokens to spelled tokens. -/
theorem Spells.chunks {before after : Spine} {given : List Token} {chunks : List (Markup × Nat)}
    (spells : before.Spells given) (grounded : before.base = .root)
    (steps : before.actAll (chunks.map fun (chunk, offset) => .feed chunk offset) = .ok after) :
    ∃ pieces, chunks.mapM (fun chunk => chunk.1.tokens) = .ok pieces ∧
      after.Spells ((pieces.flatten.flatMap spelled).foldl push given) ∧ after.base = .root := by
  induction chunks generalizing before given with
  | nil =>
      cases steps
      exact ⟨[], rfl, spells, grounded⟩
  | cons chunk chunks induction =>
      obtain ⟨chunk, offset⟩ := chunk
      rw [List.map_cons, actAll, act, feed] at steps
      obtain ⟨next, step, steps⟩ := bind_eq_ok.mp steps
      cases piece_eq : chunk.tokens with
      | error error =>
          rw [piece_eq] at step
          cases step
      | ok piece =>
          rw [piece_eq] at step
          obtain ⟨next_spells, next_grounded⟩ := spells.tokens grounded step
          obtain ⟨pieces, pieces_eq, after_spells⟩ := induction next_spells next_grounded steps
          refine ⟨piece :: pieces, ?_, ?_⟩
          · simp only [List.mapM_cons, piece_eq, pieces_eq]
            rfl
          · rwa [List.flatten_cons, List.flatMap_append, List.foldl_append]

/-- A tree with nothing open but its root gives back what is written. -/
theorem tokens_branch {spine : Spine} (closed : spine.outer = []) (grounded : spine.base = .root) :
    spine.current.branch.tokens = spine.written := by
  obtain ⟨⟨kind, done⟩, outer⟩ := spine
  subst closed
  have kind_eq : kind = .root := grounded
  subst kind_eq
  simp [Frame.branch, Branch.tokens, written, writtenIn, Kind.after]

end Spine

/-- Nothing that is fed is lost, doubled, put in another order or put in another place: when chunks
of markup make a tree, the tokens of the tree are those of the chunks, but for end tags that may be
left out. -/
theorem Tree.completes_of_chunks {chunks : List (Markup × Nat)} {length : Nat} {tree : Tree}
    (built : Tree.ofActions (chunks.map fun (chunk, offset) => .feed chunk offset) length =
      .ok tree) :
    ∃ pieces, chunks.mapM (fun chunk => chunk.1.tokens) = .ok pieces ∧
      Token.Completes (Token.merged (pieces.flatten.flatMap Token.spelled))
        (tree.branch Tree.root).tokens := by
  obtain ⟨spine, fed, closed, rfl⟩ := Spine.ofActions_eq_ok.mp built
  obtain ⟨pieces, pieces_eq, spells, grounded⟩ := Spine.spells_start.chunks rfl fed
  refine ⟨pieces, pieces_eq, ?_⟩
  have ended_grounded : spine.endImplied.base = .root := by rw [Spine.base_endImplied, grounded]
  rw [Spine.branch_root closed, Spine.tokens_branch closed ended_grounded]
  exact Spine.completes_endImplied spells.completes

/-- A list whose item is ended by the end of the list, with a comment between two texts. -/
theorem Tree.completes_of_list_chunks :
    ∃ tree,
      Tree.ofActions
        ([(Markup.empty.pushText "<ul><li>a<!-- note -->", 0),
          (Markup.empty.pushText "b<img src=\"c\"></ul>", 30)].map
            fun (chunk, offset) => .feed chunk offset) 60 = .ok tree ∧
      ∃ pieces,
        [(Markup.empty.pushText "<ul><li>a<!-- note -->", 0),
          (Markup.empty.pushText "b<img src=\"c\"></ul>", 30)].mapM
            (fun chunk => chunk.1.tokens) = .ok pieces ∧
        Token.Completes (Token.merged (pieces.flatten.flatMap Token.spelled))
          (tree.branch Tree.root).tokens := by
  obtain ⟨tree, built⟩ := exists_eq_ok (Tree.ofActions
    ([(Markup.empty.pushText "<ul><li>a<!-- note -->", 0),
      (Markup.empty.pushText "b<img src=\"c\"></ul>", 30)].map
        fun (chunk, offset) => .feed chunk offset) 60) (by decide +kernel)
  exact ⟨tree, built, Tree.completes_of_chunks built⟩

end IslandSlots
