import IslandSlots.Proofs.Markup.Respelled
import IslandSlots.Proofs.Render.Pushes
import IslandSlots.Proofs.Render.Store
import IslandSlots.Script.Module
import Mathlib.Algebra.BigOperators.Group.Finset.Basic

/-!
# Markup pushed as a literal

Static markup is pushed as a string literal or as a template literal without holes. The one is read
as the markup itself and the other one with the backslashes that its source needs, so that both
give the same nodes, and the same texts and attributes where no backslash is needed.
-/

namespace IslandSlots

open Script.Template (isMarked)

namespace Kind

/-- A kind without the text that comes from the markup. -/
def bare : Kind → Kind
  | .element tag _ => .element tag ""
  | .text _ => .text ""
  | kind => kind

/-- The text of a kind that comes from the markup. -/
def shown : Kind → List Char
  | .element _ attrs => attrs.toList
  | .text content => content.toList
  | _ => []

theorem accepts_bare (kind child : Kind) : kind.bare.accepts child.bare = kind.accepts child := by
  cases kind <;> cases child <;> rfl

theorem accepts_congr {kind other child second : Kind} (same : kind.bare = other.bare)
    (children : child.bare = second.bare) : kind.accepts child = other.accepts second := by
  rw [← accepts_bare kind, ← accepts_bare other, same, children]

theorem isImplied_bare (kind : Kind) : kind.bare.isImplied = kind.isImplied := by
  cases kind <;> rfl

theorem hasTag_bare (tag : String) (kind : Kind) : kind.bare.hasTag tag = kind.hasTag tag := by
  cases kind <;> rfl

end Kind

theorem Kind.eq_text_of_bare {kind : Kind} {content : String}
    (same : kind.bare = (Kind.text content).bare) : ∃ found, kind = .text found := by
  cases kind with
  | text found => exact ⟨found, rfl⟩
  | _ => cases same

namespace Tree

variable {tree : Tree} {above last : Nat} {content : String}

/-- The last child of a node is a text. -/
def EndsWithText (tree : Tree) (above : Nat) : Prop :=
  ∃ last content, tree.lastChild? above = some last ∧ tree.kind last = .text content

/-- Text joins the text that is the last child. -/
theorem appendText_last (tree : Tree) (text : String) (last_eq : tree.lastChild? above = some last)
    (is_text : tree.kind last = .text content) :
    ∃ next, tree.appendText above text = .ok (last, next) ∧
      tree.Reworded next last content (content ++ text) := by
  obtain ⟨next, made⟩ : ∃ next, tree.appendText above text = .ok (last, next) :=
    ⟨_, by rw [appendText, last_eq]; simp only [is_text]; rfl⟩
  refine ⟨next, made, ?_⟩
  rcases appendText_eq_ok made with ⟨found, -, reworded⟩ | ⟨fresh, -⟩
  · obtain rfl : found = content := by
      have both := reworded.kind_place.symm.trans is_text
      cases both
      rfl
    exact reworded
  · have inside : last < tree.size := lt_size_of_kind (by simp [is_text])
    omega

/-- Text becomes a node where no text is the last child. -/
theorem appendText_fresh (tree : Tree) (text : String) (apart : ¬tree.EndsWithText above) :
    tree.appendText above text = tree.append above (.text text) := by
  rw [appendText]
  split
  · rename_i last last_eq
    split
    · rename_i content is_text
      exact absurd ⟨last, content, last_eq, is_text⟩ apart
    · rfl
  · rfl

end Tree

/-- Two trees have the same nodes, up to the texts and attributes that they show. -/
structure Tree.SameShape (tree other : Tree) : Prop where
  /-- There are as many nodes. -/
  size : tree.size = other.size
  /-- The nodes are of the same kinds. -/
  kind : ∀ node, (tree.kind node).bare = (other.kind node).bare
  /-- They are in the same places. -/
  parent : ∀ node, tree.parent node = other.parent node
  children : ∀ node, tree.children node = other.children node

namespace Tree.SameShape

variable {tree other next : Tree} {above node : Nat} {kind second : Kind}

theorem refl (tree : Tree) : tree.SameShape tree :=
  ⟨rfl, fun _ => rfl, fun _ => rfl, fun _ => rfl⟩

theorem grown (same : tree.SameShape other) {after : Tree} (first : tree.Grown next above kind)
    (later : other.Grown after above second) (kinds : kind.bare = second.bare) :
    next.SameShape after where
  size := by rw [first.size, later.size, same.size]
  kind node := by
    rw [first.kind_eq, later.kind_eq, same.size]
    split
    · exact kinds
    · exact same.kind node
  parent node := by rw [first.parent_eq, later.parent_eq, same.size, same.parent]
  children node := by rw [first.children_eq, later.children_eq, same.size, same.children]

theorem append (same : tree.SameShape other) (kinds : kind.bare = second.bare)
    (made : tree.append above kind = .ok (node, next)) :
    ∃ after, other.append above second = .ok (node, after) ∧ next.SameShape after := by
  obtain ⟨rfl, grown⟩ := Tree.append_eq_ok made
  have accepts := grown.accepts
  rw [Kind.accepts_congr (same.kind above) kinds] at accepts
  obtain ⟨⟨place, after⟩, again⟩ : ∃ result, other.append above second = .ok result :=
    ⟨_, by rw [Tree.append, if_pos accepts]⟩
  obtain ⟨rfl, other_grown⟩ := Tree.append_eq_ok again
  exact ⟨after, by rw [again, same.size], same.grown grown other_grown kinds⟩

theorem reworded (same : tree.SameShape other) {after : Tree} {found content words text : String}
    (first : tree.Reworded next node found content) (later : other.Reworded after node words text) :
    next.SameShape after where
  size := by rw [first.size, later.size, same.size]
  kind place := by
    rw [first.kind_eq, later.kind_eq]
    split
    · rfl
    · exact same.kind place
  parent place := by rw [first.parent_eq, later.parent_eq, same.parent]
  children place := by rw [first.children_eq, later.children_eq, same.children]

theorem appendText (same : tree.SameShape other) {text : String} (words : String)
    (made : tree.appendText above text = .ok (node, next)) :
    ∃ after, other.appendText above words = .ok (node, after) ∧ next.SameShape after := by
  have lasts : tree.lastChild? above = other.lastChild? above := by
    rw [lastChild?_eq, lastChild?_eq, same.children]
  by_cases joins : tree.EndsWithText above
  · obtain ⟨last, content, last_eq, is_text⟩ := joins
    obtain ⟨found, other_text⟩ := Kind.eq_text_of_bare (is_text ▸ (same.kind last).symm)
    obtain ⟨first, first_made, first_reworded⟩ := tree.appendText_last text last_eq is_text
    obtain ⟨after, later_made, later_reworded⟩ :=
      other.appendText_last words (lasts ▸ last_eq) other_text
    rw [first_made] at made
    cases made
    exact ⟨after, later_made, same.reworded first_reworded later_reworded⟩
  · have apart : ¬other.EndsWithText above := by
      rintro ⟨last, content, last_eq, is_text⟩
      obtain ⟨found, tree_text⟩ := Kind.eq_text_of_bare (is_text ▸ same.kind last)
      exact joins ⟨last, found, lasts ▸ last_eq, tree_text⟩
    rw [tree.appendText_fresh text joins] at made
    rw [other.appendText_fresh words apart]
    have kinds : (Kind.text text).bare = (Kind.text words).bare := rfl
    exact same.append kinds made

end Tree.SameShape

/-- Two builders have the same nodes open in trees of the same shape. -/
structure Builder.SameShape (builder other : Builder) : Prop where
  tree : builder.tree.SameShape other.tree
  opened : builder.opened = other.opened

namespace Builder.SameShape

variable {builder other next : Builder} {offset : Nat}

theorem refl (builder : Builder) : builder.SameShape builder :=
  ⟨.refl builder.tree, rfl⟩

theorem current (same : builder.SameShape other) : builder.current = other.current := by
  rw [Builder.current, Builder.current, same.opened]

theorem place (same : builder.SameShape other) {kind second : Kind}
    (kinds : kind.bare = second.bare) {node : Nat}
    (placed : builder.place kind offset = .ok (node, next)) :
    ∃ after, other.place second offset = .ok (node, after) ∧ next.SameShape after := by
  rw [Builder.place] at placed
  split at placed
  · rename_i made
    cases placed
    obtain ⟨after, other_made, trees⟩ := same.tree.append kinds made
    refine ⟨⟨after, other.opened⟩, ?_, trees, same.opened⟩
    rw [Builder.place, ← same.current, other_made]
  · cases placed

theorem enter (same : builder.SameShape other) {kind second : Kind}
    (kinds : kind.bare = second.bare) {node : Nat}
    (entered : builder.enter kind offset = .ok (node, next)) :
    ∃ after, other.enter second offset = .ok (node, after) ∧ next.SameShape after := by
  obtain ⟨⟨place, made⟩, placed, opens⟩ := bind_eq_ok.mp entered
  cases opens
  obtain ⟨after, other_placed, shapes⟩ := same.place kinds placed
  refine ⟨⟨after.tree, node :: after.opened⟩, ?_, shapes.tree, congrArg (node :: ·) shapes.opened⟩
  rw [Builder.enter, other_placed]
  rfl

theorem text (same : builder.SameShape other) {content : String} (words : String)
    (step : builder.text content offset = .ok next) :
    ∃ after, other.text words offset = .ok after ∧ next.SameShape after := by
  rw [Builder.text] at step
  split at step
  · rename_i made
    cases step
    obtain ⟨after, other_made, trees⟩ := same.tree.appendText words made
    refine ⟨⟨after, other.opened⟩, ?_, trees, same.opened⟩
    rw [Builder.text, ← same.current, other_made]
  · cases step

theorem dropImplied {tree second : Tree} (same : tree.SameShape second) (opened : List Nat) :
    Builder.dropImplied tree opened = Builder.dropImplied second opened := by
  induction opened with
  | nil => rfl
  | cons node outer induction =>
      rw [dropImplied_cons, dropImplied_cons, induction, ← Kind.isImplied_bare, same.kind,
        Kind.isImplied_bare]

theorem endImplied (same : builder.SameShape other) :
    builder.endImplied.SameShape other.endImplied where
  tree := same.tree
  opened := by
    rw [Builder.endImplied, Builder.endImplied, same.opened, dropImplied same.tree]

theorem isInside (same : builder.SameShape other) (tag : String) :
    builder.isInside tag = other.isInside tag := by
  rw [isInside_eq, isInside_eq, Builder.currentKind, Builder.currentKind, same.current,
    ← Kind.hasTag_bare, same.tree.kind, Kind.hasTag_bare]

theorem closeTag (same : builder.SameShape other) {tag : String}
    (step : builder.closeTag tag offset = .ok next) :
    ∃ after, other.closeTag tag offset = .ok after ∧ next.SameShape after := by
  have ended : (if builder.isInside tag then builder else builder.endImplied).SameShape
      (if other.isInside tag then other else other.endImplied) := by
    rw [same.isInside]
    split
    · exact same
    · exact same.endImplied
  rw [Builder.closeTag] at step ⊢
  generalize (if builder.isInside tag then builder else builder.endImplied) = first at step ended
  generalize (if other.isInside tag then other else other.endImplied) = second at ended
  rw [← ended.isInside]
  by_cases here : first.isInside tag
  · rw [if_pos here] at step ⊢
    cases step
    exact ⟨_, rfl, ended.tree, congrArg List.tail ended.opened⟩
  · rw [if_neg here] at step
    cases step

/-- Tokens that differ in texts and attributes at most do the same. -/
theorem token (same : builder.SameShape other) {rel : List Atom → List Atom → Prop}
    {token second : Token} (shown : Token.Shown rel token second)
    (step : builder.token offset token = .ok next) :
    ∃ after, other.token offset second = .ok after ∧ next.SameShape after := by
  have placed {kind second : Kind} (kinds : kind.bare = second.bare)
      (step : Prod.snd <$> builder.place kind offset = .ok next) :
      ∃ after, Prod.snd <$> other.place second offset = .ok after ∧ next.SameShape after := by
    obtain ⟨⟨node, made⟩, placed, rfl⟩ := map_eq_ok.mp step
    obtain ⟨after, other_placed, shapes⟩ := same.place kinds placed
    exact ⟨after, by rw [other_placed]; rfl, shapes⟩
  cases shown with
  | @opening tag attrs others selfClosing related =>
      have kinds : (Kind.element tag (Atom.render attrs)).bare =
          (Kind.element tag (Atom.render others)).bare := rfl
      rw [Builder.token] at step ⊢
      cases selfClosing with
      | true => exact placed kinds step
      | false =>
          obtain ⟨⟨node, made⟩, entered, rfl⟩ := map_eq_ok.mp step
          obtain ⟨after, other_entered, shapes⟩ := same.enter kinds entered
          exact ⟨after, by rw [if_neg Bool.false_ne_true, other_entered]; rfl, shapes⟩
  | closing tag => exact same.closeTag step
  | text related => exact same.text _ step
  | fragmentStart => exact placed rfl step
  | fragmentEnd => exact placed rfl step
  | comment body second =>
      cases step
      exact ⟨other, rfl, same⟩

theorem tokens (same : builder.SameShape other) {rel : List Atom → List Atom → Prop}
    {run second : List Token} (shown : List.Forall₂ (Token.Shown rel) run second)
    (steps : builder.tokens offset run = .ok next) :
    ∃ after, other.tokens offset second = .ok after ∧ next.SameShape after := by
  induction shown generalizing builder other with
  | nil =>
      cases steps
      exact ⟨other, rfl, same⟩
  | cons first _ induction =>
      obtain ⟨middle, step, steps⟩ := bind_eq_ok.mp steps
      obtain ⟨later, other_step, shapes⟩ := same.token first step
      obtain ⟨after, other_steps, shapes⟩ := induction shapes steps
      exact ⟨after, bind_eq_ok.mpr ⟨later, other_step, other_steps⟩, shapes⟩

end Builder.SameShape

/-! ## What is shown -/

/-- The text of a token that shows in the tree. -/
def Token.shown : Token → List Char
  | .opening _ attrs _ => attrs.toList
  | .text content => content.toList
  | _ => []

namespace Tree

variable {tree next : Tree} {above node : Nat} {kind : Kind} {c : Char}

/-- How often a character shows in the texts and attributes of a tree. -/
def count (tree : Tree) (c : Char) : Nat :=
  ∑ node ∈ Finset.range tree.size, (tree.kind node).shown.count c

theorem Grown.count_eq (grown : tree.Grown next above kind) :
    next.count c = tree.count c + kind.shown.count c := by
  rw [count, grown.size, Finset.sum_range_succ, grown.kind_new, count]
  congr 1
  refine Finset.sum_congr rfl fun node found => ?_
  rw [grown.kind_old (Finset.mem_range.mp found)]

theorem Reworded.count_eq {found text : String}
    (reworded : tree.Reworded next node found (found ++ text)) :
    next.count c = tree.count c + text.toList.count c := by
  have inside : node ∈ Finset.range tree.size :=
    Finset.mem_range.mpr (lt_size_of_kind (by simp [reworded.kind_place]))
  rw [count, count, reworded.size, ← Finset.add_sum_erase _ _ inside, ← Finset.add_sum_erase _ _ inside,
    reworded.kind_eq, if_pos rfl, reworded.kind_place]
  have others : ∀ other ∈ (Finset.range tree.size).erase node,
      (next.kind other).shown.count c = (tree.kind other).shown.count c := by
    intro other found
    rw [reworded.kind_eq, if_neg (Finset.ne_of_mem_erase found)]
  rw [Finset.sum_congr rfl others]
  simp only [Kind.shown, String.toList_append, List.count_append]
  omega

end Tree

namespace Builder

variable {before after : Builder} {offset : Nat}

theorem grown_of_place {kind : Kind} {node : Nat}
    (placed : before.place kind offset = .ok (node, after)) :
    before.tree.Grown after.tree before.current kind := by
  rw [place] at placed
  split at placed
  · rename_i made
    cases placed
    exact (Tree.append_eq_ok made).2
  · cases placed

theorem grown_of_enter {kind : Kind} {node : Nat}
    (entered : before.enter kind offset = .ok (node, after)) :
    before.tree.Grown after.tree before.current kind := by
  obtain ⟨⟨place, made⟩, placed, opens⟩ := bind_eq_ok.mp entered
  cases opens
  have grown : before.tree.Grown made.tree before.current kind := grown_of_place placed
  exact grown

theorem tree_closeTag {tag : String} (step : before.closeTag tag offset = .ok after) :
    after.tree = before.tree := by
  have ended : (if before.isInside tag then before else before.endImplied).tree = before.tree := by
    split <;> rfl
  rw [closeTag] at step
  generalize (if before.isInside tag then before else before.endImplied) = last at step ended
  by_cases here : last.isInside tag
  · rw [if_pos here] at step
    cases step
    exact ended
  · rw [if_neg here] at step
    cases step

theorem count_token {token : Token} (step : before.token offset token = .ok after) (c : Char) :
    after.tree.count c = before.tree.count c + token.shown.count c := by
  have placed {kind : Kind} (step : Prod.snd <$> before.place kind offset = .ok after) :
      after.tree.count c = before.tree.count c + kind.shown.count c := by
    obtain ⟨⟨node, made⟩, placed, rfl⟩ := map_eq_ok.mp step
    exact (grown_of_place placed).count_eq
  cases token with
  | opening tag attrs selfClosing =>
      rw [Builder.token] at step
      cases selfClosing with
      | true => exact placed step
      | false =>
          obtain ⟨⟨node, made⟩, entered, rfl⟩ := map_eq_ok.mp step
          exact (grown_of_enter entered).count_eq
  | closing tag => rw [tree_closeTag step]; rfl
  | text content =>
      rw [Builder.token, Builder.text] at step
      split at step
      · rename_i made
        cases step
        rcases Tree.appendText_eq_ok made with ⟨found, -, reworded⟩ | ⟨-, grown⟩
        · exact reworded.count_eq
        · exact grown.count_eq
      · cases step
  | fragmentStart => exact placed step
  | fragmentEnd => exact placed step
  | comment body =>
      cases step
      rfl

theorem count_tokens {run : List Token} (steps : before.tokens offset run = .ok after) (c : Char) :
    after.tree.count c = before.tree.count c + (run.flatMap Token.shown).count c := by
  induction run generalizing before with
  | nil =>
      cases steps
      simp
  | cons token run induction =>
      obtain ⟨next, step, steps⟩ := bind_eq_ok.mp steps
      rw [induction steps, count_token step, List.flatMap_cons, List.count_append, Nat.add_assoc]

end Builder

namespace Token

/-- Whether what a token shows is written the same way in a template literal. -/
def IsVerbatim (token : Token) : Prop :=
  ∀ c ∈ token.shown, isMarked c = false ∧ c ≠ '\r'

instance (token : Token) : Decidable token.IsVerbatim :=
  List.decidableBAll (fun c => isMarked c = false ∧ c ≠ '\r') token.shown

variable {run other : List Atom} {token second : Token}

/-- A respelled text has a backslash more for each character that needs one, and no carriage
return. -/
theorem Respelled.count_chars (related : Respelled run other) :
    (other.flatMap Atom.chars).count '\\' =
        (run.flatMap Atom.chars).count '\\' + (run.flatMap Atom.chars).countP isMarked ∧
      (other.flatMap Atom.chars).count '\r' = 0 := by
  induction related with
  | nil => exact ⟨rfl, rfl⟩
  | @kept c _ _ plain kept _ induction =>
      simp only [List.flatMap_cons, Atom.chars, List.singleton_append, List.count_cons,
        List.countP_cons, plain, beq_iff_eq, kept, if_false, Bool.false_eq_true]
      omega
  | @marked c _ _ marked _ induction =>
      have other := (Script.Template.ne_of_isMarked marked).1
      simp only [List.flatMap_cons, Atom.chars, List.singleton_append, List.count_cons,
        List.countP_cons, marked, beq_iff_eq, other, if_true, if_false, Char.reduceEq]
      omega
  | lineEnd _ induction =>
      have plain : isMarked '\r' = false ∧ isMarked '\n' = false := by decide
      simp only [List.flatMap_cons, Atom.chars, List.singleton_append, List.count_cons,
        List.countP_cons, plain, beq_iff_eq, if_false, Bool.false_eq_true, Char.reduceEq]
      omega
  | carriageReturn _ induction =>
      have plain : isMarked '\r' = false := by decide
      simp only [List.flatMap_cons, Atom.chars, List.singleton_append, List.count_cons,
        List.countP_cons, plain, beq_iff_eq, if_false, Bool.false_eq_true, Char.reduceEq]
      omega

theorem Respelled.eq_of_verbatim (related : Respelled run other)
    (verbatim : ∀ c ∈ run.flatMap Atom.chars, isMarked c = false ∧ c ≠ '\r') : other = run := by
  induction related with
  | nil => rfl
  | kept plain kept _ induction =>
      rw [induction fun c found => verbatim c (List.mem_cons_of_mem _ found)]
  | marked marked _ _ =>
      rw [(verbatim _ List.mem_cons_self).1] at marked
      cases marked
  | lineEnd _ _ => exact absurd rfl (verbatim _ List.mem_cons_self).2
  | carriageReturn _ _ => exact absurd rfl (verbatim _ List.mem_cons_self).2

theorem Shown.count_shown (shown : Shown Respelled token second) :
    second.shown.count '\\' = token.shown.count '\\' + token.shown.countP isMarked ∧
      second.shown.count '\r' = 0 := by
  cases shown with
  | opening tag selfClosing related => simpa [Token.shown, Atom.render] using related.count_chars
  | text related => simpa [Token.shown, Atom.render] using related.count_chars
  | closing | fragmentStart | fragmentEnd | comment => exact ⟨rfl, rfl⟩

theorem count_shown {tokens others : List Token}
    (shown : List.Forall₂ (Shown Respelled) tokens others) :
    (others.flatMap Token.shown).count '\\' =
        (tokens.flatMap Token.shown).count '\\' + (tokens.flatMap Token.shown).countP isMarked ∧
      (others.flatMap Token.shown).count '\r' = 0 := by
  induction shown with
  | nil => exact ⟨rfl, rfl⟩
  | cons first _ induction =>
      obtain ⟨slashes, returns⟩ := first.count_shown
      simp only [List.flatMap_cons, List.count_append, List.countP_append]
      omega

/-- Where each character shows as often in the respelled tokens, there is nothing to respell. -/
theorem isVerbatim_of_count {tokens others : List Token}
    (shown : List.Forall₂ (Shown Respelled) tokens others)
    (same : ∀ c, (others.flatMap Token.shown).count c = (tokens.flatMap Token.shown).count c) :
    ∀ token ∈ tokens, token.IsVerbatim := by
  obtain ⟨slashes, returns⟩ := count_shown shown
  have unmarked : (tokens.flatMap Token.shown).countP isMarked = 0 := by
    have := same '\\'
    omega
  rw [same, List.count_eq_zero] at returns
  rw [List.countP_eq_zero] at unmarked
  intro token found c shows
  have among : c ∈ tokens.flatMap Token.shown := List.mem_flatMap.mpr ⟨token, found, shows⟩
  exact ⟨Bool.eq_false_iff.mpr (unmarked c among), fun carriage => returns (carriage ▸ among)⟩

/-- A token with nothing in it to respell does what its respelled one does. -/
theorem Shown.token_eq (shown : Shown Respelled token second) (verbatim : token.IsVerbatim)
    (builder : Builder) (offset : Nat) : builder.token offset second = builder.token offset token := by
  cases shown with
  | opening tag selfClosing related =>
      rw [related.eq_of_verbatim (by simpa [IsVerbatim, Token.shown, Atom.render] using verbatim)]
  | text related =>
      rw [related.eq_of_verbatim (by simpa [IsVerbatim, Token.shown, Atom.render] using verbatim)]
  | closing | fragmentStart | fragmentEnd | comment => rfl

theorem tokens_eq {tokens others : List Token}
    (shown : List.Forall₂ (Shown Respelled) tokens others)
    (verbatim : ∀ token ∈ tokens, token.IsVerbatim) (builder : Builder) (offset : Nat) :
    builder.tokens offset others = builder.tokens offset tokens := by
  induction shown generalizing builder with
  | nil => rfl
  | cons first _ induction =>
      rw [List.forall_mem_cons] at verbatim
      rw [Builder.tokens, Builder.tokens, first.token_eq verbatim.1]
      simp only [induction verbatim.2]

end Token

/-- Static markup has tokens if related markup has, and these are related. -/
theorem Token.Steady.exists_tokens {rel : List Atom → List Atom → Prop} (steady : Steady rel)
    {content other : String} (related : rel (Token.word content.toList) (Token.word other.toList))
    {run : List Token} (whole : (Markup.empty.pushText content).tokens = .ok run) :
    ∃ others, (Markup.empty.pushText other).tokens = .ok others ∧
      List.Forall₂ (Shown rel) run others := by
  have items := itemized_of_ofAtoms whole
  rw [atoms_pushText] at items
  obtain ⟨others, itemized, shown⟩ := steady.itemized items related
  refine ⟨others, ?_, shown⟩
  rw [Markup.tokens, atoms_pushText]
  exact ofAtoms_of_itemized itemized 0

namespace Builder

/-- Where a token comes from shows in a failure only. -/
theorem Reached.tokens_offset {before after : Builder} (reached : before.Reached) {offset : Nat}
    {run : List Token} (steps : before.tokens offset run = .ok after) (other : Nat) :
    before.tokens other run = .ok after := by
  obtain ⟨spine, rfl, -⟩ := reached.exists_spine
  rw [Spine.tokens_builder] at steps ⊢
  obtain ⟨last, moved, rfl⟩ := map_eq_ok.mp steps
  exact map_eq_ok.mpr ⟨last, Spine.tokens_offset moved other, rfl⟩

theorem feed_eq_ok {before after : Builder} {chunk : Markup} {offset : Nat} :
    before.feed chunk offset = .ok after ↔
      ∃ run, chunk.tokens = .ok run ∧ before.tokens offset run = .ok after := by
  rw [feed]
  cases chunk.tokens <;> simp

/-- What is pushed as a literal is fed as markup. -/
theorem actAll_feed (before : Builder) (chunk : Markup) (offset : Nat) :
    before.actAll [.feed chunk offset] = before.feed chunk offset := by
  rw [actAll, act]
  cases before.feed chunk offset <;> rfl

theorem push_string (before : Builder) (helpers : HelperNames) (call place : Script.Extent)
    (content : String) :
    before.actAll (Script.pushActions helpers call [.expr (.string place content)]) =
      before.feed (Markup.empty.pushText content) place.start := by
  rw [Script.pushActions, Script.pushedActions, actAll_feed]

theorem push_template (before : Builder) (helpers : HelperNames) (call place : Script.Extent)
    (content : String) :
    before.actAll (Script.pushActions helpers call [.expr (.template place [content] [])]) =
      before.feed (Markup.empty.pushText content) place.start := by
  rw [Script.pushActions, Script.pushedActions, actAll_feed]
  rfl

/-- Markup that is written as a template literal can be pushed exactly when it can be pushed as a
string literal. The nodes are the same then, with the same ones open, and so is the whole tree
exactly when no text and no attributes have a character that is not written as it is. -/
theorem Reached.push_literal {before : Builder} (reached : before.Reached)
    {content rest : List Char} {start : Nat} {newline : Bool} {nested : Script.Nested}
    {mode : Script.Mode} {state left : Script.ReaderState} {literal : Script.Expr}
    (scanned : Script.Token.at? start newline
      ('\x60' :: Script.Template.escaped content ++ '\x60' :: rest) = .ok state.token)
    (read : Script.Reader.primary nested mode state = .ok (literal, left))
    (helpers : HelperNames) (call other_call place : Script.Extent) :
    ((∃ after, before.actAll (Script.pushActions helpers call [.expr literal]) = .ok after) ↔
        ∃ other, before.actAll (Script.pushActions helpers other_call
          [.expr (.string place (String.ofList content))]) = .ok other) ∧
      ∀ after other, before.actAll (Script.pushActions helpers call [.expr literal]) = .ok after →
        before.actAll (Script.pushActions helpers other_call
          [.expr (.string place (String.ofList content))]) = .ok other →
        other.SameShape after ∧
          (after = other ↔ ∀ run, (Markup.empty.pushText (String.ofList content)).tokens = .ok run →
            ∀ token ∈ run, token.IsVerbatim) := by
  have kind_eq : state.token.kind =
      .template (String.ofList (Script.Template.raw content)) true true := by
    rw [Script.Token.at?_template] at scanned
    rw [← Except.ok.inj scanned]
  obtain ⟨literal_place, rfl⟩ := Script.Reader.primary_template kind_eq read
  have related : Token.Respelled (Token.word (String.ofList content).toList)
      (Token.word (String.ofList (Script.Template.raw content)).toList) := by
    rw [String.toList_ofList, String.toList_ofList]
    exact Token.respelled_raw content
  simp only [push_template, push_string, feed_eq_ok]
  refine ⟨⟨?_, ?_⟩, ?_⟩
  · rintro ⟨after, others, whole, steps⟩
    obtain ⟨run, run_whole, shown⟩ := Token.Respelled.steady.swap.exists_tokens related whole
    obtain ⟨other, other_steps, -⟩ := (SameShape.refl before).tokens shown steps
    exact ⟨other, run, run_whole, reached.tokens_offset other_steps place.start⟩
  · rintro ⟨other, run, whole, steps⟩
    obtain ⟨others, other_whole, shown⟩ := Token.Respelled.steady.exists_tokens related whole
    obtain ⟨after, other_steps, -⟩ := (SameShape.refl before).tokens shown steps
    exact ⟨after, others, other_whole, reached.tokens_offset other_steps literal_place.start⟩
  · rintro after other ⟨found, found_whole, found_steps⟩ ⟨run, whole, steps⟩
    obtain ⟨others, other_whole, shown⟩ := Token.Respelled.steady.exists_tokens related whole
    obtain rfl : others = found := Except.ok.inj (other_whole.symm.trans found_whole)
    have steps := reached.tokens_offset steps literal_place.start
    obtain ⟨made, made_steps, shapes⟩ := (SameShape.refl before).tokens shown steps
    obtain rfl : made = after := Except.ok.inj (made_steps.symm.trans found_steps)
    refine ⟨shapes, fun same again again_whole => ?_, fun verbatim => ?_⟩
    · obtain rfl : run = again := Except.ok.inj (whole.symm.trans again_whole)
      subst same
      exact Token.isVerbatim_of_count shown fun c => by
        have left := count_tokens steps c
        have right := count_tokens made_steps c
        omega
    · rw [Token.tokens_eq shown (verbatim run whole)] at made_steps
      exact Except.ok.inj (made_steps.symm.trans steps)

/-- Plain markup is pushed as the same text either way. -/
theorem push_literal_plainElement :
    ∃ (state left : Script.ReaderState) (literal : Script.Expr),
      Script.Token.at? 6 false "\x60<p>a</p>\x60)".toList = .ok state.token ∧
        Script.Reader.primary (.upTo 0) .top state = .ok (literal, left) ∧
          ∃ after, start.actAll (Script.pushActions .usual default [.expr literal]) = .ok after ∧
            start.actAll (Script.pushActions .usual default
              [.expr (.string default "<p>a</p>")]) = .ok after := by
  obtain ⟨token, scanned⟩ :=
    exists_eq_ok (Script.Token.at? 6 false "\x60<p>a</p>\x60)".toList) (by decide +kernel)
  obtain ⟨⟨literal, left⟩, read⟩ :=
    exists_eq_ok (Script.Reader.primary (.upTo 0) .top ⟨token, 6, none, [], 2⟩) (by
      cases scanned
      decide +kernel)
  have whole : (Markup.empty.pushText "<p>a</p>").tokens =
      .ok [.opening "p" "" false, .text "a", .closing "p"] := eq_ok_of_toOption (by decide +kernel)
  obtain ⟨other, pushed⟩ := exists_eq_ok (start.actAll (Script.pushActions .usual default
    [.expr (.string default "<p>a</p>")])) (by decide +kernel)
  have written : Script.Token.at? 6 false
      ('\x60' :: Script.Template.escaped "<p>a</p>".toList ++ '\x60' :: [')']) =
        .ok (Script.ReaderState.mk token 6 none [] 2).token := scanned
  have pushes := Reached.start.push_literal written read .usual default default default
  obtain ⟨after, literal_pushed⟩ := pushes.1.mpr ⟨other, pushed⟩
  obtain ⟨-, same⟩ := pushes.2 after other literal_pushed pushed
  refine ⟨_, left, literal, scanned, read, after, literal_pushed, ?_⟩
  rw [same.mpr, pushed]
  intro run run_whole
  cases whole.symm.trans run_whole
  decide

/-- The backslash in front of a backtick is in the text of the tree. -/
theorem push_literal_backtickInText :
    ∃ (state left : Script.ReaderState) (literal : Script.Expr) (after other : Builder),
      Script.Token.at? 6 false
          ('\x60' :: Script.Template.escaped "a\x60b".toList ++ ['\x60', ')']) =
        .ok state.token ∧
      Script.Reader.primary (.upTo 0) .top state = .ok (literal, left) ∧
      start.actAll (Script.pushActions .usual default [.expr literal]) = .ok after ∧
      start.actAll (Script.pushActions .usual default
        [.expr (.string default "a\x60b")]) = .ok other ∧
      after.tree.kind 1 = .text "a\\\x60b" ∧ other.tree.kind 1 = .text "a\x60b" := by
  obtain ⟨token, scanned⟩ := exists_eq_ok (Script.Token.at? 6 false "\x60a\\\x60b\x60)".toList)
    (by decide +kernel)
  refine ⟨⟨token, 6, none, [], 2⟩, ?_⟩
  cases scanned
  refine ⟨_, .template ⟨6, "\x60a\\\x60b\x60"⟩ ["a\\\x60b"] [],
    ⟨⟨#[⟨.root, none, #[1]⟩, ⟨.text "a\\\x60b", some 0, #[]⟩]⟩, []⟩,
    ⟨⟨#[⟨.root, none, #[1]⟩, ⟨.text "a\x60b", some 0, #[]⟩]⟩, []⟩, rfl, rfl,
    eq_ok_of_toOption (by decide +kernel), eq_ok_of_toOption (by decide +kernel), rfl, rfl⟩

end Builder

end IslandSlots
