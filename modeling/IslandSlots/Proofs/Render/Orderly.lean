import IslandSlots.Proofs.Render.Arranged
import IslandSlots.Proofs.Render.Calls
import IslandSlots.Proofs.Render.Isolation

/-!
# The order under a node

What stands under a node of a rebuilt tree, beyond what a tree enforces. A void element holds
nothing. A text says something and stands next to no other text. An alternative of a condition
stands right after a conditional. The tokens of a chunk, the joining of texts and the arrangement of
actions each keep a part of this, and no step of building breaks it.
-/

namespace IslandSlots

open Branch

/-! ## Tokens -/

namespace Token

/-- The start tag of a void element closes itself, and a text says something. -/
def Regular : Token → Prop
  | .opening tag _ selfClosing => Tag.isVoid tag → selfClosing
  | .text content => content ≠ ""
  | _ => True

theorem render_ne_empty {atoms : List Atom} (filled : atoms ≠ []) : Atom.render atoms ≠ "" := by
  obtain ⟨atom, rest, rfl⟩ := List.exists_cons_of_ne_nil filled
  cases atom <;> simp [Atom.render, Atom.chars, String.ofList_eq_empty_iff]

theorem regular_ofComment (body : String) : (ofComment body).Regular := by
  unfold ofComment
  split
  · trivial
  · split <;> trivial

/-- A start tag and the raw text that belongs to it are regular. -/
theorem regular_readStartTag {offset : Nat} {atoms : List Atom} {lexeme : Lexeme}
    (found : readStartTag offset atoms = .ok lexeme) : ∀ token ∈ lexeme.tokens, token.Regular := by
  have start_regular (tag attrs : String) (slash : Bool) :
      (opening tag attrs (slash || Tag.isVoid tag)).Regular := by
    intro void
    simp [void]
  simp only [readStartTag] at found
  split at found
  · cases found
  · split at found
    · cases found
    · split at found
      · obtain ⟨body, -, found⟩ := bind_eq_ok.mp found
        split at found
        · cases found
          simpa using start_regular _ _ _
        · rename_i filled
          cases found
          have body_filled : Atom.render body ≠ "" := render_ne_empty (by simpa using filled)
          simpa using ⟨start_regular _ _ _, body_filled⟩
      · cases found
        simpa using start_regular _ _ _

/-- The tokens at a `<` are regular. -/
theorem regular_readTag {offset : Nat} {atoms : List Atom} {lexeme : Lexeme}
    (found : readTag offset atoms = .ok lexeme) : ∀ token ∈ lexeme.tokens, token.Regular := by
  simp only [readTag] at found
  split at found
  · simp only [readComment] at found
    split at found
    · cases found
      simpa using regular_ofComment _
    · cases found
  · split at found
    · simp only [readEndTag] at found
      split at found
      · cases found
        simp [Regular]
      · cases found
    · split at found
      · exact regular_readStartTag found
      · cases found

/-- The tokens of a chunk are regular. -/
theorem regular_ofAtoms {offset : Nat} {atoms : List Atom} {tokens : List Token}
    (found : ofAtoms offset atoms = .ok tokens) : ∀ token ∈ tokens, token.Regular := by
  fun_induction ofAtoms offset atoms generalizing tokens with
  | case1 =>
      cases found
      simp
  | case2 offset atom rest isText run =>
      rename_i induction
      obtain ⟨more, more_eq, found⟩ := bind_eq_ok.mp found
      cases found
      intro token member
      rcases List.mem_cons.mp member with rfl | later
      · exact render_ne_empty (List.cons_ne_nil _ _)
      · exact induction more_eq token later
  | case3 offset atom rest isTag induction =>
      obtain ⟨lexeme, lexeme_eq, found⟩ := bind_eq_ok.mp found
      obtain ⟨more, more_eq, found⟩ := bind_eq_ok.mp found
      cases found
      intro token member
      rcases List.mem_append.mp member with first | later
      · exact regular_readTag lexeme_eq token first
      · exact induction lexeme more_eq token later

theorem regular_tokens {chunk : Markup} {tokens : List Token} (found : chunk.tokens = .ok tokens) :
    ∀ token ∈ tokens, token.Regular :=
  regular_ofAtoms found

end Token

/-! ## Rows of kinds -/

namespace Kind

/-- Whether a kind is that of a text. -/
def isText : Kind → Bool
  | .text _ => true
  | _ => false

/-- Whether a kind is that of a conditional. -/
def isConditional : Kind → Bool
  | .conditional .. => true
  | _ => false

/-- Whether a node says what is done when the conditional before it does not hold. -/
def isAlternative : Kind → Bool
  | .conditional _ chained => chained
  | .otherwise => true
  | _ => false

/-- What stands under a node: the node is of one kind and its children are of others. -/
structure Orderly (kind : Kind) (children : List Kind) : Prop where
  /-- A void element holds nothing. -/
  void_empty : ∀ tag attrs, kind = .element tag attrs → Tag.isVoid tag → children = []
  /-- A text says something. -/
  text_filled : kind ≠ .text ""
  /-- No text stands next to another. -/
  texts_apart : ∀ before left right after, children ≠ before ++ .text left :: .text right :: after
  /-- An alternative stands right after a conditional. -/
  alternative_follows : ∀ before child after, children = before ++ child :: after →
    child.isAlternative → ∃ earlier test chained, before = earlier ++ [.conditional test chained]

/-- A node may come right after a node of the given kind, or first. -/
def MayFollow (kind : Kind) (previous : Option Kind) : Prop :=
  (kind.isText → previous.any isText = false) ∧ (kind.isAlternative → previous.any isConditional)

/-- Each node of a row may come where it does. -/
def InRow (kinds : List Kind) : Prop :=
  ∀ before kind after, kinds = before ++ kind :: after → kind.MayFollow before.getLast?

theorem inRow_nil : InRow [] := by
  intro before kind after split
  simp at split

theorem InRow.concat {kinds : List Kind} {kind : Kind} (row : InRow kinds)
    (follows : kind.MayFollow kinds.getLast?) : InRow (kinds ++ [kind]) := by
  intro before found after split
  rcases List.eq_nil_or_concat' after with rfl | ⟨init, last, rfl⟩
  · obtain ⟨rfl, same⟩ := List.append_inj' split rfl
    cases same
    exact follows
  · rw [← List.cons_append, ← List.append_assoc] at split
    obtain ⟨rfl, -⟩ := List.append_inj' split rfl
    exact row before found init rfl

/-- What may come at the end of a row does not depend on what a text says. -/
theorem InRow.concat_text {kinds : List Kind} {found content : String}
    (row : InRow (kinds ++ [.text found])) : InRow (kinds ++ [.text content]) := by
  have front : InRow kinds := fun before kind after split =>
    row before kind (after ++ [.text found]) (by simp [split])
  exact front.concat (row kinds (.text found) [] rfl)

theorem InRow.orderly {kind : Kind} {children : List Kind} (row : InRow children)
    (void_empty : ∀ tag attrs, kind = .element tag attrs → Tag.isVoid tag → children = [])
    (text_filled : kind ≠ .text "") : kind.Orderly children where
  void_empty := void_empty
  text_filled := text_filled
  texts_apart := by
    rintro before left right after rfl
    have apart := (row (before ++ [.text left]) (.text right) after (by simp)).1 rfl
    simp [isText] at apart
  alternative_follows := by
    rintro before child after rfl alternative
    have follows := (row before child after rfl).2 alternative
    rcases List.eq_nil_or_concat' before with rfl | ⟨earlier, last, rfl⟩
    · cases follows
    · rw [List.getLast?_concat] at follows
      cases last with
      | conditional test chained => exact ⟨earlier, test, chained, rfl⟩
      | _ => cases follows

end Kind

/-! ## Branches -/

namespace Branch

/-- Every node of a branch is in order with what stands under it. -/
inductive Everywhere (holds : Kind → List Kind → Prop) : Branch → Prop where
  | node {kind : Kind} {children : List Branch} :
      holds kind (children.map Branch.kind) → (∀ child ∈ children, Everywhere holds child) →
        Everywhere holds (.node kind children)

end Branch

namespace Tree

open Branch

variable {holds : Kind → List Kind → Prop}

mutual

/-- What is so everywhere in a branch is so of its nodes in a tree that holds the branch. -/
theorem Holds.everywhere {tree : Tree} {parent place node : Nat} {branch : Branch}
    (stored : tree.Holds place (branch.entries parent place)) (every : branch.Everywhere holds)
    (later : place ≤ node) (inside : node < place + branch.size) :
    holds (tree.kind node) ((tree.children node).map tree.kind) := by
  cases branch with
  | node kind children =>
      cases every with
      | node here below =>
          rw [Branch.entries] at stored
          rw [Branch.size] at inside
          rcases Nat.eq_or_lt_of_le later with rfl | further
          · have kinds := stored.tail.kinds
            simpa [Tree.kind, Tree.children, stored.head, ← kinds] using here
          · exact stored.tail.everywhereAll below further (by omega)

theorem Holds.everywhereAll {tree : Tree} {parent place node : Nat} {branches : List Branch}
    (stored : tree.Holds place (entriesAll parent place branches))
    (every : ∀ branch ∈ branches, branch.Everywhere holds)
    (later : place ≤ node) (inside : node < place + sizeAll branches) :
    holds (tree.kind node) ((tree.children node).map tree.kind) := by
  cases branches with
  | nil =>
      simp only [sizeAll] at inside
      omega
  | cons child children =>
      rw [entriesAll] at stored
      rw [sizeAll] at inside
      have rest := stored.right
      rw [length_entries] at rest
      by_cases first : node < place + child.size
      · exact stored.left.everywhere (every child List.mem_cons_self) later first
      · exact rest.everywhereAll (fun branch found => every branch (List.mem_cons_of_mem _ found))
          (by omega) (by omega)

end

end Tree

/-! ## Steps of building -/

namespace Kind

/-- Whether a node of some kind is ever left open. -/
def isHolder : Kind → Bool
  | .element tag _ => !Tag.isVoid tag
  | .text _ => false
  | _ => true

theorem mayFollow_of_plain {kind : Kind} (no_text : kind.isText = false)
    (no_alternative : kind.isAlternative = false) (previous : Option Kind) :
    kind.MayFollow previous := by
  simp [MayFollow, no_text, no_alternative]

end Kind

namespace Frame

/-- The kinds of what is finished under an open node. -/
def kinds (frame : Frame) : List Kind :=
  frame.done.map Branch.kind

/-- An open node is in order with what is finished under it, and so is all below. -/
structure Sound (frame : Frame) : Prop where
  /-- The node is of a kind that is left open. -/
  holder : frame.kind.isHolder
  /-- What is finished stands where it may. -/
  row : Kind.InRow frame.kinds
  /-- Everything below is in order. -/
  every : ∀ branch ∈ frame.done, branch.Everywhere Kind.Orderly

theorem Sound.branch {frame : Frame} (sound : frame.Sound) :
    frame.branch.Everywhere Kind.Orderly := by
  have holder := sound.holder
  refine .node (sound.row.orderly ?_ ?_) sound.every
  · intro tag attrs kind_eq void
    simp [kind_eq, Kind.isHolder, void] at holder
  · intro kind_eq
    simp [kind_eq, Kind.isHolder] at holder

theorem Sound.add {frame : Frame} {branch : Branch} (sound : frame.Sound)
    (every : branch.Everywhere Kind.Orderly)
    (follows : branch.kind.MayFollow frame.kinds.getLast?) : (frame.add branch).Sound where
  holder := sound.holder
  row := by
    simpa [kinds, Frame.add] using sound.row.concat follows
  every := by
    intro found member
    rcases List.mem_append.mp member with earlier | last
    · exact sound.every found earlier
    · rwa [List.mem_singleton.mp last]

end Frame

namespace Spine

/-- Every open node is in order, and may stand where it will when it is finished. -/
inductive Sound : Spine → Prop where
  | root {current : Frame} : current.Sound → Sound ⟨current, []⟩
  | inside {current frame : Frame} {outer : List Frame} :
      current.Sound → current.kind.MayFollow frame.kinds.getLast? → Sound ⟨frame, outer⟩ →
        Sound ⟨current, frame :: outer⟩

namespace Sound

variable {spine before after : Spine}

theorem current (sound : spine.Sound) : spine.current.Sound := by
  cases sound <;> assumption

/-- What is finished under the innermost open node may be replaced. -/
theorem fill {done : List Branch} (sound : spine.Sound)
    (filled : (Frame.mk spine.current.kind done).Sound) :
    Spine.Sound ⟨⟨spine.current.kind, done⟩, spine.outer⟩ := by
  cases sound with
  | root => exact .root filled
  | inside _ follows outer => exact .inside filled follows outer

theorem add {branch : Branch} (sound : spine.Sound) (every : branch.Everywhere Kind.Orderly)
    (follows : branch.kind.MayFollow spine.current.kinds.getLast?) : (spine.add branch).Sound :=
  sound.fill (sound.current.add every follows)

theorem opening {kind : Kind} (sound : spine.Sound) (holder : kind.isHolder)
    (follows : kind.MayFollow spine.current.kinds.getLast?) : (spine.opening kind).Sound :=
  .inside ⟨holder, Kind.inRow_nil, by simp⟩ follows sound

theorem close (sound : spine.Sound) : spine.close.Sound := by
  cases sound with
  | root sound => exact .root sound
  | inside sound follows outer => exact outer.add sound.branch follows

theorem endImplied (sound : spine.Sound) : spine.endImplied.Sound := by
  obtain ⟨current, outer⟩ := spine
  induction outer generalizing current with
  | nil => exact sound
  | cons frame outer induction =>
      rw [Spine.endImplied, endImpliedIn]
      split
      · exact induction (frame.add current.branch) sound.close
      · exact sound

theorem place {kind : Kind} {offset : Nat} (sound : before.Sound)
    (filled : kind ≠ .text "") (follows : kind.MayFollow before.current.kinds.getLast?)
    (step : before.place kind offset = .ok after) : after.Sound := by
  obtain ⟨-, rfl⟩ := place_eq_ok.mp step
  exact sound.add (.node (Kind.inRow_nil.orderly (by simp) filled) (by simp)) follows

theorem enter {kind : Kind} {offset : Nat} (sound : before.Sound) (holder : kind.isHolder)
    (follows : kind.MayFollow before.current.kinds.getLast?)
    (step : before.enter kind offset = .ok after) : after.Sound := by
  obtain ⟨-, rfl⟩ := enter_eq_ok.mp step
  exact sound.opening holder follows

/-- A text joins the one before it, or there is none before it. -/
theorem text {content : String} {offset : Nat} (sound : before.Sound) (filled : content ≠ "")
    (step : before.text content offset = .ok after) : after.Sound := by
  obtain ⟨⟨kind, done⟩, outer⟩ := before
  have inner := sound.current
  have row := inner.row
  have fresh (apart : ((done.map Branch.kind).getLast?).any Kind.isText = false)
      (placed : (Spine.mk ⟨kind, done⟩ outer).place (.text content) offset = .ok after) :
      after.Sound :=
    sound.place (by simpa using filled) ⟨fun _ => apart, by simp [Kind.isAlternative]⟩ placed
  rcases List.eq_nil_or_concat' done with rfl | ⟨init, ⟨last, children⟩, rfl⟩
  · exact fresh rfl step
  · rw [Spine.text, joinText_concat] at step
    cases last with
    | text found =>
        cases step
        refine sound.fill ⟨inner.holder, ?_, ?_⟩
        · simp only [Frame.kinds, List.map_append, List.map_cons, List.map_nil,
            Branch.kind] at row ⊢
          exact row.concat_text
        · intro branch member
          rcases List.mem_append.mp member with earlier | final
          · exact inner.every branch (List.mem_append_left _ earlier)
          · obtain rfl := List.mem_singleton.mp final
            -- The text says more than before, and what is under it stays.
            have replaced := inner.every (.node (.text found) children) (by simp)
            cases replaced with
            | node here below =>
                refine .node ⟨by simp, ?_, here.texts_apart, here.alternative_follows⟩ below
                simp [filled]
    | _ => exact fresh (by simp [Branch.kind, Kind.isText]) step

theorem token {offset : Nat} {token : Token} (sound : before.Sound) (regular : token.Regular)
    (step : before.token offset token = .ok after) : after.Sound := by
  cases token with
  | opening tag attrs selfClosing =>
      cases selfClosing with
      | true => exact sound.place (by simp) (Kind.mayFollow_of_plain rfl rfl _) step
      | false =>
          have nonvoid : Tag.isVoid tag = false := by simpa [Token.Regular] using regular
          exact sound.enter (by simp [Kind.isHolder, nonvoid])
            (Kind.mayFollow_of_plain rfl rfl _) step
  | closing tag =>
      obtain ⟨ended, rfl | rfl, -, rfl⟩ := closeTag_eq_ok step
      · exact sound.close
      · exact sound.endImplied.close
  | text content => exact sound.text regular step
  | fragmentStart => exact sound.place (by simp) (Kind.mayFollow_of_plain rfl rfl _) step
  | fragmentEnd => exact sound.place (by simp) (Kind.mayFollow_of_plain rfl rfl _) step
  | comment body =>
      cases step
      exact sound

theorem tokens {offset : Nat} {run : List Token} (sound : before.Sound)
    (regular : ∀ token ∈ run, token.Regular) (steps : before.tokens offset run = .ok after) :
    after.Sound := by
  induction run generalizing before with
  | nil =>
      cases steps
      exact sound
  | cons token run induction =>
      rw [Spine.tokens] at steps
      obtain ⟨next, step, steps⟩ := bind_eq_ok.mp steps
      exact induction (sound.token (regular token List.mem_cons_self) step)
        (fun later member => regular later (List.mem_cons_of_mem _ member)) steps

theorem feed {chunk : Markup} {offset : Nat} (sound : before.Sound)
    (step : before.feed chunk offset = .ok after) : after.Sound := by
  rw [Spine.feed] at step
  split at step
  · rename_i tokens_eq
    exact sound.tokens (Token.regular_tokens tokens_eq) step
  · cases step

theorem leave {node offset : Nat} (sound : before.Sound)
    (step : before.leave node offset = .ok after) : after.Sound := by
  obtain ⟨ended, rfl | rfl, -, rfl⟩ := leave_eq_ok step
  · exact sound.close
  · exact sound.endImplied.close

end Sound

/-- The innermost open node has what a row of actions needs before it. -/
def Fits (spine : Spine) : Action.Row → Prop
  | .content after => after → spine.current.kinds.getLast?.any Kind.isConditional
  | .slots => True

theorem fits_onward (spine : Spine) (row : Action.Row) : spine.Fits row.onward := by
  cases row with
  | content after => exact fun contra => absurd contra Bool.false_ne_true
  | slots => trivial

/-- After a conditional there may be an alternative. -/
theorem fits_add_conditional (spine : Spine) (test : String) (chained after : Bool)
    (done : List Branch) :
    (spine.add (.node (.conditional test chained) done)).Fits (.content after) := by
  intro _
  simp [add, Frame.add, Frame.kinds, Branch.kind, Kind.isConditional]

theorem actAll_cons_eq_ok {before after : Spine} {action : Action} {actions : List Action} :
    before.actAll (action :: actions) = .ok after ↔
      ∃ next, before.act action = .ok next ∧ next.actAll actions = .ok after := by
  rw [Spine.actAll]
  exact bind_eq_ok

/-- Control flow keeps everything in order if what is inside does. -/
theorem Sound.within {before after : Spine} {kind : Kind} {offset : Nat} {inside : List Action}
    (sound : before.Sound) (holder : kind.isHolder)
    (follows : kind.MayFollow before.current.kinds.getLast?)
    (inner : ∀ last, (before.opening kind).Sound → (before.opening kind).actAll inside = .ok last →
      last.Sound)
    (step : before.act (.within kind offset inside) = .ok after) : after.Sound := by
  rw [Spine.act] at step
  obtain ⟨opened, entered, step⟩ := bind_eq_ok.mp step
  obtain ⟨last, acted, left⟩ := bind_eq_ok.mp step
  obtain ⟨-, rfl⟩ := enter_eq_ok.mp entered
  exact (inner last (sound.opening holder follows) acted).leave left

/-- Arranged actions keep everything in order. -/
theorem Sound.actAll {before after : Spine} {row : Action.Row} {actions : List Action}
    (sound : before.Sound) (arranged : Action.Arranged row actions) (fits : before.Fits row)
    (steps : before.actAll actions = .ok after) : after.Sound := by
  induction arranged generalizing before after with
  | nil =>
      cases steps
      exact sound
  | feed chunk offset rest induction =>
      obtain ⟨next, step, steps⟩ := actAll_cons_eq_ok.mp steps
      exact induction (sound.feed step) (next.fits_onward (.content true)) steps
  | invalid offset rest induction =>
      obtain ⟨next, step, steps⟩ := actAll_cons_eq_ok.mp steps
      exact induction (sound.place (by simp) (Kind.mayFollow_of_plain rfl rfl _) step)
        (next.fits_onward (.content true)) steps
  | reject row construct offset rest => cases steps
  | @conditional after chained test offset inside rest chain _ _ inside_sound rest_sound =>
      obtain ⟨next, step, steps⟩ := actAll_cons_eq_ok.mp steps
      have follows : (Kind.conditional test chained).MayFollow before.current.kinds.getLast? :=
        ⟨by simp [Kind.isText], fun alternative => fits (chain alternative)⟩
      have next_sound : next.Sound := sound.within rfl follows
        (fun last opened acted => inside_sound opened (fits_onward _ (.content true)) acted) step
      -- The branch is added whole, so an alternative that comes next finds it last.
      obtain ⟨done, rfl⟩ := within_eq_ok (by simp [Kind.isElement]) step
      exact rest_sound next_sound (before.fits_add_conditional test chained true done) steps
  | otherwise offset _ _ inside_sound rest_sound =>
      obtain ⟨next, step, steps⟩ := actAll_cons_eq_ok.mp steps
      have follows : Kind.otherwise.MayFollow before.current.kinds.getLast? :=
        ⟨by simp [Kind.isText], fun _ => fits rfl⟩
      have next_sound : next.Sound := sound.within rfl follows
        (fun last opened acted => inside_sound opened (fits_onward _ (.content true)) acted) step
      exact rest_sound next_sound (next.fits_onward (.content true)) steps
  | iteration left right offset _ _ inside_sound rest_sound =>
      obtain ⟨next, step, steps⟩ := actAll_cons_eq_ok.mp steps
      have next_sound : next.Sound := sound.within rfl (Kind.mayFollow_of_plain rfl rfl _)
        (fun last opened acted => inside_sound opened (fits_onward _ (.content true)) acted) step
      exact rest_sound next_sound (next.fits_onward (.content true)) steps
  | component reference props offset _ _ inside_sound rest_sound =>
      obtain ⟨next, step, steps⟩ := actAll_cons_eq_ok.mp steps
      have next_sound : next.Sound := sound.within rfl (Kind.mayFollow_of_plain rfl rfl _)
        (fun last opened acted => inside_sound opened trivial acted) step
      exact rest_sound next_sound (next.fits_onward (.content true)) steps
  | slot name scope loop offset _ _ inside_sound rest_sound =>
      obtain ⟨next, step, steps⟩ := actAll_cons_eq_ok.mp steps
      have next_sound : next.Sound := sound.within rfl (Kind.mayFollow_of_plain rfl rfl _)
        (fun last opened acted => inside_sound opened (fits_onward _ (.content true)) acted) step
      exact rest_sound next_sound trivial steps

theorem sound_start : start.Sound :=
  .root ⟨rfl, Kind.inRow_nil, by simp⟩

/-- What is so everywhere under the only open node is so of every node of the tree. -/
theorem everywhere_builder {holds : Kind → List Kind → Prop} {spine : Spine}
    (closed : spine.outer = []) (every : spine.current.branch.Everywhere holds) {node : Nat}
    (inside : node < spine.builder.tree.size) :
    holds (spine.builder.tree.kind node)
      ((spine.builder.tree.children node).map spine.builder.tree.kind) := by
  obtain ⟨⟨kind, done⟩, outer⟩ := spine
  subst closed
  cases every with
  | node here below =>
      have stored := holds_current ⟨⟨kind, done⟩, []⟩
      rw [Frame.entries, List.append_nil] at stored
      rw [size_builder, size, nodeIn] at inside
      rcases Nat.eq_zero_or_pos node with rfl | later
      · have entry : (Spine.mk ⟨kind, done⟩ []).builder.tree.entries[0]? = _ := stored.head
        have kinds := stored.tail.kinds
        simpa [Tree.kind, Tree.children, entry, ← kinds] using here
      · exact stored.tail.everywhereAll below later inside

end Spine

/-- Whatever tree is built from whatever statements, every node of it is in order with the nodes
under it. -/
theorem Tree.ofStatements_orderly {helpers : HelperNames} {statements : List Script.Statement}
    {length : Nat} {tree : Tree} (built : Tree.ofStatements helpers statements length = .ok tree)
    {node : Nat} (inside : node < tree.size) :
    (tree.kind node).Orderly ((tree.children node).map tree.kind) := by
  obtain ⟨spine, acted, closed, rfl⟩ := Spine.ofActions_eq_ok.mp built
  have sound : spine.Sound :=
    Spine.sound_start.actAll (Script.arranged_statementsActions helpers statements)
      (Spine.start.fits_onward (.content true)) acted
  exact Spine.everywhere_builder closed sound.endImplied.current.branch inside

/-- Whatever tree is rebuilt from whatever module, every node of it is in order with the nodes under
it. -/
theorem reconstruct_orderly {source : String} {helpers : HelperNames} {tree : Tree}
    (rebuilt : reconstruct source helpers = .ok (some tree)) {node : Nat}
    (inside : node < tree.size) :
    (tree.kind node).Orderly ((tree.children node).map tree.kind) := by
  obtain ⟨statements, built⟩ := exists_ofStatements_of_reconstruct rebuilt
  exact Tree.ofStatements_orderly built inside

/-- A module that renders a paragraph and then one of two texts. -/
def paragraphAndChoice : String :=
  "function ssrRender(_push) \x7b _push('<p>a</p>')\n" ++
    "if (b) \x7b _push('c') \x7d else \x7b _push('d') \x7d \x7d"

theorem reconstruct_orderly_paragraphAndChoice :
    ∃ tree, reconstruct paragraphAndChoice .usual = .ok (some tree) ∧ Tree.root < tree.size ∧
      (tree.kind Tree.root).Orderly ((tree.children Tree.root).map tree.kind) := by
  have rebuilt : reconstruct paragraphAndChoice .usual = .ok (some
      ⟨#[⟨.root, none, #[1, 3, 5]⟩, ⟨.element "p" "", some 0, #[2]⟩, ⟨.text "a", some 1, #[]⟩,
        ⟨.conditional "b" false, some 0, #[4]⟩, ⟨.text "c", some 3, #[]⟩,
        ⟨.otherwise, some 0, #[6]⟩, ⟨.text "d", some 5, #[]⟩]⟩) :=
    eq_ok_of_toOption (by decide +kernel)
  exact ⟨_, rebuilt, by decide, reconstruct_orderly rebuilt (by decide)⟩

end IslandSlots
