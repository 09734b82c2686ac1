import IslandSlots.Proofs.Render.Printing
import IslandSlots.Proofs.Render.Spine

/-!
# Reading a printed tree

Reading the statements that print a canonical forest builds that forest again. Every construct
gives the open nodes back as it found them, with its own branch added last, so the branches of a
row are added one after the other whatever is inside them.
-/

namespace IslandSlots

open Branch Script

namespace Kind

/-- Whether a node of some kind holds content, which is anything but slots and a root. -/
def holdsContent : Kind → Bool
  | .root | .element .. | .slot .. | .conditional .. | .otherwise | .iteration .. => true
  | _ => false

theorem accepts_of_holdsContent {kind child : Kind} (holds : kind.holdsContent)
    (other : child ≠ .root) (no_slot : child.isSlot = false) : kind.accepts child := by
  cases kind <;> cases child <;> simp_all [holdsContent, accepts, isSlot]

theorem component_accepts {reference props : String} {child : Kind} (slot : child.isSlot) :
    (component reference props).accepts child := by
  cases child with
  | slot name scope loop => rfl
  | _ => cases slot

end Kind

namespace Script

theorem statementsActions_append (helpers : HelperNames) (first second : List Statement) :
    statementsActions helpers (first ++ second) =
      statementsActions helpers first ++ statementsActions helpers second := by
  induction first with
  | nil => rfl
  | cons statement first induction => simp [statementsActions, induction]

end Script

namespace Spine

/-- Control flow whose content adds branches adds a branch of its kind. -/
theorem act_within {spine : Spine} {kind : Kind} {children : List Branch} {inside : List Action}
    (accepted : spine.current.kind.accepts kind) (offset : Nat)
    (inner : (spine.opening kind).actAll inside = .ok ((spine.opening kind).addAll children)) :
    spine.act (.within kind offset inside) = .ok (spine.add (.node kind children)) := by
  have same : ((spine.opening kind).addAll children).node = spine.size := rfl
  rw [act, enter_eq_ok.mpr ⟨accepted, rfl⟩]
  simp only [bind, Except.bind, inner]
  rw [leave, if_pos same, if_pos same]
  rfl

theorem act_place {spine : Spine} {kind : Kind} (accepted : spine.current.kind.accepts kind)
    (offset : Nat) : spine.act (.place kind offset) = .ok (spine.add (.node kind [])) := by
  rw [act, place_eq_ok.mpr ⟨accepted, rfl⟩]

theorem act_feed {spine : Spine} {chunk : Markup} {token : Token}
    (tokens_eq : chunk.tokens = .ok [token]) (offset : Nat) :
    spine.act (.feed chunk offset) = spine.token offset token := by
  rw [act, feed, tokens_eq]
  simp only [tokens]
  cases spine.token offset token <;> rfl

theorem token_closing (spine : Spine) (tag attrs : String) (children : List Branch)
    (offset : Nat) :
    ((spine.opening (.element tag attrs)).addAll children).token offset (.closing tag) =
      .ok (spine.add (.node (.element tag attrs) children)) := by
  have tagged : ((spine.opening (.element tag attrs)).addAll children).current.kind.hasTag tag := by
    simp [addAll, opening, Kind.hasTag]
  rw [token, closeTag, if_pos tagged, if_pos tagged]
  rfl

end Spine

namespace Spelling

variable {spelling : Spelling} {helpers : HelperNames} {previous : Option Kind}
  {children rest : List Branch}

/-! ## Rows -/

/-- The actions of what prints branches, those of an alternative at the front first. -/
def rowActions (spelling : Spelling) (helpers : HelperNames) (path : List Part)
    (forest : List Branch) : List Action :=
  alternativeActions helpers (spelling.alternative helpers path forest) ++
    statementsActions helpers (spelling.statements helpers path forest)

/-- What prints branches adds them where they may stand. -/
def Restores (spelling : Spelling) (helpers : HelperNames) : Row → List Branch → Prop
  | .content previous, forest => ∀ (path : List Part) (spine : Spine),
    spine.current.kind.holdsContent →
      ((∀ found, previous ≠ some (.text found)) →
        ∀ content, Spine.joinText content spine.current.done = none) →
      spine.actAll (spelling.rowActions helpers path forest) = .ok (spine.addAll forest)
  | .slots, forest => ∀ (path : List Part) (spine : Spine),
    (∀ slot : Kind, slot.isSlot → spine.current.kind.accepts slot) →
      spine.actAll (slotMembers helpers (spelling.members helpers path forest)) =
        .ok (spine.addAll forest)

/-- An alternative of an `if` stands right after a conditional only. -/
theorem alternative_eq_missing {forest : List Branch}
    (canonical : spelling.Canonical helpers (.content previous) forest)
    (other : ∀ test chain, previous ≠ some (.conditional test chain)) (path : List Part) :
    spelling.alternative helpers path forest = .missing := by
  cases canonical with
  | chained => exact absurd rfl (other _ _)
  | otherwise => exact absurd rfl (other _ _)
  | _ => simp [alternative]

theorem rowActions_eq {forest : List Branch}
    (canonical : spelling.Canonical helpers (.content previous) forest)
    (other : ∀ test chain, previous ≠ some (.conditional test chain)) (path : List Part) :
    spelling.rowActions helpers path forest =
      statementsActions helpers (spelling.statements helpers path forest) := by
  rw [rowActions, alternative_eq_missing canonical other, alternativeActions]
  rfl

/-- What prints the content of a node adds it under that node when it is opened. -/
theorem Restores.inside (restores : spelling.Restores helpers (.content none) children)
    (canonical : spelling.Canonical helpers (.content none) children) {kind : Kind}
    (holds : kind.holdsContent) (path : List Part) (spine : Spine) :
    (spine.opening kind).actAll
        (statementsActions helpers (spelling.statements helpers path children)) =
      .ok ((spine.opening kind).addAll children) := by
  rw [← rowActions_eq canonical (by simp)]
  exact restores path _ holds fun _ _ => rfl

/-- A node opened around what prints its content is added with that content. -/
theorem Restores.within (restores : spelling.Restores helpers (.content none) children)
    (canonical : spelling.Canonical helpers (.content none) children) {kind : Kind}
    (inner : kind.holdsContent) {spine : Spine} (accepted : spine.current.kind.accepts kind)
    (path : List Part) (offset : Nat) :
    spine.actAll [.within kind offset
        (statementsActions helpers (spelling.statements helpers path children))] =
      .ok (spine.add (.node kind children)) :=
  Spine.actAll_cons (Spine.act_within accepted offset (restores.inside canonical inner path spine))
    rfl

/-- What prints a branch and those after it adds all of them. -/
theorem Restores.cons {branch : Branch}
    (restores : spelling.Restores helpers (.content (some branch.kind)) rest) {spine : Spine}
    (holds : spine.current.kind.holdsContent) {own : List Action}
    (added : spine.actAll own = .ok (spine.add branch)) (path : List Part) :
    spine.actAll (own ++ spelling.rowActions helpers path rest) =
      .ok (spine.addAll (branch :: rest)) := by
  rw [Spine.actAll_append, added, ← Spine.addAll_add]
  apply restores
  · exact holds
  · intro no_text content
    apply Spine.joinText_none
    rintro found children rfl
    exact no_text found rfl

/-- A branch that is no part of an `if` is printed by statements of its own. -/
theorem Restores.apart {branch : Branch}
    (restores : spelling.Restores helpers (.content (some branch.kind)) rest)
    (canonical : spelling.Canonical helpers (.content (some branch.kind)) rest)
    (other : ∀ test chain, some branch.kind ≠ some (.conditional test chain)) {path : List Part}
    (missing : spelling.alternative helpers path (branch :: rest) = .missing)
    (own : List Statement)
    (statements_eq : spelling.statements helpers path (branch :: rest) =
      own ++ spelling.statements helpers (.rest :: path) rest)
    {spine : Spine} (holds : spine.current.kind.holdsContent)
    (added : spine.actAll (statementsActions helpers own) = .ok (spine.add branch)) :
    spine.actAll (spelling.rowActions helpers path (branch :: rest)) =
      .ok (spine.addAll (branch :: rest)) := by
  have row_eq : spelling.rowActions helpers path (branch :: rest) =
      statementsActions helpers own ++ spelling.rowActions helpers (.rest :: path) rest := by
    rw [rowActions_eq canonical other, rowActions, missing, statements_eq, alternativeActions,
      statementsActions_append]
    rfl
  rw [row_eq]
  exact restores.cons holds added (.rest :: path)

/-! ## Pushes -/

theorem statementActions_pushing (path : List Part) (value : Expr) :
    statementActions helpers (spelling.pushing helpers path value) =
      pushedActions helpers value := by
  simp [pushing, statementActions, actions, Expr.name?, pushActions]

/-- Pushing markup that is one token does what the token asks for. -/
theorem actAll_pushingMarkup {spine after : Spine} {chunk : String} {token : Token}
    (tokens_eq : (Markup.empty.pushText chunk).tokens = .ok [token])
    (step : ∀ offset, spine.token offset token = .ok after) (path : List Part) :
    spine.actAll (statementsActions helpers [spelling.pushingMarkup helpers path chunk]) =
      .ok after := by
  rw [pushingMarkup, statementsActions, statementActions_pushing, pushedActions]
  exact Spine.actAll_cons ((Spine.act_feed tokens_eq _).trans (step _)) rfl

/-- A node that one token makes is added by the push of that token. -/
theorem actAll_pushingLeaf {spine : Spine} {chunk : String} {token : Token} {kind : Kind}
    (tokens_eq : (Markup.empty.pushText chunk).tokens = .ok [token])
    (leaf : ∀ offset, spine.token offset token = spine.place kind offset)
    (accepted : spine.current.kind.accepts kind) (path : List Part) :
    spine.actAll (statementsActions helpers [spelling.pushingMarkup helpers path chunk]) =
      .ok (spine.add (.node kind [])) := by
  apply actAll_pushingMarkup tokens_eq
  intro offset
  rw [leaf]
  exact Spine.act_place accepted offset

/-- The pushes of the two tags of an element add it with what is printed between them. -/
theorem actAll_element {spine : Spine} {tag attrs : String} (plain : Tag.IsPlain tag)
    (attrs_plain : Token.AttributesPlain attrs) (filled : ¬Tag.isVoid tag)
    (canonical : spelling.Canonical helpers (.content none) children)
    (restores : spelling.Restores helpers (.content none) children)
    (holds : spine.current.kind.holdsContent) (path : List Part) :
    spine.actAll (statementsActions helpers
        ([spelling.pushingMarkup helpers path (Kind.element tag attrs).label] ++
          (spelling.statements helpers (.inside :: path) children ++
            [spelling.pushingMarkup helpers (.endTag :: path) ("</" ++ tag ++ ">")]))) =
      .ok (spine.add (.node (.element tag attrs) children)) := by
  have accepted : spine.current.kind.accepts (.element tag attrs) :=
    Kind.accepts_of_holdsContent holds (by simp) rfl
  have opened (offset : Nat) : spine.token offset (.opening tag attrs (Tag.isVoid tag)) =
      .ok (spine.opening (.element tag attrs)) := by
    rw [Spine.token, if_neg filled]
    exact Spine.enter_eq_ok.mpr ⟨accepted, rfl⟩
  have open_element : Kind.holdsContent (.element tag attrs) := rfl
  have filling := restores.inside canonical open_element (.inside :: path) spine
  rw [statementsActions_append, Spine.actAll_append,
    actAll_pushingMarkup (Markup.tokens_startTag plain attrs_plain) opened,
    statementsActions_append]
  simp only [bind, Except.bind, Spine.actAll_append, filling]
  exact actAll_pushingMarkup (Markup.tokens_endTag plain)
    (Spine.token_closing spine tag attrs children) (.endTag :: path)

/-! ## Each kind of branch -/

theorem Restores.nil (row : Row) : spelling.Restores helpers row [] := by
  cases row with
  | content previous =>
      intro path spine _ _
      simp [Spine.addAll_nil, rowActions, statements_nil, alternative_nil, alternativeActions,
        statementsActions, Spine.actAll]
  | slots =>
      intro path spine _
      simp [Spine.addAll_nil, members_nil, slotMembers, Spine.actAll]

theorem Restores.element {tag attrs : String} (plain : Tag.IsPlain tag)
    (attrs_plain : Token.AttributesPlain attrs) (void : Tag.isVoid tag → children = [])
    (inside : spelling.Canonical helpers (.content none) children)
    (after : spelling.Canonical helpers (.content (some (.element tag attrs))) rest)
    (restores_inside : spelling.Restores helpers (.content none) children)
    (restores_after : spelling.Restores helpers (.content (some (.element tag attrs))) rest) :
    spelling.Restores helpers (.content previous)
      (.node (.element tag attrs) children :: rest) := by
  intro path spine holds _
  have missing : spelling.alternative helpers path
      (.node (.element tag attrs) children :: rest) = .missing := by simp [alternative]
  by_cases void_tag : Tag.isVoid tag
  · obtain rfl := void void_tag
    refine restores_after.apart after (by simp [Branch.kind]) missing
      [spelling.pushingMarkup helpers path (Kind.element tag attrs).label] ?_ holds ?_
    · rw [statements, if_pos void_tag]
      rfl
    · refine actAll_pushingLeaf (Markup.tokens_startTag plain attrs_plain) ?_
        (Kind.accepts_of_holdsContent holds (by simp) rfl) path
      intro offset
      rw [Spine.token, if_pos void_tag]
  · refine restores_after.apart after (by simp [Branch.kind]) missing _ ?_ holds
      (actAll_element plain attrs_plain void_tag inside restores_inside holds path)
    rw [statements, if_neg void_tag]
    simp [content]

theorem Restores.text {content : String} (plain : Token.TextPlain content)
    (alone : ∀ found, previous ≠ some (.text found))
    (after : spelling.Canonical helpers (.content (some (.text content))) rest)
    (restores_after : spelling.Restores helpers (.content (some (.text content))) rest) :
    spelling.Restores helpers (.content previous) (.node (.text content) [] :: rest) := by
  intro path spine holds no_join
  refine restores_after.apart after (by simp [Branch.kind]) (by simp [alternative])
    [spelling.pushingMarkup helpers path content] (by rw [statements]; rfl) holds ?_
  refine actAll_pushingLeaf (Markup.tokens_text plain) ?_
    (Kind.accepts_of_holdsContent holds (by simp) rfl) path
  intro offset
  rw [Spine.token, Spine.text, no_join alone content]

theorem Restores.comment (marker : Marker)
    (after : spelling.Canonical helpers (.content (some (.comment marker))) rest)
    (restores_after : spelling.Restores helpers (.content (some (.comment marker))) rest) :
    spelling.Restores helpers (.content previous) (.node (.comment marker) [] :: rest) := by
  intro path spine holds _
  refine restores_after.apart after (by simp [Branch.kind]) (by simp [alternative])
    [spelling.pushingMarkup helpers path marker.label] (by rw [statements]; rfl) holds ?_
  have accepted : spine.current.kind.accepts (.comment marker) :=
    Kind.accepts_of_holdsContent holds (by simp) rfl
  cases marker with
  | start => exact actAll_pushingLeaf Markup.tokens_fragmentStart (fun _ => rfl) accepted path
  | stop => exact actAll_pushingLeaf Markup.tokens_fragmentEnd (fun _ => rfl) accepted path

theorem Restores.invalid
    (after : spelling.Canonical helpers (.content (some .invalid)) rest)
    (restores_after : spelling.Restores helpers (.content (some .invalid)) rest) :
    spelling.Restores helpers (.content previous) (.node .invalid [] :: rest) := by
  intro path spine holds _
  refine restores_after.apart after (by simp [Branch.kind]) (by simp [alternative])
    [spelling.pushing helpers path
      (.identifier (spelling.place (.pushed :: path)) (spelling.hidden path))]
    (by rw [statements]; rfl) holds ?_
  have accepted : spine.current.kind.accepts .invalid :=
    Kind.accepts_of_holdsContent holds (by simp) rfl
  rw [statementsActions, statementActions_pushing]
  simp only [pushedActions]
  exact Spine.actAll_cons (Spine.act_place accepted _) rfl

theorem Restores.conditional {test : String}
    (other : ∀ path, (spelling.expr path test).name? ≠ some helpers.push)
    (inside : spelling.Canonical helpers (.content none) children)
    (restores_inside : spelling.Restores helpers (.content none) children)
    (restores_after :
      spelling.Restores helpers (.content (some (.conditional test false))) rest) :
    spelling.Restores helpers (.content previous)
      (.node (.conditional test false) children :: rest) := by
  intro path spine holds _
  have row_eq : spelling.rowActions helpers path
      (.node (.conditional test false) children :: rest) =
      [.within (.conditional test false) (spelling.place (.branch :: path)).start
        (statementsActions helpers (spelling.statements helpers (.inside :: path) children))] ++
        spelling.rowActions helpers (.rest :: path) rest := by
    simp [rowActions, alternative, statements, content, alternativeActions, statementsActions,
      statementActions, other, spelling.text_expr]
  rw [row_eq]
  exact restores_after.cons holds (restores_inside.within inside rfl
    (Kind.accepts_of_holdsContent holds (by simp) rfl) _ _) _

theorem Restores.chained {test : String}
    (inside : spelling.Canonical helpers (.content none) children)
    (restores_inside : spelling.Restores helpers (.content none) children)
    (restores_after :
      spelling.Restores helpers (.content (some (.conditional test true))) rest) :
    spelling.Restores helpers (.content previous)
      (.node (.conditional test true) children :: rest) := by
  intro path spine holds _
  have row_eq : spelling.rowActions helpers path
      (.node (.conditional test true) children :: rest) =
      [.within (.conditional test true) (spelling.place (.branch :: path)).start
        (statementsActions helpers (spelling.statements helpers (.inside :: path) children))] ++
        spelling.rowActions helpers (.rest :: path) rest := by
    simp [rowActions, alternative, statements, content, alternativeActions, statementActions,
      spelling.text_expr]
  rw [row_eq]
  exact restores_after.cons holds (restores_inside.within inside rfl
    (Kind.accepts_of_holdsContent holds (by simp) rfl) _ _) _

theorem Restores.otherwise (inside : spelling.Canonical helpers (.content none) children)
    (after : spelling.Canonical helpers (.content (some .otherwise)) rest)
    (restores_inside : spelling.Restores helpers (.content none) children)
    (restores_after : spelling.Restores helpers (.content (some .otherwise)) rest) :
    spelling.Restores helpers (.content previous) (.node .otherwise children :: rest) := by
  intro path spine holds _
  have row_eq : spelling.rowActions helpers path (.node .otherwise children :: rest) =
      [.within .otherwise (spelling.place (.alternative :: path)).start
        (statementsActions helpers (spelling.statements helpers (.inside :: path) children))] ++
        spelling.rowActions helpers (.rest :: path) rest := by
    rw [rowActions_eq after (by simp)]
    simp [rowActions, alternative, statements, content, alternativeActions, statementActions]
  rw [row_eq]
  exact restores_after.cons holds (restores_inside.within inside rfl
    (Kind.accepts_of_holdsContent holds (by simp) rfl) _ _) _

theorem Restores.iteration {left right : String} (distinct : helpers.push ≠ helpers.renderList)
    (inside : spelling.Canonical helpers (.content none) children)
    (after : spelling.Canonical helpers (.content (some (.iteration left right))) rest)
    (restores_inside : spelling.Restores helpers (.content none) children)
    (restores_after : spelling.Restores helpers (.content (some (.iteration left right))) rest) :
    spelling.Restores helpers (.content previous)
      (.node (.iteration left right) children :: rest) := by
  intro path spine holds _
  refine restores_after.apart after (by simp [Branch.kind]) (by simp [alternative])
    [_] (by rw [statements, content]; rfl) holds ?_
  have actions_eq : statementsActions helpers [.expression
      (spelling.calling path helpers.renderList [spelling.expr (.subject :: path) right,
        spelling.arrow path (some left)
          (spelling.statements helpers (.inside :: path) children)])] =
      [.within (.iteration left right) (spelling.place (.call :: path)).start
        (statementsActions helpers (spelling.statements helpers (.inside :: path) children))] := by
    simp [calling, arrow, statementsActions, statementActions, actions, Expr.name?,
      distinct.symm, listActions, callback?, bodyActions, Parameters.binding, spelling.text_expr]
  rw [actions_eq]
  exact restores_inside.within inside rfl (Kind.accepts_of_holdsContent holds (by simp) rfl) _ _

theorem Restores.component {reference props : String}
    (after : spelling.Canonical helpers (.content (some (.component reference props))) rest)
    (restores_inside : spelling.Restores helpers .slots children)
    (restores_after :
      spelling.Restores helpers (.content (some (.component reference props))) rest) :
    spelling.Restores helpers (.content previous)
      (.node (.component reference props) children :: rest) := by
  intro path spine holds _
  refine restores_after.apart after (by simp [Branch.kind]) (by simp [alternative])
    [_] (by rw [statements, slots]; rfl) holds ?_
  have actions_eq : statementsActions helpers [spelling.pushing helpers path
      (spelling.calling path helpers.renderComponent [spelling.expr (.subject :: path) reference,
        spelling.expr (.props :: path) props,
        .object (spelling.place (.slots :: path))
          (spelling.members helpers (.inside :: path) children)])] =
      [.within (.component reference props) (spelling.place (.call :: path)).start
        (slotMembers helpers (spelling.members helpers (.inside :: path) children))] := by
    rw [statementsActions, statementActions_pushing]
    simp [calling, statementsActions, pushedActions, Expr.name?, componentActions, slotsActions,
      spelling.text_expr]
  have filled := restores_inside (.inside :: path) (spine.opening (.component reference props))
    fun _ slot => Kind.component_accepts slot
  rw [actions_eq]
  exact Spine.actAll_cons
    (Spine.act_within (Kind.accepts_of_holdsContent holds (by simp) rfl) _ filled) rfl

theorem Restores.slot {name : String} {scope : Option String} (named : name ≠ "_")
    (bound : scope ≠ some "_") (inside : spelling.Canonical helpers (.content none) children)
    (restores_inside : spelling.Restores helpers (.content none) children)
    (restores_after : spelling.Restores helpers .slots rest) :
    spelling.Restores helpers .slots (.node (.slot name scope none) children :: rest) := by
  intro path spine accepts
  have scope_eq : Parameters.scope ⟨scope.toList, none⟩ = scope := by
    cases scope with
    | none => rfl
    | some scope => simpa [Parameters.scope] using bound
  have actions_eq : slotMembers helpers
      (spelling.members helpers path (.node (.slot name scope none) children :: rest)) =
      [.within (.slot name scope none) (spelling.place (.slot :: path)).start
        (statementsActions helpers (spelling.statements helpers (.inside :: path) children))] ++
        slotMembers helpers (spelling.members helpers (.rest :: path) rest) := by
    simp [members, content, slotMembers, named, calling, arrow, slotFunction?, Expr.name?,
      firstCallback?, callback?, slotAction, bodyActions, scope_eq]
  rw [actions_eq, Spine.actAll_append, restores_inside.within inside rfl (accepts _ rfl),
    ← Spine.addAll_add]
  exact restores_after _ _ accepts

/-- What prints a canonical forest adds the forest. -/
theorem Canonical.restores {row : Row} {forest : List Branch}
    (canonical : spelling.Canonical helpers row forest)
    (distinct : helpers.push ≠ helpers.renderList) : spelling.Restores helpers row forest := by
  induction canonical with
  | nil row => exact .nil row
  | element plain attrs_plain void inside after restores_inside restores_after =>
      exact .element plain attrs_plain void inside after restores_inside restores_after
  | text plain alone after restores_after => exact .text plain alone after restores_after
  | comment marker after restores_after => exact .comment marker after restores_after
  | invalid after restores_after => exact .invalid after restores_after
  | conditional other inside after restores_inside restores_after =>
      exact .conditional other inside restores_inside restores_after
  | chained inside after restores_inside restores_after =>
      exact .chained inside restores_inside restores_after
  | otherwise inside after restores_inside restores_after =>
      exact .otherwise inside after restores_inside restores_after
  | iteration left right inside after restores_inside restores_after =>
      exact .iteration distinct inside after restores_inside restores_after
  | component reference props inside after restores_inside restores_after =>
      exact .component after restores_inside restores_after
  | slot named bound inside after restores_inside restores_after =>
      exact .slot named bound inside restores_inside restores_after

end Spelling

/-- Printing a canonical forest and reading the statements gives the forest back. -/
theorem Tree.ofStatements_statements (spelling : Spelling) {helpers : HelperNames}
    (distinct : helpers.push ≠ helpers.renderList) {forest : List Branch}
    (canonical : spelling.Canonical helpers (.content none) forest) (path : List Part)
    (length : Nat) :
    ∃ tree,
      Tree.ofStatements helpers (spelling.statements helpers path forest) length = .ok tree ∧
        tree.branch Tree.root = .node .root forest := by
  have acted : Spine.start.actAll
      (statementsActions helpers (spelling.statements helpers path forest)) =
        .ok (Spine.start.addAll forest) := by
    rw [← Spelling.rowActions_eq canonical (by simp)]
    exact canonical.restores distinct path Spine.start rfl fun _ _ => rfl
  refine ⟨(Spine.start.addAll forest).builder.tree, ?_, Spine.branch_root rfl⟩
  exact Spine.ofActions_eq_ok.mpr ⟨_, acted, rfl, rfl⟩

/-- Expressions that nothing looks into, all at one place. -/
def Spelling.verbatim : Spelling where
  expr _ text := .other ⟨0, text⟩
  text_expr _ _ := rfl
  hidden _ := "value"
  place _ := default

/-- A forest with a branch of each kind. -/
def everyKind : List Branch :=
  [.node (.element "ul" "class=\"a\"")
      [.node (.comment .start) [],
        .node (.iteration "item" "items") [.node (.element "li" "") [.node (.text "x") []]],
        .node (.comment .stop) []],
    .node (.conditional "first" false) [.node (.element "img" "") []],
    .node (.conditional "second" true) [],
    .node .otherwise [.node .invalid []],
    .node (.component "Child" "null")
      [.node (.slot "default" (some "props") none) [.node (.text "y") []]]]

theorem canonical_everyKind : Spelling.verbatim.Canonical .usual (.content none) everyKind := by
  have list : Tag.IsPlain "ul" := ⟨by decide, by decide, by decide⟩
  have item : Tag.IsPlain "li" := ⟨by decide, by decide, by decide⟩
  have image : Tag.IsPlain "img" := ⟨by decide, by decide, by decide⟩
  have unquoted {attrs : String} (absent : '>' ∉ attrs.toList) (before after : List Char)
      (split : attrs.toList = before ++ '>' :: after) : Odd (before.count '"') :=
    absurd (split ▸ by simp) absent
  have named : Token.AttributesPlain "class=\"a\"" :=
    ⟨by decide, by decide, unquoted (by decide), by decide⟩
  have bare : Token.AttributesPlain "" := ⟨by decide, by decide, unquoted (by decide), by decide⟩
  have text {content : String} (plain : Token.TextPlain content) :
      Spelling.verbatim.Canonical .usual (.content none) [.node (.text content) []] :=
    .text plain (by simp) (.nil _)
  refine .element list named (by decide) ?_ (.conditional (by simp [Spelling.verbatim, Expr.name?])
    ?_ (.chained (.nil _) (.otherwise (.invalid (.nil _)) (.component _ _ ?_ (.nil _)))))
  · refine .comment _ (.iteration _ _ ?_ (.comment _ (.nil _)))
    exact .element item bare (by decide) (text ⟨by decide, by decide⟩) (.nil _)
  · exact .element image bare (fun _ => rfl) (.nil _) (.nil _)
  · exact .slot (by decide) (by decide) (text ⟨by decide, by decide⟩) (.nil _)

/-- The forest with a branch of each kind is read back. -/
theorem Tree.ofStatements_everyKind :
    ∃ tree,
      Tree.ofStatements .usual (Spelling.verbatim.statements .usual [] everyKind) 0 = .ok tree ∧
        tree.branch Tree.root = .node .root everyKind :=
  Tree.ofStatements_statements Spelling.verbatim (by decide) canonical_everyKind [] 0

end IslandSlots
