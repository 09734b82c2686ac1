import IslandSlots.Proofs.Outcome
import IslandSlots.Proofs.Render.Store
import IslandSlots.Render.Reconstruct

/-!
# The calls of a reconstruction

What building asks of the tree, as a list of calls. Done one after the other on the tree that a run
begins with, they make the tree that it ends with, and one of them is refused exactly where the run
fails for a child that is refused. A rebuilt tree is made by its calls alone, from a tree with
nothing in it.
-/

namespace IslandSlots

/-! ## Calls in a row -/

namespace Tree

variable {tree last : Tree} {calls more : List Call}

/-- Does calls in order, up to the first that is refused. -/
def perform (tree : Tree) : List Call → Except InvalidChild Tree
  | [] => .ok tree
  | call :: calls => do
    let (_, next) ← call.outcome tree
    next.perform calls

theorem perform_append (tree : Tree) (calls more : List Call) :
    tree.perform (calls ++ more) = tree.perform calls >>= fun next => next.perform more := by
  induction calls generalizing tree with
  | nil => rfl
  | cons call calls induction =>
      rw [List.cons_append, perform, perform]
      cases call.outcome tree with
      | error refusal => rfl
      | ok made => exact induction made.2

/-- Calls of which none is refused make the tree that is there after them. -/
theorem foldl_after_of_perform (made : tree.perform calls = .ok last) :
    calls.foldl Call.after tree = last := by
  induction calls generalizing tree with
  | nil => exact Except.ok.inj made
  | cons call calls induction =>
      obtain ⟨⟨node, next⟩, outcome_eq, rest⟩ := bind_eq_ok.mp made
      have after_eq : call.after tree = next := by
        rw [Call.after, Call.run_work, outcome_eq]
        rfl
      rw [List.foldl_cons, after_eq]
      exact induction rest

end Tree

/-! ## The calls of a run -/

/-- The child that was refused, if that is why building has failed. -/
def RenderError.refusal? : RenderError → Option InvalidChild
  | .malformed (.misplaced refusal) _ => some refusal
  | _ => none

namespace Builder

/-- The calls that are made once a step has succeeded. -/
def callsAfter (step : Except RenderError Builder) (more : Builder → List Tree.Call) :
    List Tree.Call :=
  match step with
  | .ok next => more next
  | .error _ => []

/-- The calls that a token makes. -/
def tokenCalls (builder : Builder) : Token → List Tree.Call
  | .opening tag attrs _ => [.append builder.current (.element tag attrs)]
  | .closing _ => []
  | .text content => [.appendText builder.current content]
  | .fragmentStart => [.append builder.current (.comment .start)]
  | .fragmentEnd => [.append builder.current (.comment .stop)]
  | .comment _ => []

/-- The calls that tokens make, in order, up to the first that fails. -/
def tokensCalls (builder : Builder) (offset : Nat) : List Token → List Tree.Call
  | [] => []
  | token :: rest =>
    builder.tokenCalls token ++
      callsAfter (builder.token offset token) fun next => next.tokensCalls offset rest

/-- The calls that a chunk of markup makes. -/
def feedCalls (builder : Builder) (chunk : Markup) (offset : Nat) : List Tree.Call :=
  match chunk.tokens with
  | .ok tokens => builder.tokensCalls offset tokens
  | .error _ => []

mutual

/-- The calls that an action makes. -/
def calls (builder : Builder) : Action → List Tree.Call
  | .feed chunk offset => builder.feedCalls chunk offset
  | .place kind _ => [.append builder.current kind]
  | .within kind offset inside =>
    .append builder.current kind ::
      callsAfter (Prod.snd <$> builder.enter kind offset) fun inner => inner.callsAll inside
  | .reject _ _ => []

/-- The calls that actions make, in order, up to the first that fails. -/
def callsAll (builder : Builder) : List Action → List Tree.Call
  | [] => []
  | action :: actions =>
    builder.calls action ++ callsAfter (builder.act action) fun next => next.callsAll actions

end

/-- Calls on a tree are those of a run with the given result: they make the tree that it ends with,
and one of them is refused exactly where the run fails for that. -/
def Performs (tree : Tree) (calls : List Tree.Call) : Except RenderError Builder → Prop
  | .ok after => tree.perform calls = .ok after.tree
  | .error error =>
    match error.refusal? with
    | some refusal => tree.perform calls = .error refusal
    | none => ∃ left, tree.perform calls = .ok left

section Performs

variable {tree : Tree} {calls : List Tree.Call} {builder : Builder} {offset : Nat}

theorem Performs.bind {result : Except RenderError Builder}
    {next : Builder → Except RenderError Builder} {more : Builder → List Tree.Call}
    (first : Performs tree calls result)
    (second : ∀ after, result = .ok after → Performs after.tree (more after) (next after)) :
    Performs tree (calls ++ callsAfter result more) (result >>= next) := by
  cases result with
  | error error =>
      rw [callsAfter, List.append_nil]
      exact first
  | ok after =>
      have made : tree.perform calls = .ok after.tree := first
      have rest := second after rfl
      have joined : tree.perform (calls ++ more after) = after.tree.perform (more after) := by
        rw [Tree.perform_append, made]
        rfl
      show Performs tree (calls ++ more after) (next after)
      cases next_eq : next after with
      | ok last =>
          rw [next_eq] at rest
          exact joined.trans rest
      | error error =>
          rw [next_eq] at rest
          simp only [Performs] at rest ⊢
          rwa [joined]

/-- Closing nodes asks nothing of the tree. -/
theorem Performs.closing {result : Except RenderError Builder}
    {next : Builder → Except RenderError Builder} (first : Performs tree calls result)
    (quiet : ∀ after, Performs after.tree [] (next after)) :
    Performs tree calls (result >>= next) := by
  have whole : Performs tree (calls ++ callsAfter result fun _ => []) (result >>= next) :=
    first.bind fun after _ => quiet after
  have none_more : callsAfter result (fun _ => []) = [] := by cases result <;> rfl
  rwa [none_more, List.append_nil] at whole

theorem performs_place (builder : Builder) (kind : Kind) (offset : Nat) :
    Performs builder.tree [.append builder.current kind]
      (Prod.snd <$> builder.place kind offset) := by
  rw [place]
  cases made : builder.tree.append builder.current kind with
  | error refusal =>
      show Tree.perform _ _ = _
      rw [Tree.perform, Tree.Call.outcome, made]
      rfl
  | ok found =>
      show Tree.perform _ _ = _
      rw [Tree.perform, Tree.Call.outcome, made]
      rfl

theorem performs_enter (builder : Builder) (kind : Kind) (offset : Nat) :
    Performs builder.tree [.append builder.current kind]
      (Prod.snd <$> builder.enter kind offset) := by
  have placed := performs_place builder kind offset
  rw [enter]
  cases made : builder.place kind offset with
  | error error =>
      rw [made] at placed
      exact placed
  | ok found =>
      rw [made] at placed
      exact placed

theorem performs_text (builder : Builder) (content : String) (offset : Nat) :
    Performs builder.tree [.appendText builder.current content] (builder.text content offset) := by
  rw [text]
  cases made : builder.tree.appendText builder.current content with
  | error refusal =>
      show Tree.perform _ _ = _
      rw [Tree.perform, Tree.Call.outcome, made]
      rfl
  | ok found =>
      show Tree.perform _ _ = _
      rw [Tree.perform, Tree.Call.outcome, made]
      rfl

theorem performs_closeTag (builder : Builder) (tag : String) (offset : Nat) :
    Performs builder.tree [] (builder.closeTag tag offset) := by
  have ended : (if builder.isInside tag then builder else builder.endImplied).tree = builder.tree := by
    split <;> rfl
  rw [closeTag]
  generalize (if builder.isInside tag then builder else builder.endImplied) = last at ended
  by_cases inside : last.isInside tag
  · simp only [inside, if_true]
    exact congrArg Except.ok ended.symm
  · simp only [inside]
    exact ⟨builder.tree, rfl⟩

theorem performs_leave (builder : Builder) (node offset : Nat) :
    Performs builder.tree [] (builder.leave node offset) := by
  have ended : (if builder.current = node then builder else builder.endImplied).tree =
      builder.tree := by
    split <;> rfl
  rw [leave]
  generalize (if builder.current = node then builder else builder.endImplied) = last at ended
  by_cases here : last.current = node
  · simp only [here, if_true]
    exact congrArg Except.ok ended.symm
  · simp only [here, if_false]
    exact ⟨builder.tree, rfl⟩

theorem performs_token (builder : Builder) (offset : Nat) (token : Token) :
    Performs builder.tree (builder.tokenCalls token) (builder.token offset token) := by
  cases token with
  | opening tag attrs selfClosing =>
      rw [Builder.token]
      cases selfClosing with
      | true => exact performs_place builder (.element tag attrs) offset
      | false => exact performs_enter builder (.element tag attrs) offset
  | closing tag => exact performs_closeTag builder tag offset
  | text content => exact performs_text builder content offset
  | fragmentStart => exact performs_place builder (.comment .start) offset
  | fragmentEnd => exact performs_place builder (.comment .stop) offset
  | comment body => rfl

theorem performs_tokens (builder : Builder) (offset : Nat) (tokens : List Token) :
    Performs builder.tree (builder.tokensCalls offset tokens) (builder.tokens offset tokens) := by
  induction tokens generalizing builder with
  | nil => rfl
  | cons token rest induction =>
      exact (performs_token builder offset token).bind fun next _ => induction next

theorem performs_feed (builder : Builder) (chunk : Markup) (offset : Nat) :
    Performs builder.tree (builder.feedCalls chunk offset) (builder.feed chunk offset) := by
  rw [feedCalls, feed]
  cases chunk.tokens with
  | ok tokens => exact performs_tokens builder offset tokens
  | error error => exact ⟨builder.tree, rfl⟩

mutual

/-- The calls of an action are those that doing it makes. -/
theorem performs_act (builder : Builder) (action : Action) :
    Performs builder.tree (builder.calls action) (builder.act action) := by
  cases action with
  | feed chunk offset => exact performs_feed builder chunk offset
  | place kind offset => exact performs_place builder kind offset
  | within kind offset inside =>
      have entered := performs_enter builder kind offset
      rw [calls, act]
      cases opened : builder.enter kind offset with
      | error error =>
          rw [opened] at entered
          exact entered
      | ok found =>
          obtain ⟨node, inner⟩ := found
          rw [opened] at entered
          have held : Performs inner.tree (inner.callsAll inside)
              (inner.actAll inside >>= fun last => last.leave node offset) :=
            (performs_actAll inner inside).closing fun last => performs_leave last node offset
          have placed : Performs builder.tree [.append builder.current kind] (.ok inner) := entered
          show Performs builder.tree
            ([.append builder.current kind] ++
              callsAfter (.ok inner) fun inner => inner.callsAll inside)
            (Except.ok inner >>= fun inner =>
              inner.actAll inside >>= fun last => last.leave node offset)
          refine placed.bind fun after same => ?_
          cases same
          exact held
  | reject construct offset => exact ⟨builder.tree, rfl⟩

/-- The calls of actions are those that doing them makes. -/
theorem performs_actAll (builder : Builder) (actions : List Action) :
    Performs builder.tree (builder.callsAll actions) (builder.actAll actions) := by
  cases actions with
  | nil => rfl
  | cons action actions =>
      exact (performs_act builder action).bind fun next _ => performs_actAll next actions

end

end Performs

/-- Ending a run asks nothing of the tree and leaves it as it is. -/
theorem finish_eq_ok {builder : Builder} {length : Nat} {tree : Tree}
    (finished : builder.finish length = .ok tree) : builder.tree = tree := by
  rw [finish] at finished
  split at finished
  · exact Except.ok.inj finished
  · cases finished

end Builder

/-- A tree that actions build is made by their calls, none of which is refused. -/
theorem Tree.perform_callsAll {actions : List Action} {length : Nat} {tree : Tree}
    (built : Tree.ofActions actions length = .ok tree) :
    Tree.empty.perform (Builder.start.callsAll actions) = .ok tree := by
  obtain ⟨last, acted, finished⟩ := bind_eq_ok.mp built
  have performs := Builder.performs_actAll Builder.start actions
  rw [acted] at performs
  rw [← Builder.finish_eq_ok finished]
  exact performs

/-! ## The calls of a module -/

/-- The calls that rebuilding the tree of a module makes. -/
def reconstructionCalls (source : String) (helpers : HelperNames) : List Tree.Call :=
  match Script.parseModule source with
  | .error _ => []
  | .ok module =>
    match Script.renderBody? helpers.renderFunctions module with
    | some statements => Builder.start.callsAll (Script.statementsActions helpers statements)
    | none => []

/-- A module has a render function, whose statements build the tree and make the calls, or there is
no tree and there are no calls. -/
theorem reconstruct_cases (source : String) (helpers : HelperNames) :
    (∃ statements,
      reconstruct source helpers =
          some <$> Tree.ofStatements helpers statements source.utf8ByteSize ∧
        reconstructionCalls source helpers =
          Builder.start.callsAll (Script.statementsActions helpers statements)) ∨
      reconstructionCalls source helpers = [] ∧
        (reconstruct source helpers = .ok none ∨
          ∃ offset, reconstruct source helpers = .error (.scriptSyntax offset)) := by
  rw [reconstruct, reconstructionCalls]
  cases Script.parseModule source with
  | error error => exact .inr ⟨rfl, .inr ⟨_, rfl⟩⟩
  | ok module =>
      cases body : Script.renderBody? helpers.renderFunctions module with
      | some statements => exact .inl ⟨statements, by simp only [body], by simp only [body]⟩
      | none => exact .inr ⟨by simp only [body], .inl (by simp only [body])⟩

/-- A rebuilt tree is the one that the statements of a render function build. -/
theorem exists_ofStatements_of_reconstruct {source : String} {helpers : HelperNames} {tree : Tree}
    (rebuilt : reconstruct source helpers = .ok (some tree)) :
    ∃ statements, Tree.ofStatements helpers statements source.utf8ByteSize = .ok tree := by
  rcases reconstruct_cases source helpers with
    ⟨statements, rebuilt_eq, -⟩ | ⟨-, nothing | ⟨offset, unread⟩⟩
  · obtain ⟨found, built, same⟩ := map_eq_ok.mp (rebuilt_eq.symm.trans rebuilt)
    cases same
    exact ⟨statements, built⟩
  · cases nothing.symm.trans rebuilt
  · cases unread.symm.trans rebuilt

end IslandSlots
