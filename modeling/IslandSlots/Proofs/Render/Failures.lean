import IslandSlots.Proofs.Render.Arranged
import IslandSlots.Proofs.Render.Calls
import IslandSlots.Proofs.Render.Isolation
import IslandSlots.Proofs.Render.RoundTrip

/-!
# Why a rebuild fails

No call of a reconstruction is refused. A component is the innermost open node only while its slots
are named, a leaf is never open, and what an end tag closes stands in a node that holds elements. So
output that is malformed has a chunk without tokens, an end tag that belongs to no open node, or a
node that is never closed.
-/

namespace IslandSlots

namespace Kind

/-- What holds anything but slots holds content. -/
theorem holdsContent_of_accepts {kind child : Kind} (accepted : kind.accepts child)
    (no_slot : child.isSlot = false) : kind.holdsContent := by
  cases kind <;> cases child <;> simp_all [holdsContent, accepts, isSlot]

theorem accepts_slot {kind : Kind} {name : String} {scope : Option String} {loop : Option Binding}
    (component : kind.isComponent) : kind.accepts (.slot name scope loop) := by
  cases kind <;> first | rfl | cases component

theorem isSlot_of_isElement {kind : Kind} (element : kind.isElement) : kind.isSlot = false := by
  cases kind <;> first | rfl | cases element

end Kind

/-! ## Failures with a reason -/

/-- A malformation that the output itself shows: a chunk that has no tokens, an end tag that meets a
node with another tag, or a node left open. Both nodes need an end tag. -/
def Malformation.Justified : Malformation → Prop
  | .markup chunk error => chunk.tokens = .error error
  | .unexpectedEnd tag inside => ¬inside.hasTag tag ∧ ¬inside.isImplied
  | .neverClosed kind => ¬kind.isImplied
  | .misplaced _ => False

namespace RenderError

/-- A failure that is no malformation, or one that the output shows. -/
def Justified : RenderError → Prop
  | .malformed cause _ => cause.Justified
  | .unsupported _ _ => True
  | .scriptSyntax _ => True

theorem refusal?_of_justified {error : RenderError} (justified : error.Justified) :
    error.refusal? = none := by
  cases error with
  | malformed cause offset =>
      cases cause with
      | misplaced refusal => exact justified.elim
      | _ => rfl
  | _ => rfl

end RenderError

/-- A step gives something good, or fails for a reason. -/
def Yields {α : Type} (good : α → Prop) : Except RenderError α → Prop
  | .ok value => good value
  | .error error => error.Justified

namespace Yields

variable {α β : Type} {good fine : α → Prop} {result : Except RenderError α}

theorem imp (yields : Yields good result) (weaker : ∀ value, good value → fine value) :
    Yields fine result := by
  cases result with
  | error error => exact yields
  | ok value => exact weaker value yields

theorem map {last : β → Prop} {change : α → β} (yields : Yields good result)
    (changed : ∀ value, good value → last (change value)) : Yields last (change <$> result) := by
  cases result with
  | error error => exact yields
  | ok value => exact changed value yields

theorem bind {last : β → Prop} {next : α → Except RenderError β} (first : Yields good result)
    (second : ∀ value, good value → Yields last (next value)) : Yields last (result >>= next) := by
  cases result with
  | error error => exact first
  | ok value => exact second value first

end Yields

namespace Spine

variable {spine : Spine} {kind : Kind} {offset : Nat}

/-! ## Open nodes that hold one another -/

/-- The outermost open node is the root, and every other one is accepted by the one around it. -/
inductive Nested : Spine → Prop where
  | root (done : List Branch) : Nested ⟨⟨.root, done⟩, []⟩
  | inside (current : Frame) {frame : Frame} {outer : List Frame} :
      frame.kind.accepts current.kind → Nested ⟨frame, outer⟩ → Nested ⟨current, frame :: outer⟩

namespace Nested

theorem fill {done : List Branch} {outer : List Frame} (nested : Nested ⟨⟨kind, done⟩, outer⟩)
    (filled : List Branch) : Nested ⟨⟨kind, filled⟩, outer⟩ := by
  cases nested with
  | root => exact .root filled
  | inside _ accepted nested => exact .inside _ accepted nested

theorem opening (nested : spine.Nested) (accepted : spine.current.kind.accepts kind) :
    (spine.opening kind).Nested :=
  .inside _ accepted nested

/-- Once elements that need no end tag are ended, the innermost open node is none of them. -/
theorem needs_end (nested : spine.Nested) : ¬spine.endImplied.current.kind.isImplied := by
  obtain ⟨current, outer⟩ := spine
  induction outer generalizing current with
  | nil =>
      cases nested with
      | root done => exact Bool.false_ne_true
  | cons frame outer induction =>
      rw [endImplied, endImpliedIn]
      split
      · cases nested with
        | inside _ accepted nested => exact induction _ (nested.fill _)
      · rename_i needed
        exact needed

end Nested

/-- The open nodes hold one another, and the innermost one holds content. -/
structure Hosts (spine : Spine) : Prop where
  /-- The open nodes hold one another. -/
  nested : spine.Nested
  /-- The innermost open node holds content. -/
  holds : spine.current.kind.holdsContent

namespace Hosts

theorem start : Spine.start.Hosts :=
  ⟨.root [], rfl⟩

theorem add (hosts : spine.Hosts) (branch : Branch) : (spine.add branch).Hosts :=
  ⟨hosts.nested.fill _, hosts.holds⟩

theorem opening (hosts : spine.Hosts) (accepted : spine.current.kind.accepts kind)
    (holds : kind.holdsContent) : (spine.opening kind).Hosts :=
  ⟨hosts.nested.opening accepted, holds⟩

/-- An element stands in a node that holds content. -/
theorem close (hosts : spine.Hosts) (element : spine.current.kind.isElement) :
    spine.close.Hosts := by
  obtain ⟨nested, holds⟩ := hosts
  cases nested with
  | root done => exact ⟨.root done, holds⟩
  | inside current accepted nested =>
      exact ⟨nested.fill _,
        Kind.holdsContent_of_accepts accepted (Kind.isSlot_of_isElement element)⟩

theorem endImplied (hosts : spine.Hosts) : spine.endImplied.Hosts := by
  obtain ⟨current, outer⟩ := spine
  induction outer generalizing current with
  | nil => exact hosts
  | cons frame outer induction =>
      rw [Spine.endImplied, endImpliedIn]
      split
      · rename_i implied
        exact induction _ (hosts.close (Kind.isElement_of_isImplied implied))
      · exact hosts

end Hosts

/-! ## Markup -/

theorem yields_place (hosts : spine.Hosts) (other : kind ≠ .root) (no_slot : kind.isSlot = false)
    (offset : Nat) : Yields Hosts (spine.place kind offset) := by
  rw [place_eq_ok.mpr ⟨Kind.accepts_of_holdsContent hosts.holds other no_slot, rfl⟩]
  exact hosts.add _

theorem yields_closeTag (hosts : spine.Hosts) (tag : String) (offset : Nat) :
    Yields Hosts (spine.closeTag tag offset) := by
  have ended_hosts :
      (if spine.current.kind.hasTag tag then spine else spine.endImplied).Hosts := by
    split
    · exact hosts
    · exact hosts.endImplied
  rw [closeTag]
  generalize ended_eq :
    (if spine.current.kind.hasTag tag then spine else spine.endImplied) = ended at ended_hosts
  by_cases here : ended.current.kind.hasTag tag
  · rw [if_pos here]
    exact ended_hosts.close (Kind.isElement_of_hasTag here)
  · rw [if_neg here]
    refine ⟨here, ?_⟩
    split at ended_eq
    next tagged =>
      subst ended_eq
      exact absurd tagged here
    next =>
      subst ended_eq
      exact hosts.nested.needs_end

theorem yields_token (hosts : spine.Hosts) (offset : Nat) (token : Token) :
    Yields Hosts (spine.token offset token) := by
  cases token with
  | opening tag attrs selfClosing =>
      cases selfClosing with
      | true => exact yields_place hosts (by simp) rfl offset
      | false =>
          have accepted : spine.current.kind.accepts (.element tag attrs) :=
            Kind.accepts_of_holdsContent hosts.holds (by simp) rfl
          have entered : spine.token offset (.opening tag attrs false) =
              .ok (spine.opening (.element tag attrs)) := enter_eq_ok.mpr ⟨accepted, rfl⟩
          rw [entered]
          exact hosts.opening accepted rfl
  | closing tag => exact yields_closeTag hosts tag offset
  | text content =>
      rw [token, text]
      split
      · exact ⟨hosts.nested.fill _, hosts.holds⟩
      · exact yields_place hosts (by simp) rfl offset
  | fragmentStart => exact yields_place hosts (by simp) rfl offset
  | fragmentEnd => exact yields_place hosts (by simp) rfl offset
  | comment body => exact hosts

theorem yields_tokens (hosts : spine.Hosts) (offset : Nat) (run : List Token) :
    Yields Hosts (spine.tokens offset run) := by
  induction run generalizing spine with
  | nil => exact hosts
  | cons token run induction =>
      exact (yields_token hosts offset token).bind fun _ hosts => induction hosts

theorem yields_feed (hosts : spine.Hosts) (chunk : Markup) (offset : Nat) :
    Yields Hosts (spine.feed chunk offset) := by
  rw [feed]
  cases tokens_eq : chunk.tokens with
  | ok run => exact yields_tokens hosts offset run
  | error error => exact tokens_eq

/-! ## Control flow -/

/-- What is open where a row of actions begins: a component before slots, else a node that holds
content. -/
def Suits (spine : Spine) : Action.Row → Prop
  | .content _ => spine.Hosts
  | .slots => spine.Nested ∧ spine.current.kind.isComponent

theorem Suits.nested {row : Action.Row} (suits : spine.Suits row) : spine.Nested := by
  cases row with
  | content after => exact Hosts.nested suits
  | slots => exact suits.1

theorem Suits.add {row : Action.Row} (suits : spine.Suits row) (branch : Branch) :
    (spine.add branch).Suits row := by
  cases row with
  | content after => exact Hosts.add suits branch
  | slots => exact ⟨suits.1.fill _, suits.2⟩

theorem yields_leave (nested : spine.Nested) (node offset : Nat) :
    Yields (fun _ => True) (spine.leave node offset) := by
  rw [leave]
  generalize ended_eq : (if spine.node = node then spine else spine.endImplied) = ended
  by_cases here : ended.node = node
  · rw [if_pos here]
    trivial
  · rw [if_neg here]
    split at ended_eq
    next same =>
      subst ended_eq
      exact absurd same here
    next =>
      subst ended_eq
      exact nested.needs_end

theorem yields_within {inside : List Action} (structural : ¬kind.isElement)
    (accepted : spine.current.kind.accepts kind)
    (inner : Yields Nested ((spine.opening kind).actAll inside)) (offset : Nat) :
    Yields (fun after => ∃ done, after = spine.add (.node kind done))
      (spine.act (.within kind offset inside)) := by
  have whole : Yields (fun _ => True) (spine.act (.within kind offset inside)) := by
    rw [act, enter_eq_ok.mpr ⟨accepted, rfl⟩]
    exact inner.bind fun last nested => yields_leave nested spine.size offset
  cases step : spine.act (.within kind offset inside) with
  | ok after => exact within_eq_ok structural step
  | error error =>
      rw [step] at whole
      exact whole

/-- A row that begins with control flow goes well when what is inside it and what comes after it
do. -/
theorem yields_within_cons {row next : Action.Row} {inside rest : List Action}
    (structural : ¬kind.isElement) (accepted : spine.current.kind.accepts kind)
    (inner : Yields (Suits · next) ((spine.opening kind).actAll inside))
    (after : ∀ branch, Yields (Suits · row) ((spine.add branch).actAll rest)) (offset : Nat) :
    Yields (Suits · row) (spine.actAll (.within kind offset inside :: rest)) := by
  rw [actAll]
  have first := yields_within structural accepted (inner.imp fun _ => Suits.nested) offset
  refine first.bind ?_
  rintro _ ⟨done, rfl⟩
  exact after _

/-- A row that begins with control flow around content goes well when the content and what comes
after it do. -/
theorem yields_content_cons {inside rest : List Action} {after : Bool} (hosts : spine.Hosts)
    (holds : kind.holdsContent) (structural : ¬kind.isElement) (other : kind ≠ .root)
    (no_slot : kind.isSlot = false)
    (inner : (spine.opening kind).Hosts →
      Yields Hosts ((spine.opening kind).actAll inside))
    (onward : ∀ branch, Yields Hosts ((spine.add branch).actAll rest)) (offset : Nat) :
    Yields (Suits · (.content after)) (spine.actAll (.within kind offset inside :: rest)) := by
  have accepted : spine.current.kind.accepts kind :=
    Kind.accepts_of_holdsContent hosts.holds other no_slot
  exact @yields_within_cons spine kind (.content after) (.content false) _ _ structural accepted
    (inner (hosts.opening accepted holds)) onward offset

/-- Arranged actions are done to their end, or fail for a reason. -/
theorem yields_actAll {row : Action.Row} {actions : List Action}
    (arranged : Action.Arranged row actions) (suits : spine.Suits row) :
    Yields (Suits · row) (spine.actAll actions) := by
  induction arranged generalizing spine with
  | nil row => exact suits
  | feed chunk offset _ induction =>
      rw [actAll]
      exact (yields_feed suits chunk offset).bind fun _ hosts => induction hosts
  | invalid offset _ induction =>
      rw [actAll]
      exact (yields_place suits (by simp) rfl offset).bind fun _ hosts => induction hosts
  | reject row construct offset rest => trivial
  | conditional test offset _ _ _ inside_induction rest_induction =>
      exact yields_content_cons suits rfl (by simp [Kind.isElement]) (by simp) rfl
        inside_induction (fun branch => rest_induction (Hosts.add suits branch)) offset
  | otherwise offset _ _ inside_induction rest_induction =>
      exact yields_content_cons suits rfl (by simp [Kind.isElement]) (by simp) rfl
        inside_induction (fun branch => rest_induction (Hosts.add suits branch)) offset
  | iteration left right offset _ _ inside_induction rest_induction =>
      exact yields_content_cons suits rfl (by simp [Kind.isElement]) (by simp) rfl
        inside_induction (fun branch => rest_induction (Hosts.add suits branch)) offset
  | component reference props offset _ _ inside_induction rest_induction =>
      have accepted : spine.current.kind.accepts (.component reference props) :=
        Kind.accepts_of_holdsContent suits.holds (by simp) rfl
      exact yields_within_cons (by simp [Kind.isElement]) accepted
        (inside_induction ⟨suits.nested.opening accepted, rfl⟩)
        (fun branch => rest_induction (Hosts.add suits branch)) offset
  | slot name scope loop offset _ _ inside_induction rest_induction =>
      have accepted : spine.current.kind.accepts (.slot name scope loop) :=
        Kind.accepts_slot suits.2
      exact yields_within_cons (by simp [Kind.isElement]) accepted
        (inside_induction ⟨suits.1.opening accepted, rfl⟩)
        (fun branch => rest_induction (Suits.add suits branch)) offset

theorem yields_finish (nested : spine.Nested) (length : Nat) :
    Yields (fun _ => True) (spine.finish length) := by
  rw [finish]
  by_cases closed : spine.endImplied.outer.isEmpty
  · rw [if_pos closed]
    trivial
  · rw [if_neg closed]
    exact nested.needs_end

end Spine

/-! ## The failures of a module -/

/-- Arranged actions make a tree whose open nodes hold one another, or there is a reason why not. -/
theorem yields_start {actions : List Action}
    (arranged : Action.Arranged (.content false) actions) :
    Yields (fun last => ∃ spine : Spine, spine.Nested ∧ spine.builder = last)
      (Builder.start.actAll actions) := by
  rw [← Spine.builder_start, Spine.actAll_builder]
  exact (Spine.yields_actAll arranged Spine.Hosts.start).map fun spine hosts =>
    ⟨spine, Spine.Hosts.nested hosts, rfl⟩

/-- None of the calls that arranged actions make is refused. -/
theorem exists_perform_callsAll {actions : List Action}
    (arranged : Action.Arranged (.content false) actions) :
    ∃ tree, Tree.empty.perform (Builder.start.callsAll actions) = .ok tree := by
  have performs := Builder.performs_actAll Builder.start actions
  have yields := yields_start arranged
  cases acted : Builder.start.actAll actions with
  | ok last =>
      rw [acted] at performs
      exact ⟨_, performs⟩
  | error error =>
      rw [acted] at yields performs
      rw [Builder.Performs, RenderError.refusal?_of_justified yields] at performs
      exact performs

/-- Where arranged actions make no tree, there is a reason. -/
theorem yields_ofActions {actions : List Action}
    (arranged : Action.Arranged (.content false) actions) (length : Nat) :
    Yields (fun _ => True) (Tree.ofActions actions length) := by
  refine (yields_start arranged).bind ?_
  rintro _ ⟨spine, nested, rfl⟩
  rw [Spine.finish_builder]
  exact (Spine.yields_finish nested length).map fun _ _ => trivial

/-- Whatever statements say, none of the calls that they make is refused, and a tree that they build
is the one that these make. Where their output is malformed, there is a reason. -/
theorem perform_and_justified_of_ofStatements (helpers : HelperNames)
    (statements : List Script.Statement) (length : Nat) :
    (∃ tree, Tree.empty.perform
          (Builder.start.callsAll (Script.statementsActions helpers statements)) = .ok tree ∧
        ∀ built, Tree.ofStatements helpers statements length = .ok built → built = tree) ∧
      ∀ cause offset,
        Tree.ofStatements helpers statements length = .error (.malformed cause offset) →
          cause.Justified := by
  have arranged := Script.arranged_statementsActions helpers statements
  obtain ⟨tree, made⟩ := exists_perform_callsAll arranged
  refine ⟨⟨tree, made, fun built found => ?_⟩, fun cause offset failed => ?_⟩
  · exact Except.ok.inj ((Tree.perform_callsAll found).symm.trans made)
  · have yields := yields_ofActions arranged length
    rw [← Tree.ofStatements, failed] at yields
    exact yields

/-- Rebuilding a tree makes calls of which none is refused, whatever the module says and whether or
not there is a tree in the end, and a tree that is rebuilt is the one that they make. Where the
output is malformed, a chunk of it has no tokens, or an end tag belongs to no open node, or a node
is left open. -/
theorem perform_and_justified_of_reconstruct (source : String) (helpers : HelperNames) :
    (∃ tree, Tree.empty.perform (reconstructionCalls source helpers) = .ok tree ∧
        ∀ rebuilt, reconstruct source helpers = .ok (some rebuilt) → rebuilt = tree) ∧
      ∀ cause offset, reconstruct source helpers = .error (.malformed cause offset) →
        cause.Justified := by
  rcases reconstruct_cases source helpers with
    ⟨statements, rebuilt_eq, calls_eq⟩ | ⟨calls_eq, nothing | ⟨offset, unread⟩⟩
  · obtain ⟨⟨tree, made, same⟩, justified⟩ :=
      perform_and_justified_of_ofStatements helpers statements source.utf8ByteSize
    rw [rebuilt_eq, calls_eq]
    refine ⟨⟨tree, made, fun rebuilt found => ?_⟩, fun cause offset failed => ?_⟩
    · obtain ⟨built, built_eq, given⟩ := map_eq_ok.mp found
      rw [← Option.some.inj given]
      exact same built built_eq
    · exact justified cause offset (map_eq_error.mp failed)
  · rw [nothing, calls_eq]
    exact ⟨⟨_, rfl, by simp⟩, by simp⟩
  · rw [unread, calls_eq]
    exact ⟨⟨_, rfl, by simp⟩, by simp⟩

/-- The malformation that a step fails for. -/
def malformation? {α : Type} : Except RenderError α → Option Malformation
  | .error (.malformed cause _) => some cause
  | _ => none

theorem exists_eq_malformed {α : Type} {result : Except RenderError α}
    (shown : (malformation? result).isSome) :
    ∃ cause offset, result = .error (.malformed cause offset) := by
  cases result with
  | ok value => cases shown
  | error error =>
      cases error with
      | malformed cause offset => exact ⟨cause, offset, rfl⟩
      | unsupported | scriptSyntax => cases shown

/-- A module that pushes one chunk, which has no quote in it. -/
def pushingOnce (chunk : String) : String :=
  "function ssrRender(_push) \x7b _push('" ++ chunk ++ "') \x7d"

theorem perform_and_justified_of_reconstruct_pushingOnce :
    (∃ tree, reconstruct (pushingOnce "<p>a</p>") .usual = .ok (some tree) ∧
        Tree.empty.perform (reconstructionCalls (pushingOnce "<p>a</p>") .usual) = .ok tree) ∧
      ∃ cause offset,
        reconstruct (pushingOnce "<p>a</b>") .usual = .error (.malformed cause offset) ∧
          cause.Justified := by
  constructor
  · have rebuilt : reconstruct (pushingOnce "<p>a</p>") .usual = .ok (some
        ⟨#[⟨.root, none, #[1]⟩, ⟨.element "p" "", some 0, #[2]⟩, ⟨.text "a", some 1, #[]⟩]⟩) :=
      eq_ok_of_toOption (by decide +kernel)
    obtain ⟨⟨tree, made, same⟩, -⟩ :=
      perform_and_justified_of_reconstruct (pushingOnce "<p>a</p>") .usual
    rw [← same _ rebuilt] at made
    exact ⟨_, rebuilt, made⟩
  · obtain ⟨cause, offset, failed⟩ :=
      @exists_eq_malformed _ (reconstruct (pushingOnce "<p>a</b>") .usual) (by decide +kernel)
    exact ⟨cause, offset, failed,
      (perform_and_justified_of_reconstruct _ _).2 cause offset failed⟩

end IslandSlots
