import IslandSlots.Proofs.Markup.Joined
import IslandSlots.Proofs.Render.Spine

/-!
# Markup pushed in pieces

How markup is cut into chunks does not matter where each chunk is whole. A text that is fed in two
pieces joins the one that it follows, so that the tree and the open nodes are those after the
markup is fed as one chunk.
-/

namespace IslandSlots

theorem Kind.accepts_text_congr (kind : Kind) (first second : String) :
    kind.accepts (.text first) = kind.accepts (.text second) := by
  cases kind <;> rfl

namespace Spine

variable {before after : Spine}

/-- Where a token comes from shows in a failure only. -/
theorem token_offset {offset : Nat} {token : Token} (step : before.token offset token = .ok after)
    (other : Nat) : before.token other token = .ok after := by
  have placed {kind : Kind} (step : before.place kind offset = .ok after) :
      before.place kind other = .ok after :=
    place_eq_ok.mpr (place_eq_ok.mp step)
  cases token with
  | opening tag attrs selfClosing =>
      cases selfClosing with
      | true => exact placed step
      | false => exact enter_eq_ok.mpr (enter_eq_ok.mp step)
  | closing tag =>
      rw [token, closeTag] at step ⊢
      generalize (if before.current.kind.hasTag tag then before else before.endImplied) = ended
        at step ⊢
      by_cases here : ended.current.kind.hasTag tag
      · rw [if_pos here] at step ⊢
        exact step
      · rw [if_neg here] at step
        cases step
  | text content =>
      rw [token, text] at step ⊢
      split at step
      · exact step
      · exact placed step
  | fragmentStart => exact placed step
  | fragmentEnd => exact placed step
  | comment body => exact step

theorem tokens_offset {offset : Nat} {run : List Token}
    (steps : before.tokens offset run = .ok after) (other : Nat) :
    before.tokens other run = .ok after := by
  induction run generalizing before with
  | nil => exact steps
  | cons token run induction =>
      rw [tokens] at steps ⊢
      obtain ⟨next, step, steps⟩ := bind_eq_ok.mp steps
      exact bind_eq_ok.mpr ⟨next, token_offset step other, induction steps⟩

theorem tokens_append (spine : Spine) (offset : Nat) (first second : List Token) :
    spine.tokens offset (first ++ second) =
      spine.tokens offset first >>= fun next => next.tokens offset second := by
  induction first generalizing spine with
  | nil => rfl
  | cons token first induction =>
      rw [List.cons_append, tokens, tokens]
      cases spine.token offset token with
      | error error => rfl
      | ok next => exact induction next

/-- Text that is put in two pieces is one text. -/
theorem text_text (content more : String) (offset : Nat) :
    (∃ next, before.text content offset = .ok next ∧ next.text more offset = .ok after) ↔
      before.text (content ++ more) offset = .ok after := by
  obtain ⟨⟨kind, done⟩, outer⟩ := before
  have placed (done : List Branch) :
      (∃ next, (Spine.mk ⟨kind, done⟩ outer).place (.text content) offset = .ok next ∧
        next.text more offset = .ok after) ↔
          (Spine.mk ⟨kind, done⟩ outer).place (.text (content ++ more)) offset = .ok after := by
    have joins : ((Spine.mk ⟨kind, done⟩ outer).add (.node (.text content) [])).text more offset =
        .ok ((Spine.mk ⟨kind, done⟩ outer).add (.node (.text (content ++ more)) [])) := by
      simp [text, add, Frame.add, joinText_concat]
    rw [place_eq_ok, Kind.accepts_text_congr _ (content ++ more) content]
    constructor
    · rintro ⟨next, step, steps⟩
      obtain ⟨accepted, rfl⟩ := place_eq_ok.mp step
      exact ⟨accepted, (Except.ok.inj (joins.symm.trans steps)).symm⟩
    · rintro ⟨accepted, rfl⟩
      exact ⟨_, place_eq_ok.mpr ⟨accepted, rfl⟩, joins⟩
  rcases List.eq_nil_or_concat' done with rfl | ⟨init, ⟨last, children⟩, rfl⟩
  · exact placed []
  · cases last with
    | text found => simp [text, joinText_concat, String.append_assoc]
    | _ => simpa [text, joinText_concat] using placed _

/-- The tokens of two chunks lead where those of the chunks put one behind the other do. -/
theorem tokens_meets {first second all : List Token} (meets : Token.Meets first second all)
    (offset : Nat) :
    (∃ next, before.tokens offset first = .ok next ∧ next.tokens offset second = .ok after) ↔
      before.tokens offset all = .ok after := by
  cases meets with
  | apart first second => rw [tokens_append, bind_eq_ok]
  | text front back content more =>
      simp only [tokens_append, tokens, token, bind_eq_ok, Except.ok.injEq, exists_eq_right,
        ← text_text content more]
      constructor
      · rintro ⟨next, ⟨reached, fronted, first⟩, last, second, rest⟩
        exact ⟨reached, fronted, last, ⟨next, first, second⟩, rest⟩
      · rintro ⟨reached, fronted, last, ⟨next, first, second⟩, rest⟩
        exact ⟨next, ⟨reached, fronted, first⟩, last, second, rest⟩

theorem feed_of_tokens {chunk : Markup} {run : List Token} (tokenized : chunk.tokens = .ok run)
    (spine : Spine) (offset : Nat) : spine.feed chunk offset = spine.tokens offset run := by
  rw [feed, tokenized]

end Spine

namespace Builder

/-- Two chunks that have tokens are fed one after the other exactly when they can be fed as one,
and the tree and the open nodes are the same then. -/
theorem Reached.feed_joined {before : Builder} (reached : before.Reached) {first second : Markup}
    {first_tokens second_tokens : List Token} (first_whole : first.tokens = .ok first_tokens)
    (second_whole : second.tokens = .ok second_tokens) (first_offset second_offset offset : Nat)
    (after : Builder) :
    (∃ next, before.feed first first_offset = .ok next ∧
        next.feed second second_offset = .ok after) ↔
      before.feed (first.joined second) offset = .ok after := by
  obtain ⟨spine, rfl, -⟩ := reached.exists_spine
  obtain ⟨all, whole, meets⟩ := Markup.tokens_joined first_whole second_whole
  simp only [Spine.feed_builder, map_eq_ok, Spine.feed_of_tokens whole,
    Spine.feed_of_tokens first_whole]
  constructor
  · rintro ⟨_, ⟨next, fed, rfl⟩, rest⟩
    rw [Spine.feed_builder, Spine.feed_of_tokens second_whole] at rest
    obtain ⟨last, steps, rfl⟩ := map_eq_ok.mp rest
    exact ⟨last, (Spine.tokens_meets meets offset).mp
      ⟨next, Spine.tokens_offset fed offset, Spine.tokens_offset steps offset⟩, rfl⟩
  · rintro ⟨last, steps, rfl⟩
    obtain ⟨next, fed, rest⟩ := (Spine.tokens_meets meets offset).mpr steps
    refine ⟨next.builder, ⟨next, Spine.tokens_offset fed first_offset, rfl⟩, ?_⟩
    rw [Spine.feed_builder, Spine.feed_of_tokens second_whole]
    exact map_eq_ok.mpr ⟨last, Spine.tokens_offset rest second_offset, rfl⟩

/-- The cut goes through a text, and each half holds a tag of the other's element. -/
theorem feed_joined_cutInText :
    ∃ after, (∃ next, start.feed ⟨[.text "<p>a"]⟩ 3 = .ok next ∧
        next.feed ⟨[.text "b", .hole "x", .text "</p>"]⟩ 12 = .ok after) ∧
      start.feed ⟨[.text "<p>ab", .hole "x", .text "</p>"]⟩ 3 = .ok after := by
  have first_whole : (Markup.mk [.text "<p>a"]).tokens =
      .ok [.opening "p" "" false, .text "a"] := eq_ok_of_toOption (by decide +kernel)
  have second_whole : (Markup.mk [.text "b", .hole "x", .text "</p>"]).tokens =
      .ok [.text "b$\x7bx\x7d", .closing "p"] := eq_ok_of_toOption (by decide +kernel)
  have joined : start.feed ⟨[.text "<p>ab", .hole "x", .text "</p>"]⟩ 3 =
      .ok ⟨⟨#[⟨.root, none, #[1]⟩, ⟨.element "p" "", some 0, #[2]⟩,
        ⟨.text "ab$\x7bx\x7d", some 1, #[]⟩]⟩, []⟩ := eq_ok_of_toOption (by decide +kernel)
  exact ⟨_, (Reached.start.feed_joined first_whole second_whole 3 12 3 _).mpr joined, joined⟩

end Builder

end IslandSlots
