/-!
# Outcomes of steps that can fail

What it takes for a step that can fail to succeed: each of its parts does. A failure goes through what
is done with the outcome of a success.
-/

namespace IslandSlots

theorem bind_eq_ok {α β ε : Type} {result : Except ε α} {next : α → Except ε β} {value : β} :
    (result >>= next) = .ok value ↔ ∃ found, result = .ok found ∧ next found = .ok value := by
  cases result with
  | error error => simp [bind, Except.bind]
  | ok found => simp [bind, Except.bind]

theorem map_eq_ok {α β ε : Type} {change : α → β} {result : Except ε α} {value : β} :
    change <$> result = .ok value ↔ ∃ found, result = .ok found ∧ change found = value := by
  cases result with
  | error error => simp [Functor.map, Except.map]
  | ok found => simp [Functor.map, Except.map]

theorem map_eq_error {α β ε : Type} {change : α → β} {result : Except ε α} {error : ε} :
    change <$> result = .error error ↔ result = .error error := by
  cases result with
  | error found => simp [Functor.map, Except.map]
  | ok found => simp [Functor.map, Except.map]

theorem exists_eq_ok {α ε : Type} (result : Except ε α) (succeeds : result.isOk) :
    ∃ value, result = .ok value := by
  cases result with
  | error error => cases succeeds
  | ok value => exact ⟨value, rfl⟩

theorem eq_ok_of_toOption {α ε : Type} {result : Except ε α} {value : α}
    (found : result.toOption = some value) : result = .ok value := by
  cases result with
  | error error => cases found
  | ok other => rw [Option.some.inj found]

end IslandSlots
