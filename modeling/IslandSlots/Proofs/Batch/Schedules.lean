import IslandSlots.Batch.Workers
import Mathlib.Algebra.GroupWithZero.Nat
import Mathlib.Data.List.Forall2
import Mathlib.Data.List.Nodup

/-!
# Schedules of workers

However the moves of the workers and of the collector fall between each other, an index that is
taken is in the hands of one worker, on its way, or received. No move is possible without end, and
as long as the collector has not ended some move is. So each run ends, and then the report is the
one of the same work done on the inputs one after the other.
-/

namespace IslandSlots

/-! ## Reports -/

namespace Report

/-- Each input is listed once in a report, for its output, as needing none or as failed, and every
list has the order of the inputs. -/
structure Lists (report : Report) (results : List (Path × InputResult)) (writers : List Path) :
    Prop where
  /-- The outputs are those of the writers, one after the other. -/
  written : List.Forall₂ (fun input output => (input, .ok (.written output)) ∈ results) writers
    report.written
  /-- What is listed as needing no output needs none. -/
  unchanged : ∀ input ∈ report.unchanged, (input, .ok .unchanged) ∈ results
  /-- What is listed as failed has failed, and for the reason given. -/
  failed : ∀ entry ∈ report.failed, (entry.1, .error entry.2) ∈ results
  /-- The writers come in order. -/
  writers_order : writers.Sublist (results.map Prod.fst)
  /-- The inputs that need no output come in order. -/
  unchanged_order : report.unchanged.Sublist (results.map Prod.fst)
  /-- The inputs that failed come in order. -/
  failed_order : (report.failed.map Prod.fst).Sublist (results.map Prod.fst)
  /-- Together they are the inputs, each as often as it was given. -/
  each_once : (results.map Prod.fst).Perm
    (writers ++ report.unchanged ++ report.failed.map Prod.fst)

theorem exists_writers (results : List (Path × InputResult)) :
    ∃ writers, (ofResults results).Lists results writers := by
  induction results with
  | nil => exact ⟨[], .nil, by simp [ofResults], by simp [ofResults], .refl _, .refl _, .refl _, .refl _⟩
  | cons entry results induction =>
      obtain ⟨input, result⟩ := entry
      obtain ⟨writers, lists⟩ := induction
      have written := lists.written.imp fun _ _ member => List.mem_cons_of_mem (input, result) member
      have unchanged := fun other member => List.mem_cons_of_mem (input, result)
        (lists.unchanged other member)
      have failed := fun other member => List.mem_cons_of_mem (input, result)
        (lists.failed other member)
      have once := lists.each_once.cons input
      match result with
      | .ok (.written path) =>
          exact ⟨input :: writers, .cons List.mem_cons_self written, unchanged, failed,
            lists.writers_order.cons_cons input, lists.unchanged_order.cons input,
            lists.failed_order.cons input, once⟩
      | .ok .unchanged =>
          refine ⟨writers, written, List.forall_mem_cons.mpr ⟨List.mem_cons_self, unchanged⟩, failed,
            lists.writers_order.cons input, lists.unchanged_order.cons_cons input,
            lists.failed_order.cons input, once.trans ?_⟩
          rw [List.append_assoc, List.append_assoc]
          exact List.perm_middle.symm
      | .error failure =>
          exact ⟨writers, written, unchanged,
            List.forall_mem_cons.mpr ⟨List.mem_cons_self, failed⟩, lists.writers_order.cons input,
            lists.unchanged_order.cons input, lists.failed_order.cons_cons input,
            once.trans List.perm_middle.symm⟩

end Report

namespace Batch

/-- Work that depends on nothing but the input is done on one input after the other. -/
theorem workAll_pure (work : Path → InputResult) (inputs : List Path) :
    workAll (m := Id) (fun input => pure (work input)) inputs =
      pure (inputs.map fun input => (input, work input)) := by
  induction inputs with
  | nil => rfl
  | cons input inputs induction =>
      rw [workAll, induction]
      rfl

end Batch

namespace Worker

/-- The index that a worker has taken and not yet sent. -/
def held : Worker → List Nat
  | .working index _ => [index]
  | .sending index _ => [index]
  | .idle | .leaving | .stopped => []

/-- How many moves a worker still makes, and the collector for it, if it takes no further index. -/
def movesLeft : Worker → Nat
  | .idle => 2
  | .working .. => 5
  | .sending .. => 4
  | .leaving => 1
  | .stopped => 0

end Worker

/-! ## Ends -/

namespace Pool

variable {inputs : List Path} {work : Path → Option InputResult} {jobs : Nat}
  {events : List Event} {event : Event} {pool next : Pool}

/-- Who has ended, and when. -/
structure Settled (inputs : List Path) (jobs : Nat) (pool : Pool) : Prop where
  /-- There are as many workers as there were. -/
  workers_length : pool.workers.length = workerCount jobs inputs.length
  /-- A worker leaves when no input is left. -/
  exhausted : ∀ worker ∈ pool.workers, worker = .leaving ∨ worker = .stopped →
    inputs.length ≤ pool.next
  /-- The collector ends behind all the others. -/
  ended : pool.listening = false →
    pool.channel = [] ∧ ∀ worker ∈ pool.workers, worker = .stopped

theorem settled_start : Settled inputs jobs (start jobs inputs.length) where
  workers_length := by simp [start]
  exhausted worker member left := by
    rw [List.eq_of_mem_replicate member] at left
    rcases left with left | left <;> cases left
  ended ended := by cases ended

/-- Where one worker moves, the others stay as they are. -/
theorem forall_workers {holds holds' : Worker → Prop} {front back : List Worker}
    {worker worker' : Worker} (every : ∀ other ∈ front ++ worker :: back, holds other)
    (weaken : ∀ other, holds other → holds' other) (here : holds' worker') :
    ∀ other ∈ front ++ worker' :: back, holds' other := by
  simp only [List.mem_append, List.mem_cons] at every ⊢
  rintro other (member | rfl | member)
  · exact weaken other (every other (.inl member))
  · exact here
  · exact weaken other (every other (.inr (.inr member)))

/-- A worker that has not stopped keeps the collector from ending. -/
theorem Settled.listening {place : Nat} {front back : List Worker} {worker : Worker}
    {channel : List (Nat × InputResult)} {results : List (Option InputResult)} {listening : Bool}
    (settled : Settled inputs jobs ⟨place, front ++ worker :: back, channel, results, listening⟩)
    (active : worker ≠ .stopped) : listening = true := by
  by_contra ended
  exact active ((settled.ended (by simpa using ended)).2 worker (by simp))

theorem Settled.step (settled : Settled inputs jobs pool)
    (moved : Step inputs work event pool next) : Settled inputs jobs next := by
  have workers_length := settled.workers_length
  have exhausted := settled.exhausted
  cases moved with
  | take found =>
      cases settled.listening Worker.noConfusion
      exact ⟨by simpa using workers_length, forall_workers exhausted
        (fun _ known left => Nat.le_succ_of_le (known left)) (by simp), by simp⟩
  | runOut none_left =>
      cases settled.listening Worker.noConfusion
      have outside := List.getElem?_eq_none_iff.mp none_left
      exact ⟨by simpa using workers_length, forall_workers exhausted
        (fun _ known left => Nat.le_succ_of_le (known left)) fun _ => Nat.le_succ_of_le outside,
        by simp⟩
  | work | send =>
      cases settled.listening Worker.noConfusion
      exact ⟨by simpa using workers_length, forall_workers exhausted (fun _ known => known) (by simp),
        by simp⟩
  | refuse => cases settled.listening Worker.noConfusion
  | stop =>
      cases settled.listening Worker.noConfusion
      have outside := exhausted .leaving (by simp) (.inl rfl)
      exact ⟨by simpa using workers_length, forall_workers exhausted (fun _ known => known)
        fun _ => outside, by simp⟩
  | receive => exact ⟨workers_length, exhausted, by simp⟩
  | finish all_stopped => exact ⟨workers_length, exhausted, fun _ => ⟨rfl, all_stopped⟩⟩

/-- As long as the collector has not ended, somebody can move. -/
theorem exists_step (listening : pool.listening = true) :
    ∃ event next, Step inputs work event pool next := by
  obtain ⟨place, workers, channel, results, _⟩ := pool
  subst listening
  cases channel with
  | cons entry channel => exact ⟨_, _, .receive⟩
  | nil =>
      by_cases all_stopped : ∀ worker ∈ workers, worker = .stopped
      · exact ⟨_, _, .finish all_stopped⟩
      · push Not at all_stopped
        obtain ⟨worker, member, active⟩ := all_stopped
        obtain ⟨front, back, rfl⟩ := List.append_of_mem member
        cases worker with
        | idle =>
            cases found : inputs[place]? with
            | some input => exact ⟨_, _, .take found⟩
            | none => exact ⟨_, _, .runOut found⟩
        | working index input => exact ⟨_, _, .work⟩
        | sending index result => exact ⟨_, _, .send⟩
        | leaving => exact ⟨_, _, .stop⟩
        | stopped => exact absurd rfl active

/-! ## Moves that are left -/

/-- How many moves are made at most. -/
def movesLeft (inputs : List Path) (pool : Pool) : Nat :=
  4 * (inputs.length - pool.next) + (pool.workers.map Worker.movesLeft).sum + pool.channel.length +
    if pool.listening then 1 else 0

theorem movesLeft_step (moved : Step inputs work event pool next) :
    next.movesLeft inputs + 1 ≤ pool.movesLeft inputs := by
  cases moved with
  | take found =>
      have inside := (List.getElem?_eq_some_iff.mp found).1
      simp only [movesLeft, Worker.movesLeft, List.map_append, List.map_cons, List.sum_append,
        List.sum_cons]
      omega
  | finish => simp [movesLeft]
  | _ =>
      simp only [movesLeft, Worker.movesLeft, List.map_append, List.map_cons, List.sum_append,
        List.sum_cons, List.length_append, List.length_cons, List.length_nil]
      omega

/-! ## What is in whose hands -/

namespace Event

/-- The index that is taken. -/
def taking : Event → List Nat
  | .took _ index => [index]
  | _ => []

/-- The index that is received. -/
def receiving : Event → List Nat
  | .received index => [index]
  | _ => []

end Event

/-- The indices taken are those before the counter, each taken once and in order, and what is taken
is held by a worker, sent or received. -/
structure Accounted (inputs : List Path) (events : List Event) (pool : Pool) : Prop where
  /-- What is taken. -/
  taken : events.flatMap Event.taking = List.range (min pool.next inputs.length)
  /-- Where it is now. -/
  count : ∀ index,
    (pool.workers.flatMap Worker.held).count index + (pool.channel.map Prod.fst).count index +
      (events.flatMap Event.receiving).count index = (events.flatMap Event.taking).count index

theorem accounted_start : Accounted inputs [] (start jobs inputs.length) where
  taken := by simp [start]
  count index := by simp [start, Worker.held, List.flatMap_replicate]

theorem Accounted.step (accounted : Accounted inputs events pool)
    (settled : Settled inputs jobs pool) (moved : Step inputs work event pool next) :
    Accounted inputs (events ++ [event]) next := by
  have taken := accounted.taken
  have count := accounted.count
  cases moved with
  | @take place front back channel results listening input found =>
      have inside : place < inputs.length := (List.getElem?_eq_some_iff.mp found).1
      constructor
      · simp only at taken ⊢
        rw [List.flatMap_append, taken, Nat.min_eq_left (Nat.le_of_lt inside),
          Nat.min_eq_left (Nat.succ_le_of_lt inside), List.range_succ]
        rfl
      · intro index
        have before := count index
        simp [Event.taking, Event.receiving, Worker.held, List.count_cons] at before ⊢
        omega
  | @runOut place front back channel results listening none_left =>
      have outside : inputs.length ≤ place := List.getElem?_eq_none_iff.mp none_left
      constructor
      · simpa [Event.taking, Nat.min_eq_right outside,
          Nat.min_eq_right (Nat.le_succ_of_le outside)] using taken
      · intro index
        simpa [Event.taking, Event.receiving, Worker.held] using count index
  | work | stop =>
      refine ⟨by simpa [Event.taking] using taken, fun index => ?_⟩
      simpa [Event.taking, Event.receiving, Worker.held] using count index
  | finish =>
      refine ⟨by simpa [Event.taking] using taken, fun index => ?_⟩
      simpa [Event.taking, Event.receiving] using count index
  | send | receive =>
      refine ⟨by simpa [Event.taking] using taken, fun index => ?_⟩
      have before := count index
      simp [Event.taking, Event.receiving, Worker.held, List.count_cons] at before ⊢
      omega
  | refuse => cases settled.listening Worker.noConfusion

/-! ## What is said of an input -/

/-- A result is what the work on the input of an index gives. -/
def IsResult (inputs : List Path) (work : Path → Option InputResult) (index : Nat)
    (result : InputResult) : Prop :=
  ∃ input, inputs[index]? = some input ∧ result = caught (work input)

/-- What a worker has in hand is the input of its index, or what the work on it gives. -/
def IsTruthful (inputs : List Path) (work : Path → Option InputResult) :
    Worker → Prop
  | .working index input => inputs[index]? = some input
  | .sending index result => IsResult inputs work index result
  | .idle | .leaving | .stopped => True

/-- What is in hand, sent or received for an index is what the work on its input gives. -/
structure Truthful (inputs : List Path) (work : Path → Option InputResult) (events : List Event)
    (pool : Pool) : Prop where
  /-- What is in hand. -/
  workers : ∀ worker ∈ pool.workers, IsTruthful inputs work worker
  /-- What is sent. -/
  channel : ∀ entry ∈ pool.channel, IsResult inputs work entry.1 entry.2
  /-- What is received, and that nothing else is there. -/
  results : pool.results = inputs.mapIdx fun index input =>
    if index ∈ events.flatMap Event.receiving then some (caught (work input)) else none

theorem truthful_start : Truthful inputs work [] (start jobs inputs.length) where
  workers worker member := by
    rw [List.eq_of_mem_replicate member]
    trivial
  channel entry member := by cases member
  results := List.ext_getElem (by simp [start]) (by simp [start])

theorem Truthful.step (truthful : Truthful inputs work events pool)
    (moved : Step inputs work event pool next) : Truthful inputs work (events ++ [event]) next := by
  obtain ⟨workers, channel, results⟩ := truthful
  cases moved with
  | take found =>
      exact ⟨forall_workers workers (fun _ known => known) found, channel,
        by simpa [Event.receiving] using results⟩
  | runOut | refuse | stop =>
      exact ⟨forall_workers workers (fun _ known => known) trivial, channel,
        by simpa [Event.receiving] using results⟩
  | work =>
      have found := workers _ (List.mem_append_right _ List.mem_cons_self)
      exact ⟨forall_workers workers (fun _ known => known) ⟨_, found, rfl⟩, channel,
        by simpa [Event.receiving] using results⟩
  | send =>
      have sent := workers _ (List.mem_append_right _ List.mem_cons_self)
      refine ⟨forall_workers workers (fun _ known => known) trivial, ?_,
        by simpa [Event.receiving] using results⟩
      intro entry member
      rcases List.mem_append.mp member with earlier | last
      · exact channel entry earlier
      · rw [List.mem_singleton.mp last]
        exact sent
  | receive =>
      refine ⟨workers, fun entry member => channel entry (List.mem_cons_of_mem _ member), ?_⟩
      obtain ⟨input, found, rfl⟩ := channel _ List.mem_cons_self
      simp only at results ⊢
      subst results
      apply List.ext_getElem (by simp)
      intro place inside _
      rw [List.getElem_set, List.getElem_mapIdx, List.getElem_mapIdx]
      split
      next here =>
        subst here
        simp [Event.receiving, (List.getElem?_eq_some_iff.mp found).2]
      next elsewhere => simp [Event.receiving, Ne.symm elsewhere]
  | finish => exact ⟨workers, channel, by simpa [Event.receiving] using results⟩

/-! ## Runs -/

/-- What holds after any moves. -/
structure Sound (inputs : List Path) (work : Path → Option InputResult) (jobs : Nat)
    (events : List Event) (pool : Pool) : Prop where
  settled : Settled inputs jobs pool
  accounted : Accounted inputs events pool
  truthful : Truthful inputs work events pool
  moves : events.length + pool.movesLeft inputs ≤
    4 * inputs.length + 2 * workerCount jobs inputs.length + 1

theorem Run.sound (run : Run inputs work jobs events pool) :
    Sound inputs work jobs events pool := by
  induction run with
  | start =>
      refine ⟨settled_start, accounted_start, truthful_start, ?_⟩
      simp [movesLeft, Pool.start, Worker.movesLeft]
      omega
  | step run moved sound =>
      have fewer := movesLeft_step moved
      have moves := sound.moves
      refine ⟨sound.settled.step moved, sound.accounted.step sound.settled moved,
        sound.truthful.step moved, ?_⟩
      rw [List.length_append, List.length_singleton]
      omega

/-- Once the collector has ended, every index is taken and received. -/
theorem Sound.received (sound : Sound inputs work jobs events pool)
    (ended : pool.listening = false) :
    events.flatMap Event.taking = List.range inputs.length ∧
      ∀ index, (events.flatMap Event.receiving).count index =
        (events.flatMap Event.taking).count index := by
  obtain ⟨channel_nil, all_stopped⟩ := sound.settled.ended ended
  constructor
  · obtain ⟨worker, member⟩ : ∃ worker, worker ∈ pool.workers := by
      apply List.exists_mem_of_length_pos
      rw [sound.settled.workers_length]
      exact Nat.le_max_left _ _
    have outside := sound.settled.exhausted worker member (.inr (all_stopped worker member))
    rw [sound.accounted.taken, Nat.min_eq_right outside]
  · intro index
    have held_nil : pool.workers.flatMap Worker.held = [] := by
      rw [List.flatMap_eq_nil_iff]
      intro worker member
      rw [all_stopped worker member]
      rfl
    simpa [held_nil, channel_nil] using sound.accounted.count index

/-- Once the collector has ended, every result is there. -/
theorem Sound.results (sound : Sound inputs work jobs events pool)
    (ended : pool.listening = false) :
    pool.results = inputs.map fun input => some (caught (work input)) := by
  obtain ⟨taken, received⟩ := sound.received ended
  rw [sound.truthful.results]
  apply List.ext_getElem (by simp)
  intro index inside _
  rw [List.getElem_mapIdx, List.getElem_map, if_pos]
  rw [← List.one_le_count_iff, received, taken, List.one_le_count_iff, List.mem_range]
  simpa using inside

/-- A list that is met once among those of the moves is that of one move. -/
theorem filter_eq_singleton {place : Event → List Nat} {index : Nat}
    (single : ∀ event, (place event).length ≤ 1)
    (once : (events.flatMap place).count index = 1) :
    ∃ event, place event = [index] ∧
      events.filter (fun event => place event = [index]) = [event] := by
  have counted : ∀ events : List Event,
      (events.filter fun event => place event = [index]).length =
        (events.flatMap place).count index := by
    intro events
    induction events with
    | nil => rfl
    | cons event events induction =>
        rw [List.flatMap_cons, List.count_append, ← induction, List.filter_cons]
        have short := single event
        match place event, short with
        | [], _ => simp
        | [other], _ => by_cases same : other = index <;> simp [same, Nat.add_comm]
  rw [← counted] at once
  obtain ⟨event, found⟩ := List.length_eq_one_iff.mp once
  have member : event ∈ events.filter fun event => place event = [index] := by simp [found]
  exact ⟨event, by simpa using (List.mem_filter.mp member).2, found⟩

theorem length_taking_le (event : Event) : event.taking.length ≤ 1 := by
  cases event <;> simp [Event.taking]

theorem length_receiving_le (event : Event) : event.receiving.length ≤ 1 := by
  cases event <;> simp [Event.receiving]

/-- Two inputs. -/
def twoInputs : List Path := [⟨"a"⟩, ⟨"b"⟩]

/-- Work that writes an output for the first of two inputs and fails on the other. -/
def halfWritten (input : Path) : Option InputResult :=
  if input.text = "a" then some (.ok (.written ⟨"out/a"⟩))
  else some (.error (.unreadable input .missing))

/-- Two workers on two inputs, the second of which is done first. -/
theorem exists_run_halfWritten : ∃ events,
    Run twoInputs halfWritten 7 events
      ⟨4, [.stopped, .stopped], [], [some (.ok (.written ⟨"out/a"⟩)),
        some (.error (.unreadable ⟨"b"⟩ .missing))], false⟩ := by
  have run := @Run.start twoInputs halfWritten 7
  have run := run.step (@Step.take _ _ 0 [] [.idle] _ _ _ _ rfl)
  have run := run.step (@Step.take _ _ 1 [.working 0 ⟨"a"⟩] [] _ _ _ _ rfl)
  have run := run.step (@Step.work _ _ _ _ [.working 0 ⟨"a"⟩] [] _ _ _ _)
  have run := run.step (@Step.send _ _ _ _ [.working 0 ⟨"a"⟩] [] _ _ _)
  have run := run.step (@Step.work _ _ _ _ [] [.idle] _ _ _ _)
  have run := run.step .receive
  have run := run.step (@Step.runOut _ _ _ [.sending 0 (.ok (.written ⟨"out/a"⟩))] [] _ _ _ rfl)
  have run := run.step (@Step.send _ _ _ _ [] [.leaving] _ _ _)
  have run := run.step .receive
  have run := run.step (@Step.runOut _ _ _ [] [.leaving] _ _ _ rfl)
  have run := run.step (@Step.stop _ _ _ [] [.leaving] _ _ _)
  have run := run.step (@Step.stop _ _ _ [.stopped] [] _ _ _)
  exact ⟨_, run.step (.finish (by simp))⟩

end Pool

end IslandSlots
