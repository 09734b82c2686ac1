import IslandSlots.Batch.Run

/-!
# Batches run by workers

Workers run a batch together. Each takes an index from a counter that they share, works on the
input of that index, sends what came of it and goes on, until it takes an index for which there is
no input. One collector receives what is sent, in the order in which it was sent, and ends when
nothing is left to receive and no worker is left to send. Between any two moves of one of them the
others may make any number of theirs.
-/

namespace IslandSlots

/-- What a worker does next. -/
inductive Worker where
  /-- It takes the next index. -/
  | idle
  /-- It works on the input of an index. -/
  | working (index : Nat) (input : Path)
  /-- It sends what came of the input of an index. -/
  | sending (index : Nat) (result : InputResult)
  /-- It stops. -/
  | leaving
  /-- It has stopped. -/
  | stopped

/-- Workers on a batch and their collector. -/
structure Pool where
  /-- The index that is taken next. -/
  next : Nat
  /-- The workers. -/
  workers : List Worker
  /-- What is sent and not yet received, oldest first. -/
  channel : List (Nat × InputResult)
  /-- What is received, by index. -/
  results : List (Option InputResult)
  /-- Whether the collector has not ended. -/
  listening : Bool

namespace Pool

/-- How many workers there are when so many are asked for: at least one, and no more than there are
inputs. -/
def workerCount (jobs inputs : Nat) : Nat :=
  max 1 (min jobs (max inputs 1))

/-- The pool before the first move. -/
def start (jobs inputs : Nat) : Pool :=
  ⟨0, List.replicate (workerCount jobs inputs) .idle, [], List.replicate inputs none, true⟩

/-- What is sent of work that may be broken off. -/
def caught (result : Option InputResult) : InputResult :=
  result.getD (.error .panicked)

/-- A move, by the worker of a number or by the collector. -/
inductive Event where
  /-- A worker takes an index. -/
  | took (worker index : Nat)
  /-- A worker finds that there is no further input. -/
  | ranOut (worker : Nat)
  /-- A worker is done with an input. -/
  | worked (worker index : Nat)
  /-- A worker sends a result. -/
  | sent (worker index : Nat)
  /-- A worker finds nobody to send to. -/
  | refused (worker index : Nat)
  /-- A worker stops. -/
  | stopped (worker : Nat)
  /-- The collector receives the result for an index. -/
  | received (index : Nat)
  /-- The collector ends. -/
  | ended
  deriving DecidableEq, Repr

/-- What a move changes, for work that depends on nothing but the input. -/
inductive Step (inputs : List Path) (work : Path → Option InputResult) :
    Event → Pool → Pool → Prop where
  /-- The counter goes on as an index is taken. -/
  | take {next : Nat} {front back : List Worker} {channel : List (Nat × InputResult)}
      {results : List (Option InputResult)} {listening : Bool} {input : Path}
      (found : inputs[next]? = some input) :
      Step inputs work (.took front.length next)
        ⟨next, front ++ .idle :: back, channel, results, listening⟩
        ⟨next + 1, front ++ .working next input :: back, channel, results, listening⟩
  /-- The counter goes on also when it is behind the last input. -/
  | runOut {next : Nat} {front back : List Worker} {channel : List (Nat × InputResult)}
      {results : List (Option InputResult)} {listening : Bool} (exhausted : inputs[next]? = none) :
      Step inputs work (.ranOut front.length)
        ⟨next, front ++ .idle :: back, channel, results, listening⟩
        ⟨next + 1, front ++ .leaving :: back, channel, results, listening⟩
  /-- The work is done. -/
  | work {next index : Nat} {front back : List Worker} {channel : List (Nat × InputResult)}
      {results : List (Option InputResult)} {listening : Bool} {input : Path} :
      Step inputs work (.worked front.length index)
        ⟨next, front ++ .working index input :: back, channel, results, listening⟩
        ⟨next, front ++ .sending index (caught (work input)) :: back, channel, results, listening⟩
  /-- A result is sent behind those sent before. -/
  | send {next index : Nat} {front back : List Worker} {channel : List (Nat × InputResult)}
      {results : List (Option InputResult)} {result : InputResult} :
      Step inputs work (.sent front.length index)
        ⟨next, front ++ .sending index result :: back, channel, results, true⟩
        ⟨next, front ++ .idle :: back, channel ++ [(index, result)], results, true⟩
  /-- A result cannot be sent once the collector has ended. -/
  | refuse {next index : Nat} {front back : List Worker} {channel : List (Nat × InputResult)}
      {results : List (Option InputResult)} {result : InputResult} :
      Step inputs work (.refused front.length index)
        ⟨next, front ++ .sending index result :: back, channel, results, false⟩
        ⟨next, front ++ .leaving :: back, channel, results, false⟩
  /-- A worker stops. -/
  | stop {next : Nat} {front back : List Worker} {channel : List (Nat × InputResult)}
      {results : List (Option InputResult)} {listening : Bool} :
      Step inputs work (.stopped front.length)
        ⟨next, front ++ .leaving :: back, channel, results, listening⟩
        ⟨next, front ++ .stopped :: back, channel, results, listening⟩
  /-- The oldest result is received. -/
  | receive {next index : Nat} {workers : List Worker} {channel : List (Nat × InputResult)}
      {results : List (Option InputResult)} {result : InputResult} :
      Step inputs work (.received index)
        ⟨next, workers, (index, result) :: channel, results, true⟩
        ⟨next, workers, channel, results.set index (some result), true⟩
  /-- The collector ends when nothing can come any more. -/
  | finish {next : Nat} {workers : List Worker} {results : List (Option InputResult)}
      (all_stopped : ∀ worker ∈ workers, worker = .stopped) :
      Step inputs work .ended ⟨next, workers, [], results, true⟩ ⟨next, workers, [], results, false⟩

/-- The moves made so far lead to a pool. -/
inductive Run (inputs : List Path) (work : Path → Option InputResult) (jobs : Nat) :
    List Event → Pool → Prop where
  /-- No move is made. -/
  | start : Run inputs work jobs [] (.start jobs inputs.length)
  /-- One more move is made. -/
  | step {events : List Event} {event : Event} {pool next : Pool}
      (run : Run inputs work jobs events pool) (moved : Step inputs work event pool next) :
      Run inputs work jobs (events ++ [event]) next

/-- The report on what was received. -/
def report (pool : Pool) (inputs : List Path) : Report :=
  .ofResults ((inputs.zip pool.results).map fun (input, result) =>
    (input, result.getD (.error .lost)))

end Pool

end IslandSlots
