import Courier.Transport

/-!
# Many calls at once

Calls on one transport take turns. Time is simulated: each call has a moment at which it wakes up,
and the one to wake up first makes its next move, the first in line if there are several. Pauses
move the moment on; all else takes no time.

The door of a transport holds as many requests as its capacity. More requests than that are
admitted in waves: one wave is admitted, every call goes on for as long as it takes no time, and
then the next wave has its turn.
-/
namespace Courier

/-- A call under way and the moment at which it goes on. -/
structure Turn (α : Type) where
  wake : Nat := 0
  call : Call α

def Turn.value? {α : Type} (turn : Turn α) : Option α :=
  match turn.call with
  | .done value => some value
  | .act _ _ => none

def Action.nanos : Action → Nat
  | .pause time => time.nanos
  | _ => 0

namespace Transport

variable {σ α : Type}

/-- Make one move of a call. -/
def move (t : Transport σ) (turn : Turn α) : Turn α × Transport σ :=
  match turn.call with
  | .done _ => (turn, t)
  | .act a next =>
    let (result, after) := t.perform a
    (⟨turn.wake + a.nanos, next result⟩, after)

/-- Which moments a call may wake up at. -/
abbrev Due := Nat → Bool

def anyTime : Due := fun _ => true

/-- The moment at which all requests are sent. -/
def atOnce : Due := fun wake => wake = 0

/-- The position of the call that is next: of those under way and due, the first to wake up. -/
def next? (due : Due) (turns : List (Turn α)) : Option Nat :=
  let waiting := turns.zipIdx.filter fun p => p.1.value?.isNone && due p.1.wake
  (waiting.foldl (fun best p =>
    match best with
    | none => some p
    | some b => if p.1.wake < b.1.wake then some p else some b) none).map (·.2)

def moveAt (t : Transport σ) (turns : List (Turn α)) (i : Nat) : List (Turn α) × Transport σ :=
  match turns[i]? with
  | none => (turns, t)
  | some turn =>
    let (moved, after) := t.move turn
    (turns.set i moved, after)

/-- Make the moves at the given positions, one after another. -/
def follow (t : Transport σ) (turns : List (Turn α)) : List Nat → List (Turn α) × Transport σ
  | [] => (turns, t)
  | i :: schedule =>
    let (moved, after) := t.moveAt turns i
    after.follow moved schedule

/-- Take turns for up to `moves` moves, for as long as a call is due. -/
def takeTurns (t : Transport σ) (due : Due) (turns : List (Turn α)) : (moves : Nat) →
    List (Turn α) × Transport σ
  | 0 => (turns, t)
  | moves + 1 =>
    match next? due turns with
    | none => (turns, t)
    | some i =>
      let (moved, after) := t.moveAt turns i
      after.takeTurns due moved moves

/-- Taking turns is following one of the possible schedules. -/
theorem takeTurns_eq_follow (t : Transport σ) (due : Due) (turns : List (Turn α)) (moves : Nat) :
    ∃ schedule, t.takeTurns due turns moves = t.follow turns schedule := by
  induction moves generalizing t turns with
  | zero => exact ⟨[], rfl⟩
  | succ moves ih =>
    cases h : next? due turns with
    | none => exact ⟨[], by simp only [takeTurns, h, follow]⟩
    | some i =>
      obtain ⟨schedule, hs⟩ := ih (t.moveAt turns i).2 (t.moveAt turns i).1
      exact ⟨i :: schedule, by simp only [takeTurns, h, follow, hs]⟩

/-- Run calls to their ends, one after another. -/
def runEach (t : Transport σ) : List (Turn α) → List α × Transport σ
  | [] => ([], t)
  | turn :: turns =>
    let (value, after) := t.run turn.call
    let (values, last) := after.runEach turns
    (value :: values, last)

/-- More than the moves of one attempt, with everything that comes before and after it. -/
def movesPerAttempt : Nat := 16

/-- Admit requests one after another; the calls of those admitted. -/
def enterAll (t : Transport σ) : List Request → List (Turn Chain.Outcome) × Transport σ
  | [] => ([], t)
  | r :: rs =>
    let (refused, after) := t.enter
    let call : Call Chain.Outcome :=
      match refused with
      | some e => .done (.error e)
      | none => t.chain.call r
    let (turns, last) := after.enterAll rs
    ({ call := call } :: turns, last)

/-- More than the moves of some calls from their beginnings to their ends. -/
def movesOf (t : Transport σ) (turns : List (Turn α)) : Nat :=
  turns.length * (t.chain.retry.maxRetries + 1) * movesPerAttempt

/-- Requests in waves of `size`, the last of which may be smaller; `bound` is at least the number
of waves. -/
def waves (size : Nat) : (bound : Nat) → List Request → List (List Request)
  | _, [] => []
  | 0, _ :: _ => []
  | bound + 1, r :: rs => (r :: rs).take size :: waves size bound ((r :: rs).drop size)

/-- Admit requests wave by wave while the calls in `turns` are under way. After each wave all calls
go on until they pause or end. -/
def enterWaves (t : Transport σ) (turns : List (Turn Chain.Outcome)) :
    List (List Request) → List (Turn Chain.Outcome) × Transport σ
  | [] => (turns, t)
  | wave :: later =>
    let (entered, admitted) := t.enterAll wave
    let all := turns ++ entered
    let (left, after) := admitted.takeTurns atOnce all (admitted.movesOf all)
    after.enterWaves left later

/-- Send requests at the same time; their outcomes in the order of the requests. -/
def sendAll (t : Transport σ) (rs : List Request) : List (Except Failure Reply) × Transport σ :=
  let (turns, admitted) := t.enterWaves [] (waves (max 1 t.capacity) rs.length rs)
  let (left, after) := admitted.takeTurns anyTime turns (admitted.movesOf turns)
  let (outcomes, last) := after.runEach left
  (outcomes.map (·.map t.reply), last)

end Courier.Transport
