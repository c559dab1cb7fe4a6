import Courier.Replay

/-!
# The cursor of a replayed connection

Any number of callers may share a replayed connection and go on programming it meanwhile. A call and
a push are one piece each, so that whatever the callers do is one sequence of uses. The positions
that calls claim count the calls, whatever comes of them; a call is served if the list has come as
far as its position, and there is no other way to an entry.
-/
namespace Courier.Replay

/-- What one of several callers does in one piece to a connection that they share. -/
inductive Use where
  | call (caller : Nat) (r : Request)
  | push (e : Entry)

/-- A call that was made. -/
structure Claim where
  caller : Nat
  request : Request
  /-- The position of the cursor at the call. -/
  position : Nat
  /-- The entry at this position, if the list had come so far. -/
  entry : Option Entry
  answer : Answer

/-- One use: the claim, if it is a call, and the connection after it. -/
def use (p : Replay) : Use → Option Claim × Replay
  | .call caller r => (some ⟨caller, r, p.calls, p.next?, (p.take r).1⟩, (p.take r).2)
  | .push e => (none, p.push e)

/-- The claims made along some uses, in order, and the connection after them. -/
def play (p : Replay) : List Use → List Claim × Replay
  | [] => ([], p)
  | u :: uses => ((p.use u).1.toList ++ ((p.use u).2.play uses).1, ((p.use u).2.play uses).2)

/-- The calls among some uses. -/
def callsOf (uses : List Use) : List (Nat × Request) :=
  uses.filterMap fun
    | .call caller r => some (caller, r)
    | .push _ => none

/-- The entries that some uses add. -/
def pushesOf (uses : List Use) : List Entry :=
  uses.filterMap fun
    | .call _ _ => none
    | .push e => some e

/-- The uses of callers who only call. -/
def calling (calls : List (Nat × Request)) : List Use := calls.map fun call => .call call.1 call.2

/-- How many of some calls found an entry. -/
def found (claims : List Claim) : Nat := claims.countP (·.entry.isSome)

/-- The answer to a request at a position, where there is an entry or none. -/
def answerAt (position : Nat) (r : Request) : Option Entry → Answer
  | none => ⟨.none, .error (.transport (.replay (.exhausted r.method r.uri.text position)))⟩
  | some e => ⟨e.delay, e.resolve position r⟩

/-- What is true of any uses of a connection that starts with some entries. -/
structure CursorLaw (first : List Entry) (uses : List Use) (claims : List Claim) (last : Replay) :
    Prop where
  /-- The positions count the calls. -/
  positions : claims.map (·.position) = List.range (callsOf uses).length
  /-- Each call has one claim, with its caller and its request. -/
  callers : claims.map (fun c => (c.caller, c.request)) = callsOf uses
  /-- A call gets the entry at its position, as the list will ever have it, if the list has come so
  far; if not, it is told its position and its own method and URL. -/
  served : ∀ before caller r after, uses = before ++ .call caller r :: after →
    ∃ claim, claims[(callsOf before).length]? = some claim ∧ claim.caller = caller ∧
      claim.request = r ∧ claim.position = (callsOf before).length ∧
      claim.entry = (if claim.position < (first ++ pushesOf before).length then
        (first ++ pushesOf uses)[claim.position]? else none) ∧
      claim.answer = answerAt claim.position r claim.entry
  /-- No two calls are served the entry at one position. -/
  once : (claims.filterMap fun c => c.entry.map fun _ => c.position).Nodup
  programmed : last.entries = first ++ pushesOf uses
  /-- Calls are counted whatever comes of them. -/
  counted : last.calls = (callsOf uses).length
  /-- If nothing more is pushed, so many further calls find an entry as remain. -/
  remaining : ∀ more, found (last.play (calling more)).1 = min more.length last.remaining
  /-- If nothing is pushed at all, every call finds an entry for as long as there are any. -/
  unpushed : pushesOf uses = [] → found claims = min (callsOf uses).length first.length

section Uses

@[simp] theorem callsOf_nil : callsOf [] = [] := rfl

@[simp] theorem callsOf_call (caller : Nat) (r : Request) (uses : List Use) :
    callsOf (.call caller r :: uses) = (caller, r) :: callsOf uses := rfl

@[simp] theorem callsOf_push (e : Entry) (uses : List Use) :
    callsOf (.push e :: uses) = callsOf uses := rfl

@[simp] theorem pushesOf_nil : pushesOf [] = [] := rfl

@[simp] theorem pushesOf_call (caller : Nat) (r : Request) (uses : List Use) :
    pushesOf (.call caller r :: uses) = pushesOf uses := rfl

@[simp] theorem pushesOf_push (e : Entry) (uses : List Use) :
    pushesOf (.push e :: uses) = e :: pushesOf uses := rfl

@[simp] theorem pushesOf_append (before after : List Use) :
    pushesOf (before ++ after) = pushesOf before ++ pushesOf after := List.filterMap_append

theorem eq_calling_of_pushesOf {uses : List Use} (h : pushesOf uses = []) :
    uses = calling (callsOf uses) := by
  induction uses with
  | nil => rfl
  | cons u uses ih =>
    cases u with
    | call caller r => exact congrArg _ (ih h)
    | push e => cases h

end Uses

/-! ## What one use does -/

variable (p : Replay)

theorem take_eq (r : Request) :
    p.take r = (answerAt p.calls r p.next?, { p with calls := p.calls + 1 }) := by
  rw [take]
  cases p.next? <;> rfl

theorem use_call (caller : Nat) (r : Request) :
    p.use (.call caller r) = (some ⟨caller, r, p.calls, p.next?, answerAt p.calls r p.next?⟩,
      { p with calls := p.calls + 1 }) := by
  rw [use, take_eq]

@[simp] theorem play_nil : p.play [] = ([], p) := rfl

theorem play_call (caller : Nat) (r : Request) (uses : List Use) :
    p.play (.call caller r :: uses) =
      (⟨caller, r, p.calls, p.next?, answerAt p.calls r p.next?⟩ ::
          (({ p with calls := p.calls + 1 } : Replay).play uses).1,
        (({ p with calls := p.calls + 1 } : Replay).play uses).2) := by
  rw [play, use_call]
  rfl

theorem play_push (e : Entry) (uses : List Use) : p.play (.push e :: uses) = (p.push e).play uses :=
  rfl

/-! ## What a sequence of uses does -/

theorem play_append (before after : List Use) :
    p.play (before ++ after) = ((p.play before).1 ++ ((p.play before).2.play after).1,
      ((p.play before).2.play after).2) := by
  induction before generalizing p with
  | nil => rfl
  | cons u before ih => simp only [List.cons_append, play, ih, List.append_assoc]

/-- Entries are only added, and calls leave the list alone. -/
theorem entries_play (uses : List Use) : (p.play uses).2.entries = p.entries ++ pushesOf uses := by
  induction uses generalizing p with
  | nil => simp
  | cons u uses ih =>
    cases u with
    | call caller r => rw [play_call, ih, pushesOf_call]
    | push e =>
      rw [play_push, ih, entries_push, pushesOf_push, List.append_assoc, List.singleton_append]

/-- Only calls move the cursor, each by one. -/
theorem calls_play (uses : List Use) : (p.play uses).2.calls = p.calls + (callsOf uses).length := by
  induction uses generalizing p with
  | nil => rfl
  | cons u uses ih =>
    cases u with
    | call caller r =>
      rw [play_call, ih, callsOf_call, List.length_cons]
      exact Nat.succ_add_eq_add_succ ..
    | push e => rw [play_push, ih, calls_push, callsOf_push]

theorem positions_play (uses : List Use) :
    (p.play uses).1.map (·.position) = List.range' p.calls (callsOf uses).length := by
  induction uses generalizing p with
  | nil => rfl
  | cons u uses ih =>
    cases u with
    | call caller r =>
      rw [play_call, callsOf_call, List.length_cons, List.range'_succ, List.map_cons, ih]
    | push e => rw [play_push, ih, calls_push, callsOf_push]

theorem callers_play (uses : List Use) :
    (p.play uses).1.map (fun c => (c.caller, c.request)) = callsOf uses := by
  induction uses generalizing p with
  | nil => rfl
  | cons u uses ih =>
    cases u with
    | call caller r => rw [play_call, callsOf_call, List.map_cons, ih]
    | push e => rw [play_push, ih, callsOf_push]

theorem length_play (uses : List Use) : (p.play uses).1.length = (callsOf uses).length := by
  rw [← callers_play p uses, List.length_map]

/-- Callers who only call find entries for as long as some remain. -/
theorem found_calling (calls : List (Nat × Request)) :
    found (p.play (calling calls)).1 = min calls.length p.remaining := by
  induction calls generalizing p with
  | nil => simp [calling, found]
  | cons call calls ih =>
    have later := ih { p with calls := p.calls + 1 }
    rw [calling, List.map_cons, play_call, found, List.countP_cons]
    rw [found] at later
    rw [calling] at later
    rw [later, remaining, remaining, List.length_cons]
    by_cases here : p.calls < p.entries.length
    · simp [next?, here]
      omega
    · simp [next?, here]
      omega

/-- A call in the middle of some uses claims the position that the calls before it have reached. -/
theorem getElem?_play (before : List Use) (caller : Nat) (r : Request) (after : List Use) :
    (p.play (before ++ .call caller r :: after)).1[(callsOf before).length]? =
      some ⟨caller, r, (p.play before).2.calls, (p.play before).2.next?,
        answerAt (p.play before).2.calls r (p.play before).2.next?⟩ := by
  rw [play_append, play_call, ← length_play p before, List.getElem?_append_right (Nat.le_refl _),
    Nat.sub_self, List.getElem?_cons_zero]

/-- **The cursor.** Whatever callers do to a connection that they share, in whatever order, the law
of the cursor holds. -/
theorem cursorLaw_play (first : List Entry) (uses : List Use) :
    CursorLaw first uses (({ entries := first } : Replay).play uses).1
      (({ entries := first } : Replay).play uses).2 := by
  have positions := positions_play { entries := first } uses
  rw [← List.range_eq_range'] at positions
  have programmed := entries_play { entries := first } uses
  refine ⟨positions, callers_play _ uses, ?_, ?_, programmed, ?_, ?_, ?_⟩
  · rintro before caller r after rfl
    refine ⟨_, getElem?_play _ before caller r after, rfl, rfl, ?_, ?_, rfl⟩
    · rw [calls_play, Nat.zero_add]
    · -- The list as it is at the call is the beginning of the list as it will ever be.
      rw [next?, entries_play, pushesOf_append, ← List.append_assoc]
      split
      next reached => rw [List.getElem?_append_left reached]
      next short => rw [List.getElem?_eq_none (Nat.le_of_not_lt short)]
  · have distinct : (({ entries := first } : Replay).play uses).1.Pairwise
        fun a b => a.position ≠ b.position := by
      rw [← List.pairwise_map (f := fun c : Claim => c.position) (R := (· ≠ ·)), positions]
      exact List.nodup_range
    refine List.pairwise_filterMap.2 (distinct.imp ?_)
    intro a b ne i hi j hj
    obtain ⟨_, -, rfl⟩ := Option.map_eq_some_iff.1 hi
    obtain ⟨_, -, rfl⟩ := Option.map_eq_some_iff.1 hj
    exact ne
  · rw [calls_play, Nat.zero_add]
  · exact fun more => found_calling _ more
  · intro quiet
    have allServed := found_calling { entries := first } (callsOf uses)
    rw [← eq_calling_of_pushesOf quiet] at allServed
    exact allServed

end Courier.Replay
