import Courier.Proofs.Path
import Courier.Transport.Crowd
import Mathlib.Data.List.Perm.Basic

/-!
# Calls that take turns

A schedule interleaves calls that share one transport. Each call goes along one of its own paths,
however the others are scheduled, and a call that is scheduled often enough ends. What the
connection receives and what the trace keeps is what the steps of all calls say, in their order.
-/
namespace Courier.Transport

variable {σ α γ : Type}

/-- The next step of a call, if it has one. -/
def nextStep (t : Transport σ) : Call α → List Step
  | .done _ => []
  | .act a _ => [⟨a, (t.perform a).1⟩]

/-- The next move of the call at a position, if it has one. -/
def moveOf (t : Transport σ) (turns : List (Turn α)) (i : Nat) : List (Nat × Step) :=
  match turns[i]? with
  | none => []
  | some turn => (t.nextStep turn.call).map (i, ·)

/-- The moves that are made along a schedule, each with the position of its call. -/
def log (t : Transport σ) (turns : List (Turn α)) : List Nat → List (Nat × Step)
  | [] => []
  | i :: schedule =>
    t.moveOf turns i ++ (t.moveAt turns i).2.log (t.moveAt turns i).1 schedule

/-- The steps of the call at a position. -/
def stepsOf (i : Nat) (log : List (Nat × Step)) : List Step :=
  log.filterMap fun move => if move.1 = i then some move.2 else none

@[simp] theorem stepsOf_append (i : Nat) (first rest : List (Nat × Step)) :
    stepsOf i (first ++ rest) = stepsOf i first ++ stepsOf i rest := List.filterMap_append

theorem stepsOf_self (i : Nat) (steps : List Step) :
    stepsOf i (steps.map (i, ·)) = steps := by
  simp [stepsOf, List.filterMap_map]

theorem stepsOf_other {i j : Nat} (ne : j ≠ i) (steps : List Step) :
    stepsOf i (steps.map (j, ·)) = [] := by
  simp [stepsOf, ne]

/-- One call for each request. -/
def callsOf (t : Transport σ) (rs : List Request) : List (Turn Chain.Outcome) :=
  rs.map fun r => { call := t.chain.call r }

theorem getElem?_callsOf {t : Transport σ} {rs : List Request} {i : Nat} {r : Request}
    (h : rs[i]? = some r) : (t.callsOf rs)[i]? = some { call := t.chain.call r } := by
  rw [callsOf, List.getElem?_map, h]
  rfl

theorem moveAt_none {t : Transport σ} {turns : List (Turn α)} {i : Nat} (h : turns[i]? = none) :
    t.moveAt turns i = (turns, t) := by
  rw [moveAt, h]

theorem moveAt_some {t : Transport σ} {turns : List (Turn α)} {i : Nat} {turn : Turn α}
    (h : turns[i]? = some turn) :
    t.moveAt turns i = (turns.set i (t.move turn).1, (t.move turn).2) := by
  rw [moveAt, h]

/-- A move takes the call at its position one step along a path, unless it has ended, and leaves
the other calls where they are. -/
theorem moveAt_path {t : Transport σ} {turns : List (Turn α)} {i j : Nat} {turn : Turn α}
    (h : turns[i]? = some turn) :
    ∃ moved, (t.moveAt turns j).1[i]? = some moved ∧
      turn.call.Path (stepsOf i (t.moveOf turns j)) moved.call ∧
      (moved.value? = none → (stepsOf i (t.moveOf turns j)).length = [j].count i) := by
  by_cases same : j = i
  · subst same
    have inside : j < turns.length := (List.getElem?_eq_some_iff.1 h).1
    refine ⟨(t.move turn).1, ?_, ?_⟩
    · rw [moveAt_some h, List.getElem?_set_self inside]
    · have step : stepsOf j (t.moveOf turns j) = t.nextStep turn.call := by
        rw [moveOf, h]
        exact stepsOf_self j _
      rw [step]
      obtain ⟨wake, call⟩ := turn
      cases call with
      | done value => exact ⟨.stay _, by simp [move, Turn.value?]⟩
      | act a next => exact ⟨.act _ (.stay _), fun _ => by simp [nextStep]⟩
  · have still : stepsOf i (t.moveOf turns j) = [] := by
      unfold moveOf
      split
      · rfl
      · exact stepsOf_other same _
    refine ⟨turn, ?_, ?_, ?_⟩
    · cases hj : turns[j]? with
      | none => rw [moveAt_none hj, h]
      | some other => rw [moveAt_some hj, List.getElem?_set_ne same, h]
    · rw [still]
      exact .stay _
    · rw [still]
      simp [same]

/-- Along any schedule each call goes along one of its own paths, and a call that has not ended
has made every move it was scheduled for. -/
theorem follow_path {t : Transport σ} {turns : List (Turn α)} {i : Nat} {turn : Turn α}
    (schedule : List Nat) (h : turns[i]? = some turn) :
    ∃ left, (t.follow turns schedule).1[i]? = some left ∧
      turn.call.Path (stepsOf i (t.log turns schedule)) left.call ∧
      (left.value? = none → (stepsOf i (t.log turns schedule)).length = schedule.count i) := by
  induction schedule generalizing t turns turn with
  | nil => exact ⟨turn, h, .stay _, fun _ => rfl⟩
  | cons j schedule ih =>
    -- The first move leads to a call at the same position, from which the rest of the path starts.
    obtain ⟨moved, hm, first, firstLength⟩ := moveAt_path (t := t) (j := j) h
    obtain ⟨left, hl, rest, restLength⟩ := ih (t := (t.moveAt turns j).2) hm
    refine ⟨left, hl, ?_, ?_⟩
    · rw [log, stepsOf_append]
      exact first.append rest
    · intro unfinished
      have running : moved.value? = none := by
        cases hc : moved.call with
        | act a next => simp [Turn.value?, hc]
        | done value =>
          rw [hc] at rest
          rw [Turn.value?, rest.of_done.2] at unfinished
          cases unfinished
      rw [log, stepsOf_append, List.length_append, firstLength running, restLength unfinished,
        ← List.count_append]
      rfl

/-- The steps of a call that has ended lead it to its end. -/
theorem follow_ends {t : Transport σ} {turns : List (Turn α)} {i : Nat} {turn left : Turn α}
    {schedule : List Nat} {value : α} (h : turns[i]? = some turn)
    (hl : (t.follow turns schedule).1[i]? = some left) (hv : left.value? = some value) :
    turn.call.Ends (stepsOf i (t.log turns schedule)) value := by
  obtain ⟨other, ho, path, -⟩ := follow_path (t := t) schedule h
  obtain rfl : other = left := by
    rw [ho] at hl
    exact Option.some.inj hl
  unfold Turn.value? at hv
  split at hv
  next ended hc =>
    cases hv
    rw [hc] at path
    exact path
  · cases hv

/-- A call that is scheduled as often as its bound says ends, whatever the others do. -/
theorem follow_finishes {t : Transport σ} {turns : List (Turn α)} {i n : Nat} {turn : Turn α}
    {schedule : List Nat} (h : turns[i]? = some turn) (bound : turn.call.Within n)
    (often : n ≤ schedule.count i) :
    ∃ left value, (t.follow turns schedule).1[i]? = some left ∧ left.value? = some value := by
  obtain ⟨left, hl, path, unfinished⟩ := follow_path (t := t) schedule h
  refine ⟨left, ?_⟩
  cases hc : left.call with
  | done value => exact ⟨value, hl, by simp [Turn.value?, hc]⟩
  | act a next =>
    have length := unfinished (by simp [Turn.value?, hc])
    obtain ⟨le, rest⟩ := path.length_le bound
    rw [hc, show n - _ = 0 by omega] at rest
    exact rest.elim

theorem moveAt_keeps {I : Transport σ → Prop} (keep : ∀ t a, I t → I (t.perform a).2)
    {t : Transport σ} (h : I t) (turns : List (Turn α)) (i : Nat) : I (t.moveAt turns i).2 := by
  cases hi : turns[i]? with
  | none => rwa [moveAt_none hi]
  | some turn =>
    rw [moveAt_some hi]
    cases hc : turn.call with
    | done value => simpa [move, hc] using h
    | act a next => simpa [move, hc] using keep t a h

/-- What each action makes true of its step holds of all moves along a schedule. -/
theorem log_all {I : Transport σ → Prop} {P : Step → Prop}
    (keep : ∀ t a, I t → I (t.perform a).2) (each : ∀ t a, I t → P ⟨a, (t.perform a).1⟩)
    {t : Transport σ} (h : I t) (turns : List (Turn α)) (schedule : List Nat) :
    ∀ move ∈ t.log turns schedule, P move.2 := by
  induction schedule generalizing t turns with
  | nil =>
    intro move hm
    cases hm
  | cons i schedule ih =>
    intro move hm
    rcases List.mem_append.1 hm with now | later
    · unfold moveOf at now
      split at now
      · cases now
      · obtain ⟨step, hs, rfl⟩ := List.mem_map.1 now
        unfold nextStep at hs
        split at hs
        · cases hs
        · obtain rfl := List.mem_singleton.1 hs
          exact each t _ h
    · exact ih (moveAt_keeps keep h turns i) _ move later

theorem mem_stepsOf {i : Nat} {step : Step} {log : List (Nat × Step)} :
    step ∈ stepsOf i log ↔ (i, step) ∈ log := by
  simp only [stepsOf, List.mem_filterMap]
  constructor
  · rintro ⟨⟨j, other⟩, hm, h⟩
    simp only at h
    split at h
    next same => simp_all
    · cases h
  · intro h
    exact ⟨(i, step), h, by simp⟩

@[simp] theorem stepsOf_cons_self (i : Nat) (step : Step) (log : List (Nat × Step)) :
    stepsOf i ((i, step) :: log) = step :: stepsOf i log := by
  simp [stepsOf]

theorem stepsOf_sublist (i : Nat) (log : List (Nat × Step)) :
    (stepsOf i log).Sublist (log.map (·.2)) := by
  induction log with
  | nil => exact .slnil
  | cons move log ih =>
    obtain ⟨j, step⟩ := move
    by_cases same : j = i
    · subst same
      rw [stepsOf_cons_self]
      exact ih.cons_cons step
    · have none : stepsOf i [(j, step)] = [] := stepsOf_other same [step]
      rw [← List.singleton_append, stepsOf_append, none]
      exact ih.cons step

/-- One step belongs to one of the calls. -/
theorem flatMap_stepsOf_single {n j : Nat} (h : j < n) (step : Step) :
    ((List.range n).flatMap fun i => stepsOf i [(j, step)]) = [step] := by
  induction n with
  | zero => omega
  | succ n ih =>
    rw [List.range_succ, List.flatMap_append, List.flatMap_singleton]
    rcases Nat.lt_succ_iff_lt_or_eq.1 h with before | rfl
    · have none : stepsOf n [(j, step)] = [] := stepsOf_other (Nat.ne_of_lt before) [step]
      rw [ih before, none, List.append_nil]
    · have none : ((List.range j).flatMap fun i => stepsOf i [(j, step)]) = [] :=
        List.flatMap_eq_nil_iff.2 fun i hi =>
          stepsOf_other (Nat.ne_of_gt (List.mem_range.1 hi)) [step]
      rw [none, List.nil_append]
      exact stepsOf_self j [step]

/-- The moves of all calls are the steps of one call after the other, in another order. -/
theorem perm_flatMap_stepsOf {n : Nat} {log : List (Nat × Step)} (h : ∀ move ∈ log, move.1 < n) :
    (log.map (·.2)).Perm ((List.range n).flatMap fun i => stepsOf i log) := by
  induction log with
  | nil => simp [stepsOf]
  | cons move log ih =>
    obtain ⟨j, step⟩ := move
    have first := flatMap_stepsOf_single (h (j, step) (List.mem_cons_self ..)) step
    have rest := ih fun other ho => h other (List.mem_cons_of_mem _ ho)
    have split := List.flatMap_append_perm (List.range n) (fun i => stepsOf i [(j, step)])
      fun i => stepsOf i log
    simp only [first, ← stepsOf_append] at split
    exact (rest.cons step).trans split

/-- What the moves of all calls show is what each call shows, in another order. -/
theorem filterMap_perm {n : Nat} {log : List (Nat × Step)} (h : ∀ move ∈ log, move.1 < n)
    (shown : Step → Option γ) :
    ((log.map (·.2)).filterMap shown).Perm
      ((List.range n).flatMap fun i => (stepsOf i log).filterMap shown) := by
  rw [← List.filterMap_flatMap]
  exact (perm_flatMap_stepsOf h).filterMap shown

theorem length_moveAt (t : Transport σ) (turns : List (Turn α)) (i : Nat) :
    (t.moveAt turns i).1.length = turns.length := by
  cases hi : turns[i]? with
  | none => rw [moveAt_none hi]
  | some turn => rw [moveAt_some hi, List.length_set]

/-- Every move belongs to one of the calls. -/
theorem getElem?_of_mem_log {t : Transport σ} {turns : List (Turn α)} {schedule : List Nat}
    {made : Nat × Step} (h : made ∈ t.log turns schedule) :
    ∃ turn, turns[made.1]? = some turn := by
  induction schedule generalizing t turns with
  | nil => cases h
  | cons i schedule ih =>
    rcases List.mem_append.1 h with now | later
    · unfold moveOf at now
      split at now
      · cases now
      next turn hi =>
        obtain ⟨step, -, rfl⟩ := List.mem_map.1 now
        exact ⟨turn, hi⟩
    · obtain ⟨turn, hturn⟩ := ih later
      have inside := (List.getElem?_eq_some_iff.1 hturn).1
      rw [length_moveAt] at inside
      exact ⟨_, List.getElem?_eq_getElem inside⟩

/-- There are moves of calls only. -/
theorem lt_of_mem_log (t : Transport σ) (rs : List Request) (schedule : List Nat) :
    ∀ made ∈ t.log (t.callsOf rs) schedule, made.1 < rs.length := by
  intro made hm
  obtain ⟨turn, hturn⟩ := getElem?_of_mem_log hm
  have inside := (List.getElem?_eq_some_iff.1 hturn).1
  rwa [callsOf, List.length_map] at inside

/-- A view of the transport that each action extends by what the step shows is extended along a
schedule by what all its moves show. -/
theorem view_follow {I : Transport σ → Prop} (view : Transport σ → List γ)
    {shown : Step → Option γ} (keep : ∀ t a, I t → I (t.perform a).2)
    (extend : ∀ t a, I t →
      view (t.perform a).2 = view t ++ (shown ⟨a, (t.perform a).1⟩).toList)
    {t : Transport σ} (h : I t) (turns : List (Turn α)) (schedule : List Nat) :
    view (t.follow turns schedule).2 =
      view t ++ ((t.log turns schedule).map (·.2)).filterMap shown := by
  induction schedule generalizing t turns with
  | nil => simp [follow, log]
  | cons i schedule ih =>
    have one : view (t.moveAt turns i).2 =
        view t ++ ((t.moveOf turns i).map (·.2)).filterMap shown := by
      cases hi : turns[i]? with
      | none => simp [moveAt_none hi, moveOf, hi]
      | some turn =>
        rw [moveAt_some hi]
        cases hc : turn.call with
        | done value => simp [move, hc, moveOf, hi, nextStep]
        | act a next =>
          have step := extend t a h
          cases hs : shown ⟨a, (t.perform a).1⟩ <;> simp_all [move, moveOf, nextStep]
    rw [follow, log, List.map_append, List.filterMap_append, ← List.append_assoc, ← one]
    exact ih (moveAt_keeps keep h turns i) _

/-- Along a schedule the connection receives what the moves hand to it, in their order. -/
theorem received_follow {connection : Connection σ} {t : Transport (List Request × σ)}
    (h : t.connection = connection.recorded) (turns : List (Turn α)) (schedule : List Nat) :
    (t.follow turns schedule).2.wire.1 =
      t.wire.1 ++ requests ((t.log turns schedule).map (·.2)) :=
  view_follow (I := fun t => t.connection = connection.recorded) (fun t => t.wire.1)
    (fun t a h => (sameSettings_perform t a).connection.trans h) received_perform h turns schedule

/-- Along a schedule the trace keeps what was there and, after it, what the moves wrote. -/
theorem kept_follow {t : Transport σ} (h : t.Keeps) (turns : List (Turn α))
    (schedule : List Nat) :
    (t.follow turns schedule).2.kept =
      t.kept ++ records ((t.log turns schedule).map (·.2)) :=
  view_follow kept (fun t a h => (keeps_perform t a h).1) (fun t a h => (keeps_perform t a h).2) h
    turns schedule

end Courier.Transport
