import Courier.Transport

/-!
# Paths of calls

A call meets its surroundings only through the results of its actions. A path lists the actions
that a call performed, each with what it brought, and leads to what is left of the call. What
holds along every path of a call holds whether the call runs alone or takes turns with others.
-/
namespace Courier

/-- An action that was performed, with what it brought. -/
structure Step where
  action : Action
  result : action.Result

namespace Step

/-- The request that the step handed to the connection. -/
def request? : Step → Option Request
  | ⟨.deliver r, _⟩ => some r
  | _ => none

/-- The answer that the step brought from the connection. -/
def answer? : Step → Option Answer
  | ⟨.deliver _, answer⟩ => some answer
  | _ => none

/-- The record that the step put into the trace. -/
def record? : Step → Option Record
  | ⟨.write record, _⟩ => some record
  | _ => none

/-- The step asked whether the connection is ready. -/
def isProbe : Step → Bool
  | ⟨.probe, _⟩ => true
  | _ => false

/-- The step found the connection not ready. -/
def isRefusal : Step → Bool
  | ⟨.probe, some _⟩ => true
  | _ => false

/-- The step that puts a record into the trace. -/
def writing (record : Record) : Step := ⟨.write record, ()⟩

/-- The step that puts an event into the journal. -/
def logging (e : Event) : Step := ⟨.log e, ()⟩

/-- The step that lets time pass. -/
def pausing (time : Duration) : Step := ⟨.pause time, ()⟩

end Step

/-- The requests that some steps handed to the connection, in order. -/
def requests (steps : List Step) : List Request := steps.filterMap Step.request?

/-- The answers that some steps brought, in order. -/
def answers (steps : List Step) : List Answer := steps.filterMap Step.answer?

/-- The records that some steps put into the trace, in order. -/
def records (steps : List Step) : List Record := steps.filterMap Step.record?

/-- Every attempt starts by asking whether the connection is ready. -/
def attempts (steps : List Step) : Nat := steps.countP Step.isProbe

@[simp] theorem requests_cons (step : Step) (rest : List Step) :
    requests (step :: rest) = step.request?.toList ++ requests rest := by
  cases h : step.request? <;> simp [requests, h]

@[simp] theorem answers_cons (step : Step) (rest : List Step) :
    answers (step :: rest) = step.answer?.toList ++ answers rest := by
  cases h : step.answer? <;> simp [answers, h]

@[simp] theorem records_cons (step : Step) (rest : List Step) :
    records (step :: rest) = step.record?.toList ++ records rest := by
  cases h : step.record? <;> simp [records, h]

@[simp] theorem attempts_cons (step : Step) (rest : List Step) :
    attempts (step :: rest) = attempts rest + if step.isProbe then 1 else 0 := List.countP_cons

@[simp] theorem requests_append (first rest : List Step) :
    requests (first ++ rest) = requests first ++ requests rest := List.filterMap_append

@[simp] theorem answers_append (first rest : List Step) :
    answers (first ++ rest) = answers first ++ answers rest := List.filterMap_append

@[simp] theorem records_append (first rest : List Step) :
    records (first ++ rest) = records first ++ records rest := List.filterMap_append

@[simp] theorem attempts_append (first rest : List Step) :
    attempts (first ++ rest) = attempts first + attempts rest := List.countP_append

@[simp] theorem requests_nil : requests [] = [] := rfl

@[simp] theorem answers_nil : answers [] = [] := rfl

@[simp] theorem records_nil : records [] = [] := rfl

@[simp] theorem attempts_nil : attempts [] = 0 := rfl

/-- Writing records is all that the steps of writing them do. -/
theorem views_writing (rs : List Record) :
    requests (rs.map Step.writing) = [] ∧ answers (rs.map Step.writing) = [] ∧
      attempts (rs.map Step.writing) = 0 ∧ records (rs.map Step.writing) = rs := by
  induction rs with
  | nil => exact ⟨rfl, rfl, rfl, rfl⟩
  | cons r rs ih =>
    obtain ⟨hq, ha, hn, hr⟩ := ih
    refine ⟨hq, ha, hn, ?_⟩
    rw [List.map_cons, records_cons, hr]
    rfl

/-- Nothing but the journal shows the steps of putting events into it. -/
theorem views_logging (es : List Event) :
    requests (es.map Step.logging) = [] ∧ answers (es.map Step.logging) = [] ∧
      attempts (es.map Step.logging) = 0 ∧ records (es.map Step.logging) = [] := by
  induction es with
  | nil => exact ⟨rfl, rfl, rfl, rfl⟩
  | cons e es ih => exact ih

namespace Call

variable {α β : Type}

/-- The steps lead from a call to what is left of it. -/
inductive Path : Call α → List Step → Call α → Prop where
  | stay (c : Call α) : Path c [] c
  | act {a : Action} {next : a.Result → Call α} {steps : List Step} {d : Call α}
      (result : a.Result) (rest : Path (next result) steps d) :
      Path (.act a next) (⟨a, result⟩ :: steps) d

/-- The steps lead a call to its end. -/
def Ends (c : Call α) (steps : List Step) (value : α) : Prop := Path c steps (.done value)

theorem Path.append {c d e : Call α} {first rest : List Step} (h : Path c first d)
    (k : Path d rest e) : Path c (first ++ rest) e := by
  induction h with
  | stay => exact k
  | act result _ ih => exact .act result (ih k)

/-- Nothing is left to do for a call that has ended. -/
theorem Path.of_done {value : α} {steps : List Step} {d : Call α}
    (h : Path (.done value) steps d) : steps = [] ∧ d = .done value := by
  cases h with
  | stay => exact ⟨rfl, rfl⟩

@[simp] theorem ends_done {value other : α} {steps : List Step} :
    (Call.done value).Ends steps other ↔ steps = [] ∧ other = value := by
  constructor
  · intro h
    obtain ⟨none, same⟩ := Path.of_done h
    exact ⟨none, Call.done.inj same⟩
  · rintro ⟨rfl, rfl⟩
    exact .stay _

@[simp] theorem ends_pure {value other : α} {steps : List Step} :
    (pure value : Call α).Ends steps other ↔ steps = [] ∧ other = value := ends_done

theorem ends_act {a : Action} {next : a.Result → Call α} {steps : List Step} {value : α} :
    (Call.act a next).Ends steps value ↔
      ∃ result rest, steps = ⟨a, result⟩ :: rest ∧ (next result).Ends rest value := by
  constructor
  · intro h
    cases h with
    | act result rest => exact ⟨result, _, rfl, rest⟩
  · rintro ⟨result, rest, rfl, h⟩
    exact .act result h

/-- One call after another ends where the second ends, having started with what the first
brought. -/
theorem ends_bind {c : Call α} {f : α → Call β} {steps : List Step} {value : β} :
    (c >>= f).Ends steps value ↔
      ∃ first rest middle, steps = first ++ rest ∧ c.Ends first middle ∧
        (f middle).Ends rest value := by
  induction c generalizing steps with
  | done middle =>
    constructor
    · intro h
      exact ⟨[], steps, middle, rfl, .stay _, h⟩
    · rintro ⟨first, rest, value, rfl, hc, hf⟩
      obtain ⟨rfl, rfl⟩ := ends_done.1 hc
      exact hf
  | act a next ih =>
    rw [act_bind, ends_act]
    constructor
    · rintro ⟨result, tail, rfl, h⟩
      obtain ⟨first, rest, middle, rfl, hc, hf⟩ := (ih result).1 h
      exact ⟨⟨a, result⟩ :: first, rest, middle, rfl, .act result hc, hf⟩
    · rintro ⟨first, rest, middle, rfl, hc, hf⟩
      obtain ⟨result, tail, rfl, h⟩ := ends_act.1 hc
      exact ⟨result, tail ++ rest, rfl, (ih result).2 ⟨tail, rest, middle, rfl, h, hf⟩⟩

theorem ends_lift_bind {a : Action} {f : a.Result → Call β} {steps : List Step} {value : β} :
    (Call.lift a >>= f).Ends steps value ↔
      ∃ result rest, steps = ⟨a, result⟩ :: rest ∧ (f result).Ends rest value := by
  rw [lift_bind, ends_act]

theorem ends_lift {a : Action} {steps : List Step} {value : a.Result} :
    (Call.lift a).Ends steps value ↔ steps = [⟨a, value⟩] := by
  rw [Call.lift, ends_act]
  constructor
  · rintro ⟨result, rest, rfl, h⟩
    obtain ⟨rfl, rfl⟩ := ends_done.1 h
    rfl
  · rintro rfl
    exact ⟨value, [], rfl, .stay _⟩

/-- Every action may bring something. -/
theorem result_nonempty (a : Action) : Nonempty a.Result := by
  cases a with
  | probe => exact ⟨(none : Option Failure)⟩
  | deliver r => exact ⟨(⟨.never, .error default⟩ : Answer)⟩
  | claim => exact ⟨(0 : Nat)⟩
  | write r => exact ⟨()⟩
  | draw => exact ⟨Backoff.Draw.notFinite⟩
  | pause time => exact ⟨()⟩
  | log e => exact ⟨()⟩

/-- Every call can be led to its end, so that each path is the beginning of one that ends. -/
theorem exists_ends (c : Call α) : ∃ steps value, c.Ends steps value := by
  induction c with
  | done value => exact ⟨[], value, .stay _⟩
  | act a next ih =>
    obtain ⟨result⟩ := result_nonempty a
    obtain ⟨steps, value, h⟩ := ih result
    exact ⟨⟨a, result⟩ :: steps, value, .act result h⟩

/-- The call performs at most so many actions, whatever they bring. -/
def Within : Nat → Call α → Prop
  | _, .done _ => True
  | 0, .act _ _ => False
  | n + 1, .act _ next => ∀ result, Within n (next result)

@[simp] theorem within_done (n : Nat) (value : α) : (Call.done value).Within n := by
  cases n <;> trivial

@[simp] theorem within_pure (n : Nat) (value : α) : (pure value : Call α).Within n :=
  within_done n value

theorem Within.mono {c : Call α} {m n : Nat} (h : c.Within m) (le : m ≤ n) : c.Within n := by
  induction c generalizing m n with
  | done value => exact within_done n value
  | act a next ih =>
    cases m with
    | zero => exact h.elim
    | succ m =>
      cases n with
      | zero => omega
      | succ n =>
        intro result
        exact ih result (h result) (by omega)

theorem Within.bind {c : Call α} {f : α → Call β} {m n : Nat} (h : c.Within m)
    (k : ∀ value, (f value).Within n) : (c >>= f).Within (m + n) := by
  induction c generalizing m with
  | done value => exact (k value).mono (by omega)
  | act a next ih =>
    cases m with
    | zero => exact h.elim
    | succ m =>
      rw [act_bind, Nat.succ_add]
      intro result
      exact ih result (h result)

/-- A path is no longer than the bound, and what is left keeps what is left of the bound. -/
theorem Path.length_le {c d : Call α} {steps : List Step} {n : Nat} (h : Path c steps d)
    (bound : c.Within n) : steps.length ≤ n ∧ d.Within (n - steps.length) := by
  induction h generalizing n with
  | stay c => exact ⟨Nat.zero_le _, by simpa using bound⟩
  | act result _ ih =>
    cases n with
    | zero => exact bound.elim
    | succ n =>
      obtain ⟨le, left⟩ := ih (bound result)
      exact ⟨Nat.succ_le_succ le, by simpa [Nat.succ_sub_succ] using left⟩

end Call

namespace Transport

variable {σ α β γ : Type}

/-- The steps of a call that runs from its beginning to its end. -/
def steps (t : Transport σ) : Call α → List Step
  | .done _ => []
  | .act a next => ⟨a, (t.perform a).1⟩ :: (t.perform a).2.steps (next (t.perform a).1)

/-- Running a call follows one of its paths to the end. -/
theorem ends_run (t : Transport σ) (c : Call α) : c.Ends (t.steps c) (t.run c).1 := by
  induction c generalizing t with
  | done value => exact .stay _
  | act a next ih => exact .act _ (ih _ (t.perform a).2)

/-- What each action keeps, a whole run keeps. -/
theorem run_keeps {I : Transport σ → Prop} (keep : ∀ t a, I t → I (t.perform a).2)
    {t : Transport σ} (h : I t) (c : Call α) : I (t.run c).2 := by
  induction c generalizing t with
  | done value => exact h
  | act a next ih => exact ih _ (keep t a h)

/-- What each action makes true of its step holds of all steps of a run. -/
theorem steps_all {I : Transport σ → Prop} {P : Step → Prop}
    (keep : ∀ t a, I t → I (t.perform a).2) (each : ∀ t a, I t → P ⟨a, (t.perform a).1⟩)
    {t : Transport σ} (h : I t) (c : Call α) : ∀ step ∈ t.steps c, P step := by
  induction c generalizing t with
  | done value =>
    intro step hs
    cases hs
  | act a next ih =>
    intro step hs
    rcases List.mem_cons.1 hs with rfl | hs
    · exact each t a h
    · exact ih _ (keep t a h) step hs

/-- A view of the transport that each action extends by what the step shows is extended by a
run by what all its steps show. -/
theorem view_run {I : Transport σ → Prop} (view : Transport σ → List γ) {shown : Step → Option γ}
    (keep : ∀ t a, I t → I (t.perform a).2)
    (extend : ∀ t a, I t →
      view (t.perform a).2 = view t ++ (shown ⟨a, (t.perform a).1⟩).toList)
    {t : Transport σ} (h : I t) (c : Call α) :
    view (t.run c).2 = view t ++ (t.steps c).filterMap shown := by
  induction c generalizing t with
  | done value => simp [steps]
  | act a next ih =>
    have later := ih (t.perform a).1 (keep t a h)
    rw [run_act, later, extend t a h, steps, List.filterMap_cons]
    cases shown ⟨a, (t.perform a).1⟩ <;> simp

/-- Everything that a run leaves alone. -/
structure SameSettings (t u : Transport σ) : Prop where
  chain : u.chain = t.chain
  security : u.security = t.security
  connection : u.connection = t.connection
  draws : u.draws = t.draws
  closed : u.closed = t.closed

theorem SameSettings.refl (t : Transport σ) : t.SameSettings t := ⟨rfl, rfl, rfl, rfl, rfl⟩

theorem SameSettings.trans {t u v : Transport σ} (h : t.SameSettings u) (k : u.SameSettings v) :
    t.SameSettings v :=
  ⟨k.chain.trans h.chain, k.security.trans h.security, k.connection.trans h.connection,
    k.draws.trans h.draws, k.closed.trans h.closed⟩

theorem sameSettings_perform (t : Transport σ) (a : Action) : t.SameSettings (t.perform a).2 := by
  cases a with
  | claim =>
    rw [perform]
    split <;> exact ⟨rfl, rfl, rfl, rfl, rfl⟩
  | write record =>
    rw [perform]
    split <;> exact ⟨rfl, rfl, rfl, rfl, rfl⟩
  | _ => exact ⟨rfl, rfl, rfl, rfl, rfl⟩

theorem sameSettings_run (t : Transport σ) (c : Call α) : t.SameSettings (t.run c).2 :=
  run_keeps (fun u a h => h.trans (sameSettings_perform u a)) (.refl t) c

/-- The connection is ready, whatever its state. -/
def AlwaysReady (connection : Connection σ) : Prop := ∀ s, connection.unready s = none

theorem not_isRefusal_perform {connection : Connection σ} (ready : AlwaysReady connection)
    (t : Transport σ) (a : Action) (h : t.connection = connection) :
    Step.isRefusal ⟨a, (t.perform a).1⟩ = false := by
  cases a with
  | probe => simp [perform, h, ready t.wire, Step.isRefusal]
  | _ => rfl

/-- What a connection answers to the same request again and again. -/
def answerAt (connection : Connection σ) (q : Request) (s : σ) : Nat → Answer
  | 0 => (connection.answer q s).1
  | i + 1 => answerAt connection q (connection.answer q s).2 i

theorem wire_perform (t : Transport σ) (a : Action) :
    (t.perform a).2.wire = match a with
      | .deliver q => (t.connection.answer q t.wire).2
      | _ => t.wire := by
  cases a with
  | claim =>
    rw [perform]
    split <;> rfl
  | write record =>
    rw [perform]
    split <;> rfl
  | _ => rfl

/-- A run that hands over one request only gets the answers to that request, one after another. -/
theorem answers_steps {q : Request} {t : Transport σ} {c : Call α}
    (same : ∀ other ∈ requests (t.steps c), other = q) {i : Nat} {answer : Answer}
    (h : (answers (t.steps c))[i]? = some answer) :
    answer = answerAt t.connection q t.wire i := by
  induction c generalizing t i with
  | done value => cases h
  | act a next ih =>
    have later : ∀ j, (∀ other ∈ requests ((t.perform a).2.steps (next (t.perform a).1)),
        other = q) → (answers ((t.perform a).2.steps (next (t.perform a).1)))[j]? = some answer →
        answer = answerAt t.connection q (t.perform a).2.wire j := by
      intro j hq hj
      rw [← (sameSettings_perform t a).connection]
      exact ih _ hq hj
    rw [wire_perform] at later
    cases a with
    | deliver other =>
      obtain rfl : other = q := same other (List.mem_cons_self ..)
      cases i with
      | zero => exact (Option.some.inj h).symm
      | succ i => exact later i (fun o ho => same o (List.mem_cons_of_mem _ ho)) h
    | _ => exact later i same h

/-- The records that the trace keeps. -/
def kept (t : Transport σ) : List Record :=
  match t.tracer with
  | none => []
  | some tracer => tracer.sink.records

/-- The transport traces into a sink that keeps what is written. -/
def Keeps (t : Transport σ) : Prop :=
  ∃ tracer rs, t.tracer = some tracer ∧ tracer.sink = .buffer rs

theorem keeps_perform (t : Transport σ) (a : Action) (h : t.Keeps) :
    (t.perform a).2.Keeps ∧
      (t.perform a).2.kept = t.kept ++ (Step.record? ⟨a, (t.perform a).1⟩).toList := by
  obtain ⟨tracer, rs, ht, hs⟩ := h
  cases a with
  | claim =>
    refine ⟨⟨tracer.claim.2, rs, ?_, hs⟩, ?_⟩
    · simp [perform, ht]
    · simp [perform, kept, ht, Tracer.claim, Step.record?]
  | write record =>
    refine ⟨⟨(tracer.write record).2, rs ++ [record], ?_, ?_⟩, ?_⟩
    · simp [perform, ht, noting]
    · simp [Tracer.write, hs]
    · simp [perform, kept, ht, noting, Tracer.records_write hs, Step.record?]
  | _ => exact ⟨⟨tracer, rs, ht, hs⟩, by simp [perform, kept, noting, Step.record?]⟩

/-- A run leaves in the trace what was there and, after it, what its steps wrote. -/
theorem kept_run {t : Transport σ} (h : t.Keeps) (c : Call α) :
    (t.run c).2.kept = t.kept ++ records (t.steps c) :=
  view_run kept (fun t a h => (keeps_perform t a h).1) (fun t a h => (keeps_perform t a h).2) h c

theorem received_perform {connection : Connection σ} (t : Transport (List Request × σ))
    (a : Action) (h : t.connection = connection.recorded) :
    (t.perform a).2.wire.1 = t.wire.1 ++ (Step.request? ⟨a, (t.perform a).1⟩).toList := by
  cases a with
  | deliver r => simp [perform, h, Connection.recorded, Step.request?]
  | claim =>
    rw [perform]
    split <;> simp [Step.request?]
  | write record =>
    rw [perform]
    split <;> simp [Step.request?, noting]
  | _ => simp [perform, Step.request?, noting]

/-- A run hands to the connection what its steps say, after what was handed to it before. -/
theorem received_run {connection : Connection σ} {t : Transport (List Request × σ)}
    (h : t.connection = connection.recorded) (c : Call α) :
    (t.run c).2.wire.1 = t.wire.1 ++ requests (t.steps c) :=
  view_run (I := fun t => t.connection = connection.recorded) (fun t => t.wire.1)
    (fun t a h => (sameSettings_perform t a).connection.trans h) received_perform h c

/-! ## The door -/

/-- A transport whose door is open, on a connection that is ready, admits every request. -/
theorem enter_open {t : Transport σ} (opened : t.closed = none)
    (ready : t.connection.unready t.wire = none) : t.enter = (none, t) := by
  rw [enter, opened, ready]
  rfl

theorem roundTrip_open {t : Transport σ} (opened : t.closed = none)
    (ready : t.connection.unready t.wire = none) (r : Request) :
    t.roundTrip r = t.run (t.chain.call r) := by
  rw [roundTrip, enter_open opened ready]

/-- A request is refused at the door, which only the door and the journal show, or its call runs. -/
theorem roundTrip_cases (t : Transport σ) (r : Request) :
    (∃ cause, (t.closed <|> t.connection.unready t.wire) = some cause ∧
      t.roundTrip r =
        (.error .serviceClosed, { t with closed := some cause }.noting [refusal cause])) ∨
    (t.closed <|> t.connection.unready t.wire) = none ∧
      t.roundTrip r = t.run (t.chain.call r) := by
  unfold roundTrip enter
  cases h : (t.closed <|> t.connection.unready t.wire) with
  | some cause => exact .inl ⟨cause, rfl, rfl⟩
  | none => exact .inr ⟨rfl, rfl⟩

theorem send_eq (t : Transport σ) (r : Request) :
    t.send r = ((t.roundTrip r).1.map t.reply, (t.roundTrip r).2) := rfl

end Courier.Transport
