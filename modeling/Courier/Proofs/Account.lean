import Courier.Proofs.Numbering
import Mathlib.Algebra.GroupWithZero.Nat
import Mathlib.Algebra.Order.BigOperators.Group.List
import Mathlib.Algebra.Order.Group.Nat

/-!
# What the trace says of every attempt

A traced attempt writes its request before it hands it over and, when it is answered, what came of
it. The account of an attempt is what the trace says of it, in order, among everything that the
trace says of others (`accountLaw_follow`). There is one gap: a response whose body cannot be read
for the dump is not mentioned at all.
-/
namespace Courier

namespace Chain

variable {c : Chain} {r q : Request} {redact closed : Bool} {steps before after : List Step}
  {number : Nat} {answer : Answer}

/-! ## Whole attempts among the steps of a call -/

/-- The steps contain an attempt from its beginning to its end, which claimed the number, handed
over the request and got the answer. -/
def Finished (c : Chain) (r : Request) (steps : List Step) (number : Nat) (handed : Request)
    (answer : Answer) (o : Outcome) : Prop :=
  ∃ before attempt after, steps = before ++ (attempt ++ after) ∧ (c.attempt r).Ends attempt o ∧
    ⟨.claim, number⟩ ∈ attempt ∧ ⟨.deliver handed, answer⟩ ∈ attempt

theorem claimed_afterClaim (q : Request) (number : Nat) (answer : Answer) :
    claimed (c.afterClaim redact q number answer) = [] := by
  rw [afterClaim, claimed_cons, (views_afterRequest q number answer).1]
  rfl

/-- Where a whole attempt meets another one, they are the same or one comes after the other. -/
theorem attemptSteps_align (on : c.tracing = .on redact) {other : Nat} {answered : Answer}
    {rest : List Step}
    (same : c.attemptSteps q other answered ++ rest =
      before ++ (c.attemptSteps q number answer ++ after)) :
    before = [] ∧ rest = after ∨ ∃ more, before = c.attemptSteps q other answered ++ more ∧
      rest = more ++ (c.attemptSteps q number answer ++ after) := by
  rcases List.append_eq_append_iff.1 same with ⟨more, hb, hr⟩ | ⟨inner, hi, hr⟩
  · exact .inr ⟨more, hb, hr⟩
  cases before with
  | nil =>
    rw [List.nil_append] at hi
    subst hi
    -- Both begin with the same steps, up to the answer, and so they are the same.
    simp only [attemptSteps_on on, afterClaim, exchangeSteps, List.cons_append, List.nil_append,
      List.cons.injEq] at hr
    obtain ⟨claims, -, delivers, -, ends⟩ := hr
    cases claims
    cases delivers
    exact .inl ⟨rfl, (List.append_cancel_left ends).symm⟩
  | cons first before =>
    rw [attemptSteps_on on, List.cons_append, List.cons.injEq] at hi
    obtain ⟨rfl, tail⟩ := hi
    have noClaim : claimed (c.afterClaim redact q other answered) = [] :=
      claimed_afterClaim q other answered
    rw [tail, claimed_append, List.append_eq_nil_iff] at noClaim
    cases inner with
    | nil =>
      refine .inr ⟨[], ?_, hr.symm⟩
      rw [attemptSteps_on on, tail, List.append_nil, List.append_nil]
    | cons step inner =>
      -- The other attempt claims a number at its beginning only.
      rw [attemptSteps_on on, List.cons_append, List.cons_append, List.cons.injEq] at hr
      obtain ⟨rfl, -⟩ := hr
      cases noClaim.2

/-- What comes after a whole attempt tells of the attempts after it. -/
theorem Tells.after_attempt (on : c.tracing = .on redact) (hq : c.signed r = .ok q)
    (h : c.Tells r closed steps)
    (same : steps = before ++ (c.attemptSteps q number answer ++ after)) :
    c.Tells r closed after := by
  induction h generalizing before with
  | nothing =>
    rw [attemptSteps_on on] at same
    simp at same
  | silent quiet more ih =>
    cases before with
    | nil =>
      rw [attemptSteps_on on] at same
      obtain ⟨rfl, -⟩ := List.cons.inj same
      cases quiet
    | cons first before =>
      exact ih (List.cons.inj same).2
  | whole hs other answered more ih =>
    obtain rfl := Except.ok.inj (hq.symm.trans hs)
    obtain ⟨-, rfl⟩ | ⟨between, -, same⟩ := attemptSteps_align on same
    · exact more
    · exact ih same
  | beginning hs other answered part unfinished =>
    obtain rfl := Except.ok.inj (hq.symm.trans hs)
    obtain ⟨missing, whole⟩ := part
    -- The beginning contains a whole attempt, so that it is all of it.
    rw [same, ← List.append_nil (c.attemptSteps q other answered), List.append_assoc,
      List.append_assoc] at whole
    obtain ⟨-, ends⟩ | ⟨between, -, ends⟩ := attemptSteps_align on whole.symm
    · obtain ⟨rfl, -⟩ := List.append_eq_nil_iff.1 ends.symm
      exact .nothing
    · rw [attemptSteps_on on] at ends
      simp at ends

/-! ## The account of an attempt -/

/-- What the trace says of an attempt with the signed request `q`, under its number, when it ended
with the outcome `o`. -/
structure Told (c : Chain) (redact : Bool) (q : Request) (number : Nat) (answer : Answer)
    (o : Outcome) (told : List Record) : Prop where
  /-- The attempt brought no response: its request, and why. -/
  failed : ∀ e, c.received answer = .error e →
    told = [.ofRequest redact number q, .failed number e.message]
  /-- The attempt brought a response that can be read for the dump: its request, the response with
  the beginning of the body, and a note if that is not all. -/
  answered : ∀ response read, c.received answer = .ok response →
    response.body.buffer c.maxBodySize = .ok read →
    told = .ofRequest redact number q ::
      .ofResponse number response.toResponseHead (response.body.data.take c.maxBodySize) ::
        if c.maxBodySize < response.body.data.length then [.truncated number c.maxBodySize] else []
  /-- The attempt brought a response that cannot be read: its request only, while the attempt ends
  with the failure of the body. -/
  lost : ∀ response e, c.received answer = .ok response →
    response.body.buffer c.maxBodySize = .error e →
    told = [.ofRequest redact number q] ∧ o = .error e

/-- What is read for the dump is handed on as it was. -/
theorem rebuilt_of_buffer {response : Response} {read : Buffered}
    (hb : response.body.buffer c.maxBodySize = .ok read) :
    ∃ body : Body, c.rebuilt (.ok response) = .ok { response with body := body } ∧
      body.data = response.body.data := by
  cases read with
  | complete bytes =>
    refine ⟨Body.full bytes, by simp [rebuilt, hb], ?_⟩
    rw [Body.data_full]
    exact (Body.data_of_complete hb).1
  | overflow head rest =>
    refine ⟨Body.resume head rest, by simp [rebuilt, hb], ?_⟩
    exact (Body.data_of_overflow hb).1

theorem told_outcomeRecords (on : c.tracing = .on redact) :
    c.Told redact q number answer (c.observed answer)
      (.ofRequest redact number q :: c.outcomeRecords number (c.received answer)) := by
  refine ⟨?_, ?_, ?_⟩
  · intro e h
    rw [h, outcomeRecords]
  · intro response read h hb
    obtain ⟨body, handed, same⟩ := rebuilt_of_buffer hb
    rw [h, outcomeRecords_of_ok number handed, same]
  · intro response e h hb
    rw [observed_on on, h]
    simp [outcomeRecords, rebuilt, hb]

theorem Finished.mem_claimed {handed : Request} {o : Outcome}
    (h : c.Finished r steps number handed answer o) : number ∈ claimed steps := by
  obtain ⟨before, attempt, after, rfl, -, claims, -⟩ := h
  exact List.mem_filterMap.2 ⟨⟨.claim, number⟩, by simp [claims], rfl⟩

/-- What a call says of an attempt from its beginning to its end, if it claims no number twice. -/
theorem Tells.filter_records (on : c.tracing = .on redact) (h : c.Tells r closed steps)
    (once : (claimed steps).Nodup) (hq : c.signed r = .ok q)
    (same : steps = before ++ (c.attemptSteps q number answer ++ after)) :
    (records steps).filter (·.number? = some number) =
      .ofRequest redact number q :: c.outcomeRecords number (c.received answer) := by
  have early := (h.upTo ⟨_, same.symm⟩).numbered on
  have late := (h.after_attempt on hq same).numbered on
  subst same
  rw [claimed_append, claimed_append, (views_attemptSteps_on on q number answer).1] at once
  have others : number ∉ claimed before ∧ number ∉ claimed after := by
    constructor
    · intro twice
      exact List.disjoint_of_nodup_append once twice (by simp)
    · intro twice
      exact (List.nodup_cons.1 (List.nodup_append.1 once).2.1).1 twice
  have none : ∀ {rest : List Step} {closed : Bool}, Numbered closed rest → number ∉ claimed rest →
      (records rest).filter (·.number? = some number) = [] := by
    intro rest closed numbered unclaimed
    refine List.filter_eq_nil_iff.2 fun record hr about => unclaimed ?_
    exact numbered.mem_claimed hr (by simpa using about)
  rw [records_append, records_append, List.filter_append, List.filter_append, none early others.1,
    none late others.2, records_attemptSteps on, List.nil_append, List.append_nil]
  refine List.filter_eq_self.2 fun record hr => ?_
  have about : record.number? = some number := by
    rw [Record.number?_eq_some]
    rcases List.mem_cons.1 hr with rfl | outcome
    · exact .inl rfl
    · exact .inr (about_outcomeRecords number _ record outcome).2
  simpa using about

/-- The trace says of an attempt that is over what its answer makes it say. -/
theorem told_of_finished (on : c.tracing = .on redact) (h : c.Tells r closed steps)
    (once : (claimed steps).Nodup) {handed : Request} {o : Outcome}
    (finished : c.Finished r steps number handed answer o) :
    ∃ q, c.signed r = .ok q ∧ handed = Compression.advertise q ∧
      c.Told redact q number answer o ((records steps).filter (·.number? = some number)) := by
  obtain ⟨before, attempt, after, same, ends, claims, delivers⟩ := finished
  have claims : number ∈ claimed attempt := List.mem_filterMap.2 ⟨_, claims, rfl⟩
  have handedOver : handed ∈ requests attempt := List.mem_filterMap.2 ⟨_, delivers, rfl⟩
  have brought : answer ∈ answers attempt := List.mem_filterMap.2 ⟨_, delivers, rfl⟩
  cases ends_attempt ends with
  | unsigned hs => cases claims
  | @made q hq other answered =>
    rw [(views_attemptSteps_on on q other answered).1] at claims
    obtain ⟨hands, brings, -⟩ := views_attemptSteps (c := c) q other answered
    rw [hands] at handedOver
    rw [brings] at brought
    obtain rfl := List.mem_singleton.1 claims
    obtain rfl := List.mem_singleton.1 brought
    refine ⟨q, hq, List.mem_singleton.1 handedOver, ?_⟩
    rw [h.filter_records on once hq same]
    exact told_outcomeRecords on

/-! ## Every attempt is over in the end -/

theorem ends_write (record : Record) {α : Type} {next : Unit → Call α} {rest : List Step}
    {value : α} (h : (next ()).Ends rest value) :
    (Call.lift (.write record) >>= next).Ends (.writing record :: rest) value :=
  Call.ends_lift_bind.2 ⟨(), rest, rfl, h⟩

theorem dumped_ends (number : Nat) (o : Outcome) :
    (c.dumped number o).Ends ((c.outcomeRecords number o).map .writing) (c.rebuilt o) := by
  have stays : ∀ value : Outcome, (pure value : Call Outcome).Ends [] value := fun value => .stay _
  cases o with
  | error e => exact ends_write _ (stays _)
  | ok response =>
    cases hb : response.body.buffer c.maxBodySize with
    | error e =>
      simp only [dumped, outcomeRecords, rebuilt, hb]
      exact stays _
    | ok read =>
      cases read with
      | complete bytes =>
        simp only [dumped, outcomeRecords, rebuilt, hb]
        exact ends_write _ (stays _)
      | overflow head rest =>
        simp only [dumped, outcomeRecords, rebuilt, hb]
        exact ends_write _ (ends_write _ (stays _))

theorem exchange_ends (q : Request) (answer : Answer) :
    (c.exchange q).Ends (c.exchangeSteps q answer) (c.received answer) :=
  Call.ends_lift_bind.2 ⟨answer, _, rfl, Call.ends_lift_bind.2 ⟨(), [], rfl, .stay _⟩⟩

/-- An attempt may get any number and any answer. -/
theorem attempt_ends (on : c.tracing = .on redact) (hq : c.signed r = .ok q) (number : Nat)
    (answer : Answer) :
    (c.attempt r).Ends (c.attemptSteps q number answer) (c.observed answer) := by
  rw [signed] at hq
  cases ha : c.authorize r.headers with
  | error e =>
    rw [ha] at hq
    cases hq
  | ok headers =>
    rw [ha] at hq
    cases hq
    simp only [attempt, ha, attemptSteps_on on, afterClaim, observed_on on, observedExchange, on]
    have exchanged := exchange_ends (c := c) { r with headers := headers } answer
    have dumps := dumped_ends (c := c) number (c.received answer)
    have answered := Call.ends_bind.2 ⟨_, _, _, rfl, exchanged, dumps⟩
    exact Call.ends_lift_bind.2 ⟨number, _, rfl, ends_write _ answered⟩

theorem Finished.append {first : List Step} {handed : Request} {o : Outcome}
    (h : c.Finished r steps number handed answer o) :
    c.Finished r (first ++ steps) number handed answer o := by
  obtain ⟨before, attempt, after, rfl, rest⟩ := h
  exact ⟨first ++ before, attempt, after, (List.append_assoc ..).symm, rest⟩

/-- A call that has ended has finished every attempt that it began. -/
theorem Tells.exists_finished (on : c.tracing = .on redact) (h : c.Tells r true steps) :
    ∀ number ∈ claimed steps, ∃ handed answer o, c.Finished r steps number handed answer o := by
  intro number begun
  induction h with
  | nothing => cases begun
  | @silent step rest quiet more ih =>
    rw [← List.singleton_append] at begun ⊢
    rw [claimed_append, (views_of_isSilent quiet).1] at begun
    obtain ⟨handed, answer, o, finished⟩ := ih begun
    exact ⟨handed, answer, o, finished.append⟩
  | @whole q hq other answer rest more ih =>
    rw [claimed_append, (views_attemptSteps_on on q other answer).1] at begun
    rcases List.mem_append.1 begun with this | later
    · obtain rfl := List.mem_singleton.1 this
      refine ⟨Compression.advertise q, answer, c.observed answer, [], _, rest, rfl,
        attempt_ends on hq number answer, ?_, ?_⟩
      · simp [attemptSteps_on on]
      · simp [attemptSteps_on on, afterClaim, exchangeSteps]
    · obtain ⟨handed, answer, o, finished⟩ := ih later
      exact ⟨handed, answer, o, finished.append⟩
  | beginning hs other answer part unfinished => cases unfinished

end Chain

namespace Transport

variable {σ : Type} {t : Transport σ} {redact : Bool} (rs : List Request) (schedule : List Nat)

/-- The numbers that the moves claim are distinct. -/
theorem nodup_claimed (new : t.tracer = some { sink := .empty }) :
    (claimed ((t.log (t.callsOf rs) schedule).map (·.2))).Nodup := by
  obtain ⟨tracer, -, -, counted⟩ := exists_tracer_follow new (t.callsOf rs) schedule
  rw [← counted]
  exact List.nodup_range'

/-- Of two calls at most one has claimed a number. -/
theorem eq_of_mem_claimed (new : t.tracer = some { sink := .empty }) {i j number : Nat}
    (hi : number ∈ claimed (stepsOf i (t.log (t.callsOf rs) schedule)))
    (hj : number ∈ claimed (stepsOf j (t.log (t.callsOf rs) schedule))) : i = j := by
  have claims := filterMap_perm (t.lt_of_mem_log rs schedule) Step.claimed?
  have distinct := claims.nodup_iff.1 (nodup_claimed rs schedule new)
  have inside : ∀ {k}, number ∈ claimed (stepsOf k (t.log (t.callsOf rs) schedule)) →
      k < (List.range rs.length).length := by
    intro k hk
    obtain ⟨step, hs, -⟩ := List.mem_filterMap.1 hk
    rw [List.length_range]
    exact t.lt_of_mem_log rs schedule _ (mem_stepsOf.1 hs)
  have apart : ∀ {k l}, number ∈ claimed (stepsOf k (t.log (t.callsOf rs) schedule)) →
      number ∈ claimed (stepsOf l (t.log (t.callsOf rs) schedule)) → ¬ k < l := by
    intro k l hk hl less
    have disjoint := List.pairwise_iff_getElem.1 (List.nodup_flatMap.1 distinct).2 k l (inside hk)
      (inside hl) less
    simp only [Function.onFun, List.getElem_range] at disjoint
    exact disjoint hk hl
  exact Nat.le_antisymm (Nat.not_lt.1 (apart hj hi)) (Nat.not_lt.1 (apart hi hj))

/-- What the trace says of an attempt is what the call says of it that made it. -/
theorem filter_records_stepsOf (on : t.chain.tracing = .on redact)
    (new : t.tracer = some { sink := .empty }) {i number : Nat}
    (hi : number ∈ claimed (stepsOf i (t.log (t.callsOf rs) schedule))) :
    (records ((t.log (t.callsOf rs) schedule).map (·.2))).filter (·.number? = some number) =
      (records (stepsOf i (t.log (t.callsOf rs) schedule))).filter (·.number? = some number) := by
  have own : ∀ j step record, (j, step) ∈ t.log (t.callsOf rs) schedule →
      step.record? = some record → record.number? = some number → j = i := by
    intro j step record hm written about
    refine eq_of_mem_claimed rs schedule new ?_ hi
    refine (numbered_stepsOf rs schedule on j).mem_claimed ?_ about
    exact List.mem_filterMap.2 ⟨step, mem_stepsOf.2 hm, written⟩
  generalize t.log (t.callsOf rs) schedule = log at own
  induction log with
  | nil => rfl
  | cons move log ih =>
    obtain ⟨j, step⟩ := move
    have rest := ih fun k other record hm => own k other record (List.mem_cons_of_mem _ hm)
    have first := own j step
    by_cases same : j = i
    · subst same
      rw [List.map_cons, records_cons, stepsOf_cons_self, records_cons, List.filter_append,
        List.filter_append, rest]
    · -- A step of another call is about another attempt, or about none.
      have elsewhere : step.record?.toList.filter (·.number? = some number) = [] := by
        refine List.filter_eq_nil_iff.2 fun record hr about => same ?_
        exact first record (List.mem_cons_self ..) (by simpa using hr) (by simpa using about)
      have skipped : stepsOf i ((j, step) :: log) = stepsOf i log := by
        simp [stepsOf, same]
      rw [List.map_cons, records_cons, List.filter_append, elsewhere, skipped, rest,
        List.nil_append]

/-- Every call has ended. -/
def AllEnded {α : Type} (turns : List (Turn α)) : Prop := ∀ turn ∈ turns, turn.value?.isSome = true

/-- A call that has ended has handed over every request that it has shown. -/
theorem numbered_of_ended (on : t.chain.tracing = .on redact)
    (ended : AllEnded (t.follow (t.callsOf rs) schedule).1) {i : Nat} (hi : i < rs.length) :
    Chain.Numbered true (stepsOf i (t.log (t.callsOf rs) schedule)) := by
  have turn := getElem?_callsOf (t := t) (List.getElem?_eq_getElem hi)
  obtain ⟨left, hl, -, -⟩ := follow_path (t := t) schedule turn
  obtain ⟨value, hv⟩ := Option.isSome_iff_exists.1 (ended left (List.mem_of_getElem? hl))
  exact (Chain.tells_of_ends (follow_ends turn hl hv)).numbered on

/-- How many requests are shown, and how many are handed over, by all calls together. -/
theorem length_opened_follow :
    (opened (records ((t.log (t.callsOf rs) schedule).map (·.2)))).length =
        ((List.range rs.length).map fun i =>
          (opened (records (stepsOf i (t.log (t.callsOf rs) schedule)))).length).sum ∧
      (requests ((t.log (t.callsOf rs) schedule).map (·.2))).length =
        ((List.range rs.length).map fun i =>
          (requests (stepsOf i (t.log (t.callsOf rs) schedule))).length).sum := by
  have handed := filterMap_perm (t.lt_of_mem_log rs schedule) Step.request?
  constructor
  · rw [(opened_perm rs schedule).length_eq, List.length_flatMap]
  · rw [requests, handed.length_eq, List.length_flatMap]
    rfl

/-- No request is handed over before it is shown. -/
theorem requests_le_opened (on : t.chain.tracing = .on redact) :
    (requests ((t.log (t.callsOf rs) schedule).map (·.2))).length ≤
      (opened (records ((t.log (t.callsOf rs) schedule).map (·.2)))).length := by
  obtain ⟨shows, hands⟩ := length_opened_follow (t := t) rs schedule
  rw [shows, hands]
  exact List.sum_le_sum fun i _ => (numbered_stepsOf rs schedule on i).shown

theorem requests_eq_opened (on : t.chain.tracing = .on redact)
    (ended : AllEnded (t.follow (t.callsOf rs) schedule).1) :
    (requests ((t.log (t.callsOf rs) schedule).map (·.2))).length =
      (opened (records ((t.log (t.callsOf rs) schedule).map (·.2)))).length := by
  obtain ⟨shows, hands⟩ := length_opened_follow (t := t) rs schedule
  rw [shows, hands]
  refine congrArg List.sum (List.map_congr_left fun i hi => ?_)
  exact (numbered_of_ended rs schedule on ended (List.mem_range.1 hi)).handed rfl

/-- What the trace of many calls says of their attempts. -/
structure AccountLaw (t : Transport (List Request × σ)) (redact : Bool) (rs : List Request)
    (schedule : List Nat) (tracer : Tracer) : Prop where
  /-- Of an attempt that is over, the trace says what its answer makes it say and no more. -/
  told : ∀ i r number handed answer o, rs[i]? = some r →
    t.chain.Finished (t.chain.stamped r) (stepsOf i (t.log (t.callsOf rs) schedule)) number handed
      answer o →
    ∃ q, t.chain.signed (t.chain.stamped r) = .ok q ∧ handed = Compression.advertise q ∧
      t.chain.Told redact q number answer o (tracer.sink.records.filter (·.number? = some number))
  /-- A call that has ended has finished every attempt that it began. -/
  finished : ∀ i r left value, rs[i]? = some r →
    (t.follow (t.callsOf rs) schedule).1[i]? = some left → left.value? = some value →
    ∀ number ∈ claimed (stepsOf i (t.log (t.callsOf rs) schedule)), ∃ handed answer o,
      t.chain.Finished (t.chain.stamped r) (stepsOf i (t.log (t.callsOf rs) schedule)) number handed
        answer o
  /-- No request is received before it is shown. -/
  received : (t.follow (t.callsOf rs) schedule).2.wire.1.length ≤
    (opened tracer.sink.records).length
  /-- Each request that was shown has been received, once all calls have ended. -/
  ended : AllEnded (t.follow (t.callsOf rs) schedule).1 →
    (t.follow (t.callsOf rs) schedule).2.wire.1.length = (opened tracer.sink.records).length

/-- **The account of every attempt.** Calls take turns on a transport with a new trace, on any
connection and with any budget. Whatever an attempt that is over brought, the trace says of it
exactly this, in this order: its request and why it failed; or its request and its response; or, if
the body of the response could not be read for the dump, its request only. The requests in the trace
are as many as the connection received, once all calls have ended. -/
theorem accountLaw_follow {connection : Connection σ} {t : Transport (List Request × σ)}
    (on : t.chain.tracing = .on redact) (new : t.tracer = some { sink := .empty })
    (link : t.connection = connection.recorded) (unused : t.wire.1 = []) :
    ∃ tracer, (t.follow (t.callsOf rs) schedule).2.tracer = some tracer ∧
      AccountLaw t redact rs schedule tracer := by
  obtain ⟨tracer, ht, kept, -⟩ := exists_tracer_follow new (t.callsOf rs) schedule
  have received := received_follow link (t.callsOf rs) schedule
  rw [unused, List.nil_append] at received
  refine ⟨tracer, ht, ⟨?_, ?_, ?_, ?_⟩⟩
  · intro i r number handed answer o hr finished
    obtain ⟨left, -, path, -⟩ := follow_path (t := t) schedule (getElem?_callsOf hr)
    have once := (nodup_claimed rs schedule new).sublist
      ((stepsOf_sublist i _).filterMap Step.claimed?)
    rw [kept, filter_records_stepsOf rs schedule on new finished.mem_claimed]
    exact Chain.told_of_finished on (Chain.tells_of_path path) once finished
  · intro i r left value hr hl hv
    exact (Chain.tells_of_ends (follow_ends (getElem?_callsOf hr) hl hv)).exists_finished on
  · rw [received, kept]
    exact requests_le_opened rs schedule on
  · rw [received, kept]
    exact requests_eq_opened rs schedule on

/-- The transport that repeats an attempt once, on a connection that also keeps what it receives. -/
def recording : Transport (List Request × Nat) where
  chain := patient.chain
  security := .tlsOnly
  connection := slowOnce.recorded
  wire := ([], 0)
  tracer := some { sink := .empty }

/-- Of a timeout and the answer after it, each has its account. -/
theorem accountLaw_recording :
    ∃ tracer, (recording.follow (recording.callsOf [homeRequest])
        (List.replicate 32 0)).2.tracer = some tracer ∧
      (opened tracer.sink.records).length = 2 ∧
      ∀ number ∈ [1, 2], ∃ q answer o, recording.chain.Told true q number answer o
        (tracer.sink.records.filter (·.number? = some number)) := by
  obtain ⟨tracer, ht, law⟩ := accountLaw_follow [homeRequest] (List.replicate 32 0)
    (t := recording) rfl rfl rfl rfl
  have ended : AllEnded (recording.follow (recording.callsOf [homeRequest])
      (List.replicate 32 0)).1 := by
    intro turn hturn
    obtain rfl := List.mem_singleton.1 hturn
    rfl
  refine ⟨tracer, ht, (law.ended ended).symm, ?_⟩
  intro number hn
  obtain ⟨handed, answer, o, finished⟩ := law.finished 0 homeRequest _ _ rfl rfl rfl number hn
  obtain ⟨q, -, -, told⟩ := law.told 0 homeRequest number handed answer o rfl finished
  exact ⟨q, answer, o, told⟩

/-- A response whose body breaks off at once. -/
def cutOff : Response where
  status := .ok
  body := [.failed (.io .connectionReset)]

/-- A transport that traces, repeats nothing and is answered so. -/
def losing : Transport (List Request × Unit) where
  chain := { patient.chain with retry := { maxRetries := 0 } }
  security := .tlsOnly
  connection := Connection.recorded
    { unready := fun _ => none, answer := fun _ s => (⟨.none, .ok cutOff⟩, s) }
  wire := ([], ())
  tracer := some { sink := .empty }

/-- The connection returned a response and the attempt is over, but nothing that the trace says
comes after the request. -/
theorem follow_losing_untold :
    AllEnded (losing.follow (losing.callsOf [homeRequest]) (List.replicate 8 0)).1 ∧
      answers (stepsOf 0 (losing.log (losing.callsOf [homeRequest]) (List.replicate 8 0))) =
        [⟨.none, .ok cutOff⟩] ∧
      opened (losing.follow (losing.callsOf [homeRequest]) (List.replicate 8 0)).2.kept = [1] ∧
      (losing.follow (losing.callsOf [homeRequest]) (List.replicate 8 0)).2.kept.filterMap
        Record.follows? = [] := by
  refine ⟨?_, rfl, rfl, rfl⟩
  intro turn hturn
  obtain rfl := List.mem_singleton.1 hturn
  rfl

end Transport

end Courier
