import Courier.Proofs.Transparency
import Courier.Proofs.Schedule
import Mathlib.Data.List.Flatten
import Mathlib.Data.List.Nodup

/-!
# Numbered attempts

Attempts of many calls claim their numbers from one counter and write to one trace, each claim and
each record in one piece. What a call has told of its attempts is a sequence of whole attempts and
the beginning of one (`Chain.Tells`); together with the counter this decides what the numbers in the
trace are, however the calls take turns (`numberingLaw_follow`).
-/
namespace Courier

/-! ## Numbers of steps and records -/

/-- The number that the step claimed. -/
def Step.claimed? : Step → Option Nat
  | ⟨.claim, number⟩ => some number
  | _ => none

/-- The numbers that some steps claimed, in order. -/
def claimed (steps : List Step) : List Nat := steps.filterMap Step.claimed?

namespace Record

/-- The number of the attempt whose request the record shows. -/
def opens? : Record → Option Nat
  | .block .request number _ => some number
  | _ => none

/-- The number of the attempt of which the record tells what came of it. -/
def follows? : Record → Option Nat
  | .block .response number _ => some number
  | .failed number _ => some number
  | .truncated number _ => some number
  | _ => none

/-- The number of the attempt that the record is about. -/
def number? (record : Record) : Option Nat := record.opens? <|> record.follows?

theorem number?_eq_some {record : Record} {number : Nat} :
    record.number? = some number ↔
      record.opens? = some number ∨ record.follows? = some number := by
  cases record with
  | block kind other dump => cases kind <;> simp [number?, opens?, follows?]
  | _ => simp [number?, opens?, follows?]

end Record

/-- The numbers of the requests that some records show, in order. -/
def opened (rs : List Record) : List Nat := rs.filterMap Record.opens?

@[simp] theorem claimed_nil : claimed [] = [] := rfl

@[simp] theorem claimed_cons (step : Step) (rest : List Step) :
    claimed (step :: rest) = step.claimed?.toList ++ claimed rest := by
  cases h : step.claimed? <;> simp [claimed, h]

@[simp] theorem claimed_append (first rest : List Step) :
    claimed (first ++ rest) = claimed first ++ claimed rest := List.filterMap_append

@[simp] theorem opened_nil : opened [] = [] := rfl

@[simp] theorem opened_cons (record : Record) (rest : List Record) :
    opened (record :: rest) = record.opens?.toList ++ opened rest := by
  cases h : record.opens? <;> simp [opened, h]

@[simp] theorem opened_append (first rest : List Record) :
    opened (first ++ rest) = opened first ++ opened rest := List.filterMap_append

@[simp] theorem claimed_writing (rs : List Record) : claimed (rs.map Step.writing) = [] := by
  induction rs with
  | nil => rfl
  | cons record rs ih => exact ih

/-- Whatever a record tells of an attempt comes after the block of its request. -/
def InOrder (rs : List Record) : Prop :=
  ∀ before record later number, rs = before ++ record :: later →
    record.follows? = some number → number ∈ opened before

theorem InOrder.append {first rest : List Record} (h : InOrder first) (k : InOrder rest) :
    InOrder (first ++ rest) := by
  intro before record later number split follows
  rcases List.append_eq_append_iff.1 split with ⟨more, rfl, same⟩ | ⟨more, same, tail⟩
  · rw [opened_append]
    exact List.mem_append_right _ (k more record later number same follows)
  · cases more with
    | nil =>
      have early := k [] record later number tail.symm follows
      cases early
    | cons other more =>
      obtain ⟨rfl, rfl⟩ := List.cons.inj tail
      exact h before record more number same follows

theorem inOrder_nil : InOrder [] := by
  intro before record later number split
  simp at split

/-- What a record is about has been opened. -/
theorem InOrder.mem_opened {rs : List Record} (h : InOrder rs) {record : Record} {number : Nat}
    (hr : record ∈ rs) (about : record.number? = some number) : number ∈ opened rs := by
  obtain ⟨before, later, rfl⟩ := List.append_of_mem hr
  rcases Record.number?_eq_some.1 about with opens | follows
  · exact List.mem_filterMap.2 ⟨record, hr, opens⟩
  · rw [opened_append]
    exact List.mem_append_left _ (h before record later number rfl follows)

/-! ## What a call tells of its attempts -/

/-- The step neither claims a number nor hands over a request, and what it writes is not about an
attempt. -/
def Step.isSilent (step : Step) : Bool :=
  step.claimed?.isNone && step.request?.isNone && (step.record?.bind Record.number?).isNone

namespace Chain

/-- Steps that tell of the attempts to answer a request: whole attempts with silent steps around
them and, unless the call is closed, the beginning of an attempt at the end. -/
inductive Tells (c : Chain) (r : Request) (closed : Bool) : List Step → Prop where
  | nothing : Tells c r closed []
  | silent {step : Step} {rest : List Step} (h : step.isSilent = true)
      (more : Tells c r closed rest) : Tells c r closed (step :: rest)
  | whole {q : Request} (h : c.signed r = .ok q) (number : Nat) (answer : Answer)
      {rest : List Step} (more : Tells c r closed rest) :
      Tells c r closed (c.attemptSteps q number answer ++ rest)
  | beginning {q : Request} (h : c.signed r = .ok q) (number : Nat) (answer : Answer)
      {steps : List Step} (part : steps <+: c.attemptSteps q number answer)
      (unfinished : closed = false) : Tells c r closed steps

variable {c : Chain} {r : Request} {redact closed : Bool} {steps : List Step}

/-- Silent steps may come before anything. -/
theorem Tells.append_silent {first : List Step} (h : ∀ step ∈ first, step.isSilent = true)
    (more : c.Tells r closed steps) : c.Tells r closed (first ++ steps) := by
  induction first with
  | nil => exact more
  | cons step first ih =>
    refine .silent (h step (List.mem_cons_self ..)) (ih fun other ho => ?_)
    exact h other (List.mem_cons_of_mem _ ho)

theorem Tells.append_attempted {first : List Step} {o : Outcome} (h : c.Attempted r first o)
    (more : c.Tells r closed steps) : c.Tells r closed (first ++ steps) := by
  cases h with
  | unsigned => exact more
  | made hs number answer => exact .whole hs number answer more

theorem isSilent_noticeSteps {record : Record} (h : record.number? = none) :
    ∀ step ∈ c.noticeSteps record, step.isSilent = true := by
  intro step hs
  unfold noticeSteps at hs
  split at hs
  · cases hs
  · obtain rfl := List.mem_singleton.1 hs
    simp [Step.isSilent, Step.writing, Step.claimed?, Step.request?, Step.record?, h]

theorem isSilent_giveUpSteps (event : Event) :
    ∀ step ∈ c.giveUpSteps event, step.isSilent = true := by
  intro step hs
  rcases List.mem_cons.1 hs with rfl | noted
  · rfl
  · exact isSilent_noticeSteps rfl step noted

theorem isSilent_backOffSteps (left : Nat) (draw : Backoff.Draw) (event : Event) :
    ∀ step ∈ c.backOffSteps left draw event, step.isSilent = true := by
  intro step hs
  simp only [backOffSteps, List.mem_cons, List.mem_append, List.not_mem_nil, or_false] at hs
  rcases hs with rfl | rfl | noted | rfl
  · rfl
  · rfl
  · exact isSilent_noticeSteps rfl step noted
  · rfl

/-- A loop of attempts, and whatever silent steps come after it. -/
theorem Loop.tells {left : Nat} {o : Outcome} (h : c.Loop r left steps o) {rest : List Step}
    (quiet : ∀ step ∈ rest, step.isSilent = true) : c.Tells r true (steps ++ rest) := by
  have ends : c.Tells r true rest := by
    have none : c.Tells r true [] := .nothing
    simpa using Tells.append_silent quiet none
  induction h with
  | refused e => exact .silent rfl ends
  | settled ha _ => exact .silent rfl (.append_attempted ha ends)
  | exhausted ha late event =>
    rw [List.cons_append, List.append_assoc]
    exact .silent rfl (.append_attempted ha (.append_silent (isSilent_giveUpSteps event) ends))
  | again ha late draw event more ih =>
    rw [List.cons_append, List.append_assoc, List.append_assoc]
    exact .silent rfl
      (.append_attempted ha (.append_silent (isSilent_backOffSteps _ draw event) ih))

theorem tells_of_ends {value : Outcome} (h : (c.call r).Ends steps value) :
    c.Tells (c.stamped r) true steps := by
  obtain ⟨loop, o, hl, rfl, -⟩ := ends_call h
  refine hl.tells ?_
  intro step hs
  obtain ⟨event, -, rfl⟩ := List.mem_map.1 hs
  rfl

/-- What has been told up to some moment. -/
theorem Tells.upTo (h : c.Tells r closed steps) {first : List Step} (part : first <+: steps) :
    c.Tells r false first := by
  induction h generalizing first with
  | nothing =>
    rw [List.prefix_nil.1 part]
    exact .nothing
  | silent quiet more ih =>
    rcases List.prefix_cons_iff.1 part with rfl | ⟨rest, rfl, shorter⟩
    · exact .nothing
    · exact .silent quiet (ih shorter)
  | whole hs number answer more ih =>
    rcases List.prefix_or_prefix_of_prefix part (List.prefix_append _ _) with inside | ⟨rest, rfl⟩
    · exact .beginning hs number answer inside rfl
    · exact .whole hs number answer (ih ((List.prefix_append_right_inj _).1 part))
  | beginning hs number answer whole =>
    exact .beginning hs number answer (part.trans whole) rfl

/-- However far a call has come, it has told of its attempts in order. -/
theorem tells_of_path {d : Call Outcome} (h : (c.call r).Path steps d) :
    c.Tells (c.stamped r) false steps := by
  -- The grammar is about calls that end, so the path is led to an end of the call.
  obtain ⟨rest, value, hd⟩ := d.exists_ends
  exact (tells_of_ends (h.append hd)).upTo (List.prefix_append _ _)

/-! ## The numbers that a call tells -/

/-- The steps of a traced attempt after its claim. -/
def afterClaim (c : Chain) (redact : Bool) (q : Request) (number : Nat) (answer : Answer) :
    List Step :=
  .writing (.ofRequest redact number q) :: (c.exchangeSteps q answer ++
    (c.outcomeRecords number (c.received answer)).map .writing)

section Traced

theorem attemptSteps_on (on : c.tracing = .on redact) (q : Request) (number : Nat)
    (answer : Answer) :
    c.attemptSteps q number answer = ⟨.claim, number⟩ :: c.afterClaim redact q number answer := by
  simp [attemptSteps, on, afterClaim]

theorem about_outcomeRecords (number : Nat) (o : Outcome) :
    ∀ record ∈ c.outcomeRecords number o,
      record.opens? = none ∧ record.follows? = some number := by
  intro record hr
  unfold outcomeRecords at hr
  split at hr
  · obtain rfl := List.mem_singleton.1 hr
    exact ⟨rfl, rfl⟩
  · split at hr
    · cases hr
    · obtain rfl := List.mem_singleton.1 hr
      exact ⟨rfl, rfl⟩
    · simp only [List.mem_cons, List.not_mem_nil, or_false] at hr
      rcases hr with rfl | rfl
      · exact ⟨rfl, rfl⟩
      · exact ⟨rfl, rfl⟩

/-- A record about an attempt after the block of its request. -/
theorem inOrder_cons {number : Nat} {q : Request} {rs : List Record}
    (h : ∀ record ∈ rs, record.opens? = none ∧ record.follows? = some number) :
    InOrder (.ofRequest redact number q :: rs) := by
  intro before record later other split follows
  cases before with
  | nil =>
    obtain ⟨rfl, -⟩ := List.cons.inj split
    cases follows
  | cons first before =>
    obtain ⟨rfl, rfl⟩ := List.cons.inj split
    have same := (h record (by simp)).2
    rw [follows] at same
    cases same
    exact List.mem_cons_self ..

/-- What an attempt does after writing its request. -/
theorem views_afterRequest (q : Request) (number : Nat) (answer : Answer) :
    let rest := c.exchangeSteps q answer ++
      (c.outcomeRecords number (c.received answer)).map Step.writing
    claimed rest = [] ∧ requests rest = [Compression.advertise q] ∧
      records rest = c.outcomeRecords number (c.received answer) := by
  obtain ⟨quiet, -, -, writes⟩ := views_writing (c.outcomeRecords number (c.received answer))
  simp [exchangeSteps, quiet, writes, Step.claimed?, Step.request?, Step.record?, Step.pausing]

/-- What an attempt has told at some moment: nothing, its number, or its request and perhaps more
that is about it. -/
theorem cases_of_beginning (on : c.tracing = .on redact) {q : Request} {number : Nat}
    {answer : Answer} (part : steps <+: c.attemptSteps q number answer) :
    steps = [] ∨ steps = [⟨.claim, number⟩] ∨
      ∃ rest, steps = ⟨.claim, number⟩ :: .writing (.ofRequest redact number q) :: rest ∧
        claimed rest = [] ∧ (requests rest).length ≤ 1 ∧
        ∀ record ∈ records rest, record.opens? = none ∧ record.follows? = some number := by
  rw [attemptSteps_on on, afterClaim] at part
  rcases List.prefix_cons_iff.1 part with rfl | ⟨first, rfl, shorter⟩
  · exact .inl rfl
  rcases List.prefix_cons_iff.1 shorter with rfl | ⟨rest, rfl, tail⟩
  · exact .inr (.inl rfl)
  obtain ⟨noClaim, one, writes⟩ := views_afterRequest (c := c) q number answer
  refine .inr (.inr ⟨rest, rfl, ?_, ?_, ?_⟩)
  · have among := tail.filterMap Step.claimed?
    exact List.prefix_nil.1 (noClaim ▸ among)
  · have among := (tail.filterMap Step.request?).length_le
    rw [← requests, ← requests, one] at among
    exact among
  · intro record hr
    have among := (tail.filterMap Step.record?).subset hr
    rw [← records, writes] at among
    exact about_outcomeRecords number (c.received answer) record among

/-- How the numbers that some steps claim show in the records that they write. -/
structure Numbered (closed : Bool) (steps : List Step) : Prop where
  /-- Each number but perhaps the last has a request, in the order of the claims. -/
  begun : opened (records steps) <+: claimed steps
  ordered : InOrder (records steps)
  /-- No request is handed over before it is shown. -/
  shown : (requests steps).length ≤ (opened (records steps)).length
  /-- When the call is closed, each request that was shown has been handed over. -/
  handed : closed = true → (requests steps).length = (opened (records steps)).length

/-- What a record is about has been claimed. -/
theorem Numbered.mem_claimed {closed : Bool} (h : Numbered closed steps) {record : Record}
    {number : Nat} (hr : record ∈ records steps) (about : record.number? = some number) :
    number ∈ claimed steps :=
  h.begun.subset (h.ordered.mem_opened hr about)

theorem Numbered.append {closed : Bool} {first rest : List Step}
    (same : opened (records first) = claimed first) (ordered : InOrder (records first))
    (one : (requests first).length = (opened (records first)).length) (h : Numbered closed rest) :
    Numbered closed (first ++ rest) := by
  refine ⟨?_, ?_, ?_, ?_⟩
  · rw [records_append, opened_append, claimed_append, same]
    exact (List.prefix_append_right_inj _).2 h.begun
  · rw [records_append]
    exact ordered.append h.ordered
  · simp only [requests_append, records_append, opened_append, List.length_append, one]
    exact Nat.add_le_add_left h.shown _
  · intro ends
    simp only [requests_append, records_append, opened_append, List.length_append, one,
      h.handed ends]

theorem views_of_isSilent {step : Step} (h : step.isSilent = true) :
    claimed [step] = [] ∧ requests [step] = [] ∧
      ∀ record ∈ records [step], record.number? = none := by
  simp only [Step.isSilent, Bool.and_eq_true, Option.isNone_iff_eq_none] at h
  obtain ⟨⟨noClaim, noRequest⟩, noRecord⟩ := h
  refine ⟨by simp [noClaim], by simp [noRequest], ?_⟩
  intro record hr
  have written : step.record? = some record := by simpa using hr
  simpa [written] using noRecord

/-- Records that are about no attempt show no request, and nothing that would have to follow. -/
theorem quiet_of_unnumbered {rs : List Record} (h : ∀ record ∈ rs, record.number? = none) :
    opened rs = [] ∧ InOrder rs := by
  have unnumbered : ∀ record ∈ rs, ∀ number,
      ¬ (record.opens? = some number ∨ record.follows? = some number) := by
    intro record hr number about
    rw [← Record.number?_eq_some, h record hr] at about
    cases about
  refine ⟨List.filterMap_eq_nil_iff.2 fun record hr => ?_, ?_⟩
  · refine Option.eq_none_iff_forall_ne_some.2 fun number opens => ?_
    exact unnumbered record hr number (.inl opens)
  · rintro before record later number rfl follows
    exact (unnumbered record (by simp) number (.inr follows)).elim

theorem views_attemptSteps_on (on : c.tracing = .on redact) (q : Request) (number : Nat)
    (answer : Answer) :
    claimed (c.attemptSteps q number answer) = [number] ∧
      (requests (c.attemptSteps q number answer)).length = 1 ∧
      opened (records (c.attemptSteps q number answer)) = [number] ∧
      InOrder (records (c.attemptSteps q number answer)) := by
  obtain ⟨noClaim, one, -⟩ := views_afterRequest (c := c) q number answer
  have about := about_outcomeRecords (c := c) number (c.received answer)
  have none : opened (c.outcomeRecords number (c.received answer)) = [] :=
    List.filterMap_eq_nil_iff.2 fun record hr => (about record hr).1
  refine ⟨?_, ?_, ?_, ?_⟩
  · rw [attemptSteps_on on, afterClaim, claimed_cons, claimed_cons, noClaim]
    rfl
  · rw [attemptSteps_on on, afterClaim, requests_cons, requests_cons, one]
    rfl
  · rw [records_attemptSteps on, opened_cons, none]
    rfl
  · rw [records_attemptSteps on]
    exact inOrder_cons about

/-- Attempts show the numbers they claim, each before anything else is said of it. -/
theorem Tells.numbered (on : c.tracing = .on redact) (h : c.Tells r closed steps) :
    Numbered closed steps := by
  induction h with
  | nothing => exact ⟨List.prefix_rfl, inOrder_nil, Nat.le_refl _, fun _ => rfl⟩
  | @silent step rest silent more ih =>
    obtain ⟨noClaim, noRequest, unnumbered⟩ := views_of_isSilent silent
    obtain ⟨none, ordered⟩ := quiet_of_unnumbered unnumbered
    have same : opened (records [step]) = claimed [step] := by rw [none, noClaim]
    have one : (requests [step]).length = (opened (records [step])).length := by
      rw [none, noRequest]
      rfl
    exact .append same ordered one ih
  | whole hs number answer more ih =>
    obtain ⟨claims, one, shows, ordered⟩ := views_attemptSteps_on on _ number answer
    exact ih.append (by rw [shows, claims]) ordered (by rw [shows, one]; rfl)
  | beginning hs number answer part unfinished =>
    have never : closed ≠ true := by simp [unfinished]
    obtain rfl | rfl | ⟨rest, rfl, noClaim, one, about⟩ := cases_of_beginning on part
    · exact ⟨List.prefix_rfl, inOrder_nil, Nat.le_refl _, fun ends => (never ends).elim⟩
    · exact ⟨List.nil_prefix, inOrder_nil, Nat.le_refl _, fun ends => (never ends).elim⟩
    · have none : opened (records rest) = [] :=
        List.filterMap_eq_nil_iff.2 fun record hr => (about record hr).1
      refine ⟨?_, inOrder_cons about, ?_, fun ends => (never ends).elim⟩
      · simp [Step.record?, Step.claimed?, Step.writing, Record.ofRequest, Record.opens?, none,
          noClaim]
      · simpa [Step.record?, Step.request?, Step.writing, Record.ofRequest, Record.opens?, none]
          using one

end Traced

end Chain

/-! ## The numbers of all calls -/

/-- What the trace of many calls says of their numbers. -/
structure NumberingLaw (steps : List Step) (tracer : Tracer) : Prop where
  /-- The trace is made of whole records, each of them written by one step. -/
  whole : tracer.sink.contents = String.join ((records steps).map Record.text) ∧
    tracer.sink.records = records steps
  /-- No two requests have the same number. -/
  distinct : (opened tracer.sink.records).Nodup
  /-- The numbers are claimed one after another. -/
  counted : claimed steps = List.range' 1 tracer.counter
  /-- When every attempt has shown its request, the numbers are those up to the counter. -/
  complete : (∀ number ∈ claimed steps, number ∈ opened tracer.sink.records) →
    (opened tracer.sink.records).Perm (List.range' 1 tracer.counter)
  /-- Everything that is said of an attempt comes after its request. -/
  ordered : InOrder tracer.sink.records

namespace Transport

variable {σ α : Type} {t : Transport σ}

/-- The numbers that the tracer has given away. -/
def given (t : Transport σ) : List Nat :=
  match t.tracer with
  | none => []
  | some tracer => List.range' 1 tracer.counter

theorem given_perform (t : Transport σ) (a : Action) (h : t.Keeps) :
    (t.perform a).2.given = t.given ++ (Step.claimed? ⟨a, (t.perform a).1⟩).toList := by
  obtain ⟨tracer, rs, ht, hs⟩ := h
  cases a with
  | claim =>
    simp [perform, given, ht, Tracer.claim, Step.claimed?, List.range'_1_concat, Nat.add_comm]
  | write record => simp [perform, given, ht, noting, Step.claimed?]
  | _ => simp [perform, given, ht, noting, Step.claimed?]

/-- The numbers that the moves along a schedule claim are given away one after another. -/
theorem given_follow (h : t.Keeps) (turns : List (Turn α)) (schedule : List Nat) :
    (t.follow turns schedule).2.given =
      t.given ++ claimed ((t.log turns schedule).map (·.2)) :=
  view_follow given (fun t a h => (keeps_perform t a h).1) given_perform h turns schedule

theorem keeps_follow (h : t.Keeps) (turns : List (Turn α)) (schedule : List Nat) :
    (t.follow turns schedule).2.Keeps := by
  induction schedule generalizing t turns with
  | nil => exact h
  | cons i schedule ih =>
    exact ih (moveAt_keeps (fun u a hu => (keeps_perform u a hu).1) h turns i) _

variable {redact : Bool} (rs : List Request) (schedule : List Nat)

/-- Each call shows the numbers that it claims. -/
theorem numbered_stepsOf (on : t.chain.tracing = .on redact) (i : Nat) :
    Chain.Numbered false (stepsOf i (t.log (t.callsOf rs) schedule)) := by
  cases hr : rs[i]? with
  | some r =>
    obtain ⟨left, -, path, -⟩ := follow_path (t := t) schedule (getElem?_callsOf hr)
    exact (Chain.tells_of_path path).numbered on
  | none =>
    have nothing : stepsOf i (t.log (t.callsOf rs) schedule) = [] := by
      refine List.eq_nil_iff_forall_not_mem.2 fun step hs => ?_
      have inside := t.lt_of_mem_log rs schedule _ (mem_stepsOf.1 hs)
      exact absurd (List.getElem?_eq_none_iff.1 hr) (Nat.not_le.2 inside)
    rw [nothing]
    exact (Chain.Tells.nothing (c := t.chain) (r := homeRequest)).numbered on

/-- The requests that all calls show, call by call. -/
theorem opened_perm :
    (opened (records ((t.log (t.callsOf rs) schedule).map (·.2)))).Perm
      ((List.range rs.length).flatMap fun i =>
        opened (records (stepsOf i (t.log (t.callsOf rs) schedule)))) := by
  have written := filterMap_perm (t.lt_of_mem_log rs schedule) Step.record?
  have each := written.filterMap Record.opens?
  rwa [List.filterMap_flatMap] at each

/-- No request is shown under a number that was not claimed, or more often than that. -/
theorem opened_subperm (on : t.chain.tracing = .on redact) :
    (opened (records ((t.log (t.callsOf rs) schedule).map (·.2)))).Subperm
      (claimed ((t.log (t.callsOf rs) schedule).map (·.2))) := by
  have claims := filterMap_perm (t.lt_of_mem_log rs schedule) Step.claimed?
  have each : ((List.range rs.length).flatMap fun i =>
        opened (records (stepsOf i (t.log (t.callsOf rs) schedule)))).Sublist
      ((List.range rs.length).flatMap fun i =>
        claimed (stepsOf i (t.log (t.callsOf rs) schedule))) :=
    .flatMap_right _ fun i _ => (numbered_stepsOf rs schedule on i).begun.sublist
  exact (opened_perm rs schedule).subperm.trans (each.subperm.trans claims.symm.subperm)

/-- What is said of an attempt, by whichever call, comes after the request of the attempt. -/
theorem inOrder_follow (on : t.chain.tracing = .on redact) :
    InOrder (records ((t.log (t.callsOf rs) schedule).map (·.2))) := by
  intro before record later number split follows
  rw [records, List.filterMap_map] at split
  obtain ⟨early, late, same, rfl, next⟩ := List.filterMap_eq_append_iff.1 split
  obtain ⟨quiet, ⟨i, step⟩, rest, rfl, none, written, -⟩ := List.filterMap_eq_cons_iff.1 next
  -- The call that wrote the record has shown the request before, and so have all calls together.
  have own := (numbered_stepsOf rs schedule on i).ordered
    (records (stepsOf i (early ++ quiet))) record (records (stepsOf i rest)) number
  have shown : number ∈ opened (records (stepsOf i (early ++ quiet))) := by
    refine own ?_ follows
    have recorded : step.record? = some record := written
    rw [same, ← List.append_assoc, stepsOf_append, stepsOf_cons_self, records_append, records_cons,
      recorded]
    rfl
  have among := ((stepsOf_sublist i (early ++ quiet)).filterMap Step.record?).filterMap
    Record.opens? |>.subset shown
  rw [List.filterMap_map, List.filterMap_append, List.filterMap_eq_nil_iff.2 none,
    List.append_nil] at among
  exact among

/-- A new trace has what the moves wrote, and has given away the numbers that they claimed. -/
theorem exists_tracer_follow (new : t.tracer = some { sink := .empty }) (turns : List (Turn α))
    (schedule : List Nat) :
    ∃ tracer, (t.follow turns schedule).2.tracer = some tracer ∧
      tracer.sink.records = records ((t.log turns schedule).map (·.2)) ∧
      List.range' 1 tracer.counter = claimed ((t.log turns schedule).map (·.2)) := by
  have keeps : t.Keeps := ⟨_, [], new, rfl⟩
  obtain ⟨tracer, _, ht, -⟩ := keeps_follow keeps turns schedule
  refine ⟨tracer, ht, ?_, ?_⟩
  · have kept := kept_follow keeps turns schedule
    rw [Transport.kept, Transport.kept, ht, new] at kept
    exact kept
  · have counted := given_follow keeps turns schedule
    rw [given, given, ht, new] at counted
    exact counted

/-- **Numbers in a trace.** However many calls take turns on a transport with a new trace, and
wherever they are: the trace is made of whole records; no two requests in it have the same number;
once every attempt has shown its request, the numbers are those from one to the number of traced
requests; and whatever is said of an attempt comes after its request. -/
theorem numberingLaw_follow (on : t.chain.tracing = .on redact)
    (new : t.tracer = some { sink := .empty }) :
    ∃ tracer, (t.follow (t.callsOf rs) schedule).2.tracer = some tracer ∧
      NumberingLaw ((t.log (t.callsOf rs) schedule).map (·.2)) tracer := by
  obtain ⟨tracer, ht, kept, counted⟩ := exists_tracer_follow new (t.callsOf rs) schedule
  -- Each number shown is one of those given away, and those are distinct.
  have claims : (List.range' 1 tracer.counter).Nodup := List.nodup_range'
  have among := opened_subperm rs schedule on
  rw [← counted, ← kept] at among
  obtain ⟨shown, perm, sub⟩ := among
  have distinct := perm.nodup_iff.1 (claims.sublist sub)
  refine ⟨tracer, ht, ⟨⟨by rw [Sink.contents, kept], kept⟩, distinct, counted.symm, ?_, ?_⟩⟩
  · intro complete
    rw [← counted] at complete
    refine (List.perm_ext_iff_of_nodup distinct claims).2 fun number => ⟨?_, complete number⟩
    exact fun h => sub.subset (perm.symm.subset h)
  · rw [kept]
    exact inOrder_follow rs schedule on

/-- The second call is faster and shows its request first; both numbers are there. -/
theorem numberingLaw_overtaken :
    ∃ tracer, (patient.follow (patient.callsOf [homeRequest, homeRequest])
        [0, 0, 1, 1, 1, 0]).2.tracer = some tracer ∧
      opened tracer.sink.records = [2, 1] ∧
      (opened tracer.sink.records).Perm (List.range' 1 tracer.counter) := by
  obtain ⟨tracer, ht, law⟩ := numberingLaw_follow (t := patient)
    [homeRequest, homeRequest] [0, 0, 1, 1, 1, 0] rfl rfl
  have shown : opened tracer.sink.records = [2, 1] := by
    cases ht
    rfl
  refine ⟨tracer, ht, shown, law.complete fun number hn => ?_⟩
  rw [shown]
  have claims : number ∈ [1, 2] := hn
  exact (List.Perm.swap 2 1 []).subset claims

end Transport
end Courier
