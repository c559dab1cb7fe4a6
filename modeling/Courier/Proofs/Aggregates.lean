import Courier.Proofs.Statuses

/-!
# Aggregates

Whatever goes wrong reaches the caller of a client as one aggregate, which keeps what the failure
told: its status, its entries one by one, its message, whether it was a timeout, and the failure
itself. So the result of an operation says how its attempts ended: a document exactly if they ended
in a success with one, and otherwise an aggregate (`executionLaw_of_off`).
-/
namespace Courier

/-! ## How attempts end -/

namespace Chain

variable {c : Chain} {r : Request} {steps : List Step}

/-- The last answer of the steps came in time and is the response. -/
def EndsIn (c : Chain) (steps : List Step) (response : Response) : Prop :=
  ∃ answer, (answers steps).getLast? = some answer ∧ c.received answer = .ok response

/-- No answer of the steps is a page of an intermediary. -/
def NoPages (steps : List Step) : Prop :=
  ∀ answer ∈ answers steps, ∀ page, answer.outcome = .ok page → page.headers.isHtml = false

theorem observed_off (off : c.tracing = .off) (answer : Answer) :
    c.observed answer = c.received answer := by
  rw [observed, off]

/-- Attempts that end in a response could be signed, and the response is the last answer. -/
theorem Loop.endsIn_of_ok (off : c.tracing = .off) {left : Nat} {response : Response} {o : Outcome}
    (h : c.Loop r left steps o) (ok : o = .ok response) :
    (∃ q, c.signed r = .ok q) ∧ c.EndsIn steps response := by
  induction h with
  | refused e => cases ok
  | exhausted _ _ _ => cases ok
  | settled ha _ =>
    cases ha with
    | unsigned _ => cases ok
    | @made q hq number answer =>
      refine ⟨⟨q, hq⟩, answer, ?_, by rw [← observed_off off, ok]⟩
      rw [answers_cons, (views_attemptSteps q number answer).2.1]
      rfl
  | again _ _ _ _ _ ih =>
    obtain ⟨signs, answer, last, received⟩ := ih ok
    refine ⟨signs, answer, ?_, received⟩
    rw [answers_cons, answers_append, answers_append, List.getLast?_append, List.getLast?_append,
      List.getLast?_append, last]
    rfl

/-- Settling an outcome asks nothing of the connection. -/
theorem answers_settled (loop : List Step) (o : Outcome) :
    answers (loop ++ (c.settledEvents (c.stamped r) o).map .logging) = answers loop := by
  rw [answers_append, (views_logging _).2.1, List.append_nil]

/-- What a call brings without a trace, where no page is among the answers: the response that its
attempts end in, if they end in one. -/
theorem eq_ok_iff_of_ends (off : c.tracing = .off) {value : Outcome}
    (h : (c.call r).Ends steps value) (plain : NoPages steps) {response : Response} :
    value = .ok response ↔ c.EndsIn steps response := by
  obtain ⟨loop, o, hl, rfl, rfl⟩ := ends_call h
  rw [settledOutcome_off off]
  have same := answers_settled (c := c) (r := r) loop o
  rw [NoPages, same] at plain
  -- What the attempts end in is no page, so it is passed on as it is.
  have passed : (ProxyPage.normalize (c.stamped r) o).1 = o := by
    cases o with
    | error e => rfl
    | ok answered =>
      obtain ⟨-, answer, last, received⟩ := hl.endsIn_of_ok off rfl
      rw [Chain.received] at received
      cases brings : answer.within c.timeout with
      | error e =>
        rw [brings] at received
        cases received
      | ok page =>
        rw [brings] at received
        cases received
        have outcome : answer.outcome = .ok page := by
          rw [Answer.within] at brings
          split at brings
          · cases brings
          · exact brings
        have other := plain answer (List.mem_of_getLast? last) page outcome
        rw [ProxyPage.normalize, if_neg (by simp [(ProxyPage.expand_head _ page).2, other])]
  rw [passed, EndsIn, same]
  constructor
  · exact fun ok => (hl.endsIn_of_ok off ok).2
  · rintro ⟨answer, last, received⟩
    exact hl.eq_ok_of_answer (List.mem_of_getLast? last) (by rw [observed_off off, received])

/-- Attempts that end in a response could be signed. -/
theorem signed_of_endsIn (off : c.tracing = .off) {value : Outcome}
    (h : (c.call r).Ends steps value) {response : Response} (ends : c.EndsIn steps response) :
    ∃ q, c.signed (c.stamped r) = .ok q := by
  obtain ⟨loop, o, hl, rfl, -⟩ := ends_call h
  obtain ⟨answer, last, received⟩ := ends
  rw [answers_settled] at last
  exact (hl.endsIn_of_ok off (hl.eq_ok_of_answer (List.mem_of_getLast? last)
    (by rw [observed_off off, received]))).1

end Chain

/-! ## What is read of a response -/

namespace Reply

variable {r : Reply}

/-- A document is read from a success that carries it, and from nothing else. -/
theorem json_eq_ok_iff {v : Json} :
    r.json = .ok v ↔ r.response.status.isSuccess = true ∧ ∃ bytes,
      r.response.body.Carries r.maxBodySize bytes ∧ Json.parse? bytes = some v := by
  cases success : r.response.status.isSuccess with
  | false =>
    obtain ⟨e, failed⟩ := exists_checkedBytes_eq_error success
    simp [json_of_error failed]
  | true =>
    rw [json, checkedBytes_of_isSuccess success, bytes]
    simp only [true_and, ← Body.readLimited_eq_ok_iff]
    cases Body.readLimited r.maxBodySize r.response.body with
    | error e => simp
    | ok bytes =>
      simp only [Except.ok.injEq, exists_eq_left']
      cases Json.parse? bytes <;> simp

/-- What a body carries decides what a failed status is told with. -/
theorem json_of_carries (failed : r.response.status.isSuccess = false) {bytes : Bytes}
    (carries : r.response.body.Carries r.maxBodySize bytes) :
    r.json = .error (r.rejection bytes) := by
  have read : r.bytes = .ok bytes := Body.readLimited_eq_ok_iff.2 carries
  refine json_of_error ?_
  rw [checkedBytes, if_neg (by simp [failed]), read]

end Reply

/-! ## Aggregates of failures -/

namespace Api

/-- The item tells the entry. -/
structure Item.Shows (i : Item) (entry : Entry) : Prop where
  code : i.code = some entry.code
  message : i.message = entry.message
  fields : i.fields = entry.fields.getD []

/-- What an aggregate keeps of the failure it is made of. -/
structure AggregateLaw (f : Failure) (e : ApiError) : Prop where
  items : e.items ≠ []
  timeout : e.isTimeout = f.isTimeout
  failure : e.failure? = some f
  /-- The status is that of the response, which two kinds of failure know. -/
  status : ∀ s, e.status = some s ↔ (∃ envelope, f = .api s envelope) ∨
    ∃ preview contentType, f = .httpStatus s preview contentType
  /-- There is an item for each entry, in order. -/
  entries : ∀ s envelope, f = .api s envelope → envelope.errors ≠ [] →
    List.Forall₂ Item.Shows e.items envelope.errors
  /-- Without entries there is one item, with the message of the failure unless an envelope was
  empty. -/
  single : (∀ s envelope, f = .api s envelope → envelope.errors = []) →
    ∃ message, e.items = [⟨none, message, []⟩] ∧
      ((∀ s envelope, f ≠ .api s envelope) → message = f.message)

namespace ApiError

theorem status_ofFailure_eq_some_iff {f : Failure} {s : Status} :
    (ofFailure f).status = some s ↔ (∃ envelope, f = .api s envelope) ∨
      ∃ preview contentType, f = .httpStatus s preview contentType := by
  rw [status_ofFailure]
  cases f <;> simp [Failure.status?]

theorem items_ofFailure_api (s : Status) (envelope : Envelope) :
    (ofFailure (.api s envelope)).items = orUnknown (envelope.errors.map Item.ofEntry) := rfl

theorem items_ofFailure {f : Failure} (other : ∀ s envelope, f ≠ .api s envelope) :
    (ofFailure f).items = [⟨none, f.message, []⟩] := by
  cases f with
  | api s envelope => exact absurd rfl (other s envelope)
  | _ => rfl

theorem aggregateLaw_ofFailure (f : Failure) : AggregateLaw f (ofFailure f) where
  items := (ofFailure f).nonempty
  timeout := isTimeout_ofFailure f
  failure := failure?_ofFailure f
  status _ := status_ofFailure_eq_some_iff
  entries := by
    rintro s envelope rfl some
    rw [items_ofFailure_api, orUnknown, if_neg (by simpa using some), List.forall₂_map_left_iff,
      List.forall₂_same]
    exact fun entry _ => ⟨rfl, rfl, rfl⟩
  single := by
    intro empty
    by_cases kind : ∃ s envelope, f = .api s envelope
    · obtain ⟨s, envelope, rfl⟩ := kind
      refine ⟨"unknown error", ?_, fun other => absurd rfl (other s envelope)⟩
      rw [items_ofFailure_api, empty s envelope rfl]
      rfl
    · have other : ∀ s envelope, f ≠ .api s envelope := by
        intro s envelope same
        exact kind ⟨s, envelope, same⟩
      exact ⟨f.message, items_ofFailure other, fun _ => rfl⟩

end ApiError

/-! ## Results of operations -/

namespace Client

variable {σ : Type}

/-- What a caller gets of an operation, by how the attempts of its request ended. -/
structure ResultLaw (c : Chain) (r : Request) (steps : List Step) (result : Except ApiError Json) :
    Prop where
  /-- A document comes from a success that carries one within the limit, and from nothing else. -/
  decoded : ∀ v, result = .ok v ↔ (∃ q, c.signed (c.stamped r) = .ok q) ∧
    ∃ response bytes, c.EndsIn steps response ∧ response.status.isSuccess = true ∧
      response.body.Carries c.maxBodySize bytes ∧ Json.parse? bytes = some v
  /-- A failed status with an envelope is told with an item for each entry. -/
  rejected : ∀ response bytes envelope,
    c.EndsIn steps response → response.status.isSuccess = false →
    response.body.Carries c.maxBodySize bytes → Envelope.parse? bytes = some envelope →
    ∃ e, result = .error e ∧ e.status = some response.status ∧ envelope.errors ≠ [] ∧
      List.Forall₂ Item.Shows e.items envelope.errors ∧
      e.failure? = some (.api response.status envelope) ∧ e.isTimeout = false
  /-- Any other is told with one item. -/
  dismissed : ∀ response bytes, c.EndsIn steps response → response.status.isSuccess = false →
    response.body.Carries c.maxBodySize bytes → Envelope.parse? bytes = none →
    ∃ e message, result = .error e ∧ e.status = some response.status ∧
      e.items = [⟨none, message, []⟩] ∧ e.isTimeout = false
  /-- Every error is the aggregate of a failure. -/
  aggregate : ∀ e, result = .error e → ∃ f, AggregateLaw f e

/-- What a client makes of what its transport brings. -/
def resultOf (limit : Nat) (value : Chain.Outcome) : Except ApiError Json :=
  document ((value.map fun response => Reply.mk response limit).mapError ApiError.ofFailure)

theorem resultOf_ok (limit : Nat) (response : Response) :
    resultOf limit (.ok response) =
      (Reply.mk response limit).json.mapError ApiError.ofFailure := rfl

/-- A response is read as a document if it is a success that carries one. -/
theorem resultOf_ok_eq_ok_iff {limit : Nat} {response : Response} {v : Json} :
    resultOf limit (.ok response) = .ok v ↔ response.status.isSuccess = true ∧
      ∃ bytes, response.body.Carries limit bytes ∧ Json.parse? bytes = some v := by
  have reads : resultOf limit (.ok response) = .ok v ↔ (Reply.mk response limit).json = .ok v := by
    rw [resultOf_ok]
    cases (Reply.mk response limit).json <;> simp [Except.mapError]
  rw [reads, Reply.json_eq_ok_iff]

/-- A failed status is told as what its body says. -/
theorem resultOf_of_carries {limit : Nat} {response : Response}
    (failed : response.status.isSuccess = false) {bytes : Bytes}
    (carries : response.body.Carries limit bytes) :
    resultOf limit (.ok response) =
      .error (.ofFailure ((Reply.mk response limit).rejection bytes)) := by
  rw [resultOf_ok, Reply.json_of_carries failed carries]
  rfl

/-- An error is the aggregate of the failure of the call or of reading what it brought. -/
theorem exists_ofFailure {limit : Nat} {value : Chain.Outcome} {e : ApiError}
    (h : resultOf limit value = .error e) : ∃ f, e = .ofFailure f := by
  cases value with
  | error f =>
    cases h
    exact ⟨f, rfl⟩
  | ok response =>
    rw [resultOf_ok] at h
    cases read : (Reply.mk response limit).json with
    | error f =>
      rw [read] at h
      cases h
      exact ⟨f, rfl⟩
    | ok v =>
      rw [read] at h
      cases h

theorem errors_of_parse? {bytes : Bytes} {envelope : Envelope}
    (h : Envelope.parse? bytes = some envelope) : envelope.errors ≠ [] := by
  intro empty
  rw [Envelope.parse?] at h
  split at h
  · split at h
    next holds =>
      cases h
      simp [empty] at holds
    · cases h
  · cases h

/-- The result of a request, if what it brings is the response that its attempts ended in. -/
theorem resultLaw_of_iff {c : Chain} {r : Request} {steps : List Step} {value : Chain.Outcome}
    (brings : ∀ response, value = .ok response ↔ c.EndsIn steps response)
    (signs : ∀ response, c.EndsIn steps response → ∃ q, c.signed (c.stamped r) = .ok q) :
    ResultLaw c r steps (resultOf c.maxBodySize value) where
  decoded v := by
    constructor
    · intro ok
      cases value with
      | error f => cases ok
      | ok response =>
        have ends := (brings response).1 rfl
        obtain ⟨success, bytes, carries, parses⟩ := resultOf_ok_eq_ok_iff.1 ok
        exact ⟨signs response ends, response, bytes, ends, success, carries, parses⟩
    · rintro ⟨-, response, bytes, ends, success, carries, parses⟩
      obtain rfl := (brings response).2 ends
      exact resultOf_ok_eq_ok_iff.2 ⟨success, bytes, carries, parses⟩
  rejected response bytes envelope ends failed carries parses := by
    obtain rfl := (brings response).2 ends
    have told : (Reply.mk response c.maxBodySize).rejection bytes =
        .api response.status envelope := by
      simp only [Reply.rejection, parses]
    have some := errors_of_parse? parses
    have law := ApiError.aggregateLaw_ofFailure (.api response.status envelope)
    refine ⟨_, by rw [resultOf_of_carries failed carries, told], (law.status _).2 (.inl ⟨_, rfl⟩),
      some, law.entries _ _ rfl some, law.failure, ?_⟩
    rw [law.timeout]
    simp [Failure.isTimeout]
  dismissed response bytes ends failed carries parses := by
    obtain rfl := (brings response).2 ends
    obtain ⟨preview, contentType, told⟩ : ∃ preview contentType,
        (Reply.mk response c.maxBodySize).rejection bytes =
          .httpStatus response.status preview contentType := by
      simp only [Reply.rejection, parses]
      exact ⟨_, _, rfl⟩
    have law := ApiError.aggregateLaw_ofFailure (.httpStatus response.status preview contentType)
    obtain ⟨message, items, -⟩ := law.single fun _ _ same => by cases same
    refine ⟨_, message, by rw [resultOf_of_carries failed carries, told],
      (law.status _).2 (.inr ⟨_, _, rfl⟩), items, ?_⟩
    rw [law.timeout]
    simp [Failure.isTimeout]
  aggregate e h := by
    obtain ⟨f, rfl⟩ := exists_ofFailure h
    exact ⟨f, ApiError.aggregateLaw_ofFailure f⟩

end Client

end Api

/-! ## Sending and executing -/

namespace Transport

variable {σ : Type}

/-- The steps that sending a request takes: none if it is refused at the door. -/
def sendSteps (t : Transport σ) (r : Request) : List Step :=
  match t.closed <|> t.connection.unready t.wire with
  | some _ => []
  | none => t.steps (t.chain.call r)

open Api.Client in
/-- What a caller gets of a request that is sent alone. -/
theorem resultLaw_send {t : Transport σ} (off : t.chain.tracing = .off) {r : Request}
    (plain : Chain.NoPages (t.sendSteps r)) :
    ResultLaw t.chain r (t.sendSteps r)
      (document ((t.send r).1.mapError Api.ApiError.ofFailure)) := by
  change ResultLaw t.chain r (t.sendSteps r) (resultOf t.chain.maxBodySize (t.roundTrip r).1)
  obtain ⟨cause, shut, refused⟩ | ⟨opened, runs⟩ := roundTrip_cases t r
  · have none : t.sendSteps r = [] := by rw [sendSteps, shut]
    have never : ∀ response, ¬ t.chain.EndsIn [] response := by
      rintro response ⟨answer, last, -⟩
      cases last
    rw [refused, none]
    refine resultLaw_of_iff (fun response => ?_) fun response ends => absurd ends (never response)
    simp [never response]
  · have all : t.sendSteps r = t.steps (t.chain.call r) := by rw [sendSteps, opened]
    rw [runs, all]
    rw [all] at plain
    have ends := t.ends_run (t.chain.call r)
    exact resultLaw_of_iff (fun response => Chain.eq_ok_iff_of_ends off ends plain)
      fun response => Chain.signed_of_endsIn off ends

end Transport

namespace Api.Client

variable {σ : Type}

/-- The steps that executing an operation takes. -/
def steps (c : Client σ) (op : Operation) : List Step :=
  match c.request op with
  | (.error _, _) => []
  | (.ok draft, asked) =>
    match asked.transport.finish draft with
    | .error _ => []
    | .ok r => asked.transport.sendSteps r

/-- The URL of an operation that renders to a path. -/
def urlOf (c : Client σ) (op : Operation) (path : String) : String := (c.router.route op).url path

/-- What is left after asking for an operation that renders. -/
def asked (c : Client σ) (op : Operation) (path : String) : Client σ :=
  { c with transport := c.transport.noting [requestEvent op (c.urlOf op path)] }

/-- The draft of an operation that renders. -/
def draftOf (c : Client σ) (op : Operation) (path : String) : Draft :=
  Draft.typedHeader { method := op.method, url := c.urlOf op path } .accept .json

theorem request_of_render {c : Client σ} {op : Operation} {path : String}
    (rendered : op.render = .ok path) :
    c.request op = (.ok (c.draftOf op path), c.asked op path) := by
  simp only [request, rendered]
  rfl

/-- What is left after asking finishes the draft if its URL is accepted. -/
theorem finish_draftOf (c : Client σ) (op : Operation) (path : String) :
    (c.asked op path).transport.finish (c.draftOf op path) =
      (Draft.checkUrl c.transport.security (c.urlOf op path)).map fun uri =>
        ⟨op.method, uri, .http11, ⟨[(.accept, .json)]⟩, []⟩ := by
  simp only [Transport.finish, Draft.build, draftOf, Draft.typedHeader, asked, Transport.noting]
  cases Draft.checkUrl c.transport.security (c.urlOf op path) <;> rfl

/-- The operation renders, its URL is accepted, and this is its request. -/
def Asks (c : Client σ) (op : Operation) (r : Request) : Prop :=
  ∃ path uri, op.render = .ok path ∧
    Draft.checkUrl c.transport.security (c.urlOf op path) = .ok uri ∧
    r = ⟨op.method, uri, .http11, ⟨[(.accept, .json)]⟩, []⟩

/-- What executing an operation comes to, and what it takes, by what becomes of its request. -/
theorem execute_cases (c : Client σ) (op : Operation) :
    (∃ e, op.render = .error e ∧ (c.execute op).1 = .error (.ofOperation e)) ∨
    (∃ path f, op.render = .ok path ∧
      Draft.checkUrl c.transport.security (c.urlOf op path) = .error f ∧
      (c.execute op).1 = .error (.ofFailure f)) ∨
    ∃ (r : Request) (t : Transport σ), c.Asks op r ∧ t.chain = c.transport.chain ∧
      c.steps op = t.sendSteps r ∧
      (c.execute op).1 = document ((t.send r).1.mapError ApiError.ofFailure) := by
  cases rendered : op.render with
  | error e =>
    refine .inl ⟨e, rfl, ?_⟩
    simp only [execute, send, sendWith, request, rendered]
    rfl
  | ok path =>
    have asks := request_of_render (c := c) rendered
    have finished := c.finish_draftOf op path
    cases accepted : Draft.checkUrl c.transport.security (c.urlOf op path) with
    | error f =>
      rw [accepted] at finished
      refine .inr (.inl ⟨path, f, rfl, accepted, ?_⟩)
      simp only [execute, send, sendWith, asks, Transport.sendDraft, finished, Except.map, after]
      rfl
    | ok uri =>
      rw [accepted] at finished
      refine .inr (.inr ⟨_, (c.asked op path).transport, ⟨path, uri, rendered, accepted, rfl⟩, rfl,
        ?_, execute_eq asks finished⟩)
      simp only [steps, asks, finished, Except.map]

/-- What becomes of the operations of a client. -/
structure ExecutionLaw (c : Client σ) : Prop where
  /-- Every failure is told by an aggregate. -/
  aggregate : ∀ f, AggregateLaw f (.ofFailure f)
  /-- An operation that does not render is told with its own message. -/
  unrendered : ∀ op e, op.render = .error e → ∃ error, (c.execute op).1 = .error error ∧
    error.status = none ∧ error.items = [⟨none, e.message, []⟩] ∧ error.isTimeout = false
  unaccepted : ∀ op path f, op.render = .ok path →
    Draft.checkUrl c.transport.security (c.urlOf op path) = .error f →
    (c.execute op).1 = .error (.ofFailure f)
  /-- What is asked ends as its attempts do. -/
  executed : ∀ op r, c.Asks op r → Chain.NoPages (c.steps op) →
    ResultLaw c.transport.chain r (c.steps op) (c.execute op).1
  /-- A document is brought exactly if every stage goes well. -/
  decoded : ∀ op v, Chain.NoPages (c.steps op) → ((c.execute op).1 = .ok v ↔
    ∃ r, c.Asks op r ∧ (∃ q, c.transport.chain.signed (c.transport.chain.stamped r) = .ok q) ∧
      ∃ response bytes, c.transport.chain.EndsIn (c.steps op) response ∧
        response.status.isSuccess = true ∧
        response.body.Carries c.transport.chain.maxBodySize bytes ∧ Json.parse? bytes = some v)
  /-- So it is with requests that take turns. -/
  followed : ∀ (rs : List Request) (schedule : List Nat) (i : Nat) (r : Request)
    (left : Turn Chain.Outcome) (value : Chain.Outcome), rs[i]? = some r →
    (c.transport.follow (c.transport.callsOf rs) schedule).1[i]? = some left →
    left.value? = some value →
    Chain.NoPages (Transport.stepsOf i (c.transport.log (c.transport.callsOf rs) schedule)) →
    ResultLaw c.transport.chain r
      (Transport.stepsOf i (c.transport.log (c.transport.callsOf rs) schedule))
      (resultOf c.transport.chain.maxBodySize value)

theorem Asks.unique {c : Client σ} {op : Operation} {r r' : Request} (h : c.Asks op r)
    (h' : c.Asks op r') : r = r' := by
  obtain ⟨path, uri, rendered, accepted, rfl⟩ := h
  obtain ⟨path', uri', rendered', accepted', rfl⟩ := h'
  obtain rfl := Except.ok.inj (rendered.symm.trans rendered')
  obtain rfl := Except.ok.inj (accepted.symm.trans accepted')
  rfl

theorem resultLaw_execute {c : Client σ} (off : c.transport.chain.tracing = .off) {op : Operation}
    {r : Request} (asks : c.Asks op r) (plain : Chain.NoPages (c.steps op)) :
    ResultLaw c.transport.chain r (c.steps op) (c.execute op).1 := by
  obtain ⟨e, unrendered, -⟩ | ⟨path, f, rendered, refused, -⟩ |
    ⟨r', t, asks', chain, taken, result⟩ := c.execute_cases op
  · obtain ⟨path, uri, rendered, -⟩ := asks
    rw [unrendered] at rendered
    cases rendered
  · obtain ⟨path', uri, rendered', accepted, -⟩ := asks
    obtain rfl := Except.ok.inj (rendered.symm.trans rendered')
    rw [refused] at accepted
    cases accepted
  · obtain rfl := asks.unique asks'
    rw [taken] at plain ⊢
    rw [← chain] at off ⊢
    rw [result]
    exact Transport.resultLaw_send off plain

/-- **Aggregates.** On a transport that traces nothing, an operation brings a document exactly if it
renders, its URL is accepted, its request can be signed, and the attempts end in a success whose
body is whole, within the limit, and that document, as long as the connection brings no page. In
every other case it brings one aggregate that tells what went wrong: a failed status with an item
for each entry of its envelope, and with one item if it has none. -/
theorem executionLaw_of_off (c : Client σ) (off : c.transport.chain.tracing = .off) :
    ExecutionLaw c where
  aggregate := ApiError.aggregateLaw_ofFailure
  unrendered := by
    intro op e rendered
    refine ⟨.ofOperation e, ?_, rfl, rfl, rfl⟩
    simp only [execute, send, sendWith, request, rendered]
    rfl
  unaccepted := by
    intro op path f rendered refused
    obtain ⟨e, unrendered, -⟩ | ⟨path', f', rendered', refused', result⟩ | ⟨r, t, asks, -⟩ :=
      c.execute_cases op
    · rw [unrendered] at rendered
      cases rendered
    · obtain rfl := Except.ok.inj (rendered.symm.trans rendered')
      obtain rfl := Except.error.inj (refused.symm.trans refused')
      exact result
    · obtain ⟨path', uri, rendered', accepted, -⟩ := asks
      obtain rfl := Except.ok.inj (rendered.symm.trans rendered')
      rw [refused] at accepted
      cases accepted
  executed op r asks plain := resultLaw_execute off asks plain
  decoded op v plain := by
    constructor
    · intro brought
      obtain ⟨e, -, result⟩ | ⟨path, f, -, -, result⟩ | ⟨r, t, asks, -⟩ := c.execute_cases op
      · rw [brought] at result
        cases result
      · rw [brought] at result
        cases result
      · exact ⟨r, asks, ((resultLaw_execute off asks plain).decoded v).1 brought⟩
    · rintro ⟨r, asks, ends⟩
      exact ((resultLaw_execute off asks plain).decoded v).2 ends
  followed := by
    intro rs schedule i r left value hr hl hv plain
    have ends := Transport.follow_ends (Transport.getElem?_callsOf hr) hl hv
    exact resultLaw_of_iff (fun response => Chain.eq_ok_iff_of_ends off ends plain)
      fun response => Chain.signed_of_endsIn off ends

/-- What a service says of a deployment that it does not know. -/
def unknownDeployment : Envelope :=
  ⟨[⟨"deployments.not_found", some ["deployment_id"], "no such deployment"⟩,
    ⟨"root.unauthorized", none, "no access"⟩]⟩

/-- The answer with which a service says so, in two frames. -/
def notFound : Response where
  status := ⟨404, by decide⟩
  body := [.data (unknownDeployment.encode.take 9), .data (unknownDeployment.encode.drop 9)]

/-- The entries of the envelope are what the caller gets. -/
theorem executionLaw_notFound : ∃ e, ((behind notFound).execute readPlatform).1 = .error e ∧
    e.status = some ⟨404, by decide⟩ ∧
    List.Forall₂ Item.Shows e.items unknownDeployment.errors := by
  have law := executionLaw_of_off (behind notFound) rfl
  have taken : answers ((behind notFound).steps readPlatform) = [⟨.none, .ok notFound⟩] := rfl
  have plain : Chain.NoPages ((behind notFound).steps readPlatform) := by
    intro answer brought page outcome
    rw [taken, List.mem_singleton] at brought
    subst brought
    cases outcome
    rfl
  have carries : notFound.body.Carries 10485760 unknownDeployment.encode := by
    refine ⟨fun cause failing => by simp [notFound] at failing, ?_, by decide +kernel⟩
    simp [notFound, Body.data]
  obtain ⟨e, brought, status, -, shown, -⟩ := (law.executed readPlatform _
    ⟨_, _, rfl, rfl, rfl⟩ plain).rejected notFound _ unknownDeployment
      ⟨_, by rw [taken]; rfl, rfl⟩ rfl carries
      (Envelope.parse?_encode _ (by simp [unknownDeployment]))
  exact ⟨e, brought, status, shown⟩

end Api.Client

end Courier
