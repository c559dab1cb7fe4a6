import Courier.Proofs.Attempt
import Courier.Proofs.Delivery
import Courier.Proofs.InStep
import Courier.Response

/-!
# Tracing is transparent

A traced attempt reads the body for its dump and puts it together again; whoever reads it after
that meets the same limit at the same place. Nothing else of a call depends on tracing, as long as
there is no page to be replaced and no body that fails while the dump reads it.
-/
namespace Courier

namespace Body

/-- The data of a body up to its end or its first failure. -/
def data : Body → Bytes
  | [] => []
  | .data bytes :: rest => bytes ++ data rest
  | .trailers _ :: rest => data rest
  | .failed _ :: _ => []

theorem data_full (bytes : Bytes) : (Body.full bytes).data = bytes := by
  unfold full
  split
  next empty => simp_all [data]
  · simp [data]

/-- What is complete is all the data, and no more than the limit. -/
theorem data_of_complete {limit : Nat} {collected bytes : Bytes} {body : Body}
    (h : bufferFrom limit collected body = .ok (.complete bytes)) :
    bytes = collected ++ body.data ∧ (collected.length ≤ limit → bytes.length ≤ limit) := by
  induction body generalizing collected with
  | nil =>
    cases h
    simp [data]
  | cons frame rest ih =>
    cases frame with
    | data more =>
      rw [bufferFrom] at h
      split at h
      · cases h
      next within =>
        obtain ⟨same, le⟩ := ih h
        exact ⟨by rw [same, data, List.append_assoc], fun _ => le (by omega)⟩
    | trailers fields => exact ih h
    | failed cause => cases h

/-- What overflows is more than the limit, and the data is that and what is unread. -/
theorem data_of_overflow {limit : Nat} {collected head : Bytes} {body rest : Body}
    (h : bufferFrom limit collected body = .ok (.overflow head rest)) :
    head ++ data rest = collected ++ body.data ∧ limit < head.length := by
  induction body generalizing collected with
  | nil => cases h
  | cons frame left ih =>
    cases frame with
    | data more =>
      rw [bufferFrom] at h
      split at h
      next more =>
        cases h
        exact ⟨by rw [data, List.append_assoc], more⟩
      · rw [(ih h).1, data, List.append_assoc]
        exact ⟨rfl, (ih h).2⟩
    | trailers fields => exact ih h
    | failed cause => cases h

/-- A body that was complete is read again as it was. -/
theorem buffer_full {limit : Nat} {bytes : Bytes} (le : bytes.length ≤ limit) :
    buffer limit (Body.full bytes) = .ok (.complete bytes) := by
  unfold full
  split
  next empty => simp_all [buffer, bufferFrom]
  · simp [buffer, bufferFrom, Nat.not_lt.2 le]

/-- A body that overflowed does so again at the same place. -/
theorem buffer_resume {limit : Nat} {head : Bytes} {rest : Body} (more : limit < head.length) :
    buffer limit (Body.resume head rest) = .ok (.overflow head rest) := by
  simp [buffer, bufferFrom, resume, more]

end Body

/-! ## What can be learned from a reply -/

/-- All ways to read a reply at once. -/
structure Reading where
  head : ResponseHead
  limit : Nat
  /-- The data, as if there were no limit. -/
  data : Bytes
  bytes : Except Failure Bytes
  checkedBytes : Except Failure Bytes
  text : Except Failure String
  json : Except Failure Json

/-- What a reply brings, one way or another. -/
def Reply.reading (r : Reply) : Reading where
  head := r.response.toResponseHead
  limit := r.maxBodySize
  data := r.response.body.data
  bytes := r.bytes
  checkedBytes := r.checkedBytes
  text := r.text
  json := r.json

/-- Head, limit, data and what the limit leaves of it are all that can be learned from a reply. -/
theorem Reply.reading_congr {r s : Reply}
    (head : r.response.toResponseHead = s.response.toResponseHead)
    (limit : r.maxBodySize = s.maxBodySize) (data : r.response.body.data = s.response.body.data)
    (bytes : r.bytes = s.bytes) : r.reading = s.reading := by
  have status : r.response.status = s.response.status := by rw [head]
  have headers : r.response.headers = s.response.headers := by rw [head]
  have contentType : r.contentType? = s.contentType? := by
    rw [contentType?, contentType?, headers]
  have rejects : r.rejection = s.rejection := by
    funext body
    rw [rejection, rejection, status, contentType]
  have checked : r.checkedBytes = s.checkedBytes := by
    rw [checkedBytes, checkedBytes, bytes, status, contentType, rejects]
  rw [reading, reading, head, limit, data, bytes, checked, text, text, json, json, checked]

/-- Replies that read alike are accepted or rejected alike. -/
theorem Reply.reading_errorForStatus {x y : Except Failure Reply}
    (same : x.map Reply.reading = y.map Reply.reading) :
    (x.bind Reply.errorForStatus).map Reply.reading =
      (y.bind Reply.errorForStatus).map Reply.reading := by
  cases x with
  | error e =>
    cases y with
    | error f => exact same
    | ok s => cases same
  | ok r =>
    cases y with
    | error f => cases same
    | ok s =>
      have reads : r.reading = s.reading := Except.ok.inj same
      have head : r.response.toResponseHead = s.response.toResponseHead :=
        congrArg Reading.head reads
      have status : r.response.status = s.response.status := by rw [head]
      have contentType : r.contentType? = s.contentType? := by
        rw [contentType?, contentType?, head]
      simp only [Except.bind, errorForStatus, status, contentType]
      split
      · exact same
      · rfl

/-- The record is the dump of a response. -/
def Record.isResponse : Record → Bool
  | .block .response _ _ => true
  | _ => false

/-- The dump of a response ends with the text of its body. -/
theorem ResponseHead.dump_eq (head : ResponseHead) (body : Bytes) :
    head.dump body = head.dump [] ++ Utf8.lossy body := by
  have none : Utf8.lossy [] = "" := by
    rw [Utf8.lossy, Utf8.decode]
    rfl
  rw [dump, dump, none, String.append_empty]

/-! ## Alike but for the trace -/

namespace Transport

variable {σ : Type}

/-- The transports differ at most in their chains, their traces and their journals. -/
structure Alike (t u : Transport σ) : Prop where
  connection : t.connection = u.connection
  wire : t.wire = u.wire
  draws : t.draws = u.draws
  drawn : t.drawn = u.drawn
  closed : t.closed = u.closed

theorem drawn_perform (t : Transport σ) (a : Action) :
    (t.perform a).2.drawn = match a with
      | .draw => t.drawn + 1
      | _ => t.drawn := by
  cases a with
  | claim =>
    rw [perform]
    split <;> rfl
  | write record =>
    rw [perform]
    split <;> rfl
  | _ => rfl

/-- Alike transports stay alike if the same action is performed on both. -/
theorem Alike.perform {t u : Transport σ} (h : Alike t u) (a : Action) :
    Alike (t.perform a).2 (u.perform a).2 := by
  have first := sameSettings_perform t a
  have second := sameSettings_perform u a
  refine ⟨?_, ?_, ?_, ?_, ?_⟩
  · rw [first.connection, second.connection, h.connection]
  · rw [wire_perform, wire_perform, h.connection, h.wire]
  · rw [first.draws, second.draws, h.draws]
  · rw [drawn_perform, drawn_perform, h.drawn]
  · rw [first.closed, second.closed, h.closed]

/-- Only the numbers of attempts tell alike transports apart. -/
theorem Alike.result {t u : Transport σ} (h : Alike t u) {a : Action} (ne : a ≠ .claim) :
    (t.perform a).1 = (u.perform a).1 := by
  cases a with
  | probe =>
    simp only [Transport.perform, h.connection, h.wire]
    rfl
  | deliver q =>
    simp only [Transport.perform, h.connection, h.wire]
    rfl
  | claim => exact absurd rfl ne
  | draw =>
    simp only [Transport.perform, h.draws, h.drawn]
    rfl
  | write record => rfl
  | pause time => rfl
  | log e => rfl

/-- Claiming a number and writing a record leave a transport as it is, but for the trace. -/
theorem Alike.trace {t u : Transport σ} (h : Alike t u) {a : Action}
    (tracing : a = .claim ∨ ∃ record, a = .write record) : Alike (t.perform a).2 u := by
  have same := sameSettings_perform t a
  refine ⟨?_, ?_, ?_, ?_, ?_⟩
  · rw [same.connection, h.connection]
  · rcases tracing with rfl | ⟨record, rfl⟩
    · rw [wire_perform, h.wire]
    · rw [wire_perform, h.wire]
  · rw [same.draws, h.draws]
  · rcases tracing with rfl | ⟨record, rfl⟩
    · rw [drawn_perform, h.drawn]
    · rw [drawn_perform, h.drawn]
  · rw [same.closed, h.closed]

/-- Alike transports on a given connection. -/
def AlikeOn (connection : Connection σ) (t u : Transport σ) : Prop :=
  Alike t u ∧ u.connection = connection

theorem AlikeOn.trace {connection : Connection σ} {t u : Transport σ} (h : AlikeOn connection t u)
    {a : Action} (tracing : a = .claim ∨ ∃ record, a = .write record) :
    AlikeOn connection (t.perform a).2 u :=
  ⟨h.1.trace tracing, h.2⟩

/-- An action that is no claim brings the same on both sides. -/
theorem inStep_lift (connection : Connection σ) {a : Action} (ne : a ≠ .claim) :
    InStep (AlikeOn connection) (fun x y => x = y) (Call.lift a) (Call.lift a) := by
  refine InStep.lift fun t u h => ?_
  refine ⟨⟨h.1.perform a, ?_⟩, h.1.result ne⟩
  rw [(sameSettings_perform u a).connection, h.2]

/-- The connection brings the same answer on both sides. -/
theorem inStep_deliver (connection : Connection σ) (q : Request) :
    InStep (AlikeOn connection) (fun x y => x = y ∧ ∃ s, y = (connection.answer q s).1)
      (Call.lift (.deliver q)) (Call.lift (.deliver q)) := by
  refine InStep.lift (a := .deliver q) (b := .deliver q) fun t u h => ?_
  refine ⟨⟨h.1.perform _, ?_⟩, h.1.result (by simp), u.wire, ?_⟩
  · rw [(sameSettings_perform u _).connection, h.2]
  · rw [← h.2]
    rfl

end Transport

namespace Chain

open Transport

variable {σ : Type}

/-- The chain with its attempts traced. -/
def traced (c : Chain) (redact : Bool) : Chain := { c with tracing := .on redact }

/-- The chain with its attempts not traced. -/
def untraced (c : Chain) : Chain := { c with tracing := .off }

/-- The outcome is no page, and no body that fails before it ends or exceeds the limit. -/
def Plain (c : Chain) (o : Outcome) : Prop :=
  ∀ response, o = .ok response → response.headers.isHtml = false ∧
    ∀ e, response.body.buffer c.maxBodySize ≠ .error e

/-- The outcome of a traced attempt, next to that of the same attempt without a trace. -/
def Seen (c : Chain) (o plain : Outcome) : Prop := o = c.rebuilt plain ∧ c.Plain plain

theorem seen_error (c : Chain) (e : Failure) : c.Seen (.error e) (.error e) := by
  refine ⟨rfl, ?_⟩
  intro response h
  cases h

/-- A traced attempt fails exactly where the other does, and for the same reason. -/
theorem Seen.cases {c : Chain} {o plain : Outcome} (h : c.Seen o plain) :
    (∃ e, o = .error e ∧ plain = .error e) ∨
      ∃ seen response, o = .ok seen ∧ plain = .ok response := by
  obtain ⟨rfl, fine⟩ := h
  cases plain with
  | error e => exact .inl ⟨e, rfl, rfl⟩
  | ok response =>
    rw [rebuilt]
    split
    next e hb => exact absurd hb ((fine response rfl).2 e)
    · exact .inr ⟨_, _, rfl, rfl⟩
    · exact .inr ⟨_, _, rfl, rfl⟩

/-- No page is replaced where there is none. -/
theorem normalize_plain {c : Chain} {o : Outcome} (h : c.Plain o) (r : Request) :
    ProxyPage.normalize r o = (o, []) := by
  cases o with
  | error e => rfl
  | ok response => simp [ProxyPage.normalize, (h response rfl).1]

/-- Whoever reads a body that was put together again learns nothing of that. -/
theorem Seen.reading {c : Chain} {o plain : Outcome} (h : c.Seen o plain) :
    o.map (fun response => (Reply.mk response c.maxBodySize).reading) =
      plain.map fun response => (Reply.mk response c.maxBodySize).reading := by
  obtain ⟨rfl, fine⟩ := h
  cases plain with
  | error e => rfl
  | ok response =>
    rw [rebuilt]
    split
    next e hb => exact absurd hb ((fine response rfl).2 e)
    next bytes hb =>
      obtain ⟨same, le⟩ := Body.data_of_complete hb
      refine congrArg Except.ok (Reply.reading_congr rfl rfl ?_ ?_)
      · rw [Body.data_full, same, List.nil_append]
      · simp only [Reply.bytes, Body.readLimited, Body.buffer_full (le (Nat.zero_le _)), hb]
    next head rest hb =>
      obtain ⟨same, more⟩ := Body.data_of_overflow hb
      refine congrArg Except.ok (Reply.reading_congr rfl rfl ?_ ?_)
      · exact same
      · simp only [Reply.bytes, Body.readLimited, Body.buffer_resume more, hb]

section Attempts

variable {c : Chain} {redact : Bool} {connection : Connection σ}

/-- The dump of an outcome is not seen in anything but the trace. -/
theorem inStep_dumped (redact : Bool) (number : Nat) {o : Outcome} (plain : c.Plain o) :
    InStep (AlikeOn connection) c.Seen ((c.traced redact).dumped number o) (pure o) := by
  have writes : ∀ record t u, AlikeOn connection t u →
      AlikeOn connection (t.perform (.write record)).2 u :=
    fun record t u h => h.trace (.inr ⟨record, rfl⟩)
  cases o with
  | error e => exact InStep.left (writes _) fun _ => InStep.done (seen_error c e)
  | ok response =>
    have limit : (c.traced redact).maxBodySize = c.maxBodySize := rfl
    rw [dumped, limit]
    split
    next e hb => exact absurd hb ((plain response rfl).2 e)
    next bytes hb =>
      refine InStep.left (writes _) fun _ => InStep.done ⟨?_, plain⟩
      rw [rebuilt, hb]
    next head rest hb =>
      refine InStep.left (writes _) fun _ => InStep.left (writes _) fun _ => ?_
      refine InStep.done ⟨?_, plain⟩
      rw [rebuilt, hb]

variable (plain : ∀ q s, c.Plain (c.received (connection.answer q s).1))

include plain

theorem inStep_exchange (q : Request) :
    InStep (AlikeOn connection) (fun o o' => o = o' ∧ c.Plain o') (c.exchange q)
      (c.exchange q) := by
  unfold exchange
  refine InStep.bind (inStep_deliver connection _) ?_
  rintro answer _ ⟨rfl, s, rfl⟩
  refine InStep.bind (inStep_lift connection (by simp)) fun _ _ _ => ?_
  exact InStep.done ⟨rfl, plain _ s⟩

theorem inStep_attempt (r : Request) :
    InStep (AlikeOn connection) c.Seen ((c.traced redact).attempt r) (c.untraced.attempt r) := by
  have same : (c.traced redact).authorize = c.untraced.authorize := rfl
  rw [attempt, attempt, same]
  split
  next e _ => exact InStep.done (seen_error c e)
  next headers _ =>
    -- The traced attempt claims its number and writes its request before both wait for the answer.
    refine InStep.left (fun t u h => h.trace (.inl rfl)) fun number => ?_
    refine InStep.left (fun t u h => h.trace (.inr ⟨_, rfl⟩)) fun _ => ?_
    rw [← bind_pure (c.untraced.observedExchange _)]
    refine InStep.bind (inStep_exchange plain { r with headers := headers }) ?_
    rintro o _ ⟨rfl, fine⟩
    exact inStep_dumped redact number fine

omit plain in
theorem inStep_notice (record : Record) :
    InStep (AlikeOn connection) (fun _ _ => True) ((c.traced redact).notice record)
      (c.untraced.notice record) := by
  show InStep _ _ (Call.lift (.write record) >>= pure) (pure ())
  refine InStep.left (fun t u h => AlikeOn.trace h (.inr ⟨record, rfl⟩)) fun _ => ?_
  exact InStep.done trivial

omit plain in
theorem inStep_giveUp (r : Request) (e : Failure) :
    InStep (AlikeOn connection) (fun _ _ => True) ((c.traced redact).giveUp r e)
      (c.untraced.giveUp r e) := by
  refine InStep.bind (inStep_lift connection (by simp)) fun _ _ _ => ?_
  exact inStep_notice _

omit plain in
theorem inStep_backOff (r : Request) (left : Nat) (e : Failure) :
    InStep (AlikeOn connection) (fun _ _ => True) ((c.traced redact).backOff r left e)
      (c.untraced.backOff r left e) := by
  refine InStep.bind (inStep_lift connection (by simp)) ?_
  rintro draw _ rfl
  refine InStep.bind (inStep_lift connection (by simp)) fun _ _ _ => ?_
  refine InStep.bind (inStep_notice _) fun _ _ _ => ?_
  exact (inStep_lift connection (by simp)).mono fun _ _ _ => trivial

theorem inStep_retrying (r : Request) (left : Nat) :
    InStep (AlikeOn connection) c.Seen ((c.traced redact).retrying r left)
      (c.untraced.retrying r left) :=
  InStep.retrying (seen_error c) (fun _ _ seen => seen.cases) (inStep_lift connection (by simp))
    (inStep_attempt plain r) (inStep_giveUp r) (inStep_backOff r) left

omit plain in
theorem inStep_settle (r : Request) {o o' : Outcome} (seen : c.Seen o o') :
    InStep (AlikeOn connection) c.Seen ((c.traced redact).settle r o)
      (c.untraced.settle r o') := by
  have off : c.untraced.settle r o' = pure o' := by
    simp only [settle, untraced, normalize_plain seen.2]
    rfl
  rw [off]
  exact InStep.done seen

/-- A traced call and the same call without a trace are in step. -/
theorem inStep_call (r : Request) :
    InStep (AlikeOn connection) c.Seen ((c.traced redact).call r) (c.untraced.call r) := by
  refine InStep.bind (inStep_retrying plain _ _) fun o o' seen => ?_
  exact inStep_settle _ seen

end Attempts

/-! ## What the trace shows of a response -/

section Blocks

variable {c : Chain} {r : Request} {redact : Bool} {steps : List Step}

/-- The dump of a response that is handed on: the beginning of its data, and a note if that is not
all. -/
theorem outcomeRecords_of_ok {o : Outcome} {response : Response} (number : Nat)
    (h : c.rebuilt o = .ok response) :
    c.outcomeRecords number o =
      .ofResponse number response.toResponseHead (response.body.data.take c.maxBodySize) ::
        if c.maxBodySize < response.body.data.length then [.truncated number c.maxBodySize]
        else [] := by
  cases o with
  | error e => cases h
  | ok delivered =>
    rw [rebuilt] at h
    rw [outcomeRecords]
    split at h
    · cases h
    next bytes hb =>
      cases h
      have le := (Body.data_of_complete hb).2 (Nat.zero_le _)
      simp [Body.data_full, List.take_of_length_le le, Nat.not_lt.2 le]
    next head rest hb =>
      cases h
      have more := (Body.data_of_overflow hb).2
      have longer : c.maxBodySize < (Body.resume head rest).data.length := by
        simp only [Body.resume, Body.data, List.length_append]
        omega
      have first : (Body.resume head rest).data.take c.maxBodySize = head.take c.maxBodySize := by
        rw [Body.resume, Body.data, List.take_append_of_le_length (Nat.le_of_lt more)]
      simp [longer, first]

/-- An attempt that fails puts no response into the trace. -/
theorem outcomeRecords_of_error {o : Outcome} {e : Failure} (number : Nat)
    (h : c.rebuilt o = .error e) :
    ∀ record ∈ c.outcomeRecords number o, record.isResponse = false := by
  intro record hr
  cases o with
  | error f =>
    obtain rfl := List.mem_singleton.1 hr
    rfl
  | ok delivered =>
    rw [rebuilt] at h
    rw [outcomeRecords] at hr
    split at h
    next f hb => simp [hb] at hr
    · cases h
    · cases h

theorem records_attemptSteps (on : c.tracing = .on redact) (q : Request) (number : Nat)
    (answer : Answer) :
    records (c.attemptSteps q number answer) =
      .ofRequest redact number q :: c.outcomeRecords number (c.received answer) := by
  obtain ⟨-, -, -, writes⟩ := views_writing (c.outcomeRecords number (c.received answer))
  simp [attemptSteps, on, exchangeSteps, writes, Step.record?, Step.writing, Step.pausing]

theorem observed_on (on : c.tracing = .on redact) (answer : Answer) :
    c.observed answer = c.rebuilt (c.received answer) := by
  rw [observed, on]

theorem Attempted.records_of_error (on : c.tracing = .on redact) {o : Outcome} {e : Failure}
    (h : c.Attempted r steps o) (failed : o = .error e) :
    ∀ record ∈ records steps, record.isResponse = false := by
  intro record hr
  cases h with
  | unsigned hs => cases hr
  | made hs number answer =>
    rw [observed_on on] at failed
    rw [records_attemptSteps on] at hr
    rcases List.mem_cons.1 hr with rfl | later
    · rfl
    · exact outcomeRecords_of_error number failed record later

theorem Attempted.records_of_ok (on : c.tracing = .on redact) {o : Outcome} {response : Response}
    (h : c.Attempted r steps o) (answered : o = .ok response) :
    ∃ number q, records steps = .ofRequest redact number q ::
      .ofResponse number response.toResponseHead (response.body.data.take c.maxBodySize) ::
        if c.maxBodySize < response.body.data.length then [.truncated number c.maxBodySize]
        else [] := by
  cases h with
  | unsigned hs => cases answered
  | @made q hs number answer =>
    rw [observed_on on] at answered
    exact ⟨number, q, by rw [records_attemptSteps on, outcomeRecords_of_ok number answered]⟩

/-- A loop that ends with a response puts that one into the trace and no other. -/
theorem Loop.records_of_ok (on : c.tracing = .on redact) {left : Nat} {o : Outcome}
    {response : Response} (h : c.Loop r left steps o) (answered : o = .ok response) :
    ∃ before number q, (∀ record ∈ before, record.isResponse = false) ∧
      records steps = before ++ .ofRequest redact number q ::
        .ofResponse number response.toResponseHead (response.body.data.take c.maxBodySize) ::
          if c.maxBodySize < response.body.data.length then [.truncated number c.maxBodySize]
          else [] := by
  induction h with
  | refused e => cases answered
  | settled ha ends =>
    obtain ⟨number, q, shown⟩ := ha.records_of_ok on answered
    exact ⟨[], number, q, by simp, by simp [shown, Step.record?]⟩
  | exhausted ha late event => cases answered
  | @again left first rest e o ha late draw event more ih =>
    obtain ⟨before, number, q, quiet, shown⟩ := ih answered
    have waits : records (c.backOffSteps left draw event) =
        [.retrying (Backoff.wait c.retry.ceiling draw) left] := by
      simp [backOffSteps, noticeSteps, on, Step.record?, Step.logging, Step.pausing, Step.writing]
    refine ⟨records first ++ .retrying (Backoff.wait c.retry.ceiling draw) left :: before, number,
      q, ?_, ?_⟩
    · intro record hr
      rcases List.mem_append.1 hr with early | late
      · exact ha.records_of_error on rfl record early
      · rcases List.mem_cons.1 late with rfl | later
        · rfl
        · exact quiet record later
    · simp [shown, waits, Step.record?]

end Blocks

end Chain

namespace Transport

variable {σ : Type} {t u : Transport σ} {c : Chain} {redact : Bool}

/-- A request sent with a trace and the same request sent without one. -/
theorem roundTrip_traced {connection : Connection σ} (alike : AlikeOn connection t u)
    (chainOn : t.chain = c.traced redact) (chainOff : u.chain = c.untraced)
    (plain : ∀ q s, c.Plain (c.received (connection.answer q s).1)) (r : Request) :
    AlikeOn connection (t.roundTrip r).2 (u.roundTrip r).2 ∧
      c.Seen (t.roundTrip r).1 (u.roundTrip r).1 := by
  refine InStep.roundTrip alike ?_ (fun cause => ?_) (Chain.seen_error ..) ?_
  · rw [alike.1.closed, alike.1.connection, alike.1.wire]
  · obtain ⟨⟨connection, wire, draws, drawn, -⟩, link⟩ := alike
    exact ⟨⟨connection, wire, draws, drawn, rfl⟩, link⟩
  · rw [chainOn, chainOff]
    exact Chain.inStep_call plain r

/-- The trace of a request that was answered. -/
theorem kept_roundTrip_of_ok (on : t.chain.tracing = .on redact) (keeps : t.Keeps) {r : Request}
    {response : Response} (answered : (t.roundTrip r).1 = .ok response) :
    ∃ before number q, (∀ record ∈ before, record.isResponse = false) ∧
      (t.roundTrip r).2.kept = t.kept ++ before ++ .ofRequest redact number q ::
        .ofResponse number response.toResponseHead
            (response.body.data.take t.chain.maxBodySize) ::
          if t.chain.maxBodySize < response.body.data.length then
            [.truncated number t.chain.maxBodySize]
          else [] := by
  obtain ⟨cause, -, refused⟩ | ⟨-, runs⟩ := roundTrip_cases t r
  · rw [refused] at answered
    cases answered
  · rw [runs] at answered ⊢
    obtain ⟨loop, o, hl, same, final⟩ := Chain.ends_call (t.ends_run (t.chain.call r))
    have settled : o = .ok response := by
      rw [answered] at final
      simpa [Chain.settledOutcome, on] using final.symm
    obtain ⟨before, number, q, quiet, shown⟩ := hl.records_of_ok on settled
    refine ⟨before, number, q, quiet, ?_⟩
    have silent : t.chain.settledEvents (t.chain.stamped r) o = [] := by
      rw [Chain.settledEvents, on]
    rw [kept_run keeps, same, silent, List.map_nil, List.append_nil, shown, List.append_assoc]

end Transport

/-- The builder with its trace configured so. -/
def Builder.tracingTo (b : Builder) (trace : TraceConfig) : Builder :=
  { b with config := { b.config with trace := trace } }

/-- Transports that were built alike but for the trace have the same chain, traced on one side. -/
theorem Builder.chain_tracingTo {σ : Type} {b : Builder} {on off : TraceConfig}
    (enabled : on.enabled = true) (disabled : off.enabled = false) {connection : Connection σ}
    {wire : σ} {t u : Transport σ} {eventsOn eventsOff : List Event}
    (builtOn : (b.tracingTo on).build (.bare connection wire) = (.ok t, eventsOn))
    (builtOff : (b.tracingTo off).build (.bare connection wire) = (.ok u, eventsOff)) :
    t.chain = u.chain.traced on.redact ∧ u.chain = u.chain.untraced := by
  obtain ⟨tracer, identity, ht, hi, rfl⟩ := build_bare builtOn
  obtain ⟨_, other, hu, ho, rfl⟩ := build_bare builtOff
  obtain ⟨sink, -, rfl⟩ := TraceConfig.tracer?_of_enabled enabled ht
  obtain rfl := TraceConfig.tracer?_of_disabled disabled hu
  obtain rfl : identity = other := Option.some.inj (hi.symm.trans ho)
  exact ⟨rfl, rfl⟩

namespace Transport

variable {σ : Type}

theorem map_reading_send (t : Transport σ) (r : Request) :
    (t.send r).1.map Reply.reading =
      (t.roundTrip r).1.map fun response => (Reply.mk response t.chain.maxBodySize).reading := by
  rw [send_eq]
  cases (t.roundTrip r).1 <;> rfl

theorem send_eq_ok {t : Transport σ} {r : Request} {reply : Reply} :
    (t.send r).1 = .ok reply ↔ ∃ response, (t.roundTrip r).1 = .ok response ∧
      t.reply response = reply := by
  rw [send_eq]
  cases (t.roundTrip r).1 with
  | error e => simp [Except.map]
  | ok response => simp [Except.map]

/-- **Tracing is transparent.** Two transports that were built alike but for the trace send the
same request, at any moment when they have a connection in the same state, the same draws ahead and
the same door. If no answer is a page or has a body that fails, once inflated, before it ends or
exceeds the limit, both hand the same requests to the connection and bring what reads the same, and
are alike afterwards. The traced one shows the beginning of the body that it brings, up to the
limit, with a note exactly if the body is longer, and no other response. -/
theorem send_traced (b : Builder) (on off : TraceConfig) (enabled : on.enabled = true)
    (disabled : off.enabled = false) {connection : Connection σ} {wire : List Request × σ}
    {built built' t u : Transport (List Request × σ)} {events events' : List Event}
    (builtOn : (b.tracingTo on).build (.bare connection.recorded wire) = (.ok built, events))
    (builtOff : (b.tracingTo off).build (.bare connection.recorded wire) = (.ok built', events'))
    (chainOn : t.chain = built.chain) (chainOff : u.chain = built'.chain)
    (link : u.connection = connection.recorded) (alike : t.Alike u)
    (plain : ∀ q s, u.chain.Plain (u.chain.received (connection.answer q s).1)) (r : Request) :
    (t.send r).2.Alike (u.send r).2 ∧
    (t.send r).2.wire.1 = (u.send r).2.wire.1 ∧
    (t.send r).1.map Reply.reading = (u.send r).1.map Reply.reading ∧
    ((t.send r).1.bind Reply.errorForStatus).map Reply.reading =
      ((u.send r).1.bind Reply.errorForStatus).map Reply.reading ∧
    ∀ reply, (t.send r).1 = .ok reply → t.Keeps → ∃ before number q,
      (∀ record ∈ before, record.isResponse = false) ∧
      (t.send r).2.kept = t.kept ++ before ++ .ofRequest on.redact number q ::
        .block .response number (reply.response.toResponseHead.dump [] ++
            Utf8.lossy (reply.response.body.data.take reply.maxBodySize)) ::
          if reply.maxBodySize < reply.response.body.data.length then
            [.truncated number reply.maxBodySize]
          else [] := by
  obtain ⟨traced, untraced⟩ := Builder.chain_tracingTo enabled disabled builtOn builtOff
  rw [← chainOn, ← chainOff] at traced
  rw [← chainOff] at untraced
  obtain ⟨⟨after, -⟩, seen⟩ := roundTrip_traced ⟨alike, link⟩ traced untraced
    (fun q s => plain q s.2) r
  have limit : t.chain.maxBodySize = u.chain.maxBodySize := by rw [traced, Chain.traced]
  have reads : (t.send r).1.map Reply.reading = (u.send r).1.map Reply.reading := by
    rw [map_reading_send, map_reading_send, limit]
    exact seen.reading
  refine ⟨after, congrArg Prod.fst after.wire, reads, Reply.reading_errorForStatus reads, ?_⟩
  intro reply answered keeps
  obtain ⟨response, brought, rfl⟩ := send_eq_ok.1 answered
  have shows : t.chain.tracing = .on on.redact := by rw [traced, Chain.traced]
  obtain ⟨before, number, q, quiet, shown⟩ := kept_roundTrip_of_ok shows keeps brought
  refine ⟨before, number, q, quiet, ?_⟩
  rw [Record.ofResponse, ResponseHead.dump_eq] at shown
  exact shown

/-- A connection that leaves the first request unanswered and answers every other with six octets
in two frames. -/
def twoFrames : Connection Nat where
  unready _ := none
  answer _ served :=
    (⟨if served = 0 then .never else .none,
      .ok { status := .ok, body := [.data [0x61, 0x62, 0x63], .data [0x64, 0x65, 0x66]] }⟩,
      served + 1)

/-- A builder whose transports read no more than four octets of a body. -/
def shortReader : Builder := { config := { retry := .fast, maxBodySize := 4 } }

theorem plain_twoFrames {c : Chain} (limit : c.maxBodySize = 4) (q : Request) (served : Nat) :
    c.Plain (c.received (twoFrames.answer q served).1) := by
  intro response h
  cases served with
  | zero => cases h
  | succ served =>
    cases h
    rw [limit]
    refine ⟨rfl, ?_⟩
    intro e fails
    cases fails

/-- Nothing shows whether a body that is too large was traced. -/
theorem send_traced_twoFrames : ∃ t u events events',
    (shortReader.tracingTo (.to .empty)).build (.bare twoFrames.recorded ([], 0)) =
      (.ok t, events) ∧
    (shortReader.tracingTo {}).build (.bare twoFrames.recorded ([], 0)) = (.ok u, events') ∧
    (t.send homeRequest).1.toOption.isSome = true ∧
    (t.send homeRequest).1.map Reply.reading = (u.send homeRequest).1.map Reply.reading ∧
    (t.send homeRequest).2.wire.1 = (u.send homeRequest).2.wire.1 := by
  refine ⟨_, _, _, _, rfl, rfl, rfl, ?_⟩
  obtain ⟨-, received, reads, -⟩ := send_traced shortReader (.to .empty) {} rfl rfl rfl rfl rfl rfl
    rfl ⟨rfl, rfl, rfl, rfl, rfl⟩ (plain_twoFrames rfl) homeRequest
  exact ⟨reads, received⟩

end Transport

end Courier
