import Courier.Proofs.Limits

/-!
# What is handed on of a stream

A traced call reads a body for its dump and hands on what it has made of it. To a reader that does
not look at how the data is cut into frames, that is the body that arrived without the trailers that
came while it was read for the dump: all of them if the data is within the limit, and otherwise
those before which no more data had come than the limit allows (`streamLaw_of_on`).
-/
namespace Courier

namespace Body

/-! ## Streams -/

/-- What a reader comes upon, however the data is cut into frames. -/
inductive Item where
  | octet (b : UInt8)
  | trailers (fields : Headers)
deriving DecidableEq

/-- What a reader comes upon up to the end or the first failure. -/
def items : Body → List Item
  | [] => []
  | .data bytes :: rest => bytes.map .octet ++ items rest
  | .trailers fields :: rest => .trailers fields :: items rest
  | .failed _ :: _ => []

/-- The data of a stream. -/
def octets : List Item → Bytes
  | [] => []
  | .octet b :: stream => b :: octets stream
  | .trailers _ :: stream => octets stream

/-- A stream without the trailers that come before more octets than the limit allows. -/
def keepLate : Nat → List Item → List Item
  | _, [] => []
  | limit, .trailers _ :: stream => keepLate limit stream
  | 0, .octet b :: stream => .octet b :: stream
  | limit + 1, .octet b :: stream => .octet b :: keepLate limit stream

/-- All trailers come after more octets than the limit allows. -/
def AllLate (limit : Nat) (stream : List Item) : Prop :=
  ∀ before fields after, stream = before ++ .trailers fields :: after →
    limit < (octets before).length

variable {limit : Nat} {body before rest tail : Body} {head : Bytes} {stream : List Item}

theorem octets_append (first second : List Item) :
    octets (first ++ second) = octets first ++ octets second := by
  induction first with
  | nil => rfl
  | cons item first ih => cases item <;> simp [octets, ih]

theorem octets_map_octet (bytes : Bytes) : octets (bytes.map .octet) = bytes := by
  induction bytes with
  | nil => rfl
  | cons b bytes ih => rw [List.map_cons, octets, ih]

/-- The data of a body is that of its stream. -/
theorem octets_items (body : Body) : octets body.items = body.data := by
  induction body with
  | nil => rfl
  | cons frame body ih =>
    cases frame with
    | data bytes => rw [items, octets_append, octets_map_octet, ih, data]
    | trailers fields => exact ih
    | failed cause => rfl

theorem items_full (bytes : Bytes) : (full bytes).items = bytes.map .octet := by
  unfold full
  split
  next none => rw [List.isEmpty_iff.1 none]; rfl
  next some => rw [items, items, List.append_nil]

theorem keepLate_map_octet_append {bytes : Bytes} (within : bytes.length ≤ limit) :
    keepLate limit (bytes.map .octet ++ stream) =
      bytes.map .octet ++ keepLate (limit - bytes.length) stream := by
  induction bytes generalizing limit with
  | nil => rfl
  | cons b bytes ih =>
    obtain ⟨limit, rfl⟩ := Nat.exists_eq_add_one_of_ne_zero (Nat.ne_zero_of_lt within)
    rw [List.length_cons, Nat.add_le_add_iff_right] at within
    rw [List.map_cons, List.cons_append, keepLate, ih within, List.length_cons,
      Nat.add_sub_add_right]
    rfl

/-- Behind more octets than the limit allows, everything is kept. -/
theorem keepLate_of_beyond {bytes : Bytes} (beyond : limit < bytes.length) :
    keepLate limit (bytes.map .octet ++ stream) = bytes.map .octet ++ stream := by
  induction bytes generalizing limit with
  | nil => cases beyond
  | cons b bytes ih =>
    cases limit with
    | zero => rfl
    | succ limit =>
      rw [List.length_cons, Nat.add_lt_add_iff_right] at beyond
      rw [List.map_cons, List.cons_append, keepLate, ih beyond]

theorem length_keepLate_le (limit : Nat) (stream : List Item) :
    (keepLate limit stream).length ≤ stream.length := by
  fun_induction keepLate limit stream with
  | case1 => exact Nat.le_refl _
  | case2 limit fields stream ih => exact Nat.le_succ_of_le ih
  | case3 => exact Nat.le_refl _
  | case4 limit b stream ih => exact Nat.succ_le_succ ih

theorem not_allLate_trailers {fields : Headers} : ¬ AllLate limit (.trailers fields :: stream) :=
  fun late => absurd (late [] fields stream rfl) (Nat.not_lt_zero _)

theorem allLate_zero_octet {b : UInt8} : AllLate 0 (.octet b :: stream) := by
  intro before fields after split
  obtain ⟨-, same⟩ | ⟨before, rfl, -⟩ := List.cons_eq_append_iff.1 split
  · cases same
  · exact Nat.succ_pos _

theorem allLate_succ_octet {b : UInt8} :
    AllLate (limit + 1) (.octet b :: stream) ↔ AllLate limit stream := by
  constructor
  · intro late before fields after split
    have further := late (.octet b :: before) fields after (by rw [split, List.cons_append])
    exact Nat.lt_of_succ_lt_succ further
  · intro late before fields after split
    obtain ⟨-, same⟩ | ⟨before, rfl, further⟩ := List.cons_eq_append_iff.1 split
    · cases same
    · exact Nat.succ_lt_succ (late before fields after further)

/-- Nothing is missing exactly if all trailers come late. -/
theorem keepLate_eq_self_iff : keepLate limit stream = stream ↔ AllLate limit stream := by
  fun_induction keepLate limit stream with
  | case1 => exact iff_of_true rfl fun before fields after split => by simp at split
  | case2 limit fields stream ih =>
    refine iff_of_false (fun same => ?_) not_allLate_trailers
    have shorter := length_keepLate_le limit stream
    rw [same, List.length_cons] at shorter
    omega
  | case3 b stream => exact iff_of_true rfl allLate_zero_octet
  | case4 limit b stream ih => rw [List.cons.injEq, eq_self, true_and, ih, allLate_succ_octet]

/-! ## Bodies that have been read up to the limit -/

/-- What comes within the limit is kept without its trailers. -/
theorem keepLate_items_append (intact : Intact before) (within : (data before).length ≤ limit)
    (tail : Body) :
    keepLate limit (items (before ++ tail)) =
      (data before).map .octet ++ keepLate (limit - (data before).length) (items tail) := by
  induction before generalizing limit with
  | nil => rfl
  | cons frame before ih =>
    obtain ⟨sound, later⟩ := intact_cons.1 intact
    cases frame with
    | data bytes =>
      rw [data, List.length_append] at within
      rw [List.cons_append, items, keepLate_map_octet_append (by omega), ih later (by omega), data,
        List.map_append, List.append_assoc, List.length_append, Nat.sub_add_eq]
    | trailers fields => exact ih later within
    | failed cause => exact absurd rfl (sound cause)

theorem intact_full (bytes : Bytes) : Intact (full bytes) := by
  unfold full
  split <;> simp [Intact]

/-- Of a body within the limit its data is left. -/
theorem items_full_of_carries {bytes : Bytes} (carries : body.Carries limit bytes) :
    (full bytes).items = keepLate limit body.items := by
  obtain ⟨intact, rfl, within⟩ := carries
  have whole := keepLate_items_append intact within []
  rw [List.append_nil] at whole
  rw [whole, items_full, items, keepLate, List.append_nil]

/-- A body that is put together again has lost the trailers that were read. -/
theorem items_resume_of_overflows (overflows : body.Overflows limit head rest) :
    (resume head rest).items = keepLate limit body.items := by
  obtain ⟨before, last, rfl, intact, rfl, within, beyond⟩ := overflows
  rw [List.length_append] at beyond
  rw [keepLate_items_append intact within, items, keepLate_of_beyond (by omega), resume, items,
    List.map_append, List.append_assoc]

end Body

/-! ## Traced calls -/

open Body

/-- What a traced attempt makes of a response with an intact body. -/
structure Retold (limit : Nat) (below received : Response) : Prop where
  head : received.toResponseHead = below.toResponseHead
  intact : received.body.Intact
  data : received.body.data = below.body.data
  /-- The trailers that come late are where they were, and the others are nowhere. -/
  items : received.body.items = keepLate limit below.body.items
  /-- So the stream is the one that arrived exactly if all its trailers come late. -/
  whole_iff : received.body.items = below.body.items ↔ AllLate limit below.body.items

namespace Chain

variable {c : Chain} {below : Response}

theorem retold_of_items {limit : Nat} {body : Body} (intact : body.Intact)
    (data : body.data = below.body.data) (items : body.items = keepLate limit below.body.items) :
    Retold limit below { below with body := body } :=
  ⟨rfl, intact, data, items, by rw [items, keepLate_eq_self_iff]⟩

/-- Reading an intact body for the dump does not fail. -/
theorem rebuilt_of_intact (intact : below.body.Intact) :
    ∃ received, c.rebuilt (.ok below) = .ok received ∧ Retold c.maxBodySize below received := by
  rw [rebuilt]
  split
  next e failed =>
    obtain ⟨cause, ⟨before, after, whole, -⟩, -⟩ := buffer_eq_error_iff.1 failed
    exact absurd (by simp [whole]) (intact cause)
  next bytes complete =>
    have carries := buffer_eq_complete_iff.1 complete
    refine ⟨_, rfl, retold_of_items (intact_full bytes) ?_ (items_full_of_carries carries)⟩
    rw [← octets_items, items_full, octets_map_octet, carries.data]
  next head rest overflow =>
    have overflows := buffer_eq_overflow_iff.1 overflow
    refine ⟨_, rfl, retold_of_items ?_ (replayed_of_overflows overflows).data
      (items_resume_of_overflows overflows)⟩
    obtain ⟨before, last, whole, -⟩ := overflows
    refine intact_cons.2 ⟨(fun _ same => by cases same), fun cause failing => intact cause ?_⟩
    rw [whole]
    exact List.mem_append_right _ (List.mem_cons_of_mem _ failing)

theorem retold_of_answer {redact : Bool} (on : c.tracing = .on redact) {r : Request}
    {steps : List Step} {final : Outcome} (h : (c.call r).Ends steps final) {answer : Answer}
    (brought : answer ∈ answers steps) (brings : c.received answer = .ok below)
    (intact : below.body.Intact) :
    ∃ received, final = .ok received ∧ Retold c.maxBodySize below received := by
  obtain ⟨loop, o, attempts, rfl, rfl⟩ := ends_call h
  obtain ⟨received, rebuilds, retold⟩ := rebuilt_of_intact (c := c) intact
  have observes : c.observed answer = .ok received := by rw [observed, on, brings]; exact rebuilds
  rw [answers_append, (views_logging _).2.1, List.append_nil] at brought
  obtain rfl := attempts.eq_ok_of_answer brought observes
  exact ⟨received, by rw [settledOutcome, on], retold⟩

end Chain

namespace Transport

variable {σ : Type}

/-- What a transport brings of responses whose body does not fail. -/
structure StreamLaw (t : Transport σ) : Prop where
  /-- Of a request that is sent alone. -/
  sent : ∀ r answer below, (t.closed <|> t.connection.unready t.wire) = none →
    answer ∈ answers (t.steps (t.chain.call r)) → t.chain.received answer = .ok below →
    below.body.Intact →
    ∃ received, (t.send r).1 = .ok (t.reply received) ∧
      Retold t.chain.maxBodySize below received
  /-- Of requests that take turns. -/
  followed : ∀ (rs : List Request) (schedule : List Nat) (i : Nat) (r : Request)
    (left : Turn Chain.Outcome) (value : Chain.Outcome) (answer : Answer) (below : Response),
    rs[i]? = some r → (t.follow (t.callsOf rs) schedule).1[i]? = some left →
    left.value? = some value → answer ∈ answers (stepsOf i (t.log (t.callsOf rs) schedule)) →
    t.chain.received answer = .ok below → below.body.Intact →
    ∃ received, value = .ok received ∧ Retold t.chain.maxBodySize below received

/-- **Traced streams.** On a transport that traces, under every limit, a response whose body does
not fail is brought with the same head and the same data, whatever its content type. Its trailers
are brought where they were if more octets than the limit allows come before them; the others are
lost, so that the stream is the one that arrived exactly if there are none of these. -/
theorem streamLaw_of_on (t : Transport σ) {redact : Bool} (on : t.chain.tracing = .on redact) :
    StreamLaw t := by
  constructor
  · intro r answer below opened brought brings intact
    obtain ⟨received, final, retold⟩ :=
      Chain.retold_of_answer on (t.ends_run (t.chain.call r)) brought brings intact
    obtain ⟨cause, shut, -⟩ | ⟨-, runs⟩ := roundTrip_cases t r
    · rw [opened] at shut
      cases shut
    · rw [← runs] at final
      exact ⟨received, send_eq_ok.2 ⟨_, final, rfl⟩, retold⟩
  · intro rs schedule i r left value answer below hr hl hv brought brings intact
    exact Chain.retold_of_answer on (follow_ends (getElem?_callsOf hr) hl hv) brought brings intact

/-- A response of two octets in one frame, with trailers behind them. -/
def trailing : Response where
  status := .ok
  body := [.data [0x68, 0x69], .trailers ⟨[(.contentType, .json)]⟩]

theorem intact_trailing : trailing.body.Intact := by simp [Intact, trailing]

/-- A transport that traces under a limit and is always answered so. -/
def tracingUpTo (limit : Nat) : Transport Unit :=
  { stalling with
    chain := { stalling.chain with maxBodySize := limit }
    connection := { unready := fun _ => none, answer := fun _ s => (⟨.none, .ok trailing⟩, s) } }

/-- Under a limit of one octet the trailers come late enough. -/
theorem streamLaw_tracingUpTo_one :
    ∃ received, ((tracingUpTo 1).send homeRequest).1 = .ok ((tracingUpTo 1).reply received) ∧
      received.body.items = trailing.body.items := by
  obtain ⟨received, sent, retold⟩ := (streamLaw_of_on (tracingUpTo 1) rfl).sent homeRequest
    ⟨.none, .ok trailing⟩ trailing rfl (List.mem_singleton.2 rfl) rfl intact_trailing
  exact ⟨received, sent, by rw [retold.items]; decide⟩

/-- Not every stream is handed on whole: under a limit of two octets the trailers are lost. -/
theorem send_tracingUpTo_two :
    trailing.headers.isHtml = false ∧ (tracingUpTo 2).chain.tracing = .on true ∧
      ⟨.none, .ok trailing⟩ ∈
        answers ((tracingUpTo 2).steps ((tracingUpTo 2).chain.call homeRequest)) ∧
      (tracingUpTo 2).chain.received ⟨.none, .ok trailing⟩ = .ok trailing ∧
      trailing.body.Intact ∧
      ∃ received, ((tracingUpTo 2).send homeRequest).1 = .ok ((tracingUpTo 2).reply received) ∧
        received.body.items ≠ trailing.body.items := by
  have brought : ⟨.none, .ok trailing⟩ ∈
      answers ((tracingUpTo 2).steps ((tracingUpTo 2).chain.call homeRequest)) :=
    List.mem_singleton.2 rfl
  obtain ⟨received, final, retold⟩ :=
    Chain.retold_of_answer rfl (ends_run _ _) brought rfl intact_trailing
  refine ⟨by decide +kernel, rfl, brought, rfl, intact_trailing, received,
    send_eq_ok.2 ⟨_, final, rfl⟩, ?_⟩
  rw [retold.items]
  decide

end Transport
end Courier
