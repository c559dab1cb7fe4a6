import Courier.Api.Client
import Courier.Proofs.Answered
import Courier.Proofs.Documents
import Courier.Proofs.Transparency

/-!
# Pages of intermediaries

A page is replaced by a document with one entry, which depends on the head of the page and on the
request, and on nothing else (`pageLaw_of_off`). The document is told from an answer of the service
by its status only: unless that is a success, every way of reading it fails, and if it is one, the
document is read as such (`substitutionLaw_of_off`).
-/
namespace Courier

/-! ## The length of a document -/

theorem isValueByte_of_isDigit {c : Char} (h : c.isDigit = true) :
    (String.utf8EncodeChar c).all isValueByte = true := by
  have digits : ∀ n : Fin 10,
      (String.utf8EncodeChar (Char.ofNat (48 + n))).all isValueByte = true := by decide
  simp only [Char.isDigit, Bool.and_eq_true, decide_eq_true_eq, ge_iff_le,
    UInt32.le_iff_toNat_le] at h
  have low : 48 ≤ c.toNat := h.1
  have high : c.toNat ≤ 57 := h.2
  have legal := digits ⟨c.toNat - 48, by omega⟩
  rwa [show 48 + (c.toNat - 48) = c.toNat by omega, Char.ofNat_toNat] at legal

/-- The octets of a number are its digits. -/
theorem HeaderValue.bytes_ofNat (n : Nat) : (ofNat n).bytes = Utf8.encode (toString n) := by
  have legal : (Utf8.encode (toString n)).all isValueByte = true := by
    rw [Utf8.encode, Nat.toString_eq_repr, Nat.toList_repr, List.all_flatMap]
    refine List.all_eq_true.2 fun c hc => ?_
    exact isValueByte_of_isDigit (Nat.isDigit_of_mem_toDigits (by decide) (by decide) hc)
  cases hv : ofText? (toString n) with
  | none =>
    rw [ofText?_eq_none_iff, legal] at hv
    cases hv
  | some v =>
    rw [ofNat, hv]
    exact bytes_of_ofText? hv

/-! ## Reading a body that is all there -/

namespace Reply

variable {r : Reply} {bytes : Bytes}

theorem bytes_of_full (full : r.response.body = Body.full bytes)
    (le : bytes.length ≤ r.maxBodySize) : r.bytes = .ok bytes := by
  rw [Reply.bytes, Body.readLimited, full, Body.buffer_full le]

theorem bytes_of_full_of_lt (full : r.response.body = Body.full bytes)
    (more : r.maxBodySize < bytes.length) :
    r.bytes = .error (.bodyTooLarge r.maxBodySize bytes.length) := by
  cases bytes with
  | nil => cases more
  | cons b bytes =>
    have overflows : Body.buffer r.maxBodySize (Body.full (b :: bytes)) =
        .ok (.overflow (b :: bytes) []) := by
      simp only [Body.full, List.isEmpty_cons, Bool.false_eq_true, if_false, Body.buffer,
        Body.bufferFrom, List.nil_append, if_pos more]
    rw [Reply.bytes, Body.readLimited, full, overflows]

theorem checkedBytes_of_isSuccess (success : r.response.status.isSuccess = true) :
    r.checkedBytes = r.bytes := by
  rw [checkedBytes, if_pos success]

/-- Unless its status is a success, nothing is read from a reply. -/
theorem exists_checkedBytes_eq_error (failed : r.response.status.isSuccess = false) :
    ∃ e, r.checkedBytes = .error e := by
  rw [checkedBytes, if_neg (by simp [failed])]
  split
  · exact ⟨_, rfl⟩
  · exact ⟨_, rfl⟩
  · exact ⟨_, rfl⟩

/-- A body that carries an envelope fails with it, unless the status is a success. -/
theorem checkedBytes_of_parse? (failed : r.response.status.isSuccess = false)
    (read : r.bytes = .ok bytes) {envelope : Envelope}
    (carries : Envelope.parse? bytes = some envelope) :
    r.checkedBytes = .error (.api r.response.status envelope) := by
  rw [checkedBytes, if_neg (by simp [failed]), read]
  simp only [rejection, carries]

theorem text_of_error {e : Failure} (h : r.checkedBytes = .error e) : r.text = .error e := by
  rw [Reply.text, h]
  rfl

theorem json_of_error {e : Failure} (h : r.checkedBytes = .error e) : r.json = .error e := by
  rw [json, h]

/-- An envelope that is all there is what every reading of a failed status ends with. -/
theorem rejected_of_full {response : Response} {limit : Nat} {envelope : Envelope}
    (full : response.body = Body.full bytes) (failed : response.status.isSuccess = false)
    (carries : Envelope.parse? bytes = some envelope) (le : bytes.length ≤ limit) :
    (Reply.mk response limit).checkedBytes = .error (.api response.status envelope) ∧
      (Reply.mk response limit).text = .error (.api response.status envelope) ∧
      (Reply.mk response limit).json = .error (.api response.status envelope) := by
  have read : (Reply.mk response limit).bytes = .ok bytes := bytes_of_full full le
  have checked := checkedBytes_of_parse? failed read carries
  exact ⟨checked, text_of_error checked, json_of_error checked⟩

theorem json_of_ok {v : Json} (h : r.checkedBytes = .ok bytes) (read : Json.parse? bytes = some v) :
    r.json = .ok v := by
  rw [json, h]
  simp only [read]

end Reply

/-! ## What stands in for a page -/

namespace ProxyPage

/-- The entry that tells of a page. -/
def entry (r : Request) (page : ResponseHead) : Entry where
  code := toString page.status.code
  fields := some [r.method.text ++ " " ++ r.uri.path]
  message := page.status.reason

theorem not_mem_path (u : Uri) : '?' ∉ u.path.toList := by
  intro query
  unfold Uri.path at query
  split at query
  · cases query
  · simp only at query
    split at query
    · simp at query
    · rw [String.toList_ofList] at query
      simpa using List.all_eq_true.1 List.all_takeWhile _ query

/-- The response stands in for a page with the given head that answered the request. -/
structure StandsIn (r : Request) (page : ResponseHead) (standIn : Response) (bytes : Bytes) :
    Prop where
  status : standIn.status = page.status
  version : standIn.version = page.version
  contentType : ∃ v, standIn.headers.values .contentType = [v] ∧
    v.bytes = Utf8.encode "application/json"
  contentLength : ∃ v, standIn.headers.values .contentLength = [v] ∧
    v.bytes = Utf8.encode (toString bytes.length)
  others : ∀ name, name ≠ .contentType → name ≠ .contentLength →
    standIn.headers.values name = page.headers.values name
  body : standIn.body = Body.full bytes
  reads : Envelope.parse? bytes = some ⟨[entry r page]⟩
  /-- The path that the entry tells is without the query. -/
  path : '?' ∉ r.uri.path.toList
  /-- Whoever checks the status gets the entry, if the status is no success. -/
  rejected : ∀ limit, page.status.isSuccess = false → bytes.length ≤ limit →
    (Reply.mk standIn limit).checkedBytes = .error (.api page.status ⟨[entry r page]⟩) ∧
    (Reply.mk standIn limit).text = .error (.api page.status ⟨[entry r page]⟩) ∧
    (Reply.mk standIn limit).json = .error (.api page.status ⟨[entry r page]⟩)

/-- The envelope that stands in for a page. -/
def envelope (r : Request) (page : ResponseHead) : Envelope := ⟨[entry r page]⟩

theorem forProxyPage_eq (r : Request) (page : ResponseHead) :
    Envelope.forProxyPage page.status r.method r.uri.path = envelope r page := rfl

theorem replacement_eq (r : Request) (page : Response) :
    replacement r page =
      { page with
        headers := (page.headers.insert .contentType .json).insert .contentLength
          (HeaderValue.ofNat (envelope r page.toResponseHead).encode.length)
        body := Body.full (envelope r page.toResponseHead).encode } := by
  rw [replacement, forProxyPage_eq]

theorem standsIn_replacement (r : Request) (page : Response) :
    StandsIn r page.toResponseHead (replacement r page)
      (envelope r page.toResponseHead).encode := by
  rw [replacement_eq]
  generalize hb : (envelope r page.toResponseHead).encode = bytes
  have reads : Envelope.parse? bytes = some (envelope r page.toResponseHead) := by
    rw [← hb]
    exact Envelope.parse?_encode _ (by simp [envelope])
  refine ⟨rfl, rfl, ?_, ?_, ?_, rfl, reads, not_mem_path r.uri, ?_⟩
  · refine ⟨.json, ?_, by decide⟩
    rw [Headers.values_insert_of_ne _ _ (by decide), Headers.values_insert_self]
  · exact ⟨_, Headers.values_insert_self .., HeaderValue.bytes_ofNat _⟩
  · intro name notType notLength
    rw [Headers.values_insert_of_ne _ _ notLength.symm,
      Headers.values_insert_of_ne _ _ notType.symm]
  · intro limit failed le
    exact Reply.rejected_of_full rfl failed reads le

/-- What becomes of the answer to a request. -/
structure PageLaw (r : Request) (o final : Except Failure Response) : Prop where
  failed : ∀ e, o = .error e → final = .error e
  other : ∀ response, o = .ok response → response.headers.isHtml = false → final = .ok response
  /-- A page is replaced, and the body of the page does not matter. -/
  page : ∀ page, o = .ok page → page.headers.isHtml = true → ∃ standIn bytes,
    final = .ok standIn ∧ StandsIn r page.toResponseHead standIn bytes ∧
      ∀ body, (normalize r (.ok { page with body := body })).1 = .ok standIn

theorem pageLaw_normalize (r : Request) (o : Except Failure Response) :
    PageLaw r o (normalize r o).1 := by
  refine ⟨?_, ?_, ?_⟩
  · rintro e rfl
    rfl
  · rintro response rfl other
    simp [ProxyPage.normalize, other]
  · rintro page rfl html
    have replaced : ∀ body, (normalize r (.ok { page with body := body })).1 =
        .ok (replacement r page) := by
      intro body
      simp only [ProxyPage.normalize, html, if_true]
      rfl
    exact ⟨replacement r page, _, replaced page.body, standsIn_replacement r page, replaced⟩

end ProxyPage

namespace Chain

open ProxyPage

variable {c : Chain} {r : Request} {steps : List Step} {o : Outcome}

theorem settledOutcome_off (off : c.tracing = .off) (r : Request) (o : Outcome) :
    c.settledOutcome r o = (normalize r o).1 := by
  rw [settledOutcome, off]

/-- Stamping a request leaves its method and its path. -/
theorem normalize_stamped (r : Request) (o : Outcome) :
    normalize (c.stamped r) o = normalize r o := by
  cases o with
  | error e => rfl
  | ok response => rfl

/-- The outcome of the attempts of a call, and what becomes of it. -/
theorem pageLaw_of_ends (off : c.tracing = .off) {final : Outcome}
    (h : (c.call r).Ends steps final) :
    ∃ (attempts : List Step) (events : List Event) (o : Outcome),
      steps = attempts ++ events.map .logging ∧
      (c.retrying (c.stamped r) c.retry.maxRetries).Ends attempts o ∧ PageLaw r o final := by
  obtain ⟨attempts, _, o, rfl, retried, settled⟩ := Call.ends_bind.1 h
  obtain ⟨rfl, rfl⟩ := ends_settle settled
  refine ⟨attempts, _, o, rfl, retried, ?_⟩
  rw [settledOutcome_off off, normalize_stamped]
  exact pageLaw_normalize r o

theorem Attempted.eq_of_answer (h : c.Attempted r steps o) {answer : Answer}
    (brought : answer ∈ answers steps) : c.observed answer = o := by
  obtain ⟨step, hs, ha⟩ := List.mem_filterMap.1 brought
  exact h.observed_eq hs ha

/-- An answer that an attempt passes on as a response is the outcome of all attempts. -/
theorem Loop.eq_ok_of_answer {left : Nat} (h : c.Loop r left steps o) {answer : Answer}
    {response : Response} (brought : answer ∈ answers steps)
    (passed : c.observed answer = .ok response) : o = .ok response := by
  induction h with
  | refused e => cases brought
  | @settled left tail o ha ends =>
    have among : answer ∈ answers tail := brought
    rw [← ha.eq_of_answer among, passed]
  | @exhausted tail e ha late event =>
    rw [answers_cons, answers_append, (views_giveUpSteps event).2.1, List.append_nil] at brought
    have failed := ha.eq_of_answer brought
    rw [passed] at failed
    cases failed
  | @again left tail rest e o ha late draw event more ih =>
    have waits := (views_backOffSteps (c := c) left draw event).2.1
    have among : answer ∈ answers tail ∨ answer ∈ answers rest := by
      simpa [Step.answer?, waits] using brought
    rcases among with here | later
    · have failed := ha.eq_of_answer here
      rw [passed] at failed
      cases failed
    · exact ih later

end Chain

namespace Transport

open ProxyPage

variable {σ : Type}

/-- **Pages of intermediaries.** On a transport that traces nothing, whether calls run alone or take
turns, what the caller gets is the outcome of the attempts if that is a failure or no page; and if
it is a page, whatever its status, its other headers and its body, it is a response with the same
status and version whose document has one entry, which tells the status and the request. -/
theorem pageLaw_of_off (t : Transport σ) (off : t.chain.tracing = .off) :
    (∀ r, (t.roundTrip r).1 = .error .serviceClosed ∨
      ∃ (attempts : List Step) (events : List Event) (o : Chain.Outcome),
        t.steps (t.chain.call r) = attempts ++ events.map .logging ∧
        (t.chain.retrying (t.chain.stamped r) t.chain.retry.maxRetries).Ends attempts o ∧
        PageLaw r o (t.roundTrip r).1) ∧
    ∀ (rs : List Request) (schedule : List Nat) (i : Nat) (r : Request) (left : Turn Chain.Outcome)
      (value : Chain.Outcome), rs[i]? = some r →
      (t.follow (t.callsOf rs) schedule).1[i]? = some left → left.value? = some value →
      ∃ (attempts : List Step) (events : List Event) (o : Chain.Outcome),
        stepsOf i (t.log (t.callsOf rs) schedule) = attempts ++ events.map .logging ∧
        (t.chain.retrying (t.chain.stamped r) t.chain.retry.maxRetries).Ends attempts o ∧
        PageLaw r o value := by
  constructor
  · intro r
    obtain ⟨cause, -, refused⟩ | ⟨-, runs⟩ := roundTrip_cases t r
    · exact .inl (by rw [refused])
    · rw [runs]
      exact .inr (Chain.pageLaw_of_ends off (t.ends_run _))
  · intro rs schedule i r left value hr hl hv
    exact Chain.pageLaw_of_ends off (follow_ends (getElem?_callsOf hr) hl hv)

/-- Behind a proxy that cannot reach the service, the entry tells the status and the request. -/
theorem pageLaw_behindProxy :
    ∃ standIn bytes, (behindProxy.roundTrip homeRequest).1 = .ok standIn ∧
      standIn.body = Body.full bytes ∧
      Envelope.parse? bytes = some ⟨[⟨"502", some ["GET /"], "Bad Gateway"⟩]⟩ := by
  obtain ⟨alone, -⟩ := pageLaw_of_off behindProxy rfl
  obtain refused | ⟨attempts, events, o, same, retried, law⟩ := alone homeRequest
  · have answered : (behindProxy.roundTrip homeRequest).1.toOption.isSome = true := by
      decide +kernel
    rw [refused] at answered
    cases answered
  · have brought : ⟨.none, .ok proxyPage⟩ ∈ answers attempts := by
      have all : answers (behindProxy.steps (behindProxy.chain.call homeRequest)) =
          [⟨.none, .ok proxyPage⟩] := rfl
      rw [same, answers_append, (views_logging events).2.1, List.append_nil] at all
      simp [all]
    have page : o = .ok proxyPage := (Chain.ends_retrying retried).eq_ok_of_answer brought rfl
    obtain ⟨standIn, bytes, final, stands, -⟩ := law.page proxyPage page rfl
    exact ⟨standIn, bytes, final, stands.body, stands.reads⟩

end Transport

/-! ## What is read from the document -/

namespace ProxyPage

/-- What is read where the answer to a request was a page with the given status: the document, if
the status is a success and the document is within the limit, and an error otherwise. -/
structure Substituted {ε : Type} (r : Request) (status : Status) (limit : Nat)
    (result : Except ε Json) : Prop where
  decoded : status.isSuccess = true →
    (Envelope.forProxyPage status r.method r.uri.path).encode.length ≤ limit →
    result = .ok (Envelope.forProxyPage status r.method r.uri.path).toJson
  refused : status.isSuccess = false ∨
    limit < (Envelope.forProxyPage status r.method r.uri.path).encode.length →
    ∃ e, result = .error e

theorem substituted_of_full {r : Request} {response : Response} (limit : Nat)
    (full : response.body =
      Body.full (Envelope.forProxyPage response.status r.method r.uri.path).encode) :
    Substituted r response.status limit (Reply.mk response limit).json := by
  constructor
  · intro success le
    have read : (Reply.mk response limit).bytes = .ok _ := Reply.bytes_of_full full le
    have checked := Reply.checkedBytes_of_isSuccess (r := ⟨response, limit⟩) success
    exact Reply.json_of_ok (checked.trans read) (Envelope.json_parse?_encode _)
  · intro bad
    cases success : response.status.isSuccess with
    | false =>
      obtain ⟨e, failed⟩ := Reply.exists_checkedBytes_eq_error (r := ⟨response, limit⟩) success
      exact ⟨e, Reply.json_of_error failed⟩
    | true =>
      have more := bad.resolve_left (by simp [success])
      have read : (Reply.mk response limit).bytes = .error _ :=
        Reply.bytes_of_full_of_lt full more
      have checked := Reply.checkedBytes_of_isSuccess (r := ⟨response, limit⟩) success
      exact ⟨_, Reply.json_of_error (checked.trans read)⟩

theorem head_replacement (r : Request) (page : Response) :
    (replacement r page).status = page.status ∧
      (replacement r page).body =
        Body.full (Envelope.forProxyPage page.status r.method r.uri.path).encode := by
  simp only [replacement, and_self]

/-- What is read from a reply in which a page was replaced. -/
theorem substituted_replacement (r : Request) (page : Response) (limit : Nat) :
    Substituted r page.status limit (Reply.mk (replacement r page) limit).json := by
  obtain ⟨status, full⟩ := head_replacement r page
  rw [← status] at full ⊢
  exact substituted_of_full limit full

theorem Substituted.mapError {ε δ : Type} {r : Request} {status : Status} {limit : Nat}
    {result : Except ε Json} (h : Substituted r status limit result) (f : ε → δ) :
    Substituted r status limit (result.mapError f) := by
  constructor
  · intro success le
    rw [h.decoded success le]
    rfl
  · intro bad
    obtain ⟨e, failed⟩ := h.refused bad
    exact ⟨f e, by rw [failed]; rfl⟩

/-- Inflating a response leaves its status, and what it says of its type. -/
theorem expand_head (brotli : Compression.Decoder) (page : Response) :
    (Compression.expand brotli page).status = page.status ∧
      (Compression.expand brotli page).headers.isHtml = page.headers.isHtml := by
  unfold Compression.expand
  split
  · exact ⟨rfl, rfl⟩
  · refine ⟨rfl, ?_⟩
    unfold Headers.isHtml Headers.get?
    rw [Headers.values_erase_of_ne _ (by decide), Headers.values_erase_of_ne _ (by decide)]

/-- What is read from a reply in which a page was replaced that may have come compressed. -/
theorem substituted_expand (brotli : Compression.Decoder) (r : Request) (page : Response)
    (limit : Nat) :
    (replacement r (Compression.expand brotli page)).status = page.status ∧
      Substituted r page.status limit
        (Reply.mk (replacement r (Compression.expand brotli page)) limit).json := by
  have status := (expand_head brotli page).1
  refine ⟨(head_replacement r _).1.trans status, ?_⟩
  rw [← status]
  exact substituted_replacement r _ limit

end ProxyPage

open ProxyPage

/-- What a call brings that is answered in time: the response, expanded, and the document in its
place if it is a page. -/
theorem Chain.eq_normalize_of_answer {c : Chain} {r : Request} {steps : List Step}
    {final : Chain.Outcome} (off : c.tracing = .off) (h : (c.call r).Ends steps final)
    {answer : Answer} {response : Response} (brought : answer ∈ answers steps)
    (brings : answer.within c.timeout = .ok response) :
    final = (normalize r (.ok (Compression.expand c.brotli response))).1 := by
  obtain ⟨loop, o, hl, rfl, rfl⟩ := Chain.ends_call h
  rw [answers_append, (views_logging _).2.1, List.append_nil] at brought
  have passed : c.observed answer = .ok (Compression.expand c.brotli response) := by
    rw [Chain.observed, off, Chain.received, brings]
    rfl
  rw [hl.eq_ok_of_answer brought passed, Chain.settledOutcome_off off, Chain.normalize_stamped]

/-- A call that is answered with a page in time brings the document. -/
theorem Chain.eq_replacement_of_answer {c : Chain} {r : Request} {steps : List Step}
    {final : Chain.Outcome} (off : c.tracing = .off) (h : (c.call r).Ends steps final)
    {answer : Answer} {page : Response} (brought : answer ∈ answers steps)
    (brings : answer.within c.timeout = .ok page) (html : page.headers.isHtml = true) :
    final = .ok (replacement r (Compression.expand c.brotli page)) := by
  rw [Chain.eq_normalize_of_answer off h brought brings, ProxyPage.normalize,
    if_pos ((expand_head _ page).2.trans html)]

namespace Api.Client

variable {σ : Type}

/-- An operation that renders to an acceptable URL is executed by sending its request. -/
theorem execute_eq {c asked : Client σ} {op : Operation} {draft : Draft} {r : Request}
    (asks : c.request op = (.ok draft, asked)) (finishes : asked.transport.finish draft = .ok r) :
    (c.execute op).1 =
      document ((asked.transport.send r).1.mapError ApiError.ofFailure) := by
  rw [execute, send, sendWith, asks]
  simp only [Transport.sendDraft, finishes, after]

/-- What asking for an operation leaves of a client: everything but a note in the journal. -/
theorem chain_of_request {c asked : Client σ} {op : Operation} {draft : Draft}
    (asks : c.request op = (.ok draft, asked)) : asked.transport.chain = c.transport.chain := by
  rw [request] at asks
  split at asks
  · cases asks
  · cases asks
    rfl

/-- The reply that a page is answered with. -/
theorem send_of_page {t : Transport σ} (off : t.chain.tracing = .off) {r : Request}
    (opened : (t.closed <|> t.connection.unready t.wire) = none) {answer : Answer}
    {page : Response} (brought : answer ∈ answers (t.steps (t.chain.call r)))
    (brings : answer.within t.chain.timeout = .ok page) (html : page.headers.isHtml = true) :
    ∃ reply, (t.send r).1 = .ok reply ∧ reply.response.status = page.status ∧
      Substituted r page.status t.chain.maxBodySize reply.json := by
  have final := Chain.eq_replacement_of_answer off (t.ends_run (t.chain.call r)) brought brings html
  obtain ⟨cause, shut, -⟩ | ⟨-, runs⟩ := Transport.roundTrip_cases t r
  · rw [opened] at shut
    cases shut
  rw [← runs] at final
  obtain ⟨status, reads⟩ := substituted_expand t.chain.brotli r page t.chain.maxBodySize
  exact ⟨t.reply _, Transport.send_eq_ok.2 ⟨_, final, rfl⟩, status, reads⟩

/-- What a client brings of an operation that is answered with a page. -/
theorem execute_of_page {c asked : Client σ} (off : c.transport.chain.tracing = .off)
    {op : Operation} {draft : Draft} {r : Request} (asks : c.request op = (.ok draft, asked))
    (finishes : asked.transport.finish draft = .ok r)
    (opened : (asked.transport.closed <|>
      asked.transport.connection.unready asked.transport.wire) = none)
    (answer : Answer) {page : Response}
    (brought : answer ∈ answers (asked.transport.steps (asked.transport.chain.call r)))
    (brings : answer.within c.transport.chain.timeout = .ok page)
    (html : page.headers.isHtml = true) :
    Substituted r page.status c.transport.chain.maxBodySize (c.execute op).1 := by
  have same := chain_of_request asks
  rw [← same] at off brings ⊢
  obtain ⟨reply, sent, -, reads⟩ := send_of_page off opened brought brings html
  rw [execute_eq asks finishes, sent]
  exact reads.mapError ApiError.ofFailure

/-- What is read where a client is answered with pages. -/
structure SubstitutionLaw (c : Client σ) : Prop where
  /-- From the reply to a request that is sent alone. -/
  sent : ∀ r answer page, (c.transport.closed <|> c.transport.connection.unready c.transport.wire) =
    none → answer ∈ answers (c.transport.steps (c.transport.chain.call r)) →
    answer.within c.transport.chain.timeout = .ok page → page.headers.isHtml = true →
    ∃ reply, (c.transport.send r).1 = .ok reply ∧ reply.response.status = page.status ∧
      Substituted r page.status c.transport.chain.maxBodySize reply.json
  /-- From the responses to requests that take turns. -/
  followed : ∀ (rs : List Request) (schedule : List Nat) (i : Nat) (r : Request)
    (left : Turn Chain.Outcome) (value : Chain.Outcome) (answer : Answer) (page : Response),
    rs[i]? = some r →
    (c.transport.follow (c.transport.callsOf rs) schedule).1[i]? = some left →
    left.value? = some value →
    answer ∈ answers (Transport.stepsOf i (c.transport.log (c.transport.callsOf rs) schedule)) →
    answer.within c.transport.chain.timeout = .ok page → page.headers.isHtml = true →
    ∃ response, value = .ok response ∧ response.status = page.status ∧
      Substituted r page.status c.transport.chain.maxBodySize (c.transport.reply response).json
  /-- From the result of an operation. -/
  executed : ∀ op draft asked r answer page, c.request op = (.ok draft, asked) →
    asked.transport.finish draft = .ok r →
    (asked.transport.closed <|> asked.transport.connection.unready asked.transport.wire) = none →
    answer ∈ answers (asked.transport.steps (asked.transport.chain.call r)) →
    answer.within c.transport.chain.timeout = .ok page → page.headers.isHtml = true →
    Substituted r page.status c.transport.chain.maxBodySize (c.execute op).1

/-- **Documents for pages.** On a transport that traces nothing, a page that the connection brings
in time is read as an error, unless its status is a success. If it is one, what is read is the
document that was put in the place of the page, as long as it is within the limit. -/
theorem substitutionLaw_of_off (c : Client σ) (off : c.transport.chain.tracing = .off) :
    SubstitutionLaw c := by
  refine ⟨?_, ?_, ?_⟩
  · intro r answer page opened brought brings html
    exact send_of_page off opened brought brings html
  · intro rs schedule i r left value answer page hr hl hv brought brings html
    have ends := Transport.follow_ends (Transport.getElem?_callsOf hr) hl hv
    obtain ⟨status, reads⟩ := substituted_expand c.transport.chain.brotli r page
      c.transport.chain.maxBodySize
    exact ⟨_, Chain.eq_replacement_of_answer off ends brought brings html, status, reads⟩
  · intro op draft asked r answer page asks finishes opened brought brings html
    exact execute_of_page off asks finishes opened answer brought brings html

/-- A client behind an intermediary that answers every request with a page. -/
def behind (page : Response) : Client Unit where
  transport := { Transport.behindProxy with
    connection := { unready := fun _ => none, answer := fun _ s => (⟨.none, .ok page⟩, s) } }
  router := .ofOrigin "https://cloud.example.com" none

/-- An operation that reads the platform. -/
def readPlatform : Operation := { method := .get, pattern := "/platform" }

/-- The page of a proxy that cannot reach the service ends in an error. -/
theorem substitutionLaw_behind :
    ∃ e, ((behind Transport.proxyPage).execute readPlatform).1 = .error e := by
  have law := substitutionLaw_of_off (behind Transport.proxyPage) rfl
  have read := law.executed readPlatform _ _ _ ⟨.none, .ok Transport.proxyPage⟩
    Transport.proxyPage rfl rfl rfl (List.mem_singleton.2 rfl) rfl rfl
  exact read.refused (.inl rfl)

/-- The page of a portal, which has the status of a success. -/
def portalPage : Response := { Transport.proxyPage with status := .ok }

/-- A page is not always an error: behind a portal its document is brought as that of the
operation. -/
theorem execute_portal_ok :
    (behind portalPage).transport.chain.tracing = .off ∧ portalPage.headers.isHtml = true ∧
      ∃ document, ((behind portalPage).execute readPlatform).1 = .ok document := by
  refine ⟨rfl, rfl, ?_⟩
  have read : Substituted _ portalPage.status _ ((behind portalPage).execute readPlatform).1 :=
    execute_of_page rfl rfl rfl rfl ⟨.none, .ok portalPage⟩ (List.mem_singleton.2 rfl) rfl rfl
  exact ⟨_, read.decoded rfl (by decide +kernel)⟩

end Api.Client

end Courier
