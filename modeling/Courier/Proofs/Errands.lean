import Courier.Proofs.Aggregates
import Courier.Proofs.Delivery
import Courier.Proofs.Host

/-!
# Errands

There are three ways to hand something to a transport: a draft is finished and sent, a request that
is made already is sent, and a request is sent whose response is handed on as it comes. Each of them
runs one call at most and leaves the chain, the security and the connection alone, so that what is
known of one errand is known of any sequence of them (`mem_courses`, `received_serveAll`).

Where a request goes is checked while a draft is finished, and nowhere else. So under a security
that asks for an encrypted connection drafts keep to it in whatever letters their URLs are written,
and requests that are made already do not (`schemeLaw_of_tlsOnly`).
-/
namespace Courier

/-- What may be handed to a transport. -/
inductive Errand where
  | draft (d : Draft)
  | request (r : Request)
  /-- A request whose response is handed on as it comes. -/
  | service (r : Request)

/-- What an errand brings. -/
inductive Brought where
  | reply (outcome : Except Failure Reply)
  | response (outcome : Except Failure Response)

namespace Errand

/-- The request of an errand, if there is one under the security. -/
def finished (security : Security) : Errand → Except Failure Request
  | .draft d => d.build security
  | .request r => .ok r
  | .service r => .ok r

/-- The request of an errand that does not have to be finished. -/
def made? : Errand → Option Request
  | .draft _ => none
  | .request r => some r
  | .service r => some r

theorem finished_of_made? {e : Errand} {r : Request} (made : e.made? = some r)
    (security : Security) : e.finished security = .ok r := by
  cases e with
  | draft d => cases made
  | request r => exact congrArg Except.ok (Option.some.inj made)
  | service r => exact congrArg Except.ok (Option.some.inj made)

end Errand

/-! ## What an attempt has to hand over -/

theorem ne_nil_of_mem_requests {steps : List Step} {q : Request} (h : q ∈ requests steps) :
    steps ≠ [] := by
  rintro rfl
  cases h

namespace Chain

variable {c : Chain} {r q : Request} {steps : List Step}

theorem uri_of_sent (h : c.sent r = .ok q) : q.uri = r.uri := by
  rw [sent, signed] at h
  cases hk : c.authorize (c.stamped r).headers with
  | error e =>
    rw [hk] at h
    cases h
  | ok k =>
    rw [hk] at h
    obtain rfl := Except.ok.inj h
    rw [Compression.advertise_eq]
    rfl

/-- A loop that is not refused at once hands over the request that is sent, if there is one. -/
theorem Loop.refused_or_mem {left : Nat} {o : Outcome} (h : c.Loop (c.stamped r) left steps o)
    (hq : c.sent r = .ok q) : (∃ e, steps = [⟨.probe, some e⟩]) ∨ q ∈ requests steps := by
  have first : ∀ {attempt : List Step} {o : Outcome}, c.Attempted (c.stamped r) attempt o →
      ∀ rest, q ∈ requests (⟨.probe, none⟩ :: (attempt ++ rest)) := by
    intro attempt o ha rest
    obtain ⟨-, -, -, one⟩ := ha.views
    rw [← List.cons_append, requests_append, one q hq]
    exact List.mem_append_left _ (List.mem_singleton_self q)
  cases h with
  | refused e => exact .inl ⟨e, rfl⟩
  | settled ha ends => exact .inr (by simpa using first ha [])
  | exhausted ha late event => exact .inr (first ha _)
  | again ha late draw event more => exact .inr (first ha _)

end Chain

namespace Transport

variable {σ : Type}

/-- A call on a connection that is ready hands over the request that is sent, if there is one. -/
theorem mem_requests_steps {t : Transport σ} {r q : Request}
    (ready : t.connection.unready t.wire = none) (hq : t.chain.sent r = .ok q) :
    q ∈ requests (t.steps (t.chain.call r)) := by
  obtain ⟨loop, o, hl, same, -⟩ := Chain.ends_call (t.ends_run (t.chain.call r))
  rcases hl.refused_or_mem hq with ⟨e, rfl⟩ | among
  · have told := probe_steps same
    rw [ready] at told
    cases told
  · rw [same, requests_append]
    exact List.mem_append_left _ among

/-! ## One errand and many -/

/-- Do an errand. -/
def serve (t : Transport σ) : Errand → Brought × Transport σ
  | .draft d =>
    let (outcome, after) := t.sendDraft d
    (.reply outcome, after)
  | .request r =>
    let (outcome, after) := t.send r
    (.reply outcome, after)
  | .service r =>
    let (outcome, after) := t.roundTrip r
    (.response outcome, after)

/-- Do errands one after another. -/
def serveAll (t : Transport σ) : List Errand → List Brought × Transport σ
  | [] => ([], t)
  | e :: es =>
    let (brought, after) := t.serve e
    let (more, last) := after.serveAll es
    (brought :: more, last)

/-- The steps that an errand takes: none if its draft cannot be finished or it is refused at the
door. -/
def errandSteps (t : Transport σ) (e : Errand) : List Step :=
  match e.finished t.security with
  | .error _ => []
  | .ok r => t.sendSteps r

/-- The steps that each of several errands takes, one errand after another. -/
def courses (t : Transport σ) : List Errand → List (Errand × List Step)
  | [] => []
  | e :: es => (e, t.errandSteps e) :: (t.serve e).2.courses es

/-- A draft that cannot be finished leaves the transport as it is; every other errand leaves it as
its request does. -/
theorem serve_cases (t : Transport σ) (e : Errand) :
    (∃ f, e.finished t.security = .error f ∧ t.serve e = (.reply (.error f), t) ∧
      t.errandSteps e = []) ∨
    ∃ r, e.finished t.security = .ok r ∧ (t.serve e).2 = (t.roundTrip r).2 ∧
      t.errandSteps e = t.sendSteps r := by
  cases e with
  | draft d =>
    simp only [serve, sendDraft, finish, errandSteps, Errand.finished]
    cases d.build t.security with
    | error f => exact .inl ⟨f, rfl, rfl, rfl⟩
    | ok r => exact .inr ⟨r, rfl, rfl, rfl⟩
  | request r => exact .inr ⟨r, rfl, rfl, rfl⟩
  | service r => exact .inr ⟨r, rfl, rfl, rfl⟩

/-- What errands leave alone. -/
structure SameMake (t u : Transport σ) : Prop where
  chain : u.chain = t.chain
  security : u.security = t.security
  connection : u.connection = t.connection

theorem SameMake.refl (t : Transport σ) : t.SameMake t := ⟨rfl, rfl, rfl⟩

theorem SameMake.trans {t u v : Transport σ} (h : t.SameMake u) (k : u.SameMake v) :
    t.SameMake v :=
  ⟨k.chain.trans h.chain, k.security.trans h.security, k.connection.trans h.connection⟩

theorem sameMake_roundTrip (t : Transport σ) (r : Request) : t.SameMake (t.roundTrip r).2 := by
  obtain ⟨cause, -, hr⟩ | ⟨-, hr⟩ := roundTrip_cases t r
  · rw [hr]
    exact ⟨rfl, rfl, rfl⟩
  · rw [hr]
    have same := sameSettings_run t (t.chain.call r)
    exact ⟨same.chain, same.security, same.connection⟩

theorem sameMake_serve (t : Transport σ) (e : Errand) : t.SameMake (t.serve e).2 := by
  obtain ⟨f, -, hs, -⟩ | ⟨r, -, hs, -⟩ := serve_cases t e
  · rw [hs]
    exact .refl t
  · rw [hs]
    exact sameMake_roundTrip t r

/-- Each errand of several is done on a transport that differs in what happened on it only. -/
theorem mem_courses {t : Transport σ} {es : List Errand} {course : Errand × List Step}
    (h : course ∈ t.courses es) :
    ∃ u, t.SameMake u ∧ course.1 ∈ es ∧ course.2 = u.errandSteps course.1 := by
  induction es generalizing t with
  | nil => cases h
  | cons e es ih =>
    rcases List.mem_cons.1 h with rfl | later
    · exact ⟨t, .refl t, List.mem_cons_self .., rfl⟩
    · obtain ⟨u, same, among, steps⟩ := ih later
      exact ⟨u, (sameMake_serve t e).trans same, List.mem_cons_of_mem _ among, steps⟩

/-- An errand that takes any steps goes along its call to the end. -/
theorem ends_errandSteps {t : Transport σ} {e : Errand} (active : t.errandSteps e ≠ []) :
    ∃ r value, e.finished t.security = .ok r ∧
      (t.chain.call r).Ends (t.errandSteps e) value := by
  obtain ⟨f, -, -, none⟩ | ⟨r, hr, -, steps⟩ := serve_cases t e
  · exact absurd none active
  · rw [steps, sendSteps] at active ⊢
    split at active
    · exact absurd rfl active
    · exact ⟨r, _, hr, t.ends_run _⟩

section Received

variable {connection : Connection σ} {t : Transport (List Request × σ)}

theorem received_roundTrip (link : t.connection = connection.recorded) (r : Request) :
    (t.roundTrip r).2.wire.1 = t.wire.1 ++ requests (t.sendSteps r) := by
  obtain ⟨cause, shut, hr⟩ | ⟨opened, hr⟩ := roundTrip_cases t r
  · rw [hr, sendSteps, shut]
    exact (List.append_nil _).symm
  · rw [hr, sendSteps, opened]
    exact received_run link _

/-- An errand hands to the connection what its steps say. -/
theorem received_serve (link : t.connection = connection.recorded) (e : Errand) :
    (t.serve e).2.wire.1 = t.wire.1 ++ requests (t.errandSteps e) := by
  obtain ⟨f, -, hs, none⟩ | ⟨r, -, hs, steps⟩ := serve_cases t e
  · rw [hs, none]
    exact (List.append_nil _).symm
  · rw [hs, steps]
    exact received_roundTrip link r

theorem received_serveAll (link : t.connection = connection.recorded) (es : List Errand) :
    (t.serveAll es).2.wire.1 =
      t.wire.1 ++ (t.courses es).flatMap fun course => requests course.2 := by
  induction es generalizing t with
  | nil => exact (List.append_nil _).symm
  | cons e es ih =>
    have later := ih ((sameMake_serve t e).connection.trans link)
    rw [received_serve link e, List.append_assoc] at later
    exact later

end Received

/-- Whatever an errand hands over is its request as it is sent. -/
theorem sent_of_mem_errandSteps {t : Transport σ} {e : Errand} {q : Request}
    (hq : q ∈ requests (t.errandSteps e)) :
    ∃ r, e.finished t.security = .ok r ∧ t.chain.sent r = .ok q := by
  obtain ⟨r, value, hr, ends⟩ := ends_errandSteps (ne_nil_of_mem_requests hq)
  exact ⟨r, hr, Chain.requests_of_path ends q hq⟩

end Transport

/-! ## Where errands go -/

/-- The text is a URL with the scheme of encrypted connections, in letters of any case. -/
structure Uri.IsSecure (text : String) (uri : Uri) : Prop where
  read : Uri.parse text = .ok uri
  scheme : uri.scheme = some "https"
  spelt : ∃ name rest, Uri.IsStandard name "https" ∧ text.toList = name ++ Uri.mark ++ rest

namespace Draft

theorem isSecure_of_checkUrl {url : String} {uri : Uri} (ok : checkUrl .tlsOnly url = .ok uri) :
    Uri.IsSecure url uri := by
  have read := Api.parse_of_checkUrl ok
  have scheme : uri.scheme = some "https" := by
    rw [checkUrl, read] at ok
    simp only at ok
    split at ok
    · cases ok
    split at ok
    next secure => exact secure
    next impossible => cases impossible
    all_goals cases ok
  obtain ⟨name, front, back, -, std, written, -⟩ :=
    Uri.standard_of_parse (.inr rfl) scheme read
  exact ⟨read, scheme, name, front ++ back, std, written⟩

theorem checkUrl_of_isSecure {url : String} {uri : Uri} (secure : Uri.IsSecure url uri)
    (security : Security) : checkUrl security url = .ok uri := by
  obtain ⟨name, front, back, target, -, -, -, -, authority, -⟩ :=
    Uri.standard_of_parse (.inr rfl) secure.scheme secure.read
  simp [checkUrl, secure.read, authority, secure.scheme]

theorem build_eq_ok_iff {d : Draft} {security : Security} {r : Request} :
    d.build security = .ok r ↔ d.fault = none ∧
      ∃ uri, checkUrl security d.url = .ok uri ∧
        r = ⟨d.method, uri, .http11, d.finalHeaders, d.body⟩ := by
  rw [build]
  cases d.fault with
  | some f => simp
  | none =>
    cases checkUrl security d.url with
    | error f => simp
    | ok uri => simp [eq_comm]

end Draft

/-- The request goes out encrypted, or to where one of the errands that are made already says. -/
def Errand.Explain (es : List Errand) (q : Request) : Prop :=
  q.uri.scheme = some "https" ∨ ∃ e ∈ es, ∃ r, e.made? = some r ∧ q.uri = r.uri

/-- The request of any errand is explained by it. -/
theorem Errand.explain_of_finished {es : List Errand} {e : Errand} {r q : Request} (among : e ∈ es)
    (finished : e.finished .tlsOnly = .ok r) (same : q.uri = r.uri) : Explain es q := by
  cases e with
  | draft d =>
    obtain ⟨-, uri, ok, rfl⟩ := Draft.build_eq_ok_iff.1 finished
    exact .inl (by rw [same]; exact (Draft.isSecure_of_checkUrl ok).scheme)
  | request r =>
    cases finished
    exact .inr ⟨_, among, r, rfl, same⟩
  | service r =>
    cases finished
    exact .inr ⟨_, among, r, rfl, same⟩

namespace Transport

variable {σ : Type}

/-- Where the errands of a transport go whose security asks for encrypted connections. -/
structure SchemeLaw (t : Transport (List Request × σ)) : Prop where
  /-- A draft without a fault is sent if its URL has the secure scheme, however it is written. -/
  drafted : ∀ d : Draft, d.fault = none → ∀ uri, Uri.IsSecure d.url uri →
    ∃ r, d.build t.security = .ok r ∧ r.uri = uri ∧ t.serve (.draft d) = t.serve (.request r)
  /-- Any other draft fails and leaves everything as it is: the connection, the trace, the journal,
  the door and the draws. -/
  refused : ∀ d : Draft, (d.fault ≠ none ∨ ∀ uri, ¬ Uri.IsSecure d.url uri) →
    ∃ f, t.serve (.draft d) = (.reply (.error f), t)
  /-- A request that is made already is handed over, with whatever scheme it has, exactly if the
  door lets it in and it can be signed. -/
  made : ∀ e r, e.made? = some r → ∃ qs, (t.serve e).2.wire.1 = t.wire.1 ++ qs ∧
    (∀ q ∈ qs, q.uri = r.uri) ∧
    (qs ≠ [] ↔ (t.closed <|> t.connection.unready t.wire) = none ∧ ∃ q, t.chain.sent r = .ok q)
  /-- What is received of errands that follow one another. -/
  served : ∀ es, ∃ qs, (t.serveAll es).2.wire.1 = t.wire.1 ++ qs ∧ ∀ q ∈ qs, Errand.Explain es q
  /-- What is received of errands that take turns. -/
  crowd : ∀ (es : List Errand) (schedule : List Nat),
    let rs := es.filterMap fun e => (e.finished t.security).toOption
    ∃ qs, (t.follow (t.callsOf rs) schedule).2.wire.1 = t.wire.1 ++ qs ∧
      ∀ q ∈ qs, Errand.Explain es q

section Scheme

variable {connection : Connection σ} {t : Transport (List Request × σ)}

theorem serve_draft_secure (t : Transport (List Request × σ)) {d : Draft} {uri : Uri}
    (sound : d.fault = none) (secure : Uri.IsSecure d.url uri) :
    ∃ r, d.build t.security = .ok r ∧ r.uri = uri ∧ t.serve (.draft d) = t.serve (.request r) := by
  have built := Draft.build_eq_ok_iff.2
    ⟨sound, uri, Draft.checkUrl_of_isSecure secure t.security, rfl⟩
  refine ⟨_, built, rfl, ?_⟩
  rw [serve, sendDraft, finish, built]
  rfl

theorem serve_draft_refused (tls : t.security = .tlsOnly) {d : Draft}
    (bad : d.fault ≠ none ∨ ∀ uri, ¬ Uri.IsSecure d.url uri) :
    ∃ f, t.serve (.draft d) = (.reply (.error f), t) := by
  obtain ⟨f, -, hs, -⟩ | ⟨r, finished, -⟩ := serve_cases t (.draft d)
  · exact ⟨f, hs⟩
  · rw [tls] at finished
    obtain ⟨sound, uri, ok, -⟩ := Draft.build_eq_ok_iff.1 finished
    rcases bad with fault | insecure
    · exact absurd sound fault
    · exact absurd (Draft.isSecure_of_checkUrl ok) (insecure uri)

theorem received_made (link : t.connection = connection.recorded) {e : Errand} {r : Request}
    (made : e.made? = some r) : ∃ qs, (t.serve e).2.wire.1 = t.wire.1 ++ qs ∧
      (∀ q ∈ qs, q.uri = r.uri) ∧
      (qs ≠ [] ↔
        (t.closed <|> t.connection.unready t.wire) = none ∧ ∃ q, t.chain.sent r = .ok q) := by
  have finished := e.finished_of_made? made t.security
  have steps : t.errandSteps e = t.sendSteps r := by rw [errandSteps, finished]
  have sends : ∀ q ∈ requests (t.errandSteps e), t.chain.sent r = .ok q := by
    intro q hq
    obtain ⟨other, ho, sent⟩ := sent_of_mem_errandSteps hq
    rw [finished] at ho
    cases ho
    exact sent
  refine ⟨requests (t.errandSteps e), received_serve link e, ?_, ?_, ?_⟩
  · exact fun q hq => Chain.uri_of_sent (sends q hq)
  · intro active
    obtain ⟨q, hq⟩ := List.exists_mem_of_ne_nil _ active
    refine ⟨?_, q, sends q hq⟩
    rw [steps, sendSteps] at hq
    split at hq
    · cases hq
    · assumption
  · rintro ⟨opened, q, hq⟩
    have ready : t.connection.unready t.wire = none := by
      cases hc : t.closed with
      | none => simpa [hc] using opened
      | some cause => simp [hc] at opened
    rw [steps, sendSteps, opened]
    exact List.ne_nil_of_mem (mem_requests_steps ready hq)

theorem explain_of_served (tls : t.security = .tlsOnly)
    (link : t.connection = connection.recorded) (es : List Errand) :
    ∃ qs, (t.serveAll es).2.wire.1 = t.wire.1 ++ qs ∧ ∀ q ∈ qs, Errand.Explain es q := by
  refine ⟨_, received_serveAll link es, fun q hq => ?_⟩
  obtain ⟨course, hc, hq⟩ := List.mem_flatMap.1 hq
  obtain ⟨u, same, among, steps⟩ := mem_courses hc
  rw [steps] at hq
  obtain ⟨r, finished, sent⟩ := sent_of_mem_errandSteps hq
  rw [same.security, tls] at finished
  exact Errand.explain_of_finished among finished (Chain.uri_of_sent sent)

theorem explain_of_crowd (tls : t.security = .tlsOnly)
    (link : t.connection = connection.recorded) (es : List Errand) (schedule : List Nat) :
    let rs := es.filterMap fun e => (e.finished t.security).toOption
    ∃ qs, (t.follow (t.callsOf rs) schedule).2.wire.1 = t.wire.1 ++ qs ∧
      ∀ q ∈ qs, Errand.Explain es q := by
  intro rs
  refine ⟨_, received_follow link _ _, fun q hq => ?_⟩
  -- The step that hands the request over belongs to the call of one of the requests.
  obtain ⟨step, hstep, hands⟩ := List.mem_filterMap.1 hq
  obtain ⟨made, hm, rfl⟩ := List.mem_map.1 hstep
  have inside := t.lt_of_mem_log rs schedule made hm
  have sent := requests_stepsOf (u := t) (List.getElem?_eq_getElem inside) q
    (List.mem_filterMap.2 ⟨made.2, mem_stepsOf.2 hm, hands⟩)
  obtain ⟨e, among, finished⟩ := List.mem_filterMap.1 (List.getElem_mem inside)
  have finished := eq_ok_of_toOption finished
  rw [tls] at finished
  exact Errand.explain_of_finished among finished (Chain.uri_of_sent sent)

end Scheme

/-- **Where errands go.** If the security asks for encrypted connections, a draft is sent exactly if
nothing is wrong with its headers and its URL has the secure scheme in letters of any case; any
other draft fails, and nothing has happened. Requests that are made already are not checked: they
are handed over with the scheme that they have. So whatever is received without the secure scheme,
of errands that follow one another or take turns, was made already. -/
theorem schemeLaw_of_tlsOnly {connection : Connection σ} (t : Transport (List Request × σ))
    (tls : t.security = .tlsOnly) (link : t.connection = connection.recorded) : SchemeLaw t :=
  ⟨fun _ sound _ secure => serve_draft_secure t sound secure,
    fun _ bad => serve_draft_refused tls bad, fun _ _ made => received_made link made,
    explain_of_served tls link, explain_of_crowd tls link⟩

/-- A connection that answers every request at once. -/
def promptConnection : Connection Unit where
  unready _ := none
  answer _ s := (⟨.none, .ok { status := .ok, body := [] }⟩, s)

/-- One draft with the secure scheme in capital letters and one with the other scheme. -/
def mixedDrafts : List Errand :=
  [.draft { method := .get, url := "HTTPS://cloud.example.com/" },
    .draft { method := .get, url := "http://cloud.example.com/" }]

/-- The second one is refused, and what is received is secure. -/
theorem schemeLaw_mixedDrafts : ∃ t events,
    ({} : Builder).build (.bare promptConnection.recorded ([], ())) = (.ok t, events) ∧
    (∃ f, t.serve (.draft { method := .get, url := "http://cloud.example.com/" }) =
      (.reply (.error f), t)) ∧
    (t.serveAll mixedDrafts).2.wire.1.length = 1 ∧
    ∀ q ∈ (t.serveAll mixedDrafts).2.wire.1, q.uri.scheme = some "https" := by
  obtain ⟨t, events, built, tls, link, fresh, one⟩ : ∃ t events,
      ({} : Builder).build (.bare promptConnection.recorded ([], ())) = (.ok t, events) ∧
      t.security = .tlsOnly ∧ t.connection = promptConnection.recorded ∧ t.wire.1 = [] ∧
      (t.serveAll mixedDrafts).2.wire.1.length = 1 :=
    ⟨_, _, rfl, rfl, rfl, rfl, by decide +kernel⟩
  have law := schemeLaw_of_tlsOnly t tls link
  refine ⟨t, events, built, law.refused _ (.inr ?_), one, ?_⟩
  · intro uri secure
    have plain : Uri.parse "http://cloud.example.com/" =
      .ok ⟨some "http", some "cloud.example.com", some "/"⟩ := by decide +kernel
    cases plain.symm.trans secure.read
    exact absurd secure.scheme (by decide)
  · obtain ⟨qs, received, explained⟩ := law.served mixedDrafts
    rw [received, fresh, List.nil_append]
    intro q hq
    refine (explained q hq).resolve_right ?_
    simp [mixedDrafts, Errand.made?]

/-- A request that is made already, with the scheme of connections that are not encrypted. -/
def plainRequest : Request :=
  ⟨.get, ⟨some "http", some "cloud.example.com", some "/"⟩, .http11, {}, []⟩

/-- On a transport whose security asks for encrypted connections such a request is received all the
same, in both of the ways that it can be handed over. -/
theorem serve_plainRequest_received : ∃ t events,
    ({} : Builder).build (.bare promptConnection.recorded ([], ())) = (.ok t, events) ∧
    t.security = .tlsOnly ∧ ∀ e ∈ [Errand.request plainRequest, .service plainRequest],
      ∃ q ∈ (t.serve e).2.wire.1, q.uri.scheme ≠ some "https" := by
  refine ⟨_, _, rfl, rfl, ?_⟩
  intro e among
  simp only [List.mem_cons, List.not_mem_nil, or_false] at among
  rcases among with rfl | rfl
  · exact ⟨_, List.mem_singleton_self _, by decide⟩
  · exact ⟨_, List.mem_singleton_self _, by decide⟩

end Transport

end Courier
