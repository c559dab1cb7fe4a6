import Courier.Api.Signer
import Courier.Proofs.RetryLaw

/-!
# What reaches the connection

Every attempt of a call hands the same request to the connection: the caller's, with the identity
and the credential in the place of what the caller had under their headers. Where the credential
cannot be sent, nothing is handed over, and the call does no more than ask whether the connection
is ready.
-/
namespace Courier

/-! ## Identity and credential -/

theorem HeaderValue.bytes_of_ofText? {text : String} {v : HeaderValue}
    (h : HeaderValue.ofText? text = some v) : v.bytes = Utf8.encode text := by
  unfold ofText? ofBytes? at h
  split at h
  · obtain rfl := Option.some.inj h
    rfl
  · cases h

theorem HeaderValue.ofText?_eq_none_iff {text : String} :
    HeaderValue.ofText? text = none ↔ (Utf8.encode text).all isValueByte = false := by
  unfold ofText? ofBytes?
  split
  next legal => simp [legal]
  next illegal => simpa using illegal

theorem Headers.contains_congr {h k : Headers} {name : HeaderName}
    (same : h.values name = k.values name) : h.contains name = k.contains name := by
  rw [contains, contains, get?, get?, same]

namespace Api

/-- The scheme and the secret of a signer that has one. -/
def Signer.proof? : Signer → Option (String × String)
  | .apiKey key => some ("ApiKey", key)
  | .bearer token => some ("Bearer", token)
  | .broken => none

/-- What a signer adds to the headers of a request. Without one they are left as they are. -/
def authorization : Option Signer → Headers → Except Failure Headers
  | none => .ok
  | some signer => signer.sign

namespace Signer

theorem credential?_eq (s : Signer) :
    s.credential? = s.proof?.bind fun p => HeaderValue.ofText? (p.1 ++ " " ++ p.2) := by
  cases s with
  | apiKey key => rfl
  | bearer token => rfl
  | broken => rfl

/-- A credential is the scheme and the secret. -/
theorem bytes_credential {s : Signer} {v : HeaderValue} (h : s.credential? = some v) :
    ∃ p, s.proof? = some p ∧ v.bytes = Utf8.encode (p.1 ++ " " ++ p.2) := by
  rw [credential?_eq] at h
  obtain ⟨p, hp, hv⟩ := Option.bind_eq_some_iff.1 h
  exact ⟨p, hp, HeaderValue.bytes_of_ofText? hv⟩

/-- Nothing but the secret can keep a credential from being sent. -/
theorem credential?_eq_none_iff {s : Signer} {scheme secret : String}
    (h : s.proof? = some (scheme, secret)) :
    s.credential? = none ↔ (Utf8.encode secret).all isValueByte = false := by
  have legal : (Utf8.encode (scheme ++ " ")).all isValueByte = true := by
    cases s with
    | apiKey key =>
      cases h
      decide
    | bearer token =>
      cases h
      decide
    | broken => cases h
  have split : Utf8.encode (scheme ++ " " ++ secret) =
      Utf8.encode (scheme ++ " ") ++ Utf8.encode secret := by
    simp [Utf8.encode]
  rw [credential?_eq, h, Option.bind_some, HeaderValue.ofText?_eq_none_iff, split,
    List.all_append, legal, Bool.true_and]

/-- A signer that has a credential makes it the only value under its header. -/
theorem sign_eq_ok {s : Signer} {h k : Headers} (signs : s.sign h = .ok k) :
    ∃ v, s.credential? = some v ∧ k = h.insert .authorization { v with sensitive := true } := by
  unfold sign at signs
  split at signs
  · cases signs
  next v hv =>
    cases signs
    exact ⟨v, hv, rfl⟩

end Signer

variable {signer : Option Signer} {h k : Headers}

/-- Signing leaves all headers alone but its own, and that too if there is no signer. -/
theorem values_authorization_of_ne (signs : authorization signer h = .ok k) {name : HeaderName}
    (other : name = .authorization → signer = none) : k.values name = h.values name := by
  cases signer with
  | none =>
    cases signs
    rfl
  | some s =>
    obtain ⟨v, -, rfl⟩ := Signer.sign_eq_ok signs
    have ne : HeaderName.authorization ≠ name := by
      intro same
      cases other same.symm
    exact Headers.values_insert_of_ne _ _ ne

/-- A signer leaves the credential as the only value of its header. -/
theorem values_authorization_self {s : Signer} (signs : authorization (some s) h = .ok k) :
    ∃ p, s.proof? = some p ∧
      (k.values .authorization).map HeaderValue.bytes = [Utf8.encode (p.1 ++ " " ++ p.2)] := by
  obtain ⟨v, hv, rfl⟩ := Signer.sign_eq_ok signs
  obtain ⟨p, hp, bytes⟩ := Signer.bytes_credential hv
  refine ⟨p, hp, ?_⟩
  rw [Headers.values_insert_self, List.map_singleton, bytes]

end Api

namespace Compression

/-- Asking for compressed responses changes headers only. -/
theorem advertise_eq (r : Request) :
    advertise r = { r with headers := (advertise r).headers } := by
  unfold advertise
  split <;> rfl

theorem values_advertise_self (r : Request) :
    (advertise r).headers.values .acceptEncoding =
      if r.headers.contains .acceptEncoding then r.headers.values .acceptEncoding
      else [acceptedEncodings] := by
  unfold advertise
  split
  · rfl
  · exact Headers.values_insert_self ..

theorem values_advertise_of_ne (r : Request) {name : HeaderName} (ne : name ≠ .acceptEncoding) :
    (advertise r).headers.values name = r.headers.values name := by
  unfold advertise
  split
  · rfl
  · exact Headers.values_insert_of_ne _ _ ne.symm

end Compression

theorem TraceConfig.tracer?_of_enabled {trace : TraceConfig} {tracer : Option Tracer}
    (enabled : trace.enabled = true) (h : trace.tracer? = .ok tracer) :
    ∃ sink, trace.sink = some sink ∧ tracer = some { sink := sink } := by
  rw [tracer?, enabled] at h
  cases hs : trace.sink with
  | none =>
    rw [hs] at h
    cases h
  | some sink =>
    rw [hs] at h
    cases h
    exact ⟨sink, rfl, rfl⟩

theorem TraceConfig.tracer?_of_disabled {trace : TraceConfig} {tracer : Option Tracer}
    (disabled : trace.enabled = false) (h : trace.tracer? = .ok tracer) : tracer = none := by
  rw [tracer?, disabled] at h
  cases h
  rfl

namespace Builder

variable {σ : Type}

/-- The builder whose requests are signed, if there is a signer. -/
def signing (b : Builder) (signer : Option Api.Signer) : Builder :=
  { b with authorize := Api.authorization signer }

/-- What a transport is that was built on a bare connection. -/
theorem build_bare {b : Builder} {connection : Connection σ} {wire : σ} {t : Transport σ}
    {events : List Event} (h : b.build (.bare connection wire) = (.ok t, events)) :
    ∃ tracer identity, b.config.trace.tracer? = .ok tracer ∧
      Identity.ofText? b.config.userAgent = some identity ∧
      t = {
        chain := {
          identity := identity
          timeout := b.config.timeout
          retry := b.config.retry
          authorize := b.authorize
          tracing := b.tracing tracer
          maxBodySize := b.config.maxBodySize
          brotli := b.brotli }
        security := b.config.security
        capacity := b.config.bufferCapacity
        connection := connection
        wire := wire
        tracer := tracer } := by
  rw [build] at h
  split at h
  · cases h
  next tracer traced =>
    simp only [decorate] at h
    split at h
    · cases h
    next identity named =>
      cases h
      exact ⟨tracer, identity, traced, named, rfl⟩

end Builder

/-! ## The request of every attempt -/

/-- The connection receives `q` for a caller's request `r` under an identity and with a signer. -/
structure Delivered (ua : String) (signer : Option Api.Signer) (r q : Request) : Prop where
  method : q.method = r.method
  uri : q.uri = r.uri
  version : q.version = r.version
  body : q.body = r.body
  /-- The identity is the only value of its header. -/
  userAgent : (q.headers.values .userAgent).map HeaderValue.bytes = [Utf8.encode ua]
  /-- The credential of the signer is the only value of its header. -/
  authorization : ∀ s, signer = some s → ∃ p, s.proof? = some p ∧
    (q.headers.values .authorization).map HeaderValue.bytes = [Utf8.encode (p.1 ++ " " ++ p.2)]
  /-- What is accepted is what the caller says, if the caller says so. -/
  acceptEncoding : if r.headers.contains .acceptEncoding then
      q.headers.values .acceptEncoding = r.headers.values .acceptEncoding
    else (q.headers.values .acceptEncoding).map HeaderValue.bytes =
      [Utf8.encode "gzip,deflate,br"]
  /-- All other headers are the caller's, without a signer also that of the credential. -/
  others : ∀ name, name ≠ .userAgent → name ≠ .acceptEncoding →
    (name = .authorization → signer = none) → q.headers.values name = r.headers.values name

namespace Chain

variable {c : Chain} {r : Request} {steps : List Step}

/-- What a chain with an identity and a signer sends is the caller's request with both. -/
theorem delivered_of_sent {ua : String} {signer : Option Api.Signer} {q : Request}
    (named : Identity.ofText? ua = some c.identity)
    (signs : c.authorize = Api.authorization signer) (h : c.sent r = .ok q) :
    Delivered ua signer r q := by
  obtain ⟨v, hv, hi⟩ := Option.map_eq_some_iff.1 named
  have stamps : (c.stamped r).headers = r.headers.insert .userAgent v := by
    rw [stamped, ← hi]
    rfl
  rw [sent, signed, signs] at h
  cases hk : Api.authorization signer (c.stamped r).headers with
  | error e =>
    rw [hk] at h
    cases h
  | ok k =>
    rw [hk] at h
    obtain rfl := Except.ok.inj h
    have kept : ∀ name, name ≠ .userAgent → (name = .authorization → signer = none) →
        k.values name = r.headers.values name := by
      intro name ne other
      rw [Api.values_authorization_of_ne hk other, stamps, Headers.values_insert_of_ne _ _ ne.symm]
    have keptAccept := kept .acceptEncoding (by decide) (fun same => absurd same (by decide))
    refine ⟨?_, ?_, ?_, ?_, ?_, ?_, ?_, ?_⟩
    · rw [Compression.advertise_eq, stamped]
    · rw [Compression.advertise_eq, stamped]
    · rw [Compression.advertise_eq, stamped]
    · rw [Compression.advertise_eq, stamped]
    · rw [Compression.values_advertise_of_ne _ (by decide),
        Api.values_authorization_of_ne hk (fun same => absurd same (by decide)), stamps,
        Headers.values_insert_self, List.map_singleton, HeaderValue.bytes_of_ofText? hv]
    · rintro s rfl
      obtain ⟨p, hp, bytes⟩ := Api.values_authorization_self hk
      refine ⟨p, hp, ?_⟩
      rw [Compression.values_advertise_of_ne _ (by decide)]
      exact bytes
    · rw [Compression.values_advertise_self]
      simp only [Headers.contains_congr keptAccept]
      split
      · exact keptAccept
      · decide
    · intro name ne notAccept other
      rw [Compression.values_advertise_of_ne _ notAccept]
      exact kept name ne other

/-- An attempt hands over nothing but the request that is sent. -/
theorem Attempted.requests_eq {o : Outcome} (h : c.Attempted (c.stamped r) steps o) :
    ∀ q ∈ requests steps, c.sent r = .ok q := by
  intro q hq
  cases h with
  | unsigned hs => cases hq
  | @made signed hs number answer =>
    obtain ⟨once, -⟩ := views_attemptSteps (c := c) signed number answer
    rw [once] at hq
    obtain rfl := List.mem_singleton.1 hq
    rw [sent, hs]
    rfl

/-- No attempt of a loop hands over anything else than the others. -/
theorem Loop.requests_eq {left : Nat} {o : Outcome} (h : c.Loop (c.stamped r) left steps o) :
    ∀ q ∈ requests steps, c.sent r = .ok q := by
  induction h with
  | refused e =>
    intro q hq
    cases hq
  | settled ha ends =>
    intro q hq
    exact ha.requests_eq q (by simpa [Step.request?] using hq)
  | exhausted ha late event =>
    intro q hq
    obtain ⟨none, -⟩ := views_giveUpSteps (c := c) event
    exact ha.requests_eq q (by simpa [Step.request?, none] using hq)
  | @again left first rest e o ha late draw event more ih =>
    intro q hq
    obtain ⟨none, -⟩ := views_backOffSteps (c := c) left draw event
    have hq : q ∈ requests first ∨ q ∈ requests rest := by simpa [Step.request?, none] using hq
    rcases hq with first | later
    · exact ha.requests_eq q first
    · exact ih q later

/-- However far a call has come, it has handed over nothing but the request that is sent. -/
theorem requests_of_path {d : Call Outcome} (h : (c.call r).Path steps d) :
    ∀ q ∈ requests steps, c.sent r = .ok q := by
  intro q hq
  -- The rules are about calls that end, so the path is led to an end of the call.
  obtain ⟨rest, value, hd⟩ := d.exists_ends
  obtain ⟨loop, o, hl, same, -⟩ := ends_call (h.append hd)
  have inLoop : q ∈ requests loop := by
    have all : q ∈ requests (steps ++ rest) := by simp [hq]
    obtain ⟨none, -⟩ := views_logging (c.settledEvents (c.stamped r) o)
    simpa [same, none] using all
  exact hl.requests_eq q inLoop

/-! ## Requests that cannot be signed -/

theorem Attempted.of_unsigned {e : Failure} {o : Outcome} (h : c.Attempted r steps o)
    (unsigned : c.signed r = .error e) : steps = [] ∧ o = .error e := by
  cases h with
  | unsigned hs =>
    rw [unsigned] at hs
    cases hs
    exact ⟨rfl, rfl⟩
  | made hs =>
    rw [unsigned] at hs
    cases hs

/-- A call whose request cannot be signed asks once whether the connection is ready. -/
theorem ends_call_unsigned {e : Failure} {value : Outcome} (h : (c.call r).Ends steps value)
    (unsigned : c.signed (c.stamped r) = .error e) (final : e.isTimeout = false) :
    (∃ u, steps = [⟨.probe, some u⟩] ∧ value = .error u) ∨
      steps = [⟨.probe, none⟩] ∧ value = .error e := by
  obtain ⟨loop, o, hl, rfl, rfl⟩ := ends_call h
  have spent : ∀ {first : List Step} {f : Failure}, c.Attempted (c.stamped r) first (.error f) →
      f.isTimeout = true → False := by
    intro first f ha late
    obtain ⟨-, same⟩ := ha.of_unsigned unsigned
    cases same
    rw [final] at late
    cases late
  generalize c.retry.maxRetries = budget at hl
  cases hl with
  | refused u =>
    left
    refine ⟨u, ?_, settledOutcome_error ..⟩
    rw [settledEvents_error]
    rfl
  | settled ha ends =>
    right
    obtain ⟨rfl, rfl⟩ := ha.of_unsigned unsigned
    rw [settledEvents_error]
    exact ⟨rfl, settledOutcome_error ..⟩
  | exhausted ha late => exact (spent ha late).elim
  | again ha late => exact (spent ha late).elim

/-- However far such a call has come, it has done nothing but ask. -/
theorem probes_of_path {e : Failure} {d : Call Outcome} (h : (c.call r).Path steps d)
    (unsigned : c.signed (c.stamped r) = .error e) (final : e.isTimeout = false) :
    ∀ step ∈ steps, step.action = .probe := by
  intro step hs
  obtain ⟨rest, value, hd⟩ := d.exists_ends
  have all : step ∈ steps ++ rest := List.mem_append_left _ hs
  obtain ⟨u, same, -⟩ | ⟨same, -⟩ := ends_call_unsigned (h.append hd) unsigned final
  · rw [same] at all
    rw [List.mem_singleton.1 all]
  · rw [same] at all
    rw [List.mem_singleton.1 all]

end Chain

namespace Transport

variable {σ α : Type}

/-- A run that only asks whether the connection is ready changes nothing. -/
theorem run_probes {t : Transport σ} {c : Call α}
    (h : ∀ step ∈ t.steps c, step.action = .probe) : (t.run c).2 = t := by
  induction c generalizing t with
  | done value => rfl
  | act a next ih =>
    obtain rfl : a = .probe := h _ (List.mem_cons_self ..)
    exact ih _ fun step hs => h step (List.mem_cons_of_mem _ hs)

theorem follow_probes {t : Transport σ} {turns : List (Turn α)} {schedule : List Nat}
    (h : ∀ made ∈ t.log turns schedule, made.2.action = .probe) :
    (t.follow turns schedule).2 = t := by
  induction schedule generalizing t turns with
  | nil => rfl
  | cons i schedule ih =>
    have still : (t.moveAt turns i).2 = t := by
      cases hi : turns[i]? with
      | none => rw [moveAt_none hi]
      | some turn =>
        rw [moveAt_some hi]
        obtain ⟨wake, call⟩ := turn
        cases call with
        | done value => rfl
        | act a next =>
          obtain rfl : a = .probe := by
            refine h (i, ⟨a, (t.perform a).1⟩) (List.mem_append_left _ ?_)
            simp [moveOf, hi, nextStep]
          rfl
    have later := ih (t := (t.moveAt turns i).2) fun made hm =>
      h made (List.mem_append_right _ hm)
    rw [follow, later, still]

/-- A run that starts by asking is told what the connection says then. -/
theorem probe_steps {t : Transport σ} {c : Call α} {x : Option Failure} {rest : List Step}
    (h : t.steps c = ⟨.probe, x⟩ :: rest) : x = t.connection.unready t.wire := by
  cases c with
  | done value => cases h
  | act a next =>
    obtain ⟨first, -⟩ := List.cons.inj h
    cases first
    rfl

section Sending

variable {connection : Connection σ} {u : Transport (List Request × σ)}

/-- Sending a request hands to the connection nothing but the request that is sent. -/
theorem received_send (link : u.connection = connection.recorded) (r : Request) :
    ∃ qs, (u.send r).2.wire.1 = u.wire.1 ++ qs ∧ ∀ q ∈ qs, u.chain.sent r = .ok q := by
  rw [send_eq]
  obtain ⟨cause, -, hr⟩ | ⟨-, hr⟩ := roundTrip_cases u r
  · refine ⟨[], ?_, by simp⟩
    rw [hr, List.append_nil]
    rfl
  · refine ⟨requests (u.steps (u.chain.call r)), by rw [hr, received_run link], ?_⟩
    exact Chain.requests_of_path (u.ends_run _)

/-- So does each of several calls that take turns. -/
theorem requests_stepsOf {rs : List Request} {schedule : List Nat} {i : Nat} {r : Request}
    (hr : rs[i]? = some r) :
    ∀ q ∈ requests (stepsOf i (u.log (u.callsOf rs) schedule)), u.chain.sent r = .ok q := by
  obtain ⟨left, -, path, -⟩ := follow_path (t := u) schedule (getElem?_callsOf hr)
  exact Chain.requests_of_path path

/-- If no request can be signed, sending one leaves everything as it is but the door. -/
theorem send_unsigned {e : Failure} (unsigned : ∀ r, u.chain.signed (u.chain.stamped r) = .error e)
    (final : e.isTimeout = false) (r : Request) :
    (u.send r).2.wire = u.wire ∧ (u.send r).2.tracer = u.tracer ∧ (u.send r).2.drawn = u.drawn ∧
      attempts (u.steps (u.chain.call r)) = 1 ∧
      (u.closed = none → u.connection.unready u.wire = none → (u.send r).1 = .error e) := by
  have ends := u.ends_run (u.chain.call r)
  have once : attempts (u.steps (u.chain.call r)) = 1 := by
    obtain ⟨x, same, -⟩ | ⟨same, -⟩ := Chain.ends_call_unsigned ends (unsigned r) final
    · rw [same]
      rfl
    · rw [same]
      rfl
  obtain ⟨cause, door, hr⟩ | ⟨door, hr⟩ := roundTrip_cases u r
  · simp only [send, hr]
    refine ⟨rfl, rfl, rfl, once, ?_⟩
    intro opened ready
    rw [opened, ready] at door
    cases door
  · have still : (u.run (u.chain.call r)).2 = u :=
      run_probes (Chain.probes_of_path ends (unsigned r) final)
    simp only [send, hr, still]
    refine ⟨trivial, trivial, trivial, once, ?_⟩
    intro _ ready
    obtain ⟨x, same, -⟩ | ⟨-, failed⟩ := Chain.ends_call_unsigned ends (unsigned r) final
    · rw [← probe_steps same] at ready
      cases ready
    · rw [failed]
      rfl

theorem follow_unsigned {e : Failure}
    (unsigned : ∀ r, u.chain.signed (u.chain.stamped r) = .error e) (final : e.isTimeout = false)
    (rs : List Request) (schedule : List Nat) :
    (u.follow (u.callsOf rs) schedule).2 = u ∧
      ∀ i r left value, rs[i]? = some r →
        (u.follow (u.callsOf rs) schedule).1[i]? = some left → left.value? = some value →
        (∀ step ∈ stepsOf i (u.log (u.callsOf rs) schedule), step.isRefusal = false) →
          value = .error e := by
  constructor
  · refine follow_probes fun made hm => ?_
    obtain ⟨turn, hturn⟩ := getElem?_of_mem_log hm
    obtain ⟨r, hr, -⟩ : ∃ r, rs[made.1]? = some r ∧ _ := by
      rw [callsOf, List.getElem?_map] at hturn
      exact Option.map_eq_some_iff.1 hturn
    obtain ⟨left, -, path, -⟩ := follow_path (t := u) schedule (getElem?_callsOf hr)
    exact Chain.probes_of_path path (unsigned r) final _ (mem_stepsOf.2 hm)
  · intro i r left value hr hl hv ready
    have ends := follow_ends (getElem?_callsOf hr) hl hv
    obtain ⟨x, same, -⟩ | ⟨-, failed⟩ := Chain.ends_call_unsigned ends (unsigned r) final
    · have refused := ready ⟨.probe, some x⟩ (by rw [same]; exact List.mem_singleton_self _)
      cases refused
    · exact failed

end Sending

/-- **What reaches the connection.** On a transport that was built on a bare connection, whatever
has happened to it since, each attempt of a call hands over the caller's request with the identity
and the credential, whether the call runs alone or takes turns with others. If the secret cannot be
sent, nothing is handed over, numbered or drawn, and a call fails for that reason once it is
admitted. -/
theorem delivered_of_built (b : Builder) (signer : Option Api.Signer) {connection : Connection σ}
    {wire : List Request × σ} {t u : Transport (List Request × σ)} {events : List Event}
    (built : (b.signing signer).build (.bare connection.recorded wire) = (.ok t, events))
    (chain : u.chain = t.chain) (link : u.connection = t.connection) :
    (∀ r, ∃ qs, (u.send r).2.wire.1 = u.wire.1 ++ qs ∧
      ∀ q ∈ qs, Delivered b.config.userAgent signer r q) ∧
    (∀ (rs : List Request) (schedule : List Nat),
      (u.follow (u.callsOf rs) schedule).2.wire.1 =
        u.wire.1 ++ requests ((u.log (u.callsOf rs) schedule).map (·.2)) ∧
      ∀ i r, rs[i]? = some r → ∀ q ∈ requests (stepsOf i (u.log (u.callsOf rs) schedule)),
        Delivered b.config.userAgent signer r q) ∧
    ∀ s scheme secret, signer = some s → s.proof? = some (scheme, secret) →
      (Utf8.encode secret).all isValueByte = false →
      (∀ r, (u.send r).2.wire = u.wire ∧ (u.send r).2.tracer = u.tracer ∧
        (u.send r).2.drawn = u.drawn ∧ attempts (u.steps (u.chain.call r)) = 1 ∧
        (u.closed = none → u.connection.unready u.wire = none →
          (u.send r).1 = .error .invalidHeaderValue)) ∧
      ∀ (rs : List Request) (schedule : List Nat), (u.follow (u.callsOf rs) schedule).2 = u ∧
        ∀ i r left value, rs[i]? = some r →
          (u.follow (u.callsOf rs) schedule).1[i]? = some left → left.value? = some value →
          (∀ step ∈ stepsOf i (u.log (u.callsOf rs) schedule), step.isRefusal = false) →
            value = .error .invalidHeaderValue := by
  obtain ⟨tracer, identity, -, named, rfl⟩ := Builder.build_bare built
  have sent : ∀ {r q}, u.chain.sent r = .ok q → Delivered b.config.userAgent signer r q := by
    intro r q hs
    rw [chain] at hs
    refine Chain.delivered_of_sent ?_ rfl hs
    exact named
  refine ⟨?_, ?_, ?_⟩
  · intro r
    obtain ⟨qs, received, all⟩ := received_send link r
    exact ⟨qs, received, fun q hq => sent (all q hq)⟩
  · intro rs schedule
    refine ⟨received_follow link _ _, ?_⟩
    intro i r hr q hq
    exact sent (requests_stepsOf hr q hq)
  · rintro s scheme secret rfl proof illegal
    have none := (Api.Signer.credential?_eq_none_iff proof).2 illegal
    have unsigned : ∀ r, u.chain.signed (u.chain.stamped r) = .error .invalidHeaderValue := by
      intro r
      rw [Chain.signed, chain]
      simp only [Builder.signing, Api.authorization, Api.Signer.sign, none]
      rfl
    exact ⟨send_unsigned unsigned rfl, follow_unsigned unsigned rfl⟩

/-- A builder whose transports repeat an attempt once. -/
def onceMore : Builder := { config := { retry := { maxRetries := 1 } } }

/-- Two attempts, and the same request on both. -/
theorem delivered_of_built_onceMore : ∃ t events qs,
    (onceMore.signing (some (.bearer "s3cret"))).build (.bare slowOnce.recorded ([], 0)) =
      (.ok t, events) ∧
    (t.send homeRequest).2.wire.1 = qs ∧ qs.length = 2 ∧
    ∀ q ∈ qs, Delivered onceMore.config.userAgent (some (.bearer "s3cret")) homeRequest q := by
  refine ⟨_, _, _, rfl, rfl, by decide +kernel, ?_⟩
  obtain ⟨alone, -⟩ := delivered_of_built onceMore (some (.bearer "s3cret")) rfl rfl rfl
  obtain ⟨qs, received, all⟩ := alone homeRequest
  rw [received]
  exact all

/-- A connection that takes no request. -/
def downConnection : Connection Unit where
  unready _ := some (.transport (.plain "down"))
  answer _ s := (⟨.never, .error .serviceClosed⟩, s)

/-- A secret that cannot be sent does not always tell the caller so: a connection that is not
ready comes first. -/
theorem send_downConnection_ne : ∃ t events,
    (onceMore.signing (some (.bearer "a\nb"))).build (.bare downConnection.recorded ([], ())) =
      (.ok t, events) ∧
    (Api.Signer.bearer "a\nb").credential? = none ∧
    (t.send homeRequest).1 ≠ .error .invalidHeaderValue := by
  refine ⟨_, _, rfl, by decide +kernel, ?_⟩
  intro same
  cases same

end Transport

end Courier
