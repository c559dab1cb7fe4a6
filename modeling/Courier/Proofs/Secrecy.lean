import Courier.Proofs.Delivery
import Courier.Proofs.InStep
import Courier.Proofs.Redaction

/-!
# Redaction hides the credential

Two runs that differ in credentials only, on a connection that does not look at them, are in step
down to every record that they write. The trace of a transport that redacts therefore says nothing
about any credential.
-/
namespace Courier

namespace Headers

variable {h k : Headers}

theorem blinded_insert (same : h.blinded = k.blinded) (name : HeaderName) (value : HeaderValue) :
    (h.insert name value).blinded = (k.insert name value).blinded := by
  rw [insert, insert, blinded_append, blinded_append, blinded_erase, blinded_erase, same]

/-- Another credential makes no difference. -/
theorem blinded_insert_credential (same : h.blinded = k.blinded) (v w : HeaderValue) :
    (h.insert .authorization v).blinded = (k.insert .authorization w).blinded := by
  rw [insert, insert, blinded_append, blinded_append, blinded_erase, blinded_erase, same,
    blindedField, blindedField, if_pos rfl, if_pos rfl]

end Headers

theorem Request.SameButCredentials.exists_headers {q q' : Request} (h : q.SameButCredentials q') :
    ∃ headers, q' = { q with headers := headers } := by
  refine ⟨q'.headers, ?_⟩
  rw [h.method, h.uri, h.version, h.body]

theorem Request.SameButCredentials.advertise {q q' : Request} (h : q.SameButCredentials q') :
    (Compression.advertise q).SameButCredentials (Compression.advertise q') := by
  have asks : q.headers.contains .acceptEncoding = q'.headers.contains .acceptEncoding := by
    rw [Headers.contains_eq_any, Headers.contains_eq_any, h.headers]
  unfold Compression.advertise
  rw [asks]
  split
  · exact h
  · exact ⟨h.method, h.uri, h.version, Headers.blinded_insert h.headers _ _, h.body⟩

/-- The dumps of requests that differ in credentials only are the same record. -/
theorem Request.SameButCredentials.ofRequest {q q' : Request} (h : q.SameButCredentials q')
    (number : Nat) : Record.ofRequest true number q = Record.ofRequest true number q' := by
  rw [Record.ofRequest, Record.ofRequest, if_pos rfl, if_pos rfl, h.redact_dump]

/-- The connection answers all the same whatever the credentials. -/
def Connection.Blind {σ : Type} (connection : Connection σ) : Prop :=
  ∀ q q', q.SameButCredentials q' → ∀ s, connection.answer q s = connection.answer q' s

namespace Transport

variable {σ α : Type} {connection : Connection σ} {d : Chain}

/-- The second transport is the first one with another chain. -/
def Twins (connection : Connection σ) (d : Chain) (t u : Transport σ) : Prop :=
  u = { t with chain := d } ∧ t.connection = connection

/-- No action looks at the chain. -/
theorem perform_chain (t : Transport σ) (d : Chain) (a : Action) :
    ({ t with chain := d } : Transport σ).perform a =
      ((t.perform a).1, { (t.perform a).2 with chain := d }) := by
  cases a with
  | claim =>
    simp only [perform]
    split <;> rfl
  | write record =>
    simp only [perform]
    split <;> rfl
  | _ => rfl

theorem Twins.perform {t u : Transport σ} (h : Twins connection d t u) (a : Action) :
    Twins connection d (t.perform a).2 (u.perform a).2 ∧ (t.perform a).1 = (u.perform a).1 := by
  obtain ⟨rfl, link⟩ := h
  rw [perform_chain t d a]
  exact ⟨⟨rfl, (sameSettings_perform t a).connection.trans link⟩, rfl⟩

/-- A call is in step with itself. -/
theorem inStep_refl (c : Call α) : InStep (Twins connection d) (fun x y => x = y) c c := by
  induction c with
  | done value => exact InStep.done rfl
  | act a next ih =>
    refine InStep.bind (c := Call.lift a) (d := Call.lift a) (f := next) (g := next)
      (InStep.lift fun t u h => h.perform a) ?_
    rintro x _ rfl
    exact ih x

theorem inStep_write {record record' : Record} (same : record = record') :
    InStep (Twins connection d) (fun _ _ => True) (Call.lift (.write record))
      (Call.lift (.write record')) := by
  subst same
  exact (inStep_refl _).mono fun _ _ _ => trivial

/-- A blind connection brings the same answer. -/
theorem inStep_deliver_blind (blind : connection.Blind) {q q' : Request}
    (h : q.SameButCredentials q') :
    InStep (Twins connection d) (fun x y => x = y) (Call.lift (.deliver q))
      (Call.lift (.deliver q')) := by
  refine InStep.lift (a := .deliver q) (b := .deliver q') fun t u twins => ?_
  obtain ⟨rfl, rfl⟩ := twins
  have same := blind q q' h t.wire
  simp only [Transport.perform, same]
  exact ⟨⟨rfl, rfl⟩, rfl⟩

end Transport

/-- Two ways to authorize that differ in credentials only, in what they need and what they bring. -/
def SameSigning (f g : Headers → Except Failure Headers) : Prop :=
  ∀ h k, h.blinded = k.blinded → (∃ e, f h = .error e ∧ g k = .error e) ∨
    ∃ h' k', f h = .ok h' ∧ g k = .ok k' ∧ h'.blinded = k'.blinded

namespace Chain

open Transport

variable {σ : Type}

/-- The chain with another way to authorize. -/
def authorizedBy (c : Chain) (g : Headers → Except Failure Headers) : Chain :=
  { c with authorize := g }

section InStep

variable {c : Chain} {g : Headers → Except Failure Headers} {connection : Connection σ}
  {d : Chain} {r r' : Request}

theorem sameButCredentials_stamped (h : r.SameButCredentials r') :
    (c.stamped r).SameButCredentials ((c.authorizedBy g).stamped r') :=
  ⟨h.method, h.uri, h.version, Headers.blinded_insert h.headers _ _, h.body⟩

theorem inStep_giveUp_credentials (h : r.SameButCredentials r') (e : Failure) :
    InStep (Twins connection d) (fun _ _ => True) (c.giveUp r e)
      ((c.authorizedBy g).giveUp r' e) := by
  obtain ⟨headers, rfl⟩ := h.exists_headers
  exact (inStep_refl (c.giveUp r e)).mono fun _ _ _ => trivial

theorem inStep_backOff_credentials (h : r.SameButCredentials r') (left : Nat) (e : Failure) :
    InStep (Twins connection d) (fun _ _ => True) (c.backOff r left e)
      ((c.authorizedBy g).backOff r' left e) := by
  obtain ⟨headers, rfl⟩ := h.exists_headers
  exact (inStep_refl (c.backOff r left e)).mono fun _ _ _ => trivial

variable (blind : connection.Blind)

include blind

theorem inStep_exchange_credentials (h : r.SameButCredentials r') :
    InStep (Twins connection d) (fun x y => x = y) (c.exchange r)
      ((c.authorizedBy g).exchange r') := by
  refine InStep.bind (inStep_deliver_blind blind h.advertise) ?_
  rintro answer _ rfl
  exact inStep_refl _

/-- A traced attempt writes the same request, because its credential is hidden, and the same
outcome. -/
theorem inStep_observedExchange_credentials (hides : c.tracing = .on true)
    (h : r.SameButCredentials r') :
    InStep (Twins connection d) (fun x y => x = y) (c.observedExchange r)
      ((c.authorizedBy g).observedExchange r') := by
  have hides' : (c.authorizedBy g).tracing = .on true := hides
  rw [observedExchange, observedExchange, hides, hides']
  refine InStep.bind (inStep_refl _) ?_
  rintro number _ rfl
  refine InStep.bind (inStep_write (h.ofRequest number)) fun _ _ _ => ?_
  refine InStep.bind (inStep_exchange_credentials blind h) ?_
  rintro o _ rfl
  exact inStep_refl _

variable (hides : c.tracing = .on true) (signs : SameSigning c.authorize g)

include hides signs

theorem inStep_attempt_credentials (h : r.SameButCredentials r') :
    InStep (Twins connection d) (fun x y => x = y) (c.attempt r)
      ((c.authorizedBy g).attempt r') := by
  have other : (c.authorizedBy g).authorize = g := rfl
  rw [attempt, attempt, other]
  obtain ⟨e, failed, failed'⟩ | ⟨k, k', signed, signed', same⟩ := signs _ _ h.headers
  · rw [failed, failed']
    exact InStep.done rfl
  · rw [signed, signed']
    exact inStep_observedExchange_credentials blind hides
      ⟨h.method, h.uri, h.version, same, h.body⟩

theorem inStep_retrying_credentials (h : r.SameButCredentials r') (left : Nat) :
    InStep (Twins connection d) (fun x y => x = y) (c.retrying r left)
      ((c.authorizedBy g).retrying r' left) := by
  refine InStep.retrying (fun _ => rfl) ?_ (inStep_refl _)
    (inStep_attempt_credentials blind hides signs h) (inStep_giveUp_credentials h)
    (inStep_backOff_credentials h) left
  rintro o _ rfl
  cases o with
  | error e => exact .inl ⟨e, rfl, rfl⟩
  | ok response => exact .inr ⟨response, response, rfl, rfl⟩

/-- Calls that differ in credentials only are in step. -/
theorem inStep_call_credentials (h : r.SameButCredentials r') :
    InStep (Twins connection d) (fun x y => x = y) (c.call r) ((c.authorizedBy g).call r') := by
  have stamped := sameButCredentials_stamped (c := c) (g := g) h
  refine InStep.bind (inStep_retrying_credentials blind hides signs stamped _) ?_
  rintro o _ rfl
  have hides' : (c.authorizedBy g).tracing = .on true := hides
  rw [settle, settle, hides, hides']
  exact InStep.done rfl

end InStep

end Chain

namespace Api

/-- Both sign or neither does, and the secrets can both be sent or neither can. -/
def SameButSecret (signer signer' : Option Signer) : Prop :=
  signer.map (fun s => s.credential?.isSome) = signer'.map fun s => s.credential?.isSome

theorem sameSigning_authorization {signer signer' : Option Signer}
    (h : SameButSecret signer signer') :
    SameSigning (authorization signer) (authorization signer') := by
  intro k k' same
  cases signer with
  | none =>
    cases signer' with
    | none => exact .inr ⟨k, k', rfl, rfl, same⟩
    | some s' => cases h
  | some s =>
    cases signer' with
    | none => cases h
    | some s' =>
      have sendable : s.credential?.isSome = s'.credential?.isSome := Option.some.inj h
      simp only [authorization, Signer.sign]
      cases hs : s.credential? with
      | none =>
        have none' : s'.credential? = none := by simpa [hs] using sendable.symm
        rw [none']
        exact .inl ⟨_, rfl, rfl⟩
      | some v =>
        obtain ⟨w, hw⟩ : ∃ w, s'.credential? = some w := by
          simpa [hs, Option.isSome_iff_exists] using sendable.symm
        rw [hw]
        exact .inr ⟨_, _, rfl, rfl, Headers.blinded_insert_credential same _ _⟩

end Api

namespace Transport

variable {σ : Type} {connection : Connection σ} {t u : Transport σ}

/-- Requests that differ in credentials only have the same outcome and leave the same behind. -/
theorem roundTrip_credentials (hides : t.chain.tracing = .on true) (blind : connection.Blind)
    {g : Headers → Except Failure Headers} (signs : SameSigning t.chain.authorize g)
    (twins : Twins connection (t.chain.authorizedBy g) t u) {r r' : Request}
    (h : r.SameButCredentials r') :
    Twins connection (t.chain.authorizedBy g) (t.roundTrip r).2 (u.roundTrip r').2 ∧
      (t.roundTrip r).1 = (u.roundTrip r').1 := by
  obtain ⟨rfl, link⟩ := twins
  refine InStep.roundTrip ⟨rfl, link⟩ rfl (fun cause => ⟨rfl, link⟩) rfl ?_
  exact Chain.inStep_call_credentials blind hides signs h

/-- **Redaction hides the credential.** Two transports that were built alike but for the secret of
the signer, and are alike at some moment of their lives, trace without credentials into alike
sinks. If the connection answers all the same whatever the credentials, requests that differ in
credentials only leave the same text in both sinks, bring the same reply, and leave the transports
alike. -/
theorem send_redacted (b : Builder) (signer signer' : Option Api.Signer)
    (secrets : Api.SameButSecret signer signer') (traces : b.config.trace.enabled = true)
    (redacts : b.config.trace.redact = true) {wire : σ} {built built' : Transport σ}
    {events events' : List Event}
    (builtOne : (b.signing signer).build (.bare connection wire) = (.ok built, events))
    (builtOther : (b.signing signer').build (.bare connection wire) = (.ok built', events'))
    (chain : t.chain = built.chain) (link : t.connection = connection)
    (alike : u = { t with chain := built'.chain }) (blind : connection.Blind) {r r' : Request}
    (h : r.SameButCredentials r') :
    (t.send r).2.tracer.map (fun tracer => tracer.sink.contents) =
      (u.send r').2.tracer.map (fun tracer => tracer.sink.contents) ∧
    (u.send r').2 = { (t.send r).2 with chain := built'.chain } ∧
    (t.send r).1 = (u.send r').1 := by
  obtain ⟨tracer, identity, ht, named, rfl⟩ := Builder.build_bare builtOne
  obtain ⟨_, other, ht', named', rfl⟩ := Builder.build_bare builtOther
  obtain rfl : identity = other := Option.some.inj (named.symm.trans named')
  obtain rfl := Except.ok.inj (ht.symm.trans ht')
  obtain ⟨sink, -, rfl⟩ := TraceConfig.tracer?_of_enabled traces ht
  have hides : t.chain.tracing = .on true := by
    rw [chain, ← redacts]
    rfl
  have signs : SameSigning t.chain.authorize (Api.authorization signer') := by
    rw [chain]
    exact Api.sameSigning_authorization secrets
  have twins : Twins connection (t.chain.authorizedBy (Api.authorization signer')) t u := by
    refine ⟨?_, link⟩
    rw [alike, chain]
    rfl
  obtain ⟨⟨after, -⟩, outcome⟩ := roundTrip_credentials hides blind signs twins h
  have left : (u.send r').2 = { (t.send r).2 with chain := u.chain } := by
    rw [send_eq, send_eq, after, twins.1]
  refine ⟨?_, ?_, ?_⟩
  · rw [left]
  · rw [left, alike]
  · have limit : t.reply = u.reply := by
      funext response
      rw [reply, reply, alike, chain]
      rfl
    rw [send_eq, send_eq, outcome, limit]

/-- A request with a value under `authorization`. -/
def credentialRequest (value : HeaderValue) : Request :=
  { homeRequest with headers := ⟨[(.accept, .json), (.authorization, value)]⟩ }

/-- A builder whose transports repeat an attempt once and trace without credentials. -/
def tracingBuilder : Builder := { config := { retry := .fast, trace := .to .empty } }

theorem blind_slowOnce : slowOnce.Blind := by
  intro q q' _ s
  rfl

/-- Neither another secret nor another value of the caller's, be it empty or broken, leaves another
trace. -/
theorem send_redacted_slowOnce : ∃ t u events events',
    (tracingBuilder.signing (some (.bearer "s3cret"))).build (.bare slowOnce 0) =
      (.ok t, events) ∧
    (tracingBuilder.signing (some (.apiKey ""))).build (.bare slowOnce 0) = (.ok u, events') ∧
    (t.send (credentialRequest ⟨[], by decide, false⟩)).2.tracer.map (·.sink.contents) =
      (u.send (credentialRequest ⟨[0xFF, 0x09], by decide, false⟩)).2.tracer.map
        (·.sink.contents) := by
  have one : (tracingBuilder.signing (some (.bearer "s3cret"))).build (.bare slowOnce 0) = _ := rfl
  have other : (tracingBuilder.signing (some (.apiKey ""))).build (.bare slowOnce 0) = _ := rfl
  have same : (credentialRequest ⟨[], by decide, false⟩).SameButCredentials
      (credentialRequest ⟨[0xFF, 0x09], by decide, false⟩) := ⟨rfl, rfl, rfl, rfl, rfl⟩
  refine ⟨_, _, _, _, one, other, ?_⟩
  exact (send_redacted tracingBuilder (some (.bearer "s3cret")) (some (.apiKey "")) rfl rfl rfl one
    other rfl rfl rfl blind_slowOnce same).1

end Transport

end Courier
