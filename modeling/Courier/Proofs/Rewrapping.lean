import Courier.Api.Client
import Courier.Proofs.Errands
import Courier.Proofs.Numbering

/-!
# Wrapping again

A finished transport around which a builder or a client is put stays the transport that it is, so
that no second chain stands on top of the first. What keeps it from being wrapped does not depend on
it: a builder that traces and does not say where, a client whose configuration is no good.

So however often a transport was wrapped, each attempt of a call is stamped, signed and numbered
once, and the budget of repetitions is that of one chain (`Chain.Once`, `rewrapLaw`).
-/
namespace Courier

/-! ## Once for each attempt -/

namespace Chain

variable {c : Chain} {r : Request} {steps : List Step}

/-- Steps of a call that do everything once for each attempt. -/
structure Once (c : Chain) (r : Request) (steps : List Step) : Prop where
  /-- Everything that is handed over is the request, stamped once and signed once. -/
  sent : ∀ q ∈ requests steps, c.sent r = .ok q
  /-- The budget is spent once. -/
  tried : attempts steps ≤ c.retry.maxRetries + 1
  handed : (requests steps).length ≤ attempts steps
  /-- If attempts are traced, there is a number for each request that is handed over, otherwise
  there is none. -/
  numbered : (claimed steps).length = if c.traces then (requests steps).length else 0
  /-- The trace shows each of these numbers once, as that of a request. -/
  shown : opened (records steps) = claimed steps

theorem Attempted.length_requests_le {o : Outcome} (h : c.Attempted r steps o) :
    (requests steps).length ≤ 1 := by
  cases h with
  | unsigned => exact Nat.zero_le 1
  | @made q hs number answer =>
    obtain ⟨once, -⟩ := views_attemptSteps (c := c) q number answer
    exact Nat.le_of_eq (congrArg List.length once)

/-- A loop tries once more than it may repeat, and hands over one request each time. -/
theorem Loop.tried {left : Nat} {o : Outcome} (h : c.Loop (c.stamped r) left steps o) :
    attempts steps ≤ left + 1 ∧ (requests steps).length ≤ attempts steps := by
  induction h with
  | refused e => exact ⟨Nat.le_add_left 1 _, Nat.zero_le _⟩
  | settled ha ends =>
    obtain ⟨-, one, -⟩ := ha.views
    rw [one]
    exact ⟨Nat.le_add_left 1 _, ha.length_requests_le⟩
  | exhausted ha late event =>
    obtain ⟨-, one, -⟩ := ha.views
    obtain ⟨noRequest, -, noAttempt, -⟩ := views_giveUpSteps (c := c) event
    rw [← List.cons_append, attempts_append, requests_append, one, noAttempt, noRequest,
      List.append_nil]
    exact ⟨Nat.le_refl 1, ha.length_requests_le⟩
  | @again left steps rest e o ha late draw event more ih =>
    obtain ⟨-, one, -⟩ := ha.views
    obtain ⟨noRequest, -, noAttempt, -⟩ := views_backOffSteps (c := c) left draw event
    have first : (requests (⟨.probe, none⟩ :: steps)).length ≤ 1 := ha.length_requests_le
    rw [← List.cons_append, attempts_append, attempts_append, requests_append, requests_append,
      one, noAttempt, noRequest, List.nil_append, List.length_append]
    omega

/-- Where no attempt is traced, none is numbered. -/
theorem views_attemptSteps_off (off : c.tracing = .off) (q : Request) (number : Nat)
    (answer : Answer) :
    claimed (c.attemptSteps q number answer) = [] ∧
      records (c.attemptSteps q number answer) = [] := by
  rw [attemptSteps, off]
  exact ⟨rfl, rfl⟩

/-- Whole attempts claim a number for each request, and show it, exactly if they are traced. -/
theorem Tells.numbers (h : c.Tells r true steps) :
    (claimed steps).length = (if c.traces then (requests steps).length else 0) ∧
      opened (records steps) = claimed steps := by
  induction h with
  | nothing => exact ⟨by simp, rfl⟩
  | @silent step rest silent more ih =>
    obtain ⟨noClaim, noRequest, unnumbered⟩ := views_of_isSilent silent
    obtain ⟨none, -⟩ := quiet_of_unnumbered unnumbered
    rw [← List.singleton_append, claimed_append, requests_append, records_append, opened_append,
      noClaim, noRequest, none]
    exact ih
  | @whole q hs number answer rest more ih =>
    obtain ⟨lengths, shows⟩ := ih
    rw [claimed_append, requests_append, records_append, opened_append, List.length_append,
      List.length_append, shows, lengths]
    cases tracing : c.tracing with
    | off =>
      obtain ⟨noClaim, noRecord⟩ := views_attemptSteps_off tracing q number answer
      rw [noClaim, noRecord, traces_off tracing]
      exact ⟨rfl, rfl⟩
    | on redact =>
      obtain ⟨claims, one, opens, -⟩ := views_attemptSteps_on tracing q number answer
      rw [claims, one, opens, traces_on tracing]
      exact ⟨rfl, rfl⟩
  | beginning hs number answer part unfinished => cases unfinished

/-- A call that goes to its end does everything once for each attempt. -/
theorem once_of_ends {value : Outcome} (h : (c.call r).Ends steps value) : c.Once r steps := by
  obtain ⟨numbered, shown⟩ := (tells_of_ends h).numbers
  have sent := requests_of_path h
  obtain ⟨loop, o, hl, rfl, -⟩ := ends_call h
  obtain ⟨noRequest, -, noAttempt, -⟩ := views_logging (c.settledEvents (c.stamped r) o)
  obtain ⟨tried, handed⟩ := hl.tried
  refine ⟨sent, ?_, ?_, numbered, shown⟩
  · rw [attempts_append, noAttempt]
    exact tried
  · rw [attempts_append, noAttempt, requests_append, noRequest, List.append_nil]
    exact handed

end Chain

/-! ## Builders and clients around a transport -/

/-- What is wrong with a configuration that traces and does not say where. -/
def TraceConfig.fault? (c : TraceConfig) : Option Failure :=
  if c.enabled = true ∧ c.sink = none then some .missingTraceSink else none

theorem TraceConfig.tracer?_eq_error_iff {c : TraceConfig} {f : Failure} :
    c.tracer? = .error f ↔ c.fault? = some f := by
  rw [tracer?, fault?]
  cases c.enabled with
  | false => simp
  | true => cases c.sink <;> simp

/-- What may be put around a finished transport. -/
inductive Wrap where
  | builder (b : Builder)
  | client (c : Api.ApiConfig)

namespace Wrap

/-- What is wrong with a wrap, whatever it is put around. -/
def fault? : Wrap → Option Api.ConfigError
  | .builder b => b.config.trace.fault?.map .transport
  | .client c =>
    match c.check with
    | .error e => some e
    | .ok _ => c.transport.trace.fault?.map .transport

end Wrap

/-- What is built around a finished transport is the transport, if it is built at all. -/
theorem Builder.build_decorated {σ : Type} (b : Builder) (t : Transport σ) :
    (b.build (.decorated t)).1 =
      match b.config.trace.fault? with
      | some f => .error f
      | none => .ok t := by
  rw [build]
  cases traced : b.config.trace.tracer? with
  | error f => rw [TraceConfig.tracer?_eq_error_iff.1 traced]
  | ok tracer =>
    cases fault : b.config.trace.fault? with
    | none => rfl
    | some f =>
      rw [TraceConfig.tracer?_eq_error_iff.2 fault] at traced
      cases traced

namespace Transport

variable {σ : Type}

/-- Put a builder or a client around a transport. -/
def wrap (t : Transport σ) : Wrap → Except Api.ConfigError (Transport σ)
  | .builder b => (b.build (.decorated t)).1.mapError .transport
  | .client c => (Api.Client.build c (.decorated t)).1.map Api.Client.transport

/-- Wrap a transport and what comes of it again and again. -/
def rewrap (t : Transport σ) : List Wrap → Except Api.ConfigError (Transport σ)
  | [] => .ok t
  | w :: ws => do
    let wrapped ← t.wrap w
    wrapped.rewrap ws

theorem wrap_eq (t : Transport σ) (w : Wrap) :
    t.wrap w =
      match w.fault? with
      | some e => .error e
      | none => .ok t := by
  cases w with
  | builder b =>
    rw [wrap, b.build_decorated t, Wrap.fault?]
    cases b.config.trace.fault? <;> rfl
  | client c =>
    rw [wrap, Api.Client.build, Wrap.fault?]
    cases c.check with
    | error e => rfl
    | ok parts =>
      obtain ⟨origin, signer⟩ := parts
      have built := (c.builder signer).build_decorated t
      simp only
      generalize (c.builder signer).build (.decorated t) = outcome at built ⊢
      obtain ⟨result, events⟩ := outcome
      simp only [Api.ApiConfig.builder] at built
      subst built
      cases c.transport.trace.fault? <;> rfl

/-- The first wrap that is no good keeps the transport from being wrapped, and only that. -/
theorem rewrap_eq (t : Transport σ) (ws : List Wrap) :
    t.rewrap ws =
      match ws.findSome? Wrap.fault? with
      | some e => .error e
      | none => .ok t := by
  induction ws with
  | nil => rfl
  | cons w ws ih =>
    rw [rewrap, wrap_eq, List.findSome?_cons]
    cases w.fault? with
    | some e => rfl
    | none => exact ih

theorem eq_of_rewrap {t u : Transport σ} {ws : List Wrap} (h : t.rewrap ws = .ok u) : u = t := by
  rw [rewrap_eq] at h
  split at h
  · cases h
  · exact (Except.ok.inj h).symm

/-! ## However often -/

/-- What comes of putting builders and clients around a transport. -/
structure RewrapLaw (t : Transport σ) : Prop where
  /-- Whatever a builder is set to, it hands the transport back, unless it is to trace and does not
  say where. -/
  built : ∀ b : Builder, (b.build (.decorated t)).1 =
    if b.config.trace.enabled = true ∧ b.config.trace.sink = none then .error .missingTraceSink
    else .ok t
  /-- Of many wraps each has to be good, and that is all that is asked of them. -/
  wrapped : ∀ ws u, t.rewrap ws = .ok u ↔ u = t ∧ ∀ w ∈ ws, w.fault? = none
  /-- Errands bring the same and leave the same behind, whether they follow one another, are done
  at the same time, or take turns in any order. -/
  same : ∀ ws u, t.rewrap ws = .ok u →
    (∀ es, u.serveAll es = t.serveAll es) ∧ (∀ rs, u.sendAll rs = t.sendAll rs) ∧
      ∀ rs schedule, u.follow (u.callsOf rs) schedule = t.follow (t.callsOf rs) schedule
  /-- Errands that follow one another do everything once for each attempt. -/
  once : ∀ ws u, t.rewrap ws = .ok u → ∀ es, ∀ course ∈ u.courses es, course.2 ≠ [] →
    ∃ r, course.1.finished t.security = .ok r ∧ t.chain.Once r course.2
  /-- So does each call that takes turns with others, when it has ended. -/
  crowd : ∀ ws u, t.rewrap ws = .ok u → ∀ (rs : List Request) schedule i r left value,
    rs[i]? = some r → (u.follow (u.callsOf rs) schedule).1[i]? = some left →
    left.value? = some value → t.chain.Once r (stepsOf i (u.log (u.callsOf rs) schedule))
  /-- Of a transport that was built on a bare connection, the identity and the credential of its
  own builder are the only ones that are handed over. -/
  delivered : ∀ (b : Builder) signer (connection : Connection σ) wire first events,
    (b.signing signer).build (.bare connection wire) = (.ok first, events) →
    t.chain = first.chain → ∀ ws u, t.rewrap ws = .ok u → ∀ es, ∀ course ∈ u.courses es,
      ∀ q ∈ requests course.2, ∃ r, course.1.finished t.security = .ok r ∧
        Delivered b.config.userAgent signer r q

theorem once_of_mem_courses {t : Transport σ} {es : List Errand} {course : Errand × List Step}
    (h : course ∈ t.courses es) (active : course.2 ≠ []) :
    ∃ r, course.1.finished t.security = .ok r ∧ t.chain.Once r course.2 := by
  obtain ⟨u, same, -, steps⟩ := mem_courses h
  rw [steps] at active ⊢
  obtain ⟨r, value, finished, ends⟩ := ends_errandSteps active
  rw [same.chain] at ends
  rw [same.security] at finished
  exact ⟨r, finished, Chain.once_of_ends ends⟩

theorem delivered_of_mem_courses {t first : Transport σ} {b : Builder} {signer : Option Api.Signer}
    {connection : Connection σ} {wire : σ} {events : List Event}
    (built : (b.signing signer).build (.bare connection wire) = (.ok first, events))
    (chain : t.chain = first.chain) {es : List Errand} {course : Errand × List Step}
    (h : course ∈ t.courses es) {q : Request} (hq : q ∈ requests course.2) :
    ∃ r, course.1.finished t.security = .ok r ∧ Delivered b.config.userAgent signer r q := by
  obtain ⟨r, finished, once⟩ := once_of_mem_courses h (ne_nil_of_mem_requests hq)
  obtain ⟨tracer, identity, -, named, rfl⟩ := Builder.build_bare built
  have sent := once.sent q hq
  rw [chain] at sent
  refine ⟨r, finished, Chain.delivered_of_sent ?_ rfl sent⟩
  exact named

/-- **Wrapping again.** Put around a finished transport, a builder or a client gives the transport
back as it is, whatever it is set to, unless it cannot be built at all. However often this is done,
requests bring what they bring on the transport alone, with the same steps: one identity, one
credential and one number for each attempt, and one budget of repetitions for each call. -/
theorem rewrapLaw (t : Transport σ) : RewrapLaw t where
  built b := by
    rw [b.build_decorated t, TraceConfig.fault?]
    by_cases aimless : b.config.trace.enabled = true ∧ b.config.trace.sink = none
    · rw [if_pos aimless, if_pos aimless]
    · rw [if_neg aimless, if_neg aimless]
  wrapped ws u := by
    rw [rewrap_eq, ← List.findSome?_eq_none_iff]
    cases ws.findSome? Wrap.fault? with
    | some e => simp
    | none => simp [eq_comm]
  same ws u h := by
    obtain rfl := eq_of_rewrap h
    exact ⟨fun _ => rfl, fun _ => rfl, fun _ _ => rfl⟩
  once ws u h es course hc active := by
    obtain rfl := eq_of_rewrap h
    exact once_of_mem_courses hc active
  crowd ws u h rs schedule i r left value hr hl hv := by
    obtain rfl := eq_of_rewrap h
    exact Chain.once_of_ends (follow_ends (getElem?_callsOf hr) hl hv)
  delivered b signer connection wire first events built chain ws u h es course hc q hq := by
    obtain rfl := eq_of_rewrap h
    exact delivered_of_mem_courses built chain hc hq

/-- Settings that could not be sent, another signer and another client change nothing. -/
example : patient.rewrap [
    .builder ({ config := { userAgent := "\n", retry := .fast } } : Builder),
    .builder (onceMore.signing (some (.bearer "s3cret"))),
    .client (Api.Client.testConfig none)] = .ok patient := rfl

end Transport

end Courier
