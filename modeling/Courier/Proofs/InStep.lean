import Courier.Proofs.Path

/-!
# Calls in step

Two calls, each on a transport of its own, are in step if they end alike whenever the transports
are alike. What it means for transports and for values to be alike is left open; the rules are
those of sequences. Only one of the calls may act where its action is not to be seen in the
likeness.
-/
namespace Courier.Transport

variable {σ τ α β γ δ : Type} {S : Transport σ → Transport τ → Prop}

/-- On transports that `S` relates, the calls end with values that `V` relates and leave transports
that `S` relates. -/
def InStep (S : Transport σ → Transport τ → Prop) (V : α → β → Prop) (c : Call α) (d : Call β) :
    Prop :=
  ∀ t u, S t u → S (t.run c).2 (u.run d).2 ∧ V (t.run c).1 (u.run d).1

namespace InStep

theorem done {V : α → β → Prop} {a : α} {b : β} (h : V a b) :
    InStep S V (.done a) (.done b) := by
  intro t u hs
  exact ⟨hs, h⟩

theorem mono {V W : α → β → Prop} {c : Call α} {d : Call β} (h : InStep S V c d)
    (weaker : ∀ a b, V a b → W a b) : InStep S W c d := by
  intro t u hs
  obtain ⟨after, values⟩ := h t u hs
  exact ⟨after, weaker _ _ values⟩

theorem bind {V : α → β → Prop} {W : γ → δ → Prop} {c : Call α} {d : Call β} {f : α → Call γ}
    {g : β → Call δ} (h : InStep S V c d) (k : ∀ a b, V a b → InStep S W (f a) (g b)) :
    InStep S W (c >>= f) (d >>= g) := by
  intro t u hs
  obtain ⟨after, values⟩ := h t u hs
  rw [run_bind, run_bind]
  exact k _ _ values _ _ after

/-- Both calls act. -/
theorem lift {a b : Action} {V : a.Result → b.Result → Prop}
    (h : ∀ t u, S t u →
      S (t.perform a).2 (u.perform b).2 ∧ V (t.perform a).1 (u.perform b).1) :
    InStep S V (Call.lift a) (Call.lift b) := h

/-- The first call acts alone. -/
theorem left {V : α → β → Prop} {a : Action} {f : a.Result → Call α} {d : Call β}
    (h : ∀ t u, S t u → S (t.perform a).2 u) (k : ∀ x, InStep S V (f x) d) :
    InStep S V (Call.lift a >>= f) d := by
  intro t u hs
  exact k _ _ _ (h t u hs)

/-! ## Loops and doors -/

section Loops

variable {V : Chain.Outcome → Chain.Outcome → Prop} {c c' : Chain} {r r' : Request}
  (fails : ∀ e, V (.error e) (.error e))
  (agree : ∀ o o', V o o' →
    (∃ e, o = .error e ∧ o' = .error e) ∨ ∃ first second, o = .ok first ∧ o' = .ok second)
  (probes : InStep S (fun x y => x = y) (Call.lift .probe) (Call.lift .probe))
  (attempts : InStep S V (c.attempt r) (c'.attempt r'))

include fails agree probes attempts

/-- What follows an attempt depends on its failure only. -/
theorem attemptOr {next next' : Failure → Call Chain.Outcome}
    (k : ∀ e, InStep S V (next e) (next' e)) :
    InStep S V (c.attemptOr r next) (c'.attemptOr r' next') := by
  refine bind probes ?_
  rintro (unready : Option Failure) _ rfl
  cases unready with
  | some e => exact done (fails e)
  | none =>
    refine bind attempts fun o o' alike => ?_
    obtain ⟨e, rfl, rfl⟩ | ⟨first, second, rfl, rfl⟩ := agree o o' alike
    · by_cases late : e.isTimeout = true
      · simp only [late, if_true]
        exact k e
      · simp only [late]
        exact done alike
    · exact done alike

/-- Loops are in step if their attempts are, and what they do between attempts. -/
theorem retrying (gives : ∀ e, InStep S (fun _ _ => True) (c.giveUp r e) (c'.giveUp r' e))
    (waits : ∀ left e, InStep S (fun _ _ => True) (c.backOff r left e) (c'.backOff r' left e))
    (left : Nat) : InStep S V (c.retrying r left) (c'.retrying r' left) := by
  induction left with
  | zero =>
    refine attemptOr fails agree probes attempts fun e => ?_
    exact bind (gives e) fun _ _ _ => done (fails e)
  | succ left ih =>
    refine attemptOr fails agree probes attempts fun e => ?_
    exact bind (waits left e) fun _ _ _ => ih

end Loops

/-- Requests are in step if their calls are, at doors that open and shut alike. -/
theorem roundTrip {V : Chain.Outcome → Chain.Outcome → Prop} {t : Transport σ} {u : Transport τ}
    {r r' : Request} (alike : S t u)
    (door : (t.closed <|> t.connection.unready t.wire) =
      (u.closed <|> u.connection.unready u.wire))
    (shut : ∀ cause, S ({ t with closed := some cause }.noting [refusal cause])
      ({ u with closed := some cause }.noting [refusal cause]))
    (refused : V (.error .serviceClosed) (.error .serviceClosed))
    (calls : InStep S V (t.chain.call r) (u.chain.call r')) :
    S (t.roundTrip r).2 (u.roundTrip r').2 ∧ V (t.roundTrip r).1 (u.roundTrip r').1 := by
  obtain ⟨cause, closes, ends⟩ | ⟨opens, runs⟩ := roundTrip_cases t r
  · obtain ⟨other, closes', ends'⟩ | ⟨opens', -⟩ := roundTrip_cases u r'
    · obtain rfl : cause = other := by
        rw [door, closes'] at closes
        exact (Option.some.inj closes).symm
      rw [ends, ends']
      exact ⟨shut cause, refused⟩
    · rw [door, opens'] at closes
      cases closes
  · obtain ⟨other, closes', -⟩ | ⟨-, runs'⟩ := roundTrip_cases u r'
    · rw [door, closes'] at opens
      cases opens
    · rw [runs, runs']
      exact calls t u alike

end InStep

end Courier.Transport
