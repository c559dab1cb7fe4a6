import Courier.Failure
import Mathlib.Data.List.Chain
import Mathlib.Logic.Relation

/-!
# Timeouts among the sources

Whether a failure is a timeout is found out by two walks that call each other: one goes from error
to source, and asks each failure that it meets to look below itself. Here the errors below a failure
are one list, in which each error names the next as its source, and the answer is read off that list
alone. Failures met on the way add nothing, because what lies below them lies further down the same
list, and an error that stands for another one hides it from both walks alike.

The main result is `timeoutLaw`.
-/
namespace Courier

/-! ## One source after another -/

/-- The error right below a failure. -/
def Failure.source? (f : Failure) : Option Cause := f.sources.head?

namespace Cause

/-- The error that an error names as its source. An error that stands for another one names the
source of that one. -/
def source? : Cause → Option Cause
  | .plain _ => none
  | .wrapped _ source => some source
  | .io _ => none
  | .ioMessage _ _ => none
  | .ioWrapping _ inner => inner.source?
  | .failure f => f.source?
  | .replay _ => none

/-- The second error is met on the way from source to source that begins at the first. -/
def Reaches : Cause → Cause → Prop :=
  Relation.ReflTransGen fun c d => c.source? = some d

end Cause

theorem Failure.sources_eq (f : Failure) :
    f.sources = f.source?.elim [] fun d => d :: d.sources := by
  cases f <;> rfl

namespace Cause

theorem sources_eq : ∀ c : Cause, c.sources = c.source?.elim [] fun d => d :: d.sources
  | .plain _ => rfl
  | .wrapped _ _ => rfl
  | .io _ => rfl
  | .ioMessage _ _ => rfl
  | .ioWrapping _ inner => inner.sources_eq
  | .failure f => f.sources_eq
  | .replay _ => rfl

variable {c d : Cause}

theorem sources_of_some (h : c.source? = some d) : c.sources = d :: d.sources := by
  rw [sources_eq, h]
  rfl

theorem source_of_cons {links : List Cause} (h : c.sources = d :: links) :
    c.source? = some d ∧ links = d.sources := by
  rw [sources_eq] at h
  cases next : c.source? with
  | none =>
    rw [next] at h
    cases h
  | some e =>
    rw [next] at h
    obtain ⟨rfl, rfl⟩ := List.cons.inj h
    exact ⟨rfl, rfl⟩

theorem source_of_nil (h : c.sources = []) : c.source? = none := by
  rw [sources_eq] at h
  cases next : c.source? with
  | none => rfl
  | some e =>
    rw [next] at h
    cases h

/-- What is true of an error and its sources as a list follows from what is true of the list that
begins at its source. -/
theorem chain_induction {p : Cause → List Cause → Prop}
    (last : ∀ c, c.source? = none → p c [])
    (link : ∀ c d, c.source? = some d → p d d.sources → p c (d :: d.sources)) (c : Cause) :
    p c c.sources := by
  generalize whole : c.sources = links
  induction links generalizing c with
  | nil => exact last c (source_of_nil whole)
  | cons d links ih =>
    obtain ⟨next, rfl⟩ := source_of_cons whole
    exact link c d next (ih d rfl)

/-- An error and its sources are what is reached from it. -/
theorem reaches_iff : c.Reaches d ↔ d ∈ c :: c.sources := by
  constructor
  · intro h
    induction h using Relation.ReflTransGen.head_induction_on with
    | refl => exact List.mem_cons_self ..
    | head next _ ih =>
      rw [sources_of_some next]
      exact List.mem_cons_of_mem _ ih
  · refine chain_induction (p := fun c links => d ∈ c :: links → c.Reaches d) ?_ ?_ c
    · intro c _ here
      rw [List.mem_singleton.mp here]
      exact .refl
    · intro c e next ih among
      rcases List.mem_cons.mp among with rfl | later
      · exact .refl
      · exact .head next (ih later)

/-- Each error of the list names the next one, and the last one names none. -/
theorem isChain_sources (c : Cause) :
    (c :: c.sources).IsChain (fun a b => a.source? = some b) ∧
      ∀ d ∈ (c :: c.sources).getLast?, d.source? = none := by
  refine chain_induction (p := fun c links =>
    (c :: links).IsChain (fun a b => a.source? = some b) ∧
      ∀ d ∈ (c :: links).getLast?, d.source? = none) ?_ ?_ c
  · intro c none
    refine ⟨.singleton c, ?_⟩
    rintro d ⟨⟩
    exact none
  · rintro c d next ⟨linked, ended⟩
    refine ⟨.cons_cons next linked, ?_⟩
    rwa [List.getLast?_cons_cons]

/-! ## Timeouts -/

/-- The error is itself a timeout: input or output that took too long, or a failure of an attempt
that was not answered within the limit. -/
def timedOut : Cause → Bool
  | .io kind => kind == .timedOut
  | .ioMessage kind _ => kind == .timedOut
  | .ioWrapping kind _ => kind == .timedOut
  | .failure (.timeout _) => true
  | _ => false

/-- One round of the walk: the error is input or output that took too long, or a failure that says
of itself that it is a timeout. -/
def stopsWalk : Cause → Bool
  | .failure f => f.isTimeout
  | c => c.timedOut

end Cause

/-! ## Both walks are one -/

/-- A failure that is asked in the middle of a walk finds what the walk finds below it. -/
theorem Failure.isTimeout_or (f : Failure) :
    (f.isTimeout || f.sourceReachesTimeout) =
      ((Cause.failure f).timedOut || f.sourceReachesTimeout) := by
  cases f with
  | transport c => exact Bool.or_self _
  | _ => rfl

mutual

theorem Cause.sourceReachesTimeout_eq (c : Cause) :
    c.sourceReachesTimeout = c.sources.any Cause.timedOut := by
  cases c with
  | wrapped message source => exact source.reachesTimeout_eq
  | ioWrapping kind inner => exact inner.sourceReachesTimeout_eq
  | failure f => exact f.sourceReachesTimeout_eq
  | _ => rfl

theorem Cause.reachesTimeout_eq (c : Cause) :
    c.reachesTimeout = (c :: c.sources).any Cause.timedOut := by
  cases c with
  | wrapped message source => exact source.reachesTimeout_eq
  | io kind => exact (Bool.or_false _).symm
  | ioMessage kind message => exact (Bool.or_false _).symm
  | ioWrapping kind inner =>
    exact congrArg (kind == .timedOut || ·) inner.sourceReachesTimeout_eq
  | failure f =>
    exact f.isTimeout_or.trans (congrArg (_ || ·) f.sourceReachesTimeout_eq)
  | _ => rfl

theorem Failure.sourceReachesTimeout_eq (f : Failure) :
    f.sourceReachesTimeout = f.sources.any Cause.timedOut := by
  cases f with
  | transport c => exact c.reachesTimeout_eq
  | tls c => exact c.reachesTimeout_eq
  | json reader => exact reader.reachesTimeout_eq
  | _ => rfl

end

/-- The walk goes on at the source until an error stops it or there is no source. -/
theorem Cause.reachesTimeout_step (c : Cause) :
    c.reachesTimeout = (c.stopsWalk || c.source?.any Cause.reachesTimeout) := by
  have below : c.sourceReachesTimeout = c.source?.any Cause.reachesTimeout := by
    rw [sourceReachesTimeout_eq, sources_eq]
    cases c.source? with
    | none => rfl
    | some d => exact d.reachesTimeout_eq.symm
  rw [← below]
  cases c with
  | io kind => exact (Bool.or_false _).symm
  | ioMessage kind message => exact (Bool.or_false _).symm
  | _ => rfl

/-- A walk finds a timeout exactly if one is reached. -/
theorem Cause.reachesTimeout_iff (c : Cause) :
    c.reachesTimeout = true ↔ ∃ d, c.Reaches d ∧ d.timedOut = true := by
  rw [reachesTimeout_eq, List.any_eq_true]
  simp only [reaches_iff]

/-! ## Failures without their texts -/

mutual

/-- The error without the texts in it. -/
def Cause.hushed : Cause → Cause
  | .plain _ => .plain ""
  | .wrapped _ source => .wrapped "" source.hushed
  | .io kind => .io kind
  | .ioMessage kind _ => .ioMessage kind ""
  | .ioWrapping kind inner => .ioWrapping kind inner.hushed
  | .failure f => .failure f.hushed
  | .replay _ => .replay (.custom "")

/-- The failure without the texts in it. -/
def Failure.hushed : Failure → Failure
  | .transport c => .transport c.hushed
  | .tls c => .tls c.hushed
  | .json reader => .json reader.hushed
  | .httpStatus status _ _ => .httpStatus status "" none
  | .api status _ => .api status ⟨[]⟩
  | .invalidUri _ kind _ => .invalidUri "" kind ""
  | .invalidScheme _ _ => .invalidScheme "" ""
  | .requestBuild => .requestBuild
  | .invalidHeaderName => .invalidHeaderName
  | .invalidHeaderValue => .invalidHeaderValue
  | .timeout limit => .timeout limit
  | .bodyTooLarge limit actual => .bodyTooLarge limit actual
  | .missingTraceSink => .missingTraceSink
  | .serviceClosed => .serviceClosed

end

theorem Cause.timedOut_hushed (c : Cause) : c.hushed.timedOut = c.timedOut := by
  cases c with
  | failure f => cases f <;> rfl
  | _ => rfl

mutual

theorem Cause.sources_hushed (c : Cause) :
    c.hushed.sources.map Cause.timedOut = c.sources.map Cause.timedOut := by
  cases c with
  | wrapped message source =>
    exact congrArg₂ List.cons source.timedOut_hushed source.sources_hushed
  | ioWrapping kind inner => exact inner.sources_hushed
  | failure f => exact f.sources_hushed
  | _ => rfl

theorem Failure.sources_hushed (f : Failure) :
    f.hushed.sources.map Cause.timedOut = f.sources.map Cause.timedOut := by
  cases f with
  | transport c => exact congrArg₂ List.cons c.timedOut_hushed c.sources_hushed
  | tls c => exact congrArg₂ List.cons c.timedOut_hushed c.sources_hushed
  | json reader => exact congrArg₂ List.cons reader.timedOut_hushed reader.sources_hushed
  | _ => rfl

end

/-- No text decides whether a failure is a timeout. -/
theorem Failure.isTimeout_hushed (f : Failure) : f.hushed.isTimeout = f.isTimeout := by
  have any_eq : ∀ cs : List Cause, cs.any Cause.timedOut = (cs.map Cause.timedOut).any id := by
    intro cs
    rw [List.any_map]
    rfl
  cases f with
  | transport c =>
    change c.hushed.reachesTimeout = c.reachesTimeout
    rw [Cause.reachesTimeout_eq, Cause.reachesTimeout_eq, any_eq, any_eq, List.map_cons,
      List.map_cons, Cause.timedOut_hushed, Cause.sources_hushed]
  | _ => rfl

/-! ## Timeouts -/

/-- When a failure is a timeout. -/
structure TimeoutLaw (f : Failure) : Prop where
  /-- It is one by itself, or the connection failed for a cause from which one is reached. -/
  reached : f.isTimeout = true ↔ (∃ limit, f = .timeout limit) ∨
    ∃ c, f = .transport c ∧ ∃ d, c.Reaches d ∧ d.timedOut = true
  /-- The walk asks an error, and if that is no answer goes on at its source … -/
  step : ∀ c : Cause, c.reachesTimeout = (c.stopsWalk || c.source?.any Cause.reachesTimeout)
  /-- … and looks through one list, whatever the failures in it say of themselves. -/
  flat : ∀ c : Cause, c.reachesTimeout = (c :: c.sources).any Cause.timedOut
  /-- The list has all that is reached, one source after another, and ends where there is none. -/
  walk : ∀ c : Cause, (c :: c.sources).IsChain (fun a b => a.source? = some b) ∧
    (∀ d ∈ (c :: c.sources).getLast?, d.source? = none) ∧
    ∀ d, c.Reaches d ↔ d ∈ c :: c.sources
  /-- A failure that differs in texts only is as much a timeout. -/
  silent : ∀ g : Failure, g.hushed = f.hushed → g.isTimeout = f.isTimeout

/-- **Timeouts among the sources.** A failure is a timeout exactly if it is one by itself or the
connection failed for a cause from which a timeout is reached from source to source, whatever other
failures lie in between. Both walks end, look through the same finite list of errors, and read no
text. -/
theorem timeoutLaw (f : Failure) : TimeoutLaw f where
  reached := by
    cases f with
    | timeout limit => simp [Failure.isTimeout]
    | transport c => simp [Failure.isTimeout, Cause.reachesTimeout_iff]
    | _ => simp [Failure.isTimeout]
  step := Cause.reachesTimeout_step
  flat := Cause.reachesTimeout_eq
  walk c := by
    obtain ⟨linked, ended⟩ := c.isChain_sources
    exact ⟨linked, ended, fun d => Cause.reaches_iff⟩
  silent g same := by
    rw [← g.isTimeout_hushed, same, f.isTimeout_hushed]

/-- A timeout is found below other failures, and not behind an error that stands for it. -/
example :
    (Failure.transport (.failure (.json (.wrapped "EOF"
      (.failure (.tls (.io .timedOut))))))).isTimeout = true ∧
    (Failure.transport (.ioWrapping .other (.io .timedOut))).isTimeout = false ∧
    (Failure.tls (.io .timedOut)).isTimeout = false := by decide

end Courier
