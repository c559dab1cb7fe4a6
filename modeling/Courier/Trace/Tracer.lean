import Courier.Journal
import Courier.Trace.Record

/-!
# Tracers

A tracer numbers attempts from one and puts records into its sink. A sink that cannot be written to
is reported to the journal and otherwise ignored.
-/
namespace Courier

inductive Sink where
  /-- Keeps everything written, the latest last. -/
  | buffer (records : List Record)
  /-- Refuses every record, for the given reason. -/
  | broken (reason : String)
deriving DecidableEq, Repr

namespace Sink

def empty : Sink := .buffer []

def records : Sink → List Record
  | .buffer rs => rs
  | .broken _ => []

def contents (s : Sink) : String := String.join (s.records.map Record.text)

end Sink

/-- A sink, and how many attempts have been numbered. -/
structure Tracer where
  sink : Sink
  counter : Nat := 0
deriving DecidableEq, Repr

namespace Tracer

def claim (t : Tracer) : Nat × Tracer :=
  (t.counter + 1, { t with counter := t.counter + 1 })

/-- Write a record; answer what is to be put into the journal. -/
def write (t : Tracer) (r : Record) : List Event × Tracer :=
  match t.sink with
  | .buffer rs => ([], { t with sink := .buffer (rs ++ [r]) })
  | .broken reason => ([⟨.warn, "failed to write trace output", [("error", reason)]⟩], t)

@[simp] theorem counter_write (t : Tracer) (r : Record) : (t.write r).2.counter = t.counter := by
  unfold write
  split <;> rfl

theorem records_write {t : Tracer} {rs : List Record} (h : t.sink = .buffer rs) (r : Record) :
    (t.write r).2.sink.records = t.sink.records ++ [r] := by
  simp only [write, h, Sink.records]

end Courier.Tracer
