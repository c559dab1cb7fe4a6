import Courier.Proofs.Cursor
import Courier.Proofs.Drafting
import Courier.Proofs.Lines
import Courier.Proofs.MediaTypes

/-!
# What expectations ask

An expectation is a list of demands, looked at one after the other: a request passes if it meets all
of them, and otherwise the first that it does not meet is told (`checkLaw`). A demand for a header
compares texts and not octets, so that a value that is no text meets it if its reading does, broken
pieces replaced. A call that fails its expectation has used up its entry like any other, and what is
programmed there is not shown.
-/
namespace Courier

/-! ## Documents up to the sign of nought -/

namespace Json

/-- The number, where a nought has no sign. -/
def Number.signless : Number → Number
  | .whole i => .whole i
  | .real negative size => .real (negative && size != Binary64.zero) size

mutual
/-- The value, where no nought in it has a sign. -/
def signless : Json → Json
  | .null => .null
  | .bool b => .bool b
  | .number n => .number n.signless
  | .string s => .string s
  | .array items => .array (signlessItems items)
  | .object members => .object (signlessMembers members)

/-- The items, where no nought in them has a sign. -/
def signlessItems : List Json → List Json
  | [] => []
  | v :: items => signless v :: signlessItems items

/-- The members, where no nought in them has a sign. -/
def signlessMembers : List (String × Json) → List (String × Json)
  | [] => []
  | (name, v) :: members => (name, signless v) :: signlessMembers members
end

theorem Number.same_iff (m n : Number) : m.same n = true ↔ m.signless = n.signless := by
  cases m with
  | whole i => cases n <;> simp [Number.same, Number.signless]
  | real s x =>
    cases n with
    | whole j => simp [Number.same, Number.signless]
    | real t y => by_cases nought : x = Binary64.zero <;> grind [Number.same, Number.signless]

mutual
/-- Values are equal exactly if they are the same up to the signs of noughts. -/
theorem same_iff : ∀ a b : Json, a.same b = true ↔ a.signless = b.signless
  | .null, b => by cases b <;> simp [same, signless]
  | .bool _, b => by cases b <;> simp [same, signless]
  | .number m, b => by cases b <;> simp [same, signless, Number.same_iff]
  | .string _, b => by cases b <;> simp [same, signless]
  | .array as, b => by cases b <;> simp [same, signless, sameItems_iff as]
  | .object as, b => by cases b <;> simp [same, signless, sameMembers_iff as]

theorem sameItems_iff : ∀ as bs : List Json,
    sameItems as bs = true ↔ signlessItems as = signlessItems bs
  | [], bs => by cases bs <;> simp [sameItems, signlessItems]
  | a :: as, bs => by cases bs <;> simp [sameItems, signlessItems, same_iff a, sameItems_iff as]

theorem sameMembers_iff : ∀ as bs : List (String × Json),
    sameMembers as bs = true ↔ signlessMembers as = signlessMembers bs
  | [], bs => by cases bs <;> simp [sameMembers, signlessMembers]
  | (m, a) :: as, bs => by
    cases bs <;> simp [sameMembers, signlessMembers, same_iff a, sameMembers_iff as]
end

end Json

/-! ## Texts that stand for broken octets -/

/-- Octets whose reading has no replacement are those of a text. -/
theorem Utf8.eq_encode_lossy {bs : Bytes} (sound : replacement ∉ (lossy bs).toList) :
    bs = encode (lossy bs) := by
  have each : ∀ x ∈ decode bs, x = some (x.getD replacement) := by
    intro x hx
    cases x with
    | some c => rfl
    | none =>
      rw [lossy, String.toList_ofList] at sound
      exact absurd (List.mem_map_of_mem (f := (·.getD replacement)) hx) sound
  have whole : decode bs = ((decode bs).map (·.getD replacement)).map some := by
    rw [List.map_map]
    exact (List.map_id _).symm.trans (List.map_congr_left each)
  have read := octets_of_decode whole
  rw [encode, lossy, String.toList_ofList]
  exact read

namespace Headers

/-- The first value under a name, in either case. -/
def First (h : Headers) (name : String) (v : HeaderValue) : Prop :=
  ∃ before f after, h.fields = before ++ (f, v) :: after ∧ f.text = Text.lower name ∧
    ∀ g ∈ before, g.1.text ≠ Text.lower name

theorem get?_eq_some_iff {h : Headers} {name : HeaderName} {v : HeaderValue} :
    h.get? name = some v ↔ ∃ before after, h.fields = before ++ (name, v) :: after ∧
      ∀ g ∈ before, g.1 ≠ name := by
  rw [get?, values, List.head?_map, List.head?_filter, Option.map_eq_some_iff]
  constructor
  · rintro ⟨⟨f, v⟩, found, rfl⟩
    obtain ⟨same, before, after, whole, others⟩ := List.find?_eq_some_iff_append.1 found
    obtain rfl : f = name := by simpa using same
    exact ⟨before, after, whole, fun g hg => by simpa using others g hg⟩
  · rintro ⟨before, after, whole, others⟩
    refine ⟨(name, v), List.find?_eq_some_iff_append.2 ⟨by simp, before, after, whole, ?_⟩, rfl⟩
    exact fun g hg => by simpa using others g hg

theorem first_iff {h : Headers} {name : String} {v : HeaderValue} :
    (HeaderName.parse? name).bind h.get? = some v ↔ h.First name v := by
  have lowered (f : HeaderName) : HeaderName.parse? name = some f ↔ f.text = Text.lower name := by
    rw [HeaderName.parse?_eq_some_iff, eq_comm]
    rfl
  rw [Option.bind_eq_some_iff]
  constructor
  · rintro ⟨f, parsed, found⟩
    obtain ⟨before, after, whole, others⟩ := get?_eq_some_iff.1 found
    have small := (lowered f).1 parsed
    refine ⟨before, f, after, whole, small, fun g hg same => others g hg ?_⟩
    have other := (lowered g.1).2 same
    rw [parsed] at other
    exact (Option.some.inj other).symm
  · rintro ⟨before, f, after, whole, small, others⟩
    refine ⟨f, (lowered f).2 small, get?_eq_some_iff.2 ⟨before, after, whole, fun g hg same => ?_⟩⟩
    exact others g hg (by rw [same, small])

end Headers

namespace Replay

/-! ## Demands -/

/-- A text begins with a label. -/
def Begins (label text : String) : Prop := ∃ rest, text = label ++ rest

theorem Begins.append {label text : String} (h : Begins label text) (more : String) :
    Begins label (text ++ more) := by
  obtain ⟨rest, rfl⟩ := h
  exact ⟨rest ++ more, String.append_assoc⟩

/-- One thing that is asked of a request. -/
inductive Demand where
  | method (m : Method)
  | path (p : String)
  | header (name value : String)
  | body (bytes : Bytes)
  | document (value : Json)

/-- What an expectation asks, in the order in which it is looked at. -/
def Expectation.demands (e : Expectation) : List Demand :=
  e.method.toList.map .method ++ (e.path.toList.map .path ++
    (e.headers.map (fun h => .header h.1 h.2) ++ (e.body.toList.map .body ++
      e.json.toList.map .document)))

namespace Demand

/-- A request is as demanded. Of a header the first value counts, as it is read; documents are equal
up to the signs of noughts. -/
def Met (r : Request) : Demand → Prop
  | .method m => r.method = m
  | .path p => r.uri.path = p
  | .header name value => ∃ v, r.headers.First name v ∧ v.shown = value
  | .body bytes => r.body = bytes
  | .document value => ∃ found, Json.parse? r.body = some found ∧ found.signless = value.signless

/-- A request is as demanded, and so is every octet of the header. -/
def Exact (r : Request) : Demand → Prop
  | .header name value => ∃ v, r.headers.First name v ∧ v.bytes = Utf8.encode value
  | d => d.Met r

/-- The header is no text, and its reading is the value, broken pieces replaced. -/
def Garbled (r : Request) : Demand → Prop
  | .header name value =>
    ∃ v, r.headers.First name v ∧ ¬ v.IsText ∧ v.shown = value ∧ Utf8.replacement ∈ value.toList
  | _ => False

/-- What is told of a request that is not as demanded. -/
def mismatch (r : Request) : Demand → Mismatch
  | .method m => .method m r.method
  | .path p => .path p r.uri.path
  | .header name value => .header name value (Expectation.firstValue r.headers name)
  | .body bytes => .body bytes r.body
  | .document value =>
    match Json.parse? r.body with
    | none => .notJson
    | some found => .json value found

/-- How a message begins that tells of a demand. -/
def labels : Demand → List String
  | .method _ => ["method: "]
  | .path _ => ["path: "]
  | .header name _ => ["header " ++ name ++ ": "]
  | .body _ => ["body: "]
  | .document _ => ["body is not JSON: ", "json body: "]

/-- The mismatch of a request with a demand, if there is one. -/
def fault (r : Request) : Demand → Option Mismatch
  | .method m => if r.method = m then none else some (.method m r.method)
  | .path p => if r.uri.path = p then none else some (.path p r.uri.path)
  | .header name value => Expectation.checkHeader r (name, value)
  | .body bytes => if r.body = bytes then none else some (.body bytes r.body)
  | .document value =>
    match Json.parse? r.body with
    | none => some .notJson
    | some found => if found.same value then none else some (.json value found)

variable {d : Demand} {r : Request}

theorem firstValue_eq_some_iff {h : Headers} {name value : String} :
    Expectation.firstValue h name = some value ↔ ∃ v, h.First name v ∧ v.shown = value := by
  simp only [Expectation.firstValue, Option.map_eq_some_iff, Headers.first_iff]

/-- Either a request is as demanded and there is no mismatch, or it is not and this is told. -/
theorem fault_cases (d : Demand) (r : Request) :
    d.Met r ∧ d.fault r = none ∨ ¬ d.Met r ∧ d.fault r = some (d.mismatch r) := by
  cases d with
  | method m => by_cases same : r.method = m <;> simp [Met, fault, mismatch, same]
  | path p => by_cases same : r.uri.path = p <;> simp [Met, fault, mismatch, same]
  | body bytes => by_cases same : r.body = bytes <;> simp [Met, fault, mismatch, same]
  | header name value =>
    rw [Met, ← firstValue_eq_some_iff]
    by_cases same : Expectation.firstValue r.headers name = some value <;>
      simp [fault, mismatch, Expectation.checkHeader, same]
  | document value =>
    cases read : Json.parse? r.body with
    | none => simp [Met, fault, mismatch, read]
    | some found =>
      by_cases same : found.signless = value.signless <;>
        simp [Met, fault, mismatch, read, Json.same_iff, same]

theorem fault_eq_none_iff : d.fault r = none ↔ d.Met r := by
  rcases fault_cases d r with ⟨met, found⟩ | ⟨unmet, found⟩
  · exact iff_of_true found met
  · exact iff_of_false (by rw [found]; exact Option.some_ne_none _) unmet

theorem fault_eq_some_iff {m : Mismatch} :
    d.fault r = some m ↔ ¬ d.Met r ∧ m = d.mismatch r := by
  rcases fault_cases d r with ⟨met, found⟩ | ⟨unmet, found⟩
  · simp [met, found]
  · simp [unmet, found, eq_comm]

/-- What is told names what is demanded. -/
theorem exists_label (d : Demand) (r : Request) :
    ∃ label ∈ d.labels, Begins label (d.mismatch r).message := by
  cases d with
  | method m =>
    have label : Begins "method: " "method: expected " := ⟨"expected ", rfl⟩
    exact ⟨_, List.mem_cons_self .., ((label.append _).append _).append _⟩
  | path p =>
    have label : Begins "path: " "path: expected " := ⟨"expected ", rfl⟩
    exact ⟨_, List.mem_cons_self .., ((label.append _).append _).append _⟩
  | header name value =>
    have label : Begins ("header " ++ name ++ ": ") ("header " ++ name ++ ": expected '") := by
      have joined : ": expected '" = ": " ++ "expected '" := rfl
      exact ⟨"expected '", by rw [joined, ← String.append_assoc]⟩
    exact ⟨_, List.mem_cons_self .., ((label.append _).append _).append _⟩
  | body bytes =>
    have label : Begins "body: " "body: expected '" := ⟨"expected '", rfl⟩
    exact ⟨_, List.mem_cons_self .., (((label.append _).append _).append _).append _⟩
  | document value =>
    rw [mismatch]
    split
    · exact ⟨_, List.mem_cons_self .., Json.unreadable, rfl⟩
    next found read =>
      have label : Begins "json body: " "json body: expected " := ⟨"expected ", rfl⟩
      exact ⟨_, List.mem_cons_of_mem _ (List.mem_cons_self ..),
        ((label.append _).append _).append _⟩

/-- A header that is as demanded has the octets of the value, or is no text. -/
theorem met_iff (d : Demand) (r : Request) : d.Met r ↔ d.Exact r ∨ d.Garbled r := by
  cases d with
  | header name value =>
    constructor
    · rintro ⟨v, first, rfl⟩
      by_cases text : v.IsText
      · exact .inl ⟨v, first, text.encode_shown.symm⟩
      · refine .inr ⟨v, first, text, rfl, ?_⟩
        by_contra sound
        exact text (HeaderValue.isText_of_eq _ (Utf8.eq_encode_lossy sound))
    · rintro (⟨v, first, same⟩ | ⟨v, first, -, same, -⟩)
      · exact ⟨v, first, by rw [HeaderValue.shown, same, Utf8.lossy_encode]⟩
      · exact ⟨v, first, same⟩
  | _ => exact (or_iff_left not_false).symm

end Demand

theorem findSome?_optional {α β γ : Type} (o : Option α) (f : α → β) (g : β → Option γ) :
    (o.toList.map f).findSome? g = o.bind fun a => g (f a) := by
  cases o with
  | none => rfl
  | some a => simp

namespace Expectation

/-- The first mismatch is that with the first demand that is not met. -/
theorem check_eq_findSome? (e : Expectation) (r : Request) :
    e.check r = e.demands.findSome? (Demand.fault r) := by
  rw [demands, List.findSome?_append, List.findSome?_append, List.findSome?_append,
    List.findSome?_append, findSome?_optional, findSome?_optional, findSome?_optional,
    findSome?_optional, List.findSome?_map]
  simp only [check, Option.orElse_eq_orElse, Option.orElse_eq_or]
  rfl

variable {e : Expectation} {r : Request}

theorem check_eq_none_iff : e.check r = none ↔ ∀ d ∈ e.demands, d.Met r := by
  simp only [check_eq_findSome?, List.findSome?_eq_none_iff, Demand.fault_eq_none_iff]

theorem check_eq_some_iff {m : Mismatch} : e.check r = some m ↔
    ∃ before d after, e.demands = before ++ d :: after ∧ (∀ earlier ∈ before, earlier.Met r) ∧
      ¬ d.Met r ∧ m = d.mismatch r := by
  rw [check_eq_findSome?, List.findSome?_eq_some_iff]
  simp only [Demand.fault_eq_none_iff, Demand.fault_eq_some_iff]
  constructor
  · rintro ⟨before, d, after, whole, ⟨unmet, told⟩, met⟩
    exact ⟨before, d, after, whole, met, unmet, told⟩
  · rintro ⟨before, d, after, whole, met, unmet, told⟩
    exact ⟨before, d, after, whole, ⟨unmet, told⟩, met⟩

theorem header_mem_demands {name value : String} (among : .header name value ∈ e.demands) :
    (name, value) ∈ e.headers := by
  simpa [demands] using among

/-- Where no header is to have the replacement in its value, every octet is compared. -/
theorem check_eq_none_iff_exact (plain : ∀ h ∈ e.headers, Utf8.replacement ∉ h.2.toList) :
    e.check r = none ↔ ∀ d ∈ e.demands, d.Exact r := by
  rw [check_eq_none_iff]
  refine forall₂_congr fun d among => (d.met_iff r).trans (or_iff_left ?_)
  cases d with
  | header name value =>
    rintro ⟨v, -, -, -, broken⟩
    exact plain _ (header_mem_demands among) broken
  | _ => exact not_false

end Expectation

/-! ## Calls -/

/-- A programmed outcome never tells of a mismatch. -/
theorem Entry.programmed_ne (entry : Entry) (index : Nat) (m : Mismatch) :
    entry.outcome.mapError CannedFailure.failure ≠
      .error (.transport (.replay (.assertionFailed index m))) := by
  cases entry.outcome with
  | ok response => exact nofun
  | error f => cases f <;> exact nofun

theorem Entry.resolve_of_some {entry : Entry} {e : Expectation} {r : Request} {m : Mismatch}
    (asks : entry.expectation = some e) (fails : e.check r = some m) (index : Nat) :
    entry.resolve index r = .error (.transport (.replay (.assertionFailed index m))) := by
  rw [resolve, asks, Option.bind_some, fails]

theorem Entry.resolve_of_none {entry : Entry} {e : Expectation} {r : Request}
    (asks : entry.expectation = some e) (passes : e.check r = none) (index : Nat) :
    entry.resolve index r = entry.outcome.mapError CannedFailure.failure := by
  rw [resolve, asks, Option.bind_some, passes]

/-- What has come of a call that has claimed an entry with an expectation, after `before`. -/
structure Settled (p : Replay) (before : List Use) (caller : Nat) (r : Request) (e : Expectation)
    (entry : Entry) (claim : Claim) : Prop where
  claimed : claim.caller = caller ∧ claim.request = r ∧ claim.entry = some entry
  /-- The calls before it are counted, whatever came of them. -/
  position : claim.position = p.calls + (callsOf before).length
  /-- A mismatch is told with the position of the call, and nothing else is told so. -/
  refused : ∀ m, e.check r = some m ↔ claim.answer.outcome =
    .error (.transport (.replay (.assertionFailed claim.position m)))
  /-- The programmed outcome is shown exactly if there is none. -/
  served : e.check r = none ↔
    claim.answer.outcome = entry.outcome.mapError CannedFailure.failure
  /-- One position is used up in any case, and the list stays as it is. -/
  used : (p.play (before ++ [.call caller r])).2 =
    { entries := (p.play before).2.entries, calls := claim.position + 1 }

theorem settled_play (p : Replay) (before after : List Use) (caller : Nat) (r : Request)
    {e : Expectation} {entry : Entry}
    (here : (p.entries ++ pushesOf before)[p.calls + (callsOf before).length]? = some entry)
    (asks : entry.expectation = some e) :
    ∃ claim, (p.play (before ++ .call caller r :: after)).1[(callsOf before).length]? = some claim ∧
      Settled p before caller r e entry claim := by
  have next : (p.play before).2.next? = some entry := by
    rw [next?, entries_play, calls_play, here]
  have outcome : (answerAt (p.play before).2.calls r (p.play before).2.next?).outcome =
      entry.resolve (p.play before).2.calls r := by rw [next, answerAt]
  refine ⟨_, getElem?_play p before caller r after, ⟨rfl, rfl, next⟩, calls_play p before,
    fun m => ?_, ?_, ?_⟩
  · rw [outcome]
    cases found : e.check r with
    | some other => simp [Entry.resolve_of_some asks found]
    | none => simp [Entry.resolve_of_none asks found, entry.programmed_ne]
  · rw [outcome]
    cases found : e.check r with
    | some m => simp [Entry.resolve_of_some asks found, (entry.programmed_ne _ m).symm]
    | none => simp [Entry.resolve_of_none asks found]
  · rw [play_append, play_call, play_nil]

/-- What an expectation asks of a request, and what comes of a call with that request. -/
structure CheckLaw (e : Expectation) (r : Request) : Prop where
  /-- The request passes exactly if it is as demanded in every respect … -/
  passes : e.check r = none ↔ ∀ d ∈ e.demands, d.Met r
  /-- … and if it does not, the first demand that is not met is told, … -/
  fails : ∀ m, e.check r = some m ↔
    ∃ before d after, e.demands = before ++ d :: after ∧ (∀ earlier ∈ before, earlier.Met r) ∧
      ¬ d.Met r ∧ m = d.mismatch r
  /-- … by its name. -/
  named : ∀ d ∈ e.demands, ∃ label ∈ d.labels, Begins label (d.mismatch r).message
  /-- A demand is met octet by octet, or by a header that is no text. -/
  met_iff : ∀ d ∈ e.demands, (d.Met r ↔ d.Exact r ∨ d.Garbled r)
  /-- The latter needs an expected value with the replacement in it. -/
  exact_iff : (∀ h ∈ e.headers, Utf8.replacement ∉ h.2.toList) →
    (e.check r = none ↔ ∀ d ∈ e.demands, d.Exact r)
  settled : ∀ (p : Replay) before after caller (entry : Entry),
    (p.entries ++ pushesOf before)[p.calls + (callsOf before).length]? = some entry →
    entry.expectation = some e →
    ∃ claim,
      (p.play (before ++ .call caller r :: after)).1[(callsOf before).length]? = some claim ∧
        Settled p before caller r e entry claim

/-- **Expectations.** A request passes exactly if its method, its path, the first value of each
header, its body and its document are as expected, as far as they are asked for; otherwise the first
of them that is not is told. Headers are compared as they are read, so that octets that are no text
pass where the expected value has the replacement for them. Whatever callers do to a connection that
they share, a call that is not as expected is told its own position and never the programmed
outcome, and uses up one position like any other call. -/
theorem checkLaw (e : Expectation) (r : Request) : CheckLaw e r where
  passes := Expectation.check_eq_none_iff
  fails _ := Expectation.check_eq_some_iff
  named d _ := d.exists_label r
  met_iff d _ := d.met_iff r
  exact_iff := Expectation.check_eq_none_iff_exact
  settled p before after caller _ := settled_play p before after caller r

/-- A header of one octet that stands for no text. -/
def tagged : Request where
  method := .get
  uri := ⟨some "https", some "h", some "/a"⟩
  version := .http11
  headers := ⟨[(⟨"x-tag", by decide⟩, ⟨[0xFF], by decide, false⟩)]⟩
  body := []

/-- The header is asked to be the replacement, which is written in three other octets. -/
def replaced : Expectation where
  headers := [("x-tag", "\ufffd")]

/-- A response without headers and body for who has it. -/
def askingReplaced : Entry := { Entry.ofStatus .ok with expectation := some replaced }

/-- Not every request that passes is as expected to the octet. -/
theorem check_tagged : (∃ v, tagged.headers.First "x-tag" v ∧ v.bytes ≠ Utf8.encode "\ufffd" ∧
      ∀ w, tagged.headers.First "x-tag" w → w = v) ∧
    replaced.check tagged = none ∧
    askingReplaced.resolve 0 tagged = .ok ⟨{ status := .ok }, []⟩ := by
  have first : tagged.headers.First "x-tag" ⟨[0xFF], by decide, false⟩ :=
    ⟨[], ⟨"x-tag", by decide⟩, [], rfl, by decide, by simp⟩
  have passes : replaced.check tagged = none := by
    rw [Expectation.check_eq_none_iff]
    intro d among
    obtain rfl : d = .header "x-tag" "\ufffd" := by
      simpa [Expectation.demands, replaced] using among
    exact ⟨_, first, by decide +kernel⟩
  refine ⟨⟨_, first, by decide, fun w other => ?_⟩, passes, ?_⟩
  · exact Option.some.inj ((Headers.first_iff.2 other).symm.trans (Headers.first_iff.2 first))
  · exact Entry.resolve_of_none rfl passes 0

end Replay
end Courier
