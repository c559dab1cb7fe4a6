import Courier.Transport.Draft

/-!
# Drafts step by step

A draft is touched any number of times, in any order, before it is finished: headers are added, and
documents and octets are made its body. The first header that is none decides the outcome, whatever
follows it and whatever the URL is; it is told when a document is made the body, or else when the
draft is finished. Without such a header the URL decides. What is finished then has every header in
the order in which they were added, the last body, and the content type of documents exactly if
that body is a document and no content type was added. A draft that cannot be finished leaves the
transport alone.

The main result is `draftLaw`.
-/
namespace Courier

/-- A name is read without regard to the case of its letters. -/
theorem HeaderName.parse?_eq_some_iff {text : String} {name : HeaderName} :
    HeaderName.parse? text = some name ↔
      String.ofList (text.toList.map Char.toLower) = name.text := by
  rw [parse?]
  split
  next legal =>
    obtain ⟨small, _⟩ := name
    simp
  next illegal =>
    constructor
    · intro h
      cases h
    · intro same
      rw [same] at illegal
      exact absurd name.legal illegal

namespace Draft

/-! ## Touches -/

/-- What may be done to a draft. -/
inductive Touch where
  | header (name value : String)
  | typedHeader (name : HeaderName) (value : HeaderValue)
  | json (document : Json)
  | body (bytes : Bytes)

/-- Do one thing to a draft. -/
def touch (d : Draft) : Touch → Except Failure Draft
  | .header name value => .ok (d.header name value)
  | .typedHeader name value => .ok (d.typedHeader name value)
  | .json document => d.withJson document
  | .body bytes => .ok (d.withBody bytes)

/-- Do one thing after another to a draft, as long as it is one. -/
def touched (d : Draft) : List Touch → Except Failure Draft
  | [] => .ok d
  | t :: ts => (d.touch t).bind fun after => after.touched ts

theorem touched_append (d : Draft) (before after : List Touch) :
    d.touched (before ++ after) = (d.touched before).bind fun between => between.touched after := by
  induction before generalizing d with
  | nil => rfl
  | cons t before ih =>
    rw [List.cons_append, touched, touched]
    cases d.touch t with
    | error e => rfl
    | ok next => exact ih next

/-- A draft that nothing has been done to. -/
def fresh (method : Method) (url : String) : Draft := { method := method, url := url }

/-- The request that comes of a fresh draft after all touches. -/
def composed (security : Security) (method : Method) (url : String) (ts : List Touch) :
    Except Failure Request :=
  ((fresh method url).touched ts).bind fun d => d.build security

namespace Touch

/-- What is wrong with the header that is added: its name, or else its value. -/
def fault? : Touch → Option Failure
  | .header name value =>
    if HeaderName.parse? name = none then some .invalidHeaderName
    else if HeaderValue.ofText? value = none then some .invalidHeaderValue
    else none
  | _ => none

/-- The field that is added. -/
def field? : Touch → Option (HeaderName × HeaderValue)
  | .header name value =>
    match HeaderName.parse? name, HeaderValue.ofText? value with
    | some n, some v => some (n, v)
    | _, _ => none
  | .typedHeader name value => some (name, value)
  | _ => none

/-- The body that is set, and whether it is a document. -/
def content? : Touch → Option (Bytes × Bool)
  | .json document => some (Utf8.encode document.text, true)
  | .body bytes => some (bytes, false)
  | _ => none

/-- A document is made the body. -/
def IsJson (t : Touch) : Prop := ∃ document, t = .json document

end Touch

/-- What is wrong with the first header that is none. -/
def firstFault? (ts : List Touch) : Option Failure := ts.findSome? Touch.fault?

/-- The fields that are added, in order. -/
def fieldsOf (ts : List Touch) : List (HeaderName × HeaderValue) := ts.filterMap Touch.field?

/-- The values that are added under a name, in order. -/
def given (ts : List Touch) (name : HeaderName) : List HeaderValue :=
  Headers.values ⟨fieldsOf ts⟩ name

/-- The body that is set last, and whether it is a document; none at first. -/
def contentOf (ts : List Touch) : Bytes × Bool :=
  (ts.reverse.findSome? Touch.content?).getD ([], false)

/-! ## What one touch does -/

/-- A draft without a fault, after the touches that were made. -/
structure Drafted (method : Method) (url : String) (ts : List Touch) (d : Draft) : Prop where
  method : d.method = method
  url : d.url = url
  fields : d.headers = fieldsOf ts
  content : (d.body, d.json) = contentOf ts
  sound : d.fault = none

section Step

variable {method : Method} {url : String} {ts : List Touch} {d : Draft} {t : Touch} {e : Failure}

theorem fieldsOf_snoc (ts : List Touch) (t : Touch) :
    fieldsOf (ts ++ [t]) = fieldsOf ts ++ t.field?.toList := by
  rw [fieldsOf, List.filterMap_append]
  cases h : t.field? <;> simp [h, fieldsOf]

theorem contentOf_snoc (ts : List Touch) (t : Touch) :
    contentOf (ts ++ [t]) = t.content?.getD (contentOf ts) := by
  rw [contentOf, List.reverse_append]
  cases h : t.content? <;> simp [h, contentOf]

/-- A touch without a fault goes on with a draft without one. -/
theorem Drafted.touch (h : Drafted method url ts d) (good : t.fault? = none) :
    ∃ d', d.touch t = .ok d' ∧ Drafted method url (ts ++ [t]) d' := by
  obtain ⟨rfl, rfl, fields, content, sound⟩ := h
  cases t with
  | header name value =>
    rw [Touch.fault?] at good
    cases named : HeaderName.parse? name with
    | none => simp [named] at good
    | some n =>
      cases valued : HeaderValue.ofText? value with
      | none => simp [named, valued] at good
      | some v =>
        refine ⟨{ d with headers := d.headers ++ [(n, v)] }, ?_, rfl, rfl, ?_, ?_, sound⟩
        · simp only [Draft.touch, header, sound, named, valued]
        · simp [fieldsOf_snoc, Touch.field?, named, valued, fields]
        · rw [contentOf_snoc]
          exact content
  | typedHeader name value =>
    refine ⟨d.typedHeader name value, rfl, rfl, rfl, ?_, ?_, sound⟩
    · rw [fieldsOf_snoc, ← fields]
      rfl
    · rw [contentOf_snoc]
      exact content
  | json document =>
    refine ⟨{ d with body := Utf8.encode document.text, json := true }, ?_, rfl, rfl, ?_, ?_, sound⟩
    · simp only [Draft.touch, withJson, sound]
    · rw [fieldsOf_snoc, ← fields]
      exact (List.append_nil _).symm
    · rw [contentOf_snoc]
      rfl
  | body bytes =>
    refine ⟨d.withBody bytes, rfl, rfl, rfl, ?_, ?_, sound⟩
    · rw [fieldsOf_snoc, ← fields]
      exact (List.append_nil _).symm
    · rw [contentOf_snoc]
      rfl

/-- A touch with a fault leaves it in a draft without one. -/
theorem Drafted.spoil (h : Drafted method url ts d) (bad : t.fault? = some e) :
    ∃ d', d.touch t = .ok d' ∧ d'.fault = some e := by
  cases t with
  | header name value =>
    rw [Touch.fault?] at bad
    refine ⟨d.header name value, rfl, ?_⟩
    rw [header, h.sound]
    cases named : HeaderName.parse? name with
    | none =>
      rw [named, if_pos rfl] at bad
      exact bad
    | some n =>
      cases valued : HeaderValue.ofText? value with
      | none =>
        rw [named, valued, if_neg (Option.some_ne_none n), if_pos rfl] at bad
        exact bad
      | some v => simp [named, valued] at bad
  | typedHeader name value => cases bad
  | json document => cases bad
  | body bytes => cases bad

/-- A fault stays until a document is to be made the body. -/
theorem touch_of_fault (spoilt : d.fault = some e) (other : ¬ t.IsJson) :
    ∃ d', d.touch t = .ok d' ∧ d'.fault = some e := by
  cases t with
  | header name value =>
    refine ⟨d.header name value, rfl, ?_⟩
    rw [header, spoilt]
    exact spoilt
  | typedHeader name value => exact ⟨d.typedHeader name value, rfl, spoilt⟩
  | json document => exact absurd ⟨document, rfl⟩ other
  | body bytes => exact ⟨d.withBody bytes, rfl, spoilt⟩

/-- Then it is told. -/
theorem touch_json_of_fault (spoilt : d.fault = some e) (document : Json) :
    d.touch (.json document) = .error e := by
  rw [touch, withJson, spoilt]

end Step

/-! ## What many touches do -/

section Run

variable {method : Method} {url : String} {before after ts : List Touch} {d : Draft}
  {t : Touch} {e : Failure}

theorem Drafted.touched (h : Drafted method url before d) (good : firstFault? ts = none) :
    ∃ d', d.touched ts = .ok d' ∧ Drafted method url (before ++ ts) d' := by
  induction ts generalizing before d with
  | nil => exact ⟨d, rfl, by rwa [List.append_nil]⟩
  | cons t ts ih =>
    obtain ⟨first, later⟩ := List.findSome?_eq_none_iff.mp good |> List.forall_mem_cons.mp
    obtain ⟨next, once, drafted⟩ := h.touch first
    obtain ⟨last, rest, whole⟩ := ih drafted (List.findSome?_eq_none_iff.mpr later)
    refine ⟨last, ?_, by rwa [List.append_assoc] at whole⟩
    rw [Draft.touched, once]
    exact rest

theorem touched_of_fault (spoilt : d.fault = some e) (others : ∀ t ∈ ts, ¬ t.IsJson) :
    ∃ d', d.touched ts = .ok d' ∧ d'.fault = some e := by
  induction ts generalizing d with
  | nil => exact ⟨d, rfl, spoilt⟩
  | cons t ts ih =>
    obtain ⟨first, later⟩ := List.forall_mem_cons.mp others
    obtain ⟨next, once, still⟩ := touch_of_fault spoilt first
    obtain ⟨last, rest, whole⟩ := ih still later
    refine ⟨last, ?_, whole⟩
    rw [Draft.touched, once]
    exact rest

/-- Whatever follows a fault, it is what comes of the draft. -/
theorem finished_of_fault (spoilt : d.fault = some e) (security : Security) (ts : List Touch) :
    ((d.touched ts).bind fun last => last.build security) = .error e := by
  induction ts generalizing d with
  | nil =>
    rw [Draft.touched, Except.bind, build, spoilt]
  | cons t ts ih =>
    rw [Draft.touched]
    by_cases json : t.IsJson
    · obtain ⟨document, rfl⟩ := json
      rw [touch_json_of_fault spoilt]
      rfl
    · obtain ⟨next, once, still⟩ := touch_of_fault spoilt json
      rw [once]
      exact ih still

theorem drafted_fresh (method : Method) (url : String) :
    Drafted method url [] (fresh method url) :=
  ⟨rfl, rfl, rfl, rfl, rfl⟩

/-- The first header that is none leaves its fault in the draft. -/
theorem spoilt_of_fault (method : Method) (url : String) (good : firstFault? before = none)
    (bad : t.fault? = some e) :
    ∃ d : Draft, d.fault = some e ∧
      ∀ after, (fresh method url).touched (before ++ t :: after) = d.touched after := by
  obtain ⟨between, once, drafted⟩ := (drafted_fresh method url).touched good
  obtain ⟨next, touched, spoilt⟩ := drafted.spoil bad
  refine ⟨next, spoilt, fun after => ?_⟩
  rw [touched_append, once, Except.bind, Draft.touched, touched]
  rfl

end Run

/-! ## Finished drafts -/

/-- The values of what is finished: those that were added, and the content type of documents where
none was added to a document. -/
theorem values_finalHeaders {method : Method} {url : String} {ts : List Touch} {d : Draft}
    (h : Drafted method url ts d) (name : HeaderName) :
    d.finalHeaders.values name =
      (if name = .contentType ∧ (contentOf ts).2 = true ∧ given ts .contentType = [] then
        [.json] else []) ++ given ts name := by
  have added : (!d.headers.any fun f => f.1 = .contentType) = true ↔
      given ts .contentType = [] := by
    rw [given, Headers.values, List.map_eq_nil_iff, List.filter_eq_nil_iff, Bool.not_eq_true',
      List.any_eq_false, h.fields]
  have document : d.json = (contentOf ts).2 := congrArg Prod.snd h.content
  have extra : (d.json && !d.headers.any fun f => f.1 = .contentType) = true ↔
      (contentOf ts).2 = true ∧ given ts .contentType = [] := by
    rw [Bool.and_eq_true, added, document]
  have own : given ts name = Headers.values ⟨d.headers⟩ name := by rw [given, h.fields]
  rw [finalHeaders, Headers.values, List.filter_append, List.map_append, own, Headers.values]
  congr 1
  by_cases wanted : (contentOf ts).2 = true ∧ given ts .contentType = []
  · rw [if_pos (extra.mpr wanted)]
    by_cases same : name = .contentType
    · rw [if_pos ⟨same, wanted⟩, same]
      rfl
    · simp [same, Ne.symm same]
  · rw [if_neg (mt extra.mp wanted), if_neg fun all => wanted all.2]
    rfl

end Draft

namespace Transport

variable {σ : Type}

/-- Touch a fresh draft, finish it and send it. -/
def sendTouched (t : Transport σ) (method : Method) (url : String) (ts : List Draft.Touch) :
    Except Failure Reply × Transport σ :=
  match (Draft.fresh method url).touched ts with
  | .error e => (.error e, t)
  | .ok d => t.sendDraft d

theorem sendTouched_eq (t : Transport σ) (method : Method) (url : String)
    (ts : List Draft.Touch) : t.sendTouched method url ts =
      match Draft.composed t.security method url ts with
      | .error e => (.error e, t)
      | .ok r => t.send r := by
  rw [sendTouched, Draft.composed]
  cases (Draft.fresh method url).touched ts with
  | error e => rfl
  | ok d => rfl

end Transport

namespace Draft

/-- What comes of any touches. -/
structure DraftLaw (security : Security) (method : Method) (url : String) (ts : List Touch) :
    Prop where
  /-- The first header that is none decides, whatever follows it and whatever the URL is. -/
  faulty : ∀ e, firstFault? ts = some e → composed security method url ts = .error e
  /-- It is told when a document is made the body, or else when the draft is finished. -/
  told : ∀ before t after e, firstFault? before = none → t.fault? = some e →
    (∀ u ∈ after, ¬ u.IsJson) →
    (∃ d, (fresh method url).touched (before ++ t :: after) = .ok d ∧
      d.build security = .error e) ∧
    ∀ document later,
      (fresh method url).touched (before ++ t :: (after ++ .json document :: later)) = .error e
  /-- Without such a header, a URL that is refused decides. -/
  rejected : firstFault? ts = none → ∀ e, checkUrl security url = .error e →
    composed security method url ts = .error e
  /-- Otherwise there is a request: of the method and the URI, with the last body, and with the
  values that were added, to which the content type of documents comes where the last body is a
  document and no content type was added. -/
  made : firstFault? ts = none → ∀ uri, checkUrl security url = .ok uri →
    ∃ r, composed security method url ts = .ok r ∧ r.method = method ∧ r.uri = uri ∧
      r.body = (contentOf ts).1 ∧ ∀ name, r.headers.values name =
        (if name = .contentType ∧ (contentOf ts).2 = true ∧ given ts .contentType = [] then
          [.json] else []) ++ given ts name
  /-- Names of headers are the same in letters of any case. -/
  caseless : ∀ text name, HeaderName.parse? text = some name ↔ Text.lower text = name.text
  /-- Of a draft that cannot be finished the transport knows nothing: neither the connection nor the
  numbers of the trace nor the sink. -/
  unsent : ∀ {σ : Type} (t : Transport σ), t.security = security → ∀ e,
    composed security method url ts = .error e → t.sendTouched method url ts = (.error e, t)
  sent : ∀ {σ : Type} (t : Transport σ), t.security = security → ∀ r,
    composed security method url ts = .ok r → t.sendTouched method url ts = t.send r

/-- **Drafts step by step.** Whatever is done to a draft in whatever order, the first header that is
none decides, then the URL; a draft with neither fault becomes the request that was described, and
one with a fault leaves the transport as it was. -/
theorem draftLaw (security : Security) (method : Method) (url : String) (ts : List Touch) :
    DraftLaw security method url ts where
  faulty e first := by
    obtain ⟨before, t, after, rfl, bad, good⟩ := List.findSome?_eq_some_iff.mp first
    obtain ⟨d, spoilt, goes⟩ := spoilt_of_fault method url
      (List.findSome?_eq_none_iff.mpr good) bad
    rw [composed, goes]
    exact finished_of_fault spoilt security after
  told before t after e good bad others := by
    obtain ⟨d, spoilt, goes⟩ := spoilt_of_fault method url good bad
    obtain ⟨last, rest, still⟩ := touched_of_fault spoilt others
    refine ⟨⟨last, (goes after).trans rest, by rw [build, still]⟩, fun document later => ?_⟩
    rw [goes, touched_append, rest, Except.bind, touched, touch_json_of_fault still]
    rfl
  rejected good e refused := by
    obtain ⟨d, ok, drafted⟩ := (drafted_fresh method url).touched good
    rw [composed, ok, Except.bind, build, drafted.sound, drafted.url, refused]
  made good uri accepted := by
    obtain ⟨d, ok, drafted⟩ := (drafted_fresh method url).touched good
    refine ⟨⟨d.method, uri, .http11, d.finalHeaders, d.body⟩, ?_, drafted.method, rfl, ?_, ?_⟩
    · rw [composed, ok, Except.bind, build, drafted.sound, drafted.url, accepted]
    · exact congrArg Prod.fst drafted.content
    · exact values_finalHeaders drafted
  caseless _ _ := HeaderName.parse?_eq_some_iff
  unsent t same e failed := by rw [t.sendTouched_eq, same, failed]
  sent t same r ok := by rw [t.sendTouched_eq, same, ok]

end Draft
end Courier
