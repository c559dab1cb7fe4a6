import Courier.Proofs.Aggregates
import Courier.Proofs.Limits
import Courier.Proofs.Lines
import Courier.Proofs.MediaTypes

/-!
# What counts as a page

A content type that is exactly `text/html`, or goes on with a semicolon, counts as that of a page,
whatever follows and in whichever case it is written (`htmlLaw`). Two kinds of other content types
count too: `text/html` with a suffix, and whatever cannot be read as a media type and has the name
somewhere in it. A response with one of these loses its body; every other response with a readable
content type that names something else is passed on as it came (`passingLaw_of_off`).
-/
namespace Courier

/-! ## Names in a text -/

theorem occursIn_iff {sought cs : List Char} : occursIn sought cs = true ↔ sought <:+: cs := by
  induction cs with
  | nil => rw [occursIn, List.isEmpty_iff, List.infix_nil]
  | cons c cs ih =>
    rw [occursIn, Bool.or_eq_true, ih, List.infix_cons_iff, List.isPrefixOf_iff_prefix]

/-- The first value decides what is shown as the content type. -/
theorem Headers.ShowsType.unique {h : Headers} {a b : Option String} (ha : h.ShowsType a)
    (hb : h.ShowsType b) : a = b := by
  cases ha with
  | absent missing =>
    cases hb with
    | absent _ => rfl
    | hidden first _ _ => simp [missing] at first
    | shown first _ _ => simp [missing] at first
  | hidden first among unseen =>
    cases hb with
    | absent _ => rfl
    | hidden _ _ _ => rfl
    | shown first' seen _ =>
      obtain ⟨rfl, -⟩ := List.cons.inj (first.symm.trans first')
      exact absurd (seen _ among) unseen
  | shown first seen same =>
    cases hb with
    | absent missing => simp [missing] at first
    | hidden first' among unseen =>
      obtain ⟨rfl, -⟩ := List.cons.inj (first.symm.trans first')
      exact absurd (seen _ among) unseen
    | shown first' _ same' =>
      obtain ⟨rfl, -⟩ := List.cons.inj (first.symm.trans first')
      have texts := congrArg Utf8.strict? (same.trans same'.symm)
      rwa [Utf8.strict?_encode, Utf8.strict?_encode] at texts

theorem Headers.showsType_of_eq {h : Headers} {text : String}
    (shown : (h.get? .contentType).bind HeaderValue.toText? = some text) :
    h.ShowsType (some text) :=
  shown ▸ h.showsType

namespace MediaType

/-- The content type is taken for that of a page. -/
inductive CountsAsHtml (text : String) : Prop where
  | read (h : Written text.toList html) : CountsAsHtml text
  | occurs (unreadable : ∀ m, ¬ Written text.toList m)
      (found : "text/html".toList <:+: (Text.lower text).toList) : CountsAsHtml text

theorem unreadable_iff {text : String} : (∀ m, ¬ Written text.toList m) ↔ parse? text = none := by
  simp only [← parse?_eq_some_iff, Option.eq_none_iff_forall_ne_some, ne_eq]

theorem countsAsHtml_iff {h : Headers} {text : String} (shows : h.ShowsType (some text)) :
    h.isHtml = true ↔ CountsAsHtml text := by
  rw [Headers.isHtml, h.showsType.unique shows]
  simp only
  cases read : parse? text with
  | none =>
    simp only [occursIn_iff]
    refine ⟨fun found => .occurs (unreadable_iff.mpr read) found, ?_⟩
    rintro (html | ⟨-, found⟩)
    · rw [parse?_eq_some_iff.mpr html] at read
      cases read
    · exact found
  | some m =>
    simp only [beq_iff_eq]
    constructor
    · rintro rfl
      exact .read (parse?_eq_some_iff.mp read)
    · rintro (written | ⟨unreadable, -⟩)
      · rw [parse?_eq_some_iff.mpr written] at read
        exact (Option.some.inj read).symm
      · exact absurd (parse?_eq_some_iff.mp read) (unreadable m)

/-- Whether a content type counts as that of a page does not depend on the case of its letters. -/
theorem CountsAsHtml.of_lower_eq {text other : String} (same : Text.lower text = Text.lower other)
    (h : CountsAsHtml text) : CountsAsHtml other := by
  have read : parse? text = parse? other := by
    rw [← parse?_lower text, same, parse?_lower other]
  cases h with
  | read h =>
    refine .read ?_
    rw [← parse?_eq_some_iff] at h ⊢
    rw [← read, h]
  | occurs unreadable found =>
    refine .occurs ?_ (same ▸ found)
    rw [unreadable_iff] at unreadable ⊢
    rw [← read, unreadable]

/-- A text that is the name, or goes on with a semicolon behind it, counts. -/
theorem countsAsHtml_of_named {text : String} {after : List Char}
    (named : (Text.lower text).toList = "text/html".toList ++ after)
    (closed : after = [] ∨ ∃ more, after = ';' :: more) : CountsAsHtml text := by
  refine CountsAsHtml.of_lower_eq (Text.lower_lower text) ?_
  have free : Json.Free isTokenChar after := by
    rintro c hc
    obtain rfl | ⟨more, rfl⟩ := closed <;> cases hc
    decide
  by_cases readable : ∃ m, Written (Text.lower text).toList m
  · obtain ⟨m, written⟩ := readable
    have split : "text/html".toList ++ after = "text".toList ++ '/' :: ("html".toList ++ after) :=
      rfl
    have named' := written
    rw [named, split] at named'
    have type : "text".toList.all isTokenChar = true := by decide
    have subtype : "html".toList.all isTokenChar = true := by decide
    have whole := named'.eq_mk (List.all_eq_true.mp type) (List.all_eq_true.mp subtype) free
    have html : (⟨Text.lower (String.ofList "text".toList),
        Text.lower (String.ofList (dropSuffix "html".toList))⟩ : MediaType) = html := by
      decide +kernel
    exact .read (html ▸ whole ▸ written)
  · refine .occurs (not_exists.mp readable) ?_
    rw [Text.lower_lower, named]
    exact (List.prefix_append _ _).isInfix

/-- What counts has the name in it. -/
theorem CountsAsHtml.found {text : String} (h : CountsAsHtml text) :
    "text/html".toList <:+: (Text.lower text).toList := by
  cases h with
  | occurs _ found => exact found
  | read h =>
    rw [Text.toList_lower]
    generalize text.toList = cs at h
    generalize named : html = m at h
    cases h with
    | @mk type subtype base after _ _ hasBase _ =>
      obtain ⟨typed, based⟩ := MediaType.mk.inj named
      obtain ⟨more, rfl⟩ := hasBase.exists_append
      have typed : "text".toList = type.map Char.toLower := by
        rw [← Text.toList_lower_ofList, ← typed]
      have based : "html".toList = base.map Char.toLower := by
        rw [← Text.toList_lower_ofList, ← based]
      have whole : (type ++ '/' :: (base ++ more ++ after)).map Char.toLower =
          "text/html".toList ++ (more ++ after).map Char.toLower := by
        rw [List.map_append, List.map_cons, List.append_assoc, List.map_append, ← typed, ← based]
        rfl
      rw [whole]
      exact (List.prefix_append _ _).isInfix

end MediaType

namespace Headers

open MediaType

/-- What the first content type has to do with whether a response is a page. -/
structure HtmlLaw (h : Headers) : Prop where
  /-- Without a content type that can be shown, nothing is a page. -/
  unshown : h.ShowsType none → h.isHtml = false
  /-- A content type that is the name of the type, or goes on with a semicolon and anything else, is
  that of a page. -/
  document : ∀ text, h.ShowsType (some text) → Text.lower text = "text/html" ∨
    "text/html;".toList <+: (Text.lower text).toList → h.isHtml = true
  other : ∀ text, h.ShowsType (some text) → ¬ "text/html".toList <:+: (Text.lower text).toList →
    h.isHtml = false
  caseless : ∀ (k : Headers) text text', h.ShowsType (some text) → k.ShowsType (some text') →
    Text.lower text = Text.lower text' → h.isHtml = k.isHtml
  /-- Only the first value matters. -/
  first : ∀ k : Headers, (h.values .contentType).head? = (k.values .contentType).head? →
    h.isHtml = k.isHtml

/-- **Pages by their content type.** A response is a page if its first content type, in whichever
case it is written, is that of a document in HTML, and it is none if that cannot be shown or does
not have the name of the type in it. -/
theorem htmlLaw (h : Headers) : HtmlLaw h where
  unshown shows := by rw [isHtml, h.showsType.unique shows]
  document text shows named := by
    rw [countsAsHtml_iff shows]
    rcases named with whole | ⟨more, same⟩
    · exact countsAsHtml_of_named (by rw [whole, List.append_nil]) (.inl rfl)
    · exact countsAsHtml_of_named same.symm (.inr ⟨more, rfl⟩)
  other text shows absent := by
    rw [Bool.eq_false_iff, ne_eq, countsAsHtml_iff shows]
    exact fun counts => absent counts.found
  caseless k text text' shows shows' same := by
    rw [Bool.eq_iff_iff, countsAsHtml_iff shows, countsAsHtml_iff shows']
    exact ⟨fun counts => counts.of_lower_eq same, fun counts => counts.of_lower_eq same.symm⟩
  first k same := by rw [isHtml, isHtml, get?, get?, same]

end Headers

/-! ## The name before the parameters -/

namespace MediaType

/-- A text before its first semicolon, without blanks around it and in small letters. -/
def essence (text : String) : String :=
  Text.lower (Text.trim (String.ofList (text.toList.takeWhile (· != ';'))))

/-- A content type that names something else counts as that of a page all the same. -/
inductive Mistaken (text : String) : Prop where
  /-- It is a media type with a suffix. -/
  | suffixed (readable : ∃ m, Written text.toList m) {suffix : List Char} (last : '+' ∉ suffix)
      (named : (essence text).toList = "text/html+".toList ++ suffix) : Mistaken text
  /-- It is no media type, and has the name in it. -/
  | occurs (unreadable : ∀ m, ¬ Written text.toList m)
      (found : "text/html".toList <:+: (Text.lower text).toList) : Mistaken text

theorem trim_of_noBlank {cs : List Char} (none : ∀ c ∈ cs, Text.isBlank c = false) :
    Text.trim (String.ofList cs) = String.ofList cs := by
  have front {ds : List Char} (none : ∀ c ∈ ds, Text.isBlank c = false) :
      ds.dropWhile Text.isBlank = ds := by
    cases ds with
    | nil => rfl
    | cons d ds => rw [List.dropWhile_cons_of_neg (by simp [none])]
  rw [Text.trim, Text.dropEnd, String.toList_ofList, front none,
    front fun c hc => none c (List.mem_reverse.mp hc), List.reverse_reverse]

theorem plain_of_isTokenChar {c : Char} (token : isTokenChar c = true) :
    c ≠ ';' ∧ Text.isBlank c = false := by
  have each : ∀ n < 128, isTokenChar (Char.ofNat n) = true →
      Char.ofNat n ≠ ';' ∧ Text.isBlank (Char.ofNat n) = false := by decide +kernel
  have shown := each c.toNat (toNat_lt_of_isTokenChar token)
  rw [Char.ofNat_toNat] at shown
  exact shown token

/-- Two tokens with a slash between them are found again before a semicolon. -/
theorem toList_essence {text : String} {type subtype after : List Char}
    (whole : text.toList = type ++ '/' :: (subtype ++ after))
    (named : ∀ c ∈ type, isTokenChar c = true) (tokens : ∀ c ∈ subtype, isTokenChar c = true)
    (free : Json.Free (· != ';') after) :
    (essence text).toList = type.map Char.toLower ++ '/' :: subtype.map Char.toLower := by
  have before : ∀ c ∈ type ++ '/' :: subtype, c ≠ ';' ∧ Text.isBlank c = false := by
    rw [List.forall_mem_append, List.forall_mem_cons]
    exact ⟨fun c hc => plain_of_isTokenChar (named c hc), by decide,
      fun c hc => plain_of_isTokenChar (tokens c hc)⟩
  have taken : text.toList.takeWhile (· != ';') = type ++ '/' :: subtype := by
    rw [whole, ← List.cons_append, ← List.append_assoc]
    exact (Json.span_append (fun c hc => bne_iff_ne.mpr (before c hc).1) free).1
  rw [essence, taken, trim_of_noBlank fun c hc => (before c hc).2, Text.toList_lower_ofList,
    List.map_append]
  rfl

/-- The name of a media type is its type, and its subtype with the suffix. -/
theorem Written.essence {text : String} {m : MediaType} (h : Written text.toList m) :
    ∃ subtype, HasBase m.subtype.toList subtype ∧ '/' ∉ m.type.toList ∧
      (essence text).toList = m.type.toList ++ '/' :: subtype := by
  generalize whole : text.toList = cs at h
  cases h with
  | @mk type subtype base after named tokens hasBase follows =>
    have free : Json.Free (· != ';') after := by
      cases follows with
      | nothing => exact Json.free_nil _
      | parameters _ _ => rintro _ ⟨⟩; rfl
    have slash : '/' ∉ type.map Char.toLower := by
      intro inside
      obtain ⟨c, hc, same⟩ := List.mem_map.mp inside
      obtain rfl := Text.eq_of_toLower_eq same (by decide)
      exact absurd (named.2 _ hc) (by decide)
    refine ⟨subtype.map Char.toLower, ?_, ?_, ?_⟩
    · rw [Text.toList_lower_ofList]
      exact hasBase.lower
    · rw [Text.toList_lower_ofList]
      exact slash
    · rw [Text.toList_lower_ofList]
      exact toList_essence whole named.2 tokens free

/-- Of the content types that name something else, the mistaken ones count. -/
theorem countsAsHtml_iff_mistaken {text : String} (other : essence text ≠ "text/html") :
    CountsAsHtml text ↔ Mistaken text := by
  constructor
  · rintro (written | ⟨unreadable, found⟩)
    · obtain ⟨subtype, hasBase, -, named⟩ := written.essence
      generalize based : html.subtype.toList = base at hasBase
      cases hasBase with
      | whole _ =>
        refine absurd (String.toList_injective ?_) other
        rw [named, ← based]
        rfl
      | suffixed _ last =>
        refine .suffixed ⟨_, written⟩ last ?_
        rw [named, ← based]
        rfl
    · exact .occurs unreadable found
  · rintro (@⟨⟨m, written⟩, suffix, last, named⟩ | ⟨unreadable, found⟩)
    · obtain ⟨subtype, hasBase, slash, named'⟩ := written.essence
      have html : HasBase "html".toList ("html".toList ++ '+' :: suffix) :=
        .suffixed (by decide) last
      have split : "text/html+".toList ++ suffix =
          "text".toList ++ '/' :: ("html".toList ++ '+' :: suffix) := rfl
      rw [named, split] at named'
      obtain ⟨type, rfl⟩ := Lines.cut_inj (by decide) slash named'
      have base := hasBase.dropSuffix_eq.symm.trans html.dropSuffix_eq
      obtain rfl : m = .html :=
        MediaType.mk.injEq .. ▸ ⟨String.toList_injective type.symm, String.toList_injective base⟩
      exact .read written
    · exact .occurs unreadable found

theorem isHtml_iff_mistaken {h : Headers} {text : String} (shows : h.ShowsType (some text))
    (other : essence text ≠ "text/html") : h.isHtml = true ↔ Mistaken text :=
  (countsAsHtml_iff shows).trans (countsAsHtml_iff_mistaken other)

end MediaType

/-! ## What becomes of a response -/

open MediaType ProxyPage

/-- A response without a content encoding is not expanded. -/
theorem Compression.expand_of_plain (brotli : Decoder) {response : Response}
    (plain : response.headers.values .contentEncoding = []) :
    expand brotli response = response := by
  rw [expand, Headers.get?, plain]
  rfl

/-- What a request brings that is answered with a response whose content type, `text`, names
something else, expanded with a decoder of Brotli. -/
structure Handled (brotli : Compression.Decoder) (r : Request) (text : String)
    (response received : Response) : Prop where
  passed : ¬ Mistaken text → received = Compression.expand brotli response
  /-- Without a content encoding, nothing of the response is touched. -/
  untouched : ¬ Mistaken text → response.headers.values .contentEncoding = [] → received = response
  replaced : Mistaken text →
    ∃ bytes, StandsIn r (Compression.expand brotli response).toResponseHead received bytes

theorem Chain.handled_of_answer {c : Chain} {r : Request} {steps : List Step}
    {final : Chain.Outcome} (off : c.tracing = .off) (h : (c.call r).Ends steps final)
    {answer : Answer} {response : Response} {text : String} (brought : answer ∈ answers steps)
    (brings : answer.within c.timeout = .ok response)
    (shows : response.headers.ShowsType (some text)) (other : essence text ≠ "text/html") :
    ∃ received, final = .ok received ∧ Handled c.brotli r text response received := by
  have counts := isHtml_iff_mistaken shows other
  rw [Chain.eq_normalize_of_answer off h brought brings, ProxyPage.normalize, (expand_head _ _).2]
  by_cases mistaken : Mistaken text
  · rw [if_pos (counts.mpr mistaken)]
    exact ⟨_, rfl, fun sound => absurd mistaken sound, fun sound => absurd mistaken sound,
      fun _ => ⟨_, standsIn_replacement r _⟩⟩
  · rw [if_neg fun html => mistaken (counts.mp html)]
    exact ⟨_, rfl, fun _ => rfl, fun _ plain => Compression.expand_of_plain _ plain,
      fun wrong => absurd wrong mistaken⟩

namespace Transport

variable {σ : Type}

/-- What a transport brings of responses whose content type names something else. -/
structure PassingLaw (t : Transport σ) : Prop where
  isHtml : ∀ (h : Headers) text, h.ShowsType (some text) → essence text ≠ "text/html" →
    (h.isHtml = true ↔ Mistaken text)
  /-- Of a request that is sent alone. -/
  sent : ∀ r answer response text, (t.closed <|> t.connection.unready t.wire) = none →
    answer ∈ answers (t.steps (t.chain.call r)) →
    answer.within t.chain.timeout = .ok response →
    response.headers.ShowsType (some text) → essence text ≠ "text/html" →
    ∃ received, (t.send r).1 = .ok (t.reply received) ∧
      Handled t.chain.brotli r text response received
  /-- Of requests that take turns. -/
  followed : ∀ (rs : List Request) (schedule : List Nat) (i : Nat) (r : Request)
    (left : Turn Chain.Outcome) (value : Chain.Outcome) (answer : Answer) (response : Response)
    (text : String), rs[i]? = some r →
    (t.follow (t.callsOf rs) schedule).1[i]? = some left → left.value? = some value →
    answer ∈ answers (stepsOf i (t.log (t.callsOf rs) schedule)) →
    answer.within t.chain.timeout = .ok response →
    response.headers.ShowsType (some text) → essence text ≠ "text/html" →
    ∃ received, value = .ok received ∧ Handled t.chain.brotli r text response received

/-- **Other content types.** On a transport that traces nothing, a response that comes in time and
whose content type names something else than a document in HTML is brought as it came, expanded if
it was compressed. The exceptions are a media type with a suffix, and what cannot be read as a media
type and has the name in it: these are replaced as if they were pages. -/
theorem passingLaw_of_off (t : Transport σ) (off : t.chain.tracing = .off) : PassingLaw t := by
  refine ⟨fun h text shows other => isHtml_iff_mistaken shows other, ?_, ?_⟩
  · intro r answer response text opened brought brings shows other
    obtain ⟨received, final, handled⟩ :=
      Chain.handled_of_answer off (t.ends_run (t.chain.call r)) brought brings shows other
    obtain ⟨cause, shut, -⟩ | ⟨-, runs⟩ := roundTrip_cases t r
    · rw [opened] at shut
      cases shut
    · rw [← runs] at final
      exact ⟨received, send_eq_ok.2 ⟨_, final, rfl⟩, handled⟩
  · intro rs schedule i r left value answer response text hr hl hv brought brings shows other
    exact Chain.handled_of_answer off (follow_ends (getElem?_callsOf hr) hl hv) brought brings shows
      other

/-- A document with the given content type. -/
def typed (text : String) : Response where
  status := .ok
  headers := ⟨[(.contentType, (HeaderValue.ofText? text).getD .json)]⟩
  body := Body.full [0x7B, 0x7D]

/-- A transport that traces nothing, over a service that answers every request with a document of
the given content type. -/
def serving (text : String) : Transport Unit :=
  { behindProxy with
    connection := {
      unready := fun _ => none
      answer := fun _ s => (⟨.none, .ok (typed text)⟩, s) } }

/-- A document in JSON is brought as it came. -/
theorem passingLaw_serving :
    ∃ received, ((serving "application/json").send homeRequest).1 =
        .ok ((serving "application/json").reply received) ∧
      received = typed "application/json" := by
  have shows : (typed "application/json").headers.ShowsType (some "application/json") :=
    Headers.showsType_of_eq (by decide +kernel)
  have other : essence "application/json" ≠ "text/html" := by decide +kernel
  have law := passingLaw_of_off (serving "application/json") rfl
  obtain ⟨received, sent, handled⟩ := law.sent homeRequest ⟨.none, .ok (typed _)⟩ (typed _) _ rfl
    (List.mem_singleton.2 rfl) rfl shows other
  have sound : ¬ Mistaken "application/json" :=
    fun wrong => absurd ((law.isHtml _ _ shows other).mpr wrong) (by decide +kernel)
  exact ⟨received, sent, handled.untouched sound rfl⟩

/-- The content type of a document in JSON, with a blank before the semicolon. -/
def profiled : String := "application/json ; profile=\"text/html\""

/-- A document in JSON does not always get through: what it says of itself can be mistaken. -/
theorem send_profiled_replaced :
    (typed profiled).headers.ShowsType (some profiled) ∧ essence profiled = "application/json" ∧
      (typed profiled).headers.isHtml = true ∧
      ∃ received, ((serving profiled).send homeRequest).1 =
          .ok ((serving profiled).reply received) ∧
        received.headers ≠ (typed profiled).headers ∧ received.body ≠ (typed profiled).body := by
  have html : (typed profiled).headers.isHtml = true := by decide +kernel
  refine ⟨Headers.showsType_of_eq (by decide +kernel), by decide +kernel, html, ?_⟩
  have brought : ⟨.none, .ok (typed profiled)⟩ ∈
      answers ((serving profiled).steps ((serving profiled).chain.call homeRequest)) :=
    List.mem_singleton.2 rfl
  have final := Chain.eq_replacement_of_answer rfl (ends_run _ _) brought rfl html
  refine ⟨_, send_eq_ok.2 ⟨_, final, rfl⟩, by decide +kernel, fun same => ?_⟩
  have data := congrArg Body.data same
  revert data
  decide +kernel

end Transport
end Courier
