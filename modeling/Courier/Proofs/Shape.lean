import Courier.Proofs.Readings
import Courier.Proofs.Unambiguous

/-!
# The shape of error envelopes

A body is an envelope if it is a document of a certain shape: an object with exactly one member
`errors`, which lists entries, each of them an object with one code, one message and at most one
list of fields (`Envelope.Documented`). The reader accepts all such documents, and of the others
just those in which an array stands in the place of the envelope or of an entry
(`Envelope.shapeLaw_of_text`).
-/
namespace Courier

open Json Utf8

/-! ## Entries -/

namespace Entry

/-- Null, or an array of texts. -/
def IsFieldList (t : Tree) : Option (List String) → Prop
  | none => t = .null
  | some fs => ∃ ts, t = .array ts ∧ List.Forall₂ IsText ts fs

/-- One code and one message, both texts, and at most one list of fields; members of other names do
not count. -/
structure ByName (named : List (String × Tree)) (e : Entry) : Prop where
  code : ∃ t, valuesOf "code" named = [t] ∧ IsText t e.code
  message : ∃ t, valuesOf "message" named = [t] ∧ IsText t e.message
  fields : valuesOf "fields" named = [] ∧ e.fields = none ∨
    ∃ t, valuesOf "fields" named = [t] ∧ IsFieldList t e.fields

/-- An array of code, fields and message. -/
def ByPosition (ts : List Tree) (e : Entry) : Prop :=
  ∃ code fields message, ts = [code, fields, message] ∧ IsText code e.code ∧
    IsFieldList fields e.fields ∧ IsText message e.message

theorem reading_fieldList (n : Nat) : Reading n fieldList (Led Spelled) IsFieldList where
  sound := by
    intro cs fs left h
    rw [fieldList] at h
    split at h
    next b bs start =>
      split at h
      next null =>
        subst null
        obtain ⟨more, rfl, blanks⟩ := exists_of_skipBlank (c := 'n') rfl start
        obtain ⟨⟨_, _⟩, read, same⟩ := Option.map_eq_some_iff.1 h
        cases same
        obtain ⟨rest, rfl, rfl⟩ := (literal_eq_some_iff "ull".toList rfl).1 read
        exact ⟨.null, rest, rfl, ⟨blanks, .null rest⟩, rfl⟩
      split at h
      next bracket =>
        subst bracket
        obtain ⟨more, rfl, blanks⟩ := exists_of_skipBlank (c := '[') rfl start
        obtain ⟨⟨fs, _⟩, read, same⟩ := Option.map_eq_some_iff.1 h
        cases same
        obtain ⟨ts, rest, rfl, items, texts⟩ :=
          (reading_items (reading_quoted n) (shuns_quoted (by decide))).sound read
        exact ⟨.array ts, rest, rfl, ⟨blanks, .array items⟩, ts, rfl, texts⟩
      · cases h
    · cases h
  complete := by
    rintro t fs cs rest size ⟨blanks, spelled⟩ isMeant free
    have short := Nat.le_trans blanks.length_le size
    cases fs with
    | none =>
      obtain rfl : t = .null := isMeant
      cases spelled with
      | null =>
        have read : literal [0x75, 0x6C, 0x6C] (octets ('u' :: 'l' :: 'l' :: rest)) = _ :=
          (literal_eq_some_iff "ull".toList rfl).2 ⟨rest, rfl, rfl⟩
        rw [fieldList, skipBlank_of_mark (b := 0x6E) ⟨rfl, rfl⟩ blanks]
        simp only [if_true, read, Option.map_some]
    | some fs =>
      obtain ⟨ts, rfl, texts⟩ := isMeant
      cases spelled with
      | array items =>
        rw [fieldList, skipBlank_of_mark ⟨rfl, rfl⟩ blanks]
        have read := (reading_items (reading_quoted n) (shuns_quoted (by decide))).complete
          (Nat.le_of_succ_le short) items texts free
        exact Option.map_eq_some_iff.2 ⟨_, read, rfl⟩

/-- What a member of a name is read as. -/
def MemberOf (name : String) (t : Tree) : Member → Prop
  | .code s => name = "code" ∧ IsText t s
  | .fields fs => name = "fields" ∧ IsFieldList t fs
  | .message s => name = "message" ∧ IsText t s
  | .other => name ≠ "code" ∧ name ≠ "fields" ∧ name ≠ "message"

theorem reading_namedMember (n : Nat) (name : String) :
    Reading n (namedMember name) (Led Spelled) (MemberOf name) := by
  by_cases code : name = "code"
  · refine ((reading_quoted n).map Member.code).congr (fun bs => ?_)
      fun t m => ?_
    · rw [namedMember, if_pos code]
    · cases m <;> simp [MemberOf, code]
  by_cases fields : name = "fields"
  · refine ((reading_fieldList n).map Member.fields).congr (fun bs => ?_)
      fun t m => ?_
    · rw [namedMember, if_neg code, if_pos fields]
    · cases m <;> simp [MemberOf, fields]
  by_cases message : name = "message"
  · refine ((reading_quoted n).map Member.message).congr (fun bs => ?_)
      fun t m => ?_
    · rw [namedMember, if_neg code, if_neg fields, if_pos message]
    · cases m <;> simp [MemberOf, message]
  · refine ((reading_ignored n).map fun _ => Member.other).congr (fun bs => ?_)
      fun t m => ?_
    · rw [namedMember, if_neg code, if_neg fields, if_neg message]
    · cases m <;> simp [MemberOf, code, fields, message]

/-- A code, a message, a list of fields, as a member gives it. -/
def Member.code? : Member → Option String
  | .code s => some s
  | _ => none

def Member.message? : Member → Option String
  | .message s => some s
  | _ => none

def Member.fields? : Member → Option (Option (List String))
  | .fields fs => some fs
  | _ => none

theorem ofMembers?_eq_some_iff {ms : List Member} {e : Entry} :
    ofMembers? ms = some e ↔ ms.filterMap Member.code? = [e.code] ∧
      ms.filterMap Member.message? = [e.message] ∧
      (ms.filterMap Member.fields? = [] ∧ e.fields = none ∨
        ms.filterMap Member.fields? = [e.fields]) := by
  obtain ⟨code, fields, message⟩ := e
  constructor
  · intro h
    unfold ofMembers? at h
    dsimp only at h
    split at h
    next hc hf hm =>
      cases h
      exact ⟨hc, hm, .inl ⟨hf, rfl⟩⟩
    next hc hf hm =>
      cases h
      exact ⟨hc, hm, .inr hf⟩
    · cases h
  · rintro ⟨hc, hm, fields⟩
    unfold ofMembers?
    dsimp only
    split
    next hc' hf' hm' =>
      cases hc'.symm.trans hc
      cases hm'.symm.trans hm
      rcases fields with ⟨-, rfl⟩ | hf
      · rfl
      · cases hf'.symm.trans hf
    next hc' hf' hm' =>
      cases hc'.symm.trans hc
      cases hm'.symm.trans hm
      rcases fields with ⟨hf, -⟩ | hf
      · cases hf'.symm.trans hf
      · cases hf'.symm.trans hf
        rfl
    next none one =>
      rcases fields with ⟨hf, -⟩ | hf
      · exact absurd hm (none code message hc hf)
      · exact absurd hm (one code fields message hc hf)

/-- A member gives the part that its name calls for, and no other. -/
theorem MemberOf.parts {name : String} {t : Tree} {m : Member} (h : MemberOf name t m) :
    Option.Rel IsText (if name = "code" then some t else none) m.code? ∧
      Option.Rel IsText (if name = "message" then some t else none) m.message? ∧
      Option.Rel IsFieldList (if name = "fields" then some t else none) m.fields? := by
  cases m with
  | code s =>
    obtain ⟨rfl, isText⟩ := h
    exact ⟨.some isText, .none, .none⟩
  | message s =>
    obtain ⟨rfl, isText⟩ := h
    exact ⟨.none, .some isText, .none⟩
  | fields fs =>
    obtain ⟨rfl, isList⟩ := h
    exact ⟨.none, .none, .some isList⟩
  | other =>
    obtain ⟨code, fields, message⟩ := h
    rw [if_neg code, if_neg message, if_neg fields]
    exact ⟨.none, .none, .none⟩

/-- What an entry makes of its members. -/
def memberNamed (e : Entry) (name : String) : Member :=
  if name = "code" then .code e.code
  else if name = "fields" then .fields e.fields
  else if name = "message" then .message e.message
  else .other

theorem code?_memberNamed (e : Entry) (name : String) :
    (e.memberNamed name).code? = if name = "code" then some e.code else none := by
  grind [memberNamed, Member.code?]

theorem message?_memberNamed (e : Entry) (name : String) :
    (e.memberNamed name).message? = if name = "message" then some e.message else none := by
  grind [memberNamed, Member.message?]

theorem fields?_memberNamed (e : Entry) (name : String) :
    (e.memberNamed name).fields? = if name = "fields" then some e.fields else none := by
  grind [memberNamed, Member.fields?]

theorem byName_of_members {named : List (String × Tree)} {ms : List Member} {e : Entry}
    (areMeant : List.Forall₂ (fun v m => MemberOf v.1 v.2 m) named ms)
    (made : ofMembers? ms = some e) : ByName named e := by
  obtain ⟨code, message, fields⟩ := ofMembers?_eq_some_iff.1 made
  have codes : List.Forall₂ IsText (valuesOf "code" named) (ms.filterMap Member.code?) := by
    refine List.rel_filterMap ?_ areMeant
    exact fun v m h => (MemberOf.parts h).1
  have messages :
      List.Forall₂ IsText (valuesOf "message" named) (ms.filterMap Member.message?) := by
    refine List.rel_filterMap ?_ areMeant
    exact fun v m h => (MemberOf.parts h).2.1
  have lists :
      List.Forall₂ IsFieldList (valuesOf "fields" named) (ms.filterMap Member.fields?) := by
    refine List.rel_filterMap ?_ areMeant
    exact fun v m h => (MemberOf.parts h).2.2
  rw [code] at codes
  rw [message] at messages
  refine ⟨forall₂_singleton_iff.1 codes, forall₂_singleton_iff.1 messages, ?_⟩
  rcases fields with ⟨absent, isNone⟩ | present
  · rw [absent, List.forall₂_nil_right_iff] at lists
    exact .inl ⟨lists, isNone⟩
  · rw [present] at lists
    exact .inr (forall₂_singleton_iff.1 lists)

theorem ByName.memberOf {named : List (String × Tree)} {e : Entry} (h : ByName named e)
    {v : String × Tree} (hv : v ∈ named) : MemberOf v.1 v.2 (e.memberNamed v.1) := by
  have among : v.2 ∈ valuesOf v.1 named := mem_valuesOf hv
  obtain ⟨⟨c, codes, isCode⟩, ⟨m, messages, isMessage⟩, fields⟩ := h
  unfold memberNamed
  split
  next same =>
    rw [same, codes, List.mem_singleton] at among
    exact ⟨same, among ▸ isCode⟩
  split
  next same =>
    rcases fields with ⟨absent, -⟩ | ⟨f, present, isList⟩
    · rw [same, absent] at among
      cases among
    · rw [same, present, List.mem_singleton] at among
      exact ⟨same, among ▸ isList⟩
  split
  next same =>
    rw [same, messages, List.mem_singleton] at among
    exact ⟨same, among ▸ isMessage⟩
  next code fields message => exact ⟨code, fields, message⟩

theorem ByName.ofMembers? {named : List (String × Tree)} {e : Entry} (h : ByName named e) :
    ofMembers? (named.map fun v => e.memberNamed v.1) = some e := by
  obtain ⟨⟨c, codes, -⟩, ⟨m, messages, -⟩, fields⟩ := h
  have codeOnly : (named.map fun v => e.memberNamed v.1).filterMap Member.code? = [e.code] := by
    rw [filterMap_valuesOf e.memberNamed fun _ => code?_memberNamed .., codes]
    rfl
  have messageOnly :
      (named.map fun v => e.memberNamed v.1).filterMap Member.message? = [e.message] := by
    rw [filterMap_valuesOf e.memberNamed fun _ => message?_memberNamed .., messages]
    rfl
  refine ofMembers?_eq_some_iff.2 ⟨codeOnly, messageOnly, ?_⟩
  rw [filterMap_valuesOf e.memberNamed fun _ => fields?_memberNamed ..]
  rcases fields with ⟨absent, isNone⟩ | ⟨f, present, -⟩
  · exact .inl ⟨by rw [absent]; rfl, isNone⟩
  · exact .inr (by rw [present]; rfl)

/-- Members are read as an entry exactly if they are those of the entry by name. -/
theorem members_iff {named : List (String × Tree)} {e : Entry} :
    (∃ ms, List.Forall₂ (fun v m => MemberOf v.1 v.2 m) named ms ∧ ofMembers? ms = some e) ↔
      ByName named e := by
  constructor
  · rintro ⟨ms, areMeant, made⟩
    exact byName_of_members areMeant made
  · intro byName
    refine ⟨named.map fun v => e.memberNamed v.1, ?_, byName.ofMembers?⟩
    exact List.forall₂_map_right_iff.2 (List.forall₂_same.2 fun v hv => byName.memberOf hv)

theorem reading_positional (n : Nat) :
    Reading n positional (Listed (Led Spelled) ']') ByPosition where
  sound := by
    intro cs e left h
    simp only [positional, Option.bind_eq_bind, Option.bind_eq_some_iff, Prod.exists] at h
    obtain ⟨code, _, readCode, _, _, passed₁, fields, _, readFields, _, _, passed₂, message, _,
      readMessage, _, _, closed, same⟩ := h
    cases same
    obtain ⟨c, _, rfl, spelled₁, isCode⟩ := (reading_quoted n).sound readCode
    obtain ⟨_, rfl, comma₁⟩ := (expect_eq_some_iff isMark_comma).1 passed₁
    obtain ⟨f, _, rfl, spelled₂, isList⟩ := (reading_fieldList n).sound readFields
    obtain ⟨_, rfl, comma₂⟩ := (expect_eq_some_iff isMark_comma).1 passed₂
    obtain ⟨m, _, rfl, spelled₃, isMessage⟩ := (reading_quoted n).sound readMessage
    obtain ⟨rest, rfl, ends⟩ := (expect_eq_some_iff isClosing_bracket.toIsMark).1 closed
    exact ⟨[c, f, m], rest, rfl,
      .some (.more spelled₁ comma₁ (.more spelled₂ comma₂ (.last spelled₃ ends))),
      c, f, m, rfl, isCode, isList, isMessage⟩
  complete := by
    rintro _ ⟨code, fields, message⟩ cs rest _ listed ⟨c, f, m, rfl, isCode, isList, isMessage⟩ _
    obtain _ | ⟨_ | ⟨spelled₁, comma₁, _ | ⟨spelled₂, comma₂, ⟨spelled₃, ends⟩ | ⟨_, _, ⟨⟩⟩⟩⟩⟩ :=
      listed
    have readCode := (reading_quoted _).complete (Nat.le_refl _) spelled₁ isCode
      (comma₁.free (free_cons rfl _))
    have readFields := (reading_fieldList _).complete (Nat.le_refl _) spelled₂ isList
      (comma₂.free (free_cons rfl _))
    have readMessage := (reading_quoted _).complete (Nat.le_refl _) spelled₃ isMessage
      (ends.free (free_cons rfl _))
    have passed₁ := (expect_eq_some_iff isMark_comma).2 ⟨_, rfl, comma₁⟩
    have passed₂ := (expect_eq_some_iff isMark_comma).2 ⟨_, rfl, comma₂⟩
    have closed := (expect_eq_some_iff isClosing_bracket.toIsMark).2 ⟨_, rfl, ends⟩
    simp only [positional, readCode, passed₁, readFields, passed₂, readMessage, closed,
      Option.bind_eq_bind, Option.bind_some]

/-- An entry of either form. -/
def OfEither (t : Tree) (e : Entry) : Prop :=
  IsObject ByName t e ∨ ∃ ts, t = .array ts ∧ ByPosition ts e

theorem reading_reader (n : Nat) : Reading n reader (Led Spelled) OfEither := by
  have objects := reading_object (fun name => reading_namedMember n name) ofMembers?
    fun _ _ => members_iff
  refine reading_either (fun bs => ?_) objects (reading_positional n)
  rw [reader]
  cases skipBlank bs with
  | nil => rfl
  | cons b rest =>
    simp only
    cases listUpTo (member namedMember) 0x7D rest <;> rfl

end Entry

/-! ## Envelopes -/

namespace Envelope

/-- Entries in an array. -/
def AreEntries (entry : Tree → Entry → Prop) (t : Tree) (es : List Entry) : Prop :=
  ∃ ts, t = .array ts ∧ List.Forall₂ entry ts es

/-- One list of entries; members of other names do not count. -/
def ByName (entry : Tree → Entry → Prop) (named : List (String × Tree)) (e : Envelope) : Prop :=
  ∃ t, valuesOf "errors" named = [t] ∧ AreEntries entry t e.errors

/-- An array of one list of entries. -/
def ByPosition (entry : Tree → Entry → Prop) (ts : List Tree) (e : Envelope) : Prop :=
  ∃ t, ts = [t] ∧ AreEntries entry t e.errors

theorem reading_entries (n : Nat) :
    Reading n entries (Led Spelled) (AreEntries Entry.OfEither) where
  sound := by
    intro cs es left h
    rw [entries] at h
    split at h
    · cases h
    next opened =>
      obtain ⟨more, rfl, blanks⟩ := (expect_eq_some_iff isMark_bracket).1 opened
      obtain ⟨ts, rest, rfl, items, areMeant⟩ :=
        (reading_items (Entry.reading_reader n) Entry.shuns_reader).sound h
      exact ⟨.array ts, rest, rfl, ⟨blanks, .array items⟩, ts, rfl, areMeant⟩
  complete := by
    rintro _ es cs rest _ ⟨blanks, spelled⟩ ⟨ts, rfl, areMeant⟩ free
    cases spelled with
    | array items =>
      rw [entries, (expect_eq_some_iff isMark_bracket).2 ⟨_, rfl, blanks⟩]
      exact (reading_items (Entry.reading_reader _) Entry.shuns_reader).complete (Nat.le_refl _)
        items areMeant free

/-- What a member of a name is read as. -/
def MemberOf (name : String) (t : Tree) : Option (List Entry) → Prop
  | some es => name = "errors" ∧ AreEntries Entry.OfEither t es
  | none => name ≠ "errors"

theorem reading_namedMember (n : Nat) (name : String) :
    Reading n (namedMember name) (Led Spelled) (MemberOf name) := by
  by_cases errors : name = "errors"
  · refine ((reading_entries n).map some).congr (fun bs => ?_) fun t m => ?_
    · rw [namedMember, if_pos errors]
    · cases m <;> simp [MemberOf, errors]
  · refine ((reading_ignored n).map fun _ => none).congr (fun bs => ?_) fun t m => ?_
    · rw [namedMember, if_neg errors]
    · cases m <;> simp [MemberOf, errors]

/-- A member gives entries exactly if its name calls for them. -/
theorem MemberOf.part {name : String} {t : Tree} {m : Option (List Entry)} (h : MemberOf name t m) :
    Option.Rel (AreEntries Entry.OfEither) (if name = "errors" then some t else none) m := by
  cases m with
  | some es =>
    rw [if_pos h.1]
    exact .some h.2
  | none =>
    rw [if_neg h]
    exact .none

/-- The envelope with the given members: one list of entries. -/
def ofMembers? (ms : List (Option (List Entry))) : Option Envelope :=
  match ms.filterMap id with
  | [es] => some ⟨es⟩
  | _ => none

theorem ofMembers?_eq_some_iff {ms : List (Option (List Entry))} {e : Envelope} :
    ofMembers? ms = some e ↔ ms.filterMap id = [e.errors] := by
  unfold ofMembers?
  constructor
  · intro h
    split at h
    next es one =>
      cases h
      exact one
    · cases h
  · intro one
    rw [one]

/-- Members are read as an envelope exactly if they are those of the envelope by name. -/
theorem members_iff {named : List (String × Tree)} {e : Envelope} :
    (∃ ms, List.Forall₂ (fun v m => MemberOf v.1 v.2 m) named ms ∧ ofMembers? ms = some e) ↔
      ByName Entry.OfEither named e := by
  constructor
  · rintro ⟨ms, areMeant, made⟩
    have lists : List.Forall₂ (AreEntries Entry.OfEither) (valuesOf "errors" named)
        (ms.filterMap id) := by
      refine List.rel_filterMap ?_ areMeant
      exact fun v m h => MemberOf.part h
    rw [ofMembers?_eq_some_iff.1 made] at lists
    exact forall₂_singleton_iff.1 lists
  · rintro ⟨t, errors, areMeant⟩
    refine ⟨named.map fun v => if v.1 = "errors" then some e.errors else none, ?_, ?_⟩
    · refine List.forall₂_map_right_iff.2 (List.forall₂_same.2 fun v hv => ?_)
      split
      next same =>
        have among : v.2 ∈ valuesOf v.1 named := mem_valuesOf hv
        rw [same, errors, List.mem_singleton] at among
        exact ⟨same, among ▸ areMeant⟩
      next other => exact other
    · have lists := @filterMap_valuesOf _ _
        (fun name => if name = "errors" then some e.errors else none)
        id "errors" e.errors (fun _ => rfl) named
      rw [errors] at lists
      exact ofMembers?_eq_some_iff.2 lists

/-- The envelope of an array, of which the bracket has been read. -/
def positional : Reader Envelope := fun bs =>
  match entries bs with
  | none => none
  | some (es, rest) => (expect 0x5D rest).map fun (_, left) => (⟨es⟩, left)

theorem reading_positional (n : Nat) :
    Reading n positional (Listed (Led Spelled) ']') (ByPosition Entry.OfEither) where
  sound := by
    intro cs e left h
    rw [positional] at h
    split at h
    · cases h
    next es _ read =>
      obtain ⟨t, mid, rfl, spelled, areMeant⟩ := (reading_entries n).sound read
      obtain ⟨⟨_, _⟩, closed, same⟩ := Option.map_eq_some_iff.1 h
      cases same
      obtain ⟨rest, rfl, ends⟩ := (expect_eq_some_iff isClosing_bracket.toIsMark).1 closed
      exact ⟨[t], rest, rfl, .some (.last spelled ends), t, rfl, areMeant⟩
  complete := by
    rintro _ e cs rest _ listed ⟨t, rfl, areMeant⟩ _
    obtain _ | ⟨⟨spelled, ends⟩ | ⟨_, _, ⟨⟩⟩⟩ := listed
    rw [positional, (reading_entries _).complete (Nat.le_refl _) spelled areMeant
      (ends.free (free_cons rfl _))]
    simp only [(expect_eq_some_iff isClosing_bracket.toIsMark).2 ⟨_, rfl, ends⟩, Option.map_some]

/-- An envelope of either form, of entries of either form. -/
def OfEither (t : Tree) (e : Envelope) : Prop :=
  IsObject (ByName Entry.OfEither) t e ∨ ∃ ts, t = .array ts ∧ ByPosition Entry.OfEither ts e

theorem reading_reader (n : Nat) : Reading n reader (Led Spelled) OfEither := by
  have objects := reading_object (fun name => reading_namedMember n name) ofMembers?
    fun _ _ => members_iff
  refine reading_either (fun bs => ?_) objects (reading_positional n)
  rw [reader]
  cases skipBlank bs with
  | nil => rfl
  | cons b rest =>
    simp only
    cases listUpTo (member namedMember) 0x7D rest with
    | none => rfl
    | some r =>
      have made : (match r.1.filterMap id with
          | [es] => some ((⟨es⟩ : Envelope), r.2)
          | _ => none) = (ofMembers? r.1).map (·, r.2) := by
        unfold ofMembers?
        split <;> rfl
      simp only [Option.bind_some, ← made]
      rfl

/-! ## Bodies -/

theorem atEnd_octets_iff {cs : List Char} : atEnd (octets cs) = true ↔ Blanks cs [] := by
  rw [atEnd, skipBlank_octets, List.isEmpty_iff, octets_eq_nil_iff]
  constructor
  · intro none
    exact none ▸ blanks_dropWhile cs
  · intro blanks
    exact blanks.dropWhile_eq

/-- The body is an envelope exactly if it is a document of either form that lists an entry. -/
theorem parse?_eq_some_iff {text : String} {e : Envelope} :
    parse? (Utf8.encode text) = some e ↔ ∃ t, Document t text ∧ OfEither t e ∧ e.errors ≠ [] := by
  have body : Utf8.encode text = octets text.toList := rfl
  rw [parse?, body]
  constructor
  · intro h
    split at h
    next read =>
      split at h
      next whole =>
        cases h
        obtain ⟨t, rest, rfl, spelled, isMeant⟩ := (reading_reader 0).sound read
        simp only [Bool.and_eq_true, Bool.not_eq_true', List.isEmpty_eq_false_iff] at whole
        exact ⟨t, ⟨rest, spelled, atEnd_octets_iff.1 whole.1⟩, isMeant, whole.2⟩
      · cases h
    · cases h
  · rintro ⟨t, ⟨rest, spelled, ends⟩, isMeant, some⟩
    rw [(reading_reader _).complete (Nat.le_refl _) spelled isMeant (ends.free (free_nil _))]
    simp [atEnd_octets_iff.2 ends, some]

/-- The shape of an envelope's document: an object with one list of errors, which has an entry, and
each entry an object. -/
def Documented (t : Tree) (e : Envelope) : Prop :=
  IsObject (ByName (IsObject Entry.ByName)) t e ∧ e.errors ≠ []

/-- An array stands in the place of the envelope or of an entry. -/
def Positional (t : Tree) : Prop :=
  (∃ ts, t = .array ts) ∨ ∃ ms named ts us, t = .object ms ∧ NamedAs ms named ∧
    Tree.array ts ∈ valuesOf "errors" named ∧ Tree.array us ∈ ts

theorem ofEither_of_documented {t : Tree} {e : Envelope} (h : Documented t e) : OfEither t e := by
  obtain ⟨⟨ms, rfl, named, names, u, errors, ts, rfl, each⟩, -⟩ := h
  exact .inl ⟨ms, rfl, named, names, _, errors, ts, rfl, each.imp fun _ _ => .inl⟩

theorem documented_of_ofEither {t : Tree} {e : Envelope} (h : OfEither t e) (some : e.errors ≠ [])
    (objects : ¬ Positional t) : Documented t e := by
  rcases h with ⟨ms, rfl, named, names, u, errors, ts, rfl, each⟩ | ⟨ts, rfl, -⟩
  · have noArray : ∀ u ∈ ts, ¬ ∃ us, u = Tree.array us := by
      rintro _ hu ⟨us, rfl⟩
      exact objects (.inr ⟨ms, named, ts, us, rfl, names, by simp [errors], hu⟩)
    refine ⟨⟨ms, rfl, named, names, _, errors, ts, rfl, ?_⟩, some⟩
    refine ((List.forall₂_and_left ts _).2 ⟨noArray, each⟩).imp ?_
    rintro u entry ⟨noArray, object | ⟨us, rfl, -⟩⟩
    · exact object
    · exact absurd ⟨us, rfl⟩ noArray
  · exact absurd (.inl ⟨ts, rfl⟩) objects

/-- What a body of text is read as. -/
structure ShapeLaw (text : String) : Prop where
  /-- What is no document is no envelope. -/
  document : (¬ ∃ t, Document t text) → parse? (Utf8.encode text) = none
  /-- A document of the shape of an envelope is read as that envelope. -/
  documented : ∀ t e, Document t text → Documented t e → parse? (Utf8.encode text) = some e
  /-- No other document is an envelope, as long as no array stands for the envelope or an entry. -/
  exact : ∀ t e, Document t text → ¬ Positional t →
    (parse? (Utf8.encode text) = some e ↔ Documented t e)
  /-- Where one does, it is read by position. -/
  positional : ∀ t e, Document t text → Positional t →
    (parse? (Utf8.encode text) = some e ↔ OfEither t e ∧ e.errors ≠ [])

/-- A document is read by its only tree. -/
theorem parse?_of_document {t : Tree} {text : String} (document : Document t text) {e : Envelope} :
    parse? (Utf8.encode text) = some e ↔ OfEither t e ∧ e.errors ≠ [] := by
  rw [parse?_eq_some_iff]
  constructor
  · rintro ⟨u, document', isMeant⟩
    obtain rfl := document.unique document'
    exact isMeant
  · intro isMeant
    exact ⟨t, document, isMeant⟩

/-- **The shape of an envelope.** A body of text is read as an envelope exactly if it is a document
of the envelope's shape, with those entries in order, unless an array stands in the place of the
envelope or of an entry: then the items of the array are taken for its members, by position. -/
theorem shapeLaw_of_text (text : String) : ShapeLaw text where
  document := by
    intro none
    by_contra h
    obtain ⟨e, read⟩ := Option.ne_none_iff_exists'.1 h
    obtain ⟨t, document, -⟩ := parse?_eq_some_iff.1 read
    exact none ⟨t, document⟩
  documented := by
    intro t e document documented
    exact (parse?_of_document document).2 ⟨ofEither_of_documented documented, documented.2⟩
  exact := by
    intro t e document objects
    rw [parse?_of_document document]
    constructor
    · rintro ⟨isMeant, some⟩
      exact documented_of_ofEither isMeant some objects
    · intro documented
      exact ⟨ofEither_of_documented documented, documented.2⟩
  positional := by
    intro t e document _
    exact parse?_of_document document

/-- An array in an array, in which there is an entry. -/
def bare : String := "[[\x7b\"code\":\"a\",\"message\":\"m\"\x7d]]"

theorem parse?_bare : parse? (Utf8.encode bare) = some ⟨[⟨"a", none, "m"⟩]⟩ ∧
    ∀ t, Document t bare → ∀ e, ¬ Documented t e := by
  refine ⟨by decide +kernel, ?_⟩
  rintro t ⟨rest, spelled, -⟩ e ⟨⟨ms, rfl, -⟩, -⟩
  obtain ⟨blanks, spelled⟩ := spelled
  cases spelled with
  | object =>
    have same := blanks.unique (.none (bare.toList)) rfl rfl
    cases same.1

end Envelope

end Courier
