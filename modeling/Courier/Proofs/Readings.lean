import Courier.Proofs.Trees

/-!
# Readers measured against the grammar

A reader is measured against a rule of the grammar and against what it takes the trees for
(`Reading`): it reads what the rule spells and means something, and nothing else. The measure passes
from items to lists and from values to members (`reading_listUpTo`, `reading_member`), and a reader
that passes over a value accepts every tree (`reading_ignored`).
-/
namespace Courier.Json

open Utf8

variable {α ω : Type}

/-! ## Readers -/

/-- On texts up to a length, the reader takes off the front just what the rule spells, and answers
what that means. -/
structure Reading (n : Nat) (reader : Reader α) (R : Rule ω) (means : ω → α → Prop) : Prop where
  sound : ∀ {cs : List Char} {a : α} {left : Bytes}, reader (octets cs) = some (a, left) →
    ∃ w rest, left = octets rest ∧ R w cs rest ∧ means w a
  complete : ∀ {w : ω} {a : α} {cs rest : List Char}, cs.length ≤ n → R w cs rest → means w a →
    Free goesOn rest → reader (octets cs) = some (a, octets rest)

section Answers

variable {β : Type} {n : Nat} {R : Rule ω}

/-- What is read is turned into something else, or refused. -/
theorem Reading.filterMap {reader : Reader α} {means : ω → α → Prop} (h : Reading n reader R means)
    (f : α → Option β) :
    Reading n (fun bs => (reader bs).bind fun (a, left) => (f a).map (·, left)) R
      fun w b => ∃ a, means w a ∧ f a = some b where
  sound := by
    intro cs b left read
    obtain ⟨⟨a, _⟩, first, kept⟩ := Option.bind_eq_some_iff.1 read
    obtain ⟨b, taken, same⟩ := Option.map_eq_some_iff.1 kept
    cases same
    obtain ⟨w, rest, rfl, spelled, isMeant⟩ := h.sound first
    exact ⟨w, rest, rfl, spelled, a, isMeant, taken⟩
  complete := by
    rintro w _ cs rest size spelled ⟨a, isMeant, taken⟩ free
    simp only [h.complete size spelled isMeant free, Option.bind_some, taken, Option.map_some]

/-- Readers that agree are measured alike. -/
theorem Reading.congr {reader reader' : Reader α} {means means' : ω → α → Prop}
    (h : Reading n reader R means) (alike : ∀ bs, reader' bs = reader bs)
    (same : ∀ w a, means' w a ↔ means w a) : Reading n reader' R means' := by
  obtain rfl : reader' = reader := funext alike
  obtain rfl : means' = means := funext fun w => funext fun a => propext (same w a)
  exact h

theorem Reading.map {reader : Reader α} {means : ω → α → Prop} (h : Reading n reader R means)
    (f : α → β) :
    Reading n (fun bs => (reader bs).map fun (a, left) => (f a, left)) R
      fun w b => ∃ a, means w a ∧ f a = b :=
  (h.filterMap fun a => some (f a)).congr (fun bs => by cases reader bs <;> rfl) (by simp)

end Answers

theorem length_le_octets (cs : List Char) : cs.length ≤ (octets cs).length := by
  induction cs with
  | nil => exact Nat.le_refl _
  | cons c cs ih =>
    have one := List.length_pos_iff.2 (String.utf8EncodeChar_ne_nil (c := c))
    rw [octets_cons, List.length_append, List.length_cons]
    omega

section Lists

variable {n : Nat} {item : Reader α} {R : Rule ω} {means : ω → α → Prop} {close : UInt8} {c : Char}

theorem itemsUpTo_sound (each : Reading n item R means) (closing : IsClosing close c) {m : Nat}
    {cs : List Char} {as : List α} {left : Bytes}
    (h : itemsUpTo item close m (octets cs) = some (as, left)) :
    ∃ ws rest, left = octets rest ∧ Items R c ws cs rest ∧ List.Forall₂ means ws as := by
  induction m generalizing cs as with
  | zero => cases h
  | succ m ih =>
    rw [itemsUpTo] at h
    split at h
    · cases h
    next a bs read =>
      obtain ⟨w, mid, rfl, spelled, isMeant⟩ := each.sound read
      split at h
      next b bs start =>
        split at h
        next comma =>
          subst comma
          obtain ⟨next, rfl, comma⟩ := exists_of_skipBlank isMark_comma.alone start
          obtain ⟨⟨as, _⟩, more, same⟩ := Option.map_eq_some_iff.1 h
          cases same
          obtain ⟨ws, rest, rfl, others, areMeant⟩ := ih more
          exact ⟨w :: ws, rest, rfl, .more spelled comma others, .cons isMeant areMeant⟩
        next =>
          split at h
          next ends =>
            subst ends
            cases h
            obtain ⟨rest, rfl, ends⟩ := exists_of_skipBlank closing.alone start
            exact ⟨[w], rest, rfl, .last spelled ends, .cons isMeant .nil⟩
          · cases h
      · cases h

theorem itemsUpTo_complete (each : Reading n item R means) (closing : IsClosing close c)
    (shrinks : ∀ w, ShrinksOn R w) {ws : List ω} {cs rest : List Char}
    (h : Items R c ws cs rest) {as : List α} (areMeant : List.Forall₂ means ws as)
    (size : cs.length ≤ n) {m : Nat} (room : ws.length ≤ m) :
    itemsUpTo item close m (octets cs) = some (as, octets rest) := by
  induction h generalizing as m with
  | last first ends =>
    obtain ⟨m, rfl⟩ := Nat.exists_eq_add_one.2 room
    obtain _ | ⟨isMeant, _ | _⟩ := areMeant
    rw [itemsUpTo, each.complete size first isMeant (ends.free (free_cons closing.stops _))]
    simp only [skipBlank_of_mark closing.toIsMark ends, if_neg closing.other, if_true]
  | more first comma others ih =>
    obtain _ | ⟨isMeant, areMeant⟩ := areMeant
    have shorter := shrinks _ first
    have next := comma.length_le
    obtain ⟨m, rfl⟩ := Nat.exists_eq_add_one.2 (Nat.zero_lt_of_lt room)
    rw [itemsUpTo, each.complete size first isMeant (comma.free (free_cons rfl _))]
    simp only [skipBlank_of_mark isMark_comma comma, if_true]
    rw [List.length_cons] at next
    rw [ih areMeant (by omega) (Nat.le_of_succ_le_succ room)]
    rfl

/-- A list is read as its items are. -/
theorem reading_listUpTo (each : Reading n item R means) (closing : IsClosing close c)
    (shuns : Shuns item close) (shrinks : ∀ w, ShrinksOn R w) :
    Reading n (listUpTo item close) (Listed R c) (List.Forall₂ means) where
  sound := by
    intro cs as left h
    rw [listUpTo] at h
    split at h
    next closed =>
      cases h
      obtain ⟨rest, rfl, ends⟩ := (expect_eq_some_iff closing.toIsMark).1 closed
      exact ⟨[], rest, rfl, .none ends, .nil⟩
    · obtain ⟨ws, rest, rfl, items, areMeant⟩ := itemsUpTo_sound each closing h
      exact ⟨ws, rest, rfl, .some items, areMeant⟩
  complete := by
    intro ws as cs rest size listed areMeant _
    rw [listUpTo]
    cases listed with
    | none ends =>
      cases areMeant
      rw [(expect_eq_some_iff closing.toIsMark).2 ⟨rest, rfl, ends⟩]
    | some items =>
      have room : ws.length ≤ (octets cs).length := by
        have fewer := items.length_add_lt fun w _ => shrinks w
        have octets := length_le_octets cs
        omega
      have whole := itemsUpTo_complete each closing shrinks items areMeant size room
      rw [shuns.expect_eq_none whole]
      exact whole

end Lists

/-! ## Texts and members -/

/-- A value whose meaning is a text: quoted, and no half of a surrogate pair in it. -/
def IsText (t : Tree) (s : String) : Prop := ∃ ps, t = .text ps ∧ Denotes ps s.toList

theorem reading_quoted (n : Nat) : Reading n quoted (Led Spelled) IsText where
  sound := by
    intro cs s left h
    obtain ⟨ps, inside, rest, rfl, opens, parts, denotes⟩ := quoted_eq_some_iff.1 h
    exact ⟨.text ps, rest, rfl, ⟨opens, .text parts⟩, ps, rfl, denotes⟩
  complete := by
    rintro _ s cs rest _ ⟨opens, spelled⟩ ⟨ps, rfl, denotes⟩ _
    cases spelled with
    | text parts => exact quoted_eq_some_iff.2 ⟨ps, _, rest, rfl, opens, parts, denotes⟩

/-- A name as the first reader has it, a colon, and what follows as the second reader has it. -/
def headed {κ : Type} (name : Reader κ) (value : κ → Reader α) : Reader α := fun bs =>
  match name bs with
  | none => none
  | some (k, rest) =>
    match expect 0x3A rest with
    | none => none
    | some (_, rest) => value k rest

section Members

variable {n : Nat} {R : Rule ω}

theorem reading_headed {κ : Type} {name : Reader κ} {value : κ → Reader α}
    {denotes : List Piece → κ → Prop} {means : κ → ω → α → Prop}
    (names : ∀ cs k left, name (octets cs) = some (k, left) ↔ ∃ ps inside rest,
      left = octets rest ∧ Blanks cs ('"' :: inside) ∧ Parts ps inside ('"' :: rest) ∧ denotes ps k)
    (each : ∀ k, Reading n (value k) R (means k)) :
    Reading n (headed name value) (Named R) fun m a => ∃ k, denotes m.1 k ∧ means k m.2 a where
  sound := by
    intro cs a left h
    rw [headed] at h
    split at h
    · cases h
    next k _ read =>
      obtain ⟨ps, inside, mid, rfl, opens, parts, isName⟩ := (names ..).1 read
      split at h
      · cases h
      next passed =>
        obtain ⟨start, rfl, colon⟩ := (expect_eq_some_iff isMark_colon).1 passed
        obtain ⟨w, rest, rfl, spelled, isMeant⟩ := (each k).sound h
        exact ⟨(ps, w), rest, rfl, ⟨opens, parts, colon, spelled⟩, k, isName, isMeant⟩
  complete := by
    rintro _ a cs rest size ⟨opens, parts, colon, spelled⟩ ⟨k, isName, isMeant⟩ free
    have shorter : _ ≤ n := Nat.le_trans (Nat.le_trans (Nat.le_of_lt colon.length_le)
      (Nat.le_trans (Nat.le_of_lt parts.length_le) (Nat.le_of_lt opens.length_le))) size
    rw [headed, (names ..).2 ⟨_, _, _, rfl, opens, parts, isName⟩]
    simp only [(expect_eq_some_iff isMark_colon).2 ⟨_, rfl, colon⟩]
    exact (each k).complete shorter spelled isMeant free

/-- A member is read by its name and its value. -/
theorem reading_member {value : String → Reader α} {means : String → ω → α → Prop}
    (each : ∀ name, Reading n (value name) R (means name)) :
    Reading n (member value) (Named R)
      fun m a => ∃ name : String, Denotes m.1 name.toList ∧ means name m.2 a := by
  refine (reading_headed (fun _ _ _ => quoted_eq_some_iff) each).congr (fun bs => ?_)
    fun _ _ => .rfl
  rw [member, headed]
  cases quoted bs with
  | none => rfl
  | some r => cases h : expect 0x3A r.2 <;> simp [h]

end Members

/-! ## Values that are passed over -/

/-- A member that is passed over if its value is. -/
def anyMember (value : Reader Unit) : Reader Unit := fun bs =>
  match anyQuoted bs with
  | none => none
  | some (_, rest) =>
    match expect 0x3A rest with
    | none => none
    | some (_, rest) => value rest

theorem reading_anyMember {n : Nat} {value : Reader Unit} {R : Rule ω}
    (each : Reading n value R fun _ _ => True) :
    Reading n (anyMember value) (Named R) fun _ _ => True := by
  refine (@reading_headed _ _ n R _ anyQuoted (fun _ => value) (fun _ _ => True) _
    (fun cs _ left => ?_) fun _ => each).congr (fun bs => ?_) (by simp)
  · rw [anyQuoted_eq_some_iff]
    simp
  · rw [anyMember, headed]
    cases anyQuoted bs with
    | none => rfl
    | some r => cases h : expect 0x3A r.2 <;> simp [h]

theorem shuns_anyMember (value : Reader Unit) : Shuns (anyMember value) 0x7D := by
  intro bs rest h
  rw [anyMember, anyQuoted, expect, h]
  rfl

/-- The list is passed over, whatever its items are. -/
theorem reading_skipList {n : Nat} {item : Reader Unit} {R : Rule ω} {close : UInt8} {c : Char}
    (each : Reading n item R fun _ _ => True) (closing : IsClosing close c)
    (shuns : Shuns item close) (shrinks : ∀ w, ShrinksOn R w) :
    Reading n (fun bs => (listUpTo item close bs).map fun (_, left) => ((), left)) (Listed R c)
      fun _ _ => True := by
  refine ((reading_listUpTo each closing shuns shrinks).map fun _ => ()).congr (fun _ => rfl)
    fun ws _ => iff_of_true trivial ⟨ws.map fun _ => (), ?_, rfl⟩
  exact List.forall₂_map_right_iff.2 (List.forall₂_same.2 fun _ _ => trivial)

theorem shuns_skip (n : Nat) : Shuns (skip n) 0x5D := by
  intro bs rest h
  cases n with
  | zero => rfl
  | succ n =>
    rw [skip, h]
    rfl

theorem skip_number {n : Nat} {bs rest : Bytes} {b : UInt8} (start : skipBlank bs = b :: rest)
    (other : b ∉ [0x6E, 0x74, 0x66, 0x22, 0x5B, 0x7B]) :
    skip (n + 1) bs = (numeral (b :: rest)).map fun (_, left) => ((), left) := by
  simp only [List.mem_cons, List.not_mem_nil, or_false, not_or] at other
  obtain ⟨null, yes, no, quote, bracket, brace⟩ := other
  rw [skip, start]
  simp only [if_neg null, if_neg yes, if_neg no, if_neg quote, if_neg bracket, if_neg brace]

section Skip

variable {n : Nat} (ih : Reading n (skip n) (Led Spelled) fun _ _ => True)
include ih

theorem reading_skipItems : Reading n
    (fun bs => (listUpTo (skip n) 0x5D bs).map fun (_, left) => ((), left))
    (Listed (Led Spelled) ']') fun _ _ => True :=
  reading_skipList ih isClosing_bracket (shuns_skip n) fun t => Led.shrinks (shrinksOn_spelled t)

theorem reading_skipMembers : Reading n
    (fun bs => (listUpTo (anyMember (skip n)) 0x7D bs).map fun (_, left) => ((), left))
    (Listed (Named (Led Spelled)) '\x7d') fun _ _ => True :=
  reading_skipList (reading_anyMember ih) isClosing_brace (shuns_anyMember _) fun m =>
    Named.shrinks (Led.shrinks (shrinksOn_spelled m.2))

theorem skip_sound {cs : List Char} {left : Bytes}
    (h : skip (n + 1) (octets cs) = some ((), left)) :
    ∃ t rest, left = octets rest ∧ Led Spelled t cs rest := by
  rw [skip] at h
  split at h
  · cases h
  next b bs start =>
    split at h
    next null =>
      subst null
      obtain ⟨more, rfl, blanks⟩ := exists_of_skipBlank (c := 'n') rfl start
      obtain ⟨rest, rfl, rfl⟩ := (literal_eq_some_iff "ull".toList rfl).1 h
      exact ⟨.null, rest, rfl, blanks, .null rest⟩
    split at h
    next yes =>
      subst yes
      obtain ⟨more, rfl, blanks⟩ := exists_of_skipBlank (c := 't') rfl start
      obtain ⟨rest, rfl, rfl⟩ := (literal_eq_some_iff "rue".toList rfl).1 h
      exact ⟨.bool true, rest, rfl, blanks, .yes rest⟩
    split at h
    next no =>
      subst no
      obtain ⟨more, rfl, blanks⟩ := exists_of_skipBlank (c := 'f') rfl start
      obtain ⟨rest, rfl, rfl⟩ := (literal_eq_some_iff "alse".toList rfl).1 h
      exact ⟨.bool false, rest, rfl, blanks, .no rest⟩
    split at h
    next quote =>
      subst quote
      obtain ⟨more, rfl, blanks⟩ := exists_of_skipBlank (c := '"') rfl start
      obtain ⟨_, passed, same⟩ := Option.map_eq_some_iff.1 ((anyQuoted_quote _).symm.trans h)
      cases same
      obtain ⟨ps, rest, rfl, parts⟩ := skipQuoted_sound passed
      exact ⟨.text ps, rest, rfl, blanks, .text parts⟩
    split at h
    next bracket =>
      subst bracket
      obtain ⟨more, rfl, blanks⟩ := exists_of_skipBlank (c := '[') rfl start
      obtain ⟨ts, rest, rfl, items, -⟩ := (reading_skipItems ih).sound h
      exact ⟨.array ts, rest, rfl, blanks, .array items⟩
    split at h
    next brace =>
      subst brace
      obtain ⟨more, rfl, blanks⟩ := exists_of_skipBlank (c := '\x7b') rfl start
      obtain ⟨ms, rest, rfl, members, -⟩ := (reading_skipMembers ih).sound h
      exact ⟨.object ms, rest, rfl, blanks, .object members⟩
    · rw [skipBlank_octets] at start
      rw [← start] at h
      obtain ⟨⟨_, _⟩, read, same⟩ := Option.map_eq_some_iff.1 h
      cases same
      obtain ⟨front, rest, whole, number, rfl⟩ := scans_numeral.sound read
      have blanks := blanks_dropWhile cs
      rw [whole] at blanks
      exact ⟨.number front, rest, rfl, blanks, .number number rest⟩

theorem skip_complete {t : Tree} {cs rest : List Char} (size : cs.length ≤ n + 1)
    (h : Led Spelled t cs rest) (free : Free goesOn rest) :
    skip (n + 1) (octets cs) = some ((), octets rest) := by
  obtain ⟨blanks, spelled⟩ := h
  have short := Nat.le_trans blanks.length_le size
  cases spelled with
  | null =>
    rw [skip, skipBlank_of_mark ⟨rfl, rfl⟩ blanks]
    exact (literal_eq_some_iff "ull".toList rfl).2 ⟨rest, rfl, rfl⟩
  | yes =>
    rw [skip, skipBlank_of_mark ⟨rfl, rfl⟩ blanks]
    exact (literal_eq_some_iff "rue".toList rfl).2 ⟨rest, rfl, rfl⟩
  | no =>
    rw [skip, skipBlank_of_mark ⟨rfl, rfl⟩ blanks]
    exact (literal_eq_some_iff "alse".toList rfl).2 ⟨rest, rfl, rfl⟩
  | number number =>
    obtain ⟨v, read⟩ := scans_numeral.complete number free
    obtain ⟨b, c, more, rfl, mark, other, -⟩ := number.front
    rw [List.cons_append] at blanks
    rw [List.cons_append, octets_cons_of_alone mark.alone] at read
    rw [skip_number (skipBlank_of_mark mark blanks) other, read]
    rfl
  | text parts =>
    rw [skip, skipBlank_of_mark ⟨rfl, rfl⟩ blanks]
    exact (anyQuoted_quote _).trans (by rw [skipQuoted_complete parts]; rfl)
  | array items =>
    rw [skip, skipBlank_of_mark ⟨rfl, rfl⟩ blanks]
    exact (reading_skipItems ih).complete (Nat.le_of_succ_le_succ short) items trivial free
  | object members =>
    rw [skip, skipBlank_of_mark ⟨rfl, rfl⟩ blanks]
    exact (reading_skipMembers ih).complete (Nat.le_of_succ_le_succ short) members trivial free

end Skip

/-- A value is passed over within the length of its text, whatever it is. -/
theorem reading_skip (n : Nat) : Reading n (skip n) (Led Spelled) fun _ _ => True := by
  induction n with
  | zero =>
    refine ⟨fun h => (by cases h), fun size h _ _ => ?_⟩
    exact absurd (Led.shrinks (shrinksOn_spelled _) h) (by omega)
  | succ n ih =>
    refine ⟨fun h => ?_, fun size h _ free => skip_complete ih size h free⟩
    obtain ⟨t, rest, rfl, spelled⟩ := skip_sound ih h
    exact ⟨t, rest, rfl, spelled, trivial⟩

/-- An ignored value may be any tree. -/
theorem reading_ignored (n : Nat) : Reading n ignored (Led Spelled) fun _ _ => True where
  sound h := (reading_skip _).sound h
  complete _ h isMeant free := (reading_skip _).complete (length_le_octets _) h isMeant free

/-! ## Arrays and objects -/

section Objects

variable {n : Nat}

/-- The names that members are given, and their values. -/
def NamedAs (ms : List (List Piece × Tree)) (named : List (String × Tree)) : Prop :=
  List.Forall₂ (fun m v => Denotes m.1 v.1.toList ∧ m.2 = v.2) ms named

/-- The values under a name, in order. -/
def valuesOf (name : String) (named : List (String × Tree)) : List Tree :=
  named.filterMap fun v => if v.1 = name then some v.2 else none

theorem mem_valuesOf {v : String × Tree} {named : List (String × Tree)} (h : v ∈ named) :
    v.2 ∈ valuesOf v.1 named :=
  List.mem_filterMap.2 ⟨v, h, if_pos rfl⟩

/-- A part that the members of a name give, all alike. -/
theorem filterMap_valuesOf {β : Type} (give : String → α) {part : α → Option β} {name : String}
    {b : β} (gives : ∀ other, part (give other) = if other = name then some b else none)
    (named : List (String × Tree)) :
    (named.map fun v => give v.1).filterMap part = (valuesOf name named).map fun _ => b := by
  rw [List.filterMap_map, valuesOf, List.map_filterMap]
  congr 1
  funext v
  rw [Function.comp, gives]
  split <;> rfl

theorem forall₂_singleton_iff {β : Type} {S : β → α → Prop} {bs : List β} {a : α} :
    List.Forall₂ S bs [a] ↔ ∃ b, bs = [b] ∧ S b a := by
  constructor
  · intro h
    obtain _ | ⟨first, _ | _⟩ := h
    exact ⟨_, rfl, first⟩
  · rintro ⟨b, rfl, first⟩
    exact .cons first .nil

theorem forall₂_named_iff {means : String → Tree → α → Prop} {ms : List (List Piece × Tree)}
    {as : List α} :
    List.Forall₂ (fun m a => ∃ name : String, Denotes m.1 name.toList ∧ means name m.2 a) ms as ↔
      ∃ named, NamedAs ms named ∧ List.Forall₂ (fun v a => means v.1 v.2 a) named as := by
  constructor
  · intro h
    induction h with
    | nil => exact ⟨[], .nil, .nil⟩
    | @cons m a _ _ first _ ih =>
      obtain ⟨name, denotes, isMeant⟩ := first
      obtain ⟨named, names, areMeant⟩ := ih
      exact ⟨(name, m.2) :: named, .cons ⟨denotes, rfl⟩ names, .cons isMeant areMeant⟩
  · rintro ⟨named, names, areMeant⟩
    induction names generalizing as with
    | nil =>
      cases areMeant
      exact .nil
    | cons first _ ih =>
      obtain _ | ⟨isMeant, areMeant⟩ := areMeant
      exact .cons ⟨_, first.1, first.2 ▸ isMeant⟩ (ih areMeant)

/-- An object whose members, by their names, are as the predicate says. -/
def IsObject (P : List (String × Tree) → α → Prop) (t : Tree) (a : α) : Prop :=
  ∃ ms, t = .object ms ∧ ∃ named, NamedAs ms named ∧ P named a

/-- The items of an array, of which the bracket has been read. -/
theorem reading_items {item : Reader α} {means : Tree → α → Prop}
    (each : Reading n item (Led Spelled) means) (shuns : Shuns item 0x5D) :
    Reading n (listUpTo item 0x5D) (Listed (Led Spelled) ']') (List.Forall₂ means) :=
  reading_listUpTo each isClosing_bracket shuns fun t => Led.shrinks (shrinksOn_spelled t)

/-- The members of an object, of which the brace has been read. -/
theorem reading_members {value : String → Reader α} {means : String → Tree → α → Prop}
    (each : ∀ name, Reading n (value name) (Led Spelled) (means name)) :
    Reading n (listUpTo (member value) 0x7D) (Listed (Named (Led Spelled)) '\x7d') fun ms as =>
      ∃ named, NamedAs ms named ∧ List.Forall₂ (fun v a => means v.1 v.2 a) named as :=
  (reading_listUpTo (reading_member each) isClosing_brace (shuns_member (by decide) value)
    fun m => Named.shrinks (Led.shrinks (shrinksOn_spelled m.2))).congr (fun _ => rfl)
    fun _ _ => forall₂_named_iff.symm

/-- An object, of which the brace has been read, whose members make up something. -/
theorem reading_object {β : Type} {value : String → Reader α} {means : String → Tree → α → Prop}
    (each : ∀ name, Reading n (value name) (Led Spelled) (means name)) (make : List α → Option β)
    {P : List (String × Tree) → β → Prop}
    (made : ∀ named b, (∃ as, List.Forall₂ (fun v a => means v.1 v.2 a) named as ∧
      make as = some b) ↔ P named b) :
    Reading n (fun bs => (listUpTo (member value) 0x7D bs).bind
        fun (as, left) => (make as).map (·, left))
      (Listed (Named (Led Spelled)) '\x7d') fun ms b => ∃ named, NamedAs ms named ∧ P named b := by
  refine ((reading_members each).filterMap make).congr (fun _ => rfl) fun ms b => ?_
  constructor
  · rintro ⟨named, names, isMade⟩
    obtain ⟨as, areMeant, same⟩ := (made named b).2 isMade
    exact ⟨as, ⟨named, names, areMeant⟩, same⟩
  · rintro ⟨as, ⟨named, names, areMeant⟩, same⟩
    exact ⟨named, names, (made named b).1 ⟨as, areMeant, same⟩⟩

/-- A reader that tells objects from arrays by their first mark. -/
theorem reading_either {reader object array : Reader α}
    (dispatch : ∀ bs, reader bs = match skipBlank bs with
      | b :: rest => if b = 0x7B then object rest else if b = 0x5B then array rest else none
      | [] => none)
    {P : List (List Piece × Tree) → α → Prop} {Q : List Tree → α → Prop}
    (objects : Reading n object (Listed (Named (Led Spelled)) '\x7d') P)
    (arrays : Reading n array (Listed (Led Spelled) ']') Q) :
    Reading n reader (Led Spelled) fun t a =>
      (∃ ms, t = .object ms ∧ P ms a) ∨ ∃ ts, t = .array ts ∧ Q ts a where
  sound := by
    intro cs a left h
    rw [dispatch] at h
    split at h
    next b bs start =>
      split at h
      next brace =>
        subst brace
        obtain ⟨more, rfl, blanks⟩ := exists_of_skipBlank (c := '\x7b') rfl start
        obtain ⟨ms, rest, rfl, members, isMeant⟩ := objects.sound h
        exact ⟨.object ms, rest, rfl, ⟨blanks, .object members⟩, .inl ⟨ms, rfl, isMeant⟩⟩
      split at h
      next bracket =>
        subst bracket
        obtain ⟨more, rfl, blanks⟩ := exists_of_skipBlank (c := '[') rfl start
        obtain ⟨ts, rest, rfl, items, isMeant⟩ := arrays.sound h
        exact ⟨.array ts, rest, rfl, ⟨blanks, .array items⟩, .inr ⟨ts, rfl, isMeant⟩⟩
      · cases h
    · cases h
  complete := by
    rintro t a cs rest size ⟨blanks, spelled⟩ isMeant free
    have short := Nat.le_trans blanks.length_le size
    rw [dispatch]
    rcases isMeant with ⟨ms, rfl, isMeant⟩ | ⟨ts, rfl, isMeant⟩
    · cases spelled with
      | object members =>
        rw [skipBlank_of_mark ⟨rfl, rfl⟩ blanks]
        exact objects.complete (Nat.le_of_succ_le short) members isMeant free
    · cases spelled with
      | array items =>
        rw [skipBlank_of_mark ⟨rfl, rfl⟩ blanks]
        exact arrays.complete (Nat.le_of_succ_le short) items isMeant free

end Objects

end Courier.Json
