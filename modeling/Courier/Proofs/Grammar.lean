import Courier.Proofs.Documents
import Mathlib.Data.List.TakeWhile

/-!
# The grammar of documents: blanks, marks and numbers

What is written is said of characters, and what is read is said of octets. A class of characters
below 128 is a class of octets (`SameClass`), so that runs of blanks and of digits are the same in
both (`dropWhile_octets`, `takeWhile_octets`). A reader scans a form if it takes that form off the
front, and the whole of it as long as nothing follows with which it may go on; so the reader of
numerals scans numbers (`scans_numeral`).
-/
namespace Courier

/-! ## Octets of characters -/

namespace Utf8

/-- The octets of characters. -/
def octets (cs : List Char) : Bytes := cs.flatMap String.utf8EncodeChar

@[simp] theorem octets_nil : octets [] = [] := rfl

theorem octets_cons (c : Char) (cs : List Char) :
    octets (c :: cs) = String.utf8EncodeChar c ++ octets cs := rfl

/-- A text that starts with the only octet of a character starts with that character. -/
theorem octets_eq_cons_iff {c : Char} {b : UInt8} (alone : String.utf8EncodeChar c = [b])
    {cs : List Char} {bs : Bytes} :
    octets cs = b :: bs ↔ ∃ rest, cs = c :: rest ∧ bs = octets rest := by
  constructor
  · intro h
    cases cs with
    | nil => cases h
    | cons d cs =>
      have same : decode (octets (d :: cs)) = decode (String.utf8EncodeChar c ++ bs) := by
        rw [h, alone]
        rfl
      rw [octets_cons, decode_encodeChar_append, decode_encodeChar_append] at same
      obtain rfl : d = c := Option.some.inj (List.cons.inj same).1
      rw [octets_cons, alone] at h
      exact ⟨cs, rfl, (List.cons.inj h).2.symm⟩
  · rintro ⟨rest, rfl, rfl⟩
    rw [octets_cons, alone]
    rfl

theorem octets_cons_of_alone {c : Char} {b : UInt8} (alone : String.utf8EncodeChar c = [b])
    (cs : List Char) : octets (c :: cs) = b :: octets cs :=
  (octets_eq_cons_iff alone).2 ⟨cs, rfl, rfl⟩

theorem octets_eq_nil_iff {cs : List Char} : octets cs = [] ↔ cs = [] := by
  cases cs with
  | nil => simp
  | cons c cs => simp [octets_cons, String.utf8EncodeChar_ne_nil]

/-- An octet below 128 is a character alone. -/
theorem alone_of_small : ∀ b : UInt8, b.toNat < 128 →
    String.utf8EncodeChar (Char.ofNat b.toNat) = [b] := by
  apply Percent.forall_octet
  decide +kernel

/-- A class of octets and a class of characters that are the same, all below 128. -/
structure SameClass (p : UInt8 → Bool) (q : Char → Bool) : Prop where
  octet : ∀ b, p b = true → b.toNat < 128 ∧ q (Char.ofNat b.toNat) = true
  char : ∀ c, q c = true → ∃ b, String.utf8EncodeChar c = [b] ∧ p b = true

section SameClass

variable {p : UInt8 → Bool} {q : Char → Bool}

/-- The first octet of a character is in the class exactly if the character is. -/
theorem SameClass.first (h : SameClass p q) {c : Char} {cs : List Char} {b : UInt8} {bs : Bytes}
    (first : octets (c :: cs) = b :: bs) : p b = q c ∧ (q c = true → bs = octets cs) := by
  by_cases among : q c = true
  · obtain ⟨b', alone, passes⟩ := h.char c among
    rw [octets_cons_of_alone alone] at first
    obtain ⟨rfl, rfl⟩ := List.cons.inj first
    exact ⟨passes.trans among.symm, fun _ => rfl⟩
  · refine ⟨?_, fun passes => absurd passes among⟩
    rw [Bool.not_eq_true] at among
    rw [among, Bool.eq_false_iff]
    intro passes
    obtain ⟨small, isIn⟩ := h.octet b passes
    obtain ⟨rest, same, -⟩ := (octets_eq_cons_iff (alone_of_small b small)).1 first
    rw [(List.cons.inj same).1, isIn] at among
    cases among

theorem dropWhile_octets (h : SameClass p q) (cs : List Char) :
    (octets cs).dropWhile p = octets (cs.dropWhile q) := by
  induction cs with
  | nil => rfl
  | cons c cs ih =>
    obtain ⟨b, bs, first⟩ :=
      List.exists_cons_of_ne_nil (octets_eq_nil_iff.not.2 (List.cons_ne_nil c cs))
    obtain ⟨same, rest⟩ := h.first first
    rw [List.dropWhile_cons, first, List.dropWhile_cons, same]
    split
    next passes => rw [rest passes, ih]
    · rw [first]

theorem takeWhile_octets (h : SameClass p q) (cs : List Char) :
    (octets cs).takeWhile p = octets (cs.takeWhile q) := by
  induction cs with
  | nil => rfl
  | cons c cs ih =>
    obtain ⟨b, bs, first⟩ :=
      List.exists_cons_of_ne_nil (octets_eq_nil_iff.not.2 (List.cons_ne_nil c cs))
    obtain ⟨same, rest⟩ := h.first first
    rw [List.takeWhile_cons, first, List.takeWhile_cons, same]
    split
    next passes =>
      obtain ⟨b', alone, -⟩ := h.char c passes
      rw [rest passes, ih, octets_cons_of_alone alone]
      rw [octets_cons_of_alone alone] at first
      rw [(List.cons.inj first).1]
    · rfl

end SameClass

end Utf8

namespace Json

open Utf8

/-! ## Blanks and marks -/

/-- Space, tab, line feed and carriage return. -/
def isBlankChar (c : Char) : Bool := c == ' ' || c == '\t' || c == '\n' || c == '\r'

/-- Blanks, perhaps none, from the first text up to the second. -/
inductive Blanks : List Char → List Char → Prop where
  | none (cs : List Char) : Blanks cs cs
  | more {c : Char} {cs rest : List Char} (blank : isBlankChar c = true) (h : Blanks cs rest) :
      Blanks (c :: cs) rest

theorem sameClass_blank : SameClass isBlank isBlankChar where
  octet := by
    apply Percent.forall_octet
    decide +kernel
  char := by
    intro c blank
    simp only [isBlankChar, Bool.or_eq_true, beq_iff_eq] at blank
    rcases blank with ((rfl | rfl) | rfl) | rfl <;> exact ⟨_, rfl, rfl⟩

theorem skipBlank_octets (cs : List Char) :
    skipBlank (octets cs) = octets (cs.dropWhile isBlankChar) := dropWhile_octets sameClass_blank cs

theorem blanks_dropWhile (cs : List Char) : Blanks cs (cs.dropWhile isBlankChar) := by
  induction cs with
  | nil => exact .none []
  | cons c cs ih =>
    rw [List.dropWhile_cons]
    split
    next blank => exact .more blank ih
    · exact .none _

theorem Blanks.dropWhile_eq {cs rest : List Char} (h : Blanks cs rest) :
    cs.dropWhile isBlankChar = rest.dropWhile isBlankChar := by
  induction h with
  | none => rfl
  | more blank _ ih => rw [List.dropWhile_cons, if_pos blank, ih]

/-- The octet is that of the character, which is no blank. -/
structure IsMark (b : UInt8) (c : Char) : Prop where
  alone : String.utf8EncodeChar c = [b]
  solid : isBlankChar c = false

theorem skipBlank_of_mark {b : UInt8} {c : Char} (mark : IsMark b c) {cs rest : List Char}
    (h : Blanks cs (c :: rest)) : skipBlank (octets cs) = b :: octets rest := by
  rw [skipBlank_octets, h.dropWhile_eq, List.dropWhile_cons, if_neg (by simp [mark.solid]),
    octets_cons_of_alone mark.alone]

/-- What starts with a mark after blanks. -/
theorem exists_of_skipBlank {b : UInt8} {c : Char} (alone : String.utf8EncodeChar c = [b])
    {cs : List Char} {bs : Bytes} (h : skipBlank (octets cs) = b :: bs) :
    ∃ rest, bs = octets rest ∧ Blanks cs (c :: rest) := by
  rw [skipBlank_octets] at h
  obtain ⟨rest, start, rfl⟩ := (octets_eq_cons_iff alone).1 h
  exact ⟨rest, rfl, start ▸ blanks_dropWhile cs⟩

theorem expect_eq_some_iff {b : UInt8} {c : Char} (mark : IsMark b c) {cs : List Char}
    {left : Bytes} : expect b (octets cs) = some ((), left) ↔
      ∃ rest, left = octets rest ∧ Blanks cs (c :: rest) := by
  constructor
  · intro h
    rw [expect] at h
    split at h
    next d bs start =>
      split at h
      next same =>
        subst same
        cases h
        exact exists_of_skipBlank mark.alone start
      · cases h
    · cases h
  · rintro ⟨rest, rfl, passed⟩
    rw [expect, skipBlank_of_mark mark passed]
    simp

/-- The octets of a keyword are read from a text that starts with it. -/
theorem literal_eq_some_iff (ks : List Char)
    (alone : (ks.all fun k => (String.utf8EncodeChar k).length == 1) = true) {cs : List Char}
    {left : Bytes} : literal (octets ks) (octets cs) = some ((), left) ↔
      ∃ rest, cs = ks ++ rest ∧ left = octets rest := by
  induction ks generalizing cs with
  | nil => simp [literal, eq_comm]
  | cons k ks ih =>
    rw [List.all_cons, Bool.and_eq_true, beq_iff_eq] at alone
    obtain ⟨b, one⟩ := List.length_eq_one_iff.1 alone.1
    have others := @ih alone.2
    rw [octets_cons_of_alone one]
    constructor
    · intro h
      generalize front : octets cs = bs at h
      cases bs with
      | nil => cases h
      | cons b' bs =>
        rw [literal] at h
        split at h
        next same =>
          subst same
          obtain ⟨cs, rfl, rfl⟩ := (octets_eq_cons_iff one).1 front
          obtain ⟨rest, rfl, rfl⟩ := others.1 h
          exact ⟨rest, rfl, rfl⟩
        · cases h
    · rintro ⟨rest, rfl, rfl⟩
      rw [List.cons_append, octets_cons_of_alone one, literal, if_pos rfl]
      exact others.2 ⟨rest, rfl, rfl⟩

/-! ## Numbers -/

/-- One digit or more. -/
structure IsDigits (ds : List Char) : Prop where
  some : ds ≠ []
  all : ∀ d ∈ ds, d.isDigit = true

/-- A nought, or digits that do not start with one. -/
def IsWhole (ds : List Char) : Prop := ds = ['0'] ∨ IsDigits ds ∧ ds.head? ≠ some '0'

/-- A point and digits, or nothing. -/
def IsFraction (cs : List Char) : Prop := cs = [] ∨ ∃ ds, cs = '.' :: ds ∧ IsDigits ds

/-- A plus or a minus sign, or nothing. -/
def IsSign (cs : List Char) : Prop := cs = [] ∨ cs = ['-'] ∨ cs = ['+']

/-- A letter, an optional sign and digits, or nothing. -/
def IsExponent (cs : List Char) : Prop :=
  cs = [] ∨ ∃ letter sign ds, cs = letter :: (sign ++ ds) ∧ (letter = 'e' ∨ letter = 'E') ∧
    IsSign sign ∧ IsDigits ds

/-- Digits, an optional fraction and an optional exponent. -/
inductive IsUnsigned : List Char → Prop where
  | mk {whole fraction exponent : List Char} (hw : IsWhole whole) (hf : IsFraction fraction)
      (he : IsExponent exponent) : IsUnsigned (whole ++ (fraction ++ exponent))

/-- A number with an optional minus sign. -/
inductive IsNumber : List Char → Prop where
  | positive {cs : List Char} (h : IsUnsigned cs) : IsNumber cs
  | negative {cs : List Char} (h : IsUnsigned cs) : IsNumber ('-' :: cs)

/-- The text does not start with a character of the class. -/
def Free (q : Char → Bool) (cs : List Char) : Prop := ∀ c ∈ cs.head?, q c = false

theorem free_nil (q : Char → Bool) : Free q [] := by
  intro c hc
  cases hc

theorem Free.mono {p q : Char → Bool} {cs : List Char} (h : Free q cs)
    (less : ∀ c, p c = true → q c = true) : Free p cs := by
  intro c hc
  have out := h c hc
  rw [Bool.eq_false_iff] at out ⊢
  exact fun isIn => out (less c isIn)

theorem Free.append {q : Char → Bool} {front rest : List Char} (h : Free q rest)
    (first : Free q front) : Free q (front ++ rest) := by
  cases front with
  | nil => exact h
  | cons c front => exact first

/-- The characters that a number may go on with. -/
def goesOn (c : Char) : Bool := c.isDigit || c == '.' || c == 'e' || c == 'E'

theorem goesOn_of_isDigit {c : Char} (h : c.isDigit = true) : goesOn c = true := by
  simp [goesOn, h]

theorem IsWhole.isDigits {cs : List Char} (h : IsWhole cs) : IsDigits cs := by
  rcases h with rfl | ⟨digits, -⟩
  · exact ⟨by simp, by simp⟩
  · exact digits

/-- A number without its sign starts with a digit. -/
theorem IsUnsigned.exists_cons {cs : List Char} (h : IsUnsigned cs) :
    ∃ d rest, cs = d :: rest ∧ d.isDigit = true := by
  obtain ⟨hw, -, -⟩ := h
  obtain ⟨d, ds, rfl⟩ := List.exists_cons_of_ne_nil hw.isDigits.some
  exact ⟨d, _, rfl, hw.isDigits.all d (List.mem_cons_self ..)⟩

theorem IsFraction.free {q : Char → Bool} {cs : List Char} (h : IsFraction cs)
    (point : q '.' = false) : Free q cs := by
  rcases h with rfl | ⟨ds, rfl, -⟩
  · exact free_nil q
  · rintro c ⟨⟩
    exact point

theorem IsExponent.free {q : Char → Bool} {cs : List Char} (h : IsExponent cs)
    (small : q 'e' = false) (large : q 'E' = false) : Free q cs := by
  rcases h with rfl | ⟨letter, sign, ds, rfl, rfl | rfl, -, -⟩
  · exact free_nil q
  · rintro c ⟨⟩
    exact small
  · rintro c ⟨⟩
    exact large

/-- The reader takes a form off the front, whole as long as none of the characters `more`
follows. -/
structure Scans {α : Type} (reader : Reader α) (form : List Char → Prop) (more : Char → Bool) :
    Prop where
  sound : ∀ {cs : List Char} {a : α} {left : Bytes}, reader (octets cs) = some (a, left) →
    ∃ front rest, cs = front ++ rest ∧ form front ∧ left = octets rest
  complete : ∀ {front rest : List Char}, form front → Free more rest →
    ∃ a, reader (octets (front ++ rest)) = some (a, octets rest)

theorem sameClass_digit : SameClass isDigit Char.isDigit where
  octet := by
    apply Percent.forall_octet
    decide +kernel
  char := by
    intro c digit
    have each : ∀ n : Fin 10,
        (String.utf8EncodeChar (Char.ofNat (48 + n))).map isDigit = [true] := by
      decide +kernel
    simp only [Char.isDigit, Bool.and_eq_true, decide_eq_true_eq, ge_iff_le,
      UInt32.le_iff_toNat_le] at digit
    have low : 48 ≤ c.toNat := digit.1
    have high : c.toNat ≤ 57 := digit.2
    have mark := each ⟨c.toNat - 48, by omega⟩
    rw [show 48 + (c.toNat - 48) = c.toNat by omega, Char.ofNat_toNat] at mark
    exact List.map_eq_singleton_iff.1 mark

theorem span_append {q : Char → Bool} {ds rest : List Char} (all : ∀ d ∈ ds, q d = true)
    (free : Free q rest) : (ds ++ rest).takeWhile q = ds ∧ (ds ++ rest).dropWhile q = rest := by
  rw [List.takeWhile_append_of_pos all, List.dropWhile_append_of_pos all]
  cases rest with
  | nil => simp
  | cons c rest =>
    have stop := free c rfl
    simp [stop]

/-- The digits on the front, as numbers. -/
def leading (cs : List Char) : List Nat :=
  (octets (cs.takeWhile Char.isDigit)).map fun b => b.toNat - 0x30

theorem digits_octets (cs : List Char) : digits (octets cs) =
    if cs.takeWhile Char.isDigit = [] then none
    else some (leading cs, octets (cs.dropWhile Char.isDigit)) := by
  simp only [digits, spanDigits, takeWhile_octets sameClass_digit,
    dropWhile_octets sameClass_digit, leading, List.isEmpty_iff, List.map_eq_nil_iff,
    octets_eq_nil_iff]

theorem scans_digits : Scans digits IsDigits Char.isDigit where
  sound := by
    intro cs a left h
    rw [digits_octets] at h
    split at h
    · cases h
    next some =>
      cases h
      exact ⟨cs.takeWhile Char.isDigit, cs.dropWhile Char.isDigit,
        List.takeWhile_append_dropWhile.symm,
        ⟨some, fun d hd => List.mem_takeWhile_imp hd⟩, rfl⟩
  complete := by
    intro front rest form free
    obtain ⟨taken, dropped⟩ := span_append form.all free
    exact ⟨_, by rw [digits_octets, taken, dropped, if_neg form.some]⟩

theorem leading_cons {c : Char} (digit : c.isDigit = true) (cs : List Char) :
    ∃ v, leading (c :: cs) = v :: leading cs ∧ (v = 0 ↔ c = '0') := by
  obtain ⟨b, alone, isDigit⟩ := sameClass_digit.char c digit
  refine ⟨b.toNat - 0x30, ?_, ?_, ?_⟩
  · rw [leading, List.takeWhile_cons_of_pos digit, octets_cons_of_alone alone]
    rfl
  · intro nought
    have low : 0x30 ≤ b.toNat := by
      simp only [Json.isDigit, Bool.and_eq_true, decide_eq_true_eq] at isDigit
      exact UInt8.le_iff_toNat_le.1 isDigit.1
    obtain rfl : b = 0x30 :=
      UInt8.toNat_inj.1 (Nat.le_antisymm (Nat.sub_eq_zero_iff_le.1 nought) low)
    have zero : String.utf8EncodeChar '0' = [0x30] := rfl
    obtain ⟨_, first, -⟩ := (octets_eq_cons_iff zero).1 (octets_cons_of_alone alone [])
    exact (List.cons.inj first).1
  · rintro rfl
    cases alone
    rfl

theorem leading_eq_nil_iff {cs : List Char} :
    leading cs = [] ↔ cs.takeWhile Char.isDigit = [] := by
  rw [leading, List.map_eq_nil_iff, octets_eq_nil_iff]

theorem wholeDigits_octets_cons {c : Char} (digit : c.isDigit = true) (cs : List Char) :
    wholeDigits (octets (c :: cs)) =
      if c = '0' ∧ cs.takeWhile Char.isDigit ≠ [] then none
      else some (leading (c :: cs), octets (cs.dropWhile Char.isDigit)) := by
  obtain ⟨v, value, nought⟩ := leading_cons digit cs
  rw [wholeDigits, digits_octets, List.takeWhile_cons_of_pos digit, if_neg (List.cons_ne_nil _ _),
    List.dropWhile_cons_of_pos digit, value]
  simp only [ne_eq, ← leading_eq_nil_iff, ← nought]
  split
  next same =>
    simp only [Option.some.injEq, Prod.mk.injEq, List.cons.injEq] at same
    obtain ⟨⟨rfl, more⟩, -⟩ := same
    simp [more]
  next other =>
    rw [if_neg]
    rintro ⟨rfl, more⟩
    obtain ⟨d, ds, more⟩ := List.exists_cons_of_ne_nil more
    exact other d ds _ (by rw [more])

theorem scans_wholeDigits : Scans wholeDigits IsWhole Char.isDigit where
  sound := by
    intro cs a left h
    cases cs with
    | nil => cases h
    | cons c cs =>
      by_cases digit : c.isDigit = true
      · rw [wholeDigits_octets_cons digit] at h
        split at h
        · cases h
        next single =>
          cases h
          refine ⟨c :: cs.takeWhile Char.isDigit, cs.dropWhile Char.isDigit, by simp, ?_, rfl⟩
          by_cases nought : c = '0'
          · have alone : cs.takeWhile Char.isDigit = [] := by
              by_contra more
              exact single ⟨nought, more⟩
            exact .inl (by rw [nought, alone])
          · refine .inr ⟨⟨List.cons_ne_nil _ _, ?_⟩, by simpa using nought⟩
            rintro d hd
            rcases List.mem_cons.1 hd with rfl | hd
            · exact digit
            · exact List.mem_takeWhile_imp hd
      · rw [wholeDigits, digits_octets, List.takeWhile_cons_of_neg digit, if_pos rfl] at h
        cases h
  complete := by
    intro front rest form free
    obtain ⟨c, cs, rfl, digits, single⟩ : ∃ c cs, front = c :: cs ∧ IsDigits (c :: cs) ∧
        (c = '0' → cs = []) := by
      rcases form with rfl | ⟨digits, other⟩
      · exact ⟨'0', [], rfl, IsWhole.isDigits (.inl rfl), fun _ => rfl⟩
      · obtain ⟨c, cs, rfl⟩ := List.exists_cons_of_ne_nil digits.some
        exact ⟨c, cs, rfl, digits, fun same => absurd (by rw [same]; rfl) other⟩
    obtain ⟨taken, dropped⟩ :=
      span_append (fun d hd => digits.all d (List.mem_cons_of_mem c hd)) free
    have digit := digits.all c (List.mem_cons_self ..)
    refine ⟨leading (c :: (cs ++ rest)), ?_⟩
    rw [List.cons_append, wholeDigits_octets_cons digit, taken, dropped,
      if_neg fun ⟨nought, more⟩ => more (single nought)]

theorem scans_fraction : Scans fraction IsFraction fun c => c.isDigit || c == '.' where
  sound := by
    intro cs a left h
    unfold fraction at h
    split at h
    next bs point =>
      obtain ⟨rest, rfl, rfl⟩ := (octets_eq_cons_iff (c := '.') rfl).1 point
      obtain ⟨⟨ds, rest'⟩, read, same⟩ := Option.map_eq_some_iff.1 h
      cases same
      obtain ⟨front, rest, rfl, form, rfl⟩ := scans_digits.sound read
      exact ⟨'.' :: front, rest, rfl, .inr ⟨front, rfl, form⟩, rfl⟩
    · cases h
      exact ⟨[], cs, rfl, .inl rfl, rfl⟩
  complete := by
    intro front rest form free
    rcases form with rfl | ⟨ds, rfl, digits⟩
    · refine ⟨none, ?_⟩
      unfold fraction
      split
      next bs point =>
        obtain ⟨rest, rfl, rfl⟩ := (octets_eq_cons_iff (c := '.') rfl).1 point
        cases free '.' rfl
      · rfl
    · obtain ⟨a, read⟩ := scans_digits.complete digits fun c hc =>
        (Bool.or_eq_false_iff.1 (free c hc)).1
      refine ⟨some a, ?_⟩
      rw [List.cons_append, octets_cons_of_alone (b := 0x2E) rfl]
      simp only [fraction, read, Option.map_some]

/-- What starts with a digit starts with no other mark. -/
theorem octets_ne_of_isDigit (mark : Char) {b : UInt8} (alone : String.utf8EncodeChar mark = [b])
    (other : mark.isDigit = false) {c : Char} (digit : c.isDigit = true) (cs : List Char)
    (bs : Bytes) : octets (c :: cs) ≠ b :: bs := by
  intro start
  obtain ⟨_, same, -⟩ := (octets_eq_cons_iff alone).1 start
  rw [(List.cons.inj same).1, other] at digit
  cases digit

/-- Digits with an optional sign. -/
def signedDigits : Reader Int := fun bs =>
  match bs with
  | 0x2D :: rest => (digits rest).map fun (ds, rest) => (-(ofDigits ds : Int), rest)
  | 0x2B :: rest => (digits rest).map fun (ds, rest) => ((ofDigits ds : Int), rest)
  | rest => (digits rest).map fun (ds, rest) => ((ofDigits ds : Int), rest)

theorem scans_signedDigits : Scans signedDigits
    (fun cs => ∃ sign ds, cs = sign ++ ds ∧ IsSign sign ∧ IsDigits ds) Char.isDigit where
  sound := by
    intro cs a left h
    -- After the sign, what is left of the digits.
    have ends : ∀ {sign more : List Char} {v : List Nat}, IsSign sign →
        digits (octets more) = some (v, left) → ∃ front rest, sign ++ more = front ++ rest ∧
          (∃ sign ds, front = sign ++ ds ∧ IsSign sign ∧ IsDigits ds) ∧ left = octets rest := by
      intro sign more v hs read
      obtain ⟨ds, rest, rfl, form, rfl⟩ := scans_digits.sound read
      exact ⟨sign ++ ds, rest, (List.append_assoc ..).symm, ⟨sign, ds, rfl, hs, form⟩, rfl⟩
    unfold signedDigits at h
    split at h <;> obtain ⟨⟨ds, _⟩, read, same⟩ := Option.map_eq_some_iff.1 h <;> cases same
    next minus =>
      obtain ⟨more, rfl, rfl⟩ := (octets_eq_cons_iff (c := '-') rfl).1 minus
      exact ends (.inr (.inl rfl)) read
    next plus =>
      obtain ⟨more, rfl, rfl⟩ := (octets_eq_cons_iff (c := '+') rfl).1 plus
      exact ends (.inr (.inr rfl)) read
    next => exact ends (.inl rfl) read
  complete := by
    rintro _ rest ⟨sign, ds, rfl, hs, form⟩ free
    obtain ⟨v, read⟩ := scans_digits.complete form free
    rcases hs with rfl | rfl | rfl
    · refine ⟨ofDigits v, ?_⟩
      obtain ⟨d, ds, rfl⟩ := List.exists_cons_of_ne_nil form.some
      have digit := form.all d (List.mem_cons_self ..)
      rw [List.nil_append]
      unfold signedDigits
      split
      next minus => exact absurd minus (octets_ne_of_isDigit '-' rfl rfl digit _ _)
      next plus => exact absurd plus (octets_ne_of_isDigit '+' rfl rfl digit _ _)
      · rw [read]
        rfl
    · refine ⟨-(ofDigits v : Int), ?_⟩
      rw [List.singleton_append, List.cons_append, octets_cons_of_alone (b := 0x2D) rfl]
      simp only [signedDigits, read, Option.map_some]
    · refine ⟨ofDigits v, ?_⟩
      rw [List.singleton_append, List.cons_append, octets_cons_of_alone (b := 0x2B) rfl]
      simp only [signedDigits, read, Option.map_some]

theorem exponent_of_letter {b : UInt8} (isLetter : b = 0x65 ∨ b = 0x45) (bs : Bytes) :
    exponent (b :: bs) = (signedDigits bs).map fun (v, left) => (some v, left) := by
  simp only [exponent, if_pos isLetter]
  split <;> simp only [signedDigits, Option.map_map, *] <;> rfl

theorem exponent_octets_cons (c : Char) (cs : List Char) :
    exponent (octets (c :: cs)) =
      if c = 'e' ∨ c = 'E' then (signedDigits (octets cs)).map fun (v, left) => (some v, left)
      else some (none, octets (c :: cs)) := by
  split
  next isLetter =>
    rcases isLetter with rfl | rfl
    · rw [octets_cons_of_alone (b := 0x65) rfl, exponent_of_letter (.inl rfl)]
    · rw [octets_cons_of_alone (b := 0x45) rfl, exponent_of_letter (.inr rfl)]
  next other =>
    unfold exponent
    split
    next b bs start =>
      refine if_neg ?_
      rintro (rfl | rfl)
      · obtain ⟨_, same, -⟩ := (octets_eq_cons_iff (c := 'e') rfl).1 start
        exact other (.inl (List.cons.inj same).1)
      · obtain ⟨_, same, -⟩ := (octets_eq_cons_iff (c := 'E') rfl).1 start
        exact other (.inr (List.cons.inj same).1)
    · rfl

theorem scans_exponent : Scans exponent IsExponent goesOn where
  sound := by
    intro cs a left h
    cases cs with
    | nil =>
      cases h
      exact ⟨[], [], rfl, .inl rfl, rfl⟩
    | cons c cs =>
      rw [exponent_octets_cons] at h
      split at h
      next isLetter =>
        obtain ⟨⟨v, _⟩, read, same⟩ := Option.map_eq_some_iff.1 h
        cases same
        obtain ⟨_, rest, rfl, ⟨sign, ds, rfl, hs, form⟩, rfl⟩ := scans_signedDigits.sound read
        exact ⟨c :: (sign ++ ds), rest, rfl, .inr ⟨c, sign, ds, rfl, isLetter, hs, form⟩, rfl⟩
      · cases h
        exact ⟨[], c :: cs, rfl, .inl rfl, rfl⟩
  complete := by
    intro front rest form free
    rcases form with rfl | ⟨letter, sign, ds, rfl, isLetter, hs, form⟩
    · refine ⟨none, ?_⟩
      cases rest with
      | nil => rfl
      | cons c rest =>
        rw [List.nil_append, exponent_octets_cons, if_neg]
        rintro (rfl | rfl)
        · cases free 'e' rfl
        · cases free 'E' rfl
    · obtain ⟨v, read⟩ := scans_signedDigits.complete ⟨sign, ds, rfl, hs, form⟩
        (free.mono fun c => goesOn_of_isDigit)
      refine ⟨some v, ?_⟩
      rw [List.cons_append, exponent_octets_cons, if_pos isLetter, read]
      rfl

/-- A number, of which the sign has been read. -/
def unsigned (negative : Bool) : Reader Numeral := fun bs =>
  match wholeDigits bs with
  | none => none
  | some (whole, bs) =>
    match fraction bs with
    | none => none
    | some (fraction, bs) =>
      (exponent bs).map fun (exponent, bs) => (⟨negative, whole, fraction, exponent⟩, bs)

theorem numeral_eq (bs : Bytes) : numeral bs =
    match bs with
    | 0x2D :: rest => unsigned true rest
    | _ => unsigned false bs := by
  have after : numeral bs =
      let p := match bs with
        | 0x2D :: rest => (true, rest)
        | _ => (false, bs)
      unsigned p.1 p.2 := rfl
  rw [after]
  dsimp only
  split <;> rfl

theorem scans_unsigned (negative : Bool) : Scans (unsigned negative) IsUnsigned goesOn where
  sound := by
    intro cs t left h
    rw [unsigned] at h
    split at h
    · cases h
    next whole bs readWhole =>
      obtain ⟨ws, start, rfl, hw, rfl⟩ := scans_wholeDigits.sound readWhole
      split at h
      · cases h
      next fraction bs readFraction =>
        obtain ⟨fs, start, rfl, hf, rfl⟩ := scans_fraction.sound readFraction
        obtain ⟨⟨exponent, _⟩, readExponent, same⟩ := Option.map_eq_some_iff.1 h
        cases same
        obtain ⟨es, rest, rfl, he, rfl⟩ := scans_exponent.sound readExponent
        exact ⟨ws ++ (fs ++ es), rest, by simp, ⟨hw, hf, he⟩, rfl⟩
  complete := by
    intro front rest form free
    obtain ⟨hw, hf, he⟩ := form
    have afterFraction := (free.mono (p := fun c => c.isDigit || c == '.') fun c more => by
      simp only [goesOn, more, Bool.true_or]).append (he.free rfl rfl)
    have afterWhole := ((free.mono fun c => goesOn_of_isDigit).append (he.free rfl rfl)).append
      (hf.free rfl)
    obtain ⟨whole, readWhole⟩ := scans_wholeDigits.complete hw afterWhole
    obtain ⟨fraction, readFraction⟩ := scans_fraction.complete hf afterFraction
    obtain ⟨exponent, readExponent⟩ := scans_exponent.complete he free
    refine ⟨⟨negative, whole, fraction, exponent⟩, ?_⟩
    simp only [unsigned, List.append_assoc, readWhole, readFraction, readExponent, Option.map_some]

theorem scans_numeral : Scans numeral IsNumber goesOn where
  sound := by
    intro cs t left h
    rw [numeral_eq] at h
    split at h
    next minus =>
      obtain ⟨more, rfl, rfl⟩ := (octets_eq_cons_iff (c := '-') rfl).1 minus
      obtain ⟨front, rest, rfl, form, rfl⟩ := (scans_unsigned true).sound h
      exact ⟨'-' :: front, rest, rfl, .negative form, rfl⟩
    · obtain ⟨front, rest, rfl, form, rfl⟩ := (scans_unsigned false).sound h
      exact ⟨front, rest, rfl, .positive form, rfl⟩
  complete := by
    intro front rest form free
    cases form with
    | positive form =>
      obtain ⟨t, read⟩ := (scans_unsigned false).complete form free
      refine ⟨t, ?_⟩
      rw [numeral_eq]
      split
      next minus =>
        obtain ⟨d, ds, rfl, digit⟩ := form.exists_cons
        exact absurd minus (octets_ne_of_isDigit '-' rfl rfl digit _ _)
      · exact read
    | @negative front form =>
      obtain ⟨t, read⟩ := (scans_unsigned true).complete form free
      refine ⟨t, ?_⟩
      rw [List.cons_append, octets_cons_of_alone (b := 0x2D) rfl, numeral_eq]
      exact read

end Json

end Courier
