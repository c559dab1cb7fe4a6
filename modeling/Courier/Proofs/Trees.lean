import Courier.Proofs.Quotation

/-!
# Documents as trees

The grammar of documents says which tree a text spells from its front, and what is left after it.
Nothing is lost in a tree: members keep their order and may share a name, and texts keep the parts
they are written with. What is proved of all trees is proved by `Tree.induction`.
-/
namespace Courier.Json

open Utf8

/-- A value as it is written. -/
inductive Tree where
  | null
  | bool (b : Bool)
  | number (written : List Char)
  | text (parts : List Piece)
  | array (items : List Tree)
  | object (members : List (List Piece × Tree))

/-- What holds of a tree as soon as it holds of its items, or of the values of its members, holds of
every tree. -/
@[induction_eliminator]
theorem Tree.induction {motive : Tree → Prop} (null : motive .null) (bool : ∀ b, motive (.bool b))
    (number : ∀ cs, motive (.number cs)) (text : ∀ ps, motive (.text ps))
    (array : ∀ ts, (∀ t ∈ ts, motive t) → motive (.array ts))
    (object : ∀ ms : List (List Piece × Tree), (∀ m ∈ ms, motive m.2) → motive (.object ms)) :
    ∀ t, motive t
  | .null => null
  | .bool b => bool b
  | .number cs => number cs
  | .text ps => text ps
  | .array ts => array ts fun t _ => Tree.induction null bool number text array object t
  | .object ms =>
    object ms fun (_, t) _ => Tree.induction null bool number text array object t
termination_by t => t
decreasing_by
  · have inside := List.sizeOf_lt_of_mem ‹_›
    simp only [Tree.array.sizeOf_spec]
    omega
  · have inside := List.sizeOf_lt_of_mem ‹_›
    simp only [Tree.object.sizeOf_spec, Prod.mk.sizeOf_spec] at inside ⊢
    omega

/-- A rule of the grammar: what a text starts with, and what is left after it. -/
abbrev Rule (ω : Type) := ω → List Char → List Char → Prop

variable {ω : Type}

/-! ## The grammar -/

/-- Blanks, perhaps none, before what the rule says. -/
inductive Led (R : Rule ω) : Rule ω where
  | mk {w : ω} {cs start rest : List Char} (blanks : Blanks cs start) (h : R w start rest) :
      Led R w cs rest

/-- One item or more with commas between them, and the closing mark. -/
inductive Items (R : Rule ω) (close : Char) : Rule (List ω) where
  | last {w : ω} {cs mid rest : List Char} (h : R w cs mid) (ends : Blanks mid (close :: rest)) :
      Items R close [w] cs rest
  | more {w : ω} {ws : List ω} {cs mid next rest : List Char} (h : R w cs mid)
      (comma : Blanks mid (',' :: next)) (others : Items R close ws next rest) :
      Items R close (w :: ws) cs rest

/-- Items, perhaps none, up to the closing mark. -/
inductive Listed (R : Rule ω) (close : Char) : Rule (List ω) where
  | none {cs rest : List Char} (ends : Blanks cs (close :: rest)) : Listed R close [] cs rest
  | some {ws : List ω} {cs rest : List Char} (h : Items R close ws cs rest) :
      Listed R close ws cs rest

/-- A quoted name, a colon and what follows it. -/
inductive Named (R : Rule ω) : Rule (List Piece × ω) where
  | mk {ps : List Piece} {w : ω} {cs inside mid start rest : List Char}
      (opens : Blanks cs ('"' :: inside)) (name : Parts ps inside ('"' :: mid))
      (colon : Blanks mid (':' :: start)) (h : R w start rest) : Named R (ps, w) cs rest

/-- A value, from the first text up to the second. -/
inductive Spelled : Rule Tree where
  | null (rest : List Char) : Spelled .null ('n' :: 'u' :: 'l' :: 'l' :: rest) rest
  | yes (rest : List Char) : Spelled (.bool true) ('t' :: 'r' :: 'u' :: 'e' :: rest) rest
  | no (rest : List Char) : Spelled (.bool false) ('f' :: 'a' :: 'l' :: 's' :: 'e' :: rest) rest
  | number {cs : List Char} (h : IsNumber cs) (rest : List Char) :
      Spelled (.number cs) (cs ++ rest) rest
  | text {ps : List Piece} {cs rest : List Char} (h : Parts ps cs ('"' :: rest)) :
      Spelled (.text ps) ('"' :: cs) rest
  | array {ts : List Tree} {cs rest : List Char} (h : Listed (Led Spelled) ']' ts cs rest) :
      Spelled (.array ts) ('[' :: cs) rest
  | object {ms : List (List Piece × Tree)} {cs rest : List Char}
      (h : Listed (Named (Led Spelled)) '\x7d' ms cs rest) :
      Spelled (.object ms) ('\x7b' :: cs) rest

/-- The text is a document: a value with nothing but blanks around it. -/
def Document (t : Tree) (text : String) : Prop :=
  ∃ rest, Led Spelled t text.toList rest ∧ Blanks rest []

/-! ## Lengths -/

/-- What the rule spells for these is not empty. -/
def ShrinksOn (R : Rule ω) (w : ω) : Prop := ∀ {cs rest}, R w cs rest → rest.length < cs.length

theorem Blanks.length_le {cs rest : List Char} (h : Blanks cs rest) : rest.length ≤ cs.length := by
  induction h with
  | none => exact Nat.le_refl _
  | more _ _ ih => exact Nat.le_succ_of_le ih

theorem IsNumber.exists_cons {cs : List Char} (h : IsNumber cs) :
    ∃ c rest, cs = c :: rest ∧ (c = '-' ∨ c.isDigit = true) := by
  cases h with
  | positive h =>
    obtain ⟨d, ds, rfl, digit⟩ := h.exists_cons
    exact ⟨d, ds, rfl, .inr digit⟩
  | negative => exact ⟨'-', _, rfl, .inl rfl⟩

section Lengths

variable {R : Rule ω}

theorem Led.shrinks {w : ω} (h : ShrinksOn R w) : ShrinksOn (Led R) w := by
  rintro _ _ ⟨blanks, spelled⟩
  exact Nat.lt_of_lt_of_le (h spelled) blanks.length_le

theorem Named.shrinks {m : List Piece × ω} (h : ShrinksOn R m.2) : ShrinksOn (Named R) m := by
  rintro _ _ ⟨opens, name, colon, spelled⟩
  have value := h spelled
  have opens := opens.length_le
  have name := name.length_le
  have colon := colon.length_le
  simp only [List.length_cons] at opens name colon
  omega

/-- Each item takes a character at least, if only its comma. -/
theorem Items.length_add_lt {close : Char} {ws : List ω} {cs rest : List Char}
    (h : Items R close ws cs rest) (each : ∀ w ∈ ws, ShrinksOn R w) :
    rest.length + ws.length < cs.length := by
  induction h with
  | last first ends =>
    have item := each _ (List.mem_cons_self ..) first
    have ends := ends.length_le
    simp only [List.length_cons, List.length_nil] at ends ⊢
    omega
  | more first comma _ ih =>
    have item := each _ (List.mem_cons_self ..) first
    have comma := comma.length_le
    have others := ih fun w hw => each w (List.mem_cons_of_mem _ hw)
    simp only [List.length_cons] at comma ⊢
    omega

theorem Listed.length_lt {close : Char} {ws : List ω} {cs rest : List Char}
    (h : Listed R close ws cs rest) (each : ∀ w ∈ ws, ShrinksOn R w) :
    rest.length < cs.length := by
  cases h with
  | none ends => exact Nat.lt_of_succ_le ends.length_le
  | some h => exact Nat.lt_of_le_of_lt (Nat.le_add_right ..) (h.length_add_lt each)

end Lengths

/-- A value takes a character at least. -/
theorem shrinksOn_spelled (t : Tree) : ShrinksOn Spelled t := by
  intro cs rest h
  induction t generalizing cs rest with
  | null | bool =>
    cases h <;> simp only [List.length_cons] <;> omega
  | number =>
    cases h with
    | number number =>
      obtain ⟨c, ds, rfl, -⟩ := number.exists_cons
      simp only [List.length_append, List.length_cons]
      omega
  | text =>
    cases h with
    | text parts => exact Nat.lt_succ_of_lt (Nat.lt_of_succ_le parts.length_le)
  | array ts ih =>
    cases h with
    | array items => exact Nat.lt_succ_of_lt (items.length_lt fun t ht => Led.shrinks (ih t ht))
  | object ms ih =>
    cases h with
    | object members =>
      exact Nat.lt_succ_of_lt (members.length_lt fun m hm => Named.shrinks (Led.shrinks (ih m hm)))

/-! ## Marks -/

theorem Blanks.free {cs rest : List Char} (h : Blanks cs rest) (free : Free goesOn rest) :
    Free goesOn cs := by
  cases h with
  | none => exact free
  | more blank _ =>
    rintro c ⟨⟩
    simp only [isBlankChar, Bool.or_eq_true, beq_iff_eq] at blank
    rcases blank with ((rfl | rfl) | rfl) | rfl <;> rfl

theorem free_cons {c : Char} (stops : goesOn c = false) (rest : List Char) :
    Free goesOn (c :: rest) := by
  rintro _ ⟨⟩
  exact stops

theorem isMark_comma : IsMark 0x2C ',' := ⟨rfl, rfl⟩

theorem isMark_colon : IsMark 0x3A ':' := ⟨rfl, rfl⟩

theorem isMark_bracket : IsMark 0x5B '[' := ⟨rfl, rfl⟩

/-- A mark that closes a list and no number goes on with. -/
structure IsClosing (b : UInt8) (c : Char) : Prop extends IsMark b c where
  other : b ≠ 0x2C
  stops : goesOn c = false

theorem isClosing_bracket : IsClosing 0x5D ']' := ⟨⟨rfl, rfl⟩, by decide, rfl⟩

theorem isClosing_brace : IsClosing 0x7D '\x7d' := ⟨⟨rfl, rfl⟩, by decide, rfl⟩

/-- A number does not start with a blank, nor with a mark of the other values. -/
theorem IsNumber.front {cs : List Char} (h : IsNumber cs) : ∃ b c more, cs = c :: more ∧
    IsMark b c ∧ b ∉ [0x6E, 0x74, 0x66, 0x22, 0x5B, 0x7B] ∧
    c ∉ ['n', 't', 'f', '"', '[', '\x7b', ']'] := by
  obtain ⟨c, more, rfl, rfl | digit⟩ := h.exists_cons
  · exact ⟨0x2D, '-', more, rfl, ⟨rfl, rfl⟩, by decide, by decide⟩
  · obtain ⟨b, alone, octet⟩ := sameClass_digit.char c digit
    have solid : isBlankChar c = false := by
      rw [Bool.eq_false_iff]
      intro blank
      simp only [isBlankChar, Bool.or_eq_true, beq_iff_eq] at blank
      rcases blank with ((rfl | rfl) | rfl) | rfl <;> cases digit
    have octets : ([0x6E, 0x74, 0x66, 0x22, 0x5B, 0x7B].any isDigit) = false := rfl
    have chars : (['n', 't', 'f', '"', '[', '\x7b', ']'].any Char.isDigit) = false := rfl
    exact ⟨b, c, more, rfl, ⟨alone, solid⟩, fun mark => List.any_eq_false.1 octets b mark octet,
      fun mark => List.any_eq_false.1 chars c mark digit⟩

end Courier.Json
