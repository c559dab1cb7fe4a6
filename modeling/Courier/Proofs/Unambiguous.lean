import Courier.Proofs.Trees

/-!
# One tree for a document

No text spells two trees, as long as a number is not cut short (`Spelled.single`), and so a document
has one tree (`Document.unique`).
-/
namespace Courier.Json

open Utf8

variable {ω : Type}

/-! ## Texts and numbers -/

theorem IsHex.unique {c : Char} {m n : Nat} (h : IsHex c m) (h' : IsHex c n) : m = n := by
  obtain ⟨b, alone, value⟩ := h.alone
  obtain ⟨b', alone', value'⟩ := h'.alone
  rw [alone] at alone'
  cases alone'
  rw [value] at value'
  exact Option.some.inj value'

theorem FourHex.unique {m n : Nat} {cs rest rest' : List Char} (h : FourHex m cs rest)
    (h' : FourHex n cs rest') : m = n ∧ rest = rest' := by
  cases h with
  | mk hp hq hr hs =>
    cases h' with
    | mk hp' hq' hr' hs' =>
      rw [hp.unique hp', hq.unique hq', hr.unique hr', hs.unique hs']
      exact ⟨rfl, rfl⟩

/-- A letter stands for one character, and the letter of units for none. -/
theorem shortEscapes_unique : ∀ m ∈ shortEscapes, m.1 ≠ 'u' ∧ ∀ m' ∈ shortEscapes,
    m.1 = m'.1 → m.2 = m'.2 := by
  decide

theorem PieceText.unique {p q : Piece} {cs rest rest' : List Char} (h : PieceText p cs rest)
    (h' : PieceText q cs rest') : p = q ∧ rest = rest' := by
  cases h with
  | raw _ solidus =>
    cases h' with
    | raw => exact ⟨rfl, rfl⟩
    | short => exact absurd rfl solidus
    | unit => exact absurd rfl solidus
  | short known =>
    cases h' with
    | raw _ solidus => exact absurd rfl solidus
    | short known' =>
      obtain ⟨-, one⟩ := shortEscapes_unique _ known
      exact ⟨congrArg _ (one _ known' rfl), rfl⟩
    | unit => exact absurd rfl (shortEscapes_unique _ known).1
  | unit four =>
    cases h' with
    | raw _ solidus => exact absurd rfl solidus
    | short known => exact absurd rfl (shortEscapes_unique _ known).1
    | unit four' =>
      obtain ⟨rfl, rfl⟩ := four.unique four'
      exact ⟨rfl, rfl⟩

theorem PieceText.not_quote {p : Piece} {cs rest : List Char} : ¬ PieceText p ('"' :: cs) rest := by
  rintro ⟨⟩
  contradiction

/-- A quoted text ends at its first quote. -/
theorem Parts.unique {ps qs : List Piece} {cs rest rest' : List Char}
    (h : Parts ps cs ('"' :: rest)) (h' : Parts qs cs ('"' :: rest')) : ps = qs ∧ rest = rest' := by
  generalize ends : '"' :: rest = tail at h
  induction h generalizing qs with
  | none =>
    subst ends
    cases h' with
    | none => exact ⟨rfl, rfl⟩
    | more first => exact absurd first PieceText.not_quote
  | more first _ ih =>
    cases h' with
    | none => exact absurd first PieceText.not_quote
    | more first' others =>
      obtain ⟨rfl, rfl⟩ := first.unique first'
      obtain ⟨rfl, rfl⟩ := ih others ends
      exact ⟨rfl, rfl⟩

theorem octets_injective {cs ds : List Char} (h : octets cs = octets ds) : cs = ds := by
  have same := strict?_octets cs
  rw [h, strict?_octets] at same
  exact (String.ofList_injective (Option.some.inj same)).symm

/-- A number that nothing goes on with is the whole of its text. -/
theorem IsNumber.unique {ms ns rest rest' : List Char} (h : IsNumber ms) (h' : IsNumber ns)
    (same : ms ++ rest = ns ++ rest') (free : Free goesOn rest) (free' : Free goesOn rest') :
    ms = ns ∧ rest = rest' := by
  obtain ⟨_, read⟩ := scans_numeral.complete h free
  obtain ⟨_, read'⟩ := scans_numeral.complete h' free'
  rw [same, read'] at read
  obtain rfl := octets_injective (Prod.mk.inj (Option.some.inj read)).2
  exact ⟨List.append_cancel_right same, rfl⟩

/-! ## Rules -/

/-- Besides this, the rule spells nothing else from the same text. -/
def SingleOn (R : Rule ω) (w : ω) : Prop :=
  ∀ {w' : ω} {cs rest rest' : List Char}, R w cs rest → R w' cs rest' → Free goesOn rest →
    Free goesOn rest' → w = w' ∧ rest = rest'

/-- What the rule spells does not start with a blank, nor with the mark. -/
def Starts (R : Rule ω) (close : Char) : Prop :=
  ∀ {w : ω} {cs rest : List Char}, R w cs rest → ∃ c more, Blanks cs (c :: more) ∧
    isBlankChar c = false ∧ c ≠ close

theorem Blanks.unique {c d : Char} {cs rest rest' : List Char} (h : Blanks cs (c :: rest))
    (h' : Blanks cs (d :: rest')) (solid : isBlankChar c = false) (solid' : isBlankChar d = false) :
    c = d ∧ rest = rest' := by
  have same := h.dropWhile_eq.symm.trans h'.dropWhile_eq
  rw [List.dropWhile_cons_of_neg (by simp [solid]),
    List.dropWhile_cons_of_neg (by simp [solid'])] at same
  exact List.cons.inj same

theorem IsClosing.ne_comma {b : UInt8} {c : Char} (h : IsClosing b c) : c ≠ ',' := by
  rintro rfl
  exact h.other (List.cons.inj (h.alone.symm.trans isMark_comma.alone)).1

section Rules

variable {R : Rule ω} {b : UInt8} {close : Char}

theorem Items.unique (closing : IsClosing b close) {ws ws' : List ω} {cs rest rest' : List Char}
    (h : Items R close ws cs rest) (each : ∀ w ∈ ws, SingleOn R w)
    (h' : Items R close ws' cs rest') : ws = ws' ∧ rest = rest' := by
  have stop := fun more => free_cons closing.stops more
  have comma : ∀ more, Free goesOn (',' :: more) := free_cons rfl
  induction h generalizing ws' with
  | last first ends =>
    have single : SingleOn R _ := each _ (List.mem_cons_self ..)
    have free := ends.free (stop _)
    cases h' with
    | last first' ends' =>
      obtain ⟨rfl, rfl⟩ := single first first' free (ends'.free (stop _))
      exact ⟨rfl, (ends.unique ends' closing.solid closing.solid).2⟩
    | more first' next' =>
      obtain ⟨rfl, rfl⟩ := single first first' free (next'.free (comma _))
      exact absurd (ends.unique next' closing.solid rfl).1 closing.ne_comma
  | more first next _ ih =>
    have single : SingleOn R _ := each _ (List.mem_cons_self ..)
    have free := next.free (comma _)
    cases h' with
    | last first' ends' =>
      obtain ⟨rfl, rfl⟩ := single first first' free (ends'.free (stop _))
      exact absurd (ends'.unique next closing.solid rfl).1 closing.ne_comma
    | more first' next' others' =>
      obtain ⟨rfl, rfl⟩ := single first first' free (next'.free (comma _))
      obtain ⟨-, rfl⟩ := next.unique next' rfl rfl
      obtain ⟨rfl, rfl⟩ := ih (fun w hw => each w (List.mem_cons_of_mem _ hw)) others'
      exact ⟨rfl, rfl⟩

/-- A list that ends at once has no items. -/
theorem Items.not_none (starts : Starts R close) (closing : IsClosing b close) {ws : List ω}
    {cs rest rest' : List Char} (h : Items R close ws cs rest) : ¬ Blanks cs (close :: rest') := by
  intro ends
  obtain ⟨w, mid, first⟩ : ∃ w mid, R w cs mid := by
    cases h with
    | last first => exact ⟨_, _, first⟩
    | more first => exact ⟨_, _, first⟩
  obtain ⟨c, more, blanks, solid, other⟩ := starts first
  exact other (blanks.unique ends solid closing.solid).1

theorem Listed.unique (starts : Starts R close) (closing : IsClosing b close) {ws ws' : List ω}
    {cs rest rest' : List Char} (h : Listed R close ws cs rest) (each : ∀ w ∈ ws, SingleOn R w)
    (h' : Listed R close ws' cs rest') : ws = ws' ∧ rest = rest' := by
  cases h with
  | none ends =>
    cases h' with
    | none ends' => exact ⟨rfl, (ends.unique ends' closing.solid closing.solid).2⟩
    | some items => exact absurd ends (items.not_none starts closing)
  | some items =>
    cases h' with
    | none ends' => exact absurd ends' (items.not_none starts closing)
    | some items' => exact items.unique closing each items'

theorem Named.singleOn {m : List Piece × ω} (h : SingleOn R m.2) : SingleOn (Named R) m := by
  intro _ cs rest rest' named named' free free'
  obtain ⟨opens, parts, colon, spelled⟩ := named
  obtain ⟨opens', parts', colon', spelled'⟩ := named'
  obtain ⟨-, rfl⟩ := opens.unique opens' rfl rfl
  obtain ⟨rfl, rfl⟩ := parts.unique parts'
  obtain ⟨-, rfl⟩ := colon.unique colon' rfl rfl
  obtain ⟨rfl, rfl⟩ := h spelled spelled' free free'
  exact ⟨rfl, rfl⟩

theorem starts_named : Starts (Named R) '\x7d' := by
  rintro _ cs rest ⟨opens, -, -, -⟩
  exact ⟨_, _, opens, rfl, by decide⟩

end Rules

/-- A value does not start with a blank, nor with a closing bracket. -/
theorem Spelled.front {t : Tree} {cs rest : List Char} (h : Spelled t cs rest) :
    ∃ c more, cs = c :: more ∧ isBlankChar c = false ∧ c ≠ ']' := by
  cases h with
  | null | yes | no | text | array | object => exact ⟨_, _, rfl, rfl, by decide⟩
  | number number =>
    obtain ⟨b, c, more, rfl, mark, -, other⟩ := number.front
    exact ⟨c, more ++ rest, rfl, mark.solid, fun same => other (by simp [same])⟩

theorem starts_led : Starts (Led Spelled) ']' := by
  rintro _ cs rest ⟨blanks, spelled⟩
  obtain ⟨c, more, rfl, solid, other⟩ := spelled.front
  exact ⟨c, more, blanks, solid, other⟩

theorem Led.singleOn {t : Tree} (h : SingleOn Spelled t) : SingleOn (Led Spelled) t := by
  rintro _ cs rest rest' ⟨blanks, spelled⟩ ⟨blanks', spelled'⟩ free free'
  obtain ⟨c, more, rfl, solid, -⟩ := spelled.front
  obtain ⟨c', more', rfl, solid', -⟩ := spelled'.front
  obtain ⟨rfl, rfl⟩ := blanks.unique blanks' solid solid'
  exact h spelled spelled' free free'

theorem IsNumber.ne_cons {cs : List Char} (h : IsNumber cs) {c : Char}
    (mark : c ∈ ['n', 't', 'f', '"', '[', '\x7b', ']']) (more rest : List Char) :
    c :: more ≠ cs ++ rest := by
  obtain ⟨b, d, ds, rfl, -, -, other⟩ := h.front
  intro same
  exact other ((List.cons.inj same).1 ▸ mark)

/-- A text spells one tree. -/
theorem Spelled.singleOn (t : Tree) : SingleOn Spelled t := by
  induction t <;> intro u cs rest rest' h h' free free' <;> generalize same : cs = ds at h'
  case null =>
    cases h
    cases h' with
    | null => cases same; exact ⟨rfl, rfl⟩
    | number number => exact absurd same (number.ne_cons (by decide) _ _)
    | yes | no | text | array | object => cases same
  case bool b =>
    cases h with
    | yes =>
      cases h' with
      | yes => cases same; exact ⟨rfl, rfl⟩
      | number number => exact absurd same (number.ne_cons (by decide) _ _)
      | null | no | text | array | object => cases same
    | no =>
      cases h' with
      | no => cases same; exact ⟨rfl, rfl⟩
      | number number => exact absurd same (number.ne_cons (by decide) _ _)
      | null | yes | text | array | object => cases same
  case number =>
    cases h with
    | number number =>
      cases h' with
      | number number' =>
        obtain ⟨rfl, rfl⟩ := number.unique number' same free free'
        exact ⟨rfl, rfl⟩
      | null | yes | no | text | array | object =>
        exact absurd same.symm (number.ne_cons (by decide) _ _)
  case text =>
    cases h with
    | text parts =>
      cases h' with
      | text parts' =>
        cases same
        obtain ⟨rfl, rfl⟩ := parts.unique parts'
        exact ⟨rfl, rfl⟩
      | number number => exact absurd same (number.ne_cons (by decide) _ _)
      | null | yes | no | array | object => cases same
  case array ts ih =>
    cases h with
    | array items =>
      cases h' with
      | array items' =>
        cases same
        have each : ∀ t ∈ ts, SingleOn (Led Spelled) t := fun t ht => Led.singleOn (ih t ht)
        obtain ⟨rfl, rfl⟩ := items.unique starts_led isClosing_bracket each items'
        exact ⟨rfl, rfl⟩
      | number number => exact absurd same (number.ne_cons (by decide) _ _)
      | null | yes | no | text | object => cases same
  case object ms ih =>
    cases h with
    | object members =>
      cases h' with
      | object members' =>
        cases same
        have each : ∀ m ∈ ms, SingleOn (Named (Led Spelled)) m := fun m hm =>
          Named.singleOn (Led.singleOn (ih m hm))
        obtain ⟨rfl, rfl⟩ := members.unique starts_named isClosing_brace each members'
        exact ⟨rfl, rfl⟩
      | number number => exact absurd same (number.ne_cons (by decide) _ _)
      | null | yes | no | text | array => cases same

/-- A document has one tree. -/
theorem Document.unique {t u : Tree} {text : String} (h : Document t text) (h' : Document u text) :
    t = u := by
  obtain ⟨rest, spelled, ends⟩ := h
  obtain ⟨rest', spelled', ends'⟩ := h'
  have free := free_nil goesOn
  exact (Led.singleOn (Spelled.singleOn t) spelled spelled' (ends.free free) (ends'.free free)).1

end Courier.Json
