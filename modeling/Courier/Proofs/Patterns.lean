import Courier.Proofs.Addressing

/-!
# Patterns

A pattern is a row of pieces: characters that are no braces, and slots with a name between two
braces. What is made of it is that row with the encoded value in the place of each slot, and a
pattern that is no such row, or has a slot without a value, fails for what is wrong with it first
from the left. Only values of names that stand between braces matter.

## Main results

* `Operation.path_eq_ok_iff` — what is made of a pattern.
* `Operation.path_eq_error_iff` — why nothing is made of it.
-/
namespace Courier.Api

/-! ## Patterns as rows of pieces -/

namespace Piece

/-- The text of a piece in a pattern. -/
def source : Piece → List Char
  | .char c => [c]
  | .slot name => '{' :: (name.toList ++ ['}'])

/-- The piece is a character that is no brace, or a slot with a name that has no braces. -/
def IsSound : Piece → Prop
  | .char c => c ≠ '{' ∧ c ≠ '}'
  | .slot name => name ≠ "" ∧ '{' ∉ name.toList ∧ '}' ∉ name.toList

/-- A slot has a value. -/
def IsBound (value? : String → Option String) : Piece → Prop
  | .char _ => True
  | .slot name => (value? name).isSome = true

/-- What stands in a path for a piece. -/
def written (value? : String → Option String) : Piece → List Char
  | .char c => [c]
  | .slot name => (Percent.encode ((value? name).getD "")).toList

end Piece

/-- What is left of a pattern starts with no piece that has a value, and this is why. -/
inductive Halts (value? : String → Option String) (pattern : String) :
    OperationError → List Char → Prop where
  | stray (rest : List Char) :
      Halts value? pattern (.malformedPattern pattern .strayBrace) ('}' :: rest)
  | unclosed {rest : List Char} (never : '}' ∉ rest) :
      Halts value? pattern (.malformedPattern pattern .unclosedSlot) ('{' :: rest)
  | bad {name : List Char} (closes : '}' ∉ name) (empty_or_nested : name = [] ∨ '{' ∈ name)
      (rest : List Char) :
      Halts value? pattern (.malformedPattern pattern .badSlot) ('{' :: (name ++ '}' :: rest))
  | unbound {name : String} (sound : (Piece.slot name).IsSound) (free : value? name = none)
      (rest : List Char) :
      Halts value? pattern (.missingParam name pattern) ((Piece.slot name).source ++ rest)

/-- The pieces are sound, and their slots have values. -/
def AllBound (value? : String → Option String) (pieces : List Piece) : Prop :=
  ∀ p ∈ pieces, p.IsSound ∧ p.IsBound value?

theorem allBound_cons {value? : String → Option String} {p : Piece} {pieces : List Piece} :
    AllBound value? (p :: pieces) ↔ (p.IsSound ∧ p.IsBound value?) ∧ AllBound value? pieces :=
  List.forall_mem_cons

/-- The characters before the first brace are pieces of their own. -/
theorem allBound_chars (value? : String → Option String) {front : List Char}
    (plain : ∀ c ∈ front, c ≠ '{' ∧ c ≠ '}') : AllBound value? (front.map Piece.char) := by
  intro p hp
  obtain ⟨c, hc, rfl⟩ := List.mem_map.mp hp
  exact ⟨plain c hc, trivial⟩

/-- What follows an opened brace: it is never closed, or it is closed behind a text that is no name,
a name without a value, or a name with one. -/
theorem opened_cases (value? : String → Option String) (pattern : String) (rest : List Char) :
    (∃ e, Halts value? pattern e ('{' :: rest)) ∨
      ∃ name later, (Piece.slot name).IsSound ∧ (Piece.slot name).IsBound value? ∧
        '{' :: rest = (Piece.slot name).source ++ later := by
  by_cases closes : '}' ∈ rest
  · obtain ⟨name, later, rfl, first⟩ := List.eq_append_cons_of_mem closes
    by_cases illegal : name = [] ∨ '{' ∈ name
    · exact .inl ⟨_, .bad first illegal later⟩
    · rw [not_or] at illegal
      have sound : (Piece.slot (String.ofList name)).IsSound := by
        refine ⟨fun empty => illegal.1 ?_, ?_, ?_⟩
        · rw [← String.toList_ofList (l := name), empty]
          rfl
        · rw [String.toList_ofList]
          exact illegal.2
        · rw [String.toList_ofList]
          exact first
      have whole : '{' :: (name ++ '}' :: later) =
          (Piece.slot (String.ofList name)).source ++ later := by
        simp [Piece.source]
      cases hit : value? (String.ofList name) with
      | none =>
        rw [whole]
        exact .inl ⟨_, .unbound sound hit later⟩
      | some value =>
        exact .inr ⟨_, later, sound, by rw [Piece.IsBound, hit]; rfl, whole⟩
  · exact .inl ⟨_, .unclosed closes⟩

/-- A text is empty, starts with a piece that has a value, or starts with what is wrong with it. -/
theorem front_cases (value? : String → Option String) (pattern : String) (cs : List Char) :
    cs = [] ∨ (∃ e, Halts value? pattern e cs) ∨
      ∃ (p : Piece) (rest : List Char), p.IsSound ∧ p.IsBound value? ∧ cs = p.source ++ rest := by
  cases cs with
  | nil => exact .inl rfl
  | cons c cs =>
    right
    by_cases opens : c = '{'
    · rw [opens]
      refine (opened_cases value? pattern cs).imp_right ?_
      rintro ⟨name, rest, sound, bound, whole⟩
      exact ⟨_, rest, sound, bound, whole⟩
    · by_cases shuts : c = '}'
      · rw [shuts]
        exact .inl ⟨_, .stray cs⟩
      · exact .inr ⟨.char c, cs, ⟨opens, shuts⟩, trivial, rfl⟩

theorem Piece.source_ne_nil (p : Piece) : p.source ≠ [] := by
  cases p <;> exact List.cons_ne_nil _ _

theorem Piece.source_slot_append (name : String) (rest : List Char) :
    (Piece.slot name).source ++ rest = '{' :: (name.toList ++ '}' :: rest) := by
  simp [source]

theorem Piece.IsSound.legal {name : String} (sound : (Piece.slot name).IsSound) :
    ¬ (name.toList.isEmpty || name.toList.contains '{') = true := by
  simp [sound.1, sound.2.1]

/-- Every text is a row of pieces with values up to its end or to what is wrong with it first. -/
theorem exists_pieces (value? : String → Option String) (pattern : String) (cs : List Char) :
    ∃ pieces rest, cs = pieces.flatMap Piece.source ++ rest ∧ AllBound value? pieces ∧
      (rest = [] ∨ ∃ e, Halts value? pattern e rest) := by
  induction hn : cs.length using Nat.strongRecOn generalizing cs with
  | ind n ih =>
    rcases front_cases value? pattern cs with rfl | halts | ⟨p, rest, sound, bound, rfl⟩
    · exact ⟨[], [], rfl, List.forall_mem_nil _, .inl rfl⟩
    · exact ⟨[], cs, rfl, List.forall_mem_nil _, .inr halts⟩
    · have shorter : rest.length < n := by
        have := List.length_pos_iff.mpr p.source_ne_nil
        rw [List.length_append] at hn
        omega
      obtain ⟨pieces, last, rfl, all, ends⟩ := ih _ shorter rest rfl
      refine ⟨p :: pieces, last, ?_, allBound_cons.mpr ⟨⟨sound, bound⟩, all⟩, ends⟩
      rw [List.flatMap_cons, List.append_assoc]

/-! ## What the scan makes of pieces -/

theorem scanPieces_char {c : Char} (sound : (Piece.char c).IsSound) (cs : List Char) :
    scanPieces none (c :: cs) =
      (.char c :: (scanPieces none cs).1, (scanPieces none cs).2) := by
  rw [scanPieces, if_neg sound.1, if_neg sound.2]

theorem scanPieces_name {name : List Char} (closes : '}' ∉ name) (before rest : List Char) :
    scanPieces (some before) (name ++ rest) = scanPieces (some (name.reverse ++ before)) rest := by
  induction name generalizing before with
  | nil => rfl
  | cons c name ih =>
    obtain ⟨other, later⟩ := List.ne_and_not_mem_of_not_mem_cons closes
    rw [List.cons_append, scanPieces, if_neg (Ne.symm other), ih later, List.reverse_cons,
      List.append_assoc]
    rfl

/-- A text between two braces is a slot, unless it is no name. -/
theorem scanPieces_braces {name : List Char} (closes : '}' ∉ name) (rest : List Char) :
    scanPieces none ('{' :: (name ++ '}' :: rest)) =
      if name.isEmpty || name.contains '{' then ([], some .badSlot)
      else (.slot (String.ofList name) :: (scanPieces none rest).1, (scanPieces none rest).2) := by
  rw [scanPieces, if_pos rfl, scanPieces_name closes, List.append_nil, scanPieces, if_pos rfl,
    List.reverse_reverse, List.isEmpty_reverse, List.contains_reverse]

theorem scanPieces_unclosed {rest : List Char} (never : '}' ∉ rest) :
    scanPieces none ('{' :: rest) = ([], some .unclosedSlot) := by
  have whole := scanPieces_name never [] []
  rw [List.append_nil] at whole
  rw [scanPieces, if_pos rfl, whole, scanPieces]

theorem scanPieces_source {p : Piece} (sound : p.IsSound) (rest : List Char) :
    scanPieces none (p.source ++ rest) =
      (p :: (scanPieces none rest).1, (scanPieces none rest).2) := by
  cases p with
  | char c => exact scanPieces_char sound rest
  | slot name =>
    rw [Piece.source_slot_append, scanPieces_braces sound.2.2, if_neg sound.legal,
      String.ofList_toList]

namespace Operation

variable {value? : String → Option String} {pattern : String}

/-- What the characters of a pattern come to, or what is wrong with them first. -/
def path (value? : String → Option String) (pattern : String) (cs : List Char) :
    Except OperationError (List Char) :=
  match fill value? (scanPieces none cs).1, (scanPieces none cs).2 with
  | .error name, _ => .error (.missingParam name pattern)
  | .ok _, some d => .error (.malformedPattern pattern d)
  | .ok path, none => .ok path

theorem render_eq (op : Operation) : op.render =
    if op.pattern.toList.head? = some '/' then
      (path op.value? op.pattern op.pattern.toList).map fun path =>
        String.ofList path ++ queryText op.query
    else .error (.malformedPattern op.pattern .relative) := by
  by_cases absolute : op.pattern.toList.head? = some '/'
  · simp only [render, scanPattern, if_pos absolute, path]
    cases fill op.value? (scanPieces none op.pattern.toList).1 with
    | error name => rfl
    | ok path =>
      cases (scanPieces none op.pattern.toList).2 with
      | none => rfl
      | some d => rfl
  · simp only [render, scanPattern, if_neg absolute]
    rfl

theorem fill_cons {p : Piece} (bound : p.IsBound value?) (pieces : List Piece) :
    fill value? (p :: pieces) = (fill value? pieces).map (p.written value? ++ ·) := by
  cases p with
  | char c => rfl
  | slot name =>
    obtain ⟨value, hit⟩ := Option.isSome_iff_exists.mp bound
    simp only [fill, Piece.written, hit]
    rfl

theorem path_nil : path value? pattern [] = .ok [] := rfl

theorem path_source {p : Piece} (sound : p.IsSound) (bound : p.IsBound value?)
    (rest : List Char) : path value? pattern (p.source ++ rest) =
      (path value? pattern rest).map (p.written value? ++ ·) := by
  rw [path, path, scanPieces_source sound, fill_cons bound]
  cases fill value? (scanPieces none rest).1 with
  | error name => rfl
  | ok path =>
    cases (scanPieces none rest).2 with
    | none => rfl
    | some d => rfl

theorem path_pieces {pieces : List Piece} (all : AllBound value? pieces) (rest : List Char) :
    path value? pattern (pieces.flatMap Piece.source ++ rest) =
      (path value? pattern rest).map (pieces.flatMap (Piece.written value?) ++ ·) := by
  induction pieces with
  | nil => exact (id_map (path value? pattern rest)).symm
  | cons p pieces ih =>
    obtain ⟨⟨sound, bound⟩, later⟩ := allBound_cons.mp all
    rw [List.flatMap_cons, List.append_assoc, path_source sound bound, ih later]
    cases path value? pattern rest with
    | error e => rfl
    | ok path => exact congrArg Except.ok (List.append_assoc ..).symm

theorem path_halts {e : OperationError} {rest : List Char} (halts : Halts value? pattern e rest) :
    path value? pattern rest = .error e := by
  cases halts with
  | stray rest => rfl
  | unclosed never =>
    rw [path, scanPieces_unclosed never]
    rfl
  | @bad name closes illegal rest =>
    have refused : (name.isEmpty || name.contains '{') = true := by
      simpa using illegal
    rw [path, scanPieces_braces closes, if_pos refused]
    rfl
  | unbound sound free rest =>
    rw [path, scanPieces_source sound]
    simp only [fill, free]

theorem path_whole {pieces : List Piece} (all : AllBound value? pieces) :
    path value? pattern (pieces.flatMap Piece.source) =
      .ok (pieces.flatMap (Piece.written value?)) := by
  have whole : path value? pattern _ = _ := path_pieces all []
  rw [path_nil, List.append_nil] at whole
  rw [whole]
  exact congrArg Except.ok (List.append_nil _)

theorem path_eq_ok_iff {cs path : List Char} : Operation.path value? pattern cs = .ok path ↔
    ∃ pieces, cs = pieces.flatMap Piece.source ∧ AllBound value? pieces ∧
      path = pieces.flatMap (Piece.written value?) := by
  constructor
  · intro ok
    obtain ⟨pieces, rest, rfl, all, rfl | ⟨e, halts⟩⟩ := exists_pieces value? pattern cs
    · rw [List.append_nil] at ok ⊢
      rw [path_whole all] at ok
      exact ⟨pieces, rfl, all, (Except.ok.inj ok).symm⟩
    · rw [path_pieces all, path_halts halts] at ok
      cases ok
  · rintro ⟨pieces, rfl, all, rfl⟩
    exact path_whole all

theorem path_eq_error_iff {cs : List Char} {e : OperationError} :
    path value? pattern cs = .error e ↔
      ∃ pieces rest, cs = pieces.flatMap Piece.source ++ rest ∧ AllBound value? pieces ∧
        Halts value? pattern e rest := by
  constructor
  · intro failed
    obtain ⟨pieces, rest, rfl, all, rfl | ⟨f, halts⟩⟩ := exists_pieces value? pattern cs
    · rw [path_pieces all, path_nil] at failed
      cases failed
    · rw [path_pieces all, path_halts halts] at failed
      obtain rfl : f = e := Except.error.inj failed
      exact ⟨pieces, rest, rfl, all, halts⟩
  · rintro ⟨pieces, rest, rfl, all, halts⟩
    rw [path_pieces all, path_halts halts]
    rfl

/-! ## What a pattern does not say -/

/-- The name stands between braces somewhere in the text. -/
def Mentions (cs : List Char) (name : String) : Prop := (Piece.slot name).source <:+: cs

theorem Mentions.append {cs : List Char} {name : String} (h : Mentions cs name)
    (front : List Char) : Mentions (front ++ cs) name :=
  h.trans (List.suffix_append front cs).isInfix

theorem halts_congr {other : String → Option String} {e : OperationError} {rest : List Char}
    (same : ∀ name, Mentions rest name → other name = value? name)
    (halts : Halts value? pattern e rest) : Halts other pattern e rest := by
  cases halts with
  | stray rest => exact .stray rest
  | unclosed never => exact .unclosed never
  | bad closes illegal rest => exact .bad closes illegal rest
  | unbound sound free rest =>
    exact .unbound sound ((same _ (List.prefix_append _ rest).isInfix).trans free) rest

theorem piece_congr {other : String → Option String} {p : Piece} {rest : List Char}
    (same : ∀ name, Mentions (p.source ++ rest) name → other name = value? name) :
    (p.IsBound value? → p.IsBound other) ∧ p.written other = p.written value? := by
  cases p with
  | char c => exact ⟨id, rfl⟩
  | slot name =>
    have here : other name = value? name := same name (List.prefix_append _ rest).isInfix
    rw [Piece.IsBound, Piece.IsBound, Piece.written, Piece.written, here]
    exact ⟨id, rfl⟩

/-- Only values of names that stand between braces matter. -/
theorem path_congr {other : String → Option String} {cs : List Char}
    (same : ∀ name, Mentions cs name → other name = value? name) :
    path other pattern cs = path value? pattern cs := by
  obtain ⟨pieces, rest, rfl, all, ends⟩ := exists_pieces value? pattern cs
  induction pieces with
  | nil =>
    rcases ends with rfl | ⟨e, halts⟩
    · rfl
    · have whole : [].flatMap Piece.source ++ rest = rest := rfl
      rw [whole] at same ⊢
      rw [path_halts halts, path_halts (halts_congr same halts)]
  | cons p pieces ih =>
    obtain ⟨⟨sound, bound⟩, later⟩ := allBound_cons.mp all
    rw [List.flatMap_cons, List.append_assoc] at same ⊢
    obtain ⟨binds, writes⟩ := piece_congr same
    rw [path_source sound bound, path_source sound (binds bound), writes,
      ih (fun name h => same name (h.append _)) later]

/-- What is rendered has no braces. -/
theorem not_mem_rendered {pieces : List Piece} (all : AllBound value? pieces)
    (pairs : List (String × String)) {c : Char} (brace : c = '{' ∨ c = '}') :
    c ∉ (String.ofList (pieces.flatMap (Piece.written value?)) ++ queryText pairs).toList := by
  have reserved : Percent.isWritten c = false := by rcases brace with rfl | rfl <;> decide
  have inPath : c ∉ pieces.flatMap (Piece.written value?) := by
    intro hc
    obtain ⟨p, hp, inside⟩ := List.mem_flatMap.mp hc
    cases p with
    | char d =>
      obtain rfl : c = d := List.mem_singleton.mp inside
      obtain ⟨⟨opens, shuts⟩, -⟩ := all _ hp
      exact brace.elim opens shuts
    | slot name => exact Percent.not_mem_encode reserved _ inside
  have inQuery : c ∉ (queryText pairs).toList := by
    rw [← List.count_eq_zero, count_queryText pairs reserved
      (by rcases brace with rfl | rfl <;> decide) (by rcases brace with rfl | rfl <;> decide)]
    rcases brace with rfl | rfl <;> simp
  rw [String.toList_append, String.toList_ofList, List.mem_append, not_or]
  exact ⟨inPath, inQuery⟩

end Operation

end Courier.Api
