import Courier.Proofs.Grammar
import Courier.Proofs.Patterns

/-!
# Rendering

What comes of a pattern and of the values that are bound to names. In which order values are bound,
what was bound to a name before, and what is bound to a name that the pattern does not mention does
not matter. Reading the pattern by positions of octets, brace by brace, comes to the same and never
cuts a character.

The main result is `renderLaw`.
-/
namespace Courier.Api

namespace Operation

variable {value? : String → Option String} {pattern : String}

/-! ## Positions of octets -/

/-- An opening or a closing brace. -/
def isBrace (c : Char) : Bool := c == '{' || c == '}'

/-- Where the first character with a property starts, counted in octets. -/
def position? (p : Char → Bool) : List Char → Option Nat
  | [] => none
  | c :: cs => if p c then some 0 else (position? p cs).map (c.utf8Size + ·)

/-- What stands before and behind a position in octets; nothing if the position is inside a
character or behind the end. -/
def cut? : (octets : Nat) → List Char → Option (List Char × List Char)
  | 0, cs => some ([], cs)
  | _ + 1, [] => none
  | n + 1, c :: cs =>
    if c.utf8Size ≤ n + 1 then
      (cut? (n + 1 - c.utf8Size) cs).map fun parts => (c :: parts.1, parts.2)
    else none

/-- What one round of reading comes to. -/
inductive Round where
  | finished (outcome : Except OperationError (List Char))
  | next (path rest : List Char)

/-- One round of reading what is left of a pattern, by positions of octets: the characters up to the
next brace and the slot behind them are taken. There is no outcome where a position cannot be cut
at. -/
def round (value? : String → Option String) (pattern : String) (path rest : List Char) :
    Option Round :=
  match position? isBrace rest with
  | none => some (.finished (.ok (path ++ rest)))
  | some opening => do
    let octet ← (Utf8.octets rest)[opening]?
    if octet = 0x7D then
      return .finished (.error (.malformedPattern pattern .strayBrace))
    let (literal, _) ← cut? opening rest
    let (_, behind) ← cut? (opening + 1) rest
    match position? (· == '}') behind with
    | none => return .finished (.error (.malformedPattern pattern .unclosedSlot))
    | some closing =>
      let (name, _) ← cut? closing behind
      if name.isEmpty || name.contains '{' then
        return .finished (.error (.malformedPattern pattern .badSlot))
      match value? (String.ofList name) with
      | none => return .finished (.error (.missingParam (String.ofList name) pattern))
      | some value =>
        let (_, later) ← cut? (closing + 1) behind
        return .next (path ++ literal ++ (Percent.encode value).toList) later

/-- Round after round comes to an outcome in the end, or to none. -/
inductive Walks (value? : String → Option String) (pattern : String) :
    List Char → List Char → Option (Except OperationError (List Char)) → Prop where
  | finished {path rest : List Char} {outcome : Except OperationError (List Char)}
      (h : round value? pattern path rest = some (.finished outcome)) :
      Walks value? pattern path rest (some outcome)
  | stuck {path rest : List Char} (h : round value? pattern path rest = none) :
      Walks value? pattern path rest none
  | next {path rest path' rest' : List Char} {r : Option (Except OperationError (List Char))}
      (h : round value? pattern path rest = some (.next path' rest'))
      (later : Walks value? pattern path' rest' r) : Walks value? pattern path rest r

theorem Walks.unique {path rest : List Char} {r s : Option (Except OperationError (List Char))}
    (h : Walks value? pattern path rest r) (k : Walks value? pattern path rest s) : r = s := by
  induction h with
  | finished first =>
    cases k with
    | finished other => rw [first] at other; cases other; rfl
    | stuck other => rw [first] at other; cases other
    | next other => rw [first] at other; cases other
  | stuck first =>
    cases k with
    | finished other => rw [first] at other; cases other
    | stuck other => rfl
    | next other => rw [first] at other; cases other
  | next first _ ih =>
    cases k with
    | finished other => rw [first] at other; cases other
    | stuck other => rw [first] at other; cases other
    | next other later => rw [first] at other; cases other; exact ih later

theorem position?_eq_none {p : Char → Bool} {cs : List Char} (h : ∀ c ∈ cs, p c = false) :
    position? p cs = none := by
  induction cs with
  | nil => rfl
  | cons c cs ih =>
    obtain ⟨first, later⟩ := List.forall_mem_cons.mp h
    rw [position?, first, if_neg Bool.false_ne_true, ih later]
    rfl

theorem position?_append {p : Char → Bool} {front : List Char} (h : ∀ c ∈ front, p c = false)
    {c : Char} (hc : p c = true) (back : List Char) :
    position? p (front ++ c :: back) = some (Utf8.octets front).length := by
  induction front with
  | nil => rw [List.nil_append, position?, if_pos hc]; rfl
  | cons d front ih =>
    obtain ⟨first, later⟩ := List.forall_mem_cons.mp h
    rw [List.cons_append, position?, first, if_neg Bool.false_ne_true, ih later,
      Utf8.octets_cons, List.length_append, String.length_utf8EncodeChar]
    rfl

theorem cut?_append (front back : List Char) :
    cut? (Utf8.octets front).length (front ++ back) = some (front, back) := by
  induction front with
  | nil => cases back <;> rfl
  | cons c front ih =>
    have positive := c.utf8Size_pos
    obtain ⟨n, hn⟩ : ∃ n, (Utf8.octets (c :: front)).length = n + 1 := by
      refine ⟨c.utf8Size - 1 + (Utf8.octets front).length, ?_⟩
      rw [Utf8.octets_cons, List.length_append, String.length_utf8EncodeChar]
      omega
    have rest : n + 1 - c.utf8Size = (Utf8.octets front).length := by
      rw [← hn, Utf8.octets_cons, List.length_append, String.length_utf8EncodeChar]
      omega
    have whole : c.utf8Size ≤ n + 1 := by
      rw [← hn, Utf8.octets_cons, List.length_append, String.length_utf8EncodeChar]
      omega
    rw [hn, List.cons_append, cut?, if_pos whole, rest, ih]
    rfl

theorem cut?_behind (front : List Char) {c : Char} (alone : c.utf8Size = 1) (back : List Char) :
    cut? ((Utf8.octets front).length + 1) (front ++ c :: back) = some (front ++ [c], back) := by
  have more : (Utf8.octets (front ++ [c])).length = (Utf8.octets front).length + 1 := by
    rw [Utf8.octets, List.flatMap_append, List.length_append, List.flatMap_singleton,
      String.length_utf8EncodeChar, alone]
    rfl
  have whole := cut?_append (front ++ [c]) back
  rwa [more, List.append_assoc] at whole

theorem octet_at (front : List Char) {c : Char} {b : UInt8} (alone : String.utf8EncodeChar c = [b])
    (back : List Char) :
    (Utf8.octets (front ++ c :: back))[(Utf8.octets front).length]? = some b := by
  have whole : Utf8.octets (front ++ c :: back) =
      Utf8.octets front ++ b :: Utf8.octets back := by
    rw [Utf8.octets, List.flatMap_append, List.flatMap_cons, alone]
    rfl
  rw [whole, List.getElem?_append_right (Nat.le_refl _), Nat.sub_self]
  rfl

section Rounds

variable {front : List Char}

theorem isBrace_eq_false {c : Char} (plain : c ≠ '{' ∧ c ≠ '}') : isBrace c = false := by
  simp [isBrace, plain]

theorem closing_eq_false {name : List Char} (closes : '}' ∉ name) :
    ∀ c ∈ name, (c == '}') = false := by
  intro c hc
  rw [beq_eq_false_iff_ne]
  rintro rfl
  exact closes hc

theorem round_plain (path : List Char) (plain : ∀ c ∈ front, c ≠ '{' ∧ c ≠ '}') :
    round value? pattern path front = some (.finished (.ok (path ++ front))) := by
  rw [round, position?_eq_none fun c hc => isBrace_eq_false (plain c hc)]

/-- A round that meets an opening brace goes on behind it. -/
theorem round_opened (path : List Char) (plain : ∀ c ∈ front, c ≠ '{' ∧ c ≠ '}')
    (behind : List Char) :
    round value? pattern path (front ++ '{' :: behind) =
      match position? (· == '}') behind with
      | none => some (.finished (.error (.malformedPattern pattern .unclosedSlot)))
      | some closing =>
        (cut? closing behind).bind fun parts =>
        if parts.1.isEmpty || parts.1.contains '{' then
          some (.finished (.error (.malformedPattern pattern .badSlot)))
        else
        match value? (String.ofList parts.1) with
        | none => some (.finished (.error (.missingParam (String.ofList parts.1) pattern)))
        | some value =>
          (cut? (closing + 1) behind).bind fun rest =>
          some (.next (path ++ front ++ (Percent.encode value).toList) rest.2) := by
  have brace := position?_append (fun c hc => isBrace_eq_false (plain c hc))
    (show isBrace '{' = true by decide) behind
  have octet := octet_at front (show String.utf8EncodeChar '{' = [0x7B] by decide) behind
  have other : ¬ (0x7B : UInt8) = 0x7D := by decide
  rw [round, brace]
  simp only [octet, cut?_append, cut?_behind front (show '{'.utf8Size = 1 by decide), bind,
    Option.bind, other, if_false, pure]

/-- A round that meets what is wrong says so. -/
theorem round_halts (path : List Char) (plain : ∀ c ∈ front, c ≠ '{' ∧ c ≠ '}')
    {e : OperationError} {rest : List Char} (halts : Halts value? pattern e rest) :
    round value? pattern path (front ++ rest) = some (.finished (.error e)) := by
  cases halts with
  | stray rest =>
    have brace := position?_append (fun c hc => isBrace_eq_false (plain c hc))
      (show isBrace '}' = true by decide) rest
    have octet := octet_at front (show String.utf8EncodeChar '}' = [0x7D] by decide) rest
    rw [round, brace]
    simp only [octet, bind, Option.bind, if_true, pure]
  | unclosed never => rw [round_opened path plain, position?_eq_none (closing_eq_false never)]
  | @bad name closes illegal rest =>
    have refused : (name.isEmpty || name.contains '{') = true := by simpa using illegal
    rw [round_opened path plain, position?_append (closing_eq_false closes) (by decide)]
    simp only [cut?_append, Option.bind_some, if_pos refused]
  | @unbound name sound free rest =>
    rw [Piece.source_slot_append, round_opened path plain,
      position?_append (closing_eq_false sound.2.2) (by decide)]
    simp only [cut?_append, Option.bind_some, if_neg sound.legal, String.ofList_toList, free]

/-- A round that meets a slot with a value takes both. -/
theorem round_slot (path : List Char) (plain : ∀ c ∈ front, c ≠ '{' ∧ c ≠ '}') {name : String}
    (sound : (Piece.slot name).IsSound) (bound : (Piece.slot name).IsBound value?)
    (rest : List Char) :
    round value? pattern path (front ++ ((Piece.slot name).source ++ rest)) =
      some (.next (path ++ front ++ (Piece.slot name).written value?) rest) := by
  obtain ⟨value, hit⟩ := Option.isSome_iff_exists.mp bound
  rw [Piece.source_slot_append, round_opened path plain,
    position?_append (closing_eq_false sound.2.2) (by decide)]
  simp only [cut?_append, cut?_behind name.toList (show '}'.utf8Size = 1 by decide),
    Option.bind_some, if_neg sound.legal, String.ofList_toList, hit, Piece.written,
    Option.getD_some]

end Rounds

theorem exists_front (rest : List Char) : ∃ front back, rest = front ++ back ∧
    (∀ c ∈ front, c ≠ '{' ∧ c ≠ '}') ∧
    (back = [] ∨ ∃ behind, back = '{' :: behind ∨ back = '}' :: behind) := by
  induction rest with
  | nil => exact ⟨[], [], rfl, List.forall_mem_nil _, .inl rfl⟩
  | cons c rest ih =>
    by_cases opens : c = '{'
    · exact ⟨[], c :: rest, rfl, List.forall_mem_nil _, .inr ⟨rest, .inl (by rw [opens])⟩⟩
    · by_cases shuts : c = '}'
      · exact ⟨[], c :: rest, rfl, List.forall_mem_nil _, .inr ⟨rest, .inr (by rw [shuts])⟩⟩
      · obtain ⟨front, back, rfl, plain, ends⟩ := ih
        exact ⟨c :: front, back, rfl, List.forall_mem_cons.mpr ⟨⟨opens, shuts⟩, plain⟩, ends⟩

theorem path_front {front : List Char} (plain : ∀ c ∈ front, c ≠ '{' ∧ c ≠ '}')
    (rest : List Char) :
    path value? pattern (front ++ rest) = (path value? pattern rest).map (front ++ ·) := by
  have texts : (front.map Piece.char).flatMap Piece.source = front ∧
      (front.map Piece.char).flatMap (Piece.written value?) = front := by
    simp [List.flatMap_map, Piece.source, Piece.written]
  have whole : path value? pattern _ = _ := path_pieces (allBound_chars value? plain) rest
  rwa [texts.1, texts.2] at whole

/-- Reading by positions of octets comes to an outcome, and it is that of the scan. -/
theorem walks_path (path rest : List Char) : Walks value? pattern path rest
    (some ((Operation.path value? pattern rest).map (path ++ ·))) := by
  induction hn : rest.length using Nat.strongRecOn generalizing path rest with
  | ind n ih =>
    obtain ⟨front, back, rfl, plain, rfl | ⟨behind, rfl | rfl⟩⟩ := exists_front rest
    · have finished : round value? pattern path _ = _ := round_plain path plain
      rw [path_front plain, path_nil, List.append_nil]
      simp only [Except.map, List.append_nil]
      exact .finished finished
    · rcases opened_cases value? pattern behind with ⟨e, halts⟩ | ⟨name, rest, sound, bound, whole⟩
      · rw [path_front plain, path_halts halts]
        exact .finished (round_halts path plain halts)
      · have shorter : rest.length < n := by
          have := congrArg List.length whole
          simp only [List.length_cons, List.length_append] at this hn
          have := List.length_pos_iff.mpr (Piece.slot name).source_ne_nil
          omega
        have later := ih _ shorter (path ++ front ++ (Piece.slot name).written value?) rest rfl
        rw [whole, path_front plain, path_source sound bound]
        refine .next (round_slot path plain sound bound rest) ?_
        cases outcome : Operation.path value? pattern rest with
        | error e => rwa [outcome] at later
        | ok text =>
          rw [outcome] at later
          simpa only [Except.map, List.append_assoc] using later
    · rw [path_front plain, path_halts (.stray behind)]
      exact .finished (round_halts path plain (.stray behind))

/-! ## Rendering -/

theorem bound_append (before after : List Part) (name : String) :
    bound (before ++ after) name = (bound after name).or (bound before name) := by
  rw [bound, List.reverse_append, List.findSome?_append]
  rfl

theorem bound_cons (part : Part) (parts : List Part) (name : String) :
    bound (part :: parts) name = (bound parts name).or (part.value? name) := by
  rw [bound, List.reverse_cons, List.findSome?_append, List.findSome?_singleton]
  rfl

theorem bound_of_mem {parts : List Part} {name value : String}
    (h : Part.binding name value ∈ parts) : (bound parts name).isSome = true := by
  rw [bound, List.findSome?_isSome_iff]
  exact ⟨_, List.mem_reverse.mpr h, by rw [Part.value?, if_pos rfl]; rfl⟩

section Made

variable {method : Method} {pattern : String}

theorem render_made (parts : List Part) : (made method pattern parts).render =
    if pattern.toList.head? = some '/' then
      (path (bound parts) pattern pattern.toList).map fun path =>
        String.ofList path ++ queryText (pairs parts)
    else .error (.malformedPattern pattern .relative) := by
  rw [render_eq, value?_made, pattern_made, query_made]

/-- What is rendered depends on the query and on the values of names that the pattern mentions. -/
theorem render_congr {parts others : List Part} (query : pairs others = pairs parts)
    (same : ∀ name, Mentions pattern.toList name → bound others name = bound parts name) :
    (made method pattern others).render = (made method pattern parts).render := by
  rw [render_made, render_made, query, path_congr same]

theorem pairs_binding (before after : List Part) (name value : String) :
    pairs (before ++ .binding name value :: after) = pairs (before ++ after) := by
  rw [pairs, List.filterMap_append, List.filterMap_cons_none rfl, ← List.filterMap_append]
  rfl

/-- A binding does nothing where the name is bound again, and nothing to other names. -/
theorem bound_binding {before after : List Part} {name value other : String}
    (h : other = name → (bound after name).isSome = true) :
    bound (before ++ .binding name value :: after) other = bound (before ++ after) other := by
  rw [bound_append, bound_append, bound_cons, Part.value?]
  by_cases same : name = other
  · obtain ⟨later, hit⟩ := Option.isSome_iff_exists.mp (h same.symm)
    rw [← same, hit]
    rfl
  · rw [if_neg same, Option.or_none]

theorem bound_swap {before after : List Part} {name other value value' : String}
    (ne : name ≠ other) (n : String) :
    bound (before ++ .binding name value :: .binding other value' :: after) n =
      bound (before ++ .binding other value' :: .binding name value :: after) n := by
  simp only [bound_append, bound_cons, Part.value?]
  by_cases first : name = n
  · have second : ¬ other = n := fun h => ne (first.trans h.symm)
    rw [if_pos first, if_neg second, Option.or_none, Option.or_none]
  · rw [if_neg first, Option.or_none, Option.or_none]

theorem render_eq_ok_iff {parts : List Part} {rendered : String} :
    (made method pattern parts).render = .ok rendered ↔
      pattern.toList.head? = some '/' ∧ ∃ pieces, pattern.toList = pieces.flatMap Piece.source ∧
        AllBound (bound parts) pieces ∧
        rendered = String.ofList (pieces.flatMap (Piece.written (bound parts))) ++
          queryText (pairs parts) := by
  rw [render_made]
  by_cases absolute : pattern.toList.head? = some '/'
  · rw [if_pos absolute]
    constructor
    · intro ok
      obtain ⟨text, found, whole⟩ := exists_of_map_eq_ok ok
      obtain ⟨pieces, spelled, all, rfl⟩ := path_eq_ok_iff.mp found
      exact ⟨absolute, pieces, spelled, all, whole⟩
    · rintro ⟨-, pieces, spelled, all, rfl⟩
      rw [path_eq_ok_iff.mpr ⟨pieces, spelled, all, rfl⟩]
      rfl
  · simp [absolute]

theorem render_eq_error_iff {parts : List Part} {e : OperationError}
    (absolute : pattern.toList.head? = some '/') :
    (made method pattern parts).render = .error e ↔
      ∃ pieces rest, pattern.toList = pieces.flatMap Piece.source ++ rest ∧
        AllBound (bound parts) pieces ∧ Halts (bound parts) pattern e rest := by
  rw [render_made, if_pos absolute, ← path_eq_error_iff]
  cases path (bound parts) pattern pattern.toList with
  | error f => simp [Except.map]
  | ok text => simp [Except.map]

end Made

/-- What comes of rendering a pattern. -/
structure RenderLaw (method : Method) (pattern : String) : Prop where
  /-- It succeeds exactly for an absolute pattern that is a row of sound pieces with values, and
  then it is that row with the encoded values in it, and the query. -/
  accepted : ∀ parts rendered, (made method pattern parts).render = .ok rendered ↔
    pattern.toList.head? = some '/' ∧ ∃ pieces, pattern.toList = pieces.flatMap Piece.source ∧
      AllBound (bound parts) pieces ∧
      rendered = String.ofList (pieces.flatMap (Piece.written (bound parts))) ++
        queryText (pairs parts)
  /-- A pattern that is not absolute is refused whatever else is wrong with it. -/
  relative : ∀ parts, pattern.toList.head? ≠ some '/' →
    (made method pattern parts).render = .error (.malformedPattern pattern .relative)
  /-- An absolute pattern fails exactly for what is wrong behind a row of sound pieces with values,
  which is what is wrong with it first. -/
  refused : ∀ parts e, pattern.toList.head? = some '/' →
    ((made method pattern parts).render = .error e ↔
      ∃ pieces rest, pattern.toList = pieces.flatMap Piece.source ++ rest ∧
        AllBound (bound parts) pieces ∧ Halts (bound parts) pattern e rest)
  /-- No brace of a value is left to be taken for one of the pattern. -/
  braceless : ∀ parts rendered, (made method pattern parts).render = .ok rendered →
    '{' ∉ rendered.toList ∧ '}' ∉ rendered.toList
  /-- Bindings of different names may trade places. -/
  swapped : ∀ before after (name other value value' : String), name ≠ other →
    (made method pattern
      (before ++ .binding name value :: .binding other value' :: after)).render =
    (made method pattern
      (before ++ .binding other value' :: .binding name value :: after)).render
  /-- A binding is lost if the name is bound again. -/
  overridden : ∀ before after (name value value' : String), .binding name value' ∈ after →
    (made method pattern (before ++ .binding name value :: after)).render =
      (made method pattern (before ++ after)).render
  /-- A binding of a name that stands between no braces of the pattern does nothing. -/
  unused : ∀ before after (name value : String), ¬ Mentions pattern.toList name →
    (made method pattern (before ++ .binding name value :: after)).render =
      (made method pattern (before ++ after)).render
  /-- Read by positions of octets, an absolute pattern comes to the same in the end, and no position
  is inside a character. -/
  positions : ∀ parts, pattern.toList.head? = some '/' → ∃ outcome,
    (∀ r, Walks (bound parts) pattern [] pattern.toList r ↔ r = some outcome) ∧
      (made method pattern parts).render =
        outcome.map fun path => String.ofList path ++ queryText (pairs parts)

/-- **Rendering accepts exactly the patterns.** A pattern is rendered if it is absolute, is a row of
characters and slots, and every slot has a value; the last value bound to a name is the one that
counts. Any other pattern fails, and for what is wrong with it first. -/
theorem renderLaw (method : Method) (pattern : String) : RenderLaw method pattern where
  accepted _ _ := render_eq_ok_iff
  relative parts relative := by rw [render_made, if_neg relative]
  refused _ _ := render_eq_error_iff
  braceless parts rendered ok := by
    obtain ⟨-, pieces, -, all, rfl⟩ := render_eq_ok_iff.mp ok
    exact ⟨not_mem_rendered all _ (.inl rfl), not_mem_rendered all _ (.inr rfl)⟩
  swapped before after name other value value' ne := by
    refine render_congr ?_ fun n _ => bound_swap ne n
    rw [pairs_binding, pairs_binding, pairs_binding, pairs_binding]
  overridden before after name value value' again :=
    render_congr (pairs_binding ..) fun n _ => bound_binding fun _ => bound_of_mem again
  unused before after name value silent := by
    refine render_congr (pairs_binding ..) fun n mentioned => bound_binding ?_
    rintro rfl
    exact absurd mentioned silent
  positions parts absolute := by
    refine ⟨path (bound parts) pattern pattern.toList, ?_, ?_⟩
    · intro r
      have whole : Walks (bound parts) pattern [] _ _ := walks_path [] pattern.toList
      have same : (path (bound parts) pattern pattern.toList).map ([] ++ ·) =
          path (bound parts) pattern pattern.toList := id_map (path (bound parts) pattern _)
      rw [same] at whole
      exact ⟨fun h => h.unique whole, fun h => h ▸ whole⟩
    · rw [render_made, if_pos absolute]

/-- The slot without a value stands before the brace that is never closed. -/
example : (made .get "/a/\x7bx\x7d/\x7by" []).render =
    .error (.missingParam "x" "/a/\x7bx\x7d/\x7by") := rfl

end Operation

end Courier.Api
