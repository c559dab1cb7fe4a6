import Courier.Http.MediaType
import Courier.Proofs.Grammar
import Courier.Proofs.Host

/-!
# Media types

A media type is two tokens with a slash between them, the second perhaps with a suffix, and then
parameters. What is a media type is said here by rules that know nothing of the reader, which
accepts exactly what they allow and does not tell capitals from small letters.

## Main results

* `MediaType.parametersOk_iff` — which parameters the reader lets through.
* `MediaType.parse?_eq_some_iff` — what is read as which media type.
* `MediaType.parse?_lower` — the case of letters does not matter.
-/
namespace Courier

/-! ## Letters of either case -/

/-- What does not tell capitals from small letters among the first characters never does. -/
theorem Text.apply_toLower {α : Type} {f : Char → α}
    (ascii : ∀ n < 128, f (Char.ofNat n).toLower = f (Char.ofNat n)) (c : Char) :
    f c.toLower = f c := by
  by_cases capital : 'A'.val ≤ c.val ∧ c.val ≤ 'Z'.val
  · have most : c.toNat ≤ 90 := UInt32.le_iff_toNat_le.mp capital.2
    have same := ascii c.toNat (by omega)
    rwa [Char.ofNat_toNat] at same
  · have kept : c.toLower = c := dif_neg capital
    rw [kept]

theorem Text.toList_lower (text : String) : (lower text).toList = text.toList.map Char.toLower := by
  rw [lower, String.toList_ofList]

theorem Text.lower_lower (text : String) : lower (lower text) = lower text := by
  have twice : Char.toLower ∘ Char.toLower = Char.toLower :=
    funext (Text.apply_toLower (by decide +kernel))
  rw [lower, toList_lower, List.map_map, twice, ← lower]

theorem Text.toList_lower_ofList (cs : List Char) :
    (lower (String.ofList cs)).toList = cs.map Char.toLower := by
  rw [toList_lower, String.toList_ofList]

theorem isTokenChar_toLower (c : Char) : isTokenChar c.toLower = isTokenChar c :=
  Text.apply_toLower (by decide +kernel) c

namespace MediaType

theorem step_toLower (s : ParameterState) (c : Char) : s.step c.toLower = s.step c := by
  refine Text.apply_toLower ?_ c
  cases s <;> decide +kernel

/-! ## Parameters -/

/-- A non-empty text of token characters. -/
def IsToken (cs : List Char) : Prop := cs ≠ [] ∧ ∀ c ∈ cs, isTokenChar c = true

/-- A value of a parameter. In quotes there is at least one character, and only the first may be a
quote itself. Spaces may follow the closing quote. -/
inductive IsValue : List Char → Prop where
  | token {value : List Char} (h : IsToken value) : IsValue value
  | quoted {first : Char} {value blanks : List Char} (opens : isQuotedChar first = true)
      (goesOn : ∀ c ∈ value, isQuotedChar c = true ∧ c ≠ '"') (blank : ∀ c ∈ blanks, c = ' ') :
      IsValue ('"' :: first :: (value ++ '"' :: blanks))

mutual

/-- Parameters: nothing but spaces, or spaces, a name and an equals sign with what follows it. -/
inductive IsParameters : List Char → Prop where
  | nothing {blanks : List Char} (blank : ∀ c ∈ blanks, c = ' ') : IsParameters blanks
  | named {blanks name after : List Char} (blank : ∀ c ∈ blanks, c = ' ') (h : IsToken name)
      (assigned : IsAssigned after) : IsParameters (blanks ++ (name ++ '=' :: after))

/-- What follows an equals sign. Only the last parameter may go without a value. -/
inductive IsAssigned : List Char → Prop where
  | unset : IsAssigned []
  | valued {value after : List Char} (h : IsValue value) (closed : IsClosed after) :
      IsAssigned (value ++ after)

/-- What follows a value: nothing, or a semicolon and further parameters. -/
inductive IsClosed : List Char → Prop where
  | ends : IsClosed []
  | more {after : List Char} (h : IsParameters after) : IsClosed (';' :: after)

end

/-- Characters of one class, and then what is allowed behind them. -/
def Run (p : Char → Prop) (tail : List Char → Prop) (cs : List Char) : Prop :=
  ∃ front back, cs = front ++ back ∧ (∀ c ∈ front, p c) ∧ tail back

section Run

variable {p : Char → Prop} {tail : List Char → Prop} {c : Char} {cs : List Char}

theorem run_nil : Run p tail [] ↔ tail [] := by
  constructor
  · rintro ⟨front, back, split, -, h⟩
    obtain ⟨rfl, rfl⟩ := List.append_eq_nil_iff.mp split.symm
    exact h
  · exact fun h => ⟨[], [], rfl, nofun, h⟩

theorem run_cons : Run p tail (c :: cs) ↔ p c ∧ Run p tail cs ∨ tail (c :: cs) := by
  constructor
  · rintro ⟨front, back, split, class_, h⟩
    obtain ⟨rfl, rfl⟩ | ⟨front, rfl, rfl⟩ := List.cons_eq_append_iff.mp split
    · exact .inr h
    · obtain ⟨first, others⟩ := List.forall_mem_cons.mp class_
      exact .inl ⟨first, front, back, rfl, others, h⟩
  · rintro (⟨first, front, back, rfl, others, h⟩ | h)
    · exact ⟨c :: front, back, rfl, List.forall_mem_cons.mpr ⟨first, others⟩, h⟩
    · exact ⟨[], c :: cs, rfl, nofun, h⟩

end Run

/-- An equals sign with what follows it. -/
def Equated (cs : List Char) : Prop := ∃ after, cs = '=' :: after ∧ IsAssigned after

/-- A name, an equals sign and what follows it. -/
def Named (cs : List Char) : Prop :=
  ∃ first rest, cs = first :: rest ∧ isTokenChar first = true ∧
    Run (isTokenChar · = true) Equated rest

/-- A closing quote with what follows it. -/
def Unquoted (cs : List Char) : Prop := ∃ after, cs = '"' :: after ∧ Run (· = ' ') IsClosed after

/-- What may still come where the reader of parameters stands. -/
def Rest : ParameterState → List Char → Prop
  | .beforeName => Run (· = ' ') fun cs => cs = [] ∨ Named cs
  | .name => Run (isTokenChar · = true) Equated
  | .beforeValue => IsAssigned
  | .value => Run (isTokenChar · = true) IsClosed
  | .quoteOpened => fun cs => ∃ first rest, cs = first :: rest ∧ isQuotedChar first = true ∧
      Run (fun c => isQuotedChar c = true ∧ c ≠ '"') Unquoted rest
  | .quoted => Run (fun c => isQuotedChar c = true ∧ c ≠ '"') Unquoted
  | .quoteClosed => Run (· = ' ') IsClosed

theorem isParameters_iff {cs : List Char} : IsParameters cs ↔ Rest .beforeName cs := by
  constructor
  · intro h
    cases h with
    | @nothing _ blank => exact ⟨cs, [], (List.append_nil cs).symm, blank, .inl rfl⟩
    | @named blanks name after blank h assigned =>
      obtain ⟨first, rest, rfl⟩ := List.exists_cons_of_ne_nil h.1
      obtain ⟨token, tokens⟩ := List.forall_mem_cons.mp h.2
      exact ⟨blanks, _, rfl, blank, .inr ⟨first, _, rfl, token, rest, _, rfl, tokens, after, rfl,
        assigned⟩⟩
  · rintro ⟨blanks, back, rfl, blank, rfl | ⟨first, _, rfl, token, rest, _, rfl, tokens, after, rfl,
      assigned⟩⟩
    · rw [List.append_nil]
      exact .nothing blank
    · have h : IsToken (first :: rest) :=
        ⟨List.cons_ne_nil _ _, List.forall_mem_cons.mpr ⟨token, tokens⟩⟩
      exact .named blank h assigned

theorem isClosed_cons {c : Char} {cs : List Char} :
    IsClosed (c :: cs) ↔ c = ';' ∧ Rest .beforeName cs := by
  rw [← isParameters_iff]
  constructor
  · rintro ⟨⟩
    exact ⟨rfl, ‹_›⟩
  · rintro ⟨rfl, h⟩
    exact .more h

theorem isAssigned_cons {c : Char} {cs : List Char} :
    IsAssigned (c :: cs) ↔
      isTokenChar c = true ∧ Rest .value cs ∨ c = '"' ∧ Rest .quoteOpened cs := by
  constructor
  · intro h
    generalize whole : c :: cs = ds at h
    cases h with
    | unset => cases whole
    | @valued value after h closed =>
      cases h with
      | token h =>
        obtain ⟨first, rest, rfl⟩ := List.exists_cons_of_ne_nil h.1
        obtain ⟨rfl, rfl⟩ := List.cons.inj whole
        obtain ⟨token, tokens⟩ := List.forall_mem_cons.mp h.2
        exact .inl ⟨token, rest, after, rfl, tokens, closed⟩
      | @quoted first value blanks opens goesOn blank =>
        obtain ⟨rfl, rfl⟩ := List.cons.inj whole
        refine .inr ⟨rfl, first, _, rfl, opens, value, '"' :: (blanks ++ after), ?_, goesOn, _, rfl,
          blanks, after, rfl, blank, closed⟩
        simp
  · rintro (⟨token, rest, after, rfl, tokens, closed⟩ |
      ⟨rfl, first, _, rfl, opens, value, _, rfl, goesOn, _, rfl, blanks, after, rfl, blank, closed⟩)
    · have h : IsToken (c :: rest) :=
        ⟨List.cons_ne_nil _ _, List.forall_mem_cons.mpr ⟨token, tokens⟩⟩
      exact .valued (.token h) closed
    · have whole := IsAssigned.valued (.quoted opens goesOn blank) closed
      simpa using whole

/-- The parameters may end exactly where the reader lets them end. -/
theorem rest_nil {s : ParameterState} : Rest s [] ↔ s.canEnd = true := by
  cases s with
  | beforeName => exact iff_of_true (run_nil.mpr (.inl rfl)) rfl
  | name => exact iff_of_false (fun h => by obtain ⟨_, same, -⟩ := run_nil.mp h; cases same) nofun
  | beforeValue => exact iff_of_true .unset rfl
  | value => exact iff_of_true (run_nil.mpr .ends) rfl
  | quoteOpened => exact iff_of_false (fun ⟨_, _, same, _⟩ => by cases same) nofun
  | quoted => exact iff_of_false (fun h => by obtain ⟨_, same, -⟩ := run_nil.mp h; cases same) nofun
  | quoteClosed => exact iff_of_true (run_nil.mpr .ends) rfl

theorem named_cons {c : Char} {cs : List Char} :
    Named (c :: cs) ↔ isTokenChar c = true ∧ Rest .name cs :=
  ⟨fun ⟨_, _, same, h⟩ => by cases same; exact h, fun h => ⟨c, cs, rfl, h⟩⟩

theorem equated_cons {c : Char} {cs : List Char} :
    Equated (c :: cs) ↔ c = '=' ∧ Rest .beforeValue cs :=
  ⟨fun ⟨_, same, h⟩ => by cases same; exact ⟨rfl, h⟩, fun ⟨same, h⟩ => ⟨cs, by rw [same], h⟩⟩

theorem unquoted_cons {c : Char} {cs : List Char} :
    Unquoted (c :: cs) ↔ c = '"' ∧ Rest .quoteClosed cs :=
  ⟨fun ⟨_, same, h⟩ => by cases same; exact ⟨rfl, h⟩, fun ⟨same, h⟩ => ⟨cs, by rw [same], h⟩⟩

/-- The reader takes a character exactly where it may come, and goes on with what may follow. -/
theorem rest_cons {s : ParameterState} {c : Char} {cs : List Char} :
    Rest s (c :: cs) ↔ ∃ t, s.step c = some t ∧ Rest t cs := by
  have other : isTokenChar ' ' = false ∧ isTokenChar '=' = false ∧ isTokenChar ';' = false ∧
      isTokenChar '"' = false := by decide
  obtain ⟨blank, equals, semicolon, quote⟩ := other
  cases s with
  | beforeName =>
    rw [Rest, run_cons, named_cons, ParameterState.step]
    by_cases h : c = ' '
    · simp [h, blank, Rest]
    · by_cases token : isTokenChar c = true <;> simp [h, token]
  | name =>
    rw [Rest, run_cons, equated_cons, ParameterState.step]
    by_cases h : c = '='
    · simp [h, equals]
    · by_cases token : isTokenChar c = true <;> simp [h, token, Rest]
  | beforeValue =>
    rw [Rest, isAssigned_cons, ParameterState.step]
    by_cases h : c = '"'
    · simp [h, quote]
    · by_cases token : isTokenChar c = true <;> simp [h, token]
  | value =>
    rw [Rest, run_cons, isClosed_cons, ParameterState.step]
    by_cases h : c = ';'
    · simp [h, semicolon]
    · by_cases token : isTokenChar c = true <;> simp [h, token, Rest]
  | quoteOpened =>
    rw [Rest, ParameterState.step]
    by_cases quotable : isQuotedChar c = true <;> simp [quotable, Rest]
  | quoted =>
    rw [Rest, run_cons, unquoted_cons, ParameterState.step]
    by_cases h : c = '"'
    · simp [h]
    · by_cases quotable : isQuotedChar c = true <;> simp [h, quotable, Rest]
  | quoteClosed =>
    rw [Rest, run_cons, isClosed_cons, ParameterState.step]
    by_cases h : c = ';'
    · simp [h]
    · by_cases blank : c = ' ' <;> simp [h, blank, Rest]

/-- What the reader accepts from where it stands is what may still come there. -/
theorem rest_iff {s : ParameterState} {cs : List Char} :
    Rest s cs ↔ ∃ t, cs.foldlM ParameterState.step s = some t ∧ t.canEnd = true := by
  induction cs generalizing s with
  | nil =>
    rw [rest_nil]
    exact ⟨fun h => ⟨s, rfl, h⟩, fun ⟨_, same, h⟩ => by cases same; exact h⟩
  | cons c cs ih =>
    rw [rest_cons, List.foldlM_cons]
    constructor
    · rintro ⟨t, next, h⟩
      obtain ⟨u, read, ends⟩ := ih.mp h
      exact ⟨u, by rw [next]; exact read, ends⟩
    · rintro ⟨u, read, ends⟩
      obtain ⟨t, next, read⟩ := Option.bind_eq_some_iff.mp read
      exact ⟨t, next, ih.mpr ⟨u, read, ends⟩⟩

/-- **Parameters.** The reader lets through exactly what the rules allow. -/
theorem parametersOk_iff {cs : List Char} : parametersOk cs = true ↔ IsParameters cs := by
  rw [isParameters_iff, rest_iff, parametersOk]
  cases cs.foldlM ParameterState.step .beforeName with
  | none => simp
  | some t => simp

/-! ## Types and subtypes -/

/-- The text is a subtype, `base` without its suffix, which starts at the last plus sign unless that
is the first character. -/
inductive HasBase (base : List Char) : List Char → Prop where
  | whole (h : '+' ∉ base.drop 1) : HasBase base base
  | suffixed {suffix : List Char} (ne : base ≠ []) (last : '+' ∉ suffix) :
      HasBase base (base ++ '+' :: suffix)

/-- What may follow a subtype: nothing, or parameters behind a semicolon if there is a subtype. -/
inductive Follows (subtype : List Char) : List Char → Prop where
  | nothing : Follows subtype []
  | parameters {cs : List Char} (ne : subtype ≠ []) (h : IsParameters cs) :
      Follows subtype (';' :: cs)

/-- The characters are a media type with this type and this subtype. -/
inductive Written : List Char → MediaType → Prop where
  | mk {type subtype base after : List Char} (named : IsToken type)
      (tokens : ∀ c ∈ subtype, isTokenChar c = true) (hasBase : HasBase base subtype)
      (follows : Follows subtype after) :
      Written (type ++ '/' :: (subtype ++ after))
        ⟨Text.lower (String.ofList type), Text.lower (String.ofList base)⟩

theorem HasBase.dropSuffix_eq {base cs : List Char} (h : HasBase base cs) :
    dropSuffix cs = base := by
  cases h with
  | whole none =>
    have passed : (base.drop 1).reverse.dropWhile (· != '+') = [] := by
      rw [List.dropWhile_eq_nil_iff]
      intro c hc
      exact bne_iff_ne.mpr fun same => none (same ▸ List.mem_reverse.mp hc)
    rw [dropSuffix, passed]
  | @suffixed suffix ne last =>
    obtain ⟨b, bs, rfl⟩ := List.exists_cons_of_ne_nil ne
    have passed : ((b :: bs ++ '+' :: suffix).drop 1).reverse.dropWhile (· != '+') =
        '+' :: bs.reverse := by
      rw [List.cons_append, List.drop_succ_cons, List.drop_zero, List.reverse_append,
        List.reverse_cons, List.append_assoc, List.dropWhile_append_of_pos]
      · rfl
      · intro c hc
        exact bne_iff_ne.mpr fun same => last (same ▸ List.mem_reverse.mp hc)
    rw [dropSuffix, passed]
    simp

theorem HasBase.exists_append {base cs : List Char} (h : HasBase base cs) :
    ∃ more, cs = base ++ more := by
  cases h with
  | whole _ => exact ⟨[], (List.append_nil base).symm⟩
  | suffixed _ _ => exact ⟨_, rfl⟩

/-- A subtype has exactly one base. -/
theorem hasBase_dropSuffix (cs : List Char) : HasBase (dropSuffix cs) cs := by
  by_cases plus : '+' ∈ cs.drop 1
  · obtain ⟨front, suffix, split, last⟩ := exists_last_mark plus
    cases cs with
    | nil => cases plus
    | cons c cs =>
      rw [List.drop_succ_cons, List.drop_zero] at split
      have h : HasBase (c :: front) (c :: cs) := by
        rw [split, ← List.cons_append]
        exact .suffixed (List.cons_ne_nil _ _) last
      rwa [h.dropSuffix_eq]
  · have h : HasBase cs cs := .whole plus
    rwa [h.dropSuffix_eq]

/-- A token ends before a slash. -/
theorem free_slash (cs : List Char) : Json.Free isTokenChar ('/' :: cs) := by
  rintro _ ⟨⟩
  decide

/-- So it does where a subtype ends, at the end or before a semicolon. -/
theorem Follows.free {subtype after : List Char} (h : Follows subtype after) :
    Json.Free isTokenChar after := by
  cases h with
  | nothing => exact Json.free_nil _
  | parameters ne h =>
    rintro _ ⟨⟩
    decide

/-- What a media type says is found in one way only. -/
theorem Written.eq_mk {type subtype after : List Char} {m : MediaType}
    (named : ∀ c ∈ type, isTokenChar c = true) (tokens : ∀ c ∈ subtype, isTokenChar c = true)
    (free : Json.Free isTokenChar after) (h : Written (type ++ '/' :: (subtype ++ after)) m) :
    m = ⟨Text.lower (String.ofList type), Text.lower (String.ofList (dropSuffix subtype))⟩ := by
  generalize whole : type ++ '/' :: (subtype ++ after) = cs at h
  cases h with
  | @mk type' subtype' base after' named' tokens' hasBase follows =>
    obtain ⟨typed, slash⟩ := Json.span_append named (free_slash (subtype ++ after))
    obtain ⟨typed', slash'⟩ := Json.span_append named'.2 (free_slash (subtype' ++ after'))
    rw [whole, typed'] at typed
    rw [whole, slash'] at slash
    have rest := (List.cons.inj slash).2
    have taken := (Json.span_append tokens free).1
    rw [← rest, (Json.span_append tokens' follows.free).1] at taken
    rw [typed, ← taken, hasBase.dropSuffix_eq]

/-- **Media types.** What is read as a media type, and as which, is what the rules say. -/
theorem parse?_eq_some_iff {text : String} {m : MediaType} :
    parse? text = some m ↔ Written text.toList m := by
  constructor
  · intro read
    have whole := List.takeWhile_append_dropWhile (p := isTokenChar) (l := text.toList)
    have tokens : ∀ c ∈ text.toList.takeWhile isTokenChar, isTokenChar c = true :=
      fun c hc => List.mem_takeWhile_imp hc
    rw [parse?] at read
    simp only at read
    split at read
    next first type rest typed slash =>
      have whole' := List.takeWhile_append_dropWhile (p := isTokenChar) (l := rest)
      have named : IsToken (text.toList.takeWhile isTokenChar) := by
        rw [typed] at tokens ⊢
        exact ⟨List.cons_ne_nil _ _, tokens⟩
      rw [← whole, slash, ← whole']
      have tokens' : ∀ c ∈ rest.takeWhile isTokenChar, isTokenChar c = true :=
        fun c hc => List.mem_takeWhile_imp hc
      split at read
      next done =>
        rw [← Option.some.inj read, done]
        exact .mk named tokens' (hasBase_dropSuffix _) .nothing
      next parameters done =>
        split at read
        next ok =>
          rw [Bool.and_eq_true, Bool.not_eq_true', List.isEmpty_eq_false_iff] at ok
          rw [← Option.some.inj read, done]
          exact .mk named tokens' (hasBase_dropSuffix _)
            (.parameters ok.1 (parametersOk_iff.mp ok.2))
        · cases read
      · cases read
    · cases read
  · intro h
    rw [parse?]
    generalize text.toList = cs at h
    cases h with
    | @mk type subtype base after named tokens hasBase follows =>
      obtain ⟨typed, slash⟩ := Json.span_append named.2 (free_slash (subtype ++ after))
      obtain ⟨taken, left⟩ := Json.span_append tokens follows.free
      obtain ⟨first, rest, rfl⟩ := List.exists_cons_of_ne_nil named.1
      simp only [typed, slash, taken, left, hasBase.dropSuffix_eq]
      cases follows with
      | nothing => rfl
      | parameters ne h => simp [ne, parametersOk_iff.mpr h]

/-! ## Capitals and small letters -/

theorem parametersOk_lower (cs : List Char) :
    parametersOk (cs.map Char.toLower) = parametersOk cs := by
  simp only [parametersOk, List.foldlM_map, step_toLower]

theorem HasBase.lower {base cs : List Char} (h : HasBase base cs) :
    HasBase (base.map Char.toLower) (cs.map Char.toLower) := by
  have plus {cs : List Char} (none : '+' ∉ cs) : '+' ∉ cs.map Char.toLower := by
    intro inside
    obtain ⟨c, hc, same⟩ := List.mem_map.mp inside
    exact none (Text.eq_of_toLower_eq same (by decide) ▸ hc)
  cases h with
  | whole none =>
    refine .whole ?_
    rw [← List.map_drop]
    exact plus none
  | suffixed ne last =>
    rw [List.map_append, List.map_cons]
    exact .suffixed (fun none => ne (List.map_eq_nil_iff.mp none)) (plus last)

theorem dropSuffix_lower (cs : List Char) :
    dropSuffix (cs.map Char.toLower) = (dropSuffix cs).map Char.toLower :=
  (hasBase_dropSuffix cs).lower.dropSuffix_eq

theorem lower_map_toLower (cs : List Char) :
    Text.lower (String.ofList (cs.map Char.toLower)) = Text.lower (String.ofList cs) := by
  have lowered : String.ofList (cs.map Char.toLower) = Text.lower (String.ofList cs) := by
    rw [Text.lower, String.toList_ofList]
  rw [lowered, Text.lower_lower]

/-- **The case of letters** does not matter where a media type is read. -/
theorem parse?_lower (text : String) : parse? (Text.lower text) = parse? text := by
  have tokens : isTokenChar ∘ Char.toLower = isTokenChar := funext isTokenChar_toLower
  rw [parse?, parse?, Text.toList_lower]
  simp only [List.takeWhile_map, List.dropWhile_map, tokens]
  generalize text.toList.takeWhile isTokenChar = type
  generalize text.toList.dropWhile isTokenChar = rest
  cases type with
  | nil => rfl
  | cons first type =>
    have named := lower_map_toLower (first :: type)
    rw [List.map_cons] at named
    cases rest with
    | nil => rfl
    | cons c rest =>
      by_cases h : c = '/'
      · subst h
        have slash : Char.toLower '/' = '/' := rfl
        have semicolon : Char.toLower ';' = ';' := rfl
        simp only [List.map_cons, slash, named, List.takeWhile_map, List.dropWhile_map, tokens,
          dropSuffix_lower, lower_map_toLower]
        generalize rest.takeWhile isTokenChar = subtype
        generalize rest.dropWhile isTokenChar = after
        cases after with
        | nil => rfl
        | cons d after =>
          by_cases h : d = ';'
          · subst h
            simp only [List.map_cons, semicolon, List.isEmpty_map, parametersOk_lower]
          · have other : d.toLower ≠ ';' := fun same =>
              h (Text.eq_of_toLower_eq same (by decide))
            simp [h, other]
      · have other : c.toLower ≠ '/' := fun same =>
          h (Text.eq_of_toLower_eq same (by decide))
        simp [h, other]

end MediaType
end Courier
