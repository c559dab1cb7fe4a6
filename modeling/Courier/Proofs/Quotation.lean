import Courier.Proofs.Grammar

/-!
# Quoted texts

A quoted text is a row of parts: characters, raw or by the letter of a short escape, and units of
16 bits given by four hexadecimal digits. The parts denote characters unless one of the units is
half a surrogate pair without its other half. A reader that passes over a text asks for parts up to
a quote (`skipQuoted_sound`, `skipQuoted_complete`), and one that reads it asks as well that they
denote characters (`quotedBytes_sound`, `quotedBytes_complete`).
-/
namespace Courier.Json

open Utf8

/-- A part of a quoted text: a character, or a unit of 16 bits given by its number. -/
inductive Piece where
  | char (c : Char)
  | unit (n : Nat)

/-- A hexadecimal digit of either case and its value. -/
def IsHex (c : Char) (n : Nat) : Prop := n < 16 ∧ (c = hexDigit n ∨ c = (hexDigit n).toUpper)

instance (c : Char) (n : Nat) : Decidable (IsHex c n) := inferInstanceAs (Decidable (_ ∧ _))

/-- Four hexadecimal digits and the number they give, from the first text up to the second. -/
inductive FourHex : Nat → List Char → List Char → Prop where
  | mk {p q r s : Char} {a b c d : Nat} (hp : IsHex p a) (hq : IsHex q b) (hr : IsHex r c)
      (hs : IsHex s d) (rest : List Char) :
      FourHex (((a * 16 + b) * 16 + c) * 16 + d) (p :: q :: r :: s :: rest) rest

/-- The letters that stand for a character after a reverse solidus. -/
def shortEscapes : List (Char × Char) :=
  [('"', '"'), ('\\', '\\'), ('/', '/'), ('b', '\x08'), ('f', '\x0c'), ('n', '\x0a'),
    ('r', '\x0d'), ('t', '\x09')]

/-- A part of a quoted text, from the first text up to the second. -/
inductive PieceText : Piece → List Char → List Char → Prop where
  | raw {c : Char} (quote : c ≠ '"') (solidus : c ≠ '\\') (large : 32 ≤ c.toNat)
      (rest : List Char) : PieceText (.char c) (c :: rest) rest
  | short {letter c : Char} (h : (letter, c) ∈ shortEscapes) (rest : List Char) :
      PieceText (.char c) ('\\' :: letter :: rest) rest
  | unit {n : Nat} {cs rest : List Char} (h : FourHex n cs rest) :
      PieceText (.unit n) ('\\' :: 'u' :: cs) rest

/-- Parts of a quoted text, from the first text up to the second. -/
inductive Parts : List Piece → List Char → List Char → Prop where
  | none (cs : List Char) : Parts [] cs cs
  | more {p : Piece} {ps : List Piece} {cs mid rest : List Char} (first : PieceText p cs mid)
      (others : Parts ps mid rest) : Parts (p :: ps) cs rest

/-- The first half of a surrogate pair. -/
def IsHigh (n : Nat) : Prop := 0xD800 ≤ n ∧ n < 0xDC00

instance (n : Nat) : Decidable (IsHigh n) := inferInstanceAs (Decidable (_ ∧ _))

/-- The second half of a surrogate pair. -/
def IsLow (n : Nat) : Prop := 0xDC00 ≤ n ∧ n < 0xE000

instance (n : Nat) : Decidable (IsLow n) := inferInstanceAs (Decidable (_ ∧ _))

/-- The character of a surrogate pair. -/
def pair (high low : Nat) : Char :=
  Char.ofNat (0x10000 + (high - 0xD800) * 0x400 + (low - 0xDC00))

/-- The characters that parts stand for. Half a surrogate pair stands for none. -/
inductive Denotes : List Piece → List Char → Prop where
  | nil : Denotes [] []
  | char (c : Char) {ps : List Piece} {cs : List Char} (h : Denotes ps cs) :
      Denotes (.char c :: ps) (c :: cs)
  | unit {n : Nat} {ps : List Piece} {cs : List Char} (high : ¬ IsHigh n) (low : ¬ IsLow n)
      (h : Denotes ps cs) : Denotes (.unit n :: ps) (Char.ofNat n :: cs)
  | pair {m n : Nat} {ps : List Piece} {cs : List Char} (high : IsHigh m) (low : IsLow n)
      (h : Denotes ps cs) : Denotes (.unit m :: .unit n :: ps) (Json.pair m n :: cs)

theorem hex_front {cs : List Char} {b : UInt8} {bs : Bytes} {n : Nat}
    (start : octets cs = b :: bs) (value : hexValue? b = some n) :
    ∃ c rest, cs = c :: rest ∧ bs = octets rest ∧ IsHex c n := by
  have all : ∀ b : UInt8, ((hexValue? b).all fun n =>
      decide (b.toNat < 128 ∧ IsHex (Char.ofNat b.toNat) n)) = true := by
    apply Percent.forall_octet
    decide +kernel
  have known := all b
  rw [value, Option.all_some, decide_eq_true_eq] at known
  obtain ⟨small, hex⟩ := known
  obtain ⟨rest, rfl, rfl⟩ := (octets_eq_cons_iff (alone_of_small b small)).1 start
  exact ⟨_, rest, rfl, rfl, hex⟩

theorem IsHex.alone {c : Char} {n : Nat} (h : IsHex c n) :
    ∃ b, String.utf8EncodeChar c = [b] ∧ hexValue? b = some n := by
  have all : ∀ n : Fin 16,
      (String.utf8EncodeChar (hexDigit n)).map hexValue? = [some n.val] ∧
        (String.utf8EncodeChar (hexDigit n).toUpper).map hexValue? = [some n.val] := by
    decide +kernel
  obtain ⟨small, rfl | rfl⟩ := h
  · exact List.map_eq_singleton_iff.1 (all ⟨n, small⟩).1
  · exact List.map_eq_singleton_iff.1 (all ⟨n, small⟩).2

theorem hexFour_eq_some_iff {cs : List Char} {n : Nat} {left : Bytes} :
    hexFour (octets cs) = some (n, left) ↔ ∃ rest, left = octets rest ∧ FourHex n cs rest := by
  constructor
  · intro h
    unfold hexFour at h
    split at h
    next p q r s bs start =>
      split at h
      next hp hq hr hs =>
        cases h
        obtain ⟨p, cs, rfl, next, hp⟩ := hex_front start hp
        obtain ⟨q, cs, rfl, next, hq⟩ := hex_front next.symm hq
        obtain ⟨r, cs, rfl, next, hr⟩ := hex_front next.symm hr
        obtain ⟨s, cs, rfl, next, hs⟩ := hex_front next.symm hs
        exact ⟨cs, next, ⟨hp, hq, hr, hs, cs⟩⟩
      · cases h
    · cases h
  · rintro ⟨rest, rfl, hp, hq, hr, hs, -⟩
    obtain ⟨p, alone, vp⟩ := hp.alone
    rw [octets_cons_of_alone alone]
    obtain ⟨q, alone, vq⟩ := hq.alone
    rw [octets_cons_of_alone alone]
    obtain ⟨r, alone, vr⟩ := hr.alone
    rw [octets_cons_of_alone alone]
    obtain ⟨s, alone, vs⟩ := hs.alone
    rw [octets_cons_of_alone alone]
    simp only [hexFour, vp, vq, vr, vs]

theorem short_front {cs : List Char} {b : UInt8} {bs : Bytes} {c : Char}
    (start : octets cs = b :: bs) (stands : shortEscape? b = some c) :
    ∃ letter rest, cs = letter :: rest ∧ bs = octets rest ∧ (letter, c) ∈ shortEscapes := by
  have all : ∀ b : UInt8, ((shortEscape? b).all fun c =>
      decide (b.toNat < 128 ∧ (Char.ofNat b.toNat, c) ∈ shortEscapes)) = true := by
    apply Percent.forall_octet
    decide +kernel
  have known := all b
  rw [stands, Option.all_some, decide_eq_true_eq] at known
  obtain ⟨small, known⟩ := known
  obtain ⟨rest, rfl, rfl⟩ := (octets_eq_cons_iff (alone_of_small b small)).1 start
  exact ⟨_, rest, rfl, rfl, known⟩

theorem short_alone {letter c : Char} (h : (letter, c) ∈ shortEscapes) :
    ∃ b, String.utf8EncodeChar letter = [b] ∧ b ≠ 0x75 ∧ shortEscape? b = some c := by
  have all : ∀ m ∈ shortEscapes,
      (String.utf8EncodeChar m.1).map (fun b => (b == 0x75, shortEscape? b)) =
        [(false, some m.2)] := by
    decide +kernel
  obtain ⟨b, alone, stands⟩ := List.map_eq_singleton_iff.1 (all _ h)
  simp only [Prod.mk.injEq, beq_eq_false_iff_ne] at stands
  exact ⟨b, alone, stands⟩

theorem Parts.append {ps qs : List Piece} {cs mid rest : List Char} (h : Parts ps cs mid)
    (more : Parts qs mid rest) : Parts (ps ++ qs) cs rest := by
  induction h with
  | none => exact more
  | more first _ ih => exact .more first (ih more)

theorem Denotes.append {ps qs : List Piece} {cs ds : List Char} (h : Denotes ps cs)
    (more : Denotes qs ds) : Denotes (ps ++ qs) (cs ++ ds) := by
  induction h with
  | nil => exact more
  | char c _ ih => exact .char c ih
  | unit high low _ ih => exact .unit high low ih
  | pair high low _ ih => exact .pair high low ih

theorem PieceText.length_lt {p : Piece} {cs rest : List Char} (h : PieceText p cs rest) :
    rest.length < cs.length := by
  cases h with
  | raw => exact Nat.lt_succ_self _
  | short =>
    simp only [List.length_cons]
    omega
  | unit h =>
    cases h
    simp only [List.length_cons]
    omega

theorem Parts.length_le {ps : List Piece} {cs rest : List Char} (h : Parts ps cs rest) :
    rest.length ≤ cs.length := by
  induction h with
  | none => exact Nat.le_refl _
  | more first _ ih => exact Nat.le_trans ih (Nat.le_of_lt first.length_lt)

/-- The quote, the reverse solidus and control characters do not stand for themselves. -/
theorem front_cases (c : Char) : c = '"' ∨ c = '\\' ∨
    (∃ b, String.utf8EncodeChar c = [b] ∧ b ≠ 0x22 ∧ b ≠ 0x5C ∧ b < 0x20) ∨
    c ≠ '"' ∧ c ≠ '\\' ∧ 32 ≤ c.toNat := by
  by_cases quote : c = '"'
  · exact .inl quote
  by_cases solidus : c = '\\'
  · exact .inr (.inl solidus)
  by_cases small : c.toNat < 32
  · have all : ∀ n : Fin 32, (String.utf8EncodeChar (Char.ofNat n)).map
        (fun b => decide (b ≠ 0x22 ∧ b ≠ 0x5C ∧ b < 0x20)) = [true] := by
      decide +kernel
    obtain ⟨b, alone, control⟩ := List.map_eq_singleton_iff.1 (all ⟨c.toNat, small⟩)
    rw [Char.ofNat_toNat] at alone
    exact .inr (.inr (.inl ⟨b, alone, of_decide_eq_true control⟩))
  · exact .inr (.inr (.inr ⟨quote, solidus, Nat.not_lt.1 small⟩))

theorem lowSurrogate_sound {high : Nat} {cs : List Char} {c : Char} {left : Bytes}
    (h : lowSurrogate high (octets cs) = some (c, left)) :
    ∃ n rest, c = pair high n ∧ left = octets rest ∧ IsLow n ∧ PieceText (.unit n) cs rest := by
  unfold lowSurrogate at h
  split at h
  next bs start =>
    obtain ⟨cs, rfl, next⟩ := (octets_eq_cons_iff (c := '\\') rfl).1 start
    obtain ⟨cs, rfl, rfl⟩ := (octets_eq_cons_iff (c := 'u') rfl).1 next.symm
    split at h
    next n bs read =>
      obtain ⟨rest, rfl, four⟩ := hexFour_eq_some_iff.1 read
      split at h
      next low =>
        obtain ⟨rfl, rfl⟩ := Prod.mk.inj (Option.some.inj h)
        exact ⟨n, rest, rfl, rfl, low, .unit four⟩
      · cases h
    · cases h
  · cases h

theorem escaped_sound {cs : List Char} {c : Char} {left : Bytes}
    (h : escaped (octets cs) = some (c, left)) :
    ∃ ps rest, left = octets rest ∧ Parts ps ('\\' :: cs) rest ∧ Denotes ps [c] := by
  unfold escaped at h
  split at h
  next bs start =>
    obtain ⟨cs, rfl, rfl⟩ := (octets_eq_cons_iff (c := 'u') rfl).1 start
    split at h
    next n bs read =>
      obtain ⟨rest, rfl, four⟩ := hexFour_eq_some_iff.1 read
      split at h
      next high =>
        obtain ⟨m, rest, same, rfl, low, second⟩ := lowSurrogate_sound h
        rw [same]
        exact ⟨_, rest, rfl, .more (.unit four) (.more second (.none rest)), .pair high low .nil⟩
      next high =>
        split at h
        · cases h
        next low =>
          cases h
          exact ⟨_, rest, rfl, .more (.unit four) (.none rest), .unit high low .nil⟩
    · cases h
  next b bs _ start =>
    obtain ⟨c, stands, same⟩ := Option.map_eq_some_iff.1 h
    cases same
    obtain ⟨letter, rest, rfl, rfl, known⟩ := short_front start stands
    exact ⟨_, rest, rfl, .more (.short known rest) (.none rest), .char c .nil⟩
  · cases h

theorem escaped_short {letter c : Char} (h : (letter, c) ∈ shortEscapes) (rest : List Char) :
    escaped (octets (letter :: rest)) = some (c, octets rest) := by
  obtain ⟨b, alone, other, stands⟩ := short_alone h
  rw [octets_cons_of_alone alone]
  unfold escaped
  split
  next same => exact absurd (List.cons.inj same).1 other
  next same =>
    obtain ⟨rfl, rfl⟩ := List.cons.inj same
    rw [stands]
    rfl
  next same => cases same

theorem escaped_unit {n : Nat} {cs rest : List Char} (h : FourHex n cs rest) :
    escaped (octets ('u' :: cs)) =
      if IsHigh n then lowSurrogate n (octets rest)
      else if IsLow n then none
      else some (Char.ofNat n, octets rest) := by
  rw [octets_cons_of_alone (b := 0x75) rfl]
  simp only [escaped, hexFour_eq_some_iff.2 ⟨rest, rfl, h⟩]
  rfl

theorem lowSurrogate_complete {m n : Nat} {cs rest : List Char} (low : IsLow n)
    (h : PieceText (.unit n) cs rest) :
    lowSurrogate m (octets cs) = some (pair m n, octets rest) := by
  cases h with
  | unit four =>
    rw [octets_cons_of_alone (b := 0x5C) rfl, octets_cons_of_alone (b := 0x75) rfl]
    simp only [lowSurrogate, hexFour_eq_some_iff.2 ⟨rest, rfl, four⟩]
    exact if_pos low

theorem exists_escaped {tail : Bytes} {r : Bytes × Bytes}
    (h : quotedBytes (0x5C :: tail) = some r) : ∃ c left, escaped tail = some (c, left) := by
  rw [quotedBytes, if_neg (by decide), if_pos rfl] at h
  split at h
  · cases h
  next c left read => exact ⟨c, left, read⟩

/-- What the parts up to the closing quote stand for. -/
theorem quotedBytes_sound {cs : List Char} {text left : Bytes}
    (h : quotedBytes (octets cs) = some (text, left)) :
    ∃ ps ds rest, text = octets ds ∧ left = octets rest ∧ Parts ps cs ('"' :: rest) ∧
      Denotes ps ds := by
  -- Each step leaves fewer octets.
  induction size : (octets cs).length using Nat.strong_induction_on generalizing cs text with
  | _ n ih =>
  subst size
  cases cs with
  | nil => rw [octets_nil, quotedBytes] at h; cases h
  | cons c cs =>
    obtain rfl | rfl | ⟨b, alone, quote, solidus, control⟩ | ⟨quote, solidus, large⟩ :=
      front_cases c
    · rw [octets_cons_of_alone (b := 0x22) rfl, quotedBytes_close] at h
      cases h
      exact ⟨[], [], cs, rfl, rfl, .none _, .nil⟩
    · rw [octets_cons_of_alone (b := 0x5C) rfl] at h ih
      obtain ⟨c, left, read⟩ := exists_escaped h
      have shorter := length_escaped_lt read
      obtain ⟨ps, rest, rfl, parts, denotes⟩ := escaped_sound read
      rw [quotedBytes_escaped read] at h
      obtain ⟨⟨text, _⟩, more, same⟩ := Option.map_eq_some_iff.1 h
      cases same
      obtain ⟨qs, ds, rest, rfl, rfl, others, denoted⟩ :=
        ih _ (Nat.lt_succ_of_lt shorter) more rfl
      exact ⟨ps ++ qs, c :: ds, rest, rfl, rfl, parts.append others, denotes.append denoted⟩
    · rw [octets_cons_of_alone alone, quotedBytes, if_neg quote, if_neg solidus,
        if_pos control] at h
      cases h
    · rw [octets_cons, quotedBytes_plain (isPlain_encodeChar quote solidus large)] at h
      obtain ⟨⟨text, _⟩, more, same⟩ := Option.map_eq_some_iff.1 h
      cases same
      have shorter : (octets cs).length < (octets (c :: cs)).length := by
        rw [octets_cons, List.length_append]
        exact Nat.lt_add_of_pos_left (List.length_pos_iff.2 String.utf8EncodeChar_ne_nil)
      obtain ⟨qs, ds, rest, rfl, rfl, others, denoted⟩ := ih _ shorter more rfl
      exact ⟨.char c :: qs, c :: ds, rest, rfl, rfl, .more (.raw quote solidus large cs) others,
        .char c denoted⟩

theorem quotedBytes_complete {ps : List Piece} {ds : List Char} (h : Denotes ps ds)
    {cs rest : List Char} (parts : Parts ps cs ('"' :: rest)) :
    quotedBytes (octets cs) = some (octets ds, octets rest) := by
  induction h generalizing cs with
  | nil =>
    cases parts
    rw [octets_cons_of_alone (b := 0x22) rfl]
    exact quotedBytes_close _
  | char c _ ih =>
    obtain _ | ⟨first, others⟩ := parts
    cases first with
    | raw quote solidus large =>
      rw [octets_cons, quotedBytes_plain (isPlain_encodeChar quote solidus large), ih others]
      rfl
    | short known =>
      rw [octets_cons_of_alone (b := 0x5C) rfl, quotedBytes_escaped (escaped_short known _),
        ih others]
      rfl
  | unit high low _ ih =>
    obtain _ | ⟨first, others⟩ := parts
    cases first with
    | unit four =>
      have read := (escaped_unit four).trans (by rw [if_neg high, if_neg low])
      rw [octets_cons_of_alone (b := 0x5C) rfl, quotedBytes_escaped read, ih others]
      rfl
  | pair high low _ ih =>
    obtain _ | ⟨first, _ | ⟨second, others⟩⟩ := parts
    cases first with
    | unit four =>
      rw [octets_cons_of_alone (b := 0x5C) rfl,
        quotedBytes_escaped ((escaped_unit four).trans
          (by rw [if_pos high, lowSurrogate_complete low second])), ih others]
      rfl

theorem skipQuoted_close (rest : Bytes) : skipQuoted (0x22 :: rest) = some rest := by
  rw [skipQuoted.eq_def]
  simp

theorem skipQuoted_solidus (tail : Bytes) : skipQuoted (0x5C :: tail) =
    match tail with
    | 0x75 :: p :: q :: r :: s :: rest =>
      if (hexValue? p).isSome && (hexValue? q).isSome && (hexValue? r).isSome &&
        (hexValue? s).isSome then skipQuoted rest else none
    | e :: rest => if (shortEscape? e).isSome then skipQuoted rest else none
    | [] => none := by
  rw [skipQuoted.eq_def]
  simp only [if_neg (show (0x5C : UInt8) ≠ 0x22 by decide), if_pos]
  rfl

theorem skipQuoted_other {b : UInt8} (quote : b ≠ 0x22) (solidus : b ≠ 0x5C) (rest : Bytes) :
    skipQuoted (b :: rest) = if b < 0x20 then none else skipQuoted rest := by
  rw [skipQuoted.eq_def]
  simp only [if_neg quote, if_neg solidus]

theorem skipQuoted_plain {written : Bytes} (h : ∀ b ∈ written, IsPlain b) (tail : Bytes) :
    skipQuoted (written ++ tail) = skipQuoted tail := by
  induction written with
  | nil => rfl
  | cons b written ih =>
    obtain ⟨quote, solidus, large⟩ := h b (List.mem_cons_self ..)
    have control : ¬ b < 0x20 := fun small => Nat.not_lt.2 large (UInt8.lt_iff_toNat_lt.1 small)
    rw [List.cons_append, skipQuoted_other quote solidus, if_neg control]
    exact ih fun b hb => h b (List.mem_cons_of_mem _ hb)

/-- What is passed over starts with the closing quote or with a part. -/
theorem skipQuoted_cases {cs : List Char} {left : Bytes} (h : skipQuoted (octets cs) = some left) :
    (∃ rest, cs = '"' :: rest ∧ left = octets rest) ∨
      ∃ p rest, PieceText p cs rest ∧ skipQuoted (octets rest) = some left := by
  cases cs with
  | nil => rw [octets_nil, skipQuoted.eq_def] at h; cases h
  | cons c cs =>
    obtain rfl | rfl | ⟨b, alone, quote, solidus, control⟩ | ⟨quote, solidus, large⟩ :=
      front_cases c
    · rw [octets_cons_of_alone (b := 0x22) rfl, skipQuoted_close] at h
      cases h
      exact .inl ⟨cs, rfl, rfl⟩
    · rw [octets_cons_of_alone (b := 0x5C) rfl, skipQuoted_solidus] at h
      split at h
      next p q r s bs start =>
        obtain ⟨cs, rfl, next⟩ := (octets_eq_cons_iff (c := 'u') rfl).1 start
        split at h
        next known =>
          simp only [Bool.and_eq_true, Option.isSome_iff_exists] at known
          obtain ⟨⟨⟨⟨a, hp⟩, b, hq⟩, c, hr⟩, d, hs⟩ := known
          have read : hexFour (octets cs) = some (((a * 16 + b) * 16 + c) * 16 + d, bs) := by
            rw [← next]
            simp only [hexFour, hp, hq, hr, hs]
          obtain ⟨rest, rfl, four⟩ := hexFour_eq_some_iff.1 read
          exact .inr ⟨_, rest, .unit four, h⟩
        · cases h
      next e bs _ start =>
        split at h
        next known =>
          obtain ⟨c, stands⟩ := Option.isSome_iff_exists.1 known
          obtain ⟨letter, rest, rfl, rfl, known⟩ := short_front start stands
          exact .inr ⟨_, rest, .short known rest, h⟩
        · cases h
      · cases h
    · rw [octets_cons_of_alone alone, skipQuoted_other quote solidus, if_pos control] at h
      cases h
    · rw [octets_cons, skipQuoted_plain (isPlain_encodeChar quote solidus large)] at h
      exact .inr ⟨_, cs, .raw quote solidus large cs, h⟩

theorem skipQuoted_sound {cs : List Char} {left : Bytes} (h : skipQuoted (octets cs) = some left) :
    ∃ ps rest, left = octets rest ∧ Parts ps cs ('"' :: rest) := by
  induction size : cs.length using Nat.strong_induction_on generalizing cs with
  | _ n ih =>
  subst size
  obtain ⟨rest, rfl, rfl⟩ | ⟨p, more, first, passed⟩ := skipQuoted_cases h
  · exact ⟨[], rest, rfl, .none _⟩
  · obtain ⟨ps, rest, rfl, others⟩ := ih _ first.length_lt passed rfl
    exact ⟨p :: ps, rest, rfl, .more first others⟩

theorem skipQuoted_piece {p : Piece} {cs rest : List Char} (h : PieceText p cs rest) :
    skipQuoted (octets cs) = skipQuoted (octets rest) := by
  cases h with
  | raw quote solidus large =>
    rw [octets_cons, skipQuoted_plain (isPlain_encodeChar quote solidus large)]
  | short known =>
    obtain ⟨b, alone, other, stands⟩ := short_alone known
    rw [octets_cons_of_alone (b := 0x5C) rfl, octets_cons_of_alone alone, skipQuoted_solidus]
    split
    next same => exact absurd (List.cons.inj same).1 other
    next same =>
      obtain ⟨rfl, rfl⟩ := List.cons.inj same
      rw [if_pos (by rw [stands]; rfl)]
    next same => cases same
  | unit four =>
    obtain ⟨hp, hq, hr, hs, -⟩ := four
    rw [octets_cons_of_alone (b := 0x5C) rfl, octets_cons_of_alone (b := 0x75) rfl]
    obtain ⟨p, alone, vp⟩ := hp.alone
    rw [octets_cons_of_alone alone]
    obtain ⟨q, alone, vq⟩ := hq.alone
    rw [octets_cons_of_alone alone]
    obtain ⟨r, alone, vr⟩ := hr.alone
    rw [octets_cons_of_alone alone]
    obtain ⟨s, alone, vs⟩ := hs.alone
    rw [octets_cons_of_alone alone]
    simp [skipQuoted_solidus, vp, vq, vr, vs]

theorem skipQuoted_complete {ps : List Piece} {cs rest : List Char}
    (h : Parts ps cs ('"' :: rest)) : skipQuoted (octets cs) = some (octets rest) := by
  generalize same : '"' :: rest = tail at h
  induction h with
  | none =>
    subst same
    rw [octets_cons_of_alone (b := 0x22) rfl, skipQuoted_close]
  | more first _ ih => rw [skipQuoted_piece first, ih same]

/-! ## Readers of texts -/

theorem isMark_quote : IsMark 0x22 '"' := ⟨rfl, rfl⟩

theorem anyQuoted_eq_some_iff {cs : List Char} {left : Bytes} :
    anyQuoted (octets cs) = some ((), left) ↔ ∃ ps inside rest, left = octets rest ∧
      Blanks cs ('"' :: inside) ∧ Parts ps inside ('"' :: rest) := by
  constructor
  · intro h
    rw [anyQuoted] at h
    split at h
    · cases h
    next opened =>
      obtain ⟨inside, rfl, opens⟩ := (expect_eq_some_iff isMark_quote).1 opened
      obtain ⟨_, passed, same⟩ := Option.map_eq_some_iff.1 h
      cases same
      obtain ⟨ps, rest, rfl, parts⟩ := skipQuoted_sound passed
      exact ⟨ps, inside, rest, rfl, opens, parts⟩
  · rintro ⟨ps, inside, rest, rfl, opens, parts⟩
    rw [anyQuoted, (expect_eq_some_iff isMark_quote).2 ⟨inside, rfl, opens⟩]
    simp only [skipQuoted_complete parts, Option.map_some]

theorem anyQuoted_quote (bs : Bytes) :
    anyQuoted (0x22 :: bs) = (skipQuoted bs).map ((), ·) := rfl

theorem strict?_octets (ds : List Char) : strict? (octets ds) = some (String.ofList ds) := by
  have back := strict?_encode (String.ofList ds)
  rwa [encode, String.toList_ofList] at back

theorem quoted_eq_some_iff {cs : List Char} {s : String} {left : Bytes} :
    quoted (octets cs) = some (s, left) ↔ ∃ ps inside rest, left = octets rest ∧
      Blanks cs ('"' :: inside) ∧ Parts ps inside ('"' :: rest) ∧ Denotes ps s.toList := by
  constructor
  · intro h
    rw [quoted] at h
    split at h
    · cases h
    next opened =>
      obtain ⟨inside, rfl, opens⟩ := (expect_eq_some_iff isMark_quote).1 opened
      split at h
      · cases h
      next read =>
        obtain ⟨ps, ds, rest, rfl, rfl, parts, denotes⟩ := quotedBytes_sound read
        rw [strict?_octets] at h
        cases h
        exact ⟨ps, inside, rest, rfl, opens, parts, by rwa [String.toList_ofList]⟩
  · rintro ⟨ps, inside, rest, rfl, opens, parts, denotes⟩
    rw [quoted, (expect_eq_some_iff isMark_quote).2 ⟨inside, rfl, opens⟩]
    simp only [quotedBytes_complete denotes parts, strict?_octets, String.ofList_toList,
      Option.map_some]

end Courier.Json
