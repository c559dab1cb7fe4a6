import Courier.Json.Number
import Courier.Text.Utf8

/-!
# Tokens of a JSON document

Readers over octets. A reader takes a token off the front and answers what it read and what is
left, or `none` if the front is not such a token.
-/
namespace Courier.Json

/-- Takes a value off the front of a sequence of octets. -/
abbrev Reader (α : Type) := Bytes → Option (α × Bytes)

/-- Space, tab, line feed and carriage return. -/
def isBlank (b : UInt8) : Bool :=
  b == 0x20 || b == 0x09 || b == 0x0A || b == 0x0D

def skipBlank (bs : Bytes) : Bytes := bs.dropWhile isBlank

/-- A single octet, after any blanks. -/
def expect (b : UInt8) : Reader Unit := fun bs =>
  match skipBlank bs with
  | c :: rest => if c = b then some ((), rest) else none
  | [] => none

def literal : Bytes → Reader Unit
  | [], bs => some ((), bs)
  | _ :: _, [] => none
  | a :: as, b :: bs => if a = b then literal as bs else none

def isDigit (b : UInt8) : Bool := 0x30 ≤ b && b ≤ 0x39

/-- The digits on the front, perhaps none, and what is left. -/
def spanDigits (bs : Bytes) : List Nat × Bytes :=
  ((bs.takeWhile isDigit).map fun b => b.toNat - 0x30, bs.dropWhile isDigit)

def digits : Reader (List Nat) := fun bs =>
  let (ds, rest) := spanDigits bs
  if ds.isEmpty then none else some (ds, rest)

def ofDigits (ds : List Nat) : Nat := ds.foldl (fun n d => n * 10 + d) 0

/-- Digits without a leading nought, unless nought is the only digit. -/
def wholeDigits : Reader (List Nat) := fun bs =>
  match digits bs with
  | some (0 :: _ :: _, _) => none
  | r => r

/-- An optional fraction: a point and digits. -/
def fraction : Reader (Option (List Nat)) := fun bs =>
  match bs with
  | 0x2E :: rest => (digits rest).map fun (ds, rest) => (some ds, rest)
  | _ => some (none, bs)

/-- An optional exponent: a letter, an optional sign and digits. -/
def exponent : Reader (Option Int) := fun bs =>
  match bs with
  | c :: rest =>
    if c = 0x65 ∨ c = 0x45 then
      match rest with
      | 0x2D :: rest => (digits rest).map fun (ds, rest) => (some (-(ofDigits ds : Int)), rest)
      | 0x2B :: rest => (digits rest).map fun (ds, rest) => (some (ofDigits ds), rest)
      | rest => (digits rest).map fun (ds, rest) => (some (ofDigits ds), rest)
    else some (none, bs)
  | [] => some (none, bs)

/-- A number as written, with nothing before it. -/
def numeral : Reader Numeral := fun bs =>
  let (negative, bs) := match bs with
    | 0x2D :: rest => (true, rest)
    | _ => (false, bs)
  match wholeDigits bs with
  | none => none
  | some (whole, bs) =>
    match fraction bs with
    | none => none
    | some (fraction, bs) =>
      (exponent bs).map fun (exponent, bs) => (⟨negative, whole, fraction, exponent⟩, bs)

/-- The value of a hexadecimal digit of either case. -/
def hexValue? (b : UInt8) : Option Nat :=
  if isDigit b then some (b.toNat - 0x30)
  else if 0x61 ≤ b ∧ b ≤ 0x66 then some (b.toNat - 0x61 + 10)
  else if 0x41 ≤ b ∧ b ≤ 0x46 then some (b.toNat - 0x41 + 10)
  else none

/-- The number written with four hexadecimal digits. -/
def hexFour : Reader Nat := fun bs =>
  match bs with
  | a :: b :: c :: d :: rest =>
    match hexValue? a, hexValue? b, hexValue? c, hexValue? d with
    | some a, some b, some c, some d => some (((a * 16 + b) * 16 + c) * 16 + d, rest)
    | _, _, _, _ => none
  | _ => none

/-- The character that a one-letter escape stands for. -/
def shortEscape? (b : UInt8) : Option Char :=
  if b = 0x22 then some '"'
  else if b = 0x5C then some '\\'
  else if b = 0x2F then some '/'
  else if b = 0x62 then some '\x08'
  else if b = 0x66 then some '\x0c'
  else if b = 0x6E then some '\x0a'
  else if b = 0x72 then some '\x0d'
  else if b = 0x74 then some '\x09'
  else none

/-- The second half of a surrogate pair whose first half is `high`. -/
def lowSurrogate (high : Nat) : Reader Char := fun bs =>
  match bs with
  | 0x5C :: 0x75 :: rest =>
    match hexFour rest with
    | some (low, rest) =>
      if 0xDC00 ≤ low ∧ low < 0xE000 then
        some (Char.ofNat (0x10000 + (high - 0xD800) * 0x400 + (low - 0xDC00)), rest)
      else none
    | none => none
  | _ => none

/-- What follows a reverse solidus: a character. Surrogates count only in pairs. -/
def escaped : Reader Char := fun bs =>
  match bs with
  | 0x75 :: rest =>
    match hexFour rest with
    | some (n, rest) =>
      if 0xD800 ≤ n ∧ n < 0xDC00 then lowSurrogate n rest
      else if 0xDC00 ≤ n ∧ n < 0xE000 then none
      else some (Char.ofNat n, rest)
    | none => none
  | b :: rest => (shortEscape? b).map (·, rest)
  | [] => none

theorem length_hexFour_lt {bs rest : Bytes} {n : Nat} (h : hexFour bs = some (n, rest)) :
    rest.length < bs.length := by
  unfold hexFour at h
  split at h
  · split at h
    · simp only [Option.some.injEq, Prod.mk.injEq] at h
      simp [← h.2]
      omega
    · simp at h
  · simp at h

theorem length_lowSurrogate_lt {high : Nat} {bs rest : Bytes} {c : Char}
    (h : lowSurrogate high bs = some (c, rest)) : rest.length < bs.length := by
  unfold lowSurrogate at h
  split at h
  · split at h
    · rename_i low rest' hl
      split at h
      · simp only [Option.some.injEq, Prod.mk.injEq] at h
        have := length_hexFour_lt hl
        simp only [List.length_cons, ← h.2]
        omega
      · simp at h
    · simp at h
  · simp at h

theorem length_escaped_lt {bs rest : Bytes} {c : Char} (h : escaped bs = some (c, rest)) :
    rest.length < bs.length := by
  unfold escaped at h
  split at h
  · split at h
    · rename_i n rest' hn
      have hlt := length_hexFour_lt hn
      split at h
      · have := length_lowSurrogate_lt h
        simp only [List.length_cons]
        omega
      · split at h
        · simp at h
        · simp only [Option.some.injEq, Prod.mk.injEq] at h
          simp only [List.length_cons, ← h.2]
          omega
    · simp at h
  · simp only [Option.map_eq_some_iff, Prod.mk.injEq] at h
    obtain ⟨_, _, _, rfl⟩ := h
    simp
  · simp at h

/-- The octets of a text up to its closing quote, escapes resolved. Control characters are not
allowed raw. -/
def quotedBytes (bs : Bytes) : Option (Bytes × Bytes) :=
  match bs with
  | [] => none
  | b :: rest =>
    if b = 0x22 then some ([], rest)
    else if b = 0x5C then
      match _h : escaped rest with
      | none => none
      | some (c, rest') =>
        (quotedBytes rest').map fun (s, left) => (String.utf8EncodeChar c ++ s, left)
    else if b < 0x20 then none
    else (quotedBytes rest).map fun (s, left) => (b :: s, left)
termination_by bs.length
decreasing_by
  · have := length_escaped_lt _h
    simp only [List.length_cons]
    omega
  · simp

/-- A quoted text, after any blanks; its octets must be well-formed UTF-8. -/
def quoted : Reader String := fun bs =>
  match expect 0x22 bs with
  | none => none
  | some (_, rest) =>
    match quotedBytes rest with
    | none => none
    | some (s, left) => (Utf8.strict? s).map (·, left)

/-- Items up to `close`, with commas between them; `bound` is at least their number. -/
def itemsUpTo {α : Type} (item : Reader α) (close : UInt8) : (bound : Nat) → Reader (List α)
  | 0, _ => none
  | n + 1, bs =>
    match item bs with
    | none => none
    | some (a, rest) =>
      match skipBlank rest with
      | b :: rest =>
        if b = 0x2C then (itemsUpTo item close n rest).map fun (as, left) => (a :: as, left)
        else if b = close then some ([a], rest)
        else none
      | [] => none

/-- The items of a bracketed list of which the opening bracket has been read. -/
def listUpTo {α : Type} (item : Reader α) (close : UInt8) : Reader (List α) := fun bs =>
  match expect close bs with
  | some (_, rest) => some ([], rest)
  | none => itemsUpTo item close bs.length bs

/-- The name of a member and its colon, then its value. -/
def member {α : Type} (value : String → Reader α) : Reader α := fun bs =>
  match quoted bs with
  | none => none
  | some (name, rest) =>
    match expect 0x3A rest with
    | none => none
    | some (_, rest) => value name rest

end Courier.Json
