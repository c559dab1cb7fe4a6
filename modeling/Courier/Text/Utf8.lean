/-!
# UTF-8

Octet sequences and their reading as text. `decode` cuts a sequence into the longest pieces
that are either one well-formed character or a maximal beginning of one; `strict?` accepts a
sequence without broken pieces, and `lossy` puts U+FFFD in the place of each broken piece.
-/
namespace Courier

abbrev Bytes := List UInt8

namespace Utf8

def encode (text : String) : Bytes :=
  text.toList.flatMap String.utf8EncodeChar

/-- What a leading octet promises: how many octets follow, and the range of the first of them.
Later ones range over `0x80 … 0xBF`. The narrowed ranges keep out overlong forms, surrogates and
code points above U+10FFFF. -/
structure Lead where
  count : Nat
  low : UInt8
  high : UInt8

/-- The promise of a leading octet that does not stand for a character alone. -/
def lead? (b : UInt8) : Option Lead :=
  if b < 0xC2 then none
  else if b < 0xE0 then some ⟨1, 0x80, 0xBF⟩
  else if b = 0xE0 then some ⟨2, 0xA0, 0xBF⟩
  else if b = 0xED then some ⟨2, 0x80, 0x9F⟩
  else if b < 0xF0 then some ⟨2, 0x80, 0xBF⟩
  else if b = 0xF0 then some ⟨3, 0x90, 0xBF⟩
  else if b < 0xF4 then some ⟨3, 0x80, 0xBF⟩
  else if b = 0xF4 then some ⟨3, 0x80, 0x8F⟩
  else none

/-- The part of the code point that the leading octet carries. -/
def leadBits (count : Nat) (b : UInt8) : Nat :=
  match count with
  | 1 => b.toNat % 32
  | 2 => b.toNat % 16
  | _ => b.toNat % 8

/-- Take `count` continuation octets onto `code`; stop, without the offending octet, at the first
one outside the range. -/
def continue? (count : Nat) (low high : UInt8) (code : Nat) (bs : Bytes) :
    Option Char × Bytes :=
  match count, bs with
  | 0, bs => (some (Char.ofNat code), bs)
  | _ + 1, [] => (none, [])
  | n + 1, b :: bs =>
    if low ≤ b ∧ b ≤ high then continue? n 0x80 0xBF (code * 64 + b.toNat % 64) bs
    else (none, b :: bs)

/-- The piece that starts with `b`: its character, or `none` if it is broken, and what is left. -/
def piece (b : UInt8) (bs : Bytes) : Option Char × Bytes :=
  if b < 0x80 then (some (Char.ofNat b.toNat), bs)
  else match lead? b with
    | none => (none, bs)
    | some l => continue? l.count l.low l.high (leadBits l.count b) bs

theorem length_continue?_le (count : Nat) (low high : UInt8) (code : Nat) (bs : Bytes) :
    (continue? count low high code bs).2.length ≤ bs.length := by
  fun_induction continue? count low high code bs with
  | case1 => exact Nat.le_refl _
  | case2 => exact Nat.le_refl _
  | case3 _ _ _ _ _ _ _ ih => exact Nat.le_succ_of_le ih
  | case4 => exact Nat.le_refl _

theorem length_piece_le (b : UInt8) (bs : Bytes) : (piece b bs).2.length ≤ bs.length := by
  unfold piece
  split
  · exact Nat.le_refl _
  · split
    · exact Nat.le_refl _
    · exact length_continue?_le ..

/-- All pieces of a sequence, in order. -/
def decode : Bytes → List (Option Char)
  | [] => []
  | b :: bs =>
    let p := piece b bs
    p.1 :: decode p.2
termination_by bs => bs.length
decreasing_by exact Nat.lt_succ_of_le (length_piece_le b bs)

/-- What stands for a broken piece. -/
def replacement : Char := '\ufffd'

/-- The text of a sequence, with the replacement character for each broken piece. -/
def lossy (bs : Bytes) : String :=
  String.ofList ((decode bs).map (·.getD replacement))

/-- The text of a well-formed sequence. -/
def strict? (bs : Bytes) : Option String :=
  ((decode bs).mapM id).map String.ofList

end Courier.Utf8
