/-!
# Prefix codes

A prefix code as a tree: a path from the root is a word, and no word goes on after the end of
another one. A code is given by the lengths of its words; words of one length are in the order of
their symbols, and every word comes before all longer ones.
-/
namespace Courier.Compression

/-- What the bits after some beginning of a word lead to. -/
inductive PrefixCode where
  /-- No word begins like this. -/
  | vacant
  | word (symbol : Nat)
  | branch (zero one : PrefixCode)
deriving DecidableEq, Repr

namespace PrefixCode

/-- The longest word of a code. -/
def maxLength : Nat := 15

/-- The lengths of the words of a code with their symbols, in the order of the words. Symbol `i` has
a word of the `i`-th length; nought stands for no word. -/
def words (lengths : List Nat) : List (Nat × Nat) :=
  (List.range maxLength).flatMap fun l => lengths.zipIdx.filter fun p => p.1 = l + 1

/-- Hang the first words of a list below a place `depth` bits from the root, as many as it holds,
and answer those that are left; `more` is the number of bits that may still follow. -/
def hang (depth : Nat) : (more : Nat) → List (Nat × Nat) → PrefixCode × List (Nat × Nat)
  | _, [] => (vacant, [])
  | 0, (_, symbol) :: rest => (word symbol, rest)
  | more + 1, (length, symbol) :: rest =>
    if length ≤ depth then (word symbol, rest)
    else
      let (zero, left) := hang (depth + 1) more ((length, symbol) :: rest)
      let (one, left) := hang (depth + 1) more left
      (branch zero one, left)

/-- The code with words of the given lengths. A word has at least one bit, so that the root always
branches. -/
def ofLengths (lengths : List Nat) : PrefixCode :=
  let (zero, left) := hang 1 (maxLength - 1) (words lengths)
  branch zero (hang 1 (maxLength - 1) left).1

/-- Whether words of the given lengths fill the tree: each takes its share of it, and the shares
add up to the whole. -/
def fills (lengths : List Nat) : Bool :=
  (words lengths).foldl (fun shares p => shares + Nat.pow 2 (maxLength - p.1)) 0 =
    Nat.pow 2 maxLength

/-- Whether at most one symbol has a word. -/
def isTrivial (lengths : List Nat) : Bool := (words lengths).length ≤ 1

end Courier.Compression.PrefixCode
