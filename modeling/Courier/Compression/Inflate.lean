import Courier.Compression.PrefixCode
import Courier.Compression.Progress

/-!
# Inflating

The inverse of the deflate format. A stream is a sequence of bits, the low bit of each octet
first, and consists of blocks: stored octets, or symbols of two prefix codes, one for literals and
match lengths and one for match distances. A program that inflates stops where the bits end or make
no sense, and leaves everything that it has written by then.
-/
namespace Courier.Compression

structure Inflation where
  /-- The bits to be read. -/
  bits : List Bool
  /-- The octets written so far, the latest first. -/
  out : Bytes := []

/-- The bits of an octet, low bit first. -/
def octetBits (b : UInt8) : List Bool :=
  (List.range 8).map fun i => b.toNat.testBit i

def Inflation.ofBytes (bs : Bytes) : Inflation := { bits := bs.flatMap octetBits }

def Inflation.data (s : Inflation) : Bytes := s.out.reverse

abbrev Inflating (α : Type) := ExceptT Stop (StateM Inflation) α

namespace Inflating

/-- Stop, because no compressor writes such a stream. -/
def fail {α : Type} : Inflating α := throw (.faulty .stream)

def bit : Inflating Bool := do
  let s ← get
  match s.bits with
  | [] => throw .starved
  | b :: rest =>
    set { s with bits := rest }
    pure b

/-- Read a number of `n` bits, low bit first. -/
def number : (n : Nat) → Inflating Nat
  | 0 => pure 0
  | n + 1 => do
    let b ← bit
    let rest ← number n
    pure (b.toNat + 2 * rest)

/-- Pass over the bits before the next whole octet. -/
def align : Inflating Unit :=
  modify fun s => { s with bits := s.bits.drop (s.bits.length % 8) }

def write (b : UInt8) : Inflating Unit :=
  modify fun s => { s with out := b :: s.out }

/-- Write again what stands `distance` octets back, `n` times over. Before the first octet
there are noughts. -/
def repeatBack (distance : Nat) : (n : Nat) → Inflating Unit
  | 0 => pure ()
  | n + 1 => do
    write (((← get).out[distance - 1]?).getD 0)
    repeatBack distance n

/-- The depth in a code down to which a vacant place is a fault. -/
def faultDepth : Nat := 10

/-- Read on in a word after `depth` bits. A vacant place is a fault or, further down, another word
of symbol nought. -/
def symbolFrom (depth : Nat) : PrefixCode → Inflating Nat
  | .vacant => if depth ≤ faultDepth then fail else pure 0
  | .word symbol => pure symbol
  | .branch zero one => do
    if ← bit then symbolFrom (depth + 1) one else symbolFrom (depth + 1) zero

/-- Read a word of a code. -/
def symbol (code : PrefixCode) : Inflating Nat := symbolFrom 0 code

/-- Match lengths by symbol: the least length and the number of further bits. -/
def lengthTable : List (Nat × Nat) := [
  (3, 0), (4, 0), (5, 0), (6, 0), (7, 0), (8, 0), (9, 0), (10, 0), (11, 1), (13, 1), (15, 1),
  (17, 1), (19, 2), (23, 2), (27, 2), (31, 2), (35, 3), (43, 3), (51, 3), (59, 3), (67, 4),
  (83, 4), (99, 4), (115, 4), (131, 5), (163, 5), (195, 5), (227, 5), (258, 0)]

/-- Match distances by symbol: the least distance and the number of further bits. -/
def distanceTable : List (Nat × Nat) := [
  (1, 0), (2, 0), (3, 0), (4, 0), (5, 1), (7, 1), (9, 2), (13, 2), (17, 3), (25, 3), (33, 4),
  (49, 4), (65, 5), (97, 5), (129, 6), (193, 6), (257, 7), (385, 7), (513, 8), (769, 8),
  (1025, 9), (1537, 9), (2049, 10), (3073, 10), (4097, 11), (6145, 11), (8193, 12), (12289, 12),
  (16385, 13), (24577, 13)]

/-- Read the further bits of an entry of a table and add them to its least value. -/
def entry (table : List (Nat × Nat)) (index : Nat) : Inflating Nat :=
  match table[index]? with
  | none => fail
  | some (least, extra) => do pure (least + (← number extra))

/-- The symbol that ends a block; those below are literals, those above match lengths. -/
def endOfBlock : Nat := 256

/-- Expand the symbols of a block; `bound` is more than their number. -/
def symbols (literals distances : PrefixCode) : (bound : Nat) → Inflating Unit
  | 0 => throw .starved
  | n + 1 => do
    let first ← symbol literals
    if first < endOfBlock then
      write (UInt8.ofNat first)
      symbols literals distances n
    else if first = endOfBlock then pure ()
    else
      let length ← entry lengthTable (first - endOfBlock - 1)
      let distance ← entry distanceTable (← symbol distances)
      repeatBack distance length
      symbols literals distances n

/-- The code for literals and lengths in blocks that give none. -/
def fixedLiterals : PrefixCode :=
  .ofLengths (List.replicate 144 8 ++ List.replicate 112 9 ++ List.replicate 24 7 ++
    List.replicate 8 8)

/-- The code for distances in blocks that give none. -/
def fixedDistances : PrefixCode := .ofLengths (List.replicate 32 5)

/-- The order in which the lengths of the code for lengths are written. -/
def lengthOrder : List Nat := [16, 17, 18, 0, 8, 7, 9, 6, 10, 5, 11, 4, 12, 3, 13, 2, 14, 1, 15]

def triples : (n : Nat) → Inflating (List Nat)
  | 0 => pure []
  | n + 1 => do
    let first ← number 3
    let rest ← triples n
    pure (first :: rest)

/-- Read lengths of words until there are `total`, which has to come out even; the last come first
in `got`. Three symbols stand for a repetition. `bound` is more than the number of symbols. -/
def lengths (code : PrefixCode) (total : Nat) : (bound : Nat) → (got : List Nat) →
    Inflating (List Nat)
  | 0, _ => fail
  | n + 1, got =>
    if got.length = total then pure got.reverse
    else if total < got.length then fail
    else do
      let kind ← symbol code
      if kind < 16 then lengths code total n (kind :: got)
      else if kind = 16 then
        match got with
        | [] => fail
        | last :: _ => lengths code total n (List.replicate (3 + (← number 2)) last ++ got)
      else if kind = 17 then
        lengths code total n (List.replicate (3 + (← number 3)) 0 ++ got)
      else lengths code total n (List.replicate (11 + (← number 7)) 0 ++ got)

/-- A code that a block gives. Its words have to fill the tree, unless there is no choice between
words at all. -/
def given (lengths : List Nat) : Inflating PrefixCode :=
  if PrefixCode.fills lengths || PrefixCode.isTrivial lengths then pure (.ofLengths lengths)
  else fail

/-- The most lengths that a block gives for literals and match lengths. -/
def maxLiterals : Nat := 286

/-- The most lengths that a block gives for match distances. -/
def maxDistances : Nat := 30

def codes : Inflating (PrefixCode × PrefixCode) := do
  let literals := (← number 5) + 257
  let distances := (← number 5) + 1
  let count := (← number 4) + 4
  if maxLiterals < literals ∨ maxDistances < distances then fail
  else
    let written := lengthOrder.zip (← triples count)
    let own := (List.range 19).map fun i => (written.lookup i).getD 0
    if PrefixCode.fills own then
      let total := literals + distances
      let all ← lengths (.ofLengths own) total (total + 1) []
      let second ← given (all.drop literals)
      let first ← given (all.take literals)
      pure (first, second)
    else fail

def stored : (n : Nat) → Inflating Unit
  | 0 => pure ()
  | n + 1 => do
    write (UInt8.ofNat (← number 8))
    stored n

/-- Expand a block; `bound` is more than the number of its symbols. -/
def block (bound : Nat) : (kind : Nat) → Inflating Unit
  | 0 => do
    align
    let size ← number 16
    let check ← number 16
    if size + check = 65535 then stored size else fail
  | 1 => symbols fixedLiterals fixedDistances bound
  | 2 => do
    let (literals, distances) ← codes
    symbols literals distances bound
  | _ => fail

/-- Expand blocks up to the last; `bound` is more than the number of bits left. -/
def blocks : (bound : Nat) → Inflating Unit
  | 0 => throw .starved
  | n + 1 => do
    let last ← bit
    let kind ← number 2
    block (n + 1) kind
    if last then align else blocks n

/-- Expand a stream and pass over the bits before the next whole octet. -/
def stream : Inflating Unit := do
  blocks ((← get).bits.length + 1)

/-- The progress of a program on some octets. -/
def progress (program : Inflating Unit) (bs : Bytes) : Progress :=
  match program.run (.ofBytes bs) with
  | (.ok (), s) => .complete s.data
  | (.error stop, s) => .stopped stop s.data

end Courier.Compression.Inflating
