import Courier.Json.Token
import Courier.Json.Value

/-!
# Reading JSON documents

`parse?` reads a whole document and `skip` passes over one value without looking at what its
texts and numbers stand for. Both are total: `value` recurses on how deep values may still nest,
`skip` on a bound that the length of the input gives.
-/
namespace Courier.Json

/-- How deep arrays and objects may nest. -/
def maxDepth : Nat := 127

/-- A value, after any blanks, in which arrays and objects nest at most `depth` deep. -/
def value : (depth : Nat) → Reader Json
  | depth, bs =>
    match skipBlank bs with
    | [] => none
    | b :: rest =>
      if b = 0x6E then (literal [0x75, 0x6C, 0x6C] rest).map fun (_, left) => (.null, left)
      else if b = 0x74 then
        (literal [0x72, 0x75, 0x65] rest).map fun (_, left) => (.bool true, left)
      else if b = 0x66 then
        (literal [0x61, 0x6C, 0x73, 0x65] rest).map fun (_, left) => (.bool false, left)
      else if b = 0x22 then (quoted (b :: rest)).map fun (s, left) => (.string s, left)
      else if b = 0x5B then
        match depth with
        | 0 => none
        | d + 1 => (listUpTo (value d) 0x5D rest).map fun (vs, left) => (.array vs, left)
      else if b = 0x7B then
        match depth with
        | 0 => none
        | d + 1 =>
          (listUpTo (member fun name bs => (value d bs).map fun (v, left) => ((name, v), left))
            0x7D rest).map fun (ms, left) => (ofMembers ms, left)
      else
        match numeral (b :: rest) with
        | none => none
        | some (t, left) => t.value?.map fun n => (.number n, left)

/-- Nothing but blanks is left. -/
def atEnd (bs : Bytes) : Bool := (skipBlank bs).isEmpty

def parse? (bs : Bytes) : Option Json :=
  match value maxDepth bs with
  | some (v, rest) => if atEnd rest then some v else none
  | none => none

/-- Pass over the rest of a quoted text. An escape needs a known letter or four hexadecimal
digits; no more is asked of it. -/
def skipQuoted : Bytes → Option Bytes
  | [] => none
  | b :: rest =>
    if b = 0x22 then some rest
    else if b = 0x5C then
      match rest with
      | 0x75 :: p :: q :: r :: s :: rest =>
        if (hexValue? p).isSome && (hexValue? q).isSome && (hexValue? r).isSome &&
          (hexValue? s).isSome then skipQuoted rest else none
      | e :: rest => if (shortEscape? e).isSome then skipQuoted rest else none
      | [] => none
    else if b < 0x20 then none
    else skipQuoted rest

/-- A text whose content does not matter, after any blanks. -/
def anyQuoted : Reader Unit := fun bs =>
  match expect 0x22 bs with
  | none => none
  | some (_, rest) => (skipQuoted rest).map ((), ·)

/-- A value whose content does not matter, after any blanks; `bound` is at least its depth. -/
def skip : (bound : Nat) → Reader Unit
  | 0, _ => none
  | n + 1, bs =>
    match skipBlank bs with
    | [] => none
    | b :: rest =>
      if b = 0x6E then literal [0x75, 0x6C, 0x6C] rest
      else if b = 0x74 then literal [0x72, 0x75, 0x65] rest
      else if b = 0x66 then literal [0x61, 0x6C, 0x73, 0x65] rest
      else if b = 0x22 then anyQuoted (b :: rest)
      else if b = 0x5B then (listUpTo (skip n) 0x5D rest).map fun (_, left) => ((), left)
      else if b = 0x7B then
        (listUpTo (fun bs =>
          match anyQuoted bs with
          | none => none
          | some (_, rest) =>
            match expect 0x3A rest with
            | none => none
            | some (_, rest) => skip n rest) 0x7D rest).map fun (_, left) => ((), left)
      else (numeral (b :: rest)).map fun (_, left) => ((), left)

/-- A value that is passed over. -/
def ignored : Reader Unit := fun bs => skip bs.length bs

end Courier.Json
