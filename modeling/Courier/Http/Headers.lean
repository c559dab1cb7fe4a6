import Courier.Http.Method
import Courier.Text.Utf8

/-!
# Header fields

Names, values and the multimap of both. A name is a token in small letters; a value is a sequence
of octets without control characters other than the tab, so that no value can end its line. The
fields are kept in the order in which they were added, and the values under one name are always
read in that order.
-/
namespace Courier

/-- What a header name may be: a token of small letters, no longer than 65535 characters. -/
def isHeaderName (text : String) : Bool :=
  !text.isEmpty && decide (text.toList.length ≤ 65535) &&
    text.toList.all fun c => isTokenChar c && !c.isUpper

structure HeaderName where
  text : String
  legal : isHeaderName text = true
deriving DecidableEq

namespace HeaderName

/-- The name with the given text in either case. -/
def parse? (text : String) : Option HeaderName :=
  let small := String.ofList (text.toList.map Char.toLower)
  if h : isHeaderName small = true then some ⟨small, h⟩ else none

def accept : HeaderName := ⟨"accept", by decide⟩
def acceptEncoding : HeaderName := ⟨"accept-encoding", by decide⟩
def authorization : HeaderName := ⟨"authorization", by decide⟩
def contentEncoding : HeaderName := ⟨"content-encoding", by decide⟩
def contentLength : HeaderName := ⟨"content-length", by decide⟩
def contentType : HeaderName := ⟨"content-type", by decide⟩
def host : HeaderName := ⟨"host", by decide⟩
def userAgent : HeaderName := ⟨"user-agent", by decide⟩

end HeaderName

/-- The octets of header values: visible ones, space, tab, and everything from `0x80` up. -/
def isValueByte (b : UInt8) : Bool :=
  (0x20 ≤ b && b != 0x7F) || b == 0x09

/-- A header value. A sensitive one is not to be shown. -/
structure HeaderValue where
  bytes : Bytes
  legal : bytes.all isValueByte = true
  sensitive : Bool := false
deriving DecidableEq

namespace HeaderValue

/-- The value with the given octets, taken as they are. -/
def ofBytes? (bytes : Bytes) : Option HeaderValue :=
  if h : bytes.all isValueByte = true then some ⟨bytes, h, false⟩ else none

/-- The value with the octets of a text. -/
def ofText? (text : String) : Option HeaderValue := ofBytes? (Utf8.encode text)

/-- The value as text: only where every octet is visible ASCII, a space or a tab. -/
def toText? (v : HeaderValue) : Option String :=
  if v.bytes.all fun b => (0x20 ≤ b && b ≤ 0x7E) || b == 0x09 then
    some (String.ofList (v.bytes.map fun b => Char.ofNat b.toNat))
  else none

/-- The octets as text, broken pieces replaced. -/
def shown (v : HeaderValue) : String := Utf8.lossy v.bytes

/-- The media type of every envelope, `application/json`. -/
def json : HeaderValue :=
  ⟨[0x61, 0x70, 0x70, 0x6C, 0x69, 0x63, 0x61, 0x74, 0x69, 0x6F, 0x6E, 0x2F, 0x6A, 0x73, 0x6F,
    0x6E], by decide, false⟩

/-- The digits of a natural number. -/
def ofNat (n : Nat) : HeaderValue :=
  (ofText? (toString n)).getD ⟨[], by decide, false⟩

end HeaderValue

/-- Header fields in the order in which they were added. -/
structure Headers where
  fields : List (HeaderName × HeaderValue) := []
deriving DecidableEq

namespace Headers

instance : Inhabited Headers := ⟨{}⟩

/-- The values under a name, in order. -/
def values (h : Headers) (name : HeaderName) : List HeaderValue :=
  (h.fields.filter fun f => f.1 = name).map (·.2)

/-- The first value under a name. -/
def get? (h : Headers) (name : HeaderName) : Option HeaderValue :=
  (h.values name).head?

def contains (h : Headers) (name : HeaderName) : Bool :=
  (h.get? name).isSome

/-- Add a value after those already there. -/
def append (h : Headers) (name : HeaderName) (value : HeaderValue) : Headers :=
  ⟨h.fields ++ [(name, value)]⟩

/-- Drop every value under a name. -/
def erase (h : Headers) (name : HeaderName) : Headers :=
  ⟨h.fields.filter fun f => f.1 ≠ name⟩

/-- Make `value` the only value under a name. -/
def insert (h : Headers) (name : HeaderName) (value : HeaderValue) : Headers :=
  (h.erase name).append name value

@[simp] theorem values_append_self (h : Headers) (name : HeaderName) (value : HeaderValue) :
    (h.append name value).values name = h.values name ++ [value] := by
  simp [values, append]

theorem values_append_of_ne (h : Headers) {name other : HeaderName} (value : HeaderValue)
    (ne : name ≠ other) : (h.append name value).values other = h.values other := by
  simp [values, append, ne]

@[simp] theorem values_erase_self (h : Headers) (name : HeaderName) :
    (h.erase name).values name = [] := by
  simp [values, erase]

theorem values_erase_of_ne (h : Headers) {name other : HeaderName} (ne : name ≠ other) :
    (h.erase name).values other = h.values other := by
  simp only [values, erase, List.filter_filter]
  congr 1
  apply List.filter_congr
  intro f _
  by_cases hf : f.1 = other
  · simp [hf, ne.symm]
  · simp [hf]

@[simp] theorem values_insert_self (h : Headers) (name : HeaderName) (value : HeaderValue) :
    (h.insert name value).values name = [value] := by
  simp [insert]

theorem values_insert_of_ne (h : Headers) {name other : HeaderName} (value : HeaderValue)
    (ne : name ≠ other) : (h.insert name value).values other = h.values other := by
  rw [insert, values_append_of_ne _ _ ne, values_erase_of_ne _ ne]

end Courier.Headers
