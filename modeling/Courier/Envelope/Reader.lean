import Courier.Envelope
import Courier.Json.Reader

/-!
# Reading error envelopes

An envelope may be written by names, as an object, or by position, as an array: an array of one
list for the envelope, and an array of code, fields and message for an entry. Members under other
names are passed over, and a known name may occur only once. An envelope without entries does not
count as one.
-/
namespace Courier

open Json

/-- Null, or a list of texts. -/
def Entry.fieldList : Reader (Option (List String)) := fun bs =>
  match skipBlank bs with
  | b :: rest =>
    if b = 0x6E then (literal [0x75, 0x6C, 0x6C] rest).map fun (_, left) => (none, left)
    else if b = 0x5B then (listUpTo quoted 0x5D rest).map fun (fs, left) => (some fs, left)
    else none
  | [] => none

inductive Entry.Member where
  | code (s : String)
  | fields (fs : Option (List String))
  | message (s : String)
  | other

def Entry.namedMember (name : String) : Reader Entry.Member := fun bs =>
  if name = "code" then (quoted bs).map fun (s, left) => (.code s, left)
  else if name = "fields" then (Entry.fieldList bs).map fun (fs, left) => (.fields fs, left)
  else if name = "message" then (quoted bs).map fun (s, left) => (.message s, left)
  else (ignored bs).map fun (_, left) => (.other, left)

/-- The entry with the given members: one code, one message and at most one list of fields. -/
def Entry.ofMembers? (ms : List Entry.Member) : Option Entry :=
  let codes := ms.filterMap fun m => match m with | .code s => some s | _ => none
  let fields := ms.filterMap fun m => match m with | .fields fs => some fs | _ => none
  let messages := ms.filterMap fun m => match m with | .message s => some s | _ => none
  match codes, fields, messages with
  | [code], [], [message] => some ⟨code, none, message⟩
  | [code], [fs], [message] => some ⟨code, fs, message⟩
  | _, _, _ => none

/-- Code, fields and message by position, up to the closing bracket. -/
def Entry.positional : Reader Entry := fun bs => do
  let (code, bs) ← quoted bs
  let (_, bs) ← expect 0x2C bs
  let (fields, bs) ← Entry.fieldList bs
  let (_, bs) ← expect 0x2C bs
  let (message, bs) ← quoted bs
  let (_, bs) ← expect 0x5D bs
  some (⟨code, fields, message⟩, bs)

/-- An entry of either form. -/
def Entry.reader : Reader Entry := fun bs =>
  match skipBlank bs with
  | b :: rest =>
    if b = 0x7B then
      match listUpTo (member Entry.namedMember) 0x7D rest with
      | none => none
      | some (ms, left) => (Entry.ofMembers? ms).map (·, left)
    else if b = 0x5B then Entry.positional rest
    else none
  | [] => none

namespace Envelope

def entries : Reader (List Entry) := fun bs =>
  match expect 0x5B bs with
  | none => none
  | some (_, rest) => listUpTo Entry.reader 0x5D rest

/-- A member of an envelope: the entries, or one that is passed over. -/
def namedMember (name : String) : Reader (Option (List Entry)) := fun bs =>
  if name = "errors" then (entries bs).map fun (es, left) => (some es, left)
  else (ignored bs).map fun (_, left) => (none, left)

/-- An envelope of either form. -/
def reader : Reader Envelope := fun bs =>
  match skipBlank bs with
  | b :: rest =>
    if b = 0x7B then
      match listUpTo (member namedMember) 0x7D rest with
      | none => none
      | some (ms, left) =>
        match ms.filterMap id with
        | [es] => some (⟨es⟩, left)
        | _ => none
    else if b = 0x5B then
      match entries rest with
      | none => none
      | some (es, rest) => (expect 0x5D rest).map fun (_, left) => (⟨es⟩, left)
    else none
  | [] => none

/-- The envelope that a body carries, if it has an entry. -/
def parse? (body : Bytes) : Option Envelope :=
  match reader body with
  | some (e, rest) => if atEnd rest && !e.errors.isEmpty then some e else none
  | none => none

end Courier.Envelope
