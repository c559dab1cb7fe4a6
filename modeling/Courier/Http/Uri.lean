/-!
# Request targets

A URI is a scheme, an authority and a path with query, any of which may be absent, as in
`https://host:port/path?query`, `host:port`, `/path` or `*`. A fragment is read and dropped. The
text of each part is kept as it was written, but for the two standard schemes, which are put into
small letters.
-/
namespace Courier

inductive UriError where
  | tooLong
  | empty
  | schemeTooLong
  | invalidCharacter
  | invalidAuthority
  | invalidFormat
deriving DecidableEq, Repr

def UriError.message : UriError → String
  | .tooLong => "uri too long"
  | .empty => "empty string"
  | .schemeTooLong => "scheme too long"
  | .invalidCharacter => "invalid uri character"
  | .invalidAuthority => "invalid authority"
  | .invalidFormat => "invalid format"

/-- A URI. `target` is the path with its query as written, empty where a scheme and authority
stand alone, and absent where only an authority is given. -/
structure Uri where
  scheme : Option String
  authority : Option String
  target : Option String
deriving DecidableEq, Repr

namespace Uri

/-- The characters of a scheme that is not one of the standard two. -/
def isSchemeChar (c : Char) : Bool :=
  c.isAlphanum || c == '+' || c == '-' || c == '.' || c == '~'

/-- The characters of an authority, the percent sign apart. -/
def isAuthorityChar (c : Char) : Bool :=
  c.isAlphanum ||
    ['!', '$', '&', '\'', '(', ')', '*', '+', ',', '-', '.', ':', ';', '=', '@', '[', ']', '_',
      '~'].contains c

/-- The three characters that end an authority. -/
def endsAuthority (c : Char) : Bool := c == '/' || c == '?' || c == '#'

def isPathChar (c : Char) : Bool :=
  let n := c.toNat
  n == 0x21 || n == 0x22 || (0x24 ≤ n && n ≤ 0x3B) || n == 0x3D || (0x40 ≤ n && n ≤ 0x5F) ||
    (0x61 ≤ n && n ≤ 0x7E) || 0x80 ≤ n

def isQueryChar (c : Char) : Bool :=
  let n := c.toNat
  n == 0x21 || (0x24 ≤ n && n ≤ 0x3B) || n == 0x3D || (0x3F ≤ n && n ≤ 0x7E) || 0x80 ≤ n

/-- Case does not count in ASCII letters. -/
def startsWithIgnoringCase : List Char → List Char → Bool
  | [], _ => true
  | _ :: _, [] => false
  | a :: as, b :: bs => a == b.toLower && startsWithIgnoringCase as bs

/-- The longest scheme name. -/
def maxScheme : Nat := 64

/-- A scheme and what follows its `://`. Without one the whole text comes back. -/
def splitScheme (cs : List Char) : Except UriError (Option String × List Char) :=
  if startsWithIgnoringCase "http://".toList cs then .ok (some "http", cs.drop 7)
  else if startsWithIgnoringCase "https://".toList cs then .ok (some "https", cs.drop 8)
  else if (String.ofList cs).utf8ByteSize ≤ 3 then .ok (none, cs)
  else
    match cs.dropWhile isSchemeChar with
    | ':' :: '/' :: '/' :: rest =>
      let name := cs.takeWhile isSchemeChar
      if maxScheme < name.length then .error .schemeTooLong
      else .ok (some (String.ofList name), rest)
    | _ => .ok (none, cs)

/-- What has been seen of an authority. `colons` counts those that may still turn out to open a
port, `percent` says whether a percent sign stands outside user information and brackets, and
`afterAt` whether the last character was an `@`. -/
structure AuthorityScan where
  colons : Nat := 0
  opened : Bool := false
  closed : Bool := false
  percent : Bool := false
  afterAt : Bool := false

/-- The most colons between two points that reset their count. -/
def maxColons : Nat := 8

/-- Take one more character of an authority. An `@` or a closing bracket forgets the colons and
the percent sign before it, because they belonged to user information or to an address. -/
def AuthorityScan.step (s : AuthorityScan) (c : Char) : Except UriError AuthorityScan :=
  let t := { s with afterAt := c == '@' }
  if c == '%' then .ok { t with percent := true }
  else if !isAuthorityChar c then .error .invalidCharacter
  else if c == ':' then
    if maxColons ≤ s.colons then .error .invalidAuthority
    else .ok { t with colons := s.colons + 1 }
  else if c == '[' then
    if s.percent || s.opened then .error .invalidAuthority else .ok { t with opened := true }
  else if c == ']' then
    if !s.opened || s.closed then .error .invalidAuthority
    else .ok { t with closed := true, colons := 0, percent := false }
  else if c == '@' then .ok { t with colons := 0, percent := false }
  else .ok t

/-- What has been seen is a whole authority. -/
def AuthorityScan.complete (s : AuthorityScan) : Bool :=
  s.opened == s.closed && s.colons ≤ 1 && !s.afterAt && !s.percent

/-- The authority at the front, perhaps empty, and what is left of a non-empty text. -/
def splitAuthority (cs : List Char) : Except UriError (List Char × List Char) :=
  if cs.isEmpty then .error .empty
  else
    let front := cs.takeWhile fun c => !endsAuthority c
    match front.foldlM AuthorityScan.step {} with
    | .error e => .error e
    | .ok s =>
      if s.complete then .ok (front, cs.dropWhile fun c => !endsAuthority c)
      else .error .invalidAuthority

/-- A query up to a fragment. -/
def queryText : List Char → Except UriError (List Char)
  | [] => .ok []
  | c :: cs =>
    if c == '#' then .ok []
    else if isQueryChar c then (queryText cs).map (c :: ·)
    else .error .invalidCharacter

/-- A path with its query, without the fragment. -/
def targetText : List Char → Except UriError (List Char)
  | [] => .ok []
  | c :: cs =>
    if c == '?' then (queryText cs).map (c :: ·)
    else if c == '#' then .ok []
    else if isPathChar c then (targetText cs).map (c :: ·)
    else .error .invalidCharacter

/-- The longest text of a URI, in octets. -/
def maxLength : Nat := 65534

/-- A text that does not start with a slash and is longer than one octet. -/
def parseFull (cs : List Char) : Except UriError Uri := do
  let (scheme, rest) ← splitScheme cs
  let (front, rest) ← splitAuthority rest
  match scheme with
  | none =>
    if rest.isEmpty then .ok ⟨none, some (String.ofList front), none⟩
    else .error .invalidFormat
  | some scheme =>
    if front.isEmpty then .error .invalidFormat
    else
      let target ← targetText rest
      .ok ⟨some scheme, some (String.ofList front), some (String.ofList target)⟩

def parse (text : String) : Except UriError Uri :=
  if maxLength < text.utf8ByteSize then .error .tooLong
  else match text.toList with
    | [] => .error .empty
    | ['/'] => .ok ⟨none, none, some "/"⟩
    | ['*'] => .ok ⟨none, none, some "*"⟩
    | '/' :: cs => (targetText ('/' :: cs)).map fun t => ⟨none, none, some (String.ofList t)⟩
    | cs =>
      if text.utf8ByteSize = 1 then
        match splitAuthority cs with
        | .error e => .error e
        | .ok (front, rest) =>
          if rest.isEmpty then .ok ⟨none, some (String.ofList front), none⟩
          else .error .invalidCharacter
      else parseFull cs

/-- The path with its query as it stands in a request line; the root if it is empty. -/
def requestTarget (u : Uri) : String :=
  match u.target with
  | none => "/"
  | some t => if t.isEmpty then "/" else t

/-- The path; empty where only an authority is given, the root where it is left out. -/
def path (u : Uri) : String :=
  match u.target with
  | none => ""
  | some t =>
    let front := t.toList.takeWhile (· != '?')
    if front.isEmpty then "/" else String.ofList front

/-- The query, without its question mark. -/
def query? (u : Uri) : Option String :=
  match (u.target.getD "").toList.dropWhile (· != '?') with
  | [] => none
  | _ :: q => some (String.ofList q)

def text (u : Uri) : String :=
  (match u.scheme with | some s => s ++ "://" | none => "") ++ u.authority.getD "" ++ u.path ++
    (match u.query? with | some q => "?" ++ q | none => "")

end Courier.Uri
