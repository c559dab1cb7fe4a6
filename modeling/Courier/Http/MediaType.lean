import Courier.Http.Headers
import Courier.Text.Blank

/-!
# Media types

`type/subtype+suffix; name=value`, read as far as telling an HTML document from anything else
needs: type and subtype are kept in small letters, parameters are only checked.
-/
namespace Courier

/-- Type and subtype of a document, in small letters. -/
structure MediaType where
  type : String
  subtype : String
deriving DecidableEq, Repr

namespace MediaType

/-- Where the reader of parameters stands. -/
inductive ParameterState where
  /-- Before a name; spaces are passed over. -/
  | beforeName
  | name
  /-- Right after the equals sign. -/
  | beforeValue
  | value
  /-- Right after the opening quote, where a second quote does not close yet. -/
  | quoteOpened
  | quoted
  /-- After a closing quote; spaces are passed over. -/
  | quoteClosed
deriving DecidableEq, Repr

/-- A character inside quotes: anything but a control character. -/
def isQuotedChar (c : Char) : Bool := 0x20 ≤ c.toNat && c.toNat != 0x7F

/-- Take one character of the parameters; `none` where it is not allowed. -/
def ParameterState.step : ParameterState → Char → Option ParameterState
  | .beforeName, c =>
    if c == ' ' then some .beforeName else if isTokenChar c then some .name else none
  | .name, c =>
    if isTokenChar c then some .name else if c == '=' then some .beforeValue else none
  | .beforeValue, c =>
    if c == '"' then some .quoteOpened else if isTokenChar c then some .value else none
  | .value, c =>
    if isTokenChar c then some .value else if c == ';' then some .beforeName else none
  | .quoteOpened, c => if isQuotedChar c then some .quoted else none
  | .quoted, c =>
    if c == '"' then some .quoteClosed else if isQuotedChar c then some .quoted else none
  | .quoteClosed, c =>
    if c == ';' then some .beforeName else if c == ' ' then some .quoteClosed else none

def ParameterState.canEnd : ParameterState → Bool
  | .beforeName | .beforeValue | .value | .quoteClosed => true
  | .name | .quoteOpened | .quoted => false

/-- What follows the first semicolon is a list of parameters, perhaps empty. -/
def parametersOk (cs : List Char) : Bool :=
  match cs.foldlM ParameterState.step .beforeName with
  | some s => s.canEnd
  | none => false

/-- A subtype without its suffix, which starts at the last plus sign unless that is the first
character. -/
def dropSuffix (cs : List Char) : List Char :=
  match (cs.drop 1).reverse.dropWhile (· != '+') with
  | [] => cs
  | _ :: before => cs.take 1 ++ before.reverse

/-- Read a media type. An empty subtype is allowed where nothing follows it. -/
def parse? (text : String) : Option MediaType :=
  let cs := text.toList
  let type := cs.takeWhile isTokenChar
  match type, cs.dropWhile isTokenChar with
  | _ :: _, '/' :: rest =>
    let subtype := rest.takeWhile isTokenChar
    let found : MediaType :=
      ⟨Text.lower (String.ofList type), Text.lower (String.ofList (dropSuffix subtype))⟩
    match rest.dropWhile isTokenChar with
    | [] => some found
    | ';' :: parameters =>
      if !subtype.isEmpty && parametersOk parameters then some found else none
    | _ => none
  | _, _ => none

def html : MediaType := ⟨"text", "html"⟩

end MediaType

/-- The characters of `pattern` stand in `cs` one after another. -/
def occursIn (pattern : List Char) : List Char → Bool
  | [] => pattern.isEmpty
  | c :: cs => pattern.isPrefixOf (c :: cs) || occursIn pattern cs

/-- The first content type names an HTML document. A value that is not a media type counts if the
name of the type occurs in it anywhere. -/
def Headers.isHtml (h : Headers) : Bool :=
  match (h.get? .contentType).bind HeaderValue.toText? with
  | none => false
  | some text =>
    match MediaType.parse? text with
    | some m => m == MediaType.html
    | none => occursIn "text/html".toList (Text.lower text).toList

end Courier
