import Courier.Api.Router
import Courier.Http.Uri
import Courier.Proofs.Encoding

/-!
# Addresses of operations

Nothing that is put into an address can open or close a part of it. A slash, a question mark, a
hash, an ampersand or an equals sign in a value, in a name or in a region is never taken for one of
the marks between the parts, so that the parts can be read back from the address.

## Main results

* `Origin.dropSlashes_text_append` — slashes behind an origin are dropped, and the origin is kept.
* `Operation.count_of_filled` — a filled path has the marks of the pattern's literal text only.
* `Operation.readQuery_queryText` — a query is read back as its pairs.
* `Operation.addressLaw_of_render` — the layout of every address.
-/
namespace Courier

/-- Nothing is dropped from the end beyond a character that is to be kept. -/
theorem Text.dropEnd_append_cons {p : Char → Bool} {c : Char} (keep : p c = false)
    (front back : List Char) :
    Text.dropEnd p (front ++ c :: back) = front ++ c :: Text.dropEnd p back := by
  have around : (front ++ c :: back).reverse = back.reverse ++ c :: front.reverse := by simp
  simp only [Text.dropEnd, around, List.dropWhile_append, List.dropWhile_cons, keep]
  by_cases gone : (back.reverse.dropWhile p).isEmpty = true
  · simp [List.isEmpty_iff.mp gone]
  · simp [gone]

/-- Slashes are dropped from what stands behind a text that does not end with one. -/
theorem Text.dropSlashes_append {front : String} {init : List Char} {last : Char}
    (ends : front.toList = init ++ [last]) (keep : (last == '/') = false) (back : String) :
    Text.dropSlashes (front ++ back) = front ++ Text.dropSlashes back := by
  have dropped := Text.dropEnd_append_cons (p := (· == '/')) keep init back.toList
  rw [← String.toList_inj]
  simp [Text.dropSlashes, ends, dropped]

theorem exists_of_map_eq_ok {ε α β : Type} {f : α → β} {r : Except ε α} {b : β}
    (h : r.map f = .ok b) : ∃ a, r = .ok a ∧ b = f a := by
  cases r with
  | error e => cases h
  | ok a => exact ⟨a, rfl, (Except.ok.inj h).symm⟩

namespace Api

/-! ## Origins -/

/-- A scheme and an authority. Neither has one of the marks that end an authority. -/
structure Origin where
  scheme : String
  authority : String
  named : authority ≠ ""
  plain : ∀ c ∈ scheme.toList ++ authority.toList, Uri.endsAuthority c = false

namespace Origin

/-- The text of an origin. -/
def text (o : Origin) : String := o.scheme ++ "://" ++ o.authority

theorem toList_text (o : Origin) :
    o.text.toList = o.scheme.toList ++ [':', '/', '/'] ++ o.authority.toList := by
  rw [text, String.toList_append, String.toList_append]
  rfl

/-- An origin ends with a character of its authority, and that is no slash. -/
theorem text_ends (o : Origin) :
    ∃ front last, o.text.toList = front ++ [last] ∧ (last == '/') = false := by
  obtain ⟨front, last, ends⟩ : ∃ front last, o.authority.toList = front ++ [last] := by
    have nonempty : o.authority.toList ≠ [] := fun empty =>
      o.named (String.toList_eq_nil_iff.mp empty)
    exact ⟨_, _, (List.dropLast_concat_getLast nonempty).symm⟩
  refine ⟨o.scheme.toList ++ [':', '/', '/'] ++ front, last, ?_, ?_⟩
  · rw [toList_text, ends, List.append_assoc _ front]
  · have plain := o.plain last (by simp [ends])
    simp only [Uri.endsAuthority, Bool.or_eq_false_iff] at plain
    exact plain.1.1

/-- Slashes behind an origin are dropped, and the origin is kept. -/
theorem dropSlashes_text_append (o : Origin) (back : String) :
    Text.dropSlashes (o.text ++ back) = o.text ++ Text.dropSlashes back := by
  obtain ⟨front, last, ends, keep⟩ := o.text_ends
  exact Text.dropSlashes_append ends keep back

/-- No slash is dropped from the end of an origin. -/
theorem dropSlashes_text (o : Origin) : Text.dropSlashes o.text = o.text := by
  have whole := o.dropSlashes_text_append ""
  rwa [String.append_empty, show Text.dropSlashes "" = "" by decide, String.append_empty] at whole

/-- A slash behind an origin is dropped. -/
theorem dropSlashes_text_slash (o : Origin) : Text.dropSlashes (o.text ++ "/") = o.text := by
  rw [dropSlashes_text_append, show Text.dropSlashes "/" = "" by decide, String.append_empty]

/-- A question mark or a hash is not in an origin. -/
theorem not_mem_text (o : Origin) {c : Char} (mark : c = '?' ∨ c = '#') : c ∉ o.text.toList := by
  have outside : c ∉ o.scheme.toList ++ o.authority.toList := by
    intro hc
    have plain := o.plain c hc
    rcases mark with rfl | rfl <;> simp [Uri.endsAuthority] at plain
  rw [List.mem_append, not_or] at outside
  rcases mark with rfl | rfl <;> simp [toList_text, outside]

end Origin

/-! ## Base paths -/

theorem Region.isRegionChar_of_mem (r : Region) : ∀ c ∈ r.id.toList, isRegionChar c = true := by
  have legal := r.legal
  rw [Bool.and_eq_true, List.all_eq_true] at legal
  exact legal.2

/-- Where operations with a pattern are found: below the region exactly if there is one and the
pattern begins with none of the families. -/
def IsBase (region : Option Region) (families : List String) (pattern base : String) : Prop :=
  (∃ r, region = some r ∧ (∀ family ∈ families, ¬ family.toList <+: pattern.toList) ∧
      base = "/api/v1/regions/" ++ r.id) ∨
    (region = none ∨ ∃ family ∈ families, family.toList <+: pattern.toList) ∧ base = "/api/v1"

theorem Router.origin_select (r : Router) (pattern : String) :
    (r.select pattern).origin = r.origin := by
  rw [select]
  split
  · rfl
  · rw [regional]
    split <;> rfl

theorem Router.url_route (r : Router) (op : Operation) (path query : String) :
    (r.route op).url (path ++ query) =
      r.origin ++ (r.select op.pattern).path ++ path ++ query := by
  rw [route, BasePath.url, origin_select, ← String.append_assoc]

theorem Router.isBase_select (r : Router) (pattern : String) :
    IsBase r.region r.families pattern (r.select pattern).path := by
  rw [select]
  split
  next hit =>
    obtain ⟨family, mem, begins⟩ := List.any_eq_true.mp hit
    exact .inr ⟨.inr ⟨family, mem, List.isPrefixOf_iff_prefix.mp begins⟩, rfl⟩
  next miss =>
    rw [regional]
    cases found : r.region with
    | none => exact .inr ⟨.inl rfl, rfl⟩
    | some region =>
      refine .inl ⟨region, rfl, fun family mem begins => miss ?_, ?_⟩
      · exact List.any_eq_true.mpr ⟨family, mem, List.isPrefixOf_iff_prefix.mpr begins⟩
      · rfl

/-- The router of an origin and a region with the given families. -/
def Router.over (given : String) (region : Option Region) (families : List String) : Router :=
  { Router.ofOrigin given region with families := families }

/-- A base path begins with a slash. -/
theorem IsBase.exists_cons {region : Option Region} {families : List String}
    {pattern base : String} (h : IsBase region families pattern base) :
    ∃ rest, base.toList = '/' :: rest := by
  rcases h with ⟨r, -, -, rfl⟩ | ⟨-, rfl⟩
  · rw [String.toList_append]
    exact ⟨_, rfl⟩
  · exact ⟨_, rfl⟩

/-- A question mark or a hash is not in a base path. -/
theorem IsBase.not_mem {region : Option Region} {families : List String} {pattern base : String}
    (h : IsBase region families pattern base) {c : Char} (mark : c = '?' ∨ c = '#') :
    c ∉ base.toList := by
  rcases h with ⟨r, -, -, rfl⟩ | ⟨-, rfl⟩
  · intro hc
    rw [String.toList_append, List.mem_append] at hc
    rcases hc with hc | hc
    · rcases mark with rfl | rfl <;> exact absurd hc (by decide)
    · have legal := r.isRegionChar_of_mem c hc
      rcases mark with rfl | rfl <;> exact absurd legal (by decide)
  · rcases mark with rfl | rfl <;> decide

/-! ## Operations as they are made -/

namespace Operation

/-- What an operation is given after its method and its pattern. -/
inductive Part where
  | binding (name value : String)
  | pair (name value : String)

/-- The value that a part binds to a name. -/
def Part.value? (name : String) : Part → Option String
  | .binding n value => if n = name then some value else none
  | .pair _ _ => none

/-- The pair that a part adds to the query. -/
def Part.pair? : Part → Option (String × String)
  | .binding _ _ => none
  | .pair name value => some (name, value)

/-- An operation with one more part. -/
def give (op : Operation) : Part → Operation
  | .binding name value => op.bindParam name value
  | .pair name value => op.addQuery name value

/-- The operation with the given parts, in order. -/
def made (method : Method) (pattern : String) (parts : List Part) : Operation :=
  parts.foldl give { method := method, pattern := pattern }

/-- The value that the last of the bindings of a name has bound to it. -/
def bound (parts : List Part) (name : String) : Option String :=
  parts.reverse.findSome? (Part.value? name)

/-- The pairs that parts add to a query, in order. -/
def pairs (parts : List Part) : List (String × String) := parts.filterMap Part.pair?

theorem value?_bindParam (op : Operation) (n value name : String) :
    (op.bindParam n value).value? name = if n = name then some value else op.value? name := by
  simp only [value?, bindParam, List.find?_append, List.find?_filter]
  by_cases same : n = name
  · -- Every older binding of the name is gone.
    have gone : op.params.find? (fun p => decide (decide (p.1 ≠ n) = true ∧
        decide (p.1 = name) = true)) = none := by
      rw [List.find?_eq_none]
      intro p _
      simp only [decide_eq_true_eq]
      rintro ⟨other, here⟩
      exact other (here.trans same.symm)
    rw [gone, if_pos same]
    simp [same]
  · have kept : (fun p : String × String => decide (decide (p.1 ≠ n) = true ∧
        decide (p.1 = name) = true)) = fun p => decide (p.1 = name) := by
      funext p
      by_cases here : p.1 = name
      · have other : p.1 ≠ n := fun h => same (h.symm.trans here)
        simp [here, Ne.symm same]
      · simp [here]
    rw [kept, if_neg same]
    simp [same]

theorem value?_give (op : Operation) (part : Part) (name : String) :
    (op.give part).value? name = (part.value? name).or (op.value? name) := by
  cases part with
  | binding n value =>
    rw [give, value?_bindParam, Part.value?]
    split <;> rfl
  | pair n value => rfl

theorem value?_foldl_give (parts : List Part) (op : Operation) (name : String) :
    (parts.foldl give op).value? name = (bound parts name).or (op.value? name) := by
  induction parts generalizing op with
  | nil => rfl
  | cons part parts ih =>
    have last : bound (part :: parts) name = (bound parts name).or (part.value? name) := by
      rw [bound, List.reverse_cons, List.findSome?_append, List.findSome?_singleton]
      rfl
    rw [List.foldl_cons, ih, value?_give, last, Option.or_assoc]

/-- The last binding of a name wins. -/
theorem value?_made (method : Method) (pattern : String) (parts : List Part) :
    (made method pattern parts).value? = bound parts := by
  funext name
  rw [made, value?_foldl_give]
  exact Option.or_none

theorem query_foldl_give (parts : List Part) (op : Operation) :
    (parts.foldl give op).query = op.query ++ pairs parts := by
  induction parts generalizing op with
  | nil => exact (List.append_nil _).symm
  | cons part parts ih =>
    rw [List.foldl_cons, ih]
    cases part with
    | binding n value => rfl
    | pair n value => exact List.append_assoc ..

theorem query_made (method : Method) (pattern : String) (parts : List Part) :
    (made method pattern parts).query = pairs parts :=
  query_foldl_give parts _

theorem pattern_made (method : Method) (pattern : String) (parts : List Part) :
    (made method pattern parts).pattern = pattern := by
  have kept : ∀ op : Operation, (parts.foldl give op).pattern = op.pattern := by
    induction parts with
    | nil => exact fun _ => rfl
    | cons part parts ih =>
      intro op
      rw [List.foldl_cons, ih]
      cases part <;> rfl
  exact kept _

/-! ## Filled paths -/

/-- The characters of a pattern that stand outside its slots, from inside a slot or outside. -/
def literalText (inSlot : Bool) : List Char → List Char
  | [] => []
  | c :: cs =>
    if inSlot then literalText (c ≠ '}') cs
    else if c = '{' then literalText true cs
    else c :: literalText false cs

/-- A path is a pattern with text in the place of each slot that percent-decodes to the value bound
to the slot, and is written in the characters of encoded text. -/
inductive Filled (value? : String → Option String) : List Char → List Char → Prop where
  | done : Filled value? [] []
  | literal {c : Char} {pattern path : List Char} (opens : c ≠ '{') (closes : c ≠ '}')
      (rest : Filled value? pattern path) : Filled value? (c :: pattern) (c :: path)
  | slot {name written pattern path : List Char} {value : String} (named : name ≠ [])
      (opens : '{' ∉ name) (closes : '}' ∉ name) (hit : value? (String.ofList name) = some value)
      (reads : Percent.decode? written = some value)
      (plain : ∀ c ∈ written, Percent.isWritten c = true) (rest : Filled value? pattern path) :
      Filled value? ('{' :: (name ++ '}' :: pattern)) (written ++ path)

theorem literalText_slot {name : List Char} (closes : '}' ∉ name) (pattern : List Char) :
    literalText true (name ++ '}' :: pattern) = literalText false pattern := by
  induction name with
  | nil => simp [literalText]
  | cons c name ih =>
    obtain ⟨other, later⟩ := List.ne_and_not_mem_of_not_mem_cons closes
    simp [literalText, Ne.symm other, ih later]

/-- **A filled path has the marks of the literal text of its pattern, and no others**: whatever is
not used by encoded text stands in the path as often as outside the slots. -/
theorem count_of_filled {value? : String → Option String} {pattern path : List Char}
    (h : Filled value? pattern path) {mark : Char} (reserved : Percent.isWritten mark = false) :
    path.count mark = (literalText false pattern).count mark := by
  induction h with
  | done => rfl
  | literal opens closes rest ih => simp [literalText, opens, List.count_cons, ih]
  | @slot name written pattern path value named opens closes hit reads plain rest ih =>
    have absent : mark ∉ written := by
      intro hm
      rw [plain mark hm] at reserved
      exact absurd reserved (by decide)
    have skipped : literalText false ('{' :: (name ++ '}' :: pattern)) =
        literalText false pattern := literalText_slot closes pattern
    rw [skipped, List.count_append, List.count_eq_zero.mpr absent, ih, Nat.zero_add]

theorem not_mem_of_filled {value? : String → Option String} {pattern path : List Char}
    (h : Filled value? pattern path) {mark : Char} (reserved : Percent.isWritten mark = false)
    (absent : mark ∉ literalText false pattern) : mark ∉ path := by
  rw [← List.count_eq_zero, count_of_filled h reserved, List.count_eq_zero]
  exact absent

theorem fill_slot_eq_ok {value? : String → Option String} {name : String} {pieces : List Piece}
    {path : List Char} (h : fill value? (.slot name :: pieces) = .ok path) :
    ∃ value rest, value? name = some value ∧ fill value? pieces = .ok rest ∧
      path = (Percent.encode value).toList ++ rest := by
  rw [fill] at h
  cases hit : value? name with
  | none => rw [hit] at h; cases h
  | some value =>
    rw [hit] at h
    obtain ⟨rest, filled, whole⟩ := exists_of_map_eq_ok h
    exact ⟨value, rest, rfl, filled, whole⟩

/-- What is left of a pattern, with the slot that has been opened put back in front. -/
def reopened : (open? : Option (List Char)) → List Char → List Char
  | none, cs => cs
  | some name, cs => '{' :: (name.reverse ++ cs)

/-- The pieces of a pattern without a defect are filled into a path of the pattern. -/
theorem filled_of_scan {value? : String → Option String} (open? : Option (List Char))
    (cs : List Char) : ∀ {path : List Char}, '}' ∉ open?.getD [] →
      (scanPieces open? cs).2 = none → fill value? (scanPieces open? cs).1 = .ok path →
      Filled value? (reopened open? cs) path := by
  -- Along the scan, no closing brace is in the slot that has been opened.
  fun_induction scanPieces open? cs with
  | case1 =>
    intro path _ _ ok
    cases Except.ok.inj ok
    exact .done
  | case2 => exact fun _ sound => nomatch sound
  | case3 cs ih => exact fun _ => ih List.not_mem_nil
  | case4 => exact fun _ sound => nomatch sound
  | case5 c cs opens shuts pieces defect scanned ih =>
    intro path _ sound ok
    obtain ⟨rest, filled, rfl⟩ := exists_of_map_eq_ok ok
    rw [scanned] at ih
    exact .literal opens shuts (ih List.not_mem_nil sound filled)
  | case6 => exact fun _ sound => nomatch sound
  | case7 name cs legal pieces defect scanned ih =>
    intro path closes sound ok
    obtain ⟨value, rest, hit, filled, whole⟩ := fill_slot_eq_ok ok
    rw [scanned] at ih
    rw [Bool.or_eq_true, not_or] at legal
    rw [whole]
    refine .slot ?named ?opens ?closes hit (Percent.decode?_encode value)
      (Percent.isWritten_of_mem_encode value) (ih List.not_mem_nil sound filled)
    case named => simpa using legal.1
    case opens => simpa using legal.2
    case closes => simpa using closes
  | case8 name c cs other ih =>
    intro path closes sound ok
    have longer := ih (List.not_mem_cons_of_ne_of_not_mem (Ne.symm other) closes) sound ok
    rwa [reopened, List.reverse_cons, List.append_assoc] at longer

/-- What is rendered is a filled path with the query behind it. -/
theorem filled_of_render {op : Operation} {rendered : String} (ok : op.render = .ok rendered) :
    ∃ path : String, Filled op.value? op.pattern.toList path.toList ∧
      rendered = path ++ queryText op.query := by
  rw [render] at ok
  cases filled : fill op.value? (scanPattern op.pattern).1 with
  | error name => simp only [filled] at ok; cases ok
  | ok path =>
    cases sound : (scanPattern op.pattern).2 with
    | some defect => simp only [filled, sound] at ok; cases ok
    | none =>
      simp only [filled, sound] at ok
      refine ⟨String.ofList path, ?_, (Except.ok.inj ok).symm⟩
      rw [String.toList_ofList]
      rw [scanPattern] at filled sound
      split at filled
      next absolute =>
        rw [if_pos absolute] at sound
        exact filled_of_scan none _ List.not_mem_nil sound filled
      next relative =>
        rw [if_neg relative] at sound
        cases sound

/-! ## Queries -/

/-- The pair in a piece of a query. -/
def readPair (piece : List Char) : Option (String × String) :=
  match piece.splitOn '=' with
  | [name, value] =>
    match Percent.decode? name, Percent.decode? value with
    | some n, some v => some (n, v)
    | _, _ => none
  | _ => none

/-- The pairs of a query: none without a question mark, else what stands between ampersands. -/
def readQuery : List Char → Option (List (String × String))
  | [] => some []
  | c :: text => if c = '?' then (text.splitOn '&').mapM readPair else none

theorem toList_pairText (pair : String × String) :
    (pairText pair).toList =
      ['='].intercalate [(Percent.encode pair.1).toList, (Percent.encode pair.2).toList] := by
  simp [pairText, List.intercalate]

theorem toList_queryText {pairs : List (String × String)} (nonempty : pairs ≠ []) :
    (queryText pairs).toList =
      '?' :: ['&'].intercalate (pairs.map fun pair => (pairText pair).toList) := by
  have filled : ¬ pairs.isEmpty = true := by simpa using nonempty
  rw [queryText, if_neg filled, String.toList_append, String.toList_intercalate, List.map_map]
  rfl

theorem mem_intercalate {sep : List Char} {texts : List (List Char)} {c : Char}
    (h : c ∈ sep.intercalate texts) : c ∈ sep ∨ ∃ text ∈ texts, c ∈ text := by
  induction texts with
  | nil => cases h
  | cons first rest ih =>
    cases rest with
    | nil => exact .inr ⟨first, List.mem_singleton_self _, by simpa [List.intercalate] using h⟩
    | cons second rest =>
      rw [List.intercalate_cons_cons, List.mem_append, List.mem_append] at h
      rcases h with (here | between) | later
      · exact .inr ⟨first, List.mem_cons_self .., here⟩
      · exact .inl between
      · rcases ih later with between | ⟨text, mem, found⟩
        · exact .inl between
        · exact .inr ⟨text, List.mem_cons_of_mem _ mem, found⟩

/-- A pair is written in the characters of encoded text and an equals sign. -/
theorem not_mem_pairText {c : Char} (reserved : Percent.isWritten c = false) (other : c ≠ '=')
    (pair : String × String) : c ∉ (pairText pair).toList := by
  simp [pairText, other, Percent.not_mem_encode reserved]

/-- Behind its question mark, a query is written in the characters of encoded text, equals signs and
ampersands. -/
theorem count_queryText (pairs : List (String × String)) {c : Char}
    (reserved : Percent.isWritten c = false) (equals : c ≠ '=') (ampersand : c ≠ '&') :
    (queryText pairs).toList.count c = if pairs = [] then 0 else if c = '?' then 1 else 0 := by
  by_cases empty : pairs = []
  · rw [empty]
    rfl
  · have absent : c ∉ ['&'].intercalate (pairs.map fun pair => (pairText pair).toList) := by
      intro hc
      rcases mem_intercalate hc with between | ⟨text, mem, inside⟩
      · exact ampersand (List.mem_singleton.mp between)
      · obtain ⟨pair, -, rfl⟩ := List.mem_map.mp mem
        exact not_mem_pairText reserved equals pair inside
    rw [toList_queryText empty, List.count_cons, List.count_eq_zero.mpr absent, Nat.zero_add,
      if_neg empty]
    simp only [beq_iff_eq, eq_comm (a := c)]

theorem readPair_pairText (pair : String × String) :
    readPair (pairText pair).toList = some pair := by
  have split : (pairText pair).toList.splitOn '=' =
      [(Percent.encode pair.1).toList, (Percent.encode pair.2).toList] := by
    rw [toList_pairText]
    refine List.splitOn_intercalate '=' ?_ (List.cons_ne_nil _ _)
    simp [Percent.not_mem_encode (show Percent.isWritten '=' = false by decide)]
  simp only [readPair, split, Percent.decode?_encode]

/-- **A query is read back as its pairs.** -/
theorem readQuery_queryText (pairs : List (String × String)) :
    readQuery (queryText pairs).toList = some pairs := by
  by_cases empty : pairs = []
  · rw [empty]
    rfl
  · have split : (['&'].intercalate (pairs.map fun pair => (pairText pair).toList)).splitOn '&' =
        pairs.map fun pair => (pairText pair).toList :=
      List.splitOn_intercalate '&' ?separate ?nonempty
    · have each : (readPair ∘ fun pair => (pairText pair).toList) = some := by
        funext pair
        rw [Function.comp_apply, readPair_pairText]
      rw [toList_queryText empty, readQuery, if_pos rfl, split, List.mapM_map, each, mapM_some]
    case separate =>
      intro text mem
      obtain ⟨pair, -, rfl⟩ := List.mem_map.mp mem
      exact not_mem_pairText (by decide) (by decide) pair
    case nonempty => simpa using empty

/-! ## Addresses -/

/-- The layout of the address of an operation that has been made of parts. -/
structure AddressLaw (origin : Origin) (region : Option Region) (families : List String)
    (pattern : String) (parts : List Part) (base path query url : String) : Prop where
  /-- The address is made of four parts. -/
  whole : url = origin.text ++ base ++ path ++ query
  /-- The region is named exactly if there is one and the pattern begins with no family. -/
  located : IsBase region families pattern base
  /-- The path is the pattern with text for its slots that reads as the values bound to them. -/
  filled : Filled (bound parts) pattern.toList path.toList
  /-- No value makes or hides a segment. -/
  slashes : path.toList.count '/' = (literalText false pattern.toList).count '/'
  /-- There is no fragment. -/
  noFragment : '#' ∉ url.toList
  /-- Nothing but the query is opened by a question mark … -/
  opened : '?' ∉ (origin.text ++ base ++ path).toList ∧ (query = "" ∨ query.toList.head? = some '?')
  /-- … and it is opened exactly if it has a pair. -/
  marks : url.toList.count '?' = if pairs parts = [] then 0 else 1
  /-- The query reads as the pairs of the parts. -/
  readBack : readQuery query.toList = some (pairs parts)

/-- **The layout of every address.** Whatever is bound and added, an operation that can be rendered
and whose literal text has neither question mark nor hash is found at its origin, below the base
path for its pattern, along its pattern, and its pairs can be read back. -/
theorem addressLaw_of_render (origin : Origin) (given : String)
    (spelled : given = origin.text ∨ given = origin.text ++ "/") (region : Option Region)
    (families : List String) (method : Method) (pattern : String) (parts : List Part)
    (literal : ∀ c ∈ literalText false pattern.toList, c ≠ '?' ∧ c ≠ '#') {rendered : String}
    (ok : (made method pattern parts).render = .ok rendered) :
    ∃ base path query : String, AddressLaw origin region families pattern parts base path query
      (((Router.over given region families).route (made method pattern parts)).url rendered) := by
  have home : (Router.over given region families).origin = origin.text := by
    rcases spelled with rfl | rfl
    · exact origin.dropSlashes_text
    · exact origin.dropSlashes_text_slash
  have base : IsBase region families pattern
      ((Router.over given region families).select pattern).path :=
    (Router.over given region families).isBase_select pattern
  generalize Router.over given region families = router at home base ⊢
  obtain ⟨path, filled, rfl⟩ := filled_of_render ok
  rw [value?_made, pattern_made] at filled
  rw [query_made]
  have url := router.url_route (made method pattern parts) path (queryText (pairs parts))
  rw [home, pattern_made] at url
  have clean : ∀ c, c = '?' ∨ c = '#' →
      c ∉ (origin.text ++ (router.select pattern).path ++ path).toList := by
    intro c mark
    have reserved : Percent.isWritten c = false := by rcases mark with rfl | rfl <;> decide
    have absent : c ∉ literalText false pattern.toList := by
      intro hc
      rcases mark with rfl | rfl
      · exact (literal _ hc).1 rfl
      · exact (literal _ hc).2 rfl
    simp [origin.not_mem_text mark, base.not_mem mark, not_mem_of_filled filled reserved absent]
  refine ⟨_, path, queryText (pairs parts), url, base, filled, count_of_filled filled (by decide),
    ?noFragment, ⟨clean _ (.inl rfl), ?opened⟩, ?marks, readQuery_queryText _⟩
  case noFragment =>
    rw [url, String.toList_append, List.mem_append, not_or]
    refine ⟨clean _ (.inr rfl), ?_⟩
    rw [← List.count_eq_zero, count_queryText _ (by decide) (by decide) (by decide)]
    simp
  case opened =>
    by_cases empty : pairs parts = []
    · exact .inl (by rw [empty]; rfl)
    · exact .inr (by rw [toList_queryText empty]; rfl)
  case marks =>
    rw [url, String.toList_append, List.count_append, List.count_eq_zero.mpr (clean _ (.inl rfl)),
      count_queryText _ (by decide) (by decide) (by decide)]
    simp

/-- An origin with a port. -/
def cloud : Origin where
  scheme := "https"
  authority := "cloud.example.com:8443"
  named := by decide
  plain := by simp [Uri.endsAuthority]

/-- Parts full of marks: the second binding of the slot wins. -/
def marked : List Part :=
  [.binding "id" "old", .pair "q&a" "1=2", .binding "id" "a/b?c#\x7bé\x7d", .pair "" "§"]

theorem addressLaw_marked :
    (made .get "/platform/\x7bid\x7d/x" marked).render =
        .ok "/platform/a%2Fb%3Fc%23%7B%C3%A9%7D/x?q%26a=1%3D2&=%C2%A7" ∧
      ∃ base path query : String,
        AddressLaw cloud (some ⟨"us-east-1", by decide⟩) regionlessFamilies
          "/platform/\x7bid\x7d/x" marked base path query
          (((Router.over (cloud.text ++ "/") (some ⟨"us-east-1", by decide⟩)
            regionlessFamilies).route (made .get "/platform/\x7bid\x7d/x" marked)).url
              "/platform/a%2Fb%3Fc%23%7B%C3%A9%7D/x?q%26a=1%3D2&=%C2%A7") := by
  have ok : (made .get "/platform/\x7bid\x7d/x" marked).render =
      .ok "/platform/a%2Fb%3Fc%23%7B%C3%A9%7D/x?q%26a=1%3D2&=%C2%A7" := rfl
  have literal : ∀ c ∈ literalText false "/platform/\x7bid\x7d/x".toList, c ≠ '?' ∧ c ≠ '#' := by
    simp [literalText]
  exact ⟨ok, addressLaw_of_render cloud _ (.inr rfl) _ _ _ _ _ literal ok⟩

end Operation
end Api
end Courier
