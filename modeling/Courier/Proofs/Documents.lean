import Courier.Envelope.Reader
import Courier.Proofs.Encoding
import Mathlib.Data.List.Forall2

/-!
# Documents that read back

A reader reads a written form back if it takes the form off the front of whatever follows and
answers the value. Texts, lists and members that are written without blanks are read back part by
part, and so is a whole envelope, both as such (`parse?_encode`, `roundTrip_encode`) and as any
document (`json_parse?_encode`).
-/
namespace Courier

@[simp] theorem Utf8.encode_append (a b : String) : encode (a ++ b) = encode a ++ encode b := by
  rw [encode, String.toList_append, List.flatMap_append]
  rfl

namespace Json

variable {α : Type}

/-- The reader takes the written form off the front, whatever follows, and answers the value. -/
def Reads (reader : Reader α) (written : Bytes) (value : α) : Prop :=
  ∀ rest, reader (written ++ rest) = some (value, rest)

/-! ## Texts -/

/-- An octet that stands for itself between quotes. -/
def IsPlain (b : UInt8) : Prop := b ≠ 0x22 ∧ b ≠ 0x5C ∧ 0x20 ≤ b.toNat

theorem quotedBytes_close (rest : Bytes) : quotedBytes (0x22 :: rest) = some ([], rest) := by
  rw [quotedBytes]
  simp

theorem quotedBytes_escaped {tail rest : Bytes} {c : Char} (h : escaped tail = some (c, rest)) :
    quotedBytes (0x5C :: tail) =
      (quotedBytes rest).map fun (s, left) => (String.utf8EncodeChar c ++ s, left) := by
  rw [quotedBytes, if_neg (by decide), if_pos rfl]
  split
  next none => simp [h] at none
  next c' rest' some =>
    rw [h] at some
    cases some
    rfl

theorem quotedBytes_plain {written : Bytes} (h : ∀ b ∈ written, IsPlain b) (tail : Bytes) :
    quotedBytes (written ++ tail) =
      (quotedBytes tail).map fun (s, left) => (written ++ s, left) := by
  induction written with
  | nil => simp
  | cons b written ih =>
    obtain ⟨quote, solidus, large⟩ := h b (List.mem_cons_self ..)
    have control : ¬ b < 0x20 := fun small => Nat.not_lt.2 large (UInt8.lt_iff_toNat_lt.1 small)
    rw [List.cons_append, quotedBytes, if_neg quote, if_neg solidus, if_neg control,
      ih fun b hb => h b (List.mem_cons_of_mem _ hb), Option.map_map]
    rfl

/-- The octets of a character stand for themselves unless it is the quote, the reverse solidus or a
control character. -/
theorem isPlain_encodeChar {c : Char} (quote : c ≠ '"') (solidus : c ≠ '\\')
    (large : 32 ≤ c.toNat) : ∀ b ∈ String.utf8EncodeChar c, IsPlain b := by
  have notQuote : c.toNat ≠ 34 := fun same => quote (by rw [← Char.ofNat_toNat c, same])
  have notSolidus : c.toNat ≠ 92 := fun same => solidus (by rw [← Char.ofNat_toNat c, same])
  have beyond : ∀ n, 128 ≤ n → n < 256 → IsPlain (UInt8.ofNat n) := by
    intro n low high
    simp only [IsPlain, ne_eq, ← UInt8.toNat_inj, Utf8.toNat_ofNat high, UInt8.reduceToNat]
    omega
  intro b hb
  unfold String.utf8EncodeChar at hb
  change c.val.toNat ≠ 34 at notQuote
  change c.val.toNat ≠ 92 at notSolidus
  change 32 ≤ c.val.toNat at large
  generalize c.val.toNat = v at notQuote notSolidus large hb
  simp only at hb
  -- One octet is that of the character; of several, each is beyond all marks.
  split at hb
  next one =>
    obtain rfl := List.mem_singleton.1 hb
    simp only [IsPlain, ne_eq, ← UInt8.toNat_inj, Utf8.toNat_ofNat (show v < 256 by omega),
      UInt8.reduceToNat]
    omega
  split at hb
  next two =>
    simp only [List.mem_cons, List.not_mem_nil, or_false] at hb
    rcases hb with rfl | rfl <;> exact beyond _ (by omega) (by omega)
  split at hb
  next three =>
    simp only [List.mem_cons, List.not_mem_nil, or_false] at hb
    rcases hb with rfl | rfl | rfl <;> exact beyond _ (by omega) (by omega)
  next four =>
    simp only [List.mem_cons, List.not_mem_nil, or_false] at hb
    rcases hb with rfl | rfl | rfl | rfl <;> exact beyond _ (by omega) (by omega)

theorem hexValue?_hexDigit {n : Nat} (h : n < 16) :
    ∃ b, String.utf8EncodeChar (hexDigit n) = [b] ∧ hexValue? b = some n := by
  have all : ∀ n : Fin 16,
      (String.utf8EncodeChar (hexDigit n)).map hexValue? = [some n.val] := by decide
  obtain ⟨b, one, value⟩ := List.map_eq_singleton_iff.1 (all ⟨n, h⟩)
  exact ⟨b, one, value⟩

/-- What is written for a character is read as that character. -/
theorem quotedBytes_escape (c : Char) (tail : Bytes) :
    quotedBytes ((escape c).flatMap String.utf8EncodeChar ++ tail) =
      (quotedBytes tail).map fun (s, left) => (String.utf8EncodeChar c ++ s, left) := by
  -- A reverse solidus and a letter.
  have short : ∀ b : UInt8, b ≠ 0x75 → shortEscape? b = some c →
      quotedBytes (0x5C :: b :: tail) =
        (quotedBytes tail).map fun (s, left) => (String.utf8EncodeChar c ++ s, left) := by
    intro b letter stands
    refine quotedBytes_escaped ?_
    unfold escaped
    split
    next same => simp_all
    next other same =>
      cases same
      rw [stands]
      rfl
    next none => cases none
  unfold escape
  split
  next same => subst same; exact short 0x22 (by decide) rfl
  split
  next same => subst same; exact short 0x5C (by decide) rfl
  split
  next same => subst same; exact short 0x62 (by decide) rfl
  split
  next same => subst same; exact short 0x74 (by decide) rfl
  split
  next same => subst same; exact short 0x6E (by decide) rfl
  split
  next same => subst same; exact short 0x66 (by decide) rfl
  split
  next same => subst same; exact short 0x72 (by decide) rfl
  split
  next control =>
    obtain ⟨high, hw, hv⟩ := hexValue?_hexDigit (n := c.toNat / 16) (by omega)
    obtain ⟨low, lw, lv⟩ := hexValue?_hexDigit (n := c.toNat % 16) (by omega)
    have four : hexFour (0x30 :: 0x30 :: high :: low :: tail) = some (c.toNat, tail) := by
      have zero : hexValue? 0x30 = some 0 := rfl
      simp only [hexFour, zero, hv, lv, Option.some.injEq, Prod.mk.injEq, and_true]
      omega
    have stands : escaped (0x75 :: 0x30 :: 0x30 :: high :: low :: tail) = some (c, tail) := by
      simp only [escaped, four]
      rw [if_neg (by omega), if_neg (by omega), Char.ofNat_toNat]
    have written : ['\\', 'u', '0', '0', hexDigit (c.toNat / 16), hexDigit (c.toNat % 16)].flatMap
        String.utf8EncodeChar = [0x5C, 0x75, 0x30, 0x30, high, low] := by
      simp only [List.flatMap_cons, hw, lw]
      rfl
    rw [written]
    exact quotedBytes_escaped stands
  next quote solidus _ _ _ _ _ raw =>
    have plain := quotedBytes_plain (isPlain_encodeChar quote solidus (Nat.not_lt.1 raw)) tail
    simpa using plain

/-- A text is read from its characters in quotes. -/
theorem quotedBytes_text (cs : List Char) (rest : Bytes) :
    quotedBytes ((cs.flatMap escape).flatMap String.utf8EncodeChar ++ 0x22 :: rest) =
      some (cs.flatMap String.utf8EncodeChar, rest) := by
  induction cs with
  | nil => exact quotedBytes_close rest
  | cons c cs ih =>
    rw [List.flatMap_cons, List.flatMap_append, List.append_assoc, quotedBytes_escape, ih]
    rfl

theorem encode_quote (s : String) :
    Utf8.encode (quote s) =
      0x22 :: ((s.toList.flatMap escape).flatMap String.utf8EncodeChar ++ [0x22]) := by
  have mark : String.utf8EncodeChar '"' = [0x22] := rfl
  rw [quote, Utf8.encode, String.toList_ofList, List.flatMap_append, List.flatMap_cons,
    List.flatMap_singleton, mark]
  rfl

/-- A text in quotes reads back. -/
theorem reads_quoted (s : String) : Reads quoted (Utf8.encode (quote s)) s := by
  intro rest
  have opened : expect 0x22 (Utf8.encode (quote s) ++ rest) =
      some ((), (s.toList.flatMap escape).flatMap String.utf8EncodeChar ++ 0x22 :: rest) := by
    rw [encode_quote]
    simp [expect, skipBlank, isBlank]
  rw [quoted, opened]
  simp only [quotedBytes_text]
  have back := Utf8.strict?_encode s
  rw [Utf8.encode] at back
  rw [back]
  rfl

/-! ## Lists and members -/

/-- Written forms with commas between them. -/
def joined : List Bytes → Bytes
  | [] => []
  | [w] => w
  | w :: rest => w ++ 0x2C :: joined rest

/-- The reader takes nothing off a text that starts, after any blanks, with the mark. -/
def Shuns (item : Reader α) (mark : UInt8) : Prop :=
  ∀ bs rest, skipBlank bs = mark :: rest → item bs = none

theorem joined_cons_cons (w v : Bytes) (ws : List Bytes) :
    joined (w :: v :: ws) = w ++ 0x2C :: joined (v :: ws) := rfl

theorem length_le_joined (ws : List Bytes) : ws.length ≤ (joined ws).length + 1 := by
  induction ws with
  | nil => exact Nat.zero_le _
  | cons w ws ih =>
    cases ws with
    | nil => exact Nat.le_add_left ..
    | cons v ws =>
      simp only [joined_cons_cons, List.length_append, List.length_cons] at ih ⊢
      omega

section Lists

variable {item : Reader α} {close : UInt8}

theorem itemsUpTo_last (stops : isBlank close = false) (comma : close ≠ 0x2C) {w : Bytes} {a : α}
    (h : Reads item w a) (n : Nat) (rest : Bytes) :
    itemsUpTo item close (n + 1) (w ++ close :: rest) = some ([a], rest) := by
  have ends : skipBlank (close :: rest) = close :: rest := by simp [skipBlank, stops]
  rw [itemsUpTo, h]
  simp only [ends, if_neg comma, if_true]

theorem itemsUpTo_more {w : Bytes} {a : α} (h : Reads item w a) (n : Nat) (rest : Bytes) :
    itemsUpTo item close (n + 1) (w ++ 0x2C :: rest) =
      (itemsUpTo item close n rest).map fun (as, left) => (a :: as, left) := by
  rw [itemsUpTo, h]
  rfl

theorem itemsUpTo_of_none {bs : Bytes} (h : item bs = none) (n : Nat) :
    itemsUpTo item close n bs = none := by
  cases n with
  | zero => rfl
  | succ n => rw [itemsUpTo, h]

/-- A list with an item does not end at once, since the item would not be read from its end. -/
theorem Shuns.expect_eq_none (shuns : Shuns item close) {bs : Bytes} {n : Nat}
    {r : List α × Bytes} (read : itemsUpTo item close n bs = some r) : expect close bs = none := by
  unfold expect
  split
  next b left start =>
    refine if_neg fun same => ?_
    rw [itemsUpTo_of_none (shuns bs left (by rw [start, same]))] at read
    cases read
  next => rfl

/-- Items with commas between them read back if each of them does. -/
theorem itemsUpTo_joined (stops : isBlank close = false) (comma : close ≠ 0x2C) {w : Bytes}
    {ws : List Bytes} {x : α} {xs : List α}
    (each : List.Forall₂ (Reads item) (w :: ws) (x :: xs)) {n : Nat} (room : ws.length ≤ n)
    (rest : Bytes) :
    itemsUpTo item close (n + 1) (joined (w :: ws) ++ close :: rest) = some (x :: xs, rest) := by
  induction ws generalizing w x xs n with
  | nil =>
    obtain ⟨first, none⟩ := List.forall₂_cons.1 each
    obtain rfl := List.forall₂_nil_left_iff.1 none
    exact itemsUpTo_last stops comma first n rest
  | cons v ws ih =>
    obtain ⟨first, more⟩ := List.forall₂_cons.1 each
    cases more with
    | cons second others =>
      obtain ⟨m, rfl⟩ := Nat.exists_eq_add_of_le' (Nat.zero_lt_of_lt room)
      rw [joined_cons_cons, List.append_assoc, List.cons_append, itemsUpTo_more first,
        ih (.cons second others) (Nat.le_of_succ_le_succ room)]
      rfl

/-- A list reads back if its items do. -/
theorem reads_listUpTo (stops : isBlank close = false) (comma : close ≠ 0x2C)
    (shuns : Shuns item close) {ws : List Bytes} {xs : List α}
    (each : List.Forall₂ (Reads item) ws xs) :
    Reads (listUpTo item close) (joined ws ++ [close]) xs := by
  intro rest
  rw [List.append_assoc, List.singleton_append, listUpTo]
  cases each with
  | nil => simp [joined, expect, skipBlank, stops]
  | @cons w x ws xs first more =>
    generalize hbs : joined (w :: ws) ++ close :: rest = bs
    have enough := length_le_joined (w :: ws)
    have size : bs.length = (joined (w :: ws)).length + (rest.length + 1) := by
      rw [← hbs, List.length_append, List.length_cons]
    obtain ⟨n, hn⟩ := Nat.exists_eq_add_of_le' (show 1 ≤ bs.length by omega)
    have room : ws.length ≤ n := by
      rw [List.length_cons] at enough
      omega
    have whole := itemsUpTo_joined stops comma (.cons first more) room rest
    rw [hbs, ← hn] at whole
    rw [shuns.expect_eq_none whole]
    exact whole

end Lists

/-- A member reads back if its value does. -/
theorem reads_member {value : String → Reader α} {name : String} {written : Bytes} {a : α}
    (h : Reads (value name) written a) :
    Reads (member value) (Utf8.encode (quote name) ++ 0x3A :: written) a := by
  intro rest
  have colon : expect 0x3A (0x3A :: (written ++ rest)) = some ((), written ++ rest) := by
    simp [expect, skipBlank, isBlank]
  rw [List.append_assoc, List.cons_append, member, reads_quoted name]
  simp only [colon, h rest]

/-! ## Values -/

/-- A member as it is written. -/
def writtenMember (m : String × Json) : Bytes :=
  Utf8.encode (quote m.1) ++ 0x3A :: Utf8.encode m.2.text

theorem encode_itemsText (items : List Json) :
    Utf8.encode (itemsText items) = joined (items.map fun v => Utf8.encode v.text) := by
  induction items with
  | nil => rfl
  | cons v items ih =>
    cases items with
    | nil => rfl
    | cons v' items =>
      rw [itemsText, Utf8.encode_append, Utf8.encode_append, ih, List.append_assoc]
      · rfl
      · simp

theorem encode_membersText (members : List (String × Json)) :
    Utf8.encode (membersText members) = joined (members.map writtenMember) := by
  induction members with
  | nil => rfl
  | cons m members ih =>
    obtain ⟨n, v⟩ := m
    cases members with
    | nil =>
      rw [membersText, Utf8.encode_append, Utf8.encode_append, List.append_assoc]
      rfl
    | cons m' members =>
      rw [membersText, Utf8.encode_append, Utf8.encode_append, Utf8.encode_append,
        Utf8.encode_append, ih]
      · simp only [List.map_cons, joined_cons_cons, writtenMember, List.append_assoc]
        rfl
      · simp

theorem encode_array (items : List Json) :
    Utf8.encode (text (.array items)) =
      0x5B :: (joined (items.map fun v => Utf8.encode v.text) ++ [0x5D]) := by
  rw [text, Utf8.encode_append, Utf8.encode_append, encode_itemsText]
  rfl

theorem encode_object (members : List (String × Json)) :
    Utf8.encode (text (.object members)) =
      0x7B :: (joined (members.map writtenMember) ++ [0x7D]) := by
  rw [text, Utf8.encode_append, Utf8.encode_append, encode_membersText]
  rfl

theorem shuns_quoted {mark : UInt8} (ne : mark ≠ 0x22) : Shuns quoted mark := by
  intro bs rest h
  rw [quoted, expect, h]
  simp only [if_neg ne]

theorem shuns_member {mark : UInt8} (ne : mark ≠ 0x22) (value : String → Reader α) :
    Shuns (member value) mark := by
  intro bs rest h
  rw [member, shuns_quoted ne bs rest h]

/-- The items of an array read back. -/
theorem reads_array {item : Reader α} (shuns : Shuns item 0x5D) {ws : List Bytes} {xs : List α}
    (each : List.Forall₂ (Reads item) ws xs) :
    Reads (listUpTo item 0x5D) (joined ws ++ [0x5D]) xs :=
  reads_listUpTo rfl (by decide) shuns each

/-- The members of an object read back. -/
theorem reads_object {value : String → Reader α} {ws : List Bytes} {xs : List α}
    (each : List.Forall₂ (Reads (member value)) ws xs) :
    Reads (listUpTo (member value) 0x7D) (joined ws ++ [0x7D]) xs :=
  reads_listUpTo rfl (by decide) (shuns_member (by decide) value) each

theorem shuns_value (depth : Nat) : Shuns (value depth) 0x5D := by
  intro bs rest h
  have none : numeral (0x5D :: rest) = none := rfl
  unfold value
  simp only [h, none]
  rfl

theorem value_quote (depth : Nat) (bs : Bytes) :
    value depth (0x22 :: bs) = (quoted (0x22 :: bs)).map fun (s, left) => (.string s, left) := by
  unfold value
  rfl

theorem value_bracket (depth : Nat) (bs : Bytes) :
    value (depth + 1) (0x5B :: bs) =
      (listUpTo (value depth) 0x5D bs).map fun (vs, left) => (.array vs, left) := by
  rw [value]
  rfl

theorem value_brace (depth : Nat) (bs : Bytes) :
    value (depth + 1) (0x7B :: bs) =
      (listUpTo (member fun name bs => (value depth bs).map fun (v, left) => ((name, v), left)) 0x7D
        bs).map fun (ms, left) => (ofMembers ms, left) := by
  rw [value]
  rfl

theorem reads_value_string (depth : Nat) (s : String) :
    Reads (value depth) (Utf8.encode (text (.string s))) (.string s) := by
  intro rest
  have back := reads_quoted s rest
  rw [text]
  rw [encode_quote, List.cons_append] at back ⊢
  rw [value_quote, back]
  rfl

theorem reads_value_array {depth : Nat} {items : List Json}
    (each : ∀ v ∈ items, Reads (value depth) (Utf8.encode v.text) v) :
    Reads (value (depth + 1)) (Utf8.encode (text (.array items))) (.array items) := by
  intro rest
  have all : List.Forall₂ (Reads (value depth)) (items.map fun v => Utf8.encode v.text) items :=
    List.forall₂_map_left_iff.2 (List.forall₂_same.2 each)
  rw [encode_array, List.cons_append, value_bracket,
    reads_array (shuns_value depth) all]
  rfl

/-- A member goes to the end of an object if its name comes after all others. -/
theorem put_last {name : String} (v : Json) {members : List (String × Json)}
    (last : ∀ m ∈ members, m.1 < name) : put name v members = members ++ [(name, v)] := by
  induction members with
  | nil => rfl
  | cons m members ih =>
    have before := last m (List.mem_cons_self ..)
    have ne : name ≠ m.1 := by
      rintro rfl
      exact String.lt_irrefl _ before
    rw [put, if_neg ne, if_neg (String.lt_asymm before),
      ih fun m hm => last m (List.mem_cons_of_mem _ hm)]
    rfl

/-- Members in the order of their names are those of the object. -/
theorem ofMembers_sorted {members : List (String × Json)}
    (sorted : members.Pairwise fun m m' => m.1 < m'.1) : ofMembers members = .object members := by
  have all : ∀ (done more : List (String × Json)),
      (done ++ more).Pairwise (fun m m' => m.1 < m'.1) →
      more.foldl (fun acc m => put m.1 m.2 acc) done = done ++ more := by
    intro done more
    induction more generalizing done with
    | nil => intro _; rw [List.append_nil]; rfl
    | cons m more ih =>
      intro order
      have before : ∀ m' ∈ done, m'.1 < m.1 := fun m' hm' =>
        (List.pairwise_append.1 order).2.2 m' hm' m (List.mem_cons_self ..)
      rw [List.foldl_cons, put_last m.2 before, ih, List.append_assoc]
      · rfl
      · rwa [List.append_assoc]
  rw [ofMembers, all [] members sorted]
  rfl

theorem reads_value_object {depth : Nat} {members : List (String × Json)}
    (each : ∀ m ∈ members, Reads (value depth) (Utf8.encode m.2.text) m.2)
    (sorted : members.Pairwise fun m m' => m.1 < m'.1) :
    Reads (value (depth + 1)) (Utf8.encode (text (.object members))) (.object members) := by
  intro rest
  have all : List.Forall₂ (Reads (member fun name bs =>
      (value depth bs).map fun (v, left) => ((name, v), left))) (members.map writtenMember)
      members := by
    refine List.forall₂_map_left_iff.2 (List.forall₂_same.2 fun m hm => reads_member ?_)
    intro rest
    simp only [each m hm rest, Option.map_some]
  rw [encode_object, List.cons_append, value_brace,
    reads_object all, ← ofMembers_sorted sorted]
  rfl

/-- A value that reads back is the value of the document that it is written as. -/
theorem parse?_of_reads {v : Json} (h : Reads (value maxDepth) (Utf8.encode v.text) v) :
    parse? (Utf8.encode v.text) = some v := by
  have back := h []
  rw [List.append_nil] at back
  rw [parse?, back]
  rfl

end Json

/-! ## Envelopes -/

open Json

namespace Entry

/-- The members of an entry's object. -/
def jsonMembers (e : Entry) : List (String × Json) :=
  [("code", .string e.code)] ++
    (match e.fields with
      | none => []
      | some fs => [("fields", .array (fs.map .string))]) ++
    [("message", .string e.message)]

theorem toJson_eq (e : Entry) : e.toJson = .object e.jsonMembers := rfl

theorem sorted_jsonMembers (e : Entry) : e.jsonMembers.Pairwise fun m m' => m.1 < m'.1 := by
  refine List.pairwise_map.1 ?_
  unfold jsonMembers
  cases e.fields with
  | none =>
    have names : ["code", "message"].Pairwise (· < ·) := by decide
    exact names
  | some fs =>
    have names : ["code", "fields", "message"].Pairwise (· < ·) := by decide
    exact names

theorem reads_value (e : Entry) (depth : Nat) :
    Reads (value (depth + 2)) (Utf8.encode e.toJson.text) e.toJson := by
  refine reads_value_object ?_ e.sorted_jsonMembers
  intro m hm
  simp only [List.mem_append, List.mem_singleton] at hm
  rcases hm with (rfl | listed) | rfl
  · exact reads_value_string _ _
  · cases hf : e.fields with
    | none => simp [hf] at listed
    | some fs =>
      rw [hf] at listed
      obtain rfl := List.mem_singleton.1 listed
      refine reads_value_array fun v hv => ?_
      obtain ⟨f, -, rfl⟩ := List.mem_map.1 hv
      exact reads_value_string _ _
  · exact reads_value_string _ _

/-- What a reader of entries makes of the members. -/
def readMembers (e : Entry) : List Member :=
  [.code e.code] ++
    (match e.fields with
      | none => []
      | some fs => [.fields (some fs)]) ++
    [.message e.message]

theorem ofMembers?_readMembers (e : Entry) : ofMembers? e.readMembers = some e := by
  obtain ⟨code, fields, message⟩ := e
  cases fields with
  | none => rfl
  | some fs => rfl

theorem fieldList_bracket (bs : Bytes) :
    fieldList (0x5B :: bs) = (listUpTo quoted 0x5D bs).map fun (fs, left) => (some fs, left) := rfl

theorem reads_fieldList (fs : List String) :
    Reads fieldList (Utf8.encode (Json.text (.array (fs.map Json.string)))) (some fs) := by
  intro rest
  have all : List.Forall₂ (Reads quoted)
      ((fs.map Json.string).map fun v => Utf8.encode v.text) fs := by
    rw [List.map_map, List.forall₂_map_left_iff, List.forall₂_same]
    intro f _
    rw [Function.comp, Json.text]
    exact reads_quoted f
  rw [encode_array, List.cons_append, fieldList_bracket,
    reads_array (shuns_quoted (by decide)) all]
  rfl

theorem reads_code (s : String) :
    Reads (member namedMember) (writtenMember ("code", .string s)) (.code s) :=
  reads_member fun rest => by rw [namedMember]; simp [Json.text, reads_quoted s rest]

theorem reads_message (s : String) :
    Reads (member namedMember) (writtenMember ("message", .string s)) (.message s) :=
  reads_member fun rest => by rw [namedMember]; simp [Json.text, reads_quoted s rest]

theorem reads_fields (fs : List String) :
    Reads (member namedMember) (writtenMember ("fields", .array (fs.map .string)))
      (.fields (some fs)) :=
  reads_member fun rest => by rw [namedMember]; simp [reads_fieldList fs rest]

theorem reader_brace (bs : Bytes) :
    reader (0x7B :: bs) =
      match listUpTo (member namedMember) 0x7D bs with
      | none => none
      | some (ms, left) => (ofMembers? ms).map (·, left) := rfl

/-- An entry reads back from its object. -/
theorem reads_reader (e : Entry) : Reads reader (Utf8.encode e.toJson.text) e := by
  intro rest
  have all : List.Forall₂ (Reads (member namedMember)) (e.jsonMembers.map writtenMember)
      e.readMembers := by
    unfold jsonMembers readMembers
    cases e.fields with
    | none => exact .cons (reads_code _) (.cons (reads_message _) .nil)
    | some fs => exact .cons (reads_code _) (.cons (reads_fields fs) (.cons (reads_message _) .nil))
  rw [toJson_eq, encode_object, List.cons_append, reader_brace,
    reads_object all]
  simp only [ofMembers?_readMembers, Option.map_some]

theorem shuns_reader : Shuns reader 0x5D := by
  intro bs rest h
  rw [reader, h]
  rfl

end Entry

namespace Envelope

theorem toJson_encode (e : Envelope) :
    e.encode =
      0x7B :: (writtenMember ("errors", .array (e.errors.map Entry.toJson)) ++ [0x7D]) := by
  rw [encode, toJson, encode_object]
  rfl

/-- The document of an envelope. -/
theorem json_parse?_encode (e : Envelope) : Json.parse? e.encode = some e.toJson := by
  refine parse?_of_reads (reads_value_object ?_ (List.pairwise_singleton _ _))
  intro m hm
  obtain rfl := List.mem_singleton.1 hm
  refine reads_value_array fun v hv => ?_
  obtain ⟨entry, -, rfl⟩ := List.mem_map.1 hv
  exact entry.reads_value 123

theorem entries_bracket (bs : Bytes) :
    entries (0x5B :: bs) = listUpTo Entry.reader 0x5D bs := rfl

theorem reads_entries (es : List Entry) :
    Reads entries (Utf8.encode (Json.text (.array (es.map Entry.toJson)))) es := by
  intro rest
  have all : List.Forall₂ (Reads Entry.reader)
      ((es.map Entry.toJson).map fun v => Utf8.encode v.text) es := by
    rw [List.map_map]
    exact List.forall₂_map_left_iff.2 (List.forall₂_same.2 fun e _ => e.reads_reader)
  rw [encode_array, List.cons_append, entries_bracket, reads_array Entry.shuns_reader all]

theorem reads_errors (es : List Entry) :
    Reads (member namedMember) (writtenMember ("errors", .array (es.map Entry.toJson)))
      (some es) :=
  reads_member fun rest => by rw [namedMember]; simp [reads_entries es rest]

theorem reader_brace (bs : Bytes) :
    reader (0x7B :: bs) =
      match listUpTo (member namedMember) 0x7D bs with
      | none => none
      | some (ms, left) =>
        match ms.filterMap id with
        | [es] => some (⟨es⟩, left)
        | _ => none := rfl

/-- An envelope with an entry reads back from its document. -/
theorem parse?_encode (e : Envelope) (h : e.errors ≠ []) : parse? e.encode = some e := by
  have back : reader e.encode = some (e, []) := by
    have all : List.Forall₂ (Reads (member namedMember))
        [writtenMember ("errors", .array (e.errors.map Entry.toJson))] [some e.errors] :=
      .cons (reads_errors e.errors) .nil
    have read := reads_object all []
    rw [List.append_nil] at read
    rw [toJson_encode, reader_brace]
    simp only [joined] at read
    rw [read]
    rfl
  rw [parse?, back]
  simp [h, atEnd, skipBlank]

/-- Envelopes with entries that are written alike are the same. -/
theorem encode_inj {e f : Envelope} (he : e.errors ≠ []) (hf : f.errors ≠ [])
    (same : e.encode = f.encode) : e = f := by
  have reads := parse?_encode e he
  rw [same, parse?_encode f hf] at reads
  exact (Option.some.inj reads).symm

/-- **Round trip.** Whatever texts its entries hold, an envelope with an entry is read from its
document, so that no two such envelopes share one. In particular, wherever an entry stands, to have
an empty list of fields is written otherwise than to have none. -/
theorem roundTrip_encode (e : Envelope) (h : e.errors ≠ []) :
    parse? e.encode = some e ∧
    (∀ f : Envelope, f.errors ≠ [] → f.encode = e.encode → f = e) ∧
    ∀ (before after : List Entry) (code message : String),
      e.errors = before ++ ⟨code, some [], message⟩ :: after →
      Envelope.encode ⟨before ++ ⟨code, none, message⟩ :: after⟩ ≠ e.encode := by
  refine ⟨parse?_encode e h, fun f hf same => encode_inj hf h same, ?_⟩
  intro before after code message here same
  have alike := congrArg Envelope.errors (encode_inj (by simp) h same)
  simp [here] at alike

/-- An entry with a quote, a reverse solidus, control characters, a character beyond the basic plane
and an empty list of fields, and one without fields. -/
def awkward : Envelope :=
  ⟨[⟨"a\"\\\n", some [], "\u0000\u001f😀"⟩, ⟨"b", none, "\u007f\u2028"⟩]⟩

theorem roundTrip_awkward :
    parse? awkward.encode = some awkward ∧
      Envelope.encode ⟨[⟨"a\"\\\n", none, "\u0000\u001f😀"⟩, ⟨"b", none, "\u007f\u2028"⟩]⟩ ≠
        awkward.encode := by
  obtain ⟨reads, -, differs⟩ := roundTrip_encode awkward (by simp [awkward])
  exact ⟨reads, differs [] _ _ _ rfl⟩

end Envelope

end Courier
