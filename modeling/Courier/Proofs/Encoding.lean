import Courier.Text.Percent

/-!
# Reading encoded text

What is written in UTF-8 is read as it was. Percent-encoded text keeps to letters, digits and five
marks, and reading it brings the text back, so that nothing in it can be taken for a mark of the
text around it.
-/
namespace Courier

theorem mapM_some {α : Type} (xs : List α) : xs.mapM some = some xs :=
  (List.mapM_pure (f := id)).trans (congrArg some (List.map_id xs))

/-! ## UTF-8 -/

namespace Utf8

/-- One continuation octet within the range is taken. -/
theorem continue?_cons (n : Nat) {low high b : UInt8} (code : Nat) (bs : Bytes)
    (least : low.toNat ≤ b.toNat) (most : b.toNat ≤ high.toNat) :
    continue? (n + 1) low high code (b :: bs) =
      continue? n 0x80 0xBF (code * 64 + b.toNat % 64) bs := by
  rw [continue?, if_pos]
  exact ⟨UInt8.le_iff_toNat_le.mpr least, UInt8.le_iff_toNat_le.mpr most⟩

/-- An octet that goes on with a character. -/
def Continues (b : UInt8) : Prop := 0x80 ≤ b.toNat ∧ b.toNat ≤ 0xBF

theorem toNat_ofNat {n : Nat} (small : n < 256) : (UInt8.ofNat n).toNat = n := by
  rw [UInt8.toNat_ofNat', Nat.mod_eq_of_lt small]

theorem continues_ofNat (n : Nat) : Continues (UInt8.ofNat (n % 64 + 128)) := by
  rw [Continues, toNat_ofNat (by omega)]
  omega

theorem continue?_continues (n : Nat) {b : UInt8} (code : Nat) (bs : Bytes) (h : Continues b) :
    continue? (n + 1) 0x80 0xBF code (b :: bs) =
      continue? n 0x80 0xBF (code * 64 + b.toNat % 64) bs :=
  continue?_cons n code bs h.1 h.2

/-- A leading octet of two. -/
theorem lead?_two {b : UInt8} (low : 0xC2 ≤ b.toNat) (high : b.toNat < 0xE0) :
    lead? b = some ⟨1, 0x80, 0xBF⟩ := by
  simp only [lead?, UInt8.lt_iff_toNat_lt, UInt8.reduceToNat]
  rw [if_neg (by omega), if_pos high]

/-- A leading octet of three; the second is narrowed for overlong forms and surrogates. -/
theorem lead?_three {b : UInt8} (low : 0xE0 ≤ b.toNat) (high : b.toNat < 0xF0) :
    lead? b = some ⟨2, if b.toNat = 0xE0 then 0xA0 else 0x80,
      if b.toNat = 0xED then 0x9F else 0xBF⟩ := by
  simp only [lead?, UInt8.lt_iff_toNat_lt, ← UInt8.toNat_inj, UInt8.reduceToNat]
  rw [if_neg (by omega), if_neg (by omega)]
  by_cases first : b.toNat = 0xE0
  · rw [if_pos first, if_pos first, if_neg (by omega)]
  rw [if_neg first, if_neg first]
  by_cases surrogate : b.toNat = 0xED
  · rw [if_pos surrogate, if_pos surrogate]
  rw [if_neg surrogate, if_neg surrogate, if_pos high]

/-- A leading octet of four; the second is narrowed for overlong forms and for the end of the code
space. -/
theorem lead?_four {b : UInt8} (low : 0xF0 ≤ b.toNat) (high : b.toNat ≤ 0xF4) :
    lead? b = some ⟨3, if b.toNat = 0xF0 then 0x90 else 0x80,
      if b.toNat = 0xF4 then 0x8F else 0xBF⟩ := by
  simp only [lead?, UInt8.lt_iff_toNat_lt, ← UInt8.toNat_inj, UInt8.reduceToNat]
  rw [if_neg (by omega), if_neg (by omega), if_neg (by omega), if_neg (by omega), if_neg (by omega)]
  by_cases first : b.toNat = 0xF0
  · rw [if_pos first, if_pos first, if_neg (by omega)]
  rw [if_neg first, if_neg first]
  by_cases last : b.toNat = 0xF4
  · rw [if_neg (by omega), if_pos last, if_pos last]
  rw [if_pos (by omega), if_neg last]

theorem piece_one {a : UInt8} (h : a.toNat < 0x80) (rest : Bytes) :
    piece a rest = (some (Char.ofNat a.toNat), rest) := by
  rw [piece, if_pos (UInt8.lt_iff_toNat_lt.mpr h)]

theorem piece_of_lead {a : UInt8} {count : Nat} {low high : UInt8} (h : 0x80 ≤ a.toNat)
    (hl : lead? a = some ⟨count, low, high⟩) (rest : Bytes) :
    piece a rest = continue? count low high (leadBits count a) rest := by
  have large : ¬ a < 0x80 := fun small => Nat.not_lt.mpr h (UInt8.lt_iff_toNat_lt.mp small)
  rw [piece, if_neg large, hl]

theorem piece_two {a b : UInt8} (ha : 0xC2 ≤ a.toNat ∧ a.toNat < 0xE0) (hb : Continues b)
    (rest : Bytes) :
    piece a (b :: rest) = (some (Char.ofNat (a.toNat % 32 * 64 + b.toNat % 64)), rest) := by
  rw [piece_of_lead (by omega) (lead?_two ha.1 ha.2), continue?_continues 0 _ rest hb]
  rfl

theorem piece_three {a b c : UInt8} (ha : 0xE0 ≤ a.toNat ∧ a.toNat < 0xF0) (hb : Continues b)
    (overlong : a.toNat = 0xE0 → 0xA0 ≤ b.toNat) (surrogate : a.toNat = 0xED → b.toNat ≤ 0x9F)
    (hc : Continues c) (rest : Bytes) :
    piece a (b :: c :: rest) =
      (some (Char.ofNat ((a.toNat % 16 * 64 + b.toNat % 64) * 64 + c.toNat % 64)), rest) := by
  rw [piece_of_lead (by omega) (lead?_three ha.1 ha.2), continue?_cons 1,
    continue?_continues 0 _ rest hc]
  · rfl
  · split
    next first => exact overlong first
    next => exact hb.1
  · split
    next last => exact surrogate last
    next => exact hb.2

theorem piece_four {a b c d : UInt8} (ha : 0xF0 ≤ a.toNat ∧ a.toNat ≤ 0xF4) (hb : Continues b)
    (overlong : a.toNat = 0xF0 → 0x90 ≤ b.toNat) (beyond : a.toNat = 0xF4 → b.toNat ≤ 0x8F)
    (hc : Continues c) (hd : Continues d) (rest : Bytes) :
    piece a (b :: c :: d :: rest) =
      (some (Char.ofNat (((a.toNat % 8 * 64 + b.toNat % 64) * 64 + c.toNat % 64) * 64 +
        d.toNat % 64)), rest) := by
  rw [piece_of_lead (by omega) (lead?_four ha.1 ha.2), continue?_cons 2,
    continue?_continues 1 _ _ hc, continue?_continues 0 _ rest hd]
  · rfl
  · split
    next first => exact overlong first
    next => exact hb.1
  · split
    next last => exact beyond last
    next => exact hb.2

/-- The octets of a character are one piece, whatever follows. -/
theorem decode_encodeChar_append (c : Char) (rest : Bytes) :
    decode (String.utf8EncodeChar c ++ rest) = some c :: decode rest := by
  have valid : c.val.toNat < 0xD800 ∨ 0xDFFF < c.val.toNat ∧ c.val.toNat < 0x110000 := c.valid
  have back : Char.ofNat c.val.toNat = c := Char.ofNat_toNat c
  unfold String.utf8EncodeChar
  generalize c.val.toNat = v at valid back ⊢
  simp only
  -- One case for each number of octets.
  split
  next one =>
    have ha : (UInt8.ofNat v).toNat = v := toNat_ofNat (by omega)
    rw [List.singleton_append, decode, piece_one (by omega), ha, back]
  split
  next two =>
    have ha : (UInt8.ofNat (v / 64 % 32 + 192)).toNat = v / 64 % 32 + 192 := toNat_ofNat (by omega)
    have hb : (UInt8.ofNat (v % 64 + 128)).toNat = v % 64 + 128 := toNat_ofNat (by omega)
    have code : (v / 64 % 32 + 192) % 32 * 64 + (v % 64 + 128) % 64 = v := by omega
    rw [List.cons_append, List.singleton_append, decode,
      piece_two (by omega) (continues_ofNat _), ha, hb, code, back]
  split
  next three =>
    have ha : (UInt8.ofNat (v / 4096 % 16 + 224)).toNat = v / 4096 % 16 + 224 :=
      toNat_ofNat (by omega)
    have hb : (UInt8.ofNat (v / 64 % 64 + 128)).toNat = v / 64 % 64 + 128 := toNat_ofNat (by omega)
    have hc : (UInt8.ofNat (v % 64 + 128)).toNat = v % 64 + 128 := toNat_ofNat (by omega)
    have code : ((v / 4096 % 16 + 224) % 16 * 64 + (v / 64 % 64 + 128) % 64) * 64 +
        (v % 64 + 128) % 64 = v := by omega
    rw [List.cons_append, List.cons_append, List.singleton_append, decode,
      piece_three (by omega) (continues_ofNat _) (by omega) (by omega) (continues_ofNat _),
      ha, hb, hc, code, back]
  next four =>
    have ha : (UInt8.ofNat (v / 262144 % 8 + 240)).toNat = v / 262144 % 8 + 240 :=
      toNat_ofNat (by omega)
    have hb : (UInt8.ofNat (v / 4096 % 64 + 128)).toNat = v / 4096 % 64 + 128 :=
      toNat_ofNat (by omega)
    have hc : (UInt8.ofNat (v / 64 % 64 + 128)).toNat = v / 64 % 64 + 128 := toNat_ofNat (by omega)
    have hd : (UInt8.ofNat (v % 64 + 128)).toNat = v % 64 + 128 := toNat_ofNat (by omega)
    have code : (((v / 262144 % 8 + 240) % 8 * 64 + (v / 4096 % 64 + 128) % 64) * 64 +
        (v / 64 % 64 + 128) % 64) * 64 + (v % 64 + 128) % 64 = v := by omega
    rw [List.cons_append, List.cons_append, List.cons_append, List.singleton_append, decode,
      piece_four (by omega) (continues_ofNat _) (by omega) (by omega) (continues_ofNat _)
        (continues_ofNat _), ha, hb, hc, hd, code, back]

theorem decode_flatMap_encodeChar (cs : List Char) :
    decode (cs.flatMap String.utf8EncodeChar) = cs.map some := by
  induction cs with
  | nil => simp [decode]
  | cons c cs ih => rw [List.flatMap_cons, decode_encodeChar_append, ih, List.map_cons]

/-- The octets of a text are read as that text. -/
theorem strict?_encode (text : String) : strict? (encode text) = some text := by
  rw [strict?, encode, decode_flatMap_encodeChar, List.mapM_map]
  have whole : text.toList.mapM (id ∘ some) = some text.toList := mapM_some _
  rw [whole, Option.map_some, String.ofList_toList]

end Utf8

/-! ## Percent-encoding -/

namespace Percent

/-- The number that a hexadecimal digit stands for. -/
def hexValue? (c : Char) : Option Nat :=
  if '0' ≤ c ∧ c ≤ '9' then some (c.toNat - 48)
  else if 'A' ≤ c ∧ c ≤ 'F' then some (c.toNat - 55)
  else if 'a' ≤ c ∧ c ≤ 'f' then some (c.toNat - 87)
  else none

/-- The octets that characters stand for: a percent sign with two hexadecimal digits for one, any
other character for those of its UTF-8 form. A percent sign without its digits stands for
nothing. -/
def octets? : List Char → Option Bytes
  | [] => some []
  | '%' :: high :: low :: rest =>
    match hexValue? high, hexValue? low with
    | some h, some l => (octets? rest).map (UInt8.ofNat (16 * h + l) :: ·)
    | _, _ => none
  | c :: rest => if c = '%' then none else (octets? rest).map (String.utf8EncodeChar c ++ ·)

/-- The text that characters stand for. -/
def decode? (written : List Char) : Option String :=
  (octets? written).bind Utf8.strict?

/-- What encoded text is written in. -/
def isWritten (c : Char) : Bool := c.isAlphanum || ['-', '_', '.', '~', '%'].contains c

/-- What holds of the octet of each number below 256 holds of every octet. -/
theorem forall_octet {p : UInt8 → Prop} (h : ∀ n < 256, p (UInt8.ofNat n)) (b : UInt8) : p b := by
  have each := h b.toNat b.toNat_lt
  rwa [UInt8.ofNat_toNat] at each

theorem all_isWritten_encodeByte (b : UInt8) : (encodeByte b).all isWritten = true := by
  revert b
  apply forall_octet
  decide +kernel

/-- Encoded text is written in letters, digits and five marks. -/
theorem isWritten_of_mem_encode (text : String) :
    ∀ c ∈ (encode text).toList, isWritten c = true := by
  intro c hc
  rw [encode, String.toList_ofList] at hc
  obtain ⟨b, -, hb⟩ := List.mem_flatMap.mp hc
  exact List.all_eq_true.mp (all_isWritten_encodeByte b) c hb

/-- A character that is not among those encoded text is written in is not in encoded text. -/
theorem not_mem_encode {c : Char} (h : isWritten c = false) (text : String) :
    c ∉ (encode text).toList := fun hc =>
  absurd (isWritten_of_mem_encode text c hc) (by rw [h]; exact Bool.false_ne_true)

theorem hexValue?_hexDigit : ∀ n < 16, hexValue? (hexDigit n) = some n := by decide +kernel

/-- An unreserved octet is the character that it is written as, and that is no percent sign. -/
theorem octet_of_unreserved (b : UInt8) : unreserved b = true →
    Char.ofNat b.toNat ≠ '%' ∧ String.utf8EncodeChar (Char.ofNat b.toNat) = [b] := by
  revert b
  apply forall_octet
  decide +kernel

theorem octets?_encodeByte_append (b : UInt8) (rest : List Char) :
    octets? (encodeByte b ++ rest) = (octets? rest).map (b :: ·) := by
  rw [encodeByte]
  split
  next plain =>
    obtain ⟨other, same⟩ := octet_of_unreserved b plain
    rw [List.singleton_append, octets?, if_neg other, same]
    · rfl
    · exact fun _ _ _ h => absurd h other
  next marked =>
    have hb := b.toNat_lt
    have joined : UInt8.ofNat (16 * (b.toNat / 16) + b.toNat % 16) = b := by
      rw [Nat.div_add_mod, UInt8.ofNat_toNat]
    rw [List.cons_append, List.cons_append, List.singleton_append, octets?,
      hexValue?_hexDigit _ (by omega), hexValue?_hexDigit _ (by omega)]
    simp only [joined]

theorem octets?_flatMap_encodeByte (bs : Bytes) : octets? (bs.flatMap encodeByte) = some bs := by
  induction bs with
  | nil => rfl
  | cons b bs ih => rw [List.flatMap_cons, octets?_encodeByte_append, ih, Option.map_some]

/-- Encoded text is read as the text that was encoded. -/
theorem decode?_encode (text : String) : decode? (encode text).toList = some text := by
  rw [decode?, encode, String.toList_ofList, octets?_flatMap_encodeByte, Option.bind_some,
    Utf8.strict?_encode]

end Percent
end Courier
