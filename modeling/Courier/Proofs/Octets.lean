import Courier.Proofs.Grammar
import Mathlib.Data.String.Basic

/-!
# Octets of texts

Texts are told from their octets. Octets that are read without a broken piece are those of the text
that is read, so each text is written in one way only; and texts in ASCII have the order of their
octets.

The main result is `Utf8.strict?_eq_some_iff`.
-/
namespace Courier

namespace Utf8

/-! ## Reading and writing again -/

/-- Octets that are read as a character are one more octet within the range, and the octets that
are read after it. -/
theorem continue?_eq_some {n code : Nat} {low high : UInt8} {bs rest : Bytes} {c : Char}
    (h : continue? (n + 1) low high code bs = (some c, rest)) :
    ∃ b later, bs = b :: later ∧ (low.toNat ≤ b.toNat ∧ b.toNat ≤ high.toNat) ∧
      continue? n 0x80 0xBF (code * 64 + b.toNat % 64) later = (some c, rest) := by
  cases bs with
  | nil => cases h
  | cons b bs =>
    rw [continue?] at h
    split at h
    next range =>
      exact ⟨b, bs, rfl, ⟨UInt8.le_iff_toNat_le.mp range.1, UInt8.le_iff_toNat_le.mp range.2⟩, h⟩
    · cases h

theorem continue?_zero_eq {code : Nat} {low high : UInt8} {bs rest : Bytes} {c : Char}
    (h : continue? 0 low high code bs = (some c, rest)) : c = Char.ofNat code ∧ bs = rest := by
  rw [continue?] at h
  cases h
  exact ⟨rfl, rfl⟩

/-- What a leading octet can be, and the octets that it lets follow. -/
theorem lead?_cases {b : UInt8} {l : Lead} (h : lead? b = some l) :
    (0xC2 ≤ b.toNat ∧ b.toNat < 0xE0) ∧ l = ⟨1, 0x80, 0xBF⟩ ∨
    (0xE0 ≤ b.toNat ∧ b.toNat < 0xF0) ∧ l = ⟨2, if b.toNat = 0xE0 then 0xA0 else 0x80,
      if b.toNat = 0xED then 0x9F else 0xBF⟩ ∨
    (0xF0 ≤ b.toNat ∧ b.toNat ≤ 0xF4) ∧ l = ⟨3, if b.toNat = 0xF0 then 0x90 else 0x80,
      if b.toNat = 0xF4 then 0x8F else 0xBF⟩ := by
  by_cases two : 0xC2 ≤ b.toNat ∧ b.toNat < 0xE0
  · exact .inl ⟨two, Option.some.inj (h.symm.trans (lead?_two two.1 two.2))⟩
  by_cases three : 0xE0 ≤ b.toNat ∧ b.toNat < 0xF0
  · exact .inr (.inl ⟨three, Option.some.inj (h.symm.trans (lead?_three three.1 three.2))⟩)
  by_cases four : 0xF0 ≤ b.toNat ∧ b.toNat ≤ 0xF4
  · exact .inr (.inr ⟨four, Option.some.inj (h.symm.trans (lead?_four four.1 four.2))⟩)
  · exfalso
    simp only [lead?, UInt8.lt_iff_toNat_lt, ← UInt8.toNat_inj, UInt8.reduceToNat] at h
    rcases Nat.lt_or_ge b.toNat 0xC2 with small | large
    · rw [if_pos small] at h
      cases h
    · rw [if_neg (by omega), if_neg (by omega), if_neg (by omega), if_neg (by omega),
        if_neg (by omega), if_neg (by omega), if_neg (by omega), if_neg (by omega)] at h
      cases h

theorem toNat_val_ofNat {v : Nat} (valid : v.isValidChar) : (Char.ofNat v).val.toNat = v := by
  rw [Char.ofNat, dif_pos valid]
  rfl

/-- An octet is the one with its number. -/
theorem ofNat_eq {b : UInt8} {n : Nat} (h : n = b.toNat) : UInt8.ofNat n = b := by
  rw [h, UInt8.ofNat_toNat]

theorem encodeChar_two {a b : UInt8} (ha : 0xC2 ≤ a.toNat ∧ a.toNat < 0xE0) (hb : Continues b) :
    String.utf8EncodeChar (Char.ofNat (a.toNat % 32 * 64 + b.toNat % 64)) = [a, b] := by
  obtain ⟨low, high⟩ := hb
  have valid : (a.toNat % 32 * 64 + b.toNat % 64).isValidChar := .inl (by omega)
  rw [String.utf8EncodeChar, toNat_val_ofNat valid, if_neg (by omega), if_pos (by omega),
    ofNat_eq (b := a) (by omega), ofNat_eq (b := b) (by omega)]

theorem encodeChar_three {a b c : UInt8} (ha : 0xE0 ≤ a.toNat ∧ a.toNat < 0xF0)
    (hb : Continues b) (overlong : a.toNat = 0xE0 → 0xA0 ≤ b.toNat)
    (surrogate : a.toNat = 0xED → b.toNat ≤ 0x9F) (hc : Continues c) :
    String.utf8EncodeChar (Char.ofNat ((a.toNat % 16 * 64 + b.toNat % 64) * 64 + c.toNat % 64)) =
      [a, b, c] := by
  obtain ⟨low, high⟩ := hb
  obtain ⟨low', high'⟩ := hc
  have valid : ((a.toNat % 16 * 64 + b.toNat % 64) * 64 + c.toNat % 64).isValidChar := by
    rw [Nat.isValidChar]
    omega
  rw [String.utf8EncodeChar, toNat_val_ofNat valid, if_neg (by omega), if_neg (by omega),
    if_pos (by omega), ofNat_eq (b := a) (by omega), ofNat_eq (b := b) (by omega),
    ofNat_eq (b := c) (by omega)]

theorem encodeChar_four {a b c d : UInt8} (ha : 0xF0 ≤ a.toNat ∧ a.toNat ≤ 0xF4)
    (hb : Continues b) (overlong : a.toNat = 0xF0 → 0x90 ≤ b.toNat)
    (beyond : a.toNat = 0xF4 → b.toNat ≤ 0x8F) (hc : Continues c) (hd : Continues d) :
    String.utf8EncodeChar (Char.ofNat (((a.toNat % 8 * 64 + b.toNat % 64) * 64 +
      c.toNat % 64) * 64 + d.toNat % 64)) = [a, b, c, d] := by
  obtain ⟨low, high⟩ := hb
  obtain ⟨low', high'⟩ := hc
  obtain ⟨low'', high''⟩ := hd
  have valid : (((a.toNat % 8 * 64 + b.toNat % 64) * 64 + c.toNat % 64) * 64 +
      d.toNat % 64).isValidChar := by
    rw [Nat.isValidChar]
    omega
  rw [String.utf8EncodeChar, toNat_val_ofNat valid, if_neg (by omega), if_neg (by omega),
    if_neg (by omega), ofNat_eq (b := a) (by omega), ofNat_eq (b := b) (by omega),
    ofNat_eq (b := c) (by omega), ofNat_eq (b := d) (by omega)]

/-- What is narrowed at its ends for two leading octets goes on with a character in any case. -/
theorem continues_of_narrowed {a b low high : UInt8} {first last : Nat}
    (above : 0x80 ≤ low.toNat) (below : high.toNat ≤ 0xBF)
    (range : (if a.toNat = first then low else 0x80).toNat ≤ b.toNat ∧
      b.toNat ≤ (if a.toNat = last then high else 0xBF).toNat) :
    Continues b ∧ (a.toNat = first → low.toNat ≤ b.toNat) ∧
      (a.toNat = last → b.toNat ≤ high.toNat) := by
  obtain ⟨least, most⟩ := range
  simp only [apply_ite UInt8.toNat, UInt8.reduceToNat] at least most
  refine ⟨⟨?_, ?_⟩, fun same => ?_, fun same => ?_⟩
  · split at least <;> omega
  · split at most <;> omega
  · rwa [if_pos same] at least
  · rwa [if_pos same] at most

/-- **A piece that is a character** is made of the octets of that character. -/
theorem encodeChar_of_piece {a : UInt8} {bs rest : Bytes} {c : Char}
    (h : piece a bs = (some c, rest)) : a :: bs = String.utf8EncodeChar c ++ rest := by
  rw [piece] at h
  split at h
  next ascii =>
    cases h
    rw [alone_of_small a (UInt8.lt_iff_toNat_lt.mp ascii)]
    rfl
  split at h
  · cases h
  next l leads =>
    rcases lead?_cases leads with ⟨range, rfl⟩ | ⟨range, rfl⟩ | ⟨range, rfl⟩
    · obtain ⟨b, bs, rfl, hb, h⟩ := continue?_eq_some h
      obtain ⟨rfl, rfl⟩ := continue?_zero_eq h
      exact congrArg (· ++ bs) (encodeChar_two range hb).symm
    · obtain ⟨b, bs, rfl, hb, h⟩ := continue?_eq_some h
      obtain ⟨c, bs, rfl, hc, h⟩ := continue?_eq_some h
      obtain ⟨rfl, rfl⟩ := continue?_zero_eq h
      obtain ⟨goesOn, overlong, surrogate⟩ := continues_of_narrowed (by decide) (by decide) hb
      exact congrArg (· ++ bs) (encodeChar_three range goesOn overlong surrogate hc).symm
    · obtain ⟨b, bs, rfl, hb, h⟩ := continue?_eq_some h
      obtain ⟨c, bs, rfl, hc, h⟩ := continue?_eq_some h
      obtain ⟨d, bs, rfl, hd, h⟩ := continue?_eq_some h
      obtain ⟨rfl, rfl⟩ := continue?_zero_eq h
      obtain ⟨goesOn, overlong, beyond⟩ := continues_of_narrowed (by decide) (by decide) hb
      exact congrArg (· ++ bs) (encodeChar_four range goesOn overlong beyond hc hd).symm

/-- Octets without a broken piece are those of the characters that are read. -/
theorem octets_of_decode {bs : Bytes} {cs : List Char} (h : decode bs = cs.map some) :
    bs = octets cs := by
  induction hn : bs.length using Nat.strongRecOn generalizing bs cs with
  | ind n ih =>
    cases bs with
    | nil =>
      rw [decode] at h
      rw [List.map_eq_nil_iff.mp h.symm]
      rfl
    | cons b bs =>
      rw [decode] at h
      obtain ⟨c, cs, rfl, first, later⟩ := List.map_eq_cons_iff.mp h.symm
      have whole := encodeChar_of_piece (Prod.ext first.symm rfl : piece b bs = (some c, _))
      have shorter := length_piece_le b bs
      rw [whole, octets_cons, ← ih _ (by rw [List.length_cons] at hn; omega) later.symm rfl]

theorem eq_map_some_of_mapM {α : Type} {xs : List (Option α)} {ys : List α}
    (h : xs.mapM id = some ys) : xs = ys.map some := by
  induction xs generalizing ys with
  | nil =>
    cases h
    rfl
  | cons x xs ih =>
    rw [List.mapM_cons] at h
    obtain ⟨y, first, h⟩ := Option.bind_eq_some_iff.mp h
    obtain ⟨ys, later, h⟩ := Option.bind_eq_some_iff.mp h
    cases Option.some.inj h
    rw [show x = some y from first, ih later]
    rfl

/-- **Exactly the octets of texts are read without a broken piece.** -/
theorem strict?_eq_some_iff {bs : Bytes} {text : String} :
    strict? bs = some text ↔ bs = encode text := by
  constructor
  · intro h
    rw [strict?, Option.map_eq_some_iff] at h
    obtain ⟨cs, read, rfl⟩ := h
    rw [octets_of_decode (eq_map_some_of_mapM read), encode, String.toList_ofList]
    rfl
  · rintro rfl
    exact strict?_encode text

theorem lossy_encode (text : String) : lossy (encode text) = text := by
  rw [lossy, encode, decode_flatMap_encodeChar, List.map_map]
  exact (congrArg String.ofList (List.map_id _)).trans String.ofList_toList

/-! ## The order of octets -/

theorem octets_cons_of_ascii {c : Char} (ascii : c.toNat < 128) (cs : List Char) :
    octets (c :: cs) = UInt8.ofNat c.toNat :: octets cs := by
  apply octets_cons_of_alone
  have alone := alone_of_small (UInt8.ofNat c.toNat)
  rw [toNat_ofNat (by omega), Char.ofNat_toNat] at alone
  exact alone ascii

/-- Texts in ASCII have the order of their octets. -/
theorem octets_lt_octets {cs ds : List Char} (hc : ∀ c ∈ cs, c.toNat < 128)
    (hd : ∀ d ∈ ds, d.toNat < 128) : octets cs < octets ds ↔ cs < ds := by
  induction cs generalizing ds with
  | nil =>
    cases ds with
    | nil => exact iff_of_false (List.not_lt_nil _) (List.not_lt_nil _)
    | cons d ds =>
      rw [octets_cons_of_ascii (hd d (List.mem_cons_self ..))]
      exact iff_of_true (List.nil_lt_cons ..) (List.nil_lt_cons ..)
  | cons c cs ih =>
    obtain ⟨first, others⟩ := List.forall_mem_cons.mp hc
    rw [octets_cons_of_ascii first]
    cases ds with
    | nil => exact iff_of_false (List.not_lt_nil _) (List.not_lt_nil _)
    | cons d ds =>
      obtain ⟨first', others'⟩ := List.forall_mem_cons.mp hd
      rw [octets_cons_of_ascii first', List.cons_lt_cons_iff, List.cons_lt_cons_iff,
        ih others others', UInt8.lt_iff_toNat_lt, ← UInt8.toNat_inj, toNat_ofNat (by omega),
        toNat_ofNat (by omega), Char.toNat_inj, Char.lt_def, UInt32.lt_iff_toNat_lt]
      rfl

theorem encode_le_encode {s t : String} (hs : ∀ c ∈ s.toList, c.toNat < 128)
    (ht : ∀ c ∈ t.toList, c.toNat < 128) : encode s ≤ encode t ↔ s ≤ t := by
  rw [← String.not_lt, String.lt_iff_toList_lt]
  exact not_congr (octets_lt_octets ht hs)

end Utf8
end Courier
