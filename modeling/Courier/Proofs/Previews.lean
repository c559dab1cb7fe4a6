import Courier.Proofs.Aggregates
import Courier.Proofs.Octets

/-!
# Previews

A failure shows the first octets of a body that is no envelope, read as text. They are cut before
they are read, and a broken piece is shown as a character of three octets: so what is shown can be
longer than what was cut, though never three times over, and the last character of a text can be
lost to the cut. A text is shown within the limit, and as it is, exactly if the cut falls between
two of its characters (`Reply.preview_of_foreign`).
-/
namespace Courier

namespace Utf8

/-! ## Octets that are cut -/

/-- Octets that are read as a character are as many as were asked for. -/
theorem length_of_continue? {n code : Nat} {low high : UInt8} {bs rest : Bytes} {c : Char}
    (h : continue? n low high code bs = (some c, rest)) : bs.length = n + rest.length := by
  induction n generalizing code low high bs with
  | zero =>
    obtain ⟨-, rfl⟩ := continue?_zero_eq h
    exact (Nat.zero_add _).symm
  | succ n ih =>
    obtain ⟨b, later, rfl, -, h⟩ := continue?_eq_some h
    rw [List.length_cons, ih h]
    omega

/-- The first of them are read as nothing, and none of them is left. -/
theorem continue?_cut {n code : Nat} {low high : UInt8} {ws more rest : Bytes} {c : Char}
    (h : continue? n low high code (ws ++ more) = (some c, rest)) (few : ws.length < n) :
    continue? n low high code ws = (none, []) := by
  induction n generalizing code low high ws with
  | zero => omega
  | succ n ih =>
    cases ws with
    | nil => rw [continue?]
    | cons w ws =>
      obtain ⟨b, later, same, range, h⟩ := continue?_eq_some h
      obtain ⟨rfl, rfl⟩ := List.cons.inj same
      rw [continue?, if_pos (by simpa only [UInt8.le_iff_toNat_le] using range)]
      exact ih h (by simpa using few)

theorem piece_cut {a : UInt8} {ws more : Bytes} {c : Char}
    (h : piece a (ws ++ more) = (some c, [])) (cut : more ≠ []) : piece a ws = (none, []) := by
  rw [piece] at h ⊢
  split at h
  · obtain ⟨-, none⟩ := List.append_eq_nil_iff.mp (Prod.mk.inj h).2
    exact absurd none cut
  next ascii =>
    rw [if_neg ascii]
    split at h
    · cases h
    next l leads =>
      have whole := length_of_continue? h
      have some := List.length_pos_of_ne_nil cut
      rw [List.length_append, List.length_nil] at whole
      exact continue?_cut h (by omega)

/-- The first octets of a character, without the last, are one broken piece. -/
theorem decode_cut {c : Char} {ws more : Bytes} (split : String.utf8EncodeChar c = ws ++ more)
    (some : ws ≠ []) (cut : more ≠ []) : decode ws = [none] := by
  cases ws with
  | nil => exact absurd rfl some
  | cons a ws =>
    have whole := decode_encodeChar_append c []
    rw [split, List.append_nil, List.cons_append, decode, decode] at whole
    obtain ⟨first, -⟩ := List.cons.inj whole
    have read : piece a (ws ++ more) = (Option.some c, (piece a (ws ++ more)).2) :=
      Prod.ext first rfl
    -- The octets of the character are all there is, so none are left behind it.
    have left : (piece a (ws ++ more)).2 = [] := by
      have again := encodeChar_of_piece read
      rw [← List.cons_append, ← split] at again
      exact List.append_right_eq_self.mp again.symm
    rw [left] at read
    rw [decode, piece_cut read cut, decode]

theorem octets_append (cs ds : List Char) : octets (cs ++ ds) = octets cs ++ octets ds :=
  List.flatMap_append

theorem decode_octets_append (cs : List Char) (rest : Bytes) :
    decode (octets cs ++ rest) = cs.map some ++ decode rest := by
  induction cs with
  | nil => rfl
  | cons c cs ih => rw [octets_cons, List.append_assoc, decode_encodeChar_append, ih]; rfl

/-! ## How long a reading is -/

/-- Every piece takes an octet, and is read as one character. -/
theorem length_lossy_le (bs : Bytes) : (lossy bs).toList.length ≤ bs.length := by
  rw [lossy, String.toList_ofList, List.length_map]
  fun_induction decode bs with
  | case1 => exact Nat.le_refl _
  | case2 b bs p ih =>
    have shorter : p.2.length ≤ bs.length := length_piece_le b bs
    rw [List.length_cons, List.length_cons]
    omega

/-- A broken piece takes an octet at least, and is shown as a character of three. -/
theorem length_encode_lossy_le (bs : Bytes) : (encode (lossy bs)).length ≤ 3 * bs.length := by
  rw [lossy, encode, String.toList_ofList]
  fun_induction decode bs with
  | case1 => exact Nat.le_refl _
  | case2 b bs p ih =>
    rw [List.map_cons, List.flatMap_cons, List.length_append, List.length_cons]
    cases hp : p.1 with
    | none =>
      have three : (String.utf8EncodeChar replacement).length = 3 := by decide
      have shorter : p.2.length ≤ bs.length := length_piece_le b bs
      simp only [Option.getD_none, three]
      omega
    | some c =>
      have read : piece b bs = (some c, p.2) := Prod.ext hp rfl
      have whole := congrArg List.length (encodeChar_of_piece read)
      rw [List.length_cons, List.length_append] at whole
      simp only [Option.getD_some]
      omega

/-! ## Texts that are cut -/

/-- `front` is as much of a text as there is room for, and `rest` is what is left of it. -/
structure Fits (limit : Nat) (cs front rest : List Char) : Prop where
  whole : cs = front ++ rest
  within : (octets front).length ≤ limit
  full : ∀ c ∈ rest.head?, limit < (octets front).length + (String.utf8EncodeChar c).length

theorem exists_fits (limit : Nat) (cs : List Char) : ∃ front rest, Fits limit cs front rest := by
  induction cs generalizing limit with
  | nil => exact ⟨[], [], rfl, Nat.zero_le _, nofun⟩
  | cons c cs ih =>
    rcases Nat.lt_or_ge limit (String.utf8EncodeChar c).length with full | room
    · refine ⟨[], c :: cs, rfl, Nat.zero_le _, ?_⟩
      rintro _ ⟨⟩
      rwa [octets_nil, List.length_nil, Nat.zero_add]
    · obtain ⟨front, rest, rfl, within, full⟩ := ih (limit - (String.utf8EncodeChar c).length)
      refine ⟨c :: front, rest, rfl, ?_, fun d hd => ?_⟩
      · rw [octets_cons, List.length_append]
        omega
      · have beyond := full d hd
        rw [octets_cons, List.length_append]
        omega

namespace Fits

variable {limit : Nat} {cs front rest : List Char}

/-- If the limit is reached between two characters, or not at all, the text is shown up to it. -/
theorem lossy_of_even (h : Fits limit cs front rest)
    (even : rest = [] ∨ (octets front).length = limit) :
    lossy ((octets cs).take limit) = String.ofList front := by
  have taken : (octets cs).take limit = encode (String.ofList front) := by
    rw [encode, String.toList_ofList, h.whole, octets_append]
    rcases even with rfl | reached
    · rw [octets_nil, List.append_nil]
      exact List.take_of_length_le h.within
    · rw [← reached]
      exact List.take_left
  rw [taken, lossy_encode]

/-- If it is reached amid a character, something else is shown for that. -/
theorem lossy_of_cut (h : Fits limit cs front rest) (more : rest ≠ [])
    (room : (octets front).length < limit) :
    lossy ((octets cs).take limit) = String.ofList (front ++ [replacement]) := by
  obtain ⟨c, rest, rfl⟩ := List.exists_cons_of_ne_nil more
  have full := h.full c rfl
  have taken : (octets cs).take limit = octets front ++
      (String.utf8EncodeChar c).take (limit - (octets front).length) := by
    rw [h.whole, octets_append, octets_cons, List.take_append,
      List.take_of_length_le (Nat.le_of_lt room), List.take_append_of_le_length (by omega)]
  have broken : decode ((String.utf8EncodeChar c).take (limit - (octets front).length)) =
      [none] := by
    refine decode_cut (List.take_append_drop _ _).symm ?_ ?_
    · rw [← List.length_pos_iff, List.length_take]
      omega
    · rw [← List.length_pos_iff, List.length_drop]
      omega
  rw [taken, lossy, decode_octets_append, broken, List.map_append, List.map_map]
  exact congrArg (fun shown => String.ofList (shown ++ [replacement])) (List.map_id front)

end Fits

end Utf8

/-! ## What a failure shows -/

namespace Reply

open Utf8

/-- What is shown of a text, of which `front` fits into the limit and `rest` does not. -/
structure TextPreview (text preview : String) (front rest : List Char) : Prop where
  fits : Fits previewLimit text.toList front rest
  /-- It is what fits, if the cut falls between two characters or behind the last. -/
  even : rest = [] ∨ (octets front).length = previewLimit → preview.toList = front
  /-- Otherwise the character that is cut is shown as another one. -/
  cut : rest ≠ [] → (octets front).length < previewLimit →
    preview.toList = front ++ [replacement]
  octets_le : (encode preview).length ≤ previewLimit + 2
  sound_iff : ((encode preview).length ≤ previewLimit ∧ preview.toList <+: text.toList) ↔
    rest = [] ∨ (octets front).length = previewLimit

/-- What is shown of data. -/
structure Preview (bytes : Bytes) (preview : String) : Prop where
  chars_le : preview.toList.length ≤ min bytes.length previewLimit
  octets_le : (encode preview).length ≤ 3 * min bytes.length previewLimit
  /-- If what is cut off is a text, it is shown as it is. -/
  whole : ∀ text, bytes.take previewLimit = encode text →
    preview = text ∧ (encode preview).length ≤ previewLimit
  text : ∀ text, bytes = encode text → ∃ front rest, TextPreview text preview front rest

theorem textPreview_of_fits {text : String} {front rest : List Char}
    (fits : Fits previewLimit text.toList front rest) :
    TextPreview text (lossy ((encode text).take previewLimit)) front rest := by
  have even (h : rest = [] ∨ (octets front).length = previewLimit) :
      (lossy ((encode text).take previewLimit)).toList = front :=
    (congrArg String.toList (fits.lossy_of_even h)).trans String.toList_ofList
  have cut (more : rest ≠ []) (room : (octets front).length < previewLimit) :
      (lossy ((encode text).take previewLimit)).toList = front ++ [replacement] :=
    (congrArg String.toList (fits.lossy_of_cut more room)).trans String.toList_ofList
  generalize lossy ((encode text).take previewLimit) = preview at even cut
  have size : (encode preview).length = (octets preview.toList).length := rfl
  by_cases h : rest = [] ∨ (octets front).length = previewLimit
  · have shown := even h
    have within := fits.within
    rw [← shown] at within
    refine ⟨fits, even, cut, by omega, iff_of_true ⟨within, ?_⟩ h⟩
    rw [shown, fits.whole]
    exact List.prefix_append front rest
  · obtain ⟨more, other⟩ := not_or.mp h
    have room := Nat.lt_of_le_of_ne fits.within other
    have shown := cut more room
    have three : (octets [replacement]).length = 3 := by decide
    rw [shown, octets_append, List.length_append, three] at size
    refine ⟨fits, even, cut, by omega, iff_of_false ?_ h⟩
    rintro ⟨le, start⟩
    -- Only the replacement character itself can stand where it is shown, and it has no room there.
    obtain ⟨c, rest, rfl⟩ := List.exists_cons_of_ne_nil more
    rw [shown, fits.whole, List.prefix_append_right_inj, List.cons_prefix_cons] at start
    have full := fits.full c rfl
    rw [← start.1] at full
    have three : (String.utf8EncodeChar replacement).length = 3 := by decide
    omega

/-- The first octets of data, read as text, are a preview of it. -/
theorem preview_lossy (bytes : Bytes) : Preview bytes (lossy (bytes.take previewLimit)) where
  chars_le := by
    have le := length_lossy_le (bytes.take previewLimit)
    rwa [List.length_take, Nat.min_comm] at le
  octets_le := by
    have le := length_encode_lossy_le (bytes.take previewLimit)
    rwa [List.length_take, Nat.min_comm] at le
  whole := by
    intro text same
    rw [same, lossy_encode, ← same, List.length_take]
    exact ⟨rfl, Nat.min_le_left ..⟩
  text := by
    rintro text rfl
    obtain ⟨front, rest, fits⟩ := exists_fits previewLimit text.toList
    exact ⟨front, rest, textPreview_of_fits fits⟩

theorem checkedBytes_of_foreign {r : Reply} (failed : r.response.status.isSuccess = false)
    {bytes : Bytes} (carries : r.response.body.Carries r.maxBodySize bytes)
    (foreign : Envelope.parse? bytes = none) :
    r.checkedBytes = .error (.httpStatus r.response.status (lossy (bytes.take previewLimit))
      r.contentType?) := by
  have read : r.bytes = .ok bytes := Body.readLimited_eq_ok_iff.2 carries
  rw [checkedBytes, if_neg (by simp [failed]), read]
  simp only [rejection, foreign]

/-- **Previews.** Every way of reading a failed status whose body carries data that is no envelope
ends with the status and a preview, made of the first 8192 octets. It has no more characters than
these, and at most three times their octets. A text is shown in at most two octets more than that,
and it is shown as it begins and within 8192 octets exactly if the cut is not amid a character. -/
theorem preview_of_foreign (r : Reply) (failed : r.response.status.isSuccess = false)
    {bytes : Bytes} (carries : r.response.body.Carries r.maxBodySize bytes)
    (foreign : Envelope.parse? bytes = none) :
    ∃ preview, Preview bytes preview ∧
      r.checkedBytes = .error (.httpStatus r.response.status preview r.contentType?) ∧
      r.text = .error (.httpStatus r.response.status preview r.contentType?) ∧
      r.json = .error (.httpStatus r.response.status preview r.contentType?) := by
  have checked := checkedBytes_of_foreign failed carries foreign
  exact ⟨_, preview_lossy bytes, checked, text_of_error checked, json_of_error checked⟩

/-- A service that is down and says so in a text. -/
def telling (text : String) : Reply where
  response := { status := verbose.response.status, body := [.data (encode text)] }
  maxBodySize := 10485760

theorem carries_telling {text : String} (le : (encode text).length ≤ 10485760) :
    (telling text).response.body.Carries (telling text).maxBodySize (encode text) where
  intact := by simp [Body.Intact, telling]
  data := List.append_nil _
  within := le

/-- A short text is shown as it is. -/
theorem preview_telling : (telling "down").checkedBytes =
    .error (.httpStatus ⟨503, by decide⟩ "down" none) := by
  obtain ⟨preview, shown, checked, -⟩ := preview_of_foreign (telling "down") rfl
    (carries_telling (by decide)) (by decide +kernel)
  obtain ⟨rfl, -⟩ := shown.whole "down" (by decide +kernel)
  exact checked

/-- A text of `n + 2` octets, of which the last two are one character. -/
def accented (n : Nat) : String := String.ofList (List.replicate n 'x' ++ ['é'])

theorem octets_replicate (n : Nat) : octets (List.replicate n 'x') = List.replicate n 0x78 := by
  induction n with
  | zero => rfl
  | succ n ih => rw [List.replicate_succ, octets_cons, ih]; rfl

theorem length_octets_append (n : Nat) (c : Char) :
    (octets (List.replicate n 'x' ++ [c])).length = n + (String.utf8EncodeChar c).length := by
  rw [octets_append, List.length_append, octets_replicate, List.length_replicate, octets_cons,
    octets_nil, List.append_nil]

theorem encode_accented (n : Nat) :
    encode (accented n) = octets (List.replicate n 'x' ++ ['é']) := by
  rw [encode, accented, String.toList_ofList, octets]

theorem foreign_accented (n : Nat) : Envelope.parse? (encode (accented (n + 1))) = none := by
  rw [encode_accented, List.replicate_succ]
  rfl

/-- Where one octet of the last character is left, the replacement is shown for it. -/
theorem lossy_accented (n : Nat) : lossy ((encode (accented n)).take (n + 1)) =
    String.ofList (List.replicate n 'x' ++ [replacement]) := by
  have room : (octets (List.replicate n 'x')).length = n := by
    rw [octets_replicate, List.length_replicate]
  have two : (String.utf8EncodeChar 'é').length = 2 := by decide
  have fits : Fits (n + 1) (List.replicate n 'x' ++ ['é']) (List.replicate n 'x') ['é'] := by
    refine ⟨rfl, by omega, ?_⟩
    rintro _ ⟨⟩
    omega
  rw [encode_accented, fits.lossy_of_cut (List.cons_ne_nil _ _) (by omega)]

/-- A text is not always shown as it begins, nor within the limit: here the cut is amid the last
character, and something longer is shown for it. -/
theorem checkedBytes_accented :
    (telling (accented 8191)).response.body.Carries (telling (accented 8191)).maxBodySize
        (encode (accented 8191)) ∧
      Envelope.parse? (encode (accented 8191)) = none ∧
      ∃ preview, (telling (accented 8191)).checkedBytes =
          .error (.httpStatus ⟨503, by decide⟩ preview none) ∧
        previewLimit < (encode preview).length ∧ ¬ preview.toList <+: (accented 8191).toList := by
  have length : (encode (accented 8191)).length ≤ 10485760 := by
    rw [encode_accented, length_octets_append]
    decide
  have carries := carries_telling length
  have checked := checkedBytes_of_foreign (r := telling (accented 8191)) rfl carries
    (foreign_accented 8190)
  rw [show previewLimit = 8191 + 1 from rfl, lossy_accented] at checked
  refine ⟨carries, foreign_accented 8190, _, checked, ?_, ?_⟩
  · rw [encode, String.toList_ofList, ← octets, length_octets_append]
    decide
  · rw [accented, String.toList_ofList, String.toList_ofList, List.prefix_append_right_inj]
    decide

end Reply

end Courier
