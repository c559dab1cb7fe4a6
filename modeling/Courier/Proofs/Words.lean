import Courier.Proofs.Host
import Courier.Proofs.Lines

/-!
# Words of start lines

A start line is three words with blanks between them, and none of its words but the last has a blank
in it: methods, targets, versions and status codes are told from the line that they are in. A URI
that is read has no other characters than those that its reader lets through, and none of them is a
blank or ends a line.

## Main results

* `Uri.isLegal_of_parse` — what a URI is made of.
* `Lines.words_inj` — the words of a line.
-/
namespace Courier

/-! ## Characters of URIs -/

namespace Uri

/-- A URI has the characters that its reader lets through. -/
structure IsLegal (u : Uri) : Prop where
  authority : ∀ a, u.authority = some a → ∀ c ∈ a.toList, isAuthorityChar c = true ∨ c = '%'
  target : ∀ t, u.target = some t → ∀ c ∈ t.toList, isPathChar c = true ∨ isQueryChar c = true

theorem queryText_chars {cs q : List Char} (ok : queryText cs = .ok q) :
    ∀ c ∈ q, isQueryChar c = true := by
  induction cs generalizing q with
  | nil =>
    cases ok
    exact List.forall_mem_nil _
  | cons c cs ih =>
    rw [queryText] at ok
    split at ok
    · cases ok
      exact List.forall_mem_nil _
    split at ok
    next query =>
      obtain ⟨rest, read, rfl⟩ := exists_of_map_eq_ok ok
      exact List.forall_mem_cons.mpr ⟨query, ih read⟩
    · cases ok

theorem targetText_chars {cs t : List Char} (ok : targetText cs = .ok t) :
    ∀ c ∈ t, isPathChar c = true ∨ isQueryChar c = true := by
  induction cs generalizing t with
  | nil =>
    cases ok
    exact List.forall_mem_nil _
  | cons c cs ih =>
    rw [targetText] at ok
    split at ok
    next mark =>
      obtain ⟨rest, read, rfl⟩ := exists_of_map_eq_ok ok
      refine List.forall_mem_cons.mpr ⟨.inr ?_, fun d hd => .inr (queryText_chars read d hd)⟩
      rw [eq_of_beq mark]
      decide
    split at ok
    · cases ok
      exact List.forall_mem_nil _
    split at ok
    next path =>
      obtain ⟨rest, read, rfl⟩ := exists_of_map_eq_ok ok
      exact List.forall_mem_cons.mpr ⟨.inl path, ih read⟩
    · cases ok

theorem AuthorityScan.step_char {s t : AuthorityScan} {c : Char} (ok : s.step c = .ok t) :
    isAuthorityChar c = true ∨ c = '%' := by
  rw [step] at ok
  split at ok
  next percent => exact .inr (eq_of_beq percent)
  split at ok
  · cases ok
  next known => exact .inl (by simpa using known)

theorem AuthorityScan.foldlM_chars {cs : List Char} {s t : AuthorityScan}
    (ok : cs.foldlM AuthorityScan.step s = .ok t) :
    ∀ c ∈ cs, isAuthorityChar c = true ∨ c = '%' := by
  induction cs generalizing s with
  | nil => exact List.forall_mem_nil _
  | cons c cs ih =>
    obtain ⟨next, once, rest⟩ := exists_of_bind_eq_ok ok
    exact List.forall_mem_cons.mpr ⟨step_char once, ih rest⟩

theorem splitAuthority_chars {cs front rest : List Char}
    (ok : splitAuthority cs = .ok (front, rest)) :
    ∀ c ∈ front, isAuthorityChar c = true ∨ c = '%' := by
  rw [splitAuthority] at ok
  split at ok
  · cases ok
  simp only at ok
  split at ok
  · cases ok
  next scanned =>
    split at ok
    · cases ok
      exact AuthorityScan.foldlM_chars scanned
    · cases ok

theorem isLegal_of_target {t : List Char}
    (h : ∀ c ∈ t, isPathChar c = true ∨ isQueryChar c = true) :
    IsLegal ⟨none, none, some (String.ofList t)⟩ where
  authority a found := by cases found
  target t found := by
    cases found
    rwa [String.toList_ofList]

theorem isLegal_of_authority {front : List Char}
    (h : ∀ c ∈ front, isAuthorityChar c = true ∨ c = '%') :
    IsLegal ⟨none, some (String.ofList front), none⟩ where
  authority a found := by
    cases found
    rwa [String.toList_ofList]
  target t found := by cases found

theorem isLegal_of_parseFull {cs : List Char} {u : Uri} (ok : parseFull cs = .ok u) :
    u.IsLegal := by
  obtain ⟨⟨scheme, rest⟩, -, ok⟩ := exists_of_bind_eq_ok ok
  obtain ⟨⟨front, back⟩, named, ok⟩ := exists_of_bind_eq_ok ok
  cases scheme with
  | none =>
    simp only at ok
    split at ok
    · cases ok
      exact isLegal_of_authority (splitAuthority_chars named)
    · cases ok
  | some scheme =>
    simp only at ok
    split at ok
    · cases ok
    · obtain ⟨target, read, ok⟩ := exists_of_bind_eq_ok ok
      cases Except.ok.inj ok
      exact ⟨(isLegal_of_authority (splitAuthority_chars named)).authority,
        (isLegal_of_target (targetText_chars read)).target⟩

/-- **Every URI that is read is legal.** -/
theorem isLegal_of_parse {text : String} {u : Uri} (ok : parse text = .ok u) : u.IsLegal := by
  rw [parse] at ok
  split at ok
  · cases ok
  split at ok
  · cases ok
  · cases ok
    exact isLegal_of_target (List.forall_mem_singleton.mpr (.inl (by decide)))
  · cases ok
    exact isLegal_of_target (List.forall_mem_singleton.mpr (.inl (by decide)))
  · obtain ⟨t, read, rfl⟩ := exists_of_map_eq_ok ok
    exact isLegal_of_target (targetText_chars read)
  · split at ok
    · split at ok
      · cases ok
      next named =>
        split at ok
        · cases ok
          exact isLegal_of_authority (splitAuthority_chars named)
        · cases ok
    · exact isLegal_of_parseFull ok

end Uri

/-! ## Characters of the start line -/

/-- All characters lie beyond the blank, so that none of them parts words or ends a line. -/
def Solid (text : String) : Prop := ∀ c ∈ text.toList, 32 < c.toNat

instance : DecidablePred Solid :=
  fun text => decidable_of_iff ((text.toList.all fun c => decide (32 < c.toNat)) = true) (by
    simp only [List.all_eq_true, decide_eq_true_eq, Solid])

theorem Solid.noBlank {text : String} (h : Solid text) : ' ' ∉ text.toList :=
  fun inside => absurd (h _ inside) (by decide)

theorem Solid.plain {text : String} (h : Solid text) : ∀ c ∈ text.toList, c ≠ '\r' ∧ c ≠ '\n' := by
  intro c hc
  constructor <;>
  · rintro rfl
    exact absurd (h _ hc) (by decide)

/-- Nothing up to the blank is in a class that has none of the first characters. -/
theorem lt_toNat_of_class {p : Char → Bool} (none : ∀ n < 33, p (Char.ofNat n) = false) {c : Char}
    (h : p c = true) : 32 < c.toNat := by
  by_contra low
  have absent := none c.toNat (by omega)
  rw [Char.ofNat_toNat, h] at absent
  cases absent

theorem isTokenChar_solid {c : Char} (h : isTokenChar c = true) : 32 < c.toNat :=
  lt_toNat_of_class (by decide) h

namespace Uri

theorem isAuthorityChar_solid {c : Char} (h : isAuthorityChar c = true ∨ c = '%') :
    32 < c.toNat := by
  rcases h with known | rfl
  · exact lt_toNat_of_class (by decide) known
  · decide

theorem isTargetChar_solid {c : Char} (h : isPathChar c = true ∨ isQueryChar c = true) :
    32 < c.toNat := by
  rcases h with path | query
  · exact lt_toNat_of_class (by decide) path
  · exact lt_toNat_of_class (by decide) query

theorem IsLegal.solid_requestTarget {u : Uri} (h : u.IsLegal) : Solid u.requestTarget := by
  have root : Solid "/" := by decide
  rw [requestTarget]
  split
  · exact root
  next found =>
    split
    · exact root
    · exact fun c hc => isTargetChar_solid (h.target _ found c hc)

end Uri

theorem Method.isTokenChar_of_mem {m : Method} {c : Char} (h : c ∈ m.text.toList) :
    isTokenChar c = true :=
  List.all_eq_true.mp (Bool.and_eq_true_iff.mp m.legal).2 c h

theorem Method.solid (m : Method) : Solid m.text :=
  fun _ hc => isTokenChar_solid (isTokenChar_of_mem hc)

theorem Method.text_inj {m n : Method} (same : m.text = n.text) : m = n := by
  obtain ⟨_, _⟩ := m
  obtain ⟨_, _⟩ := n
  cases same
  rfl

theorem Version.solid (v : Version) : Solid v.text := by
  cases v <;> decide

theorem Version.text_inj {v w : Version} (same : v.text = w.text) : v = w := by
  cases v <;> cases w <;> first | rfl | exact absurd same (by decide)

/-- No method is written as a version is. -/
theorem Version.text_ne_method (v : Version) (m : Method) : v.text ≠ m.text := by
  intro same
  have slash : '/' ∈ v.text.toList := by
    cases v <;> decide
  rw [same] at slash
  exact absurd (Method.isTokenChar_of_mem slash) (by decide)

theorem Status.solid (s : Status) : Solid (toString s.code) := by
  intro c hc
  rw [Nat.toString_eq_repr, Nat.toList_repr] at hc
  have digit := Nat.isDigit_of_mem_toDigits (by decide) (by decide) hc
  refine isTokenChar_solid ?_
  rw [isTokenChar, Char.isAlphanum, digit, Bool.or_true, Bool.true_or]

theorem Status.code_inj {s t : Status} (same : toString s.code = toString t.code) : s = t := by
  have codes := congrArg (fun text => Nat.ofDigitChars 10 text.toList 0) same
  simp only [Nat.toString_eq_repr, Nat.toList_repr, Nat.ofDigitChars_ten_toDigits] at codes
  obtain ⟨_, _⟩ := s
  obtain ⟨_, _⟩ := t
  cases codes
  rfl

/-- No reason phrase ends a line. -/
theorem Status.plain_reason (s : Status) : ∀ c ∈ s.reason.toList, c ≠ '\r' ∧ c ≠ '\n' := by
  have all : (reasons.all fun p =>
      p.2.toList.all fun c => decide (c ≠ '\r' ∧ c ≠ '\n')) = true := by
    decide +kernel
  rw [List.all_eq_true] at all
  rw [reason, reason?]
  cases found : reasons.lookup s.code with
  | none => exact List.forall_mem_nil _
  | some phrase =>
    obtain ⟨before, after, whole, -⟩ := List.lookup_eq_some_iff.mp found
    have listed : (s.code, phrase) ∈ reasons := by
      rw [whole]
      exact List.mem_append_right _ (List.mem_cons_self ..)
    exact fun c hc => of_decide_eq_true (List.all_eq_true.mp (all _ listed) c hc)

namespace Lines

variable {a b c a' b' c' : String}

theorem toList_words (a b c : String) : (a ++ " " ++ b ++ " " ++ c).toList =
    a.toList ++ ' ' :: (b.toList ++ ' ' :: c.toList) := by
  simp only [String.toList_append, List.append_assoc]
  rfl

theorem isLine_words (ha : Solid a) (hb : Solid b) (hc : ∀ x ∈ c.toList, x ≠ '\r' ∧ x ≠ '\n') :
    IsLine (a ++ " " ++ b ++ " " ++ c) where
  nonempty := by
    rw [toList_words]
    exact List.append_ne_nil_of_right_ne_nil _ (List.cons_ne_nil _ _)
  plain := by
    rw [toList_words, List.forall_mem_append, List.forall_mem_cons, List.forall_mem_append,
      List.forall_mem_cons]
    exact ⟨ha.plain, by decide, hb.plain, by decide, hc⟩

/-- Words are told from the blanks between them. -/
theorem words_inj (ha : Solid a) (ha' : Solid a') (hb : Solid b) (hb' : Solid b')
    (same : a ++ " " ++ b ++ " " ++ c = a' ++ " " ++ b' ++ " " ++ c') :
    a = a' ∧ b = b' ∧ c = c' := by
  rw [← String.toList_inj, toList_words, toList_words] at same
  obtain ⟨first, rest⟩ := cut_inj ha.noBlank ha'.noBlank same
  obtain ⟨second, third⟩ := cut_inj hb.noBlank hb'.noBlank rest
  exact ⟨String.toList_inj.mp first, String.toList_inj.mp second, String.toList_inj.mp third⟩

end Lines

end Courier
