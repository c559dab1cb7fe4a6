import Courier.Proofs.Octets
import Courier.Proofs.Redaction
import Courier.Text.Blank

/-!
# Lines

A text of lines is read in one way only. No line is empty and none has a line break in it, so the
first empty line is where the lines end, and what is behind it can be anything. The line of a header
starts with its name, which the capitals in it do not hide: they are made from the small letters of
the name alone, and no colon is among them.
-/
namespace Courier

/-! ## Lines and the empty line behind them -/

namespace Lines

/-- What ends a line. -/
def eol : List Char := ['\r', '\n']

/-- A line is not empty, and nothing in it ends a line. -/
structure IsLine (line : String) : Prop where
  nonempty : line.toList ≠ []
  plain : ∀ c ∈ line.toList, c ≠ '\r' ∧ c ≠ '\n'

/-- Lines, each with its end. -/
def ended (lines : List String) : List Char := lines.flatMap fun line => line.toList ++ eol

/-- The first empty line of a text is the one behind `head`, with `rest` behind it. -/
structure Parted (text head rest : String) : Prop where
  whole : text = head ++ "\r\n\r\n" ++ rest
  first : ∀ front back, text = front ++ "\r\n\r\n" ++ back → head.length ≤ front.length

theorem IsLine.noReturn {line : String} (h : IsLine line) : '\r' ∉ line.toList :=
  fun inside => (h.plain _ inside).1 rfl

theorem ended_cons (line : String) (lines : List String) :
    ended (line :: lines) = line.toList ++ (eol ++ ended lines) := by
  rw [ended, List.flatMap_cons, List.append_assoc]
  rfl

/-- What is before the first occurrence of a mark, and what is behind it, are found in a text. -/
theorem cut_inj {mark : Char} {l m r s : List Char} (hl : mark ∉ l) (hm : mark ∉ m)
    (same : l ++ mark :: r = m ++ mark :: s) : l = m ∧ r = s := by
  induction l generalizing m with
  | nil =>
    cases m with
    | nil => exact ⟨rfl, (List.cons.inj same).2⟩
    | cons d m => exact absurd (List.mem_cons.mpr (.inl (List.cons.inj same).1)) hm
  | cons c l ih =>
    cases m with
    | nil => exact absurd (List.mem_cons.mpr (.inl (List.cons.inj same).1.symm)) hl
    | cons d m =>
      obtain ⟨rfl, later⟩ := List.cons.inj same
      obtain ⟨rfl, behind⟩ := ih (fun h => hl (List.mem_cons_of_mem _ h))
        (fun h => hm (List.mem_cons_of_mem _ h)) later
      exact ⟨rfl, behind⟩

/-- Where no mark is before another one, it is not before what follows that one. -/
theorem eol_inj {l m r s : List Char} (hl : '\r' ∉ l) (hm : '\r' ∉ m)
    (same : l ++ (eol ++ r) = m ++ (eol ++ s)) : l = m ∧ r = s := by
  obtain ⟨front, back⟩ := cut_inj hl hm same
  exact ⟨front, (List.cons.inj back).2⟩

/-- **One reading.** Lines and what is behind the empty line are found in the text they make. -/
theorem ended_inj {ls ms : List String} {r s : List Char} (hls : ∀ l ∈ ls, IsLine l)
    (hms : ∀ m ∈ ms, IsLine m) (same : ended ls ++ (eol ++ r) = ended ms ++ (eol ++ s)) :
    ls = ms ∧ r = s := by
  induction ls generalizing ms with
  | nil =>
    cases ms with
    | nil => exact ⟨rfl, List.append_cancel_left same⟩
    | cons m ms =>
      obtain ⟨line, -⟩ := List.forall_mem_cons.mp hms
      rw [ended_cons, List.append_assoc, List.append_assoc] at same
      exact absurd (eol_inj List.not_mem_nil line.noReturn same).1.symm line.nonempty
  | cons l ls ih =>
    obtain ⟨line, others⟩ := List.forall_mem_cons.mp hls
    cases ms with
    | nil =>
      rw [ended_cons, List.append_assoc, List.append_assoc] at same
      exact absurd (eol_inj line.noReturn List.not_mem_nil same).1 line.nonempty
    | cons m ms =>
      obtain ⟨line', others'⟩ := List.forall_mem_cons.mp hms
      rw [ended_cons, ended_cons, List.append_assoc, List.append_assoc, List.append_assoc,
        List.append_assoc] at same
      obtain ⟨first, behind⟩ := eol_inj line.noReturn line'.noReturn same
      obtain ⟨rfl, rest⟩ := ih others others' behind
      exact ⟨by rw [String.toList_inj.mp first], rest⟩

/-- A text without the mark is not cut by it. -/
theorem prefix_of_mark {mark : Char} {l front r s : List Char} (h : mark ∉ l)
    (same : l ++ r = front ++ mark :: s) : l <+: front := by
  rcases List.append_eq_append_iff.mp same with ⟨mid, whole, -⟩ | ⟨mid, whole, behind⟩
  · exact ⟨mid, whole.symm⟩
  · cases mid with
    | nil => exact ⟨[], by rw [whole, List.append_nil, List.append_nil]⟩
    | cons c mid =>
      refine absurd ?_ h
      rw [whole, (List.cons.inj behind).1]
      exact List.mem_append_right _ (List.mem_cons_self ..)

/-- No empty line is before the one behind the lines. -/
theorem length_ended_le {ls : List String} {rest front back : List Char}
    (lines : ∀ l ∈ ls, IsLine l)
    (same : ended ls ++ (eol ++ rest) = front ++ (eol ++ (eol ++ back))) :
    (ended ls).length ≤ front.length + eol.length := by
  induction ls generalizing front with
  | nil => exact Nat.zero_le _
  | cons l ls ih =>
    obtain ⟨line, others⟩ := List.forall_mem_cons.mp lines
    rw [ended_cons, List.append_assoc, List.append_assoc] at same
    obtain ⟨mid, rfl⟩ := prefix_of_mark line.noReturn same
    rw [List.append_assoc] at same
    have behind := List.append_cancel_left same
    rw [ended_cons, List.length_append, List.length_append, List.length_append]
    match mid, behind with
    | [], behind =>
      -- The next line would be empty.
      cases ls with
      | nil => exact Nat.le_of_eq (by rw [List.length_nil]; rfl)
      | cons next ls =>
        obtain ⟨nextLine, -⟩ := List.forall_mem_cons.mp others
        have later := List.append_cancel_left behind
        rw [ended_cons, List.append_assoc, List.append_assoc] at later
        have empty := (eol_inj nextLine.noReturn List.not_mem_nil later).1
        exact absurd empty nextLine.nonempty
    | [_], behind => cases behind
    | _ :: _ :: mid, behind =>
      have later := (List.cons.inj (List.cons.inj behind).2).2
      have shorter := ih others later
      simp only [List.length_cons, eol, List.length_nil] at shorter ⊢
      omega

theorem toList_intercalate_eol (line : String) (lines : List String) :
    ("\r\n".intercalate (line :: lines)).toList ++ eol = ended (line :: lines) := by
  induction lines generalizing line with
  | nil => simp [ended]
  | cons next lines ih =>
    rw [ended_cons, ← ih, String.toList_intercalate, String.toList_intercalate, List.map_cons,
      List.map_cons, List.intercalate_cons_cons, List.append_assoc, List.append_assoc]
    rfl

/-- **The end of the lines** is the first empty line of the text. -/
theorem parted_of_lines {text line rest : String} {lines : List String}
    (h : ∀ l ∈ line :: lines, IsLine l)
    (whole : text.toList = ended (line :: lines) ++ (eol ++ rest.toList)) :
    Parted text ("\r\n".intercalate (line :: lines)) rest where
  whole := by
    rw [← String.toList_inj, whole, ← toList_intercalate_eol, String.toList_append,
      String.toList_append, List.append_assoc, List.append_assoc]
    rfl
  first front back same := by
    have blank : "\r\n\r\n".toList = eol ++ eol := rfl
    rw [same, String.toList_append, String.toList_append, blank, List.append_assoc,
      List.append_assoc] at whole
    have short := length_ended_le h whole.symm
    rw [← toList_intercalate_eol, List.length_append, String.length_toList,
      String.length_toList] at short
    omega

/-- No part of a list that is split at a mark has the mark in it. -/
theorem not_mem_of_mem_splitOn {α : Type} [DecidableEq α] {mark : α} {whole part : List α}
    (h : part ∈ whole.splitOn mark) : mark ∉ part := by
  induction whole generalizing part with
  | nil => simp_all [List.splitOn]
  | cons a whole ih =>
    rw [List.splitOn_eq_splitOnP, List.splitOnP_cons_eq_if_modifyHead,
      ← List.splitOn_eq_splitOnP] at h
    split at h
    · rcases List.mem_cons.mp h with rfl | later
      · exact List.not_mem_nil
      · exact ih later
    next other =>
      obtain ⟨first, others, split⟩ := List.exists_cons_of_ne_nil (List.splitOn_ne_nil mark whole)
      rw [split] at h ih
      rcases List.mem_cons.mp h with rfl | later
      · exact List.not_mem_cons_of_ne_of_not_mem (fun same => other (beq_iff_eq.mpr same.symm))
          (ih (List.mem_cons_self ..))
      · exact ih (List.mem_cons_of_mem _ later)

end Lines

/-! ## Names as lines show them -/

theorem toNat_lt_of_isTokenChar {c : Char} (token : isTokenChar c = true) : c.toNat < 128 := by
  have marks : (['!', '#', '$', '%', '&', '\'', '*', '+', '-', '.', '^', '_', '\x60', '|',
      '~'].all fun d => decide (d.toNat < 128)) = true := by decide
  rcases Bool.or_eq_true_iff.mp token with letter | mark
  · have each : ((c.isUpper || c.isLower) || c.isDigit) = true := letter
    rw [Bool.or_eq_true, Bool.or_eq_true] at each
    have most : c.val ≤ 'z'.val := by
      rcases each with (upper | lower) | digit
      · exact UInt32.le_trans (of_decide_eq_true upper).2 (by decide)
      · exact of_decide_eq_true (Bool.and_eq_true_iff.mp lower).2
      · exact UInt32.le_trans (of_decide_eq_true (Bool.and_eq_true_iff.mp digit).2) (by decide)
    exact Nat.lt_of_le_of_lt (UInt32.le_iff_toNat_le.mp most) (by decide)
  · exact of_decide_eq_true (List.all_eq_true.mp marks c (List.contains_iff_mem.mp mark))

/-- What lines show for a character of a name: a visible character of ASCII that is not a colon,
from which the character of the name can be told. -/
structure ShownAs (c d : Char) : Prop where
  lower : d.toLower = c
  visible : 32 < d.toNat ∧ d.toNat < 128
  noColon : d ≠ ':'

instance (c d : Char) : Decidable (ShownAs c d) :=
  decidable_of_iff (d.toLower = c ∧ (32 < d.toNat ∧ d.toNat < 128) ∧ d ≠ ':')
    ⟨fun ⟨lower, visible, noColon⟩ => ⟨lower, visible, noColon⟩,
      fun ⟨lower, visible, noColon⟩ => ⟨lower, visible, noColon⟩⟩

/-- Either letter shows a character of a name. -/
theorem shownAs_of_small {c : Char} (token : isTokenChar c = true) (small : c.isUpper = false) :
    ShownAs c c.toUpper ∧ ShownAs c c.toLower := by
  have each : ∀ n < 128, isTokenChar (Char.ofNat n) = true → (Char.ofNat n).isUpper = false →
      ShownAs (Char.ofNat n) (Char.ofNat n).toUpper ∧
        ShownAs (Char.ofNat n) (Char.ofNat n).toLower := by
    decide +kernel
  have shown := each c.toNat (toNat_lt_of_isTokenChar token)
  rw [Char.ofNat_toNat] at shown
  exact shown token small

theorem shownAs_hyphen : ShownAs '-' '-' := by decide

/-- Each character of a name is shown. -/
theorem forall₂_capitalize {cs : List Char}
    (small : ∀ c ∈ cs, isTokenChar c = true ∧ c.isUpper = false) (atStart : Bool) :
    List.Forall₂ ShownAs cs (capitalize atStart cs) := by
  induction cs generalizing atStart with
  | nil => exact .nil
  | cons c cs ih =>
    obtain ⟨⟨token, letter⟩, others⟩ := List.forall_mem_cons.mp small
    refine .cons ?_ (ih others _)
    obtain ⟨upper, lower⟩ := shownAs_of_small token letter
    split
    next hyphen =>
      rw [hyphen]
      exact shownAs_hyphen
    · split
      · exact upper
      · exact lower

theorem HeaderName.forall₂_canonicalName (name : HeaderName) :
    List.Forall₂ ShownAs name.text.toList (canonicalName name.text).toList := by
  rw [canonicalName, String.toList_ofList]
  refine forall₂_capitalize (fun c hc => ?_) true
  have legal := name.legal
  simp only [isHeaderName, Bool.and_eq_true, List.all_eq_true, Bool.not_eq_true'] at legal
  exact legal.2 c hc

namespace HeaderName

variable {a b : HeaderName} {c : Char}

/-- A name is read back from the way it is shown. -/
theorem lower_canonicalName (name : HeaderName) :
    Text.lower (canonicalName name.text) = name.text := by
  have same : List.Forall₂ (· = ·) name.text.toList
      ((canonicalName name.text).toList.map Char.toLower) :=
    List.forall₂_map_right_iff.mpr (name.forall₂_canonicalName.imp fun _ _ h => h.lower.symm)
  rw [List.forall₂_eq_eq_eq] at same
  rw [Text.lower, ← same, String.ofList_toList]

/-- No two names are shown alike. -/
theorem canonicalName_inj (same : canonicalName a.text = canonicalName b.text) : a = b := by
  have texts : a.text = b.text := by rw [← lower_canonicalName a, same, lower_canonicalName]
  obtain ⟨_, _⟩ := a
  obtain ⟨_, _⟩ := b
  cases texts
  rfl

/-- No character of a name is shown as anything but a visible character of ASCII, or as a colon. -/
theorem shownAs_of_mem_canonicalName (h : c ∈ (canonicalName a.text).toList) :
    ∃ d, ShownAs d c := by
  have shown := a.forall₂_canonicalName
  generalize (canonicalName a.text).toList = ds at h shown
  generalize a.text.toList = cs at shown
  induction shown with
  | nil => cases h
  | cons first _ ih =>
    rcases List.mem_cons.mp h with rfl | later
    · exact ⟨_, first⟩
    · exact ih later

end HeaderName

/-! ## Lines of fields -/

namespace HeaderValue

/-- The octets of a value are those of a text. -/
def IsText (v : HeaderValue) : Prop := Utf8.strict? v.bytes ≠ none

theorem isText_of_eq {v : HeaderValue} (text : String) (h : v.bytes = Utf8.encode text) :
    v.IsText := by
  rw [IsText, Utf8.strict?_eq_some_iff.mpr h]
  exact Option.some_ne_none text

theorem IsText.encode_shown {v : HeaderValue} (h : v.IsText) : Utf8.encode v.shown = v.bytes := by
  obtain ⟨text, read⟩ := Option.ne_none_iff_exists'.mp h
  have whole := Utf8.strict?_eq_some_iff.mp read
  rw [shown, whole, Utf8.lossy_encode]

end HeaderValue

namespace Lines

/-- The line of a field. -/
def fieldLine (f : HeaderName × HeaderValue) : String :=
  canonicalName f.1.text ++ ": " ++ Utf8.lossy f.2.bytes

variable (f : HeaderName × HeaderValue)

theorem toList_fieldLine :
    (fieldLine f).toList = (canonicalName f.1.text).toList ++ ':' :: ' ' :: f.2.shown.toList := by
  rw [fieldLine, String.toList_append, String.toList_append, List.append_assoc]
  rfl

theorem lineOf_eq : lineOf f = (fieldLine f).toList ++ eol := by
  rw [lineOf, fieldLine, String.toList_append]
  rfl

theorem noColon_canonicalName (name : HeaderName) : ':' ∉ (canonicalName name.text).toList := by
  intro inside
  obtain ⟨_, shown⟩ := HeaderName.shownAs_of_mem_canonicalName inside
  exact shown.noColon rfl

theorem isLine_fieldLine : IsLine (fieldLine f) where
  nonempty := by
    rw [toList_fieldLine]
    exact List.append_ne_nil_of_right_ne_nil _ (List.cons_ne_nil _ _)
  plain c hc := by
    rw [toList_fieldLine] at hc
    rcases List.mem_append.mp hc with name | value
    · obtain ⟨_, shown⟩ := HeaderName.shownAs_of_mem_canonicalName name
      constructor <;>
      · rintro rfl
        exact absurd shown.visible.1 (by decide)
    · rcases List.mem_cons.mp value with rfl | value
      · decide
      rcases List.mem_cons.mp value with rfl | value
      · decide
      · exact f.2.not_break_of_mem_shown value

/-- **The line of a field tells the field.** -/
theorem fieldLine_inj {f g : HeaderName × HeaderValue} (hf : f.2.IsText) (hg : g.2.IsText)
    (same : fieldLine f = fieldLine g) : f.1 = g.1 ∧ f.2.bytes = g.2.bytes := by
  rw [← String.toList_inj, toList_fieldLine, toList_fieldLine] at same
  obtain ⟨names, values⟩ := cut_inj (noColon_canonicalName f.1) (noColon_canonicalName g.1) same
  have shown : f.2.shown = g.2.shown := String.toList_inj.mp (List.cons.inj values).2
  refine ⟨HeaderName.canonicalName_inj (String.toList_inj.mp names), ?_⟩
  rw [← hf.encode_shown, ← hg.encode_shown, shown]

/-- A line that starts with the name of a header is of that header. -/
theorem name_of_fieldLine {f : HeaderName × HeaderValue} {name : HeaderName} {rest : List Char}
    (same : (fieldLine f).toList = (canonicalName name.text).toList ++ ':' :: rest) :
    f.1 = name := by
  rw [toList_fieldLine] at same
  obtain ⟨names, -⟩ := cut_inj (noColon_canonicalName f.1) (noColon_canonicalName name) same
  exact HeaderName.canonicalName_inj (String.toList_inj.mp names)

/-- Only the header of that name has a line that starts as the line of a host does. -/
theorem host_of_fieldLine {rest : List Char}
    (same : (fieldLine f).toList = "Host: ".toList ++ rest) : f.1 = .host := by
  have shown : "Host".toList = (canonicalName HeaderName.host.text).toList := by decide
  have parts : "Host: ".toList ++ rest = "Host".toList ++ ':' :: ' ' :: rest := rfl
  rw [parts, shown] at same
  exact name_of_fieldLine same

end Lines
end Courier
