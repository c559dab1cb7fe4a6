import Courier.Proofs.HostLines

/-!
# Redaction of any text

Redaction looks at one line at a time, and a line is what stands between two line feeds. Of a line
that starts with the name of the credential, what is behind that start goes, up to the first
carriage return; every other line stays as it is (`Redaction.redactionLaw`). So nothing is left to
be redacted in a text that has been, and of the lines before the body of a dump only those of
credentials change.
-/
namespace Courier

namespace Redaction

open Lines

/-! ## One line -/

/-- The lines of a text: what stands between its line feeds. -/
def linesOf (text : String) : List (List Char) := text.toList.splitOn '\n'

/-- What redaction makes of a line. -/
inductive Hidden : List Char → List Char → Prop where
  /-- The value of a credential ends before the first carriage return, or with its line. -/
  | credential {value rest : List Char} (noReturn : '\r' ∉ value)
      (ends : rest = [] ∨ ∃ back, rest = '\r' :: back) :
      Hidden ("Authorization: ".toList ++ value ++ rest)
        ("Authorization: ".toList ++ "[REDACTED]".toList ++ rest)
  | other {line : List Char} (plain : ¬ "Authorization: ".toList <+: line) : Hidden line line

variable {line made : List Char}

/-- What is left of a value is empty or starts with a carriage return. -/
theorem exists_value (noFeed : '\n' ∉ line) : ∃ value rest, line = value ++ rest ∧
    '\r' ∉ value ∧ (rest = [] ∨ ∃ back, rest = '\r' :: back) ∧
    line.dropWhile (fun c => !endsValue c) = rest := by
  induction line with
  | nil => exact ⟨[], [], rfl, List.not_mem_nil, .inl rfl, rfl⟩
  | cons c line ih =>
    obtain ⟨notFeed, later⟩ := List.ne_and_not_mem_of_not_mem_cons noFeed
    by_cases ends : c = '\r'
    · exact ⟨[], c :: line, rfl, List.not_mem_nil, .inr ⟨line, by rw [ends]⟩,
        by simp [endsValue, ends]⟩
    · obtain ⟨value, rest, whole, noReturn, stops, dropped⟩ := ih later
      refine ⟨c :: value, rest, by rw [whole]; rfl,
        List.not_mem_cons_of_ne_of_not_mem (Ne.symm ends) noReturn, stops, ?_⟩
      rw [List.dropWhile_cons_of_pos, dropped]
      simp [endsValue, ends, notFeed.symm]

theorem hidden_redactFrom (noFeed : '\n' ∉ line) : Hidden line (redactFrom true line) := by
  by_cases opens : opening <+: line
  · obtain ⟨back, rfl⟩ := opens
    have behind : '\n' ∉ back := fun h => noFeed (List.mem_append_right _ h)
    obtain ⟨value, rest, rfl, noReturn, ends, dropped⟩ := exists_value behind
    obtain ⟨c, tail, start⟩ : ∃ c tail, opening = c :: tail := ⟨_, _, rfl⟩
    have starts : opening.isPrefixOf (c :: (tail ++ (value ++ rest))) = true := by
      rw [List.isPrefixOf_iff_prefix, start, ← List.cons_append]
      exact List.prefix_append ..
    have cut : (tail ++ (value ++ rest)).drop (opening.length - 1) = value ++ rest := by
      rw [start, List.length_cons, Nat.add_sub_cancel, List.drop_left]
    have whole : opening ++ (value ++ rest) = c :: (tail ++ (value ++ rest)) := by
      rw [start, List.cons_append]
    have stays : redactFrom false rest = rest :=
      redactFrom_false fun h => behind (List.mem_append_right _ h)
    rw [whole, redactFrom, starts, Bool.and_self, if_pos rfl, cut, dropped, stays, ← whole,
      ← List.append_assoc]
    exact .credential noReturn ends
  · rw [redactFrom_plain noFeed opens]
    exact .other opens

theorem Hidden.noFeed (h : Hidden line made) (noFeed : '\n' ∉ line) : '\n' ∉ made := by
  cases h with
  | credential noReturn ends =>
    rw [List.append_assoc, List.mem_append, List.mem_append, not_or, not_or] at noFeed
    rw [List.append_assoc, List.mem_append, List.mem_append, not_or, not_or]
    exact ⟨noFeed.1, by decide, noFeed.2.2⟩
  | other plain => exact noFeed

/-- A value is told from what is left of its line. -/
theorem dropWhile_value {value rest : List Char} (noReturn : '\r' ∉ value)
    (ends : rest = [] ∨ ∃ back, rest = '\r' :: back) :
    (value ++ rest).dropWhile (· != '\r') = rest := by
  rw [List.dropWhile_append_of_pos]
  · obtain rfl | ⟨back, rfl⟩ := ends <;> rfl
  · intro c hc
    rw [bne_iff_ne]
    rintro rfl
    exact noReturn hc

/-- One line is made of a line. -/
theorem Hidden.unique {other : List Char} (h : Hidden line made) (h' : Hidden line other) :
    made = other := by
  generalize same : line = line' at h'
  cases h with
  | @credential value rest noReturn ends =>
    cases h' with
    | @credential value' rest' noReturn' ends' =>
      rw [List.append_assoc, List.append_assoc] at same
      have behind := List.append_cancel_left same
      rw [← dropWhile_value noReturn ends, behind, dropWhile_value noReturn' ends']
    | other plain =>
      rw [← same, List.append_assoc] at plain
      exact absurd (List.prefix_append ..) plain
  | other plain =>
    cases h' with
    | credential noReturn ends =>
      rw [same, List.append_assoc] at plain
      exact absurd (List.prefix_append ..) plain
    | other _ => exact same

/-- What is made of a line is made of itself. -/
theorem Hidden.again (h : Hidden line made) : Hidden made made := by
  cases h with
  | credential noReturn ends => exact .credential (by decide) ends
  | other plain => exact .other plain

/-! ## All lines -/

theorem redactFrom_intercalate (lines : List (List Char)) :
    redactFrom true (['\n'].intercalate lines) =
      ['\n'].intercalate (lines.map (redactFrom true)) := by
  induction lines with
  | nil => rw [List.intercalate_nil, redactFrom, List.map_nil, List.intercalate_nil]
  | cons line lines ih =>
    cases lines with
    | nil => rw [List.intercalate_singleton, List.map_singleton, List.intercalate_singleton]
    | cons next lines =>
      rw [List.intercalate_cons_cons, List.append_assoc, List.singleton_append,
        redactFrom_append_feed, ih, List.map_cons, List.map_cons, List.map_cons,
        List.intercalate_cons_cons, List.append_assoc, List.singleton_append]

theorem noFeed_of_mem_linesOf {text : String} (h : line ∈ linesOf text) : '\n' ∉ line :=
  not_mem_of_mem_splitOn h

/-- Each line is redacted on its own. -/
theorem linesOf_redact (text : String) :
    linesOf (redact text) = (linesOf text).map (redactFrom true) := by
  have whole : (redact text).toList =
      ['\n'].intercalate ((linesOf text).map (redactFrom true)) := by
    rw [redact, String.toList_ofList, ← redactFrom_intercalate, linesOf,
      List.intercalate_splitOn]
  rw [linesOf, whole]
  refine List.splitOn_intercalate '\n' ?_ ?_
  · intro made hmade
    obtain ⟨line, hline, rfl⟩ := List.mem_map.mp hmade
    have noFeed := noFeed_of_mem_linesOf hline
    exact (hidden_redactFrom noFeed).noFeed noFeed
  · rw [ne_eq, List.map_eq_nil_iff]
    exact List.splitOn_ne_nil '\n' text.toList

/-- A text is made of its lines. -/
theorem linesOf_inj {text other : String} (same : linesOf text = linesOf other) : text = other := by
  have whole := congrArg (['\n'].intercalate ·) same
  simp only [linesOf, List.intercalate_splitOn] at whole
  exact String.toList_inj.mp whole

theorem forall₂_hidden (text : String) :
    List.Forall₂ Hidden (linesOf text) (linesOf (redact text)) := by
  rw [linesOf_redact, List.forall₂_map_right_iff, List.forall₂_same]
  exact fun line hline => hidden_redactFrom (noFeed_of_mem_linesOf hline)

/-- No other text is made of a text. -/
theorem eq_redact_of_forall₂ {text other : String}
    (h : List.Forall₂ Hidden (linesOf text) (linesOf other)) : other = redact text := by
  have unique : Relator.RightUnique Hidden := fun _ _ _ h h' => h.unique h'
  exact linesOf_inj (List.right_unique_forall₂' unique h (forall₂_hidden text))

theorem redact_redact (text : String) : redact (redact text) = redact text := by
  refine (eq_redact_of_forall₂ ?_).symm
  have again : List.Forall₂ (fun _ made => Hidden made made) (linesOf text)
      (linesOf (redact text)) := (forall₂_hidden text).imp fun _ _ h => h.again
  rw [linesOf_redact, List.forall₂_map_right_iff, List.forall₂_same] at again
  rw [linesOf_redact, List.forall₂_same]
  exact List.forall_mem_map.mpr again

end Redaction

namespace Message

/-- The line of a field, without the value if it is a credential. -/
def maskedLine (f : HeaderName × HeaderValue) : String :=
  if canonicalName f.1.text = "Authorization" then "Authorization: [REDACTED]"
  else Lines.fieldLine f

theorem redactLine_startLine (r : Request) :
    Redaction.redactLine (request r).startLine = (request r).startLine :=
  Redaction.redactLine_of_not_starts
    (not_label_startLine r "Authorization:".toList (by decide) (by decide))

theorem redactLine_hostLine {r : Request} {line : String} (h : line ∈ (request r).hostLine?) :
    Redaction.redactLine line = line := by
  obtain ⟨a, -, rfl⟩ := Option.map_eq_some_iff.mp h
  refine Redaction.redactLine_of_not_starts ?_
  rw [String.toList_append, ← List.isPrefixOf_iff_prefix]
  exact Bool.false_ne_true

theorem redactLine_eq_maskedLine (f : HeaderName × HeaderValue) :
    Redaction.redactLine (Lines.fieldLine f) = maskedLine f := by
  have shown : "Authorization" = canonicalName HeaderName.authorization.text := by decide
  rw [maskedLine]
  split
  next same => exact redactLine_credential (HeaderName.canonicalName_inj (same.trans shown))
  next other => exact redactLine_fieldLine fun same => other (by rw [same, shown])

/-- Of the lines of a request, only those of credentials are redacted. -/
theorem map_redactLine_lines (r : Request) (fields : List (HeaderName × HeaderValue)) :
    ((request r).lines fields).map Redaction.redactLine =
      (request r).startLine :: ((request r).hostLine?.toList ++ fields.map maskedLine) := by
  have hosts : (request r).hostLine?.toList.map Redaction.redactLine =
      (request r).hostLine?.toList.map id :=
    List.map_congr_left fun line hline => redactLine_hostLine (Option.mem_toList.mp hline)
  rw [lines, List.map_cons, List.map_append, redactLine_startLine, hosts, List.map_id,
    List.map_map]
  have each : Redaction.redactLine ∘ Lines.fieldLine = maskedLine := by
    funext f
    rw [Function.comp_apply, redactLine_eq_maskedLine]
  rw [each]

end Message

namespace Redaction

/-- What redaction does to a text. -/
structure RedactionLaw (text : String) : Prop where
  /-- What comes of each line between line feeds. -/
  lines : List.Forall₂ Hidden (linesOf text) (linesOf (redact text))
  count : (linesOf (redact text)).length = (linesOf text).length
  /-- Nothing else could come of the text. -/
  settled : ∀ other, List.Forall₂ Hidden (linesOf text) (linesOf other) → other = redact text
  idempotent : redact (redact text) = redact text
  /-- Of the lines before the body of a dump, only those of credentials change. -/
  dumps : ∀ r source, Uri.parse source = .ok r.uri → text = r.dump →
    ∃ fields, (r.headers.erase .host).InOrder fields ∧
      Lines.Leads ((Message.request r).startLine ::
        ((Message.request r).hostLine?.toList ++ fields.map Lines.fieldLine)) text ∧
      Lines.Leads ((Message.request r).startLine ::
        ((Message.request r).hostLine?.toList ++ fields.map Message.maskedLine)) (redact text)

/-- **Redaction is done line by line.** In every text, and in each of its lines that starts with the
name of the credential, exactly the value is replaced; all other lines stay, and there are as many
as before. So redacting again changes nothing, and in the dump of a request the start line, the line
for the host and the lines of all other headers stay. -/
theorem redactionLaw (text : String) : RedactionLaw text := by
  refine ⟨forall₂_hidden text, ?_, fun _ => eq_redact_of_forall₂, redact_redact text, ?_⟩
  · rw [linesOf_redact, List.length_map]
  · rintro r source read rfl
    have leads : Lines.Leads ((Message.request r).lines (r.headers.erase .host).sortedFields)
        r.dump := Message.leads_tracedLines (Uri.isLegal_of_parse read) false
    have hidden := leads.redact
    rw [Message.map_redactLine_lines] at hidden
    exact ⟨_, (r.headers.erase .host).inOrder_sortedFields, leads, hidden⟩

/-- A carriage return ends a value wherever it stands, and a line feed ends its line. -/
example : redact "Authorization: a\rb\nx\nAuthorization: \r\nAuthorization" =
    "Authorization: [REDACTED]\rb\nx\nAuthorization: [REDACTED]\r\nAuthorization" := by
  decide +kernel

end Redaction
end Courier
