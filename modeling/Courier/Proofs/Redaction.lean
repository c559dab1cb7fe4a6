import Courier.Http.Message
import Courier.Trace.Dump
import Courier.Trace.Redaction

/-!
# Redacted dumps

A header value has no line breaks, and neither has its reading as text, however broken its octets
are. So the line of a credential ends where the credential ends, and redaction leaves the same text
of it whatever it was; every other line is redacted on its own.
-/
namespace Courier

/-! ## Header values as text -/

namespace Utf8

/-- Character codes beyond ASCII. -/
def Beyond (c : Char) : Prop := ∃ code, 128 ≤ code ∧ c = Char.ofNat code

/-- Only the codes of line breaks are read as line breaks. -/
theorem ofNat_not_break {code : Nat} (notReturn : code ≠ 13) (notFeed : code ≠ 10) :
    Char.ofNat code ≠ '\r' ∧ Char.ofNat code ≠ '\n' := by
  by_cases valid : code.isValidChar
  · have codes : (Char.ofNat code).toNat = code := by
      rw [Char.ofNat, dif_pos valid]
      rfl
    constructor
    · intro same
      rw [same] at codes
      exact notReturn codes.symm
    · intro same
      rw [same] at codes
      exact notFeed codes.symm
  · rw [Char.ofNat, dif_neg valid]
    decide

/-- Each continuation octet brings six more bits. -/
theorem beyond_of_continue? {n code : Nat} {low high : UInt8} {bs : Bytes} {c : Char}
    (h : (continue? (n + 1) low high code bs).1 = some c) (big : 2 ≤ code) : Beyond c := by
  induction n generalizing low high code bs with
  | zero =>
    cases bs with
    | nil => cases h
    | cons b bs =>
      rw [continue?] at h
      split at h
      · rw [continue?] at h
        exact ⟨_, by omega, (Option.some.inj h).symm⟩
      · cases h
  | succ n ih =>
    cases bs with
    | nil => cases h
    | cons b bs =>
      rw [continue?] at h
      split at h
      · exact ih h (by omega)
      · cases h

/-- Where the leading octet brings few bits, the range of the next one makes up for it. -/
theorem beyond_of_continue?_two {n code : Nat} {low high : UInt8} {bs : Bytes} {c : Char}
    (h : (continue? (n + 2) low high code bs).1 = some c)
    (big : 1 ≤ code ∨ 0x90 ≤ low ∧ high ≤ 0xBF) : Beyond c := by
  cases bs with
  | nil => cases h
  | cons b bs =>
    rw [continue?] at h
    split at h
    next range =>
      refine beyond_of_continue? h ?_
      rcases big with some | ⟨hlow, hhigh⟩
      · omega
      · simp only [UInt8.le_iff_toNat_le] at range hlow hhigh
        simp at hlow hhigh
        omega
    · cases h

/-- Leading octets carry bits of their own, or narrow the range of the next octet. -/
theorem lead?_eq_some {b : UInt8} {l : Lead} (h : lead? b = some l) :
    l.count = 1 ∧ 2 ≤ leadBits 1 b ∨
      ∃ n, l.count = n + 2 ∧ (1 ≤ leadBits (n + 2) b ∨ 0x90 ≤ l.low ∧ l.high ≤ 0xBF) := by
  -- One case for each range of leading octets; only `0xE0` and `0xF0` may carry no bits.
  simp only [lead?, UInt8.lt_iff_toNat_lt, ← UInt8.toNat_inj] at h
  simp only [UInt8.reduceToNat] at h
  split at h
  · cases h
  split at h
  · cases h
    refine .inl ⟨rfl, ?_⟩
    simp only [leadBits]
    omega
  split at h
  · cases h
    exact .inr ⟨0, rfl, .inr (by decide)⟩
  split at h
  · cases h
    refine .inr ⟨0, rfl, .inl ?_⟩
    simp only [leadBits]
    omega
  split at h
  · cases h
    refine .inr ⟨0, rfl, .inl ?_⟩
    simp only [leadBits]
    omega
  split at h
  · cases h
    exact .inr ⟨1, rfl, .inr (by decide)⟩
  split at h
  · cases h
    refine .inr ⟨1, rfl, .inl ?_⟩
    simp only [leadBits]
    omega
  split at h
  · cases h
    refine .inr ⟨1, rfl, .inl ?_⟩
    simp only [leadBits]
    omega
  · cases h

/-- A piece is an octet of ASCII or a character beyond it. -/
theorem beyond_of_piece {b : UInt8} {bs : Bytes} {c : Char} (h : (piece b bs).1 = some c) :
    b < 0x80 ∧ c = Char.ofNat b.toNat ∨ Beyond c := by
  unfold piece at h
  split at h
  next ascii => exact .inl ⟨ascii, (Option.some.inj h).symm⟩
  · right
    split at h
    · cases h
    next l hl =>
      obtain ⟨one, big⟩ | ⟨n, more, big⟩ := lead?_eq_some hl
      · rw [one] at h
        exact beyond_of_continue? h big
      · rw [more] at h
        exact beyond_of_continue?_two h big

theorem suffix_continue? (count : Nat) (low high : UInt8) (code : Nat) (bs : Bytes) :
    (continue? count low high code bs).2 <:+ bs := by
  fun_induction continue? count low high code bs with
  | case1 => exact List.suffix_refl _
  | case2 => exact List.suffix_refl _
  | case3 _ _ _ _ _ _ _ ih => exact ih.trans (List.suffix_cons _ _)
  | case4 => exact List.suffix_refl _

theorem suffix_piece (b : UInt8) (bs : Bytes) : (piece b bs).2 <:+ bs := by
  unfold piece
  split
  · exact List.suffix_refl _
  · split
    · exact List.suffix_refl _
    · exact suffix_continue? ..

/-- Every character of a text is an octet of ASCII, a character beyond it, or the replacement. -/
theorem mem_lossy {bs : Bytes} {c : Char} (h : c ∈ (lossy bs).toList) :
    (∃ b ∈ bs, b < 0x80 ∧ c = Char.ofNat b.toNat) ∨ Beyond c := by
  rw [lossy, String.toList_ofList] at h
  obtain ⟨x, hx, rfl⟩ := List.mem_map.1 h
  clear h
  fun_induction decode bs with
  | case1 => cases hx
  | case2 b bs p ih =>
    rcases List.mem_cons.1 hx with rfl | later
    · cases hp : p.1 with
      | none => exact .inr ⟨0xFFFD, by decide, by simp [replacement]⟩
      | some c =>
        obtain ⟨ascii, same⟩ | beyond := beyond_of_piece hp
        · exact .inl ⟨b, List.mem_cons_self .., ascii, same⟩
        · exact .inr beyond
    · obtain ⟨d, hd, ascii⟩ | beyond := ih later
      · exact .inl ⟨d, List.mem_cons_of_mem _ ((suffix_piece b bs).mem hd), ascii⟩
      · exact .inr beyond

end Utf8

/-- The reading of a header value as text has no line breaks. -/
theorem HeaderValue.not_break_of_mem_shown (v : HeaderValue) {c : Char} (h : c ∈ v.shown.toList) :
    c ≠ '\r' ∧ c ≠ '\n' := by
  obtain ⟨b, hb, ascii, rfl⟩ | ⟨code, big, rfl⟩ := Utf8.mem_lossy h
  · have legal : isValueByte b = true := List.all_eq_true.1 v.legal b hb
    simp only [isValueByte, Bool.or_eq_true, Bool.and_eq_true, decide_eq_true_eq, beq_iff_eq,
      UInt8.le_iff_toNat_le, ← UInt8.toNat_inj, UInt8.reduceToNat] at legal
    exact Utf8.ofNat_not_break (by omega) (by omega)
  · exact Utf8.ofNat_not_break (by omega) (by omega)

/-! ## Lines -/

namespace Redaction

/-- What comes after a line feed does not matter for a prefix without one. -/
theorem isPrefixOf_append_line {o : List Char} (noFeed : '\n' ∉ o) (p q : List Char) :
    o.isPrefixOf (p ++ '\n' :: q) = o.isPrefixOf p := by
  induction o generalizing p with
  | nil => rfl
  | cons x o ih =>
    have ne : x ≠ '\n' := fun same => noFeed (same ▸ List.mem_cons_self ..)
    cases p with
    | nil => simp [List.isPrefixOf, ne]
    | cons y p =>
      have rest := ih (fun h => noFeed (List.mem_cons_of_mem _ h)) p
      simp [List.isPrefixOf, rest]

/-- Passing over a value stops at a line feed at the latest. -/
theorem dropWhile_append_line (p q : List Char) :
    (p ++ '\n' :: q).dropWhile (fun c => !endsValue c) =
      p.dropWhile (fun c => !endsValue c) ++ '\n' :: q := by
  induction p with
  | nil => rfl
  | cons c p ih =>
    by_cases ends : endsValue c = true
    · simp [ends]
    · simp [ends, ih]

theorem noFeed_opening : '\n' ∉ opening := by decide

/-- What comes before a line feed and what comes after it are redacted apart. -/
theorem redactFrom_append_feed (atStart : Bool) (p q : List Char) :
    redactFrom atStart (p ++ '\n' :: q) = redactFrom atStart p ++ '\n' :: redactFrom true q := by
  -- The induction is on the length, because a credential takes several characters at once.
  induction hn : p.length using Nat.strongRecOn generalizing atStart p with
  | ind n ih =>
    cases p with
    | nil =>
      have notOpening : opening.isPrefixOf ('\n' :: q) = false :=
        isPrefixOf_append_line noFeed_opening [] q
      have ends : redactFrom atStart [] = [] := by rw [redactFrom]
      rw [List.nil_append, ends, redactFrom, notOpening]
      simp
    | cons c p =>
      have sameLine : opening.isPrefixOf (c :: (p ++ '\n' :: q)) = opening.isPrefixOf (c :: p) :=
        isPrefixOf_append_line noFeed_opening (c :: p) q
      rw [List.cons_append, redactFrom, redactFrom, sameLine]
      by_cases opens : (atStart && opening.isPrefixOf (c :: p)) = true
      · have long : opening.length - 1 ≤ p.length := by
          simp only [Bool.and_eq_true, List.isPrefixOf_iff_prefix] at opens
          have := opens.2.length_le
          simp only [List.length_cons] at this
          omega
        have cut : (p ++ '\n' :: q).drop (opening.length - 1) =
            p.drop (opening.length - 1) ++ '\n' :: q := List.drop_append_of_le_length long
        have shorter :
            ((p.drop (opening.length - 1)).dropWhile fun c => !endsValue c).length < n := by
          have le := (List.dropWhile_sublist (fun c => !endsValue c)
            (l := p.drop (opening.length - 1))).length_le
          simp only [List.length_drop, List.length_cons] at le hn
          omega
        rw [if_pos opens, if_pos opens, cut, dropWhile_append_line, ih _ shorter _ _ rfl]
        simp only [List.append_assoc]
      · have shorter : p.length < n := by
          simp only [List.length_cons] at hn
          omega
        rw [if_neg opens, if_neg opens, ih _ shorter _ _ rfl, List.cons_append]

/-- A text is redacted line by line. -/
theorem redactFrom_append_line (atStart : Bool) (p q : List Char) :
    redactFrom atStart (p ++ '\n' :: q) =
      redactFrom atStart (p ++ ['\n']) ++ redactFrom true q := by
  have ends : redactFrom true [] = [] := by rw [redactFrom]
  rw [redactFrom_append_feed, redactFrom_append_feed, ends, List.append_assoc,
    List.singleton_append]

/-- Behind its start, nothing in a line is redacted. -/
theorem redactFrom_false {line : List Char} (noFeed : '\n' ∉ line) :
    redactFrom false line = line := by
  induction line with
  | nil => rw [redactFrom]
  | cons c line ih =>
    obtain ⟨other, later⟩ := List.ne_and_not_mem_of_not_mem_cons noFeed
    rw [redactFrom, Bool.false_and, if_neg Bool.false_ne_true, beq_false_of_ne other.symm, ih later]

/-- A line that does not start with the name of a credential stays as it is. -/
theorem redactFrom_plain {line : List Char} (noFeed : '\n' ∉ line) (plain : ¬ opening <+: line) :
    redactFrom true line = line := by
  cases line with
  | nil => rw [redactFrom]
  | cons c line =>
    obtain ⟨other, later⟩ := List.ne_and_not_mem_of_not_mem_cons noFeed
    have closed : opening.isPrefixOf (c :: line) = false := by
      rw [Bool.eq_false_iff, ne_eq, List.isPrefixOf_iff_prefix]
      exact plain
    rw [redactFrom, closed, Bool.and_false, if_neg Bool.false_ne_true,
      beq_false_of_ne other.symm, redactFrom_false later]

/-- Nothing is left of the credential in its line. -/
theorem redactFrom_credential {value : List Char} (noBreak : ∀ c ∈ value, c ≠ '\r' ∧ c ≠ '\n') :
    redactFrom true (opening ++ value ++ ['\r', '\n']) = opening ++ marker ++ ['\r', '\n'] := by
  have passes : (value ++ ['\r', '\n']).dropWhile (fun c => !endsValue c) = ['\r', '\n'] := by
    rw [List.dropWhile_append_of_pos]
    · rfl
    · intro c hc
      obtain ⟨notReturn, notFeed⟩ := noBreak c hc
      simp [endsValue, notReturn, notFeed]
  have breaks : redactFrom false ['\r', '\n'] = ['\r', '\n'] := by
    simp [redactFrom]
  obtain ⟨c, tail, opens⟩ : ∃ c tail, opening = c :: tail := ⟨_, _, rfl⟩
  have starts : opening.isPrefixOf (c :: (tail ++ (value ++ ['\r', '\n']))) = true := by
    rw [List.isPrefixOf_iff_prefix, opens, ← List.cons_append]
    exact List.prefix_append ..
  have cut : (tail ++ (value ++ ['\r', '\n'])).drop (opening.length - 1) =
      value ++ ['\r', '\n'] := by
    rw [opens, List.length_cons, Nat.add_sub_cancel, List.drop_left]
  have whole : opening ++ value ++ ['\r', '\n'] = c :: (tail ++ (value ++ ['\r', '\n'])) := by
    rw [opens, List.append_assoc, List.cons_append]
  rw [whole, redactFrom, starts, Bool.and_self, if_pos rfl, cut, passes, breaks]

end Redaction

/-! ## Dumps -/

theorem toList_join (texts : List String) :
    (String.join texts).toList = texts.flatMap String.toList := by
  have fold : ∀ first : String, (texts.foldl (fun r s => r ++ s) first).toList =
      first.toList ++ texts.flatMap String.toList := by
    induction texts with
    | nil => simp
    | cons text texts ih =>
      intro first
      rw [List.foldl_cons, ih, String.toList_append, List.flatMap_cons, List.append_assoc]
  rw [String.join, fold]
  rfl

/-- A field without its value if that is a credential. -/
def blindedField (f : HeaderName × HeaderValue) : HeaderName × Option HeaderValue :=
  (f.1, if f.1 = .authorization then none else some f.2)

namespace Headers

/-- Everything of headers but credentials: how many there are, and where. -/
def blinded (h : Headers) : List (HeaderName × Option HeaderValue) :=
  h.fields.map blindedField

theorem blinded_append (h : Headers) (name : HeaderName) (value : HeaderValue) :
    (h.append name value).blinded = h.blinded ++ [blindedField (name, value)] := by
  simp [blinded, append]

theorem blinded_erase (h : Headers) (name : HeaderName) :
    (h.erase name).blinded = h.blinded.filter fun f => f.1 ≠ name := by
  simp only [blinded, erase, List.filter_map]
  rfl

theorem contains_eq_any (h : Headers) (name : HeaderName) :
    h.contains name = h.blinded.any fun f => f.1 = name := by
  rw [contains, get?, values, blinded]
  induction h.fields with
  | nil => rfl
  | cons f fields ih =>
    by_cases same : f.1 = name
    · simp [same, blindedField]
    · simpa [same, blindedField] using ih

/-- The fields in the order in which dumps show them. -/
def sortedFields (h : Headers) : List (HeaderName × HeaderValue) :=
  h.fields.mergeSort fun f g => decide (canonicalName f.1.text ≤ canonicalName g.1.text)

theorem shownFields_eq (h : Headers) :
    h.shownFields = h.sortedFields.map fun f => (canonicalName f.1.text, f.2.shown) := by
  rw [shownFields, sortedFields, List.map_mergeSort]
  intro f _ g _
  rfl

/-- Where the credentials are does not depend on what they are. -/
theorem map_blinded_sortedFields (h : Headers) :
    h.sortedFields.map blindedField =
      h.blinded.mergeSort fun f g => decide (canonicalName f.1.text ≤ canonicalName g.1.text) := by
  rw [sortedFields, blinded, List.map_mergeSort]
  intro f _ g _
  rfl

end Headers

/-- The line of a field, as dumps show it. -/
def lineOf (f : HeaderName × HeaderValue) : List Char :=
  (canonicalName f.1.text ++ ": " ++ f.2.shown ++ "\r\n").toList

/-- What redaction leaves of a line. -/
def redactedLine : HeaderName × Option HeaderValue → List Char
  | (_, none) => Redaction.opening ++ Redaction.marker ++ ['\r', '\n']
  | (name, some value) => Redaction.redactFrom true (lineOf (name, value))

theorem redactFrom_lineOf (f : HeaderName × HeaderValue) :
    Redaction.redactFrom true (lineOf f) = redactedLine (blindedField f) := by
  by_cases credential : f.1 = .authorization
  · have opens : (canonicalName HeaderName.authorization.text ++ ": ").toList =
        Redaction.opening := by decide
    have line : lineOf f = Redaction.opening ++ f.2.shown.toList ++ ['\r', '\n'] := by
      rw [lineOf, String.toList_append, String.toList_append, credential, opens]
      rfl
    rw [line, Redaction.redactFrom_credential fun c hc => f.2.not_break_of_mem_shown hc,
      blindedField, if_pos credential, redactedLine]
  · rw [blindedField, if_neg credential, redactedLine]

/-- The lines of fields are redacted one by one. -/
theorem redactFrom_lines (fields : List (HeaderName × HeaderValue)) (rest : List Char) :
    Redaction.redactFrom true (fields.flatMap lineOf ++ rest) =
      (fields.map blindedField).flatMap redactedLine ++ Redaction.redactFrom true rest := by
  induction fields with
  | nil => rfl
  | cons f fields ih =>
    obtain ⟨line, hline⟩ : ∃ line, lineOf f = line ++ ['\n'] := by
      refine ⟨(canonicalName f.1.text ++ ": " ++ f.2.shown ++ "\r").toList, ?_⟩
      simp [lineOf]
    have first := redactFrom_lineOf f
    rw [hline] at first
    rw [List.flatMap_cons, List.append_assoc, hline, List.append_assoc, List.singleton_append,
      Redaction.redactFrom_append_line, first, ih, List.map_cons, List.flatMap_cons,
      List.append_assoc]

/-- The requests differ in the values of credentials at most. -/
structure Request.SameButCredentials (r s : Request) : Prop where
  method : r.method = s.method
  uri : r.uri = s.uri
  version : r.version = s.version
  headers : r.headers.blinded = s.headers.blinded
  body : r.body = s.body

/-- What a dump starts with, before the headers. -/
def Request.opening (r : Request) : List Char :=
  (r.method.text ++ " " ++ r.uri.requestTarget ++ " " ++ r.version.text ++ "\r\n" ++
    match r.uri.authority with | some a => "Host: " ++ a ++ "\r\n" | none => "").toList

theorem Headers.toList_lines (h : Headers) : h.lines.toList = h.sortedFields.flatMap lineOf := by
  rw [lines, toList_join, shownFields_eq, List.map_map, List.flatMap_map]
  rfl

theorem Request.toList_dump (r : Request) :
    r.dump.toList = r.opening ++ ((r.headers.erase .host).sortedFields.flatMap lineOf ++
      ("\r\n" ++ Utf8.lossy r.body).toList) := by
  rw [dump, opening]
  cases r.uri.authority with
  | none => simp only [String.toList_append, Headers.toList_lines, List.append_assoc]
  | some host => simp only [String.toList_append, Headers.toList_lines, List.append_assoc]

theorem Request.opening_ends (r : Request) : ∃ text, r.opening = text ++ ['\n'] := by
  rw [opening]
  cases r.uri.authority with
  | none =>
    refine ⟨(r.method.text ++ " " ++ r.uri.requestTarget ++ " " ++ r.version.text ++
      "\r").toList, ?_⟩
    simp
  | some host =>
    refine ⟨(r.method.text ++ " " ++ r.uri.requestTarget ++ " " ++ r.version.text ++
      "\r\n" ++ "Host: " ++ host ++ "\r").toList, ?_⟩
    simp

/-- What redaction leaves of a dump is put together from what is no credential. -/
theorem Request.redact_dump_eq (r : Request) :
    Redaction.redact r.dump = String.ofList (Redaction.redactFrom true r.opening ++
      (((r.headers.erase .host).sortedFields.map blindedField).flatMap redactedLine ++
        Redaction.redactFrom true ("\r\n" ++ Utf8.lossy r.body).toList)) := by
  obtain ⟨text, ends⟩ := r.opening_ends
  rw [Redaction.redact, toList_dump, ends, List.append_assoc, List.singleton_append,
    Redaction.redactFrom_append_line, redactFrom_lines]

/-- **A redacted dump does not depend on credentials.** -/
theorem Request.SameButCredentials.redact_dump {r s : Request} (h : r.SameButCredentials s) :
    Redaction.redact r.dump = Redaction.redact s.dump := by
  have openings : r.opening = s.opening := by
    rw [opening, opening, h.method, h.uri, h.version]
  have fields : (r.headers.erase .host).sortedFields.map blindedField =
      (s.headers.erase .host).sortedFields.map blindedField := by
    rw [Headers.map_blinded_sortedFields, Headers.map_blinded_sortedFields,
      Headers.blinded_erase, Headers.blinded_erase, h.headers]
  rw [redact_dump_eq, redact_dump_eq, openings, fields, h.body]

end Courier
