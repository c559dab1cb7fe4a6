import Courier.Proofs.Words

/-!
# What dumps tell

A dump is lines, an empty line and a body. The lines are the start line, at most one for the host,
and one for each field, in the order of the names as they are shown and, under one name, in the
order in which the values were added. Nothing in a field or in a body can be taken for another part,
so that messages whose dumps are the same are the same but for what dumps leave out: the scheme, a
header that names a host, which values are not to be shown, and octets that are no text.

## Main results

* `Headers.inOrder_sortedFields` — the order of the lines.
* `Message.same_of_dump_eq`, `Message.dump_eq_of_same` — what a dump tells, and that it tells
  nothing else.
* `Message.dumpLaw` — all that is known of a dump.
-/
namespace Courier

/-! ## The order of the lines -/

namespace Headers

/-- All fields, in the order of the octets of their names as they are shown; the values of one name
are in the order in which they were added. -/
structure InOrder (h : Headers) (fields : List (HeaderName × HeaderValue)) : Prop where
  every : fields.Perm h.fields
  byName : fields.Pairwise fun f g =>
    Utf8.encode (canonicalName f.1.text) ≤ Utf8.encode (canonicalName g.1.text)
  stable : ∀ name, values ⟨fields⟩ name = h.values name

theorem ascii_canonicalName (name : HeaderName) :
    ∀ c ∈ (canonicalName name.text).toList, c.toNat < 128 := by
  intro c hc
  obtain ⟨_, shown⟩ := HeaderName.shownAs_of_mem_canonicalName hc
  exact shown.visible.2

/-- **Fields are shown in order.** -/
theorem inOrder_sortedFields (h : Headers) : h.InOrder h.sortedFields := by
  have trans (f g k : HeaderName × HeaderValue)
      (fg : decide (canonicalName f.1.text ≤ canonicalName g.1.text) = true)
      (gk : decide (canonicalName g.1.text ≤ canonicalName k.1.text) = true) :
      decide (canonicalName f.1.text ≤ canonicalName k.1.text) = true :=
    decide_eq_true (le_trans (of_decide_eq_true fg) (of_decide_eq_true gk))
  have total (f g : HeaderName × HeaderValue) :
      (decide (canonicalName f.1.text ≤ canonicalName g.1.text) ||
        decide (canonicalName g.1.text ≤ canonicalName f.1.text)) = true := by
    rw [Bool.or_eq_true, decide_eq_true_eq, decide_eq_true_eq]
    exact le_total _ _
  have every : h.sortedFields.Perm h.fields := List.mergeSort_perm ..
  refine ⟨every, ?_, fun name => ?_⟩
  · refine (List.pairwise_mergeSort trans total h.fields).imp fun {f g} le => ?_
    exact (Utf8.encode_le_encode (ascii_canonicalName f.1) (ascii_canonicalName g.1)).mpr
      (of_decide_eq_true le)
  · -- The fields of one name are in order already, so that sorting leaves them in theirs.
    have alike : (h.fields.filter fun f => f.1 = name).Pairwise fun f g =>
        decide (canonicalName f.1.text ≤ canonicalName g.1.text) = true := by
      refine List.pairwise_of_forall_mem_list fun f hf g hg => decide_eq_true ?_
      rw [of_decide_eq_true (List.mem_filter.mp hf).2, of_decide_eq_true (List.mem_filter.mp hg).2]
    have kept := (List.sublist_mergeSort trans total alike List.filter_sublist).filter
      fun f => f.1 = name
    rw [List.filter_filter] at kept
    simp only [Bool.and_self] at kept
    rw [values, values, kept.eq_of_length (every.filter _).length_eq.symm]
    rfl

end Headers

/-! ## Messages and their lines -/

/-- What is dumped. -/
inductive Message where
  | request (r : Request)
  | response (head : ResponseHead) (body : Bytes)

namespace Message

def dump : Message → String
  | .request r => r.dump
  | .response head body => head.dump body

/-- The first line of a dump. -/
def startLine : Message → String
  | .request r => r.method.text ++ " " ++ r.uri.requestTarget ++ " " ++ r.version.text
  | .response head _ => head.version.text ++ " " ++ toString head.status.code ++ " " ++
      head.status.reason

/-- The line for the host of a request. -/
def hostLine? : Message → Option String
  | .request r => r.uri.authority.map ("Host: " ++ ·)
  | .response _ _ => none

/-- The headers that have lines: in a request, all but those that name a host. -/
def headers : Message → Headers
  | .request r => r.headers.erase .host
  | .response head _ => head.headers

def body : Message → Bytes
  | .request r => r.body
  | .response _ body => body

/-- All lines of a dump. -/
def lines (m : Message) (fields : List (HeaderName × HeaderValue)) : List String :=
  m.startLine :: (m.hostLine?.toList ++ fields.map Lines.fieldLine)

/-- The URI of a request has legal characters. -/
def IsLegal : Message → Prop
  | .request r => r.uri.IsLegal
  | .response _ _ => True

/-- What is finished from a draft has a URI with legal characters. -/
theorem isLegal_of_build {security : Security} {d : Draft} {r : Request}
    (ok : d.build security = .ok r) : (request r).IsLegal := by
  rw [Draft.build] at ok
  split at ok
  · cases ok
  split at ok
  · cases ok
  next checked =>
    cases ok
    exact Uri.isLegal_of_parse (Api.parse_of_checkUrl checked)

/-- Every value that has a line is text. -/
def IsText (m : Message) : Prop := ∀ f ∈ m.headers.fields, f.2.IsText

theorem isLine_startLine {m : Message} (legal : m.IsLegal) : Lines.IsLine m.startLine := by
  cases m with
  | request r =>
    exact Lines.isLine_words r.method.solid legal.solid_requestTarget r.version.solid.plain
  | response head body =>
    exact Lines.isLine_words head.version.solid head.status.solid head.status.plain_reason

theorem isLine_hostLine {m : Message} (legal : m.IsLegal) :
    ∀ line ∈ m.hostLine?, Lines.IsLine line := by
  cases m with
  | request r =>
    intro line hline
    obtain ⟨a, named, rfl⟩ := Option.map_eq_some_iff.mp hline
    have solid : Solid a := fun c hc => Uri.isAuthorityChar_solid (legal.authority a named c hc)
    have label : ("Host: ".toList.all fun c => decide (c ≠ '\r' ∧ c ≠ '\n')) = true := by decide
    refine ⟨?_, ?_⟩
    · rw [String.toList_append]
      exact List.append_ne_nil_of_left_ne_nil (by decide) _
    · rw [String.toList_append, List.forall_mem_append]
      exact ⟨fun c hc => of_decide_eq_true (List.all_eq_true.mp label c hc), solid.plain⟩
  | response head body => exact nofun

theorem isLine_lines {m : Message} (legal : m.IsLegal)
    (fields : List (HeaderName × HeaderValue)) : ∀ line ∈ m.lines fields, Lines.IsLine line := by
  rw [lines, List.forall_mem_cons, List.forall_mem_append]
  refine ⟨isLine_startLine legal, fun line hline => ?_, fun line hline => ?_⟩
  · exact isLine_hostLine legal line (Option.mem_toList.mp hline)
  · obtain ⟨f, -, rfl⟩ := List.mem_map.mp hline
    exact Lines.isLine_fieldLine f

/-- **A dump** is its lines, an empty line and the text of the body. -/
theorem toList_dump (m : Message) : m.dump.toList =
    Lines.ended (m.lines m.headers.sortedFields) ++
      (Lines.eol ++ (Utf8.lossy m.body).toList) := by
  have fields (h : Headers) :
      h.lines.toList = Lines.ended (h.sortedFields.map Lines.fieldLine) := by
    rw [Headers.toList_lines, Lines.ended, List.flatMap_map]
    exact List.flatMap_congr fun f _ => Lines.lineOf_eq f
  have eol : "\r\n".toList = Lines.eol := rfl
  cases m with
  | request r =>
    rw [lines, Lines.ended_cons, hostLine?, dump, Request.dump, startLine]
    cases r.uri.authority with
    | none =>
      simp only [String.toList_append, fields, eol, List.append_assoc, Option.map_none,
        Option.toList_none, List.nil_append, String.toList_empty]
      rfl
    | some a =>
      simp only [String.toList_append, fields, eol, List.append_assoc, Option.map_some,
        Option.toList_some, List.singleton_append, Lines.ended_cons]
      rfl
  | response head body =>
    rw [lines, Lines.ended_cons, hostLine?, dump, ResponseHead.dump, startLine]
    simp only [String.toList_append, fields, eol, List.append_assoc, Option.toList_none,
      List.nil_append]
    rfl

/-! ## What dumps tell -/

/-- The octets of the values are the same under a name. -/
def SameValues (h k : Headers) (name : HeaderName) : Prop :=
  (h.values name).map (·.bytes) = (k.values name).map (·.bytes)

/-- The messages are of one kind, and what a dump tells of them is the same. -/
def Same : Message → Message → Prop
  | .request r, .request s =>
    r.method = s.method ∧ r.uri.requestTarget = s.uri.requestTarget ∧ r.version = s.version ∧
      r.uri.authority = s.uri.authority ∧
      (∀ name ≠ HeaderName.host, SameValues r.headers s.headers name) ∧
      Utf8.lossy r.body = Utf8.lossy s.body
  | .response head body, .response head' body' =>
    head.version = head'.version ∧ head.status = head'.status ∧
      (∀ name, SameValues head.headers head'.headers name) ∧ Utf8.lossy body = Utf8.lossy body'
  | _, _ => False

/-- What is told of a field. -/
def told (f : HeaderName × HeaderValue) : HeaderName × Bytes := (f.1, f.2.bytes)

theorem told_of_lines {fs gs : List (HeaderName × HeaderValue)} (hf : ∀ f ∈ fs, f.2.IsText)
    (hg : ∀ g ∈ gs, g.2.IsText) (same : fs.map Lines.fieldLine = gs.map Lines.fieldLine) :
    fs.map told = gs.map told := by
  induction fs generalizing gs with
  | nil => rw [List.map_eq_nil_iff.mp same.symm]
  | cons f fs ih =>
    obtain ⟨g, gs, rfl, first, later⟩ := List.map_eq_cons_iff.mp same.symm
    obtain ⟨text, texts⟩ := List.forall_mem_cons.mp hf
    obtain ⟨text', texts'⟩ := List.forall_mem_cons.mp hg
    obtain ⟨names, octets⟩ := Lines.fieldLine_inj text text' first.symm
    rw [List.map_cons, List.map_cons, ih texts texts' later.symm, told, told, names, octets]

/-- What is under a name. -/
def under (ts : List (HeaderName × Bytes)) (name : HeaderName) : List Bytes :=
  (ts.filter fun t => t.1 = name).map (·.2)

theorem under_cons (t : HeaderName × Bytes) (ts : List (HeaderName × Bytes)) (name : HeaderName) :
    under (t :: ts) name = (if t.1 = name then [t.2] else []) ++ under ts name := by
  by_cases named : t.1 = name <;> simp [under, named]

theorem bytes_of_told (fs : List (HeaderName × HeaderValue)) (name : HeaderName) :
    (Headers.values ⟨fs⟩ name).map (·.bytes) = under (fs.map told) name := by
  rw [Headers.values, under, List.filter_map, List.map_map, List.map_map]
  rfl

theorem sameValues_of_lines {h k : Headers} (hh : ∀ f ∈ h.fields, f.2.IsText)
    (hk : ∀ f ∈ k.fields, f.2.IsText)
    (same : h.sortedFields.map Lines.fieldLine = k.sortedFields.map Lines.fieldLine)
    (name : HeaderName) : SameValues h k name := by
  obtain ⟨every, -, stable⟩ := h.inOrder_sortedFields
  obtain ⟨every', -, stable'⟩ := k.inOrder_sortedFields
  have fields := told_of_lines (fun f hf => hh f (every.mem_iff.mp hf))
    (fun f hf => hk f (every'.mem_iff.mp hf)) same
  rw [SameValues, ← stable, ← stable', bytes_of_told, bytes_of_told, fields]

/-- A line starts as the line for a host does. -/
def startsAsHost (line : String) : Bool := "Host: ".toList.isPrefixOf line.toList

theorem startsAsHost_iff {line : String} :
    startsAsHost line = true ↔ ∃ rest, line.toList = "Host: ".toList ++ rest := by
  rw [startsAsHost, List.isPrefixOf_iff_prefix]
  exact exists_congr fun rest => eq_comm

theorem startsAsHost_host (a : String) : startsAsHost ("Host: " ++ a) = true :=
  startsAsHost_iff.mpr ⟨a.toList, String.toList_append⟩

/-- No line of a field starts so. -/
theorem startsAsHost_fieldLine {r : Request} {f : HeaderName × HeaderValue}
    (h : f ∈ (r.headers.erase .host).fields) : ¬ startsAsHost (Lines.fieldLine f) = true := by
  intro starts
  obtain ⟨rest, same⟩ := startsAsHost_iff.mp starts
  exact of_decide_eq_true (List.mem_filter.mp h).2 (Lines.host_of_fieldLine f same)

/-- A method has no colon, so that the start line does not start as that of a header does. -/
theorem not_label_startLine (r : Request) (label : List Char) (colon : ':' ∈ label)
    (noBlank : ' ' ∉ label) : ¬ label ++ [' '] <+: (request r).startLine.toList := by
  rintro ⟨rest, same⟩
  rw [startLine, Lines.toList_words, List.append_assoc, List.singleton_append] at same
  obtain ⟨method, -⟩ := Lines.cut_inj noBlank r.method.solid.noBlank same
  rw [method] at colon
  exact absurd (Method.isTokenChar_of_mem colon) (by decide)

/-- Neither does the start line. -/
theorem startsAsHost_startLine (r : Request) :
    ¬ startsAsHost (request r).startLine = true := by
  rw [startsAsHost, List.isPrefixOf_iff_prefix]
  exact not_label_startLine r "Host:".toList (by decide) (by decide)

/-- Among the lines of a request, that of the host is told by its start. -/
theorem filter_lines {r : Request} {fields : List (HeaderName × HeaderValue)}
    (every : ∀ f ∈ fields, f ∈ (r.headers.erase .host).fields) :
    ((request r).lines fields).filter startsAsHost = (request r).hostLine?.toList := by
  have others : (fields.map Lines.fieldLine).filter startsAsHost = [] := by
    rw [List.filter_eq_nil_iff]
    intro line hline
    obtain ⟨f, hf, rfl⟩ := List.mem_map.mp hline
    exact startsAsHost_fieldLine (every f hf)
  rw [lines, List.filter_cons_of_neg (startsAsHost_startLine r), List.filter_append, others,
    List.append_nil, List.filter_eq_self, hostLine?]
  intro line hline
  obtain ⟨a, -, rfl⟩ := Option.map_eq_some_iff.mp (Option.mem_toList.mp hline)
  exact startsAsHost_host a

/-- The line for the host is told from the lines of the fields. -/
theorem hostLine_inj {r s : Request}
    (same : (request r).lines (r.headers.erase .host).sortedFields =
      (request s).lines (s.headers.erase .host).sortedFields) :
    r.uri.authority = s.uri.authority ∧
      (r.headers.erase .host).sortedFields.map Lines.fieldLine =
        (s.headers.erase .host).sortedFields.map Lines.fieldLine := by
  have found (q : Request) := filter_lines fun f hf =>
    (q.headers.erase .host).inOrder_sortedFields.every.mem_iff.mp hf
  have hosts : (request r).hostLine?.toList = (request s).hostLine?.toList := by
    rw [← found r, ← found s, same]
  obtain ⟨-, others⟩ := List.cons.inj same
  rw [hosts] at others
  refine ⟨?_, List.append_cancel_left others⟩
  have line := congrArg List.head? hosts
  rw [Option.head?_toList, Option.head?_toList] at line
  exact Option.map_injective (fun _ _ same => (String.append_right_inj "Host: ").mp same) line

/-- **A dump has one reading.** -/
theorem same_of_dump_eq {m n : Message} (legal : m.IsLegal) (legal' : n.IsLegal)
    (text : m.IsText) (text' : n.IsText) (dumps : m.dump = n.dump) : m.Same n := by
  have whole := n.toList_dump
  rw [← dumps, m.toList_dump] at whole
  obtain ⟨lines, behind⟩ := Lines.ended_inj (isLine_lines legal _) (isLine_lines legal' _) whole
  obtain ⟨starts, others⟩ := List.cons.inj lines
  have bodies := String.toList_inj.mp behind
  cases m with
  | request r =>
    cases n with
    | request s =>
      obtain ⟨methods, targets, versions⟩ := Lines.words_inj r.method.solid s.method.solid
        legal.solid_requestTarget legal'.solid_requestTarget starts
      obtain ⟨hosts, fields⟩ := hostLine_inj lines
      refine ⟨Method.text_inj methods, targets, Version.text_inj versions, hosts, ?_, bodies⟩
      intro name ne
      have values := sameValues_of_lines text text' fields name
      rwa [SameValues, headers, headers, Headers.values_erase_of_ne _ ne.symm,
        Headers.values_erase_of_ne _ ne.symm] at values
    | response head body =>
      obtain ⟨methods, -⟩ := Lines.words_inj r.method.solid head.version.solid
        legal.solid_requestTarget head.status.solid starts
      exact absurd methods.symm (head.version.text_ne_method r.method)
  | response head body =>
    cases n with
    | request s =>
      obtain ⟨methods, -⟩ := Lines.words_inj head.version.solid s.method.solid
        head.status.solid legal'.solid_requestTarget starts
      exact absurd methods (head.version.text_ne_method s.method)
    | response head' body' =>
      obtain ⟨versions, codes, -⟩ := Lines.words_inj head.version.solid head'.version.solid
        head.status.solid head'.status.solid starts
      exact ⟨Version.text_inj versions, Status.code_inj codes,
        sameValues_of_lines text text' others, bodies⟩

/-! ## What dumps do not tell -/

/-- The list is in the order of the names as they are shown. -/
def Sorted (ts : List (HeaderName × Bytes)) : Prop :=
  ts.Pairwise fun t t' => canonicalName t.1.text ≤ canonicalName t'.1.text

/-- Whatever has a value under the name of `t`, it starts with no later name. -/
theorem first_le {ts us : List (HeaderName × Bytes)} {t u : HeaderName × Bytes}
    (sorted : Sorted (u :: us)) (same : ∀ name, under (t :: ts) name = under (u :: us) name) :
    canonicalName u.1.text ≤ canonicalName t.1.text := by
  have inside : t.2 ∈ under (u :: us) t.1 := by
    rw [← same, under_cons, if_pos rfl]
    exact List.mem_cons_self ..
  obtain ⟨v, hv, -⟩ := List.mem_map.mp inside
  obtain ⟨member, named⟩ := List.mem_filter.mp hv
  rw [← of_decide_eq_true named]
  rcases List.mem_cons.mp member with rfl | later
  · exact le_refl _
  · exact (List.pairwise_cons.mp sorted).1 v later

/-- Lists in the order of their names are the same if the same is under every name. -/
theorem eq_of_under {ts us : List (HeaderName × Bytes)} (sorted : Sorted ts)
    (sorted' : Sorted us) (same : ∀ name, under ts name = under us name) : ts = us := by
  induction ts generalizing us with
  | nil =>
    cases us with
    | nil => rfl
    | cons u us =>
      have none := same u.1
      rw [under_cons, if_pos rfl] at none
      cases none
  | cons t ts ih =>
    cases us with
    | nil =>
      have none := same t.1
      rw [under_cons, if_pos rfl] at none
      cases none
    | cons u us =>
      have names : t.1 = u.1 := HeaderName.canonicalName_inj (le_antisymm
        (first_le sorted fun name => (same name).symm) (first_le sorted' same))
      have values := same t.1
      rw [under_cons, under_cons, if_pos rfl, if_pos names.symm] at values
      have first : t = u := Prod.ext names (List.cons.inj values).1
      subst first
      refine congrArg (t :: ·) (ih sorted.of_cons sorted'.of_cons fun name => ?_)
      have all := same name
      rw [under_cons, under_cons] at all
      exact List.append_cancel_left all

theorem sorted_told (h : Headers) : Sorted (h.sortedFields.map told) := by
  rw [Sorted, List.pairwise_map]
  refine h.inOrder_sortedFields.byName.imp fun {f g} le => ?_
  rwa [Utf8.encode_le_encode (Headers.ascii_canonicalName f.1)
    (Headers.ascii_canonicalName g.1)] at le

/-- The lines of the fields are settled by what is under each name. -/
theorem lines_of_sameValues {h k : Headers} (same : ∀ name, SameValues h k name) :
    h.sortedFields.map Lines.fieldLine = k.sortedFields.map Lines.fieldLine := by
  have lines (fs : List (HeaderName × HeaderValue)) : fs.map Lines.fieldLine =
      (fs.map told).map fun t => canonicalName t.1.text ++ ": " ++ Utf8.lossy t.2 := by
    rw [List.map_map]
    rfl
  have values (q : Headers) (name : HeaderName) :
      under (q.sortedFields.map told) name = (q.values name).map (·.bytes) := by
    rw [← q.inOrder_sortedFields.stable name, bytes_of_told]
  rw [lines, lines, eq_of_under (sorted_told h) (sorted_told k) fun name => by
    rw [values, values]
    exact same name]

/-- **A dump tells nothing else.** In which order headers of different names were added, which of
them are not to be shown, a header that names a host, and the scheme do not matter. -/
theorem dump_eq_of_same {m n : Message} (same : m.Same n) : m.dump = n.dump := by
  rw [← String.toList_inj, toList_dump, toList_dump]
  cases m with
  | request r =>
    cases n with
    | request s =>
      obtain ⟨methods, targets, versions, hosts, values, bodies⟩ := same
      have all (name : HeaderName) :
          SameValues (r.headers.erase .host) (s.headers.erase .host) name := by
        by_cases host : name = .host
        · rw [host, SameValues, Headers.values_erase_self, Headers.values_erase_self]
        · rw [SameValues, Headers.values_erase_of_ne _ (Ne.symm host),
            Headers.values_erase_of_ne _ (Ne.symm host)]
          exact values name host
      have fields := lines_of_sameValues all
      simp only [lines, startLine, hostLine?, headers, body, methods, targets, versions, hosts,
        fields, bodies]
    | response head body => exact same.elim
  | response head body =>
    cases n with
    | request s => exact same.elim
    | response head' body' =>
      obtain ⟨versions, statuses, values, bodies⟩ := same
      have fields := lines_of_sameValues values
      simp only [lines, startLine, hostLine?, headers, Message.body, versions, statuses, fields,
        bodies]

/-- What is known of the dump of a message. -/
structure DumpLaw (m : Message) : Prop where
  /-- The text before the first empty line is the lines, with all fields in order; the text behind
  it is the body. -/
  layout : ∃ fields, m.headers.InOrder fields ∧
    Lines.Parted m.dump ("\r\n".intercalate (m.lines fields)) (Utf8.lossy m.body)
  /-- A request has one line for its host, and only if its URI names one. -/
  oneHost : ∀ r fields, m = .request r → m.headers.InOrder fields →
    (m.lines fields).filter startsAsHost = m.hostLine?.toList
  /-- Messages of the same dump are the same in all that dumps tell. -/
  unambiguous : ∀ n : Message, n.IsLegal → m.IsText → n.IsText → m.dump = n.dump → m.Same n
  /-- Messages that are the same in these have the same dump. -/
  settled : ∀ n : Message, m.Same n → m.dump = n.dump

/-- **Dumps are complete, and have one reading.** -/
theorem dumpLaw (m : Message) (legal : m.IsLegal) : m.DumpLaw where
  layout := ⟨m.headers.sortedFields, m.headers.inOrder_sortedFields,
    Lines.parted_of_lines (isLine_lines legal _) m.toList_dump⟩
  oneHost r fields same inOrder := by
    subst same
    exact filter_lines fun f hf => inOrder.every.mem_iff.mp hf
  unambiguous _ legal' text text' dumps := same_of_dump_eq legal legal' text text' dumps
  settled _ same := dump_eq_of_same same

/-- A request with a header behind an empty one, and one that names another host. -/
def twoFields : Request where
  method := .get
  uri := ⟨some "https", some "a", some "/"⟩
  version := .http11
  headers := ⟨[(.userAgent, .json), (.accept, (HeaderValue.ofText? "").getD .json), (.host, .json)]⟩
  body := []

/-- A request with the line of that header in its body. -/
def fieldInBody : Request where
  method := .get
  uri := ⟨some "https", some "a", some "/"⟩
  version := .http11
  headers := ⟨[(.accept, (HeaderValue.ofText? "").getD .json)]⟩
  body := Utf8.encode "User-Agent: application/json\r\n\r\n"

/-- The body is not taken for the field. -/
theorem dumpLaw_imitated : (request twoFields).IsLegal ∧ (request fieldInBody).IsLegal ∧
    (request twoFields).IsText ∧ (request fieldInBody).IsText ∧
    (request twoFields).dump ≠ (request fieldInBody).dump := by
  have legal : (⟨some "https", some "a", some "/"⟩ : Uri).IsLegal :=
    Uri.isLegal_of_parse (rfl : Uri.parse "https://a/" = .ok _)
  have text : (request twoFields).IsText := List.forall_mem_cons.mpr
    ⟨HeaderValue.isText_of_eq "application/json" rfl, List.forall_mem_singleton.mpr
      (HeaderValue.isText_of_eq "" rfl)⟩
  have text' : (request fieldInBody).IsText :=
    List.forall_mem_singleton.mpr (HeaderValue.isText_of_eq "" rfl)
  refine ⟨legal, legal, text, text', fun same => ?_⟩
  obtain ⟨-, -, -, -, -, bodies⟩ :=
    (dumpLaw (request twoFields) legal).unambiguous (request fieldInBody) legal text text' same
  have empty : Utf8.lossy (Utf8.encode "") = "" := Utf8.lossy_encode ""
  rw [fieldInBody, Utf8.lossy_encode] at bodies
  exact absurd (empty.symm.trans bodies) (by decide)

end Message
end Courier
