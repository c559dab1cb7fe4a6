import Courier.Proofs.Dumps
import Courier.Proofs.Numbering

/-!
# The line for the host

A traced request has at most one line for its host, and that is made of its URI alone: it tells the
authority as it is written, with its user information if there is any. A header that names a host is
not told, unless the authority happens to be the same text; all other headers are, though redaction
leaves nothing of credentials but the name (`Message.hostLines_tracedLines`). So it is with whatever
requests a transport shows in its trace (`Transport.hostLinesLaw_of_on`).
-/
namespace Courier

/-! ## Redaction line by line -/

namespace Redaction

open Lines

/-- What redaction leaves of a line. -/
def redactLine (line : String) : String :=
  if opening.isPrefixOf line.toList then String.ofList (opening ++ marker) else line

theorem redactLine_of_not_starts {line : String} (h : ¬ opening <+: line.toList) :
    redactLine line = line := by
  rw [redactLine, if_neg fun opens => h (List.isPrefixOf_iff_prefix.mp opens)]

theorem redactLine_of_starts {line : String} (h : opening <+: line.toList) :
    redactLine line = String.ofList (opening ++ marker) := by
  rw [redactLine, if_pos (List.isPrefixOf_iff_prefix.mpr h)]

theorem redactFrom_line {line : String} (h : IsLine line) :
    redactFrom true (line.toList ++ eol) = (redactLine line).toList ++ eol := by
  by_cases starts : opening <+: line.toList
  · rw [redactLine_of_starts starts, String.toList_ofList]
    obtain ⟨value, whole⟩ := starts
    have plain := h.plain
    rw [← whole] at plain ⊢
    exact redactFrom_credential fun c hc => plain c (List.mem_append_right _ hc)
  · rw [redactLine_of_not_starts starts]
    have noFeed : '\n' ∉ line.toList ++ ['\r'] := by
      rw [List.mem_append, List.mem_singleton]
      rintro (inside | same)
      · exact (h.plain _ inside).2 rfl
      · exact absurd same (by decide)
    have stays : ¬ opening <+: line.toList ++ ['\r'] := by
      rw [List.prefix_concat_iff, not_or]
      refine ⟨fun same => ?_, starts⟩
      have inside : '\r' ∈ opening := same ▸ List.mem_append_right _ (List.mem_singleton.mpr rfl)
      exact absurd inside (by decide)
    have whole : line.toList ++ eol = (line.toList ++ ['\r']) ++ '\n' :: [] := by
      rw [List.append_assoc]
      rfl
    rw [whole, redactFrom_append_feed, redactFrom_plain noFeed stays, redactFrom]

/-- Lines are redacted one by one. -/
theorem redactFrom_ended {lines : List String} (h : ∀ line ∈ lines, IsLine line)
    (rest : List Char) :
    redactFrom true (ended lines ++ rest) =
      ended (lines.map redactLine) ++ redactFrom true rest := by
  induction lines with
  | nil => rfl
  | cons line lines ih =>
    obtain ⟨first, others⟩ := List.forall_mem_cons.mp h
    have once := redactFrom_line first
    have cut (more : List Char) :
        line.toList ++ (eol ++ more) = (line.toList ++ ['\r']) ++ '\n' :: more := by
      rw [List.append_assoc]
      rfl
    have ends : line.toList ++ eol = (line.toList ++ ['\r']) ++ ['\n'] := cut []
    rw [ends] at once
    rw [ended_cons, List.append_assoc, List.append_assoc, cut, redactFrom_append_line, once,
      ih others, List.map_cons, ended_cons]
    simp only [List.append_assoc]

theorem redactFrom_eol (rest : List Char) :
    redactFrom true (eol ++ rest) = eol ++ redactFrom true rest := by
  have alone : redactFrom true (['\r'] ++ ['\n']) = eol := by decide +kernel
  have whole : eol ++ rest = ['\r'] ++ '\n' :: rest := rfl
  rw [whole, redactFrom_append_line, alone]

theorem isLine_redactLine {line : String} (h : IsLine line) : IsLine (redactLine line) := by
  by_cases starts : opening <+: line.toList
  · have plain : ((opening ++ marker).all fun c => decide (c ≠ '\r' ∧ c ≠ '\n')) = true := by
      decide
    rw [redactLine_of_starts starts]
    rw [← String.toList_ofList (l := opening ++ marker)] at plain
    refine ⟨by rw [String.toList_ofList]; decide, fun c hc => ?_⟩
    exact of_decide_eq_true (List.all_eq_true.mp plain c hc)
  · rwa [redactLine_of_not_starts starts]

end Redaction

namespace Lines

/-- The lines of a text up to its first empty line. -/
structure Leads (lines : List String) (text : String) : Prop where
  sound : ∀ line ∈ lines, IsLine line
  whole : ∃ rest, text.toList = ended lines ++ (eol ++ rest)

/-- A text has no other lines there. -/
theorem Leads.unique {lines others : List String} {text : String} (h : Leads lines text)
    (h' : Leads others text) : lines = others := by
  obtain ⟨rest, whole⟩ := h.whole
  obtain ⟨rest', whole'⟩ := h'.whole
  exact (ended_inj h.sound h'.sound (whole.symm.trans whole')).1

theorem Leads.redact {lines : List String} {text : String} (h : Leads lines text) :
    Leads (lines.map Redaction.redactLine) (Redaction.redact text) where
  sound line hline := by
    obtain ⟨original, ho, rfl⟩ := List.mem_map.mp hline
    exact Redaction.isLine_redactLine (h.sound original ho)
  whole := by
    obtain ⟨rest, whole⟩ := h.whole
    refine ⟨Redaction.redactFrom true rest, ?_⟩
    rw [Redaction.redact, String.toList_ofList, whole, Redaction.redactFrom_ended h.sound,
      Redaction.redactFrom_eol]

end Lines

/-! ## Authorities that are read -/

namespace Uri

theorem AuthorityScan.afterAt_step {s t : AuthorityScan} {c : Char} (ok : s.step c = .ok t) :
    t.afterAt = (c == '@') := by
  rw [step] at ok
  grind

theorem AuthorityScan.afterAt_foldlM {init : List Char} {c : Char} {s t : AuthorityScan}
    (ok : (init ++ [c]).foldlM AuthorityScan.step s = .ok t) : t.afterAt = (c == '@') := by
  rw [List.foldlM_append] at ok
  obtain ⟨u, -, ok⟩ := exists_of_bind_eq_ok ok
  obtain ⟨_, once, ends⟩ := exists_of_bind_eq_ok ok
  cases ends
  exact afterAt_step once

/-- An authority does not end with user information. -/
theorem getLast?_of_splitAuthority {cs front rest : List Char}
    (ok : splitAuthority cs = .ok (front, rest)) : front.getLast? ≠ some '@' := by
  rw [splitAuthority] at ok
  split at ok
  · cases ok
  simp only at ok
  split at ok
  · cases ok
  next s scanned =>
    split at ok
    next complete =>
      cases ok
      intro last
      obtain ⟨init, split⟩ := List.getLast?_eq_some_iff.mp last
      rw [split] at scanned
      rw [AuthorityScan.complete, AuthorityScan.afterAt_foldlM scanned] at complete
      simp at complete
    · cases ok

/-- Where nothing is left behind it, an authority is the whole of a text that is not empty. -/
theorem ne_nil_of_splitAuthority {cs front : List Char} (ok : splitAuthority cs = .ok (front, [])) :
    front ≠ [] := by
  obtain ⟨rfl, ends⟩ := splitAuthority_eq_ok ok
  have whole := List.takeWhile_append_dropWhile (p := fun c => !endsAuthority c) (l := cs)
  rw [← ends, List.append_nil] at whole
  rw [whole]
  rintro rfl
  cases ok

theorem authority_of_parseFull {cs : List Char} {u : Uri} (ok : parseFull cs = .ok u) {a : String}
    (named : u.authority = some a) : a.toList ≠ [] ∧ a.toList.getLast? ≠ some '@' := by
  obtain ⟨⟨scheme, rest⟩, -, ok⟩ := exists_of_bind_eq_ok ok
  obtain ⟨⟨front, back⟩, read, ok⟩ := exists_of_bind_eq_ok ok
  have last := getLast?_of_splitAuthority read
  cases scheme with
  | none =>
    simp only at ok
    split at ok
    next ends =>
      cases ok
      cases named
      rw [List.isEmpty_iff.mp ends] at read
      rw [String.toList_ofList]
      exact ⟨ne_nil_of_splitAuthority read, last⟩
    · cases ok
  | some scheme =>
    simp only at ok
    split at ok
    · cases ok
    next some =>
      obtain ⟨target, -, ok⟩ := exists_of_bind_eq_ok ok
      cases ok
      cases named
      rw [String.toList_ofList]
      exact ⟨by simpa using some, last⟩

/-- An authority that is read is not empty, and does not end with user information. -/
theorem authority_of_parse {text : String} {u : Uri} (ok : parse text = .ok u) {a : String}
    (named : u.authority = some a) : a.toList ≠ [] ∧ a.toList.getLast? ≠ some '@' := by
  rw [parse] at ok
  split at ok
  · cases ok
  split at ok
  · cases ok
  · cases ok
    cases named
  · cases ok
    cases named
  · obtain ⟨_, -, rfl⟩ := exists_of_map_eq_ok ok
    cases named
  · split at ok
    · split at ok
      · cases ok
      next front rest read =>
        split at ok
        next ends =>
          cases ok
          cases named
          rw [List.isEmpty_iff.mp ends] at read
          rw [String.toList_ofList]
          exact ⟨ne_nil_of_splitAuthority read, getLast?_of_splitAuthority read⟩
        · cases ok
    · exact authority_of_parseFull ok named

/-- An authority is a server, with user information before it or without. -/
structure Serves (authority user server : String) : Prop where
  whole : authority = user ++ server
  user : user = "" ∨ user.toList.getLast? = some '@'
  server : '@' ∉ server.toList ∧ server ≠ ""

theorem exists_serves {a : String} (filled : a.toList ≠ [])
    (last : a.toList.getLast? ≠ some '@') : ∃ user server, Serves a user server := by
  by_cases marked : '@' ∈ a.toList
  · obtain ⟨front, server, split, none⟩ := exists_last_mark marked
    refine ⟨String.ofList (front ++ ['@']), String.ofList server, ?_, .inr ?_, ?_, ?_⟩
    · rw [← String.toList_inj, split]
      simp
    · simp
    · rwa [String.toList_ofList]
    · intro empty
      rw [← String.toList_inj, String.toList_ofList] at empty
      rw [split, empty] at last
      exact last (by simp)
  · exact ⟨"", a, String.empty_append.symm, .inl rfl, marked,
      fun empty => filled (String.toList_eq_nil_iff.mpr empty)⟩

end Uri

namespace Message

/-- Redaction makes no line that of a host, nor of something else. -/
theorem startsAsHost_redactLine (line : String) :
    startsAsHost (Redaction.redactLine line) = startsAsHost line := by
  by_cases starts : Redaction.opening <+: line.toList
  · rw [Redaction.redactLine_of_starts starts]
    obtain ⟨value, whole⟩ := starts
    rw [startsAsHost, startsAsHost, String.toList_ofList, ← whole]
    rfl
  · rw [Redaction.redactLine_of_not_starts starts]

/-- The lines of a request as they are traced. -/
def tracedLines (redact : Bool) (q : Request) : List String :=
  let lines := (request q).lines (request q).headers.sortedFields
  if redact then lines.map Redaction.redactLine else lines

theorem leads_tracedLines {q : Request} (legal : q.uri.IsLegal) (redact : Bool) :
    Lines.Leads (tracedLines redact q) (if redact then Redaction.redact q.dump else q.dump) := by
  have leads : Lines.Leads ((request q).lines (request q).headers.sortedFields) q.dump :=
    ⟨isLine_lines (m := request q) legal _, _, (request q).toList_dump⟩
  cases redact with
  | false => exact leads
  | true => exact leads.redact

theorem filter_tracedLines (redact : Bool) (q : Request) :
    (tracedLines redact q).filter startsAsHost =
      (q.uri.authority.map ("Host: " ++ ·)).toList := by
  have found : ((request q).lines (request q).headers.sortedFields).filter startsAsHost =
      (q.uri.authority.map ("Host: " ++ ·)).toList :=
    filter_lines fun f hf => (q.headers.erase .host).inOrder_sortedFields.every.mem_iff.mp hf
  cases redact with
  | false => exact found
  | true =>
    have alike : startsAsHost ∘ Redaction.redactLine = startsAsHost :=
      funext startsAsHost_redactLine
    rw [tracedLines, if_pos rfl, List.filter_map, alike, found]
    cases q.uri.authority with
    | none => rfl
    | some a =>
      have other : ¬ Redaction.opening <+: ("Host: " ++ a).toList := by
        rw [String.toList_append, ← List.isPrefixOf_iff_prefix]
        exact Bool.false_ne_true
      exact congrArg (fun line => [line]) (Redaction.redactLine_of_not_starts other)

/-- What the lines of a traced request tell of its host and its headers. -/
structure HostLines (redact : Bool) (q : Request) (lines : List String) : Prop where
  /-- One line starts as that of a host if the URI has an authority, which it tells as it is
  written, and none otherwise. -/
  one : lines.filter startsAsHost = (q.uri.authority.map ("Host: " ++ ·)).toList
  /-- The value of a header is told only if the authority is the same text. -/
  value : ∀ v ∈ q.headers.values .host,
    ("Host: " ++ v.shown ∈ lines ↔ q.uri.authority = some v.shown)
  /-- The server is told alone only if there is no user information. -/
  user : ∀ a, q.uri.authority = some a → ∃ user server, Uri.Serves a user server ∧
    ("Host: " ++ server ∈ lines ↔ user = "")
  /-- All other headers are told, but for credentials that are to be hidden. -/
  others : ∀ f ∈ q.headers.fields, f.1 ≠ .host → (redact = true → f.1 ≠ .authorization) →
    Lines.fieldLine f ∈ lines
  credentials : redact = true → ∀ f ∈ q.headers.fields, f.1 = .authorization →
    "Authorization: [REDACTED]" ∈ lines

/-- Only credentials have lines that are redacted. -/
theorem opening_fieldLine_iff {f : HeaderName × HeaderValue} :
    Redaction.opening <+: (Lines.fieldLine f).toList ↔ f.1 = .authorization := by
  have label : Redaction.opening =
      (canonicalName HeaderName.authorization.text).toList ++ [':', ' '] := by decide
  constructor
  · rintro ⟨value, whole⟩
    rw [label, List.append_assoc] at whole
    exact Lines.name_of_fieldLine whole.symm
  · intro credential
    rw [Lines.toList_fieldLine, credential, label]
    exact ⟨f.2.shown.toList, by simp⟩

theorem redactLine_fieldLine {f : HeaderName × HeaderValue} (other : f.1 ≠ .authorization) :
    Redaction.redactLine (Lines.fieldLine f) = Lines.fieldLine f :=
  Redaction.redactLine_of_not_starts fun opens => other (opening_fieldLine_iff.mp opens)

theorem redactLine_credential {f : HeaderName × HeaderValue} (credential : f.1 = .authorization) :
    Redaction.redactLine (Lines.fieldLine f) = "Authorization: [REDACTED]" := by
  rw [Redaction.redactLine_of_starts (opening_fieldLine_iff.mpr credential)]
  decide

theorem fieldLine_mem_lines {q : Request} {f : HeaderName × HeaderValue} (h : f ∈ q.headers.fields)
    (other : f.1 ≠ .host) :
    Lines.fieldLine f ∈ (request q).lines (request q).headers.sortedFields := by
  have kept : f ∈ (q.headers.erase .host).fields :=
    List.mem_filter.mpr ⟨h, decide_eq_true other⟩
  have shown := (q.headers.erase .host).inOrder_sortedFields.every.mem_iff.mpr kept
  exact List.mem_cons_of_mem _ (List.mem_append_right _ (List.mem_map_of_mem shown))

theorem hostLines_tracedLines {q : Request} {source : String} (read : Uri.parse source = .ok q.uri)
    (redact : Bool) : HostLines redact q (tracedLines redact q) := by
  have one := filter_tracedLines redact q
  have named (x : String) :
      "Host: " ++ x ∈ tracedLines redact q ↔ q.uri.authority = some x := by
    have among : "Host: " ++ x ∈ tracedLines redact q ↔
        "Host: " ++ x ∈ (tracedLines redact q).filter startsAsHost := by
      rw [List.mem_filter, and_iff_left (startsAsHost_host x)]
    rw [among, one, Option.mem_toList, Option.map_eq_some_iff]
    constructor
    · rintro ⟨a, found, same⟩
      rw [found, (String.append_right_inj "Host: ").mp same]
    · exact fun found => ⟨x, found, rfl⟩
  refine ⟨one, fun v _ => named v.shown, ?_, ?_, ?_⟩
  · intro a found
    obtain ⟨filled, last⟩ := Uri.authority_of_parse read found
    obtain ⟨user, server, serves⟩ := Uri.exists_serves filled last
    refine ⟨user, server, serves, ?_⟩
    rw [named, found, Option.some.injEq, serves.whole, ← String.toList_inj, String.toList_append,
      List.append_left_eq_self, String.toList_eq_nil_iff]
  · intro f hf notHost visible
    have told := fieldLine_mem_lines hf notHost
    cases redact with
    | false => exact told
    | true => exact List.mem_map.mpr ⟨_, told, redactLine_fieldLine (visible rfl)⟩
  · rintro rfl f hf credential
    have notHost : f.1 ≠ .host := credential ▸ (by decide)
    exact List.mem_map.mpr ⟨_, fieldLine_mem_lines hf notHost, redactLine_credential credential⟩

end Message

/-! ## Requests that are traced -/

namespace Chain

variable {c : Chain} {r : Request} {redact closed : Bool} {steps : List Step}

/-- Among the records of one attempt only the first shows a request. -/
theorem request_of_mem {q : Request} {number other : Nat} {text : String} {rs : List Record}
    (about : ∀ record ∈ rs, record.opens? = none ∧ record.follows? = some other)
    (shown : .block .request number text ∈ Record.ofRequest redact other q :: rs) :
    text = if redact then Redaction.redact q.dump else q.dump := by
  rcases List.mem_cons.mp shown with first | later
  · exact (Record.block.inj first).2.2
  · cases (about _ later).1

/-- What is shown of requests is made of requests that were signed. -/
theorem Tells.exists_request (on : c.tracing = .on redact) (h : c.Tells r closed steps)
    {number : Nat} {text : String} (shown : .block .request number text ∈ records steps) :
    ∃ q, c.signed r = .ok q ∧ text = if redact then Redaction.redact q.dump else q.dump := by
  induction h with
  | nothing => cases shown
  | @silent step rest quiet more ih =>
    rw [records_cons, List.mem_append] at shown
    rcases shown with here | later
    · have wrote := Option.mem_toList.mp here
      simp [Step.isSilent, wrote, Record.number?, Record.opens?] at quiet
    · exact ih later
  | @whole q hs other answer rest more ih =>
    rw [records_append, List.mem_append] at shown
    rcases shown with here | later
    · rw [records_attemptSteps on] at here
      exact ⟨q, hs, request_of_mem (about_outcomeRecords other _) here⟩
    · exact ih later
  | @beginning q hs other answer steps part unfinished =>
    obtain rfl | rfl | ⟨rest, rfl, -, -, about⟩ := cases_of_beginning on part
    · cases shown
    · cases shown
    · exact ⟨q, hs, request_of_mem about shown⟩

/-- The text shows the request `q` that was made of `r`, and its lines tell of the host what they
tell. -/
structure ShowsHost (c : Chain) (redact : Bool) (r q : Request) (text : String) : Prop where
  signed : c.signed (c.stamped r) = .ok q
  uri : q.uri = r.uri
  leads : ∃ lines, Lines.Leads lines text
  host : ∀ lines, Lines.Leads lines text → Message.HostLines redact q lines

theorem exists_showsHost (on : c.tracing = .on redact) {d : Call Outcome}
    (h : (c.call r).Path steps d) {source : String} (read : Uri.parse source = .ok r.uri)
    {number : Nat} {text : String} (shown : .block .request number text ∈ records steps) :
    ∃ q, c.ShowsHost redact r q text := by
  obtain ⟨q, hq, rfl⟩ := (tells_of_path h).exists_request on shown
  obtain ⟨headers, -, made⟩ := exists_of_map_eq_ok hq
  have same : q.uri = r.uri := by
    rw [made]
    rfl
  rw [← same] at read
  have leads := Message.leads_tracedLines (Uri.isLegal_of_parse read) redact
  refine ⟨q, hq, same, ⟨_, leads⟩, fun lines others => ?_⟩
  rw [others.unique leads]
  exact Message.hostLines_tracedLines read redact

end Chain

namespace Transport

variable {σ : Type}

/-- What the requests that a transport shows in its trace tell of their hosts. -/
structure HostLinesLaw (t : Transport σ) (redact : Bool) : Prop where
  /-- Of a request that is sent alone. -/
  sent : ∀ r source number text, Uri.parse source = .ok r.uri →
    .block .request number text ∈ records (t.steps (t.chain.call r)) →
    ∃ q, t.chain.ShowsHost redact r q text
  /-- Of requests that take turns. -/
  followed : ∀ (rs : List Request) (schedule : List Nat) (i : Nat) (r : Request) (source : String)
    (number : Nat) (text : String), rs[i]? = some r → Uri.parse source = .ok r.uri →
    .block .request number text ∈ records (stepsOf i (t.log (t.callsOf rs) schedule)) →
    ∃ q, t.chain.ShowsHost redact r q text

/-- **Hosts in the trace.** Each request that a traced transport shows has exactly one line for its
host if its URI has an authority, and none otherwise. The line is the authority as it is written, so
that it tells the server alone only if there is no user information, and a header that names a host
only if that is the same text. Every other header has its line, with its value unless that is a
credential and hidden. -/
theorem hostLinesLaw_of_on (t : Transport σ) {redact : Bool} (on : t.chain.tracing = .on redact) :
    HostLinesLaw t redact := by
  constructor
  · intro r source number text read shown
    exact Chain.exists_showsHost on (t.ends_run (t.chain.call r)) read shown
  · intro rs schedule i r source number text hr read shown
    obtain ⟨left, -, path, -⟩ := follow_path (t := t) schedule (getElem?_callsOf hr)
    exact Chain.exists_showsHost on path read shown

/-- The first record of a request on a transport that keeps its trace. -/
theorem mem_records_patient (r : Request) :
    .ofRequest true 1 (patient.chain.stamped r) ∈ records (patient.steps (patient.chain.call r)) :=
  List.mem_cons_self ..

/-- The host of a URI without user information is told. -/
theorem hostLines_home : ∃ number text lines,
    .block .request number text ∈ records (patient.steps (patient.chain.call homeRequest)) ∧
      Lines.Leads lines text ∧
      lines.filter Message.startsAsHost = ["Host: cloud.example.com"] := by
  have law := hostLinesLaw_of_on patient rfl
  have shown := mem_records_patient homeRequest
  have read : Uri.parse "https://cloud.example.com/" = .ok homeRequest.uri := by rfl
  obtain ⟨q, shows⟩ := law.sent homeRequest _ 1 _ read shown
  obtain ⟨lines, leads⟩ := shows.leads
  refine ⟨1, _, lines, shown, leads, ?_⟩
  rw [(shows.host lines leads).one, shows.uri]
  rfl

/-- A request with user information in its URI. -/
def secretive : Request :=
  ⟨.get, ⟨some "https", some "user:secret@cloud.example.com", some "/"⟩, .http11, {}, []⟩

/-- A request whose URI is only a path, and which names its host in a header. -/
def pathOnly : Request :=
  ⟨.get, ⟨none, none, some "/status"⟩, .http11,
    ⟨[(.host, (HeaderValue.ofText? "cloud.example.com").getD .json)]⟩, []⟩

/-- The host of a request is not always told as it goes over the wire: user information gets into
the trace with its password, and a header that names the host does not get there. -/
theorem records_secretive :
    (∃ number text,
      .block .request number text ∈ records (patient.steps (patient.chain.call secretive)) ∧
      "user:secret@".toList <:+: text.toList) ∧
    pathOnly.headers.values .host ≠ [] ∧
    ∃ number text,
      .block .request number text ∈ records (patient.steps (patient.chain.call pathOnly)) ∧
      ¬ "Host".toList <:+: text.toList := by
  refine ⟨⟨1, _, mem_records_patient secretive, ?_⟩, by decide +kernel,
    1, _, mem_records_patient pathOnly, ?_⟩
  · decide +kernel
  · decide +kernel

end Transport
end Courier
