import Courier.Proofs.Encoding
import Courier.Proofs.Statuses

/-!
# Bodies under a limit

Reading a body stops at its end, at the first frame that fails, or behind the first frame that takes
the data above the limit, whichever comes first. In the last case the body is put together again
from what was read and what was not, and nothing tells it from the body that arrived but how the
data before the limit was cut into frames (`bufferLaw`). What a reader that looks at the status
makes of a body follows from the data alone (`checkedLaw_of_intact`).
-/
namespace Courier

/-! ## Where reading stops -/

namespace Body

/-- The data up to and including the first frame that takes it above the limit is `head`, no frame
fails before that one, and `rest` follows it. -/
def Overflows (limit : Nat) (body : Body) (head : Bytes) (rest : Body) : Prop :=
  ∃ before last, body = before ++ .data last :: rest ∧ Intact before ∧ head = data before ++ last ∧
    (data before).length ≤ limit ∧ limit < head.length

variable {limit : Nat} {body before rest tail : Body} {collected head : Bytes}

theorem data_append (intact : Intact before) :
    data (before ++ tail) = data before ++ data tail := by
  induction before with
  | nil => rfl
  | cons frame before ih =>
    obtain ⟨sound, later⟩ := intact_cons.1 intact
    cases frame with
    | data more => rw [List.cons_append, data, data, ih later, List.append_assoc]
    | trailers fields => exact ih later
    | failed cause => exact absurd rfl (sound cause)

theorem observed_append (intact : Intact before) :
    observed (before ++ tail) = before ++ observed tail := by
  induction before with
  | nil => rfl
  | cons frame before ih =>
    obtain ⟨sound, later⟩ := intact_cons.1 intact
    cases frame with
    | failed cause => exact absurd rfl (sound cause)
    | _ => simp only [List.cons_append, observed, ih later]

/-- Frames within the limit are collected. -/
theorem bufferFrom_append (intact : Intact before)
    (within : (collected ++ data before).length ≤ limit) :
    bufferFrom limit collected (before ++ tail) =
      bufferFrom limit (collected ++ data before) tail := by
  induction before generalizing collected with
  | nil => rw [List.nil_append, data, List.append_nil]
  | cons frame before ih =>
    obtain ⟨sound, later⟩ := intact_cons.1 intact
    cases frame with
    | data more =>
      rw [data, ← List.append_assoc] at within ⊢
      have fits : ¬ limit < (collected ++ more).length := by
        rw [List.length_append] at within
        omega
      rw [List.cons_append, bufferFrom, if_neg fits, ih later within]
    | trailers fields => exact ih later within
    | failed cause => exact absurd rfl (sound cause)

/-- Reading on stops behind the frame that takes the data above the limit. -/
theorem exists_of_overflow (room : collected.length ≤ limit)
    (h : bufferFrom limit collected body = .ok (.overflow head rest)) :
    ∃ before last, body = before ++ .data last :: rest ∧ Intact before ∧
      head = collected ++ data before ++ last ∧ (collected ++ data before).length ≤ limit ∧
      limit < head.length := by
  induction body generalizing collected with
  | nil => cases h
  | cons frame body ih =>
    cases frame with
    | data more =>
      rw [bufferFrom] at h
      split at h
      next beyond =>
        cases h
        exact ⟨[], more, rfl, intact_nil, by simp [data], by simpa [data] using room, beyond⟩
      next fits =>
        obtain ⟨before, last, rfl, intact, rfl, within, beyond⟩ := ih (Nat.not_lt.1 fits) h
        refine ⟨.data more :: before, last, rfl, ?_, ?_, ?_, beyond⟩
        · exact intact_cons.2 ⟨(fun _ same => by cases same), intact⟩
        · simp only [data, List.append_assoc]
        · simpa only [data, List.append_assoc] using within
    | trailers fields =>
      obtain ⟨before, last, rfl, intact, same, within, beyond⟩ := ih room h
      refine ⟨.trailers fields :: before, last, rfl, ?_, same, within, beyond⟩
      exact intact_cons.2 ⟨(fun _ same => by cases same), intact⟩
    | failed cause => cases h

theorem buffer_eq_complete_iff {bytes : Bytes} :
    buffer limit body = .ok (.complete bytes) ↔ body.Carries limit bytes := by
  rw [← readLimited_eq_ok_iff, readLimited]
  split
  next e failed => simp [failed]
  next all complete => simp [complete]
  next beyond unread overflow => simp [overflow]

theorem buffer_eq_overflow_iff :
    buffer limit body = .ok (.overflow head rest) ↔ body.Overflows limit head rest := by
  constructor
  · intro h
    obtain ⟨before, last, whole, intact, parts, within, beyond⟩ :=
      exists_of_overflow (Nat.zero_le limit) h
    exact ⟨before, last, whole, intact, by simpa using parts, by simpa using within, beyond⟩
  · rintro ⟨before, last, rfl, intact, rfl, within, beyond⟩
    rw [buffer, bufferFrom_append intact (by simpa using within), List.nil_append, bufferFrom,
      if_pos beyond]

/-! ## Bodies that are put together again -/

/-- Under a larger limit as well, a body that was put together again is read like the one that
arrived. -/
theorem buffer_resume_of_le (overflows : body.Overflows limit head rest) {larger : Nat}
    (le : limit ≤ larger) : buffer larger (resume head rest) = buffer larger body := by
  obtain ⟨before, last, rfl, intact, rfl, within, -⟩ := overflows
  have first : ([] ++ data before).length ≤ larger := by
    rw [List.nil_append]
    omega
  rw [buffer, buffer, bufferFrom_append intact first, resume, bufferFrom, bufferFrom,
    List.nil_append, List.nil_append]

/-- What is left of a body that overflowed is all of it. -/
structure Replayed (limit : Nat) (body : Body) (head : Bytes) (rest : Body) : Prop where
  /-- There is enough of it to be cut at the limit, and the cut is the beginning of the data. -/
  cut : (head.take limit).length = limit ∧ head.take limit = body.data.take limit
  /-- What was read comes first, and then the frames that were not. -/
  frames : resume head rest = .data head :: rest
  data : (resume head rest).data = body.data
  /-- Behind the frame that went beyond the limit a reader sees the same trailers and failures. -/
  observed : ∃ before last, Intact before ∧ head = before.data ++ last ∧
    body.observed = before ++ .data last :: rest.observed ∧
    (resume head rest).observed = .data head :: rest.observed
  again : buffer limit (resume head rest) = .ok (.overflow head rest)
  larger : ∀ larger, limit ≤ larger → buffer larger (resume head rest) = buffer larger body

theorem replayed_of_overflows (overflows : body.Overflows limit head rest) :
    Replayed limit body head rest := by
  have larger : ∀ larger, limit ≤ larger → buffer larger (resume head rest) = buffer larger body :=
    fun _ le => buffer_resume_of_le overflows le
  have again : buffer limit (resume head rest) = .ok (.overflow head rest) := by
    rw [larger limit (Nat.le_refl limit), buffer_eq_overflow_iff]
    exact overflows
  obtain ⟨before, last, whole, intact, parts, -, beyond⟩ := overflows
  have same : (resume head rest).data = body.data := by
    rw [whole, data_append intact, resume, Body.data, Body.data, parts, List.append_assoc]
  refine ⟨⟨?_, ?_⟩, rfl, same, ⟨before, last, intact, parts, ?_, rfl⟩, again, larger⟩
  · rw [List.length_take, Nat.min_eq_left (Nat.le_of_lt beyond)]
  · rw [← same, resume, Body.data, List.take_append_of_le_length (Nat.le_of_lt beyond)]
  · rw [whole, observed_append intact]
    rfl

/-- What comes of reading a body up to a limit. -/
structure BufferLaw (limit : Nat) (body : Body) : Prop where
  /-- All data is there exactly if no frame fails and the data is within the limit. -/
  complete : ∀ bytes, buffer limit body = .ok (.complete bytes) ↔ body.Carries limit bytes
  /-- Reading fails exactly where a frame fails before the data is above the limit. -/
  failed : ∀ e, buffer limit body = .error e ↔
    ∃ cause, body.FailsWithin limit cause ∧ e = .transport cause
  overflowed : ∀ head rest,
    buffer limit body = .ok (.overflow head rest) ↔ body.Overflows limit head rest
  replayed : ∀ head rest, body.Overflows limit head rest → Replayed limit body head rest

/-- **Buffering loses nothing.** Every body is read to its end, up to a frame that fails, or up to
and including the first frame that takes the data above the limit, and each of these exactly when
it comes first. In the last case what was read and what was not make up a body with the same data,
the same trailers and failures behind the limit, and the same outcome of being read again. -/
theorem bufferLaw (limit : Nat) (body : Body) : BufferLaw limit body :=
  ⟨fun _ => buffer_eq_complete_iff, fun _ => buffer_eq_error_iff,
    fun _ _ => buffer_eq_overflow_iff, fun _ _ => replayed_of_overflows⟩

/-- A body without failing frames is read whole, or it is told that it is too large. -/
theorem readLimited_of_intact (limit : Nat) (intact : body.Intact) :
    (body.data.length ≤ limit → readLimited limit body = .ok body.data) ∧
      (limit < body.data.length → ∃ actual,
        readLimited limit body = .error (.bodyTooLarge limit actual) ∧
          limit < actual ∧ actual ≤ body.data.length) := by
  constructor
  · intro fits
    exact readLimited_eq_ok_iff.2 ⟨intact, rfl, fits⟩
  · intro more
    rw [readLimited]
    split
    next e failed =>
      obtain ⟨cause, ⟨before, after, whole, -⟩, -⟩ := buffer_eq_error_iff.1 failed
      exact absurd (by simp [whole]) (intact cause)
    next bytes complete =>
      have carries := buffer_eq_complete_iff.1 complete
      have within := carries.within
      rw [← carries.data] at within
      omega
    next head rest overflow =>
      obtain ⟨whole, beyond⟩ := data_of_overflow overflow
      refine ⟨head.length, rfl, beyond, ?_⟩
      rw [← List.nil_append body.data, ← whole, List.length_append]
      exact Nat.le_add_right ..

end Body

/-! ## What a checked status makes of a body -/

/-- Octets that are shown as they are: visible ASCII, the space and the tab. -/
def IsVisible (b : UInt8) : Prop := 0x20 ≤ b ∧ b ≤ 0x7E ∨ b = 0x09

/-- What is shown as the content type of a head with these fields. -/
inductive Headers.ShowsType (h : Headers) : Option String → Prop where
  | absent (missing : h.values .contentType = []) : ShowsType h none
  /-- The first value has an octet that cannot be shown. -/
  | hidden {v : HeaderValue} {others : List HeaderValue}
      (first : h.values .contentType = v :: others) {b : UInt8} (among : b ∈ v.bytes)
      (unseen : ¬ IsVisible b) : ShowsType h none
  | shown {v : HeaderValue} {others : List HeaderValue}
      (first : h.values .contentType = v :: others) (seen : ∀ b ∈ v.bytes, IsVisible b)
      {text : String} (same : Utf8.encode text = v.bytes) : ShowsType h (some text)

/-- What reading all data of a body comes to, under a head and a limit, if the status is looked
at. -/
inductive Reply.Classified (head : ResponseHead) (limit : Nat) (bytes : Bytes) :
    Except Failure Bytes → Prop where
  | read (success : 200 ≤ head.status.code ∧ head.status.code ≤ 299)
      (fits : bytes.length ≤ limit) : Classified head limit bytes (.ok bytes)
  | tooLarge (success : 200 ≤ head.status.code ∧ head.status.code ≤ 299) {actual : Nat}
      (beyond : limit < actual) (among : actual ≤ bytes.length) :
      Classified head limit bytes (.error (.bodyTooLarge limit actual))
  /-- A failed status with a body that is too large shows nothing of it. -/
  | unshown (failed : ¬ (200 ≤ head.status.code ∧ head.status.code ≤ 299))
      (more : limit < bytes.length) {type : Option String} (shows : head.headers.ShowsType type) :
      Classified head limit bytes
        (.error (.httpStatus head.status "<body too large for preview>" type))
  | told (failed : ¬ (200 ≤ head.status.code ∧ head.status.code ≤ 299))
      (fits : bytes.length ≤ limit) {envelope : Envelope}
      (carries : Envelope.parse? bytes = some envelope) :
      Classified head limit bytes (.error (.api head.status envelope))
  /-- What is no envelope is shown up to 8192 octets. -/
  | other (failed : ¬ (200 ≤ head.status.code ∧ head.status.code ≤ 299))
      (fits : bytes.length ≤ limit) (foreign : Envelope.parse? bytes = none) {type : Option String}
      (shows : head.headers.ShowsType type) :
      Classified head limit bytes (.error (.httpStatus head.status
        (Utf8.lossy (bytes.take (min bytes.length 8192))) type))

/-- A failure without the number of octets that had arrived when they were too many. -/
def Failure.sizeless : Failure → Failure
  | .bodyTooLarge limit _ => .bodyTooLarge limit 0
  | f => f

theorem HeaderValue.isVisible_iff (b : UInt8) :
    ((0x20 ≤ b && b ≤ 0x7E) || b == 0x09) = true ↔ IsVisible b := by
  simp [IsVisible]

/-- A visible octet is a character of its own. -/
theorem IsVisible.alone {b : UInt8} (visible : IsVisible b) :
    String.utf8EncodeChar (Char.ofNat b.toNat) = [b] := by
  have each : ∀ b : UInt8, ((0x20 ≤ b && b ≤ 0x7E) || b == 0x09) = true →
      String.utf8EncodeChar (Char.ofNat b.toNat) = [b] := by
    apply Percent.forall_octet
    decide +kernel
  exact each b ((HeaderValue.isVisible_iff b).2 visible)

theorem Headers.showsType (h : Headers) :
    h.ShowsType ((h.get? .contentType).bind HeaderValue.toText?) := by
  rw [Headers.get?]
  cases first : h.values .contentType with
  | nil => exact .absent first
  | cons v others =>
    simp only [List.head?_cons, Option.bind_some, HeaderValue.toText?]
    split
    next visible =>
      have seen : ∀ b ∈ v.bytes, IsVisible b := fun b among =>
        (HeaderValue.isVisible_iff b).1 (List.all_eq_true.1 visible b among)
      refine .shown first seen ?_
      rw [Utf8.encode, String.toList_ofList, List.flatMap_map,
        List.flatMap_congr fun b among => (seen b among).alone, List.flatMap_singleton']
    next unseen =>
      simp only [List.all_eq_true, HeaderValue.isVisible_iff, not_forall] at unseen
      obtain ⟨b, among, unseen⟩ := unseen
      exact .hidden first among unseen

namespace Reply

variable {r s : Reply}

theorem isSuccess_iff (status : Status) :
    status.isSuccess = true ↔ 200 ≤ status.code ∧ status.code ≤ 299 := by
  simp [Status.isSuccess]

theorem classified_of_intact (intact : r.response.body.Intact) :
    Classified r.response.toResponseHead r.maxBodySize r.response.body.data r.checkedBytes := by
  obtain ⟨whole, cut⟩ := Body.readLimited_of_intact r.maxBodySize intact
  have shows : r.response.headers.ShowsType r.contentType? := Headers.showsType _
  rw [checkedBytes, bytes]
  split
  next success =>
    rw [isSuccess_iff] at success
    rcases Nat.lt_or_ge r.maxBodySize r.response.body.data.length with more | fits
    · obtain ⟨actual, same, beyond, among⟩ := cut more
      rw [same]
      exact .tooLarge success beyond among
    · rw [whole fits]
      exact .read success fits
  next failed =>
    rw [isSuccess_iff] at failed
    rcases Nat.lt_or_ge r.maxBodySize r.response.body.data.length with more | fits
    · obtain ⟨actual, same, -⟩ := cut more
      rw [same]
      exact .unshown failed more shows
    · rw [whole fits]
      simp only [rejection]
      split
      next envelope carries => exact .told failed fits carries
      next foreign =>
        rw [previewLimit, List.take_eq_take_min, Nat.min_comm]
        exact .other failed fits foreign shows

/-- The reply with another body. -/
def withBody (r : Reply) (body : Body) : Reply :=
  { r with response := { r.response with body := body } }

/-- How the data is cut into frames, and what else is between them, shows in nothing but the number
of octets that had arrived when they were too many. -/
theorem sizeless_checkedBytes {body : Body} (intact : r.response.body.Intact)
    (other : body.Intact) (same : body.data = r.response.body.data) :
    (r.withBody body).checkedBytes.mapError Failure.sizeless =
      r.checkedBytes.mapError Failure.sizeless := by
  obtain ⟨whole, cut⟩ := Body.readLimited_of_intact r.maxBodySize intact
  obtain ⟨whole', cut'⟩ := Body.readLimited_of_intact r.maxBodySize other
  rw [same] at whole' cut'
  have status : (r.withBody body).response.status = r.response.status := rfl
  rw [checkedBytes, checkedBytes, status]
  rcases Nat.lt_or_ge r.maxBodySize r.response.body.data.length with more | fits
  · obtain ⟨_, arrived, -⟩ := cut more
    obtain ⟨_, arrived', -⟩ := cut' more
    have left : r.bytes = _ := arrived
    have right : (r.withBody body).bytes = _ := arrived'
    rw [left, right]
    split <;> rfl
  · have left : r.bytes = _ := whole fits
    have right : (r.withBody body).bytes = _ := whole' fits
    rw [left, right]
    rfl

/-- What comes of reading a reply with its status checked. -/
structure CheckedLaw (r : Reply) : Prop where
  classified : Classified r.response.toResponseHead r.maxBodySize r.response.body.data
    r.checkedBytes
  rechunked : ∀ body : Body, body.Intact → body.data = r.response.body.data →
    (r.withBody body).checkedBytes.mapError Failure.sizeless =
      r.checkedBytes.mapError Failure.sizeless

/-- **Checked reading.** What comes of reading a reply whose body does not fail is decided by its
status, its content type, its limit and its data: the data within the limit, or that it is too
much, if the status is a success; otherwise the status with the envelope that the data is, with the
beginning of the data, or with neither if it is too much. Whoever cuts the same data into frames in
another way, empty ones and trailers among them, gets the same, except that another number of octets
may have arrived when they were too many. -/
theorem checkedLaw_of_intact (r : Reply) (intact : r.response.body.Intact) : CheckedLaw r :=
  ⟨classified_of_intact intact, fun _ other same => sizeless_checkedBytes intact other same⟩

/-- A successful reply of four octets, of which three may be read, with trailers between them. -/
def parted : Reply where
  response := {
    status := .ok
    body := [.data [0x64, 0x6F], .trailers {}, .data [], .data [0x77, 0x6E]] }
  maxBodySize := 3

/-- The same octets in frames of one each. -/
def scattered : Body := [.data [0x64], .data [0x6F], .data [0x77], .data [0x6E]]

/-- Both are too large, whatever had arrived of them. -/
theorem checkedLaw_parted :
    (∃ actual, parted.checkedBytes = .error (.bodyTooLarge 3 actual) ∧ 3 < actual ∧ actual ≤ 4) ∧
      (parted.withBody scattered).checkedBytes.mapError Failure.sizeless =
        parted.checkedBytes.mapError Failure.sizeless := by
  have intact : parted.response.body.Intact := by simp [Body.Intact, parted]
  have law := checkedLaw_of_intact parted intact
  refine ⟨?_, law.rechunked scattered (by simp [Body.Intact, scattered]) rfl⟩
  have found := law.classified
  generalize parted.checkedBytes = outcome at found
  cases found with
  | read success fits => exact absurd fits (by decide)
  | tooLarge success beyond among => exact ⟨_, rfl, beyond, among⟩
  | unshown failed more shows => exact absurd (by decide) failed
  | told failed fits carries => exact absurd (by decide) failed
  | other failed fits foreign shows => exact absurd (by decide) failed

end Reply

end Courier
