import Courier.Api.ApiError
import Courier.Proofs.Pages

/-!
# Failed statuses

A status other than success ends in a failure, however the reply is read. Whether that failure tells
the status depends on the body alone: a body that is too large, or no envelope, or empty, does not
keep it from the caller, but a frame that fails before the limit is exceeded does
(`statusLaw_of_failed`).
-/
namespace Courier

/-! ## Bodies that fail -/

namespace Body

/-- No frame fails. -/
def Intact (body : Body) : Prop := ∀ cause, Frame.failed cause ∉ body

/-- A frame fails that is read before there is more data than the limit allows. -/
def FailsWithin (limit : Nat) (body : Body) (cause : Cause) : Prop :=
  ∃ before after, body = before ++ .failed cause :: after ∧ Intact before ∧
    (data before).length ≤ limit

variable {limit : Nat} {body rest : Body} {cause : Cause}

theorem intact_nil : Intact [] := fun _ failing => by cases failing

theorem intact_cons {frame : Frame} :
    Intact (frame :: rest) ↔ (∀ cause, .failed cause ≠ frame) ∧ Intact rest := by
  simp only [Intact, List.mem_cons, not_or, forall_and, ne_eq]

theorem not_failsWithin_nil : ¬ FailsWithin limit [] cause := by
  rintro ⟨before, after, split, -⟩
  simp at split

/-- A frame that does not fail is passed over, and its data counts. -/
theorem failsWithin_cons {frame : Frame} (sound : ∀ cause, .failed cause ≠ frame)
    {more : Bytes} (adds : ∀ before, data (frame :: before) = more ++ data before) :
    FailsWithin limit (frame :: rest) cause ↔
      more.length ≤ limit ∧ FailsWithin (limit - more.length) rest cause := by
  constructor
  · rintro ⟨before, after, split, intact, le⟩
    obtain ⟨rfl, here⟩ | ⟨before, rfl, there⟩ := List.cons_eq_append_iff.1 split
    · cases here
      exact absurd rfl (sound cause)
    · rw [adds, List.length_append] at le
      exact ⟨by omega, before, after, there, (intact_cons.1 intact).2, by omega⟩
  · rintro ⟨fits, before, after, rfl, intact, le⟩
    refine ⟨frame :: before, after, rfl, intact_cons.2 ⟨sound, intact⟩, ?_⟩
    rw [adds, List.length_append]
    omega

theorem failsWithin_data {more : Bytes} :
    FailsWithin limit (.data more :: rest) cause ↔
      more.length ≤ limit ∧ FailsWithin (limit - more.length) rest cause :=
  failsWithin_cons (fun _ same => by cases same) fun _ => rfl

theorem failsWithin_trailers {fields : Headers} :
    FailsWithin limit (.trailers fields :: rest) cause ↔ FailsWithin limit rest cause := by
  have adds : ∀ before, data (.trailers fields :: before) = [] ++ data before := fun _ => rfl
  rw [failsWithin_cons (fun _ same => by cases same) adds]
  simp

theorem failsWithin_failed {first : Cause} :
    FailsWithin limit (.failed first :: rest) cause ↔ cause = first := by
  constructor
  · rintro ⟨before, after, split, intact, -⟩
    obtain ⟨rfl, here⟩ | ⟨before, rfl, -⟩ := List.cons_eq_append_iff.1 split
    · cases here
      rfl
    · exact absurd rfl ((intact_cons.1 intact).1 first)
  · rintro rfl
    exact ⟨[], rest, rfl, intact_nil, Nat.zero_le _⟩

/-- Reading on fails where a frame fails within what is left of the limit. -/
theorem bufferFrom_eq_error_iff {collected : Bytes} {e : Failure}
    (room : collected.length ≤ limit) :
    bufferFrom limit collected body = .error e ↔
      ∃ cause, FailsWithin (limit - collected.length) body cause ∧ e = .transport cause := by
  induction body generalizing collected with
  | nil => simp [bufferFrom, not_failsWithin_nil]
  | cons frame rest ih =>
    cases frame with
    | data more =>
      rw [bufferFrom]
      simp only [failsWithin_data]
      split
      next beyond =>
        rw [List.length_append] at beyond
        simp only [reduceCtorEq, false_iff]
        rintro ⟨cause, ⟨fits, -⟩, -⟩
        omega
      next within =>
        rw [ih (by omega), List.length_append, Nat.sub_add_eq]
        have fits : more.length ≤ limit - collected.length := by
          rw [List.length_append] at within
          omega
        simp only [fits, true_and]
    | trailers fields =>
      simp only [failsWithin_trailers]
      exact ih room
    | failed first =>
      simp only [bufferFrom, failsWithin_failed, Except.error.injEq, exists_eq_left]
      exact eq_comm

/-- Reading a body fails exactly where a frame of it fails within the limit. -/
theorem buffer_eq_error_iff {e : Failure} :
    buffer limit body = .error e ↔
      ∃ cause, body.FailsWithin limit cause ∧ e = .transport cause := by
  rw [buffer, bufferFrom_eq_error_iff (Nat.zero_le _)]
  rfl

/-- The body has exactly these octets, which are within the limit, and no frame fails. -/
structure Carries (limit : Nat) (body : Body) (bytes : Bytes) : Prop where
  intact : Intact body
  data : body.data = bytes
  within : bytes.length ≤ limit

theorem intact_of_complete {collected bytes : Bytes}
    (h : bufferFrom limit collected body = .ok (.complete bytes)) : Intact body := by
  induction body generalizing collected with
  | nil => exact intact_nil
  | cons frame rest ih =>
    cases frame with
    | data more =>
      rw [bufferFrom] at h
      split at h
      · cases h
      · exact intact_cons.2 ⟨(fun _ same => by cases same), ih h⟩
    | trailers fields => exact intact_cons.2 ⟨(fun _ same => by cases same), ih h⟩
    | failed first => cases h

/-- What can be read of a body, unless a frame of it fails: all of it, or that it is too much. -/
theorem readLimited_cases (limit : Nat) (body : Body) :
    (∃ bytes, readLimited limit body = .ok bytes ∧ body.Carries limit bytes) ∨
      (∃ actual, readLimited limit body = .error (.bodyTooLarge limit actual) ∧
        limit < body.data.length) ∨
      ∃ cause, readLimited limit body = .error (.transport cause) ∧
        body.FailsWithin limit cause := by
  rw [readLimited]
  cases read : buffer limit body with
  | error e =>
    obtain ⟨cause, fails, rfl⟩ := buffer_eq_error_iff.1 read
    exact .inr (.inr ⟨cause, rfl, fails⟩)
  | ok buffered =>
    cases buffered with
    | complete bytes =>
      obtain ⟨same, le⟩ := data_of_complete read
      exact .inl ⟨bytes, rfl, intact_of_complete read, same.symm, le (Nat.zero_le _)⟩
    | overflow head rest =>
      obtain ⟨whole, more⟩ := data_of_overflow read
      refine .inr (.inl ⟨head.length, rfl, ?_⟩)
      rw [← List.nil_append body.data, ← whole, List.length_append]
      omega

/-- What is read of a body is what it carries. -/
theorem readLimited_eq_ok_iff {bytes : Bytes} :
    readLimited limit body = .ok bytes ↔ body.Carries limit bytes := by
  constructor
  · intro read
    obtain ⟨all, same, carries⟩ | ⟨actual, same, -⟩ | ⟨cause, same, -⟩ :=
      readLimited_cases limit body
    · rw [read] at same
      cases same
      exact carries
    · rw [read] at same
      cases same
    · rw [read] at same
      cases same
  · intro carries
    obtain ⟨all, read, same⟩ | ⟨actual, -, more⟩ | ⟨cause, -, before, after, split, -⟩ :=
      readLimited_cases limit body
    · rw [read, ← same.data, carries.data]
    · have within := carries.within
      rw [← carries.data] at within
      omega
    · exact absurd (by simp [split]) (carries.intact cause)

end Body

/-! ## What a failure tells -/

/-- The status that a failure tells, if it tells one. -/
def Failure.status? : Failure → Option Status
  | .api status _ => some status
  | .httpStatus status _ _ => some status
  | _ => none

namespace Api.ApiError

theorem status_ofFailure (f : Failure) : (ofFailure f).status = f.status? := by
  cases f <;> rfl

theorem failure?_ofFailure (f : Failure) : (ofFailure f).failure? = some f := by
  cases f <;> rfl

theorem isTimeout_ofFailure (f : Failure) : (ofFailure f).isTimeout = f.isTimeout := by
  rw [isTimeout, failure?_ofFailure]
  rfl

end Api.ApiError

open Api

/-- The failure tells the status, with an envelope or with the beginning of a body, and so does what
is made of it. It is no timeout. -/
structure Failure.Reports (f : Failure) (status : Status) : Prop where
  kind : (∃ envelope, f = .api status envelope) ∨
    ∃ preview contentType, f = .httpStatus status preview contentType
  status : (ApiError.ofFailure f).status = some status
  timeout : (ApiError.ofFailure f).isTimeout = false

theorem Failure.reports_of_kind {f : Failure} {status : Status}
    (kind : (∃ envelope, f = .api status envelope) ∨
      ∃ preview contentType, f = .httpStatus status preview contentType) : f.Reports status := by
  refine ⟨kind, ?_, ?_⟩
  · rw [ApiError.status_ofFailure]
    obtain ⟨envelope, rfl⟩ | ⟨preview, contentType, rfl⟩ := kind <;> rfl
  · rw [ApiError.isTimeout_ofFailure]
    obtain ⟨envelope, rfl⟩ | ⟨preview, contentType, rfl⟩ := kind <;> simp [isTimeout]

namespace Reply

variable {r : Reply}

/-- Whatever has been read of a body, the failure made of it tells the status. -/
theorem reports_rejection (r : Reply) (body : Bytes) :
    (r.rejection body).Reports r.response.status := by
  rw [rejection]
  split
  next envelope _ => exact Failure.reports_of_kind (.inl ⟨envelope, rfl⟩)
  · exact Failure.reports_of_kind (.inr ⟨_, _, rfl⟩)

/-- What comes of reading a reply whose status is no success. -/
structure StatusLaw (r : Reply) : Prop where
  /-- A body that is not read hides nothing. -/
  unread : ∃ f, r.errorForStatus = .error f ∧ f.Reports r.response.status
  /-- Neither does one that is empty, too large, an envelope, or anything else. -/
  reported : (∀ cause, ¬ r.response.body.FailsWithin r.maxBodySize cause) →
    ∃ f, f.Reports r.response.status ∧
      r.checkedBytes = .error f ∧ r.text = .error f ∧ r.json = .error f
  /-- Only the failure of a frame takes the place of the status. -/
  hidden : ∀ cause, r.response.body.FailsWithin r.maxBodySize cause →
    r.checkedBytes = .error (.transport cause) ∧ r.text = .error (.transport cause) ∧
      r.json = .error (.transport cause) ∧
      (ApiError.ofFailure (.transport cause)).status = none ∧
      (ApiError.ofFailure (.transport cause)).isTimeout = cause.reachesTimeout

theorem checkedBytes_of_failsWithin (failed : r.response.status.isSuccess = false) {cause : Cause}
    (fails : r.response.body.FailsWithin r.maxBodySize cause) :
    r.checkedBytes = .error (.transport cause) := by
  have read : r.bytes = .error (.transport cause) := by
    rw [bytes, Body.readLimited, Body.buffer_eq_error_iff.2 ⟨cause, fails, rfl⟩]
  rw [checkedBytes, if_neg (by simp [failed]), read]

theorem checkedBytes_of_not_failsWithin (failed : r.response.status.isSuccess = false)
    (sound : ∀ cause, ¬ r.response.body.FailsWithin r.maxBodySize cause) :
    ∃ f, f.Reports r.response.status ∧ r.checkedBytes = .error f := by
  rw [checkedBytes, if_neg (by simp [failed]), bytes]
  obtain ⟨bytes, read, -⟩ | ⟨actual, read, -⟩ | ⟨cause, -, fails⟩ :=
    Body.readLimited_cases r.maxBodySize r.response.body
  · exact ⟨_, r.reports_rejection bytes, by rw [read]⟩
  · exact ⟨_, Failure.reports_of_kind (.inr ⟨_, _, rfl⟩), by rw [read]⟩
  · exact absurd fails (sound cause)

/-- **Failed statuses.** Every way of reading a reply whose status is no success ends in a failure.
It tells exactly that status and is no timeout, unless a frame of the body fails before the limit is
exceeded: then the failure of that frame is all the caller gets. -/
theorem statusLaw_of_failed (r : Reply) (failed : r.response.status.isSuccess = false) :
    StatusLaw r := by
  refine ⟨?_, ?_, ?_⟩
  · exact ⟨_, by rw [errorForStatus, if_neg (by simp [failed])],
      Failure.reports_of_kind (.inr ⟨_, _, rfl⟩)⟩
  · intro sound
    obtain ⟨f, reports, checked⟩ := checkedBytes_of_not_failsWithin failed sound
    exact ⟨f, reports, checked, text_of_error checked, json_of_error checked⟩
  · intro cause fails
    have checked := checkedBytes_of_failsWithin failed fails
    refine ⟨checked, text_of_error checked, json_of_error checked, rfl, ?_⟩
    rw [ApiError.isTimeout_ofFailure, Failure.isTimeout]

/-- A service that is down and says so at length. -/
def verbose : Reply where
  response := { status := ⟨503, by decide⟩, body := [.data [0x64, 0x6F], .data [0x77, 0x6E]] }
  maxBodySize := 3

/-- A body that is too large does not hide the status. -/
theorem statusLaw_verbose :
    ∃ f, verbose.json = .error f ∧ (ApiError.ofFailure f).status = some ⟨503, by decide⟩ := by
  have law := statusLaw_of_failed verbose rfl
  have sound : ∀ cause, ¬ verbose.response.body.FailsWithin verbose.maxBodySize cause := by
    rintro cause ⟨before, after, split, -⟩
    have among : Frame.failed cause ∈ verbose.response.body := by simp [split]
    simp [verbose] at among
  obtain ⟨f, reports, -, -, json⟩ := law.reported sound
  exact ⟨f, json, reports.status⟩

/-- A service that is down and stalls in the middle of saying so. -/
def stalled : Reply where
  response := { status := ⟨503, by decide⟩, body := [.data [0x64], .failed (.io .timedOut)] }
  maxBodySize := 3

/-- A status is not always told: the body fails with a timeout, which is all that is left. -/
theorem json_stalled_hides :
    stalled.response.status.isSuccess = false ∧ ∃ f, stalled.json = .error f ∧
      ¬ f.Reports stalled.response.status ∧ (ApiError.ofFailure f).status = none ∧
      (ApiError.ofFailure f).isTimeout = true := by
  have fails : stalled.response.body.FailsWithin stalled.maxBodySize (.io .timedOut) :=
    Body.failsWithin_data.2 ⟨by decide, Body.failsWithin_failed.2 rfl⟩
  have checked := checkedBytes_of_failsWithin (r := stalled) rfl fails
  refine ⟨rfl, _, json_of_error checked, fun reports => ?_, rfl, ?_⟩
  · cases reports.status
  · rw [ApiError.isTimeout_ofFailure, Failure.isTimeout, Cause.reachesTimeout]
    rfl

end Reply

end Courier
