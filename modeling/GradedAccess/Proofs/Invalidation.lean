import GradedAccess.Proofs.Stream.Sorting
import GradedAccess.Proofs.Wire

/-!
# Announcements that are read back

An event is written without its subject, and read again by a consumer that knows the subject from
the stream it reads.  Two questions decide what becomes of it: whether the payload names a role or a
job, and which of the two the subject asks for.  The payload names exactly what the event does
(`roleOf?_toJson`, `jobOf?_toJson`), whatever characters are in a job and whatever the number of a
role is.

So an event is read back as it was, with one exception: anyone may announce a blank job, but no
consumer accepts it (`Acceptable`).  On the stream of a subject that asks for the other thing,
nothing is read at all.
-/

namespace GradedAccess

open Json (bind_of_eq_some fields?_record_zip roundTrips_text)

/-- A text is not blank if it has a character that is not white space, and only then. -/
theorem isBlank_eq_false_iff {text : String} :
    isBlank text = false ↔ ∃ c ∈ text.toList, isWhiteSpace c = false := by
  simp [isBlank]

namespace Event

/-! ## What an event names -/

/-- The role an event is about. -/
def role? : Event → Option RoleId
  | .roleGrants role | .roleValues role => some role
  | .jobCeilings _ => none

/-- The job an event is about. -/
def job? : Event → Option String
  | .roleGrants _ | .roleValues _ => none
  | .jobCeilings job => some job

/-- Whether a consumer accepts an event: a job has to have a character that is not white space. -/
def Acceptable (event : Event) : Prop :=
  ∀ job, event.job? = some job → ∃ c ∈ job.toList, isWhiteSpace c = false

/-! ## What a payload names -/

theorem plain_toJson (event : Event) : event.toJson.Plain := by
  cases event with
  | roleGrants role | roleValues role =>
    exact .record (List.forall_mem_singleton.mpr (Id.roundTrips.plain role))
  | jobCeilings job => exact .record (List.forall_mem_singleton.mpr (.string job))

/-- A payload is well formed, whatever the event is. -/
theorem read?_encode (event : Event) : Json.read? event.encode = some event.toJson :=
  Json.read?_write event.plain_toJson

theorem parse?_encode {α : Type} (ofJson? : Json → Option α) (event : Event) :
    parse? ofJson? event.encode = ofJson? event.toJson := by
  rw [parse?, read?_encode, Option.bind_some]

/-- The payload of an event names the role the event does. -/
theorem roleOf?_toJson (event : Event) : roleOf? event.toJson = event.role? := by
  cases event with
  | roleGrants role | roleValues role =>
    have hfields : (Json.record [("roleId", role.toJson)]).fields? ["roleId"] = some [.given _] :=
      fields?_record_zip _ [_] rfl (by decide)
    show roleOf? (.record [("roleId", role.toJson)]) = some role
    rw [roleOf?, bind_of_eq_some hfields]
    exact Id.roundTrips.required role
  | jobCeilings job =>
    have hfields : (Json.record [("job", .text job)]).fields? ["roleId"] = some [.omitted] := rfl
    show roleOf? (.record [("job", .text job)]) = none
    rw [roleOf?, bind_of_eq_some hfields]
    rfl

/-- The payload of an event names the job the event does. -/
theorem jobOf?_toJson (event : Event) : jobOf? event.toJson = event.job? := by
  cases event with
  | roleGrants role | roleValues role =>
    have hfields : (Json.record [("roleId", role.toJson)]).fields? ["job"] = some [.omitted] := rfl
    show jobOf? (.record [("roleId", role.toJson)]) = none
    rw [jobOf?, bind_of_eq_some hfields]
    rfl
  | jobCeilings job =>
    have hfields : (Json.record [("job", .text job)]).fields? ["job"] = some [.given _] :=
      fields?_record_zip _ [_] rfl (by decide)
    show jobOf? (.record [("job", .text job)]) = some job
    rw [jobOf?, bind_of_eq_some hfields]
    exact roundTrips_text.required job

/-! ## What a consumer makes of a payload -/

variable {event : Event} {role : RoleId} {job : String}

/-- On a stream that concerns roles, the role that is named makes an event of the subject. -/
theorem decode_of_role (h : event.role? = some role) :
    decode .roleGrants event.encode = .ok (.roleGrants role) ∧
      decode .roleValues event.encode = .ok (.roleValues role) := by
  constructor
  · rw [decode, parse?_encode, roleOf?_toJson, h]
  · rw [decode, parse?_encode, roleOf?_toJson, h]

/-- On a stream that concerns roles, a payload that names none is malformed. -/
theorem decode_of_no_role (h : event.role? = none) :
    decode .roleGrants event.encode = .error (.malformedPayload .roleGrants) ∧
      decode .roleValues event.encode = .error (.malformedPayload .roleValues) := by
  constructor
  · rw [decode, parse?_encode, roleOf?_toJson, h]
  · rw [decode, parse?_encode, roleOf?_toJson, h]

/-- On the stream that concerns jobs, the job that is named makes an event unless it is blank. -/
theorem decode_of_job (h : event.job? = some job) :
    decode .jobCeilings event.encode =
      if isBlank job then .error (.blankJob .jobCeilings) else .ok (.jobCeilings job) := by
  rw [decode, parse?_encode, jobOf?_toJson, h]

/-- On the stream that concerns jobs, a payload that names none is malformed. -/
theorem decode_of_no_job (h : event.job? = none) :
    decode .jobCeilings event.encode = .error (.malformedPayload .jobCeilings) := by
  rw [decode, parse?_encode, jobOf?_toJson, h]

/-- An event that consumers accept is read back on its own stream. -/
theorem decode_of_acceptable (h : event.Acceptable) :
    decode event.subject event.encode = .ok event := by
  cases event with
  | roleGrants role => exact (decode_of_role rfl).1
  | roleValues role => exact (decode_of_role rfl).2
  | jobCeilings job =>
    have hblank : isBlank job = false := isBlank_eq_false_iff.mpr (h job rfl)
    rw [subject, decode_of_job rfl, hblank]
    rfl

/-- Any other event is one of a blank job, and is refused as such. -/
theorem decode_of_not_acceptable (h : ¬event.Acceptable) :
    decode event.subject event.encode = .error (.blankJob event.subject) := by
  cases event with
  | roleGrants role | roleValues role => exact absurd nofun h
  | jobCeilings job =>
    have hblank : isBlank job = true := by
      by_contra hnot
      refine h fun job' hjob => ?_
      obtain rfl := Option.some.inj hjob
      exact isBlank_eq_false_iff.mp (Bool.not_eq_true _ ▸ hnot)
    rw [subject, decode_of_job rfl, hblank]
    rfl

/-- On the stream of a subject that asks for the other thing, nothing is read. -/
theorem decode_across {asked : Subject}
    (h : ¬(asked = .jobCeilings ↔ event.subject = .jobCeilings)) :
    decode asked event.encode = .error (.malformedPayload asked) := by
  cases event with
  | roleGrants role | roleValues role =>
    cases asked with
    | roleGrants | roleValues => exact absurd (iff_of_false nofun nofun) h
    | jobCeilings => exact decode_of_no_job rfl
  | jobCeilings job =>
    cases asked with
    | roleGrants => exact (decode_of_no_role rfl).1
    | roleValues => exact (decode_of_no_role rfl).2
    | jobCeilings => exact absurd Iff.rfl h

/-- **Announcements are read back.**  The payload of every event is well formed.  On the stream of
its own subject it is read back as the event exactly when the event is acceptable: when it is about
a role, or about a job with a character that is not white space.  Otherwise it is refused as
invalid.  A payload that names a job is never read on a stream that concerns roles, and one that
names a role never on the stream that concerns jobs. -/
theorem announcements_read_back (event : Event) :
    Json.read? event.encode = some event.toJson ∧
    (event.Acceptable → decode event.subject event.encode = .ok event) ∧
    (¬event.Acceptable →
      ∃ fault, decode event.subject event.encode = .error fault ∧ fault.kind = .validation) ∧
    ∀ asked : Subject, ¬(asked = .jobCeilings ↔ event.subject = .jobCeilings) →
      ∀ other, decode asked event.encode ≠ .ok other := by
  refine ⟨event.read?_encode, decode_of_acceptable, fun hnot => ?_, fun asked hacross other => ?_⟩
  · exact ⟨.blankJob event.subject, decode_of_not_acceptable hnot, rfl⟩
  · rw [decode_across hacross]
    exact nofun

/-- A job of nothing but characters that have to be escaped is read back, and one of nothing but a
no-break space is refused. -/
theorem escaped_job_read_back :
    let escaped : Event := .jobCeilings "\"\\\u0000"
    let blank : Event := .jobCeilings "\u00a0"
    escaped.Acceptable ∧ decode .jobCeilings escaped.encode = .ok escaped ∧
      (∀ other, decode .roleGrants escaped.encode ≠ .ok other) ∧ ¬blank.Acceptable ∧
      ∃ fault, decode .jobCeilings blank.encode = .error fault ∧ fault.kind = .validation := by
  intro escaped blank
  have hescaped : escaped.Acceptable := by
    rintro _ ⟨⟩
    exact ⟨'"', by decide, by decide⟩
  have hblank : ¬blank.Acceptable := by
    intro h
    obtain ⟨c, hmem, hc⟩ := h _ rfl
    obtain rfl := List.mem_singleton.mp hmem
    exact absurd hc (by decide)
  obtain ⟨-, hread, -, hacross⟩ := escaped.announcements_read_back
  obtain ⟨-, -, hrefused, -⟩ := blank.announcements_read_back
  exact ⟨hescaped, hread hescaped, hacross .roleGrants (by decide), hblank, hrefused hblank⟩

end Event

/-- A consumer finds an event in the entry a producer has made of it, if it accepts the event. -/
theorem Subscription.messageOf?_announced {event : Event} {entry : StreamEntry}
    (h : entry.text? Event.payloadField = some event.encode) :
    messageOf? event.subject entry = some ⟨entry.id, event⟩ ↔ event.Acceptable := by
  rw [messageOf?, h]
  by_cases hacceptable : event.Acceptable
  · simp [Event.decode_of_acceptable hacceptable, hacceptable]
  · simp [Event.decode_of_not_acceptable hacceptable, hacceptable]

end GradedAccess
