import GradedAccess.Wire

/-!
# Payloads of invalidation events

An event travels as one JSON text on the stream of its subject, so the text holds only what the
subject does not say: the role or the job.  The two subjects that concern a role have the same
form, and it is the stream that tells them apart.

Any event can be written.  A job event with a blank job cannot be read back, since no rows belong
to such a job and a producer that sends one is at fault.
-/

namespace GradedAccess

namespace Event

/-- The field of a stream entry that holds the payload. -/
def payloadField : String := "payload"

/-- The payload of an event as a value. -/
def toJson : Event → Json
  | roleGrants role | roleValues role => .record [("roleId", role.toJson)]
  | jobCeilings job => .record [("job", .text job)]

/-- The payload of an event. -/
def encode (event : Event) : String := event.toJson.write

/-- The role a payload names. -/
def roleOf? (json : Json) : Option RoleId := do
  let [role] ← json.fields? ["roleId"] | none
  role.required Id.ofJson?

/-- The job a payload names. -/
def jobOf? (json : Json) : Option String := do
  let [job] ← json.fields? ["job"] | none
  job.required Json.text?

/-- The event that a payload on the stream of a subject announces. -/
def decode (subject : Subject) (payload : String) : Except Fault Event :=
  match subject with
  | .roleGrants =>
    match parse? roleOf? payload with
    | some role => .ok (.roleGrants role)
    | none => .error (.malformedPayload subject)
  | .roleValues =>
    match parse? roleOf? payload with
    | some role => .ok (.roleValues role)
    | none => .error (.malformedPayload subject)
  | .jobCeilings =>
    match parse? jobOf? payload with
    | some job => if isBlank job then .error (.blankJob subject) else .ok (.jobCeilings job)
    | none => .error (.malformedPayload subject)

end Event

end GradedAccess
