import GradedAccess.Stream.Subscription

/-!
# What a subscription makes of a reply

`Subscription.sort` goes through a reply entry by entry.  Here its three results are said all at
once: the messages are those of the entries of known streams that have one, in the order of the
reply, and the malformed entries are the others of these streams (`messages_sort`,
`malformed_sort`, `received_sort`).

The streams of two subjects have different keys, and what is read from the stream of a subject
becomes a message of that subject.  So an entry and its message are about the same stream, and the
message is acknowledged where the entry was read.
-/

namespace GradedAccess

/-! ## Streams and subjects -/

/-- The streams of two subjects have different keys. -/
theorem StreamSettings.key_inj {settings : StreamSettings} {subject subject' : Subject} :
    settings.key subject = settings.key subject' ↔ subject = subject' := by
  constructor
  · intro h
    have hname : subject.name = subject'.name := by
      rw [key, key, String.ext_iff, String.toList_append, String.toList_append,
        List.append_right_inj] at h
      exact String.ext h
    have hsome := congrArg Subject.ofName? hname
    rw [Subject.ofName?_name, Subject.ofName?_name] at hsome
    exact Option.some.inj hsome
  · rintro rfl
    rfl

/-- What is decoded on the stream of a subject is an event of that subject. -/
theorem Event.subject_of_decode {subject : Subject} {payload : String} {event : Event}
    (h : Event.decode subject payload = .ok event) : event.subject = subject := by
  cases subject with
  | roleGrants =>
    rw [decode] at h
    split at h <;> cases h
    rfl
  | roleValues =>
    rw [decode] at h
    split at h <;> cases h
    rfl
  | jobCeilings =>
    rw [decode] at h
    split at h
    · split at h <;> cases h
      rfl
    · cases h

namespace Subscription

variable {subscription : Subscription} {subject : Subject} {entry : StreamEntry}
  {message : Message}

/-- The key of the stream of a subject leads back to the subject. -/
theorem subjectOf_eq_some_iff {key : String} :
    subscription.subjectOf key = some subject ↔ subscription.settings.key subject = key := by
  rw [subjectOf]
  constructor
  · intro h
    have hkey := List.find?_some h
    exact beq_iff_eq.mp hkey
  · rintro rfl
    cases hfound : Subject.all.find?
        (subscription.settings.key · == subscription.settings.key subject) with
    | none =>
      have hnone := List.find?_eq_none.mp hfound subject subject.mem_all
      exact absurd (beq_self_eq_true _) hnone
    | some found =>
      have hkey := List.find?_some hfound
      rw [StreamSettings.key_inj.mp (beq_iff_eq.mp hkey)]

/-- A message has the number of its entry, and is about the subject of the stream. -/
theorem of_messageOf? (h : messageOf? subject entry = some message) :
    message.delivery = entry.id ∧ message.event.subject = subject := by
  rw [messageOf?] at h
  split at h
  · cases h
  · split at h
    · next event hdecode =>
      cases h
      exact ⟨rfl, Event.subject_of_decode hdecode⟩
    · cases h

/-! ## Sorting -/

/-- The messages of a batch. -/
def messagesOf (subscription : Subscription) (batch : StreamBatch) : List Message :=
  match subscription.subjectOf batch.key with
  | none => []
  | some subject => batch.entries.filterMap (messageOf? subject)

/-- The malformed entries of a batch, each with the key of its stream. -/
def malformedOf (subscription : Subscription) (batch : StreamBatch) : List (String × String) :=
  match subscription.subjectOf batch.key with
  | none => []
  | some subject => (batch.entries.filter fun entry => (messageOf? subject entry).isNone).map
      fun entry => (batch.key, entry.id)

/-- The entries of a batch, if its stream was asked for. -/
def knownOf (subscription : Subscription) (batch : StreamBatch) : List StreamEntry :=
  match subscription.subjectOf batch.key with
  | none => []
  | some _ => batch.entries

theorem foldl_sortEntry (key : String) (subject : Subject) (entries : List StreamEntry)
    (sorted : Sorted) :
    entries.foldl (sortEntry key subject) sorted =
      { messages := sorted.messages ++ entries.filterMap (messageOf? subject)
        malformed := sorted.malformed ++
          (entries.filter fun entry => (messageOf? subject entry).isNone).map
            fun entry => (key, entry.id)
        received := sorted.received + entries.length } := by
  induction entries generalizing sorted with
  | nil => simp
  | cons entry entries ih =>
    rw [List.foldl_cons, ih, sortEntry]
    cases hmessage : messageOf? subject entry with
    | none => simp [hmessage, Nat.add_right_comm, Nat.add_assoc]
    | some message => simp [hmessage, Nat.add_right_comm, Nat.add_assoc]

theorem foldl_sortBatch (subscription : Subscription) (batches : List StreamBatch)
    (sorted : Sorted) :
    batches.foldl subscription.sortBatch sorted =
      { messages := sorted.messages ++ batches.flatMap subscription.messagesOf
        malformed := sorted.malformed ++ batches.flatMap subscription.malformedOf
        received := sorted.received + (batches.flatMap subscription.knownOf).length } := by
  induction batches generalizing sorted with
  | nil => simp
  | cons batch batches ih =>
    rw [List.foldl_cons, ih, sortBatch]
    cases hsubject : subscription.subjectOf batch.key with
    | none => simp [messagesOf, malformedOf, knownOf, hsubject]
    | some subject =>
      simp [messagesOf, malformedOf, knownOf, hsubject, foldl_sortEntry, Nat.add_assoc]

/-- The messages of a reply are those of its batches. -/
theorem messages_sort (subscription : Subscription) (batches : List StreamBatch) :
    (subscription.sort batches).messages = batches.flatMap subscription.messagesOf := by
  rw [sort, foldl_sortBatch]
  rfl

/-- The malformed entries of a reply are those of its batches. -/
theorem malformed_sort (subscription : Subscription) (batches : List StreamBatch) :
    (subscription.sort batches).malformed = batches.flatMap subscription.malformedOf := by
  rw [sort, foldl_sortBatch]
  rfl

/-- A message of a reply is that of an entry of a stream that was asked for. -/
theorem exists_of_mem_messages_sort {batches : List StreamBatch}
    (h : message ∈ (subscription.sort batches).messages) :
    ∃ batch ∈ batches, subscription.settings.key message.event.subject = batch.key ∧
      ∃ entry ∈ batch.entries, messageOf? message.event.subject entry = some message := by
  rw [messages_sort, List.mem_flatMap] at h
  obtain ⟨batch, hbatch, hmem⟩ := h
  rw [messagesOf] at hmem
  split at hmem
  · cases hmem
  · next subject hsubject =>
    obtain ⟨entry, hentry, hmessage⟩ := List.mem_filterMap.mp hmem
    obtain ⟨-, rfl⟩ := of_messageOf? hmessage
    exact ⟨batch, hbatch, subjectOf_eq_some_iff.mp hsubject, entry, hentry, hmessage⟩

/-- A malformed entry of a reply is one of a stream that was asked for. -/
theorem exists_of_mem_malformed_sort {batches : List StreamBatch} {key id : String}
    (h : (key, id) ∈ (subscription.sort batches).malformed) :
    ∃ batch ∈ batches, batch.key = key ∧ ∃ subject, subscription.settings.key subject = key ∧
      ∃ entry ∈ batch.entries, entry.id = id ∧ messageOf? subject entry = none := by
  rw [malformed_sort, List.mem_flatMap] at h
  obtain ⟨batch, hbatch, hmem⟩ := h
  rw [malformedOf] at hmem
  split at hmem
  · cases hmem
  · next subject hsubject =>
    obtain ⟨entry, hentry, heq⟩ := List.mem_map.mp hmem
    obtain ⟨hread, hnone⟩ := List.mem_filter.mp hentry
    cases heq
    exact ⟨batch, hbatch, rfl, subject, subjectOf_eq_some_iff.mp hsubject, entry, hread, rfl,
      Option.isNone_iff_eq_none.mp hnone⟩

/-- All entries of the streams that were asked for are counted. -/
theorem received_sort (subscription : Subscription) (batches : List StreamBatch) :
    (subscription.sort batches).received = (batches.flatMap subscription.knownOf).length := by
  rw [sort, foldl_sortBatch]
  exact Nat.zero_add _

end Subscription

end GradedAccess
