import GradedAccess.Proofs.Stream.Consumer

/-!
# The calls of a subscription

What one call of a subscription says to the server, and what it leaves there.  Every call only adds
exchanges to the notes, and streams only grow by it (`Served.Since`); this also holds of calls that
fail.  An acknowledgement that succeeds takes one entry off what is pending, and so several take off
exactly the ones that are named (`pendingFor_of_acknowledgeAll`).  A read that succeeds brings the
first pending entries of each stream, or new entries, which are pending from then on
(`of_readCommand`).
-/

namespace GradedAccess

open Broker

/-! ## What calls leave behind -/

/-- What a call has done to the server, whether it has failed or not. -/
structure Served.Since (settings : StreamSettings) (served served' : Served) : Prop where
  grows : served.broker.Grows settings.group served'.broker
  clock : served.clock ≤ served'.clock
  notes : ∃ said : List (Command × Reply),
    served'.notes = served.notes ++ said.map fun exchange => .exchanged exchange.1 exchange.2

namespace Served.Since

variable {settings : StreamSettings} {served served' served'' : Served}

theorem refl (settings : StreamSettings) (served : Served) : served.Since settings served where
  grows := .refl settings.group served.broker
  clock := Nat.le_refl _
  notes := ⟨[], (List.append_nil _).symm⟩

theorem trans (h : served.Since settings served') (h' : served'.Since settings served'') :
    served.Since settings served'' where
  grows := h.grows.trans h'.grows
  clock := Nat.le_trans h.clock h'.clock
  notes := by
    obtain ⟨said, hsaid⟩ := h.notes
    obtain ⟨said', hsaid'⟩ := h'.notes
    exact ⟨said ++ said', by rw [hsaid', hsaid, List.map_append, List.append_assoc]⟩

/-- What has been noted stays noted. -/
theorem mem (h : served.Since settings served') {note : Note} (hmem : note ∈ served.notes) :
    note ∈ served'.notes := by
  obtain ⟨said, hsaid⟩ := h.notes
  rw [hsaid]
  exact List.mem_append_left _ hmem

/-- A call returns no message by itself. -/
theorem returnedIn_eq (h : served.Since settings served') :
    returnedIn served'.notes = returnedIn served.notes := by
  obtain ⟨said, hsaid⟩ := h.notes
  rw [hsaid, returnedIn, List.filterMap_append, List.filterMap_map]
  have hnone : said.filterMap (Note.message? ∘ fun exchange => .exchanged exchange.1 exchange.2)
      = [] := List.filterMap_eq_nil_iff.mpr fun _ _ => rfl
  rw [hnone, List.append_nil]
  rfl

end Served.Since

section Notes

variable {settings : StreamSettings} {notes notes' : List Note}

theorem WasRead.mono {subject : Subject} {entry : StreamEntry}
    (h : WasRead settings notes subject entry) (hsub : notes ⊆ notes') :
    WasRead settings notes' subject entry := by
  obtain ⟨count, fresh, block, keys, batches, batch, hnote, hrest⟩ := h
  exact ⟨count, fresh, block, keys, batches, batch, hsub hnote, hrest⟩

theorem WasMalformed.mono {key entry : String} (h : WasMalformed settings notes key entry)
    (hsub : notes ⊆ notes') : WasMalformed settings notes' key entry := by
  obtain ⟨subject, read, hkey, hid, hread, hnone⟩ := h
  exact ⟨subject, read, hkey, hid, hread.mono hsub, hnone⟩

theorem WasObtained.mono {message : Message} (h : WasObtained settings notes message)
    (hsub : notes ⊆ notes') : WasObtained settings notes' message := by
  obtain ⟨read, hread, hmessage⟩ := h
  exact ⟨read, hread.mono hsub, hmessage⟩

end Notes

namespace Subscription

variable {settings : StreamSettings}
  (schedule : Nat → Occasion settings.group settings.consumer)
  (subscription : Subscription) (served : Served)

/-- Whether every command from some time on is answered. -/
def AnsweredFrom (clock : Nat) : Prop :=
  ∀ later, clock ≤ later → (schedule later).outcome.IsAnswered

variable {schedule} in
theorem AnsweredFrom.mono {clock clock' : Nat} (h : AnsweredFrom schedule clock)
    (hle : clock ≤ clock') : AnsweredFrom schedule clock' :=
  fun later hlater => h later (Nat.le_trans hle hlater)

theorem since_send (connection : Connection) (command : Command) :
    served.Since settings ((server schedule).send connection command served).2 where
  grows := grows_send schedule connection served settings.group command
  clock := Nat.le_succ _
  notes := ⟨[(command, ((server schedule).send connection command served).1)],
    notes_send schedule connection served command⟩

/-! ## Acknowledging -/

section Acknowledging

theorem acknowledgeEntry_snd (key entry : String) :
    (subscription.acknowledgeEntry (server schedule) key entry served).2
      = ((server schedule).send subscription.connection
        (.acknowledge key subscription.settings.group entry) served).2 := by
  rw [acknowledgeEntry]
  dsimp only
  split <;> rfl

theorem acknowledgeEntry_eq_ok_iff {key entry : String} :
    (subscription.acknowledgeEntry (server schedule) key entry served).1 = .ok () ↔
      ((server schedule).send subscription.connection
        (.acknowledge key subscription.settings.group entry) served).1.isAcknowledged := by
  rw [acknowledgeEntry]
  dsimp only
  split
  · next hack => simp only [hack]
  · next hack => simp only [reduceCtorEq, false_iff]; exact hack

theorem since_acknowledgeEntry (key entry : String) :
    served.Since settings
      (subscription.acknowledgeEntry (server schedule) key entry served).2 := by
  rw [acknowledgeEntry_snd]
  exact since_send schedule served _ _

theorem since_acknowledgeAll (entries : List (String × String)) :
    served.Since settings (subscription.acknowledgeAll (server schedule) entries served).2 := by
  induction entries generalizing served with
  | nil => exact .refl settings served
  | cons head entries ih =>
    obtain ⟨key, entry⟩ := head
    have hfirst := since_acknowledgeEntry schedule subscription served key entry
    rw [acknowledgeAll]
    split
    · next served' hack =>
      rw [hack] at hfirst
      exact hfirst.trans (ih served')
    · next fault served' hack =>
      rw [hack] at hfirst
      exact hfirst

variable {schedule subscription served} (hsettings : subscription.settings = settings)
include hsettings

/-- An acknowledgement is in order if the entry is malformed, or the user has asked for it. -/
theorem inOrder_acknowledgeEntry {backlog : Backlog} {key entry : String}
    (horder : EachAfter (InOrder settings backlog) served.notes)
    (hdue : WasMalformed settings served.notes key entry ∨
      WasAsked settings served.notes key entry) :
    EachAfter (InOrder settings backlog)
      (subscription.acknowledgeEntry (server schedule) key entry served).2.notes := by
  rw [acknowledgeEntry_snd, notes_send, hsettings]
  exact horder.concat ⟨rfl, hdue⟩

/-- An entry that has been acknowledged is not pending any more, and all others still are. -/
theorem pendingFor_of_acknowledgeEntry {key entry : String}
    (h : (subscription.acknowledgeEntry (server schedule) key entry served).1 = .ok ())
    (key' : String) :
    ((subscription.acknowledgeEntry (server schedule) key entry served).2.broker key').pendingFor
        settings.group settings.consumer
      = ((served.broker key').pendingFor settings.group settings.consumer).filter
          fun pending => !(key' == key && pending.number.text == entry) := by
  rw [acknowledgeEntry_eq_ok_iff, hsettings] at h
  rw [acknowledgeEntry_snd, hsettings]
  exact pendingFor_of_isAcknowledged schedule _ served h key'

theorem acknowledgeEntry_of_answered {key entry : String}
    (h : (schedule served.clock).outcome.IsAnswered) :
    (subscription.acknowledgeEntry (server schedule) key entry served).1 = .ok () := by
  rw [acknowledgeEntry_eq_ok_iff, hsettings]
  exact isAcknowledged_of_isAnswered schedule _ served h

/-- Malformed entries are acknowledged in order. -/
theorem inOrder_acknowledgeAll {backlog : Backlog} {entries : List (String × String)}
    (horder : EachAfter (InOrder settings backlog) served.notes)
    (hmalformed : ∀ entry ∈ entries, WasMalformed settings served.notes entry.1 entry.2) :
    EachAfter (InOrder settings backlog)
      (subscription.acknowledgeAll (server schedule) entries served).2.notes := by
  induction entries generalizing served with
  | nil => exact horder
  | cons head entries ih =>
    obtain ⟨key, entry⟩ := head
    have hdue := hmalformed (key, entry) List.mem_cons_self
    have hfirst : EachAfter (InOrder settings backlog)
        (subscription.acknowledgeEntry (server schedule) key entry served).2.notes :=
      inOrder_acknowledgeEntry hsettings horder (Or.inl hdue)
    have hsince := since_acknowledgeEntry schedule subscription served key entry
    rw [acknowledgeAll]
    split
    · next served' hack =>
      rw [hack] at hfirst hsince
      exact ih hfirst fun other hother =>
        (hmalformed other (List.mem_cons_of_mem _ hother)).mono fun _ => hsince.mem
    · next fault served' hack =>
      rw [hack] at hfirst
      exact hfirst

/-- Entries that have all been acknowledged are not pending any more, and all others still are. -/
theorem pendingFor_of_acknowledgeAll {entries : List (String × String)}
    (h : (subscription.acknowledgeAll (server schedule) entries served).1 = .ok ())
    (key : String) :
    ((subscription.acknowledgeAll (server schedule) entries served).2.broker key).pendingFor
        settings.group settings.consumer
      = ((served.broker key).pendingFor settings.group settings.consumer).filter
          fun pending => decide ((key, pending.number.text) ∉ entries) := by
  induction entries generalizing served with
  | nil => exact (List.filter_eq_self.mpr fun _ _ => decide_eq_true List.not_mem_nil).symm
  | cons head entries ih =>
    obtain ⟨key', entry⟩ := head
    rw [acknowledgeAll] at h ⊢
    split at h
    · next served' hack =>
      have hfirst := pendingFor_of_acknowledgeEntry hsettings (congrArg Prod.fst hack) key
      rw [hack] at hfirst
      rw [ih h, hfirst, List.filter_filter]
      refine List.filter_congr fun pending _ => ?_
      simp only [List.mem_cons, Prod.mk.injEq, not_or, Bool.decide_and, decide_not,
        Bool.not_and, Bool.and_comm, beq_eq_decide]
    · cases h

theorem acknowledgeAll_of_answered {entries : List (String × String)}
    (h : AnsweredFrom schedule served.clock) :
    (subscription.acknowledgeAll (server schedule) entries served).1 = .ok () := by
  induction entries generalizing served with
  | nil => rfl
  | cons head entries ih =>
    obtain ⟨key, entry⟩ := head
    have hfirst : (subscription.acknowledgeEntry (server schedule) key entry served).1 = .ok () :=
      acknowledgeEntry_of_answered hsettings (h served.clock (Nat.le_refl _))
    have hsince := since_acknowledgeEntry schedule subscription served key entry
    rw [acknowledgeAll]
    split
    · next served' hack =>
      rw [hack] at hsince
      exact ih (h.mono hsince.clock)
    · next fault served' hack =>
      rw [hack] at hfirst
      cases hfirst

end Acknowledging

/-! ## Reading -/

/-- The batch with what was received from the stream of a subject. -/
def batchOn (settings : StreamSettings) (received : Backlog) (subject : Subject) : StreamBatch :=
  ⟨settings.key subject, (received subject).map LogEntry.sent⟩

/-- Whether the entries of batches are those received from each stream.  A stream from which
nothing was received may be left out. -/
def Carries (settings : StreamSettings) (received : Backlog) (batches : List StreamBatch) : Prop :=
  ∀ {α : Type} (f : StreamBatch → List α), (∀ key, f ⟨key, []⟩ = []) →
    batches.flatMap f = Subject.all.flatMap fun subject => f (batchOn settings received subject)

section Carrying

variable {settings : StreamSettings} {received : Backlog} {batches : List StreamBatch}
  {subscription : Subscription}

theorem carries_backlogBatches (broker : Broker) (count : Nat) :
    Carries settings (fun subject => (pendingOn settings broker subject).take count)
      (broker.backlogBatches settings.group settings.consumer count
        (Subject.all.map settings.key)) := by
  intro α f _
  rw [backlogBatches, List.map_map, List.flatMap_map]
  rfl

theorem carries_filterMap_batch? (given : String → List LogEntry) :
    Carries settings (fun subject => given (settings.key subject))
      ((Subject.all.map settings.key).filterMap fun key => batch? key (given key)) := by
  intro α f hempty
  rw [List.filterMap_map]
  induction Subject.all with
  | nil => rfl
  | cons subject subjects ih =>
    have hhead : f (batchOn settings (fun subject => given (settings.key subject)) subject)
        = ((batch? (settings.key subject) (given (settings.key subject))).toList).flatMap f := by
      rw [batchOn, batch?]
      cases given (settings.key subject) with
      | nil => exact hempty _
      | cons entry entries => exact (List.append_nil _).symm
    rw [List.filterMap_cons, List.flatMap_cons, ← ih, hhead]
    cases hbatch : batch? (settings.key subject) (given (settings.key subject)) with
    | none => simp only [Function.comp, hbatch, Option.toList_none, List.flatMap_nil,
        List.nil_append]
    | some batch => simp only [Function.comp, hbatch, Option.toList_some, List.flatMap_cons,
        List.flatMap_nil, List.append_nil]

/-- The message of an entry of the stream of a subject. -/
def messageIn (subject : Subject) (entry : LogEntry) : Option Message :=
  messageOf? subject entry.sent

/-- Of the messages of all subjects those about one are its own. -/
theorem onSubject_flatMap_all {messages : Subject → List Message}
    (h : ∀ subject, ∀ message ∈ messages subject, message.event.subject = subject)
    (subject : Subject) : onSubject subject (Subject.all.flatMap messages) = messages subject := by
  have hself : onSubject subject (messages subject) = messages subject :=
    List.filter_eq_self.mpr fun message hmem => beq_iff_eq.mpr (h subject message hmem)
  have hother : ∀ subject', subject' ≠ subject → onSubject subject (messages subject') = [] := by
    intro subject' hne
    refine List.filter_eq_nil_iff.mpr fun message hmem heq => hne ?_
    rw [← h subject' message hmem, beq_iff_eq.mp heq]
  simp only [onSubject] at hself hother ⊢
  simp only [Subject.all, List.flatMap_cons, List.flatMap_nil, List.append_nil,
    List.filter_append]
  cases subject with
  | roleGrants => simp [hself, hother]
  | roleValues => simp [hself, hother]
  | jobCeilings => simp [hself, hother]

variable (hsettings : subscription.settings = settings)
variable (hcarries : Carries settings received batches)
include hsettings hcarries

omit hcarries in
theorem subjectOf_batchOn (subject : Subject) :
    subscription.subjectOf (batchOn settings received subject).key = some subject := by
  rw [subjectOf_eq_some_iff, hsettings]
  rfl

/-- The messages about a subject are those of the entries received from its stream. -/
theorem onSubject_messages (subject : Subject) :
    onSubject subject (subscription.sort batches).messages
      = (received subject).filterMap (messageIn subject) := by
  have hsubject : ∀ subject, subscription.messagesOf (batchOn settings received subject)
      = (received subject).filterMap (messageIn subject) := by
    intro subject
    rw [messagesOf, subjectOf_batchOn hsettings, batchOn]
    exact List.filterMap_map
  rw [messages_sort, hcarries]
  · rw [← hsubject]
    refine onSubject_flatMap_all (fun subject message hmem => ?_) subject
    rw [hsubject] at hmem
    obtain ⟨entry, -, hmessage⟩ := List.mem_filterMap.mp hmem
    exact (of_messageOf? hmessage).2
  · intro key
    rw [messagesOf]
    split <;> rfl

/-- The malformed entries on the stream of a subject are those received from it that have no
message. -/
theorem mem_malformed_iff {subject : Subject} {id : String} :
    (settings.key subject, id) ∈ (subscription.sort batches).malformed ↔
      ∃ entry ∈ received subject, messageIn subject entry = none ∧ entry.number.text = id := by
  have hsubject : ∀ subject, subscription.malformedOf (batchOn settings received subject)
      = ((received subject).filter fun entry => (messageIn subject entry).isNone).map
        fun entry => (settings.key subject, entry.number.text) := by
    intro subject
    rw [malformedOf, subjectOf_batchOn hsettings, batchOn]
    simp only [List.filter_map, List.map_map]
    rfl
  rw [malformed_sort, hcarries, List.mem_flatMap]
  · constructor
    · rintro ⟨subject', -, hmem⟩
      rw [hsubject, List.mem_map] at hmem
      obtain ⟨entry, hentry, heq⟩ := hmem
      obtain ⟨hkey, rfl⟩ := Prod.mk.inj heq
      cases StreamSettings.key_inj.mp hkey
      obtain ⟨hread, hnone⟩ := List.mem_filter.mp hentry
      exact ⟨entry, hread, Option.isNone_iff_eq_none.mp hnone, rfl⟩
    · rintro ⟨entry, hread, hnone, rfl⟩
      refine ⟨subject, subject.mem_all, ?_⟩
      rw [hsubject]
      exact List.mem_map.mpr
        ⟨entry, List.mem_filter.mpr ⟨hread, Option.isNone_iff_eq_none.mpr hnone⟩, rfl⟩
  · intro key
    rw [malformedOf]
    split <;> rfl

/-- A read that brings no entry has received none from any stream. -/
theorem received_sort_eq_zero_iff :
    (subscription.sort batches).received = 0 ↔ ∀ subject, received subject = [] := by
  have hsubject : ∀ subject, subscription.knownOf (batchOn settings received subject)
      = (received subject).map LogEntry.sent := by
    intro subject
    rw [knownOf, subjectOf_batchOn hsettings, batchOn]
  rw [received_sort, hcarries, List.length_eq_zero_iff, List.flatMap_eq_nil_iff]
  · constructor
    · intro h subject
      have hnil := h subject subject.mem_all
      rw [hsubject] at hnil
      exact List.map_eq_nil_iff.mp hnil
    · intro h subject _
      rw [hsubject, h subject]
      rfl
  · intro key
    rw [knownOf]
    split <;> rfl

end Carrying

section Reading

variable {settings : StreamSettings}
  {schedule : Nat → Occasion settings.group settings.consumer}
  {subscription : Subscription} {served : Served}

variable (schedule subscription served) in
/-- The server after the command of a read. -/
abbrev afterRead : Reply × Served :=
  (server schedule).send subscription.connection subscription.readCommand served

/-- A read fails on its command, or at the acknowledgement of an entry that is malformed, or it
takes in what it has received. -/
theorem readBatch_cases (schedule : Nat → Occasion settings.group settings.consumer)
    (subscription : Subscription) (served : Served) :
    (∃ fault, (afterRead schedule subscription served).1.batches? = none ∧
      subscription.readBatch (server schedule) served
        = (.error fault, subscription, (afterRead schedule subscription served).2)) ∨
    ∃ batches, (afterRead schedule subscription served).1.batches? = some batches ∧
      ((∃ fault, (subscription.acknowledgeAll (server schedule)
          (subscription.sort batches).malformed
          (afterRead schedule subscription served).2).1 = .error fault ∧
        subscription.readBatch (server schedule) served
          = (.error fault, { subscription with
              buffered := subscription.buffered ++ (subscription.sort batches).messages },
            (subscription.acknowledgeAll (server schedule)
              (subscription.sort batches).malformed
              (afterRead schedule subscription served).2).2)) ∨
      ((subscription.acknowledgeAll (server schedule)
          (subscription.sort batches).malformed
          (afterRead schedule subscription served).2).1 = .ok () ∧
        subscription.readBatch (server schedule) served
          = (.ok (), { subscription with
              buffered := subscription.buffered ++ (subscription.sort batches).messages
              drained := subscription.drained || (subscription.sort batches).received == 0 },
            (subscription.acknowledgeAll (server schedule)
              (subscription.sort batches).malformed
              (afterRead schedule subscription served).2).2))) := by
  rw [readBatch]
  dsimp only
  split
  · next hnone => exact Or.inl ⟨_, hnone, rfl⟩
  · next batches hbatches =>
    refine Or.inr ⟨batches, hbatches, ?_⟩
    split
    · next fault served' hack => exact Or.inl ⟨fault, congrArg Prod.fst hack, by rw [hack]⟩
    · next served' hack => exact Or.inr ⟨congrArg Prod.fst hack, by rw [hack]⟩

variable (hsettings : subscription.settings = settings)
include hsettings

/-- What a subscription reads is noted. -/
theorem wasRead_of_mem {batches : List StreamBatch} {batch : StreamBatch} {subject : Subject}
    {entry : StreamEntry}
    (hbatches : (afterRead schedule subscription served).1.batches? = some batches)
    (hbatch : batch ∈ batches) (hkey : subscription.settings.key subject = batch.key)
    (hentry : entry ∈ batch.entries) :
    WasRead settings (afterRead schedule subscription served).2.notes subject entry := by
  have hreply : (afterRead schedule subscription served).1 = .batches batches := by
    cases hreply : (afterRead schedule subscription served).1 with
    | batches found =>
      rw [hreply] at hbatches
      exact congrArg _ (Option.some.inj hbatches)
    | nothing =>
      rw [hreply] at hbatches
      cases Option.some.inj hbatches
      cases hbatch
    | done => rw [hreply] at hbatches; cases hbatches
    | number value => rw [hreply] at hbatches; cases hbatches
    | text value => rw [hreply] at hbatches; cases hbatches
    | error code => rw [hreply] at hbatches; cases hbatches
    | lost => rw [hreply] at hbatches; cases hbatches
  rw [notes_send, hreply, readCommand, hsettings]
  exact ⟨_, _, _, _, batches, batch, List.mem_append_right _ List.mem_cons_self, hbatch,
    (hsettings ▸ hkey).symm, hentry⟩

/-- The messages of a read are those of entries that have been read. -/
theorem wasObtained_of_mem_messages {batches : List StreamBatch} {message : Message}
    (hbatches : (afterRead schedule subscription served).1.batches? = some batches)
    (hmem : message ∈ (subscription.sort batches).messages) :
    WasObtained settings (afterRead schedule subscription served).2.notes message := by
  obtain ⟨batch, hbatch, hkey, entry, hentry, hmessage⟩ := exists_of_mem_messages_sort hmem
  exact ⟨entry, wasRead_of_mem hsettings hbatches hbatch hkey hentry, hmessage⟩

/-- The malformed entries of a read have been read. -/
theorem wasMalformed_of_mem_malformed {batches : List StreamBatch} {key id : String}
    (hbatches : (afterRead schedule subscription served).1.batches? = some batches)
    (hmem : (key, id) ∈ (subscription.sort batches).malformed) :
    WasMalformed settings (afterRead schedule subscription served).2.notes key id := by
  obtain ⟨batch, hbatch, hkey, subject, hsubject, entry, hentry, hid, hnone⟩ :=
    exists_of_mem_malformed_sort hmem
  refine ⟨subject, entry, (hsettings ▸ hsubject).symm, hid, ?_, hnone⟩
  exact wasRead_of_mem hsettings hbatches hbatch (hsubject.trans hkey.symm) hentry

/-- The backlog is read without a change to it.  New entries are pending once they are read, and
come off what nobody has been given. -/
theorem of_readCommand {batches : List StreamBatch}
    (hbatches : (afterRead schedule subscription served).1.batches? = some batches) :
    ∃ received : Backlog, Carries settings received batches ∧
      (subscription.drained = false → ∀ subject,
        received subject = (pendingOn settings served.broker subject).take
          (max settings.batchSize 1) ∧
        pendingOn settings (afterRead schedule subscription served).2.broker subject
          = pendingOn settings served.broker subject) ∧
      (subscription.drained = true → ∀ subject,
        pendingOn settings (afterRead schedule subscription served).2.broker subject
          = pendingOn settings served.broker subject ++ received subject ∧
        ∃ new, ((afterRead schedule subscription served).2.broker
            (settings.key subject)).entries
            = (served.broker (settings.key subject)).entries ++ new ∧
          (received subject ++ ((afterRead schedule subscription served).2.broker
            (settings.key subject)).unread settings.group).Sublist
            ((served.broker (settings.key subject)).unread settings.group ++ new)) := by
  rw [afterRead, readCommand, hsettings] at hbatches
  rw [afterRead, readCommand, hsettings]
  cases hdrained : subscription.drained with
  | false =>
    rw [hdrained] at hbatches
    obtain ⟨rfl, hsame⟩ := of_read_backlog schedule subscription.connection served hbatches
    refine ⟨_, carries_backlogBatches served.broker (max settings.batchSize 1),
      fun _ subject => ⟨rfl, hsame (settings.key subject)⟩, fun h => by cases h⟩
  | true =>
    rw [hdrained] at hbatches
    obtain ⟨given, rfl, hgiven⟩ := of_read_new schedule subscription.connection served hbatches
    refine ⟨_, carries_filterMap_batch? given, fun h => (by cases h), fun _ subject => ?_⟩
    exact hgiven (settings.key subject) (List.mem_map_of_mem subject.mem_all)

/-- An answered read succeeds, if the groups have been joined. -/
theorem isSome_batches?_afterRead (h : (schedule served.clock).outcome.IsAnswered)
    (hjoined : ∀ subject, ((served.broker (settings.key subject)).groups settings.group).isSome) :
    (afterRead schedule subscription served).1.batches?.isSome := by
  rw [afterRead, readCommand, hsettings]
  refine isSome_batches?_of_isAnswered schedule _ served h fun key hkey => ?_
  obtain ⟨subject, -, rfl⟩ := List.mem_map.mp hkey
  exact hjoined subject

end Reading

end Subscription

/-! ## Subscribing -/

section Subscribing

variable {settings : StreamSettings}
  {schedule : Nat → Occasion settings.group settings.consumer}

theorem since_joinGroups (schedule : Nat → Occasion settings.group settings.consumer)
    (connection : Connection) (subjects : List Subject) (served : Served) :
    served.Since settings
      (settings.joinGroups (server schedule) connection subjects served).2 := by
  induction subjects generalizing served with
  | nil => exact .refl settings served
  | cons subject subjects ih =>
    have hfirst := Subscription.since_send schedule served connection
      (.createGroup (settings.key subject) settings.group)
    rw [StreamSettings.joinGroups]
    dsimp only
    split
    · exact hfirst.trans (ih _)
    · exact hfirst

/-- Joining groups is always in order. -/
theorem inOrder_joinGroups {backlog : Backlog} {served : Served}
    (schedule : Nat → Occasion settings.group settings.consumer) (connection : Connection)
    (subjects : List Subject)
    (horder : EachAfter (InOrder settings backlog) served.notes) :
    EachAfter (InOrder settings backlog)
      (settings.joinGroups (server schedule) connection subjects served).2.notes := by
  induction subjects generalizing served with
  | nil => exact horder
  | cons subject subjects ih =>
    have hfirst : EachAfter (InOrder settings backlog) ((server schedule).send connection
        (.createGroup (settings.key subject) settings.group) served).2.notes :=
      horder.concat trivial
    rw [StreamSettings.joinGroups]
    dsimp only
    split
    · exact ih hfirst
    · exact hfirst

/-- Whoever has joined all groups is in them. -/
theorem joined_of_joinGroups {connection : Connection} {subjects : List Subject} {served : Served}
    (h : (settings.joinGroups (server schedule) connection subjects served).1 = .ok ())
    {subject : Subject} (hmem : subject ∈ subjects) :
    (((settings.joinGroups (server schedule) connection subjects served).2.broker
      (settings.key subject)).groups settings.group).isSome := by
  induction subjects generalizing served with
  | nil => cases hmem
  | cons first subjects ih =>
    rw [StreamSettings.joinGroups] at h ⊢
    dsimp only at h ⊢
    split at h
    · next hready =>
      rw [if_pos hready]
      rcases List.mem_cons.mp hmem with rfl | hrest
      · have hjoined := (of_isGroupReady schedule connection served hready).1
        exact ((since_joinGroups schedule connection subjects _).grows _).joined hjoined
      · exact ih h hrest
    · cases h

/-- A subscription that has been opened has read nothing, and its groups have been joined. -/
theorem of_subscribe {backlog : Backlog} {served served' : Served} {subscription : Subscription}
    (horder : EachAfter (InOrder settings backlog) served.notes)
    (h : settings.subscribe (server schedule) served = (.ok subscription, served')) :
    (subscription.settings = settings ∧ subscription.drained = false ∧
      subscription.buffered = []) ∧
    returnedIn served'.notes = returnedIn served.notes ∧
    EachAfter (InOrder settings backlog) served'.notes ∧
    ∀ subject, ((served'.broker (settings.key subject)).groups settings.group).isSome := by
  obtain ⟨-, -, hnotes⟩ := of_connect schedule served
  rw [StreamSettings.subscribe] at h
  split at h
  · cases h
  · split at h
    · cases h
    · next connection between hconnect =>
      rw [hconnect] at hnotes
      rw [← hnotes] at horder
      split at h
      · cases h
      · next after hjoin =>
        obtain ⟨hok, rfl⟩ := Prod.mk.inj h
        cases Except.ok.inj hok
        have hsince := since_joinGroups schedule connection Subject.all between
        have horder' := inOrder_joinGroups schedule connection Subject.all horder
        have hjoined := fun subject : Subject =>
          joined_of_joinGroups (congrArg Prod.fst hjoin) subject.mem_all
        rw [hjoin] at hsince horder' hjoined
        exact ⟨⟨rfl, rfl, rfl⟩, by rw [hsince.returnedIn_eq, hnotes], horder', hjoined⟩

end Subscribing

end GradedAccess
