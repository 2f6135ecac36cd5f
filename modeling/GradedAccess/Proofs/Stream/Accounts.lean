import GradedAccess.Proofs.Stream.Calls
import Mathlib.Data.List.Nodup

/-!
# The accounts of a subscription

The invariant of a subscription that works.  What is pending for the consumer on a stream are first
the entries whose messages wait, either with the user or in the buffer, and then the rest of the
backlog, which has not been read.  So what has been returned, what waits in the buffer, the rest of
the backlog and the entries nobody has been given are, in this order, a part of the stream
(`Accounts.order`), and this is why nothing is returned twice or out of order.

Every call of a subscription keeps `Working`, or it fails and leaves a chapter that is orderly
(`Faithful.orderly`).  The buffer is empty whenever the subscription reads, since messages are
acknowledged one by one, and an entry that is malformed is acknowledged before the next read.  This
is why a read of the backlog, which starts from the first pending entry every time, never brings an
entry again.
-/

namespace GradedAccess

open Broker Subscription

/-! ## Lists of entries -/

section Lists

variable {subject : Subject} {entries : List LogEntry}

/-- A message is delivered with the number of its entry. -/
theorem delivery_of_messageIn {entry : LogEntry} {message : Message}
    (h : messageIn subject entry = some message) :
    message.delivery = entry.number.text ∧ message.event.subject = subject :=
  of_messageOf? h

/-- The messages of entries have the numbers of those entries that have one. -/
theorem map_delivery_filterMap (subject : Subject) (entries : List LogEntry) :
    (entries.filterMap (messageIn subject)).map Message.delivery
      = ((entries.filter fun entry => (messageIn subject entry).isSome).map
          LogEntry.number).map EntryNumber.text := by
  induction entries with
  | nil => rfl
  | cons entry entries ih =>
    cases hmessage : messageIn subject entry with
    | none => simpa [hmessage] using ih
    | some message => simpa [hmessage, (delivery_of_messageIn hmessage).1] using ih

/-- The entries with a message have their messages. -/
theorem map_filter_isSome (subject : Subject) (entries : List LogEntry) :
    (entries.filter fun entry => (messageIn subject entry).isSome).map (messageIn subject)
      = (entries.filterMap (messageIn subject)).map some := by
  induction entries with
  | nil => rfl
  | cons entry entries ih =>
    cases hmessage : messageIn subject entry with
    | none => simpa [hmessage] using ih
    | some message => simpa [hmessage] using ih

/-- Of entries that were received and others, acknowledging the malformed ones among the first takes
off just these. -/
theorem filter_settled {received rest : List LogEntry} {settled : String → Prop}
    [DecidablePred settled] (hascending : Ascending (received ++ rest))
    (hsettled : ∀ id, settled id ↔
      ∃ entry ∈ received, messageIn subject entry = none ∧ entry.number.text = id) :
    (received ++ rest).filter (fun entry => decide ¬settled entry.number.text)
      = (received.filter fun entry => (messageIn subject entry).isSome) ++ rest := by
  have hnodup := hascending.nodup_text
  have hinj := List.inj_on_of_nodup_map hnodup
  rw [List.filter_append]
  congr 1
  · refine List.filter_congr fun entry hentry => ?_
    have hiff : settled entry.number.text ↔ messageIn subject entry = none := by
      rw [hsettled]
      constructor
      · rintro ⟨other, hother, hnone, htext⟩
        rwa [← hinj (List.mem_append_left _ hother) (List.mem_append_left _ hentry) htext]
      · intro hnone
        exact ⟨entry, hentry, hnone, rfl⟩
    rw [decide_not, ← Option.not_isNone]
    cases hmessage : messageIn subject entry with
    | none => simp [hiff, hmessage]
    | some message => simp [hiff, hmessage]
  · refine List.filter_eq_self.mpr fun entry hentry => decide_eq_true ?_
    rw [hsettled]
    rintro ⟨other, hother, -, htext⟩
    -- An entry that was not received would have the number of one that was.
    rw [List.map_append] at hnodup
    exact (List.disjoint_of_nodup_append hnodup) (List.mem_map_of_mem hother)
      (List.mem_map.mpr ⟨entry, hentry, htext.symm⟩)

/-- Elements that differ within each class differ. -/
theorem nodup_map_pair {α β γ : Type} [BEq γ] [LawfulBEq γ] (kind : α → γ) (value : α → β) :
    ∀ list : List α,
      (∀ one, ((list.filter fun element => kind element == one).map value).Nodup) →
      (list.map fun element => (kind element, value element)).Nodup
  | [], _ => List.nodup_nil
  | first :: list, h => by
    rw [List.map_cons, List.nodup_cons]
    constructor
    · intro hmem
      obtain ⟨other, hother, heq⟩ := List.mem_map.mp hmem
      obtain ⟨hkind, hvalue⟩ := Prod.mk.inj heq
      have hfirst := h (kind first)
      rw [List.filter_cons_of_pos (by simp), List.map_cons, List.nodup_cons] at hfirst
      exact hfirst.1 (List.mem_map.mpr
        ⟨other, List.mem_filter.mpr ⟨hother, beq_iff_eq.mpr hkind⟩, hvalue⟩)
    · refine nodup_map_pair kind value list fun one => ?_
      exact (h one).sublist (((List.sublist_cons_self first list).filter _).map _)

end Lists

/-! ## What holds of every chapter -/

/-- What holds of a chapter at any time, whether its subscription works or not. -/
structure Faithful (settings : StreamSettings) (backlog : Backlog) (served : Served) : Prop where
  inOrder : EachAfter (InOrder settings backlog) served.notes
  /-- What has been returned is a part of each stream. -/
  returned : ∀ subject, (onSubject subject (returnedIn served.notes)).Sublist
    ((served.broker (settings.key subject)).entries.filterMap (messageIn subject))

variable {settings : StreamSettings} {backlog : Backlog} {served served' : Served}

/-- Whatever is faithful to the streams is orderly. -/
theorem Faithful.orderly (h : Faithful settings backlog served) :
    Chapter.Orderly settings ⟨backlog, served.notes⟩ := by
  have hascending : ∀ subject, ∃ numbers : List EntryNumber,
      numbers.Pairwise EntryNumber.Before ∧
      (onSubject subject (returnedIn served.notes)).map Message.delivery
        = numbers.map EntryNumber.text := by
    intro subject
    obtain ⟨entries, hsub, heq⟩ := List.sublist_filterMap_iff.mp (h.returned subject)
    refine ⟨(entries.filter fun entry => (messageIn subject entry).isSome).map LogEntry.number,
      ?_, ?_⟩
    · rw [List.pairwise_map]
      exact (served.broker (settings.key subject)).ascending.sublist
        (List.filter_sublist.trans hsub)
    · rw [heq, map_delivery_filterMap]
  refine ⟨h.inOrder, nodup_map_pair _ _ _ fun subject => ?_, hascending⟩
  obtain ⟨numbers, hbefore, heq⟩ := hascending subject
  rw [onSubject] at heq
  rw [heq, List.Nodup, List.pairwise_map]
  refine hbefore.imp fun {number later} hlt htext => ?_
  rw [EntryNumber.text_inj.mp htext] at hlt
  exact EntryNumber.not_before_self _ hlt

/-- A call leaves a chapter faithful if what it says is in order. -/
theorem Faithful.since (h : Faithful settings backlog served)
    (hsince : served.Since settings served')
    (horder : EachAfter (InOrder settings backlog) served'.notes) :
    Faithful settings backlog served' where
  inOrder := horder
  returned subject := by
    rw [hsince.returnedIn_eq]
    exact (h.returned subject).trans ((hsince.grows _).entries.filterMap _)

/-! ## What holds of a subscription that works -/

/-- The accounts of a subscription for one stream: the entries whose messages wait, and the rest of
the backlog. -/
structure Accounts (settings : StreamSettings) (backlog : Backlog) (served : Served)
    (subscription : Subscription) (held : Option Message) (subject : Subject)
    (waiting rest : List LogEntry) : Prop where
  pending : pendingOn settings served.broker subject = waiting ++ rest
  waiting : waiting.map (messageIn subject)
    = (onSubject subject (held.toList ++ subscription.buffered)).map some
  drained : subscription.drained = true → rest = []
  order : (onSubject subject (returnedIn served.notes) ++ onSubject subject subscription.buffered
      ++ (rest ++ (served.broker (settings.key subject)).unread settings.group).filterMap
        (messageIn subject)).Sublist
    ((served.broker (settings.key subject)).entries.filterMap (messageIn subject))
  backlog : ∀ entry ∈ backlog subject, ∀ message, messageIn subject entry = some message →
    .returned message ∈ served.notes ∨ message ∈ subscription.buffered ∨ entry ∈ rest

/-- What holds of a subscription that works, and of the message the user has not yet had
acknowledged. -/
structure Working (settings : StreamSettings) (backlog : Backlog) (served : Served)
    (subscription : Subscription) (held : Option Message) : Prop where
  configured : subscription.settings = settings
  joined : ∀ subject, ((served.broker (settings.key subject)).groups settings.group).isSome
  inOrder : EachAfter (InOrder settings backlog) served.notes
  obtained : ∀ message ∈ held.toList ++ subscription.buffered,
    WasObtained settings served.notes message
  returned : ∀ message ∈ held, .returned message ∈ served.notes
  accounts : ∀ subject, ∃ waiting rest,
    Accounts settings backlog served subscription held subject waiting rest

variable {subscription subscription' : Subscription} {held : Option Message}
  {schedule : Nat → Occasion settings.group settings.consumer}

theorem Working.faithful (h : Working settings backlog served subscription held) :
    Faithful settings backlog served where
  inOrder := h.inOrder
  returned subject := by
    obtain ⟨waiting, rest, haccounts⟩ := h.accounts subject
    have horder := haccounts.order
    rw [List.append_assoc] at horder
    exact (List.sublist_append_left _ _).trans horder

/-- Once the backlog has been read to its end and the buffer is empty, all of it has been
returned. -/
theorem Working.backlogReturned (h : Working settings backlog served subscription held)
    (hdrained : subscription.drained = true) (hempty : subscription.buffered = []) :
    BacklogReturned backlog served.notes := by
  intro subject entry hentry message hmessage
  obtain ⟨waiting, rest, haccounts⟩ := h.accounts subject
  rcases haccounts.backlog entry hentry message hmessage with hreturned | hbuffered | hrest
  · exact hreturned
  · rw [hempty] at hbuffered
    cases hbuffered
  · rw [haccounts.drained hdrained] at hrest
    cases hrest

/-- With nothing in the hands of the user and nothing in the buffer, what is pending has not been
read. -/
theorem Accounts.pending_eq_rest {subject : Subject} {waiting rest : List LogEntry}
    (h : Accounts settings backlog served subscription none subject waiting rest)
    (hempty : subscription.buffered = []) :
    pendingOn settings served.broker subject = rest := by
  have hwaiting := h.waiting
  rw [hempty] at hwaiting
  rw [h.pending, List.map_eq_nil_iff.mp hwaiting, List.nil_append]

/-! ## Opening a subscription -/

/-- A subscription that has just been opened works, and all that is pending is its backlog. -/
theorem working_of_subscribe (hnotes : served.notes = [])
    (h : settings.subscribe (server schedule) served = (.ok subscription, served')) :
    Working settings (pendingOn settings served'.broker) served' subscription none := by
  have hbefore : EachAfter (InOrder settings (pendingOn settings served'.broker)) served.notes :=
    hnotes ▸ EachAfter.nil _
  obtain ⟨⟨hsettings, hdrained, hempty⟩, hreturned, horder, hjoined⟩ := of_subscribe hbefore h
  rw [hnotes] at hreturned
  refine ⟨hsettings, hjoined, horder, ?_, ?_, fun subject => ?_⟩
  · rw [hempty]
    exact fun message hmem => absurd hmem List.not_mem_nil
  · exact fun message hmem => absurd hmem (Option.not_mem_none message)
  · refine ⟨[], pendingOn settings served'.broker subject, rfl, ?_, ?_, ?_, ?_⟩
    · rw [hempty]
      rfl
    · rw [hdrained]
      exact fun h => absurd h Bool.false_ne_true
    · rw [hreturned, hempty]
      exact ((served'.broker (settings.key subject)).pendingFor_append_unread_sublist
        settings.group settings.consumer).filterMap _
    · exact fun entry hentry message _ => Or.inr (Or.inr hentry)

/-! ## Taking a message -/

/-- The first message of the buffer may be handed to the user. -/
theorem Working.take {message : Message} {buffered : List Message}
    (h : Working settings backlog served subscription none)
    (hbuffered : subscription.buffered = message :: buffered) :
    Working settings backlog (Consumer.note served (.returned message))
      { subscription with buffered } (some message) := by
  have hmono : served.notes ⊆ (Consumer.note served (.returned message)).notes :=
    List.subset_append_left _ _
  have hobtained := h.obtained
  rw [hbuffered] at hobtained
  refine ⟨h.configured, h.joined, ?_, ?_, ?_, fun subject => ?_⟩
  · exact h.inOrder.concat (hobtained message List.mem_cons_self)
  · exact fun other hmem => (hobtained other hmem).mono hmono
  · rintro other hother
    cases Option.mem_some_iff.mp hother
    exact List.mem_append_right _ List.mem_cons_self
  · obtain ⟨waiting, rest, haccounts⟩ := h.accounts subject
    refine ⟨waiting, rest, haccounts.pending, ?_, haccounts.drained, ?_, ?_⟩
    · rw [haccounts.waiting, hbuffered]
      rfl
    · have horder := haccounts.order
      have hreturned : onSubject subject (returnedIn
          (Consumer.note served (.returned message)).notes) ++ onSubject subject buffered
          = onSubject subject (returnedIn served.notes)
            ++ onSubject subject subscription.buffered := by
        rw [Consumer.note, returnedIn, List.filterMap_append, onSubject, List.filter_append,
          List.append_assoc, hbuffered, onSubject, onSubject, onSubject, ← List.filter_append]
        rfl
      rw [hreturned]
      exact horder
    · intro entry hentry other hother
      rcases haccounts.backlog entry hentry other hother with hreturned | hwaits | hrest
      · exact Or.inl (hmono hreturned)
      · rw [hbuffered] at hwaits
        rcases List.mem_cons.mp hwaits with rfl | htail
        · exact Or.inl (List.mem_append_right _ List.mem_cons_self)
        · exact Or.inr (Or.inl htail)
      · exact Or.inr (Or.inr hrest)

/-! ## Reading -/

/-- What a read has made of what is pending on a stream: it has received the first entries, and
the malformed ones among them are not pending any more. -/
structure Refilled (settings : StreamSettings) (served served' : Served)
    (subscription' : Subscription) (subject : Subject) (received rest : List LogEntry) : Prop where
  pending : pendingOn settings served'.broker subject
    = (received.filter fun entry => (messageIn subject entry).isSome) ++ rest
  buffered : onSubject subject subscription'.buffered = received.filterMap (messageIn subject)
  grows : ∃ new, (served'.broker (settings.key subject)).entries
      = (served.broker (settings.key subject)).entries ++ new ∧
    (received ++ rest ++ (served'.broker (settings.key subject)).unread settings.group).Sublist
      (pendingOn settings served.broker subject
        ++ (served.broker (settings.key subject)).unread settings.group ++ new)

/-- A read that succeeds has received the first pending entries of each stream, as long as the
backlog has not been read to its end, and new entries after that. -/
theorem refilled_of_readBatch (hsettings : subscription.settings = settings)
    (hempty : subscription.buffered = [])
    (hnone : subscription.drained = true → ∀ subject, pendingOn settings served.broker subject = [])
    (hread : subscription.readBatch (server schedule) served = (.ok (), subscription', served')) :
    ∃ received : Backlog,
      (∀ subject, Refilled settings served served' subscription' subject (received subject)
        ((pendingOn settings served.broker subject).drop (max settings.batchSize 1))) ∧
      (subscription.drained = false → ∀ subject, received subject
        = (pendingOn settings served.broker subject).take (max settings.batchSize 1)) ∧
      (subscription'.drained = true ↔
        subscription.drained = true ∨ ∀ subject, received subject = []) := by
  rcases readBatch_cases schedule subscription served with
    ⟨fault, -, heq⟩ | ⟨batches, hbatches, ⟨fault, -, heq⟩ | ⟨hack, heq⟩⟩
  · rw [heq] at hread
    cases hread
  · rw [heq] at hread
    cases hread
  · rw [heq] at hread
    obtain ⟨-, hrest⟩ := Prod.mk.inj hread
    obtain ⟨rfl, rfl⟩ := Prod.mk.inj hrest
    have hgrows := (since_acknowledgeAll schedule subscription
      (afterRead schedule subscription served).2 (subscription.sort batches).malformed).grows
    have hgrows₀ := grows_send schedule subscription.connection served settings.group
      subscription.readCommand
    obtain ⟨received, hcarries, hbacklog, hnew⟩ := of_readCommand hsettings hbatches
    refine ⟨received, fun subject => ?_, fun hdrained subject => (hbacklog hdrained subject).1, ?_⟩
    · -- The command of the read has made what is received pending.
      have hpending : pendingOn settings (afterRead schedule subscription served).2.broker subject
          = received subject
            ++ (pendingOn settings served.broker subject).drop (max settings.batchSize 1) ∧
          ∃ new, ((afterRead schedule subscription served).2.broker
              (settings.key subject)).entries
              = (served.broker (settings.key subject)).entries ++ new ∧
            (pendingOn settings (afterRead schedule subscription served).2.broker subject
              ++ ((afterRead schedule subscription served).2.broker
                (settings.key subject)).unread settings.group).Sublist
              (pendingOn settings served.broker subject
                ++ (served.broker (settings.key subject)).unread settings.group ++ new) := by
        cases hdrained : subscription.drained with
        | false =>
          obtain ⟨htake, hsame⟩ := hbacklog hdrained subject
          obtain ⟨new, hentries, hunread⟩ := (hgrows₀ (settings.key subject)).unread
          refine ⟨?_, new, hentries, ?_⟩
          · rw [hsame, htake, List.take_append_drop]
          · rw [hsame, List.append_assoc]
            exact hunread.append_left _
        | true =>
          obtain ⟨hsame, new, hentries, hunread⟩ := hnew hdrained subject
          rw [hnone hdrained subject, List.nil_append] at hsame
          refine ⟨?_, new, hentries, ?_⟩
          · rw [hsame, hnone hdrained subject, List.drop_nil, List.append_nil]
          · rw [hsame, hnone hdrained subject, List.nil_append]
            exact hunread
      obtain ⟨hpending, new, hentries, hunread⟩ := hpending
      obtain ⟨new', hentries', hunread'⟩ := (hgrows (settings.key subject)).unread
      have hascending := ((afterRead schedule subscription served).2.broker
        (settings.key subject)).ascending_pendingFor settings.group settings.consumer
      rw [pendingOn] at hpending
      rw [hpending] at hascending
      refine ⟨?_, ?_, new ++ new', ?_, ?_⟩
      · rw [pendingOn, pendingFor_of_acknowledgeAll hsettings hack, hpending]
        exact filter_settled hascending fun id => mem_malformed_iff hsettings hcarries
      · rw [hempty, List.nil_append]
        exact onSubject_messages hsettings hcarries subject
      · rw [hentries', hentries, List.append_assoc]
      · rw [← hpending, ← List.append_assoc]
        refine ((List.Sublist.refl _).append hunread').trans ?_
        rw [← List.append_assoc]
        exact hunread.append_right new'
    · rw [Bool.or_eq_true, beq_iff_eq, received_sort_eq_zero_iff hsettings hcarries]

theorem since_readBatch (schedule : Nat → Occasion settings.group settings.consumer)
    (subscription : Subscription) (served : Served) :
    served.Since settings (subscription.readBatch (server schedule) served).2.2 := by
  have hread := since_send schedule served subscription.connection subscription.readCommand
  rcases readBatch_cases schedule subscription served with
    ⟨fault, -, heq⟩ | ⟨batches, -, ⟨fault, -, heq⟩ | ⟨-, heq⟩⟩
  · rw [heq]
    exact hread
  · rw [heq]
    exact hread.trans (since_acknowledgeAll schedule subscription _ _)
  · rw [heq]
    exact hread.trans (since_acknowledgeAll schedule subscription _ _)

/-- New entries are asked for only when the backlog has been returned, and only malformed entries
are acknowledged by a read. -/
theorem Working.inOrder_readBatch (h : Working settings backlog served subscription held)
    (schedule : Nat → Occasion settings.group settings.consumer)
    (hempty : subscription.buffered = []) :
    EachAfter (InOrder settings backlog)
      (subscription.readBatch (server schedule) served).2.2.notes := by
  have hread : EachAfter (InOrder settings backlog)
      (afterRead schedule subscription served).2.notes :=
    h.inOrder.concat fun hdrained => h.backlogReturned hdrained hempty
  have hacks : ∀ batches, (afterRead schedule subscription served).1.batches? = some batches →
      EachAfter (InOrder settings backlog) (subscription.acknowledgeAll (server schedule)
        (subscription.sort batches).malformed
        (afterRead schedule subscription served).2).2.notes := fun batches hbatches =>
    inOrder_acknowledgeAll h.configured hread fun entry hentry =>
      wasMalformed_of_mem_malformed h.configured hbatches hentry
  rcases readBatch_cases schedule subscription served with
    ⟨fault, -, heq⟩ | ⟨batches, hbatches, ⟨fault, -, heq⟩ | ⟨-, heq⟩⟩
  · rw [heq]
    exact hread
  · rw [heq]
    exact hacks batches hbatches
  · rw [heq]
    exact hacks batches hbatches

/-- The messages in the buffer after a read have been read. -/
theorem Working.obtained_readBatch (h : Working settings backlog served subscription held)
    (hempty : subscription.buffered = [])
    (hread : subscription.readBatch (server schedule) served = (.ok (), subscription', served')) :
    ∀ message ∈ subscription'.buffered, WasObtained settings served'.notes message := by
  rcases readBatch_cases schedule subscription served with
    ⟨fault, -, heq⟩ | ⟨batches, hbatches, ⟨fault, -, heq⟩ | ⟨-, heq⟩⟩
  · rw [heq] at hread
    cases hread
  · rw [heq] at hread
    cases hread
  · rw [heq] at hread
    obtain ⟨-, hrest⟩ := Prod.mk.inj hread
    obtain ⟨rfl, rfl⟩ := Prod.mk.inj hrest
    intro message hmem
    rw [hempty, List.nil_append] at hmem
    have hsince := since_acknowledgeAll schedule subscription
      (afterRead schedule subscription served).2 (subscription.sort batches).malformed
    exact (wasObtained_of_mem_messages h.configured hbatches hmem).mono fun _ => hsince.mem

theorem configured_readBatch
    (hread : subscription.readBatch (server schedule) served = (.ok (), subscription', served')) :
    subscription'.settings = subscription.settings := by
  rcases readBatch_cases schedule subscription served with
    ⟨fault, -, heq⟩ | ⟨batches, -, ⟨fault, -, heq⟩ | ⟨-, heq⟩⟩
  · rw [heq] at hread
    cases hread
  · rw [heq] at hread
    cases hread
  · rw [heq] at hread
    cases hread
    rfl

/-- A read that succeeds keeps the accounts. -/
theorem Working.readBatch (h : Working settings backlog served subscription none)
    (hempty : subscription.buffered = [])
    (hread : subscription.readBatch (server schedule) served = (.ok (), subscription', served')) :
    Working settings backlog served' subscription' none := by
  have hrest : ∀ subject, ∃ waiting, Accounts settings backlog served subscription none subject
      waiting (pendingOn settings served.broker subject) := by
    intro subject
    obtain ⟨waiting, rest, haccounts⟩ := h.accounts subject
    rw [haccounts.pending_eq_rest hempty]
    exact ⟨waiting, haccounts⟩
  have hnone : subscription.drained = true →
      ∀ subject, pendingOn settings served.broker subject = [] := fun hdrained subject =>
    (hrest subject).choose_spec.drained hdrained
  obtain ⟨received, hrefilled, htake, hdrained'⟩ :=
    refilled_of_readBatch h.configured hempty hnone hread
  have hsince := since_readBatch schedule subscription served
  have horder := h.inOrder_readBatch schedule hempty
  rw [hread] at hsince horder
  refine ⟨(configured_readBatch hread).trans h.configured,
    fun subject => (hsince.grows _).joined (h.joined subject), horder,
    h.obtained_readBatch hempty hread, fun message hmem => absurd hmem (Option.not_mem_none _),
    fun subject => ?_⟩
  obtain ⟨waiting, haccounts⟩ := hrest subject
  obtain ⟨hpending, hbuffered, new, hentries, hunread⟩ := hrefilled subject
  refine ⟨_, _, hpending, ?_, ?_, ?_, ?_⟩
  · rw [map_filter_isSome, Option.toList_none, List.nil_append, hbuffered]
  · rw [hdrained']
    rintro (hdrained | hreceived)
    · rw [hnone hdrained, List.drop_nil]
    · cases hdrained : subscription.drained with
      | true => rw [hnone hdrained, List.drop_nil]
      | false =>
        -- A read that receives none of the pending entries finds none pending.
        have hnil := (htake hdrained subject).symm.trans (hreceived subject)
        rw [List.take_eq_nil_iff] at hnil
        rcases hnil with hzero | hnil
        · exact absurd hzero (by omega)
        · rw [hnil, List.drop_nil]
  · have hold := haccounts.order
    have hempty' : onSubject subject subscription.buffered = [] := by
      rw [hempty]
      rfl
    rw [hempty', List.append_nil] at hold
    have hunread := (hunread.filterMap (messageIn subject)).append_left
      (onSubject subject (returnedIn served.notes))
    rw [hsince.returnedIn_eq, hbuffered, hentries]
    simp only [List.filterMap_append, ← List.append_assoc] at hunread hold ⊢
    exact hunread.trans (hold.append_right _)
  · intro entry hentry message hmessage
    rcases haccounts.backlog entry hentry message hmessage with hreturned | hwaits | hmem
    · exact Or.inl (hsince.mem hreturned)
    · rw [hempty] at hwaits
      cases hwaits
    · right
      cases hdrained : subscription.drained with
      | true =>
        rw [hnone hdrained] at hmem
        cases hmem
      | false =>
        rw [← List.take_append_drop (max settings.batchSize 1)
          (pendingOn settings served.broker subject), List.mem_append,
          ← htake hdrained subject] at hmem
        rcases hmem with hreceived | hlater
        · left
          have hmem : message ∈ onSubject subject subscription'.buffered := by
            rw [hbuffered]
            exact List.mem_filterMap.mpr ⟨entry, hreceived, hmessage⟩
          exact (mem_onSubject.mp hmem).1
        · exact Or.inr hlater

/-! ## Acknowledging a message -/

/-- Once the user asks for it, the acknowledgement of its message is in order. -/
theorem Working.inOrder_acknowledge {message : Message}
    (h : Working settings backlog served subscription (some message))
    (schedule : Nat → Occasion settings.group settings.consumer) :
    EachAfter (InOrder settings backlog) (subscription.acknowledge (server schedule) message
      (Consumer.note served (.acknowledging message))).2.notes := by
  have hreturned := h.returned message rfl
  have hmono : served.notes ⊆ (Consumer.note served (.acknowledging message)).notes :=
    List.subset_append_left _ _
  refine inOrder_acknowledgeEntry h.configured (h.inOrder.concat hreturned) (Or.inr ?_)
  refine ⟨message, by rw [h.configured], rfl, ?_, hmono hreturned, List.getLast?_concat⟩
  exact (h.obtained message List.mem_cons_self).mono hmono

/-- What is pending when a message has been acknowledged. -/
theorem Working.pendingOn_acknowledge {message : Message}
    (h : Working settings backlog served subscription (some message))
    (hack : subscription.acknowledge (server schedule) message
      (Consumer.note served (.acknowledging message)) = (.ok (), served')) (subject : Subject) :
    ∃ waiting rest, Accounts settings backlog served subscription (some message) subject
        waiting rest ∧
      pendingOn settings served'.broker subject
        = (if message.event.subject = subject then waiting.tail else waiting) ++ rest := by
  obtain ⟨waiting, rest, haccounts⟩ := h.accounts subject
  refine ⟨waiting, rest, haccounts, ?_⟩
  have hfilter := pendingFor_of_acknowledgeEntry h.configured (congrArg Prod.fst hack)
    (settings.key subject)
  rw [← Subscription.acknowledge, hack, h.configured] at hfilter
  have hpending : ((Consumer.note served (.acknowledging message)).broker
      (settings.key subject)).pendingFor settings.group settings.consumer = waiting ++ rest :=
    haccounts.pending
  rw [pendingOn, hfilter, hpending]
  by_cases hsubject : message.event.subject = subject
  · subst hsubject
    rw [if_pos rfl]
    have hascending := (served.broker (settings.key message.event.subject)).ascending_pendingFor
      settings.group settings.consumer
    rw [← pendingOn, haccounts.pending] at hascending
    have hwaiting := haccounts.waiting
    rw [Option.toList_some, List.singleton_append, onSubject_cons_of_eq _ rfl,
      List.map_cons] at hwaiting
    cases waiting with
    | nil => cases hwaiting
    | cons entry waiting =>
      rw [List.map_cons] at hwaiting
      have htext := (delivery_of_messageIn (List.cons.inj hwaiting).1).1
      have hnodup := hascending.nodup_text
      rw [List.cons_append, List.map_cons, List.nodup_cons] at hnodup
      rw [List.cons_append, List.tail_cons, List.filter_cons_of_neg (by simp [htext])]
      refine List.filter_eq_self.mpr fun other hother => ?_
      have hne : other.number.text ≠ message.delivery := by
        intro heq
        exact hnodup.1 (List.mem_map.mpr ⟨other, hother, heq.trans htext⟩)
      rw [beq_false_of_ne hne, Bool.and_false]
      rfl
  · rw [if_neg hsubject]
    have hkey : settings.key subject ≠ settings.key message.event.subject := fun heq =>
      hsubject (StreamSettings.key_inj.mp heq).symm
    refine List.filter_eq_self.mpr fun other _ => ?_
    rw [beq_false_of_ne hkey]
    rfl

/-- An acknowledgement that succeeds keeps the accounts. -/
theorem Working.acknowledge {message : Message}
    (h : Working settings backlog served subscription (some message))
    (hack : subscription.acknowledge (server schedule) message
      (Consumer.note served (.acknowledging message)) = (.ok (), served')) :
    Working settings backlog served' subscription none := by
  have hsince := since_acknowledgeEntry schedule subscription
    (Consumer.note served (.acknowledging message))
    (subscription.settings.key message.event.subject) message.delivery
  have horder := h.inOrder_acknowledge schedule
  rw [← Subscription.acknowledge, hack] at hsince
  rw [hack] at horder
  have hmono : served.notes ⊆ served'.notes := fun note hnote =>
    hsince.mem (List.mem_append_left _ hnote)
  have hreturned : returnedIn served'.notes = returnedIn served.notes := by
    rw [hsince.returnedIn_eq, Consumer.note, returnedIn, List.filterMap_append]
    exact List.append_nil _
  refine ⟨h.configured, fun subject => (hsince.grows _).joined (h.joined subject), horder, ?_,
    fun message hmem => absurd hmem (Option.not_mem_none _), fun subject => ?_⟩
  · intro other hother
    exact (h.obtained other (List.mem_append_right _ hother)).mono hmono
  · obtain ⟨waiting, rest, haccounts, hpending⟩ := h.pendingOn_acknowledge hack subject
    obtain ⟨new, hentries, hunread⟩ := (hsince.grows (settings.key subject)).unread
    refine ⟨_, rest, hpending, ?_, haccounts.drained, ?_, ?_⟩
    · have hwaiting := haccounts.waiting
      rw [Option.toList_some, List.singleton_append] at hwaiting
      rw [Option.toList_none, List.nil_append]
      by_cases hsubject : message.event.subject = subject
      · rw [onSubject_cons_of_eq _ hsubject] at hwaiting
        rw [if_pos hsubject, List.map_tail, hwaiting]
        rfl
      · rw [onSubject_cons_of_ne _ hsubject] at hwaiting
        rw [if_neg hsubject, hwaiting]
    · have hold := haccounts.order
      have hunread := (hunread.filterMap (messageIn subject)).append_left
        (onSubject subject (returnedIn served.notes) ++ onSubject subject subscription.buffered
          ++ rest.filterMap (messageIn subject))
      rw [hreturned, hentries]
      simp only [List.filterMap_append, ← List.append_assoc] at hunread hold ⊢
      exact hunread.trans (hold.append_right _)
    · intro entry hentry other hother
      exact (haccounts.backlog entry hentry other hother).imp_left fun hnote => hmono hnote

/-! ## The next message -/

/-- What is left when the next message has been asked for. -/
def AfterNext (settings : StreamSettings) (backlog : Backlog) :
    Option (Except Fault Message) × Subscription × Served → Prop
  | (some (.ok message), subscription, served) =>
    Working settings backlog (Consumer.note served (.returned message)) subscription (some message)
  | (some (.error _), _, served) => Faithful settings backlog served
  | (none, subscription, served) => Working settings backlog served subscription none

/-- However many reads the next message takes, the accounts are kept. -/
theorem Working.nextMessage (h : Working settings backlog served subscription none) (reads : Nat) :
    AfterNext settings backlog
      (subscription.nextMessage (server schedule) served reads) := by
  induction reads generalizing served subscription with
  | zero =>
    rw [Subscription.nextMessage, take?]
    cases hbuffered : subscription.buffered with
    | nil => exact h
    | cons message buffered => exact h.take hbuffered
  | succ reads ih =>
    rw [Subscription.nextMessage, take?]
    cases hbuffered : subscription.buffered with
    | cons message buffered => exact h.take hbuffered
    | nil =>
      dsimp only
      split
      · next fault subscription' served' hread =>
        have hsince := since_readBatch schedule subscription served
        have horder := h.inOrder_readBatch schedule hbuffered
        rw [hread] at hsince horder
        exact h.faithful.since hsince horder
      · next subscription' served' hread => exact ih (h.readBatch hbuffered hread)

end GradedAccess
