import GradedAccess.Stream.Server
import Mathlib.Data.List.Basic
import Mathlib.Logic.Function.Basic

/-!
# Streams with consumer groups

The streams a server keeps.  A stream is a log of entries whose numbers ascend.  A group has got to
some place in the log: what lies before has been given out to its consumers, and what a consumer
has been given stays pending for it until the entry is acknowledged.  That the numbers ascend and
that the pending entries are in the order of the log is part of the type `StreamLog`, so every
operation keeps it.

What one consumer sees of a stream are its pending entries and the entries nobody in its group has
been given.  Nothing other consumers do changes what is pending for this one.  And whatever anybody
does, the log only grows at its end, and what nobody has been given only gets longer by what is
appended (`StreamLog.Grows`).
-/

namespace GradedAccess

/-! ## Numbers of entries -/

/-- The number of an entry: the time it was appended, and a counter for entries of the same time. -/
structure EntryNumber where
  time : Nat
  counter : Nat
  deriving DecidableEq, Repr

namespace EntryNumber

/-- The order of the entries of a stream. -/
def Before (number later : EntryNumber) : Prop :=
  number.time < later.time ∨ number.time = later.time ∧ number.counter < later.counter

instance (number later : EntryNumber) : Decidable (number.Before later) :=
  inferInstanceAs (Decidable (_ ∨ _))

theorem not_before_self (number : EntryNumber) : ¬number.Before number := by
  rintro (h | ⟨-, h⟩)
  · exact Nat.lt_irrefl _ h
  · exact Nat.lt_irrefl _ h

/-- The number as the server sends it. -/
def text (number : EntryNumber) : String :=
  toString number.time ++ "-" ++ toString number.counter

theorem dash_notMem_toString (n : Nat) : '-' ∉ (toString n).toList := by
  intro h
  have hdigit : ('-').isDigit = true :=
    Nat.isDigit_of_mem_toDigits (b := 10) (n := n) (by decide) (by decide)
      (by simpa [Nat.repr] using h)
  exact absurd hdigit (by decide)

/-- The digits of a number say which number it is. -/
theorem eq_of_toList_toString {n n' : Nat} (h : (toString n).toList = (toString n').toList) :
    n = n' := by
  have hvalue := congrArg (fun digits => Nat.ofDigitChars 10 digits 0) h
  simpa [Nat.repr, Nat.ofDigitChars_ten_toDigits] using hvalue

/-- Entries with the same text have the same number. -/
theorem text_inj {number number' : EntryNumber} :
    number.text = number'.text ↔ number = number' := by
  constructor
  · intro h
    rw [text, text, String.ext_iff] at h
    simp only [String.toList_append, List.append_assoc] at h
    obtain ⟨htime, -, hcounter⟩ := (List.append_cons_inj_of_notMem (dash_notMem_toString _)
      (dash_notMem_toString _)).mp h
    cases number with
    | mk time counter =>
      cases number' with
      | mk time' counter' =>
        cases eq_of_toList_toString htime
        cases eq_of_toList_toString hcounter
        rfl
  · rintro rfl
    rfl

end EntryNumber

/-- An entry of a log. -/
structure LogEntry where
  number : EntryNumber
  fields : List (String × Option String)
  deriving DecidableEq, Repr

/-- The entry as the server sends it. -/
def LogEntry.sent (entry : LogEntry) : StreamEntry :=
  ⟨entry.number.text, entry.fields⟩

/-- Whether the numbers of entries ascend. -/
def Ascending (entries : List LogEntry) : Prop :=
  entries.Pairwise fun entry later => entry.number.Before later.number

theorem Ascending.sublist {entries entries' : List LogEntry} (h : Ascending entries)
    (hsub : entries'.Sublist entries) : Ascending entries' :=
  List.Pairwise.sublist hsub h

/-- Entries whose numbers ascend have different texts for numbers. -/
theorem Ascending.nodup_text {entries : List LogEntry} (h : Ascending entries) :
    (entries.map fun entry => entry.number.text).Nodup := by
  rw [List.Nodup, List.pairwise_map]
  refine h.imp fun hbefore heq => ?_
  rw [EntryNumber.text_inj.mp heq] at hbefore
  exact EntryNumber.not_before_self _ hbefore

/-! ## Groups -/

/-- How far a group has got. -/
structure ConsumerGroup where
  /-- The number of entries of the log that have been given out. -/
  delivered : Nat
  /-- What has been given out and not been acknowledged, each with the name of the consumer. -/
  pending : List (String × LogEntry) := []
  deriving DecidableEq, Repr

namespace ConsumerGroup

/-- Whether this can be a group of the stream with a log. -/
structure Fits (entries : List LogEntry) (group : ConsumerGroup) : Prop where
  delivered_le : group.delivered ≤ entries.length
  pending : (group.pending.map Prod.snd).Sublist (entries.take group.delivered)

/-- What is pending for a consumer. -/
def pendingFor (group : ConsumerGroup) (consumer : String) : List LogEntry :=
  (group.pending.filter (·.1 == consumer)).map Prod.snd

/-- The next entries nobody has been given, at most `count` of them. -/
def next (entries : List LogEntry) (count : Nat) (group : ConsumerGroup) : List LogEntry :=
  (entries.drop group.delivered).take count

/-- Gives a consumer the next entries. -/
def deliver (entries : List LogEntry) (consumer : String) (count : Nat) (group : ConsumerGroup) :
    ConsumerGroup where
  delivered := group.delivered + (group.next entries count).length
  pending := group.pending ++ (group.next entries count).map fun entry => (consumer, entry)

/-- Takes entries off the pending ones. -/
def release (settled : String → LogEntry → Bool) (group : ConsumerGroup) : ConsumerGroup :=
  { group with pending := group.pending.filter fun entry => !settled entry.1 entry.2 }

variable {entries : List LogEntry} {group : ConsumerGroup}

theorem Fits.append (h : group.Fits entries) (new : List LogEntry) :
    group.Fits (entries ++ new) where
  delivered_le := by
    rw [List.length_append]
    exact Nat.le_add_right_of_le h.delivered_le
  pending := by
    rw [List.take_append_of_le_length h.delivered_le]
    exact h.pending

theorem Fits.deliver (h : group.Fits entries) (consumer : String) (count : Nat) :
    (group.deliver entries consumer count).Fits entries where
  delivered_le := by
    have hle := h.delivered_le
    simp only [ConsumerGroup.deliver, next, List.length_take, List.length_drop]
    omega
  pending := by
    have htake : entries.take (group.delivered + (group.next entries count).length)
        = entries.take group.delivered ++ group.next entries count := by
      rw [List.take_add, next, List.length_take, List.take_eq_take_min]
      simp
    rw [ConsumerGroup.deliver, htake, List.map_append, List.map_map]
    refine h.pending.append ?_
    rw [show Prod.snd ∘ (fun entry : LogEntry => (consumer, entry)) = id from rfl, List.map_id]

theorem Fits.release (h : group.Fits entries) (settled : String → LogEntry → Bool) :
    (group.release settled).Fits entries where
  delivered_le := h.delivered_le
  pending := (List.filter_sublist.map Prod.snd).trans h.pending

/-- The consumer that is given entries has them pending behind those it had. -/
theorem pendingFor_deliver_self (entries : List LogEntry) (consumer : String) (count : Nat)
    (group : ConsumerGroup) : (group.deliver entries consumer count).pendingFor consumer
      = group.pendingFor consumer ++ group.next entries count := by
  have hall : ∀ new : List LogEntry, (new.map fun entry => (consumer, entry)).filter
      (·.1 == consumer) = new.map fun entry => (consumer, entry) := by
    intro new
    refine List.filter_eq_self.mpr fun entry hentry => ?_
    obtain ⟨_, -, rfl⟩ := List.mem_map.mp hentry
    exact beq_self_eq_true consumer
  rw [pendingFor, deliver, List.filter_append, hall, List.map_append, List.map_map, pendingFor]
  rw [show Prod.snd ∘ (fun entry : LogEntry => (consumer, entry)) = id from rfl, List.map_id]

/-- What another consumer is given is not pending for this one. -/
theorem pendingFor_deliver_other (entries : List LogEntry) {reader consumer : String} (count : Nat)
    (group : ConsumerGroup) (hne : reader ≠ consumer) :
    (group.deliver entries reader count).pendingFor consumer = group.pendingFor consumer := by
  have hnone : ∀ new : List LogEntry, (new.map fun entry => (reader, entry)).filter
      (·.1 == consumer) = [] := by
    intro new
    refine List.filter_eq_nil_iff.mpr fun entry hentry => ?_
    obtain ⟨_, -, rfl⟩ := List.mem_map.mp hentry
    exact fun heq => hne (beq_iff_eq.mp heq)
  rw [pendingFor, deliver, List.filter_append, hnone, List.append_nil, pendingFor]

/-- What is pending for a consumer loses exactly the entries of it that are settled. -/
theorem pendingFor_release (settled : String → LogEntry → Bool) (consumer : String)
    (group : ConsumerGroup) : (group.release settled).pendingFor consumer
      = (group.pendingFor consumer).filter fun entry => !settled consumer entry := by
  rw [pendingFor, release, List.filter_filter, pendingFor, List.filter_map, List.filter_filter]
  congr 1
  refine List.filter_congr fun entry _ => ?_
  cases howner : entry.1 == consumer with
  | false => simp
  | true => simp [beq_iff_eq.mp howner]

theorem Fits.pendingFor (h : group.Fits entries) (consumer : String) :
    (group.pendingFor consumer).Sublist (entries.take group.delivered) :=
  (List.filter_sublist.map Prod.snd).trans h.pending

end ConsumerGroup

/-! ## Streams -/

/-- A stream with its groups. -/
structure StreamLog where
  entries : List LogEntry
  groups : String → Option ConsumerGroup
  ascending : Ascending entries
  fits : ∀ {name group}, groups name = some group → group.Fits entries

namespace StreamLog

/-- The stream that has nothing in it. -/
def empty : StreamLog where
  entries := []
  groups _ := none
  ascending := List.Pairwise.nil
  fits h := by cases h

/-- What is pending for a consumer of a group. -/
def pendingFor (log : StreamLog) (name consumer : String) : List LogEntry :=
  match log.groups name with
  | none => []
  | some group => group.pendingFor consumer

/-- What nobody in a group has been given. -/
def unread (log : StreamLog) (name : String) : List LogEntry :=
  match log.groups name with
  | none => []
  | some group => log.entries.drop group.delivered

/-- Appends an entry, if its number is after all others. -/
def append (log : StreamLog) (entry : LogEntry) : StreamLog :=
  if h : ∀ earlier ∈ log.entries, earlier.number.Before entry.number then
    { log with
      entries := log.entries ++ [entry]
      ascending := List.pairwise_append.mpr ⟨log.ascending, List.pairwise_singleton _ _,
        fun earlier hmem _ hlast => List.mem_singleton.mp hlast ▸ h earlier hmem⟩
      fits := fun hgroup => (log.fits hgroup).append [entry] }
  else log

/-- Changes a group, if it is there. -/
def changeGroup (log : StreamLog) (name : String) (change : ConsumerGroup → ConsumerGroup)
    (hchange : ∀ {group}, group.Fits log.entries → (change group).Fits log.entries) :
    StreamLog where
  entries := log.entries
  groups := Function.update log.groups name ((log.groups name).map change)
  ascending := log.ascending
  fits := by
    intro name' group hgroup
    by_cases hname : name' = name
    · subst hname
      rw [Function.update_self] at hgroup
      obtain ⟨before, hbefore, rfl⟩ := Option.map_eq_some_iff.mp hgroup
      exact hchange (log.fits hbefore)
    · rw [Function.update_of_ne hname] at hgroup
      exact log.fits hgroup

/-- Creates a group that starts behind the last entry, unless it is there. -/
def join (log : StreamLog) (name : String) : StreamLog where
  entries := log.entries
  groups := Function.update log.groups name
    (some ((log.groups name).getD ⟨log.entries.length, []⟩))
  ascending := log.ascending
  fits := by
    intro name' group hgroup
    by_cases hname : name' = name
    · subst hname
      rw [Function.update_self] at hgroup
      cases hbefore : log.groups name' with
      | none =>
        cases Option.some.inj ((hbefore ▸ hgroup : some _ = some group))
        exact ⟨Nat.le_refl _, List.nil_sublist _⟩
      | some before =>
        cases Option.some.inj ((hbefore ▸ hgroup : some _ = some group))
        exact log.fits hbefore
    · rw [Function.update_of_ne hname] at hgroup
      exact log.fits hgroup

/-- Gives a consumer of a group the next entries. -/
def deliver (log : StreamLog) (name consumer : String) (count : Nat) : StreamLog :=
  log.changeGroup name (ConsumerGroup.deliver log.entries consumer count)
    fun hfits => hfits.deliver consumer count

/-- Takes entries off the pending ones of a group. -/
def release (log : StreamLog) (name : String) (settled : String → LogEntry → Bool) : StreamLog :=
  log.changeGroup name (ConsumerGroup.release settled) fun hfits => hfits.release settled

variable {log log' log'' : StreamLog} {name consumer : String}

/-- What is pending for a consumer and what nobody has been given are in the order of the log. -/
theorem pendingFor_append_unread_sublist (log : StreamLog) (name consumer : String) :
    (log.pendingFor name consumer ++ log.unread name).Sublist log.entries := by
  rw [pendingFor, unread]
  cases hgroup : log.groups name with
  | none => exact List.nil_sublist _
  | some group =>
    have hsub := ((log.fits hgroup).pendingFor consumer).append
      (List.Sublist.refl (log.entries.drop group.delivered))
    rwa [List.take_append_drop] at hsub

/-- What is pending for a consumer ascends. -/
theorem ascending_pendingFor (log : StreamLog) (name consumer : String) :
    Ascending (log.pendingFor name consumer) :=
  log.ascending.sublist
    ((List.sublist_append_left _ _).trans (log.pendingFor_append_unread_sublist name consumer))

/-! ### What the operations do -/

theorem groups_deliver_self (log : StreamLog) (name consumer : String) (count : Nat) :
    (log.deliver name consumer count).groups name
      = (log.groups name).map (ConsumerGroup.deliver log.entries consumer count) :=
  Function.update_self _ _ _

theorem groups_deliver_other {name' : String} (consumer : String) (count : Nat)
    (hne : name' ≠ name) :
    (log.deliver name consumer count).groups name' = log.groups name' :=
  Function.update_of_ne hne _ _

theorem groups_release_self (log : StreamLog) (name : String)
    (settled : String → LogEntry → Bool) :
    (log.release name settled).groups name
      = (log.groups name).map (ConsumerGroup.release settled) :=
  Function.update_self _ _ _

theorem groups_release_other {name' : String} (settled : String → LogEntry → Bool)
    (hne : name' ≠ name) : (log.release name settled).groups name' = log.groups name' :=
  Function.update_of_ne hne _ _

theorem groups_join_self (log : StreamLog) (name : String) :
    (log.join name).groups name
      = some ((log.groups name).getD ⟨log.entries.length, []⟩) :=
  Function.update_self _ _ _

theorem groups_join_other {name' : String} (hne : name' ≠ name) :
    (log.join name).groups name' = log.groups name' :=
  Function.update_of_ne hne _ _

/-- Giving a consumer entries makes them pending for it. -/
theorem pendingFor_deliver_self (log : StreamLog) (name consumer : String) (count : Nat) :
    (log.deliver name consumer count).pendingFor name consumer
      = log.pendingFor name consumer ++ (log.unread name).take count := by
  rw [pendingFor, pendingFor, unread, groups_deliver_self]
  cases hgroup : log.groups name with
  | none => exact List.take_nil.symm
  | some group => exact ConsumerGroup.pendingFor_deliver_self log.entries consumer count group

/-- What has been given out is not to be read any more. -/
theorem unread_deliver_self (log : StreamLog) (name reader : String) (count : Nat) :
    (log.deliver name reader count).unread name = (log.unread name).drop count := by
  rw [unread, unread, groups_deliver_self]
  cases hgroup : log.groups name with
  | none => exact List.drop_nil.symm
  | some group =>
    show log.entries.drop (group.delivered + (group.next log.entries count).length) = _
    rw [ConsumerGroup.next, ← List.drop_drop, List.length_take]
    rcases Nat.le_total count (log.entries.drop group.delivered).length with hle | hle
    · rw [Nat.min_eq_left hle]
    · rw [Nat.min_eq_right hle, List.drop_length, List.drop_eq_nil_of_le hle]

/-- Releasing entries takes them off what is pending. -/
theorem pendingFor_release_self (log : StreamLog) (name consumer : String)
    (settled : String → LogEntry → Bool) :
    (log.release name settled).pendingFor name consumer
      = (log.pendingFor name consumer).filter fun entry => !settled consumer entry := by
  rw [pendingFor, pendingFor, groups_release_self]
  cases hgroup : log.groups name with
  | none => rfl
  | some group => exact ConsumerGroup.pendingFor_release settled consumer group

theorem unread_release (log : StreamLog) (name name' : String)
    (settled : String → LogEntry → Bool) :
    (log.release name settled).unread name' = log.unread name' := by
  rw [unread, unread]
  by_cases hname : name' = name
  · subst hname
    rw [groups_release_self]
    cases hgroup : log.groups name' with
    | none => rfl
    | some group => rfl
  · rw [groups_release_other settled hname]
    rfl

/-- What is pending for a consumer does not change when others are given entries. -/
theorem pendingFor_deliver_other {name' reader : String} (count : Nat)
    (hother : ¬(name' = name ∧ reader = consumer)) :
    (log.deliver name' reader count).pendingFor name consumer = log.pendingFor name consumer := by
  rw [pendingFor, pendingFor]
  by_cases hname : name = name'
  · subst hname
    have hreader : reader ≠ consumer := fun heq => hother ⟨rfl, heq⟩
    rw [groups_deliver_self]
    cases hgroup : log.groups name with
    | none => rfl
    | some group => exact ConsumerGroup.pendingFor_deliver_other log.entries count group hreader
  · rw [groups_deliver_other reader count hname]

/-- What is pending for a consumer does not change when what is pending for others is released. -/
theorem pendingFor_release_other {name' : String} {settled : String → LogEntry → Bool}
    (hother : name' = name → ∀ entry, settled consumer entry = false) :
    (log.release name' settled).pendingFor name consumer = log.pendingFor name consumer := by
  by_cases hname : name = name'
  · subst hname
    rw [pendingFor_release_self]
    refine List.filter_eq_self.mpr fun entry _ => ?_
    rw [hother rfl entry]
    rfl
  · rw [pendingFor, pendingFor, groups_release_other settled hname]

theorem pendingFor_append (log : StreamLog) (name consumer : String) (entry : LogEntry) :
    (log.append entry).pendingFor name consumer = log.pendingFor name consumer := by
  rw [append]
  split <;> rfl

/-- Nothing is pending in a group that was not there. -/
theorem pendingFor_join (log : StreamLog) (name consumer joined : String) :
    (log.join joined).pendingFor name consumer = log.pendingFor name consumer := by
  rw [pendingFor, pendingFor]
  by_cases hname : name = joined
  · subst hname
    rw [groups_join_self]
    cases log.groups name with
    | none => rfl
    | some group => rfl
  · rw [groups_join_other hname]

/-! ### How a stream grows -/

/-- What a stream is for a group after anybody has been at it. -/
structure Grows (name : String) (log log' : StreamLog) : Prop where
  joined : (log.groups name).isSome → (log'.groups name).isSome
  unread : ∃ new, log'.entries = log.entries ++ new ∧
    (log'.unread name).Sublist (log.unread name ++ new)

theorem Grows.refl (name : String) (log : StreamLog) : log.Grows name log where
  joined := id
  unread := ⟨[], (List.append_nil _).symm, by rw [List.append_nil]⟩

theorem Grows.trans (h : log.Grows name log') (h' : log'.Grows name log'') :
    log.Grows name log'' where
  joined hjoined := h'.joined (h.joined hjoined)
  unread := by
    obtain ⟨new, hentries, hunread⟩ := h.unread
    obtain ⟨new', hentries', hunread'⟩ := h'.unread
    refine ⟨new ++ new', ?_, ?_⟩
    · rw [hentries', hentries, List.append_assoc]
    · rw [← List.append_assoc]
      exact hunread'.trans (hunread.append_right new')

/-- A log only gets longer. -/
theorem Grows.entries (h : log.Grows name log') : log.entries.Sublist log'.entries := by
  obtain ⟨new, hentries, -⟩ := h.unread
  rw [hentries]
  exact List.sublist_append_left _ _

/-- Where the log stays as it is, a group that is still there has no more to read. -/
theorem grows_of_entries_eq (hentries : log'.entries = log.entries)
    (hjoined : (log.groups name).isSome → (log'.groups name).isSome)
    (hunread : (log'.unread name).Sublist (log.unread name)) : log.Grows name log' where
  joined := hjoined
  unread := ⟨[], by rw [hentries, List.append_nil], by rwa [List.append_nil]⟩

theorem grows_append (name : String) (log : StreamLog) (entry : LogEntry) :
    log.Grows name (log.append entry) := by
  rw [append]
  split
  · refine ⟨id, [entry], rfl, ?_⟩
    rw [unread, unread]
    cases hgroup : log.groups name with
    | none => exact List.nil_sublist _
    | some group =>
      show ((log.entries ++ [entry]).drop group.delivered).Sublist _
      rw [List.drop_append_of_le_length (log.fits hgroup).delivered_le]
  · exact .refl name log

theorem grows_join (name : String) (log : StreamLog) (joined : String) :
    log.Grows name (log.join joined) := by
  refine grows_of_entries_eq rfl (fun hsome => ?_) ?_
  · by_cases hname : name = joined
    · subst hname
      rw [groups_join_self]
      rfl
    · rwa [groups_join_other hname]
  · rw [unread, unread]
    by_cases hname : name = joined
    · subst hname
      rw [groups_join_self]
      cases log.groups name with
      | none =>
        show (log.entries.drop log.entries.length).Sublist _
        rw [List.drop_length]
      | some group => exact List.Sublist.refl _
    · rw [groups_join_other hname]
      exact List.Sublist.refl _

theorem grows_deliver (name : String) (log : StreamLog) (name' reader : String) (count : Nat) :
    log.Grows name (log.deliver name' reader count) := by
  by_cases hname : name = name'
  · subst hname
    refine grows_of_entries_eq rfl (fun hsome => ?_) ?_
    · rwa [groups_deliver_self, Option.isSome_map]
    · rw [unread_deliver_self]
      exact List.drop_sublist _ _
  · have hgroups : (log.deliver name' reader count).groups name = log.groups name :=
      groups_deliver_other reader count hname
    refine grows_of_entries_eq rfl (fun hsome => by rwa [hgroups]) ?_
    rw [unread, unread, hgroups]
    exact List.Sublist.refl _

theorem grows_release (name : String) (log : StreamLog) (name' : String)
    (settled : String → LogEntry → Bool) : log.Grows name (log.release name' settled) := by
  refine grows_of_entries_eq rfl (fun hsome => ?_) ?_
  · by_cases hname : name = name'
    · subst hname
      rwa [groups_release_self, Option.isSome_map]
    · rwa [groups_release_other settled hname]
  · rw [unread_release]

/-- Whoever joins a group is in it. -/
theorem isSome_groups_join (log : StreamLog) (name : String) :
    ((log.join name).groups name).isSome := by
  rw [groups_join_self]
  rfl

end StreamLog

end GradedAccess
