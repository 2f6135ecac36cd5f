import GradedAccess.Fault

/-!
# Settings of the stream bus

Each subject has a stream of its own, whose key is a configurable text followed by the subject's
name.  All engines that share a group and differ in their consumer names share the work of it.

A consumer that has caught up waits on the server for new entries, for at most the block time.  A
read that takes longer than the read timeout is given up.  So the block time has to be positive,
or the consumer would ask without pause, and shorter than the read timeout, or every quiet wait
would end as a failure.
-/

namespace GradedAccess

/-- How an engine takes part in the streams. -/
structure StreamSettings where
  /-- What the keys of all streams begin with. -/
  keyStart : String := ""
  group : String := "rankguard"
  consumer : String
  block : Duration := Duration.ofSeconds 5
  readTimeout : Duration := Duration.ofSeconds 10
  /-- How many entries of a stream one read may return. -/
  batchSize : Nat := 32
  /-- How many entries a stream keeps, roughly. -/
  maxLength : Nat := 10000
  deriving DecidableEq

namespace StreamSettings

/-- Succeeds for settings a consumer can work with. -/
def validate (settings : StreamSettings) : Except Fault Unit :=
  if settings.block = 0 then .error .noBlockTime
  else if settings.readTimeout ≤ settings.block then
    .error (.shortReadTimeout settings.readTimeout settings.block)
  else .ok ()

/-- The key of the stream of a subject. -/
def key (settings : StreamSettings) (subject : Subject) : String :=
  settings.keyStart ++ subject.name

end StreamSettings

end GradedAccess
