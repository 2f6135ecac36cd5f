import GradedAccess.Fault

/-!
# What a bus does

To a listener a bus is a sequence of attempts to subscribe, each refused or answered with a
subscription, and a subscription is a sequence of deliveries.  `Attempt` and `Delivery` are one
attempt and one delivery, and a list of attempts says everything that a bus ever does to one
listener.

A subscription that has nothing more to deliver stays open and silent, and so does a bus that has
nothing more to do.
-/

namespace GradedAccess

/-- An event as a bus delivers it. -/
structure Message where
  /-- The number of the delivery on its bus. -/
  delivery : String
  event : Event
  deriving DecidableEq, Repr

/-- What a subscription does next. -/
inductive Delivery where
  /-- Nothing for some time. -/
  | silence (length : Duration)
  /-- A message; acknowledging it fails if a fault is given. -/
  | message (message : Message) (refusal : Option Fault)
  /-- The end of the subscription. -/
  | close
  /-- A failure of the subscription. -/
  | failure (fault : Fault)

/-- What a bus does when a listener subscribes. -/
structure Attempt where
  /-- How long the answer takes. -/
  delay : Duration := 0
  /-- The deliveries of the subscription, or the fault it is refused with. -/
  answer : Except Fault (List Delivery)

end GradedAccess
