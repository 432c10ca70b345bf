/-!
# Admission policies

A policy decides who may hold a synchronizer together: whether a request may enter now, and what its
entry and its exit do to the holding. Everything in it is a pure function of the holding.
-/

namespace Turnstile

/-- What the front of a synchronizer refuses before its queue sees it. Each answer is the complaint
about the argument, if there is one. -/
structure Policy.Desk (State Request : Type) where
  /-- A holding that no synchronizer can start from. -/
  opening : State → Option String := fun _ => none
  /-- A request that could never be admitted, or that asks for nothing. -/
  entry : State → Request → Option String := fun _ _ => none
  /-- A release of nothing. -/
  exit : State → Request → Option String := fun _ _ => none
  /-- What a release gives back that does not say what. -/
  standing : State → Option Request := fun _ => none

/-- The words for a holding and its requests. -/
structure Policy.Labels (State Request : Type) where
  kind : State → String := fun _ => ""
  request : Request → String := fun _ => ""
  state : State → String := fun _ => ""
  /-- The name of the synchronizer with a front. -/
  title : State → String := fun _ => ""
  /-- What its text shows after the synchronizer. -/
  trailer : State → List (String × String) := fun _ => []

structure Policy where
  State : Type
  Request : Type
  /-- The request in a waiter that nobody rents. -/
  blank : Request
  allows : State → Request → Bool
  enter : State → Request → State
  mayRelease : State → Request → Bool
  release : State → Request → State
  isIdle : State → Bool
  desk : Policy.Desk State Request := {}
  labels : Policy.Labels State Request := {}

end Turnstile
