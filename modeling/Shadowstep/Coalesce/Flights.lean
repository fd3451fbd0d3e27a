import Mathlib.Data.Finset.Insert
import Mathlib.Logic.Function.Basic

/-!
# Flights

`Flights` of `coalesce.rs`: the keys with a request in flight. A flight is
a watch channel, numbered here in the order of creation. A `FlightGuard`
drops in two steps: its key leaves the map under the lock, and then its
sender is dropped, which wakes the followers.
-/

namespace Shadowstep

/-- The keys with a request in flight, and the channels behind them. -/
structure Flights (K : Type) where
  inFlight : K → Option Nat
  /-- how many channels have been made -/
  channels : Nat
  /-- the channels whose sender has been dropped -/
  closed : Finset Nat

/-- The leader's claim on a key. -/
structure FlightGuard (K : Type) where
  key : K
  channel : Nat

/-- A request's part in the flight for its key. -/
inductive Join (K : Type) where
  /-- the request goes to the origin, and others wait until the guard drops -/
  | lead (guard : FlightGuard K)
  /-- another request is in flight for the key -/
  | follow (channel : Nat)
  /-- nothing is in flight and the request may not lead -/
  | alone

namespace Flights

variable {K : Type}

/-- `Flights::default`. -/
def empty : Flights K := ⟨fun _ => none, 0, ∅⟩

variable [DecidableEq K]

/-- Joins the flight for `key`, or starts one when there is none and
`mayLead` holds. -/
def join (flights : Flights K) (key : K) (mayLead : Bool) : Join K × Flights K :=
  match flights.inFlight key with
  | some channel => (.follow channel, flights)
  | none =>
    if mayLead then
      (.lead ⟨key, flights.channels⟩,
        { flights with
          inFlight := Function.update flights.inFlight key (some flights.channels)
          channels := flights.channels + 1 })
    else (.alone, flights)

/-- `FlightGuard::drop`. -/
def remove (flights : Flights K) (guard : FlightGuard K) : Flights K :=
  { flights with inFlight := Function.update flights.inFlight guard.key none }

/-- The sender of a guard, dropped after its key has left the map. -/
def close (flights : Flights K) (guard : FlightGuard K) : Flights K :=
  { flights with closed := insert guard.channel flights.closed }

end Flights

end Shadowstep
