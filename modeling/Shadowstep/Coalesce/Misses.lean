import Shadowstep.Cache.Concurrent
import Shadowstep.Coalesce.Flights
import Shadowstep.Proxy.Response

/-!
# Concurrent misses

Any number of GET requests for one URI with the same headers, each on its
way through `serve_from_cache` and, if nothing answers it, to the origin
and back into the store. Every access to the index, the entries, the
generation counter or the flight map is one step, and so is each of the two
parts of a guard's drop. The client of a forwarded response reads its body
to the end, and no follower stops waiting.

* `Progress` — where one request stands;
* `step` — the step that one request makes next.
-/

namespace Shadowstep

open Rust

abbrev FlightKeyGuard := FlightGuard FlightKey

namespace Misses

/-! ## One request -/

/-- What the requests have in common. -/
structure Setting where
  primary : PrimaryKey
  headers : HeaderMap

def Setting.policy (setting : Setting) : RequestPolicy := RequestPolicy.new .get setting.headers

/-- The part of a request in the flight that it has joined. -/
inductive Role where
  | leads (guard : FlightKeyGuard)
  | follows

def Role.guard : Role → Option FlightKeyGuard
  | .leads guard => some guard
  | .follows => none

def Role.use : Role → FreshUse
  | .leads _ => .hit
  | .follows => .coalesced

/-- How a request was answered. -/
inductive Outcome where
  | cached (response : Arc StoredResponse) (use : FreshUse)
  | fromOrigin
  /-- the lookup found a stale response, which these requests are not about -/
  | stale

/-- Where a request stands: the step it makes next. -/
inductive Progress where
  /-- the request's own lookup -/
  | first (lookup : Pc)
  | flightKey
  | join (key : FlightKey)
  | waits (channel : Nat)
  /-- the lookup of a leader, or of a follower after its wait -/
  | second (role : Role) (lookup : Pc)
  | toOrigin (flight : Option FlightKeyGuard)
  | atOrigin (flight : Option FlightKeyGuard)
  /-- the body is on its way to the client and into the copy for the store -/
  | streams (flight : Option FlightKeyGuard) (policy : Storable) (vary : Vary) (head : Head)
  | stores (flight : Option FlightKeyGuard) (insertion : Pc)
  /-- the guard drops: its key leaves the map -/
  | removes (guard : FlightKeyGuard) (outcome : Outcome)
  /-- the guard drops: its sender closes -/
  | closes (guard : FlightKeyGuard) (outcome : Outcome)
  | done (outcome : Outcome)

/-- The guard a request holds, until its key has left the map. -/
def Progress.guard : Progress → Option FlightKeyGuard
  | .second role _ => role.guard
  | .toOrigin flight | .atOrigin flight | .streams flight .. | .stores flight _ => flight
  | .removes guard _ => some guard
  | _ => none

/-- The end of a request that may still hold a guard. -/
def finish (flight : Option FlightKeyGuard) (outcome : Outcome) : Progress :=
  match flight with
  | some guard => .removes guard outcome
  | none => .done outcome

def startLookup (setting : Setting) : Pc :=
  .lookupIndex setting.primary setting.headers setting.policy.maxAge

/-- What follows the request's own lookup. -/
def afterFirst (setting : Setting) : Option Lookup → Progress
  | some (.fresh response) => .done (.cached response .hit)
  | some (.stale _) => .done .stale
  | none => if setting.policy.mayCoalesce then .flightKey else .toOrigin none

/-- What follows the lookup of a leader or a follower. -/
def afterSecond (role : Role) : Option Lookup → Progress
  | some (.fresh response) => finish role.guard (.cached response role.use)
  | some (.stale _) => finish role.guard .stale
  | none => .toOrigin role.guard

/-- The arrival of a request. -/
def arrive (setting : Setting) : Progress :=
  if setting.policy.mayServe then .first (startLookup setting) else afterFirst setting none

/-! ## The machine -/

structure State where
  memory : Memory
  flights : Flights FlightKey
  requests : Nat → Option Progress
  /-- how many requests have been sent to the origin -/
  sent : Nat

inductive Event where
  | arrive (id : Nat)
  | step (id : Nat) (now : Clock)
  /-- the origin's response headers -/
  | answered (id : Nat) (head : Head) (now : Clock)
  /-- the end of the origin's body -/
  | ended (id : Nat) (body : Bytes)

def start (store : Store) : State := ⟨⟨store, 0, fun _ => 0⟩, .empty, fun _ => none, 0⟩

def State.set (σ : State) (id : Nat) (progress : Progress) : State :=
  { σ with requests := Function.update σ.requests id (some progress) }

/-- One access of a lookup, and what follows when it returns. -/
def lookupStep [HttpDate] (memory : Memory) (lookup : Pc) (now : Clock)
    (continuing : Pc → Progress) (after : Option Lookup → Progress) : Option Progress :=
  match lookup.next memory now with
  | some (.lookedUp _ _ _ result, _) => some (after result)
  | some (lookup, _) => some (continuing lookup)
  | none => none

/-- What follows an access of `insert_response`: the next one, or the drop of
the guard. -/
def afterStore (flight : Option FlightKeyGuard) : Pc → Progress
  | .inserted .. | .refused _ => finish flight .fromOrigin
  | insertion => .stores flight insertion

/-- The step that a request makes by itself. -/
def advance [HttpDate] (setting : Setting) (σ : State) (id : Nat) (progress : Progress)
    (now : Clock) : Option State :=
  match progress with
  | .first lookup =>
    (lookupStep σ.memory lookup now .first (afterFirst setting)).map (σ.set id)
  | .flightKey =>
    match σ.memory.store.flightKey setting.primary setting.headers with
    | some key => some (σ.set id (.join key))
    | none => some (σ.set id (.toOrigin none))
  | .join key =>
    let (join, flights) := σ.flights.join key setting.policy.mayLead
    let progress := match join with
      | .alone => .toOrigin none
      | .lead guard => .second (.leads guard) (startLookup setting)
      | .follow channel => .waits channel
    some ({ σ with flights := flights }.set id progress)
  | .waits channel =>
    if channel ∈ σ.flights.closed then some (σ.set id (.second .follows (startLookup setting)))
    else none
  | .second role lookup =>
    (lookupStep σ.memory lookup now (.second role) (afterSecond role)).map (σ.set id)
  | .toOrigin flight => some ({ σ with sent := σ.sent + 1 }.set id (.atOrigin flight))
  | .stores flight insertion =>
    (insertion.next σ.memory now).map fun (insertion, memory) =>
      { σ with memory := memory }.set id (afterStore flight insertion)
  | .removes guard outcome =>
    some ({ σ with flights := σ.flights.remove guard }.set id (.closes guard outcome))
  | .closes guard outcome =>
    some ({ σ with flights := σ.flights.close guard }.set id (.done outcome))
  | .atOrigin _ | .streams .. | .done _ => none

def step [HttpDate] (setting : Setting) (σ : State) : Event → Option State
  | .arrive id =>
    if (σ.requests id).isNone then some (σ.set id (arrive setting)) else none
  | .step id now => do advance setting σ id (← σ.requests id) now
  | .answered id head now =>
    match σ.requests id with
    | some (.atOrigin flight) =>
      match storable setting.policy setting.headers head.status head.map now with
      | some (policy, vary) => some (σ.set id (.streams flight policy vary head))
      | none => some (σ.set id (finish flight .fromOrigin))
    | _ => none
  | .ended id body =>
    match σ.requests id with
    | some (.streams flight policy vary head) =>
      some (σ.set id (.stores flight (.insertIndexGet ⟨setting.primary, vary, policy,
        head.status, storedFields (forwardableFields head), body⟩)))
    | _ => none

end Misses

end Shadowstep
