import Shadowstep.Lib.Claims
import Shadowstep.Proxy.World

/-!
# One background revalidation at a time

`refresh_in_background`, its task and its `RefreshGuard`, one shared access
at a time. A call claims the key of its stale entry, and after that either
returns early or spawns the task that takes the guard along; in between,
other calls claim and release, and the store's maps change under the same
key. The guard drops in a step of its own, after everything else its owner
does.

* `Refreshing.step` — the calls, their tasks, and the accesses of others;
* `Attempt.next_moved` — what one step of a call can be;
* `refreshInBackground_run` — undisturbed, a call comes to what
  `refreshInBackground` says;
* `Refreshing.one_revalidation_per_key` — what the guards guarantee.
-/

namespace Shadowstep

open Rust

/-! ## The store's maps -/

/-- One access to the store's maps, by another request or by moka. -/
inductive StoreAccess where
  | takeGeneration
  | insertIndex (primary : PrimaryKey) (index : Index)
  | removeIndex (primary : PrimaryKey)
  | insertEntry (key : ResponseKey) (response : StoredResponse)
  | insertAsset (path : Path) (asset : Asset)
  | removeEntry (key : Key)
  | expire (now : Instant)

def StoreAccess.apply (store : Store) : StoreAccess → Store
  | .takeGeneration => store.takeGeneration.2
  | .insertIndex primary index => store.insertIndex primary index
  | .removeIndex primary => store.removeIndex primary
  | .insertEntry key response => (store.insertEntry key response).2
  | .insertAsset path asset => store.insertAssetEntry path asset
  | .removeEntry key => store.removeEntry key
  | .expire now => store.expire now

@[simp] theorem StoreAccess.apply_refreshing (store : Store) (access : StoreAccess) :
    (access.apply store).refreshing = store.refreshing := by
  cases access <;> rfl

namespace Store

@[simp] theorem insertResponse_refreshing (store : Store) (primary : PrimaryKey) (vary : Vary)
    (policy : Storable) (status : StatusCode) (headers : Fields) (body : Bytes) (now : Clock) :
    (store.insertResponse primary vary policy status headers body now).2.refreshing =
      store.refreshing := by
  have generation : (store.generationFor primary vary.names).2.refreshing = store.refreshing := by
    unfold generationFor
    split
    · split <;> rfl
    · rfl
  unfold insertResponse
  split
  · rfl
  · exact generation

@[simp] theorem freshen_refreshing [HttpDate] (store : Store) (entry : StaleEntry)
    (requestPolicy : RequestPolicy) (request : HeaderMap) (update : Fields)
    (age : Option HeaderValue) (now : Clock) :
    (store.freshen entry requestPolicy request update age now).2.refreshing =
      store.refreshing := by
  unfold freshen
  simp only
  split
  · split
    · rename_i policy vary storable current
      have inserted := store.insertResponse_refreshing entry.key.primary vary policy
        entry.response.val.status (updatedFields entry.response.val.headers update)
        entry.response.val.body now
      split
      · rename_i fresh after insertion
        rwa [insertion] at inserted
      · rename_i after insertion
        rwa [insertion] at inserted
    · rfl
  · split <;> rfl

end Store

/-- What a task does to the store leaves the claims as they are. -/
theorem Task.refresh_refreshing [HttpDate] (id : Nat) (store : Store) (task : Task) (head : Head)
    (now : Clock) : (task.refresh id store head now).1.refreshing = store.refreshing := by
  have planned : (storePlan (.task id) store task.req head now).2.1.refreshing =
      store.refreshing := by
    unfold storePlan
    simp only
    split <;> rfl
  unfold Task.refresh
  split
  · exact Store.freshen_refreshing ..
  · split
    · rename_i storing after effects plan
      rwa [plan] at planned
    · rename_i after effects plan
      rwa [plan] at planned

theorem Task.collected_refreshing (id : Nat) (store : Store) (storing : Storing) (head : Head)
    (body : Option Bytes) (now : Clock) :
    (Task.collected id store storing head body now).1.refreshing = store.refreshing := by
  unfold Task.collected
  split
  · split
    · exact Store.insertResponse_refreshing ..
    · rfl
  · rfl

/-! ## The machine -/

/-- Where a call of `refresh_in_background` stands, its task included. -/
inductive AttemptStage where
  /-- before `start_refresh` -/
  | called
  /-- it has the guard, and builds the origin request -/
  | builds (guard : RefreshGuard)
  /-- its task has sent the request, or is about to -/
  | runs (task : Task) (sent : UpstreamRequest)
  /-- it returns early or its task ends, and the guard drops next -/
  | leaves (guard : RefreshGuard)
  | ended

def AttemptStage.guard : AttemptStage → Option RefreshGuard
  | .called | .ended => none
  | .builds guard | .leaves guard => some guard
  | .runs task _ => some task.guard

structure Attempt where
  req : HttpRequest
  entry : StaleEntry
  stage : AttemptStage

inductive AttemptStep where
  /-- `start_refresh` -/
  | claim
  /-- `refused`: hyper refuses to build the request -/
  | build (refused : Bool)
  /-- the origin's response headers -/
  | answered (head : Head) (now : Clock)
  /-- no response headers, for an error or for the timeout -/
  | failed
  /-- the whole body, or `none` when it fails, stalls or is too long -/
  | body (body : Option Bytes) (now : Clock)
  /-- the worker stops and drops its tasks -/
  | stop
  /-- `RefreshGuard::drop` -/
  | drop

/-- A task after one of its steps. -/
def Task.onward (task : Task) (sent : UpstreamRequest) (stage : TaskStage) : AttemptStage :=
  match stage with
  | .ended => .leaves task.guard
  | stage => .runs { task with stage := stage } sent

section

variable [HttpDate] [UriSyntax]

/-- One step of a call or of its task: its stage after it, and the store. -/
def Attempt.next (base : OriginUrl) (id : Nat) (store : Store) (attempt : Attempt) :
    AttemptStep → Option (AttemptStage × Store)
  | .claim =>
    match attempt.stage with
    | .called =>
      match store.startRefresh attempt.entry with
      | (some guard, store) => some (.builds guard, store)
      | (none, store) => some (.ended, store)
    | _ => none
  | .build refused =>
    match attempt.stage with
    | .builds guard =>
      match attempt.req.upstream base with
      | none => some (.leaves guard, store)
      | some request =>
        if refused then some (.leaves guard, store)
        else
          some (.runs ⟨attempt.req, attempt.entry, guard, .awaits⟩
            (withValidators (withoutPreconditions request) attempt.entry.response.val), store)
    | _ => none
  | .answered head now =>
    match attempt.stage with
    | .runs task sent =>
      match task.stage with
      | .awaits =>
        let (store, _, stage) := task.refresh id store head now
        some (task.onward sent stage, store)
      | _ => none
    | _ => none
  | .failed =>
    match attempt.stage with
    | .runs task _ =>
      match task.stage with
      | .awaits => some (.leaves task.guard, store)
      | _ => none
    | _ => none
  | .body body now =>
    match attempt.stage with
    | .runs task _ =>
      match task.stage with
      | .collects storing head =>
        some (.leaves task.guard, (Task.collected id store storing head body now).1)
      | _ => none
    | _ => none
  | .stop =>
    match attempt.stage with
    | .runs task _ => some (.leaves task.guard, store)
    | _ => none
  | .drop =>
    match attempt.stage with
    | .leaves guard => some (.ended, store.endRefresh guard)
    | _ => none

/-- What one step of a call can be. -/
inductive Moved (store : Store) (attempt : Attempt) : AttemptStep → AttemptStage → Store → Prop
  | claimed (stage : attempt.stage = .called) (free : attempt.entry.key ∉ store.refreshing) :
    Moved store attempt .claim (.builds ⟨attempt.entry.key⟩)
      { store with refreshing := insert attempt.entry.key store.refreshing }
  /-- another one is running -/
  | refused (stage : attempt.stage = .called) (taken : attempt.entry.key ∈ store.refreshing) :
    Moved store attempt .claim .ended store
  | works {move guard stage after} (guarded : attempt.stage.guard = some guard)
      (keeps : stage.guard = some guard) (same : after.refreshing = store.refreshing) :
    Moved store attempt move stage after
  | dropped {guard} (stage : attempt.stage = .leaves guard) :
    Moved store attempt .drop .ended (store.endRefresh guard)

omit [HttpDate] [UriSyntax] in
theorem Task.onward_guard (task : Task) (sent : UpstreamRequest) (stage : TaskStage) :
    (task.onward sent stage).guard = some task.guard := by
  unfold onward
  split <;> rfl

theorem Attempt.next_moved {base : OriginUrl} {id : Nat} {store after : Store}
    {attempt : Attempt} {move : AttemptStep} {stage : AttemptStage}
    (h : attempt.next base id store move = some (stage, after)) :
    Moved store attempt move stage after := by
  cases move with
  | claim =>
      simp only [next] at h
      split at h
      case h_1 called =>
        unfold Store.startRefresh at h
        by_cases taken : attempt.entry.key ∈ store.refreshing
        · rw [if_pos taken] at h
          obtain ⟨rfl, rfl⟩ := Prod.mk.inj (Option.some.inj h)
          exact .refused called taken
        · rw [if_neg taken] at h
          obtain ⟨rfl, rfl⟩ := Prod.mk.inj (Option.some.inj h)
          exact .claimed called taken
      case h_2 => cases h
  | build refused =>
      simp only [next] at h
      split at h
      case h_1 guard builds =>
        have guarded : attempt.stage.guard = some guard := by rw [builds]; rfl
        split at h
        · obtain ⟨rfl, rfl⟩ := Prod.mk.inj (Option.some.inj h)
          exact .works guarded rfl rfl
        · split at h <;> obtain ⟨rfl, rfl⟩ := Prod.mk.inj (Option.some.inj h)
          · exact .works guarded rfl rfl
          · exact .works guarded rfl rfl
      case h_2 => cases h
  | answered head now =>
      simp only [next] at h
      split at h
      case h_1 task sent runs =>
        have guarded : attempt.stage.guard = some task.guard := by rw [runs]; rfl
        split at h
        · obtain ⟨rfl, rfl⟩ := Prod.mk.inj (Option.some.inj h)
          exact .works guarded (task.onward_guard sent _) (task.refresh_refreshing id store head now)
        · cases h
      case h_2 => cases h
  | failed =>
      simp only [next] at h
      split at h
      case h_1 task sent runs =>
        have guarded : attempt.stage.guard = some task.guard := by rw [runs]; rfl
        split at h
        · obtain ⟨rfl, rfl⟩ := Prod.mk.inj (Option.some.inj h)
          exact .works guarded rfl rfl
        · cases h
      case h_2 => cases h
  | body body now =>
      simp only [next] at h
      split at h
      case h_1 task sent runs =>
        have guarded : attempt.stage.guard = some task.guard := by rw [runs]; rfl
        split at h
        · obtain ⟨rfl, rfl⟩ := Prod.mk.inj (Option.some.inj h)
          exact .works guarded rfl (Task.collected_refreshing ..)
        · cases h
      case h_2 => cases h
  | stop =>
      simp only [next] at h
      split at h
      case h_1 task sent runs =>
        have guarded : attempt.stage.guard = some task.guard := by rw [runs]; rfl
        obtain ⟨rfl, rfl⟩ := Prod.mk.inj (Option.some.inj h)
        exact .works guarded rfl rfl
      case h_2 => cases h
  | drop =>
      simp only [next] at h
      split at h
      case h_1 guard leaves =>
        obtain ⟨rfl, rfl⟩ := Prod.mk.inj (Option.some.inj h)
        exact .dropped leaves
      case h_2 => cases h

end

/-- The store, and the calls of `refresh_in_background` with their tasks. -/
structure Refreshing where
  store : Store
  attempts : Nat → Option Attempt

namespace Refreshing

inductive Event where
  /-- a stale request calls `refresh_in_background` -/
  | call (id : Nat) (req : HttpRequest) (entry : StaleEntry)
  | attempt (id : Nat) (move : AttemptStep)
  | access (access : StoreAccess)

def start (sizeMb : UInt64) (ttl : Duration) : Refreshing := ⟨Store.new sizeMb ttl, fun _ => none⟩

section

variable [HttpDate] [UriSyntax] (base : OriginUrl)

def step (σ : Refreshing) : Event → Option Refreshing
  | .call id req entry =>
    match σ.attempts id with
    | some _ => none
    | none =>
      some { σ with attempts := Function.update σ.attempts id (some ⟨req, entry, .called⟩) }
  | .attempt id move => do
    let attempt ← σ.attempts id
    let (stage, store) ← attempt.next base id σ.store move
    return ⟨store, Function.update σ.attempts id (some { attempt with stage })⟩
  | .access access => some { σ with store := access.apply σ.store }

end

/-! ## Who has a guard -/

/-- The call or its task has a live guard of this key. -/
def Guards (σ : Refreshing) (id : Nat) (key : ResponseKey) : Prop :=
  ∃ attempt guard, σ.attempts id = some attempt ∧ attempt.stage.guard = some guard ∧
    guard.key = key

/-- A background request for this key has been spawned and is not over. -/
def InFlight (σ : Refreshing) (id : Nat) (key : ResponseKey) : Prop :=
  ∃ attempt task sent, σ.attempts id = some attempt ∧ attempt.stage = .runs task sent ∧
    attempt.entry.key = key

/-- A stale request for this key is about to ask for the guard. -/
def Calls (σ : Refreshing) (id : Nat) (key : ResponseKey) : Prop :=
  ∃ attempt, σ.attempts id = some attempt ∧ attempt.stage = .called ∧ attempt.entry.key = key

/-- The call has returned early or its task has ended, all but its guard. -/
def Leaves (σ : Refreshing) (id : Nat) (key : ResponseKey) : Prop :=
  ∃ attempt guard, σ.attempts id = some attempt ∧ attempt.stage = .leaves guard ∧
    attempt.entry.key = key

/-- The key that a call has a guard of. -/
def holds (σ : Refreshing) (id : Nat) : Option ResponseKey :=
  (σ.attempts id).bind fun attempt => attempt.stage.guard.map RefreshGuard.key

theorem holds_eq_some {σ : Refreshing} {id : Nat} {key : ResponseKey} :
    σ.holds id = some key ↔ σ.Guards id key := by
  constructor
  · intro held
    obtain ⟨attempt, here, guarded⟩ := Option.bind_eq_some_iff.mp held
    obtain ⟨guard, guarded, same⟩ := Option.map_eq_some_iff.mp guarded
    exact ⟨attempt, guard, here, guarded, same⟩
  · rintro ⟨attempt, guard, here, guarded, rfl⟩
    simp only [holds, here, Option.bind_some, guarded, Option.map_some]

theorem holds_update (σ : Refreshing) (store : Store) (id : Nat) (attempt : Attempt) :
    holds ⟨store, Function.update σ.attempts id (some attempt)⟩ =
      Function.update σ.holds id (attempt.stage.guard.map RefreshGuard.key) := by
  funext other
  by_cases same : other = id
  · subst same
    simp [holds]
  · simp [holds, same]

/-- The set of the store is right, and every guard is of its call's key. -/
structure Inv (σ : Refreshing) : Prop where
  exact : Claims.Exact σ.store.refreshing σ.holds
  own : ∀ id attempt guard, σ.attempts id = some attempt → attempt.stage.guard = some guard →
    guard.key = attempt.entry.key

theorem Inv.start (sizeMb : UInt64) (ttl : Duration) : Inv (start sizeMb ttl) :=
  ⟨.empty, fun _ _ _ here => (by cases here)⟩

variable {σ σ' : Refreshing}

theorem Inv.call (inv : Inv σ) {id : Nat} (fresh : σ.attempts id = none) (req : HttpRequest)
    (entry : StaleEntry) :
    Inv { σ with attempts := Function.update σ.attempts id (some ⟨req, entry, .called⟩) } := by
  have idle : σ.holds id = none := by simp [holds, fresh]
  constructor
  case exact =>
    have same : Function.update σ.holds id none = σ.holds := by
      rw [← idle]
      exact Function.update_eq_self id σ.holds
    show Claims.Exact σ.store.refreshing _
    rw [holds_update]
    show Claims.Exact σ.store.refreshing (Function.update σ.holds id none)
    rw [same]
    exact inv.exact
  case own =>
    intro other attempt guard here guarded
    rcases Runs.update_cases here with ⟨-, rfl⟩ | ⟨-, before⟩
    · cases guarded
    · exact inv.own other attempt guard before guarded

theorem Inv.moved (inv : Inv σ) {id : Nat} {attempt : Attempt} {move : AttemptStep}
    {stage : AttemptStage} {store : Store} (here : σ.attempts id = some attempt)
    (moved : Moved σ.store attempt move stage store) :
    Inv ⟨store, Function.update σ.attempts id (some { attempt with stage })⟩ := by
  have held : σ.holds id = attempt.stage.guard.map RefreshGuard.key := by simp [holds, here]
  constructor
  case exact =>
    rw [holds_update]
    cases moved with
    | claimed called free =>
        have idle : σ.holds id = none := by rw [held, called]; rfl
        exact inv.exact.claim idle free
    | refused called taken =>
        have idle : none = σ.holds id := by rw [held, called]; rfl
        show Claims.Exact σ.store.refreshing (Function.update σ.holds id none)
        rw [idle, Function.update_eq_self]
        exact inv.exact
    | works guarded keeps same =>
        -- the guard goes from one stage to the next
        have still : stage.guard.map RefreshGuard.key = σ.holds id := by
          rw [held, guarded, keeps]
        show Claims.Exact store.refreshing _
        rw [same]
        show Claims.Exact σ.store.refreshing
          (Function.update σ.holds id (stage.guard.map RefreshGuard.key))
        rw [still, Function.update_eq_self]
        exact inv.exact
    | @dropped guard leaves =>
        have mine : σ.holds id = some guard.key := by rw [held, leaves]; rfl
        exact inv.exact.release mine
  case own =>
    intro other attempt' guard there guarded
    rcases Runs.update_cases there with ⟨-, rfl⟩ | ⟨-, before⟩
    · cases moved with
      | claimed =>
          obtain rfl := Option.some.inj guarded
          rfl
      | refused => cases guarded
      | works before keeps =>
          obtain rfl := Option.some.inj (keeps.symm.trans guarded)
          exact inv.own id attempt _ here before
      | dropped => cases guarded
    · exact inv.own other attempt' guard before guarded

variable [HttpDate] [UriSyntax] {base : OriginUrl}

/-- A step of one call is a step of its stage. -/
theorem step_attempt {id : Nat} {move : AttemptStep}
    (h : step base σ (.attempt id move) = some σ') :
    ∃ attempt stage store, σ.attempts id = some attempt ∧
      attempt.next base id σ.store move = some (stage, store) ∧
      σ' = ⟨store, Function.update σ.attempts id (some { attempt with stage })⟩ := by
  simp only [step, Option.bind_eq_bind, Option.bind_eq_some_iff, Option.pure_def] at h
  obtain ⟨attempt, here, ⟨stage, store⟩, moved, h⟩ := h
  exact ⟨attempt, stage, store, here, moved, (Option.some.inj h).symm⟩

theorem Inv.step {e : Event} (inv : Inv σ) (h : Refreshing.step base σ e = some σ') : Inv σ' := by
  cases e with
  | call id req entry =>
      simp only [Refreshing.step] at h
      split at h
      case h_1 => cases h
      case h_2 fresh =>
        obtain rfl := Option.some.inj h
        exact inv.call fresh req entry
  | attempt id move =>
      obtain ⟨attempt, stage, store, here, moved, rfl⟩ := step_attempt h
      exact inv.moved here (attempt.next_moved moved)
  | access access =>
      obtain rfl := Option.some.inj h
      exact ⟨(access.apply_refreshing σ.store).symm ▸ inv.exact, inv.own⟩

/-! ## The ways out -/

/-- How a call that has a guard comes to its end. -/
inductive Exits (base : OriginUrl) (attempt : Attempt) : AttemptStep → Prop
  | badTarget {guard refused} (builds : attempt.stage = .builds guard)
      (invalid : attempt.req.upstream base = none) : Exits base attempt (.build refused)
  | buildError {guard} (builds : attempt.stage = .builds guard) :
    Exits base attempt (.build true)
  | notModified {task sent head now} (runs : attempt.stage = .runs task sent)
      (awaits : task.stage = .awaits) (status : head.status = .notModified) :
    Exits base attempt (.answered head now)
  | unstorable {task sent head now} (runs : attempt.stage = .runs task sent)
      (awaits : task.stage = .awaits)
      (refused : storable (.new task.req.method task.req.headers) task.req.headers head.status
        head.map now = none) :
    Exits base attempt (.answered head now)
  /-- an error of the origin, or the timeout -/
  | originFailed {task sent} (runs : attempt.stage = .runs task sent)
      (awaits : task.stage = .awaits) : Exits base attempt .failed
  /-- the response is stored, or its body has failed, stalled or grown too
  long -/
  | body {task sent storing head body now} (runs : attempt.stage = .runs task sent)
      (collects : task.stage = .collects storing head) : Exits base attempt (.body body now)
  | stopped {task sent} (runs : attempt.stage = .runs task sent) : Exits base attempt .stop

/-- Each way out leaves the guard to drop. -/
theorem Exits.next {attempt : Attempt} {move : AttemptStep} (exits : Exits base attempt move)
    (id : Nat) (store : Store) :
    ∃ guard after, attempt.next base id store move = some (.leaves guard, after) := by
  cases exits with
  | @badTarget guard refused builds invalid =>
      refine ⟨guard, store, ?_⟩
      simp only [Attempt.next, builds, invalid]
  | @buildError guard builds =>
      refine ⟨guard, store, ?_⟩
      simp only [Attempt.next, builds]
      cases attempt.req.upstream base with
      | none => rfl
      | some request => rfl
  | @notModified task sent head now runs awaits status =>
      refine ⟨task.guard, (task.refresh id store head now).1, ?_⟩
      simp only [Attempt.next, runs, awaits]
      rw [show (task.refresh id store head now).2.2 = .ended by
        rw [Task.refresh, if_pos status]]
      rfl
  | @unstorable task sent head now runs awaits refused =>
      have unplanned : (storePlan (.task id) store task.req head now).1 = none := by
        simp only [storePlan, refused, Option.map_none]
      refine ⟨task.guard, (task.refresh id store head now).1, ?_⟩
      simp only [Attempt.next, runs, awaits]
      rw [show (task.refresh id store head now).2.2 = .ended from ?_]
      · rfl
      · unfold Task.refresh
        split
        · rfl
        · split
          · rename_i plan
            rw [plan] at unplanned
            cases unplanned
          · rfl
  | @originFailed task sent runs awaits =>
      refine ⟨task.guard, store, ?_⟩
      simp only [Attempt.next, runs, awaits]
  | @body task sent storing head body now runs collects =>
      refine ⟨task.guard, (Task.collected id store storing head body now).1, ?_⟩
      simp only [Attempt.next, runs, collects]
  | @stopped task sent runs =>
      refine ⟨task.guard, store, ?_⟩
      simp only [Attempt.next, runs]

theorem step_of_next {id : Nat} {attempt : Attempt} {move : AttemptStep} {stage : AttemptStage}
    {store : Store} (here : σ.attempts id = some attempt)
    (h : attempt.next base id σ.store move = some (stage, store)) :
    step base σ (.attempt id move) =
      some ⟨store, Function.update σ.attempts id (some { attempt with stage })⟩ := by
  simp [step, here, h]

/-- A call that nothing disturbs comes to what `refreshInBackground` says: a
task with its request, or the end. -/
theorem refreshInBackground_run {id : Nat} {req : HttpRequest} {entry : StaleEntry}
    (here : σ.attempts id = some ⟨req, entry, .called⟩) :
    ∃ moves : List AttemptStep,
      Runs.run (step base) σ (moves.map (.attempt id)) =
        some ⟨(refreshInBackground base σ.store req entry).1,
          Function.update σ.attempts id (some ⟨req, entry,
            (refreshInBackground base σ.store req entry).2.elim .ended fun spawned =>
              .runs spawned.1 spawned.2⟩)⟩ := by
  unfold refreshInBackground Store.startRefresh
  by_cases taken : entry.key ∈ σ.store.refreshing
  · refine ⟨[.claim], Runs.run_cons.mpr ⟨_, step_of_next here ?_, rfl⟩⟩
    simp only [Attempt.next, Store.startRefresh, if_pos taken, Option.elim]
  · -- the claim comes first, whatever follows
    have claimed : step base σ (.attempt id .claim) = some
        ⟨{ σ.store with refreshing := insert entry.key σ.store.refreshing },
          Function.update σ.attempts id (some ⟨req, entry, .builds ⟨entry.key⟩⟩)⟩ := by
      refine step_of_next here ?_
      simp only [Attempt.next, Store.startRefresh, if_neg taken]
    simp only [if_neg taken]
    cases target : req.upstream base with
    | none =>
        refine ⟨[.claim, .build false, .drop], Runs.run_cons.mpr ⟨_, claimed, ?_⟩⟩
        simp [Runs.run, step, Attempt.next, target, Function.update_idem]
    | some request =>
        rw [Option.map_some]
        by_cases built : UriSyntax.builds
            (withValidators (withoutPreconditions request) entry.response.val) = true
        · rw [Option.filter_some_pos built]
          refine ⟨[.claim, .build false], Runs.run_cons.mpr ⟨_, claimed, ?_⟩⟩
          simp [Runs.run, step, Attempt.next, target, Function.update_idem]
        · rw [Option.filter_some_neg (Bool.eq_false_iff.mpr built)]
          refine ⟨[.claim, .build true, .drop], Runs.run_cons.mpr ⟨_, claimed, ?_⟩⟩
          simp [Runs.run, step, Attempt.next, target, Function.update_idem]

/-- A key leaves the hands of a call in one step only, the drop of its guard,
which takes this key out of the set and no other. -/
theorem released_by_drop {id : Nat} {key : ResponseKey} {e : Event}
    (guards : σ.Guards id key) (h : step base σ e = some σ') (gone : ¬ σ'.Guards id key) :
    e = .attempt id .drop ∧ σ'.store.refreshing = σ.store.refreshing.erase key := by
  obtain ⟨attempt, guard, here, guarded, rfl⟩ := guards
  -- a step that leaves the call where it is leaves it its guard
  have stays (still : σ'.attempts id = some attempt) : False :=
    gone ⟨attempt, guard, still, guarded, rfl⟩
  cases e with
  | call other req entry =>
      simp only [step] at h
      split at h
      case h_1 => cases h
      case h_2 fresh =>
        obtain rfl := Option.some.inj h
        have away : id ≠ other := by
          rintro rfl
          rw [here] at fresh
          cases fresh
        exact (stays ((Function.update_of_ne away ..).trans here)).elim
  | access access =>
      obtain rfl := Option.some.inj h
      exact (stays here).elim
  | attempt other move =>
      obtain ⟨attempt', stage, store, there, moved, rfl⟩ := step_attempt h
      by_cases same : id = other
      · subst same
        obtain rfl := Option.some.inj (here.symm.trans there)
        cases attempt.next_moved moved with
        | claimed called =>
            rw [called] at guarded
            cases guarded
        | refused called =>
            rw [called] at guarded
            cases guarded
        | works before keeps =>
            obtain rfl := Option.some.inj (guarded.symm.trans before)
            exact (gone ⟨_, guard, Function.update_self .., keeps, rfl⟩).elim
        | dropped leaves =>
            rw [leaves] at guarded
            obtain rfl := Option.some.inj guarded
            exact ⟨rfl, rfl⟩
      · exact (stays ((Function.update_of_ne same ..).trans here)).elim

/-- A call whose key is free gets the guard. -/
theorem claim_of_free {id : Nat} {key : ResponseKey} (calls : σ.Calls id key)
    (free : key ∉ σ.store.refreshing) :
    ∃ σ', step base σ (.attempt id .claim) = some σ' ∧ σ'.Guards id key := by
  obtain ⟨attempt, here, called, rfl⟩ := calls
  have claimed : attempt.next base id σ.store .claim = some (.builds ⟨attempt.entry.key⟩,
      { σ.store with refreshing := insert attempt.entry.key σ.store.refreshing }) := by
    simp only [Attempt.next, called, Store.startRefresh, if_neg free]
  exact ⟨_, step_of_next here claimed, _, _, Function.update_self .., rfl, rfl⟩

omit [HttpDate] [UriSyntax] in
theorem InFlight.guards (inv : Inv σ) {id : Nat} {key : ResponseKey}
    (inFlight : σ.InFlight id key) : σ.Guards id key := by
  obtain ⟨attempt, task, sent, here, runs, rfl⟩ := inFlight
  have guarded : attempt.stage.guard = some task.guard := by rw [runs]; rfl
  exact ⟨attempt, task.guard, here, guarded, inv.own id attempt task.guard here guarded⟩

/-- For every interleaving of stale requests and their tasks with each other
and with whatever happens to the store's maps: the set holds the keys of the
live guards; no two background requests for one key are in flight; every way
out leads to the drop of the guard, which nothing prevents; and from that
drop on, which takes out its own key alone, the next stale request for the
key gets the guard. -/
theorem one_revalidation_per_key (base : OriginUrl) (sizeMb : UInt64) (ttl : Duration)
    (events : List Event) (σ : Refreshing)
    (run : Runs.run (step base) (start sizeMb ttl) events = some σ) :
    (∀ key, key ∈ σ.store.refreshing ↔ ∃ id, σ.Guards id key) ∧
    (∀ key id id', σ.InFlight id key → σ.InFlight id' key → id = id') ∧
    (∀ id attempt move, σ.attempts id = some attempt → Exits base attempt move →
      ∃ σ', step base σ (.attempt id move) = some σ' ∧ σ'.Leaves id attempt.entry.key) ∧
    (∀ id key, σ.Leaves id key →
      ∃ σ', step base σ (.attempt id .drop) = some σ' ∧ ¬ σ'.Guards id key) ∧
    ∀ id key e σ', σ.Guards id key → step base σ e = some σ' → ¬ σ'.Guards id key →
      e = .attempt id .drop ∧ σ'.store.refreshing = σ.store.refreshing.erase key ∧
      ∀ next, σ'.Calls next key →
        ∃ σ'', step base σ' (.attempt next .claim) = some σ'' ∧ σ''.Guards next key := by
  have inv : Inv σ :=
    Runs.invariant_run (fun _ _ _ inv h => Inv.step inv h) (Inv.start sizeMb ttl) run
  refine ⟨?_, ?_, ?_, ?_, ?_⟩
  · intro key
    simp only [← holds_eq_some]
    exact inv.exact.taken_iff key
  · intro key id id' here here'
    exact inv.exact.one id id' key (holds_eq_some.mpr (here.guards inv))
      (holds_eq_some.mpr (here'.guards inv))
  · intro id attempt move here exits
    obtain ⟨guard, after, leaves⟩ := exits.next id σ.store
    exact ⟨_, step_of_next here leaves, _, guard, Function.update_self .., rfl, rfl⟩
  · rintro id key ⟨attempt, guard, here, leaves, -⟩
    have dropped : attempt.next base id σ.store .drop =
        some (.ended, σ.store.endRefresh guard) := by
      simp only [Attempt.next, leaves]
    refine ⟨_, step_of_next here dropped, ?_⟩
    rintro ⟨attempt', guard', there, guarded, -⟩
    rcases Runs.update_cases there with ⟨-, rfl⟩ | ⟨away, -⟩
    · cases guarded
    · exact away rfl
  · intro id key e σ' guards h gone
    obtain ⟨drop, erased⟩ := released_by_drop guards h gone
    refine ⟨drop, erased, fun next calls => claim_of_free calls ?_⟩
    rw [erased]
    exact Finset.notMem_erase key _

end Refreshing

namespace Refreshing

/-- A stored page that requests have found stale. -/
def stalePage : StaleEntry where
  response := ⟨0, ⟨.ok, [], [], .zero, .zero, .zero, .zero, ⟨.zero, .zero, false⟩⟩⟩
  key := ⟨(germanRequest []).cacheKey, 0, []⟩

/-- Two requests find it, the second one while the task of the first waits for
the origin, which answers with a 304. -/
def twiceStaleEvents : List Event :=
  [.call 0 (germanRequest []) stalePage, .attempt 0 .claim, .attempt 0 (.build false),
    .call 1 (germanRequest []) stalePage, .attempt 1 .claim,
    .attempt 0 (.answered ⟨.notModified, []⟩ exampleClock)]

theorem one_revalidation_per_key_example : ∃ (_ : HttpDate) (_ : UriSyntax) (σ : Refreshing),
    Runs.run (step exampleOrigin) (start 1 (Duration.fromSecs 300)) twiceStaleEvents = some σ ∧
      (stalePage.key ∈ σ.store.refreshing ↔ ∃ id, σ.Guards id stalePage.key) ∧
      ∃ σ', step exampleOrigin σ (.attempt 0 .drop) = some σ' ∧
        ¬ σ'.Guards 0 stalePage.key := by
  let dates : HttpDate := ⟨fun _ => none⟩
  let uris : UriSyntax := ⟨fun _ => true, fun _ => true⟩
  obtain ⟨σ, run, first⟩ := Option.bind_eq_some_iff.mp
    (show (Runs.run (step exampleOrigin) (start 1 (Duration.fromSecs 300))
      twiceStaleEvents).bind (fun σ => σ.attempts 0) =
        some ⟨germanRequest [], stalePage, .leaves ⟨stalePage.key⟩⟩ from rfl)
  obtain ⟨set, -, -, drops, -⟩ := one_revalidation_per_key exampleOrigin 1 (Duration.fromSecs 300)
    twiceStaleEvents σ run
  exact ⟨dates, uris, σ, run, set _, drops 0 stalePage.key ⟨_, _, first, rfl, rfl⟩⟩

end Refreshing

end Shadowstep
