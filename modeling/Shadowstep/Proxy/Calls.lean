import Shadowstep.Proxy.Events
import Shadowstep.Proxy.Provenance

/-!
# The proxy's calls on the store

Whatever the interleaving, the store goes through calls, each one operation on
the two-level map, and through losses: what expires, is evicted or is
invalidated. So a lookup can find only what the proxy has put there for
somebody, under the `Vary` names and values of that request.

* `Calls` — a sequence of calls and losses, with the effects that report them;
* `Calls.all` — what is true of every response that is put is true of every
  response that can be found, until the generation numbers run out;
* `World.Judging.change` — every step of the proxy is such a sequence;
* `World.Moves.shows` — what an answer shows has been found.
-/

namespace Shadowstep

open Rust Generations

/-! ## Losses and generation numbers -/

namespace Store

/-- Records may be gone, and nothing else has changed. -/
structure Loses (before after : Store) : Prop where
  part : Table.Part after.table before.table
  generation : after.generation = before.generation
  arcs : after.arcs = before.arcs

theorem Loses.refl (store : Store) : store.Loses store :=
  ⟨⟨fun _ _ h => h, fun _ _ _ _ h => h⟩, rfl, rfl⟩

theorem Loses.of_sub {before after : Store} (sub : after.Sub before)
    (generation : after.generation = before.generation) : before.Loses after where
  part := by
    constructor
    · intro primary record h
      exact index_of_table.mpr (sub.index (index_of_table.mp h))
    · intro primary number vary arc h
      simp only [table, responseAt] at h ⊢
      split at h
      case h_1 found =>
        obtain rfl := Option.some.inj h
        rw [sub.entries found]
      case h_2 => cases h
  generation := generation
  arcs := sub.arcs

theorem loses_refreshing (store : Store) (refreshing : Finset ResponseKey) :
    store.Loses { store with refreshing := refreshing } :=
  .of_sub (store.sub_refreshing refreshing) rfl

theorem loses_expire (store : Store) (now : Instant) : store.Loses (store.expire now) :=
  .of_sub (store.sub_expire now) rfl

theorem loses_removeIndex (store : Store) (primary : PrimaryKey) :
    store.Loses (store.removeIndex primary) :=
  .of_sub (store.sub_removeIndex primary) rfl

theorem loses_insertAsset (store : Store) (path : Path) (content : Bytes) (etag : Text)
    (modified : SystemTime) : store.Loses (store.insertAsset path content etag modified).2 := by
  have moves := store.insertAsset_moves path content etag modified
  refine ⟨?_, moves.generation, moves.arcs⟩
  rw [moves.table]
  exact ⟨fun _ _ h => h, fun _ _ _ _ h => h⟩

/-- The counter has given out so many numbers, each for a response of its own,
and no others are in use. -/
structure Counts (store : Store) (taken : Nat) : Prop where
  counter : store.generation = UInt64.ofNat taken
  within : store.table.Within (numbers taken)
  few : taken ≤ store.arcs

theorem Counts.loses {before after : Store} {taken : Nat} (counts : before.Counts taken)
    (loses : before.Loses after) : after.Counts taken :=
  ⟨loses.generation.trans counts.counter, counts.within.part loses.part,
    loses.arcs ▸ counts.few⟩

theorem Counts.moves {before after : Store} {taken : Nat} (counts : before.Counts taken)
    {op : TableOp} (moves : before.Moves after op) : ∃ taken', after.Counts taken' := by
  have wider {more : Nat} : before.table.Within (numbers (taken + more)) :=
    counts.within.mono (numbers_mono (Nat.le_add_right _ _))
  cases takes : op.takes before.table with
  | false =>
      refine ⟨taken, ?_, ?_, ?_⟩
      · rw [moves.generation, takes, counts.counter]
        rfl
      · rw [moves.table]
        exact counts.within.apply op fun h => by rw [takes] at h; cases h
      · rw [moves.arcs]
        exact counts.few.trans (Nat.le_add_right _ _)
  | true =>
      refine ⟨taken + 1, ?_, ?_, ?_⟩
      · rw [moves.generation, takes, counts.counter]
        exact (UInt64.ofNat_add _ _).symm
      · rw [moves.table, counts.counter]
        exact wider.apply op fun _ => ⟨taken, Nat.lt_succ_self _, rfl⟩
      · rw [moves.arcs]
        cases op with
        | put => exact Nat.succ_le_succ counts.few
        | skip | drop | evict => cases takes

/-- While there are numbers left, the next one is new. -/
theorem Counts.unused {store : Store} {taken : Nat} (counts : store.Counts taken)
    (left : store.arcs < 2 ^ 64) : store.table.Unused store.generation := by
  rw [counts.counter]
  exact counts.within.unused (not_mem_numbers (counts.few.trans_lt left))

end Store

/-- What is true of every response that can be found is true of what a lookup
finds, also when some have been lost. -/
theorem Store.all_found {Φ : PrimaryKey → List HeaderName → VaryValues → Arc StoredResponse → Prop}
    {before after : Store} (all : before.table.view.All Φ) (loses : before.Loses after)
    {primary : PrimaryKey} {request : HeaderMap} {entry : StaleEntry}
    (h : after.find primary request = some entry) :
    ∃ names, Φ primary names (varyValues names request) entry.response := by
  have found := after.find_table primary request
  rw [h, ← Table.find_view] at found
  exact (Table.all_of_part all loses.part).find found.symm

/-! ## Calls -/

section

variable [HttpDate]

/-- `freshen` stores under what the 304 is judged by. -/
theorem Store.freshenOp_vary {store : Store} {entry : StaleEntry} {policy : RequestPolicy}
    {request : HeaderMap} {update : Fields} {age : Option HeaderValue} {now : Clock}
    {primary : PrimaryKey} {tag : List HeaderName} {v : VaryValues} {arc : Arc StoredResponse}
    (h : store.freshenOp entry policy request update age now = .put primary tag v arc) :
    ∃ accepted, storable policy request entry.response.val.status
      (freshenMap entry.response.val update age) now = some (accepted, ⟨tag, v⟩) := by
  unfold freshenOp at h
  simp only at h
  split at h
  case isTrue =>
    split at h
    case h_1 accepted vary verdict =>
      unfold insertOp at h
      split at h
      · obtain ⟨-, rfl, rfl, -⟩ := Table.Op.put.inj h
        exact ⟨accepted, verdict⟩
      · cases h
    case h_2 => cases h
  case isFalse => cases h

/-- Calls on the store and losses, with the effects that report the calls.
`A` tells who acts for which request. -/
inductive Calls (A : Actor → HttpRequest → Prop) : Store → Store → List Effect → Prop
  | none {store} : Calls A store store []
  | loses {before middle after effects} (loses : before.Loses middle)
      (rest : Calls A middle after effects) : Calls A before after effects
  | silent {before after effect effects} (quiet : effect.stored = Option.none)
      (rest : Calls A before after effects) : Calls A before after (effect :: effects)
  | wrote {before middle after op actor judged stored effects} (moves : before.Moves middle op)
      (asked : A actor judged.request)
      (stored_eq : stored = if Store.allocations op = 0 then Option.none else some before.arcs)
      (put : ∀ primary tag v arc, op = .put primary tag v arc →
        primary = judged.request.cacheKey ∧ ∃ policy, judged.verdict = some (policy, ⟨tag, v⟩))
      (rest : Calls A middle after effects) :
    Calls A before after (.wrote actor judged stored :: effects)

variable {A : Actor → HttpRequest → Prop} {before middle after : Store}
  {effects : List Effect}

theorem Calls.append {more : List Effect} (calls : Calls A before middle effects)
    (calls' : Calls A middle after more) : Calls A before after (effects ++ more) := by
  induction calls with
  | none => exact calls'
  | loses loses _ ih => exact .loses loses (ih calls')
  | silent quiet _ ih => exact .silent quiet (ih calls')
  | wrote moves asked stored_eq put _ ih => exact .wrote moves asked stored_eq put (ih calls')

theorem Calls.quiet (loses : before.Loses after)
    (quiet : effects.filterMap Effect.stored = []) : Calls A before after effects := by
  refine .loses loses ?_
  induction effects with
  | nil => exact .none
  | cons effect rest ih =>
      rw [List.filterMap_eq_nil_iff] at quiet
      refine .silent (quiet effect List.mem_cons_self) (ih ?_)
      exact List.filterMap_eq_nil_iff.mpr fun other h => quiet other (List.mem_cons_of_mem _ h)

theorem Calls.arcs_le (calls : Calls A before after effects) : before.arcs ≤ after.arcs := by
  induction calls with
  | none => exact Nat.le_refl _
  | loses loses _ ih => exact loses.arcs ▸ ih
  | silent _ _ ih => exact ih
  | wrote moves _ _ _ _ ih =>
      rw [moves.arcs] at ih
      exact (Nat.le_add_right _ _).trans ih

theorem Calls.counts (calls : Calls A before after effects) {taken : Nat}
    (counts : before.Counts taken) : ∃ taken', after.Counts taken' := by
  induction calls generalizing taken with
  | none => exact ⟨taken, counts⟩
  | loses loses _ ih => exact ih (counts.loses loses)
  | silent _ _ ih => exact ih counts
  | wrote moves _ _ _ _ ih =>
      obtain ⟨taken', counts'⟩ := counts.moves moves
      exact ih counts'

/-- What is true of every response that is put stays true of every response
that a lookup can find. -/
theorem Calls.all {Φ : PrimaryKey → List HeaderName → VaryValues → Arc StoredResponse → Prop}
    (calls : Calls A before after effects) {taken : Nat} (counts : before.Counts taken)
    (few : after.arcs ≤ 2 ^ 64) (all : before.table.view.All Φ)
    (new : ∀ actor judged policy vary arc, .wrote actor judged (some arc.ptr) ∈ effects →
      before.arcs ≤ arc.ptr → A actor judged.request → judged.verdict = some (policy, vary) →
        Φ judged.request.cacheKey vary.names vary.values arc) :
    after.table.view.All Φ := by
  induction calls generalizing taken with
  | none => exact all
  | loses loses rest ih =>
      refine ih (counts.loses loses) few (Table.all_of_part all loses.part) ?_
      rw [loses.arcs]
      exact new
  | silent _ _ ih =>
      refine ih counts few all fun actor judged policy vary arc wrote => ?_
      exact new actor judged policy vary arc (List.mem_cons_of_mem _ wrote)
  | @wrote before middle after op actor judged stored effects moves asked stored_eq put rest ih =>
      obtain ⟨taken', counts'⟩ := counts.moves moves
      have more := rest.arcs_le
      rw [moves.arcs] at more
      refine ih counts' few ?_ fun actor judged policy vary arc wrote later => ?_
      · rw [moves.table]
        refine Table.all_apply all (fun takes => counts.unused ?_) fun primary tag v arc h => ?_
        · cases op with
          | put => exact more.trans few
          | skip | drop | evict => cases takes
        · obtain ⟨key, policy, verdict⟩ := put primary tag v arc h
          have ptr := (moves.allocated primary tag v arc h).1
          subst h
          rw [key]
          refine new actor judged policy ⟨tag, v⟩ arc ?_ ptr.ge asked verdict
          rw [stored_eq, ptr]
          exact List.mem_cons_self
      · refine new actor judged policy vary arc (List.mem_cons_of_mem _ wrote) ?_
        rw [moves.arcs] at later
        exact (Nat.le_add_right _ _).trans later

/-! ## The functions that call -/

/-- What a `Storing` was judged for. -/
structure Storing.For (req : HttpRequest) (storing : Storing) : Prop where
  primary : storing.primary = req.cacheKey
  request : storing.judged.request = req
  verdict : storing.judged.verdict = some (storing.policy, storing.vary)

/-- The copy of a body is for this request. -/
def Tee.For (req : HttpRequest) (tee : Tee) : Prop :=
  ∀ copy, tee.copy = some copy → copy.storing.For req

variable {req : HttpRequest} {actor : Actor}

theorem Storing.For.finish {storing : Storing} (mine : storing.For req) (asked : A actor req)
    (store : Store) (status : StatusCode) (headers : Fields) (body : Bytes) (now : Clock) :
    Calls A store (storing.finish actor store status headers body now).1
      (storing.finish actor store status headers body now).2 := by
  unfold Storing.finish
  have asked : A actor storing.judged.request := mine.request ▸ asked
  cases admits : store.admits body with
  | true =>
      obtain ⟨after, inserted, moves⟩ := Store.insertResponse_of_admits admits storing.primary
        storing.vary storing.policy status headers now
      simp only [inserted]
      refine .wrote moves asked rfl ?_ .none
      rintro primary tag v arc ⟨⟩
      exact ⟨by rw [mine.primary, mine.request], storing.policy, mine.verdict⟩
  | false =>
      simp only [Store.insertResponse_of_not_admits admits]
      exact .wrote (Store.Moves.skip store) asked rfl (fun _ _ _ _ h => by cases h) .none

theorem freshenFrom_calls {entry : StaleEntry} (key : entry.key.primary = req.cacheKey)
    (asked : A actor req) (store : Store) (head : Head) (now : Clock) :
    Calls A store (freshenFrom actor store entry req head now).2.1
      (freshenFrom actor store entry req head now).2.2 := by
  unfold freshenFrom
  have moves := Store.freshen_moves store entry (.new req.method req.headers) req.headers
    (storedFields (forwardableFields head)) (head.map.get header.age) now
  refine .wrote moves asked ?_ ?_ .none
  · simp only [moves.arcs, Nat.add_eq_left]
  · intro primary tag v arc put
    exact ⟨(Store.freshenOp_primary put).symm.trans key, Store.freshenOp_vary put⟩

theorem Tee.For.finish {tee : Tee} (mine : tee.For req) {id : Nat} (asked : A (.request id) req)
    (store : Store) (now : Clock) :
    Calls A store (tee.finish id store now).1 (tee.finish id store now).2.1 ∧
      (tee.finish id store now).2.2.For req := by
  unfold Tee.finish
  cases h : tee.copy with
  | none => exact ⟨.none, mine⟩
  | some copy =>
      simp only
      split
      · refine ⟨((mine copy h).finish asked ..).append ?_, fun _ h => by cases h⟩
        exact .quiet (.refl _) (released_stored ..)
      · exact ⟨.quiet (.refl store) (released_stored ..), fun _ h => by cases h⟩

omit [HttpDate] in
theorem Tee.discard_stored (tee : Tee) (id : Nat) :
    (tee.discard id).1.filterMap Effect.stored = [] := by
  unfold Tee.discard
  cases tee.copy with
  | none => rfl
  | some copy => exact released_stored ..

theorem Tee.For.poll {tee : Tee} (mine : tee.For req) {id : Nat} (asked : A (.request id) req)
    (store : Store) (item : Item) (now : Clock) :
    Calls A store (tee.poll id store item now).1 (tee.poll id store item now).2.1 ∧
      (tee.poll id store item now).2.2.For req := by
  unfold Tee.poll
  have dropped : Calls A store store (tee.discard id).1 ∧ (tee.discard id).2.For req :=
    ⟨.quiet (.refl store) (tee.discard_stored id), fun _ h => by cases h⟩
  cases item with
  | chunk chunk =>
      cases h : tee.copy with
      | none => exact ⟨.none, mine⟩
      | some copy =>
          simp only
          have longer : Tee.For req
              { tee with copy := some { copy with buffer := copy.buffer ++ chunk } } := by
            rintro _ ⟨⟩
            exact mine copy h
          split
          · exact dropped
          · split
            · exact longer.finish asked store now
            · exact ⟨.none, longer⟩
  | failed => exact dropped
  | ended => exact mine.finish asked store now

theorem storePlan_calls (actor : Actor) (store : Store) (req : HttpRequest) (head : Head)
    (now : Clock) :
    Calls A store (storePlan actor store req head now).2.1
        (storePlan actor store req head now).2.2 ∧
      ∀ storing, (storePlan actor store req head now).1 = some storing → storing.For req := by
  constructor
  · unfold storePlan
    simp only
    split
    · exact .quiet (store.loses_removeIndex _) rfl
    · exact .none
  · intro storing h
    obtain ⟨⟨policy, vary⟩, accepted, rfl⟩ := Option.map_eq_some_iff.mp h
    exact ⟨rfl, rfl, accepted⟩

theorem clientResponse_calls {storing : Option Storing} (mine : ∀ s, storing = some s → s.For req)
    {id : Nat} (asked : A (.request id) req) (store : Store) (head : Head) (now : Clock) :
    Calls A store (clientResponse id store head storing now).2.1
        (clientResponse id store head storing now).2.2.1 ∧
      (clientResponse id store head storing now).2.2.2.For req := by
  unfold clientResponse Tee.new
  simp only
  have copied : Tee.For req ⟨contentLength head,
      (storing.filter fun storing => (contentLength head).all (· ≤ storing.limit)).map
        fun storing => ⟨[], storing, head.status, storedFields (forwardableFields head)⟩⟩ := by
    intro copy h
    obtain ⟨s, kept, rfl⟩ := Option.map_eq_some_iff.mp h
    exact mine s (Option.filter_eq_some_iff.mp kept).1
  have refused (dropped : Bool) : Calls A store store
      (if dropped then storing.elim [] fun s => released id s.flight else []) := by
    refine .quiet (.refl store) ?_
    cases dropped with
    | false => rfl
    | true =>
        cases storing with
        | none => rfl
        | some s => exact released_stored ..
  split
  · obtain ⟨calls, mine⟩ := copied.finish asked store now
    exact ⟨(refused _).append calls, mine⟩
  · exact ⟨(refused _).append .none, copied⟩

theorem Exchange.forwarded_calls (exchange : Exchange) {id : Nat} (asked : A (.request id) req)
    (store : Store) (head : Head) (now : Clock) :
    Calls A store (exchange.forwarded id store req head now).store
        (exchange.forwarded id store req head now).effects ∧
      ∀ tee, (exchange.forwarded id store req head now).stage = .streams tee → tee.For req := by
  unfold Exchange.forwarded
  simp only
  obtain ⟨planned, mine⟩ := storePlan_calls (.request id) store req head now
  have held : ∀ s, (storePlan (.request id) store req head now).1.map
      (fun s => s.holding exchange.flight) = some s → s.For req := by
    intro s h
    obtain ⟨storing, plan, rfl⟩ := Option.map_eq_some_iff.mp h
    obtain ⟨primary, request, verdict⟩ := mine storing plan
    exact ⟨primary, request, verdict⟩
  obtain ⟨calls, copied⟩ := clientResponse_calls held asked
    (storePlan (.request id) store req head now).2.1 head now
  refine ⟨(planned.append (.quiet (.refl _) ?_)).append calls, ?_⟩
  · split
    · exact released_stored ..
    · rfl
  · rintro _ ⟨⟩
    exact copied

theorem Task.refresh_calls {task : Task} (key : task.entry.key.primary = task.req.cacheKey)
    {id : Nat} (asked : A (.task id) task.req) (store : Store) (head : Head) (now : Clock) :
    Calls A store (task.refresh id store head now).1 (task.refresh id store head now).2.1 ∧
      ∀ storing head', (task.refresh id store head now).2.2 = .collects storing head' →
        storing.For task.req := by
  unfold Task.refresh
  split
  · exact ⟨freshenFrom_calls key asked .., fun _ _ h => by cases h⟩
  · obtain ⟨planned, mine⟩ := storePlan_calls (.task id) store task.req head now
    split
    case h_1 storing after effects plan =>
      rw [plan] at planned mine
      refine ⟨planned, ?_⟩
      rintro _ _ ⟨⟩
      exact mine storing rfl
    case h_2 after effects plan =>
      rw [plan] at planned
      exact ⟨planned, fun _ _ h => by cases h⟩

theorem Task.collected_calls {storing : Storing} (mine : storing.For req) {id : Nat}
    (asked : A (.task id) req) (store : Store) (head : Head) (body : Option Bytes)
    (now : Clock) :
    Calls A store (Task.collected id store storing head body now).1
      (Task.collected id store storing head body now).2 := by
  unfold Task.collected
  cases body with
  | none => exact .none
  | some body =>
      simp only
      split
      · exact mine.finish asked ..
      · exact .none

/-! ## The machine -/

/-- What a request holds is for the request. -/
structure Stage.For (req : HttpRequest) (stage : Stage) : Prop where
  stale : ∀ entry, stage.stale = some entry → entry.key.primary = req.cacheKey
  isGet : ∀ entry, stage.stale = some entry → req.method = .get
  copies : ∀ tee, stage = .streams tee → tee.For req

/-- What a task holds is for the request it was started by. -/
structure Task.Mine (task : Task) : Prop where
  key : task.entry.key.primary = task.req.cacheKey
  collects : ∀ storing head, task.stage = .collects storing head → storing.For task.req

omit [HttpDate] in
theorem Found.primary {store : Store} {entry : StaleEntry} (found : Found store req entry) :
    entry.key.primary = req.cacheKey := by
  obtain ⟨index, -, key, -⟩ := Store.find_eq_some.mp found.found
  rw [key]
  rfl

namespace World

theorem or_calls (id : Nat) (flight : Option Flight) (next : Option StaleEntry → Stage)
    (store : Store) (refreshing : Finset ResponseKey) (cached : Cached)
    (spawned : Option (Task × UpstreamRequest)) :
    let outcome := Cached.or id flight next
      (cached, { store with refreshing := refreshing }, spawned)
    Calls A store outcome.store outcome.effects := by
  cases cached with
  | answer => exact .quiet (store.loses_refreshing refreshing) (released_stored ..)
  | _ => exact .quiet (store.loses_refreshing refreshing) rfl

/-- A step of a request makes calls for it. -/
theorem Moves.calls {σ : World} {id : Nat} {stage : Stage} {outcome : Outcome}
    (moves : Moves σ id req stage outcome) (mine : stage.For req)
    (asked : A (.request id) req) : Calls A σ.store outcome.store outcome.effects := by
  have quiet {effects : List Effect} (h : effects.filterMap Effect.stored = []) :
      Calls A σ.store σ.store effects :=
    .quiet (.refl σ.store) h
  cases moves with
  | lookFirst | lookAgain => exact or_calls ..
  | wake => exact quiet rfl
  | refused => exact quiet (released_stored ..)
  | sent => exact quiet rfl
  | @revalidated exchange stale head now clock found =>
      exact (freshenFrom_calls (mine.stale stale found) asked ..).append
        (.quiet (.refl _) (released_stored ..))
  | onError => exact quiet (released_stored ..)
  | @forwarded exchange head now => exact (exchange.forwarded_calls asked ..).1
  | failed => exact quiet (released_stored ..)
  | body => exact ((mine.copies _ rfl).poll asked ..).1
  | hangUp h =>
      cases stage <;> cases h
      case streams.refl tee => exact quiet (tee.discard_stored id)
      all_goals exact quiet (by simp [goesOn])

theorem Moves.mine {σ : World} {id : Nat} {stage : Stage} {outcome : Outcome}
    (moves : Moves σ id req stage outcome) (mine : stage.For req) : outcome.stage.For req := by
  refine ⟨fun entry h => ?_, fun entry h => ?_, fun tee h => ?_⟩
  · obtain before | found := moves.found.1 entry h
    · exact mine.stale entry before
    · exact found.primary
  · obtain before | found := moves.found.1 entry h
    · exact mine.isGet entry before
    · exact found.isGet
  · cases moves with
    | lookFirst unexpired found | lookAgain unexpired found => cases found <;> cases h
    | @forwarded exchange head now =>
        exact (exchange.forwarded_calls (A := fun _ _ => True) trivial ..).2 tee h
    | body =>
        cases h
        exact ((mine.copies _ rfl).poll (A := fun _ _ => True) trivial ..).2
    | hangUp hung => cases stage <;> cases hung <;> cases h
    | _ => cases h

/-- A task is started for the request whose step starts it. -/
theorem Moves.spawned_mine {σ : World} {id : Nat} {stage : Stage} {outcome : Outcome}
    (moves : Moves σ id req stage outcome) :
    ∀ task request, outcome.spawned = some (task, request) → task.Mine := by
  intro task request spawned
  obtain ⟨found, awaits⟩ := moves.found.2 task request spawned
  have asked : task.req = req := by
    cases moves with
    | lookFirst unexpired here | lookAgain unexpired here =>
        cases here with
        | whileRevalidating _ _ _ _ _ mine => exact (mine task request spawned).1
        | _ => cases spawned
    | hangUp hung => cases stage <;> cases hung <;> cases spawned
    | _ => cases spawned
  refine ⟨asked ▸ found.primary, fun storing head collects => ?_⟩
  rw [awaits] at collects
  cases collects

/-- A step of a task makes calls for the request it was started by. -/
theorem TaskMoves.calls {σ : World} {id : Nat} {task : Task}
    {outcome : Store × List Effect × TaskStage} (moves : TaskMoves σ id task outcome)
    (mine : task.Mine) (asked : A (.task id) task.req) :
    Calls A σ.store outcome.1 outcome.2.1 ∧
      ∀ storing head, outcome.2.2 = .collects storing head → storing.For task.req := by
  cases moves with
  | refreshed => exact task.refresh_calls mine.key asked ..
  | failed => exact ⟨.none, fun _ _ h => by cases h⟩
  | body clock stage =>
      exact ⟨Task.collected_calls (mine.collects _ _ stage) asked .., fun _ _ h => by cases h⟩

/-- Whatever is held, and whatever is about to be stored, is for the request
it is held for. -/
structure Judging (σ : World) : Prop where
  requests : ∀ id request, σ.requests id = some request → request.stage.For request.req
  tasks : ∀ id task, σ.tasks id = some task → task.Mine

omit [HttpDate] in
theorem AtReading.loses {σ σ₀ : World}
    (time : σ₀ = σ ∨ ∃ now, σ.clock ≤ now ∧ σ₀ = σ.tick now) : σ.store.Loses σ₀.store := by
  rcases time with rfl | ⟨now, -, rfl⟩
  · exact .refl _
  · exact σ.store.loses_expire now

theorem Judging.settle {σ σ₀ : World} (judging : Judging σ) {id : Nat} {req : HttpRequest}
    {outcome : Outcome} (requests : σ₀.requests = σ.requests) (tasks : σ₀.tasks = σ.tasks)
    (mine : outcome.stage.For req)
    (spawned : ∀ task request, outcome.spawned = some (task, request) → task.Mine) :
    Judging (σ₀.settle id req outcome) := by
  refine ⟨fun other request h => ?_, fun other task h => ?_⟩
  · obtain ⟨-, rfl⟩ | ⟨-, before⟩ := Runs.update_cases h
    · exact mine
    · exact judging.requests other request (requests ▸ before)
  · obtain ⟨request, new⟩ | before := settle_tasks h
    · exact spawned task request new
    · exact judging.tasks other task (tasks ▸ before)

/-- The calls of a request's step are calls of the world's. -/
theorem calls_settle {σ σ₀ : World} (loses : σ.store.Loses σ₀.store) (log : σ₀.log = σ.log)
    {id : Nat} {req : HttpRequest} {outcome : Outcome}
    (calls : Calls A σ₀.store outcome.store outcome.effects) :
    ∃ effects, (σ₀.settle id req outcome).log = σ.log ++ effects ∧
      Calls A σ.store (σ₀.settle id req outcome).store effects := by
  obtain ⟨sent, logged, foreign⟩ := settle_log σ₀ id req outcome
  refine ⟨outcome.effects ++ sent, ?_, .loses loses (calls.append (.quiet (.refl _) ?_))⟩
  · rw [logged, log, List.append_assoc]
  · rw [List.filterMap_eq_nil_iff]
    intro effect h
    obtain ⟨request, rfl⟩ := foreign effect h
    rfl

/-- Every step makes calls, each for the request of the one who acts. -/
theorem Judging.change {σ σ' : World} (judging : Judging σ) (change : Change σ σ') :
    Judging σ' ∧ ∃ effects, σ'.log = σ.log ++ effects ∧
      Calls (fun actor req => σ'.asked actor = some req) σ.store σ'.store effects := by
  have still {store : Store} (loses : σ.store.Loses store) :
      Judging { σ with store := store } ∧ ∃ effects,
        ({ σ with store := store } : World).log = σ.log ++ effects ∧
        Calls (fun actor req => ({ σ with store := store } : World).asked actor = some req)
          σ.store store effects :=
    ⟨⟨judging.requests, judging.tasks⟩, [], (List.append_nil _).symm, .loses loses .none⟩
  have fresh {req : HttpRequest} {stage : Stage} (stale : stage.stale = none)
      (idle : ∀ tee, stage ≠ .streams tee) : stage.For req :=
    ⟨fun entry h => (by rw [stale] at h; cases h), fun entry h => (by rw [stale] at h; cases h),
      fun tee h => absurd h (idle tee)⟩
  have asked {σ₀ : World} {id : Nat} {req : HttpRequest} {outcome : Outcome} :
      (σ₀.settle id req outcome).asked (.request id) = some req := by
    simp [World.asked, World.settle]
  cases change with
  | @arrive id req =>
      have mine : Stage.first.For req := fresh rfl fun _ h => by cases h
      refine ⟨judging.settle rfl rfl mine (fun _ _ h => by cases h), ?_⟩
      exact calls_settle (.refl _) rfl .none
  | @request σ₀ id request outcome time here moves =>
      have read := at_reading time
      have mine := judging.requests id request here
      refine ⟨judging.settle read.requests read.tasks (moves.mine mine) moves.spawned_mine, ?_⟩
      exact calls_settle (AtReading.loses time) read.log (moves.calls mine asked)
  | @join id request stale here stage =>
      have mine := judging.requests id request here
      rw [stage] at mine
      generalize (joinFlight σ.store σ.flights request.req).1 = join
      refine ⟨judging.settle rfl rfl ?_ (fun _ _ h => by cases join <;> cases h), ?_⟩
      · cases join with
        | alone => exact ⟨mine.stale, mine.isGet, fun _ h => by cases h⟩
        | lead | follow => exact fresh rfl fun _ h => by cases h
      · exact calls_settle (.refl _) rfl (by cases join <;> exact .quiet (.refl _) rfl)
  | @task σ₀ id task outcome time here moves =>
      have read := at_reading time
      have mine := judging.tasks id task here
      have asked : (σ₀.settleTask id task outcome).asked (.task id) = some task.req := by
        simp [World.asked, World.settleTask]
      obtain ⟨calls, collects⟩ := moves.calls
        (A := fun actor req => (σ₀.settleTask id task outcome).asked actor = some req) mine asked
      refine ⟨⟨fun other request h => ?_, fun other task' h => ?_⟩, ?_⟩
      · exact judging.requests other request (read.requests ▸ h)
      · obtain ⟨-, rfl⟩ | ⟨-, before⟩ := Runs.update_cases h
        · exact ⟨mine.key, collects⟩
        · exact judging.tasks other task' (read.tasks ▸ before)
      · have ended : outcome.1.Loses (σ₀.settleTask id task outcome).store := by
          unfold settleTask
          simp only
          split
          · exact outcome.1.loses_refreshing _
          · exact .refl _
        refine ⟨outcome.2.1 ++ [], ?_,
          .loses (AtReading.loses time) (calls.append (.loses ended .none))⟩
        simp only [settleTask, read.log, List.append_nil]
  | insertAsset => exact still (σ.store.loses_insertAsset ..)
  | evictIndex => exact still (σ.store.loses_removeIndex _)
  | evictEntry => exact still (.of_sub (σ.store.sub_removeEntry _) rfl)

end World

end

/-! ## What answers show -/

/-- What an answer from the cache shows: a response that the request has just
found, of which `F` holds, or one that it has held while it was at the origin,
of which `H` holds. -/
def Cause.Shows (F H : Arc StoredResponse → Prop) : Cause → Prop
  | .fresh arc _ | .whileRevalidating arc => F arc
  | .onError arc _ => H arc
  | .revalidated response =>
    ∃ arc, H arc ∧ response.status = arc.val.status ∧ response.body = arc.val.body
  | .forwarded | .failed => True

theorem Cause.Shows.mono {F H F' H' : Arc StoredResponse → Prop} {cause : Cause}
    (shows : cause.Shows F H) (found : ∀ arc, F arc → F' arc) (held : ∀ arc, H arc → H' arc) :
    cause.Shows F' H' := by
  cases cause with
  | fresh arc | whileRevalidating arc => exact found arc shows
  | onError arc => exact held arc shows
  | revalidated response =>
      obtain ⟨arc, there, same⟩ := shows
      exact ⟨arc, held arc there, same⟩
  | forwarded | failed => trivial

theorem freshenFrom_returns [HttpDate] (actor : Actor) (store : Store) (entry : StaleEntry)
    (req : HttpRequest) (head : Head) (now : Clock) :
    (freshenFrom actor store entry req head now).1.status = entry.response.val.status ∧
      (freshenFrom actor store entry req head now).1.body = entry.response.val.body := by
  have returned : (freshenFrom actor store entry req head now).1 = (store.freshen entry
      (.new req.method req.headers) req.headers (storedFields (forwardableFields head))
      (head.map.get header.age) now).1 := rfl
  rw [returned, Store.freshen_returns]
  exact ⟨rfl, rfl⟩

namespace World

theorem Moves.shows [HttpDate] {σ : World} {id : Nat} {req : HttpRequest} {stage : Stage}
    {outcome : Outcome} {F H : Arc StoredResponse → Prop} (moves : Moves σ id req stage outcome)
    (found : ∀ entry, σ.store.find req.cacheKey req.headers = some entry → F entry.response)
    (held : ∀ entry, stage.stale = some entry → H entry.response) :
    ∀ answer, outcome.answer = some answer → answer.cause.Shows F H := by
  intro answer given
  cases moves with
  | lookFirst unexpired here | lookAgain unexpired here =>
      cases here with
      | fresh _ there | whileRevalidating _ _ _ there =>
          cases given
          exact found _ there
      | _ => cases given
  | @revalidated exchange stale head now clock there =>
      cases given
      exact ⟨stale.response, held stale there,
        freshenFrom_returns (.request id) σ.store stale req head now⟩
  | onError there =>
      cases given
      exact held _ there
  | refused | forwarded | failed =>
      cases given
      trivial
  | hangUp hung => cases stage <;> cases hung <;> cases given
  | _ => cases given

/-- `F` and `H` hold of what the answers from the `n`th on show, and `H` of what
is held. -/
structure Shown (F H : HttpRequest → Arc StoredResponse → Prop) (n : Nat) (σ : World) : Prop where
  held : ∀ id request entry, σ.requests id = some request → request.stage.stale = some entry →
    H request.req entry.response
  answers : ∀ given ∈ σ.answers.drop n, given.cause.Shows (F given.req) (H given.req)

variable {F H F' H' : HttpRequest → Arc StoredResponse → Prop} {n : Nat}

theorem Shown.mono {σ : World} (shown : Shown F H n σ) (found : ∀ req arc, F req arc → F' req arc)
    (held : ∀ req arc, H req arc → H' req arc) : Shown F' H' n σ :=
  ⟨fun id request entry h stale => held _ _ (shown.held id request entry h stale),
    fun given there => (shown.answers given there).mono (found _) (held _)⟩

theorem Shown.settle {σ σ₀ : World} (shown : Shown F H n σ) {id : Nat} {req : HttpRequest}
    {outcome : Outcome} (requests : σ₀.requests = σ.requests) (answers : σ₀.answers = σ.answers)
    (held : ∀ entry, outcome.stage.stale = some entry → H req entry.response)
    (answer : ∀ answer, outcome.answer = some answer → answer.cause.Shows (F req) (H req)) :
    Shown F H n (σ₀.settle id req outcome) := by
  refine ⟨fun other request entry h stale => ?_, fun given there => ?_⟩
  · obtain ⟨-, rfl⟩ | ⟨-, before⟩ := Runs.update_cases h
    · exact held entry stale
    · exact shown.held other request entry (requests ▸ before) stale
  · unfold World.settle at there
    simp only [answers, List.drop_append, List.mem_append] at there
    obtain before | new := there
    · exact shown.answers given before
    · have new := Option.mem_toList.mp (List.mem_of_mem_drop new)
      obtain ⟨said, hsaid, h⟩ := Option.bind_eq_some_iff.mp new
      obtain ⟨response, -, rfl⟩ := Option.map_eq_some_iff.mp h
      exact answer said hsaid

/-- A step shows what it finds in the store and what was held. -/
theorem Shown.change [HttpDate] {σ σ' : World} (shown : Shown F H n σ) (change : Change σ σ')
    (found : ∀ store req entry, σ.store.Loses store →
      store.find req.cacheKey req.headers = some entry → F req entry.response)
    (holds : ∀ req arc, F req arc → H req arc) : Shown F H n σ' := by
  cases change with
  | arrive =>
      exact shown.settle rfl rfl (fun _ h => by cases h) fun _ h => by cases h
  | @request σ₀ id request outcome time here moves =>
      have read := at_reading time
      have finds := found σ₀.store request.req
      have held := shown.held id request
      refine shown.settle read.requests read.answers (fun entry h => ?_) ?_
      · obtain before | there := moves.found.1 entry h
        · exact held entry here before
        · exact holds _ _ (finds entry (AtReading.loses time) there.found)
      · exact moves.shows (fun entry h => finds entry (AtReading.loses time) h)
          fun entry h => held entry here h
  | @join id request stale here stage =>
      have held := shown.held id request
      rw [stage] at held
      generalize (joinFlight σ.store σ.flights request.req).1 = join
      refine shown.settle rfl rfl (fun entry h => ?_) fun _ h => by cases join <;> cases h
      cases join with
      | alone => exact held entry here h
      | lead | follow => cases h
  | @task σ₀ id task outcome time here moves =>
      have read := at_reading time
      refine ⟨fun other request entry h => ?_, fun given there => ?_⟩
      · exact shown.held other request entry (read.requests ▸ h)
      · exact shown.answers given (read.answers ▸ there)
  | insertAsset | evictIndex | evictEntry => exact ⟨shown.held, shown.answers⟩

/-! ## Runs -/

/-- The store has only been called for those who act. -/
structure Called [HttpDate] (σ : World) : Prop where
  judging : Judging σ
  counts : ∃ taken, σ.store.Counts taken

theorem called_start [HttpDate] (sizeMb : UInt64) (ttl : Duration) :
    Called (start sizeMb ttl) where
  judging := ⟨fun _ _ h => (by cases h), fun _ _ h => (by cases h)⟩
  counts := ⟨0, rfl, (Observed.numbered_start sizeMb ttl).within, Nat.le_refl _⟩

theorem Called.change [HttpDate] {σ σ' : World} (called : Called σ) (change : Change σ σ') :
    Called σ' := by
  obtain ⟨judging, effects, -, calls⟩ := called.judging.change change
  obtain ⟨taken, counts⟩ := called.counts
  exact ⟨judging, calls.counts counts⟩

theorem called_run [HttpDate] [UriSyntax] {base : OriginUrl} {sizeMb : UInt64} {ttl : Duration}
    {events : List Event} {σ : World}
    (hrun : Runs.run (step base) (start sizeMb ttl) events = some σ) : Called σ :=
  Runs.invariant_run (fun _ _ _ called h => called.change (step_cases h).2)
    (called_start sizeMb ttl) hrun

end World

end Shadowstep
