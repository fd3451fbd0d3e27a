import Shadowstep.Proxy.Allowed
import Shadowstep.Proxy.Events

/-!
# Where a cached answer comes from

A body that the cache answers with has come from the origin in one piece: all
the chunks of one answer, to a request for the same key, in order, up to its
end. Its status is that answer's, and its fields are that answer's and those
of 304s to requests for the key. Nothing else gets into the store, whatever
fails, hangs up, expires or is evicted on the way.

* `Delivered` — an answer of the origin that has arrived whole;
* `FromOrigin` — what such answers and 304s can come to;
* `World.cached_answers_from_origin` — every cached answer is one of these.
-/

namespace Shadowstep

open Rust Generations

/-! ## Pages -/

/-- What a stored response shows to a client, but for its age. -/
structure Page where
  status : StatusCode
  headers : Fields
  body : Bytes

def StoredResponse.page (stored : StoredResponse) : Page :=
  ⟨stored.status, stored.headers, stored.body⟩

/-- The page of a whole answer. -/
def Head.page (head : Head) (body : Bytes) : Page :=
  ⟨head.status, storedFields (forwardableFields head), body⟩

/-- The page after a 304. -/
def Page.updated (page : Page) (head : Head) : Page :=
  { page with headers := updatedFields page.headers (storedFields (forwardableFields head)) }

/-- The stored response that an answer shows. -/
def Cause.stored : Cause → Option StoredResponse
  | .fresh response _ | .whileRevalidating response | .onError response _ => some response.val
  | .revalidated response => some response
  | .forwarded | .failed => none

/-! ## What the store gets -/

namespace Store

/-- Every stored response is one of these pages. -/
def Keyed (P : PrimaryKey → Page → Prop) (store : Store) : Prop :=
  ∀ key arc, store.responseAt key = some arc → P key.primary arc.val.page

/-- Every response that was not there before is one of these pages. -/
def Adds (P : PrimaryKey → Page → Prop) (before after : Store) : Prop :=
  ∀ key arc, after.responseAt key = some arc →
    before.responseAt key = some arc ∨ P key.primary arc.val.page

variable {P : PrimaryKey → Page → Prop} {before middle after : Store}

theorem Adds.keyed (adds : Adds P before after) (keyed : Keyed P before) : Keyed P after := by
  intro key arc h
  obtain old | new := adds key arc h
  · exact keyed key arc old
  · exact new

theorem Adds.refl (store : Store) : Adds P store store := fun _ _ h => .inl h

theorem Adds.trans (adds : Adds P before middle) (adds' : Adds P middle after) :
    Adds P before after := by
  intro key arc h
  obtain old | new := adds' key arc h
  · exact adds key arc old
  · exact .inr new

theorem Adds.of_sub (sub : after.Sub before) : Adds P before after := by
  intro key arc h
  refine .inl ?_
  unfold responseAt at h ⊢
  split at h
  case h_1 found =>
    obtain rfl := Option.some.inj h
    rw [sub.entries found]
  case h_2 => cases h

/-- A call adds at most what it puts. -/
theorem Adds.of_moves {op : TableOp} (moves : before.Moves after op)
    (put : ∀ primary tag v arc, op = .put primary tag v arc → P primary arc.val.page) :
    Adds P before after := by
  intro key arc h
  have entry : (op.apply before.table before.generation).entries key.primary key.generation
      key.vary = some arc := by
    rw [← moves.table]
    exact h
  obtain old | ⟨tag, same, -⟩ := Table.Op.entries_apply entry
  · exact .inl old
  · exact .inr (put key.primary tag key.vary arc same)

theorem insertAsset_adds (store : Store) (path : Path) (content : Bytes) (etag : Text)
    (modified : SystemTime) : Adds P store (store.insertAsset path content etag modified).2 :=
  .of_moves (store.insertAsset_moves path content etag modified) fun _ _ _ _ h => by cases h

theorem insertResponse_adds (store : Store) {primary : PrimaryKey} (vary : Vary)
    (policy : Storable) {status : StatusCode} {headers : Fields} {body : Bytes} (now : Clock)
    (made : P primary ⟨status, headers, body⟩) :
    Adds P store (store.insertResponse primary vary policy status headers body now).2 := by
  refine .of_moves (store.insertResponse_moves primary vary policy status headers body now) ?_
  intro p tag v arc put
  obtain rfl : primary = p := insertOp_primary (by rw [put]; rfl)
  rw [(insertOp_eq_put put).2]
  exact made

theorem freshen_page [HttpDate] (store : Store) (entry : StaleEntry) (policy : RequestPolicy)
    (request : HeaderMap) (head : Head) (age : Option HeaderValue) (now : Clock) :
    (store.freshen entry policy request (storedFields (forwardableFields head)) age now).1.page =
      entry.response.val.page.updated head := by
  rw [freshen_returns]
  rfl

theorem freshenOp_primary [HttpDate] {store : Store} {entry : StaleEntry} {policy : RequestPolicy}
    {request : HeaderMap} {update : Fields} {age : Option HeaderValue} {now : Clock}
    {primary : PrimaryKey} {tag : List HeaderName} {v : VaryValues} {arc : Arc StoredResponse}
    (h : store.freshenOp entry policy request update age now = .put primary tag v arc) :
    entry.key.primary = primary := by
  unfold freshenOp at h
  simp only at h
  split at h
  case isTrue =>
    split at h
    case h_1 => exact insertOp_primary (by rw [h]; rfl)
    case h_2 => cases h
  case isFalse => cases h

end Store

/-- A `StaleEntry` for this request. -/
structure StaleEntry.For (P : PrimaryKey → Page → Prop) (req : HttpRequest) (entry : StaleEntry) :
    Prop where
  key : entry.key.primary = req.cacheKey
  made : P req.cacheKey entry.response.val.page

variable {P : PrimaryKey → Page → Prop}

theorem freshenFrom_adds [HttpDate] {req : HttpRequest} {entry : StaleEntry} {head : Head}
    (key : entry.key.primary = req.cacheKey)
    (made : P req.cacheKey (entry.response.val.page.updated head)) (actor : Actor) (store : Store)
    (now : Clock) :
    Store.Adds P store (freshenFrom actor store entry req head now).2.1 ∧
      (freshenFrom actor store entry req head now).1.page =
        entry.response.val.page.updated head := by
  refine ⟨.of_moves (store.freshen_moves entry ..) ?_, store.freshen_page entry ..⟩
  intro primary tag v arc put
  obtain rfl := Store.freshenOp_primary put
  obtain ⟨policy, vary, -, -, stored⟩ := Store.freshenOp_eq_put put
  rw [stored, key]
  exact made

/-- The bytes of an item. -/
def Item.bytes : Item → Bytes
  | .chunk bytes => bytes
  | .failed | .ended => []

/-- The copy of a body is whole: it ends here, or it has its length. -/
structure Tee.Complete (tee : Tee) (ends : Prop) (body : Bytes) : Prop where
  ends : ends ∨ tee.length = some body.length
  length : ∀ n, tee.length = some n → n = body.length

theorem Tee.finish_adds (id : Nat) (store : Store) (tee : Tee) (now : Clock)
    (made : ∀ copy, tee.copy = some copy →
      (∀ n, tee.length = some n → n = copy.buffer.length) →
        P copy.storing.primary ⟨copy.status, copy.headers, copy.buffer⟩) :
    Store.Adds P store (tee.finish id store now).1 ∧ (tee.finish id store now).2.2.copy = none := by
  unfold finish
  cases h : tee.copy with
  | none => exact ⟨.refl store, h⟩
  | some copy =>
      simp only
      split
      · rename_i fits
        refine ⟨store.insertResponse_adds _ _ now (made copy h fun n length => ?_), rfl⟩
        rw [length] at fits
        simpa using fits
      · exact ⟨.refl store, rfl⟩

/-- What a poll stores is whole, and what it goes on to copy is a chunk longer. -/
theorem Tee.poll_adds (id : Nat) (store : Store) (tee : Tee) (item : Item) (now : Clock)
    (made : ∀ copy, tee.copy = some copy → item ≠ .failed →
      tee.Complete (item = .ended) (copy.buffer ++ item.bytes) →
        P copy.storing.primary ⟨copy.status, copy.headers, copy.buffer ++ item.bytes⟩) :
    Store.Adds P store (tee.poll id store item now).1 ∧
      ∀ copy', (tee.poll id store item now).2.2.copy = some copy' →
        ∃ copy bytes, item = .chunk bytes ∧ tee.copy = some copy ∧
          copy' = { copy with buffer := copy.buffer ++ bytes } ∧
          (tee.poll id store item now).2.2.length = tee.length := by
  unfold poll
  cases item with
  | chunk bytes =>
      cases h : tee.copy with
      | none =>
          refine ⟨.refl store, fun copy' there => ?_⟩
          rw [show tee.copy = some copy' from there] at h
          cases h
      | some copy =>
          simp only
          split
          · exact ⟨.refl store, fun _ there => by cases there⟩
          · split
            · rename_i full
              have longer : ∀ copy', some { copy with buffer := copy.buffer ++ bytes } =
                  some copy' → (∀ n, tee.length = some n → n = copy'.buffer.length) →
                    P copy'.storing.primary ⟨copy'.status, copy'.headers, copy'.buffer⟩ := by
                rintro _ ⟨⟩ length
                exact made copy h (fun h => by cases h) ⟨.inr full, length⟩
              obtain ⟨adds, gone⟩ := Tee.finish_adds id store
                { tee with copy := some { copy with buffer := copy.buffer ++ bytes } } now longer
              refine ⟨adds, fun copy' there => ?_⟩
              rw [gone] at there
              cases there
            · refine ⟨.refl store, ?_⟩
              rintro _ ⟨⟩
              exact ⟨copy, bytes, rfl, rfl, rfl, rfl⟩
  | failed => exact ⟨.refl store, fun _ there => by cases there⟩
  | ended =>
      have all : ∀ copy, tee.copy = some copy →
          (∀ n, tee.length = some n → n = copy.buffer.length) →
            P copy.storing.primary ⟨copy.status, copy.headers, copy.buffer⟩ := by
        intro copy h length
        have whole := made copy h (fun h => by cases h)
        rw [show copy.buffer ++ Item.bytes .ended = copy.buffer from List.append_nil _] at whole
        exact whole ⟨.inl rfl, length⟩
      obtain ⟨adds, gone⟩ := tee.finish_adds id store now all
      refine ⟨adds, fun copy' there => ?_⟩
      rw [gone] at there
      cases there

/-- The copy has this much of the body that the head announces. -/
structure Tee.Copies (head : Head) (primary : PrimaryKey) (body : Bytes) (tee : Tee)
    (copy : BodyCopy) : Prop where
  length : tee.length = contentLength head
  page : ⟨copy.status, copy.headers, copy.buffer⟩ = head.page body
  primary : copy.storing.primary = primary

theorem clientResponse_adds (id : Nat) (store : Store) {head : Head} {storing : Option Storing}
    {primary : PrimaryKey} (now : Clock) (keyed : ∀ s, storing = some s → s.primary = primary)
    (made : contentLength head = some 0 → P primary (head.page [])) :
    Store.Adds P store (clientResponse id store head storing now).2.1 ∧
      ∀ copy, (clientResponse id store head storing now).2.2.2.copy = some copy →
        Tee.Copies head primary [] (clientResponse id store head storing now).2.2.2 copy := by
  have copied : ∀ copy,
      (storing.filter fun storing => (contentLength head).all (· ≤ storing.limit)).map
        (fun storing => BodyCopy.mk [] storing head.status
          (storedFields (forwardableFields head))) = some copy →
      Tee.Copies head primary [] ⟨contentLength head, some copy⟩ copy := by
    intro copy h
    obtain ⟨s, kept, rfl⟩ := Option.map_eq_some_iff.mp h
    exact ⟨rfl, rfl, keyed s (Option.filter_eq_some_iff.mp kept).1⟩
  unfold clientResponse Tee.new
  simp only
  split
  · rename_i empty
    obtain ⟨adds, gone⟩ := Tee.finish_adds id store ⟨contentLength head, _⟩ now fun copy h _ => by
      have begun := copied copy h
      rw [begun.primary, begun.page]
      exact made empty
    exact ⟨adds, fun copy there => by cases gone.symm.trans there⟩
  · refine ⟨.refl store, fun copy h => ?_⟩
    have begun := copied copy h
    exact ⟨rfl, begun.page, begun.primary⟩

theorem Tee.Copies.longer {head : Head} {primary : PrimaryKey} {body : Bytes} {tee : Tee}
    {copy : BodyCopy} (copies : tee.Copies head primary body copy) (item : Item) :
    ⟨copy.status, copy.headers, copy.buffer ++ item.bytes⟩ = head.page (body ++ item.bytes) := by
  obtain ⟨status, headers, buffer⟩ := Page.mk.inj copies.page
  rw [status, headers, buffer]
  rfl

section

variable [HttpDate]

theorem storePlan_adds (actor : Actor) (store : Store) (req : HttpRequest) (head : Head)
    (now : Clock) :
    Store.Adds P store (storePlan actor store req head now).2.1 ∧
      ∀ s, (storePlan actor store req head now).1 = some s → s.primary = req.cacheKey := by
  constructor
  · unfold storePlan
    simp only
    split
    · exact .of_sub (Store.sub_removeIndex ..)
    · exact .refl store
  · intro s h
    obtain ⟨⟨policy, vary⟩, -, rfl⟩ := Option.map_eq_some_iff.mp h
    rfl

theorem Exchange.forwarded_adds (id : Nat) (store : Store) {req : HttpRequest}
    (exchange : Exchange) {head : Head} (now : Clock)
    (made : contentLength head = some 0 → P req.cacheKey (head.page [])) :
    Store.Adds P store (exchange.forwarded id store req head now).store ∧
      ∀ tee copy, (exchange.forwarded id store req head now).stage = .streams tee →
        tee.copy = some copy → tee.Copies head req.cacheKey [] copy := by
  unfold Exchange.forwarded
  simp only
  obtain ⟨planned, keyed⟩ := storePlan_adds (P := P) (.request id) store req head now
  have held : ∀ s, (storePlan (.request id) store req head now).1.map
      (fun s => s.holding exchange.flight) = some s → s.primary = req.cacheKey := by
    intro s h
    obtain ⟨s, planned, rfl⟩ := Option.map_eq_some_iff.mp h
    exact keyed s planned
  obtain ⟨adds, copies⟩ := clientResponse_adds id
    (storePlan (.request id) store req head now).2.1 now held made
  refine ⟨planned.trans adds, ?_⟩
  rintro tee copy ⟨⟩ h
  exact copies copy h

end

/-! ## What a step of a request does -/

/-- The store gets pages only, and pages are what the request holds, passes on
to a task and answers with. -/
structure Outcome.Keeps (P : PrimaryKey → Page → Prop) (store : Store) (req : HttpRequest)
    (outcome : Outcome) : Prop where
  adds : Store.Adds P store outcome.store
  stale : ∀ entry, outcome.stage.stale = some entry → entry.For P req
  spawned : ∀ task request, outcome.spawned = some (task, request) →
    task.req = req ∧ task.entry.For P req ∧ task.stage = .awaits
  answer : ∀ answer response stored, outcome.answer = some answer →
    answer.response = some response → answer.cause.stored = some stored →
      P req.cacheKey stored.page ∧ ∃ status now, cachedResponse stored status now = some response

theorem Outcome.Keeps.goesOn {store after : Store} {req : HttpRequest}
    (adds : Store.Adds P store after) (effects : List Effect) {stage : Stage}
    (stale : ∀ entry, stage.stale = some entry → entry.For P req) :
    Outcome.Keeps P store req (goesOn after effects stage) :=
  ⟨adds, stale, fun _ _ h => (by cases h), fun _ _ _ h => (by cases h)⟩

theorem Outcome.Keeps.reply {store after : Store} {req : HttpRequest} {given : Answer}
    (adds : Store.Adds P store after) (id : Nat) (effects : List Effect) (flight : Option Flight)
    (shows : ∀ response stored, given.response = some response → given.cause.stored = some stored →
      P req.cacheKey stored.page ∧ ∃ status now, cachedResponse stored status now = some response) :
    Outcome.Keeps P store req (reply id after effects flight given) := by
  refine ⟨adds, fun _ h => (by cases h), fun _ _ h => (by cases h), ?_⟩
  rintro _ response stored ⟨⟩
  exact shows response stored

theorem look_keeps [UriSyntax] {store : Store} {req : HttpRequest} (keyed : store.Keyed P)
    (base : OriginUrl) (id : Nat) {stage : Stage} {flight : Option Flight}
    {next : Option StaleEntry → Stage} {use : FreshUse} (looks : World.Looks stage flight next use)
    (now : Instant) :
    Outcome.Keeps P store req (Cached.or id flight next (fromCache base store req use now)) := by
  have found {entry : StaleEntry} (h : store.find req.cacheKey req.headers = some entry) :
      entry.For P req := by
    obtain ⟨index, -, key, here⟩ := Store.find_eq_some.mp h
    have primary : entry.key.primary = req.cacheKey := by rw [key]; rfl
    exact ⟨primary, primary ▸ keyed _ _ here⟩
  have next_stale : ∀ stale, (next stale).stale = stale := by
    cases looks <;> exact fun _ => rfl
  obtain ⟨⟨refreshing, same⟩, spec⟩ := fromCache_spec base store req use now
  have adds : Store.Adds P store (fromCache base store req use now).2.1 := by
    rw [same]
    exact .of_sub (store.sub_refreshing refreshing)
  generalize fromCache base store req use now = result at spec adds
  obtain ⟨cached, after, spawned⟩ := result
  have quiet {spawned : Option (Task × UpstreamRequest)} (nobody : spawned = none) :
      ∀ task request, spawned = some (task, request) →
        task.req = req ∧ task.entry.For P req ∧ task.stage = .awaits := by
    rw [nobody]
    exact fun _ _ h => (by cases h)
  cases spec with
  | fresh mayServe here mayAnswer =>
      refine ⟨adds, fun _ h => (by cases h), quiet rfl, ?_⟩
      rintro _ response _ ⟨⟩ made ⟨⟩
      exact ⟨(found here).made, _, _, made⟩
  | whileRevalidating mayServe isGet mayServeStale here within task =>
      refine ⟨adds, fun _ h => (by cases h), fun t request h => ?_, ?_⟩
      · obtain ⟨mine, entry, awaits⟩ := task t request h
        exact ⟨mine, entry ▸ found here, awaits⟩
      · rintro _ response _ ⟨⟩ made ⟨⟩
        exact ⟨(found here).made, _, _, made⟩
  | stale mayServe isGet here =>
      refine ⟨adds, fun entry h => ?_, quiet rfl, fun _ _ _ h => (by cases h)⟩
      obtain rfl := Option.some.inj ((next_stale _).symm.trans h)
      exact found here
  | nothing | panics =>
      refine ⟨adds, fun entry h => ?_, quiet rfl, fun _ _ _ h => (by cases h)⟩
      cases (next_stale none).symm.trans h

theorem join_keeps {store : Store} {req : HttpRequest} {stale : Option StaleEntry}
    (held : ∀ entry, stale = some entry → entry.For P req) (id : Nat) (join : Join FlightKey) :
    Outcome.Keeps P store req (World.afterJoin id store stale join) := by
  cases join with
  | alone => exact .goesOn (.refl store) _ held
  | lead | follow => exact .goesOn (.refl store) _ fun _ h => (by cases h)

theorem prepare_keeps [UriSyntax] {store : Store} {req : HttpRequest} {toOrigin : ToOrigin}
    (held : ∀ entry, toOrigin.stale = some entry → entry.For P req) (base : OriginUrl) (id : Nat)
    (body : BodyStart) : Outcome.Keeps P store req (prepare base id store req toOrigin body) := by
  obtain ⟨status, h⟩ | ⟨request, revalidating, h, -⟩ :=
    prepare_cases base id store req toOrigin body
  · rw [h]
    exact .reply (.refl store) _ _ _ fun _ _ _ h => (by cases h)
  · rw [h]
    exact .goesOn (.refl store) _ held

theorem hangUp_keeps {id : Nat} {store : Store} {req : HttpRequest} {stage : Stage}
    {outcome : Outcome} (hangs : World.hangUp id store stage = some outcome) :
    Outcome.Keeps P store req outcome := by
  cases stage <;> cases hangs <;> exact .goesOn (.refl store) _ fun _ h => (by cases h)

theorem serveStale_keeps {store : Store} {req : HttpRequest} {stale : StaleEntry}
    (held : stale.For P req) (id : Nat) (exchange : Exchange) (status : Option StatusCode)
    (now : Instant) :
    Outcome.Keeps P store req (exchange.serveStale id store stale status now) := by
  refine .reply (.refl store) _ _ _ ?_
  rintro response _ made ⟨⟩
  exact ⟨held.made, _, _, made⟩

theorem failed_keeps {store : Store} {req : HttpRequest} {exchange : Exchange}
    (held : ∀ entry, exchange.stale = some entry → entry.For P req) (id : Nat)
    (status : StatusCode) (now : Instant) :
    Outcome.Keeps P store req (exchange.failed id store req status now) := by
  obtain ⟨stale, found, -, h⟩ | ⟨status', h⟩ := exchange.failed_cases id store req status now
  · rw [h]
    exact serveStale_keeps (held stale found) ..
  · rw [h]
    exact .reply (.refl store) _ _ _ fun _ _ _ h => (by cases h)

theorem answered_keeps [HttpDate] {store : Store} {req : HttpRequest} {exchange : Exchange}
    {head : Head} (held : ∀ entry, exchange.stale = some entry → entry.For P req)
    (updated : ∀ page, head.status = .notModified → P req.cacheKey page →
      P req.cacheKey (page.updated head))
    (made : contentLength head = some 0 → P req.cacheKey (head.page [])) (id : Nat)
    (now : Clock) :
    Outcome.Keeps P store req (exchange.answered id store req head now) ∧
      ∀ tee copy, (exchange.answered id store req head now).stage = .streams tee →
        tee.copy = some copy → tee.Copies head req.cacheKey [] copy := by
  have forwarded : Outcome.Keeps P store req (exchange.forwarded id store req head now) ∧
      ∀ tee copy, (exchange.forwarded id store req head now).stage = .streams tee →
        tee.copy = some copy → tee.Copies head req.cacheKey [] copy := by
    obtain ⟨adds, copies⟩ := exchange.forwarded_adds id store now made
    refine ⟨⟨adds, fun _ h => (by cases h), fun _ _ h => (by cases h), ?_⟩, copies⟩
    rintro _ _ _ ⟨⟩ _ ⟨⟩
  unfold Exchange.answered
  split
  · rename_i stale found
    split
    · rename_i notModified
      simp only [Bool.and_eq_true, decide_eq_true_eq] at notModified
      obtain ⟨key, page⟩ := held stale found
      obtain ⟨adds, fresh⟩ := freshenFrom_adds (P := P) key
        (updated _ notModified.2 page) (.request id) store now
      refine ⟨.reply adds _ _ _ ?_, fun _ _ h => (by cases h)⟩
      rintro response _ made ⟨⟩
      exact ⟨fresh ▸ updated _ notModified.2 page, _, _, made⟩
    · split
      · exact ⟨serveStale_keeps (held stale found) .., fun _ _ h => (by cases h)⟩
      · exact forwarded
  · exact forwarded

/-- A background task's answer freshens the entry, or it is about to be
collected. -/
theorem Task.refresh_adds [HttpDate] {task : Task} {head : Head}
    (held : task.entry.For P task.req)
    (updated : ∀ page, head.status = .notModified → P task.req.cacheKey page →
      P task.req.cacheKey (page.updated head)) (id : Nat) (store : Store) (now : Clock) :
    Store.Adds P store (task.refresh id store head now).1 ∧
      ∀ storing head', (task.refresh id store head now).2.2 = .collects storing head' →
        head' = head ∧ storing.primary = task.req.cacheKey := by
  unfold Task.refresh
  split
  · rename_i notModified
    exact ⟨(freshenFrom_adds held.key (updated _ notModified held.made) (.task id) store now).1,
      fun _ _ h => (by cases h)⟩
  · obtain ⟨planned, keyed⟩ := storePlan_adds (P := P) (.task id) store task.req head now
    split
    · rename_i storing after effects plan
      rw [plan] at planned keyed
      refine ⟨planned, ?_⟩
      rintro _ _ ⟨⟩
      exact ⟨rfl, keyed storing rfl⟩
    · rename_i after effects plan
      rw [plan] at planned
      exact ⟨planned, fun _ _ h => (by cases h)⟩

theorem Task.collected_adds (id : Nat) (store : Store) {storing : Storing} {head : Head}
    (body : Option Bytes) (now : Clock)
    (made : ∀ bytes, body = some bytes → P storing.primary (head.page bytes)) :
    Store.Adds P store (Task.collected id store storing head body now).1 := by
  unfold Task.collected
  cases body with
  | none => exact .refl store
  | some bytes =>
      simp only
      split
      · exact store.insertResponse_adds _ _ now (made bytes rfl)
      · exact .refl store

/-! ## What the origin has said -/

namespace World

/-- The head that the origin gives, and to whom. -/
def Event.head : Event → Option (Actor × Head)
  | .answered id head _ => some (.request id, head)
  | .refreshed id head _ => some (.task id, head)
  | _ => none

/-- What the origin's body yields to somebody. A task collects it at once. -/
def Event.items (actor : Actor) : Event → List Item
  | .body id item _ => if actor = .request id then [item] else []
  | .refreshBody id collected _ =>
    if actor = .task id then collected.elim [.failed] fun bytes => [.chunk bytes, .ended] else []
  | _ => []

def received (actor : Actor) (events : List Event) : List Item := events.flatMap (Event.items actor)

def Said (events : List Event) (actor : Actor) (head : Head) : Prop :=
  ∃ event ∈ events, event.head = some (actor, head)

/-- An answer that has arrived whole by these events: chunks and then the end
of the body, or as much as its head has announced. A client's request is
never content with less than that. -/
structure Delivered (events : List Event) (actor : Actor) (head : Head) (body : Bytes) : Prop where
  said : Said events actor head
  whole : ∃ (chunks : List Bytes) (tail : List Item),
      received actor events = chunks.map Item.chunk ++ tail ∧ body = chunks.flatten ∧
      (tail = [.ended] ∨ tail = [] ∧ contentLength head = some body.length)
  length : ∀ id, actor = .request id → ∀ n, contentLength head = some n → n = body.length

/-- What whole answers to requests for the key come to, and 304s on top. -/
inductive FromOrigin (events : List Event) (σ : World) (primary : PrimaryKey) : Page → Prop
  | whole {actor head body before after req} (split : events = before ++ after)
      (delivered : Delivered before actor head body) (asked : σ.asked actor = some req)
      (key : req.cacheKey = primary) : FromOrigin events σ primary (head.page body)
  | updated {page actor head req} (made : FromOrigin events σ primary page)
      (said : Said events actor head) (notModified : head.status = .notModified)
      (asked : σ.asked actor = some req) (key : req.cacheKey = primary) :
    FromOrigin events σ primary (page.updated head)

theorem received_snoc (actor : Actor) (events : List Event) (event : Event) :
    received actor (events ++ [event]) = received actor events ++ event.items actor := by
  simp [received]

theorem Said.mono {events : List Event} {actor : Actor} {head : Head}
    (said : Said events actor head) (more : List Event) : Said (events ++ more) actor head := by
  obtain ⟨event, there, same⟩ := said
  exact ⟨event, List.mem_append_left _ there, same⟩

theorem FromOrigin.mono {events : List Event} {σ σ' : World} {primary : PrimaryKey} {page : Page}
    (made : FromOrigin events σ primary page) (more : List Event)
    (asked : ∀ actor req, σ.asked actor = some req → σ'.asked actor = some req) :
    FromOrigin (events ++ more) σ' primary page := by
  induction made with
  | @whole actor head body before after req split delivered asks key =>
      have longer : events ++ more = before ++ (after ++ more) := by rw [split, List.append_assoc]
      exact .whole longer delivered (asked _ _ asks) key
  | updated _ said notModified asks key ih =>
      exact .updated ih (said.mono more) notModified (asked _ _ asks) key

/-- A whole answer, by now. -/
theorem Delivered.made {events : List Event} {σ : World} {actor : Actor} {head : Head}
    {body : Bytes} {req : HttpRequest} (delivered : Delivered events actor head body)
    (asked : σ.asked actor = some req) :
    FromOrigin events σ req.cacheKey (head.page body) :=
  .whole (List.append_nil events).symm delivered asked rfl

/-! ## The invariant -/

end World

/-- The body has been asked for. -/
def Stage.Reads : Stage → Prop
  | .streams _ | .done => True
  | _ => False

namespace World

structure Provenance (events : List Event) (σ : World) : Prop where
  unspawned : Unspawned σ
  store : σ.store.Keyed (FromOrigin events σ)
  stale : ∀ id request entry, σ.requests id = some request → request.stage.stale = some entry →
    entry.For (FromOrigin events σ) request.req
  tasks : ∀ id task, σ.tasks id = some task → task.entry.For (FromOrigin events σ) task.req
  unread : ∀ id, (∀ request, σ.requests id = some request → ¬ request.stage.Reads) →
    received (.request id) events = []
  untaken : ∀ id, (∀ task, σ.tasks id = some task → task.stage ≠ .ended) →
    received (.task id) events = []
  copies : ∀ id request tee copy, σ.requests id = some request → request.stage = .streams tee →
    tee.copy = some copy → ∃ (head : Head) (chunks : List Bytes), Said events (.request id) head ∧
      received (.request id) events = chunks.map Item.chunk ∧
      tee.Copies head request.req.cacheKey chunks.flatten copy
  collects : ∀ id task storing head, σ.tasks id = some task →
    task.stage = .collects storing head →
      Said events (.task id) head ∧ storing.primary = task.req.cacheKey
  answers : ∀ given ∈ σ.answers, ∀ stored, given.cause.stored = some stored →
    FromOrigin events σ given.req.cacheKey stored.page ∧
      ∃ status now, cachedResponse stored status now = some given.response

theorem Provenance.start (sizeMb : UInt64) (ttl : Duration) :
    Provenance [] (start sizeMb ttl) where
  unspawned := .start sizeMb ttl
  store _ _ h := by cases h
  stale _ _ _ h := by cases h
  tasks _ _ h := by cases h
  unread _ _ := rfl
  untaken _ _ := rfl
  copies _ _ _ _ h := by cases h
  collects _ _ _ _ h := by cases h
  answers _ h := by cases h

variable {events : List Event} {event : Event} {σ σ₀ : World}

/-- A step of a request. -/
theorem Provenance.settle (provenance : Provenance events σ) {id : Nat} {req : HttpRequest}
    {outcome : Outcome} (requests : σ₀.requests = σ.requests) (tasks : σ₀.tasks = σ.tasks)
    (count : σ₀.spawned = σ.spawned) (answers : σ₀.answers = σ.answers)
    (sub : σ₀.store.Sub σ.store)
    (grows : ∀ primary page, FromOrigin events σ primary page →
      FromOrigin (events ++ [event]) (σ₀.settle id req outcome) primary page)
    (keeps : outcome.Keeps (FromOrigin (events ++ [event]) (σ₀.settle id req outcome)) σ₀.store req)
    (foreign : ∀ actor, actor ≠ .request id → event.items actor = [])
    (unread : ¬ outcome.stage.Reads → received (.request id) (events ++ [event]) = [])
    (copies : ∀ tee copy, outcome.stage = .streams tee → tee.copy = some copy →
      ∃ (head : Head) (chunks : List Bytes), Said (events ++ [event]) (.request id) head ∧
        received (.request id) (events ++ [event]) = chunks.map Item.chunk ∧
        tee.Copies head req.cacheKey chunks.flatten copy) :
    Provenance (events ++ [event]) (σ₀.settle id req outcome) := by
  have quiet (actor : Actor) (other : actor ≠ .request id) :
      received actor (events ++ [event]) = received actor events := by
    rw [received_snoc, foreign actor other, List.append_nil]
  have away {other : Nat} (h : other ≠ id) : Actor.request other ≠ .request id :=
    fun same => h (Actor.request.inj same)
  refine
    { unspawned := provenance.unspawned.settle tasks count id req outcome
      store := ?_
      stale := ?_
      tasks := ?_
      unread := ?_
      untaken := ?_
      copies := ?_
      collects := ?_
      answers := ?_ }
  · refine (Store.Adds.of_sub sub).trans keeps.adds |>.keyed fun key arc h => ?_
    exact grows _ _ (provenance.store key arc h)
  · intro other request entry h held
    rcases Runs.update_cases h with ⟨-, rfl⟩ | ⟨-, before⟩
    · exact keeps.stale entry held
    · have known := provenance.stale other request entry (requests ▸ before) held
      exact ⟨known.key, grows _ _ known.made⟩
  · intro other task h
    obtain ⟨request, new⟩ | before := settle_tasks h
    · obtain ⟨rfl, known, -⟩ := keeps.spawned task request new
      exact known
    · have known := provenance.tasks other task (tasks ▸ before)
      exact ⟨known.key, grows _ _ known.made⟩
  · intro other before
    by_cases same : other = id
    · subst same
      exact unread (before _ (Function.update_self ..))
    · rw [quiet _ (away same)]
      refine provenance.unread other fun request h => before request ?_
      rw [← requests] at h
      exact (Function.update_of_ne same ..).trans h
  · intro other before
    rw [quiet _ (fun h => by cases h)]
    refine provenance.untaken other fun task h => before task ?_
    -- what was there stays there
    have differ : other ≠ σ₀.spawned := by
      rintro rfl
      rw [provenance.unspawned _ (Nat.le_of_eq count.symm)] at h
      cases h
    rw [← tasks] at h
    unfold World.settle
    cases outcome.spawned with
    | none => exact h
    | some pair => exact (Function.update_of_ne differ ..).trans h
  · intro other request tee copy h stage copying
    rcases Runs.update_cases h with ⟨rfl, rfl⟩ | ⟨differ, before⟩
    · exact copies tee copy stage copying
    · obtain ⟨head, chunks, said, got, copied⟩ :=
        provenance.copies other request tee copy (requests ▸ before) stage copying
      exact ⟨head, chunks, said.mono _, (quiet _ (away differ)).trans got, copied⟩
  · intro other task storing head h stage
    obtain ⟨request, new⟩ | before := settle_tasks h
    · rw [(keeps.spawned task request new).2.2] at stage
      cases stage
    · obtain ⟨said, key⟩ := provenance.collects other task storing head (tasks ▸ before) stage
      exact ⟨said.mono _, key⟩
  · intro given there stored shown
    obtain before | new := List.mem_append.mp there
    · obtain ⟨made, label⟩ := provenance.answers given (answers ▸ before) stored shown
      exact ⟨grows _ _ made, label⟩
    · obtain ⟨answer, hanswer, h⟩ := Option.bind_eq_some_iff.mp (Option.mem_toList.mp new)
      obtain ⟨response, hresponse, rfl⟩ := Option.map_eq_some_iff.mp h
      exact keeps.answer answer response stored hanswer hresponse shown

/-- A step of a task. -/
theorem Provenance.settleTask (provenance : Provenance events σ) {id : Nat} {task : Task}
    {store : Store} {effects : List Effect} {stage : TaskStage}
    (requests : σ₀.requests = σ.requests) (tasks : σ₀.tasks = σ.tasks)
    (count : σ₀.spawned = σ.spawned) (answers : σ₀.answers = σ.answers)
    (sub : σ₀.store.Sub σ.store) (here : σ.tasks id = some task)
    (grows : ∀ primary page, FromOrigin events σ primary page →
      FromOrigin (events ++ [event]) (σ₀.settleTask id task (store, effects, stage)) primary page)
    (adds : Store.Adds (FromOrigin (events ++ [event])
      (σ₀.settleTask id task (store, effects, stage))) σ₀.store store)
    (foreign : ∀ actor, actor ≠ .task id → event.items actor = [])
    (untaken : stage ≠ .ended → received (.task id) (events ++ [event]) = [])
    (collects : ∀ storing head, stage = .collects storing head →
      Said (events ++ [event]) (.task id) head ∧ storing.primary = task.req.cacheKey) :
    Provenance (events ++ [event]) (σ₀.settleTask id task (store, effects, stage)) := by
  have quiet (actor : Actor) (other : actor ≠ .task id) :
      received actor (events ++ [event]) = received actor events := by
    rw [received_snoc, foreign actor other, List.append_nil]
  have away {other : Nat} (h : other ≠ id) : Actor.task other ≠ .task id :=
    fun same => h (Actor.task.inj same)
  have ended : (σ₀.settleTask id task (store, effects, stage)).store.Sub store := by
    unfold World.settleTask
    cases stage with
    | ended => exact store.sub_refreshing _
    | awaits | collects => exact .refl store
  refine
    { unspawned := provenance.unspawned.settleTask tasks count here _
      store := ?_
      stale := ?_
      tasks := ?_
      unread := ?_
      untaken := ?_
      copies := ?_
      collects := ?_
      answers := ?_ }
  · refine ((Store.Adds.of_sub sub).trans adds).trans (.of_sub ended) |>.keyed fun key arc h => ?_
    exact grows _ _ (provenance.store key arc h)
  · intro other request entry h held
    have known := provenance.stale other request entry (requests ▸ h) held
    exact ⟨known.key, grows _ _ known.made⟩
  · intro other task' h
    rcases Runs.update_cases h with ⟨-, rfl⟩ | ⟨-, before⟩
    · have known := provenance.tasks id task here
      exact ⟨known.key, grows _ _ known.made⟩
    · have known := provenance.tasks other task' (tasks ▸ before)
      exact ⟨known.key, grows _ _ known.made⟩
  · intro other before
    rw [quiet _ (fun h => by cases h)]
    exact provenance.unread other fun request h => before request (requests.symm ▸ h)
  · intro other before
    by_cases same : other = id
    · subst same
      exact untaken (before _ (Function.update_self ..))
    · rw [quiet _ (away same)]
      refine provenance.untaken other fun task' h => before task' ?_
      rw [← tasks] at h
      exact (Function.update_of_ne same ..).trans h
  · intro other request tee copy h stage copying
    obtain ⟨head, chunks, said, got, copied⟩ :=
      provenance.copies other request tee copy (requests ▸ h) stage copying
    exact ⟨head, chunks, said.mono _, (quiet _ (fun h => by cases h)).trans got, copied⟩
  · intro other task' storing head h there
    rcases Runs.update_cases h with ⟨rfl, rfl⟩ | ⟨-, before⟩
    · exact collects storing head there
    · obtain ⟨said, key⟩ := provenance.collects other task' storing head (tasks ▸ before) there
      exact ⟨said.mono _, key⟩
  · intro given there stored shown
    obtain ⟨made, label⟩ := provenance.answers given (answers ▸ there) stored shown
    exact ⟨grows _ _ made, label⟩

/-- What a poll makes of a copy is delivered. -/
theorem Delivered.of_copy {id : Nat} {item : Item} (now : Clock) {head : Head}
    {chunks : List Bytes} {tee : Tee} {copy : BodyCopy} {primary : PrimaryKey}
    (said : Said events (.request id) head)
    (got : received (.request id) events = chunks.map Item.chunk)
    (copied : tee.Copies head primary chunks.flatten copy) (fine : item ≠ .failed)
    (whole : tee.Complete (item = .ended) (copy.buffer ++ item.bytes)) :
    Delivered (events ++ [.body id item now]) (.request id) head
      (chunks.flatten ++ item.bytes) := by
  have buffer : copy.buffer = chunks.flatten := congrArg Page.body copied.page
  have more : received (.request id) (events ++ [.body id item now]) =
      chunks.map Item.chunk ++ [item] := by
    rw [received_snoc, got]
    exact congrArg _ (if_pos rfl)
  obtain ⟨ends, length⟩ := whole
  rw [buffer, copied.length] at ends length
  refine ⟨said.mono _, ?_, fun _ _ => length⟩
  cases item with
  | chunk bytes =>
      obtain h | full := ends
      · cases h
      · refine ⟨chunks ++ [bytes], [], ?_, ?_, .inr ⟨rfl, full⟩⟩
        · simpa using more
        · simp [Item.bytes]
  | failed => exact absurd rfl fine
  | ended => exact ⟨chunks, [.ended], more, by simp [Item.bytes], .inl rfl⟩

/-- A step at which a request gets nothing from the origin. -/
theorem Provenance.quiet (provenance : Provenance events σ) {id : Nat} {req : HttpRequest}
    {outcome : Outcome} (requests : σ₀.requests = σ.requests) (tasks : σ₀.tasks = σ.tasks)
    (count : σ₀.spawned = σ.spawned) (answers : σ₀.answers = σ.answers)
    (sub : σ₀.store.Sub σ.store)
    (grows : ∀ primary page, FromOrigin events σ primary page →
      FromOrigin (events ++ [event]) (σ₀.settle id req outcome) primary page)
    (keeps : outcome.Keeps (FromOrigin (events ++ [event]) (σ₀.settle id req outcome)) σ₀.store req)
    (silent : ∀ actor, event.items actor = [])
    (unread : ¬ outcome.stage.Reads →
      ∀ request, σ.requests id = some request → ¬ request.stage.Reads)
    (copies : ∀ tee, outcome.stage ≠ .streams tee) :
    Provenance (events ++ [event]) (σ₀.settle id req outcome) := by
  refine provenance.settle requests tasks count answers sub grows keeps
    (fun actor _ => silent actor) (fun before => ?_) fun tee _ stage => absurd stage (copies tee)
  rw [received_snoc, silent, provenance.unread id (unread before)]
  rfl

/-- A step of the store alone. -/
theorem Provenance.shrinks (provenance : Provenance events σ) {store : Store}
    (adds : Store.Adds (FromOrigin (events ++ [event]) { σ with store := store }) σ.store store)
    (grows : ∀ primary page, FromOrigin events σ primary page →
      FromOrigin (events ++ [event]) { σ with store := store } primary page)
    (silent : ∀ actor, event.items actor = []) :
    Provenance (events ++ [event]) { σ with store := store } := by
  have quiet (actor : Actor) : received actor (events ++ [event]) = received actor events := by
    rw [received_snoc, silent actor, List.append_nil]
  refine
    { unspawned := provenance.unspawned
      store := adds.keyed fun key arc h => grows _ _ (provenance.store key arc h)
      stale := fun id request entry here h => ?_
      tasks := fun id task here => ?_
      unread := fun id before => (quiet _).trans (provenance.unread id before)
      untaken := fun id before => (quiet _).trans (provenance.untaken id before)
      copies := fun id request tee copy here stage copying => ?_
      collects := fun id task storing head here stage => ?_
      answers := fun given there stored shown => ?_ }
  · have known := provenance.stale id request entry here h
    exact ⟨known.key, grows _ _ known.made⟩
  · have known := provenance.tasks id task here
    exact ⟨known.key, grows _ _ known.made⟩
  · obtain ⟨head, chunks, said, got, copied⟩ :=
      provenance.copies id request tee copy here stage copying
    exact ⟨head, chunks, said.mono _, (quiet _).trans got, copied⟩
  · obtain ⟨said, key⟩ := provenance.collects id task storing head here stage
    exact ⟨said.mono _, key⟩
  · obtain ⟨made, label⟩ := provenance.answers given there stored shown
    exact ⟨grows _ _ made, label⟩

theorem Looks.not_reads {stage : Stage} {flight : Option Flight}
    {next : Option StaleEntry → Stage} {use : FreshUse} (looks : Looks stage flight next use) :
    ¬ stage.Reads := by
  cases looks <;> exact id

theorem Looks.not_streams {stage : Stage} {flight : Option Flight}
    {next : Option StaleEntry → Stage} {use : FreshUse} (looks : Looks stage flight next use)
    (id : Nat) (cached : Cached × Store × Option (Task × UpstreamRequest)) (tee : Tee) :
    (Cached.or id flight next cached).stage ≠ .streams tee := by
  obtain ⟨cached, store, spawned⟩ := cached
  cases looks <;> cases cached <;> exact fun h => by cases h

section

variable [HttpDate] [UriSyntax] {base : OriginUrl}

theorem Provenance.step {σ' : World} (provenance : Provenance events σ)
    (happens : Happens base σ event σ') : Provenance (events ++ [event]) σ' := by
  have asked : ∀ actor req, σ.asked actor = some req → σ'.asked actor = some req :=
    fun _ _ h => happens.asked provenance.unspawned h
  have grows : ∀ primary page, FromOrigin events σ primary page →
      FromOrigin (events ++ [event]) σ' primary page := fun _ _ made => made.mono [event] asked
  have keyed : σ.store.Keyed (FromOrigin (events ++ [event]) σ') := fun key arc h =>
    grows _ _ (provenance.store key arc h)
  have held {id : Nat} {request : Request} (here : σ.requests id = some request) :
      ∀ entry, request.stage.stale = some entry →
        entry.For (FromOrigin (events ++ [event]) σ') request.req := by
    intro entry h
    have known := provenance.stale id request entry here h
    exact ⟨known.key, grows _ _ known.made⟩
  have acts {id : Nat} {request : Request} (here : σ.requests id = some request) :
      σ'.asked (.request id) = some request.req :=
    asked _ _ (by rw [World.asked, here]; rfl)
  have works {id : Nat} {task : Task} (here : σ.tasks id = some task) :
      σ'.asked (.task id) = some task.req :=
    asked _ _ (by rw [World.asked, here]; rfl)
  have stands {id : Nat} {request : Request} (here : σ.requests id = some request)
      (stage : ¬ request.stage.Reads) :
      ∀ other, σ.requests id = some other → ¬ other.stage.Reads := by
    intro other there
    obtain rfl := Option.some.inj (here.symm.trans there)
    exact stage
  have runs {id : Nat} {task : Task} (here : σ.tasks id = some task) (stage : task.stage ≠ .ended) :
      ∀ other, σ.tasks id = some other → other.stage ≠ .ended := by
    intro other there
    obtain rfl := Option.some.inj (here.symm.trans there)
    exact stage
  have said {actor : Actor} {head : Head} (h : event.head = some (actor, head)) :
      Said (events ++ [event]) actor head :=
    ⟨event, List.mem_append_right _ (List.mem_singleton_self event), h⟩
  cases happens with
  | @arrive id req new =>
      refine provenance.quiet rfl rfl rfl rfl (.refl _) grows
        (.goesOn (.refl _) _ fun _ h => by cases h) (fun _ => rfl) (fun _ request h => ?_)
        fun _ h => by cases h
      rw [new] at h
      cases h
  | @look id now request flight next use later here looks =>
      have keyed' := (Store.Adds.of_sub (σ.store.sub_expire now.instant)).keyed keyed
      exact provenance.quiet rfl rfl rfl rfl (σ.store.sub_expire now.instant) grows
        (look_keeps keyed' base id looks now.instant) (fun _ => rfl)
        (fun _ => stands here looks.not_reads) (looks.not_streams id _)
  | @join id request stale here stage =>
      have stale' : ∀ entry, stale = some entry →
          entry.For (FromOrigin (events ++ [.join id]) _) request.req := fun entry h =>
        held here entry (by rw [stage]; exact h)
      refine provenance.quiet rfl rfl rfl rfl (.refl _) grows (join_keeps stale' id _)
        (fun _ => rfl) (fun _ => stands here (by rw [stage]; exact fun h => h)) fun tee => ?_
      cases (joinFlight σ.store σ.flights request.req).1 <;> exact fun h => by cases h
  | wake here stage =>
      exact provenance.quiet rfl rfl rfl rfl (.refl _) grows
        (.goesOn (.refl _) _ fun _ h => by cases h) (fun _ => rfl)
        (fun _ => stands here (by rw [stage]; exact fun h => h)) fun _ h => by cases h
  | timeOut here stage =>
      exact provenance.quiet rfl rfl rfl rfl (.refl _) grows
        (.goesOn (.refl _) _ fun _ h => by cases h) (fun _ => rfl)
        (fun _ => stands here (by rw [stage]; exact fun h => h)) fun _ h => by cases h
  | @prepare id body request toOrigin here stage =>
      have stale' : ∀ entry, toOrigin.stale = some entry →
          entry.For (FromOrigin (events ++ [.prepare id body]) _) request.req := fun entry h =>
        held here entry (by rw [stage]; exact h)
      refine provenance.quiet rfl rfl rfl rfl (.refl _) grows (prepare_keeps stale' base id body)
        (fun _ => rfl) (fun _ => stands here (by rw [stage]; exact fun h => h)) fun tee => ?_
      obtain ⟨status, h⟩ | ⟨sent, revalidating, h, -⟩ :=
        prepare_cases base id σ.store request.req toOrigin body
      · rw [h]
        exact fun h => by cases h
      · rw [h]
        exact fun h => by cases h
  | @answered id head now request exchange later here stage =>
      have stale' : ∀ entry, exchange.stale = some entry →
          entry.For (FromOrigin (events ++ [.answered id head now]) _) request.req :=
        fun entry h => held here entry (by rw [stage]; exact h)
      have answers : Said (events ++ [.answered id head now]) (.request id) head := said rfl
      have unread : received (.request id) (events ++ [.answered id head now]) = [] := by
        rw [received_snoc, provenance.unread id (stands here (by rw [stage]; exact fun h => h))]
        rfl
      obtain ⟨keeps, copies⟩ := answered_keeps stale'
        (fun page notModified made => .updated made answers notModified (acts here) rfl)
        (fun empty => Delivered.made ⟨answers, ⟨[], [], unread, rfl, .inr ⟨rfl, empty⟩⟩,
          fun _ _ n length => by
            rw [empty] at length
            exact (Option.some.inj length).symm⟩ (acts here)) id now
      refine provenance.settle rfl rfl rfl rfl (σ.store.sub_expire now.instant) grows keeps
        (fun _ _ => rfl) (fun _ => unread) fun tee copy streams copying => ?_
      exact ⟨head, [], answers, unread, copies tee copy streams copying⟩
  | @failed id timedOut now request exchange later here stage =>
      have stale' : ∀ entry, exchange.stale = some entry →
          entry.For (FromOrigin (events ++ [.failed id timedOut now]) _) request.req :=
        fun entry h => held here entry (by rw [stage]; exact h)
      refine provenance.quiet rfl rfl rfl rfl (σ.store.sub_expire now.instant) grows
        (failed_keeps stale' id _ now.instant) (fun _ => rfl)
        (fun _ => stands here (by rw [stage]; exact fun h => h)) fun tee => ?_
      obtain ⟨stale, -, -, h⟩ | ⟨status, h⟩ := exchange.failed_cases id
        (σ.tick now.instant).store request.req
        (if timedOut then .gatewayTimeout else .badGateway) now.instant
      · rw [h]
        exact fun h => by cases h
      · rw [h]
        exact fun h => by cases h
  | @body id item now request tee later here stage =>
      obtain ⟨adds, copies⟩ := tee.poll_adds id (σ.tick now.instant).store item now
        fun copy copying fine whole => by
          obtain ⟨head, chunks, begun, got, copied⟩ :=
            provenance.copies id request tee copy here stage copying
          rw [copied.primary, copied.longer]
          exact (Delivered.of_copy now begun got copied fine whole).made (acts here)
      refine provenance.settle rfl rfl rfl rfl (σ.store.sub_expire now.instant) grows
        (.goesOn adds _ fun _ h => by cases h) (fun actor other => if_neg other)
        (fun reads => absurd trivial reads) ?_
      rintro _ copy' ⟨⟩ copying'
      obtain ⟨copy, bytes, rfl, copying, rfl, length⟩ := copies copy' copying'
      obtain ⟨head, chunks, begun, got, copied⟩ :=
        provenance.copies id request tee copy here stage copying
      refine ⟨head, chunks ++ [bytes], begun.mono _, ?_, length.trans copied.length, ?_,
        copied.primary⟩
      · rw [received_snoc, got, List.map_append]
        simp [Event.items]
      · rw [List.flatten_append]
        simpa [Item.bytes] using copied.longer (.chunk bytes)
  | @disconnect id request outcome here hangs =>
      have ended : outcome.stage = .done := by
        cases stage : request.stage <;> rw [stage] at hangs <;> cases hangs <;> rfl
      refine provenance.quiet rfl rfl rfl rfl (.refl _) grows (hangUp_keeps hangs) (fun _ => rfl)
        (fun reads => ?_) fun tee h => ?_
      · rw [ended] at reads
        exact absurd trivial reads
      · rw [ended] at h
        cases h
  | @refreshed id head now task later here stage =>
      have known := provenance.tasks id task here
      have answers : Said (events ++ [.refreshed id head now]) (.task id) head := said rfl
      obtain ⟨adds, collects⟩ := Task.refresh_adds ⟨known.key, grows _ _ known.made⟩
        (fun page notModified made => .updated made answers notModified (works here) rfl) id
        (σ.tick now.instant).store now
      refine provenance.settleTask rfl rfl rfl rfl (σ.store.sub_expire now.instant) here grows adds
        (fun _ _ => rfl) (fun _ => ?_) fun storing head' h => ?_
      · have waits : task.stage ≠ .ended := by
          rw [stage]
          exact fun h => by cases h
        rw [received_snoc, provenance.untaken id (runs here waits)]
        rfl
      · obtain ⟨rfl, key⟩ := collects storing head' h
        exact ⟨answers, key⟩
  | @refreshFailed id task here stage =>
      exact provenance.settleTask rfl rfl rfl rfl (.refl _) here grows (.refl _) (fun _ _ => rfl)
        (fun h => absurd rfl h) fun _ _ h => by cases h
  | @refreshBody id body now task storing head later here stage =>
      obtain ⟨begun, key⟩ := provenance.collects id task storing head here stage
      have before := provenance.untaken id (runs here (by rw [stage]; exact fun h => by cases h))
      have whole : ∀ bytes, body = some bytes →
          Delivered (events ++ [.refreshBody id body now]) (.task id) head bytes := by
        rintro bytes rfl
        refine ⟨begun.mono _, ⟨[bytes], [.ended], ?_, by simp, .inl rfl⟩, fun _ h => by cases h⟩
        rw [received_snoc, before]
        exact if_pos rfl
      have adds := Task.collected_adds id (σ.tick now.instant).store body now fun bytes h => by
        rw [key]
        exact (whole bytes h).made (works here)
      exact provenance.settleTask rfl rfl rfl rfl (σ.store.sub_expire now.instant) here grows adds
        (fun actor other => if_neg other) (fun h => absurd rfl h) fun _ _ h => by cases h
  | @insertAsset path content etag modified =>
      exact provenance.shrinks (σ.store.insertAsset_adds path content etag modified) grows
        fun _ => rfl
  | @evictIndex primary =>
      exact provenance.shrinks (.of_sub (σ.store.sub_removeIndex primary)) grows fun _ => rfl
  | @evictEntry key =>
      exact provenance.shrinks (.of_sub (σ.store.sub_removeEntry key)) grows fun _ => rfl

/-! ## Whole runs -/

/-- The fields that an answer from the cache sets itself. -/
def ownFields : List HeaderName := [header.age, cacheStatusName]

/-- In every run whatever is stored has come from the origin whole, and so has
what any answer from the cache shows: the status and the body as they are, and
every field that the proxy does not set itself. -/
theorem cached_answers_from_origin {sizeMb : UInt64} {ttl : Duration} {σ : World}
    (hrun : Runs.run (World.step base) (World.start sizeMb ttl) events = some σ) :
    (∀ key arc, σ.store.responseAt key = some arc →
      FromOrigin events σ key.primary arc.val.page) ∧
    ∀ given ∈ σ.answers, ∀ stored, given.cause.stored = some stored →
      FromOrigin events σ given.req.cacheKey stored.page ∧
        given.response.status = stored.status ∧ given.response.body = some stored.body ∧
        ∀ name ∉ ownFields, given.response.headers.getAll name =
          HeaderMap.getAll stored.headers name := by
  have provenance : Provenance events σ :=
    Runs.invariant_history (I := Provenance) (.start sizeMb ttl)
      (fun _ _ _ _ _ provenance h => provenance.step (happens_of_step h).2) hrun
  refine ⟨provenance.store, fun given there stored shown => ?_⟩
  obtain ⟨made, status, now, response⟩ := provenance.answers given there stored shown
  obtain ⟨age, -, same⟩ := Option.map_eq_some_iff.mp response
  refine ⟨made, by rw [← same], by rw [← same], fun name other => ?_⟩
  simp only [ownFields, List.mem_cons, List.not_mem_nil, or_false, not_or] at other
  rw [← same]
  simp only [HeaderMap.getAll_insert, if_neg other.1, if_neg other.2]

end

theorem cached_answers_from_origin_example : ∃ (_ : HttpDate) (_ : UriSyntax) (σ : World)
    (given : Given) (stored : StoredResponse),
    Runs.run (step exampleOrigin) (start 1 (Duration.fromSecs 300)) hitEvents = some σ ∧
      given ∈ σ.answers ∧ given.cause.stored = some stored ∧ stored.body = [104, 105] ∧
      FromOrigin hitEvents σ given.req.cacheKey stored.page ∧
      given.response.body = some stored.body := by
  let dates : HttpDate := ⟨fun _ => none⟩
  let uris : UriSyntax := ⟨fun _ => true, fun _ => true⟩
  have evaluated : ((Runs.run (step exampleOrigin) (start 1 (Duration.fromSecs 300))
      hitEvents).map fun σ => (σ.answers[1]?).any fun given =>
        given.cause.stored.any fun stored => stored.body == [104, 105]) = some true := by
    decide +kernel
  obtain ⟨σ, hrun, evaluated⟩ := Option.map_eq_some_iff.mp evaluated
  simp only [Option.any_eq_true, beq_iff_eq] at evaluated
  obtain ⟨given, last, stored, shown, body⟩ := evaluated
  have there := List.mem_of_getElem? last
  obtain ⟨made, -, same, -⟩ := (cached_answers_from_origin hrun).2 given there stored shown
  exact ⟨dates, uris, σ, given, stored, hrun, there, shown, body, made, same⟩

end World

end Shadowstep
