import Shadowstep.Cache.VaryNames
import Shadowstep.Proxy.World

/-!
# What the store holds

Three writers store responses: the stream of a forwarded body, a background
task, and `freshen`. Each is judged on one set of fields and stores another.

* `Sound` — what is true of every stored response, of its fields and of the
  request that stored or last freshened it;
* `Writes` — what a function of the proxy may do to the store;
* `World.stored_sound` — the store of every reachable world.
-/

namespace Shadowstep

open Rust Generations

/-! ## Fields -/

/-- A name that the proxy never stores. -/
def unstoredName (name : HeaderName) : Bool :=
  name = header.age || name = header.contentLength || name = cacheStatusName ||
    hopByHop.contains name.asStr

def Clean (headers : Fields) : Prop := ∀ field ∈ headers, unstoredName field.1 = false

theorem Clean.updated {stored update : Fields} (hstored : Clean stored) (hupdate : Clean update) :
    Clean (updatedFields stored update) := by
  intro field h
  obtain old | new := List.mem_append.mp h
  · exact hstored field (List.mem_of_mem_filter old)
  · exact hupdate field new

theorem clean_forwarded (head : Head) : Clean (storedFields (forwardableFields head)) := by
  intro field h
  simp only [storedFields, forwardableFields, List.mem_filter, ne_eq, decide_not,
    Bool.not_eq_true', decide_eq_false_iff_not, Bool.and_eq_true, isEndToEnd] at h
  obtain ⟨⟨-, ⟨length, status⟩, hop, -⟩, age⟩ := h
  simp only [unstoredName, Bool.or_eq_false_iff, decide_eq_false_iff_not]
  exact ⟨⟨⟨age, length⟩, status⟩, hop⟩

/-- Stored fields and the fields they were judged by: of each name but `Age`
the store has all the values or none. -/
structure Derived (fields : HeaderMap) (headers : Fields) : Prop where
  clean : Clean headers
  part : ∀ name, name ≠ header.age →
    HeaderMap.getAll headers name = fields.getAll name ∨ HeaderMap.getAll headers name = []

theorem derived_forwarded (head : Head) :
    Derived head.map (storedFields (forwardableFields head)) := by
  refine ⟨clean_forwarded head, fun name _ => ?_⟩
  rw [storedFields, HeaderMap.getAll_filter _ (fun name => decide (name ≠ header.age))]
  split
  · rw [forwardableFields, HeaderMap.getAll_filter _ (fun name =>
      name ≠ header.contentLength && name ≠ cacheStatusName &&
        isEndToEnd name (connectionOptions (head.map.getAll header.connection)))]
    split
    · exact .inl rfl
    · exact .inr rfl
  · exact .inr rfl

theorem derived_updated {stored : StoredResponse} {update : Fields} (age : Option HeaderValue)
    (hstored : Clean stored.headers) (hupdate : Clean update) :
    Derived (Store.freshenMap stored update age) (updatedFields stored.headers update) := by
  refine ⟨hstored.updated hupdate, fun name other => .inl ?_⟩
  cases age with
  | none => rfl
  | some age =>
      rw [Store.freshenMap, HeaderMap.getAll_insert, if_neg other]

/-! ## Responses -/

/-- Whether a `Vary` value has the element `*`. -/
def hasStar (value : HeaderValue) : Bool :=
  value.toStr.any fun text => (text.splitOn ',').any fun element => trim element = ['*']

/-- What is true of a stored response, with `judged` the last judgement of
`storable` on it. -/
structure Sound [HttpDate] (cap : Duration) (maxEntry : Nat) (judged : Judgement)
    (stored : StoredResponse) : Prop where
  status : stored.status.code ∈ cacheableByDefault
  clean : Clean stored.headers
  noSetCookie : HeaderMap.containsKey stored.headers header.setCookie = false
  noStar : ∀ value ∈ HeaderMap.getAll stored.headers header.vary, hasStar value = false
  wellFormed : (Directives.parse
    (HeaderMap.getAll stored.headers header.cacheControl)).malformed = false
  allowed : ∀ name ∈ unstorableDirectives,
    (Directives.parse (HeaderMap.getAll stored.headers header.cacheControl)).has name = false
  ttl_pos : 0 < stored.ttl.nanos
  ttl_le : stored.ttl ≤ cap
  grace_le : stored.grace ≤ cap
  body_le : stored.body.length ≤ maxEntry
  request : PlainGet judged.request.method judged.request.headers
  credentials : (judged.request.headers.containsKey header.authorization = true ∨
      judged.request.headers.containsKey header.cookie = true) →
    (Directives.parse (judged.fields.getAll header.cacheControl)).has "public" = true
  lifetime : ∃ lifetime, freshnessLifetime (Directives.parse
      (judged.fields.getAll header.cacheControl)) judged.fields judged.clock = some lifetime ∧
    stored.initialAge.nanos + stored.ttl.nanos ≤ lifetime.nanos
  stale : stored.stale =
    StaleRules.parse (Directives.parse (judged.fields.getAll header.cacheControl))

/-- Where the results are distinct, only one element has each of them. -/
theorem eq_of_filterMap_nodup {α β : Type} {f : α → Option β} {list : List α}
    (nodup : (list.filterMap f).Nodup) {a b : α} (ha : a ∈ list) (hb : b ∈ list) {x : β}
    (fa : f a = some x) (fb : f b = some x) : a = b := by
  by_contra different
  have apart := List.pairwise_filterMap.mp nodup
  have : Std.Symm fun a b => ∀ x, f a = some x → ∀ y, f b = some y → x ≠ y :=
    ⟨fun a b h x hx y hy => (h y hy x hx).symm⟩
  exact apart.forall ha hb different x fa x fb rfl

/-- A `Vary` that names fields has no `*`. -/
theorem hasStar_eq_false {fields : HeaderMap} {names : List HeaderName}
    (h : varyNames fields = some names) :
    ∀ value ∈ fields.getAll header.vary, hasStar value = false := by
  intro value hvalue
  cases read : value.toStr with
  | none =>
      simp only [hasStar, read]
      rfl
  | some text =>
      simp only [hasStar, read, Option.any_some, List.any_eq_false, decide_eq_true_eq]
      intro element helement star
      have listed : ['*'] ∈ listElements value := by
        rw [← pieces_of_toStr read, ← star]
        exact List.mem_map_of_mem helement
      rw [varyNames_of_star hvalue listed] at h
      cases h

/-! ## Removals -/

/-- The number of the response that an effect has stored. -/
def Effect.stored : Effect → Option Nat
  | .wrote _ _ stored => stored
  | _ => none

@[simp] theorem released_stored (id : Nat) (flight : Option Flight) :
    (released id flight).filterMap Effect.stored = [] := by
  cases flight <;> rfl

namespace Store

/-- Nothing is stored. -/
structure Empty (store : Store) : Prop where
  entries : ∀ key, store.entries key = none
  index : ∀ primary, store.index primary = none

/-- No record that was not there. -/
structure Sub (after before : Store) : Prop where
  ttl : after.ttl = before.ttl
  maxEntry : after.maxEntry = before.maxEntry
  arcs : after.arcs = before.arcs
  entries : ∀ {key entry}, after.entries key = some entry → before.entries key = some entry
  index : ∀ {primary index}, after.index primary = some index → before.index primary = some index

theorem Sub.refl (store : Store) : store.Sub store := ⟨rfl, rfl, rfl, id, id⟩

theorem Sub.empty {after before : Store} (sub : after.Sub before) (empty : before.Empty) :
    after.Empty := by
  constructor
  · intro key
    by_contra found
    obtain ⟨entry, h⟩ := Option.ne_none_iff_exists'.mp found
    cases (empty.entries key).symm.trans (sub.entries h)
  · intro primary
    by_contra found
    obtain ⟨index, h⟩ := Option.ne_none_iff_exists'.mp found
    cases (empty.index primary).symm.trans (sub.index h)

theorem update_none_sub {α β : Type} [DecidableEq α] {f : α → Option β} {a b : α} {value : β}
    (h : Function.update f a none b = some value) : f b = some value := by
  by_cases same : b = a
  · subst same
    simp at h
  · rwa [Function.update_of_ne same] at h

theorem sub_removeIndex (store : Store) (primary : PrimaryKey) :
    (store.removeIndex primary).Sub store :=
  ⟨rfl, rfl, rfl, id, update_none_sub⟩

theorem sub_removeEntry (store : Store) (key : Key) : (store.removeEntry key).Sub store :=
  ⟨rfl, rfl, rfl, update_none_sub, id⟩

theorem sub_refreshing (store : Store) (refreshing : Finset ResponseKey) :
    { store with refreshing := refreshing }.Sub store :=
  ⟨rfl, rfl, rfl, id, id⟩

theorem sub_expire (store : Store) (now : Instant) : (store.expire now).Sub store :=
  ⟨rfl, rfl, rfl, fun h => (Option.filter_eq_some_iff.mp h).1, id⟩

/-- A disabled store refuses every body. -/
theorem admits_of_disabled {store : Store} (disabled : store.enabled = false) (body : Bytes) :
    store.admits body = false := by
  simp [admits, disabled]

theorem insertAsset_of_disabled {store : Store} (disabled : store.enabled = false) (path : Path)
    (content : Bytes) (etag : Text) (modified : SystemTime) :
    (store.insertAsset path content etag modified).2 = store := by
  simp [insertAsset, disabled]

end Store

section

variable [HttpDate]

/-- The answer of `storable`. -/
def Judgement.verdict (judged : Judgement) : Option (Storable × Vary) :=
  storable (.new judged.request.method judged.request.headers) judged.request.headers
    judged.status judged.fields judged.clock

theorem sound_response {judged : Judgement} {policy : Storable} {vary : Vary} {headers : Fields}
    {body : Bytes} {now : Clock} {store : Store}
    (verdict : judged.verdict = some (policy, vary)) (derived : Derived judged.fields headers)
    (admits : store.admits body = true) :
    Sound store.ttl store.maxEntry judged
      (store.response policy judged.status headers body now) := by
  obtain ⟨directives, lifetime, accepted⟩ := storable_spec verdict
  have parsed := accepted.keepable.parsed
  have control := derived.part header.cacheControl (by decide)
  simp only [Store.admits, Store.enabled, Bool.and_eq_true, decide_eq_true_eq,
    Bool.not_eq_true'] at admits
  have cap_pos := Duration.isZero_eq_false.mp admits.1.2
  refine
    { status := accepted.keepable.status_mem
      clean := derived.clean
      noSetCookie := ?_
      noStar := ?_
      wellFormed := ?_
      allowed := ?_
      ttl_pos := ?_
      ttl_le := min_le_right _ _
      grace_le := StaleRules.grace_le_cap ..
      body_le := admits.2
      request := mayStore_spec accepted.mayStore
      credentials := ?_
      lifetime := ⟨lifetime, ?_, ?_⟩
      stale := ?_ }
  · have absent (fields : HeaderMap) :
        fields.containsKey header.setCookie = false ↔ fields.getAll header.setCookie = [] := by
      rw [HeaderMap.containsKey_eq_false, List.eq_nil_iff_forall_not_mem]
      simp only [HeaderMap.mem_getAll]
    refine (absent headers).mpr ?_
    obtain same | none := derived.part header.setCookie (by decide)
    · exact same.trans ((absent judged.fields).mp accepted.keepable.noSetCookie)
    · exact none
  · -- the stored fields have all of `Vary`, or none of it
    intro value hvalue
    obtain same | none := derived.part header.vary (by decide)
    · exact hasStar_eq_false accepted.names value (same ▸ hvalue)
    · exact absurd (none ▸ hvalue) List.not_mem_nil
  · obtain same | none := control
    · exact (same ▸ parsed) ▸ accepted.keepable.wellFormed
    · rw [Store.response, none]
      rfl
  · obtain same | none := control
    · exact (same ▸ parsed) ▸ accepted.keepable.allowed
    · intro name _
      rw [Store.response, none]
      rfl
  · change 0 < (min policy.ttl store.ttl).nanos
    rw [Duration.min_nanos]
    exact lt_min accepted.ttl_pos cap_pos
  · intro carried
    rw [← parsed]
    refine accepted.credentials ?_
    simpa [RequestPolicy.new] using carried
  · rw [← parsed]
    exact accepted.lifetime_eq
  · have := accepted.age_add_ttl
    have least := Duration.le_iff.mp (min_le_left policy.ttl store.ttl)
    change policy.initialAge.nanos + (min policy.ttl store.ttl).nanos ≤ lifetime.nanos
    omega
  · rw [← parsed]
    exact accepted.stale

/-! ## Writes -/

/-- The judgement of the response that the store allocated as `arc.ptr`. -/
def Backed (cap : Duration) (maxEntry : Nat) (log : List Effect) (arc : Arc StoredResponse) :
    Prop :=
  ∃ actor judged, .wrote actor judged (some arc.ptr) ∈ log ∧ Sound cap maxEntry judged arc.val

theorem Backed.mono {cap : Duration} {maxEntry : Nat} {log more : List Effect}
    {arc : Arc StoredResponse} (subset : log ⊆ more) (backed : Backed cap maxEntry log arc) :
    Backed cap maxEntry more arc := by
  obtain ⟨actor, judged, wrote, sound⟩ := backed
  exact ⟨actor, judged, subset wrote, sound⟩

/-- What a function of the proxy may do to the store. -/
structure Writes (before after : Store) (effects : List Effect) : Prop where
  ttl : after.ttl = before.ttl
  maxEntry : after.maxEntry = before.maxEntry
  /-- every response that is allocated is in the effects, in order -/
  numbered : ∃ n, after.arcs = before.arcs + n ∧
    effects.filterMap Effect.stored = List.range' before.arcs n
  stored : ∀ key arc, after.responseAt key = some arc → before.responseAt key = some arc ∨
    Backed before.ttl before.maxEntry effects arc
  empty : before.enabled = false → before.Empty → after.Empty

theorem Writes.enabled {before after : Store} {effects : List Effect}
    (writes : Writes before after effects) : after.enabled = before.enabled := by
  simp only [Store.enabled, writes.ttl, writes.maxEntry]

theorem Writes.trans {before middle after : Store} {first second : List Effect}
    (writes : Writes before middle first) (writes' : Writes middle after second) :
    Writes before after (first ++ second) where
  ttl := writes'.ttl.trans writes.ttl
  maxEntry := writes'.maxEntry.trans writes.maxEntry
  numbered := by
    obtain ⟨n, arcs, numbers⟩ := writes.numbered
    obtain ⟨m, arcs', numbers'⟩ := writes'.numbered
    refine ⟨n + m, by omega, ?_⟩
    rw [List.filterMap_append, numbers, numbers', arcs]
    exact List.range'_append_1 ..
  stored key arc h := by
    obtain middle | backed := writes'.stored key arc h
    · exact (writes.stored key arc middle).imp_right (Backed.mono (List.subset_append_left ..))
    · rw [writes.ttl, writes.maxEntry] at backed
      exact .inr (backed.mono (List.subset_append_right ..))
  empty disabled empty := writes'.empty (writes.enabled ▸ disabled) (writes.empty disabled empty)

/-- A step that removes records or leaves them. -/
theorem Writes.of_sub {before after : Store} {effects : List Effect}
    (sub : after.Sub before) (quiet : effects.filterMap Effect.stored = []) :
    Writes before after effects where
  ttl := sub.ttl
  maxEntry := sub.maxEntry
  numbered := ⟨0, sub.arcs, quiet⟩
  stored key arc h := by
    refine .inl ?_
    unfold Store.responseAt at h ⊢
    split at h
    case h_1 found =>
      obtain rfl := Option.some.inj h
      rw [sub.entries found]
    case h_2 => cases h
  empty _ := sub.empty

/-- A call that allocates at most one response. -/
theorem Writes.of_moves {before after : Store} {op : TableOp} {actor : Actor}
    {judged : Judgement} {stored : Option Nat} (moves : before.Moves after op)
    (stored_eq : stored = if Store.allocations op = 0 then none else some before.arcs)
    (sound : ∀ p tag v arc, op = .put p tag v arc → Sound before.ttl before.maxEntry judged arc.val)
    (empty : before.enabled = false → before.Empty → after.Empty) :
    Writes before after [.wrote actor judged stored] where
  ttl := moves.ttl
  maxEntry := moves.maxEntry
  numbered := by
    refine ⟨_, moves.arcs, ?_⟩
    rw [stored_eq]
    cases op <;> rfl
  stored key arc h := by
    obtain old | ⟨p, tag, v, rfl⟩ := moves.responseAt h
    · exact .inl old
    · refine .inr ⟨actor, judged, ?_, sound p tag v arc rfl⟩
      rw [stored_eq, (moves.allocated p tag v arc rfl).1]
      exact List.mem_singleton.mpr rfl
  empty := empty

/-! ## The functions that write -/

/-- What `finish` is called with fits the judgement. -/
structure Storing.Ready (storing : Storing) (status : StatusCode) (headers : Fields) : Prop where
  verdict : storing.judged.verdict = some (storing.policy, storing.vary)
  status_eq : status = storing.judged.status
  derived : Derived storing.judged.fields headers

theorem Storing.Ready.finish_writes {storing : Storing} {status : StatusCode} {headers : Fields}
    (ready : storing.Ready status headers) (actor : Actor) (store : Store) (body : Bytes)
    (now : Clock) :
    Writes store (storing.finish actor store status headers body now).1
      (storing.finish actor store status headers body now).2 := by
  unfold Storing.finish
  cases admits : store.admits body with
  | true =>
      obtain ⟨after, inserted, moves⟩ := Store.insertResponse_of_admits admits storing.primary
        storing.vary storing.policy status headers now
      simp only [inserted]
      refine .of_moves moves rfl ?_ fun disabled => ?_
      · rintro p tag v arc ⟨⟩
        rw [ready.status_eq]
        exact sound_response ready.verdict ready.derived admits
      · rw [Store.admits_of_disabled disabled] at admits
        cases admits
  | false =>
      simp only [Store.insertResponse_of_not_admits admits]
      exact .of_moves (Store.Moves.skip store) rfl (fun _ _ _ _ h => by cases h) fun _ => id

theorem Store.freshen_of_disabled {store : Store} (disabled : store.enabled = false)
    (entry : StaleEntry) (requestPolicy : RequestPolicy) (request : HeaderMap) (update : Fields)
    (age : Option HeaderValue) (now : Clock) :
    (store.freshen entry requestPolicy request update age now).2.Sub store := by
  unfold freshen
  simp only [insertResponse_of_not_admits (admits_of_disabled disabled _)]
  split
  · split <;> exact .refl store
  · split
    · exact sub_removeEntry ..
    · exact .refl store

theorem freshenFrom_writes {entry : StaleEntry} (clean : Clean entry.response.val.headers)
    (actor : Actor) (store : Store) (req : HttpRequest) (head : Head) (now : Clock) :
    Writes store (freshenFrom actor store entry req head now).2.1
      (freshenFrom actor store entry req head now).2.2 := by
  unfold freshenFrom
  have moves := Store.freshen_moves store entry (.new req.method req.headers) req.headers
    (storedFields (forwardableFields head)) (head.map.get header.age) now
  refine .of_moves moves ?_ ?_ fun disabled =>
    (Store.freshen_of_disabled disabled ..).empty
  · simp only [moves.arcs, Nat.add_eq_left]
  · intro p tag v arc put
    obtain ⟨policy, vary, accepted, admits, stored⟩ := Store.freshenOp_eq_put put
    rw [stored]
    exact sound_response accepted (derived_updated _ clean (clean_forwarded head)) admits

/-- The copy of a body fits its judgement. -/
def Tee.Ready (tee : Tee) : Prop :=
  ∀ copy, tee.copy = some copy → copy.storing.Ready copy.status copy.headers

theorem Tee.Ready.finish_writes {tee : Tee} (ready : tee.Ready) (id : Nat) (store : Store)
    (now : Clock) :
    Writes store (tee.finish id store now).1 (tee.finish id store now).2.1 ∧
      (tee.finish id store now).2.2.Ready := by
  unfold Tee.finish
  cases h : tee.copy with
  | none => exact ⟨.of_sub (.refl store) rfl, ready⟩
  | some copy =>
      simp only
      split
      · refine ⟨((ready copy h).finish_writes ..).trans ?_, fun _ h => by cases h⟩
        exact .of_sub (.refl _) (released_stored ..)
      · exact ⟨.of_sub (.refl store) (released_stored ..), fun _ h => by cases h⟩

theorem Tee.discard_writes (tee : Tee) (id : Nat) (store : Store) :
    Writes store store (tee.discard id).1 ∧ (tee.discard id).2.Ready := by
  refine ⟨.of_sub (.refl store) ?_, fun _ h => by cases h⟩
  unfold Tee.discard
  cases tee.copy with
  | none => rfl
  | some copy => exact released_stored ..

theorem Tee.Ready.poll_writes {tee : Tee} (ready : tee.Ready) (id : Nat) (store : Store) (item : Item)
    (now : Clock) :
    Writes store (tee.poll id store item now).1 (tee.poll id store item now).2.1 ∧
      (tee.poll id store item now).2.2.Ready := by
  unfold Tee.poll
  cases item with
  | chunk chunk =>
      cases h : tee.copy with
      | none => exact ⟨.of_sub (.refl store) rfl, ready⟩
      | some copy =>
          simp only
          have longer : Tee.Ready
              { tee with copy := some { copy with buffer := copy.buffer ++ chunk } } := by
            rintro _ ⟨⟩
            exact ready copy h
          split
          · exact tee.discard_writes id store
          · split
            · exact longer.finish_writes id store now
            · exact ⟨.of_sub (.refl store) rfl, longer⟩
  | failed => exact tee.discard_writes id store
  | ended => exact ready.finish_writes id store now

theorem insertAsset_writes (store : Store) (path : Path) (content : Bytes) (etag : Text)
    (modified : SystemTime) :
    Writes store (store.insertAsset path content etag modified).2 [] := by
  have moves := store.insertAsset_moves path content etag modified
  refine ⟨moves.ttl, moves.maxEntry, ⟨0, moves.arcs, rfl⟩, fun key arc h => ?_, ?_⟩
  · obtain old | ⟨p, tag, v, put⟩ := moves.responseAt h
    · exact .inl old
    · cases put
  · intro disabled empty
    rwa [Store.insertAsset_of_disabled disabled]

theorem storePlan_writes (actor : Actor) (store : Store) (req : HttpRequest) (head : Head)
    (now : Clock) :
    Writes store (storePlan actor store req head now).2.1 (storePlan actor store req head now).2.2 ∧
      ∀ storing, (storePlan actor store req head now).1 = some storing →
        storing.Ready head.status (storedFields (forwardableFields head)) := by
  constructor
  · unfold storePlan
    simp only
    split
    · exact .of_sub (Store.sub_removeIndex ..) rfl
    · exact .of_sub (.refl store) rfl
  · intro storing h
    obtain ⟨⟨policy, vary⟩, accepted, rfl⟩ := Option.map_eq_some_iff.mp h
    exact ⟨accepted, rfl, derived_forwarded head⟩

theorem clientResponse_writes {head : Head} {storing : Option Storing}
    (ready : ∀ s, storing = some s → s.Ready head.status (storedFields (forwardableFields head)))
    (id : Nat) (store : Store) (now : Clock) :
    Writes store (clientResponse id store head storing now).2.1
        (clientResponse id store head storing now).2.2.1 ∧
      (clientResponse id store head storing now).2.2.2.Ready := by
  unfold clientResponse Tee.new
  simp only
  have copied : Tee.Ready ⟨contentLength head,
      (storing.filter fun storing => (contentLength head).all (· ≤ storing.limit)).map
        fun storing => ⟨[], storing, head.status, storedFields (forwardableFields head)⟩⟩ := by
    intro copy h
    obtain ⟨s, kept, rfl⟩ := Option.map_eq_some_iff.mp h
    exact ready s (Option.filter_eq_some_iff.mp kept).1
  have refused (kept : Bool) : Writes store store
      (if kept then storing.elim [] fun s => released id s.flight else []) := by
    refine .of_sub (.refl store) ?_
    cases kept with
    | false => rfl
    | true =>
        cases storing with
        | none => rfl
        | some s => exact released_stored ..
  split
  · obtain ⟨writes, ready⟩ := copied.finish_writes id store now
    exact ⟨(refused _).trans writes, ready⟩
  · exact ⟨(refused _).trans (.of_sub (.refl store) rfl), copied⟩

theorem Exchange.forwarded_writes (exchange : Exchange) (id : Nat) (store : Store)
    (req : HttpRequest) (head : Head) (now : Clock) :
    Writes store (exchange.forwarded id store req head now).store
        (exchange.forwarded id store req head now).effects ∧
      ∀ tee, (exchange.forwarded id store req head now).stage = .streams tee → tee.Ready := by
  unfold Exchange.forwarded
  simp only
  obtain ⟨planned, ready⟩ := storePlan_writes (.request id) store req head now
  have held : ∀ s, (storePlan (.request id) store req head now).1.map
      (fun s => s.holding exchange.flight) = some s →
        s.Ready head.status (storedFields (forwardableFields head)) := by
    intro s h
    obtain ⟨storing, planned, rfl⟩ := Option.map_eq_some_iff.mp h
    have := ready storing planned
    exact ⟨this.verdict, this.status_eq, this.derived⟩
  obtain ⟨writes, copied⟩ := clientResponse_writes held id
    (storePlan (.request id) store req head now).2.1 now
  refine ⟨(planned.trans (.of_sub (.refl _) ?_)).trans writes, ?_⟩
  · split
    · exact released_stored ..
    · rfl
  · rintro _ ⟨⟩
    exact copied

theorem Task.refresh_writes {task : Task} (clean : Clean task.entry.response.val.headers)
    (id : Nat) (store : Store) (head : Head) (now : Clock) :
    Writes store (task.refresh id store head now).1 (task.refresh id store head now).2.1 ∧
      ∀ storing head', (task.refresh id store head now).2.2 = .collects storing head' →
        storing.Ready head'.status (storedFields (forwardableFields head')) := by
  unfold Task.refresh
  split
  · exact ⟨freshenFrom_writes clean .., fun _ _ h => by cases h⟩
  · obtain ⟨planned, ready⟩ := storePlan_writes (.task id) store task.req head now
    split
    case h_1 storing after effects plan =>
      rw [plan] at planned ready
      refine ⟨planned, ?_⟩
      rintro _ _ ⟨⟩
      exact ready storing rfl
    case h_2 after effects plan =>
      rw [plan] at planned
      exact ⟨planned, fun _ _ h => by cases h⟩

theorem Task.collected_writes {storing : Storing} {head : Head}
    (ready : storing.Ready head.status (storedFields (forwardableFields head))) (id : Nat)
    (store : Store) (body : Option Bytes) (now : Clock) :
    Writes store (Task.collected id store storing head body now).1
      (Task.collected id store storing head body now).2 := by
  unfold Task.collected
  cases body with
  | none => exact .of_sub (.refl store) rfl
  | some body =>
      simp only
      split
      · exact ready.finish_writes ..
      · exact .of_sub (.refl store) rfl

/-! ## The machine -/

def Stage.Ready : Stage → Prop
  | .streams tee => tee.Ready
  | _ => True

def TaskStage.Ready : TaskStage → Prop
  | .collects storing head => storing.Ready head.status (storedFields (forwardableFields head))
  | _ => True

namespace World

/-- The invariant: the log backs every response that is stored or held, and
what is still to be stored fits its judgement. -/
structure Kept (σ : World) : Prop where
  numbered : σ.log.filterMap Effect.stored = List.range σ.store.arcs
  stores : Stores (Backed σ.store.ttl σ.store.maxEntry σ.log) σ.store
  holds : Holds (Backed σ.store.ttl σ.store.maxEntry σ.log) σ
  requests : ∀ id request, σ.requests id = some request → request.stage.Ready
  tasks : ∀ id task, σ.tasks id = some task → task.stage.Ready

theorem or_writes (id : Nat) (flight : Option Flight) (next : Option StaleEntry → Stage)
    (next_ready : ∀ stale, (next stale).Ready) (store : Store) (refreshing : Finset ResponseKey)
    (cached : Cached) (spawned : Option (Task × UpstreamRequest)) :
    let outcome := Cached.or id flight next
      (cached, { store with refreshing := refreshing }, spawned)
    Writes store outcome.store outcome.effects ∧ outcome.stage.Ready := by
  have quiet {effects : List Effect} (h : effects.filterMap Effect.stored = []) :
      Writes store { store with refreshing := refreshing } effects :=
    .of_sub (store.sub_refreshing refreshing) h
  cases cached with
  | answer => exact ⟨quiet (released_stored ..), trivial⟩
  | _ => exact ⟨quiet rfl, next_ready _⟩

theorem Moves.writes {σ : World} {id : Nat} {req : HttpRequest} {stage : Stage}
    {outcome : Outcome} (moves : Moves σ id req stage outcome) (ready : stage.Ready)
    (clean : ∀ entry, stage.stale = some entry → Clean entry.response.val.headers) :
    Writes σ.store outcome.store outcome.effects ∧ outcome.stage.Ready := by
  have quiet {effects : List Effect} (h : effects.filterMap Effect.stored = []) :
      Writes σ.store σ.store effects :=
    .of_sub (.refl σ.store) h
  cases moves with
  | lookFirst => exact or_writes id none .joins (fun _ => trivial) ..
  | lookAgain => exact or_writes id _ (fun stale => .prepares ⟨stale, _⟩) (fun _ => trivial) ..
  | wake => exact ⟨quiet rfl, trivial⟩
  | refused => exact ⟨quiet (released_stored ..), trivial⟩
  | sent => exact ⟨quiet rfl, trivial⟩
  | @revalidated exchange stale head now clock found =>
      exact ⟨(freshenFrom_writes (clean stale found) ..).trans
        (.of_sub (.refl _) (released_stored ..)), trivial⟩
  | onError => exact ⟨quiet (released_stored ..), trivial⟩
  | @forwarded exchange head now =>
      obtain ⟨writes, streams⟩ := exchange.forwarded_writes id σ.store req head now
      exact ⟨writes, streams _ rfl⟩
  | failed => exact ⟨quiet (released_stored ..), trivial⟩
  | body => exact ready.poll_writes ..
  | hangUp h =>
      cases stage <;> cases h
      case streams.refl tee => exact ⟨(tee.discard_writes id σ.store).1, trivial⟩
      all_goals exact ⟨quiet (by simp [goesOn]), trivial⟩

theorem TaskMoves.writes {σ : World} {id : Nat} {task : Task}
    {outcome : Store × List Effect × TaskStage} (moves : TaskMoves σ id task outcome)
    (ready : task.stage.Ready) (clean : Clean task.entry.response.val.headers) :
    Writes σ.store outcome.1 outcome.2.1 ∧ outcome.2.2.Ready := by
  cases moves with
  | @refreshed head now =>
      obtain ⟨writes, collects⟩ := task.refresh_writes clean id σ.store head now
      refine ⟨writes, ?_⟩
      cases h : (task.refresh id σ.store head now).2.2 with
      | collects storing head' => exact collects storing head' h
      | _ => trivial
  | failed => exact ⟨.of_sub (.refl σ.store) rfl, trivial⟩
  | body clock stage =>
      rw [stage] at ready
      exact ⟨Task.collected_writes ready .., trivial⟩

/-- What a step adds to the log, and what it leaves to be stored. -/
structure Wrote (σ σ' : World) : Prop where
  writes : ∃ effects, σ'.log = σ.log ++ effects ∧ Writes σ.store σ'.store effects
  requests : ∀ id request, σ'.requests id = some request → request.stage.Ready
  tasks : ∀ id task, σ'.tasks id = some task → task.stage.Ready

theorem Kept.clean {σ : World} (kept : Kept σ) :
    Holds (fun arc => Clean arc.val.headers) σ := by
  have clean {arc : Arc StoredResponse}
      (backed : Backed σ.store.ttl σ.store.maxEntry σ.log arc) : Clean arc.val.headers := by
    obtain ⟨actor, judged, -, sound⟩ := backed
    exact sound.clean
  exact ⟨fun id request entry here held => clean (kept.holds.requests id request entry here held),
    fun id task here => clean (kept.holds.tasks id task here)⟩

/-- A step of a request writes what its outcome says. -/
theorem Kept.settle {σ σ₀ : World} (kept : Kept σ) {id : Nat} {req : HttpRequest}
    {outcome : Outcome} (sub : σ₀.store.Sub σ.store) (log : σ₀.log = σ.log)
    (requests : σ₀.requests = σ.requests) (tasks : σ₀.tasks = σ.tasks)
    (writes : Writes σ₀.store outcome.store outcome.effects) (ready : outcome.stage.Ready)
    (spawned : ∀ task request, outcome.spawned = some (task, request) → task.stage.Ready) :
    Wrote σ (σ₀.settle id req outcome) where
  writes := by
    rcases settle_log σ₀ id req outcome with ⟨sent, logged, foreign⟩
    refine ⟨outcome.effects ++ sent, ?_, ?_⟩
    · rw [logged, log, List.append_assoc]
    · have quiet : sent.filterMap Effect.stored = [] := by
        rw [List.filterMap_eq_nil_iff]
        intro effect h
        rcases foreign effect h with ⟨request, rfl⟩
        rfl
      have shrunk : Writes σ.store σ₀.store [] := .of_sub sub rfl
      exact shrunk.trans (writes.trans (.of_sub (.refl _) quiet))
  requests other request h := by
    obtain ⟨-, rfl⟩ | ⟨-, before⟩ := Runs.update_cases h
    · exact ready
    · exact kept.requests other request (requests ▸ before)
  tasks other task h := by
    obtain ⟨request, new⟩ | before := settle_tasks h
    · exact spawned task request new
    · exact kept.tasks other task (tasks ▸ before)

theorem Kept.change {σ σ' : World} (kept : Kept σ) (change : Change σ σ') : Wrote σ σ' := by
  have still {store : Store} (sub : store.Sub σ.store) : Wrote σ { σ with store := store } :=
    ⟨⟨[], (List.append_nil _).symm, .of_sub sub rfl⟩, kept.requests, kept.tasks⟩
  have shrinks {σ₀ : World} (time : σ₀ = σ ∨ ∃ now, σ.clock ≤ now ∧ σ₀ = σ.tick now) :
      σ₀.store.Sub σ.store := by
    rcases time with rfl | ⟨now, -, rfl⟩
    · exact .refl _
    · exact σ.store.sub_expire now
  cases change with
  | arrive =>
      exact kept.settle (.refl _) rfl rfl rfl (.of_sub (.refl _) rfl) trivial
        fun _ _ h => by cases h
  | @request σ₀ id request outcome time here moves =>
      have read := at_reading time
      obtain ⟨writes, ready⟩ := moves.writes (kept.requests id request here) fun entry =>
        kept.clean.requests id request entry here
      refine kept.settle (shrinks time) read.log read.requests read.tasks writes ready
        fun task sent h => ?_
      rw [(moves.found.2 task sent h).2]
      trivial
  | @join id request stale here stage =>
      cases (joinFlight σ.store σ.flights request.req).1 <;>
        exact kept.settle (.refl _) rfl rfl rfl (.of_sub (.refl _) rfl) trivial
          fun _ _ h => by cases h
  | @task σ₀ id task outcome time here moves =>
      have read := at_reading time
      obtain ⟨writes, ready⟩ := moves.writes (kept.tasks id task here) (kept.clean.tasks id task here)
      have shrunk : Writes σ.store σ₀.store [] := .of_sub (shrinks time) rfl
      have ended : (σ₀.settleTask id task outcome).store.Sub outcome.1 := by
        unfold settleTask
        simp only
        split
        · exact Store.sub_refreshing ..
        · exact .refl _
      refine ⟨⟨outcome.2.1 ++ [], ?_, shrunk.trans (writes.trans (.of_sub ended rfl))⟩, ?_, ?_⟩
      · simp only [settleTask, read.log, List.append_nil]
      · intro other request h
        exact kept.requests other request (read.requests ▸ h)
      · intro other task' h
        obtain ⟨-, rfl⟩ | ⟨-, before⟩ := Runs.update_cases h
        · exact ready
        · exact kept.tasks other task' (read.tasks ▸ before)
  | insertAsset =>
      exact ⟨⟨[], (List.append_nil _).symm, insertAsset_writes ..⟩, kept.requests, kept.tasks⟩
  | evictIndex => exact still (Store.sub_removeIndex ..)
  | evictEntry => exact still (Store.sub_removeEntry ..)

theorem Kept.step {σ σ' : World} (kept : Kept σ) (change : Change σ σ') : Kept σ' := by
  obtain ⟨⟨effects, log, writes⟩, requests, tasks⟩ := kept.change change
  have later {arc : Arc StoredResponse}
      (backed : Backed σ.store.ttl σ.store.maxEntry σ.log arc) :
      Backed σ'.store.ttl σ'.store.maxEntry σ'.log arc := by
    rw [writes.ttl, writes.maxEntry, log]
    exact backed.mono (List.subset_append_left ..)
  have held := kept.holds.change kept.stores change
  refine
    { numbered := ?_
      stores := fun key arc here => ?_
      holds := ⟨fun id request entry here h => later (held.requests id request entry here h),
        fun id task here => later (held.tasks id task here)⟩
      requests := requests
      tasks := tasks }
  · obtain ⟨n, arcs, numbers⟩ := writes.numbered
    rw [log, List.filterMap_append, kept.numbered, numbers, arcs, List.range_eq_range',
      List.range_eq_range']
    simpa using List.range'_append_1 (s := 0)
  · obtain before | backed := writes.stored key arc here
    · exact later (kept.stores key arc before)
    · rw [writes.ttl, writes.maxEntry, log]
      exact backed.mono (List.subset_append_right ..)

/-! ## Runs -/

theorem kept_start (sizeMb : UInt64) (ttl : Duration) : Kept (start sizeMb ttl) where
  numbered := rfl
  stores _ _ h := by cases h
  holds := Holds.start ..
  requests _ _ h := by cases h
  tasks _ _ h := by cases h

/-- The configuration does not change, and a store that keeps nothing stays
empty. -/
structure Configured (sizeMb : UInt64) (ttl : Duration) (σ : World) : Prop where
  ttl_eq : σ.store.ttl = ttl
  maxEntry : σ.store.maxEntry = (Store.new sizeMb ttl).maxEntry
  empty : (Store.new sizeMb ttl).enabled = false → σ.store.Empty

theorem Configured.step {sizeMb : UInt64} {ttl : Duration} {σ σ' : World}
    (configured : Configured sizeMb ttl σ) (kept : Kept σ) (change : Change σ σ') :
    Configured sizeMb ttl σ' := by
  obtain ⟨⟨effects, -, writes⟩, -⟩ := kept.change change
  refine ⟨writes.ttl.trans configured.ttl_eq, writes.maxEntry.trans configured.maxEntry,
    fun disabled => writes.empty ?_ (configured.empty disabled)⟩
  rw [Store.enabled, configured.ttl_eq, configured.maxEntry]
  exact disabled

theorem kept_run [UriSyntax] {base : OriginUrl} {sizeMb : UInt64} {ttl : Duration}
    {events : List Event} {σ : World}
    (hrun : Runs.run (step base) (start sizeMb ttl) events = some σ) :
    Kept σ ∧ Configured sizeMb ttl σ :=
  Runs.invariant_run (I := fun σ => Kept σ ∧ Configured sizeMb ttl σ)
    (fun _ _ _ both h => ⟨both.1.step (step_cases h).2, both.2.step both.1 (step_cases h).2⟩)
    ⟨kept_start sizeMb ttl, rfl, rfl, fun _ => ⟨fun _ => rfl, fun _ => rfl⟩⟩ hrun

/-- Every allocation has one judgement. -/
theorem Kept.wrote_once {σ : World} (kept : Kept σ) {actor actor' : Actor}
    {judged judged' : Judgement} {ptr : Nat} (wrote : .wrote actor judged (some ptr) ∈ σ.log)
    (wrote' : .wrote actor' judged' (some ptr) ∈ σ.log) : actor' = actor ∧ judged' = judged := by
  have distinct : (σ.log.filterMap Effect.stored).Nodup := by
    rw [kept.numbered]
    exact List.nodup_range
  obtain ⟨rfl, rfl, -⟩ := Effect.wrote.inj (eq_of_filterMap_nodup distinct wrote' wrote rfl rfl)
  exact ⟨rfl, rfl⟩

/-- In every reachable world, every stored response is sound by the only
judgement it was stored by, and a store of size or lifetime 0 is empty. -/
theorem only_storable_is_kept [UriSyntax] {base : OriginUrl} {sizeMb : UInt64} {ttl : Duration}
    {events : List Event} {σ : World}
    (hrun : Runs.run (step base) (start sizeMb ttl) events = some σ) :
    (∀ key arc, σ.store.responseAt key = some arc → ∃ actor judged,
        (∀ actor' judged', .wrote actor' judged' (some arc.ptr) ∈ σ.log ↔
          actor' = actor ∧ judged' = judged) ∧
        Sound ttl (Store.new sizeMb ttl).maxEntry judged arc.val) ∧
      (sizeMb = 0 ∨ ttl = Duration.zero → σ.store.Empty) := by
  obtain ⟨kept, configured⟩ := kept_run hrun
  constructor
  · intro key arc here
    obtain ⟨actor, judged, wrote, sound⟩ := kept.stores key arc here
    rw [configured.ttl_eq, configured.maxEntry] at sound
    refine ⟨actor, judged, fun actor' judged' => ⟨kept.wrote_once wrote, ?_⟩, sound⟩
    rintro ⟨rfl, rfl⟩
    exact wrote
  · intro zero
    refine configured.empty ?_
    obtain rfl | rfl := zero
    · rfl
    · simp [Store.enabled, Store.new, Duration.isZero]

end World

end

/-! ## A run -/

namespace World

/-- A request misses, and the origin's answer is stored once its body has
ended. -/
def missEvents (head : Head) : List World.Event :=
  [.arrive 0 (germanRequest []), .look 0 exampleClock, .join 0, .look 0 exampleClock,
    .prepare 0 .ready, .answered 0 head exampleClock, .body 0 (.chunk [104, 105]) exampleClock,
    .body 0 .ended exampleClock]

set_option maxRecDepth 4000 in
theorem only_storable_is_kept_example : ∃ (_ : HttpDate) (_ : UriSyntax) (σ : World)
    (key : ResponseKey) (arc : Arc StoredResponse),
    Runs.run (step exampleOrigin) (start 1 (Duration.fromSecs 300))
        (missEvents ⟨.ok, byLanguage⟩) = some σ ∧
      σ.store.responseAt key = some arc ∧
      ∃ actor judged,
        (∀ actor' judged', .wrote actor' judged' (some arc.ptr) ∈ σ.log ↔
          actor' = actor ∧ judged' = judged) ∧
        Sound (Duration.fromSecs 300) (Store.new 1 (Duration.fromSecs 300)).maxEntry judged
          arc.val := by
  let dates : HttpDate := ⟨fun _ => none⟩
  let uris : UriSyntax := ⟨fun _ => true, fun _ => true⟩
  obtain ⟨σ, hrun, arc, stored⟩ : ∃ σ, Runs.run (step exampleOrigin)
      (start 1 (Duration.fromSecs 300)) (missEvents ⟨.ok, byLanguage⟩) = some σ ∧
        ∃ arc, σ.store.responseAt ⟨(germanRequest []).cacheKey, 0, [some "de".toList]⟩ =
          some arc :=
    ⟨_, rfl, _, rfl⟩
  exact ⟨dates, uris, σ, _, arc, hrun, stored, (only_storable_is_kept hrun).1 _ arc stored⟩

end World

end Shadowstep
