import Shadowstep.Proxy.Calls

/-!
# After an unsafe request

A `PUT` or `POST` that the origin has accepted removes what is stored for its
URI (RFC 9111 section 4.4). The proxy may be in the middle of anything then:
other requests hold stale entries, wait for a leader, copy a body or revalidate
in the background. None of this brings back what was removed, unless the origin
says so in a 304 or in a whole answer.

This is about calls on the store that do not overlap, as all of `World` is. An
`insert_response` that has read the index record before the removal, and writes
it back after, does bring back what was removed; that is the matter of
`Cache.Invalidation`.

* `World.Rewritten` — stored by a call since;
* `World.accepted_change_is_seen` — what the answers for that URI show from
  then on.
-/

namespace Shadowstep

open Rust Generations

theorem Store.view_of_unindexed {store : Store} {primary : PrimaryKey}
    (gone : store.index primary = none) : store.table.view primary = none := by
  simp [Table.view, Store.table, gone]

section

variable [HttpDate]

/-- A response to an unsafe request is not stored, and what was stored for the
URI is gone. -/
theorem Exchange.forwarded_of_unsafe (exchange : Exchange) (id : Nat) (store : Store)
    {req : HttpRequest} {head : Head} (isUnsafe : req.method.isSafe = false)
    (accepted : (head.status.isSuccess || head.status.isRedirection) = true) (now : Clock) :
    (exchange.forwarded id store req head now).store = store.invalidate req.cacheKey := by
  have unplanned : (storePlan (.request id) store req head now).1 = none := by
    cases planned : (storePlan (.request id) store req head now).1 with
    | none => rfl
    | some storing =>
        have mine := (storePlan_calls (A := fun _ _ => True) (.request id) store req head now).2
          storing planned
        obtain ⟨directives, lifetime, kept⟩ := storable_spec mine.verdict
        have isGet := (mayStore_spec kept.mayStore).isGet
        rw [mine.request] at isGet
        rw [isGet] at isUnsafe
        cases isUnsafe
  have removed : (storePlan (.request id) store req head now).2.1 =
      store.invalidate req.cacheKey := by
    unfold storePlan
    simp [isUnsafe, accepted]
  have untouched (store : Store) : (clientResponse id store head none now).2.1 = store := by
    unfold clientResponse Tee.new Tee.finish
    simp only [Option.filter_none, Option.map_none]
    split <;> rfl
  unfold Exchange.forwarded
  simp only [unplanned, Option.map_none]
  rw [untouched, removed]

namespace World

/-- Stored for this URI by a call that is in the log since. -/
def Rewritten (σ : World) (since : Nat) (primary : PrimaryKey) (arc : Arc StoredResponse) : Prop :=
  ∃ actor judged, .wrote actor judged (some arc.ptr) ∈ σ.log.drop since ∧
    σ.asked actor = some judged.request ∧ judged.request.cacheKey = primary

/-- A request like this one holds the response while it is at the origin. -/
def HeldBy (σ : World) (req : HttpRequest) (arc : Arc StoredResponse) : Prop :=
  ∃ id request entry, σ.requests id = some request ∧ request.req = req ∧
    request.stage.stale = some entry ∧ entry.response = arc

variable {before σ σ' : World} {primary : PrimaryKey}

omit [HttpDate] in
theorem Rewritten.mono {since : Nat} {arc : Arc StoredResponse} {effects : List Effect}
    (h : σ.Rewritten since primary arc) (log : σ'.log = σ.log ++ effects)
    (asked : ∀ actor req, σ.asked actor = some req → σ'.asked actor = some req) :
    σ'.Rewritten since primary arc := by
  obtain ⟨actor, judged, wrote, asks, key⟩ := h
  refine ⟨actor, judged, ?_, asked actor _ asks, key⟩
  rw [log, List.drop_append]
  exact List.mem_append_left _ wrote

/-- What a lookup finds for the URI from now on. The generation numbers must not
run out. -/
def Since (before : World) (primary : PrimaryKey) (σ : World) (req : HttpRequest)
    (arc : Arc StoredResponse) : Prop :=
  req.cacheKey = primary → σ.store.arcs ≤ 2 ^ 64 → σ.Rewritten before.log.length primary arc

/-- The invariant: what was stored for the URI before has been removed. -/
structure Renewed (before : World) (primary : PrimaryKey) (σ : World) : Prop where
  called : Called σ
  unspawned : Unspawned σ
  log : before.log.length ≤ σ.log.length
  store : σ.store.arcs ≤ 2 ^ 64 → σ.store.table.view.All fun p _ _ arc =>
    p = primary → σ.Rewritten before.log.length primary arc
  shown : Shown (Since before primary σ)
    (fun req arc => Since before primary σ req arc ∨ before.HeldBy req arc)
    before.answers.length σ

variable [UriSyntax] {base : OriginUrl} {event : Event}

theorem Renewed.step (renewed : Renewed before primary σ) (h : World.step base σ event = some σ') :
    Renewed before primary σ' := by
  obtain ⟨-, change⟩ := step_cases h
  obtain ⟨-, happens⟩ := happens_of_step h
  obtain ⟨judging, effects, log, calls⟩ := renewed.called.judging.change change
  obtain ⟨taken, counts⟩ := renewed.called.counts
  have asked (actor : Actor) (req : HttpRequest) (asks : σ.asked actor = some req) :
      σ'.asked actor = some req := happens.asked renewed.unspawned asks
  have mono {arc : Arc StoredResponse} (old : σ.Rewritten before.log.length primary arc) :
      σ'.Rewritten before.log.length primary arc := old.mono log asked
  have later {req : HttpRequest} {arc : Arc StoredResponse} (old : Since before primary σ req arc) :
      Since before primary σ' req arc :=
    fun key few => mono (old key (calls.arcs_le.trans few))
  have shown : Shown (Since before primary σ')
      (fun req arc => Since before primary σ' req arc ∨ before.HeldBy req arc)
      before.answers.length σ :=
    renewed.shown.mono (fun _ _ => later) fun _ _ held => held.imp_left later
  refine
    { called := renewed.called.change change
      unspawned := renewed.unspawned.step happens
      log := by rw [log, List.length_append]; exact renewed.log.trans (Nat.le_add_right _ _)
      store := fun few => ?_
      shown := shown.change change (fun store req entry loses found key few => ?_)
        fun _ _ => .inl }
  · have all := renewed.store (calls.arcs_le.trans few)
    refine calls.all counts few (all.mono fun p _ _ arc old same => mono (old same)) ?_
    intro actor judged policy vary arc wrote _ asks _ same
    refine ⟨actor, judged, ?_, asks, same⟩
    rw [log, List.drop_append_of_le_length renewed.log]
    exact List.mem_append_right _ wrote
  · obtain ⟨names, old⟩ := Store.all_found (renewed.store (calls.arcs_le.trans few)) loses found
    exact mono (old key)

/-- The answer of the origin removes what was stored. -/
theorem Renewed.accepted {id : Nat} {request : Request} {head : Head} {now : Clock}
    (called : Called σ) (unspawned : Unspawned σ) (here : σ.requests id = some request)
    (isUnsafe : request.req.method.isSafe = false)
    (accepted : (head.status.isSuccess || head.status.isRedirection) = true)
    (h : World.step base σ (.answered id head now) = some σ') :
    (∀ req : HttpRequest, req.cacheKey = request.req.cacheKey →
        σ'.store.find req.cacheKey req.headers = none) ∧
      Renewed σ request.req.cacheKey σ' := by
  obtain ⟨-, change⟩ := step_cases h
  obtain ⟨-, happens⟩ := happens_of_step h
  have called' := called.change change
  have unspawned' := unspawned.step happens
  cases happens with
  | @answered _ _ _ request' exchange later there stage =>
      obtain rfl := Option.some.inj (here.symm.trans there)
      -- the request holds nothing, for its method
      have bare : exchange.stale = none := by
        cases stale : exchange.stale with
        | none => rfl
        | some entry =>
            have mine := called.judging.requests id request here
            have isGet := mine.isGet entry (by rw [stage]; exact stale)
            rw [isGet] at isUnsafe
            cases isUnsafe
      have forwarded : exchange.answered id (σ.tick now.instant).store request.req head now =
          exchange.forwarded id (σ.tick now.instant).store request.req head now := by
        unfold Exchange.answered
        rw [bare]
      rw [forwarded] at called' unspawned' ⊢
      have store := exchange.forwarded_of_unsafe id (σ.tick now.instant).store isUnsafe accepted now
      have gone : ((σ.tick now.instant).settle id request.req
          (exchange.forwarded id (σ.tick now.instant).store request.req head now)).store.index
            request.req.cacheKey = none := by
        show (exchange.forwarded _ _ _ _ _).store.index _ = none
        rw [store]
        exact Function.update_self ..
      refine ⟨fun req key => ?_, called', unspawned', ?_, fun _ => ?_, ?_⟩
      · rw [key]
        unfold Store.find
        rw [gone]
        rfl
      · obtain ⟨sent, log, -⟩ := settle_log (σ.tick now.instant) id request.req
          (exchange.forwarded id (σ.tick now.instant).store request.req head now)
        rw [log, List.append_assoc, List.length_append]
        exact Nat.le_add_right _ _
      · intro p names group live v arc record same
        subst same
        rw [Store.view_of_unindexed gone] at live
        cases live
      · refine Shown.settle (σ := σ) ⟨fun other held entry h stale => ?_, fun given there => ?_⟩
          rfl rfl (fun _ h => by cases h) fun answer h => ?_
        · exact .inr ⟨other, held, entry, h, rfl, stale, rfl⟩
        · rw [List.drop_length] at there
          cases there
        · cases h
          trivial

/-- Once the origin has accepted an unsafe request nothing is stored for its
URI. From then on, as long as calls on the store do not overlap, a lookup for
the URI finds only what has been written for it since, by a request or a task
that acts for it. An older response is left only to who has held it before, for
an origin that fails or says that it is still good. -/
theorem accepted_change_is_seen {sizeMb : UInt64} {ttl : Duration} {events later : List Event}
    {σ σ₁ σ₂ : World} {id : Nat} {request : Request} {head : Head} {now : Clock}
    (hrun : Runs.run (World.step base) (start sizeMb ttl) events = some σ)
    (here : σ.requests id = some request) (isUnsafe : request.req.method.isSafe = false)
    (accepted : (head.status.isSuccess || head.status.isRedirection) = true)
    (hstep : World.step base σ (.answered id head now) = some σ₁)
    (hrun' : Runs.run (World.step base) σ₁ later = some σ₂) (few : σ₂.store.arcs ≤ 2 ^ 64) :
    (∀ req : HttpRequest, req.cacheKey = request.req.cacheKey →
        σ₁.store.find req.cacheKey req.headers = none) ∧
      ∀ given ∈ σ₂.answers.drop σ.answers.length, given.req.cacheKey = request.req.cacheKey →
        given.cause.Shows (σ₂.Rewritten σ.log.length request.req.cacheKey) fun arc =>
          σ₂.Rewritten σ.log.length request.req.cacheKey arc ∨ σ.HeldBy given.req arc := by
  have unspawned : Unspawned σ :=
    Runs.invariant_run (fun _ _ _ unspawned h => unspawned.step (happens_of_step h).2)
      (Unspawned.start sizeMb ttl) hrun
  obtain ⟨gone, renewed⟩ :=
    Renewed.accepted (called_run hrun) unspawned here isUnsafe accepted hstep
  refine ⟨gone, fun given there key => ?_⟩
  have renewed : Renewed σ request.req.cacheKey σ₂ :=
    Runs.invariant_run (fun _ _ _ renewed h => renewed.step h) renewed hrun'
  refine (renewed.shown.answers given there).mono (fun arc since => since key few) ?_
  exact fun arc held => held.imp_left fun since => since key few

end World

end

namespace World

/-- The request with a method that may change what it names. -/
def changingRequest : HttpRequest := { germanRequest [] with method := .put }

/-- A response is stored, and then a `PUT` for its URI is on its way to the
origin. -/
def changeEvents : List Event :=
  missEvents ⟨.ok, byLanguage⟩ ++ [.arrive 1 changingRequest, .look 1 exampleClock, .join 1,
    .prepare 1 .ready]

/-- One request gets the new response from the origin, another one from the
cache. -/
def seenEvents : List Event :=
  [.arrive 2 (germanRequest []), .look 2 exampleClock, .join 2, .look 2 exampleClock,
    .prepare 2 .ready, .answered 2 ⟨.ok, byLanguage⟩ exampleClock,
    .body 2 (.chunk [104, 111]) exampleClock, .body 2 .ended exampleClock,
    .arrive 3 (germanRequest []), .look 3 exampleClock]

theorem accepted_change_is_seen_example : ∃ (_ : HttpDate) (_ : UriSyntax) (σ σ₁ σ₂ : World)
    (given : Given),
    Runs.run (step exampleOrigin) (start 1 (Duration.fromSecs 300)) changeEvents = some σ ∧
      step exampleOrigin σ (.answered 1 ⟨.ok, []⟩ exampleClock) = some σ₁ ∧
      Runs.run (step exampleOrigin) σ₁ seenEvents = some σ₂ ∧
      given ∈ σ₂.answers.drop σ.answers.length ∧
      given.cause.stored.map StoredResponse.body = some [104, 111] ∧
      given.cause.Shows (σ₂.Rewritten σ.log.length changingRequest.cacheKey) fun arc =>
        σ₂.Rewritten σ.log.length changingRequest.cacheKey arc ∨ σ.HeldBy given.req arc := by
  let dates : HttpDate := ⟨fun _ => none⟩
  let uris : UriSyntax := ⟨fun _ => true, fun _ => true⟩
  have evaluated : ((Runs.run (step exampleOrigin) (start 1 (Duration.fromSecs 300))
      changeEvents).bind fun σ => (step exampleOrigin σ (.answered 1 ⟨.ok, []⟩ exampleClock)).bind
        fun σ₁ => (Runs.run (step exampleOrigin) σ₁ seenEvents).map fun σ₂ =>
          ((σ.requests 1).any fun request =>
              !request.req.method.isSafe && request.req.cacheKey == changingRequest.cacheKey) &&
            σ₂.store.arcs == 2 &&
            ((σ₂.answers.drop σ.answers.length)[2]?).any fun given =>
              given.req.cacheKey == changingRequest.cacheKey &&
                given.cause.stored.map StoredResponse.body == some [104, 111]) = some true := by
    decide +kernel
  obtain ⟨σ, hrun, evaluated⟩ := Option.bind_eq_some_iff.mp evaluated
  obtain ⟨σ₁, hstep, evaluated⟩ := Option.bind_eq_some_iff.mp evaluated
  obtain ⟨σ₂, hrun', evaluated⟩ := Option.map_eq_some_iff.mp evaluated
  simp only [Bool.and_eq_true, Bool.not_eq_true', beq_iff_eq, Option.any_eq_true] at evaluated
  obtain ⟨⟨⟨request, here, isUnsafe, key⟩, arcs⟩, given, last, same, body⟩ := evaluated
  have there := List.mem_of_getElem? last
  have seen := (accepted_change_is_seen hrun here isUnsafe rfl hstep hrun'
    (by rw [arcs]; decide)).2 given there (same.trans key.symm)
  rw [key] at seen
  exact ⟨dates, uris, σ, σ₁, σ₂, given, hrun, hstep, hrun', there, body, seen⟩

end World

end Shadowstep
