import Shadowstep.Proxy.Calls

/-!
# Whose response an answer shows

A stored response answers other clients than the one it was stored for. What
they have in common are the URI and the request fields that the response names
in `Vary`, as it was when it was last stored or freshened.

* `World.Matches` — last written for a request with the same selecting fields;
* `World.variants_match` — every answer from the cache shows such a response.
-/

namespace Shadowstep

open Rust Generations

namespace World

/-- The response was written under these names and values. -/
def WrittenUnder (σ : World) (primary : PrimaryKey) (values : VaryValues)
    (arc : Arc StoredResponse) (names : List HeaderName) : Prop :=
  ∃ actor judged, .wrote actor judged (some arc.ptr) ∈ σ.log ∧
    σ.asked actor = some judged.request ∧ judged.request.cacheKey = primary ∧
    varyNames judged.fields = some names ∧ varyValues names judged.request.headers = values

/-- The call that wrote the response was made for a request to the same URI with
the same values of the fields that its `Vary` names. -/
def Matches (σ : World) (req : HttpRequest) (arc : Arc StoredResponse) : Prop :=
  ∃ names, σ.WrittenUnder req.cacheKey (varyValues names req.headers) arc names

variable {σ σ' : World} {effects : List Effect}

theorem WrittenUnder.mono {primary : PrimaryKey} {values : VaryValues} {arc : Arc StoredResponse}
    {names : List HeaderName} (h : σ.WrittenUnder primary values arc names)
    (log : σ'.log = σ.log ++ effects)
    (asked : ∀ actor req, σ.asked actor = some req → σ'.asked actor = some req) :
    σ'.WrittenUnder primary values arc names := by
  obtain ⟨actor, judged, wrote, asks, key, same⟩ := h
  refine ⟨actor, judged, ?_, asked actor _ asks, key, same⟩
  rw [log]
  exact List.mem_append_left _ wrote

theorem Matches.mono {req : HttpRequest} {arc : Arc StoredResponse} (h : σ.Matches req arc)
    (log : σ'.log = σ.log ++ effects)
    (asked : ∀ actor req, σ.asked actor = some req → σ'.asked actor = some req) :
    σ'.Matches req arc := by
  obtain ⟨names, written⟩ := h
  exact ⟨names, written.mono log asked⟩

/-- Until the generation numbers run out. -/
def Matching (σ : World) (req : HttpRequest) (arc : Arc StoredResponse) : Prop :=
  σ.store.arcs ≤ 2 ^ 64 → σ.Matches req arc

variable [HttpDate]

/-- The invariant: a response is found by the names and values it was written
under. -/
structure Selected (σ : World) : Prop where
  called : Called σ
  unspawned : Unspawned σ
  store : σ.store.arcs ≤ 2 ^ 64 → σ.store.table.view.All fun primary names values arc =>
    σ.WrittenUnder primary values arc names
  shown : Shown (Matching σ) (Matching σ) 0 σ

theorem Selected.start (sizeMb : UInt64) (ttl : Duration) : Selected (start sizeMb ttl) where
  called := called_start sizeMb ttl
  unspawned := .start sizeMb ttl
  store _ _ _ _ live := by cases live
  shown := ⟨fun _ _ _ h => (by cases h), fun _ h => (by cases h)⟩

variable [UriSyntax] {base : OriginUrl} {event : Event}

theorem Selected.step (selected : Selected σ) (h : World.step base σ event = some σ') :
    Selected σ' := by
  obtain ⟨-, change⟩ := step_cases h
  obtain ⟨-, happens⟩ := happens_of_step h
  obtain ⟨judging, effects, log, calls⟩ := selected.called.judging.change change
  obtain ⟨taken, counts⟩ := selected.called.counts
  have asked (actor : Actor) (req : HttpRequest) (asks : σ.asked actor = some req) :
      σ'.asked actor = some req := happens.asked selected.unspawned asks
  have later (req : HttpRequest) (arc : Arc StoredResponse) (old : Matching σ req arc) :
      Matching σ' req arc :=
    fun few => (old (calls.arcs_le.trans few)).mono log asked
  refine
    { called := selected.called.change change
      unspawned := selected.unspawned.step happens
      store := fun few => ?_
      shown := (selected.shown.mono later later).change change
        (fun store req entry loses found few => ?_) fun _ _ => id }
  · have all := selected.store (calls.arcs_le.trans few)
    refine calls.all counts few (all.mono fun _ _ _ _ old => old.mono log asked) ?_
    intro actor judged policy vary arc wrote _ asks verdict
    obtain ⟨directives, lifetime, accepted⟩ := storable_spec verdict
    refine ⟨actor, judged, ?_, asks, rfl, accepted.names, accepted.values.symm⟩
    rw [log]
    exact List.mem_append_right _ wrote
  · have written : σ.Matches req entry.response :=
      Store.all_found (selected.store (calls.arcs_le.trans few)) loses found
    exact written.mono log asked

/-- In every run an answer from the cache shows a response that was last written
for a request to the same URI with the same selecting fields, by somebody who
acts for that request. -/
theorem variants_match {sizeMb : UInt64} {ttl : Duration} {events : List Event} {σ : World}
    (hrun : Runs.run (World.step base) (start sizeMb ttl) events = some σ)
    (few : σ.store.arcs ≤ 2 ^ 64) :
    ∀ given ∈ σ.answers, given.cause.Shows (σ.Matches given.req) (σ.Matches given.req) := by
  have selected : Selected σ :=
    Runs.invariant_run (fun _ _ _ selected h => selected.step h) (.start sizeMb ttl) hrun
  intro given there
  refine (selected.shown.answers given there).mono ?_ ?_ <;> exact fun arc shown => shown few

end World

namespace World

theorem variants_match_example : ∃ (_ : HttpDate) (_ : UriSyntax) (σ : World) (given : Given),
    Runs.run (step exampleOrigin) (start 1 (Duration.fromSecs 300)) hitEvents = some σ ∧
      given ∈ σ.answers ∧ given.cause.stored.map StoredResponse.body = some [104, 105] ∧
      given.cause.Shows (σ.Matches given.req) (σ.Matches given.req) := by
  let dates : HttpDate := ⟨fun _ => none⟩
  let uris : UriSyntax := ⟨fun _ => true, fun _ => true⟩
  have evaluated : ((Runs.run (step exampleOrigin) (start 1 (Duration.fromSecs 300))
      hitEvents).map fun σ => σ.store.arcs == 1 && (σ.answers[1]?).any fun given =>
        given.cause.stored.map StoredResponse.body == some [104, 105]) = some true := by
    decide +kernel
  obtain ⟨σ, hrun, evaluated⟩ := Option.map_eq_some_iff.mp evaluated
  simp only [Bool.and_eq_true, beq_iff_eq, Option.any_eq_true] at evaluated
  obtain ⟨arcs, given, last, body⟩ := evaluated
  have there := List.mem_of_getElem? last
  have few : σ.store.arcs ≤ 2 ^ 64 := by
    rw [arcs]
    decide
  exact ⟨dates, uris, σ, given, hrun, there, body, variants_match hrun few given there⟩

end World

end Shadowstep
