import Mathlib.Logic.Function.Basic
import Mathlib.Order.Basic

/-!
# Runs of a deterministic machine

A machine is a partial step function: `step s e = none` when the event `e`
cannot happen in the state `s`. `run` takes a list of events, so every
interleaving of a concurrent system is one such list, with an event naming
the process that moves.

* `invariant_run` — what every step preserves, every run preserves;
* `invariant_along` — the same for the runs whose steps all meet a
  condition, which may read the state before each step;
* `invariant_history` — the same for an invariant that reads the events so
  far;
* `along_iff` — two conditions that come to the same along a run;
* `exists_viewed_run` — a run seen as a run of another machine;
* `projected_run` — the same when the other machine's events are known from
  the events of the run;
* `run_length_le` — a measure bounds the length of a run;
* `run_count_le` — a measure bounds how often some events happen;
* `exists_run_of_progress` — a state is reached when each step towards it can
  be taken;
* `related_run` — two runs over the same events stay related when each
  single step keeps them so.
-/

namespace Runs

variable {σ τ ε : Type*}

/-- The state after a list of events, when all of them can happen. -/
def run (step : σ → ε → Option σ) : σ → List ε → Option σ
  | s, [] => some s
  | s, e :: rest => (step s e).bind fun s' => run step s' rest

/-- Every step of the run meets `P` in the state it starts from. -/
def Along (step : σ → ε → Option σ) (P : σ → ε → Prop) : σ → List ε → Prop
  | _, [] => True
  | s, e :: rest => P s e ∧ ∀ s', step s e = some s' → Along step P s' rest

variable {step : σ → ε → Option σ} {P Q : σ → ε → Prop}

@[simp] theorem run_nil (s : σ) : run step s [] = some s := rfl

theorem run_cons {s s' : σ} {e : ε} {rest : List ε} :
    run step s (e :: rest) = some s' ↔
      ∃ next, step s e = some next ∧ run step next rest = some s' := by
  simp [run, Option.bind_eq_some_iff]

theorem along_cons {s next : σ} {e : ε} {rest : List ε} (h : step s e = some next) :
    Along step P s (e :: rest) ↔ P s e ∧ Along step P next rest := by
  simp [Along, h]

/-- Whether a run meets a decidable condition can be evaluated. -/
def decidableAlong (step : σ → ε → Option σ) (P : σ → ε → Prop) [∀ s e, Decidable (P s e)] :
    (s : σ) → (events : List ε) → Decidable (Along step P s events)
  | _, [] => isTrue trivial
  | s, e :: rest =>
    match h : step s e with
    | none => decidable_of_iff (P s e) (by simp [Along, h])
    | some next =>
      have := decidableAlong step P next rest
      decidable_of_iff (P s e ∧ Along step P next rest) (along_cons h).symm

instance [∀ s e, Decidable (P s e)] (s : σ) (events : List ε) :
    Decidable (Along step P s events) :=
  decidableAlong step P s events

theorem run_append {s s' : σ} {first second : List ε} :
    run step s (first ++ second) = some s' ↔
      ∃ middle, run step s first = some middle ∧ run step middle second = some s' := by
  induction first generalizing s with
  | nil => simp
  | cons e rest ih =>
      rw [List.cons_append, run_cons]
      constructor
      · rintro ⟨next, hstep, hrun⟩
        obtain ⟨middle, hfirst, hsecond⟩ := ih.mp hrun
        exact ⟨middle, run_cons.mpr ⟨next, hstep, hfirst⟩, hsecond⟩
      · rintro ⟨middle, hfirst, hsecond⟩
        obtain ⟨next, hstep, hrest⟩ := run_cons.mp hfirst
        exact ⟨next, hstep, ih.mpr ⟨middle, hrest, hsecond⟩⟩

theorem run_snoc {s s' : σ} {events : List ε} {e : ε} :
    run step s (events ++ [e]) = some s' ↔
      ∃ middle, run step s events = some middle ∧ step middle e = some s' := by
  simp [run_append, run_cons]

theorem along_append {s : σ} {first second : List ε} :
    Along step P s (first ++ second) ↔ Along step P s first ∧
      ∀ middle, run step s first = some middle → Along step P middle second := by
  induction first generalizing s with
  | nil => simp [Along]
  | cons e rest ih =>
      simp only [List.cons_append, Along, ih]
      constructor
      · rintro ⟨now, later⟩
        refine ⟨⟨now, fun s' hstep => (later s' hstep).1⟩, ?_⟩
        intro middle hrun
        obtain ⟨next, hstep, hrest⟩ := run_cons.mp hrun
        exact (later next hstep).2 middle hrest
      · rintro ⟨⟨now, later⟩, final⟩
        exact ⟨now, fun s' hstep => ⟨later s' hstep,
          fun middle hrun => final middle (run_cons.mpr ⟨s', hstep, hrun⟩)⟩⟩

theorem Along.mono (weaker : ∀ s e, P s e → Q s e) {s : σ} {events : List ε}
    (h : Along step P s events) : Along step Q s events := by
  induction events generalizing s with
  | nil => trivial
  | cons e rest ih => exact ⟨weaker s e h.1, fun s' hstep => ih (h.2 s' hstep)⟩

theorem Along.and {s : σ} {events : List ε} (h : Along step P s events)
    (h' : Along step Q s events) : Along step (fun s e => P s e ∧ Q s e) s events := by
  induction events generalizing s with
  | nil => trivial
  | cons e rest ih =>
      exact ⟨⟨h.1, h'.1⟩, fun s' hstep => ih (h.2 s' hstep) (h'.2 s' hstep)⟩

/-- What every step that meets the condition preserves holds at the end of
every run whose steps all meet it. -/
theorem invariant_along {I : σ → Prop}
    (preserved : ∀ s e s', I s → P s e → step s e = some s' → I s')
    {s s' : σ} {events : List ε} (start : I s) (along : Along step P s events)
    (hrun : run step s events = some s') : I s' := by
  induction events generalizing s with
  | nil =>
      obtain rfl := Option.some.inj hrun
      exact start
  | cons e rest ih =>
      obtain ⟨next, hstep, hrest⟩ := run_cons.mp hrun
      exact ih (preserved s e next start along.1 hstep) (along.2 next hstep) hrest

/-- Two conditions that say the same where an invariant holds are met along
the same runs, when the second keeps the invariant. -/
theorem along_iff {I : σ → Prop} (same : ∀ s e, I s → (P s e ↔ Q s e))
    (preserved : ∀ s e s', I s → Q s e → step s e = some s' → I s') {s : σ} {events : List ε}
    (start : I s) : Along step P s events ↔ Along step Q s events := by
  induction events generalizing s with
  | nil => exact Iff.rfl
  | cons e rest ih =>
      simp only [Along, same s e start]
      exact and_congr_right fun now => forall_congr' fun s' => imp_congr_right fun hstep =>
        ih (preserved s e s' start now hstep)

/-- What every step preserves holds at the end of every run. -/
theorem invariant_run {I : σ → Prop} (preserved : ∀ s e s', I s → step s e = some s' → I s')
    {s s' : σ} {events : List ε} (start : I s) (hrun : run step s events = some s') : I s' := by
  induction events generalizing s with
  | nil =>
      obtain rfl := Option.some.inj hrun
      exact start
  | cons e rest ih =>
      obtain ⟨next, hstep, hrest⟩ := run_cons.mp hrun
      exact ih (preserved s e next start hstep) hrest

/-- An invariant that speaks of the events so far holds at the end of every
run. -/
theorem invariant_history {I : List ε → σ → Prop} {s s' : σ} {events : List ε} (start : I [] s)
    (preserved : ∀ before e middle next, run step s before = some middle → I before middle →
      step middle e = some next → I (before ++ [e]) next)
    (hrun : run step s events = some s') : I events s' := by
  -- from every point of the run on, for the events that are left
  have onward : ∀ rest before middle, run step s before = some middle → I before middle →
      run step middle rest = some s' → I (before ++ rest) s' := by
    intro rest
    induction rest with
    | nil =>
        intro before middle _ inv hrest
        obtain rfl := Option.some.inj hrest
        rwa [List.append_nil]
    | cons e rest ih =>
        intro before middle hbefore inv hrest
        obtain ⟨next, hstep, hrest⟩ := run_cons.mp hrest
        rw [List.append_cons]
        exact ih (before ++ [e]) next (run_snoc.mpr ⟨middle, hbefore, hstep⟩)
          (preserved before e middle next hbefore inv hstep) hrest
  exact onward events [] s rfl start hrun

/-- A state that the run passes through. -/
def Moment (step : σ → ε → Option σ) (s : σ) (events : List ε) (m : σ) : Prop :=
  ∃ first second, events = first ++ second ∧ run step s first = some m

theorem Moment.snoc {s m : σ} {events : List ε} (h : Moment step s events m) (e : ε) :
    Moment step s (events ++ [e]) m := by
  obtain ⟨first, second, rfl, hrun⟩ := h
  exact ⟨first, second ++ [e], List.append_assoc .., hrun⟩

theorem Moment.last {s s' : σ} {events : List ε} (hrun : run step s events = some s') :
    Moment step s events s' :=
  ⟨events, [], (List.append_nil _).symm, hrun⟩

/-- A moment of a longer run is its end or a moment before. -/
theorem Moment.snoc_cases {s s' m : σ} {events : List ε} {e : ε}
    (hrun : run step s (events ++ [e]) = some s') (h : Moment step s (events ++ [e]) m) :
    m = s' ∨ Moment step s events m := by
  obtain ⟨first, second, split, hfirst⟩ := h
  obtain rfl | ⟨before, last, rfl⟩ := List.eq_nil_or_concat second
  · rw [List.append_nil] at split
    subst split
    exact .inl (Option.some.inj (hfirst.symm.trans hrun))
  · rw [List.concat_eq_append, ← List.append_assoc] at split
    obtain ⟨rfl, -⟩ := List.append_inj' split rfl
    exact .inr ⟨first, before, rfl, hfirst⟩

/-- A machine whose steps are, in a view of its states, at most one step of
another machine each: its run is a run of that machine, and what that run
passes through is seen on the way. -/
theorem exists_viewed_run {ε' : Type*} {step' : τ → ε' → Option τ} {view : σ → τ} {I : σ → Prop}
    (preserved : ∀ s e s', I s → step s e = some s' → I s')
    (viewed : ∀ s e s', I s → step s e = some s' →
      view s' = view s ∨ ∃ e', step' (view s) e' = some (view s'))
    {s s' : σ} {events : List ε} (start : I s) (hrun : run step s events = some s') :
    ∃ events', run step' (view s) events' = some (view s') ∧
      ∀ t, Moment step' (view s) events' t → ∃ m, Moment step s events m ∧ view m = t := by
  refine (invariant_history (I := fun events s' => I s' ∧ ∃ events',
    run step' (view s) events' = some (view s') ∧
      ∀ t, Moment step' (view s) events' t → ∃ m, Moment step s events m ∧ view m = t)
    ⟨start, [], rfl, fun t h => ?_⟩ ?_ hrun).2
  · obtain ⟨first, second, split, hfirst⟩ := h
    obtain ⟨rfl, -⟩ := List.append_eq_nil_iff.mp split.symm
    exact ⟨s, .last rfl, Option.some.inj hfirst⟩
  · rintro before e middle next hbefore ⟨inv, events', hrun', moments⟩ hstep
    have earlier : ∀ t, Moment step' (view s) events' t →
        ∃ m, Moment step s (before ++ [e]) m ∧ view m = t := by
      intro t h
      obtain ⟨m, hm, same⟩ := moments t h
      exact ⟨m, hm.snoc e, same⟩
    refine ⟨preserved middle e next inv hstep, ?_⟩
    obtain same | ⟨e', hstep'⟩ := viewed middle e next inv hstep
    · exact ⟨events', by rw [same, hrun'], earlier⟩
    · have hrun'' : run step' (view s) (events' ++ [e']) = some (view next) :=
        run_snoc.mpr ⟨view middle, hrun', hstep'⟩
      refine ⟨events' ++ [e'], hrun'', fun t h => ?_⟩
      obtain rfl | h := Moment.snoc_cases hrun'' h
      · exact ⟨next, .last (run_snoc.mpr ⟨middle, hbefore, hstep⟩), rfl⟩
      · exact earlier t h

/-- A machine whose steps are, in a view of its states, the step of another
machine for the event's projection, if it has one: its run is the run over the
projected events, whatever the others are. -/
theorem projected_run {ε' : Type*} {step' : τ → ε' → Option τ} (view : σ → τ)
    (project : ε → Option ε') {I : σ → Prop} {Q : ε → Prop}
    (preserved : ∀ s e s', I s → Q e → step s e = some s' → I s')
    (viewed : ∀ s e s', I s → Q e → step s e = some s' →
      run step' (view s) (project e).toList = some (view s'))
    {s s' : σ} {events : List ε} (start : I s) (allowed : ∀ e ∈ events, Q e)
    (hrun : run step s events = some s') :
    run step' (view s) (events.filterMap project) = some (view s') := by
  induction events generalizing s with
  | nil =>
      obtain rfl := Option.some.inj hrun
      rfl
  | cons e rest ih =>
      obtain ⟨next, hstep, hrest⟩ := run_cons.mp hrun
      have now : Q e := allowed e (List.mem_cons_self ..)
      have tail := ih (preserved s e next start now hstep)
        (fun e' h => allowed e' (List.mem_cons_of_mem _ h)) hrest
      have split : (e :: rest).filterMap project =
          (project e).toList ++ rest.filterMap project := by
        cases h : project e <;> simp [h]
      rw [split]
      exact run_append.mpr ⟨view next, viewed s e next start now hstep, tail⟩

/-- A run takes no more steps than a measure that every step lowers allows. -/
theorem run_length_le {measure : σ → Nat}
    (lowers : ∀ s e s', step s e = some s' → measure s' < measure s) {s s' : σ} {events : List ε}
    (hrun : run step s events = some s') : events.length + measure s' ≤ measure s := by
  induction events generalizing s with
  | nil =>
      obtain rfl := Option.some.inj hrun
      simp
  | cons e rest ih =>
      obtain ⟨next, hstep, hrest⟩ := run_cons.mp hrun
      have lower := lowers s e next hstep
      have tail := ih hrest
      rw [List.length_cons]
      omega

/-- Events that lower a measure which no event raises do not happen more often
than it allows. -/
theorem run_count_le (I : σ → Prop) (measure : σ → Nat) (counted : ε → Bool)
    (preserved : ∀ s e s', I s → step s e = some s' → I s')
    (lowers : ∀ s e s', I s → step s e = some s' →
      measure s' + (if counted e then 1 else 0) ≤ measure s)
    {s s' : σ} {events : List ε} (start : I s) (hrun : run step s events = some s') :
    events.countP counted + measure s' ≤ measure s := by
  induction events generalizing s with
  | nil =>
      obtain rfl := Option.some.inj hrun
      simp
  | cons e rest ih =>
      obtain ⟨next, hstep, hrest⟩ := run_cons.mp hrun
      have lower := lowers s e next start hstep
      have tail := ih (preserved s e next start hstep) hrest
      rw [List.countP_cons]
      omega

/-- Where every state that is not yet good has an allowed step that lowers the
measure, allowed steps lead to a good state. -/
theorem exists_run_of_progress (measure : σ → Nat) (I good : σ → Prop) {allowed : ε → Prop}
    (progress : ∀ s, I s → good s ∨ ∃ e s', allowed e ∧ step s e = some s' ∧
      measure s' < measure s ∧ (good s' ∨ I s'))
    {s : σ} (start : I s) : ∃ events s', events.length ≤ measure s ∧ (∀ e ∈ events, allowed e) ∧
      run step s events = some s' ∧ good s' := by
  induction h : measure s using Nat.strongRecOn generalizing s with
  | ind n ih =>
      subst h
      obtain arrived | ⟨e, next, mine, hstep, lower, arrived | onward⟩ := progress s start
      · exact ⟨[], s, Nat.zero_le _, fun _ h => (by cases h), rfl, arrived⟩
      · refine ⟨[e], next, Nat.one_le_of_lt lower, ?_, run_cons.mpr ⟨next, hstep, rfl⟩, arrived⟩
        intro other h
        rw [List.mem_singleton.mp h]
        exact mine
      · obtain ⟨rest, s', short, theirs, hrun, arrived⟩ := ih (measure next) lower onward rfl
        refine ⟨e :: rest, s', ?_, ?_, run_cons.mpr ⟨next, hstep, hrun⟩, arrived⟩
        · rw [List.length_cons]
          omega
        · intro other h
          obtain rfl | later := List.mem_cons.mp h
          · exact mine
          · exact theirs other later

/-- After a step of one process, every other process stands where it stood. -/
theorem update_cases {ι α : Type*} [DecidableEq ι] {f : ι → Option α} {id other : ι}
    {a there : α} (h : Function.update f id (some a) other = some there) :
    other = id ∧ there = a ∨ other ≠ id ∧ f other = some there := by
  by_cases same : other = id
  · subst same
    rw [Function.update_self] at h
    exact .inl ⟨rfl, (Option.some.inj h).symm⟩
  · rw [Function.update_of_ne same] at h
    exact .inr ⟨same, h⟩

/-- Two runs over the same events stay related. -/
theorem related_run {step' : τ → ε → Option τ} {P' : τ → ε → Prop} {R : σ → τ → Prop}
    (preserved : ∀ s t e s' t', R s t → P s e → P' t e → step s e = some s' →
      step' t e = some t' → R s' t')
    {s s' : σ} {t t' : τ} {events : List ε} (start : R s t) (along : Along step P s events)
    (along' : Along step' P' t events) (hrun : run step s events = some s')
    (hrun' : run step' t events = some t') : R s' t' := by
  induction events generalizing s t with
  | nil =>
      obtain rfl := Option.some.inj hrun
      obtain rfl := Option.some.inj hrun'
      exact start
  | cons e rest ih =>
      obtain ⟨next, hstep, hrest⟩ := run_cons.mp hrun
      obtain ⟨next', hstep', hrest'⟩ := run_cons.mp hrun'
      exact ih (preserved s t e next next' start along.1 along'.1 hstep hstep')
        (along.2 next hstep) (along'.2 next' hstep') hrest hrest'

end Runs
