import JsonShapes.Run

/-!
# Runs that return and runs that fail

A run either returns a value or fails, and leaves a state in both cases. That a run made of parts
returns means that its parts do, one after the other, and that it fails means that one of them does
after those before it returned. What every part does to the state whether or not it fails, such as
never removing a file, the whole run does, and the whole run fails only as its parts do.
-/

namespace JsonShapes

section

variable {ε σ α β : Type} {s s' : σ}

theorem run_bind (x : ExceptT ε (StateM σ) α) (f : α → ExceptT ε (StateM σ) β) (s : σ) :
    (x >>= f).run.run s = ExceptT.bindCont f (x.run.run s).1 (x.run.run s).2 := rfl

theorem run_bind_ok {x : ExceptT ε (StateM σ) α} {a : α} (h : x.run.run s = (.ok a, s'))
    (f : α → ExceptT ε (StateM σ) β) : (x >>= f).run.run s = (f a).run.run s' := by
  rw [run_bind, h]
  rfl

theorem run_bind_error {x : ExceptT ε (StateM σ) α} {e : ε} (h : x.run.run s = (.error e, s'))
    (f : α → ExceptT ε (StateM σ) β) : (x >>= f).run.run s = (.error e, s') := by
  rw [run_bind, h]
  rfl

theorem run_get_bind (f : σ → ExceptT ε (StateM σ) β) (s : σ) :
    (get >>= f).run.run s = (f s).run.run s := rfl

theorem run_tryCatch_ok {x : ExceptT ε (StateM σ) α} {a : α} (h : x.run.run s = (.ok a, s'))
    (f : ε → ExceptT ε (StateM σ) α) : (tryCatch x f).run.run s = (.ok a, s') := by
  simp only [tryCatch, tryCatchThe, MonadExceptOf.tryCatch, ExceptT.tryCatch, ExceptT.run_mk,
    StateT.run_bind]
  rw [show StateT.run x s = _ from h]
  rfl

theorem run_tryCatch_error {x : ExceptT ε (StateM σ) α} {e : ε} (h : x.run.run s = (.error e, s'))
    (f : ε → ExceptT ε (StateM σ) α) : (tryCatch x f).run.run s = (f e).run.run s' := by
  simp only [tryCatch, tryCatchThe, MonadExceptOf.tryCatch, ExceptT.tryCatch, ExceptT.run_mk,
    StateT.run_bind]
  rw [show StateT.run x s = _ from h]
  rfl

/-- The computation, started in a state, returns a value and leaves a state. -/
def Returns (x : ExceptT ε (StateM σ) α) (s : σ) (a : α) (s' : σ) : Prop :=
  x.run.run s = (.ok a, s')

theorem Returns.unique {x : ExceptT ε (StateM σ) α} {a b : α} {s'' : σ} (h : Returns x s a s')
    (h' : Returns x s b s'') : b = a ∧ s'' = s' := by
  rw [Returns, show x.run.run s = _ from h] at h'
  cases h'
  exact ⟨rfl, rfl⟩

theorem returns_pure_iff {a b : α} :
    Returns (pure a : ExceptT ε (StateM σ) α) s b s' ↔ a = b ∧ s = s' := by
  change ((Except.ok a : Except ε α), s) = (.ok b, s') ↔ _
  rw [Prod.mk.injEq, Except.ok.injEq]

theorem not_returns_throw {e : ε} {a : α} :
    ¬Returns (throw e : ExceptT ε (StateM σ) α) s a s' := by
  intro h
  cases congrArg Prod.fst h

theorem toOption_eq_some_iff {outcome : Except ε α} {a : α} :
    outcome.toOption = some a ↔ outcome = .ok a := by
  cases outcome with
  | error e => simp [Except.toOption]
  | ok b => simp [Except.toOption]

theorem returns_of_toOption_eq_some {x : ExceptT ε (StateM σ) α} {a : α}
    (h : (x.run.run s).1.toOption = some a) : Returns x s a (x.run.run s).2 :=
  Prod.ext (toOption_eq_some_iff.mp h) rfl

/-- Two computations return one after the other. -/
theorem returns_bind_iff {x : ExceptT ε (StateM σ) α} {f : α → ExceptT ε (StateM σ) β} {b : β}
    {s'' : σ} :
    Returns (x >>= f) s b s'' ↔ ∃ a s', Returns x s a s' ∧ Returns (f a) s' b s'' := by
  constructor
  · intro h
    cases first : x.run.run s with
    | mk outcome middle =>
        cases outcome with
        | error e =>
            rw [Returns, run_bind_error first f] at h
            cases congrArg Prod.fst h
        | ok a =>
            rw [Returns, run_bind_ok first f] at h
            exact ⟨a, middle, first, h⟩
  · rintro ⟨a, middle, first, second⟩
    rw [Returns, run_bind_ok first f]
    exact second

theorem returns_forM_cons_iff {f : α → ExceptT ε (StateM σ) Unit} {a : α} {l : List α}
    {s'' : σ} :
    Returns ((a :: l).forM f) s () s'' ↔
      ∃ s', Returns (f a) s () s' ∧ Returns (l.forM f) s' () s'' := by
  rw [List.forM_eq_forM, List.forM_cons, returns_bind_iff]
  exact ⟨fun ⟨_, s', h⟩ => ⟨s', h⟩, fun ⟨s', h⟩ => ⟨(), s', h⟩⟩

theorem returns_forM_append_iff {f : α → ExceptT ε (StateM σ) Unit} {l m : List α} {s'' : σ} :
    Returns ((l ++ m).forM f) s () s'' ↔
      ∃ s', Returns (l.forM f) s () s' ∧ Returns (m.forM f) s' () s'' := by
  rw [List.forM_eq_forM, List.forM_append, returns_bind_iff]
  exact ⟨fun ⟨_, s', h⟩ => ⟨s', h⟩, fun ⟨s', h⟩ => ⟨(), s', h⟩⟩

/-- What every step keeps, the whole loop keeps. -/
theorem Returns.of_forM {P : σ → Prop} {f : α → ExceptT ε (StateM σ) Unit} {l : List α}
    (h : Returns (l.forM f) s () s')
    (step : ∀ a ∈ l, ∀ t t', Returns (f a) t () t' → P t → P t') (start : P s) : P s' := by
  induction l generalizing s with
  | nil =>
      obtain ⟨-, rfl⟩ := returns_pure_iff.mp h
      exact start
  | cons a l ih =>
      obtain ⟨middle, first, rest⟩ := returns_forM_cons_iff.mp h
      refine ih rest (fun b member => step b (List.mem_cons_of_mem a member)) ?_
      exact step a List.mem_cons_self s middle first start

/-- The computation, started in a state, fails with an error and leaves a state. -/
def Fails (x : ExceptT ε (StateM σ) α) (s : σ) (e : ε) (s' : σ) : Prop :=
  x.run.run s = (.error e, s')

theorem returns_or_fails (x : ExceptT ε (StateM σ) α) (s : σ) :
    (∃ a s', Returns x s a s') ∨ ∃ e s', Fails x s e s' := by
  cases eq : x.run.run s with
  | mk outcome s' =>
      cases outcome with
      | ok a => exact .inl ⟨a, s', eq⟩
      | error e => exact .inr ⟨e, s', eq⟩

theorem Returns.not_fails {x : ExceptT ε (StateM σ) α} {a : α} {e : ε} {s'' : σ}
    (h : Returns x s a s') : ¬Fails x s e s'' := by
  intro fails
  rw [Fails, show x.run.run s = _ from h] at fails
  cases congrArg Prod.fst fails

theorem Fails.unique {x : ExceptT ε (StateM σ) α} {e e' : ε} {s'' : σ} (h : Fails x s e s')
    (h' : Fails x s e' s'') : e' = e ∧ s'' = s' := by
  rw [Fails, show x.run.run s = _ from h] at h'
  cases h'
  exact ⟨rfl, rfl⟩

theorem fails_throw_iff {e e' : ε} :
    Fails (throw e : ExceptT ε (StateM σ) α) s e' s' ↔ e = e' ∧ s = s' := by
  change ((Except.error e : Except ε α), s) = (.error e', s') ↔ _
  rw [Prod.mk.injEq, Except.error.injEq]

/-- The first computation fails, or it returns and the second one fails. -/
theorem fails_bind_iff {x : ExceptT ε (StateM σ) α} {f : α → ExceptT ε (StateM σ) β} {e : ε}
    {s'' : σ} :
    Fails (x >>= f) s e s'' ↔
      Fails x s e s'' ∨ ∃ a s', Returns x s a s' ∧ Fails (f a) s' e s'' := by
  obtain ⟨a, middle, first⟩ | ⟨e', middle, first⟩ := returns_or_fails x s
  · rw [Fails, run_bind_ok first f]
    constructor
    · intro second
      exact .inr ⟨a, middle, first, second⟩
    · rintro (fails | ⟨b, middle', again, second⟩)
      · exact absurd fails first.not_fails
      · rw [Returns, show x.run.run s = _ from first] at again
        cases again
        exact second
  · rw [Fails, Fails, run_bind_error first f, show x.run.run s = _ from first]
    constructor
    · intro same
      cases same
      exact .inl rfl
    · rintro (same | ⟨b, middle', returns, -⟩)
      · cases same
        rfl
      · exact absurd first returns.not_fails

/-- All errors of the computation are of a kind. -/
def FailsOnly (E : ε → Prop) (x : ExceptT ε (StateM σ) α) : Prop :=
  ∀ s e s', Fails x s e s' → E e

section

variable {E : ε → Prop}

theorem FailsOnly.pure (a : α) : FailsOnly E (pure a : ExceptT ε (StateM σ) α) := by
  intro s e s' h
  cases congrArg Prod.fst h

theorem FailsOnly.throw {e : ε} (h : E e) :
    FailsOnly E (throw e : ExceptT ε (StateM σ) α) := by
  intro s e' s' fails
  rw [← (fails_throw_iff.mp fails).1]
  exact h

theorem FailsOnly.get : FailsOnly E (get : ExceptT ε (StateM σ) σ) := by
  intro s e s' h
  cases congrArg Prod.fst h

theorem FailsOnly.mono {E' : ε → Prop} {x : ExceptT ε (StateM σ) α} (h : FailsOnly E x)
    (weaker : ∀ e, E e → E' e) : FailsOnly E' x :=
  fun s e s' fails => weaker e (h s e s' fails)

theorem FailsOnly.bind {x : ExceptT ε (StateM σ) α} {f : α → ExceptT ε (StateM σ) β}
    (first : FailsOnly E x) (second : ∀ a, FailsOnly E (f a)) : FailsOnly E (x >>= f) := by
  intro s e s' h
  obtain fails | ⟨a, middle, -, fails⟩ := fails_bind_iff.mp h
  · exact first s e s' fails
  · exact second a middle e s' fails

theorem FailsOnly.tryCatch {x : ExceptT ε (StateM σ) α} {f : ε → ExceptT ε (StateM σ) α}
    (first : FailsOnly E x) (second : ∀ e, E e → FailsOnly E (f e)) :
    FailsOnly E (tryCatch x f) := by
  intro s e s' h
  obtain ⟨a, middle, returns⟩ | ⟨e', middle, fails⟩ := returns_or_fails x s
  · rw [Fails, run_tryCatch_ok returns f] at h
    cases congrArg Prod.fst h
  · rw [Fails, run_tryCatch_error fails f] at h
    exact second e' (first s e' middle fails) middle e s' h

theorem FailsOnly.forM {f : α → ExceptT ε (StateM σ) Unit} {l : List α}
    (step : ∀ a ∈ l, FailsOnly E (f a)) : FailsOnly E (l.forM f) := by
  induction l with
  | nil => exact .pure ()
  | cons a l ih =>
      rw [List.forall_mem_cons] at step
      rw [List.forM_eq_forM, List.forM_cons]
      exact .bind step.1 fun _ => ih step.2

end

/-- Whatever the outcome, the states before and after are related. -/
def Preserves (R : σ → σ → Prop) (x : ExceptT ε (StateM σ) α) : Prop :=
  ∀ s, R s (x.run.run s).2

variable {R : σ → σ → Prop}

theorem Returns.of_preserves {x : ExceptT ε (StateM σ) α} {a : α} (h : Returns x s a s')
    (preserves : Preserves R x) : R s s' := by
  have related := preserves s
  rwa [show x.run.run s = _ from h] at related

theorem Fails.of_preserves {x : ExceptT ε (StateM σ) α} {e : ε} (h : Fails x s e s')
    (preserves : Preserves R x) : R s s' := by
  have related := preserves s
  rwa [show x.run.run s = _ from h] at related

theorem Preserves.pure (refl : ∀ s, R s s) (a : α) :
    Preserves R (pure a : ExceptT ε (StateM σ) α) := refl

theorem Preserves.throw (refl : ∀ s, R s s) (e : ε) :
    Preserves R (throw e : ExceptT ε (StateM σ) α) := refl

theorem Preserves.get (refl : ∀ s, R s s) :
    Preserves R (get : ExceptT ε (StateM σ) σ) := refl

theorem Preserves.bind (trans : ∀ s t u, R s t → R t u → R s u)
    {x : ExceptT ε (StateM σ) α} {f : α → ExceptT ε (StateM σ) β} (first : Preserves R x)
    (second : ∀ a, Preserves R (f a)) : Preserves R (x >>= f) := by
  intro s
  have before := first s
  cases eq : x.run.run s with
  | mk outcome middle =>
      rw [eq] at before
      cases outcome with
      | error e => rwa [run_bind_error eq f]
      | ok a =>
          rw [run_bind_ok eq f]
          exact trans _ _ _ before (second a middle)

theorem Preserves.tryCatch (trans : ∀ s t u, R s t → R t u → R s u)
    {x : ExceptT ε (StateM σ) α} {f : ε → ExceptT ε (StateM σ) α} (first : Preserves R x)
    (second : ∀ e, Preserves R (f e)) : Preserves R (tryCatch x f) := by
  intro s
  have before := first s
  cases eq : x.run.run s with
  | mk outcome middle =>
      rw [eq] at before
      cases outcome with
      | ok a => rwa [run_tryCatch_ok eq f]
      | error e =>
          rw [run_tryCatch_error eq f]
          exact trans _ _ _ before (second e middle)

theorem Preserves.forM (refl : ∀ s, R s s) (trans : ∀ s t u, R s t → R t u → R s u)
    {f : α → ExceptT ε (StateM σ) Unit} {l : List α} (step : ∀ a ∈ l, Preserves R (f a)) :
    Preserves R (l.forM f) := by
  induction l with
  | nil => exact .pure refl ()
  | cons a l ih =>
      rw [List.forall_mem_cons] at step
      rw [List.forM_eq_forM, List.forM_cons]
      exact .bind trans step.1 fun _ => ih step.2

end

end JsonShapes
