/-!
# Running stateful steps

The equations that run a computation with a state that may fail. What it leaves in the state stays
there when it fails. A step `Moves` along a relation if every run of it leads from a state to a
related one, and it `Reads` if every run leaves the state as it is.
-/

namespace YangToProto

variable {ε σ α β : Type}

theorem bind_apply (step : ExceptT ε (StateM σ) α) (next : α → ExceptT ε (StateM σ) β)
    (state : σ) :
    (step >>= next) state =
      match step state with
      | (.ok value, after) => next value after
      | (.error fault, after) => (.error fault, after) := by
  change (match step state with | (outcome, after) => ExceptT.bindCont next outcome after) = _
  obtain ⟨outcome, after⟩ := step state
  cases outcome with
  | ok value => rfl
  | error fault => rfl

theorem run_bind {step : ExceptT ε (StateM σ) α} {next : α → ExceptT ε (StateM σ) β}
    {state middle : σ} {value : α} (h : step state = (.ok value, middle)) :
    (step >>= next) state = next value middle := by
  rw [bind_apply, h]

/-- A composed step succeeds if both parts do, the second where the first one ended. -/
theorem bind_eq_ok {step : ExceptT ε (StateM σ) α} {next : α → ExceptT ε (StateM σ) β}
    {state after : σ} {result : β} (h : (step >>= next) state = (.ok result, after)) :
    ∃ value middle, step state = (.ok value, middle) ∧
      next value middle = (.ok result, after) := by
  rw [bind_apply] at h
  split at h
  · rename_i value middle hstep
    exact ⟨value, middle, hstep, h⟩
  · cases h

theorem pure_eq_ok {value result : α} {state after : σ}
    (h : (pure value : ExceptT ε (StateM σ) α) state = (.ok result, after)) :
    value = result ∧ state = after := by
  cases h
  exact ⟨rfl, rfl⟩

theorem throw_ne_ok {fault : ε} {result : α} {state after : σ} :
    (throw fault : ExceptT ε (StateM σ) α) state ≠ (.ok result, after) := by
  intro h
  cases h

theorem lift_state_apply (step : StateM σ α) (state : σ) :
    (liftM step : ExceptT ε (StateM σ) α) state = (.ok (step state).1, (step state).2) := rfl

theorem lift_state_eq_ok {step : StateM σ α} {state after : σ} {result : α}
    (h : (liftM step : ExceptT ε (StateM σ) α) state = (.ok result, after)) :
    step state = (result, after) := by
  rw [lift_state_apply] at h
  cases h
  rfl

theorem lift_except_eq_ok {outcome : Except ε α} {state after : σ} {result : α}
    (h : (liftM outcome : ExceptT ε (StateM σ) α) state = (.ok result, after)) :
    outcome = .ok result ∧ state = after := by
  change (outcome, state) = _ at h
  cases h
  exact ⟨rfl, rfl⟩

theorem exists_eq_ok_of_isSome {outcome : Except ε α} (h : outcome.toOption.isSome = true) :
    ∃ value, outcome = .ok value := by
  cases outcome with
  | ok value => exact ⟨value, rfl⟩
  | error fault => cases h

theorem eq_ok_of_toOption {outcome : Except ε α} {value : α} (h : outcome.toOption = some value) :
    outcome = .ok value := by
  cases outcome with
  | ok found =>
      cases h
      rfl
  | error fault => cases h

theorem adapt_apply {ε' : Type} (fault : ε → ε') (step : ExceptT ε (StateM σ) α) (state : σ) :
    (step.adapt fault) state = ((step state).1.mapError fault, (step state).2) := rfl

theorem adapt_eq_ok {ε' : Type} {fault : ε → ε'} {step : ExceptT ε (StateM σ) α}
    {state after : σ} {result : α} (h : (step.adapt fault) state = (.ok result, after)) :
    step state = (.ok result, after) := by
  rw [adapt_apply] at h
  cases hstep : step state with
  | mk outcome ended =>
      rw [hstep] at h
      cases outcome with
      | ok value =>
          cases h
          rfl
      | error fault => cases h

/-- Whatever comes out of the step, it leads from a state to a related one. -/
def Moves (r : σ → σ → Prop) (step : ExceptT ε (StateM σ) α) : Prop :=
  ∀ state, r state (step state).2

namespace Moves

variable {r : σ → σ → Prop}

theorem pure (hrefl : ∀ state, r state state) (value : α) :
    Moves r (pure value : ExceptT ε (StateM σ) α) := hrefl

theorem throw (hrefl : ∀ state, r state state) (fault : ε) :
    Moves r (throw fault : ExceptT ε (StateM σ) α) := hrefl

theorem bind (htrans : ∀ first second third, r first second → r second third → r first third)
    {step : ExceptT ε (StateM σ) α} {next : α → ExceptT ε (StateM σ) β} (h : Moves r step)
    (h' : ∀ value, Moves r (next value)) : Moves r (step >>= next) := by
  intro state
  have hstep := h state
  rw [bind_apply]
  cases hrun : step state with
  | mk outcome middle =>
      rw [hrun] at hstep
      cases outcome with
      | ok value => exact htrans _ _ _ hstep (h' value middle)
      | error fault => exact hstep

theorem foldlM (hrefl : ∀ state, r state state)
    (htrans : ∀ first second third, r first second → r second third → r first third)
    {step : α → β → ExceptT ε (StateM σ) α} (h : ∀ value item, Moves r (step value item))
    (items : List β) (value : α) : Moves r (items.foldlM step value) := by
  induction items generalizing value with
  | nil => exact pure hrefl value
  | cons item rest ih =>
      rw [List.foldlM_cons]
      exact bind htrans (h value item) ih

theorem mapM (hrefl : ∀ state, r state state)
    (htrans : ∀ first second third, r first second → r second third → r first third)
    {step : α → ExceptT ε (StateM σ) β} (h : ∀ item, Moves r (step item)) (items : List α) :
    Moves r (items.mapM step) := by
  induction items with
  | nil => exact pure hrefl []
  | cons item rest ih =>
      rw [List.mapM_cons]
      exact bind htrans (h item) fun _ => bind htrans ih fun _ => pure hrefl _

end Moves

/-- Whatever comes out of the step, it leaves the state as it is. -/
abbrev Reads (step : ExceptT ε (StateM σ) α) : Prop := Moves (fun state after => after = state) step

namespace Reads

theorem pure (value : α) : Reads (pure value : ExceptT ε (StateM σ) α) := fun _ => rfl

theorem throw (fault : ε) : Reads (throw fault : ExceptT ε (StateM σ) α) := fun _ => rfl

theorem lift_except (outcome : Except ε α) : Reads (liftM outcome : ExceptT ε (StateM σ) α) :=
  fun _ => rfl

theorem lift_state {step : StateM σ α} (h : ∀ state, (step state).2 = state) :
    Reads (liftM step : ExceptT ε (StateM σ) α) := h

theorem bind {step : ExceptT ε (StateM σ) α} {next : α → ExceptT ε (StateM σ) β} (h : Reads step)
    (h' : ∀ value, Reads (next value)) : Reads (step >>= next) :=
  Moves.bind (r := fun state after => after = state)
    (fun _ _ _ hfirst hsecond => hsecond.trans hfirst) h h'

theorem tryCatch {step : ExceptT ε (StateM σ) α} {handle : ε → ExceptT ε (StateM σ) α}
    (h : Reads step) (h' : ∀ fault, Reads (handle fault)) : Reads (tryCatch step handle) := by
  intro state
  have hstep := h state
  change (match step state with
    | (outcome, after) => (match outcome with
      | .ok value => Pure.pure (.ok value)
      | .error fault => handle fault : StateM σ (Except ε α)) after).2 = state
  cases hrun : step state with
  | mk outcome after =>
      rw [hrun] at hstep
      cases hstep
      cases outcome with
      | ok value => rfl
      | error fault => exact h' fault _

theorem mapM {step : α → ExceptT ε (StateM σ) β} (h : ∀ item, Reads (step item))
    (items : List α) : Reads (items.mapM step) :=
  Moves.mapM (r := fun state after => after = state) (fun _ => rfl)
    (fun _ _ _ hfirst hsecond => hsecond.trans hfirst) h items

end Reads

end YangToProto
