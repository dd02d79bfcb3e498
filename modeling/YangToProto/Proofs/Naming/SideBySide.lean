import YangToProto.Proofs.Naming.Steps

/-!
# Steps side by side

The same steps are taken from two registries that are related in some way. They keep in step if
they come to outcomes that are alike, values that are related or the same error, and to registries
that are related again (`Lockstep`). There is one rule for each way to put steps together.
-/

namespace YangToProto

/-- Both outcomes are values that are related, or they are the same error. -/
inductive Alike {ε α : Type} (R : α → α → Prop) : Except ε α → Except ε α → Prop where
  | ok {value other : α} (h : R value other) : Alike R (.ok value) (.ok other)
  | error (fault : ε) : Alike R (.error fault) (.error fault)

section Outcomes

variable {ε α β : Type} {R : α → α → Prop} {S : β → β → Prop}

theorem Alike.map {outcome other : Except ε α} (h : Alike R outcome other) {f g : α → β}
    (hfg : ∀ a b, R a b → S (f a) (g b)) : Alike S (outcome.map f) (other.map g) := by
  cases h with
  | ok hvalue => exact .ok (hfg _ _ hvalue)
  | error fault => exact .error fault

theorem Alike.imp {R' : α → α → Prop} {outcome other : Except ε α} (h : Alike R outcome other)
    (himp : ∀ a b, R a b → R' a b) : Alike R' outcome other := by
  cases h with
  | ok hvalue => exact .ok (himp _ _ hvalue)
  | error fault => exact .error fault

theorem Alike.refl (outcome : Except ε α) : Alike Eq outcome outcome := by
  cases outcome with
  | ok value => exact .ok rfl
  | error fault => exact .error fault

theorem Alike.mapError {ε' : Type} {outcome other : Except ε α} (h : Alike R outcome other)
    (f : ε → ε') : Alike R (outcome.mapError f) (other.mapError f) := by
  cases h with
  | ok hvalue => exact .ok hvalue
  | error fault => exact .error (f fault)

end Outcomes

/-- From related registries two steps come to outcomes that are alike, and to registries that are
related again. -/
structure Lockstep {ε α : Type} (I : Registry → Registry → Prop) (R : α → α → Prop)
    (step step' : ExceptT ε (StateM Registry) α) : Prop where
  run : ∀ {registry other : Registry}, I registry other →
    Alike R (step registry).1 (step' other).1 ∧ I (step registry).2 (step' other).2

namespace Lockstep

variable {ε α β : Type} {I : Registry → Registry → Prop} {R : α → α → Prop} {S : β → β → Prop}

theorem pure {value other : α} (h : R value other) :
    Lockstep I R (pure value : ExceptT ε (StateM Registry) α) (pure other) where
  run := fun hrelated => ⟨.ok h, hrelated⟩

theorem throw (fault : ε) :
    Lockstep I R (throw fault : ExceptT ε (StateM Registry) α) (throw fault) where
  run := fun hrelated => ⟨.error fault, hrelated⟩

theorem lift_except {outcome other : Except ε α} (h : Alike R outcome other) :
    Lockstep I R (liftM outcome : ExceptT ε (StateM Registry) α) (liftM other) where
  run := fun hrelated => ⟨h, hrelated⟩

theorem bind {step step' : ExceptT ε (StateM Registry) α}
    {next next' : α → ExceptT ε (StateM Registry) β} (h : Lockstep I R step step')
    (h' : ∀ value other, R value other → Lockstep I S (next value) (next' other)) :
    Lockstep I S (step >>= next) (step' >>= next') := by
  refine ⟨fun {registry other} hrelated => ?_⟩
  obtain ⟨houtcome, hafter⟩ := h.run hrelated
  rw [bind_apply, bind_apply]
  cases hrun : step registry with
  | mk outcome after =>
      cases hrun' : step' other with
      | mk outcome' ended =>
          rw [hrun, hrun'] at houtcome hafter
          cases houtcome with
          | ok hvalue => exact (h' _ _ hvalue).run hafter
          | error fault => exact ⟨.error fault, hafter⟩

theorem drafting {step step' : Naming α} (h : Lockstep I R step step') :
    Lockstep I R step.drafting step'.drafting where
  run := fun hrelated => by
    obtain ⟨houtcome, hafter⟩ := h.run hrelated
    exact ⟨houtcome.mapError _, hafter⟩

end Lockstep

/-- Values of which nothing is said. -/
def Unrelated {α : Type} (_ _ : α) : Prop := True

end YangToProto
