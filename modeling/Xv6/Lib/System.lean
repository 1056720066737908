import Mathlib

/-!
Contract: executable labelled transition systems and the induction rules every
run-level result of the development is derived from.
-/

namespace Xv6.Lib

universe u v

/-! Threads of small systems are numerals of `Fin`. -/

instance neZeroOne : NeZero 1 := ⟨by decide⟩

instance neZeroTwo : NeZero 2 := ⟨by decide⟩

instance neZeroThree : NeZero 3 := ⟨by decide⟩

section

variable {State : Type u} {guard : Prop} {decided : Decidable guard} {next after : State}

/-- What a guarded step says. -/
theorem of_guard (stepped : (if guard then some next else none) = some after) : guard ∧ next = after := by
  obtain ⟨holds, same⟩ := Option.ite_none_right_eq_some.mp stepped
  exact ⟨holds, Option.some.inj same⟩

theorem of_guard_not (stepped : (if guard then none else some next) = some after) : ¬ guard ∧ next = after := by
  obtain ⟨fails, same⟩ := Option.ite_none_left_eq_some.mp stepped
  exact ⟨fails, Option.some.inj same⟩

end

/-- A transition system. `next s label` is `none` when `label` is not enabled
in `s`. -/
structure System (State : Type u) (Label : Type v) where
  next : State → Label → Option State

namespace System

variable {State : Type u} {Label : Type v} (system : System State Label)

/-- Take the steps `labels` one after another. -/
def run : State → List Label → Option State
  | state, [] => some state
  | state, label :: rest => (system.next state label).bind fun after => run after rest

/-- Every step of the run `labels` from `state` meets `condition`, a predicate
of the state before the step and of the step. -/
def Meets (condition : State → Label → Prop) : State → List Label → Prop
  | _, [] => True
  | state, label :: rest =>
    condition state label ∧ ∀ after, system.next state label = some after →
      Meets condition after rest

instance decidableMeets (condition : State → Label → Prop)
    [∀ state label, Decidable (condition state label)] :
    ∀ state labels, Decidable (system.Meets condition state labels)
  | _, [] => isTrue trivial
  | state, label :: rest =>
    match stepped : system.next state label with
    | none => decidable_of_iff (condition state label) (by simp [Meets, stepped])
    | some after =>
      have := decidableMeets condition after rest
      decidable_of_iff (condition state label ∧ system.Meets condition after rest)
        (by simp [Meets, stepped])

@[simp] theorem run_nil (state : State) : system.run state [] = some state := rfl

variable {state final : State}

theorem run_cons_eq_some {label : Label} {rest : List Label} :
    system.run state (label :: rest) = some final ↔
      ∃ after, system.next state label = some after ∧ system.run after rest = some final := by
  simp only [run, Option.bind_eq_some_iff]

theorem run_append (state : State) (first second : List Label) :
    system.run state (first ++ second) =
      (system.run state first).bind fun middle => system.run middle second := by
  induction first generalizing state with
  | nil => rfl
  | cons label rest ih =>
    simp only [List.cons_append, run, Option.bind_assoc]
    congr 1
    funext after
    exact ih after

theorem run_append_eq_some {first second : List Label} :
    system.run state (first ++ second) = some final ↔
      ∃ middle, system.run state first = some middle ∧
        system.run middle second = some final := by
  rw [run_append, Option.bind_eq_some_iff]

/-- The states a run can end in. -/
def Reaches (state final : State) : Prop :=
  ∃ labels, system.run state labels = some final

theorem Reaches.refl (state : State) : system.Reaches state state := ⟨[], rfl⟩

variable {system}

theorem Reaches.tail {middle : State} {label : Label} (reached : system.Reaches state middle)
    (stepped : system.next middle label = some final) :
    system.Reaches state final := by
  obtain ⟨labels, ran⟩ := reached
  refine ⟨labels ++ [label], system.run_append_eq_some.mpr ⟨middle, ran, ?_⟩⟩
  simp [run, stepped]

/-- The invariant rule: what every step preserves, every run preserves. -/
theorem run_preserves (Inv : State → Prop)
    (preserved : ∀ state label after, Inv state → system.next state label = some after → Inv after)
    {labels : List Label} (holds : Inv state) (ran : system.run state labels = some final) :
    Inv final := by
  induction labels generalizing state with
  | nil =>
    simp only [run_nil, Option.some.injEq] at ran
    exact ran ▸ holds
  | cons label rest ih =>
    obtain ⟨after, stepped, rests⟩ := system.run_cons_eq_some.mp ran
    exact ih (preserved state label after holds stepped) rests

theorem Reaches.preserves (Inv : State → Prop)
    (preserved : ∀ state label after, Inv state → system.next state label = some after → Inv after)
    (holds : Inv state) (reached : system.Reaches state final) :
    Inv final := by
  obtain ⟨labels, ran⟩ := reached
  exact run_preserves Inv preserved holds ran

/-- The invariant rule for runs whose steps all meet a condition. -/
theorem run_preserves_of_meets (Inv : State → Prop) {condition : State → Label → Prop}
    (preserved : ∀ state label after, Inv state → condition state label → system.next state label = some after → Inv after)
    {labels : List Label} (holds : Inv state) (meets : system.Meets condition state labels)
    (ran : system.run state labels = some final) : Inv final := by
  induction labels generalizing state with
  | nil =>
    simp only [run_nil, Option.some.injEq] at ran
    exact ran ▸ holds
  | cons label rest ih =>
    obtain ⟨after, stepped, rests⟩ := system.run_cons_eq_some.mp ran
    exact ih (preserved state label after holds meets.1 stepped)
      (meets.2 after stepped) rests

end System

/-- A simulation: `abstraction` maps every step of the concrete system to a
step of the abstract one or to no step at all. -/
structure Simulation {State State' : Type u} {Label Label' : Type v}
    (concrete : System State Label) (abstract : System State' Label') where
  abstraction : State → State'
  simulates : ∀ state label after, concrete.next state label = some after →
    abstraction after = abstraction state ∨
      ∃ label', abstract.next (abstraction state) label' = some (abstraction after)

namespace Simulation

variable {State State' : Type u} {Label Label' : Type v}
  {concrete : System State Label} {abstract : System State' Label'}

/-- Reachability carries over along a simulation. -/
theorem reaches (simulation : Simulation concrete abstract) {state final : State}
    (reached : concrete.Reaches state final) :
    abstract.Reaches (simulation.abstraction state) (simulation.abstraction final) := by
  refine System.Reaches.preserves
    (fun current => abstract.Reaches (simulation.abstraction state) (simulation.abstraction current))
    ?_ (System.Reaches.refl _ _) reached
  intro before label after holds stepped
  rcases simulation.simulates before label after stepped with same | ⟨label', abstractStep⟩
  · exact same ▸ holds
  · exact holds.tail abstractStep

end Simulation

end Xv6.Lib
