import Mathlib

/-!
Contract: sequential programs over a state that return a value or halt with an
error, and weakest preconditions for them.

A program that halts keeps the state in which it did. `wp program post halts s`
says that the program started in `s` ends in a value and a state that meet `post`,
or halts with an error and a state that meet `halts`.
-/

namespace Xv6.Lib

/-- A program over states `State` that returns a `Value` or halts with an
`Error`. -/
def Prog (State Error Value : Type) := State → Except Error Value × State

namespace Prog

variable {State Inner Error Value Result Item : Type}

instance : Monad (Prog State Error) where
  pure value s := (.ok value, s)
  bind program rest s :=
    match program s with
    | (.ok value, after) => rest value after
    | (.error error, after) => (.error error, after)

def get : Prog State Error State := fun s => (.ok s, s)

def modify (change : State → State) : Prog State Error Unit := fun s => (.ok (), change s)

def halt (error : Error) : Prog State Error Value := fun s => (.error error, s)

/-- Run a program on a part of the state. -/
def focus (view : State → Inner) (put : Inner → State → State)
    (program : Prog Inner Error Value) : Prog State Error Value := fun s =>
  let ran := program (view s)
  (ran.1, put ran.2 s)

def forEach (body : Item → Prog State Error Unit) : List Item → Prog State Error Unit
  | [] => pure ()
  | item :: rest => do
    body item
    forEach body rest

/-- Run `body` for each item in turn, as long as it succeeds. -/
def forAll (body : Item → Prog State Error Bool) : List Item → Prog State Error Bool
  | [] => pure true
  | item :: rest => do
    let done ← body item
    if done then forAll body rest else pure false

variable {program : Prog State Error Value} {rest : Value → Prog State Error Result} {s after final : State}
  {value : Value} {result : Result}

theorem bind_eq : (program >>= rest) s =
    match program s with
    | (.ok value, after) => rest value after
    | (.error error, after) => (.error error, after) := rfl

theorem bind_ran (ran : program s = (.ok value, after)) : (program >>= rest) s = rest value after := by
  rw [bind_eq, ran]

theorem ran_of_toOption (returns : (program s).1.toOption = some value) :
    program s = (.ok value, (program s).2) := by
  cases first : program s with
  | mk outcome after =>
    rw [first] at returns
    cases outcome with
    | ok value => rw [Option.some.inj returns]
    | error error => cases returns

/-- The two halves of a sequence that returned. -/
theorem of_bind_ran (ran : (program >>= rest) s = (.ok result, final)) :
    ∃ value after, program s = (.ok value, after) ∧ rest value after = (.ok result, final) := by
  rw [bind_eq] at ran
  split at ran
  · rename_i value after first
    exact ⟨value, after, first, ran⟩
  · cases ran

end Prog

section

variable {State Inner Error Value Result Item : Type}

def wp (program : Prog State Error Value) (post : Value → State → Prop)
    (halts : Error → State → Prop) (s : State) : Prop :=
  match program s with
  | (.ok value, after) => post value after
  | (.error error, after) => halts error after

variable {halts : Error → State → Prop} {s : State}

variable {program : Prog State Error Value} {post : Value → State → Prop}

theorem wp.mono {post' : Value → State → Prop} (holds : wp program post halts s)
    (weaker : ∀ value after, post value after → post' value after) :
    wp program post' halts s := by
  unfold wp at holds ⊢
  split at holds
  · rename_i value after ran
    exact weaker value after holds
  · exact holds

/-- A program that returns has run. -/
theorem wp.ran (holds : wp program post halts s) :
    wp program (fun value after => post value after ∧ program s = (.ok value, after)) halts s := by
  unfold wp at holds ⊢
  split at holds
  · rename_i value after ran
    exact ⟨holds, ran⟩
  · exact holds

theorem wp.of_ran (holds : wp program post halts s) {value : Value} {after : State}
    (ran : program s = (.ok value, after)) : post value after := by
  unfold wp at holds
  rw [ran] at holds
  exact holds

theorem wp.always {holds : State → Prop} (always : wp program (fun _ => holds) (fun _ => holds) s) :
    holds (program s).2 := by
  unfold wp at always
  split at always
  · rename_i ran
    exact ran ▸ always
  · rename_i ran
    exact ran ▸ always

/-- A program that never halts returns. -/
theorem wp.returns (holds : wp program post (fun _ _ => False) s) :
    ∃ value after, program s = (.ok value, after) ∧ post value after := by
  unfold wp at holds
  split at holds
  · rename_i value after ran
    exact ⟨value, after, ran, holds⟩
  · exact absurd holds id

@[simp] theorem wp_pure {value : Value} :
    wp (pure value) post halts s ↔ post value s := Iff.rfl

@[simp] theorem wp_bind {rest : Value → Prog State Error Result} {post : Result → State → Prop} :
    wp (program >>= rest) post halts s ↔
      wp program (fun value after => wp (rest value) post halts after) halts s := by
  unfold wp
  rw [Prog.bind_eq]
  cases ran : program s with
  | mk result after =>
    cases result with
    | ok value => exact Iff.rfl
    | error error => exact Iff.rfl

theorem wp.bind {rest : Value → Prog State Error Result} {post' : Result → State → Prop}
    (holds : wp program post halts s)
    (then_ : ∀ value after, post value after → wp (rest value) post' halts after) :
    wp (program >>= rest) post' halts s :=
  wp_bind.mpr (holds.mono then_)

@[simp] theorem wp_get {post : State → State → Prop} :
    wp Prog.get post halts s ↔ post s s := Iff.rfl

@[simp] theorem wp_modify {change : State → State} {post : Unit → State → Prop} :
    wp (Prog.modify change) post halts s ↔ post () (change s) := Iff.rfl

@[simp] theorem wp_halt {error : Error} :
    wp (Prog.halt error) post halts s ↔ halts error s := Iff.rfl

theorem wp_ite {condition : Prop} [Decidable condition] {first second : Prog State Error Value} :
    wp (if condition then first else second) post halts s ↔
      (condition → wp first post halts s) ∧ (¬ condition → wp second post halts s) := by
  split
  · rename_i holds
    simp [holds]
  · rename_i fails
    simp [fails]

theorem wp_focus {view : State → Inner} {put : Inner → State → State}
    {program : Prog Inner Error Value} :
    wp (Prog.focus view put program) post halts s ↔
      wp program (fun value inner => post value (put inner s))
        (fun error inner => halts error (put inner s)) (view s) := by
  unfold wp Prog.focus
  generalize program (view s) = ran
  obtain ⟨result, inner⟩ := ran
  cases result with
  | ok value => exact Iff.rfl
  | error error => exact Iff.rfl

/-- The rule for `forEach`: `Inv done s` holds after the items `done`. -/
theorem wp_forEach {body : Item → Prog State Error Unit} (Inv : List Item → State → Prop)
    {items : List Item}
    (kept : ∀ done item rest s, items = done ++ item :: rest → Inv done s →
      wp (body item) (fun _ after => Inv (done ++ [item]) after) halts s)
    (starts : Inv [] s) :
    wp (Prog.forEach body items) (fun _ after => Inv items after) halts s := by
  have general : ∀ (rest done : List Item) (s : State), items = done ++ rest → Inv done s →
      wp (Prog.forEach body rest) (fun _ after => Inv items after) halts s := by
    intro rest
    induction rest with
    | nil =>
      intro done s split holds
      rw [List.append_nil] at split
      exact split ▸ holds
    | cons item rest ih =>
      intro done s split holds
      rw [Prog.forEach]
      apply (kept done item rest s split holds).bind
      intro _ after holdsAfter
      exact ih (done ++ [item]) after (by simp [split]) holdsAfter
  exact general items [] s rfl starts

/-- The rule for `forAll`: `Inv done s` holds after `body` has succeeded for the items `done`. -/
theorem wp_forAll {body : Item → Prog State Error Bool} {post : Bool → State → Prop}
    (Inv : List Item → State → Prop) {items : List Item}
    (kept : ∀ done item rest s, items = done ++ item :: rest → Inv done s →
      wp (body item) (fun succeeded after => if succeeded then Inv (done ++ [item]) after else post false after)
        halts s)
    (starts : Inv [] s) (ends : ∀ after, Inv items after → post true after) :
    wp (Prog.forAll body items) post halts s := by
  have general : ∀ (rest done : List Item) (s : State), items = done ++ rest → Inv done s →
      wp (Prog.forAll body rest) post halts s := by
    intro rest
    induction rest with
    | nil =>
      intro done s split holds
      rw [List.append_nil] at split
      exact ends s (split ▸ holds)
    | cons item rest ih =>
      intro done s split holds
      rw [Prog.forAll]
      apply (kept done item rest s split holds).bind
      intro succeeded after outcome
      cases succeeded with
      | false => exact outcome
      | true => exact ih (done ++ [item]) after (by simp [split]) outcome
  exact general items [] s rfl starts

end

end Xv6.Lib
