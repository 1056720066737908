import Xv6.Lib.System

/-!
Contract: threads that share a state and run code made of atomic operations, and a logic
for what each of them may do.

Code asks for one operation after another and goes on with the answers. A thread that has
no code is idle and can start a call. In the logic every thread has a ghost, which only
its own operations change: `pre op ghost post` says that a thread with `ghost` may ask for
`op`, and that any answer leaves it with a ghost that `post` allows. `Rel` ties the shared
state to the ghosts of all threads. If every operation keeps `Rel` and every call obeys the
logic, `Rel` holds in every state that the threads can reach.
-/

namespace Xv6.Lib

open Function

universe u

section

variable {Op : Type u} {Answer : Op → Type}

inductive Code (Op : Type u) (Answer : Op → Type) (Value : Type) where
  | ret (value : Value)
  | op (op : Op) (next : Answer op → Code Op Answer Value)

namespace Code

variable {Value Result : Type}

def bind (code : Code Op Answer Value) (next : Value → Code Op Answer Result) : Code Op Answer Result :=
  match code with
  | ret value => next value
  | op o rest => op o fun answer => (rest answer).bind next

instance : Monad (Code Op Answer) where
  pure := ret
  bind := bind

def ask (o : Op) : Code Op Answer (Answer o) := op o ret

/-- Code that has ended is no code. -/
def rest (code : Code Op Answer Unit) : Option (Code Op Answer Unit) :=
  match code with
  | ret _ => none
  | op o next => some (op o next)

end Code

/-- What a thread with a ghost may ask for, and the ghosts that the answers leave it with. -/
structure Logic (Op : Type u) (Answer : Op → Type) (Ghost : Type) where
  pre : (o : Op) → Ghost → (Answer o → Ghost → Prop) → Prop
  mono : ∀ o ghost (post post' : Answer o → Ghost → Prop),
    (∀ answer after, post answer after → post' answer after) → pre o ghost post → pre o ghost post'

variable {Ghost : Type} (logic : Logic Op Answer Ghost)

/-- The code keeps to the logic, and ends with a value and a ghost that meet `post`. -/
def Obeys {Value : Type} : Code Op Answer Value → Ghost → (Value → Ghost → Prop) → Prop
  | .ret value, ghost, post => post value ghost
  | .op o next, ghost, post => logic.pre o ghost fun answer after => Obeys (next answer) after post

variable {logic} {Value Result : Type}

variable {ghost : Ghost}

@[simp] theorem obeys_pure {value : Value} {post : Value → Ghost → Prop} :
    Obeys logic (pure value) ghost post ↔ post value ghost := Iff.rfl

@[simp] theorem obeys_bind {code : Code Op Answer Value} {next : Value → Code Op Answer Result}
    {post : Result → Ghost → Prop} :
    Obeys logic (code >>= next) ghost post ↔
      Obeys logic code ghost fun value after => Obeys logic (next value) after post := by
  induction code generalizing ghost with
  | ret value => exact Iff.rfl
  | op o rest ih =>
    constructor
    · exact logic.mono o ghost _ _ fun answer after => ih answer |>.mp
    · exact logic.mono o ghost _ _ fun answer after => ih answer |>.mpr

theorem obeys_ite {condition : Prop} [Decidable condition] {first second : Code Op Answer Value}
    {post : Value → Ghost → Prop} :
    Obeys logic (if condition then first else second) ghost post ↔
      (condition → Obeys logic first ghost post) ∧ (¬ condition → Obeys logic second ghost post) := by
  split
  · rename_i holds
    simp [holds]
  · rename_i fails
    simp [fails]

structure Pool (Thread : Type) (Op : Type u) (Answer : Op → Type) (State : Type) where
  shared : State
  code : Thread → Option (Code Op Answer Unit)

/-- `choice` is what the operation finds that the state does not determine. -/
inductive PoolLabel (Thread Call Choice : Type) where
  | start (thread : Thread) (call : Call)
  | step (thread : Thread) (choice : Choice)

/-- `exec` is `none` for an operation that cannot be done now. `start` is `none` for a call
that cannot be made. -/
structure Engine (Thread Call Choice : Type) (Op : Type u) (Answer : Op → Type) (State : Type) where
  exec : Thread → (o : Op) → Choice → State → Option (Answer o × State)
  start : Thread → Call → State → Option (Code Op Answer Unit)

variable {Thread Call Choice State : Type} [DecidableEq Thread]
  (engine : Engine Thread Call Choice Op Answer State)

def poolNext (s : Pool Thread Op Answer State) :
    PoolLabel Thread Call Choice → Option (Pool Thread Op Answer State)
  | .start thread call =>
    match s.code thread with
    | some _ => none
    | none =>
      (engine.start thread call s.shared).map fun code =>
        { s with code := update s.code thread code.rest }
  | .step thread choice =>
    match s.code thread with
    | none | some (.ret _) => none
    | some (.op o next) =>
      (engine.exec thread o choice s.shared).map fun after =>
        ⟨after.2, update s.code thread (next after.1).rest⟩

def pool : System (Pool Thread Op Answer State) (PoolLabel Thread Call Choice) := ⟨poolNext engine⟩

def Pool.idle (shared : State) : Pool Thread Op Answer State := ⟨shared, fun _ => none⟩

/-- What a thread with this code and this ghost keeps to. -/
def Keeping (logic : Logic Op Answer Ghost) (Idle : Ghost → Prop) (ghost : Ghost) :
    Option (Code Op Answer Unit) → Prop
  | none => Idle ghost
  | some code => Obeys logic code ghost fun _ after => Idle after

theorem keeping_rest {Idle : Ghost → Prop} {code : Code Op Answer Unit}
    (obeys : Obeys logic code ghost fun _ after => Idle after) :
    Keeping logic Idle ghost code.rest := by
  cases code with
  | ret value => exact obeys
  | op o next => exact obeys

variable (logic) in
/-- The logic is right about the engine, and its calls keep to it. -/
structure Governs (Rel : State → (Thread → Ghost) → Prop) (Idle : Ghost → Prop) : Prop where
  exec : ∀ {thread o choice answer} {s after : State} {ghosts : Thread → Ghost} {post},
    Rel s ghosts → logic.pre o (ghosts thread) post →
    engine.exec thread o choice s = some (answer, after) →
    ∃ ghost, post answer ghost ∧ Rel after (update ghosts thread ghost)
  start : ∀ {thread call code} {s : State} {ghosts : Thread → Ghost},
    Rel s ghosts → Idle (ghosts thread) → engine.start thread call s = some code →
    Obeys logic code (ghosts thread) fun _ after => Idle after

/-- Some ghosts fit the state, and every thread keeps to the logic with its own. -/
def Governed (logic : Logic Op Answer Ghost) (Rel : State → (Thread → Ghost) → Prop)
    (Idle : Ghost → Prop) (s : Pool Thread Op Answer State) : Prop :=
  ∃ ghosts, Rel s.shared ghosts ∧ ∀ thread, Keeping logic Idle (ghosts thread) (s.code thread)

variable {engine} {Rel : State → (Thread → Ghost) → Prop} {Idle : Ghost → Prop}

theorem Governs.next (governs : Governs logic engine Rel Idle) {s s' : Pool Thread Op Answer State}
    {label : PoolLabel Thread Call Choice} (governed : Governed logic Rel Idle s)
    (stepped : poolNext engine s label = some s') : Governed logic Rel Idle s' := by
  obtain ⟨ghosts, rel, keeping⟩ := governed
  cases label with
  | start thread call =>
    unfold poolNext at stepped
    simp only at stepped
    split at stepped
    · cases stepped
    · rename_i isIdle
      obtain ⟨code, started, ⟨⟩⟩ := Option.map_eq_some_iff.mp stepped
      have idle := keeping thread
      rw [isIdle] at idle
      refine ⟨ghosts, rel, fun other => ?_⟩
      by_cases same : other = thread
      · subst same
        simp only [update_self]
        exact keeping_rest (governs.start rel idle started)
      · simp only [update_of_ne same]
        exact keeping other
  | step thread choice =>
    unfold poolNext at stepped
    simp only at stepped
    split at stepped
    · cases stepped
    · cases stepped
    · rename_i o next isCode
      obtain ⟨⟨answer, after⟩, ran, ⟨⟩⟩ := Option.map_eq_some_iff.mp stepped
      have obeys := keeping thread
      rw [isCode] at obeys
      obtain ⟨ghost, obeys', rel'⟩ := governs.exec rel obeys ran
      refine ⟨update ghosts thread ghost, rel', fun other => ?_⟩
      by_cases same : other = thread
      · subst same
        simp only [update_self]
        exact keeping_rest obeys'
      · simp only [update_of_ne same]
        exact keeping other

theorem Governs.run (governs : Governs logic engine Rel Idle) {s s' : Pool Thread Op Answer State}
    {labels : List (PoolLabel Thread Call Choice)} (governed : Governed logic Rel Idle s)
    (ran : (pool engine).run s labels = some s') : Governed logic Rel Idle s' :=
  System.run_preserves (Governed logic Rel Idle) (fun _ _ _ governed stepped => governs.next governed stepped)
    governed ran

end

end Xv6.Lib
