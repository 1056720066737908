import Xv6.Lib.System

/-!
Contract: CPUs that acquire and release spinlocks along the paths they run.

A CPU works off the lock operations of one path at a time and starts another when
it is done. An acquire is enabled only while nobody holds the lock, so a CPU that
cannot take its next step spins.
-/

namespace Xv6.Lib

open Function

inductive LockOp (Lock : Type) where
  | acquire (lock : Lock)
  | release (lock : Lock)
deriving DecidableEq

/-- The locks a CPU holds and what is left of the path it runs. -/
structure CpuState (Lock : Type) where
  held : List Lock
  todo : List (LockOp Lock)

inductive SpinLabel (Cpu Path : Type) where
  | start (cpu : Cpu) (path : Path)
  | step (cpu : Cpu)

section

variable {Cpu Lock Path : Type} [DecidableEq Cpu] [DecidableEq Lock] [Fintype Cpu]

def spinNext (ops : Path → List (LockOp Lock)) (s : Cpu → CpuState Lock) :
    SpinLabel Cpu Path → Option (Cpu → CpuState Lock)
  | .start cpu path =>
    if (s cpu).todo = [] then
      some (update s cpu { s cpu with todo := ops path })
    else none
  | .step cpu =>
    match (s cpu).todo with
    | .acquire lock :: rest =>
      if ∀ other, lock ∉ (s other).held then
        some (update s cpu ⟨lock :: (s cpu).held, rest⟩)
      else none
    | .release lock :: rest =>
      some (update s cpu ⟨(s cpu).held.erase lock, rest⟩)
    | [] => none

def spinSystem (Cpu : Type) [DecidableEq Cpu] [Fintype Cpu] (ops : Path → List (LockOp Lock)) :
    System (Cpu → CpuState Lock) (SpinLabel Cpu Path) where
  next := spinNext ops

def allIdle (Cpu Lock : Type) : Cpu → CpuState Lock := fun _ => ⟨[], []⟩

end

section

variable {Cpu Lock : Type}

/-- `cpu`'s next operation is to acquire a lock that `other` holds. -/
def WaitsFor (s : Cpu → CpuState Lock) (cpu other : Cpu) : Prop :=
  ∃ lock rest, (s cpu).todo = .acquire lock :: rest ∧ lock ∈ (s other).held

/-- When every CPU that waits holds only locks that rank below the one it waits
for, no CPU waits for itself through others. -/
theorem not_waits_cycle {s : Cpu → CpuState Lock} (rank : Lock → Nat)
    (ordered : ∀ cpu lock rest, (s cpu).todo = .acquire lock :: rest →
      ∀ held ∈ (s cpu).held, rank held < rank lock) (cpu : Cpu) :
    ¬ Relation.TransGen (WaitsFor s) cpu cpu := by
  -- along a chain of waiting CPUs the rank of the wanted lock grows
  have grows : ∀ first last, Relation.TransGen (WaitsFor s) first last →
      ∀ lock rest, (s first).todo = .acquire lock :: rest →
        ∀ lock' rest', (s last).todo = .acquire lock' :: rest' → rank lock < rank lock' := by
    intro first last chain
    induction chain with
    | single waits =>
      intro lock rest wants lock' rest' wants'
      obtain ⟨wanted, tail, wantsToo, held⟩ := waits
      rw [wants] at wantsToo
      cases wantsToo
      exact ordered _ lock' rest' wants' lock held
    | tail chain waits ih =>
      intro lock rest wants lock' rest' wants'
      obtain ⟨wanted, tail, wantsToo, held⟩ := waits
      exact (ih lock rest wants wanted tail wantsToo).trans
        (ordered _ lock' rest' wants' wanted held)
  intro cycle
  have waits : ∃ lock rest, (s cpu).todo = .acquire lock :: rest := by
    obtain ⟨next, waits, -⟩ := Relation.TransGen.head'_iff.mp cycle
    obtain ⟨lock, rest, wants, -⟩ := waits
    exact ⟨lock, rest, wants⟩
  obtain ⟨lock, rest, wants⟩ := waits
  exact absurd (grows cpu cpu cycle lock rest wants lock rest wants) (Nat.lt_irrefl _)

variable [DecidableEq Lock]

/-- Operations that, run by a CPU holding `held`, acquire a lock only on top of
locks it may be acquired on top of, release only what is held, and end with
nothing held. -/
def Disciplined (below : Lock → Lock → Prop) : List Lock → List (LockOp Lock) → Prop
  | held, [] => held = []
  | held, .acquire lock :: rest =>
    (∀ other ∈ held, below other lock) ∧ Disciplined below (lock :: held) rest
  | held, .release lock :: rest => lock ∈ held ∧ Disciplined below (held.erase lock) rest

theorem Disciplined.append {below : Lock → Lock → Prop} {held : List Lock}
    {first second : List (LockOp Lock)}
    (prior : ∀ lock ∈ held, ∀ op ∈ first, ∀ wanted, op = .acquire wanted → below lock wanted)
    (front : Disciplined below [] first) (back : Disciplined below held second) :
    Disciplined below held (first ++ second) := by
  -- running `first` on top of `held` keeps the locks of `held` at the bottom
  have general : ∀ own, Disciplined below own first →
      Disciplined below (own ++ held) (first ++ second) := by
    clear front
    induction first with
    | nil =>
      intro own done
      have empty : own = [] := done
      rw [empty]
      exact back
    | cons op rest ih =>
      have priorRest : ∀ lock ∈ held, ∀ op ∈ rest, ∀ wanted, op = .acquire wanted →
          below lock wanted :=
        fun lock inHeld other member => prior lock inHeld other (List.mem_cons_of_mem op member)
      intro own runs
      cases op with
      | acquire lock =>
        refine ⟨?_, ih priorRest (lock :: own) runs.2⟩
        intro other member
        rcases List.mem_append.mp member with inOwn | inHeld
        · exact runs.1 other inOwn
        · exact prior other inHeld _ List.mem_cons_self lock rfl
      | release lock =>
        refine ⟨List.mem_append_left held runs.1, ?_⟩
        rw [List.erase_append_left held runs.1]
        exact ih priorRest (own.erase lock) runs.2
  exact general [] front

def AllDisciplined (below : Lock → Lock → Prop) (s : Cpu → CpuState Lock) : Prop :=
  ∀ cpu, Disciplined below (s cpu).held (s cpu).todo

variable {Path : Type} [DecidableEq Cpu] [Fintype Cpu]

/-- Every CPU stays on the discipline of the paths it starts. -/
theorem AllDisciplined.step {below : Lock → Lock → Prop} {ops : Path → List (LockOp Lock)}
    (paths : ∀ path, Disciplined below [] (ops path)) {s after : Cpu → CpuState Lock}
    {label : SpinLabel Cpu Path} (disciplined : AllDisciplined below s)
    (stepped : (spinSystem Cpu ops).next s label = some after) : AllDisciplined below after := by
  have update : ∀ (cpu : Cpu) (new : CpuState Lock), Disciplined below new.held new.todo →
      AllDisciplined below (update s cpu new) := by
    intro cpu new holds other
    by_cases same : other = cpu
    · rw [same, update_self]
      exact holds
    · rw [update_of_ne same]
      exact disciplined other
  change spinNext ops s label = some after at stepped
  cases label with
  | start cpu path =>
    obtain ⟨idle, rfl⟩ := of_guard stepped
    have here := disciplined cpu
    rw [idle] at here
    have empty : (s cpu).held = [] := here
    apply update
    rw [empty]
    exact paths path
  | step cpu =>
    have here := disciplined cpu
    simp only [spinNext] at stepped
    split at stepped
    · rename_i lock rest todo
      rw [todo] at here
      obtain ⟨-, rfl⟩ := of_guard stepped
      exact update cpu _ here.2
    · rename_i lock rest todo
      rw [todo] at here
      cases stepped
      exact update cpu _ here.2
    · cases stepped

end

end Xv6.Lib
