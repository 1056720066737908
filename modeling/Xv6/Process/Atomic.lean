import Xv6.Process.Table
import Xv6.Lib.System

/-!
Contract: the process table as a system of atomic operations.

This is what the sections under `ptable.lock` are meant to be: each operation happens at
once, and only when the process it is about is in the right state. Besides the table the
state has a history, which no operation reads.

Does not own: the CPUs that carry the operations out (`Process.Machine`), and why they
respect the guards (`Process.Scheduling`).
-/

namespace Xv6.Process

open Xv6.Lib Ptable

/-- The table and its history: the how manyth process a slot has had (`serial`) of those
ever `created`, whether a `kill` has `named` it since, and which processes `wait` has
`reaped`. -/
structure Books where
  table : Ptable
  created : Nat
  serial : ProcId → Nat
  named : ProcId → Bool
  reaped : List Nat

inductive Op where
  | run (p : ProcId)
  | yield (p : ProcId)
  | sleep (p : ProcId) (addr : Nat)
  | tidyUp (p : ProcId)
  | wakeup (addr : Nat)
  | kill (pid : Int)
  | allocproc (np : ProcId)
  | kallocFails (np : ProcId)
  | kallocWorks (np : ProcId)
  | copyuvmFails (np : ProcId)
  | copyuvmWorks (np p : ProcId)
  | publish (np p : ProcId)
  | exit (p : ProcId)
  | reap (p child : ProcId)
  | waitSleeps (p : ProcId)
deriving DecidableEq

namespace Books

variable (b : Books)

def state (p : ProcId) : ProcState := (b.table.proc p).state

def withTable (table : Ptable) : Books := { b with table }

/-- `kill`, and the processes that it names. -/
def kill (pid : Int) : Books :=
  { b with
    table := (b.table.kill pid).1
    named := fun q => b.named q || decide (b.state q ≠ .unused ∧ (b.table.proc q).pid = pid) }

/-- `np` is the next process. -/
def allocate (table : Ptable) (np : ProcId) : Books :=
  { b with
    table
    created := b.created + 1
    serial := Function.update b.serial np (b.created + 1)
    named := Function.update b.named np false }

def reap (child : ProcId) : Books :=
  { b with
    table := b.table.set child (Ptable.reaped (b.table.proc child))
    reaped := b.serial child :: b.reaped }

/-- The table that an operation makes, when its guard holds. A process is made `ready`
only by its parent, which cannot exit before. -/
def next : Op → Option Books
  | .run p => if b.state p = .runnable then some (b.withTable (b.table.setState p .running)) else none
  | .yield p => if b.state p = .running then some (b.withTable (b.table.setState p .runnable)) else none
  | .sleep p addr =>
    if b.state p = .running then some (b.withTable (b.table.sleep p (.other addr))) else none
  | .tidyUp p => if b.state p = .running then some (b.withTable (b.table.tidyUp p)) else none
  | .wakeup addr => some (b.withTable (b.table.wakeup1 (some (.other addr))))
  | .kill pid => some (b.kill pid)
  | .allocproc np => (b.table.allocproc).bind fun (table, found) =>
    if found = np then some (b.allocate table np) else none
  | .kallocFails np =>
    if b.state np = .embryo ∧ (b.table.proc np).parent = none then
      some (b.withTable (b.table.kallocFails np)) else none
  | .kallocWorks np =>
    if b.state np = .embryo then some (b.withTable (b.table.kallocWorks np)) else none
  | .copyuvmFails np =>
    if b.state np = .embryo ∧ (b.table.proc np).parent = none then
      some (b.withTable (b.table.copyuvmFails np)) else none
  | .copyuvmWorks np p =>
    if b.state np = .embryo ∧ b.state p = .running then
      some (b.withTable (b.table.copyuvmWorks np p)) else none
  | .publish np p =>
    if b.state np = .embryo ∧ (b.table.proc np).parent = some p ∧ b.state p = .running then
      some (b.withTable (b.table.setState np .runnable)) else none
  | .exit p =>
    if b.state p = .running ∧ p ≠ b.table.initproc ∧
        ∀ np, b.state np = .embryo → (b.table.proc np).parent ≠ some p then
      some (b.withTable (b.table.exit p)) else none
  | .reap p child =>
    if b.state p = .running ∧ b.table.wait p = .found child then some (b.reap child) else none
  | .waitSleeps p =>
    if b.state p = .running ∧ b.table.wait p = .sleeps then
      some (b.withTable (b.table.sleep p (.proc p))) else none

/-- After `userinit`: the first slot has `initproc`, which is the first process. -/
def booted : Books where
  table :=
    { proc := fun p =>
        if p = 0 then ⟨.runnable, 1, none, none, false, true, true⟩
        else ⟨.unused, 0, none, none, false, false, false⟩
      nextpid := 2
      initproc := 0 }
  created := 1
  serial := fun p => if p = 0 then 1 else 0
  named := fun _ => false
  reaped := []

end Books

def atomic : System Books Op := ⟨Books.next⟩

end Xv6.Process
