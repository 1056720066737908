import Xv6.Process.Atomic

/-!
Contract: any number of CPUs that run the scheduler and the processes of the table.

A step of a CPU is a test-and-set of `ptable.lock`, what is done under the lock up to its
release or up to `sched`, a `swtch`, or an access to the table without the lock: `allocproc`
and `fork` fill in a new process outside it. Between such steps the other CPUs go on, so
the lock is not assumed to keep them apart. Interrupt handlers call `wakeup` on any CPU
that does not hold the lock, and the timer makes a process yield there.
-/

namespace Xv6.Process

open Function (update)
open Xv6.Lib Ptable

/-- What a process is at outside `ptable.lock`. In `fork` it has a new process `np`: the
stack is still to be allocated, the memory to be copied, or all is done but to make it
runnable. -/
inductive Task where
  | user
  | kalloc (np : ProcId)
  | copyuvm (np : ProcId)
  | ready (np : ProcId)
deriving DecidableEq

/-- Where `swtch` brings a process back to. -/
inductive Resume where
  | yield (task : Task)
  | sleep
  | wait
  | exit
  | forkret
deriving DecidableEq

/-- Where a process is in the kernel. Everywhere but at `out` its CPU has the lock. `sched`
is the entry of that function, and `swtch` is inside it. -/
inductive Point where
  | out (task : Task)
  | yield (task : Task)
  | sleep (chan : Nat)
  | wakeup (chan : Nat) (task : Task)
  | kill (pid : Int)
  | allocproc
  | publish (np : ProcId)
  | exit
  | wait
  | sched (resume : Resume)
  | swtch (resume : Resume)
deriving DecidableEq

/-- Where a CPU is in `scheduler`. -/
inductive Loop where
  | idle
  | wakeup (chan : Nat)
  | scan (i : Nat)
  | swtch (p : ProcId)
deriving DecidableEq

inductive Panic where
  | acquire
  | release
  | initExiting
  | zombieExit
  | schedPtableLock
  | schedRunning
deriving DecidableEq

/-- `thread` is the process that executes on a CPU, or none while that is the scheduler,
and `cpuProc` is the field `proc` of `struct cpu`. `ret` is what a process was last returned
by `fork`, `wait` or `kill`. -/
structure State (C : Type) where
  books : Books
  lock : Option C
  cpuProc : C → Option ProcId
  thread : C → Option ProcId
  loop : C → Loop
  point : ProcId → Point
  ret : ProcId → Int
  panicked : Option Panic

/-- What a CPU does next. Most of the time there is only one way to `go` on. `fail` is an
allocation that fails. -/
inductive Act where
  | go
  | fail
  | yield
  | sleep (chan : Nat)
  | wakeup (chan : Nat)
  | kill (pid : Int)
  | fork
  | exit
  | wait
deriving DecidableEq

namespace State

variable {C : Type}

def table (s : State C) : Ptable := s.books.table

def panic (s : State C) (panic : Panic) : State C := { s with panicked := some panic }

def withTable (s : State C) (table : Ptable) : State C := { s with books := s.books.withTable table }

def goTo (p : ProcId) (point : Point) (s : State C) : State C :=
  { s with point := update s.point p point }

def returns (p : ProcId) (value : Int) (s : State C) : State C :=
  { s with ret := update s.ret p value, point := update s.point p (.out .user) }

/-- After `userinit`, before any CPU has looked for a process. -/
def booted : State C where
  books := .booted
  lock := none
  cpuProc := fun _ => none
  thread := fun _ => none
  loop := fun _ => .idle
  point := fun _ => .swtch .forkret
  ret := fun _ => 0
  panicked := none

variable [DecidableEq C]

/-- `acquire(&ptable.lock)` on `c`. It spins while another CPU has the lock. -/
def acquire (s : State C) (c : C) (next : State C → State C) : Option (State C) :=
  if s.lock = some c then some (s.panic .acquire)
  else if s.lock = none then some (next { s with lock := some c })
  else none

def release (s : State C) (c : C) (next : State C → State C) : State C :=
  if s.lock = some c then next { s with lock := none } else s.panic .release

/-- `sched`, up to its `swtch` to the scheduler of the CPU. -/
def sched (s : State C) (c : C) (p : ProcId) (resume : Resume) : State C :=
  if s.lock ≠ some c then s.panic .schedPtableLock
  else if (s.table.proc p).state = .running then s.panic .schedRunning
  else { s.goTo p (.swtch resume) with thread := update s.thread c none }

/-- The section of `allocproc`, called by `p`. -/
def allocprocSection (s : State C) (c : C) (p : ProcId) : State C :=
  match s.table.allocproc with
  | none => s.release c (returns p (-1))
  | some (table, np) =>
    { s with books := s.books.allocate table np }.release c (goTo p (.out (.kalloc np)))

/-- An iteration of the loop of `wait`, called by `p`. -/
def waitSection (s : State C) (c : C) (p : ProcId) : State C :=
  match s.table.wait p with
  | .found child =>
    { s with books := s.books.reap child }.release c (returns p (s.table.proc child).pid)
  | .fails => s.release c (returns p (-1))
  | .sleeps => (s.withTable (s.table.sleep p (.proc p))).goTo p (.sched .wait)

def process (s : State C) (c : C) (p : ProcId) (act : Act) : Option (State C) :=
  match s.point p, act with
  | .out task, .yield => s.acquire c (goTo p (.yield task))
  | .out task, .wakeup chan => s.acquire c (goTo p (.wakeup chan task))
  | .out .user, .sleep chan => s.acquire c (goTo p (.sleep chan))
  | .out .user, .kill pid => s.acquire c (goTo p (.kill pid))
  | .out .user, .fork => s.acquire c (goTo p .allocproc)
  | .out .user, .wait => s.acquire c (goTo p .wait)
  | .out .user, .exit =>
    if p = s.table.initproc then some (s.panic .initExiting) else s.acquire c (goTo p .exit)
  | .out (.kalloc np), .fail => some ((s.withTable (s.table.kallocFails np)).returns p (-1))
  | .out (.kalloc np), .go =>
    some (((s.withTable (s.table.kallocWorks np)).goTo np (.swtch .forkret)).goTo p
      (.out (.copyuvm np)))
  | .out (.copyuvm np), .fail => some ((s.withTable (s.table.copyuvmFails np)).returns p (-1))
  | .out (.copyuvm np), .go =>
    some ((s.withTable (s.table.copyuvmWorks np p)).goTo p (.out (.ready np)))
  | .out (.ready np), .go => s.acquire c (goTo p (.publish np))
  | .yield task, .go => some ((s.withTable (s.table.setState p .runnable)).goTo p (.sched (.yield task)))
  | .sleep chan, .go => some ((s.withTable (s.table.sleep p (.other chan))).goTo p (.sched .sleep))
  | .wakeup chan task, .go =>
    some ((s.withTable (s.table.wakeup1 (some (.other chan)))).release c (goTo p (.out task)))
  | .kill pid, .go =>
    some ({ s with books := s.books.kill pid }.release c (returns p (s.table.kill pid).2))
  | .allocproc, .go => some (s.allocprocSection c p)
  | .publish np, .go =>
    some ((s.withTable (s.table.setState np .runnable)).release c
      (returns p (s.table.proc np).pid))
  | .exit, .go => some ((s.withTable (s.table.exit p)).goTo p (.sched .exit))
  | .wait, .go => some (s.waitSection c p)
  | .sched resume, .go => some (s.sched c p resume)
  | .swtch (.yield task), .go => some (s.release c (goTo p (.out task)))
  | .swtch .sleep, .go =>
    some ((s.withTable (s.table.tidyUp p)).release c (goTo p (.out .user)))
  | .swtch .wait, .go => some ((s.withTable (s.table.tidyUp p)).goTo p .wait)
  | .swtch .exit, .go => some (s.panic .zombieExit)
  | .swtch .forkret, .go => some (s.release c (goTo p (.out .user)))
  | _, _ => none

def loopTo (c : C) (loop : Loop) (s : State C) : State C :=
  { s with loop := update s.loop c loop }

/-- The scheduler on `c` has found `p`, and switches to it. -/
def dispatch (s : State C) (c : C) (p : ProcId) : State C :=
  { s.loopTo c (.swtch p) with
    books := s.books.withTable (s.table.setState p .running)
    cpuProc := update s.cpuProc c (some p)
    thread := update s.thread c (some p) }

def scheduler (s : State C) (c : C) (act : Act) : Option (State C) :=
  match s.loop c, act with
  | .idle, .go => s.acquire c (loopTo c (.scan 0))
  | .idle, .wakeup chan => s.acquire c (loopTo c (.wakeup chan))
  | .wakeup chan, .go =>
    some ((s.withTable (s.table.wakeup1 (some (.other chan)))).release c (loopTo c .idle))
  | .scan i, .go =>
    if inTable : i < NPROC then
      if (s.table.proc ⟨i, inTable⟩).state = .runnable then some (s.dispatch c ⟨i, inTable⟩)
      else some (s.loopTo c (.scan (i + 1)))
    else some (s.release c (loopTo c .idle))
  | .swtch p, .go =>
    some { s.loopTo c (.scan (p + 1)) with cpuProc := update s.cpuProc c none }
  | _, _ => none

def next (s : State C) (label : C × Act) : Option (State C) :=
  if s.panicked ≠ none then none
  else
    match s.thread label.1 with
    | some p => s.process label.1 p label.2
    | none => s.scheduler label.1 label.2

end State

def machine (C : Type) [DecidableEq C] : System (State C) (C × Act) := ⟨State.next⟩

end Xv6.Process
