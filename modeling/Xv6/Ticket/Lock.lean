import Xv6.Lib.Monitor

/-!
Contract: the ticket lock and the system call that tests it, `sys_ticketlocktest`.

A section of `lk->lk` runs from its acquire to the next `sleep` or to the release.
`Ticket.program` gives what each section does, and the load and the store of
`safe_count` as steps of their own. Pids change hands while their process is
outside the call. `drawn`, `obtained` and `completed` record what has happened; no
code reads them.

Owns: `ticket_lock.c` without `init_ticket_lock`, and `sys_ticketlocktest`.

Does not own: `init_ticket_lock`, and the name kept for debugging.
-/

namespace Xv6.Ticket

open Function Xv6.Lib

structure TicketLock where
  ticket : BitVec 32
  turn : BitVec 32
  pid : Int
deriving DecidableEq

inductive Panic where
  | acquire
  | release
deriving DecidableEq

/-- What a process may sleep on here: the address of the lock. -/
inductive Channel where
  | lk
deriving DecidableEq

def ticketHolding (lk : TicketLock) (mypid : Int) : Bool :=
  lk.ticket != lk.turn && lk.pid == mypid

/-- The old value of the word and the word after. -/
def readAndIncrement (word val : BitVec 32) : BitVec 32 × BitVec 32 := (word, word + val)

/-- `ticket_acquire` up to its loop. -/
def ticketAcquire (lk : TicketLock) (mypid : Int) : Except Panic (BitVec 32 × TicketLock) :=
  if ticketHolding lk mypid then .error .acquire
  else
    let (me, ticket) := readAndIncrement lk.ticket 1
    .ok (me, { lk with ticket })

/-- The loop of `ticket_acquire` from its test on, `none` when the process sleeps. -/
def ticketAcquireLoop (lk : TicketLock) (me : BitVec 32) (mypid : Int) : Option TicketLock :=
  if lk.turn != me then none else some { lk with pid := mypid }

/-- `ticket_release`, with the channels it wakes. -/
def ticketRelease (lk : TicketLock) (mypid : Int) : Except Panic (TicketLock × List Channel) :=
  if !ticketHolding lk mypid then .error .release
  else if lk.pid == mypid then .ok ({ lk with pid := 0, turn := lk.turn + 1 }, [.lk])
  else .ok (lk, [])

structure Pids (Process : Type) where
  pid : Process → Int
  positive : ∀ process, 0 < pid process
  distinct : Function.Injective pid

/-- A new process with a new pid takes the place of `process`. -/
def Pids.assign {Process : Type} [DecidableEq Process] (pids : Pids Process) (process : Process)
    (new : Int) (positive : 0 < new) (fresh : ∀ other, pids.pid other ≠ new) : Pids Process where
  pid := update pids.pid process new
  positive := by
    intro other
    by_cases same : other = process
    · rw [same, update_self]
      exact positive
    · rw [update_of_ne same]
      exact pids.positive other
  distinct := by
    intro first second equal
    by_cases isFirst : first = process
    · by_cases isSecond : second = process
      · rw [isFirst, isSecond]
      · rw [isFirst, update_self, update_of_ne isSecond] at equal
        exact absurd equal.symm (fresh second)
    · by_cases isSecond : second = process
      · rw [isSecond, update_self, update_of_ne isFirst] at equal
        exact absurd equal (fresh first)
      · rw [update_of_ne isFirst, update_of_ne isSecond] at equal
        exact pids.distinct equal

/-- The stores of `init_ticket_lock` to the fields of the lock, in order. -/
inductive InitStore where
  | pid
  | ticket
  | turn
deriving DecidableEq

/-- Where a process is: outside the calls, in the loop of `ticket_acquire` with its
ticket `me`, returned from `ticket_acquire`, with the value of `safe_count` it
loaded, before its call of `ticket_release`, or in `init_ticket_lock` before a
store. -/
inductive Control where
  | idle
  | waiting (me : BitVec 32)
  | holding
  | loaded (value : BitVec 32)
  | stored
  | initialising (store : InitStore)
deriving DecidableEq

/-- Between the return of `ticket_acquire` and `ticket_release`. -/
def Control.Holds : Control → Prop
  | holding => True
  | loaded _ => True
  | stored => True
  | _ => False

structure Shared (Process : Type) where
  lk : TicketLock
  pids : Pids Process
  safeCount : BitVec 32
  panicked : Option Panic
  drawn : List Process
  obtained : List Process
  completed : Nat

inductive Move where
  | load
  | store
  | allocproc (pid : Int)

section

variable {Process : Type} [DecidableEq Process] [Fintype Process]

/-- The loop of `ticket_acquire` in a process that holds `lk->lk`. -/
def awaitTurn (s : Shared Process) (process : Process) (me : BitVec 32) :
    Stretch (Shared Process) Control Channel :=
  match ticketAcquireLoop s.lk me (s.pids.pid process) with
  | none => ⟨s, .waiting me, [], .sleep .lk⟩
  | some lk => ⟨{ s with lk, obtained := s.obtained ++ [process] }, .holding, [], .leave⟩

def enter (process : Process) (s : Shared Process) (control : Control) :
    Option (Stretch (Shared Process) Control Channel) :=
  -- a panic stops the machine
  if s.panicked ≠ none then none
  else
    match control with
    | .idle =>
      match ticketAcquire s.lk (s.pids.pid process) with
      | .error panic => some ⟨{ s with panicked := some panic }, .idle, [], .leave⟩
      | .ok (me, lk) =>
        some (awaitTurn { s with lk, drawn := s.drawn ++ [process] } process me)
    | .waiting me => some (awaitTurn s process me)
    | .stored =>
      match ticketRelease s.lk (s.pids.pid process) with
      | .error panic => some ⟨{ s with panicked := some panic }, .stored, [], .leave⟩
      | .ok (lk, wakes) =>
        some ⟨{ s with lk, completed := s.completed + 1 }, .idle, wakes, .leave⟩
    | _ => none

def free (process : Process) (move : Move) (s : Shared Process) (control : Control) :
    Option (Shared Process × Control) :=
  if s.panicked ≠ none then none
  else
    match move, control with
    | .load, .holding => some (s, .loaded s.safeCount)
    | .store, .loaded value => some ({ s with safeCount := value + 1 }, .stored)
    | .allocproc pid, .idle =>
      if usable : 0 < pid ∧ ∀ other, s.pids.pid other ≠ pid then
        some ({ s with pids := s.pids.assign process pid usable.1 usable.2 }, .idle)
      else none
    | _, _ => none

/-- Every process calls `sys_ticketlocktest` again and again. -/
def program (Process : Type) [DecidableEq Process] [Fintype Process] :
    Program Process (Shared Process) Control Channel Move where
  enter := enter
  free := free

/-- The lock as `init_ticket_lock` leaves it, before anybody used it. -/
def initialised (pids : Pids Process) : Shared Process where
  lk := ⟨0, 0, 0⟩
  pids := pids
  safeCount := 0
  panicked := none
  drawn := []
  obtained := []
  completed := 0

end

section

variable {Process : Type}

/-- What a section of `lk->lk` can do. -/
inductive Entered (process : Process) (s : Shared Process) :
    Stretch (Shared Process) Control Channel → Prop where
  | panics (panic : Panic) (control : Control) (calls : control = .idle ∨ control = .stored) :
      Entered process s ⟨{ s with panicked := some panic }, control, [], .leave⟩
  | awaits (me : BitVec 32) (lk : TicketLock) (drawn : List Process)
      (turn : lk.turn = s.lk.turn) :
      Entered process s (awaitTurn { s with lk, drawn } process me)
  | releases (lk : TicketLock) (wakes : List Channel) (completed : Nat)
      (signals : lk.turn = s.lk.turn ∨ .lk ∈ wakes) :
      Entered process s ⟨{ s with lk, completed }, .idle, wakes, .leave⟩

theorem entered_of_enter {process : Process} {s : Shared Process} {control : Control}
    {stretch : Stretch (Shared Process) Control Channel}
    (entered : enter process s control = some stretch) : Entered process s stretch := by
  unfold enter at entered
  by_cases stopped : s.panicked ≠ none
  · rw [if_pos stopped] at entered
    cases entered
  · rw [if_neg stopped] at entered
    cases control with
    | idle =>
      cases acquired : ticketAcquire s.lk (s.pids.pid process) with
      | error panic =>
        simp only [acquired] at entered
        cases entered
        exact .panics panic .idle (Or.inl rfl)
      | ok drawn =>
        simp only [acquired] at entered
        cases entered
        refine .awaits drawn.1 drawn.2 _ ?_
        unfold ticketAcquire at acquired
        split at acquired
        · cases acquired
        · cases acquired
          rfl
    | waiting me =>
      cases entered
      exact .awaits me s.lk s.drawn rfl
    | stored =>
      cases released : ticketRelease s.lk (s.pids.pid process) with
      | error panic =>
        simp only [released] at entered
        cases entered
        exact .panics panic .stored (Or.inr rfl)
      | ok after =>
        simp only [released] at entered
        cases entered
        refine .releases after.1 after.2 _ ?_
        unfold ticketRelease at released
        split at released
        · cases released
        · split at released
          · cases released
            exact Or.inr (List.mem_singleton.mpr rfl)
          · cases released
            exact Or.inl rfl
    | _ => cases entered

/-- What a step outside the sections can do. -/
inductive Freed (process : Process) (s : Shared Process) :
    Control → Shared Process × Control → Prop where
  | load : Freed process s .holding (s, .loaded s.safeCount)
  | store (value : BitVec 32) :
      Freed process s (.loaded value) ({ s with safeCount := value + 1 }, .stored)
  | allocproc (pids : Pids Process)
      (others : ∀ other, other ≠ process → pids.pid other = s.pids.pid other) :
      Freed process s .idle ({ s with pids }, .idle)

theorem freed_of_free [DecidableEq Process] [Fintype Process] {process : Process} {move : Move}
    {s : Shared Process} {control : Control} {moved : Shared Process × Control}
    (isFree : free process move s control = some moved) : Freed process s control moved := by
  unfold free at isFree
  by_cases stopped : s.panicked ≠ none
  · rw [if_pos stopped] at isFree
    cases isFree
  · rw [if_neg stopped] at isFree
    split at isFree
    · cases isFree
      exact .load
    · cases isFree
      exact .store _
    · split at isFree
      · cases isFree
        exact .allocproc _ fun other notSame => update_of_ne notSame _ _
      · cases isFree
    · cases isFree

end

end Xv6.Ticket
