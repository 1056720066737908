import Xv6.Ticket.Queue

/-!
Contract: processes that call `sys_ticketlockinit` and `sys_ticketlocktest` in any
order.

`init_ticket_lock` takes no lock: its stores to `pid`, `ticket` and `turn` are steps
of their own. Sections of `lk->lk` are atomic steps, so `lk->lk` is free whenever
`initlock` stores to it.
-/

namespace Xv6.Ticket

open Function Xv6.Lib

/-- One store of `init_ticket_lock`. -/
def initTicketLock : InitStore → TicketLock → TicketLock
  | .pid, lk => { lk with pid := 0 }
  | .ticket, lk => { lk with ticket := 0 }
  | .turn, lk => { lk with turn := 0 }

/-- Where a process is after a store of `init_ticket_lock`. -/
def InitStore.next : InitStore → Control
  | .pid => .initialising .ticket
  | .ticket => .initialising .turn
  | .turn => .idle

/-- A step of `sys_ticketlocktest`, or the next step of `sys_ticketlockinit`. -/
inductive CallLabel (Process : Type) where
  | test (label : AtomicLabel Process Move)
  | init (process : Process)

section

variable {Process : Type} [DecidableEq Process] [Fintype Process]

def callNext (s : Joint Process (Shared Process) Control) :
    CallLabel Process → Option (Joint Process (Shared Process) Control)
  | .test label => atomicNext (program Process) s label
  | .init process =>
    if s.shared.panicked ≠ none then none
    else
      match s.control process with
      | .idle =>
        some { s with control := update s.control process (.initialising .pid) }
      | .initialising store =>
        some
          { shared := { s.shared with lk := initTicketLock store s.shared.lk }
            control := update s.control process store.next }
      | _ => none

/-- The two system calls on the global `ticketlock`. -/
def calls (Process : Type) [DecidableEq Process] [Fintype Process] :
    System (Joint Process (Shared Process) Control) (CallLabel Process) where
  next := callNext

end

/-- Process 1 initialises the lock while process 0 has it. -/
def initialisedInUse : List (CallLabel (Fin 2)) :=
  [.test (.enter 0), .init 1, .init 1, .init 1, .init 1]

/-- Process 0 then comes to `ticket_release`. -/
def releaseAfterInit : List (CallLabel (Fin 2)) :=
  initialisedInUse ++ [.test (.free 0 .load), .test (.free 0 .store), .test (.enter 0)]

/-- Process 1 then calls `sys_ticketlocktest` itself. -/
def acquireAfterInit : List (CallLabel (Fin 2)) :=
  initialisedInUse ++ [.test (.enter 1)]

theorem initialisedInUse_breaks :
    (∃ final, (calls (Fin 2)).run ⟨initialised twoPids, fun _ => .idle⟩ releaseAfterInit =
        some final ∧ final.shared.panicked = some .release) ∧
      ∃ final, (calls (Fin 2)).run ⟨initialised twoPids, fun _ => .idle⟩ acquireAfterInit =
        some final ∧ (final.control 0).Holds ∧ (final.control 1).Holds :=
  ⟨⟨_, rfl, rfl⟩, ⟨_, rfl, trivial, trivial⟩⟩

def Control.Initialising : Control → Prop
  | initialising _ => True
  | _ => False

instance : DecidablePred Control.Initialising
  | .idle => isFalse id
  | .waiting _ => isFalse id
  | .holding => isFalse id
  | .loaded _ => isFalse id
  | .stored => isFalse id
  | .initialising _ => isTrue trivial

section

variable {Process : Type}

/-- No process is in `sys_ticketlocktest`. -/
def NoTest (control : Process → Control) : Prop :=
  ∀ process, control process = .idle ∨ (control process).Initialising

def NoInit (control : Process → Control) : Prop :=
  ∀ process, ¬ (control process).Initialising

/-- `sys_ticketlockinit` runs only while no process is in `sys_ticketlocktest`, and a
process calls `sys_ticketlocktest` only while no process is in
`sys_ticketlockinit`. -/
def Apart (s : Joint Process (Shared Process) Control) : CallLabel Process → Prop
  | .test (.enter process) => s.control process = .idle → NoInit s.control
  | .test (.free _ _) => True
  | .init _ => NoTest s.control

variable {lock : FifoLock Process} {s : Joint Process (Shared Process) Control}

variable {control : Process → Control}

theorem NoTest.calm (noTest : NoTest control) (process : Process) :
    ¬ (control process).Holds ∧ (∀ me, control process ≠ .waiting me) ∧
      ∀ value, control process ≠ .loaded value := by
  cases at_ : control process with
  | idle => exact ⟨id, nofun, nofun⟩
  | initialising store => exact ⟨id, nofun, nofun⟩
  | _ =>
    have here := noTest process
    rw [at_] at here
    rcases here with isIdle | isInit
    · cases isIdle
    · exact isInit.elim

variable {process : Process}

theorem NoTest.update [DecidableEq Process] (noTest : NoTest control) {new : Control}
    (calm : new = .idle ∨ new.Initialising) : NoTest (update control process new) := by
  intro other
  by_cases same : other = process
  · rw [same, update_self]
    exact calm
  · rw [update_of_ne same]
    exact noTest other

theorem Refines.noHolder (refines : Refines lock s) (noTest : NoTest s.control) :
    lock.holder = none := by
  cases holder : lock.holder with
  | none => rfl
  | some process => exact absurd ((refines.holds process).mpr holder) (noTest.calm process).1

/-- The fields of the lock may be set to an unused lock's, and processes may come
and go between `idle` and `init_ticket_lock`, while nobody is in the queue. -/
theorem Refines.resting (refines : Refines lock s) (noTest : NoTest s.control)
    (noTest' : NoTest control) {lk : TicketLock} (ticket : lk.ticket = lk.turn) (pid : lk.pid = 0) :
    Refines lock ⟨{ s.shared with lk := lk }, control⟩ := by
  have noHolder := refines.noHolder noTest
  have noWaiter : lock.waiting = [] := by
    apply List.eq_nil_iff_forall_not_mem.mpr
    intro process waiter
    obtain ⟨me, waits⟩ := (refines.waits process).mpr waiter
    exact (noTest.calm process).2.1 me waits
  have noQueue : lock.queue = [] := by rw [FifoLock.queue, noHolder, noWaiter]; rfl
  have count := refines.count
  constructor
  · exact refines.running
  · intro process
    rw [noHolder]
    exact ⟨fun holds => absurd holds (noTest'.calm process).1, by simp⟩
  · intro process
    rw [noWaiter]
    exact ⟨fun waits => absurd waits (not_exists.mpr (noTest'.calm process).2.1), by simp⟩
  · rw [noQueue]
    exact ticket.trans (ticketOf_zero lk.turn).symm
  · intro index process me place
    rw [noQueue] at place
    cases place
  · rw [noHolder]
    exact pid
  · exact refines.drawn
  · exact refines.obtained
  · exact refines.completed
  · simp only [pending, noHolder] at count ⊢
    exact count
  · intro process value isLoaded
    exact absurd isLoaded ((noTest'.calm process).2.2 value)

/-- Nobody uses the lock, and it is all zero but for the fields that those who
initialise it have yet to store. -/
structure Resting (lock : FifoLock Process) (s : Joint Process (Shared Process) Control) :
    Prop where
  refines : Refines lock ⟨{ s.shared with lk := ⟨0, 0, 0⟩ }, s.control⟩
  noTest : NoTest s.control
  pid : s.shared.lk.pid = 0
  ticket : ∀ process, s.control process = .initialising .turn → s.shared.lk.ticket = 0

/-- What holds in every state of a run that keeps the two calls apart. -/
def Intact (s : Joint Process (Shared Process) Control) : Prop :=
  ∃ lock, (NoInit s.control ∧ Refines lock s) ∨ (¬ NoInit s.control ∧ Resting lock s)

theorem Refines.rests (refines : Refines lock s) (noTest : NoTest s.control)
    (noInit : NoInit s.control) : Resting lock s where
  refines := refines.resting noTest noTest rfl rfl
  noTest := noTest
  pid := by
    rw [refines.pid, refines.noHolder noTest]
    rfl
  ticket := by
    intro process atTurn
    exact absurd (atTurn ▸ trivial) (noInit process)

/-- A process in `init_ticket_lock` is in no section of `lk->lk`. -/
theorem enter_initialising {shared : Shared Process} {control : Control}
    {stretch : Stretch (Shared Process) Control Channel} (init : control.Initialising) :
    Ticket.enter process shared control ≠ some stretch := by
  cases control with
  | initialising store =>
    unfold Ticket.enter
    split <;> exact nofun
  | _ => exact init.elim

theorem enter_not_initialising {shared : Shared Process} {control : Control}
    {stretch : Stretch (Shared Process) Control Channel}
    (entered : Ticket.enter process shared control = some stretch) :
    ¬ stretch.control.Initialising := by
  cases entered_of_enter entered with
  | panics panic control calls =>
    rcases calls with isIdle | isStored
    · rw [isIdle]
      exact id
    · rw [isStored]
      exact id
  | awaits me lk drawn turn =>
    unfold awaitTurn
    split
    · exact id
    · exact id
  | releases lk wakes completed signals => exact id

variable [DecidableEq Process]

theorem NoInit.update (noInit : NoInit control) {new : Control} (calm : ¬ new.Initialising) :
    NoInit (update control process new) := by
  intro other
  by_cases same : other = process
  · rw [same, update_self]
    exact calm
  · rw [update_of_ne same]
    exact noInit other

namespace Resting

theorem enter (resting : Resting lock s) (process : Process) :
    Resting lock
      { s with control := update s.control process (.initialising .pid) } := by
  have noTest : NoTest (update s.control process (.initialising .pid)) :=
    resting.noTest.update (Or.inr trivial)
  refine ⟨resting.refines.resting resting.noTest noTest rfl rfl, noTest, resting.pid, ?_⟩
  intro other atTurn
  by_cases same : other = process
  · simp only [same, update_self, Control.initialising.injEq, reduceCtorEq] at atTurn
  · simp only [update_of_ne same] at atTurn
    exact resting.ticket other atTurn

theorem store (resting : Resting lock s) {store : InitStore}
    (at_ : s.control process = .initialising store) :
    Resting lock
      ⟨{ s.shared with lk := initTicketLock store s.shared.lk },
        update s.control process store.next⟩ := by
  have calm : store.next = .idle ∨ store.next.Initialising := by
    cases store with
    | pid => exact Or.inr trivial
    | ticket => exact Or.inr trivial
    | turn => exact Or.inl rfl
  have noTest : NoTest (update s.control process store.next) := resting.noTest.update calm
  refine ⟨resting.refines.resting resting.noTest noTest rfl rfl, noTest, ?_, ?_⟩
  · cases store with
    | pid => rfl
    | ticket => exact resting.pid
    | turn => exact resting.pid
  · intro other atTurn
    by_cases same : other = process
    · simp only [same, update_self] at atTurn
      cases store with
      | pid => cases atTurn
      | ticket => rfl
      | turn => cases atTurn
    · simp only [update_of_ne same] at atTurn
      have zero := resting.ticket other atTurn
      cases store with
      | pid => exact zero
      | ticket => rfl
      | turn => exact zero

/-- The last store leaves the lock as it was before anybody used it. -/
theorem lastStore (resting : Resting lock s) (at_ : s.control process = .initialising .turn) :
    Refines lock
      ⟨{ s.shared with lk := initTicketLock .turn s.shared.lk },
        update s.control process .idle⟩ := by
  have unused : initTicketLock .turn s.shared.lk = ⟨0, 0, 0⟩ := by
    have pid := resting.pid
    have ticket := resting.ticket process at_
    generalize s.shared.lk = lk at pid ticket
    cases lk
    cases pid
    cases ticket
    rfl
  rw [unused]
  exact (resting.store at_).refines

end Resting

variable [Fintype Process]

theorem Intact.test (few : Fintype.card Process < 2 ^ 32) (intact : Intact s)
    {label : AtomicLabel Process Move} {after : Joint Process (Shared Process) Control}
    (apart : Apart s (.test label))
    (stepped : atomicNext (program Process) s label = some after) : Intact after := by
  obtain ⟨lock, ⟨noInit, refines⟩ | ⟨busy, resting⟩⟩ := intact
  · obtain ⟨lock', -, refines'⟩ := refines.step few stepped
    refine ⟨lock', Or.inl ⟨?_, refines'⟩⟩
    cases label with
    | enter process =>
      obtain ⟨stretch, entered, isAfter⟩ := Option.map_eq_some_iff.mp stepped
      rw [← isAfter]
      exact noInit.update (enter_not_initialising entered)
    | free process move =>
      obtain ⟨moved, isFree, isAfter⟩ := Option.map_eq_some_iff.mp stepped
      rw [← isAfter]
      apply noInit.update
      generalize s.control process = control at isFree
      cases freed_of_free isFree <;> exact id
  · cases label with
    | enter process =>
      obtain ⟨stretch, entered, -⟩ := Option.map_eq_some_iff.mp stepped
      rcases resting.noTest process with idle | init
      · exact absurd (apart idle) busy
      · rw [show (program Process).enter = Ticket.enter from rfl] at entered
        exact absurd entered (enter_initialising init)
    | free process move =>
      obtain ⟨moved, isFree, isAfter⟩ := Option.map_eq_some_iff.mp stepped
      generalize at_ : s.control process = control at isFree
      have calm := resting.noTest.calm process
      cases freed_of_free isFree with
      | load => exact absurd (at_ ▸ trivial) calm.1
      | store value => exact absurd at_ (calm.2.2 value)
      | allocproc pids others =>
        have same : update s.control process .idle = s.control := by
          rw [← at_]
          exact update_eq_self process s.control
        have refines := resting.refines.allocproc at_ others
        rw [← isAfter]
        simp only [same] at refines ⊢
        exact ⟨lock, Or.inr ⟨busy, refines, resting.noTest, resting.pid, resting.ticket⟩⟩

theorem Intact.init (intact : Intact s) {after : Joint Process (Shared Process) Control}
    (noTest : NoTest s.control) (stepped : callNext s (.init process) = some after) :
    Intact after := by
  obtain ⟨lock, resting⟩ : ∃ lock, Resting lock s := by
    obtain ⟨lock, ⟨noInit, refines⟩ | ⟨-, resting⟩⟩ := intact
    · exact ⟨lock, refines.rests noTest noInit⟩
    · exact ⟨lock, resting⟩
  have busy : ∀ store, ¬ NoInit (update s.control process (.initialising store)) := by
    intro store noInit
    have here := noInit process
    rw [update_self] at here
    exact here trivial
  obtain ⟨-, stepped⟩ := Option.ite_none_left_eq_some.mp stepped
  split at stepped
  · cases stepped
    exact ⟨lock, Or.inr ⟨busy _, resting.enter process⟩⟩
  · rename_i store at_
    cases stepped
    have rests := resting.store at_
    cases store with
    | pid => exact ⟨lock, Or.inr ⟨busy _, rests⟩⟩
    | ticket => exact ⟨lock, Or.inr ⟨busy _, rests⟩⟩
    | turn =>
      by_cases done : NoInit (update s.control process .idle)
      · exact ⟨lock, Or.inl ⟨done, resting.lastStore at_⟩⟩
      · exact ⟨lock, Or.inr ⟨done, rests⟩⟩
  · cases stepped

/-- In every run that keeps the two calls apart, in every state: neither panic has
happened and one process at most has the lock. -/
theorem calls_safe (few : Fintype.card Process < 2 ^ 32) (pids : Pids Process)
    (labels : List (CallLabel Process)) (final : Joint Process (Shared Process) Control)
    (apart : (calls Process).Meets Apart ⟨initialised pids, fun _ => .idle⟩ labels)
    (ran : (calls Process).run ⟨initialised pids, fun _ => .idle⟩ labels = some final) :
    final.shared.panicked = none ∧
      ∀ first second, (final.control first).Holds → (final.control second).Holds →
        first = second := by
  have intact : Intact final := by
    refine System.run_preserves_of_meets Intact ?_ ?_ apart ran
    · intro s label after holds condition stepped
      cases label with
      | test label => exact holds.test few condition stepped
      | init process => exact holds.init condition stepped
    · exact ⟨_, Or.inl ⟨fun _ => id, Refines.initialised pids⟩⟩
  obtain ⟨lock, ⟨-, refines⟩ | ⟨-, resting⟩⟩ := intact
  · refine ⟨refines.running, ?_⟩
    intro first second firstHolds secondHolds
    exact Option.some.inj
      (((refines.holds first).mp firstHolds).symm.trans ((refines.holds second).mp secondHolds))
  · refine ⟨resting.refines.running, ?_⟩
    intro first second firstHolds
    exact absurd firstHolds (resting.noTest.calm first).1

end

instance decidableApart {Process : Type} [Fintype Process]
    (s : Joint Process (Shared Process) Control) : ∀ label, Decidable (Apart s label)
  | .test (.enter _) => inferInstanceAs (Decidable (_ → ∀ _, ¬ _))
  | .test (.free _ _) => isTrue trivial
  | .init _ => inferInstanceAs (Decidable (∀ _, _ ∨ _))

/-- Process 1 initialises the lock between two calls of process 0. -/
def initialisedBetween : List (CallLabel (Fin 2)) :=
  [.test (.enter 0), .test (.free 0 .load), .test (.free 0 .store), .test (.enter 0), .init 1,
    .init 1, .init 1, .init 1, .test (.enter 0)]

theorem calls_safe_initialisedBetween :
    ∃ final : Joint (Fin 2) (Shared (Fin 2)) Control,
      (calls (Fin 2)).run ⟨initialised twoPids, fun _ => .idle⟩ initialisedBetween = some final ∧
        (final.control 0).Holds ∧ final.shared.panicked = none ∧
        ∀ first second, (final.control first).Holds → (final.control second).Holds →
          first = second :=
  ⟨_, rfl, trivial, calls_safe (by simp) twoPids initialisedBetween _ (by decide +kernel) rfl⟩

end Xv6.Ticket
