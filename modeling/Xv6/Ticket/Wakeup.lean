import Xv6.Ticket.Queue

/-!
Contract: the ticket lock under every interleaving of the acquires and releases of
`lk->lk` and `ptable.lock` in `ticket_acquire`, `ticket_release`, `sleep`, `wakeup`
and `kill`.

Owns: that the processes obtain the lock in the order of their tickets, and that
the process whose turn it is does not stay asleep.
-/

namespace Xv6.Ticket

open Xv6.Lib

section

variable {Process : Type}

/-- A process sleeps because it is not its turn. -/
def NotItsTurn (s : Shared Process) (_ : Channel) (control : Control) : Prop :=
  ∃ me, control = .waiting me ∧ s.lk.turn ≠ me

theorem awaitTurn_turn (s : Shared Process) (process : Process) (me : BitVec 32) :
    (awaitTurn s process me).shared.lk.turn = s.lk.turn := by
  unfold awaitTurn ticketAcquireLoop
  by_cases isTurn : s.lk.turn = me
  · simp [isTurn]
  · simp [isTurn]

theorem awaitTurn_sleeps {s : Shared Process} {process : Process} {me : BitVec 32}
    {chan : Channel} (sleeps : (awaitTurn s process me).finish = .sleep chan) :
    NotItsTurn (awaitTurn s process me).shared chan (awaitTurn s process me).control := by
  unfold awaitTurn ticketAcquireLoop at sleeps ⊢
  by_cases isTurn : s.lk.turn = me
  · simp [isTurn] at sleeps
  · simp only [bne_iff_ne, ne_eq, isTurn, not_false_eq_true, if_true]
    exact ⟨me, rfl, isTurn⟩

variable [DecidableEq Process] [Fintype Process]

/-- Whatever the order of wakeups, kills and scheduling, those who have obtained the
lock are the first of those who have drawn a ticket, in the same order. -/
theorem obtained_in_ticket_order (few : Fintype.card Process < 2 ^ 32) (pids : Pids Process)
    (labels : List (MonitorLabel Process Move))
    (final : MonitorState Process (Shared Process) Control Channel)
    (ran : (monitor (program Process)).run (.initial (initialised pids) fun _ => .idle) labels =
      some final) :
    final.shared.obtained <+: final.shared.drawn := by
  have reached := (monitorSimulation (program Process)).reaches ⟨labels, ran⟩
  obtain ⟨lock, -, refines⟩ := refines_run few pids reached
  have drawn : final.shared.drawn = lock.joined := refines.drawn
  have obtained : final.shared.obtained = lock.obtained := refines.obtained
  rw [drawn, obtained]
  exact lock.obtained_isPrefix_joined

/-- Process 0 has the lock, process 1 falls asleep, process 0 releases the lock and
wakes process 1. -/
def sleepAndWake : List (MonitorLabel (Fin 2) Move) :=
  [.enter 0, .step 0, .enter 1, .step 1, .free 0 .load, .step 1, .step 1, .free 0 .store,
    .enter 0, .step 0, .step 0, .step 0]

def resume : List (MonitorLabel (Fin 2) Move) :=
  [.step 1, .step 1, .enter 1, .step 1]

theorem obtained_in_ticket_order_resume :
    ∃ final : MonitorState (Fin 2) (Shared (Fin 2)) Control Channel,
      (monitor (program (Fin 2))).run (.initial (initialised twoPids) fun _ => .idle)
        (sleepAndWake ++ resume) = some final ∧
        final.shared.obtained = [0, 1] ∧ final.shared.obtained <+: final.shared.drawn :=
  ⟨_, rfl, rfl, obtained_in_ticket_order (by simp) twoPids (sleepAndWake ++ resume) _ rfl⟩

theorem program_signals : Signals (program Process) NotItsTurn where
  sleeps := by
    intro process s control stretch chan entered sleeps
    cases entered_of_enter entered with
    | panics panic control calls => cases sleeps
    | awaits me lk drawn turn => exact awaitTurn_sleeps sleeps
    | releases lk wakes completed signals => cases sleeps
  wakes := by
    intro process s control stretch chan sleeper entered blocked
    obtain ⟨me, waiting, notTurn⟩ := blocked
    cases entered_of_enter entered with
    | panics panic control calls => exact Or.inl ⟨me, waiting, notTurn⟩
    | awaits own lk drawn turn =>
      refine Or.inl ⟨me, waiting, ?_⟩
      rw [awaitTurn_turn]
      exact turn ▸ notTurn
    | releases lk wakes completed signals =>
      rcases signals with same | woken
      · exact Or.inl ⟨me, waiting, same ▸ notTurn⟩
      · exact Or.inr woken
  free := by
    intro process move s control moved chan sleeper isFree blocked
    obtain ⟨me, waiting, notTurn⟩ := blocked
    refine ⟨me, waiting, ?_⟩
    cases freed_of_free isFree <;> exact notTurn

/-- When nobody is in a section of `lk->lk` or `ptable.lock`, a process whose ticket
is `turn` is not asleep. -/
theorem turn_not_asleep (pids : Pids Process) (labels : List (MonitorLabel Process Move))
    (final : MonitorState Process (Shared Process) Control Channel)
    (ran : (monitor (program Process)).run (.initial (initialised pids) fun _ => .idle) labels =
      some final)
    (quiescent : final.Quiescent) (process : Process) (me : BitVec 32)
    (drew : (final.phase process).control = .waiting me) (isTurn : me = final.shared.lk.turn)
    (control : Control) : final.phase process ≠ .asleep control .lk := by
  intro asleep
  obtain ⟨me', waiting, notTurn⟩ := asleep_blocked program_signals ran quiescent.1 asleep
  rw [asleep] at drew
  have same : Control.waiting me = .waiting me' := drew.symm.trans waiting
  exact notTurn (isTurn.symm.trans (Control.waiting.inj same))

end

theorem turn_not_asleep_sleepAndWake :
    ∃ final : MonitorState (Fin 2) (Shared (Fin 2)) Control Channel,
      (monitor (program (Fin 2))).run (.initial (initialised twoPids) fun _ => .idle)
        sleepAndWake = some final ∧
        (final.phase 1).control = .waiting final.shared.lk.turn ∧
        ∀ control, final.phase 1 ≠ .asleep control .lk :=
  ⟨_, rfl, rfl, turn_not_asleep twoPids sleepAndWake _ rfl ⟨rfl, rfl⟩ 1 _ rfl rfl⟩

end Xv6.Ticket
