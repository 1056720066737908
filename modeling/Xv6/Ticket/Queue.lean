import Xv6.Lib.FifoLock
import Xv6.Ticket.Lock

/-!
Contract: the ticket lock is a lock that its processes obtain in the order in
which they drew their tickets.

The tickets of the processes in the queue are the numbers from `turn` to `ticket`,
modulo `2 ^ 32`, in order. Because there are fewer processes than tickets, a
process whose ticket is `turn` is at the head of the queue.
-/

namespace Xv6.Ticket

open Function Xv6.Lib

/-- The number of the place `index` of a queue whose head has the number `turn`. -/
def ticketOf (turn : BitVec 32) (index : Nat) : BitVec 32 := turn + BitVec.ofNat 32 index

theorem ticketOf_zero (turn : BitVec 32) : ticketOf turn 0 = turn := by
  simp [ticketOf]

theorem ticketOf_succ (turn : BitVec 32) (index : Nat) :
    ticketOf turn (index + 1) = ticketOf turn index + 1 := by
  unfold ticketOf
  rw [BitVec.ofNat_add, BitVec.add_assoc]
  rfl

theorem ticketOf_next (turn : BitVec 32) (index : Nat) :
    ticketOf (turn + 1) index = ticketOf turn (index + 1) := by
  rw [ticketOf_succ]
  unfold ticketOf
  rw [BitVec.add_assoc, BitVec.add_comm 1, ← BitVec.add_assoc]

theorem eq_zero_of_ticketOf {turn : BitVec 32} {index : Nat} (small : index < 2 ^ 32)
    (same : ticketOf turn index = turn) : index = 0 := by
  have values := congrArg BitVec.toNat same
  rw [ticketOf, BitVec.toNat_add, BitVec.toNat_ofNat] at values
  have bound := turn.isLt
  omega

section

variable {Process : Type}

/-- What the holder has added to `safe_count` and not yet reported by
`ticket_release`. -/
def pending (lock : FifoLock Process) (control : Process → Control) : Nat :=
  match lock.holder with
  | some process => if control process = .stored then 1 else 0
  | none => 0

/-- The ticket lock in the state `s` does what `lock` says. -/
structure Refines (lock : FifoLock Process) (s : Joint Process (Shared Process) Control) :
    Prop where
  running : s.shared.panicked = none
  holds : ∀ process, (s.control process).Holds ↔ lock.holder = some process
  waits : ∀ process, (∃ me, s.control process = .waiting me) ↔ process ∈ lock.waiting
  ticket : s.shared.lk.ticket = ticketOf s.shared.lk.turn lock.queue.length
  mine : ∀ index process me, lock.queue[index]? = some process →
    s.control process = .waiting me → me = ticketOf s.shared.lk.turn index
  pid : s.shared.lk.pid = (lock.holder.map s.shared.pids.pid).getD 0
  drawn : s.shared.drawn = lock.joined
  obtained : s.shared.obtained = lock.obtained
  completed : s.shared.completed = lock.served.length
  count : s.shared.safeCount = BitVec.ofNat 32 (s.shared.completed + pending lock s.control)
  loaded : ∀ process value, s.control process = .loaded value → value = s.shared.safeCount

namespace Refines

variable {lock : FifoLock Process} {s : Joint Process (Shared Process) Control}

theorem initialised (pids : Pids Process) :
    Refines (.unused Process) ⟨Ticket.initialised pids, fun _ => .idle⟩ where
  running := rfl
  holds := fun _ => ⟨False.elim, nofun⟩
  waits := by simp [FifoLock.unused]
  ticket := (ticketOf_zero 0).symm
  mine := by simp [FifoLock.unused, FifoLock.queue]
  pid := rfl
  drawn := rfl
  obtained := rfl
  completed := rfl
  count := rfl
  loaded := by simp

variable {process : Process}

section

variable (refines : Refines lock s)

include refines

theorem not_mem_queue (idle : s.control process = .idle) : process ∉ lock.queue := by
  rw [FifoLock.queue, List.mem_append, Option.mem_toList]
  intro member
  rcases member with holder | waiter
  · have holds := (refines.holds process).mpr holder
    rw [idle] at holds
    exact holds
  · obtain ⟨me, waiting⟩ := (refines.waits process).mpr waiter
    rw [idle] at waiting
    cases waiting

theorem pid_eq_iff (process : Process) :
    s.shared.lk.pid = s.shared.pids.pid process ↔ lock.holder = some process := by
  rw [refines.pid]
  cases holder : lock.holder with
  | none =>
    have positive := s.shared.pids.positive process
    simp only [Option.map_none, Option.getD_none, reduceCtorEq, iff_false]
    omega
  | some other =>
    simp only [Option.map_some, Option.getD_some, Option.some.injEq]
    exact s.shared.pids.distinct.eq_iff

section

variable [Fintype Process] (few : Fintype.card Process < 2 ^ 32)
include few

/-- `ticket_holding` tells whether the caller is the holder. -/
theorem ticketHolding_iff (process : Process) :
    ticketHolding s.shared.lk (s.shared.pids.pid process) = true ↔
      lock.holder = some process := by
  rw [← refines.pid_eq_iff, ticketHolding, Bool.and_eq_true, beq_iff_eq, bne_iff_ne]
  refine ⟨And.right, fun isHolder => ⟨fun noTicket => ?_, isHolder⟩⟩
  have holder := (refines.pid_eq_iff process).mp isHolder
  rw [refines.ticket] at noTicket
  have empty := eq_zero_of_ticketOf (lock.queue_length_le.trans_lt few) noTicket
  rw [FifoLock.queue, holder] at empty
  simp at empty

/-- A process whose ticket is `turn` is the first that waits, and nobody holds the
lock. -/
theorem first_of_turn {me : BitVec 32}
    (waiting : s.control process = .waiting me) (isTurn : s.shared.lk.turn = me) :
    lock.holder = none ∧ ∃ rest, lock.waiting = process :: rest := by
  have waiter := (refines.waits process).mp ⟨me, waiting⟩
  obtain ⟨index, place⟩ := List.mem_iff_getElem?.mp
    (List.mem_append_right lock.holder.toList waiter)
  have inQueue : index < lock.queue.length := (List.getElem?_eq_some_iff.mp place).1
  have isFirst : index = 0 := by
    apply eq_zero_of_ticketOf (inQueue.trans_le lock.queue_length_le |>.trans few)
    rw [← refines.mine index process me place waiting, isTurn]
  rw [isFirst] at place
  cases holder : lock.holder with
  | some other =>
    rw [holder] at place
    have isProcess : other = process := Option.some.inj place
    have holds := (refines.holds process).mpr (isProcess ▸ holder)
    rw [waiting] at holds
    exact holds.elim
  | none =>
    rw [holder] at place
    refine ⟨rfl, ?_⟩
    cases queue : lock.waiting with
    | nil =>
      rw [queue] at place
      cases place
    | cons first rest =>
      rw [queue] at place
      have isProcess : first = process := Option.some.inj place
      exact ⟨rest, by rw [isProcess]⟩

end

variable [DecidableEq Process]

theorem draw (idle : s.control process = .idle) :
    Refines (lock.join process (refines.not_mem_queue idle))
      ⟨{ s.shared with
          lk := { s.shared.lk with ticket := s.shared.lk.ticket + 1 }
          drawn := s.shared.drawn ++ [process] },
        update s.control process (.waiting s.shared.lk.ticket)⟩ := by
  have fresh := refines.not_mem_queue idle
  rw [FifoLock.queue, List.mem_append, Option.mem_toList, not_or] at fresh
  have others : ∀ other control, other ≠ process →
      (update s.control process control other = s.control other) :=
    fun other control notSame => update_of_ne notSame control s.control
  have samePending : pending (lock.join process (refines.not_mem_queue idle))
      (update s.control process (.waiting s.shared.lk.ticket)) =
        pending lock s.control := by
    unfold pending
    simp only [FifoLock.join]
    cases holder : lock.holder with
    | none => rfl
    | some other =>
      have notSame : other ≠ process := fun same => fresh.1 (same ▸ holder)
      simp only [others other _ notSame]
  constructor
  · exact refines.running
  · intro other
    by_cases same : other = process
    · simp only [same, update_self, FifoLock.join]
      exact ⟨False.elim, fresh.1⟩
    · simp only [others other _ same, FifoLock.join]
      exact refines.holds other
  · intro other
    by_cases same : other = process
    · simp [same, FifoLock.join]
    · simp only [others other _ same, FifoLock.join, List.mem_append, List.mem_singleton, same,
        or_false]
      exact refines.waits other
  · rw [FifoLock.queue_join, List.length_append, List.length_singleton, ticketOf_succ]
    exact congrArg (· + 1) refines.ticket
  · intro index other me place waiting
    rcases lock.queue_join_place _ place with ⟨notSame, before⟩ | ⟨same, last⟩
    · simp only [others other _ notSame] at waiting
      exact refines.mine index other me before waiting
    · simp only [same, update_self, Control.waiting.injEq] at waiting
      rw [← waiting, last]
      exact refines.ticket
  · exact refines.pid
  · simp [FifoLock.joined, FifoLock.queue, FifoLock.join, refines.drawn]
  · exact refines.obtained
  · exact refines.completed
  · rw [samePending]
    exact refines.count
  · intro other value isLoaded
    by_cases same : other = process
    · simp only [same, update_self] at isLoaded
      cases isLoaded
    · simp only [others other _ same] at isLoaded
      exact refines.loaded other value isLoaded

theorem takeTurn {rest : List Process} (isFree : lock.holder = none)
    (first : lock.waiting = process :: rest) :
    Refines (lock.obtain isFree first)
      ⟨{ s.shared with
          lk := { s.shared.lk with pid := s.shared.pids.pid process }
          obtained := s.shared.obtained ++ [process] },
        update s.control process .holding⟩ := by
  have others : ∀ other, other ≠ process →
      update s.control process .holding other = s.control other :=
    fun other notSame => update_of_ne notSame .holding s.control
  have nodup := lock.nodup
  rw [isFree, first] at nodup
  have notInRest : process ∉ rest := (List.nodup_cons.mp nodup).1
  constructor
  · exact refines.running
  · intro other
    by_cases same : other = process
    · simp only [same, update_self]
      exact ⟨fun _ => rfl, fun _ => trivial⟩
    · simp only [others other same]
      rw [refines.holds, isFree]
      refine ⟨nofun, fun isProcess => absurd (Option.some.inj isProcess).symm same⟩
  · intro other
    by_cases same : other = process
    · simp only [same, update_self, reduceCtorEq, exists_false, false_iff]
      exact notInRest
    · simp only [others other same]
      rw [refines.waits, first, List.mem_cons, or_iff_right same]
      rfl
  · rw [FifoLock.queue_obtain]
    exact refines.ticket
  · intro index other me' place waits
    rw [FifoLock.queue_obtain] at place
    by_cases same : other = process
    · simp only [same, update_self, reduceCtorEq] at waits
    · simp only [others other same] at waits
      exact refines.mine index other me' place waits
  · rfl
  · rw [FifoLock.joined, FifoLock.queue_obtain]
    exact refines.drawn
  · have before := refines.obtained
    rw [FifoLock.obtained, isFree] at before
    simp only [FifoLock.obtained, FifoLock.obtain, before]
    simp
  · exact refines.completed
  · have count := refines.count
    simp only [pending, isFree] at count
    simp [pending, FifoLock.obtain, count]
  · intro other value isLoaded
    by_cases same : other = process
    · simp only [same, update_self, reduceCtorEq] at isLoaded
    · simp only [others other same] at isLoaded
      exact refines.loaded other value isLoaded

theorem giveUp (stored : s.control process = .stored) (holder : lock.holder = some process) :
    Refines (lock.leave process)
      ⟨{ s.shared with
          lk := { s.shared.lk with pid := 0, turn := s.shared.lk.turn + 1 }
          completed := s.shared.completed + 1 },
        update s.control process .idle⟩ := by
  have others : ∀ other, other ≠ process →
      update s.control process .idle other = s.control other :=
    fun other notSame => update_of_ne notSame .idle s.control
  have nodup := lock.nodup
  rw [holder] at nodup
  have notWaiting : process ∉ lock.waiting := (List.nodup_cons.mp nodup).1
  have queue := lock.queue_leave holder
  constructor
  · exact refines.running
  · intro other
    by_cases same : other = process
    · simp only [same, update_self]
      exact ⟨False.elim, nofun⟩
    · simp only [others other same]
      rw [refines.holds, holder]
      exact ⟨fun isProcess => absurd (Option.some.inj isProcess).symm same, nofun⟩
  · intro other
    by_cases same : other = process
    · simp only [same, update_self, reduceCtorEq, exists_false, false_iff]
      exact notWaiting
    · simp only [others other same]
      exact refines.waits other
  · have before := refines.ticket
    rw [queue, List.length_cons, ← ticketOf_next] at before
    exact before
  · intro index other me place waits
    by_cases same : other = process
    · simp only [same, update_self, reduceCtorEq] at waits
    · simp only [others other same] at waits
      rw [ticketOf_next]
      apply refines.mine (index + 1) other me _ waits
      rw [queue, List.getElem?_cons_succ]
      exact place
  · rfl
  · rw [refines.drawn, FifoLock.joined, FifoLock.joined, queue]
    simp [FifoLock.leave]
  · rw [refines.obtained, FifoLock.obtained, FifoLock.obtained, holder]
    simp [FifoLock.leave]
  · simp [FifoLock.leave, refines.completed]
  · have count := refines.count
    simp only [pending, holder, stored, if_true] at count
    exact count
  · intro other value isLoaded
    by_cases same : other = process
    · simp only [same, update_self, reduceCtorEq] at isLoaded
    · simp only [others other same] at isLoaded
      exact refines.loaded other value isLoaded

theorem critical (holder : lock.holder = some process) {new : Control}
    {safeCount : BitVec 32} (holds : new.Holds)
    (count : safeCount = BitVec.ofNat 32 (s.shared.completed + if new = .stored then 1 else 0))
    (loaded : ∀ value, new = .loaded value → value = safeCount) :
    Refines lock
      ⟨{ s.shared with safeCount := safeCount }, update s.control process new⟩ := by
  have others : ∀ other, other ≠ process →
      update s.control process new other = s.control other :=
    fun other notSame => update_of_ne notSame new s.control
  have notWaits : ∀ me, new ≠ .waiting me := by
    intro me isWaiting
    rw [isWaiting] at holds
    exact holds
  constructor
  · exact refines.running
  · intro other
    by_cases same : other = process
    · simp only [same, update_self, holder, holds]
    · simp only [others other same]
      exact refines.holds other
  · intro other
    by_cases same : other = process
    · simp only [same, update_self, notWaits, exists_false, false_iff]
      intro waiter
      have nodup := lock.nodup
      rw [holder] at nodup
      exact (List.nodup_cons.mp nodup).1 waiter
    · simp only [others other same]
      exact refines.waits other
  · exact refines.ticket
  · intro index other me place waits
    by_cases same : other = process
    · simp only [same, update_self] at waits
      exact absurd waits (notWaits me)
    · simp only [others other same] at waits
      exact refines.mine index other me place waits
  · exact refines.pid
  · exact refines.drawn
  · exact refines.obtained
  · exact refines.completed
  · simp only [pending, holder, update_self]
    exact count
  · intro other value isLoaded
    by_cases same : other = process
    · simp only [same, update_self] at isLoaded
      exact loaded value isLoaded
    · simp only [others other same] at isLoaded
      have otherHolds : lock.holder = some other :=
        (refines.holds other).mp (by rw [isLoaded]; trivial)
      exact absurd (Option.some.inj (otherHolds.symm.trans holder)) same

theorem load (holding : s.control process = .holding) :
    Refines lock
      ⟨s.shared, update s.control process (.loaded s.shared.safeCount)⟩ := by
  have holder := (refines.holds process).mp (by rw [holding]; trivial)
  have count := refines.count
  simp only [pending, holder, holding, reduceCtorEq, if_false] at count
  apply refines.critical holder
  · trivial
  · rw [if_neg nofun]
    exact count
  · intro value isLoaded
    exact (Control.loaded.inj isLoaded).symm

theorem store {value : BitVec 32} (loaded : s.control process = .loaded value) :
    Refines lock
      ⟨{ s.shared with safeCount := value + 1 }, update s.control process .stored⟩ := by
  have holder := (refines.holds process).mp (by rw [loaded]; trivial)
  have count := refines.count
  simp only [pending, holder, loaded, reduceCtorEq, if_false] at count
  apply refines.critical holder
  · trivial
  · rw [if_pos rfl, refines.loaded process value loaded, count, Nat.add_zero, BitVec.ofNat_add]
    rfl
  · nofun

theorem allocproc (idle : s.control process = .idle) {pids : Pids Process}
    (others : ∀ other, other ≠ process → pids.pid other = s.shared.pids.pid other) :
    Refines lock
      ⟨{ s.shared with pids := pids }, update s.control process .idle⟩ := by
  have same : update s.control process .idle = s.control := by
    rw [← idle]
    exact update_eq_self process s.control
  rw [same]
  have samePid : lock.holder.map pids.pid = lock.holder.map s.shared.pids.pid := by
    cases holder : lock.holder with
    | none => rfl
    | some other =>
      have holds := (refines.holds other).mpr holder
      have notProcess : other ≠ process := by
        intro isProcess
        rw [isProcess, idle] at holds
        exact holds
      exact congrArg some (others other notProcess)
  exact { refines with pid := by rw [samePid]; exact refines.pid }

variable [Fintype Process] (few : Fintype.card Process < 2 ^ 32)
include few

/-- The loop of `ticket_acquire` in a process that waits. -/
theorem awaitTurn {me : BitVec 32} (waiting : s.control process = .waiting me) :
    ∃ lock', Relation.ReflTransGen FifoLock.Step lock lock' ∧
      Refines lock'
        ⟨(awaitTurn s.shared process me).shared,
          update s.control process (Ticket.awaitTurn s.shared process me).control⟩ := by
  unfold Ticket.awaitTurn ticketAcquireLoop
  by_cases isTurn : s.shared.lk.turn = me
  · obtain ⟨isFree, rest, first⟩ := refines.first_of_turn few waiting isTurn
    refine ⟨_, .single (.obtain isFree first), ?_⟩
    simp only [isTurn, bne_self_eq_false, Bool.false_eq_true, if_false]
    exact isTurn ▸ refines.takeTurn isFree first
  · refine ⟨lock, .refl, ?_⟩
    simp only [bne_iff_ne, ne_eq, isTurn, not_false_eq_true, if_true]
    rw [← waiting, update_eq_self]
    exact refines

theorem enter {stretch : Stretch (Shared Process) Control Channel}
    (entered : enter process s.shared (s.control process) = some stretch) :
    ∃ lock', Relation.ReflTransGen FifoLock.Step lock lock' ∧
      Refines lock' ⟨stretch.shared, update s.control process stretch.control⟩ := by
  have holding := refines.ticketHolding_iff few process
  unfold Ticket.enter at entered
  rw [if_neg (not_not.mpr refines.running)] at entered
  cases at_ : s.control process with
  | idle =>
    have notHolding : ticketHolding s.shared.lk (s.shared.pids.pid process) = false := by
      rw [← Bool.not_eq_true, holding, ← refines.holds, at_]
      exact id
    simp only [at_, ticketAcquire, notHolding, readAndIncrement, Bool.false_eq_true, if_false,
      Option.some.injEq] at entered
    obtain ⟨lock', steps, after⟩ := (refines.draw at_).awaitTurn few (update_self ..)
    rw [update_idem] at after
    exact ⟨lock', .head (.join process (refines.not_mem_queue at_)) steps, entered ▸ after⟩
  | waiting me =>
    simp only [at_, Option.some.injEq] at entered
    exact entered ▸ refines.awaitTurn few at_
  | stored =>
    have holder := (refines.holds process).mp (by rw [at_]; trivial)
    have isPid := (refines.pid_eq_iff process).mpr holder
    simp only [at_, ticketRelease, holding.mpr holder, isPid, Bool.not_true, Bool.false_eq_true,
      if_false, beq_self_eq_true, if_true, Option.some.injEq] at entered
    exact ⟨_, .single (.leave holder), entered ▸ refines.giveUp at_ holder⟩
  | holding => simp only [at_, reduceCtorEq] at entered
  | loaded value => simp only [at_, reduceCtorEq] at entered
  | initialising store => simp only [at_, reduceCtorEq] at entered

omit few in
theorem free {move : Move} {moved : Shared Process × Control}
    (isFree : free process move s.shared (s.control process) = some moved) :
    Refines lock ⟨moved.1, update s.control process moved.2⟩ := by
  generalize at_ : s.control process = control at isFree
  cases freed_of_free isFree with
  | load => exact refines.load at_
  | store value => exact refines.store at_
  | allocproc pids others => exact refines.allocproc at_ others

/-- Every step of the ticket lock is what the queue allows. -/
theorem step {label : AtomicLabel Process Move} {after : Joint Process (Shared Process) Control}
    (stepped : (atomic (program Process)).next s label = some after) :
    ∃ lock', Relation.ReflTransGen FifoLock.Step lock lock' ∧ Refines lock' after := by
  change atomicNext (program Process) s label = some after at stepped
  cases label with
  | enter process =>
    obtain ⟨stretch, entered, isAfter⟩ := Option.map_eq_some_iff.mp stepped
    exact isAfter ▸ refines.enter few entered
  | free process move =>
    obtain ⟨moved, isFree, isAfter⟩ := Option.map_eq_some_iff.mp stepped
    exact ⟨lock, .refl, isAfter ▸ refines.free isFree⟩

end

end Refines

end

section

variable {Process : Type} [DecidableEq Process] [Fintype Process]

/-- The ticket lock refines the queue. -/
theorem refines_run (few : Fintype.card Process < 2 ^ 32) (pids : Pids Process)
    {final : Joint Process (Shared Process) Control}
    (reached : (atomic (program Process)).Reaches ⟨initialised pids, fun _ => .idle⟩ final) :
    ∃ lock : FifoLock Process, lock.Reachable ∧ Refines lock final := by
  refine reached.preserves (fun s => ∃ lock : FifoLock Process, lock.Reachable ∧ Refines lock s)
    ?_ ⟨_, .refl, Refines.initialised pids⟩
  intro s label after ⟨lock, reachable, refines⟩ stepped
  obtain ⟨lock', steps, refines'⟩ := refines.step few stepped
  exact ⟨lock', reachable.trans steps, refines'⟩

/-- With sections of `lk->lk` as atomic steps, in every state of every run: neither
panic has happened, one process at most is between `ticket_acquire` and
`ticket_release`, `lk->pid` is its pid, and `safe_count` is the number of completed
critical sections, or one more while a process has stored it and not yet called
`ticket_release`. -/
theorem mutual_exclusion (few : Fintype.card Process < 2 ^ 32) (pids : Pids Process)
    (labels : List (AtomicLabel Process Move)) (final : Joint Process (Shared Process) Control)
    (ran : (atomic (program Process)).run ⟨initialised pids, fun _ => .idle⟩ labels =
      some final) :
    final.shared.panicked = none ∧
      (∀ first second, (final.control first).Holds → (final.control second).Holds →
        first = second) ∧
      (∀ process, (final.control process).Holds ↔
        final.shared.lk.pid = final.shared.pids.pid process) ∧
      ((∀ process, final.control process ≠ .stored) →
        final.shared.safeCount = BitVec.ofNat 32 final.shared.completed) ∧
      ∀ process, final.control process = .stored →
        final.shared.safeCount = BitVec.ofNat 32 (final.shared.completed + 1) := by
  obtain ⟨lock, -, refines⟩ := refines_run few pids ⟨labels, ran⟩
  refine ⟨refines.running, ?_, ?_, ?_, ?_⟩
  · intro first second firstHolds secondHolds
    exact Option.some.inj
      (((refines.holds first).mp firstHolds).symm.trans ((refines.holds second).mp secondHolds))
  · intro process
    rw [refines.pid_eq_iff, refines.holds]
  · intro noneStored
    have none : pending lock final.control = 0 := by
      unfold pending
      cases lock.holder with
      | none => rfl
      | some process => exact if_neg (noneStored process)
    have count := refines.count
    rw [none] at count
    exact count
  · intro process stored
    have holder := (refines.holds process).mp (by rw [stored]; trivial)
    have count := refines.count
    simp only [pending, holder, stored, if_true] at count
    exact count

end

def twoPids : Pids (Fin 2) where
  pid process := process.val + 1
  positive process := by omega
  distinct := by decide

/-- Process 1 draws its ticket while process 0 has the lock, and obtains it next. -/
def contended : List (AtomicLabel (Fin 2) Move) :=
  [.enter 0, .enter 1, .free 0 .load, .free 0 .store, .enter 0, .enter 1]

theorem mutual_exclusion_contended :
    ∃ final : Joint (Fin 2) (Shared (Fin 2)) Control,
      (atomic (program (Fin 2))).run ⟨initialised twoPids, fun _ => .idle⟩ contended = some final ∧
        (final.control 1).Holds ∧ final.shared.lk.pid = 2 ∧ final.shared.safeCount = 1 ∧
        ∀ first second, (final.control first).Holds → (final.control second).Holds →
          first = second :=
  ⟨_, rfl, trivial, rfl, rfl,
    (mutual_exclusion (by simp) twoPids contended _ rfl).2.1⟩

end Xv6.Ticket
