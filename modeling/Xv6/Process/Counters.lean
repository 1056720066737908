import Xv6.Process.Kill
import Xv6.Syscall.Record

/-!
Contract: the counters of completed system calls in the slots of the process table, and the
answers of `get_syscall_count`.

`allocproc` clears the counters of a slot and nothing else does; `wait` leaves those of the
process that it frees. `get_syscall_count` goes through the whole table and looks at the
numbers only, so it also answers for free slots, which have the number 0 or the one of a
`fork` that failed; and it takes the number of the system call as it is.
-/

namespace Xv6.Process

open Function (update update_of_ne update_self)
open Xv6.Lib Ptable

abbrev Counters := Fin Syscall.SYS_CALL_COUNT → Nat

/-- The table with its counters. `calls` is history: the numbers of the system calls that the
process of a slot has completed. -/
structure Counted where
  books : Books
  counters : ProcId → Counters
  calls : ProcId → List Nat

inductive Event where
  | op (op : Op)
  | complete (p : ProcId) (num : Nat)

namespace Counted

/-- `curproc->syscalls[num-1].count + 1`. -/
def increment (counters : Counters) (num : Nat) : Counters := fun i =>
  if i.val = num - 1 then (counters i + 1) % 2 ^ 32 else counters i

def next (c : Counted) : Event → Option Counted
  | .op op => (c.books.next op).map fun books =>
    match op with
    | .allocproc np =>
      { books
        counters := update c.counters np fun _ => 0
        calls := update c.calls np [] }
    | _ => { c with books }
  | .complete p num =>
    if c.books.state p = .running ∧ 0 < num ∧ num ≤ Syscall.SYS_CALL_COUNT then
      some { c with
        counters := update c.counters p (increment (c.counters p) num)
        calls := update c.calls p (num :: c.calls p) }
    else none

def booted : Counted := ⟨.booted, fun _ _ => 0, fun _ => []⟩

end Counted

def counting : System Counted Event := ⟨Counted.next⟩

/-- An access to `syscalls[index]` of a process that is not in the array. -/
structure Outside where
  p : ProcId
  index : Int
deriving DecidableEq

def readCount (counters : ProcId → Counters) (p : ProcId) (index : Int) : Except Outside Nat :=
  if inside : 0 ≤ index ∧ index < Syscall.SYS_CALL_COUNT then .ok (counters p ⟨index.toNat, by omega⟩)
  else .error ⟨p, index⟩

/-- The body of the loop, on `count` and whether `status` is 0. -/
def countSlot (t : Ptable) (counters : ProcId → Counters) (pid sysnum : Int) (found : Int × Bool) (p : ProcId) :
    Except Outside (Int × Bool) :=
  if (t.proc p).pid = pid then do
    let count ← readCount counters p (sysnum - 1)
    pure (toInt32 count, true)
  else pure found

/-- The result, and what is printed. -/
def getSyscallCount (t : Ptable) (counters : ProcId → Counters) (pid sysnum : Int) :
    Except Outside (Int × List String) := do
  let (count, found) ← all.foldlM (countSlot t counters pid sysnum) (0, false)
  if found then pure (count, []) else pure (-1, ["pid not found!\n"])

/-- The counters of a process count the calls that it has completed. -/
structure Counts (c : Counted) : Prop where
  families : Families c.books
  serials : Serials c.books
  counters : ∀ p i, c.books.state p ≠ .unused →
    c.counters p i = (c.calls p).count (i.val + 1) % 2 ^ 32

theorem Counts.op {c : Counted} (counts : Counts c) {op : Op} {c' : Counted} (did : c.next (.op op) = some c') :
    Counts c' := by
  obtain ⟨after, stepped, isAfter⟩ := Option.map_eq_some_iff.mp did
  have families := counts.families.next stepped
  rcases next_numbers stepped with ⟨np, table, rfl, found, rfl⟩ | ⟨others, same⟩
  · subst isAfter
    refine ⟨families, counts.serials.allocate found, fun p i used => ?_⟩
    by_cases isNp : p = np
    · subst isNp
      simp
    · obtain ⟨-, rfl⟩ := allocproc_cases found
      simp only [update_of_ne isNp]
      refine counts.counters p i fun isFree => used ?_
      exact (congrArg Proc.state (set_of_ne _ isNp)).trans isFree
  · have isC' : c' = { c with books := after } := by
      rw [← isAfter]
      cases op with
      | allocproc np => exact absurd rfl (others np)
      | _ => rfl
    subst isC'
    exact ⟨families, counts.serials.noneNew same, fun p i used => counts.counters p i (same.slots p used).1⟩

theorem Counts.complete {c : Counted} (counts : Counts c) {p : ProcId} {num : Nat} {c' : Counted}
    (did : c.next (.complete p num) = some c') : Counts c' := by
  obtain ⟨⟨running, positive, inRange⟩, rfl⟩ := of_guard did
  refine ⟨counts.families, counts.serials, fun q i used => ?_⟩
  by_cases isP : q = p
  · subst isP
    have before := counts.counters q i used
    simp only [update_self, Counted.increment, List.count_cons, beq_iff_eq]
    by_cases here : i.val = num - 1
    · rw [if_pos here, if_pos (by omega), before]
      omega
    · rw [if_neg here, if_neg (by omega), Nat.add_zero, before]
  · simp only [update_of_ne isP]
    exact counts.counters q i used

theorem run_counts {events : List Event} {c : Counted} (ran : counting.run .booted events = some c) : Counts c := by
  have starts : Counts .booted := by
    refine ⟨booted_families, ⟨fun _ => rfl, fun _ p used => ?_⟩, fun _ _ _ => rfl⟩
    by_cases isFirst : p = 0
    · rw [isFirst]
      rfl
    · exact absurd (congrArg Proc.state (if_neg isFirst)) used
  refine System.run_preserves Counts ?_ starts ran
  intro before event after counts stepped
  cases event with
  | op op => exact counts.op stepped
  | complete p num => exact counts.complete stepped

variable {counters : ProcId → Counters}

theorem foldlM_countSlot_none {t : Ptable} {pid sysnum : Int} {slots : List ProcId}
    (nowhere : ∀ p ∈ slots, (t.proc p).pid ≠ pid) (found : Int × Bool) :
    slots.foldlM (countSlot t counters pid sysnum) found = .ok found := by
  induction slots with
  | nil => rfl
  | cons p rest ih =>
    rw [List.foldlM_cons, countSlot, if_neg (nowhere p List.mem_cons_self)]
    exact ih fun q isIn => nowhere q (List.mem_cons_of_mem p isIn)

theorem getSyscallCount_found {t : Ptable} {pid sysnum : Int} {p : ProcId}
    (isPid : (t.proc p).pid = pid) (only : ∀ q, (t.proc q).pid = pid → q = p) {count : Nat}
    (isCount : readCount counters p (sysnum - 1) = .ok count) :
    getSyscallCount t counters pid sysnum = .ok (toInt32 count, []) := by
  obtain ⟨before, rest, split⟩ := List.append_of_mem (mem_all p)
  have distinct : (before ++ p :: rest).Nodup := split ▸ List.nodup_finRange NPROC
  have notBefore : ∀ q ∈ before, (t.proc q).pid ≠ pid := by
    intro q isIn same
    have apart := (List.nodup_append.mp distinct).2.2 q isIn p List.mem_cons_self
    exact apart (only q same)
  have notAfter : ∀ q ∈ rest, (t.proc q).pid ≠ pid := by
    intro q isIn same
    have fresh := (List.nodup_cons.mp (List.nodup_append.mp distinct).2.1).1
    exact fresh (only q same ▸ isIn)
  have folded : all.foldlM (countSlot t counters pid sysnum) (0, false) = .ok (toInt32 count, true) := by
    rw [split, List.foldlM_append, foldlM_countSlot_none notBefore]
    change (List.foldlM (countSlot t counters pid sysnum) (0, false) (p :: rest)) = _
    rw [List.foldlM_cons, countSlot, if_pos isPid, isCount]
    exact foldlM_countSlot_none notAfter _
  rw [getSyscallCount, folded]
  rfl

theorem getSyscallCount_none {t : Ptable} {pid : Int} (sysnum : Int)
    (nowhere : ∀ p, (t.proc p).pid ≠ pid) :
    getSyscallCount t counters pid sysnum = .ok (-1, ["pid not found!\n"]) := by
  rw [getSyscallCount, foldlM_countSlot_none fun p _ => nowhere p]
  rfl

theorem count_of_live (events : List Event) (c : Counted) (ran : counting.run .booted events = some c)
    (few : c.books.created < 2 ^ 31) (pid : Int)
    -- no free slot has the number
    (notFree : ∀ q, c.books.state q = .unused → (c.books.table.proc q).pid ≠ pid) :
    ((∀ p, c.books.state p ≠ .unused → (c.books.table.proc p).pid ≠ pid) → ∀ sysnum,
      getSyscallCount c.books.table c.counters pid sysnum = .ok (-1, ["pid not found!\n"])) ∧
    ∀ p, c.books.state p ≠ .unused → (c.books.table.proc p).pid = pid →
      ∀ sysnum, 1 ≤ sysnum → sysnum ≤ Syscall.SYS_CALL_COUNT → (c.calls p).count sysnum < 2 ^ 31 →
        getSyscallCount c.books.table c.counters pid sysnum = .ok ((c.calls p).count sysnum, []) := by
  have counts := run_counts ran
  refine ⟨fun nobody sysnum => getSyscallCount_none sysnum fun p => ?_, fun p used isPid sysnum low high short => ?_⟩
  · by_cases isFree : c.books.state p = .unused
    · exact notFree p isFree
    · exact nobody p isFree
  · have only : ∀ q, (c.books.table.proc q).pid = pid → q = p := by
      intro q same
      have usedQ : c.books.state q ≠ .unused := fun isFree => notFree q isFree same
      have serial := (counts.serials.pids few q usedQ).symm.trans
        (same.trans (isPid.symm.trans (counts.serials.pids few p used)))
      exact counts.families.distinct q p usedQ used (by exact_mod_cast serial)
    have inside : 0 ≤ (sysnum : Int) - 1 ∧ (sysnum : Int) - 1 < Syscall.SYS_CALL_COUNT := by omega
    have counter := counts.counters p ⟨((sysnum : Int) - 1).toNat, by omega⟩ used
    have isNum : ((sysnum : Int) - 1).toNat + 1 = sysnum := by omega
    simp only [isNum] at counter
    rw [getSyscallCount_found isPid only (dif_pos inside), counter, Nat.mod_eq_of_lt (by omega), toInt32, if_pos short]

/-- `initproc` has completed two calls of `fork`, the second of which failed. -/
def twoForks : List Event :=
  [.op (.run 0), .op (.allocproc 1), .op (.kallocWorks 1), .op (.copyuvmWorks 1 0), .op (.publish 1 0),
    .complete 0 1, .op (.allocproc 2), .op (.kallocFails 2), .complete 0 1]

theorem twoForks_counted : ∃ c, counting.run .booted twoForks = some c ∧
    getSyscallCount c.books.table c.counters 1 1 = .ok (2, []) ∧
    getSyscallCount c.books.table c.counters 7 1 = .ok (-1, ["pid not found!\n"]) := by
  have outcome : (counting.run .booted twoForks).map
      (fun c : Counted => (c.books.created, (c.calls 0).count 1, decide (c.books.state 0 = .unused),
        decide (∀ q, (c.books.table.proc q).pid ≠ 7),
        decide (∀ q, c.books.state q = .unused → (c.books.table.proc q).pid ≠ 1),
        (c.books.table.proc 0).pid)) = some (3, 2, false, true, true, 1) := by
    decide +kernel
  obtain ⟨c, ran, isOutcome⟩ := Option.map_eq_some_iff.mp outcome
  simp only [Prod.mk.injEq, decide_eq_true_eq, decide_eq_false_iff_not] at isOutcome
  obtain ⟨created, calls, used, nobody, notFree, isPid⟩ := isOutcome
  have few : c.books.created < 2 ^ 31 := by omega
  refine ⟨c, ran, ?_, ?_⟩
  · have answer := (count_of_live twoForks c ran few 1 notFree).2 0 used isPid 1 le_rfl (by decide) (by omega)
    rw [calls] at answer
    exact answer
  · exact (count_of_live twoForks c ran few 7 fun q _ => nobody q).1 (fun q _ => nobody q) 1

/-- Right after boot no process has the number 0, and the free slots answer for it; after a
`fork` that failed its slot answers for the number that it was to have; and the number of the
system call is not checked. -/
theorem count_of_free :
    (getSyscallCount Counted.booted.books.table Counted.booted.counters 0 1 = .ok (0, []) ∧
      ∀ p, Counted.booted.books.state p ≠ .unused → (Counted.booted.books.table.proc p).pid ≠ 0) ∧
    (∃ c, counting.run .booted twoForks = some c ∧ getSyscallCount c.books.table c.counters 3 1 = .ok (0, []) ∧
      ∀ p, c.books.state p ≠ .unused → (c.books.table.proc p).pid ≠ 3) ∧
    getSyscallCount Counted.booted.books.table Counted.booted.counters 1 30 = .error ⟨0, 29⟩ ∧
    getSyscallCount Counted.booted.books.table Counted.booted.counters 1 0 = .error ⟨0, -1⟩ := by
  have outcome : (counting.run .booted twoForks).map
      (fun c : Counted => (decide (getSyscallCount c.books.table c.counters 3 1 = .ok (0, [])),
        decide (∀ p, c.books.state p ≠ .unused → (c.books.table.proc p).pid ≠ 3))) = some (true, true) := by
    decide +kernel
  obtain ⟨c, ran, isOutcome⟩ := Option.map_eq_some_iff.mp outcome
  simp only [Prod.mk.injEq, decide_eq_true_eq] at isOutcome
  refine ⟨⟨by decide +kernel, by decide +kernel⟩, ⟨c, ran, isOutcome⟩, by decide +kernel, by decide +kernel⟩

end Xv6.Process
