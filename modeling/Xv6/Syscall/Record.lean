import Xv6.Param
import Xv6.Syscall.GlobalLog

/-!
Contract: the per-process record of system calls, the process table entries it
lives in, and the physical pages it is made of.

`syscall` appends to three lists for each call: the global list, and the caller's
own list of dates and list of arguments for that call number. The count of calls
doubles as the flag that the two own lists exist.

Owns: `kalloc`, `kfree`, `allocproc`, `fork`, `exit`, `wait` and `syscall`, as far
as they touch the process table and the record.
-/

namespace Xv6.Syscall

open Function Xv6.Lib

def SYS_CALL_COUNT : Nat := 29

def KERNBASE : Nat := 0x80000000

def PHYSTOP : Nat := 0xE000000

abbrev Slot := Fin NPROC

inductive Procstate where
  | UNUSED
  | EMBRYO
  | SLEEPING
  | RUNNABLE
  | RUNNING
  | ZOMBIE
deriving DecidableEq

structure Date where
  date : Rtcdate
  time : Int
  next : Nat

instance : Linked Date where
  next := Date.next
  setNext link date := { date with next := link }
  blank := ⟨junkRtcdate, junkWord, junkWord⟩
  next_setNext _ _ := rfl

instance : Linked SyscallArg where
  next := SyscallArg.next
  setNext link arg := { arg with next := link }
  blank := junkArg
  next_setNext _ _ := rfl

structure Systemcall where
  count : Nat
  datelist : Nat
  datelistEnd : Nat
  name : String
  arglist : Nat
  arglistEnd : Nat

/-- `struct proc`. `pages` are the pages of `pgdir`: the directory, its tables
and the user pages, in the order `freevm` frees them. -/
structure Proc where
  state : Procstate
  pid : Int
  parent : Option Slot
  kstack : Nat
  pages : List Nat
  killed : Bool
  name : String
  syscalls : Nat → Systemcall

/-- The kernel. `kernelEnd` is the address of the linker's `end` and `freelist`
the list of free pages. `exhausted` is history: `kalloc` has returned 0. -/
structure Kernel where
  kernelEnd : Nat
  freelist : List Nat
  exhausted : Bool
  proc : Slot → Proc
  nextpid : Int
  initproc : Option Slot
  log : GlobalLog
  dates : Heap Date
  args : Heap SyscallArg
  console : List String

/-- Why the kernel stops: a bad address, or a panic. -/
inductive Fault where
  | badAddress (addr : Nat)
  | kfree (page : Nat)
  | initExiting
  | outOfMemory
deriving DecidableEq

/-- A computation that may stop the kernel; the kernel as it then is survives. -/
abbrev Result := Except (Kernel × Fault)

/-- A heap access made by the kernel `k`. -/
def stopAt {α : Type} (k : Kernel) (access : Except Nat α) : Result α :=
  access.mapError fun addr => (k, .badAddress addr)

variable {k : Kernel}

theorem stopAt_eq_ok {Value : Type} {access : Except Nat Value} {value : Value} :
    stopAt k access = .ok value ↔ access = .ok value := by
  cases access with
  | ok value => simp [stopAt, Except.mapError]
  | error addr => simp [stopAt, Except.mapError]

namespace Kernel

def setProc (k : Kernel) (p : Slot) (proc : Proc) : Kernel :=
  { k with proc := update k.proc p proc }

theorem setProc_proc_self (k : Kernel) (p : Slot) (proc : Proc) : (k.setProc p proc).proc p = proc :=
  update_self ..

theorem setProc_proc_other (k : Kernel) {p q : Slot} (other : q ≠ p) (proc : Proc) :
    (k.setProc p proc).proc q = k.proc q := update_of_ne other ..

def kalloc (k : Kernel) : Nat × Kernel :=
  match k.freelist with
  | [] => (0, { k with exhausted := true })
  | page :: rest => (page, { k with freelist := rest })

/-- The pages `kfree` accepts. -/
def ValidPage (kernelEnd page : Nat) : Prop :=
  page % PGSIZE = 0 ∧ kernelEnd ≤ page ∧ page - KERNBASE < PHYSTOP

instance (kernelEnd page : Nat) : Decidable (ValidPage kernelEnd page) :=
  inferInstanceAs (Decidable (_ ∧ _ ∧ _))

def kfree (k : Kernel) (page : Nat) : Result Kernel :=
  if ValidPage k.kernelEnd page then .ok { k with freelist := page :: k.freelist }
  else .error (k, .kfree page)

def kfreeAll (k : Kernel) (pages : List Nat) : Result Kernel := pages.foldlM kfree k

/-- `count` pages for an address space (`copyuvm`, `setupkvm`); on failure the
pages obtained so far go back through `freevm`. -/
def takePages (k : Kernel) : Nat → Option (List Nat) × Kernel
  | 0 => (some [], k)
  | count + 1 =>
    match k.freelist with
    | [] => (none, { k with exhausted := true })
    | page :: rest =>
      match takePages { k with freelist := rest } count with
      | (some pages, k) => (some (page :: pages), k)
      | (none, k) => (none, { k with freelist := page :: k.freelist })

def findSlot (k : Kernel) (wanted : Proc → Bool) : Option Slot :=
  (List.finRange NPROC).find? fun p => wanted (k.proc p)

/-- The slot found becomes EMBRYO with a new pid and all counts zero. -/
def claimSlot (k : Kernel) (np : Slot) : Kernel :=
  { k.setProc np { k.proc np with
      state := .EMBRYO, pid := k.nextpid,
      syscalls := fun i => { (k.proc np).syscalls i with count := 0 } } with
    nextpid := k.nextpid + 1 }

def allocproc (k : Kernel) : Option Slot × Kernel :=
  match k.findSlot fun proc => proc.state = .UNUSED with
  | none => (none, k)
  | some np =>
    let k := k.claimSlot np
    let (page, k) := k.kalloc
    let k := k.setProc np { k.proc np with kstack := page }
    if page = 0 then (none, k.setProc np { k.proc np with state := .UNUSED }) else (some np, k)

/-- The first process, whose address space takes `count` pages. -/
def userinit (k : Kernel) (count : Nat) : Result Kernel :=
  match k.allocproc with
  | (none, k) => .error (k, .badAddress 0)
  | (some np, k) =>
    match k.takePages count with
    | (none, k) => .error (k, .outOfMemory)
    | (some pages, k) =>
      .ok { k.setProc np { k.proc np with
          pages := pages, name := "initcode", state := .RUNNABLE } with
        initproc := some np }

/-- `fork` by `p`, whose address space takes `count` pages. -/
def fork (k : Kernel) (p : Slot) (count : Nat) : Result Kernel :=
  match k.allocproc with
  | (none, k) => .ok k
  | (some np, k) =>
    match k.takePages count with
    | (none, k) => do
      let k ← k.kfree (k.proc np).kstack
      pure (k.setProc np { k.proc np with kstack := 0, state := .UNUSED })
    | (some pages, k) =>
      .ok (k.setProc np { k.proc np with
        pages := pages, parent := some p, name := (k.proc p).name, state := .RUNNABLE })

/-- The loop of `exit` that passes abandoned children to init. -/
def adopt (k : Kernel) (p : Slot) : Kernel :=
  { k with proc := fun q =>
      if (k.proc q).parent = some p then { k.proc q with parent := k.initproc } else k.proc q }

def exit (k : Kernel) (p : Slot) : Result Kernel :=
  if k.initproc = some p then .error (k, .initExiting)
  else .ok ((k.adopt p).setProc p { (k.adopt p).proc p with state := .ZOMBIE })

/-- What one pass of `wait` over the table comes to. -/
inductive WaitPass where
  | reaped (pid : Int)
  | failed
  | sleeps

def wait (k : Kernel) (p : Slot) : Result (Kernel × WaitPass) :=
  match k.findSlot fun proc => proc.parent = some p ∧ proc.state = .ZOMBIE with
  | some q => do
    let child := k.proc q
    let k ← k.kfreeAll (child.kstack :: child.pages)
    pure (k.setProc q { child with
      kstack := 0, pages := [], pid := 0, parent := none, name := "", killed := false,
      state := .UNUSED }, .reaped child.pid)
  | none =>
    if (k.findSlot fun proc => proc.parent = some p).isNone ∨ (k.proc p).killed then
      .ok (k, .failed)
    else .ok (k, .sleeps)

/-- The block of statements for `first_proc` and `last_proc`, run without
interruption. -/
def recordGlobal (k : Kernel) (call : Call) (now : Rtcdate) : Result Kernel := do
  let branch : Branch := if k.log.firstProc = 0 then .empty else .append
  let (page, k) := k.kalloc
  let log ← stopAt k ([Stmt.kalloc branch, .name branch, .date branch, .pid branch, .next branch,
    .last branch].foldlM (fun log stmt => stmt.exec log call page now) k.log)
  pure { k with log := log }

/-- The statements for `datelist` and `arglist`: a first call starts the list,
a later one extends it. The result is the heap, the list and its end. -/
def appendRecord {Cell : Type} [Linked Cell] (heap : Heap Cell) (count first last page : Nat) :
    Except Nat (Heap Cell × Nat × Nat) :=
  if count = 0 then (heap.start page).map fun heap => (heap, page, page)
  else (heap.extend last page).map fun (heap, last) => (heap, first, last)

/-- The record of the caller itself for call number `num`. -/
def recordOwn (k : Kernel) (p : Slot) (num : Nat) (now : Rtcdate) (image : UserImage) :
    Result Kernel := do
  let entry := (k.proc p).syscalls (num - 1)
  let (page, k) := k.kalloc
  let (dates, datelist, datelistEnd) ←
    stopAt k (appendRecord k.dates entry.count entry.datelist entry.datelistEnd page)
  let (page, k) := k.kalloc
  let (args, arglist, arglistEnd) ←
    stopAt k (appendRecord k.args entry.count entry.arglist entry.arglistEnd page)
  let dates ← stopAt k (dates.store datelistEnd fun date => { date with date := now })
  let (arg, message) := fillArglist image (← stopAt k (args.load arglistEnd)) num
  let args ← stopAt k (args.store arglistEnd fun _ => arg)
  let entry : Systemcall :=
    { count := (entry.count + 1) % 2 ^ 32, datelist := datelist, datelistEnd := datelistEnd,
      name := syscallsString.getD (num - 1) "", arglist := arglist, arglistEnd := arglistEnd }
  pure { k.setProc p { k.proc p with
      syscalls := update (k.proc p).syscalls (num - 1) entry } with
    dates := dates, args := args, console := k.console ++ message.toList }

/-- `syscall` by `p` with call number `num`, after its handler has returned.
`now` are the two readings of the clock, and `image` is the process then. -/
def syscall (k : Kernel) (p : Slot) (num : Int) (now : Rtcdate × Rtcdate) (image : UserImage) :
    Result Kernel :=
  if 0 < num ∧ num ≤ SYS_CALL_COUNT then do
    let k ← k.recordGlobal ⟨syscallsString.getD (num.toNat - 1) "", (k.proc p).pid⟩ now.1
    k.recordOwn p num.toNat now.2 image
  else
    .ok { k with console := k.console ++ [toString (k.proc p).pid ++ " " ++ (k.proc p).name ++
      ": unknown sys call " ++ toString num ++ "\n"] }

/-- The list of one call number: as many cells as the count says, and when there
are any, `last` is the last of them. -/
structure Holds {Cell : Type} [Linked Cell] (heap : Heap Cell) (count first last : Nat)
    (cells : List Nat) : Prop where
  count : count = cells.length
  list : cells ≠ [] → heap.IsList first cells ∧ cells.getLast? = some last

variable {cells : List Nat}

theorem Holds.frame {Cell : Type} [Linked Cell] {heap heap' : Heap Cell} {count first last : Nat}
    (holds : Holds heap count first last cells)
    (same : ∀ cell ∈ cells, heap'.cell cell = heap.cell cell)
    (kept : ∀ cell ∈ cells, cell ∈ heap'.pages) : Holds heap' count first last cells :=
  ⟨holds.count, fun nonempty => ⟨(holds.list nonempty).1.frame same kept, (holds.list nonempty).2⟩⟩

theorem appendRecord_spec {Cell : Type} [Linked Cell] {heap : Heap Cell}
    {count first last page : Nat} (holds : Holds heap count first last cells) (nonzero : page ≠ 0)
    (isFresh : page ∉ heap.pages) :
    ∃ after first', appendRecord heap count first last page = .ok (after, first', page) ∧
      Holds after (count + 1) first' page (cells ++ [page]) ∧ after.pages = page :: heap.pages ∧
      ∀ addr, addr ≠ page → addr ∉ cells → after.cell addr = heap.cell addr := by
  have counted : count + 1 = (cells ++ [page]).length := by simp [holds.count]
  by_cases empty : cells = []
  · subst empty
    obtain ⟨after, started, list, pages, same⟩ := heap.start_spec nonzero
    refine ⟨after, page, ?_, ⟨counted, fun _ => ⟨list, by simp⟩⟩, pages, fun addr other _ =>
      same addr other⟩
    rw [appendRecord, if_pos (by simp [holds.count]), started]
    rfl
  · obtain ⟨list, isLast⟩ := holds.list empty
    obtain ⟨front, split⟩ := List.getLast?_eq_some_iff.mp isLast
    subst split
    obtain ⟨after, extended, list, pages, same⟩ := Heap.extend_spec list nonzero isFresh
    rw [List.append_cons] at list
    refine ⟨after, first, ?_, ⟨counted, fun _ => ⟨list, by simp⟩⟩, pages, ?_⟩
    · rw [appendRecord, if_neg (by simp [holds.count]), extended]
      rfl
    · intro addr notPage notCell
      exact same addr notPage fun isLast => notCell (by simp [isLast])

private theorem cell_of_fill {log after : GlobalLog} {branch : Branch} {change : Node → Node}
    (ran : (log.target branch >>= fun addr => log.storeNode addr change) = .ok after) :
    ∃ addr, log.target branch = .ok addr ∧
      after.cell = update log.cell addr (change (log.cell addr)) := by
  obtain ⟨addr, found, stored⟩ := bind_eq_ok.mp ran
  refine ⟨addr, found, ?_⟩
  by_cases held : addr ∈ log.pages
  · rw [GlobalLog.storeNode_eq held] at stored
    cases stored
    rfl
  · rw [GlobalLog.storeNode, Heap.store, if_neg held] at stored
    cases stored

private theorem date_kept {log after : GlobalLog} {branch : Branch} {change : Node → Node}
    (ran : (log.target branch >>= fun addr => log.storeNode addr change) = .ok after)
    (same : ∀ node, (change node).date = node.date) (cell : Nat) :
    (after.cell cell).date = (log.cell cell).date := by
  obtain ⟨addr, -, cells⟩ := cell_of_fill ran
  rw [cells]
  by_cases here : cell = addr
  · rw [here, update_self, same]
  · rw [update_of_ne here]

theorem recordGlobal_spec {calls : List Call} {page : Nat} {rest : List Nat}
    (lists : k.log.Lists cells 0 calls) (supply : k.freelist = page :: rest) (nonzero : page ≠ 0)
    (isFresh : page ∉ k.log.pages) (call : Call) (now : Rtcdate) :
    ∃ log, k.recordGlobal call now = .ok { k with freelist := rest, log := log } ∧
      log.Lists (cells ++ [page]) 0 (calls ++ [call]) ∧ log.pages = page :: k.log.pages ∧
      (log.cell page).date = now := by
  let branch : Branch := if cells = [] then .empty else .append
  have sameBranch : (if k.log.firstProc = 0 then Branch.empty else .append) = branch := by
    simp only [branch, lists.chain.start_eq_null]
  obtain ⟨log1, ran1, linked, -, pages1⟩ := lists.kalloc call now nonzero isFresh (rfl : branch = _)
  obtain ⟨log2, ran2, -, pages2, named⟩ := linked.exec page now
  obtain ⟨log3, ran3, -, pages3, dated⟩ := GlobalLog.Appending.exec named page now
  obtain ⟨log4, ran4, -, pages4, owned⟩ := GlobalLog.Appending.exec dated page now
  obtain ⟨log5, ran5, -, pages5, ended⟩ := GlobalLog.Appending.exec owned page now
  obtain ⟨log6, ran6, -, pages6, whole⟩ := GlobalLog.Appending.exec ended page now
  refine ⟨log6, ?_, whole, ?_, ?_⟩
  · simp only [recordGlobal, kalloc, supply, sameBranch, List.foldlM, ran1, ran2, ran3, ran4, ran5,
      ran6, bind, Except.bind, pure, Except.pure, stopAt, Except.mapError]
  · rw [pages6, pages5, pages4, pages3, pages2, pages1]
  · -- later statements keep the date
    have target : log2.target branch = .ok page := named.lists.target_eq
    obtain ⟨addr, found, stamped⟩ := cell_of_fill ran3
    rw [target] at found
    cases found
    have kept : log6.cell = log5.cell := by
      obtain ⟨addr, -, result⟩ := bind_eq_ok.mp ran6
      cases result
      rfl
    rw [kept, date_kept ran5 (fun _ => rfl), date_kept ran4 (fun _ => rfl), stamped,
      update_self]

theorem Holds.fill {Cell : Type} [Linked Cell] {heap : Heap Cell} {count first last : Nat}
    (holds : Holds heap count first last cells) (addr : Nat) {content : Cell}
    (sameNext : Linked.next content = Linked.next (heap.cell addr)) :
    Holds { heap with cell := update heap.cell addr content } count first last cells := by
  refine ⟨holds.count, fun nonempty => ⟨⟨?_, (holds.list nonempty).1.allocated⟩,
    (holds.list nonempty).2⟩⟩
  apply (holds.list nonempty).1.chain.frame
  intro cell _
  show Linked.next (update heap.cell addr content cell) = Linked.next (heap.cell cell)
  by_cases here : cell = addr
  · rw [here, update_self, sameNext]
  · rw [update_of_ne here]

theorem recordOwn_spec {p : Slot} {num datePage argPage : Nat} {entry : Systemcall}
    {dateCells argCells rest : List Nat} (found : (k.proc p).syscalls (num - 1) = entry)
    (dates : Holds k.dates entry.count entry.datelist entry.datelistEnd dateCells)
    (args : Holds k.args entry.count entry.arglist entry.arglistEnd argCells)
    (supply : k.freelist = datePage :: argPage :: rest)
    (dateFresh : datePage ≠ 0 ∧ datePage ∉ k.dates.pages)
    (argFresh : argPage ≠ 0 ∧ argPage ∉ k.args.pages) (room : entry.count + 1 < 2 ^ 32)
    (now : Rtcdate) (image : UserImage) :
    ∃ dates' args' entry' console', k.recordOwn p num now image =
        .ok { k.setProc p { k.proc p with
            syscalls := update (k.proc p).syscalls (num - 1) entry' } with
          freelist := rest, dates := dates', args := args', console := console' } ∧
      Holds dates' entry'.count entry'.datelist entry'.datelistEnd (dateCells ++ [datePage]) ∧
      Holds args' entry'.count entry'.arglist entry'.arglistEnd (argCells ++ [argPage]) ∧
      dates'.pages = datePage :: k.dates.pages ∧ args'.pages = argPage :: k.args.pages ∧
      (∀ addr, addr ≠ datePage → addr ∉ dateCells → dates'.cell addr = k.dates.cell addr) ∧
      (∀ addr, addr ≠ argPage → addr ∉ argCells → args'.cell addr = k.args.cell addr) ∧
      (dates'.cell datePage).date = now ∧
      ∃ arg, args'.cell argPage = (fillArglist image arg num).1 := by
  subst found
  obtain ⟨dates1, datelist, datesRan, datesHold, datePages, datesSame⟩ :=
    appendRecord_spec dates dateFresh.1 dateFresh.2
  obtain ⟨args1, arglist, argsRan, argsHold, argPages, argsSame⟩ :=
    appendRecord_spec args argFresh.1 argFresh.2
  have dateHeld : datePage ∈ dates1.pages := datePages ▸ List.mem_cons_self
  have argHeld : argPage ∈ args1.pages := argPages ▸ List.mem_cons_self
  have noWrap := Nat.mod_eq_of_lt room
  let stamp : Date := { dates1.cell datePage with date := now }
  let filled := fillArglist image (args1.cell argPage) num
  refine ⟨{ dates1 with cell := update dates1.cell datePage stamp },
    { args1 with cell := update args1.cell argPage filled.1 },
    ⟨((k.proc p).syscalls (num - 1)).count + 1, datelist, datePage,
      syscallsString.getD (num - 1) "", arglist, argPage⟩,
    k.console ++ filled.2.toList, ?_, ?_, ?_, datePages, argPages, ?_, ?_, ?_, ?_⟩
  · simp only [recordOwn, kalloc, supply, stopAt, datesRan, argsRan, bind, Except.bind, pure,
      Except.pure, Except.mapError, Heap.store_eq dateHeld, Heap.load_eq argHeld,
      Heap.store_eq argHeld, noWrap]
    rfl
  · exact datesHold.fill datePage rfl
  · exact argsHold.fill argPage (fillArglist_next image _ num)
  · intro addr notPage notCell
    exact (update_of_ne notPage ..).trans (datesSame addr notPage notCell)
  · intro addr notPage notCell
    exact (update_of_ne notPage ..).trans (argsSame addr notPage notCell)
  · show (update dates1.cell datePage stamp datePage).date = now
    rw [update_self]
  · exact ⟨_, update_self ..⟩

def finalKernel : Result Kernel → Kernel
  | .ok k => k
  | .error (k, _) => k

theorem exhausted_bind {α : Type} (spent : k.exhausted = true) (access : Except Nat α)
    {continuation : α → Result Kernel}
    (rest : ∀ value, (finalKernel (continuation value)).exhausted = true) :
    (finalKernel (stopAt k access >>= continuation)).exhausted = true := by
  cases access with
  | ok value => exact rest value
  | error addr => exact spent

theorem kalloc_exhausted (spent : k.exhausted = true) : k.kalloc.2.exhausted = true := by
  unfold kalloc
  split
  · rfl
  · exact spent

theorem kalloc_exhausted_of_empty (empty : k.freelist = []) : k.kalloc.2.exhausted = true := by
  simp [kalloc, empty]

/-- Once `kalloc` has failed, the rest of `recordOwn` keeps the flag. -/
theorem recordOwn_exhausted (p : Slot) (num : Nat) (now : Rtcdate) (image : UserImage)
    (spent : k.kalloc.2.exhausted = true) :
    (finalKernel (k.recordOwn p num now image)).exhausted = true := by
  unfold recordOwn
  apply exhausted_bind spent
  intro dates
  have spentAgain := kalloc_exhausted spent
  apply exhausted_bind spentAgain
  intro args
  apply exhausted_bind spentAgain
  intro stamped
  apply exhausted_bind spentAgain
  intro arg
  apply exhausted_bind spentAgain
  intro filled
  exact spentAgain

/-- With one page left, the argument list goes without. -/
theorem recordOwn_exhausted_of_single {p : Slot} {num datePage : Nat} {entry : Systemcall}
    {dateCells : List Nat} (found : (k.proc p).syscalls (num - 1) = entry)
    (dates : Holds k.dates entry.count entry.datelist entry.datelistEnd dateCells)
    (supply : k.freelist = [datePage]) (dateFresh : datePage ≠ 0 ∧ datePage ∉ k.dates.pages)
    (now : Rtcdate) (image : UserImage) :
    (finalKernel (k.recordOwn p num now image)).exhausted = true := by
  subst found
  obtain ⟨after, datelist, datesRan, -⟩ := appendRecord_spec dates dateFresh.1 dateFresh.2
  have page : k.kalloc = (datePage, { k with freelist := [] }) := by simp [kalloc, supply]
  have spent : (kalloc { k with freelist := [] }).2.exhausted = true :=
    kalloc_exhausted_of_empty rfl
  unfold recordOwn
  rw [page]
  simp only [datesRan]
  apply exhausted_bind spent
  intro args
  apply exhausted_bind spent
  intro stamped
  apply exhausted_bind spent
  intro arg
  apply exhausted_bind spent
  intro filled
  exact spent

theorem recordGlobal_exhausted (empty : k.freelist = []) (call : Call) (now : Rtcdate)
    {continuation : Kernel → Result Kernel}
    (rest : ∀ after : Kernel, after.exhausted = true → (finalKernel (continuation after)).exhausted = true) :
    (finalKernel (k.recordGlobal call now >>= continuation)).exhausted = true := by
  have spent := kalloc_exhausted_of_empty empty
  unfold recordGlobal
  simp only [bind_assoc]
  apply exhausted_bind spent
  intro log
  exact rest _ spent

end Kernel

end Xv6.Syscall
