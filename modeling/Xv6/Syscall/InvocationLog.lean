import Xv6.Syscall.RecordedArgs

/-!
Contract: what `invocation_log` prints, and the user memory that it reads to do so.

The records have raw user pointers, of the process that made the calls at the time of the
calls. `invocation_log` prints some of them with `%s`, which reads the string in the address
space of the process that runs then. A record whose arguments could not be fetched still has
what its page held before.

Does not own: the lists themselves (`Syscall.RecordInvariant`).
-/

namespace Xv6.Syscall

open Function Xv6.Lib

/-! ### `invocation_log` -/

/-- A part of what `cprintf` prints. `str` is a `%s` of a pointer from a record, which is read
where it points unless it is null; `type` is one of the texts in a record, unless they were
never written. -/
inductive Piece where
  | text (text : String)
  | int (value : Int)
  | hex (value : Nat)
  | name (name : String)
  | type (type : Option String)
  | str (addr : Nat)

/-- The line for a record of the call with the number `i + 1`, in which `inside` is what stands
between the parentheses. -/
def callLine (pid : Int) (name : String) (inside : List Piece) : List Piece :=
  [.int pid, .text " ", .name name, .text "  ("] ++ inside ++ [.text ")\n"]

/-- The arguments that are printed for the call with the number `i + 1`. -/
def printedArgs (a : SyscallArg) (i : Nat) : Option (List Piece) :=
  match i with
  | 0 | 1 | 2 | 13 | 10 | 27 | 28 => some [.type (a.type 0)]
  | 21 | 22 | 24 | 5 | 11 | 12 | 9 | 20 => some [.type (a.type 0), .text " ", .int (a.intArgv 0)]
  | 23 => some [.type (a.type 0), .text " ", .int (a.intArgv 0), .text ", ", .type (a.type 1), .text " ",
      .int (a.intArgv 1)]
  | 3 => some [.type (a.type 0), .text " 0x", .hex a.intptrArgv]
  | 4 | 15 => some [.type (a.type 0), .text " ", .int (a.intArgv 0), .text ", ", .type (a.type 1), .text " 0x",
      .hex (a.strArgv 0), .text ", ", .type (a.type 2), .text " ", .int (a.intArgv 1)]
  | 6 => some [.type (a.type 0), .text " 0x", .hex (a.strArgv 0), .text ", ", .type (a.type 1), .text " 0x",
      .hex (a.ptrArgv 0)]
  | 14 => some [.type (a.type 0), .text " ", .str (a.strArgv 0), .text ", ", .type (a.type 1), .text " ",
      .int (a.intArgv 0)]
  | 17 | 19 | 8 => some [.type (a.type 0), .text " ", .str (a.strArgv 0)]
  | 18 => some [.type (a.type 0), .text " ", .str (a.strArgv 0), .text ", ", .type (a.type 1), .text " ",
      .str (a.strArgv 1)]
  | 7 => some [.type (a.type 0), .text " ", .int (a.intArgv 0), .text ", ", .type (a.type 1), .text " 0x", .hex a.st]
  | 16 => some [.type (a.type 0), .text " ", .str (a.strArgv 0), .text ", ", .type (a.type 1), .text " ",
      .int (a.intArgv 0), .text ", ", .type (a.type 2), .text " ", .int (a.intArgv 1)]
  | _ => none

/-- The body of the loop over the lists of a call number. -/
def printRecord (pid : Int) (entry : Systemcall) (i : Nat) (d : Date) (a : SyscallArg) : List Piece :=
  [.int entry.count, .text " syscall : ID :", .int (i + 1), .text " NAME:", .name entry.name, .text " DATE: ",
    .int d.date.hour, .text ":", .int d.date.minute, .text ":", .int d.date.second, .text " ", .int d.date.year,
    .text "-", .int d.date.month, .text "-", .int d.date.day, .text "\n"] ++
    ((printedArgs a i).map (callLine pid entry.name)).getD []

/-- How `invocation_log` can fail to return: a bad address of a record, or lists without
end. -/
inductive LogFault where
  | badAddress (addr : Nat)
  | forever

def loadAt {Cell : Type} (heap : Heap Cell) (addr : Nat) : Except LogFault Cell :=
  (heap.load addr).mapError .badAddress

/-- The loop over the lists of a call number. It has no more rounds than there are pages of
dates, unless it goes on forever. -/
def printRecords (k : Kernel) (pid : Int) (entry : Systemcall) (i : Nat) :
    (rounds d a : Nat) → Except LogFault (List Piece)
  | 0, d, a => if d = 0 ∨ a = 0 then .ok [] else .error .forever
  | rounds + 1, d, a =>
    if d = 0 ∨ a = 0 then .ok []
    else do
      let date ← loadAt k.dates d
      let arg ← loadAt k.args a
      let rest ← printRecords k pid entry i rounds date.next arg.next
      pure (printRecord pid entry i date arg ++ rest)

/-- The loop over the call numbers of a process, with whether `status` is 0. -/
def printProc (k : Kernel) (p : Slot) : (numbers : List Nat) → Except LogFault (Bool × List Piece)
  | [] => .ok (false, [])
  | i :: rest =>
    let entry := (k.proc p).syscalls i
    if 0 < entry.count then do
      let pieces ← printRecords k (k.proc p).pid entry i k.dates.pages.length entry.datelist entry.arglist
      let (_, more) ← printProc k p rest
      pure (true, pieces ++ more)
    else printProc k p rest

def printProcs (k : Kernel) (pid : Int) : (slots : List Slot) → Except LogFault (Bool × List Piece)
  | [] => .ok (false, [])
  | p :: rest =>
    if (k.proc p).pid = pid then do
      let (found, pieces) ← printProc k p (List.range SYS_CALL_COUNT)
      let (later, more) ← printProcs k pid rest
      pure (found || later, pieces ++ more)
    else printProcs k pid rest

def invocationLog (k : Kernel) (pid : Int) : Except LogFault (Int × List Piece) := do
  let (found, pieces) ← printProcs k pid (List.finRange NPROC)
  if found then pure (0, pieces) else pure (-1, pieces ++ [.text "pid not found!\n"])

/-- The addresses of the strings that are read. -/
def stringsRead (pieces : List Piece) : List Nat :=
  pieces.filterMap fun piece =>
    match piece with
    | .str addr => if addr = 0 then none else some addr
    | _ => none

/-- The string at `addr` is in mapped user memory, up to its NUL. -/
def UserImage.Readable (image : UserImage) (addr : Nat) : Prop :=
  ∃ length, addr + length < (image.sz + PGSIZE - 1) / PGSIZE * PGSIZE ∧ image.mem (addr + length) = 0

/-! ### What the records hold -/

/-- The record without its place in the list. -/
def SyscallArg.unlinked (arg : SyscallArg) : SyscallArg := { arg with next := 0 }

theorem grant_unlinked {heap : Heap SyscallArg} {page : Nat} (nonzero : page ≠ 0) (addr : Nat) :
    (heap.grant page).cell addr = if addr = page then junkArg else heap.cell addr := by
  rw [Heap.grant_eq heap nonzero]
  exact update_apply ..

theorem store_unlinked {heap after : Heap SyscallArg} {addr link : Nat}
    (stored : heap.store addr (Linked.setNext link) = .ok after) (other : Nat) :
    (after.cell other).unlinked = (heap.cell other).unlinked := by
  unfold Heap.store at stored
  split at stored
  · cases stored
    simp only [update_apply]
    split
    · rename_i here
      rw [here]
      rfl
    · rfl
  · cases stored

/-- The new page has junk, and the other records stay as they are but for the links. -/
theorem appendRecord_unlinked {heap after : Heap SyscallArg} {count first last page first' last' : Nat}
    (nonzero : page ≠ 0) (ran : Kernel.appendRecord heap count first last page = .ok (after, first', last'))
    (addr : Nat) :
    (after.cell addr).unlinked = (if addr = page then junkArg else heap.cell addr).unlinked := by
  unfold Kernel.appendRecord at ran
  rw [← grant_unlinked nonzero]
  split at ran
  · unfold Heap.start at ran
    cases started : (heap.grant page).store page (Linked.setNext 0) with
    | error failed =>
      rw [started] at ran
      cases ran
    | ok result =>
      rw [started] at ran
      cases ran
      exact store_unlinked started addr
  · cases extended : heap.extend last page with
    | error failed =>
      rw [extended] at ran
      cases ran
    | ok result =>
      rw [extended] at ran
      cases ran
      obtain ⟨linked, stored, more⟩ := bind_eq_ok.mp extended
      obtain ⟨cell, -, more⟩ := bind_eq_ok.mp more
      obtain ⟨ended, stored', more⟩ := bind_eq_ok.mp more
      obtain ⟨cell', -, isResult⟩ := bind_eq_ok.mp more
      cases isResult
      exact (store_unlinked stored' addr).trans (store_unlinked stored addr)

theorem fillArglist_unlinked (image : UserImage) (arg : SyscallArg) (num : Nat) :
    (fillArglist image arg.unlinked num).1 = (fillArglist image arg num).1.unlinked := by
  unfold fillArglist
  split
  all_goals try rfl
  all_goals
    dsimp only
    split
    all_goals try rfl
  all_goals
    split
    all_goals rfl

/-! ### Runs -/

/-- The machine with more history: the process as `fill_arglist` found it, by the page of the
record that it filled. -/
structure Logged where
  machine : Machine
  images : Nat → UserImage

/-- The history after an action. -/
def Logged.imagesAfter (s : Logged) : Action → Nat → UserImage
  | .syscall _ num _ image =>
    if 0 < num ∧ num ≤ SYS_CALL_COUNT then
      update s.images (s.machine.kernel.freelist.getD 2 0) image
    else s.images
  | _ => s.images

def Logged.next (s : Logged) (action : Action) : Option Logged :=
  (machineNext s.machine action).map fun m => ⟨m, s.imagesAfter action⟩

def logging : System Logged Action := ⟨Logged.next⟩

def Memory.bootLogged (memory : Memory) : Logged := ⟨memory.boot, fun _ => ⟨0, 0, fun _ => 0⟩⟩

/-- The records have what `fill_arglist` made of a page of junk. -/
def Logged.Filled (s : Logged) : Prop :=
  ∀ p, ∀ call ∈ s.machine.calls p, (s.machine.kernel.args.cell call.argPage).unlinked =
    (fillArglist (s.images call.argPage) junkArg call.num).1.unlinked

section

variable (k : Kernel)

theorem kalloc_args : k.kalloc.2.args = k.args := by
  unfold Kernel.kalloc
  split
  · rfl
  · rfl

theorem takePages_args (count : Nat) : (k.takePages count).2.args = k.args := by
  induction count generalizing k with
  | zero => rfl
  | succ count ih =>
    unfold Kernel.takePages
    split
    · rfl
    · rename_i page rest _
      have later := ih { k with freelist := rest }
      split
      · rename_i ran
        rw [ran] at later
        exact later
      · rename_i ran
        rw [ran] at later
        exact later

theorem allocproc_args : k.allocproc.2.args = k.args := by
  unfold Kernel.allocproc
  split
  · rfl
  · rename_i np _
    have later := kalloc_args (k.claimSlot np)
    dsimp only
    split
    · exact later
    · exact later

theorem kfree_args (page : Nat) : (Kernel.finalKernel (k.kfree page)).args = k.args := by
  unfold Kernel.kfree
  split
  · rfl
  · rfl

theorem kfreeAll_args (pages : List Nat) : (Kernel.finalKernel (k.kfreeAll pages)).args = k.args := by
  induction pages generalizing k with
  | nil => rfl
  | cons page rest ih =>
    rw [Kernel.kfreeAll, List.foldlM_cons]
    by_cases valid : Kernel.ValidPage k.kernelEnd page
    · rw [Kernel.kfree, if_pos valid]
      exact ih { k with freelist := page :: k.freelist }
    · rw [Kernel.kfree, if_neg valid]
      rfl

theorem fork_args (p : Slot) (count : Nat) : (Kernel.finalKernel (k.fork p count)).args = k.args := by
  have allocated := allocproc_args k
  unfold Kernel.fork
  split
  · rename_i ran
    rw [ran] at allocated
    exact allocated
  · rename_i np middle ran
    rw [ran] at allocated
    have took := (takePages_args middle count).trans allocated
    split
    · rename_i after tookEq
      rw [tookEq] at took
      have freed := (kfree_args after (after.proc np).kstack).trans took
      cases isFreed : after.kfree (after.proc np).kstack with
      | ok last =>
        rw [isFreed] at freed
        exact freed
      | error stopped =>
        rw [isFreed] at freed
        exact freed
    · rename_i after tookEq
      rw [tookEq] at took
      exact took

theorem userinit_args (count : Nat) : (Kernel.finalKernel (k.userinit count)).args = k.args := by
  have allocated := allocproc_args k
  unfold Kernel.userinit
  split
  · rename_i ran
    rw [ran] at allocated
    exact allocated
  · rename_i np middle ran
    rw [ran] at allocated
    have took := (takePages_args middle count).trans allocated
    split
    · rename_i after tookEq
      rw [tookEq] at took
      exact took
    · rename_i after tookEq
      rw [tookEq] at took
      exact took

theorem exit_args (p : Slot) : (Kernel.finalKernel (k.exit p)).args = k.args := by
  unfold Kernel.exit
  split
  · rfl
  · rfl

theorem wait_args (p : Slot) : (Kernel.finalKernel ((k.wait p).map Prod.fst)).args = k.args := by
  unfold Kernel.wait
  split
  · rename_i q _
    have freed := kfreeAll_args k ((k.proc q).kstack :: (k.proc q).pages)
    dsimp only
    cases isFreed : k.kfreeAll ((k.proc q).kstack :: (k.proc q).pages) with
    | ok after =>
      rw [isFreed] at freed
      exact freed
    | error stopped =>
      rw [isFreed] at freed
      exact freed
  · split
    · rfl
    · rfl

theorem growPages_args (p : Slot) : (k.growPages p).args = k.args := by
  have later := kalloc_args k
  unfold Kernel.growPages
  dsimp only
  split
  · exact later
  · exact later

theorem shrinkPages_args (p : Slot) (page : Nat) :
    (Kernel.finalKernel (k.shrinkPages p page)).args = k.args := by
  have freed := kfree_args k page
  unfold Kernel.shrinkPages
  cases isFreed : k.kfree page with
  | ok after =>
    rw [isFreed] at freed
    exact freed
  | error stopped =>
    rw [isFreed] at freed
    exact freed

end

theorem settle_calls (m : Machine) (calls : Slot → List Completed) (result : Result Kernel) (p : Slot) :
    (m.settle calls result).calls p = calls p ∨ (m.settle calls result).calls p = m.calls p := by
  cases result with
  | ok k => exact Or.inl rfl
  | error stopped => exact Or.inr rfl

theorem forget_calls (m : Machine) (p : Slot) : m.forget p = m.calls p ∨ m.forget p = [] := by
  cases found : m.kernel.findSlot fun proc => proc.state = .UNUSED with
  | none =>
    rw [forget_of_none found]
    exact Or.inl rfl
  | some np =>
    rw [forget_of_slot found]
    by_cases isNp : p = np
    · rw [isNp]
      exact Or.inr (update_self ..)
    · exact Or.inl (update_of_ne isNp ..)

theorem machineNext_args {m after : Machine} {action : Action} (stepped : machineNext m action = some after)
    (notCall : ∀ p num now image, action ≠ .syscall p num now image) :
    after.kernel.args = m.kernel.args ∧ ∀ p, after.calls p = m.calls p ∨ after.calls p = [] := by
  have settled : ∀ calls result, (Kernel.finalKernel result).args = m.kernel.args →
      (∀ p, calls p = m.calls p ∨ calls p = []) → (m.settle calls result).kernel.args = m.kernel.args ∧
        ∀ p, (m.settle calls result).calls p = m.calls p ∨ (m.settle calls result).calls p = [] := by
    intro calls result args kept
    refine ⟨(congrArg Kernel.args (settle_kernel m calls result)).trans args, fun p => ?_⟩
    rcases settle_calls m calls result p with same | same
    · rw [same]
      exact kept p
    · exact Or.inl same
  have sameCalls : ∀ p, m.calls p = m.calls p ∨ m.calls p = [] := fun _ => Or.inl rfl
  cases action with
  | userinit count =>
    obtain ⟨-, rfl⟩ := of_guard stepped
    exact settled _ _ (userinit_args m.kernel count) (forget_calls m)
  | schedule p state =>
    obtain ⟨-, rfl⟩ := of_guard stepped
    exact ⟨rfl, sameCalls⟩
  | exec p name =>
    obtain ⟨-, rfl⟩ := of_guard stepped
    exact ⟨rfl, sameCalls⟩
  | kalloc p =>
    obtain ⟨-, rfl⟩ := of_guard stepped
    exact ⟨growPages_args m.kernel p, sameCalls⟩
  | kfree p page =>
    obtain ⟨-, rfl⟩ := of_guard stepped
    exact settled _ _ (shrinkPages_args m.kernel p page) sameCalls
  | fork p count =>
    obtain ⟨-, rfl⟩ := of_guard stepped
    exact settled _ _ (fork_args m.kernel p count) (forget_calls m)
  | exit p =>
    obtain ⟨-, rfl⟩ := of_guard stepped
    exact settled _ _ (exit_args m.kernel p) sameCalls
  | wait p =>
    obtain ⟨-, rfl⟩ := of_guard stepped
    exact settled _ _ (wait_args m.kernel p) sameCalls
  | syscall p num now image => exact absurd rfl (notCall p num now image)

theorem recordOwn_unlinked {k after : Kernel} {p : Slot} {num datePage argPage : Nat} {rest argCells : List Nat}
    (supply : k.freelist = datePage :: argPage :: rest)
    (args : Kernel.Holds k.args ((k.proc p).syscalls (num - 1)).count ((k.proc p).syscalls (num - 1)).arglist
      ((k.proc p).syscalls (num - 1)).arglistEnd argCells)
    (argFresh : argPage ≠ 0 ∧ argPage ∉ k.args.pages) {now : Rtcdate} {image : UserImage}
    (ran : k.recordOwn p num now image = .ok after) (addr : Nat) :
    (after.args.cell addr).unlinked =
      if addr = argPage then (fillArglist image junkArg num).1.unlinked else (k.args.cell addr).unlinked := by
  obtain ⟨args1, arglist, argsRan, -, pages, -⟩ := Kernel.appendRecord_spec args argFresh.1 argFresh.2
  have contents := appendRecord_unlinked argFresh.1 argsRan
  have held : argPage ∈ args1.pages := pages ▸ List.mem_cons_self
  simp only [Kernel.recordOwn, Kernel.kalloc, supply] at ran
  obtain ⟨dates, -, ran⟩ := bind_eq_ok.mp ran
  obtain ⟨appended, isAppended, ran⟩ := bind_eq_ok.mp ran
  rw [stopAt_eq_ok, argsRan] at isAppended
  cases isAppended
  obtain ⟨stamped, -, ran⟩ := bind_eq_ok.mp ran
  obtain ⟨arg, isArg, ran⟩ := bind_eq_ok.mp ran
  rw [stopAt_eq_ok, Heap.load_eq held] at isArg
  cases isArg
  obtain ⟨filled, isFilled, ran⟩ := bind_eq_ok.mp ran
  rw [stopAt_eq_ok, Heap.store_eq held] at isFilled
  cases isFilled
  cases ran
  have here := contents argPage
  rw [if_pos rfl] at here
  change (update args1.cell argPage (fillArglist image (args1.cell argPage) num).1 addr).unlinked = _
  by_cases isPage : addr = argPage
  · rw [isPage, update_self, if_pos rfl, ← fillArglist_unlinked, here, fillArglist_unlinked]
  · rw [update_of_ne isPage, contents addr, if_neg isPage, if_neg isPage]

theorem Logged.Filled.syscall {s : Logged} (filled : s.Filled) (recorded : Recorded s.machine.kernel s.machine.calls)
    {p : Slot} (alive : (s.machine.kernel.proc p).state = .RUNNING) {num : Int}
    (known : 0 < num ∧ num ≤ SYS_CALL_COUNT) {now : Rtcdate × Rtcdate} {image : UserImage}
    (fresh : (Kernel.finalKernel (s.machine.kernel.syscall p num now image)).exhausted = false) :
    Logged.Filled ⟨s.machine.settle (s.machine.complete p num) (s.machine.kernel.syscall p num now image),
      update s.images (s.machine.kernel.freelist.getD 2 0) image⟩ := by
  have used : (s.machine.kernel.proc p).state ≠ .UNUSED := by
    rw [alive]
    decide
  obtain ⟨nodePage, datePage, argPage, rest, supply⟩ := syscall_supply recorded used known now image fresh
  obtain ⟨owner, accounts⟩ := recorded.accounts
  obtain ⟨nodes, done, lists⟩ := recorded.global
  have isFree : ∀ page ∈ s.machine.kernel.freelist, owner page = .free ∧ page ≠ 0 :=
    fun page member => (accounts.free page member).imp_right And.left
  have node := isFree nodePage (by simp [supply])
  have arg := isFree argPage (by simp [supply])
  have nodeFresh : nodePage ∉ s.machine.kernel.log.pages := by
    intro member
    cases node.1.symm.trans (accounts.log nodePage member)
  have argFresh : argPage ∉ s.machine.kernel.args.pages := by
    intro member
    rcases accounts.heap .args argPage member with gone | ⟨q, index, owned⟩
    · cases arg.1.symm.trans gone
    · cases arg.1.symm.trans owned
  have notOld : ∀ q, ∀ call ∈ s.machine.calls q, call.argPage ≠ argPage := by
    intro q call isIn isPage
    obtain ⟨index, found⟩ := List.mem_iff_getElem?.mp isIn
    have owned := (accounts.record .args q index call found).1
    change owner call.argPage = _ at owned
    rw [isPage] at owned
    cases arg.1.symm.trans owned
  obtain ⟨log, globalRan, -⟩ := Kernel.recordGlobal_spec lists supply node.2 nodeFresh
    ⟨syscallsString.getD (num.toNat - 1) "", (s.machine.kernel.proc p).pid⟩ now.1
  obtain ⟨after, ran, -⟩ := syscall_recorded recorded alive num now image fresh
  rw [ran, Machine.complete, if_pos known, supply]
  rw [Kernel.syscall, if_pos known, globalRan] at ran
  have own := (recorded.own p used num.toNat (by omega) (by omega)).args
  have contents := recordOwn_unlinked (k := { s.machine.kernel with freelist := datePage :: argPage :: rest, log := log })
    rfl own ⟨arg.2, argFresh⟩ ran
  intro q call isIn
  change call ∈ update s.machine.calls p (s.machine.calls p ++ [⟨num.toNat, datePage, argPage⟩]) q at isIn
  change (after.args.cell call.argPage).unlinked =
    (fillArglist (update s.images argPage image call.argPage) junkArg call.num).1.unlinked
  have old : ∀ q, call ∈ s.machine.calls q → (after.args.cell call.argPage).unlinked =
      (fillArglist (update s.images argPage image call.argPage) junkArg call.num).1.unlinked := by
    intro q isIn
    have other := notOld q call isIn
    rw [contents, if_neg other, update_of_ne other]
    exact filled q call isIn
  by_cases isP : q = p
  · rw [isP, update_self] at isIn
    rcases List.mem_append.mp isIn with isIn | isNew
    · exact old p isIn
    · cases List.mem_singleton.mp isNew
      rw [contents, if_pos rfl, update_self]
  · rw [update_of_ne isP] at isIn
    exact old q isIn

/-- As long as `kalloc` has not failed, the lists are right and so is what they hold. -/
structure LogSound (s : Logged) : Prop where
  sound : Sound s.machine
  filled : s.machine.kernel.exhausted = false → s.Filled

theorem machineNext_exhausted {m after : Machine} {action : Action} (stepped : machineNext m action = some after)
    (spent : m.kernel.exhausted = true) : after.kernel.exhausted = true := by
  have settled : ∀ calls result, (Kernel.finalKernel result).exhausted = true →
      (m.settle calls result).kernel.exhausted = true := by
    intro calls result flag
    rw [settle_kernel]
    exact flag
  cases action with
  | userinit count =>
    obtain ⟨-, rfl⟩ := of_guard stepped
    exact settled _ _ (userinit_exhausted spent count)
  | schedule p state =>
    obtain ⟨-, rfl⟩ := of_guard stepped
    exact spent
  | exec p name =>
    obtain ⟨-, rfl⟩ := of_guard stepped
    exact spent
  | kalloc p =>
    obtain ⟨-, rfl⟩ := of_guard stepped
    exact growPages_exhausted spent p
  | kfree p page =>
    obtain ⟨-, rfl⟩ := of_guard stepped
    refine settled _ _ ?_
    unfold Kernel.shrinkPages Kernel.kfree
    split
    · exact spent
    · exact spent
  | fork p count =>
    obtain ⟨-, rfl⟩ := of_guard stepped
    exact settled _ _ (fork_exhausted spent p count)
  | exit p =>
    obtain ⟨-, rfl⟩ := of_guard stepped
    refine settled _ _ ?_
    unfold Kernel.exit
    split
    · exact spent
    · exact spent
  | wait p =>
    obtain ⟨-, rfl⟩ := of_guard stepped
    exact settled _ _ (wait_exhausted spent p)
  | syscall p num now image =>
    obtain ⟨-, rfl⟩ := of_guard stepped
    exact settled _ _ (syscall_exhausted spent p num now image)

theorem LogSound.step {s after : Logged} {action : Action} (holds : LogSound s)
    (stepped : s.next action = some after) : LogSound after := by
  obtain ⟨m, moved, isAfter⟩ := Option.map_eq_some_iff.mp stepped
  have sound := holds.sound.step moved
  subst isAfter
  refine ⟨sound, fun fresh => ?_⟩
  have before : s.machine.kernel.exhausted = false := by
    cases flag : s.machine.kernel.exhausted with
    | false => rfl
    | true => exact Bool.noConfusion ((machineNext_exhausted moved flag).symm.trans fresh)
  have filled := holds.filled before
  by_cases isCall : ∃ p num now image, action = .syscall p num now image
  · obtain ⟨p, num, now, image, rfl⟩ := isCall
    obtain ⟨runs, rfl⟩ := of_guard moved
    rw [settle_kernel] at fresh
    by_cases known : 0 < num ∧ num ≤ SYS_CALL_COUNT
    · rw [Logged.imagesAfter, if_pos known]
      exact filled.syscall (holds.sound before).1 runs.2 known fresh
    · rw [Logged.imagesAfter, if_neg known]
      intro p' call isIn
      rw [Kernel.syscall, if_neg known, Machine.complete, if_neg known] at isIn
      rw [Kernel.syscall, if_neg known]
      exact filled p' call isIn
  · have notCall : ∀ p num now image, action ≠ .syscall p num now image := fun p num now image same =>
      isCall ⟨p, num, now, image, same⟩
    have sameImages : s.imagesAfter action = s.images := by
      cases action with
      | syscall p num now image => exact absurd rfl (notCall p num now image)
      | _ => rfl
    obtain ⟨args, calls⟩ := machineNext_args moved notCall
    intro p call isIn
    simp only [sameImages, args]
    rcases calls p with same | none
    · exact filled p call (same ▸ isIn)
    · simp only [none] at isIn
      cases isIn

theorem run_logSound {memory : Memory} {actions : List Action} {s : Logged}
    (ran : logging.run memory.bootLogged actions = some s) : LogSound s := by
  refine System.run_preserves LogSound (fun _ _ _ holds stepped => holds.step stepped) ?_ ran
  exact ⟨fun _ => ⟨boot_recorded memory, Or.inl rfl⟩, fun _ _ _ isIn => by cases isIn⟩

/-! ### The strings -/

theorem mem_stringsRead {pieces : List Piece} {addr : Nat} (isRead : addr ∈ stringsRead pieces) :
    Piece.str addr ∈ pieces := by
  obtain ⟨piece, isIn, isStr⟩ := List.mem_filterMap.mp isRead
  cases piece with
  | str pointer =>
    obtain ⟨-, same⟩ := Option.ite_none_left_eq_some.mp isStr
    cases same
    exact isIn
  | _ => cases isStr

theorem str_mem_printRecord {pid : Int} {entry : Systemcall} {i : Nat} {d : Date} {a : SyscallArg} {addr : Nat}
    (isIn : Piece.str addr ∈ printRecord pid entry i d a) :
    (i = 14 ∨ i = 17 ∨ i = 19 ∨ i = 8 ∨ i = 16) ∧ addr = a.strArgv 0 ∨
      i = 18 ∧ (addr = a.strArgv 0 ∨ addr = a.strArgv 1) := by
  rw [printRecord, List.mem_append] at isIn
  replace isIn := isIn.resolve_left (by simp)
  cases inside : printedArgs a i with
  | none =>
    rw [inside] at isIn
    cases isIn
  | some pieces =>
    have isPiece : Piece.str addr ∈ pieces := by
      rw [inside] at isIn
      simpa [callLine] using isIn
    unfold printedArgs at inside
    split at inside
    all_goals cases inside
    all_goals
      simp only [List.mem_cons, reduceCtorEq, List.not_mem_nil, or_false, false_or, Piece.str.injEq] at isPiece
    all_goals simp [isPiece]

/-- The pointers are those of arguments that were fetched. -/
theorem str_fetched {image : UserImage} {num : Nat} {pid : Int} {entry : Systemcall} {d : Date} {addr : Nat}
    {a : SyscallArg} (filled : a.unlinked = (fillArglist image junkArg num).1.unlinked) (positive : 1 ≤ num)
    (fetchable : (callArgs num)[0]? = some (.str 0, .str) →
      ∀ n field fetch, (callArgs num)[n]? = some (field, fetch) → image.Fetches n fetch)
    (isIn : Piece.str addr ∈ printRecord pid entry (num - 1) d a) :
    (callArgs num)[0]? = some (.str 0, .str) ∧ ∃ length, argstr image 0 = some (addr, length) := by
  have same : a.strArgv = (fillArglist image junkArg num).1.strArgv := by
    have unlinked := congrArg SyscallArg.strArgv filled
    exact unlinked
  have cases_ : num = 15 ∨ num = 18 ∨ num = 20 ∨ num = 9 ∨ num = 17 ∨ num = 19 := by
    rcases str_mem_printRecord isIn with ⟨isNum, -⟩ | ⟨isNum, -⟩
    · omega
    · omega
  have isPath : (callArgs num)[0]? = some (.str 0, .str) := by
    rcases cases_ with rfl | rfl | rfl | rfl | rfl | rfl
    all_goals rfl
  replace fetchable := fetchable isPath
  obtain ⟨⟨path, length⟩, found⟩ := fetchable 0 (.str 0) .str isPath
  have isAddr : addr = path := by
    rcases cases_ with rfl | rfl | rfl | rfl | rfl | rfl
    · obtain ⟨mode, isMode⟩ := fetchable 1 (.int 0) .int rfl
      have pointers := str_mem_printRecord isIn
      rw [same] at pointers
      simpa [fillArglist, found, isMode, SyscallArg.setStr, SyscallArg.setInt] using pointers
    · have pointers := str_mem_printRecord isIn
      rw [same] at pointers
      simpa [fillArglist, found, SyscallArg.setStr] using pointers
    · have pointers := str_mem_printRecord isIn
      rw [same] at pointers
      simpa [fillArglist, found, SyscallArg.setStr] using pointers
    · have pointers := str_mem_printRecord isIn
      rw [same] at pointers
      simpa [fillArglist, found, SyscallArg.setStr] using pointers
    · obtain ⟨major, isMajor⟩ := fetchable 1 (.int 0) .int rfl
      obtain ⟨minor, isMinor⟩ := fetchable 2 (.int 1) .int rfl
      have pointers := str_mem_printRecord isIn
      rw [same] at pointers
      simpa [fillArglist, found, isMajor, isMinor, SyscallArg.setStr, SyscallArg.setInt] using pointers
    · have pointers := str_mem_printRecord isIn
      rw [same] at pointers
      simpa [fillArglist, found, SyscallArg.setStr] using pointers
  exact ⟨isPath, length, isAddr ▸ found⟩

/-! ### The loops -/

/-- The loop over two lists of the same length. -/
theorem printRecords_spec {k : Kernel} (pid : Int) (entry : Systemcall) (i : Nat) {rounds d a : Nat}
    {dateCells argCells : List Nat} (dates : k.dates.IsList d dateCells) (args : k.args.IsList a argCells)
    (same : dateCells.length = argCells.length) (enough : dateCells.length ≤ rounds) :
    ∃ pieces, printRecords k pid entry i rounds d a = .ok pieces ∧ ∀ addr, Piece.str addr ∈ pieces →
      ∃ page ∈ argCells, ∃ date, Piece.str addr ∈ printRecord pid entry i date (k.args.cell page) := by
  induction dateCells generalizing rounds d a argCells with
  | nil =>
    have isNull : d = 0 := dates.chain.1
    refine ⟨[], ?_, fun addr isIn => by cases isIn⟩
    cases rounds with
    | zero => rw [printRecords, if_pos (Or.inl isNull)]
    | succ rounds => rw [printRecords, if_pos (Or.inl isNull)]
  | cons date dateRest ih =>
    cases argCells with
    | nil => cases same
    | cons arg argRest =>
      obtain ⟨⟨rfl, dateSegment⟩, dateNotNull⟩ := dates.chain
      obtain ⟨⟨rfl, argSegment⟩, argNotNull⟩ := args.chain
      rw [List.mem_cons, not_or] at dateNotNull argNotNull
      have notNull : ¬ (d = 0 ∨ a = 0) := by
        rintro (isNull | isNull)
        · exact dateNotNull.1 isNull.symm
        · exact argNotNull.1 isNull.symm
      cases rounds with
      | zero => cases enough
      | succ rounds =>
        have restDates : k.dates.IsList (k.dates.cell d).next dateRest :=
          ⟨⟨dateSegment, dateNotNull.2⟩, fun cell isIn => dates.allocated cell (List.mem_cons_of_mem d isIn)⟩
        have restArgs : k.args.IsList (k.args.cell a).next argRest :=
          ⟨⟨argSegment, argNotNull.2⟩, fun cell isIn => args.allocated cell (List.mem_cons_of_mem a isIn)⟩
        obtain ⟨pieces, ran, strings⟩ := ih restDates restArgs (Nat.succ.inj same)
          (Nat.le_of_succ_le_succ enough)
        have loadDate : loadAt k.dates d = .ok (k.dates.cell d) := by
          rw [loadAt, Heap.load_eq (dates.allocated d List.mem_cons_self)]
          rfl
        have loadArg : loadAt k.args a = .ok (k.args.cell a) := by
          rw [loadAt, Heap.load_eq (args.allocated a List.mem_cons_self)]
          rfl
        refine ⟨printRecord pid entry i (k.dates.cell d) (k.args.cell a) ++ pieces, ?_, fun addr isIn => ?_⟩
        · rw [printRecords, if_neg notNull]
          simp only [loadDate, loadArg, bind, Except.bind, ran]
          rfl
        · rcases List.mem_append.mp isIn with isIn | isIn
          · exact ⟨a, List.mem_cons_self, _, isIn⟩
          · obtain ⟨page, isPage, printed⟩ := strings addr isIn
            exact ⟨page, List.mem_cons_of_mem a isPage, printed⟩

variable {Read : Nat → Prop}

theorem printProc_spec {k : Kernel} {p : Slot} {numbers : List Nat}
    (records : ∀ i ∈ numbers, 0 < ((k.proc p).syscalls i).count → ∃ pieces,
      printRecords k (k.proc p).pid ((k.proc p).syscalls i) i k.dates.pages.length
          ((k.proc p).syscalls i).datelist ((k.proc p).syscalls i).arglist = .ok pieces ∧
        ∀ addr, Piece.str addr ∈ pieces → Read addr) :
    ∃ found pieces, printProc k p numbers = .ok (found, pieces) ∧ ∀ addr, Piece.str addr ∈ pieces → Read addr := by
  induction numbers with
  | nil => exact ⟨false, [], rfl, fun addr isIn => by cases isIn⟩
  | cons i rest ih =>
    obtain ⟨found, more, ran, strings⟩ :=
      ih fun i' isIn => records i' (List.mem_cons_of_mem i isIn)
    by_cases called : 0 < ((k.proc p).syscalls i).count
    · obtain ⟨pieces, printed, strings'⟩ := records i List.mem_cons_self called
      refine ⟨true, pieces ++ more, ?_, fun addr isIn => ?_⟩
      · simp only [printProc, if_pos called, printed, ran, bind, Except.bind]
        rfl
      · rcases List.mem_append.mp isIn with isIn | isIn
        · exact strings' addr isIn
        · exact strings addr isIn
    · refine ⟨found, more, ?_, strings⟩
      simp only [printProc, if_neg called, ran]

theorem printProcs_spec {k : Kernel} {pid : Int} {slots : List Slot}
    (procs : ∀ p ∈ slots, (k.proc p).pid = pid → ∃ found pieces,
      printProc k p (List.range SYS_CALL_COUNT) = .ok (found, pieces) ∧
        ∀ addr, Piece.str addr ∈ pieces → Read addr) :
    ∃ found pieces, printProcs k pid slots = .ok (found, pieces) ∧ ∀ addr, Piece.str addr ∈ pieces → Read addr := by
  induction slots with
  | nil => exact ⟨false, [], rfl, fun addr isIn => by cases isIn⟩
  | cons p rest ih =>
    obtain ⟨later, more, ran, strings⟩ :=
      ih fun q isIn => procs q (List.mem_cons_of_mem p isIn)
    by_cases isPid : (k.proc p).pid = pid
    · obtain ⟨found, pieces, printed, strings'⟩ := procs p List.mem_cons_self isPid
      refine ⟨found || later, pieces ++ more, ?_, fun addr isIn => ?_⟩
      · simp only [printProcs, if_pos isPid, printed, ran, bind, Except.bind]
        rfl
      · rcases List.mem_append.mp isIn with isIn | isIn
        · exact strings' addr isIn
        · exact strings addr isIn
    · refine ⟨later, more, ?_, strings⟩
      simp only [printProcs, if_neg isPid, ran]

/-- The memory that the process of a record had then is still there. -/
structure StillThere (then_ now : UserImage) : Prop where
  sz : then_.sz ≤ now.sz
  mem : ∀ addr, addr < then_.sz → now.mem addr = then_.mem addr

def openCalled (image : UserImage) : List Action := firstRuns ++ [.syscall ⟨0, NPROC_pos⟩ 15 sampleClock image]

def badPath : UserImage where
  sz := 64
  esp := 16
  mem := fun addr => if addr = 20 then 100 else 0

end Xv6.Syscall
