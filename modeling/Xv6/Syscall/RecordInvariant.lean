import Xv6.Syscall.Machine

/-!
Contract: what the per-process record of system calls says about the calls a
process has completed, over every run of `fork`, `syscall`, `exit` and `wait`.
-/

namespace Xv6.Syscall

open Function Xv6.Lib

/-- The record of call `num` in slot `p` says exactly that `calls` were
completed: it counts those with that number, and its two lists are null-terminated,
acyclic, and made of the pages of those very calls. -/
def Kernel.RecordsCalls (k : Kernel) (p : Slot) (num : Nat) (calls : List Completed) : Prop :=
  let entry := (k.proc p).syscalls (num - 1)
  let own := calls.filter fun call => call.num = num
  entry.count = own.length ∧
    (0 < entry.count →
      (k.dates.IsList entry.datelist (own.map Completed.datePage) ∧
        (own.map Completed.datePage).Nodup ∧
        (own.map Completed.datePage).getLast? = some entry.datelistEnd) ∧
      k.args.IsList entry.arglist (own.map Completed.argPage) ∧
        (own.map Completed.argPage).Nodup ∧
        (own.map Completed.argPage).getLast? = some entry.arglistEnd)

theorem boot_recorded (memory : Memory) :
    Recorded memory.boot.kernel memory.boot.calls where
  accounts := by
    refine ⟨fun page => .free, ?_⟩
    refine { distinct := memory.distinct, free := ?_, log := ?_, heap := ?_, record := ?_,
             procDistinct := ?_, proc := ?_ }
    · intro page member
      have valid := memory.valid page member
      refine ⟨rfl, ?_, valid⟩
      have above := memory.aboveNull
      have lower := valid.2.1
      omega
    · intro page member
      cases member
    · intro list page member
      cases list <;> cases member
    · intro list p index call found
      cases found
    · intro p used
      exact absurd rfl used
    · intro p used
      exact absurd rfl used
  global := by
    refine ⟨[], [], ?_⟩
    exact { chain := ⟨rfl, by simp⟩, allocated := by simp, last := rfl, entries := rfl,
            notNull := by simp [Memory.boot] }
  own := by
    intro p used
    exact absurd rfl used

/-- The three records of a call are there, complete, in the pages that `kalloc`
returned; the rest of the kernel is as it was. -/
structure RecordsCall (k after : Kernel) (p : Slot) (num : Nat) (call : Call)
    (now : Rtcdate × Rtcdate) (image : UserImage) (nodePage datePage argPage : Nat) : Prop where
  supply : k.freelist = nodePage :: datePage :: argPage :: after.freelist
  log : ∃ nodes done, k.log.Lists nodes 0 done ∧
    after.log.Lists (nodes ++ [nodePage]) 0 (done ++ [call])
  logPages : after.log.pages = nodePage :: k.log.pages
  logDate : (after.log.cell nodePage).date = now.1
  datePages : after.dates.pages = datePage :: k.dates.pages
  date : (after.dates.cell datePage).date = now.2
  argPages : after.args.pages = argPage :: k.args.pages
  arg : ∃ arg, after.args.cell argPage = (fillArglist image arg num).1
  here : ∃ entry, after.proc p =
    { k.proc p with syscalls := update (k.proc p).syscalls (num - 1) entry }
  elsewhere : ∀ q, q ≠ p → after.proc q = k.proc q

variable {k : Kernel} {p : Slot}

theorem RecordsCall.proc_same {after : Kernel} {num : Nat} {call : Call} {now : Rtcdate × Rtcdate}
    {image : UserImage} {nodePage datePage argPage : Nat}
    (records : RecordsCall k after p num call now image nodePage datePage argPage) (q : Slot) :
    (after.proc q).state = (k.proc q).state ∧ (after.proc q).held = (k.proc q).held := by
  by_cases same : q = p
  · obtain ⟨entry, here⟩ := records.here
    rw [same, here]
    exact ⟨rfl, rfl⟩
  · rw [records.elsewhere q same]
    exact ⟨rfl, rfl⟩

theorem Recorded.recordCall {calls : Slot → List Completed} (recorded : Recorded k calls)
    (used : (k.proc p).state ≠ .UNUSED) {num : Nat} (lower : 1 ≤ num) (upper : num ≤ SYS_CALL_COUNT)
    {nodePage datePage argPage : Nat} {rest : List Nat}
    (supply : k.freelist = nodePage :: datePage :: argPage :: rest) (call : Call)
    (now : Rtcdate × Rtcdate) (image : UserImage) :
    ∃ after, (k.recordGlobal call now.1 >>= fun k => k.recordOwn p num now.2 image) = .ok after ∧
      RecordsCall k after p num call now image nodePage datePage argPage ∧
      Recorded after (update calls p (calls p ++ [⟨num, datePage, argPage⟩])) := by
  obtain ⟨owner, accounts⟩ := recorded.accounts
  obtain ⟨nodes, done, lists⟩ := recorded.global
  have isFree : ∀ page ∈ k.freelist, owner page = .free ∧ page ≠ 0 :=
    fun page member => (accounts.free page member).imp_right And.left
  have node := isFree nodePage (by simp [supply])
  have date := isFree datePage (by simp [supply])
  have arg := isFree argPage (by simp [supply])
  have notIn : ∀ list page, owner page = .free → page ∉ k.recordPages list := by
    intro list page free member
    rcases accounts.heap list page member with gone | ⟨q, index, owned⟩
    · cases free.symm.trans gone
    · cases free.symm.trans owned
  have nodeFresh : nodePage ∉ k.log.pages := by
    intro member
    cases node.1.symm.trans (accounts.log nodePage member)
  obtain ⟨log, globalRan, newLists, logPages, logDate⟩ :=
    Kernel.recordGlobal_spec lists supply node.2 nodeFresh call now.1
  have before := recorded.own p used num lower upper
  have short : ((k.proc p).syscalls (num - 1)).count + 1 < 2 ^ 32 := by
    rw [before.dates.count]
    exact accounts.calls_short p num
  obtain ⟨dates, args, entry, console, ownRan, datesHold, argsHold, datePages, argPages, datesSame,
    argsSame, stamped, filled⟩ := Kernel.recordOwn_spec
      (k := { k with freelist := datePage :: argPage :: rest, log := log }) rfl before.dates
      before.args rfl ⟨date.2, notIn .dates _ date.1⟩ ⟨arg.2, notIn .args _ arg.1⟩ short now.2 image
  -- the state after, field by field
  obtain ⟨after, ran, kernelEnd, freelist, logEq, datesEq, argsEq, here, elsewhere⟩ :
      ∃ after, (k.recordGlobal call now.1 >>= fun k => k.recordOwn p num now.2 image) = .ok after ∧
        after.kernelEnd = k.kernelEnd ∧ after.freelist = rest ∧ after.log = log ∧
        after.dates = dates ∧ after.args = args ∧
        after.proc p =
          { k.proc p with syscalls := update (k.proc p).syscalls (num - 1) entry } ∧
        ∀ q, q ≠ p → after.proc q = k.proc q := by
    have continued : (k.recordGlobal call now.1 >>= fun k => k.recordOwn p num now.2 image) =
        Kernel.recordOwn { k with freelist := datePage :: argPage :: rest, log := log } p num now.2
          image := by
      rw [globalRan]
      rfl
    refine ⟨_, continued.trans ownRan, rfl, rfl, rfl, rfl, rfl, ?_, ?_⟩
    · exact update_self ..
    · intro q other
      exact update_of_ne other ..
  subst logEq datesEq argsEq
  have records : RecordsCall k after p num call now image nodePage datePage argPage :=
    { supply := freelist ▸ supply, log := ⟨nodes, done, lists, newLists⟩, logPages := logPages,
      logDate := logDate, datePages := datePages, date := stamped, argPages := argPages,
      arg := filled, here := ⟨entry, here⟩, elsewhere := elsewhere }
  have state := records.proc_same
  refine ⟨after, ran, records, ?_⟩
  refine { accounts := ?_, global := ⟨_, _, newLists⟩, own := ?_ }
  · exact accounts.recordCall supply kernelEnd freelist logPages datePages argPages
      (fun q => (state q).1) fun q => (state q).2
  · intro q isUsed num' lower' upper'
    by_cases same : q = p ∧ num' = num
    · have newEntry : (after.proc p).syscalls (num - 1) = entry := by
        rw [here]
        exact update_self ..
      rw [same.1, same.2, update_self]
      constructor
      · rw [newEntry, cells_append, if_pos rfl]
        exact datesHold
      · rw [newEntry, cells_append, if_pos rfl]
        exact argsHold
    · have other : q ≠ p ∨ num' ≠ num := by
        rw [not_and_or] at same
        exact same
      have old := recorded.own q ((state q).1 ▸ isUsed) num' lower' upper'
      have sameEntry : (after.proc q).syscalls (num' - 1) = (k.proc q).syscalls (num' - 1) := by
        by_cases slot : q = p
        · have number : num' - 1 ≠ num - 1 := by
            have differs := other.resolve_left fun not => not slot
            omega
          rw [slot, here]
          exact update_of_ne number ..
        · rw [elsewhere q slot]
      have sameCells : ∀ list, cells (update calls p
          (calls p ++ [⟨num, datePage, argPage⟩]) q) list num' = cells (calls q) list num' := by
        intro list
        by_cases slot : q = p
        · have number : num ≠ num' := fun equal => other.elim (· slot) (· equal.symm)
          rw [slot, update_self, cells_append, if_neg number, List.append_nil]
        · rw [update_of_ne slot]
      constructor
      · rw [sameEntry, sameCells]
        apply old.dates.frame
        · intro cell member
          have apart := accounts.apart date.1 other cell member
          exact datesSame cell apart.1 apart.2.1
        · intro cell member
          have apart := accounts.apart date.1 other cell member
          rw [datePages]
          exact List.mem_cons_of_mem _ apart.2.2
      · rw [sameEntry, sameCells]
        apply old.args.frame
        · intro cell member
          have apart := accounts.apart arg.1 other cell member
          exact argsSame cell apart.1 apart.2.1
        · intro cell member
          have apart := accounts.apart arg.1 other cell member
          rw [argPages]
          exact List.mem_cons_of_mem _ apart.2.2

theorem syscall_exhausted (spent : k.exhausted = true) (p : Slot) (num : Int)
    (now : Rtcdate × Rtcdate) (image : UserImage) :
    (Kernel.finalKernel (k.syscall p num now image)).exhausted = true := by
  unfold Kernel.syscall
  split
  · unfold Kernel.recordGlobal
    simp only [bind_assoc]
    have later := Kernel.kalloc_exhausted spent
    apply Kernel.exhausted_bind later
    intro log
    exact Kernel.recordOwn_exhausted p num.toNat now.2 image (Kernel.kalloc_exhausted later)
  · exact spent

variable {m : Machine}

/-- A call needs three pages; with fewer, the flag is set. -/
theorem syscall_supply (recorded : Recorded m.kernel m.calls)
    (used : (m.kernel.proc p).state ≠ .UNUSED) {num : Int} (known : 0 < num ∧ num ≤ SYS_CALL_COUNT)
    (now : Rtcdate × Rtcdate) (image : UserImage)
    (fresh : (Kernel.finalKernel (m.kernel.syscall p num now image)).exhausted = false) :
    ∃ nodePage datePage argPage rest, m.kernel.freelist = nodePage :: datePage :: argPage :: rest := by
  unfold Kernel.syscall at fresh
  rw [if_pos known] at fresh
  have lower : 1 ≤ num.toNat := by omega
  have upper : num.toNat ≤ SYS_CALL_COUNT := by omega
  obtain ⟨owner, accounts⟩ := recorded.accounts
  obtain ⟨nodes, done, lists⟩ := recorded.global
  have nonzero : ∀ page ∈ m.kernel.freelist, page ≠ 0 :=
    fun page member => (recorded.usable member).1
  have before := recorded.own p used num.toNat lower upper
  have notIn : ∀ page ∈ m.kernel.freelist, page ∉ m.kernel.log.pages ∧
      page ∉ m.kernel.dates.pages := by
    intro page member
    have free := (accounts.free page member).1
    constructor
    · intro inLog
      cases free.symm.trans (accounts.log page inLog)
    · intro inDates
      rcases accounts.heap .dates page inDates with gone | ⟨q, index, owned⟩
      · cases free.symm.trans gone
      · cases free.symm.trans owned
  match supply : m.kernel.freelist with
  | [] =>
    exfalso
    have spent := Kernel.recordGlobal_exhausted supply
      ⟨syscallsString.getD (num.toNat - 1) "", (m.kernel.proc p).pid⟩ now.1
      (fun after spent => Kernel.recordOwn_exhausted p num.toNat now.2 image
        (Kernel.kalloc_exhausted spent))
    exact Bool.noConfusion (spent.symm.trans fresh)
  | [nodePage] =>
    exfalso
    obtain ⟨log, globalRan, -⟩ := Kernel.recordGlobal_spec lists supply
      (nonzero nodePage (by simp [supply])) (notIn nodePage (by simp [supply])).1
      ⟨syscallsString.getD (num.toNat - 1) "", (m.kernel.proc p).pid⟩ now.1
    rw [globalRan] at fresh
    have spent := Kernel.recordOwn_exhausted p num.toNat now.2 image
      (Kernel.kalloc_exhausted_of_empty
        (k := { m.kernel with freelist := [], log := log }) rfl)
    exact Bool.noConfusion (spent.symm.trans fresh)
  | [nodePage, datePage] =>
    exfalso
    obtain ⟨log, globalRan, -⟩ := Kernel.recordGlobal_spec lists supply
      (nonzero nodePage (by simp [supply])) (notIn nodePage (by simp [supply])).1
      ⟨syscallsString.getD (num.toNat - 1) "", (m.kernel.proc p).pid⟩ now.1
    rw [globalRan] at fresh
    have spent := Kernel.recordOwn_exhausted_of_single
      (k := { m.kernel with freelist := [datePage], log := log }) rfl before.dates rfl
      ⟨nonzero datePage (by simp [supply]), (notIn datePage (by simp [supply])).2⟩ now.2 image
    exact Bool.noConfusion (spent.symm.trans fresh)
  | nodePage :: datePage :: argPage :: rest => exact ⟨nodePage, datePage, argPage, rest, rfl⟩

/-- `syscall` under the assumption that `kalloc` has not failed. -/
theorem syscall_recorded (recorded : Recorded m.kernel m.calls)
    (alive : (m.kernel.proc p).state = .RUNNING) (num : Int) (now : Rtcdate × Rtcdate)
    (image : UserImage)
    (fresh : (Kernel.finalKernel (m.kernel.syscall p num now image)).exhausted = false) :
    ∃ after, m.kernel.syscall p num now image = .ok after ∧ Recorded after (m.complete p num) := by
  have used : (m.kernel.proc p).state ≠ .UNUSED := by
    rw [alive]
    decide
  by_cases known : 0 < num ∧ num ≤ SYS_CALL_COUNT
  · obtain ⟨nodePage, datePage, argPage, rest, supply⟩ := syscall_supply recorded used known now image fresh
    have lower : 1 ≤ num.toNat := by omega
    have upper : num.toNat ≤ SYS_CALL_COUNT := by omega
    obtain ⟨after, ran, -, holds⟩ := recorded.recordCall used lower upper supply
      ⟨syscallsString.getD (num.toNat - 1) "", (m.kernel.proc p).pid⟩ now image
    refine ⟨after, ?_, ?_⟩
    · rw [Kernel.syscall, if_pos known]
      exact ran
    · rw [Machine.complete, if_pos known, supply]
      exact holds
  · rw [Kernel.syscall, if_neg known]
    refine ⟨_, rfl, ?_⟩
    rw [Machine.complete, if_neg known]
    exact recorded.untouched
      { kernelEnd := rfl, freelist := rfl, log := rfl, dates := rfl, args := rfl,
        used := fun _ => id, held := fun _ => rfl, syscalls := fun _ => rfl }

/-- As long as `kalloc` has not failed, the record is right and the kernel has
stopped for no other reason than that init exited. -/
def Sound (m : Machine) : Prop :=
  m.kernel.exhausted = false → Recorded m.kernel m.calls ∧
    (m.fault = none ∨ m.fault = some .initExiting)

theorem settle_kernel (m : Machine) (calls : Slot → List Completed) (result : Result Kernel) :
    (m.settle calls result).kernel = Kernel.finalKernel result := by
  cases result with
  | ok k => rfl
  | error stopped => rfl

/-- A step is sound when it keeps the flag, and leaves the record right unless it
sets the flag. -/
theorem Sound.settle (sound : Sound m) (running : m.fault = none) {calls : Slot → List Completed}
    {result : Result Kernel}
    (spent : m.kernel.exhausted = true → (Kernel.finalKernel result).exhausted = true)
    (step : Recorded m.kernel m.calls → (Kernel.finalKernel result).exhausted = false → (∃ after, result = .ok after ∧ Recorded after calls) ∨ result = .error (m.kernel, .initExiting)) :
    Sound (m.settle calls result) := by
  intro fresh
  rw [settle_kernel] at fresh
  have before : m.kernel.exhausted = false := by
    cases flag : m.kernel.exhausted with
    | false => rfl
    | true => exact Bool.noConfusion ((spent flag).symm.trans fresh)
  have recorded := (sound before).1
  rcases step recorded fresh with ⟨after, ran, holds⟩ | exiting
  · rw [ran]
    exact ⟨holds, Or.inl running⟩
  · rw [exiting]
    exact ⟨recorded, Or.inr rfl⟩

theorem Sound.untouched (sound : Sound m) (same : Untouched m.kernel k)
    (flag : k.exhausted = m.kernel.exhausted) : Sound { m with kernel := k } := by
  intro fresh
  obtain ⟨recorded, stopped⟩ := sound (flag ▸ fresh)
  exact ⟨recorded.untouched same, stopped⟩

theorem Sound.step {after : Machine} {action : Action} (sound : Sound m)
    (stepped : machine.next m action = some after) : Sound after := by
  change machineNext m action = some after at stepped
  cases action with
  | userinit count =>
    obtain ⟨enabled, rfl⟩ := of_guard stepped
    exact sound.settle enabled.1 (fun spent => userinit_exhausted spent count)
      fun recorded fresh => Or.inl (userinit_recorded recorded enabled.2 count fresh)
  | schedule p state =>
    obtain ⟨enabled, rfl⟩ := of_guard stepped
    refine sound.untouched (setProc_untouched (fun _ unused => ?_) rfl rfl) rfl
    rw [unused] at enabled
    cases enabled.2.1
  | exec p name =>
    obtain ⟨-, rfl⟩ := of_guard stepped
    exact sound.untouched (setProc_untouched id rfl rfl) rfl
  | kalloc p =>
    obtain ⟨runs, rfl⟩ := of_guard stepped
    intro fresh
    have before : m.kernel.exhausted = false := by
      cases flag : m.kernel.exhausted with
      | false => rfl
      | true => exact Bool.noConfusion ((growPages_exhausted flag p).symm.trans fresh)
    exact ⟨growPages_recorded (sound before).1 runs.used, Or.inl runs.1⟩
  | kfree p page =>
    obtain ⟨enabled, rfl⟩ := of_guard stepped
    apply sound.settle enabled.1.1
    · intro spent
      unfold Kernel.shrinkPages Kernel.kfree
      split
      · exact spent
      · exact spent
    · intro recorded _
      exact Or.inl ⟨_, shrinkPages_eq recorded enabled.1.used enabled.2,
        shrinkPages_recorded recorded enabled.1.used enabled.2⟩
  | fork p count =>
    obtain ⟨runs, rfl⟩ := of_guard stepped
    exact sound.settle runs.1 (fun spent => fork_exhausted spent p count)
      fun recorded _ => Or.inl (fork_recorded recorded p count)
  | exit p =>
    obtain ⟨runs, rfl⟩ := of_guard stepped
    apply sound.settle runs.1
    · intro spent
      unfold Kernel.exit
      split
      · exact spent
      · exact spent
    · intro recorded _
      cases exited : m.kernel.exit p with
      | ok after => exact Or.inl ⟨after, rfl, recorded.untouched (exit_untouched runs.2 exited)⟩
      | error stopped =>
        unfold Kernel.exit at exited
        split at exited
        · cases exited
          exact Or.inr rfl
        · cases exited
  | wait p =>
    obtain ⟨runs, rfl⟩ := of_guard stepped
    apply sound.settle runs.1 fun spent => wait_exhausted spent p
    intro recorded _
    exact Or.inl (wait_recorded recorded p)
  | syscall p num now image =>
    obtain ⟨runs, rfl⟩ := of_guard stepped
    exact sound.settle runs.1 (fun spent => syscall_exhausted spent p num now image)
      fun recorded fresh => Or.inl (syscall_recorded recorded runs.2 num now image fresh)

theorem OwnRecord.recordsCalls {num : Nat} {calls : List Completed} (own : OwnRecord k p num calls) :
    k.RecordsCalls p num calls := by
  have dates : cells calls .dates num =
      (calls.filter fun call => call.num = num).map Completed.datePage := rfl
  have args : cells calls .args num =
      (calls.filter fun call => call.num = num).map Completed.argPage := rfl
  have counted := own.dates.count
  rw [dates, List.length_map] at counted
  refine ⟨counted, fun positive => ?_⟩
  have called : (calls.filter fun call => call.num = num) ≠ [] := by
    intro empty
    rw [counted, empty] at positive
    cases positive
  obtain ⟨dateList, dateLast⟩ := own.dates.list (by rw [dates]; simpa using called)
  obtain ⟨argList, argLast⟩ := own.args.list (by rw [args]; simpa using called)
  rw [dates] at dateList dateLast
  rw [args] at argList argLast
  exact ⟨⟨dateList, dateList.chain.nodup, dateLast⟩, argList, argList.chain.nodup, argLast⟩

/-- In every state of every run in which `kalloc` has not returned 0, the record
of a live process says exactly which calls it has completed since its slot was
allocated. -/
theorem record_sound (memory : Memory) (actions : List Action) (final : Machine)
    (ran : machine.run memory.boot actions = some final)
    (supplied : final.kernel.exhausted = false) (p : Slot)
    (live : (final.kernel.proc p).state ≠ .UNUSED) (num : Nat) (lower : 1 ≤ num)
    (upper : num ≤ SYS_CALL_COUNT) :
    final.kernel.RecordsCalls p num (final.calls p) := by
  have sound : Sound final :=
    System.run_preserves Sound (fun _ _ _ holds stepped => holds.step stepped)
      (fun _ => ⟨boot_recorded memory, Or.inl rfl⟩) ran
  exact ((sound supplied).1.own p live num lower upper).recordsCalls

def smallMemory : Memory where
  kernelEnd := 0x80100000
  pages := (List.range 12).map fun i => 0x80100000 + PGSIZE * i
  aboveNull := by decide
  distinct := by decide
  valid := by decide

private def image : UserImage := ⟨PGSIZE, 0, fun _ => 0⟩

/-- Init forks, the child makes a call, exits and is reaped; its slot goes to
another child, which makes the same call twice. -/
def slotReused : List Action :=
  let init : Slot := ⟨0, NPROC_pos⟩
  let child : Slot := ⟨1, one_lt_NPROC⟩
  let now : Rtcdate × Rtcdate := (⟨0, 0, 0, 1, 1, 2018⟩, ⟨1, 0, 0, 1, 1, 2018⟩)
  [.userinit 0, .schedule init .RUNNING, .fork init 0, .schedule child .RUNNING,
    .syscall child 11 now image, .exit child, .wait init, .fork init 0,
    .schedule child .RUNNING, .syscall child 11 now image, .syscall child 11 now image]

theorem record_sound_slotReused :
    ∃ final, machine.run smallMemory.boot slotReused = some final ∧
      (final.calls ⟨1, by decide⟩).length = 2 ∧
      final.kernel.RecordsCalls ⟨1, by decide⟩ 11 (final.calls ⟨1, by decide⟩) := by
  have summary : (machine.run smallMemory.boot slotReused).map (fun final =>
      (final.kernel.exhausted, (final.kernel.proc ⟨1, by decide⟩).state,
        (final.calls ⟨1, by decide⟩).length)) = some (false, .RUNNING, 2) := by
    decide +kernel
  obtain ⟨final, ran, facts⟩ := Option.map_eq_some_iff.mp summary
  simp only [Prod.mk.injEq] at facts
  refine ⟨final, ran, facts.2.2, ?_⟩
  apply record_sound smallMemory slotReused final ran facts.1
  · rw [facts.2.1]
    decide
  · decide
  · decide

end Xv6.Syscall
