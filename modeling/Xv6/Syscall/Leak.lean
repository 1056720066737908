import Xv6.Syscall.RecordInvariant

/-!
Contract: whether the pages of the record of system calls are ever lost.

`wait` gives back the kernel stack and the address space of the child it reaps and
nothing of its record, and `allocproc` then clears the counts of the slot. The two
pages of every call of a reaped process are gone for good. No other step loses a
page.
-/

namespace Xv6.Syscall

open Function Xv6.Lib

/-- `page` is reachable from the two lists of call `num` in slot `p`. -/
def Kernel.RecordReaches (k : Kernel) (p : Slot) (num page : Nat) : Prop :=
  k.dates.Reaches page ((k.proc p).syscalls (num - 1)).datelist ∨
    k.args.Reaches page ((k.proc p).syscalls (num - 1)).arglist

/-- `page` is reachable from `syscalls[]` of a slot in use. -/
def Kernel.InRecord (k : Kernel) (page : Nat) : Prop :=
  ∃ p num, (k.proc p).state ≠ .UNUSED ∧ 1 ≤ num ∧ num ≤ SYS_CALL_COUNT ∧
    k.RecordReaches p num page

/-- `page` is free or reachable from a structure in use. -/
def Kernel.AccountsFor (k : Kernel) (page : Nat) : Prop :=
  page ∈ k.freelist ∨ k.InRecord page ∨ k.log.Reaches page k.log.firstProc ∨
    ∃ p, (k.proc p).state ≠ .UNUSED ∧ page ∈ (k.proc p).held

/-- What a run has to avoid: that `wait` reaps a process with a record, that a
call is recorded with fewer than three free pages, and that the machine is too
small to boot. -/
def Leakless (m : Machine) : Action → Prop
  | .userinit count => count < m.kernel.freelist.length
  | .wait p => ∀ q, m.kernel.findSlot
      (fun proc => proc.parent = some p ∧ proc.state = .ZOMBIE) = some q → m.calls q = []
  | .syscall _ num _ _ => 0 < num ∧ num ≤ SYS_CALL_COUNT → 3 ≤ m.kernel.freelist.length
  | _ => True

instance (m : Machine) : (action : Action) → Decidable (Leakless m action)
  | .userinit count => inferInstanceAs (Decidable (count < m.kernel.freelist.length))
  | .wait p => inferInstanceAs (Decidable (∀ q, m.kernel.findSlot
      (fun proc => proc.parent = some p ∧ proc.state = .ZOMBIE) = some q → m.calls q = []))
  | .syscall _ num _ _ => inferInstanceAs (Decidable (0 < num ∧ num ≤ SYS_CALL_COUNT →
      3 ≤ m.kernel.freelist.length))
  | .schedule .. => isTrue trivial
  | .exec .. => isTrue trivial
  | .kalloc _ => isTrue trivial
  | .kfree .. => isTrue trivial
  | .fork .. => isTrue trivial
  | .exit _ => isTrue trivial

/-- Every page of the memory is free, in a list, or held by a process, and every
page of a record belongs to a call of a slot in use. -/
structure Conserved (memory : Memory) (k : Kernel) (calls : Slot → List Completed) : Prop where
  recorded : Recorded k calls
  numbered : ∀ p, ∀ call ∈ calls p, 1 ≤ call.num ∧ call.num ≤ SYS_CALL_COUNT
  logged : ∀ nodes done, k.log.Lists nodes 0 done → ∀ page ∈ k.log.pages, page ∈ nodes
  records : ∀ list, ∀ page ∈ k.recordPages list,
    ∃ p, (k.proc p).state ≠ .UNUSED ∧ ∃ call ∈ calls p, call.page list = page
  located : ∀ page ∈ memory.pages, page ∈ k.log.pages ∨ (∃ list, page ∈ k.recordPages list) ∨
    page ∈ k.freelist ∨ ∃ p, (k.proc p).state ≠ .UNUSED ∧ page ∈ (k.proc p).held

/-- A step that leaves the lists alone, keeps the slots that have a record, and
moves pages only between the free list and the slots in use. -/
structure Moves (k after : Kernel) (calls calls' : Slot → List Completed) : Prop where
  log : after.log = k.log
  dates : after.dates = k.dates
  args : after.args = k.args
  kept : ∀ p, (k.proc p).state ≠ .UNUSED → calls p ≠ [] →
    (after.proc p).state ≠ .UNUSED ∧ calls' p = calls p
  older : ∀ p, ∀ call ∈ calls' p, call ∈ calls p
  free : ∀ page ∈ k.freelist, page ∈ after.freelist ∨
    ∃ p, (after.proc p).state ≠ .UNUSED ∧ page ∈ (after.proc p).held
  held : ∀ p, (k.proc p).state ≠ .UNUSED → ∀ page ∈ (k.proc p).held, page ∈ after.freelist ∨
    ∃ q, (after.proc q).state ≠ .UNUSED ∧ page ∈ (after.proc q).held

variable {memory : Memory} {k after : Kernel} {calls : Slot → List Completed}

theorem Conserved.moves {calls' : Slot → List Completed} (conserved : Conserved memory k calls)
    (moves : Moves k after calls calls') (recorded : Recorded after calls') :
    Conserved memory after calls' := by
  have pages : ∀ list, after.recordPages list = k.recordPages list := by
    intro list
    cases list
    · exact congrArg Heap.pages moves.dates
    · exact congrArg Heap.pages moves.args
  refine { recorded := recorded, numbered := ?_, logged := ?_, records := ?_, located := ?_ }
  · intro p call member
    exact conserved.numbered p call (moves.older p call member)
  · rw [moves.log]
    exact conserved.logged
  · intro list page member
    rw [pages] at member
    obtain ⟨p, used, call, inCalls, isPage⟩ := conserved.records list page member
    obtain ⟨stillUsed, sameCalls⟩ := moves.kept p used (List.ne_nil_of_mem inCalls)
    exact ⟨p, stillUsed, call, sameCalls ▸ inCalls, isPage⟩
  · intro page member
    rw [moves.log]
    simp only [pages]
    rcases conserved.located page member with inLog | inRecord | inFree | ⟨p, used, inHeld⟩
    · exact Or.inl inLog
    · exact Or.inr (Or.inl inRecord)
    · exact Or.inr (Or.inr (moves.free page inFree))
    · exact Or.inr (Or.inr (moves.held p used page inHeld))

/-- A step that only changes the state of slots in use. -/
theorem Moves.of_same (calls : Slot → List Completed) (log : after.log = k.log)
    (dates : after.dates = k.dates) (args : after.args = k.args)
    (freelist : after.freelist = k.freelist)
    (used : ∀ p, (k.proc p).state ≠ .UNUSED → (after.proc p).state ≠ .UNUSED ∧ (after.proc p).held = (k.proc p).held) :
    Moves k after calls calls where
  log := log
  dates := dates
  args := args
  kept := fun p wasUsed _ => ⟨(used p wasUsed).1, rfl⟩
  older := fun _ _ member => member
  free := fun _ member => Or.inl (freelist ▸ member)
  held := fun p wasUsed _ member =>
    Or.inr ⟨p, (used p wasUsed).1, (used p wasUsed).2 ▸ member⟩

/-- A step that concerns one slot that was not in use. -/
theorem Moves.of_claim {np : Slot} (calls : Slot → List Completed)
    (slot : k.findSlot (fun proc => proc.state = .UNUSED) = some np) (log : after.log = k.log)
    (dates : after.dates = k.dates) (args : after.args = k.args)
    (elsewhere : ∀ q, q ≠ np → after.proc q = k.proc q)
    (free : ∀ page ∈ k.freelist, page ∈ after.freelist ∨ (after.proc np).state ≠ .UNUSED ∧ page ∈ (after.proc np).held) :
    Moves k after calls (update calls np []) := by
  have unused : (k.proc np).state = .UNUSED := by simpa using findSlot_some slot
  have other : ∀ p, (k.proc p).state ≠ .UNUSED → p ≠ np := fun p used same => used (same ▸ unused)
  refine { log := log, dates := dates, args := args, kept := ?_, older := ?_, free := ?_,
           held := ?_ }
  · intro p used _
    rw [elsewhere p (other p used)]
    exact ⟨used, update_of_ne (other p used) ..⟩
  · intro p call member
    by_cases same : p = np
    · rw [same, update_self] at member
      cases member
    · rwa [update_of_ne same] at member
  · intro page member
    exact (free page member).imp_right fun inHeld => ⟨np, inHeld⟩
  · intro p used held member
    refine Or.inr ⟨p, ?_⟩
    rw [elsewhere p (other p used)]
    exact ⟨used, member⟩

theorem Moves.of_setProc {p : Slot} {proc : Proc} (used : proc.state ≠ .UNUSED)
    (held : proc.held = (k.proc p).held) :
    Moves k (k.setProc p proc) calls calls := by
  refine Moves.of_same calls rfl rfl rfl rfl fun q wasUsed => ?_
  by_cases same : q = p
  · rw [same, Kernel.setProc_proc_self]
    exact ⟨used, held⟩
  · rw [Kernel.setProc_proc_other k same]
    exact ⟨wasUsed, rfl⟩

theorem Started.moves {np : Slot} {page : Nat} {pages : List Nat} {parent : Option Slot}
    {name : String} (started : Started k after np page pages parent name)
    (slot : k.findSlot (fun proc => proc.state = .UNUSED) = some np) (calls : Slot → List Completed) :
    Moves k after calls (update calls np []) := by
  apply Moves.of_claim calls slot started.log started.dates started.args started.elsewhere
  intro free member
  rw [started.supply] at member
  rcases List.mem_append.mp member with taken | left
  · rw [started.here]
    exact Or.inr ⟨Procstate.noConfusion, taken⟩
  · exact Or.inl left

theorem Vacated.moves {np : Slot} (vacated : Vacated k after np)
    (slot : k.findSlot (fun proc => proc.state = .UNUSED) = some np) (calls : Slot → List Completed) :
    Moves k after calls (update calls np []) := by
  apply Moves.of_claim calls slot vacated.log vacated.dates vacated.args vacated.elsewhere
  intro page member
  exact Or.inl (vacated.freelist ▸ member)

/-- Slot `p` gets and gives back pages: what it held and what was free is now held
by it or free. -/
theorem Moves.of_assign {p : Slot} {proc : Proc} {freelist : List Nat}
    (kept : calls p ≠ [] → proc.state ≠ .UNUSED)
    (free : ∀ page ∈ k.freelist, page ∈ freelist ∨ proc.state ≠ .UNUSED ∧ page ∈ proc.held)
    (held : ∀ page ∈ (k.proc p).held, page ∈ freelist ∨ proc.state ≠ .UNUSED ∧ page ∈ proc.held) :
    Moves k (k.assign p proc freelist) calls calls := by
  have here := k.assign_proc_self p proc freelist
  refine { log := rfl, dates := rfl, args := rfl, kept := ?_, older := fun _ _ member => member,
           free := ?_, held := ?_ }
  · intro q used called
    by_cases same : q = p
    · rw [same, here]
      exact ⟨kept (same ▸ called), rfl⟩
    · rw [Kernel.assign_proc_other k same]
      exact ⟨used, rfl⟩
  · intro page member
    rcases free page member with inFree | inHeld
    · exact Or.inl inFree
    · refine Or.inr ⟨p, ?_⟩
      rw [here]
      exact inHeld
  · intro q used page member
    by_cases same : q = p
    · subst same
      rcases held page member with inFree | inHeld
      · exact Or.inl inFree
      · refine Or.inr ⟨q, ?_⟩
        rw [here]
        exact inHeld
    · refine Or.inr ⟨q, ?_⟩
      rw [Kernel.assign_proc_other k same]
      exact ⟨used, member⟩

/-- A recorded call takes three pages from the free list into the three lists. -/
theorem Conserved.recordCall (conserved : Conserved memory k calls) {p : Slot}
    (used : (k.proc p).state ≠ .UNUSED) {num : Nat} (lower : 1 ≤ num) (upper : num ≤ SYS_CALL_COUNT)
    {call : Call} {now : Rtcdate × Rtcdate} {image : UserImage} {nodePage datePage argPage : Nat}
    (records : RecordsCall k after p num call now image nodePage datePage argPage)
    (recorded : Recorded after (update calls p (calls p ++ [⟨num, datePage, argPage⟩]))) :
    Conserved memory after (update calls p (calls p ++ [⟨num, datePage, argPage⟩])) := by
  have same := records.proc_same
  have pages : ∀ list, after.recordPages list =
      Completed.page ⟨num, datePage, argPage⟩ list :: k.recordPages list := by
    intro list
    cases list
    · exact records.datePages
    · exact records.argPages
  have grown : ∀ q, ∀ call ∈ calls q,
      call ∈ update calls p (calls p ++ [⟨num, datePage, argPage⟩]) q := by
    intro q call member
    by_cases here : q = p
    · subst here
      rw [update_self]
      exact List.mem_append_left _ member
    · rwa [update_of_ne here]
  refine { recorded := recorded, numbered := ?_, logged := ?_, records := ?_, located := ?_ }
  · intro q call member
    by_cases here : q = p
    · rw [here, update_self] at member
      rcases List.mem_append.mp member with old | isNew
      · exact conserved.numbered p call old
      · rw [List.mem_singleton.mp isNew]
        exact ⟨lower, upper⟩
    · rw [update_of_ne here] at member
      exact conserved.numbered q call member
  · intro nodes done lists page member
    obtain ⟨before, earlier, oldLists, newLists⟩ := records.log
    rw [lists.chain.unique newLists.chain]
    rw [records.logPages] at member
    rcases List.mem_cons.mp member with isNode | old
    · simp [isNode]
    · exact List.mem_append_left _ (conserved.logged before earlier oldLists page old)
  · intro list page member
    rw [pages] at member
    rcases List.mem_cons.mp member with isNew | old
    · refine ⟨p, (same p).1 ▸ used, ⟨num, datePage, argPage⟩, ?_, isNew.symm⟩
      rw [update_self]
      simp
    · obtain ⟨q, wasUsed, call, inCalls, isPage⟩ := conserved.records list page old
      exact ⟨q, (same q).1 ▸ wasUsed, call, grown q call inCalls, isPage⟩
  · intro page member
    rw [records.logPages]
    simp only [pages, List.mem_cons]
    rcases conserved.located page member with inLog | ⟨list, inRecord⟩ | inFree | ⟨q, wasUsed, inHeld⟩
    · exact Or.inl (Or.inr inLog)
    · exact Or.inr (Or.inl ⟨list, Or.inr inRecord⟩)
    · rw [records.supply] at inFree
      simp only [List.mem_cons] at inFree
      rcases inFree with isNode | isDate | isArg | left
      · exact Or.inl (Or.inl isNode)
      · exact Or.inr (Or.inl ⟨.dates, Or.inl isDate⟩)
      · exact Or.inr (Or.inl ⟨.args, Or.inl isArg⟩)
      · exact Or.inr (Or.inr (Or.inl left))
    · refine Or.inr (Or.inr (Or.inr ⟨q, (same q).1 ▸ wasUsed, ?_⟩))
      rw [(same q).2]
      exact inHeld

theorem exit_used {p : Slot} (exited : k.exit p = .ok after) (q : Slot)
    (used : (k.proc q).state ≠ .UNUSED) : (after.proc q).state ≠ .UNUSED := by
  unfold Kernel.exit at exited
  split at exited
  · cases exited
  · cases exited
    by_cases same : q = p
    · rw [same, Kernel.setProc_proc_self]
      exact Procstate.noConfusion
    · rw [Kernel.setProc_proc_other _ same]
      dsimp only [Kernel.adopt]
      split
      · exact used
      · exact used

theorem Conserved.step {m after : Machine} {action : Action}
    (conserved : Conserved memory m.kernel m.calls) (leakless : Leakless m action)
    (stepped : machine.next m action = some after) :
    Conserved memory after.kernel after.calls := by
  have recorded := conserved.recorded
  change machineNext m action = some after at stepped
  cases action with
  | userinit count =>
    obtain ⟨enabled, rfl⟩ := of_guard stepped
    rcases userinit_outcome (fun _ member => (recorded.usable member).1) enabled.2 count with
      ⟨short, -⟩ | ⟨started, np, page, pages, ran, slot, starts⟩
    · exact absurd leakless (Nat.not_lt.mpr short)
    · rw [ran, forget_of_slot slot]
      exact conserved.moves (starts.moves slot m.calls) (starts.recorded recorded slot)
  | schedule p state =>
    obtain ⟨enabled, rfl⟩ := of_guard stepped
    have used : ∀ state : Procstate, state.scheduled = true → state ≠ .UNUSED := by
      rintro _ scheduled rfl
      cases scheduled
    refine conserved.moves (Moves.of_setProc (used state enabled.2.2) rfl)
      (recorded.untouched (setProc_untouched (fun _ => used _ enabled.2.1) rfl rfl))
  | exec p name =>
    obtain ⟨runs, rfl⟩ := of_guard stepped
    exact conserved.moves (Moves.of_setProc runs.used rfl)
      (recorded.untouched (setProc_untouched id rfl rfl))
  | kalloc p =>
    obtain ⟨runs, rfl⟩ := of_guard stepped
    apply conserved.moves _ (growPages_recorded recorded runs.used)
    cases supply : m.kernel.freelist with
    | nil =>
      rw [growPages_nil p supply]
      exact Moves.of_same m.calls rfl rfl rfl rfl fun q used => ⟨used, rfl⟩
    | cons page rest =>
      rw [growPages_cons p supply (recorded.usable (supply ▸ List.mem_cons_self)).1]
      refine Moves.of_assign (fun _ => ?_) ?_ ?_
      · exact runs.used
      · intro free member
        rw [supply] at member
        rcases List.mem_cons.mp member with isPage | left
        · exact Or.inr ⟨runs.used, by simp [Proc.held, isPage]⟩
        · exact Or.inl left
      · intro held member
        refine Or.inr ⟨runs.used, ?_⟩
        rcases List.mem_cons.mp member with isStack | inPages
        · simp [Proc.held, isStack]
        · simp [Proc.held, inPages]
  | kfree p page =>
    obtain ⟨enabled, rfl⟩ := of_guard stepped
    rw [shrinkPages_eq recorded enabled.1.used enabled.2]
    apply conserved.moves _ (shrinkPages_recorded recorded enabled.1.used enabled.2)
    refine Moves.of_assign (fun _ => ?_) ?_ ?_
    · exact enabled.1.used
    · intro free member
      exact Or.inl (List.mem_append_right _ member)
    · intro held member
      by_cases isPage : held = page
      · exact Or.inl (by simp [isPage])
      · refine Or.inr ⟨enabled.1.used, ?_⟩
        rcases List.mem_cons.mp member with isStack | inPages
        · exact List.mem_cons.mpr (Or.inl isStack)
        · exact List.mem_cons_of_mem _ ((List.mem_erase_of_ne isPage).mpr inPages)
  | fork p count =>
    obtain ⟨-, rfl⟩ := of_guard stepped
    obtain ⟨forked, ran, outcome⟩ := fork_outcome (fun _ member => recorded.usable member) p count
    rw [ran]
    rcases outcome with ⟨slot, same⟩ | ⟨np, slot, vacated | ⟨page, pages, name, started⟩⟩
    · rw [forget_of_none slot, same]
      exact conserved
    · rw [forget_of_slot slot]
      exact conserved.moves (vacated.moves slot m.calls) (vacated.recorded recorded slot)
    · rw [forget_of_slot slot]
      exact conserved.moves (started.moves slot m.calls) (started.recorded recorded slot)
  | exit p =>
    obtain ⟨runs, rfl⟩ := of_guard stepped
    cases exited : m.kernel.exit p with
    | error stopped =>
      -- init exits: the kernel is as it was
      unfold Kernel.exit at exited
      split at exited
      · cases exited
        exact conserved
      · cases exited
    | ok left =>
      have same := exit_untouched runs.2 exited
      exact conserved.moves (Moves.of_same m.calls same.log same.dates same.args same.freelist
        fun q used => ⟨exit_used exited q used, same.held q⟩) (recorded.untouched same)
  | wait p =>
    obtain ⟨-, rfl⟩ := of_guard stepped
    obtain ⟨waited, ran, outcome⟩ := wait_outcome recorded p
    have holds : Recorded waited m.calls := by
      obtain ⟨waited', ran', holds⟩ := wait_recorded recorded p
      cases ran.symm.trans ran'
      exact holds
    rw [ran]
    rcases outcome with same | ⟨q, proc, slot, -, -, -, result⟩
    · rw [same]
      exact conserved
    · subst result
      apply conserved.moves _ holds
      apply Moves.of_assign fun called => absurd (leakless q slot) called
      · intro page member
        exact Or.inl (List.mem_append_right _ member)
      · intro page member
        exact Or.inl (List.mem_append_left _ (List.mem_reverse.mpr member))
  | syscall p num now image =>
    obtain ⟨runs, rfl⟩ := of_guard stepped
    by_cases known : 0 < num ∧ num ≤ SYS_CALL_COUNT
    · have lower : 1 ≤ num.toNat := by omega
      have upper : num.toNat ≤ SYS_CALL_COUNT := by omega
      have enough : 3 ≤ m.kernel.freelist.length := leakless known
      rcases supply : m.kernel.freelist with _ | ⟨nodePage, _ | ⟨datePage, _ | ⟨argPage, rest⟩⟩⟩
      · simp [supply] at enough
      · simp [supply] at enough
      · simp [supply] at enough
      · obtain ⟨after, ran, records, holds⟩ := recorded.recordCall runs.used lower upper supply
          ⟨syscallsString.getD (num.toNat - 1) "", (m.kernel.proc p).pid⟩ now image
        have completed : m.complete p num = update m.calls p
            (m.calls p ++ [⟨num.toNat, datePage, argPage⟩]) := by
          rw [Machine.complete, if_pos known, supply]
          rfl
        rw [Kernel.syscall, if_pos known, ran, completed]
        exact conserved.recordCall runs.used lower upper records holds
    · rw [Kernel.syscall, if_neg known, Machine.complete, if_neg known]
      refine conserved.moves
        (Moves.of_same m.calls rfl rfl rfl rfl fun q used => ⟨used, rfl⟩) ?_
      exact recorded.sameUsed
        { kernelEnd := rfl, freelist := rfl, log := rfl, dates := rfl, args := rfl,
          used := fun q used => ⟨used, rfl, rfl⟩ }

theorem boot_conserved (memory : Memory) :
    Conserved memory memory.boot.kernel memory.boot.calls where
  recorded := boot_recorded memory
  numbered := by
    intro p call member
    cases member
  logged := by
    intro nodes done lists page member
    cases member
  records := by
    intro list page member
    cases list <;> cases member
  located := fun page member => Or.inr (Or.inr (Or.inl member))

/-- A call of a process in use has its pages on the lists of the slot. -/
theorem Conserved.inRecord (conserved : Conserved memory k calls) (list : RecordList) {page : Nat}
    (member : page ∈ k.recordPages list) : k.InRecord page := by
  obtain ⟨p, used, call, inCalls, isPage⟩ := conserved.records list page member
  obtain ⟨lower, upper⟩ := conserved.numbered p call inCalls
  refine ⟨p, call.num, used, lower, upper, ?_⟩
  have own := conserved.recorded.own p used call.num lower upper
  obtain ⟨index, found⟩ := List.mem_iff_getElem?.mp inCalls
  have inCells : page ∈ cells (calls p) list call.num :=
    mem_cells.mpr ⟨index, call, found, rfl, isPage⟩
  cases list with
  | dates =>
    have listed := (own.dates.list (List.ne_nil_of_mem inCells)).1
    exact Or.inl (Heap.reaches_of_chain listed.chain inCells)
  | args =>
    have listed := (own.args.list (List.ne_nil_of_mem inCells)).1
    exact Or.inr (Heap.reaches_of_chain listed.chain inCells)

/-- In every run that reaps no process with a record, every page that `kalloc`
returned for a record is still reachable from the slot of its process, and every
page of the machine is free or reachable from a structure in use. -/
theorem pages_accounted (memory : Memory) (actions : List Action) (final : Machine)
    (ran : machine.run memory.boot actions = some final)
    (leakless : machine.Meets Leakless memory.boot actions) :
    (∀ page, page ∈ final.kernel.dates.pages ∨ page ∈ final.kernel.args.pages →
      final.kernel.InRecord page ∨ page ∈ final.kernel.freelist) ∧
    ∀ page ∈ memory.pages, final.kernel.AccountsFor page := by
  have conserved : Conserved memory final.kernel final.calls :=
    System.run_preserves_of_meets (fun m => Conserved memory m.kernel m.calls)
      (fun _ _ _ holds leakless stepped => holds.step leakless stepped) (boot_conserved memory)
      leakless ran
  constructor
  · rintro page (inDates | inArgs)
    · exact Or.inl (conserved.inRecord .dates inDates)
    · exact Or.inl (conserved.inRecord .args inArgs)
  · intro page member
    rcases conserved.located page member with inLog | ⟨list, inRecord⟩ | inFree | inHeld
    · obtain ⟨nodes, done, lists⟩ := conserved.recorded.global
      exact Or.inr (Or.inr (Or.inl (Heap.reaches_of_chain lists.chain
        (conserved.logged nodes done lists page inLog))))
    · exact Or.inr (Or.inl (conserved.inRecord list inRecord))
    · exact Or.inl inFree
    · exact Or.inr (Or.inr (Or.inr inHeld))

private def blankPage : UserImage := ⟨PGSIZE, 0, fun _ => 0⟩

private def newYear : Rtcdate × Rtcdate := (⟨0, 0, 0, 1, 1, 2018⟩, ⟨1, 0, 0, 1, 1, 2018⟩)

/-- Init forks, its child exits without a call and is reaped, and init records
its `fork` and its `wait`. -/
def silentChild : List Action :=
  let init : Slot := ⟨0, NPROC_pos⟩
  let child : Slot := ⟨1, one_lt_NPROC⟩
  [.userinit 0, .schedule init .RUNNING, .fork init 0, .syscall init 1 newYear blankPage,
    .schedule child .RUNNING, .exit child, .wait init, .syscall init 3 newYear blankPage]

theorem pages_accounted_silentChild :
    ∃ final, machine.run smallMemory.boot silentChild = some final ∧
      final.kernel.dates.pages.length = 2 ∧
      (∀ page, page ∈ final.kernel.dates.pages ∨ page ∈ final.kernel.args.pages →
        final.kernel.InRecord page ∨ page ∈ final.kernel.freelist) ∧
      ∀ page ∈ smallMemory.pages, final.kernel.AccountsFor page := by
  have summary : (machine.run smallMemory.boot silentChild).map (fun final =>
      final.kernel.dates.pages.length) = some 2 := by
    decide +kernel
  have leakless : machine.Meets Leakless smallMemory.boot silentChild := by
    decide +kernel
  obtain ⟨final, ran, recorded⟩ := Option.map_eq_some_iff.mp summary
  exact ⟨final, ran, recorded, pages_accounted smallMemory silentChild final ran leakless⟩

/-- The page of the first date of the child that was reaped. -/
private def lostPage : Nat := 0x80103000

private def pageAt (index : Nat) : Nat := 0x80100000 + PGSIZE * index

/-- After the child was reaped and its slot reused, the page of its date record is
not free, and neither the new occupant nor anything else in use leads to it. -/
theorem reapedRecord_lost :
    ∃ final page, machine.run smallMemory.boot slotReused = some final ∧
      page ∈ smallMemory.pages ∧ page ∈ final.kernel.dates.pages ∧
      page ∉ final.kernel.freelist ∧ ¬ final.kernel.InRecord page ∧
      ¬ final.kernel.AccountsFor page := by
  -- the pages of the two calls of the new occupant, and those of the global list
  have summary : (machine.run smallMemory.boot slotReused).map (fun final =>
      decide (lostPage ∈ smallMemory.pages ∧ lostPage ∈ final.kernel.dates.pages ∧
        lostPage ∉ final.kernel.freelist ∧
        (∀ cell ∈ [pageAt 6, pageAt 9], final.kernel.dates.next cell = 0 ∨
          final.kernel.dates.next cell ∈ [pageAt 6, pageAt 9]) ∧
        (∀ cell ∈ [pageAt 7, pageAt 10], final.kernel.args.next cell = 0 ∨
          final.kernel.args.next cell ∈ [pageAt 7, pageAt 10]) ∧
        (∀ cell ∈ [pageAt 2, pageAt 5, pageAt 8], final.kernel.log.next cell = 0 ∨
          final.kernel.log.next cell ∈ [pageAt 2, pageAt 5, pageAt 8]) ∧
        final.kernel.log.firstProc ∈ [pageAt 2, pageAt 5, pageAt 8] ∧
        ∀ p, (final.kernel.proc p).state ≠ .UNUSED → lostPage ∉ (final.kernel.proc p).held ∧
          ∀ index < SYS_CALL_COUNT,
            (((final.kernel.proc p).syscalls index).datelist = 0 ∨
              ((final.kernel.proc p).syscalls index).datelist ∈ [pageAt 6, pageAt 9]) ∧
            (((final.kernel.proc p).syscalls index).arglist = 0 ∨
              ((final.kernel.proc p).syscalls index).arglist ∈ [pageAt 7, pageAt 10]))) =
      some true := by
    decide +kernel
  obtain ⟨final, ran, facts⟩ := Option.map_eq_some_iff.mp summary
  rw [decide_eq_true_eq] at facts
  obtain ⟨inMemory, inDates, notFree, dates, args, log, first, slots⟩ := facts
  have notRecord : ¬ final.kernel.InRecord lostPage := by
    rintro ⟨p, num, used, lower, upper, inDate | inArg⟩
    · have start := ((slots p used).2 (num - 1) (by omega)).1
      exact absurd (inDate.mem_of_closed dates start) (by decide)
    · have start := ((slots p used).2 (num - 1) (by omega)).2
      exact absurd (inArg.mem_of_closed args start) (by decide)
  refine ⟨final, lostPage, ran, inMemory, inDates, notFree, notRecord, ?_⟩
  rintro (isFree | inRecord | inLog | ⟨p, used, held⟩)
  · exact notFree isFree
  · exact notRecord inRecord
  · exact absurd (inLog.mem_of_closed log (Or.inr first)) (by decide)
  · exact (slots p used).1 held

end Xv6.Syscall
