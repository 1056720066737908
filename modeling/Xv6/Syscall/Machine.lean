import Xv6.Syscall.Ownership

/-!
Contract: runs of the kernel as far as the record of system calls is concerned,
and what each function does to the process table and the pages.

A run contains `userinit`, `fork`, `exit`, `wait` and `syscall`, and also
scheduling, `exec`, and the pages that handlers take and give back, in any order.
The history `calls` is what the record is compared with: the calls completed by
the present occupant of each slot, with the two pages that `kalloc` returned for
each.
-/

namespace Xv6.Syscall

open Function Xv6.Lib

structure Machine where
  kernel : Kernel
  calls : Slot → List Completed
  fault : Option Fault

/-- Physical memory as `kinit1` and `kinit2` leave it: distinct pages that
`kfree` accepted. -/
structure Memory where
  kernelEnd : Nat
  pages : List Nat
  aboveNull : 0 < kernelEnd
  distinct : pages.Nodup
  valid : ∀ page ∈ pages, Kernel.ValidPage kernelEnd page

inductive Action where
  | userinit (count : Nat)
  | schedule (p : Slot) (state : Procstate)
  | exec (p : Slot) (name : String)
  | kalloc (p : Slot)
  | kfree (p : Slot) (page : Nat)
  | fork (p : Slot) (count : Nat)
  | exit (p : Slot)
  | wait (p : Slot)
  | syscall (p : Slot) (num : Int) (now : Rtcdate × Rtcdate) (image : UserImage)

variable {m : Machine} {p : Slot}

namespace Machine

def settle (m : Machine) (calls : Slot → List Completed) : Result Kernel → Machine
  | .ok k => { m with kernel := k, calls := calls }
  | .error (k, fault) => { m with kernel := k, fault := some fault }

/-- The history after `allocproc` has given a slot to a new process. -/
def forget (m : Machine) : Slot → List Completed :=
  match m.kernel.findSlot fun proc => proc.state = .UNUSED with
  | some np => update m.calls np []
  | none => m.calls

/-- The history after `p` has completed call `num`: `kalloc` returns one page for
the global list and then the two of `p`'s own record. -/
def complete (m : Machine) (p : Slot) (num : Int) : Slot → List Completed :=
  if 0 < num ∧ num ≤ SYS_CALL_COUNT then
    update m.calls p (m.calls p ++
      [⟨num.toNat, m.kernel.freelist.getD 1 0, m.kernel.freelist.getD 2 0⟩])
  else m.calls

def Runs (m : Machine) (p : Slot) : Prop := m.fault = none ∧ (m.kernel.proc p).state = .RUNNING

instance (m : Machine) (p : Slot) : Decidable (m.Runs p) := inferInstanceAs (Decidable (_ ∧ _))

theorem Runs.used (runs : m.Runs p) : (m.kernel.proc p).state ≠ .UNUSED := by
  rw [runs.2]
  decide

end Machine

/-- The states between which the scheduler moves a process. -/
def Procstate.scheduled : Procstate → Bool
  | .SLEEPING => true
  | .RUNNABLE => true
  | .RUNNING => true
  | _ => false

/-- A handler takes a page for the address space of `p`, or fails to. -/
def Kernel.growPages (k : Kernel) (p : Slot) : Kernel :=
  let (page, k) := k.kalloc
  if page = 0 then k
  else k.setProc p { k.proc p with pages := page :: (k.proc p).pages }

def Kernel.shrinkPages (k : Kernel) (p : Slot) (page : Nat) : Result Kernel := do
  let k ← k.kfree page
  pure (k.setProc p { k.proc p with pages := (k.proc p).pages.erase page })

def machineNext (m : Machine) : Action → Option Machine
  | .userinit count =>
    if m.fault = none ∧ ∀ p, (m.kernel.proc p).state = .UNUSED then
      some (m.settle m.forget (m.kernel.userinit count))
    else none
  | .schedule p state =>
    if m.fault = none ∧ (m.kernel.proc p).state.scheduled ∧ state.scheduled then
      some { m with kernel := m.kernel.setProc p { m.kernel.proc p with state := state } }
    else none
  | .exec p name =>
    if m.Runs p then
      some { m with kernel := m.kernel.setProc p { m.kernel.proc p with name := name } }
    else none
  | .kalloc p => if m.Runs p then some { m with kernel := m.kernel.growPages p } else none
  | .kfree p page =>
    if m.Runs p ∧ page ∈ (m.kernel.proc p).pages then
      some (m.settle m.calls (m.kernel.shrinkPages p page))
    else none
  | .fork p count =>
    if m.Runs p then some (m.settle m.forget (m.kernel.fork p count)) else none
  | .exit p => if m.Runs p then some (m.settle m.calls (m.kernel.exit p)) else none
  | .wait p =>
    if m.Runs p then some (m.settle m.calls ((m.kernel.wait p).map Prod.fst)) else none
  | .syscall p num now image =>
    if m.Runs p then
      some (m.settle (m.complete p num) (m.kernel.syscall p num now image))
    else none

def machine : System Machine Action where
  next := machineNext

def Proc.unused : Proc where
  state := .UNUSED
  pid := 0
  parent := none
  kstack := 0
  pages := []
  killed := false
  name := ""
  syscalls := fun _ => ⟨0, 0, 0, "", 0, 0⟩

/-- The kernel before `userinit`. -/
def Memory.boot (memory : Memory) : Machine where
  kernel :=
    { kernelEnd := memory.kernelEnd, freelist := memory.pages, exhausted := false,
      proc := fun _ => Proc.unused, nextpid := 1, initproc := none,
      log := { cell := fun _ => junkNode, pages := [], firstProc := 0, lastProc := 0 },
      dates := ⟨fun _ => Linked.blank, []⟩, args := ⟨fun _ => Linked.blank, []⟩, console := [] }
  calls := fun _ => []
  fault := none

variable {k : Kernel}

theorem takePages_exhausted (spent : k.exhausted = true) (count : Nat) :
    (k.takePages count).2.exhausted = true := by
  induction count generalizing k with
  | zero => exact spent
  | succ count ih =>
    unfold Kernel.takePages
    split
    · rfl
    · rename_i page rest _
      have later := ih (k := { k with freelist := rest }) spent
      split
      · rename_i ran
        rw [ran] at later
        exact later
      · rename_i ran
        rw [ran] at later
        exact later

variable {after : Kernel} {pages : List Nat}

/-- `takePages` takes the first pages of the free list. -/
theorem takePages_some {count : Nat} (ran : k.takePages count = (some pages, after)) :
    pages.length = count ∧ ∃ rest, k.freelist = pages ++ rest ∧
      after = { k with freelist := rest } := by
  induction count generalizing k after pages with
  | zero =>
    cases ran
    exact ⟨rfl, k.freelist, rfl, rfl⟩
  | succ count ih =>
    unfold Kernel.takePages at ran
    split at ran
    · cases ran
    · rename_i page rest supply
      split at ran
      · rename_i later middle tail
        cases ran
        obtain ⟨length, rest', split, result⟩ := ih tail
        refine ⟨congrArg (· + 1) length, rest', ?_, result⟩
        rw [supply]
        exact congrArg (page :: ·) split
      · cases ran

theorem takePages_none {count : Nat} (ran : k.takePages count = (none, after)) :
    k.freelist.length < count ∧ after = { k with exhausted := true } := by
  induction count generalizing k after with
  | zero => cases ran
  | succ count ih =>
    unfold Kernel.takePages at ran
    split at ran
    · rename_i empty
      cases ran
      exact ⟨by simp [empty], rfl⟩
    · rename_i page rest supply
      split at ran
      · cases ran
      · rename_i middle tail
        cases ran
        obtain ⟨short, result⟩ := ih tail
        rw [result]
        refine ⟨?_, by simp only [supply]⟩
        rw [supply]
        exact Nat.succ_lt_succ short

theorem findSlot_some {wanted : Proc → Bool} (found : k.findSlot wanted = some p) :
    wanted (k.proc p) = true := by
  have holds := List.find?_some found
  exact holds

theorem allocproc_exhausted (spent : k.exhausted = true) : k.allocproc.2.exhausted = true := by
  unfold Kernel.allocproc
  split
  · exact spent
  · rename_i np _
    have later : (k.claimSlot np).kalloc.2.exhausted = true := Kernel.kalloc_exhausted spent
    dsimp only
    split
    · exact later
    · exact later

variable {np : Slot}

theorem allocproc_some (ran : k.allocproc = (some np, after)) :
    k.findSlot (fun proc => proc.state = .UNUSED) = some np ∧
      ∃ page rest, k.freelist = page :: rest ∧
        after = { (k.claimSlot np).setProc np { (k.claimSlot np).proc np with kstack := page } with
          freelist := rest } := by
  unfold Kernel.allocproc at ran
  split at ran
  · cases ran
  · rename_i found slot
    dsimp only at ran
    split at ran
    · cases ran
    · rename_i nonzero
      cases ran
      refine ⟨slot, ?_⟩
      cases supply : k.freelist with
      | nil =>
        exfalso
        apply nonzero
        have empty : (k.claimSlot np).freelist = [] := supply
        simp [Kernel.kalloc, empty]
      | cons page rest =>
        have supply' : (k.claimSlot np).freelist = page :: rest := supply
        refine ⟨page, rest, rfl, ?_⟩
        simp only [Kernel.kalloc, supply']
        rfl

/-- A slot that was not in use and still is not; everything else is as it was. -/
structure Vacated (k after : Kernel) (np : Slot) : Prop where
  kernelEnd : after.kernelEnd = k.kernelEnd
  freelist : after.freelist = k.freelist
  log : after.log = k.log
  dates : after.dates = k.dates
  args : after.args = k.args
  unused : (after.proc np).state = .UNUSED
  elsewhere : ∀ q, q ≠ np → after.proc q = k.proc q

/-- A failed `allocproc` found no slot, or no page for the stack. -/
theorem allocproc_none (nonzero : ∀ page ∈ k.freelist, page ≠ 0) (ran : k.allocproc = (none, after)) :
    (k.findSlot (fun proc => proc.state = .UNUSED) = none ∧ after = k) ∨
      ∃ np, k.findSlot (fun proc => proc.state = .UNUSED) = some np ∧ k.freelist = [] ∧
        after.exhausted = true ∧ Vacated k after np := by
  unfold Kernel.allocproc at ran
  split at ran
  · rename_i slot
    cases ran
    exact Or.inl ⟨slot, rfl⟩
  · rename_i np slot
    dsimp only at ran
    split at ran
    · rename_i isNull
      cases ran
      refine Or.inr ⟨np, slot, ?_⟩
      cases supply : k.freelist with
      | cons page rest =>
        exfalso
        have supply' : (k.claimSlot np).freelist = page :: rest := supply
        have isPage : (k.claimSlot np).kalloc.1 = page := by simp [Kernel.kalloc, supply']
        exact nonzero page (by simp [supply]) (isPage.symm.trans isNull)
      | nil =>
        have empty : (k.claimSlot np).freelist = [] := supply
        have taken : (k.claimSlot np).kalloc =
            (0, { k.claimSlot np with exhausted := true }) := by
          simp [Kernel.kalloc, empty]
        rw [taken]
        refine ⟨rfl, rfl, ?_⟩
        refine { kernelEnd := rfl, freelist := rfl, log := rfl, dates := rfl, args := rfl,
                 unused := ?_, elsewhere := ?_ }
        · simp [Kernel.setProc]
        · intro q other
          simp [Kernel.setProc, Kernel.claimSlot, update_of_ne other]
    · cases ran

/-- A claimed slot with `page` as its stack and `pages` as its address space. -/
def Kernel.newProc (k : Kernel) (np : Slot) (page : Nat) (pages : List Nat)
    (parent : Option Slot) (name : String) : Proc :=
  { k.proc np with
    state := .RUNNABLE, pid := k.nextpid, parent := parent, kstack := page, pages := pages,
    name := name, syscalls := fun i => { (k.proc np).syscalls i with count := 0 } }

variable {calls : Slot → List Completed} {page : Nat}

/-- A slot handed out with pages from the free list starts with no record. -/
theorem Recorded.newProc (recorded : Recorded k calls)
    (slot : k.findSlot (fun proc => proc.state = .UNUSED) = some np) {rest : List Nat}
    (supply : k.freelist = (page :: pages) ++ rest) (parent : Option Slot) (name : String) :
    Recorded (k.assign np (k.newProc np page pages parent name) rest)
      (update calls np []) := by
  have unused : (k.proc np).state = .UNUSED := by simpa using findSlot_some slot
  obtain ⟨owner, accounts⟩ := recorded.accounts
  have distinct := accounts.distinct
  rw [supply, List.nodup_append] at distinct
  refine (recorded.forget unused).take supply distinct.1 (fun _ member => Or.inl member) ?_
  intro num lower upper
  rw [update_self]
  constructor
  · rw [Kernel.assign_proc_self]
    exact ⟨rfl, fun nonempty => absurd rfl nonempty⟩
  · rw [Kernel.assign_proc_self]
    exact ⟨rfl, fun nonempty => absurd rfl nonempty⟩

theorem Recorded.usable (recorded : Recorded k calls) (member : page ∈ k.freelist) :
    Usable k page := by
  obtain ⟨owner, accounts⟩ := recorded.accounts
  exact (accounts.free page member).2

theorem forget_of_slot (slot : m.kernel.findSlot (fun proc => proc.state = .UNUSED) = some np) :
    m.forget = update m.calls np [] := by
  simp only [Machine.forget, slot]

theorem forget_of_none (slot : m.kernel.findSlot (fun proc => proc.state = .UNUSED) = none) :
    m.forget = m.calls := by
  simp only [Machine.forget, slot]

theorem fork_exhausted (spent : k.exhausted = true) (p : Slot) (count : Nat) :
    (Kernel.finalKernel (k.fork p count)).exhausted = true := by
  have allocated := allocproc_exhausted spent
  unfold Kernel.fork
  split
  · rename_i ran
    rw [ran] at allocated
    exact allocated
  · rename_i np middle ran
    rw [ran] at allocated
    have took := takePages_exhausted allocated count
    split
    · rename_i after tookEq
      rw [tookEq] at took
      unfold Kernel.kfree
      split
      · exact took
      · exact took
    · rename_i after tookEq
      rw [tookEq] at took
      exact took

theorem userinit_exhausted (spent : k.exhausted = true) (count : Nat) :
    (Kernel.finalKernel (k.userinit count)).exhausted = true := by
  have allocated := allocproc_exhausted spent
  unfold Kernel.userinit
  split
  · rename_i ran
    rw [ran] at allocated
    exact allocated
  · rename_i np middle ran
    rw [ran] at allocated
    have took := takePages_exhausted allocated count
    split
    · rename_i after tookEq
      rw [tookEq] at took
      exact took
    · rename_i after tookEq
      rw [tookEq] at took
      exact took

/-- A slot that was not in use has gone to a new process, with pages from the
free list. -/
structure Started (k after : Kernel) (np : Slot) (page : Nat) (pages : List Nat)
    (parent : Option Slot) (name : String) : Prop where
  supply : k.freelist = (page :: pages) ++ after.freelist
  kernelEnd : after.kernelEnd = k.kernelEnd
  log : after.log = k.log
  dates : after.dates = k.dates
  args : after.args = k.args
  here : after.proc np = k.newProc np page pages parent name
  elsewhere : ∀ q, q ≠ np → after.proc q = k.proc q

theorem Started.recorded {parent : Option Slot} {name : String}
    (started : Started k after np page pages parent name) (recorded : Recorded k calls)
    (slot : k.findSlot (fun proc => proc.state = .UNUSED) = some np) :
    Recorded after (update calls np []) := by
  have same : ∀ q, after.proc q =
      (k.assign np (k.newProc np page pages parent name) after.freelist).proc q := by
    intro q
    by_cases isNew : q = np
    · rw [isNew, started.here, Kernel.assign_proc_self]
    · rw [started.elsewhere q isNew, Kernel.assign_proc_other k isNew]
  apply (recorded.newProc slot started.supply parent name).sameUsed
  refine { kernelEnd := started.kernelEnd, freelist := rfl, log := started.log,
           dates := started.dates, args := started.args, used := ?_ }
  intro q used
  rw [← same q]
  exact ⟨used, rfl, rfl⟩

theorem Vacated.recorded (vacated : Vacated k after np) (recorded : Recorded k calls)
    (slot : k.findSlot (fun proc => proc.state = .UNUSED) = some np) :
    Recorded after (update calls np []) := by
  have unused : (k.proc np).state = .UNUSED := by simpa using findSlot_some slot
  apply (recorded.forget unused).sameUsed
  refine { kernelEnd := vacated.kernelEnd, freelist := vacated.freelist, log := vacated.log,
           dates := vacated.dates, args := vacated.args, used := ?_ }
  intro q used
  have other : q ≠ np := fun same => used (same ▸ vacated.unused)
  rw [vacated.elsewhere q other] at used ⊢
  exact ⟨used, rfl, rfl⟩

/-- Everything `fork` can come to. -/
theorem fork_outcome (usable : ∀ page ∈ k.freelist, Usable k page) (p : Slot) (count : Nat) :
    ∃ after, k.fork p count = .ok after ∧
      ((k.findSlot (fun proc => proc.state = .UNUSED) = none ∧ after = k) ∨
        ∃ np, k.findSlot (fun proc => proc.state = .UNUSED) = some np ∧
          (Vacated k after np ∨
            ∃ page pages name, Started k after np page pages (some p) name)) := by
  unfold Kernel.fork
  cases allocated : k.allocproc with
  | mk found middle =>
    cases found with
    | none =>
      refine ⟨middle, rfl, ?_⟩
      rcases allocproc_none (fun page member => (usable page member).1) allocated with
        ⟨slot, same⟩ | ⟨np, slot, -, -, vacated⟩
      · exact Or.inl ⟨slot, same⟩
      · exact Or.inr ⟨np, slot, Or.inl vacated⟩
    | some np =>
      obtain ⟨slot, page, rest, supply, middleEq⟩ := allocproc_some allocated
      dsimp only
      cases took : middle.takePages count with
      | mk taken last =>
        cases taken with
        | none =>
          -- the stack goes back too
          obtain ⟨-, lastEq⟩ := takePages_none took
          have stack : (last.proc np).kstack = page := by
            rw [lastEq, middleEq]
            simp [Kernel.setProc]
          have valid : Kernel.ValidPage last.kernelEnd page := by
            rw [lastEq, middleEq]
            exact (usable page (by simp [supply])).2
          simp only [stack, Kernel.kfree, if_pos valid, bind, Except.bind, pure,
            Except.pure]
          refine ⟨_, rfl, Or.inr ⟨np, slot, Or.inl ?_⟩⟩
          subst lastEq middleEq
          refine { kernelEnd := rfl, freelist := supply.symm, log := rfl, dates := rfl,
                   args := rfl, unused := ?_, elsewhere := ?_ }
          · simp [Kernel.setProc]
          · intro q other
            simp [Kernel.setProc, Kernel.claimSlot, update_of_ne other]
        | some pages =>
          obtain ⟨-, rest', split, lastEq⟩ := takePages_some took
          refine ⟨_, rfl, Or.inr ⟨np, slot, Or.inr ⟨page, pages, (last.proc p).name, ?_⟩⟩⟩
          subst lastEq middleEq
          refine { supply := ?_, kernelEnd := rfl, log := rfl, dates := rfl, args := rfl,
                   here := ?_, elsewhere := ?_ }
          · rw [supply]
            exact congrArg (page :: ·) split
          · simp [Kernel.setProc, Kernel.claimSlot, Kernel.newProc]
          · intro q other
            simp [Kernel.setProc, Kernel.claimSlot, update_of_ne other]

/-- `userinit` starts the first process, or the kernel runs out of pages. -/
theorem userinit_outcome (nonzero : ∀ page ∈ k.freelist, page ≠ 0)
    (unused : ∀ p, (k.proc p).state = .UNUSED) (count : Nat) :
    (k.freelist.length ≤ count ∧ (Kernel.finalKernel (k.userinit count)).exhausted = true) ∨
      ∃ after np page pages, k.userinit count = .ok after ∧
        k.findSlot (fun proc => proc.state = .UNUSED) = some np ∧
        Started k after np page pages (k.proc np).parent "initcode" := by
  unfold Kernel.userinit
  cases allocated : k.allocproc with
  | mk found middle =>
    cases found with
    | none =>
      rcases allocproc_none nonzero allocated with ⟨slot, -⟩ | ⟨np, -, empty, spent, -⟩
      · exfalso
        have first := List.find?_eq_none.mp slot ⟨0, by decide⟩ (List.mem_finRange _)
        simp [unused] at first
      · exact Or.inl ⟨by simp [empty], spent⟩
    | some np =>
      obtain ⟨slot, page, rest, supply, middleEq⟩ := allocproc_some allocated
      dsimp only
      cases took : middle.takePages count with
      | mk taken last =>
        cases taken with
        | none =>
          obtain ⟨short, lastEq⟩ := takePages_none took
          refine Or.inl ⟨?_, by rw [lastEq]; rfl⟩
          rw [supply]
          rw [middleEq] at short
          exact short
        | some pages =>
          obtain ⟨-, rest', split, lastEq⟩ := takePages_some took
          refine Or.inr ⟨_, np, page, pages, rfl, slot, ?_⟩
          subst lastEq middleEq
          refine { supply := ?_, kernelEnd := rfl, log := rfl, dates := rfl, args := rfl,
                   here := ?_, elsewhere := ?_ }
          · rw [supply]
            exact congrArg (page :: ·) split
          · simp [Kernel.setProc, Kernel.claimSlot, Kernel.newProc]
          · intro q other
            simp [Kernel.setProc, Kernel.claimSlot, update_of_ne other]

theorem fork_recorded (recorded : Recorded m.kernel m.calls) (p : Slot) (count : Nat) :
    ∃ after, m.kernel.fork p count = .ok after ∧ Recorded after m.forget := by
  obtain ⟨after, ran, outcome⟩ := fork_outcome (fun _ member => recorded.usable member) p count
  refine ⟨after, ran, ?_⟩
  rcases outcome with ⟨slot, same⟩ | ⟨np, slot, vacated | ⟨page, pages, name, started⟩⟩
  · rw [forget_of_none slot, same]
    exact recorded
  · rw [forget_of_slot slot]
    exact vacated.recorded recorded slot
  · rw [forget_of_slot slot]
    exact started.recorded recorded slot

theorem userinit_recorded (recorded : Recorded m.kernel m.calls)
    (unused : ∀ p, (m.kernel.proc p).state = .UNUSED) (count : Nat)
    (fresh : (Kernel.finalKernel (m.kernel.userinit count)).exhausted = false) :
    ∃ after, m.kernel.userinit count = .ok after ∧ Recorded after m.forget := by
  rcases userinit_outcome (fun _ member => (recorded.usable member).1) unused count with
    ⟨-, spent⟩ | ⟨after, np, page, pages, ran, slot, started⟩
  · exact absurd (spent.symm.trans fresh) Bool.noConfusion
  · refine ⟨after, ran, ?_⟩
    rw [forget_of_slot slot]
    exact started.recorded recorded slot

theorem kfreeAll_spec (valid : ∀ page ∈ pages, Kernel.ValidPage k.kernelEnd page) :
    k.kfreeAll pages = .ok { k with freelist := pages.reverse ++ k.freelist } := by
  induction pages generalizing k with
  | nil => rfl
  | cons page rest ih =>
    have first : k.kfree page = .ok { k with freelist := page :: k.freelist } :=
      if_pos (valid page List.mem_cons_self)
    have later := ih (k := { k with freelist := page :: k.freelist })
      fun other member => valid other (List.mem_cons_of_mem page member)
    rw [Kernel.kfreeAll, List.foldlM_cons, first, List.reverse_cons, List.append_assoc]
    exact later

theorem kfreeAll_exhausted (k : Kernel) (pages : List Nat) :
    (Kernel.finalKernel (k.kfreeAll pages)).exhausted = k.exhausted := by
  induction pages generalizing k with
  | nil => rfl
  | cons page rest ih =>
    rw [Kernel.kfreeAll, List.foldlM_cons]
    by_cases valid : Kernel.ValidPage k.kernelEnd page
    · rw [Kernel.kfree, if_pos valid]
      exact ih { k with freelist := page :: k.freelist }
    · rw [Kernel.kfree, if_neg valid]
      rfl

theorem wait_exhausted (spent : k.exhausted = true) (p : Slot) :
    (Kernel.finalKernel ((k.wait p).map Prod.fst)).exhausted = true := by
  unfold Kernel.wait
  split
  · rename_i q _
    have flag := (kfreeAll_exhausted k ((k.proc q).kstack :: (k.proc q).pages)).trans spent
    dsimp only
    cases freed : k.kfreeAll ((k.proc q).kstack :: (k.proc q).pages) with
    | ok after =>
      rw [freed] at flag
      exact flag
    | error stopped =>
      rw [freed] at flag
      exact flag
  · split
    · exact spent
    · exact spent

/-- One pass of `wait`: it leaves the kernel alone or reaps a zombie. -/
theorem wait_outcome (recorded : Recorded k calls) (p : Slot) :
    ∃ after, (k.wait p).map Prod.fst = .ok after ∧ (after = k ∨
      ∃ q proc, k.findSlot (fun proc => proc.parent = some p ∧ proc.state = .ZOMBIE) = some q ∧
        (k.proc q).state = .ZOMBIE ∧ proc.state = .UNUSED ∧
        proc.syscalls = (k.proc q).syscalls ∧
        after = k.assign q proc ((k.proc q).held.reverse ++ k.freelist)) := by
  unfold Kernel.wait
  split
  · rename_i q slot
    have found := findSlot_some slot
    simp only [decide_eq_true_eq] at found
    have used : (k.proc q).state ≠ .UNUSED := by
      rw [found.2]
      decide
    obtain ⟨owner, accounts⟩ := recorded.accounts
    have freed := kfreeAll_spec (k := k) fun page member => (accounts.proc q used page member).2.2
    rw [Proc.held] at freed
    simp only [freed, bind, Except.bind, pure, Except.pure, Except.map]
    refine ⟨_, rfl, Or.inr ⟨q, { k.proc q with
      kstack := 0, pages := [], pid := 0, parent := none, name := "", killed := false,
      state := .UNUSED }, slot, found.2, rfl, rfl, rfl⟩⟩
  · split
    · exact ⟨k, rfl, Or.inl rfl⟩
    · exact ⟨k, rfl, Or.inl rfl⟩

theorem wait_recorded (recorded : Recorded k calls) (p : Slot) :
    ∃ after, (k.wait p).map Prod.fst = .ok after ∧ Recorded after calls := by
  obtain ⟨after, ran, outcome⟩ := wait_outcome recorded p
  refine ⟨after, ran, ?_⟩
  rcases outcome with same | ⟨q, proc, -, zombie, unused, syscalls, result⟩
  · exact same ▸ recorded
  · have used : (k.proc q).state ≠ .UNUSED := by
      rw [zombie]
      decide
    obtain ⟨owner, accounts⟩ := recorded.accounts
    rw [result]
    refine recorded.give used ?_ ?_ (fun isUsed => absurd unused isUsed) syscalls
    · exact List.nodup_reverse.mpr (accounts.procDistinct q used)
    · intro page member
      exact List.mem_reverse.mp member

theorem shrinkPages_eq (recorded : Recorded k calls) (used : (k.proc p).state ≠ .UNUSED)
    (member : page ∈ (k.proc p).pages) :
    k.shrinkPages p page = .ok (k.assign p
      { k.proc p with pages := (k.proc p).pages.erase page } ([page] ++ k.freelist)) := by
  obtain ⟨owner, accounts⟩ := recorded.accounts
  have valid := (accounts.proc p used page (List.mem_cons_of_mem _ member)).2.2
  rw [Kernel.shrinkPages, Kernel.kfree, if_pos valid]
  rfl

theorem shrinkPages_recorded (recorded : Recorded k calls) (used : (k.proc p).state ≠ .UNUSED)
    (member : page ∈ (k.proc p).pages) :
    Recorded (k.assign p { k.proc p with pages := (k.proc p).pages.erase page }
      ([page] ++ k.freelist)) calls := by
  obtain ⟨owner, accounts⟩ := recorded.accounts
  have inHeld : page ∈ (k.proc p).held := List.mem_cons_of_mem _ member
  have distinct := accounts.procDistinct p used
  rw [Proc.held, List.nodup_cons] at distinct
  refine recorded.give (p := p) used (List.nodup_singleton page) ?_ ?_ rfl
  · intro other isPage
    rw [List.mem_singleton.mp isPage]
    exact inHeld
  · intro _
    constructor
    · exact List.nodup_cons.mpr
        ⟨fun inRest => distinct.1 (List.mem_of_mem_erase inRest), distinct.2.erase page⟩
    · intro other inKept
      rcases List.mem_cons.mp inKept with isStack | inRest
      · refine ⟨isStack ▸ List.mem_cons_self, fun isPage => distinct.1 ?_⟩
        rw [List.mem_singleton.mp isPage] at isStack
        exact isStack ▸ member
      · have erased := (distinct.2.mem_erase_iff).mp inRest
        exact ⟨List.mem_cons_of_mem _ erased.2, fun isPage =>
          erased.1 (List.mem_singleton.mp isPage)⟩

theorem growPages_exhausted (spent : k.exhausted = true) (p : Slot) :
    (k.growPages p).exhausted = true := by
  have later := Kernel.kalloc_exhausted spent
  unfold Kernel.growPages
  dsimp only
  split
  · exact later
  · exact later

theorem growPages_nil (p : Slot) (empty : k.freelist = []) :
    k.growPages p = { k with exhausted := true } := by
  simp [Kernel.growPages, Kernel.kalloc, empty]

theorem growPages_cons (p : Slot) {rest : List Nat} (supply : k.freelist = page :: rest)
    (nonzero : page ≠ 0) :
    k.growPages p = k.assign p { k.proc p with pages := page :: (k.proc p).pages } rest := by
  simp only [Kernel.growPages, Kernel.kalloc, supply, if_neg nonzero]
  rfl

theorem growPages_recorded (recorded : Recorded k calls) (used : (k.proc p).state ≠ .UNUSED) :
    Recorded (k.growPages p) calls := by
  cases supply : k.freelist with
  | nil =>
    rw [growPages_nil p supply]
    exact recorded.sameUsed
      { kernelEnd := rfl, freelist := rfl, log := rfl, dates := rfl, args := rfl,
        used := fun q used => ⟨used, rfl, rfl⟩ }
  | cons page rest =>
    have nonzero : page ≠ 0 := (recorded.usable (supply ▸ List.mem_cons_self)).1
    rw [growPages_cons p supply nonzero]
    obtain ⟨owner, accounts⟩ := recorded.accounts
    have isFree := (accounts.free page (supply ▸ List.mem_cons_self)).1
    have notHeld : page ∉ (k.proc p).held := by
      intro member
      have owned := (accounts.proc p used page member).1
      rw [isFree] at owned
      cases owned
    have distinct := accounts.procDistinct p used
    rw [Proc.held, List.nodup_cons] at distinct
    rw [Proc.held, List.mem_cons, not_or] at notHeld
    apply recorded.take (show k.freelist = [page] ++ rest from supply)
    · refine List.nodup_cons.mpr ⟨?_, List.nodup_cons.mpr ⟨notHeld.2, distinct.2⟩⟩
      rw [List.mem_cons, not_or]
      exact ⟨fun same => notHeld.1 same.symm, distinct.1⟩
    · intro other member
      rcases List.mem_cons.mp member with isStack | inPages
      · exact Or.inr ⟨used, isStack ▸ List.mem_cons_self⟩
      · rcases List.mem_cons.mp inPages with isPage | inRest
        · exact Or.inl (by simp [isPage])
        · exact Or.inr ⟨used, List.mem_cons_of_mem _ inRest⟩
    · intro num lower upper
      have before := recorded.own p used num lower upper
      constructor
      · rw [Kernel.assign_proc_self]
        exact before.dates
      · rw [Kernel.assign_proc_self]
        exact before.args

end Xv6.Syscall
