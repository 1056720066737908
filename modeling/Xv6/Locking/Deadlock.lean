import Xv6.Lib.SpinLocks

/-!
Contract: the order in which the kernel takes its spinlocks, and when the CPUs can
deadlock.

A path is what a CPU does from one point at which it holds no spinlock to the next.
Interrupts are off while a CPU holds a spinlock, so an interrupt handler is a path
like any other. Every lock of the kernel is taken before `ptable.lock`, and
`kmem.lock` after it, with one exception: `invocation_log` and `get_syscall_count`
print under `ptable.lock`, while `consoleintr` wakes readers under `cons.lock`.

Owns: the lock operations of the kernel's functions and the absence of cycles.
-/

namespace Xv6.Locking

open Function Xv6.Lib

/-- The spinlocks of the kernel. A pipe, a sleep-lock and the ticket lock each
have a spinlock of their own. -/
inductive Lock where
  | cons
  | ptable
  | kmem
  | tickslock
  | idelock
  | log
  | bcache
  | icache
  | ftable
  | pipe (index : Nat)
  | sleeplock (index : Nat)
  | ticketlock
deriving DecidableEq

abbrev Ops := List (LockOp Lock)

def repeated (count : Nat) (ops : Ops) : Ops := (List.replicate count ops).flatten

def section_ (lock : Lock) (inside : Ops) : Ops := .acquire lock :: (inside ++ [.release lock])

def kmemSection : Ops := section_ .kmem []

def wakeup : Ops := section_ .ptable []

def cprintf : Ops := section_ .cons []

/-- From `sched` on, the CPU runs the scheduler and then a process that returns
from its own `sched`, all with `ptable.lock` held. If that process is in `wait`, it
frees `pages` pages of a child before it releases the lock. -/
def sched (pages : Nat) : Ops := repeated pages kmemSection ++ [.release .ptable]

/-- `sleep` with the lock `lk` held. -/
def sleep (lk : Lock) (pages : Nat) : Ops :=
  .acquire .ptable :: .release lk :: sched pages

/-- A section of `lk` with `wakeups` calls of `wakeup` that ends in a call of
`sleep`, or in the release of `lk`. -/
def monitor (lk : Lock) (wakeups : Nat) : Option Nat → Ops
  | some pages => .acquire lk :: (repeated wakeups wakeup ++ sleep lk pages)
  | none => section_ lk (repeated wakeups wakeup)

/-- The paths of the kernel. `sleeps` says that the section ends in `sleep`, and
how many pages the process freed that the CPU went on with. -/
inductive KernelPath where
  | kalloc
  | kfree
  | cprintf
  | consoleintr (wakeups : Nat)
  | consoleread (sleeps : Option Nat)
  | consolewrite
  | timer
  | sysSleep (sleeps : Option Nat)
  | sysUptime
  | ideintr (wakes : Bool)
  | iderw (sleeps : Option Nat)
  | beginOp (sleeps : Option Nat)
  | endOp (wakes : Bool)
  | logWrite
  | bget
  | brelse
  | iget
  | idup
  | iput
  | filealloc
  | filedup
  | fileclose
  | acquiresleep (index : Nat) (sleeps : Option Nat)
  | releasesleep (index : Nat) (wakes : Bool)
  | holdingsleep (index : Nat)
  | pipeclose (index : Nat)
  | pipewrite (index : Nat) (wakes : Bool) (sleeps : Option Nat)
  | piperead (index : Nat) (wakes : Bool) (sleeps : Option Nat)
  | ticketAcquire (sleeps : Option Nat)
  | ticketRelease (wakes : Bool)
  | allocproc
  | userinit
  | fork
  | kill
  | wakeup
  | exit (pages : Nat)
  | wait (pages : Nat)
  | yield (pages : Nat)
  | scheduler (pages : Nat)
  | invocationLog (lines : Nat)
  | getSyscallCount (found : Bool)

namespace KernelPath

def ops : KernelPath → Ops
  | kalloc => kmemSection
  | kfree => kmemSection
  | cprintf => Locking.cprintf
  | consoleintr wakeups => monitor .cons wakeups none
  | consoleread sleeps => monitor .cons 0 sleeps
  | consolewrite => section_ .cons []
  | timer => monitor .tickslock 1 none
  | sysSleep sleeps => monitor .tickslock 0 sleeps
  | sysUptime => section_ .tickslock []
  | ideintr wakes => monitor .idelock wakes.toNat none
  | iderw sleeps => monitor .idelock 0 sleeps
  | beginOp sleeps => monitor .log 0 sleeps
  | endOp wakes => monitor .log wakes.toNat none
  | logWrite => section_ .log []
  | bget => section_ .bcache []
  | brelse => section_ .bcache []
  | iget => section_ .icache []
  | idup => section_ .icache []
  | iput => section_ .icache []
  | filealloc => section_ .ftable []
  | filedup => section_ .ftable []
  | fileclose => section_ .ftable []
  | acquiresleep index sleeps => monitor (.sleeplock index) 0 sleeps
  | releasesleep index wakes => monitor (.sleeplock index) wakes.toNat none
  | holdingsleep index => section_ (.sleeplock index) []
  | pipeclose index => monitor (.pipe index) 1 none
  | pipewrite index wakes sleeps => monitor (.pipe index) wakes.toNat sleeps
  | piperead index wakes sleeps => monitor (.pipe index) wakes.toNat sleeps
  | ticketAcquire sleeps => monitor .ticketlock 0 sleeps
  | ticketRelease wakes => monitor .ticketlock wakes.toNat none
  | allocproc => section_ .ptable []
  | userinit => section_ .ptable []
  | fork => section_ .ptable []
  | kill => section_ .ptable []
  | wakeup => Locking.wakeup
  | exit pages => .acquire .ptable :: sched pages
  | wait pages => .acquire .ptable :: sched pages
  | yield pages => .acquire .ptable :: sched pages
  | scheduler pages => .acquire .ptable :: sched pages
  | invocationLog lines => section_ .ptable (repeated lines Locking.cprintf)
  | getSyscallCount found => section_ .ptable (if found then [] else Locking.cprintf)

end KernelPath

/-- The machine: any number of CPUs, each running one path after another. -/
def kernel (Cpu : Type) [DecidableEq Cpu] [Fintype Cpu] :
    System (Cpu → CpuState Lock) (SpinLabel Cpu KernelPath) :=
  spinSystem Cpu KernelPath.ops

/-- CPU 0 is in `invocation_log`; on CPU 1 a keyboard interrupt brings a newline. -/
def printMeetsInterrupt : List (SpinLabel (Fin 2) KernelPath) :=
  [.start 0 (.invocationLog 1), .start 1 (.consoleintr 1), .step 0, .step 1]

theorem printMeetsInterrupt_deadlocks :
    ∃ final, (kernel (Fin 2)).run (allIdle (Fin 2) Lock) printMeetsInterrupt = some final ∧
      Relation.TransGen (WaitsFor final) 0 0 := by
  refine ⟨_, rfl, ?_⟩
  apply Relation.TransGen.tail (b := 1)
  · exact Relation.TransGen.single ⟨.cons, [.release .cons, .release .ptable], rfl, by decide⟩
  · exact ⟨.ptable, [.release .ptable, .release .cons], rfl, by decide⟩

/-- `lock` may be acquired by a CPU that holds `held`. -/
def Below (held lock : Lock) : Prop :=
  (lock = .ptable ∧ held ≠ .ptable ∧ held ≠ .kmem) ∨
    (held = .ptable ∧ (lock = .kmem ∨ lock = .cons))

/-- Everything `ops` acquires may be acquired under `held`. -/
def Under (held : Lock) (ops : Ops) : Prop :=
  ∀ op ∈ ops, ∀ wanted, op = .acquire wanted → Below held wanted

theorem disciplined_append {held : Lock} {first second : Ops} (under : Under held first)
    (front : Disciplined Below [] first) (back : Disciplined Below [held] second) :
    Disciplined Below [held] (first ++ second) := by
  apply Disciplined.append _ front back
  intro lock isHeld
  rw [List.mem_singleton.mp isHeld]
  exact under

theorem section_disciplined {lock : Lock} {inside : Ops} (under : Under lock inside)
    (front : Disciplined Below [] inside) : Disciplined Below [] (section_ lock inside) := by
  refine ⟨by simp, disciplined_append under front ?_⟩
  simp [Disciplined]

theorem under_section {held lock : Lock} (below : Below held lock) :
    Under held (section_ lock []) := by
  intro op member wanted isAcquire
  subst isAcquire
  simp only [section_, List.nil_append, List.mem_cons, LockOp.acquire.injEq, reduceCtorEq,
    List.not_mem_nil, or_false] at member
  exact member ▸ below

theorem emptySection_disciplined (lock : Lock) : Disciplined Below [] (section_ lock []) :=
  section_disciplined (by simp [Under]) rfl

theorem repeated_disciplined (count : Nat) {ops : Ops} (once : Disciplined Below [] ops) :
    Disciplined Below [] (repeated count ops) := by
  induction count with
  | zero => rfl
  | succ count ih =>
    rw [repeated, List.replicate_succ, List.flatten_cons]
    exact Disciplined.append (by simp) once ih

theorem under_repeated {held : Lock} {ops : Ops} (under : Under held ops) (count : Nat) :
    Under held (repeated count ops) := by
  intro op member
  obtain ⟨list, inList, inOps⟩ := List.mem_flatten.mp member
  rw [(List.mem_replicate.mp inList).2] at inOps
  exact under op inOps

theorem sched_disciplined (pages : Nat) : Disciplined Below [.ptable] (sched pages) := by
  apply disciplined_append (under_repeated (under_section (Or.inr ⟨rfl, Or.inl rfl⟩)) pages)
  · exact repeated_disciplined pages (emptySection_disciplined .kmem)
  · simp [Disciplined]

theorem monitor_disciplined {lk : Lock} (below : Below lk .ptable) (wakeups : Nat)
    (sleeps : Option Nat) : Disciplined Below [] (monitor lk wakeups sleeps) := by
  have under := under_repeated (under_section below) wakeups
  have inner := repeated_disciplined wakeups (emptySection_disciplined .ptable)
  have notTable : lk ≠ .ptable := by
    rcases below with wake | ⟨-, isKmem | isCons⟩
    · exact wake.2.1
    · cases isKmem
    · cases isCons
  cases sleeps with
  | none => exact section_disciplined under inner
  | some pages =>
    refine ⟨by simp, disciplined_append under inner ?_⟩
    refine ⟨by simpa using below, by simp, ?_⟩
    have released : [Lock.ptable, lk].erase lk = [.ptable] := by
      rw [List.erase_cons_tail (by simpa using notTable.symm)]
      simp
    rw [released]
    exact sched_disciplined pages

theorem paths_disciplined (path : KernelPath) : Disciplined Below [] path.ops := by
  have sections := emptySection_disciplined
  have monitors : ∀ lk : Lock, lk ≠ .ptable → lk ≠ .kmem → ∀ wakeups sleeps,
      Disciplined Below [] (monitor lk wakeups sleeps) :=
    fun _ notTable notKmem => monitor_disciplined (Or.inl ⟨rfl, notTable, notKmem⟩)
  have scheds : ∀ pages, Disciplined Below [] (.acquire .ptable :: sched pages) :=
    fun pages => ⟨by simp, sched_disciplined pages⟩
  have printing : ∀ lines, Disciplined Below [] (section_ .ptable (repeated lines cprintf)) :=
    fun lines => section_disciplined
      (under_repeated (under_section (Or.inr ⟨rfl, Or.inr rfl⟩)) lines)
      (repeated_disciplined lines (sections .cons))
  cases path with
  | kalloc => exact sections _
  | kfree => exact sections _
  | cprintf => exact sections _
  | consoleintr wakeups => exact monitors .cons (by decide) (by decide) wakeups none
  | consoleread sleeps => exact monitors .cons (by decide) (by decide) 0 sleeps
  | consolewrite => exact sections _
  | timer => exact monitors .tickslock (by decide) (by decide) 1 none
  | sysSleep sleeps => exact monitors .tickslock (by decide) (by decide) 0 sleeps
  | sysUptime => exact sections _
  | ideintr wakes => exact monitors .idelock (by decide) (by decide) wakes.toNat none
  | iderw sleeps => exact monitors .idelock (by decide) (by decide) 0 sleeps
  | beginOp sleeps => exact monitors .log (by decide) (by decide) 0 sleeps
  | endOp wakes => exact monitors .log (by decide) (by decide) wakes.toNat none
  | logWrite => exact sections _
  | bget => exact sections _
  | brelse => exact sections _
  | iget => exact sections _
  | idup => exact sections _
  | iput => exact sections _
  | filealloc => exact sections _
  | filedup => exact sections _
  | fileclose => exact sections _
  | acquiresleep index sleeps => exact monitors (.sleeplock index) (by simp) (by simp) 0 sleeps
  | releasesleep index wakes => exact monitors (.sleeplock index) (by simp) (by simp) wakes.toNat none
  | holdingsleep index => exact sections _
  | pipeclose index => exact monitors (.pipe index) (by simp) (by simp) 1 none
  | pipewrite index wakes sleeps => exact monitors (.pipe index) (by simp) (by simp) wakes.toNat sleeps
  | piperead index wakes sleeps => exact monitors (.pipe index) (by simp) (by simp) wakes.toNat sleeps
  | ticketAcquire sleeps => exact monitors .ticketlock (by decide) (by decide) 0 sleeps
  | ticketRelease wakes => exact monitors .ticketlock (by decide) (by decide) wakes.toNat none
  | allocproc => exact sections _
  | userinit => exact sections _
  | fork => exact sections _
  | kill => exact sections _
  | wakeup => exact sections _
  | exit pages => exact scheds pages
  | wait pages => exact scheds pages
  | yield pages => exact scheds pages
  | scheduler pages => exact scheds pages
  | invocationLog lines => exact printing lines
  | getSyscallCount found =>
    cases found with
    | true => exact sections _
    | false => exact printing 1

/-- A CPU that holds `lock` and has yet to acquire `wanted`. -/
def Commits (lock wanted : Lock) (cpu : CpuState Lock) : Prop :=
  lock ∈ cpu.held ∧ .acquire wanted ∈ cpu.todo

instance (lock wanted : Lock) (cpu : CpuState Lock) : Decidable (Commits lock wanted cpu) :=
  inferInstanceAs (Decidable (_ ∧ _))

section

variable {Cpu : Type}

/-- A CPU about to acquire the first of `ptable.lock` and `cons.lock` on a path
that will acquire the other does so only while no CPU is committed to the opposite
order. -/
def KeepsApart (s : Cpu → CpuState Lock) : SpinLabel Cpu KernelPath → Prop
  | .start _ _ => True
  | .step cpu =>
    ((s cpu).todo.head? = some (.acquire .ptable) → .acquire .cons ∈ (s cpu).todo.tail →
      ∀ other, ¬ Commits .cons .ptable (s other)) ∧
    ((s cpu).todo.head? = some (.acquire .cons) → .acquire .ptable ∈ (s cpu).todo.tail →
      ∀ other, ¬ Commits .ptable .cons (s other))

/-- Not both orders at once. -/
def OneOrder (s : Cpu → CpuState Lock) : Prop :=
  (∀ cpu, ¬ Commits .ptable .cons (s cpu)) ∨ ∀ cpu, ¬ Commits .cons .ptable (s cpu)

/-- The order of the locks while nobody prints under `ptable.lock`. -/
def wakeRank : Lock → Nat
  | .cons => 1
  | .ptable => 2
  | .kmem => 3
  | _ => 0

/-- The order of the locks while nobody wakes readers under `cons.lock`. -/
def printRank : Lock → Nat
  | .ptable => 1
  | .cons => 2
  | .kmem => 2
  | _ => 0

theorem Below.wakeRank_lt {held lock : Lock} (below : Below held lock)
    (notPrinting : ¬ (held = .ptable ∧ lock = .cons)) : wakeRank held < wakeRank lock := by
  rcases below with ⟨isTable, notTable, notKmem⟩ | ⟨isTable, isKmem | isCons⟩
  · subst isTable
    cases held
    all_goals
      first
      | exact absurd rfl notTable
      | exact absurd rfl notKmem
      | simp [wakeRank]
  · subst isTable isKmem
    decide
  · exact absurd ⟨isTable, isCons⟩ notPrinting

theorem Below.printRank_lt {held lock : Lock} (below : Below held lock)
    (notWaking : ¬ (held = .cons ∧ lock = .ptable)) : printRank held < printRank lock := by
  rcases below with ⟨isTable, notTable, notKmem⟩ | ⟨isTable, isKmem | isCons⟩
  · subst isTable
    cases held
    all_goals
      first
      | exact absurd rfl notTable
      | exact absurd rfl notKmem
      | exact absurd ⟨rfl, rfl⟩ notWaking
      | simp [printRank]
  · subst isTable isKmem
    decide
  · subst isTable isCons
    decide

theorem OneOrder.not_cycle {s : Cpu → CpuState Lock} (disciplined : AllDisciplined Below s)
    (oneOrder : OneOrder s) (cpu : Cpu) : ¬ Relation.TransGen (WaitsFor s) cpu cpu := by
  have below : ∀ cpu lock rest, (s cpu).todo = .acquire lock :: rest →
      ∀ held ∈ (s cpu).held, Below held lock := by
    intro cpu lock rest wants
    have here := disciplined cpu
    rw [wants] at here
    exact here.1
  have commits : ∀ cpu lock rest, (s cpu).todo = .acquire lock :: rest →
      ∀ held ∈ (s cpu).held, Commits held lock (s cpu) :=
    fun cpu lock rest wants held member => ⟨member, wants ▸ List.mem_cons_self⟩
  rcases oneOrder with nobodyPrints | nobodyWakes
  · apply not_waits_cycle wakeRank
    intro cpu lock rest wants held member
    apply (below cpu lock rest wants held member).wakeRank_lt
    intro printing
    have both := commits cpu lock rest wants held member
    rw [printing.1, printing.2] at both
    exact nobodyPrints cpu both
  · apply not_waits_cycle printRank
    intro cpu lock rest wants held member
    apply (below cpu lock rest wants held member).printRank_lt
    intro waking
    have both := commits cpu lock rest wants held member
    rw [waking.1, waking.2] at both
    exact nobodyWakes cpu both

variable [DecidableEq Cpu]

private theorem noneCommits_update {s : Cpu → CpuState Lock} {lock wanted : Lock}
    (nobody : ∀ cpu, ¬ Commits lock wanted (s cpu)) {cpu : Cpu} {new : CpuState Lock}
    (notNew : Commits lock wanted new → Commits lock wanted (s cpu)) :
    ∀ other, ¬ Commits lock wanted (update s cpu new other) := by
  intro other
  by_cases same : other = cpu
  · rw [same, update_self]
    exact fun commits => nobody cpu (notNew commits)
  · rw [update_of_ne same]
    exact nobody other

/-- A CPU commits itself to a pair of locks only by acquiring the first of them. -/
private theorem commits_acquire {cpu : CpuState Lock} {acquired : Lock} {rest : Ops}
    (todo : cpu.todo = .acquire acquired :: rest) {lock wanted : Lock}
    (commits : Commits lock wanted ⟨acquired :: cpu.held, rest⟩) :
    Commits lock wanted cpu ∨ (lock = acquired ∧ .acquire wanted ∈ rest) := by
  obtain ⟨holds, wants⟩ := commits
  rcases List.mem_cons.mp holds with isAcquired | heldBefore
  · exact Or.inr ⟨isAcquired, wants⟩
  · exact Or.inl ⟨heldBefore, todo ▸ List.mem_cons_of_mem _ wants⟩

theorem OneOrder.acquire {s : Cpu → CpuState Lock} (oneOrder : OneOrder s) {cpu : Cpu}
    {acquired : Lock} {rest : Ops} (todo : (s cpu).todo = .acquire acquired :: rest)
    (keeps : KeepsApart s (.step cpu)) :
    OneOrder (update s cpu ⟨acquired :: (s cpu).held, rest⟩) := by
  have head : (s cpu).todo.head? = some (.acquire acquired) := by rw [todo]; rfl
  have tail : (s cpu).todo.tail = rest := by rw [todo]; rfl
  simp only [KeepsApart, head, tail, Option.some.injEq, LockOp.acquire.injEq] at keeps
  have old := @commits_acquire (s cpu) acquired rest todo
  by_cases prints : acquired = .ptable ∧ .acquire .cons ∈ rest
  · refine Or.inr (noneCommits_update (keeps.1 prints.1 prints.2) fun commits => ?_)
    exact (old commits).resolve_right fun new => by
      rw [prints.1] at new
      cases new.1
  · by_cases wakes : acquired = .cons ∧ .acquire .ptable ∈ rest
    · refine Or.inl (noneCommits_update (keeps.2 wakes.1 wakes.2) fun commits => ?_)
      exact (old commits).resolve_right fun new => by
        rw [wakes.1] at new
        cases new.1
    · rcases oneOrder with nobodyPrints | nobodyWakes
      · refine Or.inl (noneCommits_update nobodyPrints fun commits => ?_)
        exact (old commits).resolve_right fun new => prints ⟨new.1.symm, new.2⟩
      · refine Or.inr (noneCommits_update nobodyWakes fun commits => ?_)
        exact (old commits).resolve_right fun new => wakes ⟨new.1.symm, new.2⟩

variable [Fintype Cpu]

theorem OneOrder.step {s after : Cpu → CpuState Lock} {label : SpinLabel Cpu KernelPath}
    (disciplined : AllDisciplined Below s) (oneOrder : OneOrder s) (keeps : KeepsApart s label)
    (stepped : (kernel Cpu).next s label = some after) : OneOrder after := by
  -- an update that commits its CPU to nothing new
  have shrink : ∀ (cpu : Cpu) (new : CpuState Lock),
      (∀ lock wanted, Commits lock wanted new → Commits lock wanted (s cpu)) →
        OneOrder (update s cpu new) := by
    intro cpu new notNew
    exact oneOrder.imp (fun nobody => noneCommits_update nobody (notNew _ _))
      fun nobody => noneCommits_update nobody (notNew _ _)
  change spinNext KernelPath.ops s label = some after at stepped
  cases label with
  | start cpu path =>
    obtain ⟨idle, rfl⟩ := of_guard stepped
    have here := disciplined cpu
    rw [idle] at here
    have empty : (s cpu).held = [] := here
    apply shrink
    intro lock wanted commits
    exact absurd (show lock ∈ (s cpu).held from commits.1) (by simp [empty])
  | step cpu =>
    simp only [spinNext] at stepped
    split at stepped
    · rename_i acquired rest todo
      obtain ⟨-, rfl⟩ := of_guard stepped
      exact oneOrder.acquire todo keeps
    · rename_i released rest todo
      cases stepped
      apply shrink
      intro lock wanted commits
      exact ⟨List.mem_of_mem_erase commits.1, todo ▸ List.mem_cons_of_mem _ commits.2⟩
    · cases stepped

/-- In every run in which no CPU enters one order of `ptable.lock` and `cons.lock`
while another is committed to the opposite one, no state has a cycle of CPUs that
wait for one another. -/
theorem no_deadlock (labels : List (SpinLabel Cpu KernelPath)) (final : Cpu → CpuState Lock)
    (keeps : (kernel Cpu).Meets KeepsApart (allIdle Cpu Lock) labels)
    (ran : (kernel Cpu).run (allIdle Cpu Lock) labels = some final) (cpu : Cpu) :
    ¬ Relation.TransGen (WaitsFor final) cpu cpu := by
  have invariant : AllDisciplined Below final ∧ OneOrder final := by
    refine System.run_preserves_of_meets (fun s => AllDisciplined Below s ∧ OneOrder s) ?_ ?_ keeps
      ran
    · intro s label after holds condition stepped
      exact ⟨holds.1.step paths_disciplined stepped, holds.2.step holds.1 condition stepped⟩
    · refine ⟨fun _ => rfl, Or.inl fun cpu commits => ?_⟩
      cases commits.1
  exact invariant.2.not_cycle invariant.1 cpu

end

instance decidableKeepsApart {Cpu : Type} [Fintype Cpu] (s : Cpu → CpuState Lock) :
    ∀ label, Decidable (KeepsApart s label)
  | .start _ _ => isTrue trivial
  | .step _ => inferInstanceAs (Decidable (_ ∧ _))

/-- CPU 1 takes a timer interrupt while CPU 0 is in `invocation_log`: it spins for
`ptable.lock`, holding `tickslock`. -/
def printMeetsTimer : List (SpinLabel (Fin 2) KernelPath) :=
  [.start 0 (.invocationLog 1), .start 1 .timer, .step 0, .step 1]

theorem no_deadlock_printMeetsTimer :
    ∃ final, (kernel (Fin 2)).run (allIdle (Fin 2) Lock) printMeetsTimer = some final ∧
      WaitsFor final 1 0 ∧ ∀ cpu, ¬ Relation.TransGen (WaitsFor final) cpu cpu :=
  ⟨_, rfl, ⟨.ptable, [.release .ptable, .release .tickslock], rfl, by decide⟩,
    no_deadlock printMeetsTimer _ (by decide) rfl⟩

end Xv6.Locking
