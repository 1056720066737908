import Xv6.Syscall.Args
import Xv6.Lib.System
import Xv6.Lib.Heap

/-!
Contract: the list of all system calls that `syscall` keeps between `first_proc`
and `last_proc`, one C statement at a time.

The block takes no lock and the kernel is preemptible, so the statements of
different processes interleave freely. Two processes that append at once lose
a node; `globalLog_complete` says which interleavings lose none.
-/

namespace Xv6.Syscall

open Function Xv6.Lib

/-! ### Data -/

def PGSIZE : Nat := 4096

structure Rtcdate where
  second : Nat
  minute : Nat
  hour : Nat
  day : Nat
  month : Nat
  year : Nat

def junkRtcdate : Rtcdate := ⟨junkWord, junkWord, junkWord, junkWord, junkWord, junkWord⟩

/-- `struct node`. A `name` that was never written is `none`. -/
structure Node where
  name : Option String
  date : Rtcdate
  pid : Int
  next : Nat

def junkNode : Node := ⟨none, junkRtcdate, junkWord, junkWord⟩

def syscallsString : List String :=
  ["sys_fork", "sys_exit", "sys_wait", "sys_pipe", "sys_read", "sys_kill", "sys_exec",
    "sys_fstat", "sys_chdir", "sys_dup", "sys_getpid", "sys_sbrk", "sys_sleep", "sys_uptime",
    "sys_open", "sys_write", "sys_mknod", "sys_unlink", "sys_link", "sys_mkdir", "sys_close",
    "sys_inc_num", "sys_invoked_syscalls", "sys_get_count", "sys_sort_syscalls",
    "sys_log_syscalls", "sys_halt", "sys_ticketlockinit", "sys_ticketlocktest"]

/-- A page comes from `kfree`, which filled it with junk. -/
instance : Linked Node where
  next := Node.next
  setNext link node := { node with next := link }
  blank := junkNode
  next_setNext _ _ := rfl

/-- The list and the pages `kalloc` has handed out for its nodes. -/
structure GlobalLog extends Heap Node where
  firstProc : Nat
  lastProc : Nat

/-- What a node records of a completed system call. -/
structure Call where
  name : String
  pid : Int
deriving DecidableEq

/-! ### Statements -/

/-- The two branches of the test of `first_proc`. -/
inductive Branch where
  | empty
  | append
deriving DecidableEq

/-- The statements of the block, in the order of the source. -/
inductive Stmt where
  | test
  | kalloc (branch : Branch)
  | name (branch : Branch)
  | date (branch : Branch)
  | pid (branch : Branch)
  | next (branch : Branch)
  | last (branch : Branch)
deriving DecidableEq

variable {log : GlobalLog}

namespace GlobalLog

/-- The error is the address of a wild or null pointer. -/
def storeNode (log : GlobalLog) (addr : Nat) (change : Node → Node) : Except Nat GlobalLog :=
  (log.store addr change).map fun heap => { log with toHeap := heap }

theorem storeNode_eq {addr : Nat} (allocated : addr ∈ log.pages) (change : Node → Node) :
    log.storeNode addr change =
      .ok { log with cell := update log.cell addr (change (log.cell addr)) } := by
  rw [storeNode, Heap.store_eq allocated]
  rfl

/-- The node a branch fills in: `first_proc`, or `last_proc -> next`. -/
def target (log : GlobalLog) : Branch → Except Nat Nat
  | .empty => .ok log.firstProc
  | .append => (log.load log.lastProc).map Node.next

end GlobalLog

/-- One statement; `page` is what `kalloc` returns and `now` what `cmostime`
reads. -/
def Stmt.exec (log : GlobalLog) (call : Call) (page : Nat) (now : Rtcdate) :
    Stmt → Except Nat GlobalLog
  | .test => .ok log
  | .kalloc .empty => .ok { toHeap := log.grant page, firstProc := page, lastProc := log.lastProc }
  | .kalloc .append =>
    GlobalLog.storeNode { log with toHeap := log.grant page } log.lastProc fun node =>
      { node with next := page }
  | .name branch => do
    log.storeNode (← log.target branch) fun node => { node with name := some call.name }
  | .date branch => do log.storeNode (← log.target branch) fun node => { node with date := now }
  | .pid branch => do log.storeNode (← log.target branch) fun node => { node with pid := call.pid }
  | .next branch => do log.storeNode (← log.target branch) fun node => { node with next := 0 }
  | .last branch => do pure { log with lastProc := ← log.target branch }

/-- The statement that control reaches next; `none` at the end of the block. -/
def Stmt.following (log : GlobalLog) : Stmt → Option Stmt
  | .test => some (.kalloc (if log.firstProc = 0 then .empty else .append))
  | .kalloc branch => some (.name branch)
  | .name branch => some (.date branch)
  | .date branch => some (.pid branch)
  | .pid branch => some (.next branch)
  | .next branch => some (.last branch)
  | .last _ => none

/-! ### Interleavings -/

/-- `pc` is the statement each process is about to execute, with the call it
records; `none` outside the block. `fault` is the address of a bad access. -/
structure State (P : Type) where
  log : GlobalLog
  pc : P → Option (Call × Stmt)
  completed : List Call
  fault : Option Nat

inductive Label (P : Type) where
  | enter (p : P) (num : Fin 29) (pid : Int)
  | exec (p : P) (page : Nat) (now : Rtcdate)

section

variable {P : Type} [DecidableEq P]

/-- The state after `p` executed a statement of `call` that left `log`. -/
def State.advance (s : State P) (p : P) (call : Call) (log : GlobalLog) : Option Stmt → State P
  | some stmt => { s with log := log, pc := update s.pc p (some (call, stmt)) }
  | none =>
    { s with log := log, pc := update s.pc p none, completed := s.completed ++ [call] }

/-- One step: a handler returns and the process enters the block, or a process
in the block executes its statement. `kalloc` returns 0 or a page it has not
handed out; `page` is 0 in a statement that does not call it. -/
def globalLogNext (s : State P) : Label P → Option (State P)
  | .enter p num pid =>
    if s.fault = none ∧ s.pc p = none then
      some { s with
        pc := update s.pc p (some (⟨syscallsString.get num, pid⟩, .test)) }
    else none
  | .exec p page now =>
    match s.fault, s.pc p with
    | none, some (call, stmt) =>
      if page = 0 ∨ page % PGSIZE = 0 ∧ page ∉ s.log.pages then
        match stmt.exec s.log call page now with
        | .ok log => some (s.advance p call log (stmt.following s.log))
        | .error addr => some { s with fault := some addr }
      else none
    | _, _ => none

def globalLog (P : Type) [DecidableEq P] : System (State P) (Label P) where
  next := globalLogNext

/-- The kernel after boot: no system call has been recorded. -/
def noCalls (P : Type) : State P where
  log := { cell := fun _ => junkNode, pages := [], firstProc := 0, lastProc := 0 }
  pc := fun _ => none
  completed := []
  fault := none

end

/-- What the list records at a node. -/
def Node.entry (node : Node) : Option Call := node.name.map fun name => ⟨name, node.pid⟩

/-- The list from `first_proc` is null-terminated, ends at `last_proc`, and has
exactly one node for every call of `calls`. -/
def GlobalLog.Records (log : GlobalLog) (calls : List Call) : Prop :=
  ∃ cells, Chain log.next 0 log.firstProc cells ∧
    (∀ cell ∈ cells, cell ∈ log.pages) ∧ log.lastProc = cells.getLast?.getD 0 ∧
    (cells.map fun addr => (log.cell addr).entry).Perm (calls.map some)

/-! ### Two appends at once -/

private def midnight : Rtcdate := ⟨0, 0, 0, 1, 1, 2018⟩

/-- Process 0 records one call alone. Then both processes store a new page into
`last_proc -> next` before either fills it in. -/
def overlappingAppends : List (Label (Fin 2)) :=
  [.enter 0 10 1, .exec 0 0 midnight, .exec 0 4096 midnight] ++
    List.replicate 5 (.exec 0 0 midnight) ++
    [.enter 0 11 1, .enter 1 12 2, .exec 0 0 midnight, .exec 1 0 midnight] ++
    [.exec 0 8192 midnight, .exec 1 12288 midnight] ++
    List.replicate 4 (.exec 1 0 midnight) ++ List.replicate 4 (.exec 0 0 midnight) ++
    [.exec 0 0 midnight, .exec 1 0 midnight]

theorem overlappingAppends_lose :
    ∃ final, (globalLog (Fin 2)).run (noCalls (Fin 2)) overlappingAppends = some final ∧
      (∀ p, final.pc p = none) ∧ final.fault = none ∧ ¬ final.log.Records final.completed := by
  have finished : ((globalLog (Fin 2)).run (noCalls (Fin 2)) overlappingAppends).map (fun final =>
      (final.pc 0, final.pc 1, final.fault)) = some (none, none, none) := by
    decide +kernel
  have list : ((globalLog (Fin 2)).run (noCalls (Fin 2)) overlappingAppends).map (fun final =>
      (final.log.firstProc, (final.log.cell 4096).next, (final.log.cell 12288).next,
        final.completed.length)) = some (4096, 12288, 0, 3) := by
    decide +kernel
  obtain ⟨final, ran, outside⟩ := Option.map_eq_some_iff.mp finished
  rw [ran, Option.map_some, Option.some.injEq] at list
  simp only [Prod.mk.injEq] at outside list
  refine ⟨final, ran, fun p => ?_, outside.2.2, ?_⟩
  · match p with
    | 0 => exact outside.1
    | 1 => exact outside.2.1
  · intro records
    obtain ⟨cells, chain, -, -, sameCalls⟩ := records
    have twoNodes : Chain final.log.next 0 final.log.firstProc
        [4096, 12288] := ⟨⟨list.1, list.2.1, list.2.2.1⟩, by decide⟩
    have threeCalls := sameCalls.length_eq
    rw [chain.unique twoNodes, List.length_map, List.length_map, list.2.2.2] at threeCalls
    cases threeCalls

/-! ### A list with one append under way -/

/-- The branch of a process that has stored its page and not yet advanced
`last_proc`. -/
def Stmt.branch? : Stmt → Option Branch
  | .test => none
  | .kalloc _ => none
  | .name branch => some branch
  | .date branch => some branch
  | .pid branch => some branch
  | .next branch => some branch
  | .last branch => some branch

/-- How far the node of `call` is filled in when `stmt` is next. -/
def Stmt.Filled (call : Call) (node : Node) : Stmt → Prop
  | .test => False
  | .kalloc _ => False
  | .name _ => True
  | .date _ => node.name = some call.name
  | .pid _ => node.name = some call.name
  | .next _ => node.entry = some call
  | .last _ => node.entry = some call ∧ node.next = 0

variable {cells : List Nat} {branch : Branch} {call : Call} {stmt : Stmt}

namespace GlobalLog

/-- The list up to the address `stop`: its nodes `cells` record `calls`, and
`last_proc` is the last of them. -/
structure Lists (log : GlobalLog) (cells : List Nat) (stop : Nat) (calls : List Call) : Prop where
  chain : Chain log.next stop log.firstProc cells
  allocated : ∀ cell ∈ cells, cell ∈ log.pages
  last : log.lastProc = cells.getLast?.getD 0
  entries : (cells.map fun addr => (log.cell addr).entry) = calls.map some
  notNull : 0 ∉ log.pages

/-- The node `fresh` for `call` is linked behind `cells`, and `stmt` is next. -/
structure Appending (log : GlobalLog) (calls : List Call) (call : Call) (stmt : Stmt)
    (cells : List Nat) (fresh : Nat) : Prop where
  lists : log.Lists cells fresh calls
  granted : fresh ∈ log.pages
  branch : stmt.branch? = some (if cells = [] then .empty else .append)
  filled : stmt.Filled call (log.cell fresh)

variable {calls : List Call}

theorem Lists.records (lists : log.Lists cells 0 calls) : log.Records calls :=
  ⟨cells, lists.chain, lists.allocated, lists.last, by rw [lists.entries]⟩

/-- What a branch fills in is the node behind the list. -/
theorem Lists.target_eq {stop : Nat} (lists : log.Lists cells stop calls) :
    log.target (if cells = [] then .empty else .append) = .ok stop := by
  cases cells using List.reverseRecOn with
  | nil =>
    have atStop : log.firstProc = stop := lists.chain.1
    rw [if_pos rfl, target, atStop]
  | append_singleton front last =>
    have isLast : log.lastProc = last := by simp [lists.last]
    have held : last ∈ log.pages := lists.allocated last (by simp)
    have link : (log.cell last).next = stop := (Segment.snoc.mp lists.chain.1).2
    rw [if_neg (by simp), target, isLast, Heap.load_eq held]
    exact congrArg Except.ok link

/-- Filling in the node behind the list leaves the list alone. -/
theorem Lists.fill {stop : Nat} (lists : log.Lists cells stop calls) (node : Node) :
    Lists { log with cell := update log.cell stop node } cells stop calls := by
  have same : ∀ cell ∈ cells, update log.cell stop node cell = log.cell cell := by
    intro cell member
    have different : cell ≠ stop := fun isStop => lists.chain.2 (isStop ▸ member)
    exact update_of_ne different node log.cell
  refine { chain := lists.chain.frame ?_, allocated := lists.allocated, last := lists.last,
           entries := ?_, notNull := lists.notNull }
  · intro cell member
    exact congrArg Node.next (same cell member)
  · rw [← lists.entries]
    apply List.map_congr_left
    intro cell member
    exact congrArg Node.entry (same cell member)

theorem Lists.kalloc (lists : log.Lists cells 0 calls) (call : Call) {page : Nat} (now : Rtcdate)
    (nonzero : page ≠ 0) (isFresh : page ∉ log.pages)
    (fits : branch = if cells = [] then .empty else .append) :
    ∃ after, (Stmt.kalloc branch).exec log call page now = .ok after ∧
      after.Appending calls call (.name branch) cells page ∧ after.firstProc ≠ 0 ∧
      after.pages = page :: log.pages := by
  have granted : log.grant page =
      { log with cell := update log.cell page junkNode, pages := page :: log.pages } :=
    if_neg nonzero
  have notNull : 0 ∉ page :: log.pages := by
    simp only [List.mem_cons, not_or]
    exact ⟨nonzero.symm, lists.notNull⟩
  have apart : ∀ cell ∈ cells, cell ≠ page :=
    fun cell member same => isFresh (same ▸ lists.allocated cell member)
  cases cells using List.reverseRecOn with
  | nil =>
    rw [if_pos rfl] at fits
    subst fits
    refine ⟨_, rfl, ⟨?_, ?_, rfl, trivial⟩, nonzero, by rw [granted]⟩
    · rw [granted]
      exact { chain := ⟨rfl, by simp⟩, allocated := by simp, last := lists.last,
              entries := lists.entries, notNull := notNull }
    · rw [granted]
      exact List.mem_cons_self
  | append_singleton front last =>
    rw [if_neg (by simp)] at fits
    subst fits
    have isLast : log.lastProc = last := by simp [lists.last]
    have held : last ∈ log.pages := lists.allocated last (by simp)
    have once : ∀ cell ∈ front, cell ≠ last := by
      intro cell member same
      have distinct := lists.chain.nodup
      rw [List.nodup_append] at distinct
      exact distinct.2.2 cell member last List.mem_cons_self same
    have lastApart : last ≠ page := apart last (by simp)
    refine ⟨{ log with
        cell := update (update log.cell page junkNode) last
          { update log.cell page junkNode last with next := page },
        pages := page :: log.pages }, ?_, ⟨?_, ?_, ?_, trivial⟩, ?_, rfl⟩
    · rw [Stmt.exec, granted, isLast]
      exact storeNode_eq (List.mem_cons_of_mem page held) _
    · -- the list up to the new node: only `last`'s successor and the new node changed
      have others : ∀ cell ∈ front, update (update log.cell page junkNode) last
          { update log.cell page junkNode last with next := page } cell =
            log.cell cell := by
        intro cell member
        rw [update_of_ne (once cell member),
          update_of_ne (apart cell (by simp [member]))]
      refine { chain := ⟨Segment.snoc.mpr ⟨?_, ?_⟩, ?_⟩, allocated := ?_, last := ?_,
               entries := ?_, notNull := notNull }
      · apply (Segment.snoc.mp lists.chain.1).1.frame
        intro cell member
        exact congrArg Node.next (others cell member)
      · simp [Heap.next, Linked.next]
      · intro member
        exact apart page member rfl
      · intro cell member
        exact List.mem_cons_of_mem page (lists.allocated cell member)
      · exact lists.last
      · rw [← lists.entries, List.map_append, List.map_append]
        congr 1
        · apply List.map_congr_left
          intro cell member
          exact congrArg Node.entry (others cell member)
        · simp [Node.entry, update_of_ne lastApart]
    · exact List.mem_cons_self
    · simp [Stmt.branch?]
    · have nonempty : log.firstProc ≠ 0 := by
        rw [Ne, lists.chain.start_eq_null]
        simp
      exact nonempty

private theorem Appending.fill {fresh : Nat} (appending : log.Appending calls call stmt cells fresh)
    (which : stmt.branch? = some branch) (change : Node → Node) {following : Stmt}
    (sameBranch : following.branch? = some branch)
    (filled : following.Filled call (change (log.cell fresh))) :
    ∃ after, (log.target branch >>= fun addr => log.storeNode addr change) = .ok after ∧
      after.firstProc = log.firstProc ∧ after.pages = log.pages ∧
      after.Appending calls call following cells fresh := by
  have here : branch = if cells = [] then .empty else .append :=
    Option.some.inj (which.symm.trans appending.branch)
  have target : log.target branch = .ok fresh := here ▸ appending.lists.target_eq
  refine ⟨{ log with cell := update log.cell fresh (change (log.cell fresh)) }, ?_, rfl, rfl,
    { lists := appending.lists.fill _, granted := appending.granted,
      branch := sameBranch.trans (congrArg some here), filled := ?_ }⟩
  · rw [target]
    exact storeNode_eq appending.granted change
  · simpa using filled

/-- A statement of the append under way succeeds and brings it one further. -/
theorem Appending.exec {fresh : Nat} (appending : log.Appending calls call stmt cells fresh)
    (page : Nat) (now : Rtcdate) :
    ∃ after, stmt.exec log call page now = .ok after ∧ after.firstProc = log.firstProc ∧
      after.pages = log.pages ∧
      match stmt.following log with
      | some following => after.Appending calls call following cells fresh
      | none => after.Lists (cells ++ [fresh]) 0 (calls ++ [call]) := by
  have filled := appending.filled
  cases stmt with
  | test => exact absurd filled id
  | kalloc branch => exact absurd filled id
  | name branch => exact appending.fill rfl _ rfl rfl
  | date branch => exact appending.fill rfl _ rfl filled
  | pid branch =>
    apply appending.fill rfl _ rfl
    have named : (log.cell fresh).name = some call.name := filled
    simp [Stmt.Filled, Node.entry, named]
  | next branch => exact appending.fill rfl _ rfl ⟨filled, rfl⟩
  | last branch =>
    have here : branch = if cells = [] then .empty else .append :=
      Option.some.inj appending.branch
    have target : log.target branch = .ok fresh := here ▸ appending.lists.target_eq
    have nonzero : fresh ≠ 0 := fun isNull => appending.lists.notNull (isNull ▸ appending.granted)
    refine ⟨{ log with lastProc := fresh }, by rw [Stmt.exec, target]; rfl, rfl, rfl, ?_⟩
    refine { chain := ⟨Segment.snoc.mpr ⟨appending.lists.chain.1, filled.2⟩, ?_⟩,
             allocated := ?_, last := by simp, entries := ?_, notNull := appending.lists.notNull }
    · intro member
      rcases List.mem_append.mp member with inCells | isFresh
      · exact appending.lists.notNull (appending.lists.allocated 0 inCells)
      · exact nonzero (List.mem_singleton.mp isFresh).symm
    · intro cell member
      rcases List.mem_append.mp member with inCells | isFresh
      · exact appending.lists.allocated cell inCells
      · rw [List.mem_singleton.mp isFresh]
        exact appending.granted
    · rw [List.map_append, List.map_append, ← appending.lists.entries]
      simp [filled.1]

end GlobalLog

/-! ### What a step can do -/

inductive Stepped {P : Type} [DecidableEq P] (s : State P) : Label P → State P → Prop where
  | entered (p : P) (num : Fin 29) (pid : Int) (outside : s.pc p = none) :
      Stepped s (.enter p num pid)
        { s with pc := update s.pc p (some (⟨syscallsString.get num, pid⟩, .test)) }
  | advanced (p : P) (page : Nat) (now : Rtcdate) (call : Call) (stmt : Stmt) (log : GlobalLog)
      (here : s.pc p = some (call, stmt)) (fresh : page = 0 ∨ page ∉ s.log.pages)
      (executed : stmt.exec s.log call page now = .ok log) :
      Stepped s (.exec p page now) (s.advance p call log (stmt.following s.log))
  | faulted (p : P) (page : Nat) (now : Rtcdate) (call : Call) (stmt : Stmt) (addr : Nat)
      (here : s.pc p = some (call, stmt)) (fresh : page = 0 ∨ page ∉ s.log.pages)
      (failed : stmt.exec s.log call page now = .error addr) :
      Stepped s (.exec p page now) { s with fault := some addr }

section

variable {P : Type} [DecidableEq P]

variable {s : State P}

theorem stepped_of_next {after : State P} {label : Label P}
    (stepped : (globalLog P).next s label = some after) :
    s.fault = none ∧ Stepped s label after := by
  change globalLogNext s label = some after at stepped
  cases label with
  | enter p num pid =>
    obtain ⟨enabled, rfl⟩ := of_guard stepped
    exact ⟨enabled.1, .entered p num pid enabled.2⟩
  | exec p page now =>
    simp only [globalLogNext] at stepped
    split at stepped
    · rename_i call stmt sound here
      obtain ⟨supplied, stepped⟩ := Option.ite_none_right_eq_some.mp stepped
      have fresh : page = 0 ∨ page ∉ s.log.pages := supplied.imp_right And.right
      split at stepped
      · rename_i log executed
        cases stepped
        exact ⟨sound, .advanced p page now call stmt log here fresh executed⟩
      · rename_i addr failed
        cases stepped
        exact ⟨sound, .faulted p page now call stmt addr here fresh failed⟩
    · cases stepped

/-! ### Serial runs -/

/-- The process is between its store of a new page and its assignment to
`last_proc`. -/
def appends : Option (Call × Stmt) → Bool
  | some (_, stmt) => stmt.branch?.isSome
  | none => false

/-- A statement about to be executed does not disturb another's append. -/
def SerialAt (s : State P) (page : Nat) : Option (Call × Stmt) → Prop
  | some (_, .kalloc .empty) => page ≠ 0 ∧ s.log.firstProc = 0
  | some (_, .kalloc .append) => page ≠ 0 ∧ ∀ q, appends (s.pc q) = false
  | _ => True

/-- The empty-list branch stores its page only into a null `first_proc`, the
other branch only while nobody appends, and `kalloc` does not fail. -/
def Serial (s : State P) : Label P → Prop
  | .enter _ _ _ => True
  | .exec p page _ => SerialAt s page (s.pc p)

/-- The list is whole and nobody appends. -/
structure Quiet (s : State P) (cells : List Nat) : Prop where
  nobody : ∀ p, appends (s.pc p) = false
  lists : s.log.Lists cells 0 s.completed

/-- Process `p` alone appends the node `fresh`. -/
structure Busy (s : State P) (p : P) (call : Call) (stmt : Stmt) (cells : List Nat)
    (fresh : Nat) : Prop where
  here : s.pc p = some (call, stmt)
  only : ∀ q, q ≠ p → appends (s.pc q) = false
  appending : s.log.Appending s.completed call stmt cells fresh

structure Orderly (s : State P) : Prop where
  sound : s.fault = none
  seen : ∀ p call, s.pc p = some (call, .kalloc .append) → s.log.firstProc ≠ 0
  lists : (∃ cells, Quiet s cells) ∨ ∃ p call stmt cells fresh, Busy s p call stmt cells fresh

omit [DecidableEq P] in
theorem noCalls_orderly : Orderly (noCalls P) where
  sound := rfl
  seen := fun _ _ here => nomatch here
  lists := by
    refine Or.inl ⟨[], fun _ => rfl, ?_⟩
    exact { chain := ⟨rfl, by simp⟩, allocated := by simp, last := rfl, entries := rfl,
            notNull := by simp [noCalls] }

variable {p : P}

omit [DecidableEq P] in
theorem Busy.appends {fresh : Nat} (busy : Busy s p call stmt cells fresh) :
    appends (s.pc p) = true := by
  rw [busy.here, Syscall.appends, busy.appending.branch]
  rfl

omit [DecidableEq P] in
theorem Busy.first_ne_zero {fresh : Nat} (busy : Busy s p call stmt cells fresh) :
    s.log.firstProc ≠ 0 := by
  have lists := busy.appending.lists
  have held : s.log.firstProc ∈ s.log.pages := by
    cases cells with
    | nil => exact (show s.log.firstProc = fresh from lists.chain.1) ▸ busy.appending.granted
    | cons cell rest =>
      have atHead : s.log.firstProc = cell := lists.chain.1.1
      exact atHead ▸ lists.allocated cell List.mem_cons_self
  exact fun isNull => lists.notNull (isNull ▸ held)

private theorem appends_update {pc : P → Option (Call × Stmt)} {new : Option (Call × Stmt)}
    (outside : appends new = false) {q : P} (before : q ≠ p → appends (pc q) = false) :
    appends (update pc p new q) = false := by
  by_cases same : q = p
  · rw [same, update_self]
    exact outside
  · rw [update_of_ne same]
    exact before same

/-- A process that moves between statements outside an append. -/
theorem Orderly.move (orderly : Orderly s) (wasOutside : appends (s.pc p) = false)
    (outside : stmt.branch? = none) (seen : stmt = .kalloc .append → s.log.firstProc ≠ 0) :
    Orderly { s with pc := update s.pc p (some (call, stmt)) } := by
  have isOutside : appends (some (call, stmt)) = false := by simp [appends, outside]
  refine { sound := orderly.sound, seen := ?_, lists := ?_ }
  · intro q other here
    by_cases same : q = p
    · rw [same] at here
      cases (update_self ..).symm.trans here
      exact seen rfl
    · exact orderly.seen q other ((update_of_ne same ..).symm.trans here)
  · rcases orderly.lists with ⟨cells, quiet⟩ | ⟨q, other, stmt', cells, fresh, busy⟩
    · exact Or.inl ⟨cells, fun q => appends_update isOutside fun _ => quiet.nobody q, quiet.lists⟩
    · have different : q ≠ p := by
        intro same
        have inside := busy.appends
        rw [same, wasOutside] at inside
        cases inside
      refine Or.inr ⟨q, other, stmt', cells, fresh, ?_, ?_, busy.appending⟩
      · exact (update_of_ne different ..).trans busy.here
      · intro r elsewhere
        exact appends_update isOutside fun _ => busy.only r elsewhere

omit [DecidableEq P] in
/-- Where a serial store of a new page finds the list. -/
private theorem Orderly.quiet_of_serial (orderly : Orderly s) {page : Nat} {now : Rtcdate}
    (here : s.pc p = some (call, .kalloc branch)) (serial : Serial s (.exec p page now)) :
    ∃ cells, Quiet s cells ∧ branch = if cells = [] then .empty else .append := by
  simp only [Serial, SerialAt, here] at serial
  rcases orderly.lists with ⟨cells, quiet⟩ | ⟨q, other, stmt, cells, node, busy⟩
  · refine ⟨cells, quiet, ?_⟩
    have emptiness := quiet.lists.chain.start_eq_null
    cases branch with
    | empty => rw [if_pos (emptiness.mp serial.2)]
    | append => rw [if_neg fun isEmpty => orderly.seen p call here (emptiness.mpr isEmpty)]
  · exfalso
    cases branch with
    | empty => exact busy.first_ne_zero serial.2
    | append => exact Bool.noConfusion (busy.appends.symm.trans (serial.2 q))

theorem Orderly.kalloc (orderly : Orderly s) {page : Nat} {now : Rtcdate}
    (here : s.pc p = some (call, .kalloc branch)) (fresh : page = 0 ∨ page ∉ s.log.pages)
    (serial : Serial s (.exec p page now)) :
    ∃ log, (Stmt.kalloc branch).exec s.log call page now = .ok log ∧
      Orderly (s.advance p call log (some (.name branch))) := by
  have nonzero : page ≠ 0 := by
    simp only [Serial, SerialAt, here] at serial
    cases branch with
    | empty => exact serial.1
    | append => exact serial.1
  obtain ⟨cells, quiet, fits⟩ := orderly.quiet_of_serial here serial
  obtain ⟨log, ran, appending, nonempty, -⟩ :=
    quiet.lists.kalloc call now nonzero (fresh.resolve_left nonzero) fits
  refine ⟨log, ran, { sound := orderly.sound, seen := fun _ _ _ => nonempty, lists := Or.inr ?_ }⟩
  refine ⟨p, call, .name branch, cells, page, update_self .., ?_, appending⟩
  intro q different
  exact (congrArg appends (update_of_ne different ..)).trans (quiet.nobody q)

theorem Orderly.append (orderly : Orderly s) (page : Nat) (now : Rtcdate)
    (here : s.pc p = some (call, stmt)) (inside : stmt.branch?.isSome) :
    ∃ log, stmt.exec s.log call page now = .ok log ∧
      Orderly (s.advance p call log (stmt.following s.log)) := by
  have appendsHere : appends (s.pc p) = true := here ▸ inside
  rcases orderly.lists with ⟨cells, quiet⟩ | ⟨q, other, stmt', cells, fresh, busy⟩
  · exact Bool.noConfusion (appendsHere.symm.trans (quiet.nobody p))
  · have same : p = q := by
      by_contra different
      exact Bool.noConfusion (appendsHere.symm.trans (busy.only p different))
    subst same
    cases Option.some.inj (here.symm.trans busy.here)
    obtain ⟨log, executed, firstSame, -, result⟩ := busy.appending.exec page now
    have nonempty : log.firstProc ≠ 0 := firstSame ▸ busy.first_ne_zero
    refine ⟨log, executed, ?_⟩
    cases following : stmt.following s.log with
    | some next =>
      rw [following] at result
      refine { sound := orderly.sound, seen := fun _ _ _ => nonempty, lists := Or.inr ?_ }
      refine ⟨p, call, next, cells, fresh, update_self .., ?_, result⟩
      intro q different
      exact (congrArg appends (update_of_ne different ..)).trans (busy.only q different)
    | none =>
      rw [following] at result
      refine { sound := orderly.sound, seen := fun _ _ _ => nonempty, lists := Or.inl ?_ }
      exact ⟨cells ++ [fresh], fun q => appends_update rfl (busy.only q), result⟩

theorem Orderly.exec (orderly : Orderly s) {page : Nat} {now : Rtcdate}
    (here : s.pc p = some (call, stmt)) (fresh : page = 0 ∨ page ∉ s.log.pages)
    (serial : Serial s (.exec p page now)) :
    ∃ log, stmt.exec s.log call page now = .ok log ∧
      Orderly (s.advance p call log (stmt.following s.log)) := by
  cases stmt with
  | test =>
    refine ⟨s.log, rfl, orderly.move (here ▸ rfl) rfl ?_⟩
    · intro isAppend isNull
      rw [if_pos isNull] at isAppend
      cases isAppend
  | kalloc branch => exact orderly.kalloc here fresh serial
  | name branch => exact orderly.append page now here rfl
  | date branch => exact orderly.append page now here rfl
  | pid branch => exact orderly.append page now here rfl
  | next branch => exact orderly.append page now here rfl
  | last branch => exact orderly.append page now here rfl

theorem Orderly.step {after : State P} {label : Label P} (orderly : Orderly s)
    (serial : Serial s label) (stepped : (globalLog P).next s label = some after) :
    Orderly after := by
  obtain ⟨-, outcome⟩ := stepped_of_next stepped
  cases outcome with
  | entered p num pid outside =>
    apply orderly.move (outside ▸ rfl) rfl
    intro isKalloc
    cases isKalloc
  | advanced p page now call stmt log here fresh executed =>
    obtain ⟨after, ran, result⟩ := orderly.exec here fresh serial
    rw [Except.ok.inj (executed.symm.trans ran)]
    exact result
  | faulted p page now call stmt addr here fresh failed =>
    obtain ⟨after, ran, -⟩ := orderly.exec here fresh serial
    cases failed.symm.trans ran

/-- In every serial run no statement touches a bad address, and whenever every
process has left the block, the list records exactly the completed calls. -/
theorem globalLog_complete (labels : List (Label P)) (final : State P)
    (serial : (globalLog P).Meets Serial (noCalls P) labels)
    (ran : (globalLog P).run (noCalls P) labels = some final) :
    final.fault = none ∧
      ((∀ p, final.pc p = none) → final.log.Records final.completed) := by
  have orderly : Orderly final :=
    System.run_preserves_of_meets Orderly
      (fun _ _ _ holds meets stepped => holds.step meets stepped) noCalls_orderly serial ran
  refine ⟨orderly.sound, fun finished => ?_⟩
  rcases orderly.lists with ⟨cells, quiet⟩ | ⟨p, call, stmt, cells, fresh, busy⟩
  · exact quiet.lists.records
  · cases (finished p).symm.trans busy.here

end

instance decidableSerialAt {P : Type} [Fintype P] (s : State P) (page : Nat) :
    ∀ pc, Decidable (SerialAt s page pc)
  | some (_, .kalloc .empty) => inferInstanceAs (Decidable (page ≠ 0 ∧ s.log.firstProc = 0))
  | some (_, .kalloc .append) =>
    inferInstanceAs (Decidable (page ≠ 0 ∧ ∀ q, appends (s.pc q) = false))
  | some (_, .test) => isTrue trivial
  | some (_, .name _) => isTrue trivial
  | some (_, .date _) => isTrue trivial
  | some (_, .pid _) => isTrue trivial
  | some (_, .next _) => isTrue trivial
  | some (_, .last _) => isTrue trivial
  | none => isTrue trivial

instance decidableSerial {P : Type} [Fintype P] (s : State P) : ∀ label, Decidable (Serial s label)
  | .enter _ _ _ => isTrue trivial
  | .exec p page _ => decidableSerialAt s page (s.pc p)

/-- Two processes, one after the other. -/
def serialAppends : List (Label (Fin 2)) :=
  [.enter 0 10 1, .exec 0 0 midnight, .exec 0 4096 midnight] ++
    List.replicate 5 (.exec 0 0 midnight) ++
    [.enter 1 12 2, .exec 1 0 midnight, .exec 1 8192 midnight] ++
    List.replicate 5 (.exec 1 0 midnight)

theorem globalLog_complete_serialAppends :
    ∃ final, (globalLog (Fin 2)).run (noCalls (Fin 2)) serialAppends = some final ∧
      (∀ p, final.pc p = none) ∧ final.completed.length = 2 ∧
      final.log.Records final.completed := by
  have serial : (globalLog (Fin 2)).Meets Serial (noCalls (Fin 2)) serialAppends := by
    decide +kernel
  have finished : ((globalLog (Fin 2)).run (noCalls (Fin 2)) serialAppends).map (fun final =>
      (final.pc 0, final.pc 1, final.completed.length)) = some (none, none, 2) := by
    decide +kernel
  obtain ⟨final, ran, outside⟩ := Option.map_eq_some_iff.mp finished
  simp only [Prod.mk.injEq] at outside
  have everyone : ∀ p, final.pc p = none := by
    intro p
    match p with
    | 0 => exact outside.1
    | 1 => exact outside.2.1
  exact ⟨final, ran, everyone, outside.2.2,
    (globalLog_complete serialAppends final serial ran).2 everyone⟩

end Xv6.Syscall
