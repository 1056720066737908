import Xv6.Syscall.RecordInvariant

/-!
Contract: the recording code of `syscall` when the free list runs out.

`kalloc` then returns 0 and the code stores through the result without a test.
The first page of the address space belongs to the calling process and is mapped
writable, so such a store does not fault: it overwrites user memory.
`Kernel.syscall` stops at the first of them; here they go through, byte by byte.
-/

namespace Xv6.Syscall

open Function Xv6.Lib

/-- The bytes `safestrcpy` writes, with the terminator. -/
def stringBytes (text : String) : List UInt8 :=
  text.toList.map (fun c => UInt8.ofNat c.toNat) ++ [0]

def wordBytes (word : Nat) : List UInt8 :=
  [UInt8.ofNat word, UInt8.ofNat (word / 256), UInt8.ofNat (word / 256 ^ 2),
    UInt8.ofNat (word / 256 ^ 3)]

def Rtcdate.bytes (date : Rtcdate) : List UInt8 :=
  [date.second, date.minute, date.hour, date.day, date.month, date.year].flatMap wordBytes

def UserImage.write (image : UserImage) (addr : Nat) (bytes : List UInt8) : UserImage :=
  { image with mem := fun a =>
      if addr ≤ a ∧ a < addr + bytes.length then bytes.getD (a - addr) 0 else image.mem a }

/-- A store to one field of a struct: what it does to the struct, and which bytes
it puts `offset` bytes behind the pointer. -/
structure FieldStore (Cell : Type) where
  change : Cell → Cell
  offset : Nat
  bytes : List UInt8

/-- Where a struct keeps its `next`. -/
class NextOffset (Cell : Type) where
  offset : Nat

instance : NextOffset Node := ⟨60⟩

instance : NextOffset Date := ⟨28⟩

instance : NextOffset SyscallArg := ⟨344⟩

section

variable {Cell : Type}

/-- A store through `addr`, a kernel page or an address of the user. -/
def poke (heap : Heap Cell) (image : UserImage) (addr : Nat) (store : FieldStore Cell) :
    Except Nat (Heap Cell × UserImage) :=
  if addr ∈ heap.pages then
    .ok ({ heap with cell := update heap.cell addr (store.change (heap.cell addr)) }, image)
  else if addr + store.offset + store.bytes.length ≤ image.sz then
    .ok (heap, image.write (addr + store.offset) store.bytes)
  else .error addr

def pokeAll (heap : Heap Cell) (image : UserImage) (addr : Nat) (stores : List (FieldStore Cell)) :
    Except Nat (Heap Cell × UserImage) :=
  stores.foldlM (fun (heap, image) store => poke heap image addr store) (heap, image)

variable [Linked Cell] [NextOffset Cell]

def nextStore (link : Nat) : FieldStore Cell :=
  ⟨Linked.setNext link, NextOffset.offset Cell, wordBytes link⟩

def peekNext (heap : Heap Cell) (image : UserImage) (addr : Nat) : Except Nat Nat :=
  if addr ∈ heap.pages then .ok (Linked.next (heap.cell addr))
  else if addr + NextOffset.offset Cell + 4 ≤ image.sz then
    .ok (image.word (addr + NextOffset.offset Cell))
  else .error addr

end

def nodeName (call : Call) : FieldStore Node :=
  ⟨fun node => { node with name := some call.name }, 0, stringBytes call.name⟩

def nodeDate (now : Rtcdate) : FieldStore Node :=
  ⟨fun node => { node with date := now }, 32, now.bytes⟩

def nodePid (call : Call) : FieldStore Node :=
  ⟨fun node => { node with pid := call.pid }, 56, wordBytes (ofInt32 call.pid)⟩

namespace GlobalLog

def targetThrough (log : GlobalLog) (image : UserImage) : Branch → Except Nat Nat
  | .empty => .ok log.firstProc
  | .append => peekNext log.toHeap image log.lastProc

def pokeNode (log : GlobalLog) (image : UserImage) (addr : Nat) (store : FieldStore Node) :
    Except Nat (GlobalLog × UserImage) :=
  (poke log.toHeap image addr store).map fun (heap, image) => ({ log with toHeap := heap }, image)

end GlobalLog

/-- `Stmt.exec` with the stores through bad pointers carried out. -/
def Stmt.execThrough (log : GlobalLog) (image : UserImage) (call : Call) (page : Nat)
    (now : Rtcdate) : Stmt → Except Nat (GlobalLog × UserImage)
  | .test => .ok (log, image)
  | .kalloc .empty =>
    .ok ({ toHeap := log.grant page, firstProc := page, lastProc := log.lastProc }, image)
  | .kalloc .append =>
    GlobalLog.pokeNode { log with toHeap := log.grant page } image log.lastProc (nextStore page)
  | .name branch => do log.pokeNode image (← log.targetThrough image branch) (nodeName call)
  | .date branch => do log.pokeNode image (← log.targetThrough image branch) (nodeDate now)
  | .pid branch => do log.pokeNode image (← log.targetThrough image branch) (nodePid call)
  | .next branch => do log.pokeNode image (← log.targetThrough image branch) (nextStore 0)
  | .last branch => do pure ({ log with lastProc := ← log.targetThrough image branch }, image)

/-- The types that `fill_arglist` writes for a call number. -/
def argTypes : Nat → List String
  | 3 | 2 | 1 | 14 | 11 | 28 | 29 => ["void"]
  | 6 | 22 | 23 | 25 | 12 | 13 | 10 | 21 => ["int"]
  | 24 => ["int", "int"]
  | 4 => ["int*"]
  | 5 | 16 => ["int", "char*", "int"]
  | 7 => ["char*", "char**"]
  | 15 => ["char*", "int"]
  | 18 | 20 | 9 => ["char*"]
  | 19 => ["char*", "char*"]
  | 8 => ["int", "struct stat*"]
  | 17 => ["char*", "short", "short"]
  | _ => []

def typeStore (name : String) (i : Nat) : FieldStore SyscallArg :=
  ⟨fun arg => { arg with type := update arg.type i (some name) }, 30 * i, stringBytes name⟩

def intStore (i : Nat) (value : Int) : FieldStore SyscallArg :=
  ⟨fun arg => arg.setInt i value, 240 + 4 * i, wordBytes (ofInt32 value)⟩

def intptrStore (value : Nat) : FieldStore SyscallArg :=
  ⟨fun arg => { arg with intptrArgv := value }, 272, wordBytes value⟩

def strStore (i value : Nat) : FieldStore SyscallArg :=
  ⟨fun arg => arg.setStr i value, 276 + 4 * i, wordBytes value⟩

def ptrStore (i value : Nat) : FieldStore SyscallArg :=
  ⟨fun arg => arg.setPtr i value, 308 + 4 * i, wordBytes value⟩

def stStore (value : Nat) : FieldStore SyscallArg :=
  ⟨fun arg => { arg with st := value }, 340, wordBytes value⟩

/-- The values that `fill_arglist` fetches and writes once the types are written,
or the message when a fetch fails. -/
def argStores (image : UserImage) : Nat → List (FieldStore SyscallArg) × Option String
  | 6 | 22 | 23 | 25 | 12 | 13 | 10 | 21 =>
    match argint image 0 with
    | some intArg => ([intStore 0 intArg], none)
    | none => ([], some "bad int arg val?\n")
  | 24 =>
    match argint image 0, argint image 1 with
    | some intArg, some intArg2 => ([intStore 0 intArg, intStore 1 intArg2], none)
    | _, _ => ([], some "bad int arg val?\n")
  | 4 =>
    match argptr image 0 sizeofFds with
    | some fds => ([intptrStore fds], none)
    | none => ([], some "bad int* arg val?\n")
  | 5 | 16 =>
    match argint image 0, argint image 2 with
    | some fd, some n =>
      match argptr image 1 n with
      | some p => ([intStore 0 fd, intStore 1 n, strStore 0 p], none)
      | none => ([], some "bad 3 arg val?\n")
    | _, _ => ([], some "bad 3 arg val?\n")
  | 7 =>
    match argstr image 0, argint image 1 with
    | some (path, _), some uargv => ([strStore 0 path, ptrStore 0 (ofInt32 uargv)], none)
    | _, _ => ([], some "bad exec arg val?\n")
  | 15 =>
    match argstr image 0, argint image 1 with
    | some (path, _), some n => ([strStore 0 path, intStore 0 n], none)
    | _, _ => ([], some "bad open arg val?\n")
  | 18 | 20 | 9 =>
    match argstr image 0 with
    | some (path, _) => ([strStore 0 path], none)
    | none => ([], some "bad path arg val?\n")
  | 19 =>
    match argstr image 0, argstr image 0 with
    | some (path, _), some (path1, _) => ([strStore 0 path, strStore 1 path1], none)
    | _, _ => ([], some "bad path arg val?\n")
  | 8 =>
    match argint image 0, argptr image 1 sizeofStat with
    | some n, some st => ([intStore 0 n, stStore st], none)
    | _, _ => ([], some "bad fstat arg val?\n")
  | 17 =>
    match argstr image 0, argint image 1, argint image 2 with
    | some (path, _), some n, some fd => ([intStore 0 n, intStore 1 fd, strStore 0 path], none)
    | _, _, _ => ([], some "bad mknode arg val?\n")
  | _ => ([], none)

/-- `fill_arglist` through the pointer `last`. -/
def fillThrough (args : Heap SyscallArg) (image : UserImage) (last num : Nat) :
    Except Nat ((Heap SyscallArg × UserImage) × Option String) := do
  let (args, image) ← pokeAll args image last ((argTypes num).mapIdx fun i name => typeStore name i)
  let (stores, message) := argStores image num
  let result ← pokeAll args image last stores
  pure (result, message)

namespace Kernel

def recordGlobalThrough (k : Kernel) (image : UserImage) (call : Call) (now : Rtcdate) :
    Result (Kernel × UserImage) := do
  let branch : Branch := if k.log.firstProc = 0 then .empty else .append
  let (page, k) := k.kalloc
  let (log, image) ← stopAt k ([Stmt.kalloc branch, .name branch, .date branch, .pid branch,
    .next branch, .last branch].foldlM (fun (log, image) stmt =>
      stmt.execThrough log image call page now) (k.log, image))
  pure ({ k with log := log }, image)

def appendRecordThrough {Cell : Type} [Linked Cell] [NextOffset Cell] (heap : Heap Cell)
    (image : UserImage) (count first last page : Nat) :
    Except Nat ((Heap Cell × UserImage) × Nat × Nat) :=
  if count = 0 then do
    let written ← poke (heap.grant page) image page (nextStore 0)
    pure (written, page, page)
  else do
    let (heap, image) ← poke (heap.grant page) image last (nextStore page)
    let (heap, image) ← poke heap image (← peekNext heap image last) (nextStore 0)
    pure ((heap, image), first, ← peekNext heap image last)

def recordOwnThrough (k : Kernel) (p : Slot) (num : Nat) (now : Rtcdate) (image : UserImage) :
    Result (Kernel × UserImage) := do
  let entry := (k.proc p).syscalls (num - 1)
  let (page, k) := k.kalloc
  let ((dates, image), datelist, datelistEnd) ←
    stopAt k (appendRecordThrough k.dates image entry.count entry.datelist entry.datelistEnd page)
  let (page, k) := k.kalloc
  let ((args, image), arglist, arglistEnd) ←
    stopAt k (appendRecordThrough k.args image entry.count entry.arglist entry.arglistEnd page)
  let (dates, image) ← stopAt k (poke dates image datelistEnd
    ⟨fun date => { date with date := now }, 0, now.bytes⟩)
  let ((args, image), message) ← stopAt k (fillThrough args image arglistEnd num)
  let entry : Systemcall :=
    { count := (entry.count + 1) % 2 ^ 32, datelist := datelist, datelistEnd := datelistEnd,
      name := syscallsString.getD (num - 1) "", arglist := arglist, arglistEnd := arglistEnd }
  pure ({ k.setProc p { k.proc p with
      syscalls := update (k.proc p).syscalls (num - 1) entry } with
    dates := dates, args := args, console := k.console ++ message.toList }, image)

end Kernel

/-- What the calling process sees of its own call: the saved `tf->eax` and its
memory. -/
structure Caller where
  eax : Int
  image : UserImage

/-- `syscall` by `p` whose handler returned `result`, with the stores through bad
pointers carried out. -/
def Kernel.syscallThrough (k : Kernel) (p : Slot) (num result : Int) (now : Rtcdate × Rtcdate)
    (caller : Caller) : Result (Kernel × Caller) :=
  if 0 < num ∧ num ≤ SYS_CALL_COUNT then do
    let (k, image) ← k.recordGlobalThrough caller.image
      ⟨syscallsString.getD (num.toNat - 1) "", (k.proc p).pid⟩ now.1
    let (k, image) ← k.recordOwnThrough p num.toNat now.2 image
    pure (k, ⟨result, image⟩)
  else
    .ok ({ k with console := k.console ++ [toString (k.proc p).pid ++ " " ++ (k.proc p).name ++
      ": unknown sys call " ++ toString num ++ "\n"] }, ⟨-1, caller.image⟩)

variable {addr : Nat}

section

variable {Cell : Type}

theorem poke_of_store {heap after : Heap Cell} (store : FieldStore Cell)
    (stored : heap.store addr store.change = .ok after) (image : UserImage) :
    poke heap image addr store = .ok (after, image) := by
  unfold Heap.store at stored
  split at stored
  · rename_i allocated
    cases stored
    exact if_pos allocated
  · cases stored

theorem pokeAll_eq {heap : Heap Cell} (allocated : addr ∈ heap.pages) (image : UserImage)
    (stores : List (FieldStore Cell)) :
    pokeAll heap image addr stores =
      .ok ({ heap with
        cell := update heap.cell addr
          (stores.foldl (fun cell store => store.change cell) (heap.cell addr)) }, image) := by
  unfold pokeAll
  induction stores generalizing heap with
  | nil => simp [pure, Except.pure]
  | cons store rest ih =>
    have later := @ih
      { heap with cell := update heap.cell addr (store.change (heap.cell addr)) }
      allocated
    simp only [update_idem, update_self] at later
    rw [List.foldlM_cons]
    exact bind_eq_ok.mpr
      ⟨_, poke_of_store store (Heap.store_eq allocated store.change) image, later⟩

variable [Linked Cell] [NextOffset Cell]

theorem peekNext_of_load {heap : Heap Cell} {cell : Cell} (loaded : heap.load addr = .ok cell)
    (image : UserImage) :
    peekNext heap image addr = .ok (Linked.next cell) := by
  unfold Heap.load at loaded
  split at loaded
  · rename_i allocated
    cases loaded
    exact if_pos allocated
  · cases loaded

end

variable {log : GlobalLog}

theorem target_through {branch : Branch} (found : log.target branch = .ok addr) (image : UserImage) :
    log.targetThrough image branch = .ok addr := by
  cases branch with
  | empty => exact found
  | append =>
    cases loaded : log.load log.lastProc with
    | error bad =>
      rw [GlobalLog.target, loaded] at found
      cases found
    | ok node =>
      rw [GlobalLog.target, loaded] at found
      cases found
      exact peekNext_of_load loaded image

theorem pokeNode_of_store {after : GlobalLog} (store : FieldStore Node)
    (stored : log.storeNode addr store.change = .ok after) (image : UserImage) :
    log.pokeNode image addr store = .ok (after, image) := by
  unfold GlobalLog.storeNode at stored
  cases ran : log.store addr store.change with
  | error bad =>
    rw [ran] at stored
    cases stored
  | ok heap =>
    rw [ran] at stored
    cases stored
    rw [GlobalLog.pokeNode, poke_of_store store ran]
    rfl

variable {now : Rtcdate}

theorem execThrough_of_exec {after : GlobalLog} {call : Call} {page : Nat} {stmt : Stmt}
    (ran : stmt.exec log call page now = .ok after) (image : UserImage) :
    stmt.execThrough log image call page now = .ok (after, image) := by
  -- a store to the node a branch fills in
  have fills : ∀ {branch : Branch} (store : FieldStore Node),
      (log.target branch >>= fun addr => log.storeNode addr store.change) = .ok after →
        (log.targetThrough image branch >>= fun addr => log.pokeNode image addr store) =
          .ok (after, image) := by
    intro branch store ran
    obtain ⟨addr, found, stored⟩ := bind_eq_ok.mp ran
    exact bind_eq_ok.mpr ⟨addr, target_through found image, pokeNode_of_store store stored image⟩
  cases stmt with
  | test =>
    cases ran
    rfl
  | kalloc branch =>
    cases branch with
    | empty =>
      cases ran
      rfl
    | append => exact pokeNode_of_store (nextStore page) ran image
  | name branch => exact fills (nodeName call) ran
  | date branch => exact fills (nodeDate now) ran
  | pid branch => exact fills (nodePid call) ran
  | next branch => exact fills (nextStore 0) ran
  | last branch =>
    obtain ⟨addr, found, result⟩ := bind_eq_ok.mp ran
    cases result
    exact bind_eq_ok.mpr ⟨addr, target_through found image, rfl⟩

theorem foldThrough_of_fold {after : GlobalLog} {call : Call} {page : Nat} {stmts : List Stmt}
    (ran : stmts.foldlM (fun log stmt => stmt.exec log call page now) log = .ok after)
    (image : UserImage) :
    stmts.foldlM (fun (log, image) stmt => stmt.execThrough log image call page now) (log, image) =
      .ok (after, image) := by
  induction stmts generalizing log with
  | nil =>
    cases ran
    rfl
  | cons stmt rest ih =>
    rw [List.foldlM_cons] at ran ⊢
    obtain ⟨middle, first, later⟩ := bind_eq_ok.mp ran
    exact bind_eq_ok.mpr ⟨(middle, image), execThrough_of_exec first image,
      ih later⟩

theorem recordGlobalThrough_of_ok {k after : Kernel} {call : Call}
    (ran : k.recordGlobal call now = .ok after) (image : UserImage) :
    k.recordGlobalThrough image call now = .ok (after, image) := by
  obtain ⟨log, appended, result⟩ := bind_eq_ok.mp ran
  cases result
  exact bind_eq_ok.mpr ⟨(log, image),
    stopAt_eq_ok.mpr (foldThrough_of_fold (stopAt_eq_ok.mp appended) image), rfl⟩

theorem appendRecordThrough_of_ok {Cell : Type} [Linked Cell] [NextOffset Cell] {heap : Heap Cell}
    {count first last page : Nat} {result : Heap Cell × Nat × Nat}
    (ran : Kernel.appendRecord heap count first last page = .ok result) (image : UserImage) :
    Kernel.appendRecordThrough heap image count first last page =
      .ok ((result.1, image), result.2) := by
  unfold Kernel.appendRecord at ran
  unfold Kernel.appendRecordThrough
  split at ran
  · rename_i isFirst
    rw [if_pos isFirst]
    cases started : heap.start page with
    | error bad =>
      rw [started] at ran
      cases ran
    | ok after =>
      rw [started] at ran
      cases ran
      exact bind_eq_ok.mpr ⟨_, poke_of_store (nextStore 0) started image, rfl⟩
  · rename_i later
    rw [if_neg later]
    cases extended : heap.extend last page with
    | error bad =>
      rw [extended] at ran
      cases ran
    | ok after =>
      rw [extended] at ran
      cases ran
      -- the three accesses of `extend`, one after another
      obtain ⟨linked, linkedRan, rest⟩ := bind_eq_ok.mp extended
      obtain ⟨cell, loaded, rest⟩ := bind_eq_ok.mp rest
      obtain ⟨ended, endedRan, rest⟩ := bind_eq_ok.mp rest
      obtain ⟨cell', loaded', result⟩ := bind_eq_ok.mp rest
      cases result
      refine bind_eq_ok.mpr ⟨_, poke_of_store (nextStore page) linkedRan image, ?_⟩
      refine bind_eq_ok.mpr ⟨_, peekNext_of_load loaded image, ?_⟩
      refine bind_eq_ok.mpr ⟨_, poke_of_store (nextStore 0) endedRan image, ?_⟩
      exact bind_eq_ok.mpr ⟨_, peekNext_of_load loaded' image, rfl⟩

theorem setTypes_append (arg : SyscallArg) (names : List String) (name : String) :
    arg.setTypes (names ++ [name]) = (typeStore name names.length).change (arg.setTypes names) := by
  simp only [SyscallArg.setTypes, typeStore]
  congr 1
  funext i
  by_cases isNew : i = names.length
  · simp [isNew]
  · by_cases old : i < names.length
    · simp [isNew, old, Nat.lt_succ_of_lt old, List.getElem_append_left]
    · have outside : ¬ i < names.length + 1 := by omega
      simp [isNew, old, outside]

theorem typeStores_eq (arg : SyscallArg) (names : List String) :
    (names.mapIdx fun i name => typeStore name i).foldl (fun arg store => store.change arg) arg =
      arg.setTypes names := by
  induction names using List.reverseRecOn with
  | nil => rfl
  | append_singleton names name ih =>
    rw [List.mapIdx_concat, List.foldl_append, ih, setTypes_append]
    rfl

/-- `fill_arglist` writes the types, and then the values it fetches. -/
theorem fillArglist_eq (image : UserImage) (arg : SyscallArg) (num : Nat) :
    fillArglist image arg num =
      ((argStores image num).1.foldl (fun arg store => store.change arg)
        (arg.setTypes (argTypes num)), (argStores image num).2) := by
  unfold fillArglist
  split
  case h_28 => simp_all [argTypes, argStores, SyscallArg.setTypes]
  all_goals try rfl
  -- what is left fetches arguments
  all_goals dsimp only [argTypes, argStores]
  case h_18 | h_19 =>
    cases argint image 0 with
    | none => rfl
    | some fd =>
      cases argint image 2 with
      | none => rfl
      | some n =>
        dsimp only
        cases argptr image 1 n with
        | none => rfl
        | some p => rfl
  all_goals first
    | cases argint image 0 <;> rfl
    | cases argint image 0 <;> cases argint image 1 <;> rfl
    | cases argptr image 0 sizeofFds <;> rfl
    | cases argstr image 0 <;> rfl
    | cases argstr image 0 <;> cases argint image 1 <;> rfl
    | cases argint image 0 <;> cases argptr image 1 sizeofStat <;> rfl
    | cases argstr image 0 <;> cases argint image 1 <;> cases argint image 2 <;> rfl

theorem fillThrough_eq {args : Heap SyscallArg} {last : Nat} (allocated : last ∈ args.pages)
    (image : UserImage) (num : Nat) :
    fillThrough args image last num =
      .ok (({ args with
        cell := update args.cell last (fillArglist image (args.cell last) num).1 }, image),
        (fillArglist image (args.cell last) num).2) := by
  refine bind_eq_ok.mpr ⟨_, pokeAll_eq allocated image _, ?_⟩
  refine bind_eq_ok.mpr ⟨_, pokeAll_eq (by exact allocated) image _, ?_⟩
  rw [fillArglist_eq, typeStores_eq]
  simp only [update_idem, update_self]
  rfl

theorem recordOwnThrough_of_ok {k after : Kernel} {p : Slot} {num : Nat} {image : UserImage}
    (ran : k.recordOwn p num now image = .ok after) :
    k.recordOwnThrough p num now image = .ok (after, image) := by
  obtain ⟨dates, datesRan, ran⟩ := bind_eq_ok.mp ran
  obtain ⟨args, argsRan, ran⟩ := bind_eq_ok.mp ran
  obtain ⟨stamped, stampRan, ran⟩ := bind_eq_ok.mp ran
  obtain ⟨arg, loadRan, ran⟩ := bind_eq_ok.mp ran
  obtain ⟨filled, fillRan, ran⟩ := bind_eq_ok.mp ran
  cases ran
  have held : args.2.2 ∈ args.1.pages := by
    by_contra missing
    rw [Heap.load, if_neg missing] at loadRan
    cases loadRan
  rw [Heap.load_eq held, stopAt_eq_ok] at loadRan
  cases loadRan
  rw [Heap.store_eq held, stopAt_eq_ok] at fillRan
  cases fillRan
  rw [stopAt_eq_ok] at datesRan argsRan stampRan
  refine bind_eq_ok.mpr ⟨_, stopAt_eq_ok.mpr (appendRecordThrough_of_ok datesRan image), ?_⟩
  refine bind_eq_ok.mpr ⟨_, stopAt_eq_ok.mpr (appendRecordThrough_of_ok argsRan image), ?_⟩
  refine bind_eq_ok.mpr ⟨_, stopAt_eq_ok.mpr (poke_of_store _ stampRan image), ?_⟩
  exact bind_eq_ok.mpr ⟨_, stopAt_eq_ok.mpr (fillThrough_eq held image num), rfl⟩

theorem syscallThrough_of_ok {k after : Kernel} {p : Slot} {num : Int} {now : Rtcdate × Rtcdate}
    {caller : Caller} (known : 0 < num ∧ num ≤ SYS_CALL_COUNT)
    (ran : (k.recordGlobal ⟨syscallsString.getD (num.toNat - 1) "", (k.proc p).pid⟩ now.1 >>=
      fun k => k.recordOwn p num.toNat now.2 caller.image) = .ok after) (result : Int) :
    k.syscallThrough p num result now caller = .ok (after, ⟨result, caller.image⟩) := by
  obtain ⟨middle, globalRan, ownRan⟩ := bind_eq_ok.mp ran
  rw [Kernel.syscallThrough, if_pos known]
  refine bind_eq_ok.mpr ⟨_, recordGlobalThrough_of_ok globalRan caller.image, ?_⟩
  exact bind_eq_ok.mpr ⟨_, recordOwnThrough_of_ok ownRan, rfl⟩

private def zeroPage : UserImage := ⟨PGSIZE, 0, fun _ => 0⟩

private def someTime : Rtcdate × Rtcdate := (⟨5, 0, 0, 1, 1, 2018⟩, ⟨6, 0, 0, 1, 1, 2018⟩)

/-- A machine with one page besides the kernel, which becomes the stack of init. -/
private def onePage : Memory where
  kernelEnd := 0x80100000
  pages := [0x80100000]
  aboveNull := smallMemory.aboveNull
  distinct := by decide
  valid := by decide

end Xv6.Syscall
