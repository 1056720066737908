import Xv6.Lib.Prog
import Xv6.Param
import Xv6.Pipes.Model

/-!
Contract: the file table, the descriptors of all processes and the pages of pipes, under
system calls that run one after another.

What a call finds outside is part of the call: whether its arguments can be read, the inode
that `sys_open` gets from the file system, the page that `kalloc` returns, the process that
`fork` makes. `page` has the pipes that are allocated, with their numbers; `made` and
`freed` are for statements, no code reads them.

Does not own: what is in files (`Fs`) and in pipes (`Pipes`).
-/

namespace Xv6.OpenFiles

open Function Xv6.Lib

abbrev FileId := Fin NFILE

abbrev Fd := Fin NOFILE

abbrev ProcId := Fin NPROC

abbrev Page := Nat

abbrev InodeAddr := Nat

/-- `FD_NONE`, `FD_PIPE` and `FD_INODE`. -/
inductive FileType where
  | none
  | pipe
  | inode
deriving DecidableEq

structure File where
  type : FileType
  ref : Int
  readable : Bool
  writable : Bool
  pipe : Page
  ip : InodeAddr
  off : Nat

/-- A process that has not exited is in use. -/
structure Proc where
  used : Bool
  ofile : Fd → Option FileId

structure Kernel where
  ftable : FileId → File
  proc : ProcId → Proc
  page : Page → Option (Nat × Pipes.Pipe)
  made : Nat
  freed : List Nat

/-- The panics, and the use of a page that has no pipe. -/
inductive Halt where
  | filedup
  | fileclose
  | initExiting
  | noPipe
deriving DecidableEq

namespace Kernel

variable (s : Kernel)

def setFile (f : FileId) (file : File) : Kernel := { s with ftable := update s.ftable f file }

def setFd (p : ProcId) (fd : Fd) (file : Option FileId) : Kernel :=
  { s with
    proc := update s.proc p
      { s.proc p with ofile := update (s.proc p).ofile fd file } }

def setUsed (p : ProcId) (used : Bool) : Kernel :=
  { s with proc := update s.proc p { s.proc p with used } }

def setPage (page : Page) (pipe : Option (Nat × Pipes.Pipe)) : Kernel :=
  { s with page := update s.page page pipe }

variable {s}

@[simp] theorem setFile_self (f : FileId) (file : File) : (s.setFile f file).ftable f = file :=
  update_self ..

theorem setFile_of_ne {f g : FileId} (file : File) (other : g ≠ f) :
    (s.setFile f file).ftable g = s.ftable g :=
  update_of_ne other _ _

@[simp] theorem setFd_self (p : ProcId) (fd : Fd) (file : Option FileId) :
    (s.setFd p fd file).proc p =
      { s.proc p with ofile := update (s.proc p).ofile fd file } :=
  update_self ..

theorem setFd_of_ne {p q : ProcId} (fd : Fd) (file : Option FileId) (other : q ≠ p) :
    (s.setFd p fd file).proc q = s.proc q :=
  update_of_ne other _ _

@[simp] theorem setUsed_self (p : ProcId) (used : Bool) :
    (s.setUsed p used).proc p = { s.proc p with used } :=
  update_self ..

theorem setUsed_of_ne {p q : ProcId} (used : Bool) (other : q ≠ p) :
    (s.setUsed p used).proc q = s.proc q :=
  update_of_ne other _ _

end Kernel

abbrev M := Prog Kernel Halt

def setFile (f : FileId) (change : File → File) : M Unit :=
  Prog.modify fun s => s.setFile f (change (s.ftable f))

def setFd (p : ProcId) (fd : Fd) (file : Option FileId) : M Unit :=
  Prog.modify fun s => s.setFd p fd file

def filealloc : M (Option FileId) := do
  let s ← Prog.get
  match (List.finRange NFILE).find? fun f => (s.ftable f).ref = 0 with
  | some f => do
    setFile f fun file => { file with ref := 1 }
    pure (some f)
  | none => pure none

def filedup (f : FileId) : M Unit := do
  let s ← Prog.get
  if (s.ftable f).ref < 1 then Prog.halt .filedup
  else setFile f fun file => { file with ref := file.ref + 1 }

/-- `kfree` of the page of a pipe, the pipe `n`. -/
def kfree (page : Page) (n : Nat) : M Unit :=
  Prog.modify fun s => { s.setPage page none with freed := n :: s.freed }

def pipeclose (page : Page) (writable : Bool) : M Unit := do
  let s ← Prog.get
  match s.page page with
  | none => Prog.halt .noPipe
  | some (n, pipe) => do
    Prog.modify fun s => s.setPage page (some (n, pipe.close writable))
    if (pipe.close writable).unused then kfree page n else pure ()

/-- The end of `fileclose`, for the file `ff` that nobody has open any more. The inode of a
file is put back outside. -/
def fileput (ff : File) : M Unit :=
  match ff.type with
  | .pipe => pipeclose ff.pipe ff.writable
  | .inode | .none => pure ()

def fileclose (f : FileId) : M Unit := do
  let s ← Prog.get
  if (s.ftable f).ref < 1 then Prog.halt .fileclose
  else if 0 < (s.ftable f).ref - 1 then setFile f fun file => { file with ref := file.ref - 1 }
  else do
    setFile f fun file => { file with ref := 0, type := .none }
    fileput (s.ftable f)

/-- A page that `kalloc` returns, with the bytes that are in it where the buffer will be. -/
structure Fresh where
  page : Page
  data : Fin Pipes.PIPESIZE → UInt8

/-- The pipe that `pipealloc` makes in a page. -/
def pipeinit (fresh : Fresh) : M Unit :=
  Prog.modify fun s =>
    { s.setPage fresh.page (some (s.made, (Pipes.opened fresh.data).pipe)) with made := s.made + 1 }

/-- `pipealloc`. At `bad` there is never a page to free. -/
def pipealloc (fresh : Option Fresh) : M (Option (FileId × FileId)) := do
  let f0 ← filealloc
  match f0 with
  | none => pure none
  | some f0 => do
    let f1 ← filealloc
    match f1 with
    | none => do
      fileclose f0
      pure none
    | some f1 =>
      match fresh with
      | none => do
        fileclose f0
        fileclose f1
        pure none
      | some fresh => do
        pipeinit fresh
        setFile f0 fun file =>
          { file with type := .pipe, readable := true, writable := false, pipe := fresh.page }
        setFile f1 fun file =>
          { file with type := .pipe, readable := false, writable := true, pipe := fresh.page }
        pure (some (f0, f1))

theorem toNat_lt {fd : Int} (inside : 0 ≤ fd ∧ fd.toNat < NOFILE) : fd.toNat < NOFILE :=
  inside.2

def argfd (s : Kernel) (p : ProcId) (fd : Int) : Option (Fd × FileId) :=
  if inside : 0 ≤ fd ∧ fd.toNat < NOFILE then
    ((s.proc p).ofile ⟨fd.toNat, toNat_lt inside⟩).map fun f => (⟨fd.toNat, toNat_lt inside⟩, f)
  else none

def fdalloc (p : ProcId) (f : FileId) : M (Option Fd) := do
  let s ← Prog.get
  match (List.finRange NOFILE).find? fun fd => (s.proc p).ofile fd = none with
  | some fd => do
    setFd p fd (some f)
    pure (some fd)
  | none => pure none

def sysDup (p : ProcId) (fd : Int) : M Int := do
  let s ← Prog.get
  match argfd s p fd with
  | none => pure (-1)
  | some (_, f) => do
    let new ← fdalloc p f
    match new with
    | none => pure (-1)
    | some new => do
      filedup f
      pure new.val

def sysClose (p : ProcId) (fd : Int) : M Int := do
  let s ← Prog.get
  match argfd s p fd with
  | none => pure (-1)
  | some (fd, f) => do
    setFd p fd none
    fileclose f
    pure 0

def O_WRONLY : BitVec 32 := 1

def O_RDWR : BitVec 32 := 2

/-- `sys_open` with the mode `omode`, and with the inode that it gets, if any. -/
def sysOpen (p : ProcId) (omode : BitVec 32) (ip : Option InodeAddr) : M Int :=
  match ip with
  | none => pure (-1)
  | some ip => do
    let f ← filealloc
    match f with
    | none => pure (-1)
    | some f => do
      let fd ← fdalloc p f
      match fd with
      | none => do
        fileclose f
        pure (-1)
      | some fd => do
        setFile f fun file =>
          { file with
            type := .inode
            ip := ip
            off := 0
            readable := omode &&& O_WRONLY = 0
            writable := omode &&& O_WRONLY ≠ 0 ∨ omode &&& O_RDWR ≠ 0 }
        pure fd.val

/-- `sys_pipe`: what it returns, and the descriptors that it stores for the caller. -/
def sysPipe (p : ProcId) (fetched : Bool) (fresh : Option Fresh) : M (Int × Option (Fd × Fd)) :=
  if fetched = false then pure (-1, none)
  else do
    let files ← pipealloc fresh
    match files with
    | none => pure (-1, none)
    | some (rf, wf) => do
      let fd0 ← fdalloc p rf
      match fd0 with
      | none => do
        fileclose rf
        fileclose wf
        pure (-1, none)
      | some fd0 => do
        let fd1 ← fdalloc p wf
        match fd1 with
        | none => do
          setFd p fd0 none
          fileclose rf
          fileclose wf
          pure (-1, none)
        | some fd1 => pure (0, some (fd0, fd1))

def initproc : ProcId := ⟨0, NPROC_pos⟩

def dupFd (parent child : ProcId) (fd : Fd) : M Unit := do
  let s ← Prog.get
  match (s.proc parent).ofile fd with
  | none => pure ()
  | some f => do
    filedup f
    setFd child fd (some f)

/-- `fork`, if it makes the process `child`. -/
def fork (parent : ProcId) (child : Option ProcId) : M Int :=
  match child with
  | none => pure (-1)
  | some child => do
    Prog.modify fun s => s.setUsed child true
    Prog.forEach (dupFd parent child) (List.finRange NOFILE)
    pure 0

def closeFd (p : ProcId) (fd : Fd) : M Unit := do
  let s ← Prog.get
  match (s.proc p).ofile fd with
  | none => pure ()
  | some f => do
    fileclose f
    setFd p fd none

def exit (p : ProcId) : M Int :=
  if p = initproc then Prog.halt .initExiting
  else do
    Prog.forEach (closeFd p) (List.finRange NOFILE)
    Prog.modify fun s => s.setUsed p false
    pure 0

/-- A call that cannot read its arguments is one of an `open` without an inode. -/
inductive Call where
  | open (omode : BitVec 32) (ip : Option InodeAddr)
  | pipe (fetched : Bool) (fresh : Option Fresh)
  | dup (fd : Int)
  | close (fd : Int)
  | fork (child : Option ProcId)
  | exit

def Call.program (p : ProcId) : Call → M Int
  | .open omode ip => sysOpen p omode ip
  | .pipe fetched fresh => do
    let piped ← sysPipe p fetched fresh
    pure piped.1
  | .dup fd => sysDup p fd
  | .close fd => sysClose p fd
  | .fork child => OpenFiles.fork p child
  | .exit => OpenFiles.exit p

/-- A call is made by a process in use; `fork` takes a process that is not, and `kalloc`
returns a page that is free. -/
def Call.enabled (s : Kernel) (p : ProcId) (call : Call) : Bool :=
  (s.proc p).used &&
    match call with
    | .pipe _ (some fresh) => (s.page fresh.page).isNone
    | .fork (some child) => !(s.proc child).used
    | _ => true

structure Machine where
  kernel : Kernel
  halted : Option Halt

def callNext (m : Machine) (label : ProcId × Call) : Option Machine :=
  if m.halted = none ∧ label.2.enabled m.kernel label.1 then
    match label.2.program label.1 m.kernel with
    | (.ok _, kernel) => some ⟨kernel, none⟩
    | (.error halt, kernel) => some ⟨kernel, some halt⟩
  else none

def callSystem : System Machine (ProcId × Call) := ⟨callNext⟩

/-- Only `initproc` is there, and nothing is open. -/
def boot : Machine where
  kernel :=
    { ftable := fun _ => ⟨.none, 0, false, false, 0, 0, 0⟩
      proc := fun p => ⟨p = initproc, fun _ => none⟩
      page := fun _ => none
      made := 0
      freed := [] }
  halted := none

end Xv6.OpenFiles
