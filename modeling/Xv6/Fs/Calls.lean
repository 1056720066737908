import Xv6.Fs.Names
import Xv6.Lib.System

/-!
Contract: open files, file descriptors and current directories, and the system of
all file system calls run one after another.

Owns: `file.c`, the rest of `sysfile.c`, and the parts of `fork` and `exit` that
concern files.

Does not own: pipes, `exec` and `fstat`.
-/

namespace Xv6.Fs

open Function Xv6.Lib

abbrev FileId := Fin NFILE

abbrev Fd := Fin NOFILE

/-- `struct file`. `inode` says that its type is `FD_INODE`; otherwise it is
`FD_NONE`. -/
structure File where
  inode : Bool
  ref : Int
  readable : Bool
  writable : Bool
  ip : Slot
  off : Nat

/-- The fields of `struct proc` that concern files. -/
structure Proc where
  alive : Bool
  cwd : Slot
  ofile : Fd → Option FileId

structure SysState where
  fs : FsState
  ftable : FileId → File
  proc : ProcId → Proc

abbrev SysM := Prog SysState Halt

def onFs {Value : Type} (program : FsM Value) : SysM Value :=
  Prog.focus SysState.fs (fun fs s => { s with fs }) program

def setFile (f : FileId) (change : File → File) : SysM Unit :=
  Prog.modify fun s => { s with ftable := update s.ftable f (change (s.ftable f)) }

def setProc (p : ProcId) (change : Proc → Proc) : SysM Unit :=
  Prog.modify fun s => { s with proc := update s.proc p (change (s.proc p)) }

def setFd (p : ProcId) (fd : Fd) (file : Option FileId) : SysM Unit :=
  setProc p fun proc => { proc with ofile := update proc.ofile fd file }

def filealloc : SysM (Option FileId) := do
  let s ← Prog.get
  match (List.finRange NFILE).find? fun f => (s.ftable f).ref = 0 with
  | some f => do
    setFile f fun file => { file with ref := 1 }
    pure (some f)
  | none => pure none

def filedup (f : FileId) : SysM Unit := do
  let s ← Prog.get
  if (s.ftable f).ref < 1 then Prog.halt .filedup
  else setFile f fun file => { file with ref := file.ref + 1 }

/-- The end of `fileclose`, for the file `ff` that nobody has open any more. -/
def fileput (p : ProcId) (ff : File) : SysM Unit :=
  if ff.inode then do
    onFs (record .beginOp)
    onFs (iput p ff.ip)
    onFs (record .endOp)
  else pure ()

def fileclose (p : ProcId) (f : FileId) : SysM Unit := do
  let s ← Prog.get
  if (s.ftable f).ref < 1 then Prog.halt .fileclose
  else if 0 < (s.ftable f).ref - 1 then setFile f fun file => { file with ref := file.ref - 1 }
  else do
    setFile f fun file => { file with ref := 0, inode := false }
    fileput p (s.ftable f)

/-- `f->off += r` for a positive `r`. -/
def advance (f : FileId) (r : Int) : SysM Unit :=
  if 0 < r then setFile f fun file => { file with off := uintAdd file.off r.toNat } else pure ()

def fileread (p : ProcId) (f : FileId) (n : Nat) : SysM Int := do
  let s ← Prog.get
  let file := s.ftable f
  if file.readable = false then pure (-1)
  else if file.inode = false then Prog.halt .fileread
  else do
    onFs (ilock p file.ip)
    let read ← onFs (readi file.ip file.off n)
    advance f read.1
    onFs (iunlock p file.ip)
    pure read.1

/-- One round of the loop of `filewrite`. -/
def writeChunk (p : ProcId) (f : FileId) (bytes : List UInt8) : SysM Int := do
  let s ← Prog.get
  let file := s.ftable f
  onFs (record .beginOp)
  onFs (ilock p file.ip)
  let written ← onFs (writei file.ip bytes file.off)
  advance f written
  onFs (iunlock p file.ip)
  onFs (record .endOp)
  pure written

/-- The most that one transaction of `filewrite` writes. -/
def writeMax : Nat := (MAXOPBLOCKS - 1 - 1 - 2) / 2 * 512

/-- The loop of `filewrite`, with the bytes `src` left to write; whether it wrote
them all. Every round writes at least one byte. -/
def filewriteLoop (p : ProcId) (f : FileId) : (rounds : Nat) → (src : List UInt8) → SysM Bool
  | 0, _ => pure true
  | rounds + 1, src =>
    if src.length = 0 then pure true
    else do
      let written ← writeChunk p f (src.take writeMax)
      if written < 0 then pure false
      else if written ≠ (src.take writeMax).length then Prog.halt .shortFilewrite
      else filewriteLoop p f rounds (src.drop writeMax)

def filewrite (p : ProcId) (f : FileId) (src : List UInt8) : SysM Int := do
  let s ← Prog.get
  let file := s.ftable f
  if file.writable = false then pure (-1)
  else if file.inode = false then Prog.halt .filewrite
  else do
    let complete ← filewriteLoop p f src.length src
    pure (if complete then src.length else -1)

def argfd (s : SysState) (p : ProcId) (fd : Int) : Option (Fd × FileId) :=
  if inside : 0 ≤ fd ∧ fd.toNat < NOFILE then
    ((s.proc p).ofile ⟨fd.toNat, inside.2⟩).map fun f => (⟨fd.toNat, inside.2⟩, f)
  else none

def fdalloc (p : ProcId) (f : FileId) : SysM (Option Fd) := do
  let s ← Prog.get
  match (List.finRange NOFILE).find? fun fd => (s.proc p).ofile fd = none with
  | some fd => do
    setFd p fd (some f)
    pure (some fd)
  | none => pure none

def sysDup (p : ProcId) (fd : Int) : SysM Int := do
  let s ← Prog.get
  match argfd s p fd with
  | none => pure (-1)
  | some (_, f) => do
    let new ← fdalloc p f
    match new with
    | none => pure (-1)
    | some new => do
      filedup f
      pure new.val

/-- `sys_read`. A count or buffer that `argint` or `argptr` refuses is `none`. -/
def sysRead (p : ProcId) (fd : Int) (n : Option Nat) : SysM Int := do
  let s ← Prog.get
  match argfd s p fd, n with
  | some (_, f), some n => fileread p f n
  | _, _ => pure (-1)

def sysWrite (p : ProcId) (fd : Int) (src : Option (List UInt8)) : SysM Int := do
  let s ← Prog.get
  match argfd s p fd, src with
  | some (_, f), some src => filewrite p f src
  | _, _ => pure (-1)

def sysClose (p : ProcId) (fd : Int) : SysM Int := do
  let s ← Prog.get
  match argfd s p fd with
  | none => pure (-1)
  | some (fd, f) => do
    setFd p fd none
    fileclose p f
    pure 0

def O_RDONLY : BitVec 32 := 0

def O_WRONLY : BitVec 32 := 1

def O_RDWR : BitVec 32 := 2

def O_CREATE : BitVec 32 := 0x200

/-- The part of `sys_open` that finds or makes the inode, and leaves it locked. -/
def openInode (p : ProcId) (cwd : Slot) (path : List UInt8) (omode : BitVec 32) :
    FsM (Option Slot) :=
  if omode &&& O_CREATE ≠ 0 then create p cwd path T_FILE 0 0
  else do
    let found ← namei p cwd path
    match found with
    | none => pure none
    | some ip => do
      ilock p ip
      let s ← Prog.get
      if (s.icache ip).copy.type = T_DIR ∧ omode ≠ O_RDONLY then do
        iunlockput p ip
        pure none
      else pure (some ip)

/-- A file of the file table and a descriptor for it. -/
def openFile (p : ProcId) : SysM (Option (FileId × Fd)) := do
  let f ← filealloc
  match f with
  | none => pure none
  | some f => do
    let fd ← fdalloc p f
    match fd with
    | none => do
      fileclose p f
      pure none
    | some fd => pure (some (f, fd))

/-- The part of `sys_open` with the inode `ip` locked. -/
def openWith (p : ProcId) (ip : Slot) (omode : BitVec 32) : SysM Int := do
  let opened ← openFile p
  match opened with
  | none => do
    onFs (iunlockput p ip)
    onFs (record .endOp)
    pure (-1)
  | some (f, fd) => do
    onFs (iunlock p ip)
    onFs (record .endOp)
    setFile f fun file =>
      { file with
        inode := true
        ip := ip
        off := 0
        readable := omode &&& O_WRONLY = 0
        writable := omode &&& O_WRONLY ≠ 0 ∨ omode &&& O_RDWR ≠ 0 }
    pure fd.val

def sysOpen (p : ProcId) (path : Option (List UInt8)) (omode : BitVec 32) : SysM Int :=
  match path with
  | none => pure (-1)
  | some path => do
    onFs (record .beginOp)
    let s ← Prog.get
    let found ← onFs (openInode p (s.proc p).cwd path omode)
    match found with
    | none => do
      onFs (record .endOp)
      pure (-1)
    | some ip => openWith p ip omode

/-- The body of `sys_mkdir` and `sys_mknod` for arguments that could be read. -/
def makeNode (p : ProcId) (path : List UInt8) (type major minor : BitVec 16) : SysM Int := do
  let s ← Prog.get
  let made ← onFs (create p (s.proc p).cwd path type major minor)
  match made with
  | none => do
    onFs (record .endOp)
    pure (-1)
  | some ip => do
    onFs (iunlockput p ip)
    onFs (record .endOp)
    pure 0

def sysMkdir (p : ProcId) (path : Option (List UInt8)) : SysM Int := do
  onFs (record .beginOp)
  match path with
  | none => do
    onFs (record .endOp)
    pure (-1)
  | some path => makeNode p path T_DIR 0 0

/-- `sys_mknod`. Arguments of which one cannot be read are `none`. -/
def sysMknod (p : ProcId) (args : Option (List UInt8 × BitVec 16 × BitVec 16)) : SysM Int := do
  onFs (record .beginOp)
  match args with
  | none => do
    onFs (record .endOp)
    pure (-1)
  | some (path, major, minor) => makeNode p path T_DEV major minor

/-- The part of `sys_chdir` with the new directory `ip`. -/
def chdirTo (p : ProcId) (ip : Slot) : SysM Int := do
  onFs (ilock p ip)
  let s ← Prog.get
  if (s.fs.icache ip).copy.type ≠ T_DIR then do
    onFs (iunlockput p ip)
    onFs (record .endOp)
    pure (-1)
  else do
    onFs (iunlock p ip)
    onFs (iput p (s.proc p).cwd)
    onFs (record .endOp)
    setProc p fun proc => { proc with cwd := ip }
    pure 0

def sysChdir (p : ProcId) (path : Option (List UInt8)) : SysM Int := do
  onFs (record .beginOp)
  match path with
  | none => do
    onFs (record .endOp)
    pure (-1)
  | some path => do
    let s ← Prog.get
    let found ← onFs (namei p (s.proc p).cwd path)
    match found with
    | none => do
      onFs (record .endOp)
      pure (-1)
    | some ip => chdirTo p ip

def sysLinkCall (p : ProcId) (old new : Option (List UInt8)) : SysM Int := do
  let s ← Prog.get
  onFs (sysLink p (s.proc p).cwd old new)

def sysUnlinkCall (p : ProcId) (path : Option (List UInt8)) : SysM Int := do
  let s ← Prog.get
  onFs (sysUnlink p (s.proc p).cwd path)

def dupFd (parent child : ProcId) (fd : Fd) : SysM Unit := do
  let s ← Prog.get
  match (s.proc parent).ofile fd with
  | none => pure ()
  | some f => do
    filedup f
    setFd child fd (some f)

def forkFiles (parent child : ProcId) : SysM Unit := do
  Prog.forEach (dupFd parent child) (List.finRange NOFILE)
  let s ← Prog.get
  let cwd ← onFs (idup (s.proc parent).cwd)
  setProc child fun proc => { proc with cwd := cwd, alive := true }

def closeFd (p : ProcId) (fd : Fd) : SysM Unit := do
  let s ← Prog.get
  match (s.proc p).ofile fd with
  | none => pure ()
  | some f => do
    fileclose p f
    setFd p fd none

def exitFiles (p : ProcId) : SysM Unit := do
  Prog.forEach (closeFd p) (List.finRange NOFILE)
  onFs (record .beginOp)
  let s ← Prog.get
  onFs (iput p (s.proc p).cwd)
  onFs (record .endOp)
  setProc p fun proc => { proc with alive := false }

inductive Call where
  | open (path : Option (List UInt8)) (omode : BitVec 32)
  | close (fd : Int)
  | dup (fd : Int)
  | read (fd : Int) (n : Option Nat)
  | write (fd : Int) (src : Option (List UInt8))
  | link (old new : Option (List UInt8))
  | unlink (path : Option (List UInt8))
  | mkdir (path : Option (List UInt8))
  | mknod (args : Option (List UInt8 × BitVec 16 × BitVec 16))
  | chdir (path : Option (List UInt8))
  | fork (child : ProcId)
  | exit

/-- The kernel code of a call. What `fork` returns besides is not a matter of
files. -/
def Call.program (p : ProcId) : Call → SysM Int
  | .open path omode => sysOpen p path omode
  | .close fd => sysClose p fd
  | .dup fd => sysDup p fd
  | .read fd n => sysRead p fd n
  | .write fd src => sysWrite p fd src
  | .link old new => sysLinkCall p old new
  | .unlink path => sysUnlinkCall p path
  | .mkdir path => sysMkdir p path
  | .mknod args => sysMknod p args
  | .chdir path => sysChdir p path
  | .fork child => do
    forkFiles p child
    pure 0
  | .exit => do
    exitFiles p
    pure 0

/-- A call can be made by a process that is alive; a new process takes a free slot of
the process table, and `init` does not exit. -/
def Call.enabled (s : SysState) (p : ProcId) (call : Call) : Bool :=
  (s.proc p).alive &&
    match call with
    | .fork child => !(s.proc child).alive
    | .exit => p.val != 0
    | _ => true

/-- The machine, and the panic that stopped it. -/
structure Machine where
  sys : SysState
  halted : Option Halt

def callNext (m : Machine) (label : ProcId × Call) : Option Machine :=
  if m.halted = none ∧ label.2.enabled m.sys label.1 then
    match label.2.program label.1 m.sys with
    | (.ok _, sys) => some ⟨sys, none⟩
    | (.error halt, sys) => some ⟨sys, some halt⟩
  else none

def callSystem : System Machine (ProcId × Call) := ⟨callNext⟩

def freeInode : Inode := ⟨0, 0, none, false, Dinode.zero⟩

/-- `init` runs in the root directory, and nothing is open. -/
def boot (disk : Disk) (devsw : Fin NDEV → Device) : Machine where
  sys :=
    { fs :=
        { disk := disk
          sb := readsb disk
          icache := fun slot =>
            if slot.val = 0 then { freeInode with inum := ROOTINO, ref := 1 } else freeInode
          devsw := devsw
          trace := [] }
      ftable := fun _ => ⟨false, 0, false, false, ⟨0, NINODE_pos⟩, 0⟩
      proc := fun p => ⟨p.val = 0, ⟨0, NINODE_pos⟩, fun _ => none⟩ }
  halted := none

end Xv6.Fs
