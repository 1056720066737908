import Xv6.Fs.Files

/-!
Contract: the directories and path names of `fs.c`, and the system calls of
`sysfile.c` that change the directory tree.

A path is the bytes of its string without the final NUL. A name is what `skipelem`
leaves in its buffer up to a NUL, at most `DIRSIZ` bytes.

Does not own: open files and current directories (`Fs.Calls`); the current directory
of the caller is an argument here.
-/

namespace Xv6.Fs

open Xv6.Lib

/-- `namecmp(s, t) == 0`. -/
def namecmp (s t : List UInt8) : Bool :=
  (s.take DIRSIZ).takeWhile (· != 0) == (t.take DIRSIZ).takeWhile (· != 0)

/-- What `strncpy(de.name, name, DIRSIZ)` leaves in `de.name`. -/
def strncpyName (name : List UInt8) : List UInt8 :=
  (name.takeWhile (· != 0) ++ List.replicate DIRSIZ 0).take DIRSIZ

def readDirent (slot : Slot) (off : Nat) (short : Halt) : FsM Dirent := do
  let read ← readi slot off DIRENT
  if read.1 = DIRENT then pure (decodeDirent read.2) else Prog.halt short

/-- The offsets below `size` of the loops over the entries. -/
def entryOffsets (size : Nat) : List Nat :=
  (List.range ((size + (DIRENT - 1)) / DIRENT)).map (DIRENT * ·)

def dirlookupLoop (slot : Slot) (name : List UInt8) : List Nat → FsM (Option (Slot × Nat))
  | [] => pure none
  | off :: rest => do
    let de ← readDirent slot off .dirlookupRead
    if de.inum ≠ 0 ∧ namecmp name de.name then do
      let ip ← iget de.inum
      pure (some (ip, off))
    else dirlookupLoop slot name rest

/-- The inode of the entry `name` and the offset of the entry. -/
def dirlookup (slot : Slot) (name : List UInt8) : FsM (Option (Slot × Nat)) := do
  let s ← Prog.get
  let copy := (s.icache slot).copy
  if copy.type = T_DIR then dirlookupLoop slot name (entryOffsets copy.size)
  else Prog.halt .dirlookupNotDir

/-- The loop of `dirlink`: the offset of an empty entry, or `behind` the last
one. -/
def emptyEntry (slot : Slot) (behind : Nat) : List Nat → FsM Nat
  | [] => pure behind
  | off :: rest => do
    let de ← readDirent slot off .dirlinkRead
    if de.inum = 0 then pure off else emptyEntry slot behind rest

/-- The part of `dirlink` for a name that is not present. -/
def addEntry (slot : Slot) (name : List UInt8) (inum : Nat) : FsM Int := do
  let s ← Prog.get
  let offsets := entryOffsets (s.icache slot).copy.size
  let off ← emptyEntry slot (DIRENT * offsets.length) offsets
  let written ← writei slot (encodeDirent ⟨inum, strncpyName name⟩) off
  if written = DIRENT then pure 0 else Prog.halt .dirlink

def dirlink (p : ProcId) (slot : Slot) (name : List UInt8) (inum : Nat) : FsM Int := do
  let found ← dirlookup slot name
  match found with
  | some (ip, _) => do
    iput p ip
    pure (-1)
  | none => addEntry slot name inum

def slash : UInt8 := 47

/-- The path after its first element, and that element. -/
def skipelem (path : List UInt8) : Option (List UInt8 × List UInt8) :=
  let path := path.dropWhile (· == slash)
  if path = [] then none
  else
    some ((path.dropWhile (· != slash)).dropWhile (· == slash),
      (path.takeWhile (· != slash)).take DIRSIZ)

/-- `namex` when the path has no more elements. -/
def namexEnd (p : ProcId) (parent : Bool) (ip : Slot) (name : List UInt8) :
    FsM (Option (Slot × List UInt8)) :=
  if parent then do
    iput p ip
    pure none
  else pure (some (ip, name))

/-- The loop of `namex`. Every round takes an element off the path, so as many
rounds as the path has bytes are enough. -/
def namexLoop (p : ProcId) (parent : Bool) :
    (rounds : Nat) → Slot → (path name : List UInt8) → FsM (Option (Slot × List UInt8))
  | 0, ip, _, name => namexEnd p parent ip name
  | rounds + 1, ip, path, name =>
    match skipelem path with
    | none => namexEnd p parent ip name
    | some (path, name) => do
      ilock p ip
      let s ← Prog.get
      if (s.icache ip).copy.type ≠ T_DIR then do
        iunlockput p ip
        pure none
      else if parent ∧ path = [] then do
        iunlock p ip
        pure (some (ip, name))
      else do
        let found ← dirlookup ip name
        match found with
        | none => do
          iunlockput p ip
          pure none
        | some (next, _) => do
          iunlockput p ip
          namexLoop p parent rounds next path name

/-- The inode at which `namex` starts. -/
def namexStart (cwd : Slot) (path : List UInt8) : FsM Slot :=
  if path.head? = some slash then iget ROOTINO else idup cwd

/-- The inode `namex` returns and the name it leaves in its buffer. -/
def namex (p : ProcId) (cwd : Slot) (path : List UInt8) (parent : Bool) :
    FsM (Option (Slot × List UInt8)) := do
  let ip ← namexStart cwd path
  namexLoop p parent path.length ip path []

def namei (p : ProcId) (cwd : Slot) (path : List UInt8) : FsM (Option Slot) := do
  let found ← namex p cwd path false
  pure (found.map Prod.fst)

def nameiparent (p : ProcId) (cwd : Slot) (path : List UInt8) :
    FsM (Option (Slot × List UInt8)) :=
  namex p cwd path true

def addLinks (slot : Slot) (count : BitVec 16) : FsM Unit :=
  setCopy slot fun copy => { copy with nlink := copy.nlink + count }

/-- The part of `create` for a name that is present. -/
def createFound (p : ProcId) (dp ip : Slot) (type : BitVec 16) : FsM (Option Slot) := do
  iunlockput p dp
  ilock p ip
  let s ← Prog.get
  if type = T_FILE ∧ (s.icache ip).copy.type = T_FILE then pure (some ip)
  else do
    iunlockput p ip
    pure none

def dot : List UInt8 := [46]

def dotdot : List UInt8 := [46, 46]

def createDots (p : ProcId) (dp ip : Slot) : FsM Unit := do
  addLinks dp 1
  iupdate dp
  let s ← Prog.get
  let first ← dirlink p ip dot (s.icache ip).inum
  if first < 0 then Prog.halt .createDots
  else do
    let second ← dirlink p ip dotdot (s.icache dp).inum
    if second < 0 then Prog.halt .createDots else pure ()

def createDotsOf (p : ProcId) (dp ip : Slot) (type : BitVec 16) : FsM Unit :=
  if type = T_DIR then createDots p dp ip else pure ()

/-- The part of `create` that makes a new inode. -/
def createNew (p : ProcId) (dp : Slot) (name : List UInt8) (type major minor : BitVec 16) :
    FsM (Option Slot) := do
  let ip ← ialloc type
  ilock p ip
  setCopy ip fun copy => { copy with major := major, minor := minor, nlink := 1 }
  iupdate ip
  createDotsOf p dp ip type
  let s ← Prog.get
  let linked ← dirlink p dp name (s.icache ip).inum
  if linked < 0 then Prog.halt .createDirlink
  else do
    iunlockput p dp
    pure (some ip)

def create (p : ProcId) (cwd : Slot) (path : List UInt8) (type major minor : BitVec 16) :
    FsM (Option Slot) := do
  let parent ← nameiparent p cwd path
  match parent with
  | none => pure none
  | some (dp, name) => do
    ilock p dp
    let found ← dirlookup dp name
    match found with
    | some (ip, _) => createFound p dp ip type
    | none => createNew p dp name type major minor

/-- `sys_link` from its label `bad` on. -/
def linkBad (p : ProcId) (ip : Slot) : FsM Int := do
  ilock p ip
  addLinks ip (-1)
  iupdate ip
  iunlockput p ip
  record .endOp
  pure (-1)

/-- The part of `sys_link` after `nameiparent`. -/
def linkInto (p : ProcId) (ip dp : Slot) (name : List UInt8) : FsM Int := do
  ilock p dp
  let s ← Prog.get
  let linked ← dirlink p dp name (s.icache ip).inum
  iunlockput p dp
  if linked < 0 then linkBad p ip
  else do
    iput p ip
    record .endOp
    pure 0

def linkFound (p : ProcId) (cwd ip : Slot) (new : List UInt8) : FsM Int := do
  ilock p ip
  let s ← Prog.get
  if (s.icache ip).copy.type = T_DIR then do
    iunlockput p ip
    record .endOp
    pure (-1)
  else do
    addLinks ip 1
    iupdate ip
    iunlock p ip
    let parent ← nameiparent p cwd new
    match parent with
    | none => linkBad p ip
    | some (dp, name) => linkInto p ip dp name

/-- `sys_link`. A path that `argstr` refuses is `none`. -/
def sysLink (p : ProcId) (cwd : Slot) (old new : Option (List UInt8)) : FsM Int :=
  match old, new with
  | some old, some new => do
    record .beginOp
    let found ← namei p cwd old
    match found with
    | none => do
      record .endOp
      pure (-1)
    | some ip => linkFound p cwd ip new
  | _, _ => pure (-1)

/-- The loop of `isdirempty`. -/
def isdiremptyLoop (slot : Slot) : List Nat → FsM Bool
  | [] => pure true
  | off :: rest => do
    let de ← readDirent slot off .isdiremptyReadi
    if de.inum ≠ 0 then pure false else isdiremptyLoop slot rest

def isdirempty (slot : Slot) : FsM Bool := do
  let s ← Prog.get
  isdiremptyLoop slot ((entryOffsets (s.icache slot).copy.size).drop 2)

/-- `sys_unlink` from its label `bad` on. -/
def unlinkBad (p : ProcId) (dp : Slot) : FsM Int := do
  iunlockput p dp
  record .endOp
  pure (-1)

/-- The link `..` of a removed directory. -/
def unlinkParent (dp : Slot) (type : BitVec 16) : FsM Unit :=
  if type = T_DIR then do
    addLinks dp (-1)
    iupdate dp
  else pure ()

/-- The part of `sys_unlink` that removes the entry of `ip` at `off`. -/
def unlinkEntry (p : ProcId) (dp ip : Slot) (off : Nat) : FsM Int := do
  let s ← Prog.get
  let written ← writei dp (List.replicate DIRENT 0) off
  if written ≠ DIRENT then Prog.halt .unlinkWritei
  else do
    unlinkParent dp (s.icache ip).copy.type
    iunlockput p dp
    addLinks ip (-1)
    iupdate ip
    iunlockput p ip
    record .endOp
    pure 0

/-- Whether `ip` is not a directory with entries. -/
def unlinkable (ip : Slot) : FsM Bool := do
  let s ← Prog.get
  if (s.icache ip).copy.type = T_DIR then isdirempty ip else pure true

/-- The part of `sys_unlink` after `dirlookup`. -/
def unlinkFound (p : ProcId) (dp ip : Slot) (off : Nat) : FsM Int := do
  ilock p ip
  let s ← Prog.get
  if (s.icache ip).copy.nlink.toInt < 1 then Prog.halt .unlinkNlink
  else do
    let may ← unlinkable ip
    if may then unlinkEntry p dp ip off
    else do
      iunlockput p ip
      unlinkBad p dp

def unlinkName (p : ProcId) (dp : Slot) (name : List UInt8) : FsM Int := do
  ilock p dp
  if namecmp name dot ∨ namecmp name dotdot then unlinkBad p dp
  else do
    let found ← dirlookup dp name
    match found with
    | none => unlinkBad p dp
    | some (ip, off) => unlinkFound p dp ip off

def sysUnlink (p : ProcId) (cwd : Slot) (path : Option (List UInt8)) : FsM Int :=
  match path with
  | none => pure (-1)
  | some path => do
    record .beginOp
    let parent ← nameiparent p cwd path
    match parent with
    | none => do
      record .endOp
      pure (-1)
    | some (dp, name) => unlinkName p dp name

end Xv6.Fs
