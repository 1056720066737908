import Xv6.Fs.Names
import Xv6.Lib.Threads

/-!
Contract: the inode cache under any interleaving of the sections of `fs.c`.

An operation is what happens under one lock at a time: a section of `icache.lock` or of the
spinlock of a sleep-lock, the transfer between an inode and its place in a buffer, or an
access to the fields of an inode, which its sleep-lock protects. `disk` has the inodes as
the newest contents of the inode blocks have them. What is in data blocks, and which blocks
are free, is not in the state: what a read of them finds is any value. `balloc` returns a
block other than 0, which is the boot block. A panic is an operation that is never done.

`held` counts the references that a process has got from `iget` and `idup` and has not put
back. `births` counts how often `ialloc` has taken an inode, and `birth` is that count when
the copy was read. No code reads them.

Does not own: what the same functions compute when they run alone (`Fs`).
-/

namespace Xv6.ICache

open Function Xv6.Lib
open Xv6.Fs (Slot Dinode Dirent NDIRECT NINDIRECT MAXFILE DIRENT T_DIR T_FILE T_DEV ROOTINO uintAdd)

/-- `struct inode`. `lock` is the process that has its sleep-lock, `copy` the copy of the
disk inode. -/
structure Entry (P : Type) where
  dev : Nat
  inum : Nat
  ref : Int
  lock : Option P
  valid : Bool
  copy : Dinode
  birth : Nat

structure Stored where
  inode : Dinode
  births : Nat

structure State (P : Type) where
  icache : Slot → Entry P
  disk : (dev inum : Nat) → Stored
  held : P → Slot → Nat

/-- `getRef` reads `ip->ref`; `look` reads `valid` and the fields of the disk inode; `ident`
reads `dev` and `inum`. `load` is the transfer in `ilock`, `claim` the one in `ialloc`.
`indirect` is an entry of an indirect block, `dirent` an entry of a directory, `device` the
result of a function of `devsw`, if there is one. -/
inductive Op where
  | iget (dev inum : Nat)
  | idup (slot : Slot)
  | getRef (slot : Slot)
  | decRef (slot : Slot)
  | acquiresleep (slot : Slot)
  | releasesleep (slot : Slot)
  | holdingsleep (slot : Slot)
  | look (slot : Slot)
  | ident (slot : Slot)
  | load (slot : Slot)
  | modify (slot : Slot) (change : Dinode → Dinode)
  | iupdate (slot : Slot)
  | invalidate (slot : Slot)
  | claim (dev inum : Nat) (type : BitVec 16)
  | balloc
  | indirect
  | dirent
  | device
  | panic

def Op.Answer : Op → Type
  | .iget _ _ => Slot
  | .getRef _ => Int
  | .holdingsleep _ => Bool
  | .look _ => Bool × Dinode
  | .ident _ => Nat × Nat
  | .load _ => Dinode
  | .claim _ _ _ => Bool
  | .balloc | .indirect => Nat
  | .dirent => Dirent
  | .device => Option Int
  | .panic => Empty
  | .idup _ | .decRef _ | .acquiresleep _ | .releasesleep _ | .modify _ _ | .iupdate _ | .invalidate _ => Unit

/-- What the operations find outside the state. -/
structure Choice where
  number : Nat
  entry : Dirent
  result : Option Int

namespace State

variable {P : Type} [DecidableEq P]

def setEntry (s : State P) (slot : Slot) (entry : Entry P) : State P :=
  { s with icache := update s.icache slot entry }

def setHeld (s : State P) (p : P) (slot : Slot) (count : Nat) : State P :=
  { s with held := update s.held p (update (s.held p) slot count) }

def setDisk (s : State P) (dev inum : Nat) (d : Stored) : State P :=
  { s with disk := update s.disk dev (update (s.disk dev) inum d) }

section

omit [DecidableEq P]

@[simp] theorem setEntry_self (s : State P) (slot : Slot) (entry : Entry P) :
    (s.setEntry slot entry).icache slot = entry :=
  update_self ..

theorem setEntry_of_ne (s : State P) {slot other : Slot} (entry : Entry P) (different : other ≠ slot) :
    (s.setEntry slot entry).icache other = s.icache other :=
  update_of_ne different _ _

@[simp] theorem setDisk_self (s : State P) (dev inum : Nat) (d : Stored) :
    (s.setDisk dev inum d).disk dev inum = d := by
  simp [setDisk]

theorem setDisk_of_ne (s : State P) {dev inum dev' inum' : Nat} (d : Stored)
    (different : ¬ (dev' = dev ∧ inum' = inum)) :
    (s.setDisk dev inum d).disk dev' inum' = s.disk dev' inum' := by
  simp only [setDisk]
  by_cases sameDev : dev' = dev
  · subst sameDev
    have otherInum : inum' ≠ inum := fun same => different ⟨rfl, same⟩
    simp [update_of_ne otherInum]
  · simp [update_of_ne sameDev]

end

def cached (s : State P) (dev inum : Nat) : Option Slot :=
  (List.finRange NINODE).find? fun slot =>
    0 < (s.icache slot).ref ∧ (s.icache slot).dev = dev ∧ (s.icache slot).inum = inum

def empty (s : State P) : Option Slot :=
  (List.finRange NINODE).find? fun slot => (s.icache slot).ref = 0

def iget (s : State P) (p : P) (dev inum : Nat) : Option (Slot × State P) :=
  match s.cached dev inum with
  | some slot =>
    some (slot, (s.setEntry slot { s.icache slot with ref := (s.icache slot).ref + 1 }).setHeld p slot
      (s.held p slot + 1))
  | none =>
    s.empty.map fun slot =>
      (slot, (s.setEntry slot { s.icache slot with dev, inum, ref := 1, valid := false }).setHeld p slot
        (s.held p slot + 1))

end State

def exec {P : Type} [DecidableEq P] (p : P) (o : Op) (choice : Choice) (s : State P) :
    Option (o.Answer × State P) :=
  match o with
  | .iget dev inum => s.iget p dev inum
  | .idup slot =>
    some ((), (s.setEntry slot { s.icache slot with ref := (s.icache slot).ref + 1 }).setHeld p slot
      (s.held p slot + 1))
  | .getRef slot => some ((s.icache slot).ref, s)
  | .decRef slot =>
    some ((), (s.setEntry slot { s.icache slot with ref := (s.icache slot).ref - 1 }).setHeld p slot
      (s.held p slot - 1))
  | .acquiresleep slot =>
    if (s.icache slot).lock = none then
      some ((), s.setEntry slot { s.icache slot with lock := some p })
    else none
  | .releasesleep slot =>
    if (s.icache slot).lock = some p then
      some ((), s.setEntry slot { s.icache slot with lock := none })
    else some ((), s)
  | .holdingsleep slot => some (decide ((s.icache slot).lock = some p), s)
  | .look slot => some (((s.icache slot).valid, (s.icache slot).copy), s)
  | .ident slot => some (((s.icache slot).dev, (s.icache slot).inum), s)
  | .load slot =>
    let d := s.disk (s.icache slot).dev (s.icache slot).inum
    some (d.inode, s.setEntry slot { s.icache slot with copy := d.inode, valid := true, birth := d.births })
  | .modify slot change =>
    some ((), s.setEntry slot { s.icache slot with copy := change (s.icache slot).copy })
  | .iupdate slot =>
    let d := s.disk (s.icache slot).dev (s.icache slot).inum
    some ((), s.setDisk (s.icache slot).dev (s.icache slot).inum { d with inode := (s.icache slot).copy })
  | .invalidate slot => some ((), s.setEntry slot { s.icache slot with valid := false })
  | .claim dev inum type =>
    let d := s.disk dev inum
    if d.inode.type = 0 then some (true, s.setDisk dev inum ⟨{ Dinode.zero with type }, d.births + 1⟩)
    else some (false, s)
  | .balloc => if choice.number = 0 then none else some (choice.number, s)
  | .indirect => some (choice.number, s)
  | .dirent => some (choice.entry, s)
  | .device => some (choice.result, s)
  | .panic => none

abbrev C := Code Op Op.Answer

def ask (o : Op) : C o.Answer := Code.ask o

def panic {Value : Type} : C Value := .op .panic nofun

def iget (dev inum : Nat) : C Slot := ask (.iget dev inum)

def incRef (slot : Slot) : C Unit := ask (.idup slot)

def idup (slot : Slot) : C Slot := do
  incRef slot
  pure slot

def getRef (slot : Slot) : C Int := ask (.getRef slot)

def decRef (slot : Slot) : C Unit := ask (.decRef slot)

def acquiresleep (slot : Slot) : C Unit := ask (.acquiresleep slot)

def releasesleep (slot : Slot) : C Unit := ask (.releasesleep slot)

def holdingsleep (slot : Slot) : C Bool := ask (.holdingsleep slot)

def look (slot : Slot) : C (Bool × Dinode) := ask (.look slot)

def ident (slot : Slot) : C (Nat × Nat) := ask (.ident slot)

def load (slot : Slot) : C Dinode := ask (.load slot)

def modify (slot : Slot) (change : Dinode → Dinode) : C Unit := ask (.modify slot change)

def iupdate (slot : Slot) : C Unit := ask (.iupdate slot)

def invalidate (slot : Slot) : C Unit := ask (.invalidate slot)

def claim (dev inum : Nat) (type : BitVec 16) : C Bool := ask (.claim dev inum type)

def balloc : C Nat := ask .balloc

def indirect : C Nat := ask .indirect

def dirent : C Dirent := ask .dirent

def device : C (Option Int) := ask .device

def ifill (slot : Slot) : C Unit := do
  let (valid, _) ← look slot
  if valid then pure ()
  else do
    let d ← load slot
    if d.type = 0 then panic else pure ()

def ilock (slot : Slot) : C Unit := do
  let ref ← getRef slot
  if ref < 1 then panic
  else do
    acquiresleep slot
    ifill slot

def iunlock (slot : Slot) : C Unit := do
  let holding ← holdingsleep slot
  let ref ← getRef slot
  if holding = false ∨ ref < 1 then panic
  else releasesleep slot

def iallocLoop (dev : Nat) (type : BitVec 16) : List Nat → C Slot
  | [] => panic
  | inum :: rest => do
    let claimed ← claim dev inum type
    if claimed then iget dev inum else iallocLoop dev type rest

def ialloc (ninodes dev : Nat) (type : BitVec 16) : C Slot :=
  iallocLoop dev type ((List.range ninodes).drop 1)

/-- The entry of `addrs` for the block `bn` of a file. -/
def addrOf (bn : Nat) : Fin (NDIRECT + 1) :=
  if inside : bn < NDIRECT then ⟨bn, Nat.lt_succ_of_lt inside⟩ else Fs.last

def setAddr (k : Fin (NDIRECT + 1)) (addr : Nat) (d : Dinode) : Dinode :=
  { d with addrs := update d.addrs k addr }

/-- `if((addr = ip->addrs[k]) == 0) ip->addrs[k] = addr = balloc(ip->dev)`. -/
def bmapAddr (slot : Slot) (k : Fin (NDIRECT + 1)) : C Nat := do
  let (_, d) ← look slot
  if d.addrs k = 0 then do
    let addr ← balloc
    modify slot (setAddr k addr)
    pure addr
  else pure (d.addrs k)

def bmap (slot : Slot) (bn : Nat) : C Nat :=
  if bn < NDIRECT then bmapAddr slot (addrOf bn)
  else if bn < MAXFILE then do
    let _ ← bmapAddr slot (addrOf bn)
    let addr ← indirect
    if addr = 0 then balloc else pure addr
  else panic

/-- An iteration of the loop of `itrunc`, and the end of it for the indirect block. -/
def itruncAddr (slot : Slot) (k : Fin (NDIRECT + 1)) : C Unit := do
  let (_, d) ← look slot
  if d.addrs k = 0 then pure () else modify slot (setAddr k 0)

def itruncLoop (slot : Slot) : List (Fin (NDIRECT + 1)) → C Unit
  | [] => pure ()
  | k :: rest => do
    itruncAddr slot k
    itruncLoop slot rest

def itrunc (slot : Slot) : C Unit := do
  itruncLoop slot (List.finRange (NDIRECT + 1))
  modify slot fun d => { d with size := 0 }
  iupdate slot

def ifree (slot : Slot) : C Unit := do
  itrunc slot
  modify slot fun d => { d with type := 0 }
  iupdate slot
  invalidate slot

def ifreeIfLast (slot : Slot) : C Unit := do
  let (valid, d) ← look slot
  if valid ∧ d.nlink = 0 then do
    let r ← getRef slot
    if r = 1 then ifree slot else pure ()
  else pure ()

def iput (slot : Slot) : C Unit := do
  acquiresleep slot
  ifreeIfLast slot
  releasesleep slot
  decRef slot

def iunlockput (slot : Slot) : C Unit := do
  iunlock slot
  iput slot

/-- A function of `devsw`, if there is one. The ones of the console give up the lock of the
inode while they wait. -/
def callDevice (slot : Slot) : C Int := do
  let result ← device
  match result with
  | none => pure (-1)
  | some result => do
    iunlock slot
    ilock slot
    pure result

def readLoop (slot : Slot) : (rounds off n : Nat) → C Unit
  | 0, _, _ => pure ()
  | rounds + 1, off, n =>
    if n = 0 then pure ()
    else do
      let _ ← bmap slot (off / BSIZE)
      let m := min n (BSIZE - off % BSIZE)
      readLoop slot rounds (off + m) (n - m)

def readi (slot : Slot) (off n : Nat) : C Int := do
  let (_, d) ← look slot
  if d.type = T_DEV then callDevice slot
  else if d.size < off ∨ uintAdd off n < off then pure (-1)
  else do
    let n := if d.size < off + n then d.size - off else n
    readLoop slot n off n
    pure n

/-- The end of `writei`: `off` is the offset behind the bytes written. -/
def writeSize (slot : Slot) (n off : Nat) : C Unit := do
  let (_, d) ← look slot
  if 0 < n ∧ d.size < off then do
    modify slot fun d => { d with size := off }
    iupdate slot
  else pure ()

/-- `writei`. Its loop maps the same blocks as that of `readi`. -/
def writei (slot : Slot) (off n : Nat) : C Int := do
  let (_, d) ← look slot
  if d.type = T_DEV then callDevice slot
  else if d.size < off ∨ uintAdd off n < off then pure (-1)
  else if MAXFILE * BSIZE < off + n then pure (-1)
  else do
    readLoop slot n off n
    writeSize slot n (off + n)
    pure n

def readDirent (slot : Slot) (off : Nat) : C Dirent := do
  let read ← readi slot off DIRENT
  if read = DIRENT then dirent else panic

def dirlookupLoop (slot : Slot) (name : List UInt8) : List Nat → C (Option (Slot × Nat))
  | [] => pure none
  | off :: rest => do
    let de ← readDirent slot off
    if de.inum ≠ 0 ∧ Fs.namecmp name de.name then do
      let (dev, _) ← ident slot
      let ip ← iget dev de.inum
      pure (some (ip, off))
    else dirlookupLoop slot name rest

def dirlookup (slot : Slot) (name : List UInt8) : C (Option (Slot × Nat)) := do
  let (_, d) ← look slot
  if d.type = T_DIR then dirlookupLoop slot name (Fs.entryOffsets d.size) else panic

def emptyEntry (slot : Slot) (behind : Nat) : List Nat → C Nat
  | [] => pure behind
  | off :: rest => do
    let de ← readDirent slot off
    if de.inum = 0 then pure off else emptyEntry slot behind rest

def addEntry (slot : Slot) : C Int := do
  let (_, d) ← look slot
  let off ← emptyEntry slot (DIRENT * (Fs.entryOffsets d.size).length) (Fs.entryOffsets d.size)
  let written ← writei slot off DIRENT
  if written = DIRENT then pure 0 else panic

def dirlink (slot : Slot) (name : List UInt8) : C Int := do
  let found ← dirlookup slot name
  match found with
  | some (ip, _) => do
    iput ip
    pure (-1)
  | none => addEntry slot

def namexEnd (parent : Bool) (ip : Slot) (name : List UInt8) : C (Option (Slot × List UInt8)) :=
  if parent then do
    iput ip
    pure none
  else pure (some (ip, name))

def namexLoop (parent : Bool) :
    (rounds : Nat) → Slot → (path name : List UInt8) → C (Option (Slot × List UInt8))
  | 0, ip, _, name => namexEnd parent ip name
  | rounds + 1, ip, path, name =>
    match Fs.skipelem path with
    | none => namexEnd parent ip name
    | some (path, name) => do
      ilock ip
      let (_, d) ← look ip
      if d.type ≠ T_DIR then do
        iunlockput ip
        pure none
      else if parent ∧ path = [] then do
        iunlock ip
        pure (some (ip, name))
      else do
        let found ← dirlookup ip name
        match found with
        | none => do
          iunlockput ip
          pure none
        | some (next, _) => do
          iunlockput ip
          namexLoop parent rounds next path name

def namexStart (cwd : Slot) (path : List UInt8) : C Slot :=
  if path.head? = some Fs.slash then iget ROOTDEV ROOTINO else idup cwd

def namex (cwd : Slot) (path : List UInt8) (parent : Bool) : C (Option (Slot × List UInt8)) := do
  let ip ← namexStart cwd path
  namexLoop parent path.length ip path []

def addLinks (slot : Slot) (count : BitVec 16) : C Unit := do
  modify slot fun d => { d with nlink := d.nlink + count }
  iupdate slot

def createFound (dp ip : Slot) (type : BitVec 16) : C (Option Slot) := do
  iunlockput dp
  ilock ip
  let (_, d) ← look ip
  if type = T_FILE ∧ d.type = T_FILE then pure (some ip)
  else do
    iunlockput ip
    pure none

def createDots (dp ip : Slot) (type : BitVec 16) : C Unit :=
  if type = T_DIR then do
    addLinks dp 1
    let dot ← dirlink ip Fs.dot
    if dot < 0 then panic
    else do
      let dotdot ← dirlink ip Fs.dotdot
      if dotdot < 0 then panic else pure ()
  else pure ()

def createNew (ninodes : Nat) (dp : Slot) (name : List UInt8) (type major minor : BitVec 16) :
    C (Option Slot) := do
  let (dev, _) ← ident dp
  let ip ← ialloc ninodes dev type
  ilock ip
  modify ip fun d => { d with major, minor, nlink := 1 }
  iupdate ip
  createDots dp ip type
  let linked ← dirlink dp name
  if linked < 0 then panic
  else do
    iunlockput dp
    pure (some ip)

def create (ninodes : Nat) (cwd : Slot) (path : List UInt8) (type major minor : BitVec 16) :
    C (Option Slot) := do
  let parent ← namex cwd path true
  match parent with
  | none => pure none
  | some (dp, name) => do
    ilock dp
    let found ← dirlookup dp name
    match found with
    | some (ip, _) => createFound dp ip type
    | none => createNew ninodes dp name type major minor

def linkBad (ip : Slot) : C Unit := do
  ilock ip
  addLinks ip (-1)
  iunlockput ip

def linkInto (ip dp : Slot) (name : List UInt8) : C Unit := do
  ilock dp
  let (dev, _) ← ident dp
  let (dev', _) : Nat × Nat ← ident ip
  if dev ≠ dev' then do
    iunlockput dp
    linkBad ip
  else do
    let linked ← dirlink dp name
    if linked < 0 then do
      iunlockput dp
      linkBad ip
    else do
      iunlockput dp
      iput ip

def sysLink (cwd : Slot) (old new : List UInt8) : C Unit := do
  let found ← namex cwd old false
  match found with
  | none => pure ()
  | some (ip, _) => do
    ilock ip
    let (_, d) ← look ip
    if d.type = T_DIR then iunlockput ip
    else do
      addLinks ip 1
      iunlock ip
      let parent ← namex cwd new true
      match parent with
      | none => linkBad ip
      | some (dp, name) => linkInto ip dp name

def isdiremptyLoop (slot : Slot) : List Nat → C Bool
  | [] => pure true
  | off :: rest => do
    let de ← readDirent slot off
    if de.inum ≠ 0 then pure false else isdiremptyLoop slot rest

def isdirempty (slot : Slot) : C Bool := do
  let (_, d) ← look slot
  isdiremptyLoop slot ((Fs.entryOffsets d.size).drop 2)

/-- The part of `sys_unlink` that removes the entry at `off`. -/
def unlinkEntry (dp ip : Slot) (off : Nat) : C Unit := do
  let written ← writei dp off DIRENT
  if written ≠ DIRENT then panic
  else do
    let (_, d) ← look ip
    if d.type = T_DIR then addLinks dp (-1) else pure ()
    iunlockput dp
    addLinks ip (-1)
    iunlockput ip

/-- Whether `sys_unlink` goes on: the inode is not a directory with entries. -/
def unlinkable (ip : Slot) : C Bool := do
  let (_, d) ← look ip
  if d.nlink.toInt < 1 then panic
  else if d.type = T_DIR then isdirempty ip
  else pure true

def unlinkFound (dp ip : Slot) (off : Nat) : C Unit := do
  ilock ip
  let able ← unlinkable ip
  if able then unlinkEntry dp ip off
  else do
    iunlockput ip
    iunlockput dp

def sysUnlink (cwd : Slot) (path : List UInt8) : C Unit := do
  let parent ← namex cwd path true
  match parent with
  | none => pure ()
  | some (dp, name) => do
    ilock dp
    if Fs.namecmp name Fs.dot || Fs.namecmp name Fs.dotdot then iunlockput dp
    else do
      let found ← dirlookup dp name
      match found with
      | none => iunlockput dp
      | some (ip, off) => unlinkFound dp ip off

/-- What a process calls. `cwd` is its current directory. -/
inductive Call where
  | iget (dev inum : Nat)
  | idup (slot : Slot)
  | ilock (slot : Slot)
  | iunlock (slot : Slot)
  | iput (slot : Slot)
  | ialloc (dev : Nat) (type : BitVec 16)
  | readi (slot : Slot) (off n : Nat)
  | writei (slot : Slot) (off n : Nat)
  | create (cwd : Slot) (path : List UInt8) (type major minor : BitVec 16)
  | link (cwd : Slot) (old new : List UInt8)
  | unlink (cwd : Slot) (path : List UInt8)

def discard {Value : Type} (code : C Value) : C Unit := do
  let _ ← code
  pure ()

def Call.code (ninodes : Nat) : Call → C Unit
  | .iget dev inum => discard (ICache.iget dev inum)
  | .idup slot => discard (ICache.idup slot)
  | .ilock slot => ICache.ilock slot
  | .iunlock slot => ICache.iunlock slot
  | .iput slot => ICache.iput slot
  | .ialloc dev type => discard (ICache.ialloc ninodes dev type)
  | .readi slot off n => discard (ICache.readi slot off n)
  | .writei slot off n => discard (ICache.writei slot off n)
  | .create cwd path type major minor => discard (ICache.create ninodes cwd path type major minor)
  | .link cwd old new => sysLink cwd old new
  | .unlink cwd path => sysUnlink cwd path

/-- What the callers of these functions see to: they have a reference to the inodes that
they name, and the lock of one that they read or write; a new inode gets a type. -/
def Call.enabled {P : Type} [DecidableEq P] (p : P) (s : State P) : Call → Bool
  | .iget _ _ | .iunlock _ => true
  | .idup slot | .ilock slot | .iput slot | .link slot _ _ | .unlink slot _ => 0 < s.held p slot
  | .ialloc _ type => type ≠ 0
  | .readi slot _ _ | .writei slot _ _ => (s.icache slot).lock = some p
  | .create cwd _ type _ _ => 0 < s.held p cwd && type ≠ 0

def engine (P : Type) [DecidableEq P] (ninodes : Nat) :
    Engine P Call Choice Op Op.Answer (State P) where
  exec := exec
  start p call s := if call.enabled p s then some (call.code ninodes) else none

def State.boot {P : Type} (disk : (dev inum : Nat) → Dinode) : State P where
  icache := fun _ => ⟨0, 0, 0, none, false, Dinode.zero, 0⟩
  disk := fun dev inum => ⟨disk dev inum, 0⟩
  held := fun _ _ => 0

end Xv6.ICache
