import Xv6.Fs.Format
import Xv6.Lib.Prog

/-!
Contract: `fs.c` from the block allocator to the contents of inodes.

A program runs alone, from one system call to the next. `disk` is what `bread`
returns, whether a block's newest contents are in the buffer cache, in the log or
at home; `logWrite` is a store to a buffer and its `log_write`. There is one device,
so `dev` is left out. A sleep-lock that is held is never released while its would-be
holder waits, so to wait for it is to halt. `trace` lists what happened, newest
first; no code reads it but the devices, whose results may differ from call to call.
-/

namespace Xv6.Fs

open Function Xv6.Lib

abbrev Slot := Fin NINODE

abbrev ProcId := Fin NPROC

/-- `struct inode`. `lock` is the process that holds its sleep-lock, `copy` the copy
of the disk inode. -/
structure Inode where
  inum : Nat
  ref : Int
  lock : Option ProcId
  valid : Bool
  copy : Dinode

/-- An entry of `devsw`: what its functions return when they are called at the time
`now`. -/
structure Device where
  read : Option (Nat → Nat → Int)
  write : Option (Nat → List UInt8 → Int)

/-- On whose behalf `bmap` allocates. -/
inductive Caller where
  | readi
  | writei
deriving DecidableEq

inductive Event where
  | beginOp
  | endOp
  | logWrite (b : Nat)
  | balloc (caller : Caller) (b : Nat)
  | bfree (b : Nat)
  | iput (slot : Slot)
  | device
deriving DecidableEq

structure FsState where
  disk : Disk
  sb : Superblock
  icache : Slot → Inode
  devsw : Fin NDEV → Device
  trace : List Event

/-- The panics, and a process that waits for a sleep-lock for ever. -/
inductive Halt where
  | ballocOutOfBlocks
  | freeingFreeBlock
  | iallocNoInodes
  | igetNoInodes
  | ilock
  | ilockNoType
  | iunlock
  | bmapOutOfRange
  | dirlookupNotDir
  | dirlookupRead
  | dirlinkRead
  | dirlink
  | isdiremptyReadi
  | unlinkNlink
  | unlinkWritei
  | createDots
  | createDirlink
  | filedup
  | fileclose
  | fileread
  | filewrite
  | shortFilewrite
  | sleepsForEver
deriving DecidableEq

abbrev FsM := Prog FsState Halt

def record (event : Event) : FsM Unit :=
  Prog.modify fun s => { s with trace := event :: s.trace }

def setInode (slot : Slot) (change : Inode → Inode) : FsM Unit :=
  Prog.modify fun s =>
    { s with icache := update s.icache slot (change (s.icache slot)) }

def setCopy (slot : Slot) (change : Dinode → Dinode) : FsM Unit :=
  setInode slot fun ip => { ip with copy := change ip.copy }

def setAddr (slot : Slot) (k : Fin (NDIRECT + 1)) (addr : Nat) : FsM Unit :=
  setCopy slot fun copy => { copy with addrs := update copy.addrs k addr }

def bread (b : Nat) : FsM Block := do
  let s ← Prog.get
  pure (s.disk b)

def logWrite (b : Nat) (data : Block) : FsM Unit :=
  Prog.modify fun s =>
    { s with disk := update s.disk b data, trace := .logWrite b :: s.trace }

def bzero (b : Nat) : FsM Unit := logWrite b Bytes.zero

/-- The two loops visit the blocks in order. -/
def balloc (caller : Caller) : FsM Nat := do
  let s ← Prog.get
  match (List.range s.sb.size).find? fun b => !bitAt s.sb s.disk b with
  | some b => do
    record (.balloc caller b)
    logWrite (BBLOCK b s.sb) ((s.disk (BBLOCK b s.sb)).setBit (b % BPB))
    bzero b
    pure b
  | none => Prog.halt .ballocOutOfBlocks

def bfree (b : Nat) : FsM Unit := do
  Prog.modify fun s => { s with sb := readsb s.disk }
  let s ← Prog.get
  if bitAt s.sb s.disk b then do
    record (.bfree b)
    logWrite (BBLOCK b s.sb) ((s.disk (BBLOCK b s.sb)).clearBit (b % BPB))
  else Prog.halt .freeingFreeBlock

def iget (inum : Nat) : FsM Slot := do
  let s ← Prog.get
  match (List.finRange NINODE).find? fun slot =>
      0 < (s.icache slot).ref ∧ (s.icache slot).inum = inum with
  | some slot => do
    setInode slot fun ip => { ip with ref := ip.ref + 1 }
    pure slot
  | none =>
    match (List.finRange NINODE).find? fun slot => (s.icache slot).ref = 0 with
    | some slot => do
      setInode slot fun ip => { ip with inum := inum, ref := 1, valid := false }
      pure slot
    | none => Prog.halt .igetNoInodes

def ialloc (type : BitVec 16) : FsM Slot := do
  let s ← Prog.get
  match (List.range' 1 (s.sb.ninodes - 1)).find? fun inum =>
      (dinodeAt s.sb s.disk inum).type = 0 with
  | some inum => do
    logWrite (IBLOCK inum s.sb)
      (setDinode (s.disk (IBLOCK inum s.sb)) (inum % IPB) { Dinode.zero with type })
    iget inum
  | none => Prog.halt .iallocNoInodes

def iupdate (slot : Slot) : FsM Unit := do
  let s ← Prog.get
  let ip := s.icache slot
  logWrite (IBLOCK ip.inum s.sb)
    (setDinode (s.disk (IBLOCK ip.inum s.sb)) (ip.inum % IPB) ip.copy)

def idup (slot : Slot) : FsM Slot := do
  setInode slot fun ip => { ip with ref := ip.ref + 1 }
  pure slot

def acquiresleep (p : ProcId) (slot : Slot) : FsM Unit := do
  let s ← Prog.get
  if (s.icache slot).lock = none then setInode slot fun ip => { ip with lock := some p }
  else Prog.halt .sleepsForEver

def releasesleep (slot : Slot) : FsM Unit := setInode slot fun ip => { ip with lock := none }

/-- The part of `ilock` that reads the inode from disk. -/
def ifill (slot : Slot) : FsM Unit := do
  let s ← Prog.get
  let copy := dinodeAt s.sb s.disk (s.icache slot).inum
  setInode slot fun ip => { ip with copy := copy, valid := true }
  if copy.type = 0 then Prog.halt .ilockNoType else pure ()

def ilock (p : ProcId) (slot : Slot) : FsM Unit := do
  let s ← Prog.get
  if (s.icache slot).ref < 1 then Prog.halt .ilock
  else do
    acquiresleep p slot
    if (s.icache slot).valid then pure () else ifill slot

def iunlock (p : ProcId) (slot : Slot) : FsM Unit := do
  let s ← Prog.get
  if (s.icache slot).lock ≠ some p ∨ (s.icache slot).ref < 1 then Prog.halt .iunlock
  else releasesleep slot

/-- The address in a slot of `ip->addrs`, allocated if there is none. -/
def bmapSlot (caller : Caller) (slot : Slot) (k : Fin (NDIRECT + 1)) : FsM Nat := do
  let s ← Prog.get
  if (s.icache slot).copy.addrs k = 0 then do
    let addr ← balloc caller
    setAddr slot k addr
    pure addr
  else pure ((s.icache slot).copy.addrs k)

/-- The address in an entry of the indirect block `addr`, allocated if there is
none. -/
def bmapEntry (caller : Caller) (addr j : Nat) : FsM Nat := do
  let bp ← bread addr
  if bp.getLe (4 * j) 4 = 0 then do
    let new ← balloc caller
    let bp ← bread addr
    logWrite addr (bp.setLe (4 * j) 4 new)
    pure new
  else pure (bp.getLe (4 * j) 4)

def bmap (caller : Caller) (slot : Slot) (bn : Nat) : FsM Nat :=
  if direct : bn < NDIRECT then bmapSlot caller slot ⟨bn, Nat.lt_succ_of_lt direct⟩
  else if bn - NDIRECT < NINDIRECT then do
    let addr ← bmapSlot caller slot last
    bmapEntry caller addr (bn - NDIRECT)
  else Prog.halt .bmapOutOfRange

def itruncSlot (slot : Slot) (k : Fin NDIRECT) : FsM Unit := do
  let s ← Prog.get
  if (s.icache slot).copy.addrs k.castSucc ≠ 0 then do
    bfree ((s.icache slot).copy.addrs k.castSucc)
    setAddr slot k.castSucc 0
  else pure ()

def itruncEntry (a : Block) (j : Nat) : FsM Unit :=
  if a.getLe (4 * j) 4 ≠ 0 then bfree (a.getLe (4 * j) 4) else pure ()

def itruncIndirect (slot : Slot) : FsM Unit := do
  let s ← Prog.get
  let addr := (s.icache slot).copy.addrs last
  if addr ≠ 0 then do
    let a ← bread addr
    Prog.forEach (itruncEntry a) (List.range NINDIRECT)
    bfree addr
    setAddr slot last 0
  else pure ()

def itrunc (slot : Slot) : FsM Unit := do
  Prog.forEach (itruncSlot slot) (List.finRange NDIRECT)
  itruncIndirect slot
  setCopy slot fun copy => { copy with size := 0 }
  iupdate slot

/-- The part of `iput` that frees an inode without links and other references. -/
def ifree (slot : Slot) : FsM Unit := do
  itrunc slot
  setCopy slot fun copy => { copy with type := 0 }
  iupdate slot
  setInode slot fun ip => { ip with valid := false }

def ifreeIfLast (slot : Slot) : FsM Unit := do
  let s ← Prog.get
  let ip := s.icache slot
  if ip.valid ∧ ip.copy.nlink = 0 ∧ ip.ref = 1 then ifree slot else pure ()

def iput (p : ProcId) (slot : Slot) : FsM Unit := do
  record (.iput slot)
  acquiresleep p slot
  ifreeIfLast slot
  releasesleep slot
  setInode slot fun ip => { ip with ref := ip.ref - 1 }

def iunlockput (p : ProcId) (slot : Slot) : FsM Unit := do
  iunlock p slot
  iput p slot

def device (devsw : Fin NDEV → Device) (major : BitVec 16) : Option Device :=
  if inside : 0 ≤ major.toInt ∧ major.toInt.toNat < NDEV then
    some (devsw ⟨major.toInt.toNat, inside.2⟩)
  else none

def uintAdd (a b : Nat) : Nat := (a + b) % 2 ^ 32

/-- The loop of `readi`, with `n` bytes left to read at `off`. Every round reads at
least one byte, so `n` rounds are enough. -/
def readLoop (slot : Slot) : (rounds off n : Nat) → FsM (List UInt8)
  | 0, _, _ => pure []
  | rounds + 1, off, n =>
    if n = 0 then pure []
    else do
      let addr ← bmap .readi slot (off / BSIZE)
      let bp ← bread addr
      let m := min n (BSIZE - off % BSIZE)
      let rest ← readLoop slot rounds (off + m) (n - m)
      pure (bp.slice (off % BSIZE) m ++ rest)

/-- What `readi` returns and the bytes it copies to `dst`. -/
def readi (slot : Slot) (off n : Nat) : FsM (Int × List UInt8) := do
  let s ← Prog.get
  let copy := (s.icache slot).copy
  if copy.type = T_DEV then
    match (device s.devsw copy.major).bind Device.read with
    | none => pure (-1, [])
    | some read => do
      record .device
      pure (read s.trace.length n, [])
  else if copy.size < off ∨ uintAdd off n < off then pure (-1, [])
  else do
    let n := if copy.size < off + n then copy.size - off else n
    let bytes ← readLoop slot n off n
    pure (n, bytes)

/-- The loop of `writei`, with the bytes `src` left to write at `off`. -/
def writeLoop (slot : Slot) : (rounds off : Nat) → (src : List UInt8) → FsM Unit
  | 0, _, _ => pure ()
  | rounds + 1, off, src =>
    if src.length = 0 then pure ()
    else do
      let addr ← bmap .writei slot (off / BSIZE)
      let bp ← bread addr
      let m := min src.length (BSIZE - off % BSIZE)
      logWrite addr (bp.splice (off % BSIZE) (src.take m))
      writeLoop slot rounds (off + m) (src.drop m)

/-- The end of `writei`: `off` is the offset behind the bytes written. -/
def writeSize (slot : Slot) (n off : Nat) : FsM Unit := do
  let s ← Prog.get
  if 0 < n ∧ (s.icache slot).copy.size < off then do
    setCopy slot fun copy => { copy with size := off }
    iupdate slot
  else pure ()

def writei (slot : Slot) (src : List UInt8) (off : Nat) : FsM Int := do
  let s ← Prog.get
  let copy := (s.icache slot).copy
  let n := src.length
  if copy.type = T_DEV then
    match (device s.devsw copy.major).bind Device.write with
    | none => pure (-1)
    | some write => do
      record .device
      pure (write s.trace.length src)
  else if copy.size < off ∨ uintAdd off n < off then pure (-1)
  else if MAXFILE * BSIZE < off + n then pure (-1)
  else do
    writeLoop slot n off src
    writeSize slot n (off + n)
    pure n

end Xv6.Fs
