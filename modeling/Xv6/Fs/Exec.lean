import Xv6.Fs.Names

/-!
Contract: `exec`, as far as it uses the file system.

The memory of the new image is not modelled. What `exec` learns from it is an argument:
whether `setupkvm`, the allocations of `allocuvm` and the copies of `copyout` succeed,
and what stands in a buffer where `readi` copies nothing, which is how a device fills
it. `loaduvm` finds every page, since `allocuvm` has mapped all of them.

Owns: `exec` and `loaduvm`.

Does not own: the page tables and the registers of the caller.
-/

namespace Xv6.Fs

open Xv6.Lib

def PGSIZE : Nat := 4096

def KERNBASE : Nat := 0x80000000

def MAXARG : Nat := 32

def ELF_MAGIC : Nat := 0x464C457F

def ELF_PROG_LOAD : Nat := 1

/-- The fields of `struct elfhdr` that say what to read. -/
structure Elfhdr where
  magic : Nat
  phoff : Nat
  phnum : Nat

def ELFHDR : Nat := 52

/-- The fields of `struct proghdr` that `exec` reads. -/
structure Proghdr where
  type : Nat
  off : Nat
  vaddr : Nat
  filesz : Nat
  memsz : Nat

def PROGHDR : Nat := 32

/-- The little-endian number in `width` bytes at `offset`. -/
def field (bytes : List UInt8) (offset width : Nat) : Nat :=
  ((bytes.drop offset).take width).foldr (fun byte rest => byte.toNat + 256 * rest) 0

def decodeElfhdr (bytes : List UInt8) : Elfhdr where
  magic := field bytes 0 4
  phoff := field bytes 28 4
  phnum := field bytes 44 2

def decodeProghdr (bytes : List UInt8) : Proghdr where
  type := field bytes 0 4
  off := field bytes 4 4
  vaddr := field bytes 8 4
  filesz := field bytes 16 4
  memsz := field bytes 20 4

/-- What `exec` learns from the memory. The bytes in a buffer may differ from one time
`now` to the next. -/
structure Memory where
  setupkvm : Bool
  kalloc : (oldsz newsz : Nat) → Bool
  copyout : (va len : Nat) → Bool
  buffer : (now : Nat) → List UInt8

/-- The buffer after `readi` has copied `bytes` to its beginning. -/
def fill (memory : Memory) (bytes : List UInt8) : FsM (List UInt8) := do
  let s ← Prog.get
  pure (bytes ++ (memory.buffer s.trace.length).drop bytes.length)

def pgroundup (sz : Nat) : Nat := (sz + (PGSIZE - 1)) % 2 ^ 32 / PGSIZE * PGSIZE

def allocuvm (memory : Memory) (oldsz newsz : Nat) : Nat :=
  if KERNBASE ≤ newsz then 0
  else if newsz < oldsz then oldsz
  else if newsz ≤ pgroundup oldsz ∨ memory.kalloc oldsz newsz then newsz
  else 0

def pageOffsets (sz : Nat) : List Nat := (List.range ((sz + (PGSIZE - 1)) / PGSIZE)).map (PGSIZE * ·)

/-- The loop of `loaduvm`: whether every page could be read. -/
def loaduvmLoop (ip : Slot) (offset sz : Nat) : List Nat → FsM Bool
  | [] => pure true
  | i :: rest => do
    let n := if sz - i < PGSIZE then sz - i else PGSIZE
    let read ← readi ip (uintAdd offset i) n
    if read.1 ≠ n then pure false else loaduvmLoop ip offset sz rest

def loaduvm (ip : Slot) (offset sz : Nat) : FsM Bool :=
  loaduvmLoop ip offset sz (pageOffsets sz)

/-- One segment; the size of the image with it, or `none` for `goto bad`. -/
def execSegment (memory : Memory) (ip : Slot) (ph : Proghdr) (sz : Nat) : FsM (Option Nat) :=
  if ph.type ≠ ELF_PROG_LOAD then pure (some sz)
  else if ph.memsz < ph.filesz then pure none
  else if uintAdd ph.vaddr ph.memsz < ph.vaddr then pure none
  else if allocuvm memory sz (uintAdd ph.vaddr ph.memsz) = 0 then pure none
  else if ph.vaddr % PGSIZE ≠ 0 then pure none
  else do
    let loaded ← loaduvm ip ph.off ph.filesz
    pure (if loaded then some (allocuvm memory sz (uintAdd ph.vaddr ph.memsz)) else none)

/-- The loop over the program headers, with `count` of them left at `off`. -/
def execSegments (memory : Memory) (ip : Slot) : (count off sz : Nat) → FsM (Option Nat)
  | 0, _, sz => pure (some sz)
  | count + 1, off, sz => do
    let read ← readi ip off PROGHDR
    if read.1 ≠ PROGHDR then pure none
    else do
      let bytes ← fill memory read.2
      let loaded ← execSegment memory ip (decodeProghdr bytes) sz
      match loaded with
      | none => pure none
      | some sz => execSegments memory ip count (uintAdd off PROGHDR) sz

/-- The part of `exec` with the inode `ip` locked; the size of the image, or `none`
for `goto bad`. -/
def execLoad (memory : Memory) (ip : Slot) : FsM (Option Nat) := do
  let read ← readi ip 0 ELFHDR
  if read.1 ≠ ELFHDR then pure none
  else do
    let bytes ← fill memory read.2
    let elf := decodeElfhdr bytes
    if elf.magic ≠ ELF_MAGIC then pure none
    else if memory.setupkvm = false then pure none
    else execSegments memory ip elf.phnum elf.phoff 0

/-- The loop over the arguments; the stack pointer behind it, or `none` for
`goto bad`. -/
def execArgs (memory : Memory) : (argc : Nat) → (argv : List (List UInt8)) → (sp : Nat) → Option Nat
  | _, [], sp => some sp
  | argc, arg :: rest, sp =>
    if MAXARG ≤ argc then none
    else
      let sp := (sp + 2 ^ 32 - (arg.length + 1)) % 2 ^ 32 / 4 * 4
      if memory.copyout sp (arg.length + 1) then execArgs memory (argc + 1) rest sp else none

/-- The part of `exec` after the file has been read: whether it reaches its end. -/
def execStack (memory : Memory) (argv : List (List UInt8)) (sz : Nat) : Bool :=
  let sz := pgroundup sz
  let sz' := allocuvm memory sz (uintAdd sz (2 * PGSIZE))
  if sz' = 0 then false
  else
    match execArgs memory 0 argv sz' with
    | none => false
    | some sp => memory.copyout ((sp + 2 ^ 32 - (3 + argv.length + 1) * 4) % 2 ^ 32)
        ((3 + argv.length + 1) * 4)

def exec (memory : Memory) (p : ProcId) (cwd : Slot) (path : List UInt8)
    (argv : List (List UInt8)) : FsM Int := do
  record .beginOp
  let found ← namei p cwd path
  match found with
  | none => do
    record .endOp
    pure (-1)
  | some ip => do
    ilock p ip
    let loaded ← execLoad memory ip
    iunlockput p ip
    record .endOp
    match loaded with
    | none => pure (-1)
    | some sz => pure (if execStack memory argv sz then 0 else -1)

end Xv6.Fs
