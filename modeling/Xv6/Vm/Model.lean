import Xv6.Lib.Prog
import Xv6.Lib.Radix
import Xv6.Lib.System

/-!
Contract: the address spaces of `vm.c`, over a memory of pages.

A page is named by its number, `PTE_ADDR` divided by `PGSIZE`, and its words are those of a
page directory or a page table, split into `PTE_ADDR` and `PTE_FLAGS`. Virtual addresses are
numbers of pages as well, below 2^20, and the ranges of `mappages` are whole pages: `data` is
at the beginning of a page. The sizes of processes are bytes. The free list of `kalloc.c` is
the list of its pages. `fails` says for the next calls of `kalloc` whether they fail although
there are pages.

Does not own: what the pages contain otherwise.
-/

namespace Xv6.Vm

open Xv6.Lib

def PGSIZE : Nat := 4096
def EXTMEM : Nat := 0x100000
def PHYSTOP : Nat := 0xE000000
def DEVSPACE : Nat := 0xFE000000
def KERNBASE : Nat := 0x80000000
def KERNLINK : Nat := KERNBASE + EXTMEM

def NPAGES : Nat := 2 ^ 20

abbrev Index := Fin 1024

def PDX (v : Nat) : Index := Fin.ofNat 1024 (v / 1024)

def PTX (v : Nat) : Index := Fin.ofNat 1024 v

def PTE_P : BitVec 12 := 0x001
def PTE_W : BitVec 12 := 0x002
def PTE_U : BitVec 12 := 0x004

structure Pte where
  page : Nat
  flags : BitVec 12
deriving DecidableEq

def Pte.zero : Pte := ⟨0, 0⟩

def Pte.present (e : Pte) : Bool := e.flags &&& PTE_P ≠ 0

/-- What the linker script decides: the page of `data`, and the first page behind `end`. -/
structure Layout where
  data : Nat
  first : Nat
  text : EXTMEM / PGSIZE < data
  bss : data ≤ first
  memory : first < PHYSTOP / PGSIZE

/-- `struct kmap` in pages. `count` is `phys_end - phys_start`. -/
structure Kmap where
  virt : Nat
  phys : Nat
  count : Nat
  perm : BitVec 12

def kmap (layout : Layout) : List Kmap :=
  [⟨KERNBASE / PGSIZE, 0, EXTMEM / PGSIZE, PTE_W⟩,
    ⟨KERNLINK / PGSIZE, EXTMEM / PGSIZE, layout.data - EXTMEM / PGSIZE, 0⟩,
    ⟨KERNBASE / PGSIZE + layout.data, layout.data, PHYSTOP / PGSIZE - layout.data, PTE_W⟩,
    ⟨DEVSPACE / PGSIZE, DEVSPACE / PGSIZE, NPAGES - DEVSPACE / PGSIZE, PTE_W⟩]

structure State where
  mem : Nat → Index → Pte
  freelist : List Nat
  fails : List Bool

/-- The panics of these functions. `forever` is a loop that does not end. -/
inductive Panic where
  | kfree
  | remap
  | phystopTooHigh
  | noPgdir
  | clearpteu
  | pteShouldExist
  | pageNotPresent
  | forever
deriving DecidableEq

abbrev M := Prog State Panic

def load (page : Nat) (i : Index) : M Pte := do
  let s ← Prog.get
  pure (s.mem page i)

def store (page : Nat) (i : Index) (e : Pte) : M Unit :=
  Prog.modify fun s => { s with mem := write s.mem page i e }

def fill (page : Nat) (words : Index → Pte) : M Unit :=
  Prog.modify fun s => { s with mem := Function.update s.mem page words }

def clear (page : Nat) : M Unit := fill page fun _ => Pte.zero

def copyPage (new old : Nat) : M Unit :=
  Prog.modify fun s => { s with mem := Function.update s.mem new (s.mem old) }

/-- Whether the next call of `kalloc` is to fail. -/
def nextFails : M Bool := do
  let s ← Prog.get
  Prog.modify fun s => { s with fails := s.fails.tail }
  pure (s.fails.headD false)

def kalloc : M (Option Nat) := do
  let fail ← nextFails
  let s ← Prog.get
  match s.freelist with
  | [] => pure none
  | page :: rest =>
    if fail then pure none
    else do
      Prog.modify fun s => { s with freelist := rest }
      pure (some page)

/-- The words of a page that `kfree` has filled with 1. -/
def junk : Index → Pte := fun _ => ⟨0x01010, 0x101⟩

def kfree (layout : Layout) (page : Nat) : M Unit :=
  if page < layout.first ∨ PHYSTOP / PGSIZE ≤ page then Prog.halt .kfree
  else do
    fill page junk
    Prog.modify fun s => { s with freelist := page :: s.freelist }

/-- The place of the entry for the virtual page `v`. -/
def walkpgdir (pgdir v : Nat) (alloc : Bool) : M (Option (Nat × Index)) := do
  let pde ← load pgdir (PDX v)
  if pde.present then pure (some (pde.page, PTX v))
  else if alloc then do
    let pgtab ← kalloc
    match pgtab with
    | none => pure none
    | some pgtab => do
      clear pgtab
      store pgdir (PDX v) ⟨pgtab, PTE_P ||| PTE_W ||| PTE_U⟩
      pure (some (pgtab, PTX v))
  else pure none

/-- The body of the loop of `mappages`. -/
def mapPage (pgdir a pa : Nat) (perm : BitVec 12) : M Bool := do
  let pte ← walkpgdir pgdir a true
  match pte with
  | none => pure false
  | some (pgtab, i) => do
    let e ← load pgtab i
    if e.present then Prog.halt .remap
    else do
      store pgtab i ⟨pa, perm ||| PTE_P⟩
      pure true

/-- The loop runs `count` times, with `count` at least 1 wherever it is called. -/
def mappages (pgdir : Nat) (perm : BitVec 12) : (count a pa : Nat) → M Bool
  | 0, _, _ => pure true
  | count + 1, a, pa => do
    let mapped ← mapPage pgdir a pa perm
    if mapped then mappages pgdir perm count (a + 1) (pa + 1) else pure false

/-- The page of `PGROUNDUP(sz)`. -/
def pgroundup (sz : Nat) : Nat := (sz + PGSIZE - 1) % 2 ^ 32 / PGSIZE

/-- The number of pages that begin below `sz`. -/
def pagesBelow (sz : Nat) : Nat := (sz + PGSIZE - 1) / PGSIZE

/-- The branch of the loop of `deallocuvm` for an entry. -/
def freePage (layout : Layout) (pgtab : Nat) (i : Index) : M Unit := do
  let e ← load pgtab i
  if e.present then
    if e.page = 0 then Prog.halt .kfree
    else do
      kfree layout e.page
      store pgtab i Pte.zero
  else pure ()

/-- The loop of `deallocuvm`. An iteration goes on to a later page or starts again at 0, so
one that has gone on `NPAGES` times does not end. -/
def deallocLoop (layout : Layout) (pgdir oldsz : Nat) : (rounds a : Nat) → M Unit
  | 0, _ => Prog.halt .forever
  | rounds + 1, a =>
    if a * PGSIZE < oldsz then do
      let pte ← walkpgdir pgdir a false
      match pte with
      | none => deallocLoop layout pgdir oldsz rounds ((a / 1024 + 1) * 1024 % NPAGES)
      | some (pgtab, i) => do
        freePage layout pgtab i
        deallocLoop layout pgdir oldsz rounds ((a + 1) % NPAGES)
    else pure ()

def deallocuvm (layout : Layout) (pgdir oldsz newsz : Nat) : M Nat :=
  if oldsz ≤ newsz then pure oldsz
  else do
    deallocLoop layout pgdir oldsz (NPAGES + 1) (pgroundup newsz)
    pure newsz

/-- The body of the loop of `allocuvm`, with what it does before it returns 0. -/
def growPage (layout : Layout) (pgdir oldsz newsz a : Nat) : M Bool := do
  let mem ← kalloc
  match mem with
  | none => do
    let _ ← deallocuvm layout pgdir newsz oldsz
    pure false
  | some mem => do
    clear mem
    let mapped ← mappages pgdir (PTE_W ||| PTE_U) 1 a mem
    if mapped then pure true
    else do
      let _ ← deallocuvm layout pgdir newsz oldsz
      kfree layout mem
      pure false

def allocuvm (layout : Layout) (pgdir oldsz newsz : Nat) : M Nat :=
  if KERNBASE ≤ newsz then pure 0
  else if newsz < oldsz then pure oldsz
  else do
    let first := pgroundup oldsz
    let grown ← Prog.forAll (growPage layout pgdir oldsz newsz) (List.range' first (pagesBelow newsz - first))
    pure (if grown then newsz else 0)

/-- The loop of `freevm` over the directory. -/
def freeTables (layout : Layout) (pgdir : Nat) : List Index → M Unit :=
  Prog.forEach fun i => do
    let pde ← load pgdir i
    if pde.present then kfree layout pde.page else pure ()

def freevm (layout : Layout) : Option Nat → M Unit
  | none => Prog.halt .noPgdir
  | some pgdir => do
    let _ ← deallocuvm layout pgdir KERNBASE 0
    freeTables layout pgdir (List.finRange 1024)
    kfree layout pgdir

def clearpteu (pgdir uva : Nat) : M Unit := do
  let pte ← walkpgdir pgdir (uva / PGSIZE) false
  match pte with
  | none => Prog.halt .clearpteu
  | some (pgtab, i) => do
    let e ← load pgtab i
    store pgtab i { e with flags := e.flags &&& ~~~PTE_U }

def setupkvm (layout : Layout) : M (Option Nat) := do
  let pgdir ← kalloc
  match pgdir with
  | none => pure none
  | some pgdir => do
    clear pgdir
    if DEVSPACE < KERNBASE + PHYSTOP then Prog.halt .phystopTooHigh
    else do
      let mapped ← Prog.forAll (fun k => mappages pgdir k.perm k.count k.virt k.phys) (kmap layout)
      if mapped then pure (some pgdir)
      else do
        freevm layout (some pgdir)
        pure none

/-- The body of the loop of `copyuvm`. -/
def copyMapping (layout : Layout) (pgdir d v : Nat) : M Bool := do
  let pte ← walkpgdir pgdir v false
  match pte with
  | none => Prog.halt .pteShouldExist
  | some (pgtab, i) => do
    let e ← load pgtab i
    if e.present then do
      let mem ← kalloc
      match mem with
      | none => pure false
      | some mem => do
        copyPage mem e.page
        let mapped ← mappages d e.flags 1 v mem
        if mapped then pure true
        else do
          kfree layout mem
          pure false
    else Prog.halt .pageNotPresent

/-- The loop stops at the first page of the kernel half at the latest. -/
def copyuvm (layout : Layout) (pgdir sz : Nat) : M (Option Nat) := do
  let d ← setupkvm layout
  match d with
  | none => pure none
  | some d => do
    let copied ← Prog.forAll (copyMapping layout pgdir d) (List.range' 0 (pagesBelow sz))
    if copied then pure (some d)
    else do
      freevm layout (some d)
      pure none

/-- A call, with the directory that it is about. -/
inductive Call where
  | setupkvm
  | allocuvm (pgdir : Nat) (oldsz newsz : BitVec 32)
  | deallocuvm (pgdir : Nat) (oldsz newsz : BitVec 32)
  | copyuvm (pgdir : Nat) (sz : BitVec 32)
  | clearpteu (pgdir : Nat) (uva : BitVec 32)
  | freevm (pgdir : Nat)

/-- `dirs` are the directories that `setupkvm` and `copyuvm` have returned and that are not
freed. -/
structure Machine where
  state : State
  dirs : List Nat

/-- The code of a call, with the directories after it. -/
def Call.code (layout : Layout) (dirs : List Nat) : Call → M (List Nat)
  | .setupkvm => do
    let d ← Vm.setupkvm layout
    pure (d.toList ++ dirs)
  | .allocuvm pgdir oldsz newsz => do
    let _ ← Vm.allocuvm layout pgdir oldsz.toNat newsz.toNat
    pure dirs
  | .deallocuvm pgdir oldsz newsz => do
    let _ ← Vm.deallocuvm layout pgdir oldsz.toNat newsz.toNat
    pure dirs
  | .copyuvm pgdir sz => do
    let d ← Vm.copyuvm layout pgdir sz.toNat
    pure (d.toList ++ dirs)
  | .clearpteu pgdir uva => do
    Vm.clearpteu pgdir uva.toNat
    pure dirs
  | .freevm pgdir => do
    Vm.freevm layout (some pgdir)
    pure (dirs.erase pgdir)

/-- The directory is one that is not freed. -/
def Call.enabled (dirs : List Nat) : Call → Bool
  | .setupkvm => true
  | .allocuvm pgdir _ _ | .deallocuvm pgdir _ _ | .copyuvm pgdir _ | .clearpteu pgdir _ | .freevm pgdir =>
    pgdir ∈ dirs

/-- A call in which `kalloc` fails as `fails` says. There is no state after a panic. -/
def callNext (layout : Layout) (m : Machine) (label : List Bool × Call) : Option Machine :=
  if label.2.enabled m.dirs then
    match label.2.code layout m.dirs { m.state with fails := label.1 } with
    | (.ok dirs, state) => some ⟨state, dirs⟩
    | (.error _, _) => none
  else none

def callSystem (layout : Layout) : System Machine (List Bool × Call) := ⟨callNext layout⟩

end Xv6.Vm
