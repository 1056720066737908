import Xv6.Fs.CallSpecs
import Xv6.Fs.RootDisk

/-!
Contract: every block of the disk has at most one owner, in every run of file system
calls on a good disk.

A disk is good when its blocks are owned once, its free map is exact and its files
have no holes, and when besides every directory entry names an inode that exists.
The second half is needed: an entry past the inode blocks makes the code take the
free map for an inode.
-/

namespace Xv6.Fs

open Xv6.Lib

/-- What holds after every call: no block was freed twice, reading allocated nothing,
and a machine that goes on has its references and its disk in order. -/
structure MachineInv (fixed : Superblock) (m : Machine) : Prop where
  calm : ∀ halt, m.halted = some halt → CalmSys halt m.sys
  goes : m.halted = none → SysInv fixed 0 (fun _ => none) m.sys

/-- A call either returns, with what it makes of the tree, or halts the machine. -/
theorem MachineInv.outcome {fixed : Superblock} {broken stuck : Prop} {m m' : Machine} {p : ProcId}
    {call : Call} (inv : MachineInv fixed m) (unlinked : call.Unlinked p m.sys broken)
    (itself : call.Itself p m.sys stuck) (stepped : callNext m (p, call) = some m') :
    (m'.halted = none ∧ ∃ tree, call.Changes p m.sys tree ∧
      SysRan fixed m.sys.fs tree 0 (fun _ => none) m'.sys) ∨
    ∃ halt, m'.halted = some halt ∧ StopsSys broken stuck halt m'.sys := by
  obtain ⟨may, stepped⟩ := Option.ite_none_right_eq_some.mp stepped
  have spec := Call.program_spec (inv.goes may.1) (fun _ _ isLocked => nomatch isLocked) may.2
    unlinked itself
  unfold wp at spec
  split at stepped
  · rename_i value sys ran
    cases stepped
    rw [ran] at spec
    exact Or.inl ⟨rfl, spec⟩
  · rename_i halt sys ran
    cases stepped
    rw [ran] at spec
    exact Or.inr ⟨halt, rfl, spec⟩

theorem callNext_preserves {fixed : Superblock} (m : Machine) (label : ProcId × Call) (m' : Machine)
    (inv : MachineInv fixed m) (stepped : callNext m label = some m') : MachineInv fixed m' := by
  obtain ⟨p, call⟩ := label
  have any : call.Unlinked p m.sys True := fun _ _ _ _ _ _ _ _ _ _ _ => trivial
  rcases inv.outcome any call.itself_true stepped with ⟨goes, tree, -, ran⟩ | ⟨halt, halted, stops⟩
  · refine ⟨fun halt isHalt => ?_, fun _ => ran.toSysInv⟩
    rw [goes] at isHalt
    cases isHalt
  · refine ⟨fun other isHalt => ?_, fun isNone => ?_⟩
    · rw [halted] at isHalt
      cases isHalt
      exact stops.calm
    · rw [halted] at isNone
      cases isNone

section

variable {disk : Disk} {devsw : Fin NDEV → Device}

theorem tokens_boot : tokens (boot disk devsw).sys = {(⟨0, by decide⟩, false)} := by
  have files : ∑ f, fileRef ((boot disk devsw).sys.ftable f) = 0 :=
    Finset.sum_eq_zero fun _ _ => rfl
  have procs : ∑ p, cwdRef ((boot disk devsw).sys.proc p) =
      cwdRef ((boot disk devsw).sys.proc ⟨0, by decide⟩) := by
    apply Finset.sum_eq_single
    · intro p _ other
      have different : p.val ≠ 0 := fun same => other (Fin.ext same)
      simp [cwdRef, boot, different]
    · exact fun absent => absurd (Finset.mem_univ _) absent
  rw [tokens, files, procs, add_zero]
  rfl

theorem boot_ref (x : Slot) :
    ((boot disk devsw).sys.fs.icache x).ref = if x.val = 0 then 1 else 0 := by
  simp only [boot]
  split <;> rfl

theorem boot_unused {x : Slot} (positive : 0 < ((boot disk devsw).sys.fs.icache x).ref) :
    x = ⟨0, by decide⟩ := by
  rw [boot_ref] at positive
  split at positive
  · rename_i isFirst
    exact Fin.ext isFirst
  · omega

theorem boot_valid (x : Slot) : ((boot disk devsw).sys.fs.icache x).valid = false := by
  simp only [boot]
  split <;> rfl

theorem boot_lock (x : Slot) : ((boot disk devsw).sys.fs.icache x).lock = none := by
  simp only [boot]
  split <;> rfl

theorem boot_sysInv (layout : (readsb disk).Valid) (wellFormed : WellFormed (readsb disk) disk)
    (entries : EntriesExist (readsb disk) disk) :
    SysInv (readsb disk) 0 (fun _ => none) (boot disk devsw).sys := by
  refine ⟨?_, fun _ _ => rfl⟩
  rw [zero_add, tokens_boot]
  constructor
  · rfl
  · exact layout
  · rfl
  · exact wellFormed.good layout entries
  · intro x
    rw [boot_ref, Multiset.map_singleton, Multiset.count_singleton]
    simp only [Fin.ext_iff]
    split <;> rfl
  · intro x y first second _
    rw [boot_unused first, boot_unused second]
  · intro x first
    rw [boot_unused first]
    exact layout.root
  · intro x _ valid
    rw [boot_valid] at valid
    cases valid
  · intro x member
    rw [Multiset.mem_singleton] at member
    cases member
  · intro x d locked
    cases locked
  · exact fun x _ => boot_lock x
  · exact fun b member => List.not_mem_nil member

end

theorem MachineInv.of_run {disk : Disk} {devsw : Fin NDEV → Device}
    (layout : (readsb disk).Valid) (wellFormed : WellFormed (readsb disk) disk)
    (entries : EntriesExist (readsb disk) disk) {calls : List (ProcId × Call)} {m : Machine}
    (ran : callSystem.run (boot disk devsw) calls = some m) : MachineInv (readsb disk) m :=
  System.run_preserves (MachineInv (readsb disk)) callNext_preserves
    ⟨fun _ isSome => absurd isSome (by simp [boot]),
      fun _ => boot_sysInv layout wellFormed entries⟩ ran

def smallSuper : Superblock := ⟨64, 29, 8, 30, 2, 32, 34⟩

def smallSuperBlock : Block :=
  ((((((Bytes.zero.setLe 0 4 64).setLe 4 4 29).setLe 8 4 8).setLe 12 4 30).setLe 16 4 2).setLe
    20 4 32).setLe 24 4 34

def smallRoot : Dinode := ⟨T_DIR, 0, 0, 1, 16, fun k => if k.val = 0 then 48 else 0⟩

/-- A disk of 64 blocks on which the root directory has the entry `x` for the inode
`inum`, and nothing else. -/
def smallDisk (inum : Nat) : Disk := fun b =>
  if b = 1 then smallSuperBlock
  else if b = 32 then setDinode Bytes.zero 1 smallRoot
  else if b = 34 then Bytes.zero.setLe 0 8 (2 ^ 35 - 1 + 2 ^ 48)
  else if b = 48 then Bytes.zero.splice 0 (encodeDirent ⟨inum, strncpyName [120]⟩)
  else Bytes.zero

def noDevices : Fin NDEV → Device := fun _ => ⟨none, none⟩

/-- The small disk with a root directory of this size and these entries. -/
def rootDisk (size : Nat) (entries : Block) : Disk := fun b =>
  if b = 1 then smallSuperBlock
  else if b = 32 then setDinode Bytes.zero 1 { smallRoot with size }
  else if b = 34 then Bytes.zero.setLe 0 8 (2 ^ 35 - 1 + 2 ^ 48)
  else if b = 48 then entries
  else Bytes.zero

theorem smallSuper_valid : smallSuper.Valid := by decide

private theorem smallBits_marked : ∀ b < 64,
    ((Bytes.zero : Block).setLe 0 8 (2 ^ 35 - 1 + 2 ^ 48)).getBit b = true ↔ b < 35 ∨ b = 48 := by
  decide +kernel

def smallLayout : RootLayout where
  sb := smallSuper
  super := smallSuperBlock
  bits := Bytes.zero.setLe 0 8 (2 ^ 35 - 1 + 2 ^ 48)
  home := 48
  valid := smallSuper_valid
  isSuper := by decide +kernel
  single := by decide
  homeRange := by decide
  marked := smallBits_marked

section

variable {size : Nat} {entries : Block}

theorem readsb_rootDisk : readsb (rootDisk size entries) = smallSuper := smallLayout.readsb_disk

theorem rootDisk_wellFormed (small : size ≤ BSIZE) : WellFormed smallSuper (rootDisk size entries) :=
  smallLayout.wellFormed small

theorem rootDisk_entriesExist (small : size ≤ BSIZE)
    (exist : ∀ k, k * DIRENT + DIRENT ≤ size → entries.getLe (k * DIRENT) 2 < smallSuper.ninodes) :
    EntriesExist smallSuper (rootDisk size entries) :=
  smallLayout.entriesExist small exist

end

theorem readsb_smallDisk (inum : Nat) : readsb (smallDisk inum) = smallSuper := readsb_rootDisk

theorem smallDisk_wellFormed (inum : Nat) : WellFormed smallSuper (smallDisk inum) :=
  rootDisk_wellFormed (by decide)

theorem smallDisk_entriesExist : EntriesExist smallSuper (smallDisk 1) := by
  apply rootDisk_entriesExist (by decide)
  intro k used
  have first : k = 0 := by
    unfold DIRENT at used
    omega
  rw [first]
  decide +kernel

theorem smallDisk_machineInv {calls : List (ProcId × Call)} {m : Machine}
    (ran : callSystem.run (boot (smallDisk 1) noDevices) calls = some m) :
    MachineInv (readsb (smallDisk 1)) m := by
  have isSuper := readsb_smallDisk 1
  exact MachineInv.of_run (isSuper ▸ smallSuper_valid) (isSuper ▸ smallDisk_wellFormed 1)
    (isSuper ▸ smallDisk_entriesExist) ran

/-- On a good disk, every sequence of file system calls that is not stopped ends with a
good disk. No call frees a free block, and no read allocates a block, whether the
calls are stopped or not. -/
theorem blocks_owned_once {disk : Disk} {devsw : Fin NDEV → Device}
    (layout : (readsb disk).Valid) (wellFormed : WellFormed (readsb disk) disk)
    (entries : EntriesExist (readsb disk) disk) {calls : List (ProcId × Call)} {m : Machine}
    (ran : callSystem.run (boot disk devsw) calls = some m) :
    (m.halted = none → readsb m.sys.fs.disk = readsb disk ∧
      WellFormed (readsb disk) m.sys.fs.disk ∧ EntriesExist (readsb disk) m.sys.fs.disk) ∧
    m.halted ≠ some .freeingFreeBlock ∧
    ∀ b, Event.balloc .readi b ∉ m.sys.fs.trace := by
  have inv := MachineInv.of_run layout wellFormed entries ran
  refine ⟨fun goes => ?_, fun isFree => ?_, ?_⟩
  · have fs := (inv.goes goes).fs
    have good := fs.good
    rw [view_none, fs.isSb] at good
    exact ⟨fs.super.trans fs.isSb, good.wellFormed⟩
  · exact (inv.calm _ isFree).1 rfl
  · cases halted : m.halted with
    | none => exact (inv.goes halted).fs.quiet
    | some halt => exact (inv.calm halt halted).2

theorem blocks_owned_once_mkdir :
    ∃ m, callSystem.run (boot (smallDisk 1) noDevices)
        [(⟨0, by decide⟩, .mkdir (some [47, 121]))] = some m ∧
      m.halted = none ∧ WellFormed (readsb (smallDisk 1)) m.sys.fs.disk := by
  have ends : (callSystem.run (boot (smallDisk 1) noDevices)
      [(⟨0, by decide⟩, .mkdir (some [47, 121]))]).map Machine.halted = some none := by
    decide +kernel
  obtain ⟨m, ran, goes⟩ := Option.map_eq_some_iff.mp ends
  have isSuper := readsb_smallDisk 1
  refine ⟨m, ran, goes, ?_⟩
  exact ((blocks_owned_once (isSuper ▸ smallSuper_valid) (isSuper ▸ smallDisk_wellFormed 1)
    (isSuper ▸ smallDisk_entriesExist) ran).1 goes).2.1

/-- The root directory names inode 16, of 8 inodes. Its bytes are those of the free map,
which says that its link count is 1; `unlink` stores 0 there, and then the type 0. -/
theorem danglingEntry_overwrites_bitmap :
    ∃ m, (readsb (smallDisk 16)).Valid ∧ WellFormed (readsb (smallDisk 16)) (smallDisk 16) ∧
      callSystem.run (boot (smallDisk 16) noDevices)
        [(⟨0, by decide⟩, .unlink (some [47, 120]))] = some m ∧
      m.halted = none ∧ ¬ WellFormed (readsb (smallDisk 16)) m.sys.fs.disk := by
  have ends : (callSystem.run (boot (smallDisk 16) noDevices)
      [(⟨0, by decide⟩, .unlink (some [47, 120]))]).map
        (fun m => (m.halted, bitAt smallSuper m.sys.fs.disk 0)) = some (none, false) := by
    decide +kernel
  obtain ⟨m, ran, final⟩ := Option.map_eq_some_iff.mp ends
  obtain ⟨goes, isFree⟩ := Prod.mk.inj final
  rw [readsb_smallDisk]
  refine ⟨m, smallSuper_valid, smallDisk_wellFormed 16, ran, goes, fun wellFormed => ?_⟩
  have used := (wellFormed.bitmap 0 (by decide)).mpr (Or.inl (by decide))
  rw [isFree] at used
  cases used

end Xv6.Fs
