import Xv6.Fs.Image
import Xv6.Fs.Names
import Xv6.Lib.System

/-!
Contract: disks with nothing on them but a root directory of one block.
-/

namespace Xv6.Fs

open Xv6.Lib

/-- Where a disk has its super block, its free map (of one block) and the one block of its
root directory. -/
structure RootLayout where
  sb : Superblock
  super : Block
  bits : Block
  home : Nat
  valid : sb.Valid
  isSuper : readsb (fun _ => super) = sb
  single : sb.size ≤ BPB
  homeRange : sb.dataStart ≤ home ∧ home < sb.size
  marked : ∀ b < sb.size, bits.getBit b = true ↔ b < sb.dataStart ∨ b = home

namespace RootLayout

variable (layout : RootLayout)

def root (size : Nat) : Dinode :=
  ⟨T_DIR, 0, 0, 1, size, fun k => if k.val = 0 then layout.home else 0⟩

def disk (size : Nat) (entries : Block) : Disk := fun b =>
  if b = 1 then layout.super
  else if b = layout.sb.inodestart then setDinode Bytes.zero ROOTINO (layout.root size)
  else if b = layout.sb.bmapstart then layout.bits
  else if b = layout.home then entries
  else Bytes.zero

private theorem free_of_zero : ∀ i < 8, (getDinode Bytes.zero i).type = 0 := by decide +kernel

variable {size : Nat} {entries : Block}

theorem readsb_disk : readsb (layout.disk size entries) = layout.sb := by
  have same : readsb (layout.disk size entries) = readsb fun _ => layout.super := rfl
  rw [same, layout.isSuper]

theorem order : 1 < layout.sb.inodestart ∧ layout.sb.inodestart < layout.sb.bmapstart ∧
    layout.sb.bmapstart < layout.sb.dataStart ∧ layout.sb.dataStart ≤ layout.home := by
  have inodes := layout.valid.inodes
  have bitmap := layout.valid.bitmap
  have data := layout.valid.data
  have home := layout.homeRange.1
  unfold IPB at bitmap
  unfold BPB at data
  omega

theorem disk_inodestart :
    layout.disk size entries layout.sb.inodestart = setDinode Bytes.zero ROOTINO (layout.root size) := by
  obtain ⟨first, -, -, -⟩ := layout.order
  rw [disk, if_neg (by omega), if_pos rfl]

theorem disk_bmapstart : layout.disk size entries layout.sb.bmapstart = layout.bits := by
  obtain ⟨first, second, -, -⟩ := layout.order
  rw [disk, if_neg (by omega), if_neg (by omega), if_pos rfl]

theorem disk_home : layout.disk size entries layout.home = entries := by
  obtain ⟨first, second, third, fourth⟩ := layout.order
  rw [disk, if_neg (by omega), if_neg (by omega), if_neg (by omega), if_pos rfl]

theorem eq_root_of_allocated {i : Nat} (inside : i < layout.sb.ninodes)
    (allocated : (dinodeAt layout.sb (layout.disk size entries) i).type ≠ 0) : i = ROOTINO := by
  by_contra other
  have within : i % IPB < 8 := Nat.mod_lt i (by decide)
  by_cases first : i / IPB = 0
  · have isBlock : IBLOCK i layout.sb = layout.sb.inodestart := by
      rw [IBLOCK, first, Nat.zero_add]
    have small : i % IPB = i := Nat.mod_eq_of_lt (by unfold IPB at first ⊢; omega)
    rw [dinodeAt, isBlock, layout.disk_inodestart, small, getDinode_setDinode_other _ _ other] at allocated
    rw [small] at within
    exact allocated (free_of_zero i within)
  · obtain ⟨start, -, third, fourth⟩ := layout.order
    have range := layout.valid.IBLOCK_range inside
    have notFirst : IBLOCK i layout.sb ≠ layout.sb.inodestart := by
      unfold IBLOCK
      omega
    have isZero : layout.disk size entries (IBLOCK i layout.sb) = Bytes.zero := by
      rw [disk, if_neg (by omega), if_neg notFirst, if_neg (by omega), if_neg (by omega)]
    rw [dinodeAt, isZero] at allocated
    exact allocated (free_of_zero _ within)

variable (small : size ≤ BSIZE)
include small

theorem dinodeAt_root : dinodeAt layout.sb (layout.disk size entries) ROOTINO = layout.root size := by
  have below : layout.home < 2 ^ 32 := lt_trans layout.homeRange.2 layout.valid.fits
  have fits : (layout.root size).Fits := by
    refine ⟨?_, fun k => ?_⟩
    · unfold BSIZE at small
      simp only [root]
      omega
    · simp only [root]
      split
      · exact below
      · decide
  have isBlock : IBLOCK ROOTINO layout.sb = layout.sb.inodestart := by
    unfold IBLOCK ROOTINO IPB
    omega
  rw [dinodeAt, isBlock, layout.disk_inodestart]
  exact getDinode_setDinode Bytes.zero (by decide) fits

private theorem eq_of_refers {i b : Nat} {pos : Pos}
    (refers : Refers layout.sb (layout.disk size entries) i pos b) :
    i = ROOTINO ∧ pos = .slot 0 ∧ b = layout.home := by
  obtain ⟨inside, allocated, isRef, some⟩ := refers
  have isRoot := layout.eq_root_of_allocated inside allocated
  rw [isRoot, layout.dinodeAt_root small] at isRef
  refine ⟨isRoot, ?_⟩
  cases pos with
  | slot k =>
    simp only [ref, root] at isRef
    split at isRef
    · rename_i first
      exact ⟨congrArg Pos.slot (Fin.ext first), isRef.symm⟩
    · exact absurd isRef.symm some
  | entry j =>
    rw [ref_entry_of_none rfl] at isRef
    exact absurd isRef.symm some

private theorem root_refers :
    Refers layout.sb (layout.disk size entries) ROOTINO (.slot 0) layout.home := by
  obtain ⟨first, second, third, fourth⟩ := layout.order
  have directory : T_DIR ≠ 0 := by decide
  rw [Refers, layout.dinodeAt_root small]
  exact ⟨layout.valid.root, directory, rfl, by omega⟩

theorem wellFormed : WellFormed layout.sb (layout.disk size entries) := by
  constructor
  · intro i pos b refers
    obtain ⟨-, -, rfl⟩ := layout.eq_of_refers small refers
    exact layout.homeRange
  · intro i pos j pos' b refers refers'
    obtain ⟨rfl, rfl, -⟩ := layout.eq_of_refers small refers
    obtain ⟨rfl, rfl, -⟩ := layout.eq_of_refers small refers'
    exact ⟨rfl, rfl⟩
  · intro b inside
    have single := layout.single
    have isBlock : BBLOCK b layout.sb = layout.sb.bmapstart := by
      unfold BBLOCK
      rw [Nat.div_eq_of_lt (by omega), Nat.zero_add]
    have isBit : bitAt layout.sb (layout.disk size entries) b = layout.bits.getBit b := by
      rw [bitAt, isBlock, layout.disk_bmapstart, Nat.mod_eq_of_lt (by omega)]
    rw [isBit, layout.marked b inside]
    refine or_congr_right ⟨?_, ?_⟩
    · rintro rfl
      exact ⟨ROOTINO, .slot 0, layout.root_refers small⟩
    · rintro ⟨i, pos, refers⟩
      exact (layout.eq_of_refers small refers).2.2
  · intro i inside allocated _ bn used
    rw [layout.eq_root_of_allocated inside allocated, layout.dinodeAt_root small] at used ⊢
    have first : bn = 0 := by
      unfold BSIZE at small used
      simp only [root] at used
      omega
    have mapped : addrOf (layout.disk size entries) (layout.root size) 0 = layout.home := rfl
    obtain ⟨order, second, third, fourth⟩ := layout.order
    rw [first, mapped]
    omega

theorem entriesExist
    (exist : ∀ k, k * DIRENT + DIRENT ≤ size → entries.getLe (k * DIRENT) 2 < layout.sb.ninodes) :
    EntriesExist layout.sb (layout.disk size entries) := by
  intro i inside directory off aligned used
  have allocated : (dinodeAt layout.sb (layout.disk size entries) i).type ≠ 0 := by
    rw [directory]
    decide
  rw [layout.eq_root_of_allocated inside allocated, layout.dinodeAt_root small] at used ⊢
  obtain ⟨k, rfl⟩ := aligned
  rw [Nat.mul_comm] at used ⊢
  have below : k * DIRENT < BSIZE := by
    unfold DIRENT at used ⊢
    simp only [root] at used
    omega
  have mapped : addrOf (layout.disk size entries) (layout.root size) 0 = layout.home := rfl
  rw [Nat.div_eq_of_lt below, Nat.mod_eq_of_lt below, mapped, layout.disk_home]
  exact exist k used

end RootLayout

private theorem emptyBits_marked : ∀ b < 1000,
    ((Bytes.zero : Block).setLe 0 8 (2 ^ 60 - 1)).getBit b = true ↔ b < 59 ∨ b = 59 := by
  decide +kernel

/-- The layout that `mkfs` makes of the values in `param.h`: 1000 blocks, 30 of them log,
and 200 inodes. The root directory has the first data block. -/
def emptyLayout : RootLayout where
  sb := ⟨1000, 941, 200, 30, 2, 32, 58⟩
  super := ((((((Bytes.zero.setLe 0 4 1000).setLe 4 4 941).setLe 8 4 200).setLe 12 4 30).setLe
    16 4 2).setLe 20 4 32).setLe 24 4 58
  bits := Bytes.zero.setLe 0 8 (2 ^ 60 - 1)
  home := 59
  valid := by decide
  isSuper := by decide +kernel
  single := by decide
  homeRange := by decide
  marked := emptyBits_marked

def dotEntries : Block :=
  (Bytes.zero.splice 0 (encodeDirent ⟨ROOTINO, strncpyName dot⟩)).splice 16
    (encodeDirent ⟨ROOTINO, strncpyName dotdot⟩)

/-- The file system that `mkfs` makes when it is given no files. The size of the root
directory is rounded up to a block. -/
def emptyDisk : Disk := emptyLayout.disk BSIZE dotEntries

theorem emptyDisk_wellFormed : WellFormed emptyLayout.sb emptyDisk :=
  emptyLayout.wellFormed (by decide)

private theorem dotEntries_exist : ∀ k < 32, dotEntries.getLe (k * DIRENT) 2 < 200 := by
  decide +kernel

theorem emptyDisk_entriesExist : EntriesExist emptyLayout.sb emptyDisk := by
  apply emptyLayout.entriesExist (by decide)
  intro k used
  have below : k < 32 := by
    unfold DIRENT BSIZE at used
    omega
  exact dotEntries_exist k below

end Xv6.Fs
