import Xv6.Param
import Xv6.Lib.Bytes

/-!
Contract: the on-disk format of `fs.h`.

Does not own: the code that decides what to write.
-/

namespace Xv6.Fs

open Function Xv6.Lib

def ROOTINO : Nat := 1

def NDIRECT : Nat := 12

def NINDIRECT : Nat := 128

def MAXFILE : Nat := NDIRECT + NINDIRECT

def IPB : Nat := 8

def BPB : Nat := 4096

def DIRSIZ : Nat := 14

def T_DIR : BitVec 16 := 1

def T_FILE : BitVec 16 := 2

def T_DEV : BitVec 16 := 3

abbrev Block := Bytes BSIZE

abbrev Disk := Nat → Block

structure Superblock where
  size : Nat
  nblocks : Nat
  ninodes : Nat
  nlog : Nat
  logstart : Nat
  inodestart : Nat
  bmapstart : Nat
deriving DecidableEq

def readsb (disk : Disk) : Superblock where
  size := (disk 1).getLe 0 4
  nblocks := (disk 1).getLe 4 4
  ninodes := (disk 1).getLe 8 4
  nlog := (disk 1).getLe 12 4
  logstart := (disk 1).getLe 16 4
  inodestart := (disk 1).getLe 20 4
  bmapstart := (disk 1).getLe 24 4

def IBLOCK (i : Nat) (sb : Superblock) : Nat := i / IPB + sb.inodestart

def BBLOCK (b : Nat) (sb : Superblock) : Nat := b / BPB + sb.bmapstart

def Superblock.dataStart (sb : Superblock) : Nat := sb.size - sb.nblocks

/-- The layout that `mkfs` makes: super block, inode blocks, free map and data blocks
follow each other and do not overlap. -/
structure Superblock.Valid (sb : Superblock) : Prop where
  root : ROOTINO < sb.ninodes
  inodes : 1 < sb.inodestart
  bitmap : (sb.ninodes - 1) / IPB + sb.inodestart < sb.bmapstart
  data : (sb.size - 1) / BPB + sb.bmapstart < sb.dataStart
  fits : sb.size < 2 ^ 32

instance (sb : Superblock) : Decidable sb.Valid :=
  decidable_of_iff
    (ROOTINO < sb.ninodes ∧ 1 < sb.inodestart ∧
      (sb.ninodes - 1) / IPB + sb.inodestart < sb.bmapstart ∧
      (sb.size - 1) / BPB + sb.bmapstart < sb.dataStart ∧ sb.size < 2 ^ 32)
    ⟨fun ⟨root, inodes, bitmap, data, fits⟩ => ⟨root, inodes, bitmap, data, fits⟩,
      fun valid => ⟨valid.root, valid.inodes, valid.bitmap, valid.data, valid.fits⟩⟩

/-- The layout of `param.h` and `mkfs.c`. -/
example : (Superblock.mk 1000 941 200 30 2 32 58).Valid := by decide

namespace Superblock.Valid

variable {sb : Superblock} (valid : sb.Valid)
include valid

theorem IBLOCK_range {i : Nat} (inside : i < sb.ninodes) :
    1 < IBLOCK i sb ∧ IBLOCK i sb < sb.bmapstart := by
  have lower := valid.inodes
  have upper := valid.bitmap
  unfold IBLOCK
  unfold IPB at upper ⊢
  omega

theorem BBLOCK_range {b : Nat} (inside : b < sb.size) :
    sb.bmapstart ≤ BBLOCK b sb ∧ BBLOCK b sb < sb.dataStart := by
  have upper := valid.data
  unfold BBLOCK
  unfold BPB at upper ⊢
  omega

theorem one_lt_bmapstart : 1 < sb.bmapstart := by
  have inodes := valid.inodes
  have bitmap := valid.bitmap
  unfold IPB at bitmap
  omega

theorem bmapstart_lt_dataStart : sb.bmapstart < sb.dataStart := by
  have data := valid.data
  unfold BPB at data
  omega

end Superblock.Valid

structure Dinode where
  type : BitVec 16
  major : BitVec 16
  minor : BitVec 16
  nlink : BitVec 16
  size : Nat
  addrs : Fin (NDIRECT + 1) → Nat
deriving DecidableEq

/-- The slot of `addrs` with the indirect block. -/
def last : Fin (NDIRECT + 1) := Fin.last NDIRECT

/-- The inode after `memset(dip, 0, sizeof(*dip))`. -/
def Dinode.zero : Dinode := ⟨0, 0, 0, 0, 0, fun _ => 0⟩

/-- Its numbers fit in the words of `struct dinode`. -/
structure Dinode.Fits (d : Dinode) : Prop where
  size : d.size < 2 ^ 32
  addrs : ∀ k, d.addrs k < 2 ^ 32

/-- The inode at `(struct dinode*)data + index`. -/
def getDinode (data : Block) (index : Nat) : Dinode where
  type := BitVec.ofNat 16 (data.getLe (64 * index) 2)
  major := BitVec.ofNat 16 (data.getLe (64 * index + 2) 2)
  minor := BitVec.ofNat 16 (data.getLe (64 * index + 4) 2)
  nlink := BitVec.ofNat 16 (data.getLe (64 * index + 6) 2)
  size := data.getLe (64 * index + 8) 4
  addrs k := data.getLe (64 * index + 12 + 4 * k.val) 4

def setAddrs (data : Block) (offset : Nat) (addrs : Fin (NDIRECT + 1) → Nat) :
    List (Fin (NDIRECT + 1)) → Block
  | [] => data
  | k :: rest => setAddrs (data.setLe (offset + 4 * k.val) 4 (addrs k)) offset addrs rest

/-- The stores to the fields in front of the addresses. -/
def setFields (data : Block) (index : Nat) (d : Dinode) : Block :=
  ((((data.setLe (64 * index) 2 d.type.toNat).setLe (64 * index + 2) 2 d.major.toNat).setLe
    (64 * index + 4) 2 d.minor.toNat).setLe (64 * index + 6) 2 d.nlink.toNat).setLe
    (64 * index + 8) 4 d.size

def setDinode (data : Block) (index : Nat) (d : Dinode) : Block :=
  setAddrs (setFields data index d) (64 * index + 12) d.addrs (List.finRange (NDIRECT + 1))

theorem get_setAddrs_other (data : Block) {offset other : Nat} (addrs : Fin (NDIRECT + 1) → Nat)
    (order : List (Fin (NDIRECT + 1))) (outside : other < offset ∨ offset + 52 ≤ other) :
    (setAddrs data offset addrs order).get other = data.get other := by
  induction order generalizing data with
  | nil => rfl
  | cons k rest ih =>
    have inside : k.val < 13 := k.isLt
    rw [setAddrs, ih, Bytes.get_setLe_other _ _ (by omega)]

theorem getLe_setAddrs (data : Block) {offset : Nat} (addrs : Fin (NDIRECT + 1) → Nat)
    (fits : ∀ k, addrs k < 2 ^ 32) (inside : offset + 52 ≤ BSIZE)
    {order : List (Fin (NDIRECT + 1))} (nodup : order.Nodup) {k : Fin (NDIRECT + 1)}
    (member : k ∈ order) :
    (setAddrs data offset addrs order).getLe (offset + 4 * k.val) 4 = addrs k := by
  induction order generalizing data with
  | nil => cases member
  | cons head rest ih =>
    rw [List.nodup_cons] at nodup
    rw [setAddrs]
    by_cases inRest : k ∈ rest
    · exact ih _ nodup.2 inRest
    · have isHead : k = head := (List.mem_cons.mp member).resolve_right inRest
      -- the stores that follow go to other words
      have kept : ∀ (order : List (Fin (NDIRECT + 1))) (data : Block), k ∉ order →
          (setAddrs data offset addrs order).getLe (offset + 4 * k.val) 4 =
            data.getLe (offset + 4 * k.val) 4 := by
        intro order
        induction order with
        | nil => exact fun _ _ => rfl
        | cons other rest ih =>
          intro data notMember
          rw [List.mem_cons, not_or] at notMember
          have different : k.val ≠ other.val := fun same => notMember.1 (Fin.ext same)
          rw [setAddrs, ih _ notMember.2,
            Bytes.getLe_setLe_other _ _ (by omega)]
      have bound : head.val < 13 := head.isLt
      rw [kept rest _ inRest, isHead, Bytes.getLe_setLe_same _ _ (by omega)]
      exact Nat.mod_eq_of_lt (fits head)

theorem get_setDinode_other (data : Block) {index other : Nat} (d : Dinode)
    (outside : other < 64 * index ∨ 64 * index + 64 ≤ other) :
    (setDinode data index d).get other = data.get other := by
  unfold setDinode setFields
  rw [get_setAddrs_other _ _ _ (by omega), Bytes.get_setLe_other _ _ (by omega),
    Bytes.get_setLe_other _ _ (by omega), Bytes.get_setLe_other _ _ (by omega),
    Bytes.get_setLe_other _ _ (by omega), Bytes.get_setLe_other _ _ (by omega)]

private theorem shortRound (value : BitVec 16) : BitVec.ofNat 16 (value.toNat % 256 ^ 2) = value := by
  have fits : value.toNat < 256 ^ 2 := value.isLt
  rw [Nat.mod_eq_of_lt fits, BitVec.ofNat_toNat, BitVec.setWidth_eq]

theorem getDinode_setDinode (data : Block) {index : Nat} {d : Dinode} (inside : index < IPB)
    (fits : d.Fits) : getDinode (setDinode data index d) index = d := by
  have room : 64 * index + 64 ≤ BSIZE := by
    unfold IPB at inside
    unfold BSIZE
    omega
  have front : ∀ {offset width : Nat}, offset + width ≤ 64 * index + 12 →
      (setDinode data index d).getLe offset width = (setFields data index d).getLe offset width := by
    intro offset width before
    apply Bytes.getLe_congr
    intro other lower upper
    exact get_setAddrs_other _ _ _ (by omega)
  have type : (setDinode data index d).getLe (64 * index) 2 = d.type.toNat % 256 ^ 2 := by
    rw [front (by omega), setFields, Bytes.getLe_setLe_other _ _ (by omega),
      Bytes.getLe_setLe_other _ _ (by omega), Bytes.getLe_setLe_other _ _ (by omega),
      Bytes.getLe_setLe_other _ _ (by omega), Bytes.getLe_setLe_same _ _ (by omega)]
  have major : (setDinode data index d).getLe (64 * index + 2) 2 = d.major.toNat % 256 ^ 2 := by
    rw [front (by omega), setFields, Bytes.getLe_setLe_other _ _ (by omega),
      Bytes.getLe_setLe_other _ _ (by omega), Bytes.getLe_setLe_other _ _ (by omega),
      Bytes.getLe_setLe_same _ _ (by omega)]
  have minor : (setDinode data index d).getLe (64 * index + 4) 2 = d.minor.toNat % 256 ^ 2 := by
    rw [front (by omega), setFields, Bytes.getLe_setLe_other _ _ (by omega),
      Bytes.getLe_setLe_other _ _ (by omega), Bytes.getLe_setLe_same _ _ (by omega)]
  have nlink : (setDinode data index d).getLe (64 * index + 6) 2 = d.nlink.toNat % 256 ^ 2 := by
    rw [front (by omega), setFields, Bytes.getLe_setLe_other _ _ (by omega),
      Bytes.getLe_setLe_same _ _ (by omega)]
  have size : (setDinode data index d).getLe (64 * index + 8) 4 = d.size := by
    rw [front (by omega), setFields, Bytes.getLe_setLe_same _ _ (by omega)]
    exact Nat.mod_eq_of_lt fits.size
  have addrs : ∀ k : Fin (NDIRECT + 1),
      (setDinode data index d).getLe (64 * index + 12 + 4 * k.val) 4 = d.addrs k := by
    intro k
    rw [setDinode]
    exact getLe_setAddrs _ d.addrs fits.addrs (by omega) (List.nodup_finRange _)
      (List.mem_finRange k)
  unfold getDinode
  simp only [type, major, minor, nlink, size, addrs, shortRound]

theorem getDinode_congr {data data' : Block} {index : Nat}
    (same : ∀ other, 64 * index ≤ other → other < 64 * index + 64 →
      data'.get other = data.get other) : getDinode data' index = getDinode data index := by
  have field : ∀ offset width, 64 * index ≤ offset → offset + width ≤ 64 * index + 64 →
      data'.getLe offset width = data.getLe offset width := by
    intro offset width lower upper
    apply Bytes.getLe_congr
    intro other above below
    exact same other (by omega) (by omega)
  unfold getDinode
  simp only [Dinode.mk.injEq]
  refine ⟨by rw [field _ _ (by omega) (by omega)], by rw [field _ _ (by omega) (by omega)],
    by rw [field _ _ (by omega) (by omega)], by rw [field _ _ (by omega) (by omega)],
    field _ _ (by omega) (by omega), ?_⟩
  funext k
  have inside : k.val < 13 := k.isLt
  exact field _ _ (by omega) (by omega)

theorem getDinode_setDinode_other (data : Block) {index other : Nat} (d : Dinode)
    (different : other ≠ index) :
    getDinode (setDinode data index d) other = getDinode data other := by
  apply getDinode_congr
  intro position lower upper
  exact get_setDinode_other data d (by omega)

theorem getDinode_fits (data : Block) (index : Nat) : (getDinode data index).Fits :=
  ⟨data.getLe_lt _ 4, fun _ => data.getLe_lt _ 4⟩

structure Dirent where
  inum : Nat
  name : List UInt8
deriving DecidableEq

def DIRENT : Nat := 16

def decodeDirent (bytes : List UInt8) : Dirent where
  inum := (bytes.getD 0 0).toNat + 256 * (bytes.getD 1 0).toNat
  name := (bytes.drop 2).take DIRSIZ

/-- The bytes of an entry: `inum` is stored in a `ushort`. -/
def encodeDirent (de : Dirent) : List UInt8 :=
  UInt8.ofNat de.inum :: UInt8.ofNat (de.inum / 256) :: de.name

theorem decodeDirent_slice_inum (data : Block) (offset : Nat) :
    (decodeDirent (data.slice offset DIRENT)).inum = data.getLe offset 2 := by
  unfold decodeDirent
  simp only [Bytes.getD_slice data offset (show 0 < DIRENT by decide),
    Bytes.getD_slice data offset (show 1 < DIRENT by decide), Bytes.getLe, Nat.add_zero,
    Nat.mul_zero]

theorem decodeDirent_encodeDirent_inum (de : Dirent) :
    (decodeDirent (encodeDirent de)).inum = de.inum % 65536 := by
  simp only [decodeDirent, encodeDirent, List.getD_cons_zero, List.getD_cons_succ,
    UInt8.toNat_ofNat']
  omega

section

variable (sb : Superblock) (disk : Disk)

def dinodeAt (inum : Nat) : Dinode := getDinode (disk (IBLOCK inum sb)) (inum % IPB)

/-- Whether the free map has block `b` in use. -/
def bitAt (b : Nat) : Bool := (disk (BBLOCK b sb)).getBit (b % BPB)

def putDinode (inum : Nat) (d : Dinode) : Disk :=
  update disk (IBLOCK inum sb) (setDinode (disk (IBLOCK inum sb)) (inum % IPB) d)

def markUsed (b : Nat) : Disk :=
  update disk (BBLOCK b sb) ((disk (BBLOCK b sb)).setBit (b % BPB))

def markFree (b : Nat) : Disk :=
  update disk (BBLOCK b sb) ((disk (BBLOCK b sb)).clearBit (b % BPB))

end

variable {sb : Superblock} {disk : Disk}

theorem dinodeAt_putDinode {inum : Nat} {d : Dinode} (fits : d.Fits) :
    dinodeAt sb (putDinode sb disk inum d) = update (dinodeAt sb disk) inum d := by
  have slot : inum % IPB < IPB := Nat.mod_lt inum (by decide)
  funext other
  unfold dinodeAt putDinode
  by_cases same : other = inum
  · rw [same, update_self, update_self, getDinode_setDinode _ slot fits]
  · rw [update_of_ne same]
    by_cases sameBlock : IBLOCK other sb = IBLOCK inum sb
    · rw [sameBlock, update_self]
      apply getDinode_setDinode_other
      unfold IBLOCK at sameBlock
      unfold IPB at sameBlock ⊢
      omega
    · rw [update_of_ne sameBlock]

private theorem bitAt_update {b : Nat} {data : Block} {bit : Bool}
    (written : ∀ other, data.getBit other =
      if other = b % BPB then bit else (disk (BBLOCK b sb)).getBit other) :
    bitAt sb (update disk (BBLOCK b sb) data) =
      update (bitAt sb disk) b bit := by
  funext other
  unfold bitAt
  by_cases same : other = b
  · rw [same, update_self, update_self, written, if_pos rfl]
  · rw [update_of_ne same]
    by_cases sameBlock : BBLOCK other sb = BBLOCK b sb
    · rw [sameBlock, update_self, written, if_neg]
      unfold BBLOCK at sameBlock
      unfold BPB at sameBlock ⊢
      omega
    · rw [update_of_ne sameBlock]

private theorem bit_inside (b : Nat) : b % BPB / 8 < BSIZE := by
  unfold BPB BSIZE
  omega

theorem bitAt_markUsed (b : Nat) : bitAt sb (markUsed sb disk b) = update (bitAt sb disk) b true :=
  bitAt_update fun other => Bytes.getBit_setBit _ (bit_inside b) other

theorem bitAt_markFree (b : Nat) : bitAt sb (markFree sb disk b) = update (bitAt sb disk) b false :=
  bitAt_update fun other => Bytes.getBit_clearBit _ (bit_inside b) other

end Xv6.Fs
