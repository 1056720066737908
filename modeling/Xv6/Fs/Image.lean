import Xv6.Fs.Format
import Xv6.Lib.Allocation

/-!
Contract: which block belongs to which inode.

An `Image` is the inodes, the free map and the data blocks, however they are
stored. It is `Good` when every block has one owner, the free map is exact, files
have no holes and directories name inodes that exist.
-/

namespace Xv6.Fs

open Function Xv6.Lib

/-! ### Positions -/

/-- Where an inode keeps block numbers: in its own slots, the last of which is the
indirect block, or in the words of the indirect block. -/
inductive Pos where
  | slot (k : Fin (NDIRECT + 1))
  | entry (j : Fin NINDIRECT)
deriving DecidableEq

/-- The block number at a position; 0 is none. -/
def ref (block : Nat → Block) (d : Dinode) : Pos → Nat
  | .slot k => d.addrs k
  | .entry j => if d.addrs last = 0 then 0 else (block (d.addrs last)).getLe (4 * j.val) 4

variable {block : Nat → Block} {d : Dinode}

theorem ref_entry_of_none (none : d.addrs last = 0) (j : Fin NINDIRECT) :
    ref block d (.entry j) = 0 :=
  if_pos none

theorem ref_entry (some : d.addrs last ≠ 0) (j : Fin NINDIRECT) :
    ref block d (.entry j) = (block (d.addrs last)).getLe (4 * j.val) 4 :=
  if_neg some

theorem ref_congr {block' : Nat → Block}
    (same : d.addrs last ≠ 0 → block' (d.addrs last) = block (d.addrs last)) (pos : Pos) :
    ref block' d pos = ref block d pos := by
  cases pos with
  | slot k => rfl
  | entry j =>
    by_cases none : d.addrs last = 0
    · rw [ref_entry_of_none none, ref_entry_of_none none]
    · rw [ref_entry none, ref_entry none, same none]

/-- The position of the block `bn` of a file. -/
def posOf (bn : Nat) : Option Pos :=
  if direct : bn < NDIRECT then some (.slot ⟨bn, Nat.lt_succ_of_lt direct⟩)
  else if indirect : bn - NDIRECT < NINDIRECT then some (.entry ⟨bn - NDIRECT, indirect⟩)
  else none

/-- The block number of the block `bn` of a file. -/
def addrOf (block : Nat → Block) (d : Dinode) (bn : Nat) : Nat :=
  match posOf bn with
  | some pos => ref block d pos
  | none => 0

theorem addrOf_congr {block' : Nat → Block}
    (same : d.addrs last ≠ 0 → block' (d.addrs last) = block (d.addrs last)) (bn : Nat) :
    addrOf block' d bn = addrOf block d bn := by
  unfold addrOf
  split
  · exact ref_congr same _
  · rfl

variable {bn : Nat}

theorem posOf_cases {pos : Pos} (at_ : posOf bn = some pos) :
    (∃ k, pos = .slot k ∧ k.val = bn ∧ bn < NDIRECT) ∨
      ∃ j, pos = .entry j ∧ NDIRECT + j.val = bn := by
  unfold posOf at at_
  split at at_
  · rename_i direct
    exact Or.inl ⟨_, (Option.some.inj at_).symm, rfl, direct⟩
  · split at at_
    · rename_i notDirect indirect
      refine Or.inr ⟨_, (Option.some.inj at_).symm, ?_⟩
      simp only
      omega
    · cases at_

theorem posOf_ne_last : posOf bn ≠ some (.slot last) := by
  intro at_
  rcases posOf_cases at_ with ⟨k, isSlot, isBn, direct⟩ | ⟨j, isEntry, -⟩
  · rw [← Pos.slot.inj isSlot] at isBn
    simp only [last, Fin.val_last] at isBn
    omega
  · cases isEntry

theorem posOf_injective {other : Nat} {pos : Pos} (here : posOf bn = some pos)
    (there : posOf other = some pos) : bn = other := by
  rcases posOf_cases here with ⟨k, isSlot, isBn, -⟩ | ⟨j, isEntry, isBn⟩
  · rcases posOf_cases there with ⟨k', isSlot', isOther, -⟩ | ⟨j', isEntry', -⟩
    · cases isSlot.symm.trans isSlot'
      exact isBn.symm.trans isOther
    · cases isSlot.symm.trans isEntry'
  · rcases posOf_cases there with ⟨k', isSlot', -⟩ | ⟨j', isEntry', isOther⟩
    · cases isEntry.symm.trans isSlot'
    · cases isEntry.symm.trans isEntry'
      exact isBn.symm.trans isOther

theorem posOf_of_addrOf (mapped : addrOf block d bn ≠ 0) :
    ∃ pos, posOf bn = some pos ∧ ref block d pos = addrOf block d bn := by
  unfold addrOf at mapped ⊢
  cases at_ : posOf bn with
  | none => simp [at_] at mapped
  | some pos => exact ⟨pos, rfl, rfl⟩

def Dinode.setAddr (d : Dinode) (k : Fin (NDIRECT + 1)) (addr : Nat) : Dinode :=
  { d with addrs := update d.addrs k addr }

@[simp] theorem Dinode.setAddr_self (d : Dinode) (k : Fin (NDIRECT + 1)) (addr : Nat) :
    (d.setAddr k addr).addrs k = addr := by
  simp [setAddr]

def Dinode.setSize (d : Dinode) (size : Nat) : Dinode := { d with size := size }

/-! ### Images -/

/-- The inodes, the free map and the data blocks. -/
@[ext] structure Image where
  inode : Nat → Dinode
  bit : Nat → Bool
  block : Nat → Block

namespace Image

variable (img : Image)

def setInode (i : Nat) (d : Dinode) : Image := { img with inode := update img.inode i d }

def setBit (b : Nat) (used : Bool) : Image := { img with bit := update img.bit b used }

def setBlock (b : Nat) (data : Block) : Image :=
  { img with block := update img.block b data }

/-- The block that an inode owns at a position. An inode that is free owns none. -/
def own (key : Nat × Pos) : Nat :=
  if (img.inode key.1).type = 0 then 0 else ref img.block (img.inode key.1) key.2

def inumAt (i off : Nat) : Nat :=
  (img.block (addrOf img.block (img.inode i) (off / BSIZE))).getLe (off % BSIZE) 2

/-- Every block of inode `i` below the offset `upto` is mapped. -/
def Covers (i upto : Nat) : Prop :=
  ∀ bn, bn * BSIZE < upto → addrOf img.block (img.inode i) bn ≠ 0

/-- Every directory entry of inode `i` below the offset `upto` names an inode that
exists. -/
def Names (ninodes i upto : Nat) : Prop :=
  ∀ off, DIRENT ∣ off → off + DIRENT ≤ upto → img.inumAt i off < ninodes

end Image

structure Good (sb : Superblock) (img : Image) : Prop where
  fits : ∀ i, (img.inode i).Fits
  exact : Exact (· < sb.dataStart) sb.size img.own img.bit
  mapped : ∀ i, (img.inode i).type ≠ 0 → (img.inode i).type ≠ T_DEV →
    img.Covers i (img.inode i).size
  named : ∀ i, (img.inode i).type = T_DIR → img.Names sb.ninodes i (img.inode i).size

variable {b : Nat}

namespace Image

variable {img : Image}

@[simp] theorem setInode_inode (i : Nat) (d : Dinode) :
    (img.setInode i d).inode = update img.inode i d := rfl

@[simp] theorem setInode_bit (i : Nat) (d : Dinode) : (img.setInode i d).bit = img.bit := rfl

@[simp] theorem setInode_block (i : Nat) (d : Dinode) : (img.setInode i d).block = img.block := rfl

@[simp] theorem setBit_bit (b : Nat) (used : Bool) :
    (img.setBit b used).bit = update img.bit b used := rfl

@[simp] theorem setBit_block (b : Nat) (used : Bool) : (img.setBit b used).block = img.block := rfl

@[simp] theorem setBlock_inode (b : Nat) (data : Block) :
    (img.setBlock b data).inode = img.inode := rfl

@[simp] theorem setBlock_block (b : Nat) (data : Block) :
    (img.setBlock b data).block = update img.block b data := rfl

theorem setInode_self (i : Nat) : img.setInode i (img.inode i) = img := by
  simp [setInode]

theorem setInode_setInode (i : Nat) (d d' : Dinode) :
    (img.setInode i d).setInode i d' = img.setInode i d' := by
  simp [setInode]

theorem own_of_allocated {i : Nat} (allocated : (img.inode i).type ≠ 0) (pos : Pos) :
    img.own (i, pos) = ref img.block (img.inode i) pos :=
  if_neg allocated

theorem own_of_free {i : Nat} (free : (img.inode i).type = 0) (pos : Pos) : img.own (i, pos) = 0 :=
  if_pos free

theorem own_of_mapped {i : Nat} (allocated : (img.inode i).type ≠ 0)
    (mapped : addrOf img.block (img.inode i) bn ≠ 0) :
    ∃ pos, posOf bn = some pos ∧ img.own (i, pos) = addrOf img.block (img.inode i) bn := by
  obtain ⟨pos, at_, isRef⟩ := posOf_of_addrOf mapped
  exact ⟨pos, at_, (own_of_allocated allocated pos).trans isRef⟩

/-- An inode that keeps the blocks it owns keeps its blocks where they are. -/
theorem addrOf_of_kept {img' : Image} {i : Nat} (allocated : (img.inode i).type ≠ 0)
    (allocated' : (img'.inode i).type ≠ 0)
    (kept : ∀ pos, img.own (i, pos) ≠ 0 → img'.own (i, pos) = img.own (i, pos))
    (mapped : addrOf img.block (img.inode i) bn ≠ 0) :
    addrOf img'.block (img'.inode i) bn = addrOf img.block (img.inode i) bn := by
  obtain ⟨pos, at_, owns⟩ := own_of_mapped allocated mapped
  have same := kept pos (owns.trans_ne mapped)
  rw [owns, own_of_allocated allocated'] at same
  rw [← same, addrOf, at_]

/-- A store to a block that is not the inode's indirect block. -/
theorem own_setBlock_of_ne {i : Nat} (data : Block)
    (notIndirect : img.own (i, .slot last) ≠ 0 → img.own (i, .slot last) ≠ b) (pos : Pos) :
    (img.setBlock b data).own (i, pos) = img.own (i, pos) := by
  by_cases free : (img.inode i).type = 0
  · have stays : ((img.setBlock b data).inode i).type = 0 := free
    rw [own_of_free free, own_of_free stays]
  · rw [own_of_allocated free] at notIndirect
    have stays : ((img.setBlock b data).inode i).type ≠ 0 := free
    rw [own_of_allocated free, own_of_allocated stays]
    apply ref_congr
    intro indirect
    exact update_of_ne (notIndirect indirect) data img.block

/-- A store to a block that is nobody's indirect block. -/
theorem own_setBlock (data : Block)
    (notIndirect : ∀ i, img.own (i, .slot last) ≠ 0 → img.own (i, .slot last) ≠ b) :
    (img.setBlock b data).own = img.own := by
  funext ⟨i, pos⟩
  exact own_setBlock_of_ne data (notIndirect i) pos

theorem own_setBlock_last {i : Nat} (data : Block) (allocated : (img.inode i).type ≠ 0)
    (indirect : (img.inode i).addrs last = b) (nonzero : b ≠ 0) (j : Fin NINDIRECT) :
    (img.setBlock b data).own (i, .entry j) = data.getLe (4 * j.val) 4 := by
  have stored : (img.setBlock b data).block b = data := by
    rw [setBlock_block, update_self]
  have isLast : ((img.setBlock b data).inode i).addrs last = b := indirect
  have stays : ((img.setBlock b data).inode i).type ≠ 0 := allocated
  rw [own_of_allocated stays,
    ref_entry (isLast.trans_ne nonzero), isLast, stored]

theorem own_setInode_self {i : Nat} (allocated : d.type ≠ 0) (pos : Pos) :
    (img.setInode i d).own (i, pos) = ref img.block d pos := by
  have isD : (img.setInode i d).inode i = d := by
    rw [setInode_inode, update_self]
  rw [own_of_allocated (isD.symm ▸ allocated), isD]
  rfl

theorem own_setInode_other {i other : Nat} (different : other ≠ i) (pos : Pos) :
    (img.setInode i d).own (other, pos) = img.own (other, pos) := by
  have same : (img.setInode i d).inode other = img.inode other := by
    rw [setInode_inode, update_of_ne different]
  simp only [own, same, setInode_block]

end Image

/-! ### Sizes -/

namespace Image

variable (img : Image) (i size : Nat)

private theorem inode_setSize (j : Nat) :
    ((img.setInode i ((img.inode i).setSize size)).inode j).type = (img.inode j).type ∧
      ((img.setInode i ((img.inode i).setSize size)).inode j).addrs = (img.inode j).addrs := by
  by_cases same : j = i
  · rw [same, setInode_inode, update_self]
    exact ⟨rfl, rfl⟩
  · rw [setInode_inode, update_of_ne same]
    exact ⟨rfl, rfl⟩

theorem type_setSize (j : Nat) :
    ((img.setInode i ((img.inode i).setSize size)).inode j).type = (img.inode j).type :=
  (img.inode_setSize i size j).1

theorem addrOf_setSize (j bn : Nat) :
    addrOf (img.setInode i ((img.inode i).setSize size)).block
      ((img.setInode i ((img.inode i).setSize size)).inode j) bn =
      addrOf img.block (img.inode j) bn := by
  simp only [addrOf, ref, (img.inode_setSize i size j).2, setInode_block]

theorem own_setSize : (img.setInode i ((img.inode i).setSize size)).own = img.own := by
  funext ⟨j, pos⟩
  simp only [own, ref, (img.inode_setSize i size j).1, (img.inode_setSize i size j).2,
    setInode_block]

end Image

/-- Every block has one owner, and the free map is exact. -/
abbrev Owned (sb : Superblock) (img : Image) : Prop :=
  Exact (· < sb.dataStart) sb.size img.own img.bit

namespace Owned

variable {sb : Superblock} {img : Image} (owned : Owned sb img)
include owned

/-- An inode owns its blocks at positions of their own. -/
theorem addrOf_injective {i j other : Nat} (allocated : (img.inode i).type ≠ 0)
    (allocated' : (img.inode j).type ≠ 0) (mapped : addrOf img.block (img.inode i) bn ≠ 0)
    (same : addrOf img.block (img.inode i) bn = addrOf img.block (img.inode j) other) :
    i = j ∧ bn = other := by
  obtain ⟨pos, at_, owns⟩ := Image.own_of_mapped allocated mapped
  obtain ⟨pos', at', owns'⟩ := Image.own_of_mapped allocated' (same ▸ mapped)
  have key := owned.single (i, pos) (j, pos') (owns.trans_ne mapped)
    (owns.trans (same.trans owns'.symm))
  cases key
  exact ⟨rfl, posOf_injective at_ at'⟩

theorem addrOf_ne_indirect {i j : Nat} (allocated : (img.inode i).type ≠ 0)
    (mapped : addrOf img.block (img.inode i) bn ≠ 0) :
    img.own (j, .slot last) ≠ addrOf img.block (img.inode i) bn := by
  intro same
  obtain ⟨pos, at_, owns⟩ := Image.own_of_mapped allocated mapped
  have key := owned.single (i, pos) (j, .slot last) (owns.trans_ne mapped)
    (owns.trans same.symm)
  cases key
  exact posOf_ne_last at_

/-- A free block, zeroed, becomes the block at an empty slot. -/
theorem allocSlot {i : Nat} {k : Fin (NDIRECT + 1)} (allocated : (img.inode i).type ≠ 0)
    (empty : (img.inode i).addrs k = 0) (inside : b < sb.size) (free : img.bit b = false) :
    (((img.setBit b true).setBlock b Bytes.zero).setInode i ((img.inode i).setAddr k b)).own =
      update img.own (i, .slot k) b := by
  obtain ⟨nonzero, -, notOwned⟩ := owned.of_unused inside free
  have base : ((img.setBit b true).setBlock b Bytes.zero).own = img.own :=
    Image.own_setBlock _ fun j _ => notOwned (j, .slot last)
  funext ⟨j, pos⟩
  by_cases same : j = i
  · rw [same, Image.own_setInode_self (d := (img.inode i).setAddr k b) allocated]
    cases pos with
    | slot k' =>
      by_cases sameSlot : k' = k
      · simp only [sameSlot, ref, Dinode.setAddr, update_self]
      · rw [update_of_ne (by simp [sameSlot]), Image.own_of_allocated allocated]
        simp only [ref, Dinode.setAddr, update_of_ne sameSlot]
    | entry j' =>
      rw [update_of_ne (by simp), Image.own_of_allocated allocated]
      by_cases isLast : k = last
      · -- the new indirect block has no entries
        have isNew : ((img.inode i).setAddr k b).addrs last = b := by
          rw [← isLast]
          exact update_self k _ _
        have zeroed : ((img.setBit b true).setBlock b Bytes.zero).block b = Bytes.zero :=
          update_self _ _ _
        have before : ref img.block (img.inode i) (.entry j') = 0 :=
          ref_entry_of_none (isLast ▸ empty) j'
        rw [before, ref_entry (isNew.trans_ne nonzero), isNew, zeroed, Bytes.getLe_zero]
      · have kept : ((img.inode i).setAddr k b).addrs last = (img.inode i).addrs last :=
          update_of_ne (Ne.symm isLast) _ _
        have other := notOwned (i, .slot last)
        rw [Image.own_of_allocated allocated] at other
        have data : ((img.setBit b true).setBlock b Bytes.zero).block
            ((img.inode i).addrs last) = img.block ((img.inode i).addrs last) :=
          update_of_ne other _ _
        simp only [ref, kept, data]
  · rw [Image.own_setInode_other same, base, update_of_ne]
    intro key
    exact same (congrArg Prod.fst key)

/-- A free block, zeroed, is entered in an indirect block. -/
theorem allocEntry {i : Nat} {j : Fin NINDIRECT} (allocated : (img.inode i).type ≠ 0)
    (indirect : (img.inode i).addrs last ≠ 0) (inside : b < sb.size) (free : img.bit b = false)
    (fits : b < 2 ^ 32) :
    (((img.setBit b true).setBlock b Bytes.zero).setBlock ((img.inode i).addrs last)
      ((img.block ((img.inode i).addrs last)).setLe (4 * j.val) 4 b)).own =
      update img.own (i, .entry j) b := by
  obtain ⟨-, -, notOwned⟩ := owned.of_unused inside free
  have base : ((img.setBit b true).setBlock b Bytes.zero).own = img.own :=
    Image.own_setBlock _ fun j _ => notOwned (j, .slot last)
  have stays : (((img.setBit b true).setBlock b Bytes.zero).inode i).type ≠ 0 := allocated
  have isLast : img.own (i, .slot last) = (img.inode i).addrs last :=
    Image.own_of_allocated allocated _
  have room : 4 * j.val + 4 ≤ BSIZE := by
    have bound : j.val < 128 := j.isLt
    unfold BSIZE
    omega
  funext ⟨other, pos⟩
  by_cases same : other = i
  · rw [same]
    cases pos with
    | slot k =>
      rw [update_of_ne (by simp)]
      rfl
    | entry j' =>
      rw [Image.own_setBlock_last (b := (img.inode i).addrs last) _ stays rfl indirect]
      by_cases sameEntry : j' = j
      · rw [sameEntry, update_self, Bytes.getLe_setLe_same _ _ room]
        exact Nat.mod_eq_of_lt fits
      · have apart : j'.val ≠ j.val := fun equal => sameEntry (Fin.ext equal)
        rw [update_of_ne (by simp [sameEntry]),
          Bytes.getLe_setLe_other _ _ (by omega), Image.own_of_allocated allocated,
          ref_entry indirect]
  · have notKey : (other, pos) ≠ (i, Pos.entry j) := fun key => same (congrArg Prod.fst key)
    rw [update_of_ne notKey, Image.own_setBlock_of_ne, base]
    rw [base, ← isLast]
    intro owns equal
    exact same (congrArg Prod.fst (owned.single _ _ owns equal))

theorem own_write {i : Nat} (data : Block) (allocated : (img.inode i).type ≠ 0)
    (mapped : addrOf img.block (img.inode i) bn ≠ 0) :
    (img.setBlock (addrOf img.block (img.inode i) bn) data).own = img.own :=
  Image.own_setBlock data fun _ _ => owned.addrOf_ne_indirect allocated mapped

end Owned

namespace Good

variable {sb : Superblock} {img img' : Image}

/-- A change after which every inode is as large as before and owns at least the blocks
it owned, with the contents they had. -/
theorem grow (good : Good sb img) (fits : ∀ i, (img'.inode i).Fits)
    (exact : Exact (· < sb.dataStart) sb.size img'.own img'.bit)
    (type : ∀ i, (img'.inode i).type = (img.inode i).type)
    (size : ∀ i, (img'.inode i).size = (img.inode i).size)
    (kept : ∀ i pos, img.own (i, pos) ≠ 0 → img'.own (i, pos) = img.own (i, pos))
    (contents : ∀ i pos, pos ≠ .slot last → img.own (i, pos) ≠ 0 →
      img'.block (img.own (i, pos)) = img.block (img.own (i, pos))) : Good sb img' := by
  have addr : ∀ i bn, (img.inode i).type ≠ 0 → addrOf img.block (img.inode i) bn ≠ 0 →
      addrOf img'.block (img'.inode i) bn = addrOf img.block (img.inode i) bn := by
    intro i bn allocated mapped
    exact Image.addrOf_of_kept allocated (type i ▸ allocated) (kept i) mapped
  constructor
  · exact fits
  · exact exact
  · intro i allocated notDevice bn below
    rw [type] at allocated notDevice
    rw [size] at below
    have mapped := good.mapped i allocated notDevice bn below
    exact (addr i bn allocated mapped).trans_ne mapped
  · intro i directory off aligned below
    rw [type] at directory
    rw [size] at below
    have allocated : (img.inode i).type ≠ 0 := directory.trans_ne (by decide)
    have mapped := good.mapped i allocated (directory.trans_ne (by decide)) (off / BSIZE) (by
      unfold DIRENT at below
      unfold BSIZE
      omega)
    obtain ⟨pos, at_, owns⟩ := Image.own_of_mapped allocated mapped
    have notLast : pos ≠ .slot last := fun isLast => posOf_ne_last (isLast ▸ at_)
    have same := contents i pos notLast (owns.trans_ne mapped)
    rw [Image.inumAt, addr i _ allocated mapped, ← owns, same, owns]
    exact good.named i directory off aligned below

/-! ### Changes -/

/-- A fact about the inodes of a table in which one has been replaced. -/
theorem forall_setInode {motive : Nat → Dinode → Prop} {i : Nat} (self : motive i d)
    (others : ∀ other, other ≠ i → motive other (img.inode other)) :
    ∀ other, motive other ((img.setInode i d).inode other) := by
  intro other
  by_cases same : other = i
  · rw [same, Image.setInode_inode, update_self]
    exact self
  · rw [Image.setInode_inode, update_of_ne same]
    exact others other same

theorem relabel (good : Good sb img) {i : Nat} (type : d.type = (img.inode i).type)
    (size : d.size = (img.inode i).size) (addrs : d.addrs = (img.inode i).addrs) :
    Good sb (img.setInode i d) := by
  have own : (img.setInode i d).own = img.own := by
    funext ⟨j, pos⟩
    by_cases same : j = i
    · rw [same]
      by_cases free : (img.inode i).type = 0
      · rw [Image.own_of_free free, Image.own_of_free]
        rw [Image.setInode_inode, update_self, type, free]
      · rw [Image.own_setInode_self (type ▸ free), Image.own_of_allocated free]
        simp only [ref, addrs]
    · exact Image.own_setInode_other same pos
  apply good.grow
  · apply forall_setInode
    · exact ⟨size ▸ (good.fits i).size, addrs ▸ (good.fits i).addrs⟩
    · exact fun other _ => good.fits other
  · exact own ▸ good.exact
  · exact forall_setInode (motive := fun j d => d.type = (img.inode j).type) type fun _ _ => rfl
  · exact forall_setInode (motive := fun j d => d.size = (img.inode j).size) size fun _ _ => rfl
  · exact fun j pos _ => congrFun own (j, pos)
  · exact fun _ _ _ _ => rfl

/-- A file gets another size, below which it has no holes. -/
theorem resize (good : Good sb img) {i size : Nat} (fits : size < 2 ^ 32)
    (covers : img.Covers i size)
    (named : (img.inode i).type = T_DIR → img.Names sb.ninodes i size) :
    Good sb (img.setInode i ((img.inode i).setSize size)) := by
  constructor
  · exact forall_setInode ⟨fits, (good.fits i).addrs⟩ fun other _ => good.fits other
  · exact (img.own_setSize i size).symm ▸ good.exact
  · intro j allocated notDevice bn below
    rw [img.type_setSize] at allocated notDevice
    rw [img.addrOf_setSize]
    by_cases same : j = i
    · rw [same, Image.setInode_inode, update_self] at below
      exact same ▸ covers bn below
    · rw [Image.setInode_inode, update_of_ne same] at below
      exact good.mapped j allocated notDevice bn below
  · intro j directory off aligned below
    rw [img.type_setSize] at directory
    rw [Image.inumAt, img.addrOf_setSize]
    by_cases same : j = i
    · rw [same, Image.setInode_inode, update_self] at below
      exact same ▸ named (same ▸ directory) off aligned below
    · rw [Image.setInode_inode, update_of_ne same] at below
      exact good.named j directory off aligned below

/-- An inode becomes empty; `bit` is the free map without the blocks it owned. -/
theorem emptied (good : Good sb img) {i : Nat} {bit : Nat → Bool} (size : d.size = 0)
    (addrs : ∀ k, d.addrs k = 0)
    (exact : Exact (· < sb.dataStart) sb.size (fun key => if key.1 = i then 0 else img.own key) bit) :
    Good sb ({ img with bit := bit }.setInode i d) := by
  have own : ({ img with bit := bit }.setInode i d).own =
      fun key => if key.1 = i then 0 else img.own key := by
    funext ⟨j, pos⟩
    by_cases same : j = i
    · rw [same, if_pos rfl]
      by_cases free : d.type = 0
      · apply Image.own_of_free
        rw [Image.setInode_inode, update_self, free]
      · rw [Image.own_setInode_self free]
        cases pos with
        | slot k => exact addrs k
        | entry j => exact ref_entry_of_none (addrs last) j
    · rw [Image.own_setInode_other same, if_neg same]
      rfl
  constructor
  · refine forall_setInode ⟨?_, fun k => ?_⟩ fun other _ => good.fits other
    · rw [size]
      decide
    · rw [addrs]
      decide
  · exact own ▸ exact
  · intro j allocated notDevice bn below
    by_cases same : j = i
    · rw [same, Image.setInode_inode, update_self, size] at below
      exact absurd below (Nat.not_lt_zero _)
    · rw [Image.setInode_inode, update_of_ne same] at allocated notDevice below ⊢
      exact good.mapped j allocated notDevice bn below
  · intro j directory off aligned below
    by_cases same : j = i
    · rw [same, Image.setInode_inode, update_self, size] at below
      exact absurd below (by simp [DIRENT])
    · rw [Image.inumAt]
      rw [Image.setInode_inode, update_of_ne same] at directory below ⊢
      exact good.named j directory off aligned below

/-- An inode that owns nothing is replaced by an empty one. -/
theorem reset (good : Good sb img) {i : Nat} (nothing : ∀ pos, img.own (i, pos) = 0)
    (size : d.size = 0) (addrs : ∀ k, d.addrs k = 0) : Good sb (img.setInode i d) := by
  apply good.emptied size addrs
  have own : (fun key : Nat × Pos => if key.1 = i then 0 else img.own key) = img.own := by
    funext ⟨j, pos⟩
    by_cases same : j = i
    · rw [same, if_pos rfl, nothing]
    · rw [if_neg same]
  rw [own]
  exact good.exact

end Good

/-! ### The image of a disk -/

section

variable (sb : Superblock) (disk : Disk)

/-- The image that a disk holds. What is past the end of a region is left out. -/
def image : Image where
  inode i := if i < sb.ninodes then dinodeAt sb disk i else Dinode.zero
  bit b := decide (b < sb.size) && bitAt sb disk b
  block b := if sb.dataStart ≤ b then disk b else Bytes.zero

end

variable {sb : Superblock} {disk : Disk}

theorem image_inode (disk : Disk) {i : Nat} (inside : i < sb.ninodes) :
    (image sb disk).inode i = dinodeAt sb disk i :=
  if_pos inside

theorem image_bit (disk : Disk) (inside : b < sb.size) :
    (image sb disk).bit b = bitAt sb disk b := by
  simp [image, inside]

theorem image_block (disk : Disk) (inside : sb.dataStart ≤ b) : (image sb disk).block b = disk b :=
  if_pos inside

theorem image_fits (i : Nat) : ((image sb disk).inode i).Fits := by
  by_cases inside : i < sb.ninodes
  · rw [image_inode _ inside]
    exact getDinode_fits _ _
  · have isZero : (image sb disk).inode i = Dinode.zero := if_neg inside
    rw [isZero]
    exact ⟨by decide, fun _ => show 0 < 2 ^ 32 by decide⟩

variable {data : Block}

theorem readsb_update (other : b ≠ 1) : readsb (update disk b data) = readsb disk := by
  simp only [readsb, update_of_ne (Ne.symm other)]

section

variable (layout : sb.Valid)
include layout

private theorem update_inode (outside : sb.bmapstart ≤ b) :
    (image sb (update disk b data)).inode = (image sb disk).inode := by
  funext i
  by_cases inside : i < sb.ninodes
  · have range := layout.IBLOCK_range inside
    rw [image_inode _ inside, image_inode _ inside, dinodeAt, dinodeAt, update_of_ne (by omega)]
  · simp only [image, if_neg inside]

private theorem update_bit (outside : b < sb.bmapstart ∨ sb.dataStart ≤ b) :
    (image sb (update disk b data)).bit = (image sb disk).bit := by
  funext other
  by_cases inside : other < sb.size
  · have range := layout.BBLOCK_range inside
    rw [image_bit _ inside, image_bit _ inside, bitAt, bitAt, update_of_ne (by omega)]
  · simp [image, inside]

omit layout in
private theorem update_block (outside : b < sb.dataStart) :
    (image sb (update disk b data)).block = (image sb disk).block := by
  funext other
  by_cases inside : sb.dataStart ≤ other
  · rw [image_block _ inside, image_block _ inside, update_of_ne (by omega)]
  · simp only [image, if_neg inside]

theorem image_putDinode {i : Nat} (inside : i < sb.ninodes) (fits : d.Fits) :
    image sb (putDinode sb disk i d) = (image sb disk).setInode i d := by
  have range := layout.IBLOCK_range inside
  have before := layout.bmapstart_lt_dataStart
  apply Image.ext
  · funext other
    by_cases otherInside : other < sb.ninodes
    · rw [image_inode _ otherInside, dinodeAt_putDinode fits, Image.setInode_inode]
      by_cases same : other = i
      · rw [same, update_self, update_self]
      · rw [update_of_ne same, update_of_ne same, image_inode _ otherInside]
    · have different : other ≠ i := fun same => otherInside (same ▸ inside)
      rw [Image.setInode_inode, update_of_ne different]
      simp only [image, if_neg otherInside]
  · exact update_bit layout (Or.inl range.2)
  · exact update_block (by omega)

private theorem image_mark {used : Bool} (inside : b < sb.size)
    (marks : bitAt sb (update disk (BBLOCK b sb) data) = update (bitAt sb disk) b used) :
    image sb (update disk (BBLOCK b sb) data) = (image sb disk).setBit b used := by
  have range := layout.BBLOCK_range inside
  apply Image.ext
  · exact update_inode layout range.1
  · funext other
    by_cases otherInside : other < sb.size
    · rw [image_bit _ otherInside, marks, Image.setBit_bit]
      by_cases same : other = b
      · rw [same, update_self, update_self]
      · rw [update_of_ne same, update_of_ne same, image_bit _ otherInside]
    · have different : other ≠ b := fun same => otherInside (same ▸ inside)
      rw [Image.setBit_bit, update_of_ne different]
      simp [image, otherInside]
  · exact update_block range.2

theorem image_markUsed (disk : Disk) (inside : b < sb.size) :
    image sb (markUsed sb disk b) = (image sb disk).setBit b true :=
  image_mark layout inside (bitAt_markUsed b)

theorem image_markFree (disk : Disk) (inside : b < sb.size) :
    image sb (markFree sb disk b) = (image sb disk).setBit b false :=
  image_mark layout inside (bitAt_markFree b)

theorem image_update_data (inside : sb.dataStart ≤ b) :
    image sb (update disk b data) = (image sb disk).setBlock b data := by
  have before := layout.bmapstart_lt_dataStart
  apply Image.ext
  · exact update_inode layout (by omega)
  · exact update_bit layout (Or.inr inside)
  · funext other
    by_cases otherInside : sb.dataStart ≤ other
    · rw [image_block _ otherInside, Image.setBlock_block]
      by_cases same : other = b
      · rw [same, update_self, update_self]
      · rw [update_of_ne same, update_of_ne same, image_block _ otherInside]
    · have different : other ≠ b := fun same => otherInside (same ▸ inside)
      rw [Image.setBlock_block, update_of_ne different]
      simp only [image, if_neg otherInside]

end

/-! ### Well-formed disks -/

/-- Block `b` is stored at the position `pos` of the allocated inode `i`. -/
def Refers (sb : Superblock) (disk : Disk) (i : Nat) (pos : Pos) (b : Nat) : Prop :=
  i < sb.ninodes ∧ (dinodeAt sb disk i).type ≠ 0 ∧ ref disk (dinodeAt sb disk i) pos = b ∧ b ≠ 0

/-- Inodes refer to data blocks, each to blocks of its own; the free map is exact; files
and directories have no holes. -/
structure WellFormed (sb : Superblock) (disk : Disk) : Prop where
  inRange : ∀ i pos b, Refers sb disk i pos b → sb.dataStart ≤ b ∧ b < sb.size
  single : ∀ i pos j pos' b, Refers sb disk i pos b → Refers sb disk j pos' b → i = j ∧ pos = pos'
  bitmap : ∀ b, b < sb.size →
    (bitAt sb disk b = true ↔ b < sb.dataStart ∨ ∃ i pos, Refers sb disk i pos b)
  mapped : ∀ i, i < sb.ninodes → (dinodeAt sb disk i).type ≠ 0 → (dinodeAt sb disk i).type ≠ T_DEV →
    ∀ bn, bn * BSIZE < (dinodeAt sb disk i).size → addrOf disk (dinodeAt sb disk i) bn ≠ 0

def EntriesExist (sb : Superblock) (disk : Disk) : Prop :=
  ∀ i, i < sb.ninodes → (dinodeAt sb disk i).type = T_DIR → ∀ off, DIRENT ∣ off →
    off + DIRENT ≤ (dinodeAt sb disk i).size →
      (disk (addrOf disk (dinodeAt sb disk i) (off / BSIZE))).getLe (off % BSIZE) 2 < sb.ninodes

section

variable (indirect : ∀ i, i < sb.ninodes → (dinodeAt sb disk i).type ≠ 0 →
  (dinodeAt sb disk i).addrs last ≠ 0 → sb.dataStart ≤ (dinodeAt sb disk i).addrs last)
include indirect

private theorem addrOf_image {i : Nat} (inside : i < sb.ninodes)
    (allocated : (dinodeAt sb disk i).type ≠ 0) (bn : Nat) :
    addrOf (image sb disk).block ((image sb disk).inode i) bn =
      addrOf disk (dinodeAt sb disk i) bn := by
  rw [image_inode _ inside]
  exact addrOf_congr (fun some => image_block _ (indirect i inside allocated some)) bn

private theorem own_image {i : Nat} {pos : Pos} (nonzero : b ≠ 0) :
    (image sb disk).own (i, pos) = b ↔ Refers sb disk i pos b := by
  by_cases inside : i < sb.ninodes
  · by_cases free : (dinodeAt sb disk i).type = 0
    · rw [Image.own_of_free (image_inode _ inside ▸ free)]
      exact ⟨fun isZero => absurd isZero.symm nonzero, fun refers => absurd free refers.2.1⟩
    · rw [Image.own_of_allocated (image_inode _ inside ▸ free), image_inode _ inside,
        ref_congr fun some => image_block _ (indirect i inside free some)]
      exact ⟨fun isRef => ⟨inside, free, isRef, nonzero⟩, fun refers => refers.2.2.1⟩
  · have isZero : (image sb disk).inode i = Dinode.zero := if_neg inside
    have free : ((image sb disk).inode i).type = 0 := by
      rw [isZero]
      rfl
    rw [Image.own_of_free free]
    exact ⟨fun same => absurd same.symm nonzero, fun refers => absurd refers.1 inside⟩

end

theorem allocated_inside {i : Nat} (allocated : ((image sb disk).inode i).type ≠ 0) :
    i < sb.ninodes ∧ (image sb disk).inode i = dinodeAt sb disk i := by
  by_cases inside : i < sb.ninodes
  · exact ⟨inside, image_inode _ inside⟩
  · have isZero : (image sb disk).inode i = Dinode.zero := if_neg inside
    rw [isZero] at allocated
    exact absurd rfl allocated

namespace WellFormed

variable (wellFormed : WellFormed sb disk)
include wellFormed

theorem indirect (i : Nat) (inside : i < sb.ninodes) (allocated : (dinodeAt sb disk i).type ≠ 0)
    (some : (dinodeAt sb disk i).addrs last ≠ 0) :
    sb.dataStart ≤ (dinodeAt sb disk i).addrs last :=
  (wellFormed.inRange i (.slot last) _ ⟨inside, allocated, rfl, some⟩).1

theorem owned (layout : sb.Valid) : Owned sb (image sb disk) := by
  have positive : 0 < sb.dataStart := by
    have before := layout.bmapstart_lt_dataStart
    omega
  have refers : ∀ key : Nat × Pos, (image sb disk).own key ≠ 0 →
      Refers sb disk key.1 key.2 ((image sb disk).own key) :=
    fun key owns => (own_image wellFormed.indirect owns).mp rfl
  refine ⟨positive, ?_, ?_, ?_⟩
  · intro key owns
    have range := wellFormed.inRange _ _ _ (refers key owns)
    exact ⟨not_lt.mpr range.1, range.2⟩
  · intro first second owns same
    have both := wellFormed.single _ _ _ _ _ (refers first owns)
      (same ▸ refers second (same ▸ owns))
    exact Prod.ext both.1 both.2
  · intro b inside
    rw [image_bit _ inside, wellFormed.bitmap b inside]
    refine or_congr_right ⟨fun ⟨i, pos, refers⟩ => ⟨(i, pos), ?_⟩, fun ⟨key, owns, isB⟩ => ?_⟩
    · have isB := (own_image wellFormed.indirect refers.2.2.2).mpr refers
      exact ⟨isB.trans_ne refers.2.2.2, isB⟩
    · exact ⟨key.1, key.2, isB ▸ refers key owns⟩

theorem covers (i : Nat) (allocated : ((image sb disk).inode i).type ≠ 0)
    (notDevice : ((image sb disk).inode i).type ≠ T_DEV) :
    (image sb disk).Covers i ((image sb disk).inode i).size := by
  intro bn below
  obtain ⟨inside, isDisk⟩ := allocated_inside allocated
  rw [isDisk] at allocated notDevice below
  rw [addrOf_image wellFormed.indirect inside allocated]
  exact wellFormed.mapped i inside allocated notDevice bn below

theorem addrOf_range {i : Nat} (inside : i < sb.ninodes) (allocated : (dinodeAt sb disk i).type ≠ 0)
    (mapped : addrOf disk (dinodeAt sb disk i) bn ≠ 0) :
    sb.dataStart ≤ addrOf disk (dinodeAt sb disk i) bn := by
  obtain ⟨pos, -, isRef⟩ := posOf_of_addrOf mapped
  exact (wellFormed.inRange i pos _ ⟨inside, allocated, isRef, mapped⟩).1

theorem addrOf_eq {i : Nat} (inside : i < sb.ninodes) (allocated : (dinodeAt sb disk i).type ≠ 0)
    (bn : Nat) :
    addrOf (image sb disk).block ((image sb disk).inode i) bn =
      addrOf disk (dinodeAt sb disk i) bn :=
  addrOf_image wellFormed.indirect inside allocated bn

theorem good (layout : sb.Valid) (entries : EntriesExist sb disk) : Good sb (image sb disk) := by
  refine ⟨image_fits, wellFormed.owned layout, wellFormed.covers, ?_⟩
  intro i directory off aligned below
  obtain ⟨inside, isDisk⟩ := allocated_inside (directory.trans_ne (by decide))
  rw [isDisk] at directory below
  have allocated : (dinodeAt sb disk i).type ≠ 0 := directory.trans_ne (by decide)
  have mapped := wellFormed.mapped i inside allocated (directory.trans_ne (by decide))
    (off / BSIZE) (by unfold DIRENT at below; unfold BSIZE; omega)
  rw [Image.inumAt, wellFormed.addrOf_eq inside allocated,
    image_block _ (wellFormed.addrOf_range inside allocated mapped)]
  exact entries i inside directory off aligned below

end WellFormed

theorem wellFormed_of_owned (owned : Owned sb (image sb disk))
    (covers : ∀ i, ((image sb disk).inode i).type ≠ 0 → ((image sb disk).inode i).type ≠ T_DEV →
      (image sb disk).Covers i ((image sb disk).inode i).size) : WellFormed sb disk := by
  have stays : ∀ i, i < sb.ninodes → (dinodeAt sb disk i).type ≠ 0 →
      ((image sb disk).inode i).type ≠ 0 := by
    intro i inside allocated
    rw [image_inode _ inside]
    exact allocated
  have indirect : ∀ i, i < sb.ninodes → (dinodeAt sb disk i).type ≠ 0 →
      (dinodeAt sb disk i).addrs last ≠ 0 → sb.dataStart ≤ (dinodeAt sb disk i).addrs last := by
    intro i inside allocated some
    have isLast : (image sb disk).own (i, .slot last) = (dinodeAt sb disk i).addrs last := by
      rw [Image.own_of_allocated (stays i inside allocated), image_inode _ inside]
      rfl
    have range := (owned.inRange (i, .slot last) (isLast.trans_ne some)).1
    rw [isLast] at range
    exact not_lt.mp range
  have owns : ∀ {i pos b}, Refers sb disk i pos b → (image sb disk).own (i, pos) = b :=
    fun refers => (own_image indirect refers.2.2.2).mpr refers
  constructor
  · intro i pos b refers
    have range := owned.inRange (i, pos) ((owns refers).trans_ne refers.2.2.2)
    rw [owns refers] at range
    exact ⟨not_lt.mp range.1, range.2⟩
  · intro i pos j pos' b first second
    have key := owned.single (i, pos) (j, pos') ((owns first).trans_ne first.2.2.2)
      ((owns first).trans (owns second).symm)
    exact ⟨congrArg Prod.fst key, congrArg Prod.snd key⟩
  · intro b inside
    rw [← image_bit _ inside, owned.exact b inside]
    refine or_congr_right ⟨fun ⟨key, nonzero, isB⟩ => ?_, fun ⟨i, pos, refers⟩ => ?_⟩
    · exact ⟨key.1, key.2, (own_image indirect (isB ▸ nonzero)).mp isB⟩
    · exact ⟨(i, pos), (owns refers).trans_ne refers.2.2.2, owns refers⟩
  · intro i inside allocated notDevice bn below
    have mapped := covers i (stays i inside allocated) (image_inode _ inside ▸ notDevice) bn
      (image_inode _ inside ▸ below)
    rwa [addrOf_image indirect inside allocated] at mapped

theorem Good.wellFormed (good : Good sb (image sb disk)) :
    WellFormed sb disk ∧ EntriesExist sb disk := by
  have wellFormed := wellFormed_of_owned good.exact good.mapped
  refine ⟨wellFormed, ?_⟩
  intro i inside directory off aligned below
  have allocated : (dinodeAt sb disk i).type ≠ 0 := directory.trans_ne (by decide)
  have named := good.named i (image_inode _ inside ▸ directory) off aligned
    (image_inode _ inside ▸ below)
  have mapped := wellFormed.mapped i inside allocated (directory.trans_ne (by decide))
    (off / BSIZE) (by unfold DIRENT at below; unfold BSIZE; omega)
  rwa [Image.inumAt, wellFormed.addrOf_eq inside allocated,
    image_block _ (wellFormed.addrOf_range inside allocated mapped)] at named

end Xv6.Fs
