import Xv6.Fs.Ownership

/-!
Contract: a file is an array of bytes.

On a well-formed disk, `readi` returns a piece of the array, and `writei` replaces a
piece of it or appends to it, if there are free blocks for what is new. A request
that starts behind the end, whose end is past the 32-bit range or past the largest
file is refused, and changes nothing.
-/

namespace Xv6.Fs

open Function Xv6.Lib

def fileAt (sb : Superblock) (disk : Disk) (i : Nat) : List UInt8 :=
  contents disk (dinodeAt sb disk i) 0 (dinodeAt sb disk i).size

@[simp] theorem length_contents (block : Nat → Block) (d : Dinode) (off n : Nat) :
    (contents block d off n).length = n := by
  simp [contents]

@[simp] theorem length_fileAt (sb : Superblock) (disk : Disk) (i : Nat) :
    (fileAt sb disk i).length = (dinodeAt sb disk i).size :=
  length_contents _ _ _ _

/-- A cached inode that is allocated and up to date, on a well-formed disk. -/
structure Settled (x : Slot) (s : FsState) : Prop where
  layout : s.sb.Valid
  wellFormed : WellFormed s.sb s.disk
  inside : (s.icache x).inum < s.sb.ninodes
  copy : (s.icache x).copy = dinodeAt s.sb s.disk (s.icache x).inum
  allocated : (s.icache x).copy.type ≠ 0

theorem Settled.current {x : Slot} {s : FsState} (settled : Settled x s) : Current x s := by
  have onDisk : (image s.sb s.disk).inode (s.icache x).inum = (s.icache x).copy :=
    (image_inode _ settled.inside).trans settled.copy.symm
  have views : view (some x) s = image s.sb s.disk := by
    rw [view_some, ← onDisk, Image.setInode_self]
  refine ⟨⟨settled.layout, settled.inside, settled.allocated, ?_, ?_⟩, onDisk⟩
  · rw [← onDisk]
    exact image_fits _
  · rw [views]
    exact settled.wellFormed.owned settled.layout

/-- The bytes of a file, read from the image of the disk. -/
theorem WellFormed.fileAt_eq {sb : Superblock} {disk : Disk} (wellFormed : WellFormed sb disk)
    {i : Nat} (inside : i < sb.ninodes) (allocated : (dinodeAt sb disk i).type ≠ 0)
    (notDevice : (dinodeAt sb disk i).type ≠ T_DEV) :
    fileAt sb disk i =
      (List.range (dinodeAt sb disk i).size).map ((image sb disk).byteAt i) := by
  unfold fileAt contents
  apply List.map_congr_left
  intro k below
  rw [List.mem_range] at below
  have mapped := wellFormed.mapped i inside allocated notDevice (k / BSIZE) (by
    have := Nat.div_mul_le_self k BSIZE
    omega)
  rw [Nat.zero_add, Image.byteAt, wellFormed.addrOf_eq inside allocated,
    image_block _ (wellFormed.addrOf_range inside allocated mapped)]

def readArray (file : List UInt8) (off n : Nat) : Int × List UInt8 :=
  if file.length < off ∨ 2 ^ 32 ≤ off + n then (-1, [])
  else ((min n (file.length - off) : Nat), (file.drop off).take n)

theorem uintAdd_lt_iff {a b : Nat} (fitsA : a < 2 ^ 32) (fitsB : b < 2 ^ 32) :
    uintAdd a b < a ↔ 2 ^ 32 ≤ a + b := by
  unfold uintAdd
  omega

theorem contents_eq_slice (block : Nat → Block) (d : Dinode) (off size n : Nat) :
    contents block d off (min n (size - off)) = ((contents block d 0 size).drop off).take n := by
  apply List.ext_getElem
  · simp
  · intro k first second
    simp [contents]

section

variable {x : Slot} {s : FsState} (settled : Settled x s)
  (notDevice : (s.icache x).copy.type ≠ T_DEV)
include settled notDevice

theorem readi_eq {off n : Nat} (fitsOff : off < 2 ^ 32) (fitsN : n < 2 ^ 32) :
    readi x off n s = (.ok (readArray (fileAt s.sb s.disk (s.icache x).inum) off n), s) := by
  have mapped : ∀ bn, bn * BSIZE < (s.icache x).copy.size →
      addrOf s.disk (s.icache x).copy bn ≠ 0 := by
    have allocated := settled.allocated
    rw [settled.copy] at allocated notDevice ⊢
    exact settled.wellFormed.mapped _ settled.inside allocated notDevice
  have spec : wp (readi x off n)
      (fun result s' => result = readResult s.disk (s.icache x).copy off n ∧ s' = s)
      (fun _ _ => False) s := by
    rw [wp_readi notDevice mapped]
    exact ⟨rfl, rfl⟩
  obtain ⟨value, after, ran, isValue, rfl⟩ := spec.returns
  rw [ran, isValue, readResult, readArray, length_fileAt, settled.copy]
  simp only [uintAdd_lt_iff fitsOff fitsN]
  split
  · rfl
  · rename_i inRange
    rw [not_or, not_lt] at inRange
    have count : (if (dinodeAt after.sb after.disk (after.icache x).inum).size < off + n
        then (dinodeAt after.sb after.disk (after.icache x).inum).size - off else n) =
        min n ((dinodeAt after.sb after.disk (after.icache x).inum).size - off) := by
      split <;> omega
    rw [count, contents_eq_slice, fileAt]

end

/-- The array after `src` has been written at `off`. -/
def writeArray (file : List UInt8) (off : Nat) (src : List UInt8) : List UInt8 :=
  file.take off ++ src ++ file.drop (off + src.length)

theorem length_writeArray {file : List UInt8} {off : Nat} (start : off ≤ file.length)
    (src : List UInt8) :
    (writeArray file off src).length = max file.length (off + src.length) := by
  simp only [writeArray, List.length_append, List.length_take, List.length_drop]
  omega

theorem writeArray_eq {byte byte' : Nat → UInt8} {size off : Nat} {src : List UInt8}
    (start : off ≤ size) (old : ∀ p, p < size → p < off ∨ off + src.length ≤ p → byte' p = byte p)
    (new : ∀ k, k < src.length → byte' (off + k) = src.getD k 0) :
    (List.range (max size (off + src.length))).map byte' =
      writeArray ((List.range size).map byte) off src := by
  have length : ((List.range size).map byte).length = size := by simp
  apply List.ext_getElem
  · rw [length_writeArray (length.symm ▸ start), length]
    simp
  · intro p first second
    rw [List.getElem_map, List.getElem_range]
    rw [List.length_map, List.length_range] at first
    simp only [writeArray, List.append_assoc]
    by_cases before : p < off
    · rw [List.getElem_append_left (by simp; omega), List.getElem_take, List.getElem_map,
        List.getElem_range, old p (by omega) (Or.inl before)]
    · rw [List.getElem_append_right (by simp; omega)]
      by_cases within : p < off + src.length
      · rw [List.getElem_append_left (by simp; omega)]
        have written := new (p - off) (by omega)
        rw [show off + (p - off) = p by omega] at written
        simp only [List.length_take, length, Nat.min_eq_left start]
        rw [written, List.getD_eq_getElem]
      · rw [List.getElem_append_right (by simp; omega)]
        simp only [List.getElem_drop, List.length_take, length, Nat.min_eq_left start,
          List.getElem_map, List.getElem_range]
        rw [show off + src.length + (p - off - src.length) = p by omega]
        exact old p (by omega) (Or.inr (not_lt.mp within))

/-- The file of the cached inode has been written, and no other. -/
structure Written (x : Slot) (off : Nat) (src : List UInt8) (s s' : FsState) : Prop where
  sb : s'.sb = s.sb
  devsw : s'.devsw = s.devsw
  inum : (s'.icache x).inum = (s.icache x).inum
  others : ∀ y, y ≠ x → s'.icache y = s.icache y
  settled : Settled x s'
  type : (s'.icache x).copy.type = (s.icache x).copy.type
  size : (s'.icache x).copy.size = max (s.icache x).copy.size (off + src.length)
  file : fileAt s.sb s'.disk (s.icache x).inum =
    writeArray (fileAt s.sb s.disk (s.icache x).inum) off src
  dinodes : ∀ j, j < s.sb.ninodes → j ≠ (s.icache x).inum →
    dinodeAt s.sb s'.disk j = dinodeAt s.sb s.disk j
  files : ∀ j, j < s.sb.ninodes → j ≠ (s.icache x).inum → (dinodeAt s.sb s.disk j).type ≠ 0 →
    (dinodeAt s.sb s.disk j).type ≠ T_DEV → fileAt s.sb s'.disk j = fileAt s.sb s.disk j

section

variable {x : Slot} {s s1 s2 : FsState} {off : Nat} {src : List UInt8}

theorem Settled.mapped (settled : Settled x s) (notDevice : (s.icache x).copy.type ≠ T_DEV)
    {bn : Nat} (below : bn * BSIZE < (s.icache x).copy.size) : Mapped x s bn := by
  have allocated := settled.allocated
  rw [settled.copy] at allocated notDevice below
  have mapped := settled.wellFormed.mapped _ settled.inside allocated notDevice bn below
  rw [Mapped, ← settled.current.onDisk, settled.wellFormed.addrOf_eq settled.inside allocated]
  exact mapped

/-- The disk is well-formed when the loop of `writei` has run and the new size is on the
disk. -/
theorem Wrote.wellFormed (wrote : Wrote x off src s s1) (settled : Settled x s)
    (notDevice : (s.icache x).copy.type ≠ T_DEV) (start : off ≤ (s.icache x).copy.size)
    (sized : Sized x (max (s.icache x).copy.size (off + src.length)) s s1 s2) :
    WellFormed s.sb s2.disk := by
  have extended := wrote.extended
  have isView := settled.current.view_eq
  apply wellFormed_of_owned
  · rw [sized.disk, Owned, Image.own_setSize]
    exact extended.sb ▸ wrote.laid.owned
  · rw [sized.disk]
    intro j allocated notDev bn below
    rw [Image.type_setSize, extended.inode_fields] at allocated notDev
    rw [Image.addrOf_setSize]
    by_cases same : j = (s.icache x).inum
    · rw [same, Image.setInode_inode, update_self] at below
      have mapped : Mapped x s1 bn := by
        rcases lt_max_iff.mp (show bn * BSIZE < max _ _ from below) with inOld | inNew
        · exact extended.mapped settled.current.toLaid (settled.mapped notDevice inOld)
        · exact wrote.covers settled.current.toLaid
            (fun bn early => settled.mapped notDevice (by omega)) inNew
      rw [same, ← extended.inum, view_some_self, view_block]
      exact mapped
    · rw [Image.setInode_inode, update_of_ne same, extended.inode_other same] at below
      rw [isView] at allocated notDev below
      have mapped := settled.wellFormed.covers j allocated notDev bn below
      rw [← isView] at allocated mapped
      rw [extended.addrOf_kept allocated mapped]
      exact mapped

section

variable (wrote : Wrote x off src s s1) (settled : Settled x s)
  (notDevice : (s.icache x).copy.type ≠ T_DEV) (start : off ≤ (s.icache x).copy.size)
  (sized : Sized x (max (s.icache x).copy.size (off + src.length)) s s1 s2)
include wrote settled sized

theorem Wrote.dinodeAt_self : dinodeAt s.sb s2.disk (s.icache x).inum =
    (s1.icache x).copy.setSize (max (s.icache x).copy.size (off + src.length)) := by
  rw [← image_inode _ settled.inside, sized.disk, Image.setInode_inode, update_self,
    ← wrote.extended.inum, view_some_self]

theorem Wrote.dinodeAt_other {j : Nat} (inside : j < s.sb.ninodes)
    (different : j ≠ (s.icache x).inum) : dinodeAt s.sb s2.disk j = dinodeAt s.sb s.disk j := by
  rw [← image_inode _ inside, ← image_inode _ inside, sized.disk, Image.setInode_inode,
    update_of_ne different, wrote.extended.inode_other different, settled.current.view_eq]

include notDevice start

theorem Wrote.fileAt_self : fileAt s.sb s2.disk (s.icache x).inum =
    writeArray (fileAt s.sb s.disk (s.icache x).inum) off src := by
  have wellFormed := wrote.wellFormed settled notDevice start sized
  have onDisk := wrote.dinodeAt_self settled sized
  have type : (s1.icache x).copy.type = (s.icache x).copy.type := wrote.extended.type
  have allocated := settled.allocated
  have notDev := notDevice
  rw [settled.copy] at allocated notDev
  rw [settled.wellFormed.fileAt_eq settled.inside allocated notDev,
    wellFormed.fileAt_eq settled.inside, onDisk, ← settled.copy, ← writeArray_eq start]
  · rfl
  · intro p below outside
    have mapped : Mapped x s (p / BSIZE) := settled.mapped notDevice (by
      have := Nat.div_mul_le_self p BSIZE
      omega)
    rw [sized.byteAt, ← settled.current.view_eq]
    apply wrote.old _ _ settled.current.allocated_view
    · rw [view_block, view_some_self]
      exact mapped
    · exact fun _ => outside
  · intro k within
    rw [sized.byteAt]
    exact wrote.new k within
  · rw [onDisk]
    exact type.trans_ne settled.allocated
  · rw [onDisk]
    exact type.trans_ne notDevice

theorem Wrote.fileAt_other {j : Nat} (inside : j < s.sb.ninodes)
    (different : j ≠ (s.icache x).inum) (allocated : (dinodeAt s.sb s.disk j).type ≠ 0)
    (notDev : (dinodeAt s.sb s.disk j).type ≠ T_DEV) :
    fileAt s.sb s2.disk j = fileAt s.sb s.disk j := by
  have wellFormed := wrote.wellFormed settled notDevice start sized
  have same := wrote.dinodeAt_other settled sized inside different
  have isView := settled.current.view_eq
  rw [settled.wellFormed.fileAt_eq inside allocated notDev,
    wellFormed.fileAt_eq inside (same ▸ allocated) (same ▸ notDev), same]
  apply List.map_congr_left
  intro p within
  rw [List.mem_range] at within
  have mapped := settled.wellFormed.covers j (image_inode _ inside ▸ allocated)
    (image_inode _ inside ▸ notDev) (p / BSIZE) (by
      rw [image_inode _ inside]
      have := Nat.div_mul_le_self p BSIZE
      omega)
  rw [sized.byteAt, ← isView]
  apply wrote.old
  · rw [isView, image_inode _ inside]
    exact allocated
  · rw [isView]
    exact mapped
  · exact fun isX => absurd isX different

/-- What is left when the loop of `writei` has run and the new size is on the disk. -/
theorem Wrote.written : Written x off src s s2 := by
  have atX : s2.icache x = { s.icache x with
      copy := (s1.icache x).copy.setSize (max (s.icache x).copy.size (off + src.length)) } := by
    rw [sized.icache, update_self]
  have type : (s1.icache x).copy.type = (s.icache x).copy.type := wrote.extended.type
  have sb := sized.sb
  refine ⟨sb, sized.devsw, by rw [atX], ?_, ⟨?_, ?_, ?_, ?_, ?_⟩, ?_, ?_,
    wrote.fileAt_self settled notDevice start sized, fun j => wrote.dinodeAt_other settled sized,
    fun j => wrote.fileAt_other settled notDevice start sized⟩
  · intro y different
    rw [sized.icache, update_of_ne different]
  · exact sb ▸ settled.layout
  · exact sb ▸ wrote.wellFormed settled notDevice start sized
  · rw [atX, sb]
    exact settled.inside
  · rw [atX, sb, wrote.dinodeAt_self settled sized]
  · rw [atX]
    exact type.trans_ne settled.allocated
  · rw [atX]
    exact type
  · rw [atX]
    rfl

end

theorem writei_writes (settled : Settled x s) (notDevice : (s.icache x).copy.type ≠ T_DEV)
    (start : off ≤ (s.icache x).copy.size) (small : off + src.length ≤ MAXFILE * BSIZE)
    (room : (lacking x (off + src.length) s).card ≤ (freeBlocks s).card) :
    ∃ s', writei x src off s = (.ok (src.length : Int), s') ∧ Written x off src s s' := by
  have below : off + src.length < 2 ^ 32 := by
    unfold MAXFILE NDIRECT NINDIRECT BSIZE at small
    omega
  have inRange : ¬ ((s.icache x).copy.size < off ∨ uintAdd off src.length < off) := by
    rw [uintAdd_lt_iff (by omega) (by omega)]
    omega
  have spec : wp (writei x src off)
      (fun result s' => result = src.length ∧ Written x off src s s') (fun _ _ => False) s := by
    simp only [writei, wp_bind, wp_get, if_neg notDevice, if_neg inRange, if_neg (not_lt.mpr small)]
    apply (writeLoop_spec settled.current.toLaid le_rfl small (Or.inr room)).mono
    intro _ s1 wrote
    apply (wrote.writeSize_spec settled.current (fun _ => settled.mapped notDevice) start small).mono
    intro _ s' sized
    exact ⟨rfl, wrote.written settled notDevice start sized⟩
  obtain ⟨value, s', ran, isLength, written⟩ := spec.returns
  exact ⟨s', isLength ▸ ran, written⟩

theorem writei_refuses (notDevice : (s.icache x).copy.type ≠ T_DEV) (fitsOff : off < 2 ^ 32)
    (fitsLength : src.length < 2 ^ 32)
    (refused : ¬ (off ≤ (s.icache x).copy.size ∧ off + src.length ≤ MAXFILE * BSIZE)) :
    writei x src off s = (.ok (-1), s) := by
  have spec : wp (writei x src off) (fun result s' => result = -1 ∧ s' = s) (fun _ _ => False) s := by
    simp only [writei, wp_bind, wp_get, if_neg notDevice, uintAdd_lt_iff fitsOff fitsLength]
    split
    · exact ⟨rfl, rfl⟩
    · rename_i inRange
      have large : MAXFILE * BSIZE < off + src.length := by omega
      rw [if_pos large]
      exact ⟨rfl, rfl⟩
  obtain ⟨value, after, ran, rfl, rfl⟩ := spec.returns
  exact ran

end

theorem Inv.settled {fixed : Superblock} {held : Holds} {locks : Locks} {s : FsState} {x : Slot}
    (inv : Inv fixed none held locks s) (positive : 0 < (s.icache x).ref)
    (valid : (s.icache x).valid = true) : Settled x s := by
  have inside := inv.inside x positive
  obtain ⟨isInode, allocated⟩ := inv.cached x positive valid
  exact ⟨inv.layout, inv.good.wellFormed.1, inside, isInode.trans (image_inode _ inside), allocated⟩

/-- The file `/f` is made and two bytes are written to it. -/
def twoBytes : List (ProcId × Call) :=
  [(⟨0, NPROC_pos⟩, .open (some [47, 102]) (O_CREATE ||| O_RDWR)),
    (⟨0, NPROC_pos⟩, .write 0 (some [7, 8]))]

def twoBytesSlot : Slot := ⟨1, one_lt_NINODE⟩

theorem twoBytes_settled : ∃ m, callSystem.run (boot (smallDisk 1) noDevices) twoBytes = some m ∧
    Settled twoBytesSlot m.sys.fs ∧ (m.sys.fs.icache twoBytesSlot).copy.type = T_FILE ∧
    fileAt m.sys.fs.sb m.sys.fs.disk (m.sys.fs.icache twoBytesSlot).inum = [7, 8] ∧
    (lacking twoBytesSlot 3 m.sys.fs).card ≤ (freeBlocks m.sys.fs).card := by
  have ends : (callSystem.run (boot (smallDisk 1) noDevices) twoBytes).map (fun m =>
      decide (m.halted = none ∧ 0 < (m.sys.fs.icache twoBytesSlot).ref ∧
        (m.sys.fs.icache twoBytesSlot).valid = true ∧
        (m.sys.fs.icache twoBytesSlot).copy.type = T_FILE ∧
        fileAt m.sys.fs.sb m.sys.fs.disk (m.sys.fs.icache twoBytesSlot).inum = [7, 8] ∧
        (lacking twoBytesSlot 3 m.sys.fs).card ≤ (freeBlocks m.sys.fs).card)) = some true := by
    decide +kernel
  obtain ⟨m, ran, final⟩ := Option.map_eq_some_iff.mp ends
  obtain ⟨goes, positive, valid, type, file, room⟩ := of_decide_eq_true final
  have inv := smallDisk_machineInv ran
  exact ⟨m, ran, (inv.goes goes).fs.settled positive valid, type, file, room⟩

/-- `readi` returns a piece of the file, `writei` replaces a piece of it or appends to it,
and what lies outside the range of either is refused. -/
theorem file_byteArray {x : Slot} {s : FsState} (settled : Settled x s)
    (notDevice : (s.icache x).copy.type ≠ T_DEV) :
    (∀ off n, off < 2 ^ 32 → n < 2 ^ 32 →
      readi x off n s = (.ok (readArray (fileAt s.sb s.disk (s.icache x).inum) off n), s)) ∧
    (∀ off src, off ≤ (s.icache x).copy.size → off + src.length ≤ MAXFILE * BSIZE →
      (lacking x (off + src.length) s).card ≤ (freeBlocks s).card →
      ∃ s', writei x src off s = (.ok (src.length : Int), s') ∧ Written x off src s s' ∧
        ∀ off' n', off' < 2 ^ 32 → n' < 2 ^ 32 → readi x off' n' s' =
          (.ok (readArray (writeArray (fileAt s.sb s.disk (s.icache x).inum) off src) off' n'), s')) ∧
    (∀ off src, off < 2 ^ 32 → src.length < 2 ^ 32 →
      ¬ (off ≤ (s.icache x).copy.size ∧ off + src.length ≤ MAXFILE * BSIZE) →
      writei x src off s = (.ok (-1), s)) := by
  refine ⟨fun off n => readi_eq settled notDevice, ?_, fun off src => writei_refuses notDevice⟩
  intro off src start small room
  obtain ⟨s', ran, written⟩ := writei_writes settled notDevice start small room
  refine ⟨s', ran, written, fun off' n' fitsOff fitsN => ?_⟩
  rw [readi_eq written.settled (written.type.trans_ne notDevice) fitsOff fitsN, written.sb,
    written.inum, written.file]

/-- A byte is appended to a file of two. -/
theorem file_byteArray_append :
    ∃ m s', callSystem.run (boot (smallDisk 1) noDevices) twoBytes = some m ∧
      writei twoBytesSlot [9] 2 m.sys.fs = (.ok 1, s') ∧
      readi twoBytesSlot 1 100 s' = (.ok (2, [8, 9]), s') := by
  obtain ⟨m, ran, settled, type, file, room⟩ := twoBytes_settled
  have notDevice : (m.sys.fs.icache twoBytesSlot).copy.type ≠ T_DEV := type.trans_ne (by decide)
  have size : (m.sys.fs.icache twoBytesSlot).copy.size = 2 := by
    rw [settled.copy, ← length_fileAt, file]
    rfl
  obtain ⟨s', wrote, -, reads⟩ :=
    (file_byteArray settled notDevice).2.1 2 [9] size.ge (by decide) room
  refine ⟨m, s', ran, wrote, ?_⟩
  rw [reads 1 100 (by decide) (by decide), file]
  rfl

/-- The bytes from 1 on of a file of two, as many as there can be: `off + n` does not fit
in 32 bits. -/
theorem readi_refuses_overflow :
    ∃ m, callSystem.run (boot (smallDisk 1) noDevices) twoBytes = some m ∧
      Settled twoBytesSlot m.sys.fs ∧ (m.sys.fs.icache twoBytesSlot).copy.type ≠ T_DEV ∧
      (fileAt m.sys.fs.sb m.sys.fs.disk (m.sys.fs.icache twoBytesSlot).inum).length = 2 ∧
      readi twoBytesSlot 1 (2 ^ 32 - 1) m.sys.fs = (.ok (-1, []), m.sys.fs) := by
  obtain ⟨m, ran, settled, type, file, -⟩ := twoBytes_settled
  have notDevice : (m.sys.fs.icache twoBytesSlot).copy.type ≠ T_DEV := type.trans_ne (by decide)
  refine ⟨m, ran, settled, notDevice, by rw [file]; rfl, ?_⟩
  rw [readi_eq settled notDevice (by decide) (by decide), readArray, if_pos (Or.inr (by decide))]

end Xv6.Fs
