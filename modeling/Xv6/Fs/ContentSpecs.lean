import Xv6.Fs.Tree

/-!
Contract: what reading and writing a locked inode do to the invariant.

Reading a locked inode changes nothing, because every block below its size is
mapped. Writing it extends it: its blocks stay mapped, and those that are written
are mapped as well. A directory is written one entry at a time.
-/

namespace Xv6.Fs

open Function Xv6.Lib

namespace Inv

variable {fixed : Superblock} {held : Holds} {locks : Locks} {s : FsState} {x : Slot} {d : Dinode}

theorem laid (inv : Inv fixed (some x) held locks s) (locked : locks x = some d) : Laid x s := by
  obtain ⟨isInode, allocated⟩ := inv.locked_inode locked
  have isCopy := (inv.locked x d locked).2.2.2
  refine ⟨inv.layout, inv.locked_inside locked, isCopy ▸ allocated, ?_, inv.good.exact⟩
  rw [isCopy, ← isInode]
  exact inv.good.fits _

variable (inv : Inv fixed none held locks s) (locked : locks x = some d)
include inv locked

theorem current : Current x s := by
  obtain ⟨isInode, -⟩ := inv.locked_inode locked
  have isCopy := (inv.locked x d locked).2.2.2
  exact ⟨(inv.toDirty locked).laid locked, isInode.trans isCopy.symm⟩

theorem addrOf_range {bn : Nat} (mapped : addrOf (image s.sb s.disk).block d bn ≠ 0) :
    s.sb.dataStart ≤ addrOf (image s.sb s.disk).block d bn := by
  have isCopy := (inv.locked x d locked).2.2.2
  subst isCopy
  exact (inv.current locked).addrOf_range mapped

theorem addrOf_disk (bn : Nat) : addrOf s.disk d bn = addrOf (image s.sb s.disk).block d bn := by
  have isCopy := (inv.locked x d locked).2.2.2
  subst isCopy
  exact (inv.current locked).addrOf_disk bn

theorem covers (notDevice : d.type ≠ T_DEV) {bn : Nat} (below : bn * BSIZE < d.size) :
    addrOf (image s.sb s.disk).block d bn ≠ 0 := by
  obtain ⟨isD, allocated⟩ := inv.locked_inode locked
  have mapped := inv.good.mapped (s.icache x).inum (isD.symm ▸ allocated) (isD.symm ▸ notDevice) bn
  rw [isD, view_block] at mapped
  exact mapped below

end Inv

section

variable {fixed : Superblock} {broken stuck : Prop} {held : Holds} {locks : Locks} {s : FsState} {x : Slot}
  {d : Dinode}

variable {off : Nat}

theorem wp_readi_locked {halts : Halt → FsState → Prop} (inv : Inv fixed none held locks s)
    (locked : locks x = some d) (notDevice : d.type ≠ T_DEV) {n : Nat}
    {post : Int × List UInt8 → FsState → Prop} :
    wp (readi x off n) post halts s ↔ post (readResult s.disk d off n) s := by
  have isCopy := (inv.locked x d locked).2.2.2
  rw [wp_readi (isCopy ▸ notDevice), isCopy]
  intro bn below
  rw [isCopy] at below ⊢
  rw [inv.addrOf_disk locked]
  exact inv.covers locked notDevice below

theorem readi_spec (inv : Inv fixed none held locks s) (locked : locks x = some d) (off n : Nat) :
    wp (readi x off n) (fun _ s' => Inv fixed none held locks s' ∧ Frozen held s s')
      (Stops broken stuck) s := by
  by_cases isDevice : d.type = T_DEV
  · have isCopy := (inv.locked x d locked).2.2.2
    simp only [readi, wp_bind, wp_get, isCopy, if_pos isDevice]
    split
    · exact ⟨inv, Frozen.refl held s⟩
    · exact ⟨inv.record fun _ => Event.noConfusion, rfl, rfl, Stays.log held s .device⟩
  · rw [wp_readi_locked inv locked isDevice]
    exact ⟨inv, Frozen.refl held s⟩

/-- The inode number of an entry is its first two bytes. -/
theorem Image.inumAt_eq (img : Image) (i : Nat) (aligned : DIRENT ∣ off) :
    img.inumAt i off = (img.byteAt i off).toNat + 256 * (img.byteAt i (off + 1)).toNat := by
  have sameBlock : (off + 1) / BSIZE = off / BSIZE := by
    unfold DIRENT at aligned
    unfold BSIZE
    omega
  have next : (off + 1) % BSIZE = off % BSIZE + 1 := by
    unfold DIRENT at aligned
    unfold BSIZE
    omega
  rw [Image.inumAt, Image.byteAt, Image.byteAt, sameBlock, next]
  simp only [Bytes.getLe, Nat.mul_zero, Nat.add_zero]

variable {src : List UInt8}

/-- The inode number of an entry that has been written. -/
theorem Wrote.inumAt_new {s' : FsState} (wrote : Wrote x off src s s') (aligned : DIRENT ∣ off)
    (long : src.length = DIRENT) :
    (view (some x) s').inumAt (s.icache x).inum off = (decodeDirent src).inum := by
  have first := wrote.new 0 (by rw [long]; decide)
  have second := wrote.new 1 (by rw [long]; decide)
  rw [Nat.add_zero] at first
  rw [Image.inumAt_eq _ _ aligned, first, second]
  rfl

/-- The inode number of an entry that has not been written. -/
theorem Wrote.inumAt_old {s' : FsState} (wrote : Wrote x off src s s') {i off' : Nat}
    (allocated : ((view (some x) s).inode i).type ≠ 0)
    (mapped : addrOf (view (some x) s).block ((view (some x) s).inode i) (off' / BSIZE) ≠ 0)
    (aligned : DIRENT ∣ off')
    (apart : i = (s.icache x).inum → off' + 2 ≤ off ∨ off + src.length ≤ off') :
    (view (some x) s').inumAt i off' = (view (some x) s).inumAt i off' := by
  have sameBlock : (off' + 1) / BSIZE = off' / BSIZE := by
    unfold DIRENT at aligned
    unfold BSIZE
    omega
  rw [Image.inumAt_eq _ _ aligned, Image.inumAt_eq _ _ aligned, wrote.old i off' allocated mapped,
    wrote.old i (off' + 1) allocated (sameBlock.symm ▸ mapped)]
  · exact fun isX => (apart isX).imp (by omega) (by omega)
  · exact fun isX => (apart isX).imp (by omega) (by omega)

/-- A file has been written, or an entry of a directory. -/
theorem Inv.wrote (inv : Inv fixed (some x) held locks s) (locked : locks x = some d) {s' : FsState}
    (wrote : Wrote x off src s s')
    (named : d.type = T_DIR → DIRENT ∣ off ∧ src.length = DIRENT ∧ (decodeDirent src).inum < s.sb.ninodes) :
    Inv fixed (some x) held (update locks x (some (s'.icache x).copy)) s' := by
  have extended := wrote.extended
  have isCopy := (inv.locked x d locked).2.2.2
  have type : ∀ i, ((view (some x) s').inode i).type = ((view (some x) s).inode i).type := by
    intro i
    rw [extended.inode_fields]
  have size : ∀ i, ((view (some x) s').inode i).size = ((view (some x) s).inode i).size := by
    intro i
    rw [extended.inode_fields]
  have isView : view (some x) s' =
      (image s.sb s'.disk).setInode (s.icache x).inum (s'.icache x).copy := by
    rw [view_some, extended.sb, extended.inum]
  apply inv.change locked extended.sb
  · obtain ⟨addrs, icache⟩ := extended.icache
    rw [icache, update_self]
  · exact extended.super
  · exact extended.inodes
  · rw [← isView]
    constructor
    · intro i
      by_cases same : i = (s.icache x).inum
      · rw [same, ← extended.inum, view_some_self]
        exact wrote.laid.fits
      · rw [extended.inode_other same]
        exact inv.good.fits i
    · exact extended.sb ▸ wrote.laid.owned
    · intro i allocated notDevice bn below
      rw [type] at allocated notDevice
      rw [size] at below
      have mapped := inv.good.mapped i allocated notDevice bn below
      rw [extended.addrOf_kept allocated mapped]
      exact mapped
    · intro i directory off' aligned below
      rw [type] at directory
      rw [size] at below
      have allocated : ((view (some x) s).inode i).type ≠ 0 := directory.trans_ne (by decide)
      have before := inv.good.named i directory off' aligned below
      have mapped := inv.good.mapped i allocated (directory.trans_ne (by decide)) (off' / BSIZE) (by
        unfold DIRENT at below
        unfold BSIZE
        omega)
      by_cases here : i = (s.icache x).inum
      · rw [here, (inv.locked_inode locked).1] at directory
        obtain ⟨aligned', long, exists_⟩ := named directory
        by_cases same : off' = off
        · rw [here, same, wrote.inumAt_new aligned' long]
          exact exists_
        · rw [wrote.inumAt_old allocated mapped aligned]
          · exact before
          · intro _
            rw [long]
            unfold DIRENT at aligned aligned' ⊢
            omega
      · rw [wrote.inumAt_old allocated mapped aligned fun isX => absurd isX here]
        exact before
  · rw [extended.type, isCopy]
  · exact extended.quiet inv.quiet

theorem Inv.room (inv : Inv fixed (some x) held locks s) (upto : Nat) :
    Room (Stops broken stuck) x upto s :=
  Or.inl fun _ extended => ⟨by decide, nofun, nofun, extended.quiet inv.quiet⟩

theorem Inv.resize (inv : Inv fixed (some x) held locks s) (locked : locks x = some d) (size : Nat)
    (fits : size < 2 ^ 32) (mapped : ∀ bn, bn * BSIZE < size → Mapped x s bn)
    (named : d.type = T_DIR → (view (some x) s).Names s.sb.ninodes (s.icache x).inum size) :
    Inv fixed (some x) held (update locks x (some (d.setSize size)))
      (s.put x { s.icache x with copy := d.setSize size }) := by
  obtain ⟨-, -, -, isCopy⟩ := inv.locked x d locked
  obtain ⟨isInode, -⟩ := inv.locked_inode locked
  apply inv.change locked
  · rfl
  · rfl
  · rfl
  · rfl
  · have good := inv.good.resize (i := (s.icache x).inum) fits
      (fun bn below => by
        rw [isInode, view_block, ← isCopy]
        exact mapped bn below)
      (isInode.symm ▸ named)
    rw [isInode, view_some, Image.setInode_setInode] at good
    exact good
  · rfl
  · exact inv.quiet

/-- The new size of a file that was written is on the disk. -/
theorem Inv.sized {s1 s2 : FsState} (inv : Inv fixed none held locks s) (locked : locks x = some d)
    (notDevice : d.type ≠ T_DEV) (start : off ≤ d.size) (small : off + src.length ≤ MAXFILE * BSIZE)
    (named : d.type = T_DIR → DIRENT ∣ off ∧ src.length = DIRENT ∧ (decodeDirent src).inum < s.sb.ninodes)
    (wrote : Wrote x off src s s1) (sized : Sized x (max d.size (off + src.length)) s s1 s2) :
    Inv fixed none held (update locks x
      (some ((s1.icache x).copy.setSize (max d.size (off + src.length))))) s2 := by
  obtain ⟨-, -, -, isCopy⟩ := inv.locked x d locked
  have extended := wrote.extended
  have type : (s1.icache x).copy.type = d.type := extended.type.trans (isCopy ▸ rfl)
  have size : (s1.icache x).copy.size = d.size := extended.size.trans (isCopy ▸ rfl)
  have laid := (inv.current locked).toLaid
  have fits : d.size < 2 ^ 32 := isCopy ▸ laid.fits.size
  have relocked : update locks x (some (s1.icache x).copy) x = some (s1.icache x).copy :=
    update_self _ _ _
  have inv1 := (inv.toDirty locked).wrote locked wrote named
  have before : ∀ bn, bn * BSIZE < d.size → Mapped x s bn := by
    intro bn below
    rw [Mapped, isCopy]
    exact inv.covers locked notDevice below
  have resized := inv1.resize relocked (max d.size (off + src.length))
    (by unfold MAXFILE NDIRECT NINDIRECT BSIZE at small; omega)
    (by
      intro bn below
      rcases lt_max_iff.mp below with inOld | inNew
      · exact extended.mapped laid (before bn inOld)
      · exact wrote.covers laid (fun bn early => before bn (by omega)) inNew)
    (by
      intro directory off' aligned' below
      rw [type] at directory
      obtain ⟨aligned, long, exists_⟩ := named directory
      rw [extended.sb, extended.inum]
      by_cases same : off' = off
      · rw [same, wrote.inumAt_new aligned long]
        exact exists_
      · have isInode := (inv1.locked_inode relocked).1
        have inOld := inv1.good.named (s1.icache x).inum (by rw [isInode, type, directory]) off'
          aligned' (by
            rw [isInode, size]
            rw [long] at below
            unfold DIRENT at *
            omega)
        rwa [extended.sb, extended.inum] at inOld)
  rw [update_idem] at resized
  obtain ⟨addrs, icache⟩ := extended.icache
  apply resized.settle
  · rw [sized.sb, FsState.put_sb, extended.sb]
  · rw [sized.icache, FsState.put_icache, icache, update_self, update_idem]
  · rw [sized.super, FsState.put_disk, extended.super]
  · rw [FsState.put_sb, extended.sb, sized.disk, ← extended.inum, view_some_self, view_some,
      Image.setInode_setInode, view_some, FsState.put_icache, update_self, FsState.put_sb,
      FsState.put_disk]
  · exact sized.quiet inv.quiet

/-- The tree has of a locked inode what its contents say. -/
theorem Inv.tree_locked (inv : Inv fixed none held locks s) (locked : locks x = some d) :
    s.tree (s.icache x).inum = nodeOf (image s.sb s.disk).block d := by
  have isInode := (inv.locked_inode locked).1
  rw [view_none] at isInode
  rw [FsState.tree, Image.tree, isInode]

/-- What `writei` does to the tree: only the entries of a directory are part of it. -/
structure Stores (x : Slot) (d : Dinode) (off : Nat) (src : List UInt8) (written : Int)
    (s s' : FsState) : Prop where
  plain : d.type ≠ T_DIR → s'.tree = s.tree
  directory : d.type = T_DIR → written = DIRENT → off ≤ d.size ∧
    s'.tree = s.tree.setEntry (s.icache x).inum (off / DIRENT) (decodeDirent src)

theorem Inv.stores {s1 s2 : FsState} {written : Int} (inv : Inv fixed none held locks s)
    (locked : locks x = some d) (start : off ≤ d.size)
    (named : d.type = T_DIR → DIRENT ∣ off ∧ src.length = DIRENT ∧ (decodeDirent src).inum < s.sb.ninodes)
    (wrote : Wrote x off src s s1) (sized : Sized x (max d.size (off + src.length)) s s1 s2) :
    Stores x d off src written s s2 := by
  have isInode := (inv.locked_inode locked).1
  rw [view_none] at isInode
  have current := inv.current locked
  have covers : ∀ i, ((image s.sb s.disk).inode i).type = T_DIR →
      (image s.sb s.disk).Covers i ((image s.sb s.disk).inode i).size :=
    fun i directory => inv.good.mapped i (directory.trans_ne (by decide))
      (directory.trans_ne (by decide))
  constructor
  · intro plain
    funext j
    by_cases same : j = (s.icache x).inum
    · rw [same]
      exact sized.tree_plain wrote current (isInode.symm ▸ plain)
    · exact sized.tree_other wrote current covers same
  · intro directory _
    obtain ⟨aligned, long, -⟩ := named directory
    refine ⟨start, ?_⟩
    funext j
    by_cases same : j = (s.icache x).inum
    · rw [same, Tree.setEntry, update_self]
      exact sized.tree_directory wrote current (isInode.symm ▸ directory)
        (covers _ (isInode.symm ▸ directory)) (isInode.symm ▸ start) (isInode.symm ▸ rfl) aligned long
    · rw [Tree.setEntry, update_of_ne same]
      exact sized.tree_other wrote current covers same

theorem writei_spec (inv : Inv fixed none held locks s) (locked : locks x = some d)
    (named : d.type = T_DIR → DIRENT ∣ off ∧ src.length = DIRENT ∧ (decodeDirent src).inum < s.sb.ninodes) :
    wp (writei x src off) (fun written s' => ∃ d', d'.type = d.type ∧
      Inv fixed none held (update locks x (some d')) s' ∧ Stays held s s' ∧
      Stores x d off src written s s') (Stops broken stuck) s := by
  obtain ⟨-, -, -, isCopy⟩ := inv.locked x d locked
  have relocked : update locks x (some d) = locks := by
    rw [← locked, update_eq_self]
  have refused : Stores x d off src (-1) s s := ⟨fun _ => rfl, fun _ isLength => by cases isLength⟩
  simp only [writei, wp_bind, wp_get, isCopy]
  split
  · rename_i isDevice
    split
    · exact ⟨d, rfl, relocked.symm ▸ inv, Stays.refl held s, refused⟩
    · refine ⟨d, rfl, relocked.symm ▸ inv.record fun _ => Event.noConfusion, Stays.log held s .device,
        fun _ => rfl, fun directory => ?_⟩
      exact absurd (isDevice.symm.trans directory) (by decide)
  · rename_i notDevice
    split
    · exact ⟨d, rfl, relocked.symm ▸ inv, Stays.refl held s, refused⟩
    · rename_i start
      split
      · exact ⟨d, rfl, relocked.symm ▸ inv, Stays.refl held s, refused⟩
      · rename_i small
        rw [not_or, not_lt] at start
        rw [not_lt] at small
        have mapped : ∀ bn, bn * BSIZE < (s.icache x).copy.size → Mapped x s bn := by
          intro bn below
          rw [isCopy] at below
          rw [Mapped, isCopy]
          exact inv.covers locked notDevice below
        have current := inv.current locked
        apply (writeLoop_spec current.toLaid le_rfl small ((inv.toDirty locked).room _)).bind
        intro _ s1 wrote
        apply (wrote.writeSize_spec current mapped (isCopy.symm ▸ start.1) small).bind
        intro _ s2 sized
        rw [isCopy] at sized
        have inv2 := inv.sized locked notDevice start.1 small named wrote sized
        refine ⟨_, ?_, inv2, ?_, inv.stores locked start.1 named wrote sized⟩
        · exact wrote.extended.type.trans (isCopy ▸ rfl)
        · apply inv2.stays_changed held (update_self _ _ _) sized.icache rfl
          intro i different
          rw [sized.sb, sized.disk, Image.setInode_inode, update_of_ne different,
            view_some_other (wrote.extended.inum.symm ▸ different), wrote.extended.sb,
            wrote.extended.inodes]

end

end Xv6.Fs
