import Xv6.Fs.TruncSpecs

/-!
Contract: what directory and path name code does to the invariant and to the tree.

A directory entry names an inode that exists, so every inode that is looked up can be
referenced; an entry is only ever written for an inode that is referenced. The tree
changes at the directory and the inode that a call is about; besides, nodes without
links may be reaped whenever a reference is dropped.
-/

namespace Xv6.Fs

open Function Xv6.Lib

section

variable {fixed : Superblock} {broken stuck : Prop} {held : Holds} {locks : Locks} {s : FsState} {x : Slot}
  {k : Bool} {d : Dinode}

/-! ### Entries -/

variable {off : Nat}

theorem decodeDirent_contents {block : Nat → Block} (aligned : DIRENT ∣ off) :
    (decodeDirent (contents block d off DIRENT)).inum =
      (block (addrOf block d (off / BSIZE))).getLe (off % BSIZE) 2 := by
  have room : off % BSIZE + DIRENT ≤ BSIZE := by
    unfold DIRENT at aligned ⊢
    unfold BSIZE
    omega
  have rest : contents block d (off + DIRENT) (DIRENT - DIRENT) = [] := rfl
  rw [contents_split le_rfl room, rest, List.append_nil, decodeDirent_slice_inum]

/-- What is read of a locked file is what the image has of it. -/
theorem Inv.contents_image (inv : Inv fixed none held locks s) (locked : locks x = some d)
    (notDevice : d.type ≠ T_DEV) {n : Nat} (fits : off + n ≤ d.size) :
    contents s.disk d off n = contents (image s.sb s.disk).block d off n := by
  apply List.map_congr_left
  intro p inside
  rw [List.mem_range] at inside
  have below : (off + p) / BSIZE * BSIZE < d.size := by
    have := Nat.div_mul_le_self (off + p) BSIZE
    omega
  have mapped := inv.covers locked notDevice below
  rw [inv.addrOf_disk locked, image_block _ (inv.addrOf_range locked mapped)]

theorem readDirent_spec (inv : Inv fixed none held locks s) (locked : locks x = some d)
    (directory : d.type = T_DIR) {short : Halt} (notFree : short ≠ .freeingFreeBlock)
    (notLink : short ≠ .unlinkNlink) (notAsleep : short ≠ .sleepsForEver) (aligned : DIRENT ∣ off) :
    wp (readDirent x off short) (fun de s' => s' = s ∧ de.inum < s.sb.ninodes ∧
      (s.tree (s.icache x).inum).entries[off / DIRENT]? = some de) (Stops broken stuck) s := by
  have notDevice : d.type ≠ T_DEV := directory.trans_ne (by decide)
  rw [readDirent, wp_bind, wp_readi_locked inv locked notDevice, wp_ite]
  refine ⟨fun complete => ?_, fun _ => ⟨notFree, fun isLink => absurd isLink notLink,
    fun asleep => absurd asleep notAsleep, inv.quiet⟩⟩
  unfold readResult at complete ⊢
  split at complete
  · exact absurd complete (by decide)
  · rename_i inRange
    rw [if_neg inRange, wp_pure]
    simp only [Nat.cast_inj] at complete ⊢
    have fits : off + DIRENT ≤ d.size := by
      split at complete
      · rename_i past
        omega
      · rename_i inside
        omega
    have isOff : DIRENT * (off / DIRENT) = off := Nat.mul_div_cancel' aligned
    rw [complete, inv.contents_image locked notDevice fits]
    refine ⟨trivial, ?_, ?_⟩
    · rw [decodeDirent_contents aligned]
      obtain ⟨isInode, allocated⟩ := inv.locked_inode locked
      have named := inv.good.named (s.icache x).inum (isInode.symm ▸ directory) off aligned
        (isInode.symm ▸ fits)
      rw [Image.inumAt, isInode] at named
      exact named
    · rw [inv.tree_locked locked, nodeOf, getElem?_entriesOf directory (isOff.symm ▸ fits), direntAt,
        isOff]

theorem dvd_of_mem_entryOffsets {size : Nat} (member : off ∈ entryOffsets size) : DIRENT ∣ off := by
  obtain ⟨index, -, same⟩ := List.mem_map.mp member
  exact same ▸ Nat.dvd_mul_right DIRENT index

theorem mem_entryOffsets {block : Nat → Block} {j : Nat} {de : Dirent}
    (at_ : (entriesOf block d)[j]? = some de) : DIRENT * j ∈ entryOffsets d.size := by
  obtain ⟨below, -⟩ := List.getElem?_eq_some_iff.mp at_
  have directory : d.type = T_DIR := by
    by_contra plain
    rw [entriesOf, if_neg plain] at below
    exact absurd below (Nat.not_lt_zero j)
  rw [length_entriesOf directory] at below
  refine List.mem_map.mpr ⟨j, List.mem_range.mpr ?_, rfl⟩
  unfold DIRENT at below ⊢
  omega

/-! ### Looking up -/

/-- The entry is in use, for this name. -/
def Dirent.Is (de : Dirent) (name : List UInt8) : Prop := de.inum ≠ 0 ∧ namecmp name de.name

def Absent (entries : List Dirent) (name : List UInt8) : Prop := ∀ de ∈ entries, ¬ de.Is name

/-- What `dirlookup` returns: nothing, or a reference and the offset of an entry. -/
def Found (fixed : Superblock) (held : Holds) (locks : Locks) (entries : List Dirent)
    (name : List UInt8) (found : Option (Slot × Nat)) (s : FsState) : Prop :=
  match found with
  | none => Inv fixed none held locks s ∧ Absent entries name
  | some (ip, off) => Inv fixed none ((ip, false) ::ₘ held) locks s ∧ DIRENT ∣ off ∧
      ∃ de, entries[off / DIRENT]? = some de ∧ de.Is name ∧ (s.icache ip).inum = de.inum

/-- The loop of `dirlookup`, which has found nothing if it ends. -/
theorem dirlookupLoop_spec (inv : Inv fixed none held locks s) (locked : locks x = some d)
    (directory : d.type = T_DIR) (name : List UInt8) {offsets : List Nat}
    (aligned : ∀ off ∈ offsets, DIRENT ∣ off)
    (visited : ∀ j de, (s.tree (s.icache x).inum).entries[j]? = some de → de.Is name →
      DIRENT * j ∈ offsets) :
    wp (dirlookupLoop x name offsets) (fun found s' =>
      Found fixed held locks (s.tree (s.icache x).inum).entries name found s' ∧ Frozen held s s')
      (Stops broken stuck) s := by
  induction offsets with
  | nil =>
    refine ⟨⟨inv, fun de member isName => ?_⟩, Frozen.refl held s⟩
    obtain ⟨j, at_⟩ := List.mem_iff_getElem?.mp member
    exact List.not_mem_nil (visited j de at_ isName)
  | cons off rest ih =>
    have here := aligned off List.mem_cons_self
    rw [dirlookupLoop]
    apply (readDirent_spec inv locked directory (by decide) (by decide) (by decide) here).bind
    rintro de _ ⟨rfl, exists_, at_⟩
    rw [wp_ite]
    refine ⟨fun isName => ?_, fun notName => ?_⟩
    · apply (iget_spec inv exists_).bind
      rintro ip s' ⟨inv', isInum, frozen⟩
      exact ⟨⟨inv', here, de, at_, isName, isInum⟩, frozen⟩
    · apply ih fun off member => aligned off (List.mem_cons_of_mem _ member)
      intro j de' at' isName
      refine (List.mem_cons.mp (visited j de' at' isName)).resolve_left fun same => notName ?_
      rw [← same, Nat.mul_div_cancel_left _ (by decide), at'] at at_
      cases at_
      exact isName

theorem dirlookup_spec (inv : Inv fixed none held locks s) (locked : locks x = some d)
    (name : List UInt8) :
    wp (dirlookup x name) (fun found s' => d.type = T_DIR ∧
      Found fixed held locks (s.tree (s.icache x).inum).entries name found s' ∧ Frozen held s s')
      (Stops broken stuck) s := by
  have isCopy := (inv.locked x d locked).2.2.2
  simp only [dirlookup, wp_bind, wp_get, wp_ite, wp_halt, isCopy]
  refine ⟨fun directory => ?_, fun _ => ⟨by decide, by simp, by simp, inv.quiet⟩⟩
  apply (dirlookupLoop_spec inv locked directory name (fun off => dvd_of_mem_entryOffsets) ?_).mono
  · intro found s' isFound
    exact ⟨directory, isFound⟩
  · intro j de at_ _
    rw [inv.tree_locked locked] at at_
    exact mem_entryOffsets at_

/-! ### Linking -/

/-- Where an entry can be stored: in one that is not in use, or behind the last one. -/
def Gap (entries : List Dirent) (j : Nat) : Prop :=
  j = entries.length ∨ ∃ de, entries[j]? = some de ∧ de.inum = 0

theorem emptyEntry_spec (inv : Inv fixed none held locks s) (locked : locks x = some d)
    (directory : d.type = T_DIR) {behind : Nat} (behindAligned : DIRENT ∣ behind)
    {offsets : List Nat} (aligned : ∀ off ∈ offsets, DIRENT ∣ off) :
    wp (emptyEntry x behind offsets) (fun off s' => s' = s ∧ DIRENT ∣ off ∧ (off = behind ∨
      ∃ de, (s.tree (s.icache x).inum).entries[off / DIRENT]? = some de ∧ de.inum = 0))
      (Stops broken stuck) s := by
  induction offsets with
  | nil => exact ⟨rfl, behindAligned, Or.inl rfl⟩
  | cons off rest ih =>
    have here := aligned off List.mem_cons_self
    rw [emptyEntry]
    apply (readDirent_spec inv locked directory (by decide) (by decide) (by decide) here).bind
    rintro de _ ⟨rfl, -, at_⟩
    rw [wp_ite]
    refine ⟨fun unused => ⟨rfl, here, Or.inr ⟨de, at_, unused⟩⟩, fun _ => ?_⟩
    exact ih fun off member => aligned off (List.mem_cons_of_mem _ member)

private theorem length_strncpyName (name : List UInt8) : (strncpyName name).length = DIRSIZ := by
  simp [strncpyName, DIRSIZ]

private theorem length_encodeDirent (inum : Nat) (name : List UInt8) :
    (encodeDirent ⟨inum, strncpyName name⟩).length = DIRENT := by
  rw [encodeDirent, List.length_cons, List.length_cons, length_strncpyName]
  rfl

def storedEntry (inum : Nat) (name : List UInt8) : Dirent := ⟨inum % 65536, strncpyName name⟩

theorem decodeDirent_encodeDirent (inum : Nat) (name : List UInt8) :
    decodeDirent (encodeDirent ⟨inum, strncpyName name⟩) = storedEntry inum name := by
  have isInum := decodeDirent_encodeDirent_inum ⟨inum, strncpyName name⟩
  have isName : (decodeDirent (encodeDirent ⟨inum, strncpyName name⟩)).name = strncpyName name := by
    simp only [decodeDirent, encodeDirent, List.drop_succ_cons, List.drop_zero]
    rw [← length_strncpyName name, List.take_length]
  calc decodeDirent (encodeDirent ⟨inum, strncpyName name⟩)
      = ⟨(decodeDirent (encodeDirent ⟨inum, strncpyName name⟩)).inum,
          (decodeDirent (encodeDirent ⟨inum, strncpyName name⟩)).name⟩ := rfl
    _ = storedEntry inum name := by rw [isInum, isName, storedEntry]

/-- The name has been entered for the inode, in a directory that did not have it. -/
def Enters (tree : Tree) (dir inum : Nat) (name : List UInt8) (tree' : Tree) : Prop :=
  (tree dir).type = T_DIR ∧ Absent (tree dir).entries name ∧ ∃ j, Gap (tree dir).entries j ∧
    tree' = tree.setEntry dir j (storedEntry inum name)

variable {inum : Nat}

theorem addEntry_spec (inv : Inv fixed none held locks s) (locked : locks x = some d)
    (directory : d.type = T_DIR) (name : List UInt8) (inside : inum < fixed.ninodes) :
    wp (addEntry x name inum) (fun result s' => ∃ d', d'.type = d.type ∧
      Inv fixed none held (update locks x (some d')) s' ∧ Stays held s s' ∧ result = 0 ∧
      ∃ j, Gap (s.tree (s.icache x).inum).entries j ∧
        s'.tree = s.tree.setEntry (s.icache x).inum j (storedEntry inum name)) (Stops broken stuck) s := by
  have isCopy := (inv.locked x d locked).2.2.2
  simp only [addEntry, wp_bind, wp_get]
  apply (emptyEntry_spec inv locked directory (Nat.dvd_mul_right DIRENT _)
    fun off => dvd_of_mem_entryOffsets).mono
  rintro off _ ⟨rfl, aligned, place⟩
  apply (writei_spec inv locked fun _ => ⟨aligned, length_encodeDirent inum name, ?_⟩).mono
  · rintro written s' ⟨d', type, inv', stays, stores⟩
    rw [wp_ite]
    refine ⟨fun complete => ?_, fun _ => ⟨by decide, by simp, by simp, inv'.quiet⟩⟩
    obtain ⟨start, tree⟩ := stores.directory directory complete
    rw [decodeDirent_encodeDirent] at tree
    refine ⟨d', type, inv', stays, rfl, off / DIRENT, ?_, tree⟩
    refine place.imp (fun isBehind => ?_) id
    rw [inv.tree_locked locked, nodeOf, length_entriesOf directory]
    rw [isCopy, entryOffsets, List.length_map, List.length_range] at isBehind
    unfold DIRENT at isBehind ⊢
    omega
  · rw [decodeDirent_encodeDirent, inv.isSb]
    exact lt_of_le_of_lt (Nat.mod_le _ _) inside

/-- Whoever puts an inode that one of the entries names waits for its lock, and is
stuck. -/
def Waits (stuck : Prop) (locks : Locks) (s : FsState) (entries : List Dirent)
    (name : List UInt8) : Prop :=
  ∀ de ∈ entries, de.Is name → ∀ y d, locks y = some d → (s.icache y).inum = de.inum → stuck

theorem dirlink_spec (inv : Inv fixed none held locks s) (locked : locks x = some d) (p : ProcId)
    (name : List UInt8) (inside : inum < fixed.ninodes)
    (waits : Waits stuck locks s (s.tree (s.icache x).inum).entries name) :
    wp (dirlink p x name inum) (fun result s' => ∃ d', d'.type = d.type ∧
      Inv fixed none held (update locks x (some d')) s' ∧ Stays held s s' ∧
      (result < 0 ∧ Steady held s s' ∨
        ¬ result < 0 ∧ Enters s.tree (s.icache x).inum inum name s'.tree)) (Stops broken stuck) s := by
  rw [dirlink]
  apply (dirlookup_spec inv locked name).bind
  intro found s1 ⟨directory, isFound, frozen⟩
  have isDirectory : (s.tree (s.icache x).inum).type = T_DIR := by
    rw [inv.tree_locked locked]
    exact directory
  cases found with
  | none =>
    obtain ⟨inv1, absent⟩ := isFound
    have sameInum := inv.inum_stays locked frozen.stays
    apply (addEntry_spec inv1 locked directory name inside).mono
    rintro result s2 ⟨d', type, inv2, stays, rfl, j, gap, tree⟩
    rw [frozen.tree, sameInum] at gap tree
    exact ⟨d', type, inv2, frozen.stays.trans stays,
      Or.inr ⟨by decide, isDirectory, absent, j, gap, tree⟩⟩
  | some entry =>
    obtain ⟨ip, off⟩ := entry
    obtain ⟨inv1, -, de, at_, isName, isInum⟩ := isFound
    have awake : ∀ e, locks ip = some e → stuck := by
      intro e isLocked
      apply waits de (List.mem_of_getElem? at_) isName ip e isLocked
      rw [← isInum, inv.inum_stays isLocked frozen.stays]
    apply (iput_spec inv1 p awake).bind
    intro _ s2 ⟨inv2, steady⟩
    have upto2 := frozen.steady.trans steady
    refine ⟨d, rfl, ?_, upto2.stays, Or.inl ⟨by decide, upto2⟩⟩
    rw [← locked, update_eq_self]
    exact inv2

/-! ### Paths -/

def Resolved (fixed : Superblock) (held : Holds) (locks : Locks)
    (found : Option (Slot × List UInt8)) (s : FsState) : Prop :=
  match found with
  | none => Inv fixed none held locks s
  | some (ip, _) => Inv fixed none ((ip, false) ::ₘ held) locks s

theorem namexEnd_spec (inv : Inv fixed none ((x, false) ::ₘ held) locks s) (p : ProcId)
    (awake : Awake stuck locks) (parent : Bool) (name : List UInt8) :
    wp (namexEnd p parent x name) (fun found s' =>
      Resolved fixed held locks found s' ∧ Steady held s s') (Stops broken stuck) s := by
  unfold namexEnd
  split
  · rw [wp_bind]
    exact iput_spec inv p (awake x)
  · exact ⟨inv, Steady.refl held s⟩

theorem namexLoop_spec (inv : Inv fixed none ((x, false) ::ₘ held) locks s) (p : ProcId)
    (awake : Awake stuck locks) (parent : Bool) {rounds : Nat} {path name : List UInt8} :
    wp (namexLoop p parent rounds x path name) (fun found s' =>
      Resolved fixed held locks found s' ∧ Steady held s s') (Stops broken stuck) s := by
  induction rounds generalizing x path name s with
  | zero => exact namexEnd_spec inv p awake parent name
  | succ rounds ih =>
    rw [namexLoop]
    split
    · exact namexEnd_spec inv p awake parent name
    · rename_i path' name' _
      have fewer : held ⊆ (x, false) ::ₘ held := Multiset.subset_cons held (x, false)
      apply (ilock_spec inv p (Multiset.mem_cons_self _ _) (awake x)).bind
      rintro _ s1 ⟨d, free, -, -, inv1, frozen1⟩
      have steady1 := (frozen1.mono fewer).steady
      have locked : update locks x (some d) x = some d := update_self _ _ _
      have back : update (update locks x (some d)) x none = locks :=
        unlock_lock free _
      rw [wp_bind, wp_get, wp_ite]
      refine ⟨fun _ => ?_, fun _ => ?_⟩
      · apply (iunlockput_spec inv1 p locked).bind
        intro _ s2 ⟨inv2, steady2⟩
        exact ⟨back ▸ inv2, steady1.trans steady2⟩
      · rw [wp_ite]
        refine ⟨fun _ => ?_, fun _ => ?_⟩
        · apply (iunlock_spec inv1 p locked).bind
          intro _ s2 ⟨inv2, frozen2⟩
          exact ⟨back ▸ inv2, steady1.trans (frozen2.mono fewer).steady⟩
        · apply (dirlookup_spec inv1 locked name').bind
          rintro found s2 ⟨-, isFound, frozen2⟩
          have steady2 := steady1.trans (frozen2.mono fewer).steady
          cases found with
          | none =>
            apply (iunlockput_spec isFound.1 p locked).bind
            intro _ s3 ⟨inv3, steady3⟩
            exact ⟨back ▸ inv3, steady2.trans steady3⟩
          | some entry =>
            have inv2 := isFound.1
            rw [Multiset.cons_swap] at inv2
            apply (iunlockput_spec inv2 p locked).bind
            intro _ s3 ⟨inv3, steady3⟩
            rw [back] at inv3
            apply (ih inv3).mono
            intro found s4 ⟨resolved, steady4⟩
            exact ⟨resolved, (steady2.trans (steady3.mono (Multiset.subset_cons _ _))).trans steady4⟩

variable {cwd : Slot}

theorem namex_spec (inv : Inv fixed none held locks s) (p : ProcId) (awake : Awake stuck locks)
    (member : (cwd, k) ∈ held) (path : List UInt8) (parent : Bool) :
    wp (namex p cwd path parent) (fun found s' =>
      Resolved fixed held locks found s' ∧ Steady held s s') (Stops broken stuck) s := by
  rw [namex, wp_bind, namexStart, wp_ite]
  refine ⟨fun _ => ?_, fun _ => ?_⟩
  · apply (iget_spec inv inv.layout.root).mono
    rintro ip s1 ⟨inv1, -, frozen1⟩
    apply (namexLoop_spec inv1 p awake parent).mono
    intro found s2 ⟨resolved, steady2⟩
    exact ⟨resolved, frozen1.steady.trans steady2⟩
  · apply (idup_spec inv member).mono
    rintro ip s1 ⟨rfl, inv1, frozen1⟩
    apply (namexLoop_spec inv1 p awake parent).mono
    intro found s2 ⟨resolved, steady2⟩
    exact ⟨resolved, frozen1.steady.trans steady2⟩

theorem namei_spec (inv : Inv fixed none held locks s) (p : ProcId) (awake : Awake stuck locks)
    (member : (cwd, k) ∈ held) (path : List UInt8) :
    wp (namei p cwd path) (fun found s' =>
      (match found with
      | none => Inv fixed none held locks s'
      | some ip => Inv fixed none ((ip, false) ::ₘ held) locks s') ∧ Steady held s s')
      (Stops broken stuck) s := by
  rw [namei]
  apply (namex_spec inv p awake member path false).bind
  intro found s1 ⟨resolved, steady⟩
  cases found with
  | none => exact ⟨resolved, steady⟩
  | some result => exact ⟨resolved, steady⟩

/-! ### Link counts -/

/-- Fields of a locked inode that say nothing about blocks are changed and written. -/
theorem relabel_spec (inv : Inv fixed none held locks s) (locked : locks x = some d)
    (change : Dinode → Dinode) (type : (change d).type = d.type) (size : (change d).size = d.size)
    (addrs : (change d).addrs = d.addrs) :
    wp (setCopy x change) (fun _ s1 => wp (iupdate x) (fun _ s' =>
      Inv fixed none held (update locks x (some (change d))) s' ∧ Stays held s s' ∧
      image s'.sb s'.disk = (image s.sb s.disk).setInode (s.icache x).inum (change d) ∧
      s'.tree = update s.tree (s.icache x).inum
        { s.tree (s.icache x).inum with nlink := (change d).nlink }) (Stops broken stuck) s1)
      (Stops broken stuck) s := by
  obtain ⟨-, -, -, isCopy⟩ := inv.locked x d locked
  have isInode := (inv.locked_inode locked).1
  have isNode := inv.tree_locked locked
  rw [wp_setCopy, isCopy]
  have changed : Inv fixed (some x) held (update locks x (some (change d)))
      (s.put x { s.icache x with copy := change d }) := by
    apply (inv.toDirty locked).change locked
    · rfl
    · rfl
    · rfl
    · rfl
    · exact inv.good.relabel (isInode.symm ▸ type) (isInode.symm ▸ size) (isInode.symm ▸ addrs)
    · exact type
    · exact inv.quiet
  apply (iupdate_spec changed (update_self _ _ _)).mono
  intro _ s' ⟨inv', sb, icache, disk⟩
  rw [FsState.put_sb] at sb disk
  have isImage : image s'.sb s'.disk = (image s.sb s.disk).setInode (s.icache x).inum (change d) := by
    rw [sb, disk, view_some, FsState.put_icache, update_self]
    rfl
  refine ⟨inv', ?_, isImage, ?_⟩
  · apply inv'.stays_changed held (update_self _ _ _) icache rfl
    intro i different
    rw [isImage, Image.setInode_inode, update_of_ne different]
  · rw [FsState.tree, isImage, Image.tree_setInode, nodeOf_relabel type size addrs, isNode]
    rfl

theorem addLinks_spec (inv : Inv fixed none held locks s) (locked : locks x = some d)
    (count : BitVec 16) :
    wp (addLinks x count) (fun _ s1 => wp (iupdate x) (fun _ s' => ∃ d', d'.type = d.type ∧
      Inv fixed none held (update locks x (some d')) s' ∧ Stays held s s' ∧
      s'.tree = s.tree.addLinks (s.icache x).inum count ∧ image s'.sb s'.disk =
        (image s.sb s.disk).setInode (s.icache x).inum { d with nlink := d.nlink + count })
      (Stops broken stuck) s1) (Stops broken stuck) s := by
  have isNode := inv.tree_locked locked
  apply (relabel_spec inv locked (fun copy => { copy with nlink := copy.nlink + count })
    rfl rfl rfl).mono
  intro _ s1 updates
  apply updates.mono
  intro _ s2 ⟨inv2, stays, isImage, tree⟩
  refine ⟨{ d with nlink := d.nlink + count }, rfl, inv2, stays, ?_, isImage⟩
  rw [tree, Tree.addLinks, isNode]
  rfl

/-! ### Creating -/

/-- What `create` returns: nothing, or a reference to a locked inode. -/
def Created (fixed : Superblock) (held : Holds) (locks : Locks) (type : BitVec 16)
    (made : Option Slot) (s : FsState) : Prop :=
  match made with
  | none => Inv fixed none held locks s
  | some ip => ∃ d, locks ip = none ∧ d.type ≠ 0 ∧ (type = T_FILE → d.type = T_FILE) ∧
      Inv fixed none ((ip, false) ::ₘ held) (update locks ip (some d)) s

variable {dp ip : Slot} {e : Dinode}

theorem createFound_spec (inv : Inv fixed none ((ip, false) ::ₘ (dp, false) ::ₘ held) locks s)
    (p : ProcId) (locked : locks dp = some e) (awake : Awake stuck (update locks dp none))
    (type : BitVec 16) :
    wp (createFound p dp ip type) (fun made s' =>
      Created fixed held (update locks dp none) type made s' ∧ Steady held s s')
      (Stops broken stuck) s := by
  rw [Multiset.cons_swap] at inv
  rw [createFound]
  apply (iunlockput_spec inv p locked).bind
  intro _ s1 ⟨inv1, steady1⟩
  apply (ilock_spec inv1 p (Multiset.mem_cons_self _ _) (awake ip)).bind
  rintro _ s2 ⟨d, free, -, allocated, inv2, frozen2⟩
  have steady2 := (steady1.trans frozen2.steady).mono (Multiset.subset_cons _ _)
  have isLocked : update (update locks dp none) ip (some d) ip = some d :=
    update_self _ _ _
  have isCopy := (inv2.locked ip d isLocked).2.2.2
  rw [wp_bind, wp_get, wp_ite, isCopy]
  refine ⟨fun files => ?_, fun _ => ?_⟩
  · exact ⟨⟨d, free, allocated, fun _ => files.2, inv2⟩, steady2⟩
  · apply (iunlockput_spec inv2 p isLocked).bind
    intro _ s3 ⟨inv3, steady3⟩
    rw [unlock_lock free] at inv3
    exact ⟨inv3, steady2.trans steady3⟩

def Dotted (tree : Tree) (dir inum : Nat) (type : BitVec 16) (tree' : Tree) : Prop :=
  if type = T_DIR then ∃ middle, Enters (tree.addLinks dir 1) inum inum dot middle ∧
    Enters middle inum dir dotdot tree'
  else tree' = tree

theorem Enters.other {tree tree' : Tree} {dir i : Nat} {name : List UInt8}
    (enters : Enters tree dir inum name tree') (different : i ≠ dir) : tree' i = tree i := by
  obtain ⟨-, -, j, -, rfl⟩ := enters
  rw [Tree.setEntry, update_of_ne different]

theorem Enters.first {tree tree' : Tree} {dir : Nat} {name : List UInt8}
    (enters : Enters tree dir inum name tree') (empty : (tree dir).entries = []) :
    (tree' dir).entries = [storedEntry inum name] := by
  obtain ⟨-, -, j, gap, rfl⟩ := enters
  rw [Tree.setEntry, update_self, empty, putEntry, List.take_nil, List.drop_nil,
    List.nil_append]

theorem Dotted.entries {tree tree' : Tree} {dir : Nat} {type : BitVec 16}
    (dotted : Dotted tree dir inum type tree') (apart : inum ≠ dir) :
    (tree' dir).entries = (tree dir).entries := by
  unfold Dotted at dotted
  split at dotted
  · obtain ⟨middle, first, second⟩ := dotted
    rw [second.other apart.symm, first.other apart.symm, Tree.addLinks, update_self]
  · rw [dotted]

/-- The two inodes stay locked while the entries `.` and `..` are made. -/
theorem createDots_spec (inv : Inv fixed none held locks s) (p : ProcId)
    (lockedParent : locks dp = some e) (locked : locks ip = some d) (different : ip ≠ dp)
    (empty : (s.tree (s.icache ip).inum).entries = []) :
    wp (createDots p dp ip) (fun _ s' => ∃ d' e', d'.type = d.type ∧
      Inv fixed none held (update (update locks dp (some e')) ip (some d')) s' ∧
      Stays held s s' ∧ ∃ middle, Enters (s.tree.addLinks (s.icache dp).inum 1) (s.icache ip).inum
        (s.icache ip).inum dot middle ∧
        Enters middle (s.icache ip).inum (s.icache dp).inum dotdot s'.tree) (Stops broken stuck) s := by
  rw [createDots]
  apply (addLinks_spec inv lockedParent 1).bind
  intro _ s1 updates
  apply updates.bind
  rintro _ s2 ⟨e', -, inv2, stays2, tree2, -⟩
  have locked2 : update locks dp (some e') ip = some d := by
    rw [update_of_ne different, locked]
  have lockedParent2 : update locks dp (some e') dp = some e' := update_self _ _ _
  have isInum := inv.inum_stays locked stays2
  have isParent := inv.inum_stays lockedParent stays2
  have inside : (s2.icache ip).inum < fixed.ninodes := inv2.isSb ▸ inv2.locked_inside locked2
  have insideParent : (s2.icache dp).inum < fixed.ninodes :=
    inv2.isSb ▸ inv2.locked_inside lockedParent2
  have apart : (s.icache ip).inum ≠ (s.icache dp).inum :=
    inv.inum_ne (inv.locked dp e lockedParent).1 different (inv.locked ip d locked).1
  have empty2 : (s2.tree (s2.icache ip).inum).entries = [] := by
    rw [isInum, tree2, Tree.addLinks, update_of_ne apart, empty]
  have waits2 : Waits stuck (update locks dp (some e')) s2
      (s2.tree (s2.icache ip).inum).entries dot := by
    rw [empty2]
    exact fun de member => absurd member List.not_mem_nil
  rw [wp_bind, wp_get]
  apply (dirlink_spec inv2 locked2 p dot inside waits2).bind
  rintro first s3 ⟨d3, type3, inv3, stays3, linked3⟩
  rw [wp_ite]
  refine ⟨fun _ => ⟨by decide, by simp, by simp, inv3.quiet⟩, fun made3 => ?_⟩
  have entered3 := (linked3.resolve_left fun failed => made3 failed.1).2
  have first3 := entered3.first empty2
  rw [tree2, isInum] at entered3
  have isInum3 := (inv2.inum_stays locked2 stays3).trans isInum
  -- the only entry is `.`, so `..` is not found
  have waits3 : Waits stuck (update (update locks dp (some e')) ip (some d3)) s3
      (s3.tree (s3.icache ip).inum).entries dotdot := by
    rw [isInum3, ← isInum, first3]
    intro de member isName
    have differ : ¬ namecmp dotdot (strncpyName dot) = true := by decide
    rw [List.mem_singleton.mp member] at isName
    exact absurd isName.2 differ
  rw [wp_bind, isParent]
  rw [isParent] at insideParent
  apply (dirlink_spec inv3 (update_self _ _ _) p dotdot insideParent waits3).mono
  rintro second s4 ⟨d4, type4, inv4, stays4, linked4⟩
  rw [update_idem] at inv4
  rw [wp_ite]
  refine ⟨fun _ => ⟨by decide, by simp, by simp, inv4.quiet⟩, fun made4 => ?_⟩
  have entered4 := (linked4.resolve_left fun failed => made4 failed.1).2
  rw [isInum3] at entered4
  exact ⟨d4, e', type4.trans type3, inv4, (stays2.trans stays3).trans stays4, s3.tree, entered3,
    entered4⟩

theorem createDotsOf_spec (inv : Inv fixed none held locks s) (p : ProcId)
    (lockedParent : locks dp = some e) (locked : locks ip = some d) (different : ip ≠ dp)
    (empty : (s.tree (s.icache ip).inum).entries = []) (type : BitVec 16) :
    wp (createDotsOf p dp ip type) (fun _ s' => ∃ d' e', d'.type = d.type ∧
      Inv fixed none held (update (update locks dp (some e')) ip (some d')) s' ∧
      Stays held s s' ∧ Dotted s.tree (s.icache dp).inum (s.icache ip).inum type s'.tree)
      (Stops broken stuck) s := by
  unfold createDotsOf Dotted
  split
  · exact createDots_spec inv p lockedParent locked different empty
  · refine ⟨d, e, rfl, ?_, Stays.refl held s, rfl⟩
    rw [← lockedParent, update_eq_self, ← locked, update_eq_self]
    exact inv

/-- A free inode has been made a node of this type, with a link for the name in the
directory. -/
def Makes (ninodes : Nat) (tree : Tree) (dir : Nat) (name : List UInt8) (type : BitVec 16)
    (tree' : Tree) : Prop :=
  ∃ inum dotted, 0 < inum ∧ inum < ninodes ∧ (tree inum).type = 0 ∧ inum ≠ dir ∧
    Dotted (update tree inum ⟨type, 1, []⟩) dir inum type dotted ∧
    Enters dotted dir inum name tree'

theorem createNew_spec (inv : Inv fixed none ((dp, false) ::ₘ held) locks s) (p : ProcId)
    (lockedParent : locks dp = some e) (awake : Awake stuck (update locks dp none))
    (name : List UInt8) (absent : Absent (s.tree (s.icache dp).inum).entries name)
    (type major minor : BitVec 16) :
    wp (createNew p dp name type major minor) (fun made s' => made ≠ none ∧
      Created fixed held (update locks dp none) type made s' ∧
      ∃ tree, Makes fixed.ninodes s.tree (s.icache dp).inum name type tree ∧ Ends s tree s')
      (Stops broken stuck) s := by
  rw [createNew]
  apply (ialloc_spec inv type).bind
  rintro ip s1 ⟨inv1, positive, wasFree, isImage, allocates⟩
  have tree1 : s1.tree = update s.tree (s1.icache ip).inum ⟨type, 0, []⟩ := by
    rw [FsState.tree, isImage, Image.tree_setInode, nodeOf_empty _ rfl]
    rfl
  have isParent1 := allocates.inums dp false (Multiset.mem_cons_self _ _)
  have different : ip ≠ dp := by
    rintro rfl
    rw [isParent1] at wasFree
    obtain ⟨isInode, allocated⟩ := inv.locked_inode lockedParent
    rw [view_none] at isInode
    exact allocated (isInode ▸ wasFree)
  have awake1 : ∀ d, locks ip = some d → stuck := by
    intro d isLocked
    apply awake ip d
    rw [update_of_ne different, isLocked]
  apply (ilock_spec inv1 p (Multiset.mem_cons_self _ _) awake1).bind
  rintro _ s2 ⟨d, free, isInode, allocated, inv2, frozen2⟩
  have isInum2 := frozen2.stays.inums ip false (Multiset.mem_cons_self _ _)
  have upto2 : Stays ((dp, false) ::ₘ held) s s2 := by
    constructor
    · intro y k member
      rw [frozen2.stays.inums y k (Multiset.mem_cons_of_mem member), allocates.inums y k member]
    · intro i moored
      by_cases same : i = (s1.icache ip).inum
      · rw [same, ← isInum2]
        exact inv2.moored (update_self _ _ _)
      · exact frozen2.stays.moors i (allocates.moors i same moored)
  have fewer : (dp, false) ::ₘ held ⊆ (ip, false) ::ₘ (dp, false) ::ₘ held :=
    Multiset.subset_cons _ _
  have typeOf : d.type = type := by
    rw [isInode, isImage, Image.setInode_inode, update_self]
  apply (relabel_spec inv2 (update_self _ _ _)
    (fun copy => { copy with major := major, minor := minor, nlink := 1 }) rfl rfl rfl).bind
  intro _ s3 updates
  apply updates.bind
  rintro _ s4 ⟨inv4, stays4, _, tree4⟩
  rw [frozen2.tree, isInum2, tree1, update_self, update_idem] at tree4
  rw [update_idem] at inv4
  have isInum4 := (stays4.inums ip false (Multiset.mem_cons_self _ _)).trans isInum2
  have upto4 : Stays ((dp, false) ::ₘ held) s s4 := upto2.trans (stays4.mono fewer)
  have empty4 : (s4.tree (s4.icache ip).inum).entries = [] := by
    rw [isInum4, tree4, update_self]
  have lockedParent4 : update locks ip (some
      { d with major := major, minor := minor, nlink := 1 }) dp = some e := by
    rw [update_of_ne (Ne.symm different), lockedParent]
  apply (createDotsOf_spec inv4 p lockedParent4 (update_self _ _ _) different empty4
    type).bind
  rintro _ s5 ⟨d', e', type', inv5, stays5, dotted⟩
  rw [tree4, upto4.inums dp false (Multiset.mem_cons_self _ _), isInum4] at dotted
  have lockedParent5 : update (update (update locks ip (some
      { d with major := major, minor := minor, nlink := 1 })) dp (some e')) ip (some d') dp =
      some e' := by
    rw [update_of_ne (Ne.symm different), update_self]
  have inside : (s5.icache ip).inum < fixed.ninodes :=
    inv5.isSb ▸ inv5.locked_inside (update_self _ _ _)
  have isInum5 := (stays5.inums ip false (Multiset.mem_cons_self _ _)).trans isInum4
  have upto5 := upto4.trans (stays5.mono fewer)
  have isParent5 := upto5.inums dp false (Multiset.mem_cons_self _ _)
  have apart := inv5.inum_ne (inv5.locked dp e' lockedParent5).1 different
    (inv5.locked ip d' (update_self _ _ _)).1
  rw [isInum5, isParent5] at apart
  have absent5 : Absent (s5.tree (s5.icache dp).inum).entries name := by
    rw [isParent5, dotted.entries apart, update_of_ne apart.symm]
    exact absent
  rw [wp_bind, wp_get]
  apply (dirlink_spec inv5 lockedParent5 p name inside fun de member isName =>
    absurd isName (absent5 de member)).bind
  rintro linked s6 ⟨e6, -, inv6, stays6, link⟩
  rw [wp_ite]
  refine ⟨fun _ => ⟨by decide, by simp, by simp, inv6.quiet⟩, fun made => ?_⟩
  have entered := (link.resolve_left fun failed => made failed.1).2
  rw [isParent5, isInum5] at entered
  rw [isInum5] at inside
  rw [Multiset.cons_swap] at inv6
  apply (iunlockput_spec inv6 p (update_self _ _ _)).bind
  rintro _ s7 ⟨inv7, steady7⟩
  have ended : update (update (update (update
      (update locks ip (some { d with major := major, minor := minor, nlink := 1 })) dp
        (some e')) ip (some d')) dp (some e6)) dp none =
      update (update locks dp none) ip (some d') := by
    funext y
    by_cases isDp : y = dp
    · simp [isDp, Ne.symm different]
    · by_cases isIp : y = ip <;> simp [isDp, isIp, different]
  rw [ended] at inv7
  refine ⟨by simp, ⟨d', ?_, ?_, fun isFile => (type'.trans typeOf).trans isFile, inv7⟩, s6.tree,
    ⟨(s1.icache ip).inum, s5.tree, positive, inside, wasFree, apart, dotted, entered⟩,
    steady7.ends.after (upto5.moors.trans stays6.moors)⟩
  · rw [update_of_ne different, free]
  · exact type'.trans_ne allocated

/-- What `create` makes of the tree: the same, or one with a new node in the directory
that `nameiparent` returns. -/
def Creates (p : ProcId) (cwd : Slot) (path : List UInt8) (type : BitVec 16) (s : FsState)
    (tree : Tree) : Prop :=
  tree = s.tree ∨ ∃ dp name s₁, nameiparent p cwd path s = (.ok (some (dp, name)), s₁) ∧
    Reaped s.tree s₁.tree ∧ Makes s.sb.ninodes s₁.tree (s₁.icache dp).inum name type tree

/-- The directory of the path has its last element. -/
def NameTaken (p : ProcId) (cwd : Slot) (path : List UInt8) (s : FsState) : Prop :=
  ∀ dp name s₁, nameiparent p cwd path s = (.ok (some (dp, name)), s₁) →
    ¬ Absent (s₁.tree (s₁.icache dp).inum).entries name

theorem create_spec (inv : Inv fixed none held locks s) (p : ProcId) (awake : Awake stuck locks)
    (member : (cwd, k) ∈ held) (path : List UInt8) (type major minor : BitVec 16) :
    wp (create p cwd path type major minor) (fun made s' =>
      Created fixed held locks type made s' ∧ (made = none ∨ NameTaken p cwd path s → Steady held s s') ∧
      ∃ tree, Creates p cwd path type s tree ∧ Ends s tree s') (Stops broken stuck) s := by
  rw [create, wp_bind, nameiparent]
  apply (namex_spec inv p awake member path true).ran.mono
  intro parent s1 ⟨⟨resolved, steady1⟩, ran⟩
  cases parent with
  | none => exact ⟨resolved, fun _ => steady1, s.tree, Or.inl rfl, steady1.ends⟩
  | some result =>
    obtain ⟨dp, name⟩ := result
    have inv1 : Inv fixed none ((dp, false) ::ₘ held) locks s1 := resolved
    apply (ilock_spec inv1 p (Multiset.mem_cons_self _ _) (awake dp)).bind
    rintro _ s2 ⟨e, free, -, -, inv2, frozen2⟩
    have locked : update locks dp (some e) dp = some e := update_self _ _ _
    apply (dirlookup_spec inv2 locked name).bind
    rintro found s3 ⟨-, isFound, frozen3⟩
    have upto3 := frozen2.trans frozen3
    have isParent2 := frozen2.stays.inums dp false (Multiset.mem_cons_self _ _)
    have isParent3 := upto3.stays.inums dp false (Multiset.mem_cons_self _ _)
    have steady3 := steady1.trans (upto3.mono (Multiset.subset_cons _ _)).steady
    rw [← unlock_lock free (some e)] at awake ⊢
    cases found with
    | none =>
      obtain ⟨inv3, absent⟩ := isFound
      rw [isParent2, frozen2.tree] at absent
      have isNew : ¬ NameTaken p cwd path s := fun taken => taken dp name s1 ran absent
      rw [← isParent3, ← upto3.tree] at absent
      apply (createNew_spec inv3 p locked awake name absent type major minor).mono
      intro made s4 ⟨isSome, created, tree, makes, ends⟩
      rw [upto3.tree, isParent3, ← inv.isSb] at makes
      exact ⟨created, fun either => absurd either (not_or.mpr ⟨isSome, isNew⟩), tree,
        Or.inr ⟨dp, name, s1, ran, steady1.reaped, makes⟩, ends.after steady3.stays.moors⟩
    | some entry =>
      apply (createFound_spec isFound.1 p locked awake type).mono
      intro made s4 ⟨created, steady4⟩
      have steady := steady3.trans steady4
      exact ⟨created, fun _ => steady, s.tree, Or.inl rfl, steady.ends⟩

/-! ### `sys_link` -/

/-- `sys_link` for the inode `ip`, up to `nameiparent`. -/
def linkFoundParent (p : ProcId) (cwd ip : Slot) (new : List UInt8) :
    FsM (Option (Slot × List UInt8)) := do
  ilock p ip
  let s ← Prog.get
  if (s.icache ip).copy.type = T_DIR then pure none
  else do
    addLinks ip 1
    iupdate ip
    iunlock p ip
    nameiparent p cwd new

/-- `sys_link` up to `nameiparent`. -/
def linkParent (p : ProcId) (cwd : Slot) (old new : List UInt8) :
    FsM (Option (Slot × List UInt8)) := do
  record .beginOp
  let found ← namei p cwd old
  match found with
  | none => pure none
  | some ip => linkFoundParent p cwd ip new

/-- A link that was counted and not made is no longer counted. -/
def Unwinds (tree : Tree) (inum : Nat) (tree' : Tree) : Prop :=
  ∃ middle, Reaped tree middle ∧ tree' = middle.addLinks inum (-1)

def LinksInto (tree : Tree) (dir inum : Nat) (name : List UInt8) (tree' : Tree) : Prop :=
  Unwinds tree inum tree' ∨ Enters tree dir inum name tree'

/-- What `sys_link` makes of the tree once it has counted the link: it fails, or goes on
in a state `s₁` with the directory `dp`. -/
def LinksCounted (tree : Tree) (inum : Nat) (ran : Slot → List UInt8 → FsState → Prop)
    (tree' : Tree) : Prop :=
  Unwinds tree inum tree' ∨ ∃ dp name s₁, ran dp name s₁ ∧ Reaped tree s₁.tree ∧
    LinksInto s₁.tree (s₁.icache dp).inum inum name tree'

/-- The disk is that of `start`, with one more link of the inode `i`. -/
structure Counts (held : Holds) (start : FsState) (i : Nat) (s : FsState) : Prop where
  stays : Stays held start s
  image : image s.sb s.disk = (image start.sb start.disk).setInode i
    { (image start.sb start.disk).inode i with nlink := ((image start.sb start.disk).inode i).nlink + 1 }

namespace Counts

variable {start s' : FsState} {i : Nat} (counts : Counts held start i s)
include counts

theorem frozen (frozen : Frozen held s s') : Counts held start i s' := by
  refine ⟨counts.stays.trans frozen.stays, ?_⟩
  rw [frozen.sb, frozen.disk]
  exact counts.image

theorem tree : s.tree = start.tree.addLinks i 1 := by
  rw [FsState.tree, counts.image, Image.tree_setInode, nodeOf_relabel rfl rfl rfl]
  rfl

theorem anchored (anchored : Anchored held start) (isInum : (s.icache x).inum = i) :
    Anchored ((x, k) ::ₘ held) s := by
  intro j allocated unlinked
  by_cases same : j = i
  · exact ⟨x, k, Multiset.mem_cons_self _ _, isInum.trans same.symm⟩
  · rw [counts.tree, Tree.addLinks, update_of_ne same] at allocated unlinked
    obtain ⟨y, k', member, isJ⟩ := anchored j allocated unlinked
    exact ⟨y, k', Multiset.mem_cons_of_mem member, (counts.stays.inums y k' member).trans isJ⟩

end Counts

/-- The disk is that of `start`, if `held` keeps its nodes without links. -/
def Spares (held : Holds) (start s : FsState) : Prop :=
  Anchored held start → image s.sb s.disk = image start.sb start.disk

/-- A call to link the inode `inum` has failed and changed nothing, or it has counted and
entered the link in the state `middle`, and has then left things alone. -/
def Linked (held : Holds) (start : FsState) (inum : Nat) (result : Int) (s : FsState) : Prop :=
  Anchored held start → result = -1 ∧ image s.sb s.disk = image start.sb start.disk ∨
    result = 0 ∧ ∃ dir name middle, Enters (start.tree.addLinks inum 1) dir inum name middle.tree ∧
      Stays held start middle ∧ Steady held middle s

theorem Steady.spares {s' : FsState} (steady : Steady held s s') : Spares held s s' := by
  intro anchored
  have frozen := steady.still anchored
  rw [frozen.sb, frozen.disk]

theorem linkBad_spec (inv : Inv fixed none ((x, false) ::ₘ held) locks s) (p : ProcId)
    (awake : Awake stuck locks) :
    wp (linkBad p x) (fun result s' => Inv fixed none held locks s' ∧
      Ends s (s.tree.addLinks (s.icache x).inum (-1)) s' ∧ result = -1 ∧
      ∀ start, Counts held start (s.icache x).inum s → Spares held start s') (Stops broken stuck) s := by
  rw [linkBad]
  apply (ilock_spec inv p (Multiset.mem_cons_self _ _) (awake x)).bind
  rintro _ s1 ⟨d, free, isInode, -, inv1, frozen1⟩
  apply (addLinks_spec inv1 (update_self _ _ _) (-1)).bind
  intro _ s2 updates
  apply updates.bind
  rintro _ s3 ⟨d', -, inv3, stays3, tree3, image3⟩
  have isInum1 := frozen1.stays.inums x false (Multiset.mem_cons_self _ _)
  rw [frozen1.tree, isInum1] at tree3
  rw [frozen1.sb, frozen1.disk, isInum1] at image3
  rw [update_idem] at inv3
  apply (iunlockput_spec inv3 p (update_self _ _ _)).bind
  intro _ s4 ⟨inv4, steady4⟩
  rw [unlock_lock free] at inv4
  have ends4 := (tree3 ▸ steady4.ends).after (frozen1.stays.moors.trans stays3.moors)
  refine ⟨inv4.record fun _ => Event.noConfusion, ends4.log .endOp, rfl, fun start counts anchored => ?_⟩
  have back : image s3.sb s3.disk = image start.sb start.disk := by
    rw [counts.image, Image.setInode_inode, update_self] at isInode
    have restored : { d with nlink := d.nlink + -1 } = (image start.sb start.disk).inode (s.icache x).inum := by
      have cancels : ∀ n : BitVec 16, n + 1 + -1 = n := fun n => by bv_omega
      rw [isInode]
      simp only [cancels]
    rw [image3, counts.image, restored, Image.setInode_setInode, Image.setInode_self]
  have upto3 : Stays held start s3 :=
    counts.stays.trans ((frozen1.stays.trans stays3).mono (Multiset.subset_cons _ _))
  have anchored3 : Anchored held s3 := by
    intro i allocated unlinked
    rw [FsState.tree, back] at allocated unlinked
    obtain ⟨y, k', member, isI⟩ := anchored i allocated unlinked
    exact ⟨y, k', member, (upto3.inums y k' member).trans isI⟩
  exact (steady4.spares anchored3).trans back

/-- The directory `dp` has this name for itself. -/
def NamesItself (s : FsState) (dp : Slot) (name : List UInt8) : Prop :=
  ∃ de ∈ (s.tree (s.icache dp).inum).entries, de.Is name ∧ de.inum = (s.icache dp).inum

theorem linkInto_spec (inv : Inv fixed none ((dp, false) ::ₘ (ip, false) ::ₘ held) locks s)
    (p : ProcId) (awake : Awake stuck locks) (name : List UInt8)
    (itself : NamesItself s dp name → stuck) :
    wp (linkInto p ip dp name) (fun result s' => Inv fixed none held locks s' ∧
      (∀ start, Counts held start (s.icache ip).inum s → Linked held start (s.icache ip).inum result s') ∧
      ∃ tree, LinksInto s.tree (s.icache dp).inum (s.icache ip).inum name tree ∧ Ends s tree s')
      (Stops broken stuck) s := by
  have isHeld : (ip, false) ∈ (dp, false) ::ₘ (ip, false) ::ₘ held :=
    Multiset.mem_cons_of_mem (Multiset.mem_cons_self _ _)
  rw [linkInto]
  apply (ilock_spec inv p (Multiset.mem_cons_self _ _) (awake dp)).bind
  rintro _ s1 ⟨e, free, -, -, inv1, frozen1⟩
  have isInum1 := frozen1.stays.inums ip false isHeld
  have isParent1 := frozen1.stays.inums dp false (Multiset.mem_cons_self _ _)
  have waits1 : Waits stuck (update locks dp (some e)) s1
      (s1.tree (s1.icache dp).inum).entries name := by
    intro de member isName y d isLocked same
    by_cases isParent : y = dp
    · rw [frozen1.tree, isParent1] at member
      rw [isParent, isParent1] at same
      exact itself ⟨de, member, isName, same.symm⟩
    · rw [update_of_ne isParent] at isLocked
      exact awake y d isLocked
  have inside : (s1.icache ip).inum < fixed.ninodes := inv1.isSb ▸ inv1.inside ip (inv1.ref_pos isHeld)
  rw [wp_bind, wp_get]
  apply (dirlink_spec inv1 (update_self _ _ _) p name inside waits1).bind
  rintro linked s2 ⟨e', -, inv2, stays2, link⟩
  rw [frozen1.tree, isParent1, isInum1] at link
  rw [update_idem] at inv2
  apply (iunlockput_spec inv2 p (update_self _ _ _)).bind
  intro _ s3 ⟨inv3, steady3⟩
  rw [unlock_lock free] at inv3
  have isInum3 : (s3.icache ip).inum = (s.icache ip).inum := by
    rw [steady3.stays.inums ip false (Multiset.mem_cons_self _ _), stays2.inums ip false isHeld,
      isInum1]
  have moors2 : Moors s s2 := frozen1.stays.moors.trans stays2.moors
  rw [wp_ite]
  refine ⟨fun failed => ?_, fun made => ?_⟩
  · have steady2 := frozen1.steady.trans (link.resolve_right fun entered => entered.1 failed).2
    apply (linkBad_spec inv3 p awake).mono
    intro _ s4 ⟨inv4, unwound, failed, spares⟩
    rw [isInum3] at unwound spares
    refine ⟨inv4, fun start counts anchored => Or.inl ⟨failed, spares start ?_ anchored⟩, _,
      Or.inl ⟨s3.tree, steady2.reaped.trans steady3.reaped, rfl⟩,
      unwound.after (moors2.trans steady3.stays.moors)⟩
    have upto3 := (steady2.mono (Multiset.subset_cons _ _)).trans steady3
    exact counts.frozen ((upto3.still (counts.anchored anchored rfl)).mono (Multiset.subset_cons _ _))
  · have entered := (link.resolve_left fun failed => made failed.1).2
    apply (iput_spec inv3 p (awake ip)).bind
    intro _ s4 ⟨inv4, steady4⟩
    have fewer : held ⊆ (ip, false) ::ₘ held := Multiset.subset_cons _ _
    refine ⟨inv4.record fun _ => Event.noConfusion, fun start counts _ =>
      Or.inr ⟨rfl, (s.icache dp).inum, name, s2, ?_, ?_, ?_⟩,
      s2.tree, Or.inr entered, ((steady3.ends.steady steady4).after moors2).log .endOp⟩
    · exact counts.tree ▸ entered
    · exact counts.stays.trans ((frozen1.stays.trans stays2).mono (Multiset.Subset.trans fewer (Multiset.subset_cons _ _)))
    · exact ((steady3.mono fewer).trans steady4).log .endOp

theorem linkFound_spec (inv : Inv fixed none ((ip, false) ::ₘ held) locks s) (p : ProcId)
    (awake : Awake stuck locks) (member : (cwd, k) ∈ held) (new : List UInt8)
    (itself : ∀ dp name s1, linkFoundParent p cwd ip new s = (.ok (some (dp, name)), s1) → NamesItself s1 dp name → stuck) :
    wp (linkFound p cwd ip new) (fun result s' => Inv fixed none held locks s' ∧
      ((s.tree (s.icache ip).inum).type ≠ 0 ∧ Linked held s (s.icache ip).inum result s') ∧ ∃ tree,
      (tree = s.tree ∨ (s.tree (s.icache ip).inum).type ≠ 0 ∧
        (s.tree (s.icache ip).inum).type ≠ T_DIR ∧
        LinksCounted (s.tree.addLinks (s.icache ip).inum 1) (s.icache ip).inum
          (fun dp name s1 => linkFoundParent p cwd ip new s = (.ok (some (dp, name)), s1)) tree) ∧
      Ends s tree s') (Stops broken stuck) s := by
  rw [linkFound]
  apply (ilock_spec inv p (Multiset.mem_cons_self _ _) (awake ip)).ran.bind
  rintro _ s1 ⟨⟨d, free, isInode, allocated, inv1, frozen1⟩, ran1⟩
  have locked : update locks ip (some d) ip = some d := update_self _ _ _
  have isCopy := (inv1.locked ip d locked).2.2.2
  have isInum1 := frozen1.stays.inums ip false (Multiset.mem_cons_self _ _)
  have isType : (s.tree (s.icache ip).inum).type = d.type := congrArg Dinode.type isInode.symm
  have isUsed := isType.trans_ne allocated
  have fewer : held ⊆ (ip, false) ::ₘ held := Multiset.subset_cons _ _
  rw [wp_bind, wp_get, wp_ite, isCopy]
  refine ⟨fun _ => ?_, fun plain => ?_⟩
  · apply (iunlockput_spec inv1 p locked).bind
    intro _ s2 ⟨inv2, steady2⟩
    rw [unlock_lock free] at inv2
    have upto2 := ((frozen1.mono fewer).steady.trans steady2).log .endOp
    exact ⟨inv2.record fun _ => Event.noConfusion,
      ⟨isUsed, fun anchored => Or.inl ⟨rfl, upto2.spares anchored⟩⟩, s.tree, Or.inl rfl, upto2.ends⟩
  · apply (addLinks_spec inv1 locked 1).ran.bind
    intro _ s2 ⟨updates, ran2⟩
    apply updates.ran.bind
    rintro _ s3 ⟨⟨d', -, inv3, stays3, tree3, image3⟩, ran3⟩
    rw [frozen1.sb, frozen1.disk, isInum1, isInode] at image3
    have counts3 : Counts held s (s.icache ip).inum s3 := ⟨(frozen1.stays.trans stays3).mono fewer, image3⟩
    rw [frozen1.tree, isInum1] at tree3
    rw [update_idem] at inv3
    apply (iunlock_spec inv3 p (update_self _ _ _)).ran.bind
    intro _ s4 ⟨⟨inv4, frozen4⟩, ran4⟩
    rw [unlock_lock free] at inv4
    have tree4 := frozen4.tree.trans tree3
    rw [wp_bind, nameiparent]
    apply (namex_spec inv4 p awake (Multiset.mem_cons_of_mem member) new true).ran.mono
    intro parent s5 ⟨⟨resolved, steady5⟩, ran5⟩
    have upto5 := (frozen1.stays.trans stays3).trans (frozen4.stays.trans steady5.stays)
    have isInum5 := upto5.inums ip false (Multiset.mem_cons_self _ _)
    have reaped5 := steady5.reaped
    rw [tree4] at reaped5
    have counts5 : Anchored held s → Counts held s (s.icache ip).inum s5 := by
      intro anchored
      have counts4 := counts3.frozen (frozen4.mono fewer)
      have isInum4 := (stays3.trans frozen4.stays).inums ip false (Multiset.mem_cons_self _ _)
      exact counts4.frozen ((steady5.still (counts4.anchored anchored (isInum4.trans isInum1))).mono fewer)
    cases parent with
    | none =>
      apply (linkBad_spec resolved p awake).mono
      intro _ s6 ⟨inv6, unwound, failed, spares⟩
      rw [isInum5] at unwound spares
      exact ⟨inv6, ⟨isUsed, fun anchored => Or.inl ⟨failed, spares s (counts5 anchored) anchored⟩⟩, _,
        Or.inr ⟨isUsed, isType.trans_ne plain, Or.inl ⟨s5.tree, reaped5, rfl⟩⟩, unwound.after upto5.moors⟩
    | some result =>
      obtain ⟨dp, name⟩ := result
      have ran : linkFoundParent p cwd ip new s = (.ok (some (dp, name)), s5) := by
        have got : (Prog.get : FsM FsState) s1 = (.ok s1, s1) := rfl
        rw [linkFoundParent, Prog.bind_ran ran1, Prog.bind_ran got, isCopy, if_neg plain,
          Prog.bind_ran ran2, Prog.bind_ran ran3, Prog.bind_ran ran4]
        exact ran5
      apply (linkInto_spec resolved p awake name (itself dp name s5 ran)).mono
      intro _ s6 ⟨inv6, linked, tree, into, ends6⟩
      rw [isInum5] at into linked
      exact ⟨inv6, ⟨isUsed, fun anchored => linked s (counts5 anchored) anchored⟩, tree,
        Or.inr ⟨isUsed, isType.trans_ne plain, Or.inr ⟨dp, name, s5, ran, reaped5, into⟩⟩,
        ends6.after upto5.moors⟩

def Links (p : ProcId) (cwd : Slot) (old new : Option (List UInt8)) (s : FsState) (tree' : Tree) :
    Prop :=
  tree' = s.tree ∨ ∃ oldPath newPath tree inum, old = some oldPath ∧ new = some newPath ∧
    Reaped s.tree tree ∧ (tree inum).type ≠ 0 ∧ (tree inum).type ≠ T_DIR ∧
    LinksCounted (tree.addLinks inum 1) inum (fun dp name s₁ =>
      linkParent p cwd oldPath newPath s = (.ok (some (dp, name)), s₁)) tree'

theorem sysLink_spec (inv : Inv fixed none held locks s) (p : ProcId) (awake : Awake stuck locks)
    (member : (cwd, k) ∈ held) (old new : Option (List UInt8))
    (itself : ∀ oldPath newPath dp name s1, old = some oldPath → new = some newPath → linkParent p cwd oldPath newPath s = (.ok (some (dp, name)), s1) → NamesItself s1 dp name → stuck) :
    wp (sysLink p cwd old new) (fun result s' => Inv fixed none held locks s' ∧
      (result = -1 ∧ Spares held s s' ∨ ∃ oldPath ip s1, old = some oldPath ∧
        namei p cwd oldPath (s.log .beginOp) = (.ok (some ip), s1) ∧ Steady held s s1 ∧
        (s1.tree (s1.icache ip).inum).type ≠ 0 ∧ Linked held s1 (s1.icache ip).inum result s') ∧
      ∃ tree, Links p cwd old new s tree ∧ Ends s tree s') (Stops broken stuck) s := by
  unfold sysLink
  split
  · rename_i old new
    rw [wp_bind, wp_record, wp_bind]
    have begun : Inv fixed none held locks (s.log .beginOp) :=
      inv.record fun _ => Event.noConfusion
    apply (namei_spec begun p awake member old).ran.mono
    rintro found s1 ⟨⟨resolved, steady1⟩, ran1⟩
    have upto1 : Steady held s s1 := (Frozen.log held s .beginOp).steady.trans steady1
    have ends1 := upto1.ends
    cases found with
    | none =>
      have inv1 : Inv fixed none held locks s1 := resolved
      exact ⟨inv1.record fun _ => Event.noConfusion, Or.inl ⟨rfl, (upto1.log .endOp).spares⟩, s.tree, Or.inl rfl,
        ends1.log .endOp⟩
    | some ip =>
      have ran : linkParent p cwd old new s = linkFoundParent p cwd ip new s1 := by
        have logged : record .beginOp s = (.ok (), s.log .beginOp) := rfl
        rw [linkParent, Prog.bind_ran logged, Prog.bind_ran ran1]
      apply (linkFound_spec resolved p awake member new fun dp name s5 found =>
        itself old new dp name s5 rfl rfl (ran.trans found)).mono
      rintro _ s2 ⟨inv2, linked, tree, links, ends2⟩
      refine ⟨inv2, Or.inr ⟨old, ip, s1, rfl, ran1, upto1, linked⟩, ?_⟩
      rcases links with rfl | ⟨allocated, plain, counted⟩
      · exact ⟨s.tree, Or.inl rfl, ends1.trans ends2⟩
      · exact ⟨tree, Or.inr ⟨old, new, s1.tree, _, rfl, rfl, ends1.reaped, allocated, plain,
          counted.imp id (by
            rintro ⟨dp, name, s5, found, rest⟩
            exact ⟨dp, name, s5, ran.trans found, rest⟩)⟩, ends2.after ends1.moors⟩
  · exact ⟨inv, Or.inl ⟨rfl, (Steady.refl held s).spares⟩, s.tree, Or.inl rfl, Ends.refl s⟩

/-! ### `sys_unlink` -/

theorem isdiremptyLoop_spec (inv : Inv fixed none held locks s) (locked : locks x = some d)
    (directory : d.type = T_DIR) {offsets : List Nat} (aligned : ∀ off ∈ offsets, DIRENT ∣ off) :
    wp (isdiremptyLoop x offsets) (fun empty s' => s' = s ∧ (empty = true → ∀ off ∈ offsets,
      ∀ de, (s.tree (s.icache x).inum).entries[off / DIRENT]? = some de → de.inum = 0))
      (Stops broken stuck) s := by
  induction offsets with
  | nil => exact ⟨rfl, fun _ off member => absurd member List.not_mem_nil⟩
  | cons off rest ih =>
    rw [isdiremptyLoop]
    apply (readDirent_spec inv locked directory (by decide) (by decide) (by decide)
      (aligned off List.mem_cons_self)).bind
    rintro de _ ⟨rfl, -, at_⟩
    rw [wp_ite]
    refine ⟨fun _ => ⟨rfl, nofun⟩, fun unused => ?_⟩
    apply (ih fun off member => aligned off (List.mem_cons_of_mem _ member)).mono
    rintro empty _ ⟨rfl, others⟩
    refine ⟨rfl, fun isEmpty off' member de' at' => ?_⟩
    rcases List.mem_cons.mp member with same | inRest
    · rw [same, at_] at at'
      cases at'
      exact not_not.mp unused
    · exact others isEmpty off' inRest de' at'

/-- Only the first two entries are in use. -/
def Node.Empty (node : Node) : Prop := ∀ de ∈ node.entries.drop 2, de.inum = 0

theorem unlinkable_spec (inv : Inv fixed none held locks s) (locked : locks x = some d) :
    wp (unlinkable x) (fun may s' => s' = s ∧ (may = true → d.type = T_DIR →
      (s.tree (s.icache x).inum).Empty)) (Stops broken stuck) s := by
  have isCopy := (inv.locked x d locked).2.2.2
  rw [unlinkable, wp_bind, wp_get, wp_ite, isCopy]
  refine ⟨fun directory => ?_, fun plain => ⟨rfl, fun _ directory => absurd directory plain⟩⟩
  rw [isdirempty, wp_bind, wp_get, isCopy]
  apply (isdiremptyLoop_spec inv locked directory fun off member =>
    dvd_of_mem_entryOffsets (List.mem_of_mem_drop member)).mono
  rintro may _ ⟨rfl, empty⟩
  refine ⟨rfl, fun isEmpty _ de member => ?_⟩
  obtain ⟨j, at_⟩ := List.mem_iff_getElem?.mp member
  rw [List.getElem?_drop] at at_
  have visited : DIRENT * (2 + j) ∈ (entryOffsets d.size).drop 2 := by
    rw [inv.tree_locked locked] at at_
    obtain ⟨below, -⟩ := List.getElem?_eq_some_iff.mp at_
    rw [nodeOf, length_entriesOf directory] at below
    have inside : 2 + j < (d.size + (DIRENT - 1)) / DIRENT := by
      unfold DIRENT at below ⊢
      omega
    apply List.mem_of_getElem? (i := j)
    rw [List.getElem?_drop, entryOffsets, List.getElem?_map, List.getElem?_range inside,
      Option.map_some]
  refine empty isEmpty _ visited de ?_
  rw [Nat.mul_div_cancel_left _ (by decide)]
  exact at_

theorem unlinkBad_spec (inv : Inv fixed none ((x, false) ::ₘ held) locks s) (p : ProcId)
    (locked : locks x = some d) :
    wp (unlinkBad p x) (fun result s' => Inv fixed none held (update locks x none) s' ∧
      result = -1 ∧ Steady held s s') (Stops broken stuck) s := by
  rw [unlinkBad]
  apply (iunlockput_spec inv p locked).bind
  intro _ s1 ⟨inv1, steady1⟩
  exact ⟨inv1.record fun _ => Event.noConfusion, rfl, steady1.log .endOp⟩

/-- The tree without the link that `..` is to the directory. -/
def Tree.dropParent (tree : Tree) (dir : Nat) (type : BitVec 16) : Tree :=
  if type = T_DIR then tree.addLinks dir (-1) else tree

theorem unlinkParent_spec (inv : Inv fixed none held locks s) (locked : locks x = some d)
    (type : BitVec 16) :
    wp (unlinkParent x type) (fun _ s' => ∃ d',
      Inv fixed none held (update locks x (some d')) s' ∧ Stays held s s' ∧
      s'.tree = s.tree.dropParent (s.icache x).inum type) (Stops broken stuck) s := by
  unfold unlinkParent Tree.dropParent
  split
  · apply (addLinks_spec inv locked (-1)).bind
    intro _ s1 updates
    apply updates.mono
    rintro _ s2 ⟨d', -, inv2, stays2, tree2, -⟩
    exact ⟨d', inv2, stays2, tree2⟩
  · refine ⟨d, ?_, Stays.refl held s, rfl⟩
    rw [← locked, update_eq_self]
    exact inv

def unusedEntry : Dirent := decodeDirent (List.replicate DIRENT 0)

/-- The tree without the entry `j` of the directory, which names `inum`. -/
def Tree.unlink (tree : Tree) (dir j inum : Nat) : Tree :=
  ((tree.setEntry dir j unusedEntry).dropParent dir (tree inum).type).addLinks inum (-1)

theorem Tree.dropParent_of_ne {tree : Tree} {dir i : Nat} {type : BitVec 16} (different : i ≠ dir) :
    (tree.dropParent dir type) i = tree i := by
  unfold dropParent
  split
  · exact update_of_ne different _ _
  · rfl

theorem unlinkEntry_spec (inv : Inv fixed none ((ip, false) ::ₘ (dp, false) ::ₘ held) locks s)
    (p : ProcId) (lockedParent : locks dp = some e) (directory : e.type = T_DIR)
    (locked : locks ip = some d) (linked : d.nlink ≠ 0) (different : ip ≠ dp)
    (aligned : DIRENT ∣ off) :
    wp (unlinkEntry p dp ip off) (fun result s' => Inv fixed none held
      (update (update locks dp none) ip none) s' ∧ result = 0 ∧
      Ends s (s.tree.unlink (s.icache dp).inum (off / DIRENT) (s.icache ip).inum) s')
      (Stops broken stuck) s := by
  have positive : 0 < fixed.ninodes := by
    have root := inv.layout.root
    rw [inv.isSb] at root
    omega
  have isNode := inv.tree_locked locked
  have isCopy := (inv.locked ip d locked).2.2.2
  have isType : (s.tree (s.icache ip).inum).type = d.type := by rw [isNode, nodeOf]
  have apart : (s.icache ip).inum ≠ (s.icache dp).inum :=
    inv.inum_ne (inv.locked dp e lockedParent).1 different (inv.locked ip d locked).1
  rw [unlinkEntry, wp_bind, wp_get]
  apply (writei_spec inv lockedParent fun _ => ⟨aligned, by decide, ?_⟩).bind
  · rintro written s1 ⟨e1, -, inv1, stays1, stores⟩
    rw [wp_ite]
    refine ⟨fun _ => ⟨by decide, by simp, by simp, inv1.quiet⟩, fun complete => ?_⟩
    obtain ⟨-, tree1⟩ := stores.directory directory (not_not.mp complete)
    have isParent1 := inv.inum_stays lockedParent stays1
    rw [wp_bind, isCopy]
    apply (unlinkParent_spec inv1 (update_self _ _ _) _).mono
    rintro _ s2 ⟨e2, inv2, stays2, tree2⟩
    rw [tree1, isParent1] at tree2
    rw [update_idem, Multiset.cons_swap] at inv2
    apply (iunlockput_spec inv2 p (update_self _ _ _)).bind
    rintro _ s3 ⟨inv3, steady3⟩
    rw [update_idem] at inv3
    have locked3 : update locks dp none ip = some d := by
      rw [update_of_ne different, locked]
    have isInum3 : (s3.icache ip).inum = (s.icache ip).inum := by
      rw [steady3.stays.inums ip false (Multiset.mem_cons_self _ _),
        (stays1.trans stays2).inums ip false (Multiset.mem_cons_self _ _)]
    -- the inode still has its link, so it was not reaped with the directory
    have same2 : s2.tree (s.icache ip).inum = s.tree (s.icache ip).inum := by
      rw [tree2, Tree.dropParent_of_ne apart, Tree.setEntry, update_of_ne apart]
    have same3 : s3.tree (s.icache ip).inum = s2.tree (s.icache ip).inum := by
      apply steady3.reaped.eq_of_links
      rw [same2, isNode]
      exact linked
    apply (addLinks_spec inv3 locked3 (-1)).bind
    intro _ s4 updates
    apply updates.bind
    rintro _ s5 ⟨d', -, inv5, stays5, tree5, -⟩
    rw [isInum3] at tree5
    apply (iunlockput_spec inv5 p (update_self _ _ _)).bind
    rintro _ s6 ⟨inv6, steady6⟩
    rw [update_idem] at inv6
    have reaped := steady3.reaped.addLinks same3 (-1)
    rw [tree2, ← tree5] at reaped
    have moors5 := ((stays1.trans stays2).moors.trans steady3.stays.moors).trans stays5.moors
    rw [Tree.unlink, isType]
    exact ⟨inv6.record fun _ => Event.noConfusion, rfl,
      reaped.trans steady6.reaped, moors5.trans steady6.stays.moors⟩
  · rw [inv.isSb]
    exact positive

/-- What `sys_unlink` makes of the tree when it has found the inode. -/
def UnlinksEntry (tree : Tree) (dir j inum : Nat) (tree' : Tree) : Prop :=
  ((tree inum).type = T_DIR → (tree inum).Empty) ∧ inum ≠ dir ∧ tree' = tree.unlink dir j inum

theorem unlinkFound_spec (inv : Inv fixed none ((ip, false) ::ₘ (dp, false) ::ₘ held) locks s)
    (p : ProcId) (lockedParent : locks dp = some e) (awake : Awake stuck (update locks dp none))
    (directory : e.type = T_DIR) (aligned : DIRENT ∣ off)
    (unlinked : (s.tree (s.icache ip).inum).nlink.toInt < 1 → broken)
    (itself : (s.icache ip).inum = (s.icache dp).inum → stuck) :
    wp (unlinkFound p dp ip off) (fun result s' => Inv fixed none held (update locks dp none) s' ∧
      Outcome held s (UnlinksEntry s.tree (s.icache dp).inum (off / DIRENT) (s.icache ip).inum) result s')
      (Stops broken stuck) s := by
  have awakeChild : ∀ d, locks ip = some d → stuck := by
    intro d isLocked
    by_cases same : ip = dp
    · exact itself (by rw [same])
    · apply awake ip d
      rw [update_of_ne same, isLocked]
  rw [unlinkFound]
  apply (ilock_spec inv p (Multiset.mem_cons_self _ _) awakeChild).bind
  rintro _ s1 ⟨d, free, -, -, inv1, frozen1⟩
  have different : ip ≠ dp := by
    intro same
    rw [same, lockedParent] at free
    cases free
  have locked1 : update locks ip (some d) ip = some d := update_self _ _ _
  have lockedParent1 : update locks ip (some d) dp = some e := by
    rw [update_of_ne (Ne.symm different), lockedParent]
  have isInum1 := frozen1.stays.inums ip false (Multiset.mem_cons_self _ _)
  have isParent1 :=
    frozen1.stays.inums dp false (Multiset.mem_cons_of_mem (Multiset.mem_cons_self _ _))
  have isCopy := (inv1.locked ip d locked1).2.2.2
  have apart := inv1.inum_ne (inv1.locked dp e lockedParent1).1 different (inv1.locked ip d locked1).1
  have isNode := inv1.tree_locked locked1
  rw [frozen1.tree, isInum1] at isNode
  rw [isNode] at unlinked
  rw [wp_bind, wp_get, wp_ite, isCopy]
  refine ⟨fun low => ⟨by decide, fun _ => unlinked low, nofun, inv1.quiet⟩, fun high => ?_⟩
  have linked : d.nlink ≠ 0 := by
    intro isZero
    rw [isZero] at high
    exact high (by decide)
  apply (unlinkable_spec inv1 locked1).bind
  rintro may _ ⟨rfl, empty⟩
  rw [frozen1.tree, isInum1] at empty
  rw [wp_ite]
  refine ⟨fun isMay => ?_, fun _ => ?_⟩
  · apply (unlinkEntry_spec inv1 p lockedParent1 directory locked1 linked different aligned).mono
    intro _ s2 ⟨inv2, isZero, ends⟩
    rw [update_comm (Ne.symm different), unlock_lock free] at inv2
    rw [frozen1.tree, isInum1, isParent1] at ends
    rw [isInum1, isParent1] at apart
    refine ⟨inv2, Or.inr ⟨isZero, _, ⟨fun isDirectory => empty isMay ?_, apart, rfl⟩,
      ends.after frozen1.stays.moors⟩⟩
    rw [isNode] at isDirectory
    exact isDirectory
  · apply (iunlockput_spec inv1 p locked1).bind
    intro _ s2 ⟨inv2, steady2⟩
    rw [unlock_lock free] at inv2
    apply (unlinkBad_spec inv2 p lockedParent).mono
    intro _ s3 ⟨inv3, failed, steady3⟩
    have fewer : held ⊆ (dp, false) ::ₘ held := Multiset.subset_cons _ _
    have steady1 := (frozen1.mono (Multiset.subset_cons _ _)).steady
    exact ⟨inv3, Or.inl ⟨failed, ((steady1.trans steady2).mono fewer).trans steady3⟩⟩

def UnlinksName (tree : Tree) (dir : Nat) (name : List UInt8) (tree' : Tree) : Prop :=
  (tree dir).type = T_DIR ∧ ¬ (namecmp name dot ∨ namecmp name dotdot) ∧ ∃ j de,
    (tree dir).entries[j]? = some de ∧ de.Is name ∧ UnlinksEntry tree dir j de.inum tree'

theorem unlinkName_spec (inv : Inv fixed none ((dp, false) ::ₘ held) locks s) (p : ProcId)
    (awake : Awake stuck locks) (name : List UInt8)
    (unlinked : ∀ de ∈ (s.tree (s.icache dp).inum).entries, de.inum ≠ 0 → (s.tree de.inum).nlink.toInt < 1 → broken)
    (itself : ¬ (namecmp name dot ∨ namecmp name dotdot) → NamesItself s dp name → stuck) :
    wp (unlinkName p dp name) (fun result s' => Inv fixed none held locks s' ∧
      Outcome held s (UnlinksName s.tree (s.icache dp).inum name) result s') (Stops broken stuck) s := by
  rw [unlinkName]
  apply (ilock_spec inv p (Multiset.mem_cons_self _ _) (awake dp)).bind
  rintro _ s1 ⟨e, free, isInode, -, inv1, frozen1⟩
  have locked : update locks dp (some e) dp = some e := update_self _ _ _
  have isParent1 := frozen1.stays.inums dp false (Multiset.mem_cons_self _ _)
  have fewer : held ⊆ (dp, false) ::ₘ held := Multiset.subset_cons _ _
  rw [← unlock_lock free (some e)] at awake ⊢
  rw [wp_ite]
  refine ⟨fun _ => ?_, fun notDots => ?_⟩
  · apply (unlinkBad_spec inv1 p locked).mono
    intro _ s2 ⟨inv2, failed, steady2⟩
    exact ⟨inv2, Or.inl ⟨failed, (frozen1.mono fewer).steady.trans steady2⟩⟩
  · apply (dirlookup_spec inv1 locked name).bind
    rintro found s2 ⟨directory, isFound, frozen2⟩
    have upto2 := frozen1.trans frozen2
    have isParent2 := upto2.stays.inums dp false (Multiset.mem_cons_self _ _)
    cases found with
    | none =>
      apply (unlinkBad_spec isFound.1 p locked).mono
      intro _ s3 ⟨inv3, failed, steady3⟩
      exact ⟨inv3, Or.inl ⟨failed, (upto2.mono fewer).steady.trans steady3⟩⟩
    | some entry =>
      obtain ⟨ip, off⟩ := entry
      obtain ⟨inv2, aligned, de, at_, isName, isInum⟩ := isFound
      rw [frozen1.tree, isParent1] at at_
      have low : (s2.tree (s2.icache ip).inum).nlink.toInt < 1 → broken := by
        rw [upto2.tree, isInum]
        exact unlinked de (List.mem_of_getElem? at_) isName.1
      have same : (s2.icache ip).inum = (s2.icache dp).inum → stuck := by
        rw [isInum, isParent2]
        exact fun same => itself notDots ⟨de, List.mem_of_getElem? at_, isName, same⟩
      apply (unlinkFound_spec inv2 p locked awake directory aligned low same).mono
      intro _ s3 ⟨inv3, outcome⟩
      rw [upto2.tree, isParent2, isInum] at outcome
      rw [isInode] at directory
      exact ⟨inv3, outcome.after (upto2.mono fewer).steady fun _ removed =>
        ⟨directory, notDots, _, de, at_, isName, removed⟩⟩

/-- What `sys_unlink` makes of the tree: the same, or one without a name in the directory
that `nameiparent` returns. -/
def Unlinks (p : ProcId) (cwd : Slot) (path : Option (List UInt8)) (s : FsState) (tree : Tree) :
    Prop :=
  tree = s.tree ∨ ∃ isPath dp name s₁, path = some isPath ∧
    nameiparent p cwd isPath (s.log .beginOp) = (.ok (some (dp, name)), s₁) ∧
    Reaped s.tree s₁.tree ∧ UnlinksName s₁.tree (s₁.icache dp).inum name tree

/-- What `sys_unlink` makes of the tree when it succeeds. -/
def Removes (held : Holds) (p : ProcId) (cwd : Slot) (path : Option (List UInt8)) (s : FsState) (tree : Tree) : Prop :=
  ∃ isPath dp name s₁, path = some isPath ∧
    nameiparent p cwd isPath (s.log .beginOp) = (.ok (some (dp, name)), s₁) ∧
    Steady held s s₁ ∧ UnlinksName s₁.tree (s₁.icache dp).inum name tree

theorem Removes.unlinks {p : ProcId} {tree : Tree} {path : Option (List UInt8)} (removes : Removes held p cwd path s tree) :
    Unlinks p cwd path s tree := by
  obtain ⟨isPath, dp, name, s1, same, ran, steady, removed⟩ := removes
  exact Or.inr ⟨isPath, dp, name, s1, same, ran, steady.reaped, removed⟩

theorem sysUnlink_spec (inv : Inv fixed none held locks s) (p : ProcId) (awake : Awake stuck locks)
    (member : (cwd, k) ∈ held) (path : Option (List UInt8))
    (unlinked : ∀ isPath dp name s1, path = some isPath → nameiparent p cwd isPath (s.log .beginOp) = (.ok (some (dp, name)), s1) → Reaped s.tree s1.tree → ∀ de ∈ (s1.tree (s1.icache dp).inum).entries, de.inum ≠ 0 → (s1.tree de.inum).nlink.toInt < 1 → broken)
    (itself : ∀ isPath dp name s1, path = some isPath → nameiparent p cwd isPath (s.log .beginOp) = (.ok (some (dp, name)), s1) → Reaped s.tree s1.tree → ¬ (namecmp name dot ∨ namecmp name dotdot) → NamesItself s1 dp name → stuck) :
    wp (sysUnlink p cwd path) (fun result s' => Inv fixed none held locks s' ∧
      Outcome held s (Removes held p cwd path s) result s') (Stops broken stuck) s := by
  unfold sysUnlink
  split
  · exact ⟨inv, Or.inl ⟨rfl, Steady.refl held s⟩⟩
  · rename_i path
    have begun : Inv fixed none held locks (s.log .beginOp) :=
      inv.record fun _ => Event.noConfusion
    rw [wp_bind, wp_record, wp_bind, nameiparent]
    apply (namex_spec begun p awake member path true).ran.mono
    intro parent s1 ⟨⟨resolved, steady1⟩, ran⟩
    have upto1 : Steady held s s1 := (Frozen.log held s .beginOp).steady.trans steady1
    cases parent with
    | none =>
      have inv1 : Inv fixed none held locks s1 := resolved
      exact ⟨inv1.record fun _ => Event.noConfusion, Or.inl ⟨rfl, upto1.log .endOp⟩⟩
    | some result =>
      obtain ⟨dp, name⟩ := result
      apply (unlinkName_spec resolved p awake name (unlinked path dp name s1 rfl ran upto1.reaped)
        (itself path dp name s1 rfl ran upto1.reaped)).mono
      intro _ s2 ⟨inv2, outcome⟩
      exact ⟨inv2, outcome.after upto1 fun tree removed =>
        ⟨path, dp, name, s1, rfl, ran, upto1, removed⟩⟩

end

end Xv6.Fs
