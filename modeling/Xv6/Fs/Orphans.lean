import Xv6.Fs.LinkCounts

/-!
Contract: whether every allocated inode can still be reached.

An inode with links should be found from the root, and one without links should be in
the inode cache, where the last reference frees it. The second half holds in every run.
The first half holds as long as nothing is made in a directory without links: the
entries of such a directory are lost with it, and what they name is not freed.
-/

namespace Xv6.Fs

open Xv6.Lib

/-- What is found from the root directory through directory entries. -/
inductive Tree.Reachable (tree : Tree) : Nat → Prop where
  | root : Reachable tree ROOTINO
  | entry {d : Nat} {de : Dirent} : Reachable tree d → de ∈ (tree d).entries → de.inum ≠ 0 →
      Reachable tree de.inum

section

variable {ninodes : Nat} {tree : Tree} {d i : Nat}

theorem Tree.Reachable.of_below (below : (tree.hierarchy ninodes).Below ROOTINO i) :
    tree.Reachable i := by
  induction below with
  | root => exact .root
  | child _ live child ih =>
    obtain ⟨de, member, used, rfl⟩ := mem_inums.mp child
    exact .entry ih (List.mem_of_mem_drop member) used

/-- In an orderly tree every inode with links is found. -/
theorem Balanced.reachable (balanced : Balanced ninodes tree)
    (rooted : (tree.hierarchy ninodes).Rooted ROOTINO) (allocated : (tree i).type ≠ 0)
    (linked : 0 < (tree i).nlink.toInt) : tree.Reachable i := by
  have count := balanced.counts i allocated
  rw [Hierarchy.links] at count
  by_cases named : 0 < (tree.hierarchy ninodes).named i
  · obtain ⟨d, live, child⟩ := Hierarchy.exists_of_named named
    exact .of_below (.child (rooted d live) live child)
  · obtain ⟨d, live, isParent⟩ := Hierarchy.exists_of_parented (h := tree.hierarchy ninodes) (i := i)
      (by omega)
    obtain ⟨self, up, rest, entries, -, -, isDotdot, -⟩ := balanced.shaped d live
    have isUp : up.inum = i := by
      rw [← isParent]
      simp only [Tree.hierarchy, Node.entry, entries]
      rfl
    rw [← isUp]
    refine .entry (.of_below (rooted d live)) ?_ isDotdot.1
    rw [entries]
    simp

/-- What is found from the root is found without going up. -/
theorem Balanced.below (balanced : Balanced ninodes tree)
    (live : ∀ d, ∀ de ∈ (tree d).entries, d ∈ tree.live ninodes) (reachable : tree.Reachable i) :
    (tree.hierarchy ninodes).Below ROOTINO i := by
  induction reachable with
  | root => exact .root
  | @entry d de _ member used ih =>
    have isLive := live d de member
    obtain ⟨self, up, rest, entries, -, isSelf, -, -⟩ := balanced.shaped d isLive
    rw [entries, List.mem_cons, List.mem_cons] at member
    rcases member with rfl | rfl | member
    · rw [isSelf]
      exact ih
    · have isParent : (tree.hierarchy ninodes).parent d = de.inum := by
        simp only [Tree.hierarchy, Node.entry, entries]
        rfl
      rw [← isParent]
      exact balanced.sound.below_parent isLive ih
    · refine .child ih isLive ?_
      apply mem_inums.mpr
      rw [entries]
      exact ⟨de, member, used, rfl⟩

end

/-- The directory blocks of all inodes are different data blocks. -/
theorem Good.blocks_le {sb : Superblock} {img : Image} (good : Good sb img) {dirs : Finset Nat}
    (directory : ∀ d ∈ dirs, (img.inode d).type = T_DIR) :
    ∑ d ∈ dirs, ((img.inode d).size + (BSIZE - 1)) / BSIZE ≤ sb.size - sb.dataStart := by
  have owns : ∀ d ∈ dirs, ∀ bn < ((img.inode d).size + (BSIZE - 1)) / BSIZE, ∃ pos,
      posOf bn = some pos ∧ img.own (d, pos) = addrOf img.block (img.inode d) bn ∧
      addrOf img.block (img.inode d) bn ≠ 0 := by
    intro d member bn below
    have isDir := directory d member
    have allocated : (img.inode d).type ≠ 0 := isDir.trans_ne (by decide)
    have mapped := good.mapped d allocated (isDir.trans_ne (by decide)) bn
      (by unfold BSIZE at below ⊢; omega)
    obtain ⟨pos, at_, isOwn⟩ := Image.own_of_mapped allocated mapped
    exact ⟨pos, at_, isOwn, mapped⟩
  calc ∑ d ∈ dirs, ((img.inode d).size + (BSIZE - 1)) / BSIZE
      = (dirs.sigma fun d => Finset.range (((img.inode d).size + (BSIZE - 1)) / BSIZE)).card := by
        simp [Finset.card_sigma]
    _ ≤ (Finset.Ico sb.dataStart sb.size).card := by
        apply Finset.card_le_card_of_injOn fun key => addrOf img.block (img.inode key.1) key.2
        · rintro ⟨d, bn⟩ member
          obtain ⟨isDir, below⟩ := Finset.mem_sigma.mp member
          obtain ⟨pos, -, isOwn, mapped⟩ := owns d isDir bn (Finset.mem_range.mp below)
          have range := good.exact.inRange (d, pos) (isOwn.trans_ne mapped)
          rw [isOwn] at range
          exact Finset.mem_coe.mpr (Finset.mem_Ico.mpr ⟨not_lt.mp range.1, range.2⟩)
        · rintro ⟨d, bn⟩ member ⟨e, other⟩ member' same
          obtain ⟨isDir, below⟩ := Finset.mem_sigma.mp member
          obtain ⟨isDir', below'⟩ := Finset.mem_sigma.mp member'
          obtain ⟨pos, at_, isOwn, mapped⟩ := owns d isDir bn (Finset.mem_range.mp below)
          obtain ⟨pos', at_', isOwn', -⟩ := owns e isDir' other (Finset.mem_range.mp below')
          have key := good.exact.single (d, pos) (e, pos') (isOwn.trans_ne mapped)
            (isOwn.trans (same.trans isOwn'.symm))
          obtain ⟨rfl, rfl⟩ := Prod.mk.injEq .. ▸ key
          rw [posOf_injective at_ at_']
    _ = sb.size - sb.dataStart := by simp

/-- No inode has more links than the data blocks have room for entries. -/
theorem Balanced.nlink_le {sb : Superblock} {s : FsState} {i : Nat}
    (balanced : Balanced sb.ninodes s.tree) (good : Good sb (view none s))
    (allocated : (s.tree i).type ≠ 0) :
    (s.tree i).nlink.toInt ≤ (32 * (sb.size - sb.dataStart) : Nat) := by
  have directory : ∀ d ∈ s.tree.live sb.ninodes, ((image s.sb s.disk).inode d).type = T_DIR :=
    fun d live => (Tree.mem_live.mp live).2.1
  have entries : ∀ d ∈ s.tree.live sb.ninodes, (s.tree d).entries.length ≤
      32 * ((((image s.sb s.disk).inode d).size + (BSIZE - 1)) / BSIZE) := by
    intro d live
    have length : (s.tree d).entries.length = ((image s.sb s.disk).inode d).size / DIRENT :=
      length_entriesOf (directory d live)
    rw [length]
    unfold DIRENT BSIZE
    omega
  have bound : s.tree.linksTo sb.ninodes i ≤ 32 * (sb.size - sb.dataStart) := by
    calc s.tree.linksTo sb.ninodes i
        ≤ ∑ d ∈ s.tree.live sb.ninodes,
            32 * ((((image s.sb s.disk).inode d).size + (BSIZE - 1)) / BSIZE) := by
          apply Finset.sum_le_sum
          intro d live
          exact List.countP_le_length.trans (entries d live)
      _ = 32 * ∑ d ∈ s.tree.live sb.ninodes,
            (((image s.sb s.disk).inode d).size + (BSIZE - 1)) / BSIZE := by
          rw [Finset.mul_sum]
      _ ≤ 32 * (sb.size - sb.dataStart) := Nat.mul_le_mul_left 32 (good.blocks_le directory)
  rw [balanced.treeConsistent.counts i (balanced.inside i allocated) allocated]
  exact Int.ofNat_le.mpr bound

def Call.isUnlink : Call → Bool
  | .unlink _ => true
  | _ => false

/-- A directory in which the call makes a name has links. -/
def MakesSafely (m : Machine) (label : ProcId × Call) : Prop :=
  label.2.isUnlink = false → ∀ node ∈ label.2.parentNode label.1 m.sys, 0 < node.nlink.toInt

instance (m : Machine) (label : ProcId × Call) : Decidable (MakesSafely m label) :=
  inferInstanceAs (Decidable (_ → _))

section

variable {ninodes : Nat} {tree tree' : Tree} {dir : Nat} {name : List UInt8}

/-- There is nothing to unlink in a directory without links. -/
theorem Orderly.linked_of_unlinks (orderly : Orderly ninodes tree) (balanced : Balanced ninodes tree)
    (unlinks : UnlinksName tree dir name tree') : 0 < (tree dir).nlink.toInt := by
  obtain ⟨isDir, notDots, k, de, at_, isName, -, -, -⟩ := unlinks
  by_contra dead
  have count := balanced.counts dir (isDir.trans_ne (by decide))
  have none : (0 : BitVec 16).toInt = 0 := rfl
  have unlinked : (tree dir).nlink = 0 := BitVec.toInt_inj.mp (by omega)
  obtain ⟨shaped, empty⟩ := orderly.bare dir isDir unlinked
  have place := shaped.two_le_of_is at_ isName notDots
  have child := (shaped.isChild place at_ isName.1).2
  simp only [Tree.hierarchy] at empty
  rw [empty] at child
  exact Multiset.notMem_zero _ child

end

section

variable {fixed : Superblock} {p : ProcId} {s : SysState} {call : Call} {tree : Tree}

/-- The directory that a call changes has links, also if the call is `unlink`. -/
theorem Orderly.changes (orderly : Orderly fixed.ninodes s.fs.tree)
    (balanced : Balanced fixed.ninodes s.fs.tree) (small : fixed.ninodes ≤ 65536)
    (linked : call.isUnlink = false → ∀ node ∈ call.parentNode p s, 0 < node.nlink.toInt)
    (room : ∀ i, (s.fs.tree i).type ≠ 0 → (s.fs.tree i).nlink.toInt < 32767)
    (isSb : s.fs.sb = fixed) (changes : call.Changes p s tree) :
    Follows fixed.ninodes s.fs.tree tree := by
  by_cases isUnlink : call.isUnlink = false
  · exact balanced.changes small (linked isUnlink) room isSb changes
  · obtain ⟨path, rfl⟩ : ∃ path, call = .unlink path := by
      cases call with
      | unlink path => exact ⟨path, rfl⟩
      | _ => exact absurd rfl isUnlink
    rcases changes with rfl | rfl | ⟨isPath, dp, name, s1, rfl, ran, reaped, unlinks⟩
    · exact balanced.follows
    · exact balanced.follows
    · apply (balanced.follows_reaped reaped).trans
      have balanced1 := balanced.reaped reaped
      exact balanced1.unlinks ((orderly.reaped reaped).linked_of_unlinks balanced1 unlinks) unlinks

end

/-- A machine with a file system as `mkfs` makes it: the tree is consistent, everything on
it has links and is found from the root, and the disk is not larger than link counts are. -/
structure Fresh (fixed : Superblock) (m : Machine) : Prop where
  goes : m.halted = none
  inv : SysInv fixed 0 (fun _ => none) m.sys
  inodes : fixed.ninodes ≤ 65536
  blocks : 32 * (fixed.size - fixed.dataStart) < 32767
  consistent : TreeConsistent fixed.ninodes m.sys.fs.tree
  found : ∀ i, (m.sys.fs.tree i).type ≠ 0 →
    0 < (m.sys.fs.tree i).nlink.toInt ∧ m.sys.fs.tree.Reachable i

structure TreeInv (fixed : Superblock) (m : Machine) : Prop extends MachineInv fixed m where
  balanced : m.halted = none → Balanced fixed.ninodes m.sys.fs.tree
  orderly : m.halted = none → Orderly fixed.ninodes m.sys.fs.tree

theorem TreeInv.next {fixed : Superblock} (inodes : fixed.ninodes ≤ 65536)
    (blocks : 32 * (fixed.size - fixed.dataStart) < 32767) (m : Machine) (label : ProcId × Call)
    (m' : Machine) (inv : TreeInv fixed m) (safely : MakesSafely m label)
    (stepped : callNext m label = some m') : TreeInv fixed m' := by
  obtain ⟨p, call⟩ := label
  have goes := callNext_halted stepped
  have balanced := inv.balanced goes
  have isSb := (inv.goes goes).fs.isSb
  have room : ∀ i, (m.sys.fs.tree i).type ≠ 0 → (m.sys.fs.tree i).nlink.toInt < 32767 := by
    intro i allocated
    have good := (inv.goes goes).fs.good
    rw [isSb] at good
    have bound := balanced.nlink_le good allocated
    omega
  have next := callNext_preserves m (p, call) m' inv.toMachineInv stepped
  have any : call.Unlinked p m.sys True := fun _ _ _ _ _ _ _ _ _ _ _ => trivial
  rcases inv.outcome any call.itself_true stepped with
    ⟨goes', tree, changes, ran⟩ | ⟨halt, halted, -⟩
  · have follows :=
      (inv.orderly goes).changes balanced inodes safely room isSb changes
    refine ⟨next, fun _ => follows.balanced.reaped ran.ends.reaped, fun _ => ?_⟩
    exact (follows.orderly (inv.orderly goes)).reaped ran.ends.reaped
  · refine ⟨next, fun isNone => ?_, fun isNone => ?_⟩
    · rw [halted] at isNone
      cases isNone
    · rw [halted] at isNone
      cases isNone

structure MooredInv (fixed : Superblock) (m : Machine) : Prop extends MachineInv fixed m where
  moored : m.halted = none → ∀ i, Moored m.sys.fs i

theorem MooredInv.next {fixed : Superblock} (m : Machine) (label : ProcId × Call) (m' : Machine)
    (inv : MooredInv fixed m) (stepped : callNext m label = some m') : MooredInv fixed m' := by
  obtain ⟨p, call⟩ := label
  have any : call.Unlinked p m.sys True := fun _ _ _ _ _ _ _ _ _ _ _ => trivial
  refine ⟨callNext_preserves m (p, call) m' inv.toMachineInv stepped, fun goes' i => ?_⟩
  rcases inv.outcome any call.itself_true stepped with ⟨-, tree, -, ran⟩ | ⟨halt, halted, -⟩
  · exact ran.ends.moors i (inv.moored (callNext_halted stepped) i)
  · rw [halted] at goes'
    cases goes'

namespace Fresh

variable {fixed : Superblock} {m : Machine} (fresh : Fresh fixed m)
include fresh

theorem machineInv : MachineInv fixed m := by
  refine ⟨fun halt isHalt => ?_, fun _ => fresh.inv⟩
  rw [fresh.goes] at isHalt
  cases isHalt

theorem mooredInv : MooredInv fixed m := by
  refine ⟨fresh.machineInv, fun _ i allocated unlinked => ?_⟩
  have positive := (fresh.found i allocated).1
  have none : (m.sys.fs.tree i).nlink.toInt = 0 := congrArg BitVec.toInt unlinked
  omega

theorem treeInv : TreeInv fixed m := by
  have isSb := fresh.inv.fs.isSb
  have inside : ∀ i, (m.sys.fs.tree i).type ≠ 0 → i < fixed.ninodes :=
    fun i allocated => isSb ▸ FsState.inside_of_type allocated
  have balanced := fresh.consistent.balanced inside
  have live : ∀ d, (m.sys.fs.tree d).type = T_DIR → d ∈ m.sys.fs.tree.live fixed.ninodes := by
    intro d directory
    have allocated : (m.sys.fs.tree d).type ≠ 0 := directory.trans_ne (by decide)
    exact Tree.mem_live.mpr ⟨inside d allocated, directory, (fresh.found d allocated).1⟩
  refine ⟨fresh.machineInv, fun _ => balanced, fun _ => ⟨fun d isLive => ?_, ?_⟩⟩
  · have allocated : (m.sys.fs.tree d).type ≠ 0 := (Tree.mem_live.mp isLive).2.1.trans_ne (by decide)
    exact balanced.below (fun e de member => live e (FsState.directory_of_mem member))
      (fresh.found d allocated).2
  · exact fun d directory unlinked => absurd (live d directory) (Tree.notMem_live_of_unlinked unlinked)

end Fresh

/-- On a file system as `mkfs` makes it, every inode with links is found from the root if
nothing is made in a directory without links; and every inode without links is in the
cache. -/
theorem no_orphans {fixed : Superblock} {m m' : Machine} {calls : List (ProcId × Call)}
    (fresh : Fresh fixed m) (ran : callSystem.run m calls = some m') (goes : m'.halted = none) :
    (callSystem.Meets MakesSafely m calls → ∀ i, (m'.sys.fs.tree i).type ≠ 0 →
      0 < (m'.sys.fs.tree i).nlink.toInt → m'.sys.fs.tree.Reachable i) ∧
    ∀ i, (m'.sys.fs.tree i).type ≠ 0 → (m'.sys.fs.tree i).nlink = 0 →
      ∃ x, 0 < (m'.sys.fs.icache x).ref ∧ (m'.sys.fs.icache x).inum = i := by
  refine ⟨fun meets i allocated linked => ?_, fun i allocated unlinked => ?_⟩
  · have final := System.run_preserves_of_meets (TreeInv fixed)
      (TreeInv.next fresh.inodes fresh.blocks) fresh.treeInv meets ran
    exact (final.balanced goes).reachable (final.orderly goes).rooted allocated linked
  · have final := System.run_preserves (MooredInv fixed) MooredInv.next fresh.mooredInv ran
    obtain ⟨x, positive, isInum, -⟩ := final.moored goes i allocated unlinked
    exact ⟨x, positive, isInum⟩

theorem inum_direntAt {block : Nat → Block} {d : Dinode} {k : Nat} (below : k < 32) :
    (direntAt block d k).inum = (block (d.addrs 0)).getLe (DIRENT * k) 2 := by
  have within : DIRENT * k < BSIZE := by
    unfold DIRENT BSIZE
    omega
  have first : addrOf block d 0 = d.addrs 0 := rfl
  rw [direntAt, decodeDirent_contents (Nat.dvd_mul_right _ _), Nat.div_eq_of_lt within,
    Nat.mod_eq_of_lt within, first]

theorem entriesOf_block {block : Nat → Block} {d : Dinode} (directory : d.type = T_DIR)
    (size : d.size = BSIZE) :
    entriesOf block d = direntAt block d 0 :: direntAt block d 1 ::
      (List.range 30).map fun k => direntAt block d (k + 2) := by
  have split : List.range (BSIZE / DIRENT) = 0 :: 1 :: (List.range 30).map (· + 2) := by decide
  rw [entriesOf, if_pos directory, size, split, List.map_cons, List.map_cons, List.map_map]
  simp only [Function.comp_def]

private theorem dotEntries_unused : ∀ k < 30, dotEntries.getLe (DIRENT * (k + 2)) 2 = 0 := by
  decide +kernel

private theorem emptyDisk_first :
    direntAt (image emptyLayout.sb emptyDisk).block (emptyLayout.root BSIZE) 0 =
      storedEntry ROOTINO dot ∧
    direntAt (image emptyLayout.sb emptyDisk).block (emptyLayout.root BSIZE) 1 =
      storedEntry ROOTINO dotdot := by
  decide +kernel

theorem emptyDisk_dinode :
    (image emptyLayout.sb emptyDisk).inode ROOTINO = emptyLayout.root BSIZE := by
  rw [image_inode _ (by decide)]
  exact emptyLayout.dinodeAt_root (by decide)

private theorem emptyDisk_root :
    ∃ rest, (boot emptyDisk noDevices).sys.fs.tree ROOTINO =
      ⟨T_DIR, 1, storedEntry ROOTINO dot :: storedEntry ROOTINO dotdot :: rest⟩ ∧
      ∀ de ∈ rest, de.inum = 0 := by
  refine ⟨(List.range 30).map fun k =>
    direntAt (image emptyLayout.sb emptyDisk).block (emptyLayout.root BSIZE) (k + 2), ?_, ?_⟩
  · have isTree : (boot emptyDisk noDevices).sys.fs.tree = (image emptyLayout.sb emptyDisk).tree :=
      emptyLayout.tree_boot
    rw [isTree, Image.tree, emptyDisk_dinode, nodeOf, entriesOf_block rfl rfl, emptyDisk_first.1,
      emptyDisk_first.2]
    rfl
  · intro de member
    obtain ⟨k, inRange, rfl⟩ := List.mem_map.mp member
    have below := List.mem_range.mp inRange
    have isHome : (image emptyLayout.sb emptyDisk).block 59 = dotEntries := rfl
    have isAddr : (emptyLayout.root BSIZE).addrs 0 = 59 := rfl
    rw [inum_direntAt (by omega), isAddr, isHome, dotEntries_unused k below]

theorem emptyDisk_fresh : Fresh emptyLayout.sb (boot emptyDisk noDevices) := by
  have isSuper : readsb emptyDisk = emptyLayout.sb := emptyLayout.readsb_disk
  obtain ⟨rest, node, unused⟩ := emptyDisk_root
  refine ⟨rfl, ?_, by decide, by decide, ?_, ?_⟩
  · rw [← isSuper]
    exact boot_sysInv (isSuper ▸ emptyLayout.valid) (isSuper ▸ emptyDisk_wellFormed)
      (isSuper ▸ emptyDisk_entriesExist)
  · exact (balanced_lone (by decide) (fun _ => emptyLayout.eq_root) node unused).treeConsistent
  · intro i allocated
    rw [emptyLayout.eq_root allocated, node]
    have positive : 0 < (1 : BitVec 16).toInt := by decide
    exact ⟨positive, .root⟩

/-- A directory is made and removed. -/
theorem no_orphans_removed :
    ∃ m, callSystem.run (boot emptyDisk noDevices)
        [(⟨0, by decide⟩, .mkdir (some [100])), (⟨0, by decide⟩, .unlink (some [100]))] = some m ∧
      m.halted = none ∧ ∀ i, (m.sys.fs.tree i).type ≠ 0 →
        (0 < (m.sys.fs.tree i).nlink.toInt → m.sys.fs.tree.Reachable i) ∧
        ((m.sys.fs.tree i).nlink = 0 →
          ∃ x, 0 < (m.sys.fs.icache x).ref ∧ (m.sys.fs.icache x).inum = i) := by
  have runs : callSystem.Meets MakesSafely (boot emptyDisk noDevices)
        [(⟨0, by decide⟩, .mkdir (some [100])), (⟨0, by decide⟩, .unlink (some [100]))] ∧
      (callSystem.run (boot emptyDisk noDevices)
        [(⟨0, by decide⟩, .mkdir (some [100])), (⟨0, by decide⟩, .unlink (some [100]))]).map
        Machine.halted = some none := by
    decide +kernel
  obtain ⟨meets, ends⟩ := runs
  obtain ⟨m, ran, goes⟩ := Option.map_eq_some_iff.mp ends
  have orphans := no_orphans emptyDisk_fresh ran goes
  exact ⟨m, ran, goes, fun i allocated => ⟨orphans.1 meets i allocated, orphans.2 i allocated⟩⟩

/-- Nothing is found from a root directory that names only itself. -/
private theorem eq_root_of_reachable {tree : Tree} {i : Nat}
    (lone : ∀ de ∈ (tree ROOTINO).entries, de.inum ≤ 1) (reachable : tree.Reachable i) :
    i = ROOTINO := by
  induction reachable with
  | root => rfl
  | entry _ member used ih =>
    rw [ih] at member
    have small := lone _ member
    unfold ROOTINO
    omega

/-- A process makes a directory, changes to it and removes it, and then makes a file
there: the inode of the file has a link, and is not found from the root. -/
theorem file_in_removed_directory :
    ∃ m, callSystem.run (boot emptyDisk noDevices)
        [(⟨0, by decide⟩, .mkdir (some [100])), (⟨0, by decide⟩, .chdir (some [100])),
          (⟨0, by decide⟩, .unlink (some [47, 100])),
          (⟨0, by decide⟩, .open (some [120]) O_CREATE)] = some m ∧
      m.halted = none ∧ (m.sys.fs.tree 3).type ≠ 0 ∧ 0 < (m.sys.fs.tree 3).nlink.toInt ∧
      ¬ m.sys.fs.tree.Reachable 3 := by
  have ends : (callSystem.run (boot emptyDisk noDevices)
      [(⟨0, by decide⟩, .mkdir (some [100])), (⟨0, by decide⟩, .chdir (some [100])),
        (⟨0, by decide⟩, .unlink (some [47, 100])),
        (⟨0, by decide⟩, .open (some [120]) O_CREATE)]).map (fun m : Machine => (m.halted,
          decide ((m.sys.fs.tree 3).type ≠ 0 ∧ 0 < (m.sys.fs.tree 3).nlink.toInt),
          (dinodeAt emptyLayout.sb m.sys.fs.disk ROOTINO).size,
          (dinodeAt emptyLayout.sb m.sys.fs.disk ROOTINO).addrs 0,
          decide (∀ k < (32 : Nat), (m.sys.fs.disk 59).getLe (DIRENT * k) 2 ≤ 1))) =
      some (none, true, BSIZE, 59, true) := by
    decide +kernel
  obtain ⟨m, ran, final⟩ := Option.map_eq_some_iff.mp ends
  simp only [Prod.mk.injEq, decide_eq_true_eq] at final
  obtain ⟨goes, ⟨allocated, linked⟩, size, home, lone⟩ := final
  refine ⟨m, ran, goes, allocated, linked, fun reachable => ?_⟩
  have inv := System.run_preserves (MachineInv emptyLayout.sb) callNext_preserves
    emptyDisk_fresh.machineInv ran
  have isSb := (inv.goes goes).fs.isSb
  have isRoot : (image m.sys.fs.sb m.sys.fs.disk).inode ROOTINO =
      dinodeAt emptyLayout.sb m.sys.fs.disk ROOTINO := by
    rw [isSb]
    exact image_inode _ (by decide)
  have isHome : (image m.sys.fs.sb m.sys.fs.disk).block 59 = m.sys.fs.disk 59 := by
    rw [isSb]
    exact image_block _ (by decide)
  have named := eq_root_of_reachable (fun de member => ?_) reachable
  · exact absurd named (by decide)
  · have directory := FsState.directory_of_mem member
    rw [FsState.tree, Image.tree, isRoot] at member directory
    simp only [nodeOf] at member directory
    rw [entriesOf, if_pos directory, size] at member
    obtain ⟨k, inRange, rfl⟩ := List.mem_map.mp member
    have below : k < 32 := List.mem_range.mp inRange
    rw [inum_direntAt below, home, isHome]
    exact lone k below

end Xv6.Fs
