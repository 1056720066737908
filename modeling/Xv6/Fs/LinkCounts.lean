import Xv6.Fs.Links
import Xv6.Fs.Ownership

/-!
Contract: link counts match the directory tree, in every run of file system calls on
a consistent tree.

A call keeps the tree consistent if the directory in which it makes or removes a
name has links, and no link count is at its largest value. A directory without links
is one that was removed while it was somebody's current directory.
-/

namespace Xv6.Fs

open Function Xv6.Lib

/-- A call up to the `nameiparent` for the directory that it changes. -/
def Call.nameiparent (p : ProcId) (s : SysState) (call : Call) : FsM (Option (Slot × List UInt8)) :=
  match call with
  | .link (some old) (some new) => linkParent p (s.proc p).cwd old new
  | .unlink (some path) => do
    record .beginOp
    Fs.nameiparent p (s.proc p).cwd path
  | _ =>
    match call.creates with
    | some (path, _) => do
      record .beginOp
      Fs.nameiparent p (s.proc p).cwd path
    | none => pure none

def Call.parentNode (p : ProcId) (s : SysState) (call : Call) : Option Node :=
  match call.nameiparent p s s.fs with
  | (.ok (some (dp, _)), s₁) => some (s₁.tree (s₁.icache dp).inum)
  | _ => none

/-- The directory that the call changes has links, and every inode can have one more. -/
structure LinksSafely (m : Machine) (label : ProcId × Call) : Prop where
  parent : ∀ node ∈ label.2.parentNode label.1 m.sys, 0 < node.nlink.toInt
  room : ∀ i < m.sys.fs.sb.ninodes, (m.sys.fs.tree i).type ≠ 0 →
    (m.sys.fs.tree i).nlink.toInt < 32767

instance (m : Machine) (label : ProcId × Call) : Decidable (LinksSafely m label) :=
  decidable_of_iff ((∀ node ∈ label.2.parentNode label.1 m.sys, 0 < node.nlink.toInt) ∧
    ∀ i < m.sys.fs.sb.ninodes, (m.sys.fs.tree i).type ≠ 0 → (m.sys.fs.tree i).nlink.toInt < 32767)
    ⟨fun both => ⟨both.1, both.2⟩, fun safely => ⟨safely.parent, safely.room⟩⟩

theorem FsState.inside_of_type {s : FsState} {i : Nat} (allocated : (s.tree i).type ≠ 0) :
    i < s.sb.ninodes := by
  by_contra outside
  have isZero : (image s.sb s.disk).inode i = Dinode.zero := if_neg outside
  rw [FsState.tree, Image.tree, isZero] at allocated
  exact allocated rfl

theorem FsState.directory_of_mem {s : FsState} {i : Nat} {de : Dirent}
    (member : de ∈ (s.tree i).entries) : (s.tree i).type = T_DIR := by
  by_contra plain
  have empty : (s.tree i).entries = [] := if_neg plain
  rw [empty] at member
  cases member

variable {path : List UInt8} {type : BitVec 16}

section

variable {fixed : Superblock} {p : ProcId} {s : SysState} {call : Call} {tree : Tree}

theorem Call.type_of_creates (creates : call.creates = some (path, type)) : type ≠ 0 := by
  unfold Call.creates at creates
  split at creates
  · obtain ⟨-, same⟩ := of_guard creates
    cases same
    decide
  · cases creates
    decide
  · cases creates
    decide
  · cases creates

theorem Call.nameiparent_of_creates (creates : call.creates = some (path, type)) :
    call.nameiparent p s s.fs = Fs.nameiparent p (s.proc p).cwd path (s.fs.log .beginOp) := by
  unfold Call.nameiparent
  split
  · cases creates
  · cases creates
  · rw [creates]
    rfl

theorem Call.Changes.makes (changes : call.Changes p s tree)
    (creates : call.creates = some (path, type)) (changed : tree ≠ s.fs.tree) :
    ∃ dp name s1, call.nameiparent p s s.fs = (.ok (some (dp, name)), s1) ∧
      Reaped s.fs.tree s1.tree ∧
      Makes s.fs.sb.ninodes s1.tree (s1.icache dp).inum name type tree := by
  rcases changes with same | changes
  · exact absurd same changed
  · split at changes
    · cases creates
    · cases creates
    · obtain ⟨path', type', isPath, same | ⟨dp, name, s1, ran, reaped, makes⟩⟩ := changes
      · exact absurd same changed
      · rw [← Call.nameiparent_of_creates isPath] at ran
        rw [isPath] at creates
        cases creates
        exact ⟨dp, name, s1, ran, reaped, makes⟩

section

variable (balanced : Balanced fixed.ninodes s.fs.tree) (small : fixed.ninodes ≤ 65536)
  (linked : ∀ node ∈ call.parentNode p s, 0 < node.nlink.toInt)
  (room : ∀ i, (s.fs.tree i).type ≠ 0 → (s.fs.tree i).nlink.toInt < 32767)
include linked

theorem Call.parent_linked {dp : Slot} {name : List UInt8} {s1 : FsState}
    (ran : call.nameiparent p s s.fs = (.ok (some (dp, name)), s1)) :
    0 < (s1.tree (s1.icache dp).inum).nlink.toInt := by
  apply linked
  rw [Call.parentNode, ran]
  rfl

include balanced small room

theorem Balanced.creates (isSb : s.fs.sb = fixed) (creates : call.creates = some (path, type))
    (changes : call.Changes p s tree) :
    Follows fixed.ninodes s.fs.tree tree := by
  by_cases same : tree = s.fs.tree
  · rw [same]
    exact balanced.follows
  · obtain ⟨dp, name, s1, ran, reaped, makes⟩ := changes.makes creates same
    rw [isSb] at makes
    apply (balanced.follows_reaped reaped).trans
    apply (balanced.reaped reaped).makes small (Call.type_of_creates creates)
      (Call.parent_linked linked ran) _ makes
    intro allocated
    have isOld := reaped.eq_of_allocated allocated
    rw [isOld] at allocated ⊢
    exact room _ allocated

theorem Balanced.links {old new : Option (List UInt8)} (isLink : call = .link old new)
    (changes : Links p (s.proc p).cwd old new s.fs tree) :
    Follows fixed.ninodes s.fs.tree tree := by
  rcases changes with rfl | ⟨oldPath, newPath, start, i, rfl, rfl, reaped, allocated, plain, counted⟩
  · exact balanced.follows
  · have started := balanced.reaped reaped
    apply (balanced.follows_reaped reaped).trans
    have same := reaped.eq_of_allocated allocated
    have fits : (start i).nlink.toInt < 32767 := by
      rw [same]
      exact room i (same ▸ allocated)
    rcases counted with ⟨middle, reaped', rfl⟩ | ⟨dp, name, s1, ran, reaped', into⟩
    · exact (started.counted allocated fits reaped').1
    · obtain ⟨follows1, node⟩ := started.counted allocated fits reaped'
      rcases into with ⟨middle, reaped'', rfl⟩ | enters
      · exact (started.counted allocated fits (reaped'.trans reaped'')).1
      · have ran' : call.nameiparent p s s.fs = (.ok (some (dp, name)), s1) := by
          rw [isLink]
          exact ran
        have count := started.counts i allocated
        have more := toInt_add_one fits
        apply follows1.trans
        apply follows1.balanced.enters small _ _ _ (Call.parent_linked linked ran') _ enters
        · rw [node]
          exact plain
        · rw [node]
          exact allocated
        · rw [node, more]
          omega
        · apply Nat.pos_of_ne_zero
          rintro rfl
          exact allocated started.zeroFree

omit small room in
theorem Balanced.unlinks_call {path : Option (List UInt8)} (isUnlink : call = .unlink path)
    (changes : Unlinks p (s.proc p).cwd path s.fs tree) :
    Follows fixed.ninodes s.fs.tree tree := by
  rcases changes with rfl | ⟨isPath, dp, name, s1, rfl, ran, reaped, unlinks⟩
  · exact balanced.follows
  · have ran' : call.nameiparent p s s.fs = (.ok (some (dp, name)), s1) := by
      rw [isUnlink]
      exact ran
    exact (balanced.follows_reaped reaped).trans
      ((balanced.reaped reaped).unlinks (Call.parent_linked linked ran') unlinks)

theorem Balanced.changes (isSb : s.fs.sb = fixed) (changes : call.Changes p s tree) :
    Follows fixed.ninodes s.fs.tree tree := by
  have whole := changes
  rcases changes with rfl | changes
  · exact balanced.follows
  · split at changes
    · exact balanced.links small linked room rfl changes
    · exact balanced.unlinks_call linked rfl changes
    · obtain ⟨path, type, creates, -⟩ := changes
      exact balanced.creates small linked room isSb creates whole

omit small room in
/-- The call finds no entry for an inode without links. -/
theorem Balanced.unlinked : call.Unlinked p s False := by
  intro path dp name s1 isUnlink ran reaped de member used low
  have ran' : call.nameiparent p s s.fs = (.ok (some (dp, name)), s1) := by
    rw [isUnlink]
    exact ran
  have directory := FsState.directory_of_mem member
  have balanced1 := balanced.reaped reaped
  have live : (s1.icache dp).inum ∈ s1.tree.live fixed.ninodes := by
    rw [Tree.mem_live]
    refine ⟨balanced1.inside _ ?_, directory, Call.parent_linked linked ran'⟩
    rw [directory]
    decide
  have positive := (balanced1.linked live member used).2
  omega

end

end

structure LinkInv (fixed : Superblock) (m : Machine) : Prop extends MachineInv fixed m where
  panic : m.halted ≠ some .unlinkNlink
  balanced : m.halted = none → Balanced fixed.ninodes m.sys.fs.tree

theorem callNext_halted {m m' : Machine} {label : ProcId × Call}
    (stepped : callNext m label = some m') : m.halted = none := by
  obtain ⟨may, stepped⟩ := Option.ite_none_right_eq_some.mp stepped
  exact may.1

theorem LinkInv.next {fixed : Superblock} (small : fixed.ninodes ≤ 65536) (m : Machine)
    (label : ProcId × Call) (m' : Machine) (inv : LinkInv fixed m) (safely : LinksSafely m label)
    (stepped : callNext m label = some m') : LinkInv fixed m' := by
  obtain ⟨p, call⟩ := label
  have goes := callNext_halted stepped
  have balanced := inv.balanced goes
  have isSb := (inv.goes goes).fs.isSb
  have room : ∀ i, (m.sys.fs.tree i).type ≠ 0 → (m.sys.fs.tree i).nlink.toInt < 32767 :=
    fun i allocated => safely.room i (FsState.inside_of_type allocated) allocated
  have next := callNext_preserves m (p, call) m' inv.toMachineInv stepped
  rcases inv.outcome (balanced.unlinked safely.parent) call.itself_true stepped with
    ⟨goes', tree, changes, ran⟩ | ⟨halt, halted, stops⟩
  · refine ⟨next, ?_, fun _ => ?_⟩
    · rw [goes']
      simp
    · exact (balanced.changes small safely.parent room isSb changes).balanced.reaped ran.ends.reaped
  · refine ⟨next, fun isPanic => ?_, fun isNone => ?_⟩
    · rw [halted] at isPanic
      cases isPanic
      exact stops.2.1 rfl
    · rw [halted] at isNone
      cases isNone

theorem LinkInv.of_run {fixed : Superblock} {m m' : Machine} {calls : List (ProcId × Call)}
    (goes : m.halted = none) (inv : SysInv fixed 0 (fun _ => none) m.sys)
    (small : fixed.ninodes ≤ 65536) (consistent : TreeConsistent fixed.ninodes m.sys.fs.tree)
    (meets : callSystem.Meets LinksSafely m calls) (ran : callSystem.run m calls = some m') :
    LinkInv fixed m' := by
  have inside : ∀ i, (m.sys.fs.tree i).type ≠ 0 → i < fixed.ninodes := by
    intro i allocated
    have below := FsState.inside_of_type allocated
    rw [inv.fs.isSb] at below
    exact below
  have start : LinkInv fixed m := by
    refine ⟨⟨fun halt isHalt => ?_, fun _ => inv⟩, ?_, fun _ => consistent.balanced inside⟩
    · rw [goes] at isHalt
      cases isHalt
    · rw [goes]
      simp
  exact System.run_preserves_of_meets (LinkInv fixed) (LinkInv.next small) start meets ran

section

variable {ninodes : Nat} {tree : Tree}

/-- A tree with nothing but a root directory that names only itself. -/
theorem balanced_lone {rest : List Dirent} (inside : ROOTINO < ninodes)
    (single : ∀ i, (tree i).type ≠ 0 → i = ROOTINO)
    (node : tree ROOTINO = ⟨T_DIR, 1, storedEntry ROOTINO dot :: storedEntry ROOTINO dotdot :: rest⟩)
    (unused : ∀ de ∈ rest, de.inum = 0) : Balanced ninodes tree := by
  have one : (1 : BitVec 16).toInt = 1 := rfl
  have isLive : tree.live ninodes = {ROOTINO} := by
    ext d
    rw [Tree.mem_live, Finset.mem_singleton]
    constructor
    · exact fun live => single d (live.2.1.trans_ne (by decide))
    · rintro rfl
      rw [node]
      exact ⟨inside, rfl, one ▸ Int.one_pos⟩
  have rootLive : ROOTINO ∈ tree.live ninodes := isLive ▸ Finset.mem_singleton_self ROOTINO
  have empty : (tree.hierarchy ninodes).children ROOTINO = 0 := by
    apply Multiset.eq_zero_of_forall_notMem
    intro c child
    simp only [Tree.hierarchy, node] at child
    obtain ⟨de, member, used, -⟩ := mem_inums.mp child
    exact used (unused de member)
  have parent : (tree.hierarchy ninodes).parent ROOTINO = ROOTINO := by
    simp only [Tree.hierarchy, Node.entry, node]
    rfl
  have named : ∀ i, (tree.hierarchy ninodes).named i = 0 := by
    intro i
    have sum : (tree.hierarchy ninodes).named i =
        ∑ d ∈ tree.live ninodes, ((tree.hierarchy ninodes).children d).count i := rfl
    rw [sum, isLive, Finset.sum_singleton, empty, Multiset.count_zero]
  have shaped : Shaped ROOTINO (tree ROOTINO).entries := by
    rw [node]
    refine ⟨_, _, rest, rfl, by decide, rfl, by decide, fun de member used => ?_⟩
    exact absurd (unused de member) used
  have onlyRoot : ∀ d ∈ tree.live ninodes, d = ROOTINO := by
    simp [isLive]
  refine ⟨⟨?_, parent, named ROOTINO, ?_, ?_⟩, ?_, ?_, ?_, ?_, ?_⟩
  · exact rootLive
  · exact fun d live other => absurd (onlyRoot d live) other
  · exact fun d live other => absurd (onlyRoot d live) other
  · intro d live
    rw [onlyRoot d live]
    exact shaped
  · intro i allocated
    have parented : (tree.hierarchy ninodes).parented ROOTINO =
        ((tree.live ninodes).filter fun d => (tree.hierarchy ninodes).parent d = ROOTINO).card := rfl
    rw [single i allocated, Hierarchy.links, named, parented, isLive, Finset.filter_singleton,
      if_pos parent, node, one]
    rfl
  · intro d live i child
    rw [onlyRoot d live, empty] at child
    exact absurd child (Multiset.notMem_zero i)
  · exact fun i allocated => single i allocated ▸ inside
  · by_contra allocated
    exact absurd (single 0 allocated) (by decide)

end

namespace RootLayout

variable (layout : RootLayout) {size : Nat} {entries : Block}

theorem tree_boot : (boot (layout.disk size entries) noDevices).sys.fs.tree =
    (image layout.sb (layout.disk size entries)).tree := by
  have isSuper : readsb (layout.disk size entries) = layout.sb := layout.readsb_disk
  rw [← isSuper]
  rfl

theorem eq_root {i : Nat}
    (allocated : ((boot (layout.disk size entries) noDevices).sys.fs.tree i).type ≠ 0) : i = ROOTINO := by
  rw [tree_boot] at allocated
  obtain ⟨inside, isDisk⟩ := allocated_inside allocated
  have isAllocated : (dinodeAt layout.sb (layout.disk size entries) i).type ≠ 0 := isDisk ▸ allocated
  exact layout.eq_root_of_allocated inside isAllocated

end RootLayout

/-- The entries `.` and `..` of a root directory, and an entry `g` for `inum`. -/
def rootEntries (inum : Nat) : Block :=
  ((Bytes.zero.splice 0 (encodeDirent ⟨ROOTINO, strncpyName dot⟩)).splice 16
    (encodeDirent ⟨ROOTINO, strncpyName dotdot⟩)).splice 32 (encodeDirent ⟨inum, strncpyName [103]⟩)

def dotsDisk (inum : Nat) : Disk := rootDisk 48 (rootEntries inum)

theorem dotsDisk_wellFormed (inum : Nat) : WellFormed smallSuper (dotsDisk inum) :=
  rootDisk_wellFormed (by decide)

private theorem rootEntries_exist :
    ∀ k < 3, (rootEntries 0).getLe (k * DIRENT) 2 < 8 ∧ (rootEntries 2).getLe (k * DIRENT) 2 < 8 := by
  decide +kernel

theorem dotsDisk_entriesExist {inum : Nat} (isSmall : inum = 0 ∨ inum = 2) :
    EntriesExist smallSuper (dotsDisk inum) := by
  apply rootDisk_entriesExist (by decide)
  intro k used
  have below : k < 3 := by
    unfold DIRENT at used
    omega
  rcases isSmall with rfl | rfl
  · exact (rootEntries_exist k below).1
  · exact (rootEntries_exist k below).2

theorem dotsDisk_sysInv {inum : Nat} (isSmall : inum = 0 ∨ inum = 2) :
    SysInv smallSuper 0 (fun _ => none) (boot (dotsDisk inum) noDevices).sys := by
  have isSuper : readsb (dotsDisk inum) = smallSuper := readsb_rootDisk
  rw [← isSuper]
  exact boot_sysInv (isSuper ▸ smallSuper_valid) (isSuper ▸ dotsDisk_wellFormed inum)
    (isSuper ▸ dotsDisk_entriesExist isSmall)

theorem dotsDisk_root : ∀ inum ∈ [0, 2], (boot (dotsDisk inum) noDevices).sys.fs.tree ROOTINO =
    ⟨T_DIR, 1, [⟨ROOTINO, strncpyName dot⟩, ⟨ROOTINO, strncpyName dotdot⟩, ⟨inum, strncpyName [103]⟩]⟩ := by
  decide +kernel

theorem dotsDisk_treeConsistent : TreeConsistent 8 (boot (dotsDisk 0) noDevices).sys.fs.tree := by
  refine (balanced_lone (by decide) (fun _ => smallLayout.eq_root) (dotsDisk_root 0 (by simp))
    fun de member => ?_).treeConsistent
  rw [List.mem_singleton.mp member]

/-- From a consistent tree, calls that meet the conditions end in a consistent tree or
in a panic, and not in that of `sys_unlink` for an inode without links. -/
theorem link_counts_match {fixed : Superblock} {m m' : Machine} {calls : List (ProcId × Call)}
    (goes : m.halted = none) (inv : SysInv fixed 0 (fun _ => none) m.sys)
    (small : fixed.ninodes ≤ 65536) (consistent : TreeConsistent fixed.ninodes m.sys.fs.tree)
    (meets : callSystem.Meets LinksSafely m calls) (ran : callSystem.run m calls = some m') :
    (m'.halted = none → TreeConsistent fixed.ninodes m'.sys.fs.tree) ∧
      m'.halted ≠ some .unlinkNlink := by
  have final := LinkInv.of_run goes inv small consistent meets ran
  exact ⟨fun goes' => (final.balanced goes').treeConsistent, final.panic⟩

/-- A directory and a file are made, and the directory is removed again. -/
theorem link_counts_match_calls :
    ∃ m, callSystem.run (boot (dotsDisk 0) noDevices)
        [(⟨0, by decide⟩, .mkdir (some [100])), (⟨0, by decide⟩, .open (some [102]) O_CREATE),
          (⟨0, by decide⟩, .unlink (some [100]))] = some m ∧
      m.halted = none ∧ TreeConsistent 8 m.sys.fs.tree := by
  have runs : callSystem.Meets LinksSafely (boot (dotsDisk 0) noDevices)
        [(⟨0, by decide⟩, .mkdir (some [100])), (⟨0, by decide⟩, .open (some [102]) O_CREATE),
          (⟨0, by decide⟩, .unlink (some [100]))] ∧
      (callSystem.run (boot (dotsDisk 0) noDevices)
        [(⟨0, by decide⟩, .mkdir (some [100])), (⟨0, by decide⟩, .open (some [102]) O_CREATE),
          (⟨0, by decide⟩, .unlink (some [100]))]).map Machine.halted = some none := by
    decide +kernel
  obtain ⟨meets, ends⟩ := runs
  obtain ⟨m, ran, goes⟩ := Option.map_eq_some_iff.mp ends
  refine ⟨m, ran, goes, ?_⟩
  exact (link_counts_match rfl (dotsDisk_sysInv (Or.inl rfl)) (by decide) dotsDisk_treeConsistent
    meets ran).1 goes

/-- A file made of inode 2 in the root directory is named twice. -/
private theorem named_twice {tree tree' : Tree} {dir : Nat} {name : List UInt8}
    (reaped : Reaped (boot (dotsDisk 2) noDevices).sys.fs.tree tree)
    (makes : Makes 8 tree dir name T_FILE tree') (allocated : (tree' 2).type ≠ 0) :
    ROOTINO ∈ tree'.live 8 ∧
      (tree' ROOTINO).entries.countP (fun de => decide (de.IsLink ∧ de.inum = 2)) = 2 := by
  obtain ⟨i, dotted, positive, inside, free, apart, isDotted, isDir, absent, k, gap, rfl⟩ := makes
  obtain ⟨others, parentNode, -⟩ := isDotted.nodes apart positive (by omega)
  rw [parentNode] at isDir absent gap
  have notFree : (tree dir).type ≠ 0 := by
    rw [isDir]
    decide
  have same := reaped.eq_of_allocated notFree
  have isRoot : dir = ROOTINO := smallLayout.eq_root (same ▸ notFree)
  rw [isRoot] at apart others parentNode
  rw [isRoot, dotsDisk_root 2 (by simp)] at same
  have isTwo : i = 2 := by
    by_contra other
    rw [Tree.setEntry, isRoot, update_of_ne (by decide), others 2 (by decide) (Ne.symm other)]
      at allocated
    rw [reaped.eq_of_allocated allocated] at allocated
    exact absurd (smallLayout.eq_root allocated) (by decide)
  have shaped : Shaped ROOTINO (tree ROOTINO).entries := by
    rw [same]
    exact ⟨_, _, _, rfl, by decide, rfl, by decide, by decide⟩
  rw [isRoot] at absent gap
  have isChild := shaped.isChild_of_absent absent positive (by omega)
  have place := shaped.two_le_of_gap gap
  have entries : ((dotted.setEntry dir k (storedEntry i name)) ROOTINO).entries =
      putEntry (tree ROOTINO).entries k (storedEntry i name) := by
    rw [Tree.setEntry, isRoot, update_self, parentNode]
  refine ⟨?_, ?_⟩
  · have single : 0 < (1 : BitVec 16).toInt := by decide
    rw [Tree.mem_live, Tree.setEntry, isRoot, update_self, parentNode, same]
    exact ⟨by decide, rfl, single⟩
  · rw [entries, (shaped.put place fun _ => isChild).countP_isLink, shaped.getD_one_put place,
      shaped.inums_drop_put gap isChild.1.1, same, isTwo]
    rfl

theorem MachineInv.makes {fixed : Superblock} {m m' : Machine} {p : ProcId} {call : Call} {i : Nat}
    (inv : MachineInv fixed m) (ran : callSystem.run m [(p, call)] = some m')
    (goes : m.halted = none) (goes' : m'.halted = none) (creates : call.creates = some (path, type))
    (free : (m.sys.fs.tree i).type = 0) (allocated : (m'.sys.fs.tree i).type ≠ 0) :
    ∃ tree dp name s1, Reaped m.sys.fs.tree s1.tree ∧
      Makes fixed.ninodes s1.tree (FsState.icache s1 dp).inum name type tree ∧
      Reaped tree m'.sys.fs.tree := by
  obtain ⟨after, stepped, rests⟩ := callSystem.run_cons_eq_some.mp ran
  cases rests
  have any : call.Unlinked p m.sys True := fun _ _ _ _ _ _ _ _ _ _ _ => trivial
  rcases inv.outcome any call.itself_true stepped with ⟨-, tree, changes, ended⟩ | ⟨halt, halted, -⟩
  · have changed : tree ≠ m.sys.fs.tree := by
      rintro rfl
      rw [ended.ends.reaped.eq_of_allocated allocated] at allocated
      exact allocated free
    obtain ⟨dp, name, s1, -, reaped, makes⟩ := changes.makes creates changed
    rw [(inv.goes goes).fs.isSb] at makes
    exact ⟨tree, dp, name, s1, reaped, makes, ended.ends.reaped⟩
  · rw [goes'] at halted
    cases halted

/-- The root directory has an entry for inode 2, which is free. A new file gets that
inode, which two entries name then, and the link count 1. -/
theorem freeEntry_breaks_counts :
    ∃ m, SysInv smallSuper 0 (fun _ => none) (boot (dotsDisk 2) noDevices).sys ∧
      LinkConsistent 8 (boot (dotsDisk 2) noDevices).sys.fs.tree ∧
      callSystem.Meets LinksSafely (boot (dotsDisk 2) noDevices)
        [(⟨0, by decide⟩, .open (some [47, 97]) O_CREATE)] ∧
      callSystem.run (boot (dotsDisk 2) noDevices)
        [(⟨0, by decide⟩, .open (some [47, 97]) O_CREATE)] = some m ∧
      m.halted = none ∧ ¬ LinkConsistent 8 m.sys.fs.tree := by
  have ends : (callSystem.run (boot (dotsDisk 2) noDevices)
      [(⟨0, by decide⟩, .open (some [47, 97]) O_CREATE)]).map
        (fun m => decide (m.halted = none ∧ (m.sys.fs.tree 2).type ≠ 0 ∧
          (m.sys.fs.tree 2).nlink.toInt = 1)) = some true := by
    decide +kernel
  obtain ⟨m, ran, final⟩ := Option.map_eq_some_iff.mp ends
  obtain ⟨goes, allocated, single⟩ := of_decide_eq_true final
  have inv := dotsDisk_sysInv (Or.inr rfl)
  refine ⟨m, inv, ?_, by decide +kernel, ran, goes, fun consistent => ?_⟩
  · constructor <;> decide +kernel
  · have started : MachineInv smallSuper (boot (dotsDisk 2) noDevices) :=
      ⟨fun _ isSome => absurd isSome (by simp [boot]), fun _ => inv⟩
    have free : ((boot (dotsDisk 2) noDevices).sys.fs.tree 2).type = 0 := by
      by_contra allocated
      exact absurd (smallLayout.eq_root allocated) (by decide)
    obtain ⟨tree, dp, name, s1, reaped, makes, ended⟩ :=
      started.makes ran rfl goes rfl free allocated
    have isNew := ended.eq_of_allocated allocated
    have allocated' := allocated
    rw [isNew] at allocated'
    obtain ⟨live, twice⟩ := named_twice reaped makes allocated'
    have live' : ROOTINO ∈ m.sys.fs.tree.live 8 := by
      rw [ended.live_eq]
      exact live
    have atLeast : (m.sys.fs.tree ROOTINO).entries.countP
        (fun de => decide (de.IsLink ∧ de.inum = 2)) ≤ m.sys.fs.tree.linksTo 8 2 :=
      Finset.single_le_sum (f := fun d => (m.sys.fs.tree d).entries.countP
        fun de => decide (de.IsLink ∧ de.inum = 2)) (fun _ _ => Nat.zero_le _) live'
    rw [ended.eq_of_live (Tree.mem_live.mp live).2, twice] at atLeast
    have count := consistent.counts 2 (by decide) allocated
    omega

end Xv6.Fs
