import Xv6.Fs.Blocks
import Xv6.Fs.Names

/-!
Contract: the directory tree of a disk.

A node is what the tree has of an inode: its type, its link count and, for a
directory, its entries. The code changes link counts, stores entries, allocates nodes,
and reaps nodes without links.
-/

namespace Xv6.Fs

open Function (update update_of_ne update_self)
open Xv6.Lib

structure Node where
  type : BitVec 16
  nlink : BitVec 16
  entries : List Dirent
deriving DecidableEq

abbrev Tree := Nat → Node

def Node.free : Node := ⟨0, 0, []⟩

def direntAt (block : Nat → Block) (d : Dinode) (k : Nat) : Dirent :=
  decodeDirent (contents block d (DIRENT * k) DIRENT)

def entriesOf (block : Nat → Block) (d : Dinode) : List Dirent :=
  if d.type = T_DIR then (List.range (d.size / DIRENT)).map (direntAt block d) else []

def nodeOf (block : Nat → Block) (d : Dinode) : Node := ⟨d.type, d.nlink, entriesOf block d⟩

def Image.tree (img : Image) : Tree := fun i => nodeOf img.block (img.inode i)

def FsState.tree (s : FsState) : Tree := (image s.sb s.disk).tree

/-- The entries with `de` in the place of the entry `k`, or behind the last one. -/
def putEntry (entries : List Dirent) (k : Nat) (de : Dirent) : List Dirent :=
  entries.take k ++ de :: entries.drop (k + 1)

namespace Tree

def addLinks (tree : Tree) (i : Nat) (count : BitVec 16) : Tree :=
  update tree i { tree i with nlink := (tree i).nlink + count }

def setEntry (tree : Tree) (i k : Nat) (de : Dirent) : Tree :=
  update tree i { tree i with entries := putEntry (tree i).entries k de }

end Tree

/-- Some nodes without links have been freed. -/
def Reaped (tree tree' : Tree) : Prop :=
  ∀ i, tree' i = tree i ∨ (tree i).nlink = 0 ∧ tree' i = Node.free

namespace Reaped

variable {tree tree' tree'' : Tree}

theorem refl (tree : Tree) : Reaped tree tree := fun _ => Or.inl rfl

theorem trans (first : Reaped tree tree') (second : Reaped tree' tree'') : Reaped tree tree'' := by
  intro i
  rcases first i with same | ⟨unlinked, freed⟩
  · rw [← same]
    exact second i
  · refine Or.inr ⟨unlinked, ?_⟩
    rcases second i with same | ⟨-, freed'⟩
    · rw [same, freed]
    · exact freed'

theorem eq_of_links (reaped : Reaped tree tree') {i : Nat} (linked : (tree i).nlink ≠ 0) :
    tree' i = tree i :=
  (reaped i).resolve_right fun ⟨unlinked, _⟩ => linked unlinked

theorem eq_of_allocated (reaped : Reaped tree tree') {i : Nat} (allocated : (tree' i).type ≠ 0) :
    tree' i = tree i := by
  rcases reaped i with same | ⟨-, freed⟩
  · exact same
  · rw [freed] at allocated
    exact absurd rfl allocated

theorem change (reaped : Reaped tree tree') (i : Nat) (node : Node) :
    Reaped (update tree i node) (update tree' i node) := by
  intro j
  by_cases same : j = i
  · rw [same, update_self, update_self]
    exact Or.inl rfl
  · rw [update_of_ne same, update_of_ne same]
    exact reaped j

theorem addLinks (reaped : Reaped tree tree') {i : Nat} (same : tree' i = tree i)
    (count : BitVec 16) : Reaped (tree.addLinks i count) (tree'.addLinks i count) := by
  rw [Tree.addLinks, Tree.addLinks, same]
  exact reaped.change i _

end Reaped

theorem Reaped.free {tree : Tree} {i : Nat} (unlinked : (tree i).nlink = 0) :
    Reaped tree (update tree i Node.free) := by
  intro j
  by_cases same : j = i
  · rw [same, update_self]
    exact Or.inr ⟨unlinked, rfl⟩
  · rw [update_of_ne same]
    exact Or.inl rfl

theorem Frozen.tree {held : Holds} {s s' : FsState} (frozen : Frozen held s s') :
    s'.tree = s.tree := by
  rw [FsState.tree, frozen.sb, frozen.disk, FsState.tree]

/-- One of these references keeps each node without links. -/
def Anchored (held : Holds) (s : FsState) : Prop :=
  ∀ i, (s.tree i).type ≠ 0 → (s.tree i).nlink = 0 → ∃ x k, (x, k) ∈ held ∧ (s.icache x).inum = i

namespace Anchored

variable {held held' : Holds} {s s' : FsState}

theorem mono (anchored : Anchored held' s) (fewer : held' ⊆ held) : Anchored held s := by
  intro i allocated unlinked
  obtain ⟨x, k, member, isInum⟩ := anchored i allocated unlinked
  exact ⟨x, k, fewer member, isInum⟩

theorem frozen (anchored : Anchored held s) (frozen : Frozen held s s') : Anchored held s' := by
  intro i allocated unlinked
  rw [frozen.tree] at allocated unlinked
  obtain ⟨x, k, member, isInum⟩ := anchored i allocated unlinked
  exact ⟨x, k, member, (frozen.stays.inums x k member).trans isInum⟩

end Anchored

/-- The inodes that `held` refers to are the same, and the tree is but for nodes without
links; if `held` keeps those, the disk is the same. -/
structure Steady (held : Holds) (s s' : FsState) : Prop where
  stays : Stays held s s'
  reaped : Reaped s.tree s'.tree
  still : Anchored held s → Frozen held s s'

namespace Steady

variable {held held' : Holds} {s s' s'' : FsState}

theorem refl (held : Holds) (s : FsState) : Steady held s s :=
  ⟨Stays.refl held s, Reaped.refl _, fun _ => Frozen.refl held s⟩

theorem trans (first : Steady held s s') (second : Steady held s' s'') : Steady held s s'' := by
  refine ⟨first.stays.trans second.stays, first.reaped.trans second.reaped, fun anchored => ?_⟩
  have frozen := first.still anchored
  exact frozen.trans (second.still (anchored.frozen frozen))

theorem mono (steady : Steady held s s') (fewer : held' ⊆ held) : Steady held' s s' :=
  ⟨steady.stays.mono fewer, steady.reaped, fun anchored => (steady.still (anchored.mono fewer)).mono fewer⟩

end Steady

/-- A part of a call has left this tree, but for nodes without links, and has lost none of
them. -/
structure Ends (s : FsState) (tree : Tree) (s' : FsState) : Prop where
  reaped : Reaped tree s'.tree
  moors : Moors s s'

namespace Ends

variable {held : Holds} {s s' s'' : FsState} {tree : Tree}

theorem refl (s : FsState) : Ends s s.tree s := ⟨Reaped.refl _, Moors.refl s⟩

theorem steady (ends : Ends s tree s') (steady : Steady held s' s'') : Ends s tree s'' :=
  ⟨ends.reaped.trans steady.reaped, ends.moors.trans steady.stays.moors⟩

theorem after (ends : Ends s' tree s'') (moors : Moors s s') : Ends s tree s'' :=
  ⟨ends.reaped, moors.trans ends.moors⟩

theorem trans (first : Ends s tree s') (second : Ends s' s'.tree s'') : Ends s tree s'' :=
  ⟨first.reaped.trans second.reaped, first.moors.trans second.moors⟩

theorem log (ends : Ends s tree s') (event : Event) : Ends s tree (s'.log event) :=
  ⟨ends.reaped, ends.moors⟩

end Ends

theorem Steady.ends {held : Holds} {s s' : FsState} (steady : Steady held s s') :
    Ends s s.tree s' :=
  ⟨steady.reaped, steady.stays.moors⟩

theorem Steady.log {held : Holds} {s s' : FsState} (steady : Steady held s s') (event : Event) :
    Steady held s (s'.log event) :=
  ⟨⟨steady.stays.inums, steady.stays.moors⟩, steady.reaped, fun anchored =>
    have frozen := steady.still anchored
    ⟨frozen.sb, frozen.disk, frozen.stays.inums, frozen.stays.moors⟩⟩

/-- A call has failed and left things alone, or has made one of the trees `made`. -/
def Outcome (held : Holds) (s : FsState) (made : Tree → Prop) (result : Int) (s' : FsState) : Prop :=
  result = -1 ∧ Steady held s s' ∨ result = 0 ∧ ∃ tree, made tree ∧ Ends s tree s'

namespace Outcome

variable {held : Holds} {s s1 s' : FsState} {made made' : Tree → Prop} {result : Int}

theorem after (outcome : Outcome held s1 made result s') (steady : Steady held s s1)
    (weaker : ∀ tree, made tree → made' tree) : Outcome held s made' result s' :=
  outcome.imp (And.imp_right steady.trans) (And.imp_right fun ⟨tree, isMade, ends⟩ =>
    ⟨tree, weaker tree isMade, ends.after steady.stays.moors⟩)

theorem ends (outcome : Outcome held s made result s') : ∃ tree, (tree = s.tree ∨ made tree) ∧ Ends s tree s' := by
  rcases outcome with ⟨-, steady⟩ | ⟨-, tree, isMade, ends⟩
  · exact ⟨s.tree, Or.inl rfl, steady.ends⟩
  · exact ⟨tree, Or.inr isMade, ends⟩

end Outcome

theorem Frozen.steady {held : Holds} {s s' : FsState} (frozen : Frozen held s s') :
    Steady held s s' :=
  ⟨frozen.stays, frozen.tree ▸ Reaped.refl _, fun _ => frozen⟩

namespace Image

variable {img img' : Image}

theorem tree_setInode (i : Nat) (d : Dinode) :
    (img.setInode i d).tree = update img.tree i (nodeOf img.block d) := by
  funext j
  by_cases same : j = i
  · rw [same, update_self, tree, setInode_inode, update_self, setInode_block]
  · rw [update_of_ne same, tree, setInode_inode, update_of_ne same,
      setInode_block, tree]

theorem tree_congr (inode : img'.inode = img.inode) (block : img'.block = img.block) :
    img'.tree = img.tree := by
  funext i
  rw [tree, inode, block, tree]

theorem tree_of_bytes {i : Nat} (type : (img'.inode i).type = (img.inode i).type)
    (nlink : (img'.inode i).nlink = (img.inode i).nlink)
    (size : (img'.inode i).size = (img.inode i).size)
    (bytes : (img.inode i).type = T_DIR → ∀ p, p < (img.inode i).size →
      img'.byteAt i p = img.byteAt i p) : img'.tree i = img.tree i := by
  have entries : entriesOf img'.block (img'.inode i) = entriesOf img.block (img.inode i) := by
    unfold entriesOf
    rw [type, size]
    split
    · rename_i directory
      apply List.map_congr_left
      intro k below
      rw [List.mem_range] at below
      rw [direntAt, contents_eq, direntAt, contents_eq]
      apply congrArg decodeDirent
      apply List.map_congr_left
      intro n inside
      rw [List.mem_range] at inside
      apply bytes directory
      unfold DIRENT at below inside ⊢
      omega
    · rfl
  rw [tree, nodeOf, type, nlink, entries, tree, nodeOf]

end Image

variable {block : Nat → Block}

/-- Other fields than those of the contents have changed. -/
theorem nodeOf_relabel {d d' : Dinode} (type : d'.type = d.type) (size : d'.size = d.size)
    (addrs : d'.addrs = d.addrs) :
    nodeOf block d' = { nodeOf block d with nlink := d'.nlink } := by
  have contents : ∀ off n, contents block d' off n = contents block d off n := by
    intro off n
    simp only [Fs.contents, addrOf, ref, addrs]
  have dirents : direntAt block d' = direntAt block d := by
    funext k
    rw [direntAt, contents, direntAt]
  have entries : entriesOf block d' = entriesOf block d := by
    rw [entriesOf, type, size, dirents, entriesOf]
  rw [nodeOf, type, entries, nodeOf]

theorem nodeOf_empty (block : Nat → Block) {d : Dinode} (empty : d.size = 0) :
    nodeOf block d = ⟨d.type, d.nlink, []⟩ := by
  simp [nodeOf, entriesOf, empty]

theorem length_entriesOf {d : Dinode} (directory : d.type = T_DIR) :
    (entriesOf block d).length = d.size / DIRENT := by
  simp [entriesOf, directory]

theorem getElem?_entriesOf {d : Dinode} (directory : d.type = T_DIR) {k : Nat}
    (inside : DIRENT * k + DIRENT ≤ d.size) :
    (entriesOf block d)[k]? = some (direntAt block d k) := by
  have below : k < d.size / DIRENT := by
    unfold DIRENT at inside ⊢
    omega
  simp [entriesOf, directory, below]

theorem putEntry_eq {entry entry' : Nat → Dirent} {size k : Nat} {de : Dirent} (start : k ≤ size)
    (new : entry' k = de) (old : ∀ j, j < size → j ≠ k → entry' j = entry j) :
    (List.range (max size (k + 1))).map entry' = putEntry ((List.range size).map entry) k de := by
  have length : ((List.range size).map entry).length = size := by simp
  apply List.ext_getElem
  · simp only [putEntry, List.length_append, List.length_take, List.length_cons, List.length_drop,
      length, List.length_map, List.length_range]
    omega
  · intro j first second
    rw [List.length_map, List.length_range] at first
    rw [List.getElem_map, List.getElem_range]
    simp only [putEntry]
    by_cases before : j < k
    · rw [List.getElem_append_left (by simp; omega), List.getElem_take, List.getElem_map,
        List.getElem_range, old j (by omega) (by omega)]
    · rw [List.getElem_append_right (by simp; omega)]
      simp only [List.length_take, length, Nat.min_eq_left start]
      by_cases here : j = k
      · simp only [here, Nat.sub_self, List.getElem_cons_zero, new]
      · obtain ⟨rest, rfl⟩ : ∃ rest, j = k + 1 + rest := ⟨j - k - 1, by omega⟩
        have index : k + 1 + rest - k = rest + 1 := by omega
        simp only [index, List.getElem_cons_succ, List.getElem_drop, List.getElem_map,
          List.getElem_range]
        exact old (k + 1 + rest) (by omega) here

section

variable {x : Slot} {s s1 s2 : FsState} {off size : Nat} {src : List UInt8}

theorem Sized.byteAt (sized : Sized x size s s1 s2) (j p : Nat) :
    (image s.sb s2.disk).byteAt j p = (view (some x) s1).byteAt j p := by
  rw [sized.disk, Image.byteAt, Image.addrOf_setSize]
  rfl

theorem Sized.tree_eq (sized : Sized x size s s1 s2) : s2.tree = (image s.sb s2.disk).tree := by
  rw [FsState.tree, sized.sb]

section

variable (wrote : Wrote x off src s s1) (sized : Sized x size s s1 s2) (current : Current x s)
include wrote sized current

theorem Sized.inode_self : (image s.sb s2.disk).inode (s.icache x).inum =
    { (image s.sb s.disk).inode (s.icache x).inum with
      size := size, addrs := (s1.icache x).copy.addrs } := by
  rw [sized.disk, Image.setInode_inode, update_self, wrote.extended.inode_fields,
    current.view_eq, ← wrote.extended.inum, view_some_self]
  rfl

theorem Sized.tree_other
    (covers : ∀ i, ((image s.sb s.disk).inode i).type = T_DIR →
      (image s.sb s.disk).Covers i ((image s.sb s.disk).inode i).size)
    {j : Nat} (different : j ≠ (s.icache x).inum) : s2.tree j = s.tree j := by
  have isView := current.view_eq
  have same : (image s.sb s2.disk).inode j = (image s.sb s.disk).inode j := by
    rw [sized.disk, Image.setInode_inode, update_of_ne different,
      wrote.extended.inode_other different, isView]
  rw [sized.tree_eq]
  apply Image.tree_of_bytes
  · rw [same]
  · rw [same]
  · rw [same]
  · intro directory p below
    have mapped := covers j directory (p / BSIZE) (by
      have := Nat.div_mul_le_self p BSIZE
      omega)
    rw [sized.byteAt, ← isView]
    apply wrote.old
    · rw [isView, directory]
      decide
    · rw [isView]
      exact mapped
    · exact fun isX => absurd isX different

/-- A node that is not a directory has no contents in the tree. -/
theorem Sized.tree_plain
    (plain : ((image s.sb s.disk).inode (s.icache x).inum).type ≠ T_DIR) :
    s2.tree (s.icache x).inum = s.tree (s.icache x).inum := by
  have inode := sized.inode_self wrote current
  rw [sized.tree_eq, Image.tree, inode, FsState.tree, Image.tree]
  simp [nodeOf, entriesOf, plain]

theorem Sized.tree_directory
    (directory : ((image s.sb s.disk).inode (s.icache x).inum).type = T_DIR)
    (covers : (image s.sb s.disk).Covers (s.icache x).inum
      ((image s.sb s.disk).inode (s.icache x).inum).size)
    (start : off ≤ ((image s.sb s.disk).inode (s.icache x).inum).size)
    (isSize : size = max ((image s.sb s.disk).inode (s.icache x).inum).size (off + src.length))
    (aligned : DIRENT ∣ off) (long : src.length = DIRENT) :
    s2.tree (s.icache x).inum =
      { s.tree (s.icache x).inum with
        entries := putEntry (s.tree (s.icache x).inum).entries (off / DIRENT) (decodeDirent src) } := by
  have inode := sized.inode_self wrote current
  have isView := current.view_eq
  have isOff : DIRENT * (off / DIRENT) = off := Nat.mul_div_cancel' aligned
  have number : size / DIRENT =
      max (((image s.sb s.disk).inode (s.icache x).inum).size / DIRENT) (off / DIRENT + 1) := by
    rw [isSize, long]
    unfold DIRENT at isOff ⊢
    omega
  have entries : entriesOf (image s.sb s2.disk).block ((image s.sb s2.disk).inode (s.icache x).inum) =
      putEntry (entriesOf (image s.sb s.disk).block
        ((image s.sb s.disk).inode (s.icache x).inum)) (off / DIRENT) (decodeDirent src) := by
    have type : ((image s.sb s2.disk).inode (s.icache x).inum).type = T_DIR := by
      rw [inode, ← directory]
    have isNew : ((image s.sb s2.disk).inode (s.icache x).inum).size = size := by
      rw [inode]
    rw [entriesOf, if_pos type, isNew, number, entriesOf, if_pos directory]
    apply putEntry_eq
    · exact Nat.div_le_div_right start
    · rw [direntAt, Image.contents_eq, isOff]
      apply congrArg decodeDirent
      apply List.ext_getElem
      · simp [long]
      · intro n first second
        rw [List.getElem_map, List.getElem_range, sized.byteAt, wrote.new n second,
          List.getD_eq_getElem _ _ second]
    · intro j below different
      rw [direntAt, Image.contents_eq, direntAt, Image.contents_eq]
      apply congrArg decodeDirent
      apply List.map_congr_left
      intro n inside
      rw [List.mem_range] at inside
      have mapped := covers ((DIRENT * j + n) / BSIZE) (by
        unfold DIRENT at below inside ⊢
        unfold BSIZE
        omega)
      rw [sized.byteAt, ← isView]
      apply wrote.old
      · rw [isView, directory]
        decide
      · rw [isView]
        exact mapped
      · intro _
        rw [long]
        unfold DIRENT at isOff inside different ⊢
        omega
  have fields : nodeOf (image s.sb s2.disk).block ((image s.sb s2.disk).inode (s.icache x).inum) =
      ⟨((image s.sb s.disk).inode (s.icache x).inum).type,
        ((image s.sb s.disk).inode (s.icache x).inum).nlink, entriesOf (image s.sb s2.disk).block
          ((image s.sb s2.disk).inode (s.icache x).inum)⟩ := by
    rw [nodeOf, inode]
  rw [sized.tree_eq, Image.tree, fields, entries, FsState.tree, Image.tree, nodeOf]

end

end

end Xv6.Fs
