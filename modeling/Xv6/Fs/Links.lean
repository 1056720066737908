import Xv6.Fs.NameSpecs
import Xv6.Lib.Hierarchy

/-!
Contract: trees whose link counts are right, and the changes that keep them so.

The link count of a node is the number of entries that name it in directories with
links, without the entries `.`. That alone is not kept: an entry for a free inode is
counted nowhere until the inode is allocated again. So a consistent tree has besides
no entry for a free inode, a root that no directory has as a child, and no further
entries `.` and `..`. Inode 0 stays free: its number marks the entries not in use.
-/

namespace Xv6.Fs

open Function Xv6.Lib

/-! ### Names -/

/-- The part of a name that `namecmp` compares. -/
def compared (name : List UInt8) : List UInt8 := (name.take DIRSIZ).takeWhile (· != 0)

theorem namecmp_iff {s t : List UInt8} : namecmp s t = true ↔ compared s = compared t :=
  beq_iff_eq

theorem compared_strncpyName (name : List UInt8) : compared (strncpyName name) = compared name := by
  have nonzero : ∀ byte ∈ name.takeWhile (· != 0), (byte != 0) = true := by
    intro byte member
    exact List.mem_takeWhile_imp (p := (· != 0)) member
  have padded : (name.takeWhile (· != 0) ++ List.replicate DIRSIZ 0).takeWhile (· != 0) =
      name.takeWhile (· != 0) := by
    rw [List.takeWhile_append_of_pos nonzero, List.takeWhile_replicate]
    simp
  rw [compared, strncpyName, List.take_take, Nat.min_self, compared]
  rw [← List.take_takeWhile, padded, List.take_takeWhile]

/-! ### Entries -/

/-- An entry in use, other than `.`. -/
def Dirent.IsLink (de : Dirent) : Prop := de.inum ≠ 0 ∧ ¬ namecmp dot de.name

/-- An entry in use, other than `.` and `..`. -/
def Dirent.IsChild (de : Dirent) : Prop := de.IsLink ∧ ¬ namecmp dotdot de.name

instance (de : Dirent) (name : List UInt8) : Decidable (de.Is name) :=
  inferInstanceAs (Decidable (_ ∧ _))

instance (de : Dirent) : Decidable de.IsLink := inferInstanceAs (Decidable (_ ∧ _))

instance (de : Dirent) : Decidable de.IsChild := inferInstanceAs (Decidable (_ ∧ _))

def inums (entries : List Dirent) : Multiset Nat := ((entries.map Dirent.inum).filter (· ≠ 0) : List Nat)

theorem inums_append (first second : List Dirent) :
    inums (first ++ second) = inums first + inums second := by
  rw [inums, List.map_append, List.filter_append, ← Multiset.coe_add, inums, inums]

theorem inums_cons (de : Dirent) (entries : List Dirent) :
    inums (de :: entries) = if de.inum = 0 then inums entries else de.inum ::ₘ inums entries := by
  by_cases unused : de.inum = 0
  · simp [inums, unused]
  · simp [inums, unused]

theorem mem_inums {entries : List Dirent} {i : Nat} :
    i ∈ inums entries ↔ ∃ de ∈ entries, de.inum ≠ 0 ∧ de.inum = i := by
  simp only [inums, Multiset.mem_coe, List.mem_filter, List.mem_map, decide_eq_true_eq]
  constructor
  · rintro ⟨⟨de, member, rfl⟩, used⟩
    exact ⟨de, member, used, rfl⟩
  · rintro ⟨de, member, used, rfl⟩
    exact ⟨⟨de, member, rfl⟩, used⟩

theorem count_inums (entries : List Dirent) (i : Nat) :
    (inums entries).count i = entries.countP fun de => decide (de.inum ≠ 0 ∧ de.inum = i) := by
  induction entries with
  | nil => rfl
  | cons de rest ih =>
    rw [inums_cons, List.countP_cons]
    by_cases unused : de.inum = 0
    · simp [unused, ih]
    · by_cases isI : de.inum = i
      · simp [isI, ih, isI ▸ unused]
      · simp [unused, isI, Multiset.count_cons_of_ne (Ne.symm isI), ih]

theorem inums_putEntry {entries : List Dirent} {k : Nat} {de : Dirent} (gap : Gap entries k)
    (used : de.inum ≠ 0) : inums (putEntry entries k de) = de.inum ::ₘ inums entries := by
  rw [putEntry, inums_append, inums_cons, if_neg used, Multiset.add_cons]
  apply congrArg
  rw [← inums_append]
  rcases gap with rfl | ⟨old, at_, unused⟩
  · rw [List.take_length, List.drop_eq_nil_of_le (Nat.le_succ _), List.append_nil]
  · obtain ⟨below, rfl⟩ := List.getElem?_eq_some_iff.mp at_
    have split : entries = entries.take k ++ entries[k] :: entries.drop (k + 1) := by
      rw [← List.drop_eq_getElem_cons below, List.take_append_drop]
    have whole : inums entries = inums (entries.take k) + inums (entries.drop (k + 1)) := by
      calc inums entries = inums (entries.take k ++ entries[k] :: entries.drop (k + 1)) := by
            rw [← split]
        _ = inums (entries.take k) + inums (entries.drop (k + 1)) := by
            rw [inums_append, inums_cons, if_pos unused]
    rw [whole, inums_append]

/-- The entries begin with `.` for the directory and with `..`, and have no others. -/
def Shaped (d : Nat) (entries : List Dirent) : Prop :=
  ∃ self up rest, entries = self :: up :: rest ∧ self.Is dot ∧ self.inum = d ∧ up.Is dotdot ∧
    ∀ de ∈ rest, de.inum ≠ 0 → de.IsChild

variable {name : List UInt8}

namespace Shaped

variable {d k : Nat} {entries : List Dirent} {de : Dirent} (shaped : Shaped d entries)
include shaped

theorem two_le_of_gap (gap : Gap entries k) : 2 ≤ k := by
  obtain ⟨self, up, rest, rfl, isDot, -, isDotdot, -⟩ := shaped
  rcases gap with rfl | ⟨old, at_, unused⟩
  · simp
  · by_contra early
    have first : k = 0 ∨ k = 1 := by omega
    rcases first with rfl | rfl
    · simp only [List.getElem?_cons_zero, Option.some.injEq] at at_
      exact isDot.1 (at_ ▸ unused)
    · simp only [List.getElem?_cons_succ, List.getElem?_cons_zero, Option.some.injEq] at at_
      exact isDotdot.1 (at_ ▸ unused)

theorem put (place : 2 ≤ k) (new : de.inum ≠ 0 → de.IsChild) : Shaped d (putEntry entries k de) := by
  obtain ⟨self, up, rest, rfl, isDot, isSelf, isDotdot, children⟩ := shaped
  obtain ⟨k, rfl⟩ : ∃ rest, k = rest + 2 := ⟨k - 2, by omega⟩
  refine ⟨self, up, putEntry rest k de, rfl, isDot, isSelf, isDotdot, fun other member used => ?_⟩
  rcases List.mem_append.mp member with before | behind
  · exact children other (List.mem_of_mem_take before) used
  · rcases List.mem_cons.mp behind with rfl | after
    · exact new used
    · exact children other (List.mem_of_mem_drop after) used

theorem getD_one_put (place : 2 ≤ k) :
    (putEntry entries k de).getD 1 unusedEntry = entries.getD 1 unusedEntry := by
  obtain ⟨self, up, rest, rfl, -⟩ := shaped
  obtain ⟨k, rfl⟩ : ∃ rest, k = rest + 2 := ⟨k - 2, by omega⟩
  rfl

theorem inums_drop_put (gap : Gap entries k) (used : de.inum ≠ 0) :
    inums ((putEntry entries k de).drop 2) = de.inum ::ₘ inums (entries.drop 2) := by
  have place := shaped.two_le_of_gap gap
  obtain ⟨self, up, rest, rfl, -⟩ := shaped
  obtain ⟨k, rfl⟩ : ∃ rest, k = rest + 2 := ⟨k - 2, by omega⟩
  have inRest : Gap rest k := gap.imp (fun isLength => by simpa using isLength) id
  exact inums_putEntry inRest used

/-- A name that is not present is neither `.` nor `..`. -/
theorem isChild_of_absent {inum : Nat} (absent : Absent entries name) (positive : 0 < inum)
    (small : inum < 65536) : (storedEntry inum name).IsChild := by
  obtain ⟨self, up, rest, rfl, isDot, -, isDotdot, -⟩ := shaped
  have used : inum % 65536 ≠ 0 := by omega
  have notDot : ¬ namecmp name self.name := fun same =>
    absent self List.mem_cons_self ⟨isDot.1, same⟩
  have notDotdot : ¬ namecmp name up.name := fun same =>
    absent up (List.mem_cons_of_mem _ List.mem_cons_self) ⟨isDotdot.1, same⟩
  have dots := isDot.2
  have dotdots := isDotdot.2
  rw [namecmp_iff] at notDot notDotdot dots dotdots
  refine ⟨⟨used, ?_⟩, ?_⟩
  · rw [storedEntry, namecmp_iff, compared_strncpyName, dots]
    exact Ne.symm notDot
  · rw [storedEntry, namecmp_iff, compared_strncpyName, dotdots]
    exact Ne.symm notDotdot

/-- An entry for a name other than `.` and `..` is behind them. -/
theorem two_le_of_is (at_ : entries[k]? = some de) (isName : de.Is name)
    (notDots : ¬ (namecmp name dot ∨ namecmp name dotdot)) : 2 ≤ k := by
  obtain ⟨self, up, rest, rfl, isDot, -, isDotdot, -⟩ := shaped
  have dots := isDot.2
  have dotdots := isDotdot.2
  have same := isName.2
  rw [not_or] at notDots
  rw [namecmp_iff] at dots dotdots same
  by_contra early
  have first : k = 0 ∨ k = 1 := by omega
  rcases first with rfl | rfl
  · simp only [List.getElem?_cons_zero, Option.some.injEq] at at_
    rw [← at_, ← dots] at same
    exact notDots.1 (namecmp_iff.mpr same)
  · simp only [List.getElem?_cons_succ, List.getElem?_cons_zero, Option.some.injEq] at at_
    rw [← at_, ← dotdots] at same
    exact notDots.2 (namecmp_iff.mpr same)

end Shaped

/-! ### Consistent trees -/

def Node.Live (node : Node) : Prop := node.type = T_DIR ∧ 0 < node.nlink.toInt

instance (node : Node) : Decidable node.Live := inferInstanceAs (Decidable (_ ∧ _))

def Node.entry (node : Node) (k : Nat) : Dirent := node.entries.getD k unusedEntry

namespace Tree

def live (tree : Tree) (ninodes : Nat) : Finset Nat :=
  (Finset.range ninodes).filter fun d => (tree d).Live

/-- How many entries of directories with links name `i`, other than `.`. -/
def linksTo (tree : Tree) (ninodes i : Nat) : Nat :=
  ∑ d ∈ tree.live ninodes, (tree d).entries.countP fun de => decide (de.IsLink ∧ de.inum = i)

/-- How many entries of directories with links name `i`, other than `.` and `..`. -/
def childrenAt (tree : Tree) (ninodes i : Nat) : Nat :=
  ∑ d ∈ tree.live ninodes, (tree d).entries.countP fun de => decide (de.IsChild ∧ de.inum = i)

end Tree

/-- The link counts match the entries of the directories with links, of which each begins
with `.` and `..`, and each but the root is named in its parent and nowhere else. -/
structure LinkConsistent (ninodes : Nat) (tree : Tree) : Prop where
  counts : ∀ i < ninodes, (tree i).type ≠ 0 → (tree i).nlink.toInt = tree.linksTo ninodes i
  dot : ∀ d ∈ tree.live ninodes, ((tree d).entry 0).Is dot ∧ ((tree d).entry 0).inum = d
  dotdot : ∀ d ∈ tree.live ninodes, ((tree d).entry 1).Is dotdot
  rootParent : ROOTINO ∈ tree.live ninodes → ((tree ROOTINO).entry 1).inum = ROOTINO
  parent : ∀ d ∈ tree.live ninodes, d ≠ ROOTINO → ((tree d).entry 1).inum ∈ tree.live ninodes ∧
    ∃ de ∈ (tree ((tree d).entry 1).inum).entries, de.IsChild ∧ de.inum = d
  once : ∀ d ∈ tree.live ninodes, d ≠ ROOTINO → tree.childrenAt ninodes d = 1

/-- A tree with right link counts that stays so: the root is a directory that is no
child, `.` and `..` are no other entries, and no entry names a free inode, of which
inode 0 is one. -/
structure TreeConsistent (ninodes : Nat) (tree : Tree) : Prop extends LinkConsistent ninodes tree where
  rootLive : ROOTINO ∈ tree.live ninodes
  rootNamed : tree.childrenAt ninodes ROOTINO = 0
  children : ∀ d ∈ tree.live ninodes, ∀ de ∈ (tree d).entries.drop 2, de.inum ≠ 0 → de.IsChild
  used : ∀ d ∈ tree.live ninodes, ∀ de ∈ (tree d).entries, de.inum ≠ 0 → (tree de.inum).type ≠ 0
  zeroFree : (tree 0).type = 0

/-! ### The hierarchy of a tree -/

def Tree.hierarchy (tree : Tree) (ninodes : Nat) : Hierarchy Nat where
  live := tree.live ninodes
  parent d := ((tree d).entry 1).inum
  children d := inums ((tree d).entries.drop 2)

/-- Consistency in terms of the hierarchy. -/
structure Balanced (ninodes : Nat) (tree : Tree) : Prop where
  sound : (tree.hierarchy ninodes).Sound ROOTINO
  shaped : ∀ d ∈ tree.live ninodes, Shaped d (tree d).entries
  counts : ∀ i, (tree i).type ≠ 0 → (tree i).nlink.toInt = (tree.hierarchy ninodes).links i
  used : ∀ d ∈ tree.live ninodes, ∀ i ∈ (tree.hierarchy ninodes).children d, (tree i).type ≠ 0
  inside : ∀ i, (tree i).type ≠ 0 → i < ninodes
  zeroFree : (tree 0).type = 0

/-- Every directory with links is found from the root, and one without links is empty. -/
structure Orderly (ninodes : Nat) (tree : Tree) : Prop where
  rooted : (tree.hierarchy ninodes).Rooted ROOTINO
  bare : ∀ d, (tree d).type = T_DIR → (tree d).nlink = 0 →
    Shaped d (tree d).entries ∧ (tree.hierarchy ninodes).children d = 0

/-- A change has left a balanced tree, and an orderly one if it was orderly before. -/
structure Follows (ninodes : Nat) (tree tree' : Tree) : Prop where
  balanced : Balanced ninodes tree'
  orderly : Orderly ninodes tree → Orderly ninodes tree'

section

variable {ninodes : Nat} {tree tree' : Tree} {dir d i : Nat}

theorem Follows.trans {tree'' : Tree} (first : Follows ninodes tree tree')
    (second : Follows ninodes tree' tree'') : Follows ninodes tree tree'' :=
  ⟨second.balanced, fun orderly => second.orderly (first.orderly orderly)⟩

theorem Tree.mem_live : d ∈ tree.live ninodes ↔ d < ninodes ∧ (tree d).Live := by
  rw [live, Finset.mem_filter, Finset.mem_range]

theorem Shaped.countP_isLink {entries : List Dirent} (shaped : Shaped d entries) (i : Nat) :
    entries.countP (fun de => decide (de.IsLink ∧ de.inum = i)) =
      (inums (entries.drop 2)).count i + if (entries.getD 1 unusedEntry).inum = i then 1 else 0 := by
  obtain ⟨self, up, rest, rfl, isDot, -, isDotdot, children⟩ := shaped
  have notDot : ¬ namecmp dot up.name := by
    have dotdots := isDotdot.2
    rw [namecmp_iff] at dotdots ⊢
    rw [← dotdots]
    decide
  have restOf : rest.countP (fun de => decide (de.IsLink ∧ de.inum = i)) = (inums rest).count i := by
    rw [count_inums]
    apply List.countP_congr
    intro de member
    simp only [decide_eq_true_eq]
    exact ⟨fun link => ⟨link.1.1, link.2⟩, fun used => ⟨(children de member used.1).1, used.2⟩⟩
  have selfOf : ¬ (self.IsLink ∧ self.inum = i) := fun link => link.1.2 isDot.2
  have upOf : (up.IsLink ∧ up.inum = i) ↔ up.inum = i := and_iff_right ⟨isDotdot.1, notDot⟩
  rw [List.countP_cons, List.countP_cons, restOf]
  simp only [selfOf, upOf, decide_false, Bool.false_eq_true, if_false, Nat.add_zero,
    decide_eq_true_eq]
  rfl

theorem Shaped.countP_isChild {entries : List Dirent} (shaped : Shaped d entries) (i : Nat) :
    entries.countP (fun de => decide (de.IsChild ∧ de.inum = i)) =
      (inums (entries.drop 2)).count i := by
  obtain ⟨self, up, rest, rfl, isDot, -, isDotdot, children⟩ := shaped
  have restOf : rest.countP (fun de => decide (de.IsChild ∧ de.inum = i)) = (inums rest).count i := by
    rw [count_inums]
    apply List.countP_congr
    intro de member
    simp only [decide_eq_true_eq]
    exact ⟨fun child => ⟨child.1.1.1, child.2⟩, fun used => ⟨children de member used.1, used.2⟩⟩
  have selfOf : ¬ (self.IsChild ∧ self.inum = i) := fun child => child.1.1.2 isDot.2
  have upOf : ¬ (up.IsChild ∧ up.inum = i) := fun child => child.1.2 isDotdot.2
  rw [List.countP_cons, List.countP_cons, restOf]
  simp only [selfOf, upOf, decide_false, Bool.false_eq_true, if_false, Nat.add_zero]
  rfl

theorem Tree.linksTo_eq (shaped : ∀ d ∈ tree.live ninodes, Shaped d (tree d).entries) (i : Nat) :
    tree.linksTo ninodes i = (tree.hierarchy ninodes).links i := by
  rw [linksTo, Hierarchy.links, Hierarchy.named, Hierarchy.parented, Finset.card_filter,
    ← Finset.sum_add_distrib]
  exact Finset.sum_congr rfl fun d live => (shaped d live).countP_isLink i

theorem Tree.childrenAt_eq (shaped : ∀ d ∈ tree.live ninodes, Shaped d (tree d).entries) (i : Nat) :
    tree.childrenAt ninodes i = (tree.hierarchy ninodes).named i :=
  Finset.sum_congr rfl fun d live => (shaped d live).countP_isChild i

theorem TreeConsistent.shaped (consistent : TreeConsistent ninodes tree) (d : Nat)
    (live : d ∈ tree.live ninodes) : Shaped d (tree d).entries := by
  have isDot := consistent.dot d live
  have isDotdot := consistent.dotdot d live
  have children := consistent.children d live
  unfold Node.entry at isDot isDotdot
  match entries : (tree d).entries with
  | [] =>
    rw [entries] at isDot
    exact absurd rfl isDot.1.1
  | [self] =>
    rw [entries] at isDotdot
    exact absurd rfl isDotdot.1
  | self :: up :: rest =>
    rw [entries] at isDot isDotdot children
    exact ⟨self, up, rest, rfl, isDot.1, isDot.2, isDotdot, children⟩

theorem TreeConsistent.balanced (consistent : TreeConsistent ninodes tree)
    (inside : ∀ i, (tree i).type ≠ 0 → i < ninodes) : Balanced ninodes tree := by
  have shaped := consistent.shaped
  refine ⟨⟨consistent.rootLive, consistent.rootParent consistent.rootLive, ?_, ?_, ?_⟩, shaped, ?_, ?_,
    inside, consistent.zeroFree⟩
  · rw [← Tree.childrenAt_eq shaped, consistent.rootNamed]
  · intro d live other
    rw [← Tree.childrenAt_eq shaped, consistent.once d live other]
  · intro d live other
    obtain ⟨parentLive, de, member, isChild, isD⟩ := consistent.parent d live other
    refine ⟨parentLive, ?_⟩
    have counted : 0 < (tree ((tree d).entry 1).inum).entries.countP
        fun de => decide (de.IsChild ∧ de.inum = d) :=
      List.countP_pos_iff.mpr ⟨de, member, decide_eq_true ⟨isChild, isD⟩⟩
    rw [(shaped _ parentLive).countP_isChild] at counted
    exact Multiset.count_pos.mp counted
  · intro i allocated
    rw [consistent.counts i (inside i allocated) allocated, Tree.linksTo_eq shaped]
  · intro d live i child
    obtain ⟨de, member, used, rfl⟩ := mem_inums.mp child
    exact consistent.used d live de (List.mem_of_mem_drop member) used

namespace Balanced

variable (balanced : Balanced ninodes tree)
include balanced

/-- Every entry of a directory with links names a node with links. -/
theorem linked (live : d ∈ tree.live ninodes) {de : Dirent} (member : de ∈ (tree d).entries)
    (used : de.inum ≠ 0) : (tree de.inum).type ≠ 0 ∧ 0 < (tree de.inum).nlink.toInt := by
  have ofLive : ∀ e ∈ tree.live ninodes, (tree e).type ≠ 0 ∧ 0 < (tree e).nlink.toInt := by
    intro e isLive
    obtain ⟨-, directory, positive⟩ := Tree.mem_live.mp isLive
    rw [directory]
    exact ⟨by decide, positive⟩
  obtain ⟨self, up, rest, entries, -, isSelf, -, -⟩ := balanced.shaped d live
  have upOf : (tree.hierarchy ninodes).parent d = up.inum := by
    simp only [Tree.hierarchy, Node.entry, entries]
    rfl
  have restOf : (tree.hierarchy ninodes).children d = inums rest := by
    simp only [Tree.hierarchy, entries]
    rfl
  rw [entries] at member
  rcases List.mem_cons.mp member with rfl | isUp | inRest
  · rw [isSelf]
    exact ofLive d live
  · apply ofLive
    rw [← upOf]
    by_cases isRoot : d = ROOTINO
    · rw [isRoot, balanced.sound.rootParent]
      exact balanced.sound.rootLive
    · exact (balanced.sound.parent d live isRoot).1
  · rename_i inRest
    have child : de.inum ∈ (tree.hierarchy ninodes).children d := by
      rw [restOf]
      exact mem_inums.mpr ⟨de, inRest, used, rfl⟩
    have allocated := balanced.used d live _ child
    have positive := Hierarchy.named_pos (h := tree.hierarchy ninodes) live child
    refine ⟨allocated, ?_⟩
    rw [balanced.counts _ allocated, Hierarchy.links]
    omega

theorem treeConsistent : TreeConsistent ninodes tree := by
  have shaped := balanced.shaped
  have sound := balanced.sound
  have begins : ∀ d ∈ tree.live ninodes, (((tree d).entry 0).Is dot ∧ ((tree d).entry 0).inum = d) ∧
      ((tree d).entry 1).Is dotdot ∧ ∀ de ∈ (tree d).entries.drop 2, de.inum ≠ 0 → de.IsChild := by
    intro d live
    obtain ⟨self, up, rest, entries, isDot, isSelf, isDotdot, children⟩ := shaped d live
    rw [Node.entry, Node.entry, entries]
    exact ⟨⟨isDot, isSelf⟩, isDotdot, children⟩
  refine { counts := ?_, dot := fun d live => (begins d live).1,
           dotdot := fun d live => (begins d live).2.1, rootParent := fun _ => sound.rootParent,
           parent := ?_, once := ?_, rootLive := sound.rootLive, rootNamed := ?_,
           children := fun d live => (begins d live).2.2, used := ?_, zeroFree := balanced.zeroFree }
  · intro i _ allocated
    rw [balanced.counts i allocated, Tree.linksTo_eq shaped]
  · intro d live other
    obtain ⟨parentLive, child⟩ := sound.parent d live other
    refine ⟨parentLive, ?_⟩
    obtain ⟨de, member, used, isD⟩ := mem_inums.mp child
    exact ⟨de, List.mem_of_mem_drop member, (begins _ parentLive).2.2 de member used, isD⟩
  · intro d live other
    rw [Tree.childrenAt_eq shaped, sound.once d live other]
  · rw [Tree.childrenAt_eq shaped, sound.rootNamed]
  · intro d live de member used
    exact (balanced.linked live member used).1

end Balanced

theorem Tree.notMem_live_of_unlinked (unlinked : (tree d).nlink = 0) : d ∉ tree.live ninodes := by
  intro live
  have positive := (Tree.mem_live.mp live).2.2
  rw [unlinked] at positive
  exact absurd positive (by decide)

theorem Balanced.follows (balanced : Balanced ninodes tree) : Follows ninodes tree tree :=
  ⟨balanced, id⟩

/-! ### Reaping -/

theorem Reaped.eq_of_live (reaped : Reaped tree tree') (live : (tree d).Live) : tree' d = tree d := by
  apply reaped.eq_of_links
  intro unlinked
  have positive := live.2
  rw [unlinked] at positive
  exact absurd positive (by decide)

theorem Reaped.live_eq (reaped : Reaped tree tree') : tree'.live ninodes = tree.live ninodes := by
  ext d
  rw [Tree.mem_live, Tree.mem_live]
  refine and_congr_right fun _ => ⟨fun live => ?_, fun live => ?_⟩
  · rw [← reaped.eq_of_allocated]
    · exact live
    · rw [live.1]
      decide
  · rw [reaped.eq_of_live live]
    exact live

theorem Reaped.agrees (reaped : Reaped tree tree') :
    Hierarchy.Agrees (tree.hierarchy ninodes) (tree'.hierarchy ninodes) := by
  have same : ∀ d ∈ tree.live ninodes, tree' d = tree d :=
    fun d live => reaped.eq_of_live (Tree.mem_live.mp live).2
  refine ⟨reaped.live_eq, fun d live => ?_, fun d live => ?_⟩
  · simp only [Tree.hierarchy, same d live]
  · simp only [Tree.hierarchy, same d live]

theorem Orderly.reaped (orderly : Orderly ninodes tree) (reaped : Reaped tree tree') :
    Orderly ninodes tree' := by
  refine ⟨reaped.agrees.rooted orderly.rooted, fun d directory unlinked => ?_⟩
  have same : tree' d = tree d := by
    apply reaped.eq_of_allocated
    rw [directory]
    decide
  rw [same] at directory unlinked ⊢
  have bare := orderly.bare d directory unlinked
  simp only [Tree.hierarchy, same] at bare ⊢
  exact bare

theorem Balanced.reaped (balanced : Balanced ninodes tree) (reaped : Reaped tree tree') :
    Balanced ninodes tree' := by
  have isLive : tree'.live ninodes = tree.live ninodes := reaped.live_eq
  have same : ∀ d ∈ tree.live ninodes, tree' d = tree d :=
    fun d live => reaped.eq_of_live (Tree.mem_live.mp live).2
  have agrees : Hierarchy.Agrees (tree.hierarchy ninodes) (tree'.hierarchy ninodes) := reaped.agrees
  refine ⟨agrees.sound balanced.sound, ?_, ?_, ?_, ?_, ?_⟩
  · intro d live
    rw [isLive] at live
    rw [same d live]
    exact balanced.shaped d live
  · intro i allocated
    have isOld := reaped.eq_of_allocated allocated
    rw [isOld] at allocated ⊢
    rw [agrees.links, balanced.counts i allocated]
  · intro d live i child
    rw [isLive] at live
    rw [agrees.children d live] at child
    have allocated := balanced.used d live i child
    -- a node that is named has links, so it was not freed
    have linked : (tree i).nlink ≠ 0 := by
      intro unlinked
      have count := balanced.counts i allocated
      have named := Hierarchy.named_pos (h := tree.hierarchy ninodes) live child
      have none : (0 : BitVec 16).toInt = 0 := rfl
      rw [unlinked, none, Hierarchy.links] at count
      omega
    rw [reaped.eq_of_links linked]
    exact allocated
  · intro i allocated
    rw [reaped.eq_of_allocated allocated] at allocated
    exact balanced.inside i allocated
  · by_contra allocated
    rw [reaped.eq_of_allocated allocated] at allocated
    exact allocated balanced.zeroFree

theorem Balanced.follows_reaped (balanced : Balanced ninodes tree) (reaped : Reaped tree tree') :
    Follows ninodes tree tree' :=
  ⟨balanced.reaped reaped, fun orderly => orderly.reaped reaped⟩

/-! ### One more entry -/

/-- The directory `dir` of `tree'` has one more entry, for the node `i`. Only these two
nodes differ. -/
structure Inserts (ninodes : Nat) (tree tree' : Tree) (dir i : Nat) : Prop where
  dirLive : dir ∈ tree.live ninodes
  dirLive' : dir ∈ tree'.live ninodes
  shaped : Shaped dir (tree dir).entries
  apart : i ≠ dir
  others : ∀ d, d ≠ dir → d ≠ i → tree' d = tree d
  entry : ∃ k de, Gap (tree dir).entries k ∧ de.IsChild ∧ de.inum = i ∧
    (tree' dir).entries = putEntry (tree dir).entries k de

namespace Inserts

variable (inserts : Inserts ninodes tree tree' dir i)
include inserts

theorem live_iff (other : d ≠ i) : d ∈ tree'.live ninodes ↔ d ∈ tree.live ninodes := by
  by_cases isDir : d = dir
  · rw [isDir]
    exact iff_of_true inserts.dirLive' inserts.dirLive
  · rw [Tree.mem_live, Tree.mem_live, inserts.others d isDir other]

theorem allocated_iff (other : d ≠ i) : (tree' d).type ≠ 0 ↔ (tree d).type ≠ 0 := by
  by_cases isDir : d = dir
  · rw [isDir, (Tree.mem_live.mp inserts.dirLive).2.1, (Tree.mem_live.mp inserts.dirLive').2.1]
  · rw [inserts.others d isDir other]

theorem ne_zero : i ≠ 0 := by
  obtain ⟨k, de, -, isChild, rfl, -⟩ := inserts.entry
  exact isChild.1.1

theorem zeroFree_iff : (tree' 0).type = 0 ↔ (tree 0).type = 0 :=
  not_iff_not.mp (inserts.allocated_iff (Ne.symm inserts.ne_zero))

theorem shaped' : Shaped dir (tree' dir).entries := by
  obtain ⟨k, de, gap, isChild, -, entries⟩ := inserts.entry
  rw [entries]
  exact inserts.shaped.put (inserts.shaped.two_le_of_gap gap) fun _ => isChild

theorem children :
    (tree'.hierarchy ninodes).children dir = i ::ₘ (tree.hierarchy ninodes).children dir := by
  obtain ⟨k, de, gap, isChild, rfl, entries⟩ := inserts.entry
  simp only [Tree.hierarchy, entries]
  exact inserts.shaped.inums_drop_put gap isChild.1.1

theorem children_other (notDir : d ≠ dir) (other : d ≠ i) :
    (tree'.hierarchy ninodes).children d = (tree.hierarchy ninodes).children d := by
  simp only [Tree.hierarchy, inserts.others d notDir other]

theorem parent (other : d ≠ i) :
    (tree'.hierarchy ninodes).parent d = (tree.hierarchy ninodes).parent d := by
  by_cases isDir : d = dir
  · obtain ⟨k, de, gap, -, -, entries⟩ := inserts.entry
    simp only [Tree.hierarchy, Node.entry, isDir, entries]
    rw [inserts.shaped.getD_one_put (inserts.shaped.two_le_of_gap gap)]
  · simp only [Tree.hierarchy, inserts.others d isDir other]

theorem adds (new : i ∉ tree.live ninodes) (new' : i ∉ tree'.live ninodes) :
    Hierarchy.Adds (tree.hierarchy ninodes) (tree'.hierarchy ninodes) dir i := by
  refine ⟨?_, inserts.dirLive, ?_, inserts.children, ?_⟩
  · ext d
    by_cases isI : d = i
    · rw [isI]
      exact iff_of_false new' new
    · exact inserts.live_iff isI
  · exact fun e live => inserts.parent fun same => new (same ▸ live)
  · exact fun e live notDir => inserts.children_other notDir fun same => new (same ▸ live)

theorem addsDirectory (new : i ∉ tree.live ninodes) (isLive : i ∈ tree'.live ninodes)
    (up : (tree'.hierarchy ninodes).parent i = dir)
    (empty : (tree'.hierarchy ninodes).children i = 0) :
    Hierarchy.AddsDirectory (tree.hierarchy ninodes) (tree'.hierarchy ninodes) dir i := by
  refine ⟨?_, new, inserts.dirLive, up, ?_, empty, inserts.children, ?_⟩
  · ext d
    rw [Finset.mem_insert]
    by_cases isI : d = i
    · rw [isI]
      exact iff_of_true isLive (Or.inl rfl)
    · rw [or_iff_right isI]
      exact inserts.live_iff isI
  · exact fun e live => inserts.parent fun same => new (same ▸ live)
  · exact fun e live notDir => inserts.children_other notDir fun same => new (same ▸ live)

theorem balanced (balanced : Balanced ninodes tree) (inside : i < ninodes)
    (allocated : (tree' i).type ≠ 0) (sound : (tree'.hierarchy ninodes).Sound ROOTINO)
    (new : i ∈ tree'.live ninodes → Shaped i (tree' i).entries ∧
      (tree'.hierarchy ninodes).children i = 0)
    (counts : ∀ j, (tree' j).type ≠ 0 → (tree' j).nlink.toInt = (tree'.hierarchy ninodes).links j) :
    Balanced ninodes tree' := by
  refine ⟨sound, ?_, counts, ?_, ?_, inserts.zeroFree_iff.mpr balanced.zeroFree⟩
  · intro d live
    by_cases isI : d = i
    · rw [isI] at live ⊢
      exact (new live).1
    · by_cases isDir : d = dir
      · rw [isDir]
        exact inserts.shaped'
      · rw [inserts.others d isDir isI]
        exact balanced.shaped d ((inserts.live_iff isI).mp live)
  · intro d live c child
    by_cases isNew : c = i
    · rw [isNew]
      exact allocated
    · rw [inserts.allocated_iff isNew]
      by_cases isI : d = i
      · rw [isI] at live child
        rw [(new live).2] at child
        exact absurd child (Multiset.notMem_zero c)
      · apply balanced.used d ((inserts.live_iff isI).mp live)
        by_cases isDir : d = dir
        · rw [isDir, inserts.children, Multiset.mem_cons, or_iff_right isNew] at child
          rw [isDir]
          exact child
        · rw [inserts.children_other isDir isI] at child
          exact child
  · intro j isAllocated
    by_cases isI : j = i
    · rw [isI]
      exact inside
    · exact balanced.inside j ((inserts.allocated_iff isI).mp isAllocated)

theorem balanced_removed (balanced : Balanced ninodes tree') (allocated : (tree i).type ≠ 0)
    (dead : i ∉ tree.live ninodes) (sound : (tree.hierarchy ninodes).Sound ROOTINO)
    (counts : ∀ j, (tree j).type ≠ 0 → (tree j).nlink.toInt = (tree.hierarchy ninodes).links j) :
    Balanced ninodes tree := by
  have ne_of_live : ∀ d ∈ tree.live ninodes, d ≠ i := fun d live same => dead (same ▸ live)
  have named : i ∈ (tree'.hierarchy ninodes).children dir := by
    rw [inserts.children]
    exact Multiset.mem_cons_self _ _
  refine ⟨sound, ?_, counts, ?_, ?_, inserts.zeroFree_iff.mp balanced.zeroFree⟩
  · intro d live
    by_cases isDir : d = dir
    · rw [isDir]
      exact inserts.shaped
    · have isI := ne_of_live d live
      rw [← inserts.others d isDir isI]
      exact balanced.shaped d ((inserts.live_iff isI).mpr live)
  · intro d live c child
    by_cases isOld : c = i
    · rw [isOld]
      exact allocated
    · have isI := ne_of_live d live
      rw [← inserts.allocated_iff isOld]
      apply balanced.used d ((inserts.live_iff isI).mpr live)
      by_cases isDir : d = dir
      · rw [isDir] at child ⊢
        rw [inserts.children]
        exact Multiset.mem_cons_of_mem child
      · rw [inserts.children_other isDir isI]
        exact child
  · intro j isAllocated
    by_cases isI : j = i
    · rw [isI]
      exact balanced.inside i (balanced.used dir inserts.dirLive' i named)
    · exact balanced.inside j ((inserts.allocated_iff isI).mpr isAllocated)

/-- A directory without links, other than `i`, is the same in both. -/
theorem eq_of_dead (other : d ≠ i) (dead : d ∉ tree.live ninodes) : tree' d = tree d :=
  inserts.others d (fun isDir => dead (isDir ▸ inserts.dirLive)) other

theorem orderly (orderly : Orderly ninodes tree) (rooted : (tree'.hierarchy ninodes).Rooted ROOTINO)
    (new : (tree' i).type = T_DIR → (tree' i).nlink ≠ 0) : Orderly ninodes tree' := by
  refine ⟨rooted, fun d directory unlinked => ?_⟩
  have isOther : d ≠ i := by
    rintro rfl
    exact new directory unlinked
  have same : tree' d = tree d := by
    apply inserts.eq_of_dead isOther
    rw [← inserts.live_iff isOther]
    exact Tree.notMem_live_of_unlinked unlinked
  rw [same] at directory unlinked ⊢
  have bare := orderly.bare d directory unlinked
  simp only [Tree.hierarchy, same] at bare ⊢
  exact bare

theorem orderly_removed (orderly : Orderly ninodes tree')
    (rooted : (tree.hierarchy ninodes).Rooted ROOTINO)
    (old : (tree i).type = T_DIR →
      Shaped i (tree i).entries ∧ (tree.hierarchy ninodes).children i = 0) :
    Orderly ninodes tree := by
  refine ⟨rooted, fun d directory unlinked => ?_⟩
  by_cases isI : d = i
  · rw [isI] at directory ⊢
    exact old directory
  · have same : tree' d = tree d :=
      inserts.eq_of_dead isI (Tree.notMem_live_of_unlinked unlinked)
    have bare := orderly.bare d
    simp only [Tree.hierarchy, same] at bare ⊢
    exact bare directory unlinked

end Inserts

/-! ### Link counts -/

theorem toInt_add_one {count : BitVec 16} (small : count.toInt < 32767) :
    (count + 1).toInt = count.toInt + 1 := by
  have low := BitVec.le_toInt count
  have one : (1 : BitVec 16).toInt = 1 := rfl
  rw [BitVec.toInt_add, one, Int.bmod_eq_of_le]
  · omega
  · omega

theorem toInt_sub_one {count : BitVec 16} (positive : 0 < count.toInt) :
    (count + -1).toInt = count.toInt - 1 := by
  have high := BitVec.toInt_lt (x := count)
  have one : (-1 : BitVec 16).toInt = -1 := rfl
  rw [BitVec.toInt_add, one, Int.bmod_eq_of_le]
  · omega
  · omega
  · omega

namespace Inserts

variable (inserts : Inserts ninodes tree tree' dir i)
include inserts

/-- A node that is not a directory was added or linked. -/
theorem follows_plain (balanced : Balanced ninodes tree) (inside : i < ninodes)
    (plain : (tree i).type ≠ T_DIR) (plain' : (tree' i).type ≠ T_DIR) (allocated : (tree' i).type ≠ 0)
    (dirCount : (tree' dir).nlink = (tree dir).nlink)
    (count : (tree' i).nlink.toInt = (tree.hierarchy ninodes).links i + 1) :
    Follows ninodes tree tree' := by
  have new : i ∉ tree.live ninodes := fun live => plain (Tree.mem_live.mp live).2.1
  have new' : i ∉ tree'.live ninodes := fun live => plain' (Tree.mem_live.mp live).2.1
  have adds := inserts.adds new new'
  refine ⟨?_, fun orderly => inserts.orderly orderly ((adds.rooted_iff new).mpr orderly.rooted)
    fun directory => absurd directory plain'⟩
  apply inserts.balanced balanced inside allocated ((adds.sound_iff new).mpr balanced.sound)
  · exact fun live => absurd live new'
  · intro j isAllocated
    rw [adds.links]
    by_cases isI : j = i
    · rw [isI, count, if_pos rfl]
      omega
    · rw [if_neg isI, Nat.add_zero, ← balanced.counts j ((inserts.allocated_iff isI).mp isAllocated)]
      by_cases isDir : j = dir
      · rw [isDir, dirCount]
      · rw [inserts.others j isDir isI]

theorem follows_directory (balanced : Balanced ninodes tree) (inside : i < ninodes)
    (free : (tree i).type = 0) (fresh : (tree.hierarchy ninodes).named i = 0)
    (shaped : Shaped i (tree' i).entries) (live : (tree' i).Live)
    (up : (tree'.hierarchy ninodes).parent i = dir)
    (empty : (tree'.hierarchy ninodes).children i = 0)
    (dirCount : (tree' dir).nlink.toInt = (tree dir).nlink.toInt + 1)
    (count : (tree' i).nlink.toInt = (tree.hierarchy ninodes).links i + 1) :
    Follows ninodes tree tree' := by
  have new : i ∉ tree.live ninodes := by
    intro live
    rw [(Tree.mem_live.mp live).2.1] at free
    exact absurd free (by decide)
  have isLive : i ∈ tree'.live ninodes := Tree.mem_live.mpr ⟨inside, live⟩
  have adds := inserts.addsDirectory new isLive up empty
  refine ⟨?_, fun orderly => inserts.orderly orderly (adds.rooted orderly.rooted)
    fun _ unlinked => Tree.notMem_live_of_unlinked unlinked isLive⟩
  apply inserts.balanced balanced inside _ (adds.sound fresh balanced.sound)
  · exact fun _ => ⟨shaped, empty⟩
  · intro j isAllocated
    rw [adds.links]
    by_cases isI : j = i
    · rw [isI, count, if_pos rfl, if_neg inserts.apart]
      omega
    · have isCount := balanced.counts j ((inserts.allocated_iff isI).mp isAllocated)
      by_cases isDir : j = dir
      · rw [isDir] at isCount ⊢
        rw [dirCount, if_pos rfl, if_neg (Ne.symm inserts.apart), isCount]
        omega
      · rw [inserts.others j isDir isI, if_neg isI, if_neg isDir, isCount]
        omega
  · rw [live.1]
    decide

theorem follows_unlinked (balanced : Balanced ninodes tree') (plain : (tree i).type ≠ T_DIR)
    (type : (tree' i).type = (tree i).type) (allocated : (tree i).type ≠ 0)
    (dirCount : (tree' dir).nlink = (tree dir).nlink)
    (count : (tree' i).nlink.toInt = (tree i).nlink.toInt + 1) : Follows ninodes tree' tree := by
  have dead : i ∉ tree.live ninodes := fun live => plain (Tree.mem_live.mp live).2.1
  have dead' : i ∉ tree'.live ninodes := fun live => plain (type ▸ (Tree.mem_live.mp live).2.1)
  have adds := inserts.adds dead dead'
  refine ⟨?_, fun orderly => inserts.orderly_removed orderly
    ((adds.rooted_iff dead).mp orderly.rooted) fun directory => absurd directory plain⟩
  apply inserts.balanced_removed balanced allocated dead ((adds.sound_iff dead).mp balanced.sound)
  intro j isAllocated
  have isLinks := adds.links j
  by_cases isI : j = i
  · rw [isI] at isLinks ⊢
    have isCount := balanced.counts i (type ▸ allocated)
    rw [if_pos rfl] at isLinks
    rw [isLinks] at isCount
    omega
  · have isCount := balanced.counts j ((inserts.allocated_iff isI).mpr isAllocated)
    rw [if_neg isI, Nat.add_zero] at isLinks
    rw [isLinks] at isCount
    rw [← isCount]
    by_cases isDir : j = dir
    · rw [isDir, dirCount]
    · rw [inserts.others j isDir isI]

theorem follows_unlinkedDirectory (balanced : Balanced ninodes tree') (live : i ∈ tree'.live ninodes)
    (allocated : (tree i).type ≠ 0) (dead : i ∉ tree.live ninodes)
    (entries : (tree i).entries = (tree' i).entries)
    (empty : (tree'.hierarchy ninodes).children i = 0)
    (dirCount : (tree' dir).nlink.toInt = (tree dir).nlink.toInt + 1)
    (count : (tree' i).nlink.toInt = (tree i).nlink.toInt + 1) : Follows ninodes tree' tree := by
  have child : i ∈ (tree'.hierarchy ninodes).children dir := by
    rw [inserts.children]
    exact Multiset.mem_cons_self _ _
  have notRoot := balanced.sound.ne_root inserts.dirLive' child
  have up := balanced.sound.eq_parent live notRoot inserts.dirLive' child
  have adds := inserts.addsDirectory dead live up empty
  have bare : Shaped i (tree i).entries ∧ (tree.hierarchy ninodes).children i = 0 := by
    simp only [Tree.hierarchy, entries] at empty ⊢
    exact ⟨balanced.shaped i live, empty⟩
  refine ⟨?_, fun orderly => inserts.orderly_removed orderly (adds.rooted_removed orderly.rooted)
    fun _ => bare⟩
  apply inserts.balanced_removed balanced allocated dead (adds.sound_removed notRoot balanced.sound)
  intro j isAllocated
  have isLinks := adds.links j
  by_cases isI : j = i
  · rw [isI] at isLinks ⊢
    have isCount := balanced.counts i (balanced.used dir inserts.dirLive' i child)
    rw [if_pos rfl, if_neg inserts.apart] at isLinks
    omega
  · have isCount := balanced.counts j ((inserts.allocated_iff isI).mpr isAllocated)
    rw [if_neg isI] at isLinks
    by_cases isDir : j = dir
    · rw [isDir] at isLinks isCount ⊢
      rw [if_pos rfl] at isLinks
      omega
    · rw [if_neg isDir] at isLinks
      rw [inserts.others j isDir isI] at isCount
      omega

end Inserts

/-! ### Making nodes -/

theorem Gap.eq_length {entries : List Dirent} {k : Nat} (gap : Gap entries k)
    (full : ∀ de ∈ entries, de.inum ≠ 0) : k = entries.length := by
  rcases gap with isLength | ⟨de, at_, unused⟩
  · exact isLength
  · exact absurd unused (full de (List.mem_of_getElem? at_))

/-- The new node and its directory when the entries `.` and `..` are made. -/
theorem Dotted.nodes {type : BitVec 16} (apart : i ≠ dir) (positive : 0 < i) (small : i < 65536)
    (dotted : Dotted (update tree i ⟨type, 1, []⟩) dir i type tree') :
    (∀ d, d ≠ dir → d ≠ i → tree' d = tree d) ∧
    tree' dir = ⟨(tree dir).type, if type = T_DIR then (tree dir).nlink + 1 else (tree dir).nlink,
      (tree dir).entries⟩ ∧
    tree' i = ⟨type, 1, if type = T_DIR then [storedEntry i dot, storedEntry dir dotdot] else []⟩ := by
  unfold Dotted at dotted
  split at dotted
  · rename_i directory
    obtain ⟨middle, ⟨-, -, j, gap, rfl⟩, -, -, k, gap', rfl⟩ := dotted
    have first : j = 0 := by
      refine (gap.eq_length ?_).trans ?_
      · simp [Tree.addLinks, update_of_ne apart]
      · simp [Tree.addLinks, update_of_ne apart]
    have second : k = 1 := by
      refine (gap'.eq_length fun de member => ?_).trans ?_
      · have isDot : de = storedEntry i dot := by
          simpa [first, Tree.setEntry, Tree.addLinks, update_of_ne apart, putEntry] using member
        rw [isDot]
        simp only [storedEntry]
        omega
      · simp [first, Tree.setEntry, Tree.addLinks, update_of_ne apart, putEntry]
    rw [first, second]
    refine ⟨fun d notDir notI => ?_, ?_, ?_⟩
    · simp [Tree.setEntry, Tree.addLinks, notDir, notI]
    · simp [Tree.setEntry, Tree.addLinks, Ne.symm apart, directory]
    · simp [Tree.setEntry, Tree.addLinks, apart, directory, putEntry]
  · rename_i plain
    rw [dotted]
    refine ⟨fun d _ notI => update_of_ne notI _ _, ?_, ?_⟩
    · rw [update_of_ne (Ne.symm apart), if_neg plain]
    · rw [update_self, if_neg plain]

theorem Balanced.links_of_free (balanced : Balanced ninodes tree) (free : (tree i).type = 0) :
    (tree.hierarchy ninodes).named i = 0 ∧ (tree.hierarchy ninodes).links i = 0 := by
  have notLive : i ∉ tree.live ninodes := by
    intro live
    rw [(Tree.mem_live.mp live).2.1] at free
    exact absurd free (by decide)
  have unnamed : (tree.hierarchy ninodes).named i = 0 := by
    apply Finset.sum_eq_zero
    intro d live
    apply Multiset.count_eq_zero_of_notMem
    exact fun child => balanced.used d live i child free
  refine ⟨unnamed, ?_⟩
  rw [Hierarchy.links, unnamed, balanced.sound.parented_eq_zero notLive]

theorem Balanced.makes (balanced : Balanced ninodes tree) (small : ninodes ≤ 65536)
    {type : BitVec 16} (allocated : type ≠ 0) (linked : 0 < (tree dir).nlink.toInt)
    (room : (tree dir).type ≠ 0 → (tree dir).nlink.toInt < 32767)
    (makes : Makes ninodes tree dir name type tree') : Follows ninodes tree tree' := by
  obtain ⟨i, dotted, positive, inside, free, apart, isDotted, isDir, absent, k, gap, rfl⟩ := makes
  obtain ⟨others, parentNode, newNode⟩ := isDotted.nodes apart positive (by omega)
  have notDir := Ne.symm apart
  rw [parentNode] at isDir absent gap
  have dirAllocated : (tree dir).type ≠ 0 := by
    rw [isDir]
    decide
  have live : dir ∈ tree.live ninodes :=
    Tree.mem_live.mpr ⟨balanced.inside dir dirAllocated, isDir, linked⟩
  have dirInside := (Tree.mem_live.mp live).1
  have shaped := balanced.shaped dir live
  have isChild := shaped.isChild_of_absent absent positive (by omega)
  have atDir : (dotted.setEntry dir k (storedEntry i name)) dir =
      ⟨(tree dir).type, if type = T_DIR then (tree dir).nlink + 1 else (tree dir).nlink,
        putEntry (tree dir).entries k (storedEntry i name)⟩ := by
    rw [Tree.setEntry, update_self, parentNode]
  have atNew : (dotted.setEntry dir k (storedEntry i name)) i = dotted i := by
    rw [Tree.setEntry, update_of_ne apart]
  rw [newNode] at atNew
  obtain ⟨fresh, unlinked⟩ := balanced.links_of_free free
  have dirCount := toInt_add_one (room dirAllocated)
  have inserts : Inserts ninodes tree (dotted.setEntry dir k (storedEntry i name)) dir i := by
    refine ⟨live, ?_, shaped, apart, ?_, k, storedEntry i name, gap, isChild, ?_, ?_⟩
    · rw [Tree.mem_live, atDir]
      refine ⟨dirInside, isDir, ?_⟩
      by_cases directory : type = T_DIR
      · rw [if_pos directory, dirCount]
        omega
      · rw [if_neg directory]
        exact linked
    · intro d isOther isOld
      rw [Tree.setEntry, update_of_ne isOther, others d isOther isOld]
    · exact Nat.mod_eq_of_lt (by omega)
    · rw [atDir]
  have count : ((dotted.setEntry dir k (storedEntry i name)) i).nlink.toInt =
      (tree.hierarchy ninodes).links i + 1 := by
    rw [atNew, unlinked]
    rfl
  by_cases directory : type = T_DIR
  · rw [if_pos directory] at atNew
    have isUsed : (storedEntry dir dotdot).inum = dir := Nat.mod_eq_of_lt (by omega)
    have isSelf : (storedEntry i dot).inum = i := Nat.mod_eq_of_lt (by omega)
    have isDotName : namecmp dot (strncpyName dot) = true := by decide
    have isDotdotName : namecmp dotdot (strncpyName dotdot) = true := by decide
    have single : 0 < (1 : BitVec 16).toInt := by decide
    have dirUsed : dir ≠ 0 := by
      obtain ⟨self, -, -, -, isDot, same, -, -⟩ := shaped
      exact same ▸ isDot.1
    apply inserts.follows_directory balanced inside free fresh
    · rw [atNew]
      refine ⟨_, _, [], rfl, ⟨?_, isDotName⟩, isSelf, ⟨?_, isDotdotName⟩, fun _ member => ?_⟩
      · rw [isSelf]
        omega
      · rw [isUsed]
        exact dirUsed
      · cases member
    · rw [atNew]
      exact ⟨directory, single⟩
    · simp only [Tree.hierarchy, atNew, Node.entry]
      exact isUsed
    · simp only [Tree.hierarchy, atNew]
      rfl
    · rw [atDir, if_pos directory]
      exact dirCount
    · exact count
  · apply inserts.follows_plain balanced inside
    · rw [free]
      decide
    · rw [atNew]
      exact directory
    · rw [atNew]
      exact allocated
    · rw [atDir, if_neg directory]
    · exact count

/-! ### Linking -/

theorem Tree.addLinks_cancel (tree : Tree) (i : Nat) : (tree.addLinks i 1).addLinks i (-1) = tree := by
  have back : (tree i).nlink + 1 + -1 = (tree i).nlink := by
    rw [BitVec.add_assoc]
    exact BitVec.add_zero _
  rw [addLinks, addLinks, update_self, update_idem, back]
  exact update_eq_self i tree

/-- While a link is counted that is not made, the tree is balanced but for that. -/
theorem Balanced.counted (balanced : Balanced ninodes tree) (allocated : (tree i).type ≠ 0)
    (room : (tree i).nlink.toInt < 32767) (reaped : Reaped (tree.addLinks i 1) tree') :
    Follows ninodes tree (tree'.addLinks i (-1)) ∧
      tree' i = ⟨(tree i).type, (tree i).nlink + 1, (tree i).entries⟩ := by
  have count := balanced.counts i allocated
  have more := toInt_add_one room
  have atI : (tree.addLinks i 1) i = ⟨(tree i).type, (tree i).nlink + 1, (tree i).entries⟩ :=
    update_self _ _ _
  have linked : ((tree.addLinks i 1) i).nlink ≠ 0 := by
    rw [atI]
    intro isZero
    have none : (0 : BitVec 16).toInt = 0 := rfl
    simp only at isZero
    rw [isZero, none] at more
    omega
  have same := reaped.eq_of_links linked
  refine ⟨?_, ?_⟩
  · apply balanced.follows_reaped
    have cancelled := reaped.addLinks same (-1)
    rw [Tree.addLinks_cancel] at cancelled
    exact cancelled
  · rw [same, atI]

theorem Balanced.enters (balanced : Balanced ninodes (tree.addLinks i (-1)))
    (small : ninodes ≤ 65536) (plain : (tree i).type ≠ T_DIR) (allocated : (tree i).type ≠ 0)
    (positive : 0 < (tree i).nlink.toInt) (linked : 0 < (tree dir).nlink.toInt) (used : 0 < i)
    (enters : Enters tree dir i name tree') :
    Follows ninodes (tree.addLinks i (-1)) tree' := by
  obtain ⟨isDir, absent, k, gap, rfl⟩ := enters
  have apart : i ≠ dir := by
    rintro rfl
    exact plain isDir
  have sameDir : (tree.addLinks i (-1)) dir = tree dir := update_of_ne (Ne.symm apart) _ _
  have atI : (tree.addLinks i (-1)) i = ⟨(tree i).type, (tree i).nlink + -1, (tree i).entries⟩ :=
    update_self _ _ _
  have inside : i < ninodes := by
    apply balanced.inside
    rw [atI]
    exact allocated
  have live : dir ∈ (tree.addLinks i (-1)).live ninodes := by
    have isAllocated : (tree dir).type ≠ 0 := by
      rw [isDir]
      decide
    rw [Tree.mem_live, sameDir]
    refine ⟨balanced.inside dir ?_, isDir, linked⟩
    rw [sameDir]
    exact isAllocated
  have shaped := balanced.shaped dir live
  rw [← sameDir] at gap absent
  have isChild := shaped.isChild_of_absent absent used (by omega)
  have atDir : (tree.setEntry dir k (storedEntry i name)) dir =
      ⟨(tree dir).type, (tree dir).nlink, putEntry (tree dir).entries k (storedEntry i name)⟩ := by
    rw [Tree.setEntry, update_self]
  have inserts : Inserts ninodes (tree.addLinks i (-1)) (tree.setEntry dir k (storedEntry i name))
      dir i := by
    refine ⟨live, ?_, shaped, apart, ?_, k, storedEntry i name, gap, isChild, ?_, ?_⟩
    · rw [Tree.mem_live, atDir]
      exact ⟨(Tree.mem_live.mp live).1, isDir, linked⟩
    · intro d isOther isOld
      rw [Tree.setEntry, update_of_ne isOther, Tree.addLinks, update_of_ne isOld]
    · exact Nat.mod_eq_of_lt (by omega)
    · rw [atDir, sameDir]
  have count := balanced.counts i
  rw [atI] at count
  have same : (tree.setEntry dir k (storedEntry i name)) i = tree i := by
    rw [Tree.setEntry, update_of_ne apart]
  apply inserts.follows_plain balanced inside
  · rw [atI]
    exact plain
  · rw [same]
    exact plain
  · rw [same]
    exact allocated
  · rw [atDir, sameDir]
  · rw [same, ← count allocated, toInt_sub_one positive]
    omega

/-! ### Unlinking -/

theorem putEntry_putEntry {entries : List Dirent} {k : Nat} {old new : Dirent}
    (at_ : entries[k]? = some old) : putEntry (putEntry entries k new) k old = entries := by
  obtain ⟨below, rfl⟩ := List.getElem?_eq_some_iff.mp at_
  have length : (entries.take k).length = k := by
    rw [List.length_take]
    omega
  have front : (putEntry entries k new).take k = entries.take k := by
    rw [putEntry, List.take_append_of_le_length (by omega), List.take_of_length_le (by omega)]
  have back : (putEntry entries k new).drop (k + 1) = entries.drop (k + 1) := by
    rw [putEntry, List.drop_append, length, List.drop_eq_nil_of_le (by omega),
      Nat.add_sub_cancel_left]
    rfl
  rw [putEntry, front, back, ← List.drop_eq_getElem_cons below, List.take_append_drop]

theorem gap_putEntry {entries : List Dirent} {k : Nat} (below : k ≤ entries.length) :
    Gap (putEntry entries k unusedEntry) k := by
  refine Or.inr ⟨unusedEntry, ?_, rfl⟩
  rw [putEntry, List.getElem?_append_right (by simp), List.length_take, Nat.min_eq_left below,
    Nat.sub_self]
  rfl

theorem Shaped.isChild {entries : List Dirent} {k : Nat} {de : Dirent} (shaped : Shaped d entries)
    (place : 2 ≤ k) (at_ : entries[k]? = some de) (used : de.inum ≠ 0) :
    de.IsChild ∧ de.inum ∈ inums (entries.drop 2) := by
  obtain ⟨self, up, rest, rfl, -, -, -, children⟩ := shaped
  obtain ⟨k, rfl⟩ : ∃ rest, k = rest + 2 := ⟨k - 2, by omega⟩
  have member : de ∈ rest := List.mem_of_getElem? at_
  exact ⟨children de member used, mem_inums.mpr ⟨de, member, used, rfl⟩⟩

theorem Balanced.unlinks (balanced : Balanced ninodes tree) (linked : 0 < (tree dir).nlink.toInt)
    (unlinks : UnlinksName tree dir name tree') :
    Follows ninodes tree tree' := by
  obtain ⟨isDir, notDots, k, de, at_, isName, isEmpty, apart, rfl⟩ := unlinks
  have live : dir ∈ tree.live ninodes := by
    have isAllocated : (tree dir).type ≠ 0 := by
      rw [isDir]
      decide
    exact Tree.mem_live.mpr ⟨balanced.inside dir isAllocated, isDir, linked⟩
  have shaped := balanced.shaped dir live
  have place := shaped.two_le_of_is at_ isName notDots
  obtain ⟨isChild, child⟩ := shaped.isChild place at_ isName.1
  have below : k ≤ (tree dir).entries.length :=
    Nat.le_of_lt (List.getElem?_eq_some_iff.mp at_).1
  obtain ⟨allocated, positive⟩ := balanced.linked live (List.mem_of_getElem? at_) isName.1
  have notDir := Ne.symm apart
  have atDir : (tree.unlink dir k de.inum) dir =
      ⟨(tree dir).type,
        if (tree de.inum).type = T_DIR then (tree dir).nlink + -1 else (tree dir).nlink,
        putEntry (tree dir).entries k unusedEntry⟩ := by
    rw [Tree.unlink, Tree.addLinks, update_of_ne notDir, Tree.dropParent]
    split
    · rw [Tree.addLinks, update_self, Tree.setEntry, update_self]
    · rw [Tree.setEntry, update_self]
  have atI : (tree.unlink dir k de.inum) de.inum =
      ⟨(tree de.inum).type, (tree de.inum).nlink + -1, (tree de.inum).entries⟩ := by
    rw [Tree.unlink, Tree.addLinks, update_self, Tree.dropParent_of_ne apart, Tree.setEntry,
      update_of_ne apart]
  have others : ∀ d, d ≠ dir → d ≠ de.inum → tree d = (tree.unlink dir k de.inum) d := by
    intro d isOther isOld
    rw [Tree.unlink, Tree.addLinks, update_of_ne isOld, Tree.dropParent_of_ne isOther,
      Tree.setEntry, update_of_ne isOther]
  have fewer := toInt_sub_one positive
  have isLive : (tree de.inum).type = T_DIR → de.inum ∈ tree.live ninodes := fun directory =>
    Tree.mem_live.mpr ⟨balanced.inside _ allocated, directory, positive⟩
  -- the directory has a second link when it loses that of a subdirectory
  have dirFewer : (tree de.inum).type = T_DIR → 1 < (tree dir).nlink.toInt := by
    intro directory
    have notRoot := balanced.sound.ne_root live child
    have up := balanced.sound.eq_parent (isLive directory) notRoot live child
    have two := balanced.sound.two_le_links (isLive directory) notRoot
    rw [up] at two
    rw [balanced.counts dir]
    · omega
    · rw [isDir]
      decide
  have inserts : Inserts ninodes (tree.unlink dir k de.inum) tree dir de.inum := by
    refine ⟨?_, live, ?_, apart, others, k, de, ?_, isChild, rfl, ?_⟩
    · rw [Tree.mem_live, atDir]
      refine ⟨(Tree.mem_live.mp live).1, isDir, ?_⟩
      by_cases directory : (tree de.inum).type = T_DIR
      · have two := dirFewer directory
        rw [if_pos directory, toInt_sub_one linked]
        omega
      · rw [if_neg directory]
        exact linked
    · rw [atDir]
      exact shaped.put place fun used => absurd rfl used
    · rw [atDir]
      exact gap_putEntry below
    · rw [atDir, putEntry_putEntry at_]
  by_cases directory : (tree de.inum).type = T_DIR
  · have empty : (tree.hierarchy ninodes).children de.inum = 0 := by
      apply Multiset.eq_zero_of_forall_notMem
      intro c isChild
      obtain ⟨entry, member, used, -⟩ := mem_inums.mp isChild
      exact used (isEmpty directory entry member)
    have notRoot := balanced.sound.ne_root live child
    have single : (tree de.inum).nlink.toInt = 1 := by
      rw [balanced.counts _ allocated, Hierarchy.links,
        balanced.sound.once _ (isLive directory) notRoot,
        balanced.sound.parented_of_empty notRoot empty]
      rfl
    apply inserts.follows_unlinkedDirectory balanced (isLive directory) _ _ _ empty
    · rw [atDir, if_pos directory]
      have less := toInt_sub_one linked
      simp only
      omega
    · rw [atI]
      simp only
      omega
    · rw [atI]
      exact allocated
    · intro isLive
      have still := (Tree.mem_live.mp isLive).2.2
      rw [atI] at still
      simp only at still
      omega
    · rw [atI]
  · apply inserts.follows_unlinked balanced
    · rw [atI]
      exact directory
    · rw [atI]
    · rw [atI]
      exact allocated
    · rw [atDir, if_neg directory]
    · rw [atI]
      simp only
      omega

end

end Xv6.Fs
