import Mathlib

/-!
Contract: directories that name nodes, and how often each node is named.

A directory names its parent, and any nodes as its children. In a sound hierarchy
every directory but the root is the child of exactly one directory, its parent. The
links of a node are its names as a child and as a parent.

In a rooted hierarchy every directory is found from the root.
-/

namespace Xv6.Lib

structure Hierarchy (Node : Type) where
  live : Finset Node
  parent : Node → Node
  children : Node → Multiset Node

namespace Hierarchy

variable {Node : Type} [DecidableEq Node]

def named (h : Hierarchy Node) (i : Node) : Nat := ∑ d ∈ h.live, (h.children d).count i

def parented (h : Hierarchy Node) (i : Node) : Nat := (h.live.filter fun d => h.parent d = i).card

def links (h : Hierarchy Node) (i : Node) : Nat := h.named i + h.parented i

structure Sound (h : Hierarchy Node) (root : Node) : Prop where
  rootLive : root ∈ h.live
  rootParent : h.parent root = root
  rootNamed : h.named root = 0
  once : ∀ d ∈ h.live, d ≠ root → h.named d = 1
  parent : ∀ d ∈ h.live, d ≠ root → h.parent d ∈ h.live ∧ d ∈ h.children (h.parent d)

/-- What is found from the root, from a directory to its children. -/
inductive Below (h : Hierarchy Node) (root : Node) : Node → Prop where
  | root : Below h root root
  | child {d i : Node} : Below h root d → d ∈ h.live → i ∈ h.children d → Below h root i

def Rooted (h : Hierarchy Node) (root : Node) : Prop := ∀ d ∈ h.live, h.Below root d

variable {h h' : Hierarchy Node} {root d i : Node}

omit [DecidableEq Node] in
/-- A node that is still found if the directories on the way to it have kept the children
on the way. -/
theorem Below.mono (good : Node → Prop)
    (kept : ∀ d ∈ h.live, ∀ i ∈ h.children d, good i → good d ∧ d ∈ h'.live ∧ i ∈ h'.children d)
    (below : h.Below root i) (isGood : good i) : h'.Below root i := by
  induction below with
  | root => exact .root
  | child _ live child ih =>
    obtain ⟨goodParent, live', child'⟩ := kept _ live _ child isGood
    exact .child (ih goodParent) live' child'

theorem exists_of_named (named : 0 < h.named i) : ∃ d ∈ h.live, i ∈ h.children d := by
  by_contra unnamed
  push Not at unnamed
  have none : h.named i = 0 :=
    Finset.sum_eq_zero fun d live => Multiset.count_eq_zero_of_notMem (unnamed d live)
  omega

theorem exists_of_parented (parented : 0 < h.parented i) : ∃ d ∈ h.live, h.parent d = i := by
  obtain ⟨d, member⟩ := Finset.card_pos.mp parented
  exact ⟨d, Finset.mem_filter.mp member⟩

theorem count_le_named (live : d ∈ h.live) (i : Node) : (h.children d).count i ≤ h.named i :=
  Finset.single_le_sum (f := fun e => (h.children e).count i) (fun _ _ => Nat.zero_le _) live

theorem named_pos (live : d ∈ h.live) (child : i ∈ h.children d) : 0 < h.named i :=
  lt_of_lt_of_le (Multiset.count_pos.mpr child) (count_le_named live i)

/-- The two have the same directories, whatever the other nodes hold. -/
structure Agrees (h h' : Hierarchy Node) : Prop where
  live : h'.live = h.live
  parent : ∀ d ∈ h.live, h'.parent d = h.parent d
  children : ∀ d ∈ h.live, h'.children d = h.children d

theorem Agrees.named (agrees : Agrees h h') (i : Node) : h'.named i = h.named i := by
  rw [Hierarchy.named, agrees.live]
  exact Finset.sum_congr rfl fun d live => by rw [agrees.children d live]

theorem Agrees.parented (agrees : Agrees h h') (i : Node) : h'.parented i = h.parented i := by
  rw [Hierarchy.parented, agrees.live]
  exact congrArg Finset.card (Finset.filter_congr fun d live => by rw [agrees.parent d live])

theorem Agrees.links (agrees : Agrees h h') (i : Node) : h'.links i = h.links i := by
  rw [Hierarchy.links, agrees.named, agrees.parented, Hierarchy.links]

omit [DecidableEq Node] in
theorem Agrees.rooted (agrees : Agrees h h') (rooted : h.Rooted root) : h'.Rooted root := by
  intro d live
  rw [agrees.live] at live
  refine (rooted d live).mono (fun _ => True) (fun e isLive c child _ => ?_) trivial
  rw [agrees.live, agrees.children e isLive]
  exact ⟨trivial, isLive, child⟩

theorem Agrees.sound (agrees : Agrees h h') (sound : h.Sound root) : h'.Sound root := by
  refine ⟨?_, ?_, ?_, ?_, ?_⟩
  · rw [agrees.live]
    exact sound.rootLive
  · rw [agrees.parent root sound.rootLive, sound.rootParent]
  · rw [agrees.named, sound.rootNamed]
  · intro d live other
    rw [agrees.live] at live
    rw [agrees.named, sound.once d live other]
  · intro d live other
    rw [agrees.live] at live
    obtain ⟨parentLive, child⟩ := sound.parent d live other
    rw [agrees.live, agrees.parent d live, agrees.children _ parentLive]
    exact ⟨parentLive, child⟩

namespace Sound

variable (sound : h.Sound root)
include sound

/-- Nothing is the child of two directories. -/
theorem eq_parent (live : i ∈ h.live) (other : i ≠ root) (directory : d ∈ h.live)
    (child : i ∈ h.children d) : h.parent i = d := by
  obtain ⟨parentLive, isChild⟩ := sound.parent i live other
  by_contra different
  have both : (h.children (h.parent i)).count i + (h.children d).count i ≤ h.named i := by
    rw [named, ← Finset.add_sum_erase _ _ parentLive]
    apply Nat.add_le_add_left
    exact Finset.single_le_sum (f := fun e => (h.children e).count i) (fun _ _ => Nat.zero_le _)
      (Finset.mem_erase.mpr ⟨Ne.symm different, directory⟩)
  have first := Multiset.count_pos.mpr isChild
  have second := Multiset.count_pos.mpr child
  have single := sound.once i live other
  omega

theorem ne_root (directory : d ∈ h.live) (child : i ∈ h.children d) : i ≠ root := by
  rintro rfl
  have positive := named_pos directory child
  have none := sound.rootNamed
  omega

theorem below_parent (live : i ∈ h.live) (below : h.Below root i) : h.Below root (h.parent i) := by
  cases below with
  | root =>
    rw [sound.rootParent]
    exact .root
  | child above directory child =>
    rw [sound.eq_parent live (sound.ne_root directory child) directory child]
    exact above

/-- What is not a directory is nobody's parent. -/
theorem parented_eq_zero (notLive : i ∉ h.live) : h.parented i = 0 := by
  rw [parented, Finset.card_eq_zero, Finset.filter_eq_empty_iff]
  rintro d live rfl
  by_cases isRoot : d = root
  · rw [isRoot, sound.rootParent] at notLive
    exact notLive sound.rootLive
  · exact notLive (sound.parent d live isRoot).1

/-- A directory with a subdirectory has a second link. -/
theorem two_le_links (live : i ∈ h.live) (other : i ≠ root) : 2 ≤ h.links (h.parent i) := by
  have below : i ∈ h.live.filter fun e => h.parent e = h.parent i :=
    Finset.mem_filter.mpr ⟨live, rfl⟩
  by_cases isRoot : h.parent i = root
  · have self : root ∈ h.live.filter fun e => h.parent e = h.parent i :=
      Finset.mem_filter.mpr ⟨sound.rootLive, sound.rootParent.trans isRoot.symm⟩
    have two : 1 < h.parented (h.parent i) := Finset.one_lt_card.mpr ⟨i, below, root, self, other⟩
    rw [links]
    omega
  · have one : 0 < h.parented (h.parent i) := Finset.card_pos.mpr ⟨i, below⟩
    rw [links, sound.once _ (sound.parent i live other).1 isRoot]
    omega

/-- A directory without children is nobody's parent. -/
theorem parented_of_empty (other : i ≠ root) (empty : h.children i = 0) : h.parented i = 0 := by
  rw [parented, Finset.card_eq_zero, Finset.filter_eq_empty_iff]
  rintro d live rfl
  by_cases isRoot : d = root
  · rw [isRoot, sound.rootParent] at other
    exact other rfl
  · have child := (sound.parent d live isRoot).2
    rw [empty] at child
    exact Multiset.notMem_zero d child

end Sound

/-- The directory `d` of `h'` has one more child, `i`. -/
structure Adds (h h' : Hierarchy Node) (d i : Node) : Prop where
  live : h'.live = h.live
  directory : d ∈ h.live
  parent : ∀ e ∈ h.live, h'.parent e = h.parent e
  here : h'.children d = i ::ₘ h.children d
  others : ∀ e ∈ h.live, e ≠ d → h'.children e = h.children e

/-- A sum of counts in which one more `i` is counted. -/
private theorem sum_count_cons {nodes : Finset Node} {old new : Node → Multiset Node}
    (member : d ∈ nodes) (here : new d = i ::ₘ old d) (others : ∀ e ∈ nodes, e ≠ d → new e = old e)
    (j : Node) :
    ∑ e ∈ nodes, (new e).count j = ∑ e ∈ nodes, (old e).count j + if j = i then 1 else 0 := by
  have rest : ∑ e ∈ nodes.erase d, (new e).count j = ∑ e ∈ nodes.erase d, (old e).count j := by
    apply Finset.sum_congr rfl
    intro e isOther
    rw [others e (Finset.mem_of_mem_erase isOther) (Finset.ne_of_mem_erase isOther)]
  rw [← Finset.add_sum_erase _ _ member, ← Finset.add_sum_erase _ (fun e => (old e).count j) member,
    rest, here, Multiset.count_cons]
  omega

variable {e : Node}

namespace Adds

variable (adds : Adds h h' d i)
include adds

theorem named (j : Node) : h'.named j = h.named j + if j = i then 1 else 0 := by
  rw [Hierarchy.named, adds.live]
  exact sum_count_cons adds.directory adds.here adds.others j

theorem links (j : Node) : h'.links j = h.links j + if j = i then 1 else 0 := by
  have parented : h'.parented j = h.parented j := by
    rw [Hierarchy.parented, adds.live]
    exact congrArg Finset.card (Finset.filter_congr fun e live => by rw [adds.parent e live])
  rw [Hierarchy.links, adds.named, parented, Hierarchy.links]
  omega

theorem mem_children {c : Node} (live : e ∈ h.live) (other : c ≠ i) :
    c ∈ h'.children e ↔ c ∈ h.children e := by
  by_cases same : e = d
  · rw [same, adds.here, Multiset.mem_cons, or_iff_right other]
  · rw [adds.others e live same]

/-- A child that is not a directory can be added and removed. -/
theorem sound_iff (plain : i ∉ h.live) : h'.Sound root ↔ h.Sound root := by
  have named : ∀ e ∈ h.live, h'.named e = h.named e := by
    intro e live
    have different : e ≠ i := fun same => plain (same ▸ live)
    rw [adds.named, if_neg different, Nat.add_zero]
  have children : ∀ e ∈ h.live, ∀ c ∈ h.live, c ∈ h'.children e ↔ c ∈ h.children e :=
    fun e live c isLive => adds.mem_children live fun same => plain (same ▸ isLive)
  constructor
  · intro sound
    have live := sound.rootLive
    rw [adds.live] at live
    refine ⟨live, ?_, ?_, ?_, ?_⟩
    · rw [← adds.parent root live, sound.rootParent]
    · rw [← named root live, sound.rootNamed]
    · intro e isLive other
      rw [← named e isLive, sound.once e (adds.live.symm ▸ isLive) other]
    · intro e isLive other
      have above := sound.parent e (adds.live.symm ▸ isLive) other
      rw [adds.live, adds.parent e isLive] at above
      exact ⟨above.1, (children _ above.1 e isLive).mp above.2⟩
  · intro sound
    have live := sound.rootLive
    refine ⟨adds.live.symm ▸ live, ?_, ?_, ?_, ?_⟩
    · rw [adds.parent root live, sound.rootParent]
    · rw [named root live, sound.rootNamed]
    · intro e isLive other
      rw [adds.live] at isLive
      rw [named e isLive, sound.once e isLive other]
    · intro e isLive other
      rw [adds.live] at isLive
      have above := sound.parent e isLive other
      rw [adds.live, adds.parent e isLive]
      exact ⟨above.1, (children _ above.1 e isLive).mpr above.2⟩

theorem rooted_iff (plain : i ∉ h.live) : h'.Rooted root ↔ h.Rooted root := by
  -- the directories on the way to a directory are not `i`
  have ne_of_live : ∀ e ∈ h.live, e ≠ i := fun e live same => plain (same ▸ live)
  constructor
  · intro rooted e live
    refine (rooted e (adds.live.symm ▸ live)).mono (· ≠ i) ?_ (ne_of_live e live)
    intro f isLive c child other
    rw [adds.live] at isLive
    exact ⟨ne_of_live f isLive, isLive, (adds.mem_children isLive other).mp child⟩
  · intro rooted e live
    rw [adds.live] at live
    refine (rooted e live).mono (· ≠ i) ?_ (ne_of_live e live)
    intro f isLive c child other
    exact ⟨ne_of_live f isLive, adds.live.symm ▸ isLive, (adds.mem_children isLive other).mpr child⟩

end Adds

/-- The directory `d` of `h'` has one more child, the empty directory `i`. -/
structure AddsDirectory (h h' : Hierarchy Node) (d i : Node) : Prop where
  live : h'.live = insert i h.live
  new : i ∉ h.live
  directory : d ∈ h.live
  parentNew : h'.parent i = d
  parent : ∀ e ∈ h.live, h'.parent e = h.parent e
  empty : h'.children i = 0
  here : h'.children d = i ::ₘ h.children d
  others : ∀ e ∈ h.live, e ≠ d → h'.children e = h.children e

namespace AddsDirectory

variable (adds : AddsDirectory h h' d i)
include adds

theorem named (j : Node) : h'.named j = h.named j + if j = i then 1 else 0 := by
  rw [Hierarchy.named, adds.live, Finset.sum_insert adds.new, adds.empty, Multiset.count_zero,
    Nat.zero_add]
  exact sum_count_cons adds.directory adds.here adds.others j

theorem parented (j : Node) : h'.parented j = h.parented j + if j = d then 1 else 0 := by
  have same : h.live.filter (fun e => h'.parent e = j) = h.live.filter fun e => h.parent e = j :=
    Finset.filter_congr fun e live => by rw [adds.parent e live]
  rw [Hierarchy.parented, adds.live, Finset.filter_insert, adds.parentNew, same]
  by_cases isParent : d = j
  · rw [if_pos isParent, if_pos isParent.symm, Finset.card_insert_of_notMem]
    · rfl
    · exact fun member => adds.new (Finset.mem_filter.mp member).1
  · rw [if_neg isParent, if_neg (Ne.symm isParent)]
    rfl

theorem links (j : Node) :
    h'.links j = h.links j + (if j = i then 1 else 0) + if j = d then 1 else 0 := by
  rw [Hierarchy.links, adds.named, adds.parented, Hierarchy.links]
  omega

theorem ne_of_live (live : e ∈ h.live) : e ≠ i := fun same => adds.new (same ▸ live)

theorem live_iff (other : e ≠ i) : e ∈ h'.live ↔ e ∈ h.live := by
  rw [adds.live, Finset.mem_insert, or_iff_right other]

theorem named_of_ne (other : e ≠ i) : h'.named e = h.named e := by
  rw [adds.named, if_neg other, Nat.add_zero]

theorem mem_children {c : Node} (live : e ∈ h.live) (other : c ≠ i) :
    c ∈ h'.children e ↔ c ∈ h.children e := by
  by_cases same : e = d
  · rw [same, adds.here, Multiset.mem_cons, or_iff_right other]
  · rw [adds.others e live same]

/-- A directory that nothing names can be added. -/
theorem sound (fresh : h.named i = 0) (sound : h.Sound root) : h'.Sound root := by
  have notRoot := adds.ne_of_live sound.rootLive
  refine ⟨(adds.live_iff notRoot).mpr sound.rootLive, ?_, ?_, ?_, ?_⟩
  · rw [adds.parent root sound.rootLive, sound.rootParent]
  · rw [adds.named_of_ne notRoot, sound.rootNamed]
  · intro e live other
    by_cases isNew : e = i
    · rw [isNew, adds.named, fresh, if_pos rfl]
    · rw [adds.named_of_ne isNew, sound.once e ((adds.live_iff isNew).mp live) other]
  · intro e live other
    by_cases isNew : e = i
    · have known := adds.ne_of_live adds.directory
      rw [isNew, adds.parentNew, adds.here]
      exact ⟨(adds.live_iff known).mpr adds.directory, Multiset.mem_cons_self _ _⟩
    · rw [adds.live_iff isNew] at live
      obtain ⟨parentLive, child⟩ := sound.parent e live other
      have known := adds.ne_of_live parentLive
      rw [adds.parent e live]
      exact ⟨(adds.live_iff known).mpr parentLive, (adds.mem_children parentLive isNew).mpr child⟩

/-- An empty directory can be removed. -/
theorem sound_removed (notRoot : i ≠ root) (sound : h'.Sound root) : h.Sound root := by
  have rootLive := (adds.live_iff (Ne.symm notRoot)).mp sound.rootLive
  have back : ∀ e ∈ h.live, e ∈ h'.live :=
    fun e live => (adds.live_iff (adds.ne_of_live live)).mpr live
  refine ⟨rootLive, ?_, ?_, ?_, ?_⟩
  · rw [← adds.parent root rootLive, sound.rootParent]
  · rw [← adds.named_of_ne (Ne.symm notRoot), sound.rootNamed]
  · intro e live other
    rw [← adds.named_of_ne (adds.ne_of_live live), sound.once e (back e live) other]
  · intro e live other
    obtain ⟨parentLive, child⟩ := sound.parent e (back e live) other
    rw [adds.parent e live] at parentLive child
    -- the directory that goes away has no children
    have stays : h.parent e ≠ i := by
      intro isNew
      rw [isNew, adds.empty] at child
      exact Multiset.notMem_zero e child
    rw [adds.live_iff stays] at parentLive
    exact ⟨parentLive, (adds.mem_children parentLive (adds.ne_of_live live)).mp child⟩

theorem rooted (rooted : h.Rooted root) : h'.Rooted root := by
  have old : ∀ e ∈ h.live, h'.Below root e := by
    intro e live
    refine (rooted e live).mono (fun _ => True) (fun f isLive c child _ => ?_) trivial
    refine ⟨trivial, (adds.live_iff (adds.ne_of_live isLive)).mpr isLive, ?_⟩
    by_cases same : f = d
    · rw [same] at child ⊢
      rw [adds.here]
      exact Multiset.mem_cons_of_mem child
    · rw [adds.others f isLive same]
      exact child
  intro e live
  by_cases isNew : e = i
  · rw [isNew]
    refine .child (old d adds.directory) ?_ ?_
    · exact (adds.live_iff (adds.ne_of_live adds.directory)).mpr adds.directory
    · rw [adds.here]
      exact Multiset.mem_cons_self _ _
  · exact old e ((adds.live_iff isNew).mp live)

theorem rooted_removed (rooted : h'.Rooted root) : h.Rooted root := by
  intro e live
  have other := adds.ne_of_live live
  refine (rooted e ((adds.live_iff other).mpr live)).mono (· ≠ i) (fun f isLive c child notNew => ?_)
    other
  -- the directory that goes away has no children
  have known : f ≠ i := by
    rintro rfl
    rw [adds.empty] at child
    exact Multiset.notMem_zero c child
  rw [adds.live_iff known] at isLive
  exact ⟨known, isLive, (adds.mem_children isLive notNew).mp child⟩

end AddsDirectory

end Hierarchy

end Xv6.Lib
