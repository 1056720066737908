import Xv6.Fs.Files
import Xv6.Fs.Image

/-!
Contract: what holds of the inode cache and the disk between any two steps of the
file system code.

`held` lists the references that the callers hold, and `locks` the inodes they have
locked with their contents. A reference can be pinned: its inode is allocated and
not a directory, and stays so. While the contents of a locked inode are newer than
the disk, that inode is the `dirty` one, and the disk is good with its contents put
in place.
-/

namespace Xv6.Fs

open Function Xv6.Lib

/-- References to cached inodes, and whether they are pinned. -/
abbrev Holds := Multiset (Slot × Bool)

abbrev Locks := Slot → Option Dinode

/-- The disk, with the contents of the dirty inode put in place. -/
def view (dirty : Option Slot) (s : FsState) : Image :=
  match dirty with
  | none => image s.sb s.disk
  | some x => (image s.sb s.disk).setInode (s.icache x).inum (s.icache x).copy

def Quiet (s : FsState) : Prop := ∀ b, Event.balloc .readi b ∉ s.trace

/-- The file system may halt, but not because it frees a free block. -/
def Calm (halt : Halt) (s : FsState) : Prop := halt ≠ .freeingFreeBlock ∧ Quiet s

/-- The file system may halt, but not because it frees a free block, because of a link
count below 1 only if the links are `broken`, and to wait for a lock only if it is
`stuck`. -/
def Stops (broken stuck : Prop) (halt : Halt) (s : FsState) : Prop :=
  halt ≠ .freeingFreeBlock ∧ (halt = .unlinkNlink → broken) ∧ (halt = .sleepsForEver → stuck) ∧
    Quiet s

theorem Stops.calm {broken stuck : Prop} {halt : Halt} {s : FsState}
    (stops : Stops broken stuck halt s) : Calm halt s :=
  ⟨stops.1, stops.2.2.2⟩

/-- Whoever waits for one of the locks is stuck. -/
def Awake (stuck : Prop) (locks : Locks) : Prop := ∀ x d, locks x = some d → stuck

structure Inv (fixed : Superblock) (dirty : Option Slot) (held : Holds) (locks : Locks)
    (s : FsState) : Prop where
  isSb : s.sb = fixed
  layout : s.sb.Valid
  super : readsb s.disk = s.sb
  good : Good s.sb (view dirty s)
  refs : ∀ x, (s.icache x).ref = (held.map Prod.fst).count x
  single : ∀ x y, 0 < (s.icache x).ref → 0 < (s.icache y).ref →
    (s.icache x).inum = (s.icache y).inum → x = y
  inside : ∀ x, 0 < (s.icache x).ref → (s.icache x).inum < s.sb.ninodes
  cached : ∀ x, 0 < (s.icache x).ref → (s.icache x).valid = true →
    (s.icache x).copy = (view dirty s).inode (s.icache x).inum ∧ (s.icache x).copy.type ≠ 0
  pinned : ∀ x, (x, true) ∈ held → ((view dirty s).inode (s.icache x).inum).type ≠ 0 ∧
    ((view dirty s).inode (s.icache x).inum).type ≠ T_DIR
  locked : ∀ x d, locks x = some d → 0 < (s.icache x).ref ∧ (s.icache x).valid = true ∧
    (s.icache x).lock ≠ none ∧ (s.icache x).copy = d
  unlocked : ∀ x, locks x = none → (s.icache x).lock = none
  quiet : Quiet s

@[simp] theorem view_none (s : FsState) : view none s = image s.sb s.disk := rfl

theorem view_some (x : Slot) (s : FsState) :
    view (some x) s = (image s.sb s.disk).setInode (s.icache x).inum (s.icache x).copy := rfl

@[simp] theorem view_block (dirty : Option Slot) (s : FsState) :
    (view dirty s).block = (image s.sb s.disk).block := by
  cases dirty <;> rfl

@[simp] theorem view_some_self (x : Slot) (s : FsState) :
    (view (some x) s).inode (s.icache x).inum = (s.icache x).copy := by
  simp [view]

theorem view_some_other {x : Slot} {s : FsState} {i : Nat} (other : i ≠ (s.icache x).inum) :
    (view (some x) s).inode i = (image s.sb s.disk).inode i := by
  simp [view, other]

namespace Inv

variable {fixed : Superblock} {dirty : Option Slot} {held : Holds} {locks : Locks} {s s' : FsState} {x : Slot}
  {k : Bool} {d : Dinode}

theorem ref_pos (inv : Inv fixed dirty held locks s) (member : (x, k) ∈ held) :
    0 < (s.icache x).ref := by
  rw [inv.refs]
  exact_mod_cast Multiset.count_pos.mpr (Multiset.mem_map_of_mem Prod.fst member)

theorem locked_inode (inv : Inv fixed dirty held locks s) (locked : locks x = some d) :
    (view dirty s).inode (s.icache x).inum = d ∧ d.type ≠ 0 := by
  obtain ⟨positive, valid, -, isCopy⟩ := inv.locked x d locked
  obtain ⟨same, allocated⟩ := inv.cached x positive valid
  exact ⟨same.symm.trans isCopy, isCopy ▸ allocated⟩

theorem locked_inside (inv : Inv fixed dirty held locks s) (locked : locks x = some d) :
    (s.icache x).inum < s.sb.ninodes :=
  inv.inside x (inv.locked x d locked).1

theorem view_dirty (inv : Inv fixed none held locks s) (locked : locks x = some d) :
    view (some x) s = view none s := by
  have same := (inv.locked_inode locked).1
  rw [view_none] at same
  rw [view_some, (inv.locked x d locked).2.2.2, ← same, Image.setInode_self, view_none]

theorem toDirty (inv : Inv fixed none held locks s) (locked : locks x = some d) :
    Inv fixed (some x) held locks s := by
  have same := inv.view_dirty locked
  exact { inv with
    good := same ▸ inv.good
    cached := same ▸ inv.cached
    pinned := same ▸ inv.pinned }

/-- The dirty inode and the blocks of its file change, and nothing else does. -/
theorem change (inv : Inv fixed (some x) held locks s) (locked : locks x = some d) {d' : Dinode}
    (sb : s'.sb = s.sb)
    (icache : s'.icache = update s.icache x { s.icache x with copy := d' })
    (super : readsb s'.disk = readsb s.disk)
    (inodes : (image s.sb s'.disk).inode = (image s.sb s.disk).inode)
    (good : Good s.sb ((image s.sb s'.disk).setInode (s.icache x).inum d'))
    (type : d'.type = d.type) (quiet : Quiet s') :
    Inv fixed (some x) held (update locks x (some d')) s' := by
  obtain ⟨positive, valid, isLocked, isCopy⟩ := inv.locked x d locked
  have atX : s'.icache x = { s.icache x with copy := d' } := by
    rw [icache, update_self]
  have others : ∀ y, y ≠ x → s'.icache y = s.icache y := by
    intro y different
    rw [icache, update_of_ne different]
  have inum : ∀ y, (s'.icache y).inum = (s.icache y).inum := by
    intro y
    by_cases same : y = x
    · rw [same, atX]
    · rw [others y same]
  have ref : ∀ y, (s'.icache y).ref = (s.icache y).ref := by
    intro y
    by_cases same : y = x
    · rw [same, atX]
    · rw [others y same]
  have newView : view (some x) s' = (image s.sb s'.disk).setInode (s.icache x).inum d' := by
    rw [view_some, sb, inum x, atX]
  have newOther : ∀ i, i ≠ (s.icache x).inum →
      (view (some x) s').inode i = (view (some x) s).inode i := by
    intro i different
    rw [view_some_other different, newView, Image.setInode_inode, update_of_ne different,
      inodes]
  have newSelf : (view (some x) s').inode (s.icache x).inum = d' := by
    rw [newView, Image.setInode_inode, update_self]
  constructor
  · rw [sb, inv.isSb]
  · exact sb ▸ inv.layout
  · rw [super, sb, inv.super]
  · rw [newView, sb]
    exact good
  · intro y
    rw [ref, inv.refs]
  · intro y z
    rw [ref, ref, inum, inum]
    exact inv.single y z
  · intro y
    rw [ref, inum, sb]
    exact inv.inside y
  · intro y held isValid
    rw [inum]
    by_cases same : y = x
    · rw [same, atX, newSelf]
      exact ⟨rfl, type.trans_ne (inv.locked_inode locked).2⟩
    · rw [ref] at held
      rw [others y same] at isValid ⊢
      rw [newOther _ fun equal => same (inv.single y x held positive equal)]
      exact inv.cached y held isValid
  · intro y member
    have before := inv.pinned y member
    rw [inum]
    by_cases same : (s.icache y).inum = (s.icache x).inum
    · rw [same, (inv.locked_inode locked).1] at before
      rw [same, newSelf, type]
      exact before
    · rw [newOther _ same]
      exact before
  · intro y e isLock
    by_cases same : y = x
    · rw [same, update_self, Option.some.injEq] at isLock
      rw [same, atX]
      exact ⟨positive, valid, isLocked, isLock⟩
    · rw [update_of_ne same] at isLock
      rw [others y same]
      exact inv.locked y e isLock
  · intro y isFree
    by_cases same : y = x
    · rw [same, update_self] at isFree
      cases isFree
    · rw [update_of_ne same] at isFree
      rw [others y same]
      exact inv.unlocked y isFree
  · exact quiet

theorem record (inv : Inv fixed dirty held locks s) {event : Event}
    (quiet : ∀ b, event ≠ .balloc .readi b) :
    Inv fixed dirty held locks { s with trace := event :: s.trace } := by
  have views : view dirty { s with trace := event :: s.trace } = view dirty s := rfl
  exact { inv with
    good := inv.good
    cached := inv.cached
    pinned := inv.pinned
    quiet := fun b member => (List.mem_cons.mp member).elim
      (fun same => quiet b same.symm) (inv.quiet b) }

/-- One entry of the cache changes, and the references and locks with it. -/
theorem recache (inv : Inv fixed none held locks s) {ip : Inode} {held' : Holds} {locks' : Locks}
    (sb : s'.sb = s.sb) (disk : s'.disk = s.disk)
    (icache : s'.icache = update s.icache x ip) (quiet : Quiet s')
    (refSelf : ip.ref = (held'.map Prod.fst).count x)
    (refOther : ∀ y, y ≠ x → (held'.map Prod.fst).count y = (held.map Prod.fst).count y)
    (pinOther : ∀ y, y ≠ x → (y, true) ∈ held' → (y, true) ∈ held)
    (lockOther : ∀ y, y ≠ x → locks' y = locks y)
    (inside : 0 < ip.ref → ip.inum < s.sb.ninodes ∧
      ∀ y, y ≠ x → 0 < (s.icache y).ref → (s.icache y).inum ≠ ip.inum)
    (cached : 0 < ip.ref → ip.valid = true →
      ip.copy = (image s.sb s.disk).inode ip.inum ∧ ip.copy.type ≠ 0)
    (pinned : (x, true) ∈ held' → ((image s.sb s.disk).inode ip.inum).type ≠ 0 ∧
      ((image s.sb s.disk).inode ip.inum).type ≠ T_DIR)
    (locked : ∀ d, locks' x = some d →
      0 < ip.ref ∧ ip.valid = true ∧ ip.lock ≠ none ∧ ip.copy = d)
    (unlocked : locks' x = none → ip.lock = none) :
    Inv fixed none held' locks' s' := by
  have atX : s'.icache x = ip := by
    rw [icache, update_self]
  have others : ∀ y, y ≠ x → s'.icache y = s.icache y := by
    intro y different
    rw [icache, update_of_ne different]
  have views : view none s' = view none s := by
    rw [view_none, view_none, sb, disk]
  constructor
  · rw [sb, inv.isSb]
  · exact sb ▸ inv.layout
  · rw [sb, disk, inv.super]
  · rw [sb, views]
    exact inv.good
  · intro y
    by_cases same : y = x
    · rw [same, atX, refSelf]
    · rw [others y same, refOther y same, inv.refs]
  · intro y z heldY heldZ equal
    by_cases sameY : y = x
    · by_cases sameZ : z = x
      · rw [sameY, sameZ]
      · rw [sameY, atX] at heldY equal
        rw [others z sameZ] at heldZ equal
        exact absurd equal.symm ((inside heldY).2 z sameZ heldZ)
    · rw [others y sameY] at heldY equal
      by_cases sameZ : z = x
      · rw [sameZ, atX] at heldZ equal
        exact absurd equal ((inside heldZ).2 y sameY heldY)
      · rw [others z sameZ] at heldZ equal
        exact inv.single y z heldY heldZ equal
  · intro y heldY
    rw [sb]
    by_cases same : y = x
    · rw [same, atX] at heldY ⊢
      exact (inside heldY).1
    · rw [others y same] at heldY ⊢
      exact inv.inside y heldY
  · intro y heldY isValid
    rw [views]
    by_cases same : y = x
    · rw [same, atX] at heldY isValid ⊢
      exact cached heldY isValid
    · rw [others y same] at heldY isValid ⊢
      exact inv.cached y heldY isValid
  · intro y member
    rw [views]
    by_cases same : y = x
    · rw [same, atX]
      exact pinned (same ▸ member)
    · rw [others y same]
      exact inv.pinned y (pinOther y same member)
  · intro y e isLock
    by_cases same : y = x
    · rw [same, atX]
      exact locked e (same ▸ isLock)
    · rw [others y same]
      exact inv.locked y e (lockOther y same ▸ isLock)
  · intro y isFree
    by_cases same : y = x
    · rw [same, atX]
      exact unlocked (same ▸ isFree)
    · rw [others y same]
      exact inv.unlocked y (lockOther y same ▸ isFree)
  · exact quiet

/-- Another entry with a reference holds another inode. -/
theorem inum_ne (inv : Inv fixed dirty held locks s) (positive : 0 < (s.icache x).ref) {y : Slot}
    (different : y ≠ x) (positive' : 0 < (s.icache y).ref) :
    (s.icache y).inum ≠ (s.icache x).inum :=
  fun equal => different (inv.single y x positive' positive equal)

end Inv

end Xv6.Fs
