import Xv6.ICache.Model
import Xv6.Lib.Tally

/-!
Contract: what a process may do with inodes, and what it may rely on.

The ghost of a process has the references that it holds, and for each inode that it has
locked what it knows of it: nothing yet, that the copy is not valid, that the copy is what
the disk has, that the copy was changed since, or that the inode was freed. `pre` says what
each operation needs and what it leaves. An inode must be unlocked in a state in which the
copy, if valid, is what the disk has, so whoever changes the copy calls `iupdate` first.
-/

namespace Xv6.ICache

open Function Xv6.Lib
open Xv6.Fs (Slot Dinode Dirent NDIRECT MAXFILE)

/-! ### What is known of an inode -/

/-- The size of the inode ends behind no block that is not mapped. -/
def Mapped (d : Dinode) : Prop :=
  ∀ bn, bn < MAXFILE → bn * BSIZE < d.size → d.addrs (addrOf bn) ≠ 0

structure Good (d : Dinode) : Prop where
  type : d.type ≠ 0
  mapped : Mapped d

theorem mapped_of_empty {d : Dinode} (isEmpty : d.size = 0) : Mapped d := by
  intro bn _ below
  omega

inductive Status where
  | unknown
  | stale
  | known (d : Dinode)
  | dirty (d : Dinode)
  | freed

/-- The copy, if valid, is what the disk has. -/
def Status.Clean : Status → Prop
  | .unknown | .stale | .known _ => True
  | .dirty _ | .freed => False

/-- What the status says of the entry, when the disk has the inode `d`. -/
def Status.Holds {P : Type} (entry : Entry P) (d : Stored) : Status → Prop
  | .unknown => entry.valid = true → entry.copy = d.inode ∧ Good d.inode ∧ entry.birth = d.births
  | .stale => entry.valid = false
  | .known copy =>
    entry.valid = true ∧ entry.copy = copy ∧ copy = d.inode ∧ Good copy ∧ entry.birth = d.births
  | .dirty copy => entry.valid = true ∧ entry.copy = copy ∧ d.inode.type ≠ 0 ∧ entry.birth = d.births
  | .freed => entry.valid = true ∧ entry.copy.type = 0

theorem Status.Clean.unknown {P : Type} {status : Status} (clean : status.Clean) {entry : Entry P}
    {d : Stored} (holds : status.Holds entry d) : Status.unknown.Holds entry d := by
  cases status with
  | unknown => exact holds
  | stale =>
    intro isValid
    rw [show entry.valid = false from holds] at isValid
    cases isValid
  | known copy =>
    obtain ⟨-, isCopy, rfl, good, birth⟩ := holds
    exact fun _ => ⟨isCopy, good, birth⟩
  | dirty copy => exact clean.elim
  | freed => exact clean.elim

/-- The status speaks of `valid` and of the copy only. -/
theorem Status.Holds.congr {P : Type} {status : Status} {old new : Entry P} {d : Stored}
    (holds : status.Holds old d) (valid : new.valid = old.valid) (copy : new.copy = old.copy)
    (birth : new.birth = old.birth) : status.Holds new d := by
  cases status <;> simpa only [Status.Holds, valid, copy, birth] using holds

/-- The status of an inode that is free on the disk does not speak of what the disk has. -/
theorem Status.Holds.claimed {P : Type} {status : Status} {entry : Entry P} {old new : Stored}
    (holds : status.Holds entry old) (isFree : old.inode.type = 0) : status.Holds entry new := by
  cases status with
  | unknown =>
    intro isValid
    exact absurd isFree (holds isValid).2.1.type
  | stale => exact holds
  | known copy =>
    obtain ⟨-, -, rfl, good, -⟩ := holds
    exact absurd isFree good.type
  | dirty copy => exact absurd isFree holds.2.2.1
  | freed => exact holds

structure Ghost where
  refs : Slot → Nat
  lock : Slot → Option Status

namespace Ghost

def addRef (g : Ghost) (slot : Slot) : Ghost :=
  { g with refs := update g.refs slot (g.refs slot + 1) }

def dropRef (g : Ghost) (slot : Slot) : Ghost :=
  { g with refs := update g.refs slot (g.refs slot - 1) }

def setLock (g : Ghost) (slot : Slot) (status : Option Status) : Ghost :=
  { g with lock := update g.lock slot status }

variable {g : Ghost} {slot other : Slot} {status status' : Option Status}

@[simp] theorem setLock_self : (g.setLock slot status).lock slot = status := update_self ..

theorem setLock_of_ne (different : other ≠ slot) : (g.setLock slot status).lock other = g.lock other :=
  update_of_ne different _ _

@[simp] theorem setLock_setLock : (g.setLock slot status).setLock slot status' = g.setLock slot status' := by
  simp [setLock]

theorem setLock_eq_self (same : g.lock slot = status) : g.setLock slot status = g := by
  rw [← same, setLock, update_eq_self]

theorem addRef_refs (g : Ghost) (slot other : Slot) :
    (g.addRef slot).refs other = if other = slot then g.refs other + 1 else g.refs other := by
  by_cases same : other = slot
  · subst same
    simp [addRef]
  · simp [addRef, same]

theorem dropRef_refs (g : Ghost) (slot other : Slot) :
    (g.dropRef slot).refs other = if other = slot then g.refs other - 1 else g.refs other := by
  by_cases same : other = slot
  · subst same
    simp [dropRef]
  · simp [dropRef, same]

theorem one_le_addRef : 1 ≤ (g.addRef slot).refs slot := by
  simp [addRef]

theorem le_addRef : g.refs other ≤ (g.addRef slot).refs other := by
  rw [addRef_refs]
  split <;> omega

theorem ext_refs {g' : Ghost} (refs : ∀ slot, g.refs slot = g'.refs slot) (lock : g.lock = g'.lock) :
    g = g' := by
  obtain ⟨refs1, lock1⟩ := g
  obtain ⟨refs2, lock2⟩ := g'
  have isRefs : refs1 = refs2 := funext refs
  have isLock : lock1 = lock2 := lock
  rw [isRefs, isLock]

@[simp] theorem addRef_dropRef : (g.addRef slot).dropRef slot = g := by
  refine ext_refs (fun other => ?_) rfl
  rw [dropRef_refs, addRef_refs]
  split <;> omega

theorem addRef_addRef_dropRef : ((g.addRef slot).addRef other).dropRef slot = g.addRef other := by
  refine ext_refs (fun third => ?_) rfl
  rw [dropRef_refs, addRef_refs, addRef_refs, addRef_refs]
  split <;> split <;> omega

theorem setLock_addRef : (g.setLock slot status).addRef other = (g.addRef other).setLock slot status := rfl

end Ghost

/-! ### The logic -/

def looks (slot : Slot) (g : Ghost) (post : Bool × Dinode → Ghost → Prop) : Option Status → Prop
  | none => False
  | some .unknown =>
    (∀ d, post (false, d) (g.setLock slot (some .stale))) ∧
      ∀ d, Good d → post (true, d) (g.setLock slot (some (.known d)))
  | some .stale => ∀ d, post (false, d) g
  | some (.known d) | some (.dirty d) => post (true, d) g
  | some .freed => ∀ d, post (true, d) g

def modifies (slot : Slot) (change : Dinode → Dinode) (g : Ghost) (post : Ghost → Prop) :
    Option Status → Prop
  | some (.known d) | some (.dirty d) => post (g.setLock slot (some (.dirty (change d))))
  | _ => False

def updates (slot : Slot) (g : Ghost) (post : Ghost → Prop) : Option Status → Prop
  | some (.dirty d) =>
    Good d ∧ post (g.setLock slot (some (.known d))) ∨
      d.type = 0 ∧ Mapped d ∧ post (g.setLock slot (some .freed))
  | _ => False

def pre (o : Op) (g : Ghost) (post : o.Answer → Ghost → Prop) : Prop :=
  match o with
  | .iget _ _ => ∀ slot : Slot, post slot (g.addRef slot)
  | .idup slot => 1 ≤ g.refs slot ∧ post () (g.addRef slot)
  | .getRef _ => ∀ n : Int, post n g
  | .decRef slot => 1 ≤ g.refs slot ∧ g.lock slot = none ∧ post () (g.dropRef slot)
  | .acquiresleep slot =>
    1 ≤ g.refs slot ∧ (g.lock slot = none → post () (g.setLock slot (some .unknown)))
  | .releasesleep slot =>
    (∃ status, g.lock slot = some status ∧ status.Clean) ∧ post () (g.setLock slot none)
  | .holdingsleep slot => post (g.lock slot).isSome g
  | .look slot => looks slot g post (g.lock slot)
  | .ident _ => ∀ id : Nat × Nat, post id g
  | .load slot =>
    g.lock slot = some .stale ∧ ∀ d : Dinode,
      (Good d → post d (g.setLock slot (some (.known d)))) ∧
        (d.type = 0 → post d (g.setLock slot (some .freed)))
  | .modify slot change => modifies slot change g (post ()) (g.lock slot)
  | .iupdate slot => updates slot g (post ()) (g.lock slot)
  | .invalidate slot => g.lock slot = some .freed ∧ post () (g.setLock slot (some .stale))
  | .claim _ _ type => type ≠ 0 ∧ ∀ claimed : Bool, post claimed g
  | .balloc => ∀ addr : Nat, addr ≠ 0 → post addr g
  | .indirect => ∀ addr : Nat, post addr g
  | .dirent => ∀ de : Dirent, post de g
  | .device => ∀ result : Option Int, post result g
  | .panic => True

theorem pre_mono (o : Op) (g : Ghost) (post post' : o.Answer → Ghost → Prop)
    (weaker : ∀ answer after, post answer after → post' answer after) (holds : pre o g post) :
    pre o g post' := by
  cases o with
  | iget dev inum => exact fun slot => weaker _ _ (holds slot)
  | idup slot => exact ⟨holds.1, weaker _ _ holds.2⟩
  | getRef slot => exact fun n => weaker _ _ (holds n)
  | decRef slot => exact ⟨holds.1, holds.2.1, weaker _ _ holds.2.2⟩
  | acquiresleep slot => exact ⟨holds.1, fun free => weaker _ _ (holds.2 free)⟩
  | releasesleep slot => exact ⟨holds.1, weaker _ _ holds.2⟩
  | holdingsleep slot => exact weaker _ _ holds
  | look slot =>
    change looks slot g post (g.lock slot) at holds
    change looks slot g post' (g.lock slot)
    generalize g.lock slot = status at holds
    match status with
    | none => exact holds.elim
    | some .unknown => exact ⟨fun d => weaker _ _ (holds.1 d), fun d good => weaker _ _ (holds.2 d good)⟩
    | some .stale => exact fun d => weaker _ _ (holds d)
    | some (.known d) => exact weaker _ _ holds
    | some (.dirty d) => exact weaker _ _ holds
    | some .freed => exact fun d => weaker _ _ (holds d)
  | ident slot => exact fun id => weaker _ _ (holds id)
  | load slot =>
    exact ⟨holds.1, fun d => ⟨fun good => weaker _ _ ((holds.2 d).1 good),
      fun isFree => weaker _ _ ((holds.2 d).2 isFree)⟩⟩
  | modify slot change =>
    change modifies slot change g (post ()) (g.lock slot) at holds
    change modifies slot change g (post' ()) (g.lock slot)
    generalize g.lock slot = status at holds
    match status with
    | none => exact holds.elim
    | some .unknown => exact holds.elim
    | some .stale => exact holds.elim
    | some (.known d) => exact weaker _ _ holds
    | some (.dirty d) => exact weaker _ _ holds
    | some .freed => exact holds.elim
  | iupdate slot =>
    change updates slot g (post ()) (g.lock slot) at holds
    change updates slot g (post' ()) (g.lock slot)
    generalize g.lock slot = status at holds
    match status with
    | none => exact holds.elim
    | some .unknown => exact holds.elim
    | some .stale => exact holds.elim
    | some (.known d) => exact holds.elim
    | some (.dirty d) =>
      rcases holds with ⟨good, then_⟩ | ⟨isFree, mapped, then_⟩
      · exact Or.inl ⟨good, weaker _ _ then_⟩
      · exact Or.inr ⟨isFree, mapped, weaker _ _ then_⟩
    | some .freed => exact holds.elim
  | invalidate slot => exact ⟨holds.1, weaker _ _ holds.2⟩
  | claim dev inum type => exact ⟨holds.1, fun claimed => weaker _ _ (holds.2 claimed)⟩
  | balloc => exact fun addr nonzero => weaker _ _ (holds addr nonzero)
  | indirect => exact fun addr => weaker _ _ (holds addr)
  | dirent => exact fun de => weaker _ _ (holds de)
  | device => exact fun result => weaker _ _ (holds result)
  | panic => trivial

def logic : Logic Op Op.Answer Ghost := ⟨pre, pre_mono⟩

/-! ### The state and the ghosts -/

variable {P : Type}

def State.ondisk (s : State P) (slot : Slot) : Stored :=
  s.disk (s.icache slot).dev (s.icache slot).inum

/-- The statuses of the inodes that are locked, and what holds of the others. -/
structure Rel [Fintype P] (s : State P) (ghosts : P → Ghost) : Prop where
  refs : ∀ p slot, (ghosts p).refs slot = s.held p slot
  count : ∀ slot, (s.icache slot).ref = tally (fun held : Slot → Nat => (held slot : Int)) s.held
  unique : ∀ slot slot', 0 < (s.icache slot).ref → 0 < (s.icache slot').ref →
    (s.icache slot).dev = (s.icache slot').dev → (s.icache slot).inum = (s.icache slot').inum →
    slot = slot'
  needs : ∀ p slot, (ghosts p).lock slot ≠ none → 1 ≤ s.held p slot
  owner : ∀ p slot, (s.icache slot).lock = some p ↔ (ghosts p).lock slot ≠ none
  locked : ∀ p slot status, (ghosts p).lock slot = some status →
    status.Holds (s.icache slot) (s.ondisk slot)
  unlocked : ∀ slot, 0 < (s.icache slot).ref → (s.icache slot).lock = none →
    Status.unknown.Holds (s.icache slot) (s.ondisk slot)
  mapped : ∀ dev inum, Mapped (s.disk dev inum).inode

variable [Fintype P] {s : State P} {ghosts : P → Ghost}

variable {p : P}

section

variable (rel : Rel s ghosts)

include rel

theorem Rel.ref_pos {slot : Slot} (holds : 1 ≤ s.held p slot) : 0 < (s.icache slot).ref := by
  have one : (s.held p slot : Int) ≤ tally (fun held : Slot → Nat => (held slot : Int)) s.held :=
    weight_le_tally (fun held => Int.natCast_nonneg _) s.held p
  rw [rel.count slot]
  omega

theorem Rel.held_zero {slot : Slot} (isEmpty : (s.icache slot).ref = 0) (p : P) :
    s.held p slot = 0 := by
  by_contra holds
  have some_ : 1 ≤ s.held p slot := by omega
  have positive := rel.ref_pos some_
  omega

theorem Rel.lock_eq {slot : Slot} {status : Status}
    (isLocked : (ghosts p).lock slot = some status) : (s.icache slot).lock = some p :=
  (rel.owner p slot).mpr (by simp [isLocked])

/-! ### Operations -/

theorem Rel.claim {dev inum births : Nat} {type : BitVec 16}
    (isFree : (s.disk dev inum).inode.type = 0) :
    Rel (s.setDisk dev inum ⟨{ Dinode.zero with type }, births⟩) ghosts := by
  have keeps : ∀ {status : Status} {slot : Slot}, status.Holds (s.icache slot) (s.ondisk slot) →
      status.Holds (s.icache slot) ((s.setDisk dev inum ⟨{ Dinode.zero with type }, births⟩).ondisk slot) := by
    intro status slot holds
    by_cases same : (s.icache slot).dev = dev ∧ (s.icache slot).inum = inum
    · refine holds.claimed ?_
      rw [State.ondisk, same.1, same.2]
      exact isFree
    · have unchanged : (s.setDisk dev inum ⟨{ Dinode.zero with type }, births⟩).ondisk slot = s.ondisk slot :=
        State.setDisk_of_ne s _ same
      rw [unchanged]
      exact holds
  refine ⟨rel.refs, rel.count, rel.unique, rel.needs, rel.owner,
    fun p slot status isLocked => keeps (rel.locked p slot status isLocked),
    fun slot positive isUnlocked => keeps (rel.unlocked slot positive isUnlocked), fun dev' inum' => ?_⟩
  by_cases same : dev' = dev ∧ inum' = inum
  · obtain ⟨rfl, rfl⟩ := same
    rw [State.setDisk_self]
    exact mapped_of_empty rfl
  · rw [State.setDisk_of_ne s _ same]
    exact rel.mapped dev' inum'

variable [DecidableEq P]

/-- A process does something to one inode; all else stays. -/
theorem Rel.frame {slot : Slot} {after : State P} {ghost : Ghost}
    (others : ∀ other, other ≠ slot → after.icache other = s.icache other)
    (ondisk : ∀ other, other ≠ slot → 0 < (s.icache other).ref → after.ondisk other = s.ondisk other)
    (elsewhere : ∀ other, other ≠ slot → ghost.refs other = (ghosts p).refs other ∧ ghost.lock other = (ghosts p).lock other)
    (held : after.held = update s.held p ghost.refs)
    (ref : (after.icache slot).ref = (s.icache slot).ref + (ghost.refs slot - s.held p slot))
    (unique : 0 < (after.icache slot).ref → ∀ other, other ≠ slot → 0 < (s.icache other).ref →
      ¬ ((s.icache other).dev = (after.icache slot).dev ∧ (s.icache other).inum = (after.icache slot).inum))
    (needs : ghost.lock slot ≠ none → 1 ≤ ghost.refs slot)
    (owner : ∀ q, (after.icache slot).lock = some q ↔ (update ghosts p ghost q).lock slot ≠ none)
    (locked : ∀ q status, (update ghosts p ghost q).lock slot = some status →
      status.Holds (after.icache slot) (after.ondisk slot))
    (unlocked : 0 < (after.icache slot).ref → (after.icache slot).lock = none →
      Status.unknown.Holds (after.icache slot) (after.ondisk slot))
    (mapped : ∀ dev inum, Mapped (after.disk dev inum).inode) : Rel after (update ghosts p ghost) := by
  have lockOf : ∀ q other, other ≠ slot → (update ghosts p ghost q).lock other = (ghosts q).lock other := by
    intro q other different
    by_cases isP : q = p
    · rw [isP, update_self]
      exact (elsewhere other different).2
    · rw [update_of_ne isP]
  have refsOf : ∀ q other, (update ghosts p ghost q).refs other = after.held q other := by
    intro q other
    by_cases isP : q = p
    · rw [held, isP, update_self, update_self]
    · rw [held, update_of_ne isP, update_of_ne isP]
      exact rel.refs q other
  refine ⟨refsOf, fun other => ?_, fun first second positive positive' dev inum => ?_, fun q other has => ?_,
    fun q other => ?_, fun q other status isLocked => ?_, fun other positive isFree => ?_, mapped⟩
  · rw [held, tally_update, ← rel.count other]
    by_cases same : other = slot
    · rw [same, ref]
      omega
    · rw [others other same, (elsewhere other same).1, rel.refs p other]
      omega
  · by_cases same : first = slot
    · by_cases same' : second = slot
      · rw [same, same']
      · rw [same] at positive dev inum
        rw [others second same'] at positive' dev inum
        exact absurd ⟨dev.symm, inum.symm⟩ (unique positive second same' positive')
    · rw [others first same] at positive dev inum
      by_cases same' : second = slot
      · rw [same'] at positive' dev inum
        exact absurd ⟨dev, inum⟩ (unique positive' first same positive)
      · rw [others second same'] at positive' dev inum
        exact rel.unique first second positive positive' dev inum
  · rw [← refsOf q other]
    by_cases isP : q = p
    · rw [isP, update_self] at has ⊢
      by_cases same : other = slot
      · rw [same] at has ⊢
        exact needs has
      · rw [(elsewhere other same).2] at has
        rw [(elsewhere other same).1, rel.refs p other]
        exact rel.needs p other has
    · rw [update_of_ne isP] at has ⊢
      rw [rel.refs q other]
      exact rel.needs q other has
  · by_cases same : other = slot
    · rw [same]
      exact owner q
    · rw [others other same, lockOf q other same]
      exact rel.owner q other
  · by_cases same : other = slot
    · rw [same] at isLocked ⊢
      exact locked q status isLocked
    · rw [lockOf q other same] at isLocked
      have has := rel.needs q other (by simp [isLocked])
      rw [others other same, ondisk other same (rel.ref_pos has)]
      exact rel.locked q other status isLocked
  · by_cases same : other = slot
    · rw [same] at positive isFree ⊢
      exact unlocked positive isFree
    · rw [others other same] at positive isFree ⊢
      rw [ondisk other same positive]
      exact rel.unlocked other positive isFree

/-- A process does something to an inode that nobody else has locked, and to what it knows
of it. -/
theorem Rel.own {slot : Slot} {after : State P} {status : Option Status}
    (others : ∀ other, other ≠ slot → after.icache other = s.icache other)
    (ondisk : ∀ other, other ≠ slot → 0 < (s.icache other).ref → after.ondisk other = s.ondisk other)
    (held : after.held = s.held) (mine : ∀ q, (s.icache slot).lock = some q → q = p)
    (dev : (after.icache slot).dev = (s.icache slot).dev) (inum : (after.icache slot).inum = (s.icache slot).inum)
    (ref : (after.icache slot).ref = (s.icache slot).ref) (lock : (after.icache slot).lock = status.map fun _ => p)
    (needs : status ≠ none → 1 ≤ s.held p slot)
    (holds : (status.getD .unknown).Holds (after.icache slot) (after.ondisk slot))
    (mapped : ∀ dev inum, Mapped (after.disk dev inum).inode) :
    Rel after (update ghosts p ((ghosts p).setLock slot status)) := by
  have refs : ((ghosts p).setLock slot status).refs = s.held p := funext (rel.refs p)
  have otherProc : ∀ q, q ≠ p → (update ghosts p ((ghosts p).setLock slot status) q).lock slot = none := by
    intro q isQ
    rw [update_of_ne isQ]
    by_contra has
    exact isQ (mine q ((rel.owner q slot).mpr has))
  refine rel.frame others ondisk (fun other different => ⟨rfl, Ghost.setLock_of_ne different⟩) ?_ ?_
    (fun positive other different positive' same => ?_) ?_ (fun q => ?_) (fun q st isLocked => ?_)
    (fun _ isFree => ?_) mapped
  · rw [refs, update_eq_self, held]
  · rw [refs, ref]
    omega
  · rw [dev, inum] at same
    exact different (rel.unique other slot positive' (ref ▸ positive) same.1 same.2)
  · rw [refs, Ghost.setLock_self]
    exact needs
  · rw [lock]
    by_cases isP : q = p
    · rw [isP, update_self, Ghost.setLock_self]
      cases status <;> simp
    · rw [otherProc q isP]
      cases status with
      | none => simp
      | some st => simpa using fun same => isP same.symm
  · have isP : q = p := by
      by_contra isP
      rw [otherProc q isP] at isLocked
      cases isLocked
    rw [isP, update_self, Ghost.setLock_self] at isLocked
    rwa [isLocked] at holds
  · rw [lock] at isFree
    cases status with
    | none => exact holds
    | some st => cases isFree

/-- A process changes an inode that nobody else has locked, and what it knows of it. -/
theorem Rel.change {slot : Slot} {new : Entry P} {status : Option Status}
    (mine : ∀ q, (s.icache slot).lock = some q → q = p) (dev : new.dev = (s.icache slot).dev)
    (inum : new.inum = (s.icache slot).inum) (ref : new.ref = (s.icache slot).ref)
    (lock : new.lock = status.map fun _ => p) (needs : status ≠ none → 1 ≤ s.held p slot)
    (holds : (status.getD .unknown).Holds new (s.ondisk slot)) :
    Rel (s.setEntry slot new) (update ghosts p ((ghosts p).setLock slot status)) := by
  have isNew : (s.setEntry slot new).icache slot = new := State.setEntry_self ..
  have others : ∀ other, other ≠ slot → (s.setEntry slot new).icache other = s.icache other :=
    fun other different => State.setEntry_of_ne s new different
  have here : (s.setEntry slot new).ondisk slot = s.ondisk slot := by
    rw [State.ondisk, isNew, dev, inum]
    rfl
  have ondisk : ∀ other, other ≠ slot → (s.setEntry slot new).ondisk other = s.ondisk other := by
    intro other different
    rw [State.ondisk, others other different]
    rfl
  rw [← isNew] at dev inum ref lock
  rw [← isNew, ← here] at holds
  exact rel.own others (fun other different _ => ondisk other different) rfl mine dev inum ref lock needs holds
    rel.mapped

/-- A process puts an inode that it has locked on the disk. -/
theorem Rel.write {slot : Slot} {d : Stored} {old status : Status}
    (isLocked : (ghosts p).lock slot = some old) (mapped : Mapped d.inode)
    (holds : status.Holds (s.icache slot) d) :
    Rel (s.setDisk (s.icache slot).dev (s.icache slot).inum d)
      (update ghosts p ((ghosts p).setLock slot (some status))) := by
  have isOwner := rel.lock_eq isLocked
  have has := rel.needs p slot (by simp [isLocked])
  have here : (s.setDisk (s.icache slot).dev (s.icache slot).inum d).ondisk slot = d := State.setDisk_self ..
  refine rel.own (fun _ _ => rfl) (fun other different positive => State.setDisk_of_ne s d ?_) rfl (fun q isQ => ?_)
    rfl rfl rfl isOwner (fun _ => has) (here.symm ▸ holds) fun dev inum => ?_
  · rintro ⟨dev, inum⟩
    exact different (rel.unique other slot positive (rel.ref_pos has) dev inum)
  · rw [isOwner] at isQ
    exact (Option.some.inj isQ).symm
  · by_cases same : dev = (s.icache slot).dev ∧ inum = (s.icache slot).inum
    · rw [same.1, same.2, State.setDisk_self]
      exact mapped
    · rw [State.setDisk_of_ne s d same]
      exact rel.mapped dev inum

/-- The process has `n` references to an inode now, and the count says so. The entry is
another one only if nobody had a reference. -/
theorem Rel.recount {slot : Slot} {new : Entry P} {n : Nat}
    (ref : new.ref = (s.icache slot).ref + (n - s.held p slot))
    (lock : new.lock = (s.icache slot).lock) (needs : (ghosts p).lock slot ≠ none → 1 ≤ n)
    (unique : 0 < new.ref → ∀ other, other ≠ slot → 0 < (s.icache other).ref → ¬ ((s.icache other).dev = new.dev ∧ (s.icache other).inum = new.inum))
    (holds : ∀ status : Status, 0 < (s.icache slot).ref → status.Holds (s.icache slot) (s.ondisk slot) → status.Holds new (s.disk new.dev new.inum))
    (fresh : (s.icache slot).ref = 0 → new.valid = false ∨ new.ref = 0) :
    Rel ((s.setEntry slot new).setHeld p slot n)
      (update ghosts p { ghosts p with refs := update (ghosts p).refs slot n }) := by
  set after := (s.setEntry slot new).setHeld p slot n
  set ghost : Ghost := { ghosts p with refs := update (ghosts p).refs slot n }
  have isNew : after.icache slot = new := State.setEntry_self ..
  have others : ∀ other, other ≠ slot → after.icache other = s.icache other :=
    fun other different => State.setEntry_of_ne s new different
  have here : after.ondisk slot = s.disk new.dev new.inum := by
    rw [State.ondisk, isNew]
    rfl
  have locks : ∀ q, (update ghosts p ghost q).lock = (ghosts q).lock := by
    intro q
    by_cases isP : q = p
    · rw [isP, update_self]
    · rw [update_of_ne isP]
  have atSlot : ghost.refs slot = n := update_self ..
  have held : after.held = update s.held p ghost.refs := by
    change update s.held p (update (s.held p) slot n) = _
    rw [← show (ghosts p).refs = s.held p from funext (rel.refs p)]
  refine rel.frame others (fun other different _ => ?_) (fun other different => ⟨update_of_ne different _ _, rfl⟩)
    held (by rw [isNew, atSlot, ref]) (by rw [isNew]; exact unique) (by rw [atSlot]; exact needs) (fun q => ?_)
    (fun q status isLocked => ?_) (fun positive isUnlocked => ?_) rel.mapped
  · rw [State.ondisk, others other different]
    rfl
  · rw [isNew, lock, locks]
    exact rel.owner q slot
  · rw [locks] at isLocked
    have has := rel.needs q slot (by simp [isLocked])
    rw [isNew, here]
    exact holds status (rel.ref_pos has) (rel.locked q slot status isLocked)
  · rw [isNew] at positive isUnlocked
    rw [isNew, here]
    by_cases was : 0 < (s.icache slot).ref
    · exact holds .unknown was (rel.unlocked slot was (lock ▸ isUnlocked))
    · have isZero : (s.icache slot).ref = 0 := by
        have nonneg : 0 ≤ (s.icache slot).ref := by
          rw [rel.count slot]
          exact tally_nonneg (fun held => Int.natCast_nonneg _) s.held
        omega
      rcases fresh isZero with invalid | noRef
      · intro isValid
        rw [invalid] at isValid
        cases isValid
      · omega

/-- A process learns more of an inode that it has locked. -/
theorem Rel.learn {slot : Slot} {old status : Status} (isLocked : (ghosts p).lock slot = some old)
    (holds : status.Holds (s.icache slot) (s.ondisk slot)) :
    Rel s (update ghosts p ((ghosts p).setLock slot (some status))) := by
  have isOwner := rel.lock_eq isLocked
  have same : s.setEntry slot (s.icache slot) = s := by
    rw [State.setEntry, update_eq_self]
  have mine : ∀ q, (s.icache slot).lock = some q → q = p := by
    intro q isQ
    rw [isOwner] at isQ
    exact (Option.some.inj isQ).symm
  have changed : Rel (s.setEntry slot (s.icache slot))
      (update ghosts p ((ghosts p).setLock slot (some status))) :=
    rel.change mine rfl rfl rfl isOwner (fun _ => rel.needs p slot (by simp [isLocked])) holds
  rwa [same] at changed

/-- The process gets another reference to an inode that is in use. -/
theorem Rel.addRef {slot : Slot} (positive : 0 < (s.icache slot).ref) :
    Rel ((s.setEntry slot { s.icache slot with ref := (s.icache slot).ref + 1 }).setHeld p slot
      (s.held p slot + 1)) (update ghosts p ((ghosts p).addRef slot)) := by
  have refs : (ghosts p).addRef slot =
      { ghosts p with refs := update (ghosts p).refs slot (s.held p slot + 1) } := by
    rw [Ghost.addRef, rel.refs p slot]
  rw [refs]
  refine rel.recount ?_ rfl (fun _ => Nat.le_add_left 1 _) ?_ (fun status _ holds => holds.congr rfl rfl rfl) ?_
  · simp only
    omega
  · intro _ other different positive' same
    exact different (rel.unique other slot positive' positive same.1 same.2)
  · omega

theorem Rel.dropRef {slot : Slot} (has : 1 ≤ s.held p slot)
    (isUnlocked : (ghosts p).lock slot = none) :
    Rel ((s.setEntry slot { s.icache slot with ref := (s.icache slot).ref - 1 }).setHeld p slot
      (s.held p slot - 1)) (update ghosts p ((ghosts p).dropRef slot)) := by
  have positive := rel.ref_pos has
  have refs : (ghosts p).dropRef slot =
      { ghosts p with refs := update (ghosts p).refs slot (s.held p slot - 1) } := by
    rw [Ghost.dropRef, rel.refs p slot]
  rw [refs]
  refine rel.recount ?_ rfl (fun isLocked => absurd isUnlocked isLocked) ?_
    (fun status _ holds => holds.congr rfl rfl rfl) ?_
  · simp only
    omega
  · intro _ other different positive' same
    exact different (rel.unique other slot positive' positive same.1 same.2)
  · omega

theorem Rel.iget {dev inum : Nat} {slot : Slot} {after : State P}
    (got : s.iget p dev inum = some (slot, after)) :
    Rel after (update ghosts p ((ghosts p).addRef slot)) := by
  unfold State.iget at got
  split at got
  · rename_i found isCached
    cases got
    have isFound := List.find?_some isCached
    simp only [decide_eq_true_eq] at isFound
    exact rel.addRef isFound.1
  · rename_i notCached
    obtain ⟨found, isEmpty, same⟩ := Option.map_eq_some_iff.mp got
    cases same
    have isZero : (s.icache slot).ref = 0 := by simpa using List.find?_some isEmpty
    have nobody := rel.held_zero isZero
    have refs : (ghosts p).addRef slot =
        { ghosts p with refs := update (ghosts p).refs slot (s.held p slot + 1) } := by
      rw [Ghost.addRef, rel.refs p slot]
    rw [refs]
    refine rel.recount ?_ rfl (fun _ => Nat.le_add_left 1 _) ?_ (fun status positive => by omega)
      (fun _ => Or.inl rfl)
    · simp only
      omega
    · intro _ other _ positive same
      have notThis := List.find?_eq_none.mp notCached other (List.mem_finRange other)
      simp only [decide_eq_true_eq] at notThis
      exact notThis ⟨positive, same⟩

/-- Every operation that is allowed keeps `Rel`. -/
theorem Rel.exec {o : Op} {choice : Choice} {answer : o.Answer}
    {after : State P} {post : o.Answer → Ghost → Prop} (allowed : logic.pre o (ghosts p) post)
    (ran : exec p o choice s = some (answer, after)) :
    ∃ ghost, post answer ghost ∧ Rel after (update ghosts p ghost) := by
  have unchanged : Rel s (update ghosts p (ghosts p)) := by
    rw [update_eq_self]
    exact rel
  have mineOf : ∀ {slot status}, (ghosts p).lock slot = some status →
      ∀ q, (s.icache slot).lock = some q → q = p := by
    intro slot status isLocked q isQ
    rw [rel.lock_eq isLocked] at isQ
    exact (Option.some.inj isQ).symm
  cases o with
  | iget dev inum => exact ⟨_, allowed answer, rel.iget ran⟩
  | idup slot =>
    cases ran
    have has : 1 ≤ s.held p slot := rel.refs p slot ▸ allowed.1
    exact ⟨_, allowed.2, rel.addRef (rel.ref_pos has)⟩
  | getRef slot =>
    cases ran
    exact ⟨_, allowed _, unchanged⟩
  | decRef slot =>
    cases ran
    have has : 1 ≤ s.held p slot := rel.refs p slot ▸ allowed.1
    exact ⟨_, allowed.2.2, rel.dropRef has allowed.2.1⟩
  | acquiresleep slot =>
    obtain ⟨isFree, ⟨⟩⟩ := of_guard ran
    have has : 1 ≤ s.held p slot := rel.refs p slot ▸ allowed.1
    have notMine : (ghosts p).lock slot = none := by
      by_contra isLocked
      have isOwner := (rel.owner p slot).mpr isLocked
      rw [isFree] at isOwner
      cases isOwner
    refine ⟨_, allowed.2 notMine, rel.change ?_ rfl rfl rfl rfl (fun _ => has) ?_⟩
    · intro q isQ
      rw [isFree] at isQ
      cases isQ
    · exact (rel.unlocked slot (rel.ref_pos has) isFree).congr rfl rfl rfl
  | releasesleep slot =>
    obtain ⟨⟨status, isLocked, clean⟩, then_⟩ := allowed
    unfold ICache.exec at ran
    simp only [rel.lock_eq isLocked, if_true] at ran
    cases ran
    refine ⟨_, then_, rel.change (mineOf isLocked) rfl rfl rfl rfl (by simp) ?_⟩
    exact (clean.unknown (rel.locked p slot status isLocked)).congr rfl rfl rfl
  | holdingsleep slot =>
    cases ran
    refine ⟨_, ?_, unchanged⟩
    have same : decide ((s.icache slot).lock = some p) = ((ghosts p).lock slot).isSome := by
      rw [Bool.eq_iff_iff, decide_eq_true_iff, rel.owner p slot, Option.isSome_iff_ne_none]
    rw [same]
    exact allowed
  | look slot =>
    cases ran
    change looks slot (ghosts p) post ((ghosts p).lock slot) at allowed
    match isLocked : (ghosts p).lock slot with
    | none =>
      rw [isLocked] at allowed
      exact allowed.elim
    | some status =>
      rw [isLocked] at allowed
      have holds := rel.locked p slot status isLocked
      cases status with
      | unknown =>
        cases isValid : (s.icache slot).valid with
        | false => exact ⟨_, allowed.1 _, rel.learn isLocked isValid⟩
        | true =>
          obtain ⟨isCopy, good, birth⟩ := holds isValid
          rw [isCopy]
          exact ⟨_, allowed.2 _ good, rel.learn isLocked ⟨isValid, isCopy, rfl, good, birth⟩⟩
      | stale =>
        rw [show (s.icache slot).valid = false from holds]
        exact ⟨_, allowed _, unchanged⟩
      | known d =>
        obtain ⟨isValid, isCopy, -⟩ := holds
        rw [isValid, isCopy]
        exact ⟨_, allowed, unchanged⟩
      | dirty d =>
        obtain ⟨isValid, isCopy, -⟩ := holds
        rw [isValid, isCopy]
        exact ⟨_, allowed, unchanged⟩
      | freed =>
        rw [show (s.icache slot).valid = true from holds.1]
        exact ⟨_, allowed _, unchanged⟩
  | ident slot =>
    cases ran
    exact ⟨_, allowed _, unchanged⟩
  | load slot =>
    cases ran
    obtain ⟨isLocked, then_⟩ := allowed
    have isOwner := rel.lock_eq isLocked
    have has := rel.needs p slot (by simp [isLocked])
    by_cases isFree : (s.ondisk slot).inode.type = 0
    · refine ⟨_, (then_ _).2 isFree, rel.change (mineOf isLocked) rfl rfl rfl isOwner (fun _ => has) ?_⟩
      exact ⟨rfl, isFree⟩
    · have good : Good (s.ondisk slot).inode := ⟨isFree, rel.mapped _ _⟩
      refine ⟨_, (then_ _).1 good, rel.change (mineOf isLocked) rfl rfl rfl isOwner (fun _ => has) ?_⟩
      exact ⟨rfl, rfl, rfl, good, rfl⟩
  | modify slot change =>
    cases ran
    change modifies slot change (ghosts p) (post ()) ((ghosts p).lock slot) at allowed
    match isLocked : (ghosts p).lock slot with
    | none | some .unknown | some .stale | some .freed =>
      rw [isLocked] at allowed
      exact allowed.elim
    | some (.known d) =>
      rw [isLocked] at allowed
      obtain ⟨isValid, isCopy, isDisk, good, birth⟩ := rel.locked p slot _ isLocked
      refine ⟨_, allowed, rel.change (mineOf isLocked) rfl rfl rfl (rel.lock_eq isLocked)
        (fun _ => rel.needs p slot (by simp [isLocked])) ?_⟩
      exact ⟨isValid, congrArg change isCopy, isDisk ▸ good.type, birth⟩
    | some (.dirty d) =>
      rw [isLocked] at allowed
      obtain ⟨isValid, isCopy, inUse⟩ := rel.locked p slot _ isLocked
      refine ⟨_, allowed, rel.change (mineOf isLocked) rfl rfl rfl (rel.lock_eq isLocked)
        (fun _ => rel.needs p slot (by simp [isLocked])) ?_⟩
      exact ⟨isValid, congrArg change isCopy, inUse⟩
  | iupdate slot =>
    cases ran
    change updates slot (ghosts p) (post ()) ((ghosts p).lock slot) at allowed
    match isLocked : (ghosts p).lock slot with
    | none | some .unknown | some .stale | some .freed | some (.known d) =>
      rw [isLocked] at allowed
      exact allowed.elim
    | some (.dirty d) =>
      rw [isLocked] at allowed
      obtain ⟨isValid, rfl, inUse, birth⟩ := rel.locked p slot _ isLocked
      rcases allowed with ⟨good, then_⟩ | ⟨isFree, mapped, then_⟩
      · exact ⟨_, then_, rel.write isLocked good.mapped ⟨isValid, rfl, rfl, good, birth⟩⟩
      · exact ⟨_, then_, rel.write isLocked mapped ⟨isValid, isFree⟩⟩
  | invalidate slot =>
    cases ran
    obtain ⟨isLocked, then_⟩ := allowed
    exact ⟨_, then_, rel.change (mineOf isLocked) rfl rfl rfl (rel.lock_eq isLocked)
      (fun _ => rel.needs p slot (by simp [isLocked])) rfl⟩
  | claim dev inum type =>
    unfold ICache.exec at ran
    simp only at ran
    split at ran
    · rename_i isFree
      cases ran
      refine ⟨_, allowed.2 _, ?_⟩
      rw [update_eq_self]
      exact rel.claim isFree
    · cases ran
      exact ⟨_, allowed.2 _, unchanged⟩
  | balloc =>
    obtain ⟨nonzero, ⟨⟩⟩ := of_guard_not ran
    exact ⟨_, allowed _ nonzero, unchanged⟩
  | indirect =>
    cases ran
    exact ⟨_, allowed _, unchanged⟩
  | dirent =>
    cases ran
    exact ⟨_, allowed _, unchanged⟩
  | device =>
    cases ran
    exact ⟨_, allowed _, unchanged⟩
  | panic => cases ran

end

end Xv6.ICache
