import Xv6.Fs.Ownership

/-!
Contract: what becomes of an inode without links when its holders drop their
references at the same time.

`iput` has two sections. Under the sleep-lock of the inode it reads the number of
references and frees the inode if there is only one; under the lock of the inode
cache it takes one off that number. Other holders may run between the two. The inode
is freed when the last holder to look at the number finds that all the others have
taken theirs off, and lost when it does not.
-/

namespace Xv6.Fs

open Function Xv6.Lib

/-- `iput` under `ip->lock`. -/
def iputLocked (p : ProcId) (slot : Slot) : FsM Unit := do
  record (.iput slot)
  acquiresleep p slot
  ifreeIfLast slot
  releasesleep slot

/-- `iput` under `icache.lock`. -/
def iputDrop (slot : Slot) : FsM Unit := setInode slot fun ip => { ip with ref := ip.ref - 1 }

inductive Stage where
  | holds
  | checked
  | gone
deriving DecidableEq

inductive Section (Holder : Type) where
  | check (holder : Holder)
  | drop (holder : Holder)

/-- The file system, how far each holder of a reference is, and the panic that stopped
them. -/
structure Race (Holder : Type) where
  fs : FsState
  stage : Holder → Stage
  halted : Option Halt

section

variable {Holder : Type} [DecidableEq Holder]

def Race.ran (race : Race Holder) (holder : Holder) (stage : Stage)
    (outcome : Except Halt Unit × FsState) : Race Holder :=
  ⟨outcome.2, update race.stage holder stage,
    match outcome.1 with
    | .ok _ => none
    | .error halt => some halt⟩

def raceNext (proc : Holder → ProcId) (slot : Slot) (race : Race Holder) :
    Section Holder → Option (Race Holder)
  | .check holder =>
    if race.halted = none ∧ race.stage holder = .holds then
      some (race.ran holder .checked (iputLocked (proc holder) slot race.fs))
    else none
  | .drop holder =>
    if race.halted = none ∧ race.stage holder = .checked then
      some (race.ran holder .gone (iputDrop slot race.fs))
    else none

/-- Processes that call `iput` on the same inode, each for a reference of its own. -/
def raceSystem (proc : Holder → ProcId) (slot : Slot) : System (Race Holder) (Section Holder) :=
  ⟨raceNext proc slot⟩

def Race.begin (Holder : Type) (fs : FsState) : Race Holder := ⟨fs, fun _ => .holds, none⟩

/-- The holder that is the last to take `ip->lock` does so after all the others have
dropped their references. -/
def LastAlone (race : Race Holder) : Section Holder → Prop
  | .check holder => (∀ other, other ≠ holder → race.stage other ≠ .holds) →
      ∀ other, other ≠ holder → race.stage other = .gone
  | .drop _ => True

instance [Fintype Holder] (race : Race Holder) : ∀ label, Decidable (LastAlone race label)
  | .check holder =>
    inferInstanceAs (Decidable ((∀ other, other ≠ holder → race.stage other ≠ .holds) →
      ∀ other, other ≠ holder → race.stage other = .gone))
  | .drop _ => isTrue trivial

end

/-- A cached inode without links that is up to date and not locked. -/
structure Unlinked (x : Slot) (s : FsState) : Prop extends Current x s where
  super : readsb s.disk = s.sb
  valid : (s.icache x).valid = true
  nlink : (s.icache x).copy.nlink = 0
  unlocked : (s.icache x).lock = none

/-- The inode that `x` cached in `start` is free on the disk, and so are all the blocks it
had. -/
structure Reclaimed (x : Slot) (start s : FsState) : Prop where
  type : (dinodeAt start.sb s.disk (start.icache x).inum).type = 0
  blocks : ∀ pos b, Refers start.sb start.disk (start.icache x).inum pos b →
    bitAt start.sb s.disk b = false

instance (sb : Superblock) (disk : Disk) (i : Nat) (pos : Pos) (b : Nat) :
    Decidable (Refers sb disk i pos b) :=
  inferInstanceAs (Decidable (i < sb.ninodes ∧ (dinodeAt sb disk i).type ≠ 0 ∧
    ref disk (dinodeAt sb disk i) pos = b ∧ b ≠ 0))

section

variable {halts : Halt → FsState → Prop} {x : Slot} {s start : FsState}

/-- All the blocks of the inode are free once they have been given back. -/
theorem Freed.bit_false (current : Current x start)
    (freed : Freed start (start.icache x).inum (fun _ => True) s) {pos : Pos} {b : Nat}
    (refers : Refers start.sb start.disk (start.icache x).inum pos b) :
    b < start.sb.size ∧ (image start.sb s.disk).bit b = false := by
  obtain ⟨inside, -, isRef, nonzero⟩ := refers
  have isCopy := current.onDisk
  rw [image_inode _ inside] at isCopy
  have owns : (image start.sb start.disk).own ((start.icache x).inum, pos) = b := by
    rw [current.own, ← isRef, isCopy]
    exact ref_congr (fun some => image_block _ (current.last_range some)) pos
  have owned := current.owned_disk
  have below := (owned.inRange _ (owns.trans_ne nonzero)).2
  rw [owns] at below
  refine ⟨below, ?_⟩
  rw [← Bool.not_eq_true, freed.exact_all.exact b below, not_or]
  have range := (owned.inRange _ (owns.trans_ne nonzero)).1
  rw [owns] at range
  refine ⟨range, ?_⟩
  rintro ⟨key, some, isB⟩
  by_cases same : key.1 = (start.icache x).inum
  · rw [if_pos same] at some
    exact some rfl
  · rw [if_neg same] at some isB
    have equal := owned.single key _ some (isB.trans owns.symm)
    exact same (congrArg Prod.fst equal)

theorem ifree_spec (current : Current x s) (super : readsb s.disk = s.sb) :
    wp (ifree x) (fun _ s' => Reclaimed x s s' ∧
      ∃ copy, s'.icache x = { s.icache x with copy := copy, valid := false }) halts s := by
  rw [ifree, wp_bind]
  apply wp_itrunc current super
  intro s' freed icache
  have sb := freed.isSb
  have layout : s'.sb.Valid := sb ▸ current.layout
  have inside : (s.icache x).inum < s'.sb.ninodes := sb ▸ current.inside
  have fits : (s.icache x).copy.emptied.Fits :=
    ⟨show 0 < 2 ^ 32 by decide, fun _ => show 0 < 2 ^ 32 by decide⟩
  have cleared : ({ (s.icache x).copy.emptied with type := 0 } : Dinode).Fits :=
    ⟨fits.size, fits.addrs⟩
  simp only [wp_bind, wp_setCopy, wp_iupdate, wp_setInode, FsState.writeInode_icache,
    FsState.put_icache, update_self, icache]
  refine ⟨?_, _, rfl⟩
  generalize isEmptied : s'.writeInode (s.icache x).inum (s.icache x).copy.emptied = s1
  have sb1 : s1.sb = s.sb := by
    rw [← isEmptied, ← sb]
    rfl
  have written : image s.sb (s1.writeInode (s.icache x).inum
      { (s.icache x).copy.emptied with type := 0 }).disk =
      (image s.sb s'.disk).setInode (s.icache x).inum
        { (s.icache x).copy.emptied with type := 0 } := by
    rw [← sb1, FsState.image_writeInode (sb1 ▸ current.layout) (sb1 ▸ current.inside) cleared, sb1,
      ← isEmptied, ← sb, FsState.image_writeInode layout inside fits, Image.setInode_setInode]
  constructor
  · rw [← image_inode _ current.inside]
    change ((image s.sb (s1.writeInode (s.icache x).inum
      { (s.icache x).copy.emptied with type := 0 }).disk).inode (s.icache x).inum).type = 0
    rw [written, Image.setInode_inode, update_self]
  · intro pos b refers
    obtain ⟨below, isFree⟩ := freed.bit_false current refers
    rw [← image_bit _ below]
    change (image s.sb (s1.writeInode (s.icache x).inum
      { (s.icache x).copy.emptied with type := 0 }).disk).bit b = false
    rw [written, Image.setInode_bit, isFree]

theorem iputLocked_last (unlinked : Unlinked x s) (p : ProcId) (single : (s.icache x).ref = 1) :
    wp (iputLocked p x) (fun _ s' => Reclaimed x s s' ∧ (s'.icache x).ref = 1 ∧
      (s'.icache x).lock = none ∧ (s'.icache x).valid = false) halts s := by
  have isLast : (s.icache x).valid = true ∧ (s.icache x).copy.nlink = 0 ∧ (s.icache x).ref = 1 :=
    ⟨unlinked.valid, unlinked.nlink, single⟩
  simp only [iputLocked, acquiresleep, ifreeIfLast, releasesleep, wp_bind, wp_record, wp_get,
    FsState.log_icache, unlinked.unlocked, ↓reduceIte, wp_setInode, FsState.put_icache,
    update_self, if_pos isLast]
  generalize isLocked : (s.log (.iput x)).put x { s.icache x with lock := some p } = s1
  have sb : s1.sb = s.sb := by
    rw [← isLocked]
    rfl
  have disk : s1.disk = s.disk := by
    rw [← isLocked]
    rfl
  have atX : s1.icache x = { s.icache x with lock := some p } := by
    rw [← isLocked, FsState.put_icache, update_self]
  have current : Current x s1 :=
    unlinked.toCurrent.congr sb disk (by rw [atX]) (by rw [atX])
  apply (ifree_spec current (by rw [disk, sb, unlinked.super])).mono
  rintro _ s2 ⟨reclaimed, copy, isFree⟩
  rw [isFree, atX]
  refine ⟨⟨?_, ?_⟩, single, trivial, rfl⟩
  · have type := reclaimed.type
    rw [sb, atX] at type
    exact type
  · have blocks := reclaimed.blocks
    rw [sb, disk, atX] at blocks
    exact blocks

/-- The first section of `iput` by a holder that is not alone, or of an inode that has
been freed. -/
theorem iputLocked_other (unlocked : (s.icache x).lock = none) (p : ProcId)
    (other : ¬ ((s.icache x).valid = true ∧ (s.icache x).copy.nlink = 0 ∧ (s.icache x).ref = 1)) :
    wp (iputLocked p x) (fun _ s' => s'.sb = s.sb ∧ s'.disk = s.disk ∧ s'.icache = s.icache)
      halts s := by
  simp only [iputLocked, acquiresleep, ifreeIfLast, releasesleep, wp_bind, wp_record, wp_get,
    FsState.log_icache, unlocked, ↓reduceIte, wp_setInode, FsState.put_icache,
    update_self, if_neg other, wp_pure, FsState.put_put]
  refine ⟨rfl, rfl, ?_⟩
  rw [update_idem, ← unlocked]
  exact update_eq_self x s.icache

end

section

variable {Holder : Type} [DecidableEq Holder] [Fintype Holder] {proc : Holder → ProcId} {x : Slot}
  {start : FsState} {race race' : Race Holder} {holder : Holder}

def remaining (race : Race Holder) : Finset Holder :=
  Finset.univ.filter fun holder => race.stage holder ≠ .gone

/-- The inode is as it was and somebody has yet to look at it, or it has been freed. -/
structure RaceInv (x : Slot) (start : FsState) (race : Race Holder) : Prop where
  goes : race.halted = none
  refs : (race.fs.icache x).ref = (remaining race).card
  unlocked : (race.fs.icache x).lock = none
  outcome : (race.fs.sb = start.sb ∧ race.fs.disk = start.disk ∧
      (race.fs.icache x).inum = (start.icache x).inum ∧
      (race.fs.icache x).copy = (start.icache x).copy ∧ (race.fs.icache x).valid = true ∧
      ∃ holder, race.stage holder = .holds) ∨
    (Reclaimed x start race.fs ∧ (race.fs.icache x).valid = false)

theorem remaining_check (isHolder : race.stage holder = .holds)
    (outcome : Except Halt Unit × FsState) :
    remaining (race.ran holder .checked outcome) = remaining race := by
  apply Finset.filter_congr
  intro other _
  by_cases same : other = holder
  · simp [Race.ran, same, isHolder]
  · simp [Race.ran, same]

theorem remaining_drop (race : Race Holder) (holder : Holder) (outcome : Except Halt Unit × FsState) :
    remaining (race.ran holder .gone outcome) = (remaining race).erase holder := by
  ext other
  rw [Finset.mem_erase, remaining, remaining, Finset.mem_filter, Finset.mem_filter]
  by_cases same : other = holder
  · simp [Race.ran, same]
  · simp [Race.ran, same]

omit [Fintype Holder] in
theorem Race.ran_of_wp {stage : Stage} {program : FsM Unit} {post : Unit → FsState → Prop}
    (spec : wp program post (fun _ _ => False) race.fs) :
    ∃ fs, race.ran holder stage (program race.fs) =
      ⟨fs, update race.stage holder stage, none⟩ ∧ post () fs := by
  obtain ⟨value, fs, ran, holds⟩ := spec.returns
  exact ⟨fs, by simp [Race.ran, ran], holds⟩

/-- A holder that is not alone is not the last to look. -/
theorem RaceInv.another_holds (inv : RaceInv x start race) (isHolder : race.stage holder = .holds)
    (alone : LastAlone race (.check holder)) (notSingle : (race.fs.icache x).ref ≠ 1) :
    ∃ other, other ≠ holder ∧ race.stage other = .holds := by
  by_contra none
  have gone := alone fun other different isHolds => none ⟨other, different, isHolds⟩
  have single : remaining race = {holder} := by
    ext other
    rw [remaining, Finset.mem_filter, Finset.mem_singleton]
    by_cases same : other = holder
    · simp [same, isHolder]
    · simp [same, gone other same]
  have refs := inv.refs
  rw [single, Finset.card_singleton] at refs
  exact notSingle refs

theorem RaceInv.check (unlinked : Unlinked x start) (inv : RaceInv x start race)
    (isHolder : race.stage holder = .holds) (alone : LastAlone race (.check holder)) :
    RaceInv x start (race.ran holder .checked (iputLocked (proc holder) x race.fs)) := by
  have same := remaining_check isHolder (iputLocked (proc holder) x race.fs)
  by_cases isLast : (race.fs.icache x).valid = true ∧ (race.fs.icache x).copy.nlink = 0 ∧
      (race.fs.icache x).ref = 1
  · rcases inv.outcome with ⟨sb, disk, inum, copy, valid, -⟩ | ⟨-, notValid⟩
    · have here : Unlinked x race.fs :=
        ⟨unlinked.toCurrent.congr sb disk inum copy, by rw [disk, sb, unlinked.super], valid,
          isLast.2.1, inv.unlocked⟩
      obtain ⟨fs, isRan, reclaimed, ref, unlocked, notValid⟩ :=
        Race.ran_of_wp (iputLocked_last here (proc holder) isLast.2.2)
      rw [isRan] at same ⊢
      refine ⟨rfl, ?_, unlocked, Or.inr ⟨⟨?_, ?_⟩, notValid⟩⟩
      · rw [same, ← inv.refs, isLast.2.2]
        exact ref
      · have type := reclaimed.type
        rw [sb, inum] at type
        exact type
      · have blocks := reclaimed.blocks
        rw [sb, disk, inum] at blocks
        exact blocks
    · rw [notValid] at isLast
      exact absurd isLast.1 Bool.false_ne_true
  · obtain ⟨fs, isRan, sb, disk, icache⟩ :=
      Race.ran_of_wp (iputLocked_other inv.unlocked (proc holder) isLast)
    rw [isRan] at same ⊢
    refine ⟨rfl, ?_, ?_, ?_⟩
    · rw [same, ← inv.refs]
      exact congrArg (fun cache => (cache x).ref) icache
    · rw [← inv.unlocked]
      exact congrArg (fun cache => (cache x).lock) icache
    · rcases inv.outcome with ⟨sb', disk', inum, copy, valid, -⟩ | ⟨reclaimed, notValid⟩
      · left
        simp only [sb, disk, icache]
        refine ⟨sb', disk', inum, copy, valid, ?_⟩
        have another := inv.another_holds isHolder alone fun single =>
          isLast ⟨valid, copy ▸ unlinked.nlink, single⟩
        obtain ⟨other, different, otherHolds⟩ := another
        exact ⟨other, by rw [update_of_ne different, otherHolds]⟩
      · right
        simp only [icache]
        refine ⟨⟨?_, ?_⟩, notValid⟩
        · rw [disk]
          exact reclaimed.type
        · rw [disk]
          exact reclaimed.blocks

theorem RaceInv.drop (inv : RaceInv x start race) (isChecked : race.stage holder = .checked) :
    RaceInv x start (race.ran holder .gone (iputDrop x race.fs)) := by
  have fewer := remaining_drop race holder (iputDrop x race.fs)
  have member : holder ∈ remaining race := by
    rw [remaining, Finset.mem_filter, isChecked]
    exact ⟨Finset.mem_univ _, Stage.noConfusion⟩
  have atX : (race.ran holder .gone (iputDrop x race.fs)).fs.icache x =
      { race.fs.icache x with ref := (race.fs.icache x).ref - 1 } :=
    update_self x _ race.fs.icache
  refine ⟨rfl, ?_, ?_, ?_⟩
  · have positive := Finset.card_pos.mpr ⟨holder, member⟩
    have refs := inv.refs
    rw [fewer, atX, Finset.card_erase_of_mem member]
    simp only
    omega
  · rw [atX]
    exact inv.unlocked
  · rw [atX]
    rcases inv.outcome with ⟨sb, disk, inum, copy, valid, other, otherHolds⟩ | reclaimed
    · refine Or.inl ⟨sb, disk, inum, copy, valid, other, ?_⟩
      have different : other ≠ holder := by
        rintro rfl
        rw [isChecked] at otherHolds
        cases otherHolds
      exact (update_of_ne different _ _).trans otherHolds
    · exact Or.inr ⟨⟨reclaimed.1.type, reclaimed.1.blocks⟩, reclaimed.2⟩

theorem race_preserved (unlinked : Unlinked x start) (race : Race Holder) (label : Section Holder)
    (after : Race Holder) (inv : RaceInv x start race) (alone : LastAlone race label)
    (stepped : raceNext proc x race label = some after) : RaceInv x start after := by
  cases label with
  | check holder =>
    simp only [raceNext, Option.ite_none_right_eq_some, Option.some.injEq] at stepped
    obtain ⟨⟨-, isHolder⟩, rfl⟩ := stepped
    exact inv.check unlinked isHolder alone
  | drop holder =>
    simp only [raceNext, Option.ite_none_right_eq_some, Option.some.injEq] at stepped
    obtain ⟨⟨-, isChecked⟩, rfl⟩ := stepped
    exact inv.drop isChecked

omit [DecidableEq Holder] in
theorem race_begin [Nonempty Holder] (unlinked : Unlinked x start)
    (refs : (start.icache x).ref = Fintype.card Holder) :
    RaceInv x start (Race.begin Holder start) := by
  refine ⟨rfl, ?_, unlinked.unlocked,
    Or.inl ⟨rfl, rfl, rfl, rfl, unlinked.valid, Classical.arbitrary Holder, rfl⟩⟩
  have all : remaining (Race.begin Holder start) = Finset.univ :=
    Finset.filter_true_of_mem fun _ _ => Stage.noConfusion
  rw [all, Finset.card_univ]
  exact refs

omit [Fintype Holder] [DecidableEq Holder] in
theorem Inv.unlinked {fixed : Superblock} {held : Holds} {locks : Locks} {s : FsState}
    (inv : Inv fixed none held locks s) (free : locks x = none) (positive : 0 < (s.icache x).ref)
    (valid : (s.icache x).valid = true) (nlink : (s.icache x).copy.nlink = 0) : Unlinked x s := by
  obtain ⟨isInode, allocated⟩ := inv.cached x positive valid
  have views : view (some x) s = view none s := by
    rw [view_some, isInode, view_none, Image.setInode_self]
  refine ⟨⟨⟨inv.layout, inv.inside x positive, allocated, ?_, ?_⟩, isInode.symm⟩, inv.super, valid,
    nlink, inv.unlocked x free⟩
  · rw [isInode]
    exact inv.good.fits _
  · rw [views]
    exact inv.good.exact

end

/-- The file `/f` of one block is made and opened by one process, opened by another, and
unlinked. -/
def openTwice : List (ProcId × Call) :=
  [(⟨0, NPROC_pos⟩, .fork ⟨1, one_lt_NPROC⟩),
    (⟨0, NPROC_pos⟩, .open (some [47, 102]) (O_CREATE ||| O_RDWR)),
    (⟨0, NPROC_pos⟩, .write 0 (some [7])),
    (⟨1, one_lt_NPROC⟩, .open (some [47, 102]) O_RDONLY),
    (⟨0, NPROC_pos⟩, .unlink (some [47, 102]))]

def openTwiceSlot : Slot := ⟨1, one_lt_NINODE⟩

def twoProcs (second : Bool) : ProcId := if second then ⟨1, one_lt_NPROC⟩ else ⟨0, NPROC_pos⟩

theorem openTwice_unlinked {m : Machine}
    (ran : callSystem.run (boot (smallDisk 1) noDevices) openTwice = some m) :
    Unlinked openTwiceSlot m.sys.fs ∧ (m.sys.fs.icache openTwiceSlot).ref = 2 := by
  have ends : (callSystem.run (boot (smallDisk 1) noDevices) openTwice).map (fun m =>
      (m.halted, (m.sys.fs.icache openTwiceSlot).ref, (m.sys.fs.icache openTwiceSlot).valid,
        (m.sys.fs.icache openTwiceSlot).copy.nlink)) = some (none, 2, true, 0) := by
    decide +kernel
  rw [ran, Option.map_some, Option.some.injEq, Prod.mk.injEq, Prod.mk.injEq, Prod.mk.injEq] at ends
  obtain ⟨goes, ref, valid, nlink⟩ := ends
  have inv := smallDisk_machineInv ran
  exact ⟨(inv.goes goes).fs.unlinked rfl (by rw [ref]; decide) valid nlink, ref⟩

section

variable {Holder : Type} [DecidableEq Holder] [Fintype Holder] {proc : Holder → ProcId} {x : Slot}
  {start : FsState} {race : Race Holder}

/-- An inode without links is freed with its last reference, if the last holder to take
its lock does so when all the others have dropped theirs. -/
theorem unlinked_freed [Nonempty Holder] (unlinked : Unlinked x start)
    (refs : (start.icache x).ref = Fintype.card Holder) {labels : List (Section Holder)}
    (alone : (raceSystem proc x).Meets LastAlone (Race.begin Holder start) labels)
    (ran : (raceSystem proc x).run (Race.begin Holder start) labels = some race) :
    race.halted = none ∧ ((race.fs.icache x).ref = 0 → Reclaimed x start race.fs) := by
  have inv : RaceInv x start race :=
    System.run_preserves_of_meets (RaceInv x start) (race_preserved unlinked)
      (race_begin unlinked refs) alone ran
  refine ⟨inv.goes, fun none => ?_⟩
  rcases inv.outcome with ⟨-, -, -, -, -, holder, isHolder⟩ | ⟨reclaimed, -⟩
  · have member : holder ∈ remaining race := by
      simp [remaining, isHolder]
    have positive := Finset.card_pos.mpr ⟨holder, member⟩
    have refs := inv.refs
    omega
  · exact reclaimed

end

/-- The second process takes the lock when the first has dropped its reference. -/
theorem unlinked_freed_inTurn :
    ∃ m race, callSystem.run (boot (smallDisk 1) noDevices) openTwice = some m ∧
      (raceSystem twoProcs openTwiceSlot).run (Race.begin Bool m.sys.fs)
        [.check false, .drop false, .check true, .drop true] = some race ∧
      (race.fs.icache openTwiceSlot).ref = 0 ∧ Reclaimed openTwiceSlot m.sys.fs race.fs := by
  have ends : (callSystem.run (boot (smallDisk 1) noDevices) openTwice).map (fun m =>
      (decide ((raceSystem twoProcs openTwiceSlot).Meets LastAlone (Race.begin Bool m.sys.fs)
          [.check false, .drop false, .check true, .drop true]),
        ((raceSystem twoProcs openTwiceSlot).run (Race.begin Bool m.sys.fs)
          [.check false, .drop false, .check true, .drop true]).map
          fun race => (race.fs.icache openTwiceSlot).ref)) = some (true, some 0) := by
    decide +kernel
  obtain ⟨m, ran, final⟩ := Option.map_eq_some_iff.mp ends
  obtain ⟨alone, final⟩ := Prod.mk.inj final
  obtain ⟨race, raced, ref⟩ := Option.map_eq_some_iff.mp final
  obtain ⟨unlinked, refs⟩ := openTwice_unlinked ran
  exact ⟨m, race, ran, raced, ref,
    (unlinked_freed unlinked (refs.trans rfl) (of_decide_eq_true alone) raced).2 ref⟩

/-- Both processes see two references before either drops its own. The inode stays
allocated, and its block in use, when nobody refers to it any more. -/
theorem unlinked_lost :
    ∃ m race, callSystem.run (boot (smallDisk 1) noDevices) openTwice = some m ∧
      Unlinked openTwiceSlot m.sys.fs ∧
      (m.sys.fs.icache openTwiceSlot).ref = Fintype.card Bool ∧
      (raceSystem twoProcs openTwiceSlot).run (Race.begin Bool m.sys.fs)
        [.check false, .check true, .drop false, .drop true] = some race ∧
      race.halted = none ∧ (race.fs.icache openTwiceSlot).ref = 0 ∧
      (dinodeAt m.sys.fs.sb race.fs.disk (m.sys.fs.icache openTwiceSlot).inum).type = T_FILE ∧
      Refers m.sys.fs.sb m.sys.fs.disk (m.sys.fs.icache openTwiceSlot).inum (.slot 0) 35 ∧
      bitAt m.sys.fs.sb race.fs.disk 35 = true := by
  have ends : (callSystem.run (boot (smallDisk 1) noDevices) openTwice).map (fun m =>
      ((raceSystem twoProcs openTwiceSlot).run (Race.begin Bool m.sys.fs)
        [.check false, .check true, .drop false, .drop true]).map fun race =>
          decide (race.halted = none ∧ (race.fs.icache openTwiceSlot).ref = 0 ∧
            (dinodeAt m.sys.fs.sb race.fs.disk (m.sys.fs.icache openTwiceSlot).inum).type = T_FILE ∧
            Refers m.sys.fs.sb m.sys.fs.disk (m.sys.fs.icache openTwiceSlot).inum (.slot 0) 35 ∧
            bitAt m.sys.fs.sb race.fs.disk 35 = true)) = some (some true) := by
    decide +kernel
  obtain ⟨m, ran, final⟩ := Option.map_eq_some_iff.mp ends
  obtain ⟨race, raced, lost⟩ := Option.map_eq_some_iff.mp final
  obtain ⟨unlinked, refs⟩ := openTwice_unlinked ran
  exact ⟨m, race, ran, unlinked, refs.trans rfl, raced, of_decide_eq_true lost⟩

end Xv6.Fs
