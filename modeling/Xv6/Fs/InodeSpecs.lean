import Xv6.Fs.Invariant

/-!
Contract: what the inode layer does to the invariant: references, locks, and the
inode on the disk.

Every lemma is about one function, started in a state where the invariant holds. The
function ends in a state where it holds again, for the references and locks that the
lemma names, or it halts without freeing a free block.
-/

namespace Xv6.Fs

open Function Xv6.Lib

namespace FsState

variable (s : FsState)

def log (event : Event) : FsState := { s with trace := event :: s.trace }

def put (x : Slot) (ip : Inode) : FsState := { s with icache := update s.icache x ip }

def write (b : Nat) (data : Block) : FsState :=
  { s with disk := update s.disk b data, trace := .logWrite b :: s.trace }

@[simp] theorem log_disk (event : Event) : (s.log event).disk = s.disk := rfl

@[simp] theorem log_icache (event : Event) : (s.log event).icache = s.icache := rfl

@[simp] theorem put_disk (x : Slot) (ip : Inode) : (s.put x ip).disk = s.disk := rfl

@[simp] theorem put_sb (x : Slot) (ip : Inode) : (s.put x ip).sb = s.sb := rfl

@[simp] theorem put_icache (x : Slot) (ip : Inode) :
    (s.put x ip).icache = update s.icache x ip := rfl

@[simp] theorem put_put (x : Slot) (ip ip' : Inode) : (s.put x ip).put x ip' = s.put x ip' := by
  simp only [put, update_idem]

@[simp] theorem write_disk (b : Nat) (data : Block) :
    (s.write b data).disk = update s.disk b data := rfl

@[simp] theorem write_sb (b : Nat) (data : Block) : (s.write b data).sb = s.sb := rfl

@[simp] theorem write_icache (b : Nat) (data : Block) : (s.write b data).icache = s.icache := rfl

end FsState

variable {post : Unit → FsState → Prop}

section

variable {halts : Halt → FsState → Prop} {s : FsState}

@[simp] theorem wp_record {event : Event} :
    wp (record event) post halts s ↔ post () (s.log event) := Iff.rfl

@[simp] theorem wp_setInode {x : Slot} {change : Inode → Inode} :
    wp (setInode x change) post halts s ↔ post () (s.put x (change (s.icache x))) := Iff.rfl

@[simp] theorem wp_bread {b : Nat} {post : Block → FsState → Prop} :
    wp (bread b) post halts s ↔ post (s.disk b) s := Iff.rfl

@[simp] theorem wp_logWrite {b : Nat} {data : Block} :
    wp (logWrite b data) post halts s ↔ post () (s.write b data) := Iff.rfl

end

namespace Quiet

variable {s : FsState} (quiet : Quiet s)
include quiet

theorem log {event : Event} (harmless : ∀ b, event ≠ .balloc .readi b) : Quiet (s.log event) := by
  intro b member
  rcases List.mem_cons.mp member with same | before
  · exact harmless b same.symm
  · exact quiet b before

theorem put (x : Slot) (ip : Inode) : Quiet (s.put x ip) := quiet

theorem write (b : Nat) (data : Block) : Quiet (s.write b data) := by
  intro b' member
  rcases List.mem_cons.mp member with same | before
  · cases same
  · exact quiet b' before

end Quiet

/-- An inode without links is in the cache, where the last reference frees it. -/
def Moored (s : FsState) (i : Nat) : Prop :=
  ((image s.sb s.disk).inode i).type ≠ 0 → ((image s.sb s.disk).inode i).nlink = 0 →
    ∃ x, 0 < (s.icache x).ref ∧ (s.icache x).inum = i ∧ (s.icache x).valid = true

def Moors (s s' : FsState) : Prop := ∀ i, Moored s i → Moored s' i

theorem Moors.refl (s : FsState) : Moors s s := fun _ => id

theorem Moors.trans {s s' s'' : FsState} (first : Moors s s') (second : Moors s' s'') :
    Moors s s'' :=
  fun i moored => second i (first i moored)

/-- The entries of the cache that `held` refers to are for the same inodes, and no inode
without links has been lost. -/
structure Stays (held : Holds) (s s' : FsState) : Prop where
  inums : ∀ x k, (x, k) ∈ held → (s'.icache x).inum = (s.icache x).inum
  moors : Moors s s'

namespace Stays

variable {held held' : Holds} {s s' s'' : FsState}

theorem refl (held : Holds) (s : FsState) : Stays held s s := ⟨fun _ _ _ => rfl, Moors.refl s⟩

theorem log (held : Holds) (s : FsState) (event : Event) : Stays held s (s.log event) :=
  ⟨fun _ _ _ => rfl, fun _ => id⟩

theorem trans (first : Stays held s s') (second : Stays held s' s'') : Stays held s s'' :=
  ⟨fun x k member => (second.inums x k member).trans (first.inums x k member),
    first.moors.trans second.moors⟩

theorem mono (stays : Stays held s s') (fewer : held' ⊆ held) : Stays held' s s' :=
  ⟨fun x k member => stays.inums x k (fewer member), stays.moors⟩

theorem put (held : Holds) {x : Slot} {ip : Inode} (inum : ip.inum = (s.icache x).inum)
    (ref : 0 < (s.icache x).ref → 0 < ip.ref)
    (valid : (s.icache x).valid = true → ip.valid = true) : Stays held s (s.put x ip) := by
  constructor
  · intro y _ _
    by_cases same : y = x
    · rw [same, FsState.put_icache, update_self, inum]
    · rw [FsState.put_icache, update_of_ne same]
  · intro i moored allocated unlinked
    obtain ⟨y, positive, isInum, isValid⟩ := moored allocated unlinked
    refine ⟨y, ?_⟩
    by_cases same : y = x
    · subst same
      rw [FsState.put_icache, update_self]
      exact ⟨ref positive, inum.trans isInum, valid isValid⟩
    · rw [FsState.put_icache, update_of_ne same]
      exact ⟨positive, isInum, isValid⟩

end Stays

theorem Inv.inum_stays {fixed : Superblock} {dirty : Option Slot} {held : Holds} {locks : Locks}
    {s s' : FsState} {x : Slot} {d : Dinode} (inv : Inv fixed dirty held locks s)
    (locked : locks x = some d) (stays : Stays held s s') :
    (s'.icache x).inum = (s.icache x).inum := by
  have positive := (inv.locked x d locked).1
  rw [inv.refs] at positive
  obtain ⟨⟨_, k⟩, member, rfl⟩ := Multiset.mem_map.mp (Multiset.count_pos.mp (by exact_mod_cast positive))
  exact stays.inums _ k member

structure Frozen (held : Holds) (s s' : FsState) : Prop where
  sb : s'.sb = s.sb
  disk : s'.disk = s.disk
  stays : Stays held s s'

namespace Frozen

variable {held held' : Holds} {s s' s'' : FsState}

theorem refl (held : Holds) (s : FsState) : Frozen held s s := ⟨rfl, rfl, Stays.refl held s⟩

theorem trans (first : Frozen held s s') (second : Frozen held s' s'') : Frozen held s s'' :=
  ⟨second.sb.trans first.sb, second.disk.trans first.disk, first.stays.trans second.stays⟩

theorem mono (frozen : Frozen held s s') (fewer : held' ⊆ held) : Frozen held' s s' :=
  ⟨frozen.sb, frozen.disk, frozen.stays.mono fewer⟩

theorem log (held : Holds) (s : FsState) (event : Event) : Frozen held s (s.log event) :=
  ⟨rfl, rfl, Stays.log held s event⟩

theorem put (held : Holds) {x : Slot} {ip : Inode} (inum : ip.inum = (s.icache x).inum)
    (ref : 0 < (s.icache x).ref → 0 < ip.ref)
    (valid : (s.icache x).valid = true → ip.valid = true) : Frozen held s (s.put x ip) :=
  ⟨rfl, rfl, Stays.put held inum ref valid⟩

end Frozen

theorem unlock_lock {locks : Locks} {x : Slot} (free : locks x = none) (value : Option Dinode) :
    update (update locks x value) x none = locks := by
  rw [update_idem, ← free, update_eq_self]

section

variable {fixed : Superblock} {broken stuck : Prop} {held : Holds} {locks : Locks} {s : FsState} {x : Slot}
  {k : Bool} {d : Dinode}

section

variable (inv : Inv fixed none held locks s)

include inv

theorem Inv.addRef (positive : 0 < (s.icache x).ref) :
    Inv fixed none ((x, false) ::ₘ held) locks
      (s.put x { s.icache x with ref := (s.icache x).ref + 1 }) := by
  apply inv.recache (x := x)
  · rfl
  · rfl
  · rfl
  · exact inv.quiet
  · rw [inv.refs, Multiset.map_cons, Multiset.count_cons_self]
    push_cast
    rfl
  · intro y different
    rw [Multiset.map_cons, Multiset.count_cons_of_ne different]
  · intro y _ member
    simpa using member
  · exact fun _ _ => rfl
  · exact fun _ => ⟨inv.inside x positive, fun y different => inv.inum_ne positive different⟩
  · exact fun _ => inv.cached x positive
  · intro member
    exact inv.pinned x (by simpa using member)
  · intro d locked
    obtain ⟨-, rest⟩ := inv.locked x d locked
    refine ⟨?_, rest⟩
    simp only
    omega
  · exact inv.unlocked x

theorem idup_spec (member : (x, k) ∈ held) :
    wp (idup x) (fun y s' => y = x ∧ Inv fixed none ((x, false) ::ₘ held) locks s' ∧
      Frozen held s s') (Stops broken stuck) s := by
  simp only [idup, wp_bind, wp_setInode, wp_pure, true_and]
  exact ⟨inv.addRef (inv.ref_pos member), Frozen.put held rfl (by simp only; omega) id⟩

variable {inum : Nat}

/-- An entry without references is taken for the inode `inum`. -/
theorem Inv.recycle (free : (s.icache x).ref = 0) (inside : inum < s.sb.ninodes)
    (absent : ∀ y, ¬ (0 < (s.icache y).ref ∧ (s.icache y).inum = inum)) :
    Inv fixed none ((x, false) ::ₘ held) locks
      (s.put x { s.icache x with inum := inum, ref := 1, valid := false }) := by
  have notPinned : (x, true) ∉ held := by
    intro member
    have positive := inv.ref_pos member
    omega
  have count : (held.map Prod.fst).count x = 0 := by
    have refs := inv.refs x
    omega
  apply inv.recache (x := x)
  · rfl
  · rfl
  · rfl
  · exact inv.quiet
  · rw [Multiset.map_cons, Multiset.count_cons_self, count]
    rfl
  · intro y different
    rw [Multiset.map_cons, Multiset.count_cons_of_ne different]
  · intro y _ member
    simpa using member
  · exact fun _ _ => rfl
  · exact fun _ => ⟨inside, fun y _ positive same => absent y ⟨positive, same⟩⟩
  · intro _ isValid
    cases isValid
  · intro member
    simp [notPinned] at member
  · intro d locked
    have positive := (inv.locked x d locked).1
    omega
  · exact inv.unlocked x

theorem iget_spec (inside : inum < s.sb.ninodes) :
    wp (iget inum) (fun x s' => Inv fixed none ((x, false) ::ₘ held) locks s' ∧
      (s'.icache x).inum = inum ∧ Frozen held s s') (Stops broken stuck) s := by
  simp only [iget, wp_bind, wp_get]
  split
  · rename_i x found
    have cached := List.find?_some found
    simp only [decide_eq_true_eq] at cached
    simp only [wp_bind, wp_setInode, wp_pure, FsState.put_icache, update_self]
    exact ⟨inv.addRef cached.1, cached.2, Frozen.put held rfl (by simp only; omega) id⟩
  · rename_i absent
    split
    · rename_i x found
      have free := List.find?_some found
      simp only [decide_eq_true_eq] at free
      simp only [wp_bind, wp_setInode, wp_pure, FsState.put_icache, update_self, true_and]
      have other : ∀ y, 0 < (s.icache y).ref → y ≠ x := by
        rintro y positive rfl
        omega
      refine ⟨inv.recycle free inside ?_, rfl, rfl, ?_, ?_⟩
      · intro y cached
        rw [List.find?_eq_none] at absent
        exact absent y (List.mem_finRange y) (by simpa using cached)
      · intro y k member
        rw [FsState.put_icache, update_of_ne (other y (inv.ref_pos member))]
      · intro i moored allocated unlinked
        obtain ⟨y, positive, isCached⟩ := moored allocated unlinked
        refine ⟨y, ?_⟩
        rw [FsState.put_icache, update_of_ne (other y positive)]
        exact ⟨positive, isCached⟩
    · rw [wp_halt]
      exact ⟨by decide, by simp, by simp, inv.quiet⟩

theorem Inv.relock (positive : 0 < (s.icache x).ref) {ip : Inode}
    {value : Option Dinode} (ref : ip.ref = (s.icache x).ref) (inum : ip.inum = (s.icache x).inum)
    (cached : ip.valid = true → ip.copy = (image s.sb s.disk).inode ip.inum ∧ ip.copy.type ≠ 0)
    (locked : ∀ d, value = some d → ip.valid = true ∧ ip.lock ≠ none ∧ ip.copy = d)
    (unlocked : value = none → ip.lock = none) :
    Inv fixed none held (update locks x value) (s.put x ip) := by
  apply inv.recache (x := x)
  · rfl
  · rfl
  · rfl
  · exact inv.quiet
  · rw [ref, inv.refs]
  · exact fun _ _ => rfl
  · exact fun _ _ member => member
  · exact fun y different => update_of_ne different _ _
  · intro _
    rw [inum]
    exact ⟨inv.inside x positive, fun y different => inv.inum_ne positive different⟩
  · exact fun _ => cached
  · intro member
    rw [inum]
    exact inv.pinned x member
  · intro d isLock
    rw [update_self] at isLock
    exact ⟨ref ▸ positive, locked d isLock⟩
  · intro isFree
    rw [update_self] at isFree
    exact unlocked isFree

/-- Whoever waits for a lock waits for one that is held. -/
theorem Inv.waits (awake : ∀ d, locks x = some d → stuck)
    (taken : (s.icache x).lock ≠ none) : stuck := by
  cases lock : locks x with
  | none => exact absurd (inv.unlocked x lock) taken
  | some d => exact awake d lock

theorem ilock_spec (p : ProcId) (member : (x, k) ∈ held) (awake : ∀ d, locks x = some d → stuck) :
    wp (ilock p x) (fun _ s' => ∃ d, locks x = none ∧
      d = (image s.sb s.disk).inode (s.icache x).inum ∧ d.type ≠ 0 ∧
      Inv fixed none held (update locks x (some d)) s' ∧ Frozen held s s')
      (Stops broken stuck) s := by
  have positive := inv.ref_pos member
  simp only [ilock, wp_bind, wp_get, wp_ite, wp_halt]
  refine ⟨fun below => absurd below (by omega), fun _ => ?_⟩
  simp only [acquiresleep, wp_bind, wp_get, wp_ite, wp_setInode, wp_halt]
  refine ⟨fun free => ?_, fun taken =>
    ⟨by decide, by simp, fun _ => inv.waits awake taken, inv.quiet⟩⟩
  have isFree : locks x = none := by
    cases lock : locks x with
    | none => rfl
    | some d => exact absurd free (inv.locked x d lock).2.2.1
  refine ⟨fun isValid => ?_, fun _ => ?_⟩
  · obtain ⟨isInode, allocated⟩ := inv.cached x positive isValid
    rw [wp_pure]
    refine ⟨(s.icache x).copy, isFree, isInode, allocated, ?_, Frozen.put held rfl id id⟩
    apply inv.relock positive
    · rfl
    · rfl
    · exact fun _ => ⟨isInode, allocated⟩
    · intro d isCopy
      exact ⟨isValid, Option.some_ne_none p, Option.some.inj isCopy⟩
    · intro isNone
      cases isNone
  · have onDisk := image_inode s.disk (inv.inside x positive)
    simp only [ifill, wp_bind, wp_get, wp_setInode, wp_ite, wp_halt, wp_pure, FsState.put_icache,
      FsState.put_sb, FsState.put_disk, update_self]
    refine ⟨fun _ => ⟨by decide, by simp, by simp, inv.quiet⟩, fun allocated => ?_⟩
    rw [FsState.put_put]
    refine ⟨_, isFree, rfl, onDisk ▸ allocated, ?_, Frozen.put held rfl id fun _ => rfl⟩
    apply inv.relock positive
    · rfl
    · rfl
    · exact fun _ => ⟨onDisk.symm, allocated⟩
    · intro d isCopy
      exact ⟨rfl, Option.some_ne_none p, onDisk.symm.trans (Option.some.inj isCopy)⟩
    · intro isNone
      cases isNone

theorem iunlock_spec (p : ProcId) (locked : locks x = some d) :
    wp (iunlock p x) (fun _ s' => Inv fixed none held (update locks x none) s' ∧
      Frozen held s s') (Stops broken stuck) s := by
  obtain ⟨positive, -, -, -⟩ := inv.locked x d locked
  simp only [iunlock, wp_bind, wp_get, wp_ite, wp_halt, releasesleep, wp_setInode]
  refine ⟨fun _ => ⟨by decide, by simp, by simp, inv.quiet⟩, fun _ => ⟨?_, Frozen.put held rfl id id⟩⟩
  apply inv.relock positive
  · rfl
  · rfl
  · exact inv.cached x positive
  · intro d isSome
    cases isSome
  · exact fun _ => rfl

def FsState.writeInode (s : FsState) (inum : Nat) (e : Dinode) : FsState :=
  s.write (IBLOCK inum s.sb) (setDinode (s.disk (IBLOCK inum s.sb)) (inum % IPB) e)

omit inv in
@[simp] theorem FsState.writeInode_icache (s : FsState) (inum : Nat) (e : Dinode) :
    (s.writeInode inum e).icache = s.icache := rfl

omit inv in
theorem FsState.put_writeInode (s : FsState) (inum : Nat) (e : Dinode) (x : Slot) (ip : Inode) :
    (s.writeInode inum e).put x ip = (s.put x ip).writeInode inum e := rfl

omit inv in
theorem wp_iupdate {halts : Halt → FsState → Prop} :
    wp (iupdate x) post halts s ↔
      post () (s.writeInode (s.icache x).inum (s.icache x).copy) := Iff.rfl

omit inv in
theorem FsState.image_writeInode (layout : s.sb.Valid) {e : Dinode} (inside : inum < s.sb.ninodes)
    (fits : e.Fits) :
    image s.sb (s.writeInode inum e).disk = (image s.sb s.disk).setInode inum e :=
  image_putDinode layout inside fits

omit inv in
theorem FsState.readsb_writeInode (layout : s.sb.Valid) {e : Dinode} (inside : inum < s.sb.ninodes) :
    readsb (s.writeInode inum e).disk = readsb s.disk :=
  readsb_update (ne_of_gt (layout.IBLOCK_range inside).1)

omit inv in
/-- The contents of the dirty inode have been put on the disk. -/
theorem Inv.settle (inv : Inv fixed (some x) held locks s) {s' : FsState} (sb : s'.sb = s.sb)
    (icache : s'.icache = s.icache) (super : readsb s'.disk = readsb s.disk)
    (disk : image s.sb s'.disk = view (some x) s) (quiet : Quiet s') :
    Inv fixed none held locks s' := by
  have views : view none s' = view (some x) s := by
    rw [view_none, sb, disk]
  constructor
  · rw [sb, inv.isSb]
  · exact sb ▸ inv.layout
  · rw [super, sb, inv.super]
  · rw [views, sb]
    exact inv.good
  · rw [icache]
    exact inv.refs
  · rw [icache]
    exact inv.single
  · rw [icache, sb]
    exact inv.inside
  · rw [icache, views]
    exact inv.cached
  · rw [icache, views]
    exact inv.pinned
  · rw [icache]
    exact inv.locked
  · rw [icache]
    exact inv.unlocked
  · exact quiet

omit inv in
/-- The image of the disk once the dirty inode has been written. -/
theorem Inv.image_writeBack (inv : Inv fixed (some x) held locks s) (locked : locks x = some d) :
    image s.sb (s.writeInode (s.icache x).inum (s.icache x).copy).disk = view (some x) s := by
  have fits : (s.icache x).copy.Fits := view_some_self x s ▸ inv.good.fits (s.icache x).inum
  exact FsState.image_writeInode inv.layout (inv.locked_inside locked) fits

omit inv in
theorem Inv.writeBack (inv : Inv fixed (some x) held locks s) (locked : locks x = some d) :
    Inv fixed none held locks (s.writeInode (s.icache x).inum (s.icache x).copy) :=
  inv.settle rfl rfl (FsState.readsb_writeInode inv.layout (inv.locked_inside locked))
    (inv.image_writeBack locked) (inv.quiet.write _ _)

omit inv in
theorem iupdate_spec (inv : Inv fixed (some x) held locks s) (locked : locks x = some d) :
    wp (iupdate x) (fun _ s' => Inv fixed none held locks s' ∧ s'.sb = s.sb ∧
      s'.icache = s.icache ∧ image s.sb s'.disk = view (some x) s) (Stops broken stuck) s := by
  rw [wp_iupdate]
  exact ⟨inv.writeBack locked, rfl, rfl, inv.image_writeBack locked⟩

theorem Inv.moored (locked : locks x = some d) : Moored s (s.icache x).inum := by
  obtain ⟨positive, isValid, -, -⟩ := inv.locked x d locked
  exact fun _ _ => ⟨x, positive, rfl, isValid⟩

omit inv in
/-- An inode that is still locked has changed, in the cache and on the disk. -/
theorem Inv.stays_changed {s' : FsState} {held' : Holds} {ip : Inode} (kept : Holds)
    (inv' : Inv fixed none held' locks s') (locked : locks x = some d)
    (icache : s'.icache = update s.icache x ip) (inum : ip.inum = (s.icache x).inum)
    (others : ∀ i, i ≠ (s.icache x).inum →
      (image s'.sb s'.disk).inode i = (image s.sb s.disk).inode i) : Stays kept s s' := by
  have sameInum : ∀ y, (s'.icache y).inum = (s.icache y).inum := by
    intro y
    by_cases same : y = x
    · rw [same, icache, update_self, inum]
    · rw [icache, update_of_ne same]
  refine ⟨fun y _ _ => sameInum y, fun i moored => ?_⟩
  by_cases same : i = (s.icache x).inum
  · rw [same, ← sameInum x]
    exact inv'.moored locked
  · intro allocated unlinked
    rw [others i same] at allocated unlinked
    obtain ⟨y, positive, isInum, isValid⟩ := moored allocated unlinked
    have different : y ≠ x := by
      rintro rfl
      exact same isInum.symm
    refine ⟨y, ?_⟩
    rw [icache, update_of_ne different]
    exact ⟨positive, isInum, isValid⟩

/-- An inode changes on the disk that no entry of the cache has the contents of. -/
theorem Inv.rewrite {e : Dinode} (inside : inum < s.sb.ninodes)
    (fits : e.Fits) (good : Good s.sb ((image s.sb s.disk).setInode inum e))
    (unused : ∀ y, 0 < (s.icache y).ref → (s.icache y).inum = inum → (s.icache y).valid = false ∧ (y, true) ∉ held) :
    Inv fixed none held locks (s.writeInode inum e) := by
  have views : view none (s.writeInode inum e) = (image s.sb s.disk).setInode inum e :=
    FsState.image_writeInode inv.layout inside fits
  have other : ∀ i, i ≠ inum → (view none (s.writeInode inum e)).inode i =
      (view none s).inode i := by
    intro i different
    rw [views, Image.setInode_inode, update_of_ne different, view_none]
  constructor
  · exact inv.isSb
  · exact inv.layout
  · exact (FsState.readsb_writeInode inv.layout inside).trans inv.super
  · rw [views]
    exact good
  · exact inv.refs
  · exact inv.single
  · exact inv.inside
  · intro y positive isValid
    have different : (s.icache y).inum ≠ inum := by
      intro same
      exact Bool.false_ne_true ((unused y positive same).1.symm.trans isValid)
    have kept := other _ different
    obtain ⟨isInode, allocated⟩ := inv.cached y positive isValid
    exact ⟨isInode.trans kept.symm, allocated⟩
  · intro y member
    have different : (s.icache y).inum ≠ inum :=
      fun same => (unused y (inv.ref_pos member) same).2 member
    have kept := other _ different
    have pinned := inv.pinned y member
    rw [← kept] at pinned
    exact pinned
  · exact inv.locked
  · exact inv.unlocked
  · exact inv.quiet.write _ _

omit inv in
private theorem fits_ofType (type : BitVec 16) : ({ Dinode.zero with type } : Dinode).Fits :=
  ⟨show 0 < 2 ^ 32 by decide, fun _ => show 0 < 2 ^ 32 by decide⟩

theorem Inv.allocInode (type : BitVec 16)
    (inside : inum < s.sb.ninodes) (free : (dinodeAt s.sb s.disk inum).type = 0) :
    Inv fixed none held locks (s.writeInode inum { Dinode.zero with type }) := by
  have isFree : ((image s.sb s.disk).inode inum).type = 0 := by
    rw [image_inode _ inside, free]
  apply inv.rewrite inside (fits_ofType type)
  · exact inv.good.reset (fun pos => Image.own_of_free isFree pos) rfl fun _ => rfl
  · intro y positive same
    constructor
    · by_contra isValid
      rw [Bool.not_eq_false] at isValid
      obtain ⟨isInode, allocated⟩ := inv.cached y positive isValid
      rw [isInode, same] at allocated
      exact allocated isFree
    · intro member
      have pinned := (inv.pinned y member).1
      rw [same] at pinned
      exact pinned isFree

/-- The state has a new inode `inum`, which is the only one without links that may not be
in the cache. -/
structure Allocates (held : Holds) (inum : Nat) (s s' : FsState) : Prop where
  inums : ∀ x k, (x, k) ∈ held → (s'.icache x).inum = (s.icache x).inum
  moors : ∀ i, i ≠ inum → Moored s i → Moored s' i

theorem ialloc_spec (type : BitVec 16) :
    wp (ialloc type) (fun x s' => Inv fixed none ((x, false) ::ₘ held) locks s' ∧
      0 < (s'.icache x).inum ∧ ((image s.sb s.disk).inode (s'.icache x).inum).type = 0 ∧
      image s'.sb s'.disk =
        (image s.sb s.disk).setInode (s'.icache x).inum { Dinode.zero with type } ∧
      Allocates held (s'.icache x).inum s s') (Stops broken stuck) s := by
  simp only [ialloc, wp_bind, wp_get]
  split
  · rename_i inum found
    have free := List.find?_some found
    have range := List.mem_of_find?_eq_some found
    simp only [decide_eq_true_eq] at free
    rw [List.mem_range'_1] at range
    have inside : inum < s.sb.ninodes := by
      have root := inv.layout.root
      omega
    simp only [wp_bind, wp_logWrite]
    have allocated := inv.allocInode type inside free
    apply (iget_spec allocated inside).mono
    rintro x s' ⟨inv', isInum, frozen⟩
    have written := FsState.image_writeInode (s := s) inv.layout inside (fits_ofType type)
    refine ⟨inv', ?_, ?_, ?_, frozen.stays.inums, ?_⟩
    · rw [isInum]
      omega
    · rw [isInum, image_inode _ inside, free]
    · rw [isInum, frozen.sb, frozen.disk]
      exact written
    · intro i different moored
      apply frozen.stays.moors i
      rw [isInum] at different
      have same : (image s.sb (s.writeInode inum { Dinode.zero with type }).disk).inode i =
          (image s.sb s.disk).inode i := by
        rw [written, Image.setInode_inode, update_of_ne different]
      intro allocated unlinked
      exact moored (same ▸ allocated) (same ▸ unlinked)
  · rw [wp_halt]
    exact ⟨by decide, by simp, by simp, inv.quiet⟩

end

end

end Xv6.Fs
