import Xv6.ICache.Calls

/-!
Contract: what holds of the inode cache in every state, under any interleaving of the calls
of any number of processes.

Between two calls a process may keep inodes locked, and then their copies are what the disk
has. So the rules of this module follow for each process only that and the inodes that the
call itself has locked. With them every call of the machine obeys the logic, and `Lib.Threads`
gives `Rel` in every state.
-/

namespace Xv6.ICache

open Xv6.Lib
open Xv6.Fs (Slot Dinode Dirent NDIRECT MAXFILE DIRENT T_DIR T_FILE T_DEV)

variable {g : Ghost} {slot dp ip : Slot} {d : Dinode}

/-- The inodes that the process has locked are known. -/
def Idle (g : Ghost) : Prop :=
  ∀ slot status, g.lock slot = some status → ∃ d, status = .known d ∧ Good d

theorem Idle.known (idle : Idle g) {new : Dinode} (good : Good new) :
    Idle (g.setLock slot (some (.known new))) := by
  intro other status isLocked
  by_cases same : other = slot
  · subst same
    rw [Ghost.setLock_self] at isLocked
    cases isLocked
    exact ⟨new, rfl, good⟩
  · rw [Ghost.setLock_of_ne same] at isLocked
    exact idle other status isLocked

theorem Idle.unlocked (idle : Idle g) : Idle (g.setLock slot none) := by
  intro other status isLocked
  by_cases same : other = slot
  · subst same
    rw [Ghost.setLock_self] at isLocked
    cases isLocked
  · rw [Ghost.setLock_of_ne same] at isLocked
    exact idle other status isLocked

theorem Idle.addRef (idle : Idle g) : Idle (g.addRef slot) := idle

theorem Idle.dropRef (idle : Idle g) : Idle (g.dropRef slot) := idle

theorem Idle.unlockput (idle : Idle g) : Idle ((g.setLock slot none).dropRef slot) := idle.unlocked.dropRef

/-- The process is in a call that has locked `slot`. -/
structure Working (g : Ghost) (slot : Slot) : Prop where
  idle : Idle g
  locks : ∃ d, Locks g slot d

theorem Working.known (working : Working g slot) {new : Dinode} (good : Good new) :
    Working (g.setLock slot (some (.known new))) slot := by
  obtain ⟨idle, d, locks⟩ := working
  exact ⟨idle.known good, new, locks.known good⟩

variable {post : Unit → Ghost → Prop}

theorem Idle.ilock (idle : Idle g) (refs : 1 ≤ g.refs slot)
    (then_ : ∀ d, Working (g.setLock slot (some (.known d))) slot → post () (g.setLock slot (some (.known d)))) :
    Obeys logic (ilock slot) g post :=
  ilock_obeys refs fun _ d good => then_ d ⟨idle.known good, d, Ghost.setLock_self, good, refs⟩

theorem Working.addRef (working : Working g slot) (other : Slot) : Working (g.addRef other) slot := by
  obtain ⟨idle, d, locks⟩ := working
  exact ⟨idle.addRef, d, locks.addRef other⟩

theorem Working.iunlockput (working : Working g slot)
    (then_ : Idle ((g.setLock slot none).dropRef slot) → post () ((g.setLock slot none).dropRef slot)) :
    Obeys logic (iunlockput slot) g post := by
  obtain ⟨idle, d, locks⟩ := working
  exact locks.iunlockput (then_ idle.unlockput)

/-- The process is in a call that has locked two inodes. -/
structure Pair (g : Ghost) (dp ip : Slot) : Prop where
  idle : Idle g
  parent : ∃ d, Locks g dp d
  child : ∃ d, Locks g ip d
  different : dp ≠ ip

theorem Pair.symm (pair : Pair g dp ip) : Pair g ip dp :=
  ⟨pair.idle, pair.child, pair.parent, pair.different.symm⟩

theorem Pair.known (pair : Pair g dp ip) {new : Dinode} (good : Good new) :
    Pair (g.setLock dp (some (.known new))) dp ip := by
  obtain ⟨idle, ⟨d, parent⟩, ⟨e, child⟩, different⟩ := pair
  exact ⟨idle.known good, ⟨new, parent.known good⟩, ⟨e, child.other different.symm⟩, different⟩

theorem Pair.iunlockput (pair : Pair g dp ip) (then_ : ∀ after, Working after ip → post () after) :
    Obeys logic (iunlockput dp) g post := by
  obtain ⟨idle, ⟨d, parent⟩, ⟨e, child⟩, different⟩ := pair
  refine parent.iunlockput (then_ _ ⟨idle.unlockput, e, ?_⟩)
  have unlocked : Locks (g.setLock dp none) ip e := child.other different.symm
  refine ⟨unlocked.lock, child.good, ?_⟩
  rw [Ghost.dropRef_refs, if_neg different.symm]
  exact child.refs

/-- Whoever has one inode locked and locks another one. -/
theorem Working.ilock (working : Working g dp) (refs : 1 ≤ g.refs ip)
    (then_ : ∀ d, Pair (g.setLock ip (some (.known d))) dp ip → post () (g.setLock ip (some (.known d)))) :
    Obeys logic (ilock ip) g post := by
  obtain ⟨idle, e, locks⟩ := working
  refine ilock_obeys refs fun isFree d good => then_ d ?_
  have different : dp ≠ ip := by
    rintro rfl
    rw [locks.lock] at isFree
    cases isFree
  exact ⟨idle.known good, ⟨e, locks.other different⟩, ⟨d, Ghost.setLock_self, good, refs⟩, different⟩

variable {type : BitVec 16}

theorem iallocLoop_obeys {post : Slot → Ghost → Prop} {dev : Nat} {inums : List Nat}
    (nonzero : type ≠ 0) (then_ : ∀ ip, post ip (g.addRef ip)) :
    Obeys logic (iallocLoop dev type inums) g post := by
  induction inums with
  | nil => exact obeys_panic
  | cons inum rest ih =>
    rw [iallocLoop, obeys_bind, obeys_claim]
    refine ⟨nonzero, fun claimed => ?_⟩
    rw [obeys_ite]
    exact ⟨fun _ => then_, fun _ => ih⟩

variable {ninodes : Nat}

theorem ialloc_obeys {post : Slot → Ghost → Prop} {dev : Nat} (nonzero : type ≠ 0)
    (then_ : ∀ ip, post ip (g.addRef ip)) :
    Obeys logic (ialloc ninodes dev type) g post :=
  iallocLoop_obeys nonzero then_

theorem addLinks_obeys {count : BitVec 16} (locks : Locks g slot d)
    (then_ : ∀ new, Good new → post () (g.setLock slot (some (.known new)))) :
    Obeys logic (addLinks slot count) g post := by
  have good : Good { d with nlink := d.nlink + count } := ⟨locks.good.type, locks.good.mapped⟩
  rw [addLinks, obeys_bind]
  refine modify_obeys locks.sees (iupdate_obeys Ghost.setLock_self good ?_)
  rw [Ghost.setLock_setLock]
  exact then_ _ good

/-- A reference that is got before another one is put back is still there. -/
theorem Ghost.one_le_addRef_dropRef (refs : 1 ≤ g.refs dp) : 1 ≤ ((g.addRef ip).dropRef dp).refs ip := by
  rw [Ghost.dropRef_refs, Ghost.addRef_refs]
  split
  · rename_i same
    subst same
    simp only [if_true]
    omega
  · simp

theorem createFound_obeys (working : Working g dp) :
    Obeys logic (createFound dp ip type) (g.addRef ip) fun _ after => Idle after := by
  obtain ⟨idle, d, locks⟩ := working
  simp only [createFound, obeys_bind, obeys_ite, obeys_pure]
  refine (locks.addRef ip).iunlockput ?_
  refine idle.addRef.unlockput.ilock (Ghost.one_le_addRef_dropRef locks.refs) fun e working => ?_
  refine look_obeys (Or.inl Ghost.setLock_self) ⟨fun _ => working.idle, fun _ => ?_⟩
  exact working.iunlockput fun idle => idle

theorem createDots_obeys (pair : Pair g dp ip) (then_ : ∀ after, Pair after dp ip → post () after) :
    Obeys logic (createDots dp ip type) g post := by
  simp only [createDots, obeys_bind, obeys_ite, obeys_pure]
  refine ⟨fun _ => ?_, fun _ => then_ g pair⟩
  obtain ⟨d, parent⟩ := pair.parent
  refine addLinks_obeys parent fun new good => ?_
  have pair1 := pair.known good
  obtain ⟨e, child⟩ := pair1.child
  refine dirlink_obeys child fun dot new good => ⟨fun _ => obeys_panic, fun _ => ?_⟩
  have pair2 := (pair1.symm.known good).symm
  obtain ⟨e, child⟩ := pair2.child
  refine dirlink_obeys child fun dotdot new good => ⟨fun _ => obeys_panic, fun _ => ?_⟩
  exact then_ _ (pair2.symm.known good).symm

theorem createNew_obeys {name : List UInt8} {major minor : BitVec 16} (working : Working g dp)
    (nonzero : type ≠ 0) :
    Obeys logic (createNew ninodes dp name type major minor) g fun _ after => Idle after := by
  simp only [createNew, obeys_bind, obeys_ident, obeys_ite, obeys_pure]
  intro id
  refine ialloc_obeys nonzero fun ip => ?_
  refine (working.addRef ip).ilock Ghost.one_le_addRef fun e pair => ?_
  obtain ⟨e, child⟩ := pair.child
  have good' : Good { e with major, minor, nlink := 1 } := ⟨child.good.type, child.good.mapped⟩
  refine modify_obeys child.sees (iupdate_obeys Ghost.setLock_self good' ?_)
  rw [Ghost.setLock_setLock]
  refine createDots_obeys (pair.symm.known good').symm fun after pair => ?_
  obtain ⟨d, parent⟩ := pair.parent
  refine dirlink_obeys parent fun linked new good => ⟨fun _ => obeys_panic, fun _ => ?_⟩
  exact (pair.known good).iunlockput fun after working => working.idle

theorem create_obeys {cwd : Slot} {path : List UInt8} {major minor : BitVec 16} (idle : Idle g)
    (refs : 1 ≤ g.refs cwd) (nonzero : type ≠ 0) :
    Obeys logic (create ninodes cwd path type major minor) g fun _ after => Idle after := by
  rw [create, obeys_bind]
  refine namex_obeys refs idle fun dp name => ?_
  simp only [obeys_bind]
  refine idle.addRef.ilock Ghost.one_le_addRef fun d working => ?_
  obtain ⟨d, locks⟩ := working.locks
  refine dirlookup_obeys locks (fun new good => ?_) fun new ip off good => ?_
  · exact createNew_obeys (working.known good) nonzero
  · exact createFound_obeys (working.known good)

theorem linkBad_obeys (idle : Idle g) (refs : 1 ≤ g.refs ip) :
    Obeys logic (linkBad ip) g fun _ after => Idle after := by
  simp only [linkBad, obeys_bind]
  refine idle.ilock refs fun d working => ?_
  obtain ⟨d, locks⟩ := working.locks
  refine addLinks_obeys locks fun new good => ?_
  exact (working.known good).iunlockput fun idle => idle

/-- `sys_link` gives up the parent and goes on with the inode. -/
theorem linkEnd_obeys {rest : C Unit} (working : Working g dp) (refs : 1 ≤ (g.dropRef dp).refs ip)
    (then_ : ∀ after, Idle after → 1 ≤ after.refs ip → Obeys logic rest after fun _ after => Idle after) :
    Obeys logic (iunlockput dp) g fun _ after => Obeys logic rest after fun _ after => Idle after :=
  working.iunlockput fun idle => then_ _ idle refs

theorem linkInto_obeys {name : List UInt8} (idle : Idle g) (refs : 1 ≤ g.refs ip) :
    Obeys logic (linkInto ip dp name) (g.addRef dp) fun _ after => Idle after := by
  have kept : 1 ≤ ((g.addRef dp).dropRef dp).refs ip := by
    rw [Ghost.addRef_dropRef]
    exact refs
  simp only [linkInto, obeys_bind, obeys_ident, obeys_ite]
  refine idle.addRef.ilock Ghost.one_le_addRef fun d working id id' => ⟨fun _ => ?_, fun _ => ?_⟩
  · exact linkEnd_obeys working kept fun after idle refs => linkBad_obeys idle refs
  · obtain ⟨d, locks⟩ := working.locks
    refine dirlink_obeys locks fun linked new good => ⟨fun _ => ?_, fun _ => ?_⟩
    · exact linkEnd_obeys (working.known good) kept fun after idle refs => linkBad_obeys idle refs
    · exact linkEnd_obeys (working.known good) kept fun after idle refs =>
        iput_obeys refs fun _ => idle.dropRef

theorem sysLink_obeys {cwd : Slot} {old new : List UInt8} (idle : Idle g) (refs : 1 ≤ g.refs cwd) :
    Obeys logic (sysLink cwd old new) g fun _ after => Idle after := by
  rw [sysLink, obeys_bind]
  refine namex_obeys refs idle fun ip name => ?_
  simp only [obeys_bind, obeys_ite]
  refine idle.addRef.ilock Ghost.one_le_addRef fun d working => ?_
  obtain ⟨d, locks⟩ := working.locks
  refine look_obeys locks.sees ⟨fun _ => ?_, fun _ => ?_⟩
  · exact working.iunlockput fun idle => idle
  · refine addLinks_obeys locks fun linked good => ?_
    have working := working.known good
    obtain ⟨d, locks⟩ := working.locks
    refine locks.iunlock ?_
    have kept : 1 ≤ (g.addRef ip).refs cwd := refs.trans Ghost.le_addRef
    refine namex_obeys kept ?_ fun dp name => ?_
    · exact linkBad_obeys working.idle.unlocked Ghost.one_le_addRef
    · exact linkInto_obeys working.idle.unlocked Ghost.one_le_addRef

theorem isdiremptyLoop_obeys {post : Bool → Ghost → Prop} {offsets : List Nat} (locks : Locks g slot d)
    (then_ : ∀ isEmpty new, Good new → post isEmpty (g.setLock slot (some (.known new)))) :
    Obeys logic (isdiremptyLoop slot offsets) g post := by
  induction offsets generalizing g d with
  | nil =>
    have same := then_ true d locks.good
    rwa [Ghost.setLock_eq_self locks.lock] at same
  | cons off rest ih =>
    rw [isdiremptyLoop, obeys_bind]
    refine readDirent_obeys locks fun de new good => ?_
    rw [obeys_ite]
    refine ⟨fun _ => then_ false new good, fun _ => ?_⟩
    refine ih (locks.known good) fun isEmpty newer good' => ?_
    rw [Ghost.setLock_setLock]
    exact then_ isEmpty newer good'

theorem unlinkable_obeys {post : Bool → Ghost → Prop} (locks : Locks g slot d)
    (then_ : ∀ able new, Good new → post able (g.setLock slot (some (.known new)))) :
    Obeys logic (unlinkable slot) g post := by
  simp only [unlinkable, isdirempty, obeys_bind, obeys_ite]
  refine look_obeys locks.sees ⟨fun _ => obeys_panic, fun _ => ⟨fun _ => ?_, fun _ => ?_⟩⟩
  · exact look_obeys locks.sees (isdiremptyLoop_obeys locks then_)
  · have same := then_ true d locks.good
    rwa [Ghost.setLock_eq_self locks.lock] at same

theorem unlinkEntry_obeys {off : Nat} (pair : Pair g dp ip) :
    Obeys logic (unlinkEntry dp ip off) g fun _ after => Idle after := by
  have ends : ∀ {g}, Pair g dp ip → Obeys logic (iunlockput dp) g fun _ after =>
      Obeys logic (addLinks ip (-1)) after fun _ after =>
        Obeys logic (iunlockput ip) after fun _ after => Idle after := by
    intro g pair
    refine pair.iunlockput fun after working => ?_
    obtain ⟨e, child⟩ := working.locks
    refine addLinks_obeys child fun new good => ?_
    exact (working.known good).iunlockput fun idle => idle
  simp only [unlinkEntry, obeys_bind, obeys_ite]
  obtain ⟨d, parent⟩ := pair.parent
  refine writei_obeys parent fun written new good => ⟨fun _ => obeys_panic, fun _ => ?_⟩
  have pair := pair.known good
  obtain ⟨d, parent⟩ := pair.parent
  obtain ⟨e, child⟩ := pair.child
  refine look_obeys child.sees ⟨fun _ => ?_, fun _ => ends pair⟩
  exact addLinks_obeys parent fun new good => ends (pair.known good)

theorem unlinkFound_obeys {off : Nat} (working : Working g dp) :
    Obeys logic (unlinkFound dp ip off) (g.addRef ip) fun _ after => Idle after := by
  simp only [unlinkFound, obeys_bind, obeys_ite]
  refine (working.addRef ip).ilock Ghost.one_le_addRef fun e pair => ?_
  obtain ⟨e, child⟩ := pair.child
  refine unlinkable_obeys child fun able new good => ?_
  have pair := pair.symm.known good
  refine ⟨fun _ => ?_, fun _ => ?_⟩
  · exact unlinkEntry_obeys pair.symm
  · exact pair.iunlockput fun after working => working.iunlockput fun idle => idle

theorem sysUnlink_obeys {cwd : Slot} {path : List UInt8} (idle : Idle g) (refs : 1 ≤ g.refs cwd) :
    Obeys logic (sysUnlink cwd path) g fun _ after => Idle after := by
  rw [sysUnlink, obeys_bind]
  refine namex_obeys refs idle fun dp name => ?_
  simp only [obeys_bind, obeys_ite]
  refine idle.addRef.ilock Ghost.one_le_addRef fun d working => ?_
  obtain ⟨d, locks⟩ := working.locks
  refine ⟨fun _ => ?_, fun _ => ?_⟩
  · exact working.iunlockput fun idle => idle
  · refine dirlookup_obeys locks (fun new good => ?_) fun new ip off good => ?_
    · exact (working.known good).iunlockput fun idle => idle
    · exact unlinkFound_obeys (working.known good)

variable {P : Type} [Fintype P]

theorem discard_obeys {Value : Type} {code : C Value} {post : Ghost → Prop}
    (obeys : Obeys logic code g fun _ after => post after) :
    Obeys logic (discard code) g fun _ after => post after := by
  rw [discard, obeys_bind]
  exact obeys

variable {ghosts : P → Ghost}

theorem Rel.locks {s : State P} (rel : Rel s ghosts) {p : P} (idle : Idle (ghosts p))
    (isOwner : (s.icache slot).lock = some p) : ∃ d, Locks (ghosts p) slot d := by
  have isLocked := (rel.owner p slot).mp isOwner
  obtain ⟨status, isStatus⟩ := Option.ne_none_iff_exists'.mp isLocked
  obtain ⟨d, rfl, good⟩ := idle slot status isStatus
  refine ⟨d, isStatus, good, ?_⟩
  rw [rel.refs]
  exact rel.needs p slot isLocked

variable [DecidableEq P]

theorem Rel.call {s : State P} (rel : Rel s ghosts) {p : P} {call : Call} (idle : Idle (ghosts p))
    (enabled : call.enabled p s = true) :
    Obeys logic (call.code ninodes) (ghosts p) fun _ after => Idle after := by
  have hasRef : ∀ {slot}, decide (0 < s.held p slot) = true → 1 ≤ (ghosts p).refs slot := by
    intro slot positive
    rw [rel.refs]
    exact of_decide_eq_true positive
  cases call with
  | iget dev inum => exact discard_obeys fun slot => idle.addRef
  | idup slot =>
    refine discard_obeys ?_
    simp only [ICache.idup, obeys_bind, obeys_incRef, obeys_pure]
    exact ⟨hasRef enabled, idle.addRef⟩
  | ilock slot => exact idle.ilock (hasRef enabled) fun d working => working.idle
  | iunlock slot =>
    refine iunlock_obeys (fun status isLocked => ?_) idle.unlocked
    obtain ⟨d, rfl, -⟩ := idle slot status isLocked
    trivial
  | iput slot => exact iput_obeys (hasRef enabled) fun _ => idle.dropRef
  | ialloc dev type => exact discard_obeys (ialloc_obeys (of_decide_eq_true enabled) fun slot => idle.addRef)
  | readi slot off n =>
    obtain ⟨d, locks⟩ := rel.locks idle (of_decide_eq_true enabled)
    exact discard_obeys (readi_obeys locks fun _ new good => idle.known good)
  | writei slot off n =>
    obtain ⟨d, locks⟩ := rel.locks idle (of_decide_eq_true enabled)
    exact discard_obeys (writei_obeys locks fun _ new good => idle.known good)
  | create cwd path type major minor =>
    obtain ⟨positive, nonzero⟩ := Bool.and_eq_true_iff.mp enabled
    exact discard_obeys (create_obeys idle (hasRef positive) (of_decide_eq_true nonzero))
  | link cwd old new => exact sysLink_obeys idle (hasRef enabled)
  | unlink cwd path => exact sysUnlink_obeys idle (hasRef enabled)

theorem engine_governed : Governs logic (engine P ninodes) Rel Idle where
  exec rel allowed ran := rel.exec allowed ran
  start rel idle started := by
    obtain ⟨enabled, rfl⟩ := of_guard started
    exact rel.call idle enabled

def Ghost.none : Ghost := ⟨fun _ => 0, fun _ => .none⟩

omit [DecidableEq P] in
theorem Rel.boot {disk : (dev inum : Nat) → Dinode} (mapped : ∀ dev inum, Mapped (disk dev inum)) :
    Rel (State.boot disk : State P) fun _ => Ghost.none where
  refs _ _ := rfl
  count slot := by simp [State.boot, tally]
  unique slot slot' positive := absurd positive (lt_irrefl 0)
  needs p slot has := absurd rfl has
  owner p slot := by simp [State.boot, Ghost.none]
  locked p slot status isLocked := by cases isLocked
  unlocked slot positive := absurd positive (lt_irrefl 0)
  mapped := mapped

/-- `clean` is about inodes that nobody has locked, `locked` about what a process that has
locked an inode relies on between its calls. `current` holds at all times: a copy of an
inode in use is never one of an inode that had the same number before. -/
structure Coherent (s : Pool P Op Op.Answer (State P)) : Prop where
  unique : ∀ slot slot', 0 < (s.shared.icache slot).ref → 0 < (s.shared.icache slot').ref →
    (s.shared.icache slot).dev = (s.shared.icache slot').dev →
    (s.shared.icache slot).inum = (s.shared.icache slot').inum → slot = slot'
  refs : ∀ slot, (s.shared.icache slot).ref = ∑ p, (s.shared.held p slot : Int)
  clean : ∀ slot, 0 < (s.shared.icache slot).ref → (s.shared.icache slot).valid = true →
    (s.shared.icache slot).lock = none → (s.shared.icache slot).copy = (s.shared.ondisk slot).inode
  locked : ∀ p slot, s.code p = none → (s.shared.icache slot).lock = some p →
    (s.shared.icache slot).valid = true ∧ (s.shared.icache slot).copy = (s.shared.ondisk slot).inode
  current : ∀ slot, 0 < (s.shared.icache slot).ref → (s.shared.icache slot).valid = true →
    (s.shared.icache slot).copy.type ≠ 0 → (s.shared.icache slot).birth = (s.shared.ondisk slot).births

omit [DecidableEq P] in
theorem Rel.current {s : State P} (rel : Rel s ghosts) (positive : 0 < (s.icache slot).ref)
    (isValid : (s.icache slot).valid = true) (inUse : (s.icache slot).copy.type ≠ 0) :
    (s.icache slot).birth = (s.ondisk slot).births := by
  cases isLocked : (s.icache slot).lock with
  | none => exact (rel.unlocked slot positive isLocked isValid).2.2
  | some p =>
    obtain ⟨status, isStatus⟩ := Option.ne_none_iff_exists'.mp ((rel.owner p slot).mp isLocked)
    have holds := rel.locked p slot status isStatus
    cases status with
    | unknown => exact (holds isValid).2.2
    | stale =>
      rw [show (s.icache slot).valid = false from holds] at isValid
      cases isValid
    | known d => exact holds.2.2.2.2
    | dirty d => exact holds.2.2.2
    | freed => exact absurd holds.2 inUse

theorem icache_coherent (ninodes : Nat) (disk : (dev inum : Nat) → Dinode)
    (mapped : ∀ dev inum, Mapped (disk dev inum)) (labels : List (PoolLabel P Call Choice))
    (s : Pool P Op Op.Answer (State P))
    (ran : (pool (engine P ninodes)).run (Pool.idle (State.boot disk)) labels = some s) : Coherent s := by
  have booted : Governed logic Rel Idle (Pool.idle (State.boot disk) : Pool P Op Op.Answer (State P)) := by
    refine ⟨fun _ => Ghost.none, Rel.boot mapped, fun thread slot status isLocked => ?_⟩
    cases isLocked
  obtain ⟨ghosts, rel, keeping⟩ := engine_governed.run booted ran
  refine ⟨rel.unique, rel.count, fun slot positive isValid isUnlocked => ?_, fun p slot isIdle isOwner => ?_,
    fun slot => rel.current⟩
  · exact (rel.unlocked slot positive isUnlocked isValid).1
  · have idle := keeping p
    rw [isIdle] at idle
    obtain ⟨d, locks⟩ := rel.locks idle isOwner
    obtain ⟨isValid, isCopy, isDisk, -⟩ := rel.locked p slot _ locks.lock
    exact ⟨isValid, isCopy.trans isDisk⟩

def first : Slot := ⟨0, NINODE_pos⟩

/-- The first process allocates an inode without links and puts it back. The second one gets
a reference to the same number before the inode is freed, and locks it after the first one
has allocated the number again. -/
def reallocated : List (PoolLabel (Fin 2) Call Choice) :=
  let steps (p : Fin 2) (count : Nat) : List (PoolLabel (Fin 2) Call Choice) :=
    List.replicate count (.step p ⟨0, ⟨0, []⟩, none⟩)
  [.start 0 (.ialloc 1 T_FILE)] ++ steps 0 2 ++ [.start 0 (.ilock first)] ++ steps 0 4 ++
    [.start 0 (.iunlock first)] ++ steps 0 3 ++ [.start 0 (.iput first)] ++ steps 0 3 ++
    [.start 1 (.iget 1 1)] ++ steps 1 1 ++ steps 0 20 ++
    [.start 0 (.ialloc 1 T_FILE)] ++ steps 0 2 ++ [.start 1 (.ilock first)] ++ steps 1 4

theorem reallocated_coherent :
    ∃ s, (pool (engine (Fin 2) 2)).run (Pool.idle (State.boot fun _ _ => Dinode.zero)) reallocated = some s ∧
      (s.shared.ondisk first).births = 2 ∧ (s.shared.icache first).birth = 2 ∧
      (s.shared.icache first).copy = (s.shared.ondisk first).inode := by
  have outcome : ((pool (engine (Fin 2) 2)).run (Pool.idle (State.boot fun _ _ => Dinode.zero)) reallocated).map
      (fun s : Pool (Fin 2) Op Op.Answer (State (Fin 2)) =>
        ((s.shared.ondisk first).births, (s.shared.icache first).birth, (s.code 1).isNone,
          (s.shared.icache first).lock)) = some (2, 2, true, some 1) := by
    decide +kernel
  obtain ⟨s, ran, isOutcome⟩ := Option.map_eq_some_iff.mp outcome
  simp only [Prod.mk.injEq, Option.isNone_iff_eq_none] at isOutcome
  obtain ⟨births, birth, isIdle, isOwner⟩ := isOutcome
  have coherent := icache_coherent 2 _ (fun _ _ => mapped_of_empty rfl) reallocated s ran
  exact ⟨s, ran, births, birth, (coherent.locked 1 first isIdle isOwner).2⟩

end Xv6.ICache
