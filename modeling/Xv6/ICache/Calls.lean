import Xv6.ICache.Logic

/-!
Contract: the code of `fs.c` obeys the logic of `ICache.Logic`.

Each function has a rule: what it needs of the ghost, and for every way in which it can
return the ghost that it leaves.
-/

namespace Xv6.ICache

open Xv6.Lib
open Xv6.Fs (Slot Dinode Dirent NDIRECT MAXFILE DIRENT T_DIR T_FILE T_DEV)

variable {g : Ghost} {slot : Slot} {d : Dinode} {Value : Type}

@[simp] theorem obeys_iget {dev inum : Nat} {post : Slot → Ghost → Prop} :
    Obeys logic (iget dev inum) g post ↔ ∀ slot, post slot (g.addRef slot) := Iff.rfl

@[simp] theorem obeys_getRef {post : Int → Ghost → Prop} :
    Obeys logic (getRef slot) g post ↔ ∀ n, post n g := Iff.rfl

@[simp] theorem obeys_holdingsleep {post : Bool → Ghost → Prop} :
    Obeys logic (holdingsleep slot) g post ↔ post (g.lock slot).isSome g := Iff.rfl

@[simp] theorem obeys_look {post : Bool × Dinode → Ghost → Prop} :
    Obeys logic (look slot) g post ↔ looks slot g post (g.lock slot) := Iff.rfl

@[simp] theorem obeys_ident {post : Nat × Nat → Ghost → Prop} :
    Obeys logic (ident slot) g post ↔ ∀ id, post id g := Iff.rfl

variable {post : Unit → Ghost → Prop}

@[simp] theorem obeys_incRef :
    Obeys logic (incRef slot) g post ↔ 1 ≤ g.refs slot ∧ post () (g.addRef slot) := Iff.rfl

@[simp] theorem obeys_decRef :
    Obeys logic (decRef slot) g post ↔
      1 ≤ g.refs slot ∧ g.lock slot = none ∧ post () (g.dropRef slot) := Iff.rfl

@[simp] theorem obeys_acquiresleep :
    Obeys logic (acquiresleep slot) g post ↔
      1 ≤ g.refs slot ∧ (g.lock slot = none → post () (g.setLock slot (some .unknown))) := Iff.rfl

@[simp] theorem obeys_releasesleep :
    Obeys logic (releasesleep slot) g post ↔
      (∃ status, g.lock slot = some status ∧ status.Clean) ∧ post () (g.setLock slot none) := Iff.rfl

@[simp] theorem obeys_load {post : Dinode → Ghost → Prop} :
    Obeys logic (load slot) g post ↔ g.lock slot = some .stale ∧ ∀ d,
      (Good d → post d (g.setLock slot (some (.known d)))) ∧
        (d.type = 0 → post d (g.setLock slot (some .freed))) := Iff.rfl

@[simp] theorem obeys_modify {change : Dinode → Dinode} :
    Obeys logic (modify slot change) g post ↔ modifies slot change g (post ()) (g.lock slot) := Iff.rfl

@[simp] theorem obeys_iupdate :
    Obeys logic (iupdate slot) g post ↔ updates slot g (post ()) (g.lock slot) := Iff.rfl

@[simp] theorem obeys_claim {dev inum : Nat} {type : BitVec 16} {post : Bool → Ghost → Prop} :
    Obeys logic (claim dev inum type) g post ↔ type ≠ 0 ∧ ∀ claimed, post claimed g := Iff.rfl

@[simp] theorem obeys_balloc {post : Nat → Ghost → Prop} :
    Obeys logic balloc g post ↔ ∀ addr, addr ≠ 0 → post addr g := Iff.rfl

@[simp] theorem obeys_indirect {post : Nat → Ghost → Prop} :
    Obeys logic indirect g post ↔ ∀ addr, post addr g := Iff.rfl

@[simp] theorem obeys_device {post : Option Int → Ghost → Prop} :
    Obeys logic device g post ↔ ∀ result, post result g := Iff.rfl

theorem obeys_panic {post : Value → Ghost → Prop} : Obeys logic panic g post := trivial

/-- The process has locked the inode, and the copy is what the disk has. -/
structure Locks (g : Ghost) (slot : Slot) (d : Dinode) : Prop where
  lock : g.lock slot = some (.known d)
  good : Good d
  refs : 1 ≤ g.refs slot

/-- The process knows what the copy is. -/
def Sees (g : Ghost) (slot : Slot) (d : Dinode) : Prop :=
  g.lock slot = some (.known d) ∨ g.lock slot = some (.dirty d)

variable {name : List UInt8}

section

variable (locks : Locks g slot d)

include locks

theorem Locks.sees : Sees g slot d := Or.inl locks.lock

theorem Locks.known {new : Dinode} (good : Good new) :
    Locks (g.setLock slot (some (.known new))) slot new :=
  ⟨Ghost.setLock_self, good, locks.refs⟩

theorem Locks.other {other : Slot} {status : Option Status} (different : slot ≠ other) : Locks (g.setLock other status) slot d :=
  ⟨(Ghost.setLock_of_ne different).trans locks.lock, locks.good, locks.refs⟩

theorem Locks.addRef (other : Slot) : Locks (g.addRef other) slot d :=
  ⟨locks.lock, locks.good, locks.refs.trans Ghost.le_addRef⟩

omit locks in
theorem look_obeys {post : Bool × Dinode → Ghost → Prop} (sees : Sees g slot d) (then_ : post (true, d) g) :
    Obeys logic (look slot) g post := by
  rw [obeys_look]
  rcases sees with isLocked | isLocked
  · rw [isLocked]
    exact then_
  · rw [isLocked]
    exact then_

omit locks in
theorem modify_obeys {change : Dinode → Dinode} (sees : Sees g slot d)
    (then_ : post () (g.setLock slot (some (.dirty (change d))))) :
    Obeys logic (modify slot change) g post := by
  rw [obeys_modify]
  rcases sees with isLocked | isLocked
  · rw [isLocked]
    exact then_
  · rw [isLocked]
    exact then_

omit locks in
theorem iupdate_obeys (dirty : g.lock slot = some (.dirty d)) (good : Good d)
    (then_ : post () (g.setLock slot (some (.known d)))) : Obeys logic (iupdate slot) g post := by
  rw [obeys_iupdate, dirty]
  exact Or.inl ⟨good, then_⟩

omit locks in
theorem ifill_obeys (fresh : g.lock slot = some .unknown)
    (then_ : ∀ d, Good d → post () (g.setLock slot (some (.known d)))) :
    Obeys logic (ifill slot) g post := by
  rw [ifill, obeys_bind, obeys_look, fresh]
  refine ⟨fun d => ?_, fun d good => then_ d good⟩
  simp only [Bool.false_eq_true, if_false, obeys_bind, obeys_load]
  refine ⟨Ghost.setLock_self, fun loaded => ⟨fun good => ?_, fun isFree => ?_⟩⟩
  · rw [if_neg good.type, Ghost.setLock_setLock]
    exact then_ loaded good
  · rw [if_pos isFree]
    exact obeys_panic

omit locks in
theorem ilock_obeys (refs : 1 ≤ g.refs slot)
    (then_ : g.lock slot = none → ∀ d, Good d → post () (g.setLock slot (some (.known d)))) :
    Obeys logic (ilock slot) g post := by
  simp only [ilock, obeys_bind, obeys_getRef]
  intro ref
  rw [obeys_ite]
  refine ⟨fun _ => obeys_panic, fun _ => ?_⟩
  rw [obeys_bind, obeys_acquiresleep]
  refine ⟨refs, fun isFree => ifill_obeys Ghost.setLock_self fun d good => ?_⟩
  rw [Ghost.setLock_setLock]
  exact then_ isFree d good

omit locks in
theorem iunlock_obeys (known : ∀ status, g.lock slot = some status → status.Clean)
    (then_ : post () (g.setLock slot none)) : Obeys logic (iunlock slot) g post := by
  simp only [iunlock, obeys_bind, obeys_holdingsleep, obeys_getRef]
  intro ref
  rw [obeys_ite]
  refine ⟨fun _ => obeys_panic, fun goesOn => ⟨?_, then_⟩⟩
  cases isLocked : g.lock slot with
  | none =>
    rw [isLocked] at goesOn
    exact absurd (Or.inl rfl) goesOn
  | some status => exact ⟨status, rfl, known status isLocked⟩

theorem Locks.iunlock (then_ : post () (g.setLock slot none)) :
    Obeys logic (iunlock slot) g post := by
  refine iunlock_obeys (fun status isLocked => ?_) then_
  rw [locks.lock] at isLocked
  cases isLocked
  trivial

omit locks in
theorem itruncLoop_obeys {ks : List (Fin (NDIRECT + 1))} (sees : Sees g slot d) (kept : post () g)
    (cleared : ∀ new : Dinode, new.type = d.type → post () (g.setLock slot (some (.dirty new)))) :
    Obeys logic (itruncLoop slot ks) g post := by
  induction ks generalizing g d with
  | nil => exact kept
  | cons k rest ih =>
    simp only [itruncLoop, itruncAddr, obeys_bind]
    refine look_obeys sees ?_
    rw [obeys_ite]
    constructor
    · intro _
      exact ih sees kept cleared
    · intro _
      refine modify_obeys sees ?_
      refine ih (d := setAddr k 0 d) (Or.inr Ghost.setLock_self) ?_ fun new type => ?_
      · exact cleared _ rfl
      · rw [Ghost.setLock_setLock]
        exact cleared new type

theorem itrunc_obeys (then_ : ∀ new, Good new → post () (g.setLock slot (some (.known new)))) :
    Obeys logic (itrunc slot) g post := by
  have ends : ∀ {g'} {new : Dinode}, Sees g' slot new → new.type = d.type →
      (∀ status, g'.setLock slot status = g.setLock slot status) →
      Obeys logic (do
        modify slot fun d => { d with size := 0 }
        iupdate slot) g' post := by
    intro g' new sees type same
    have good : Good { new with size := 0 } := ⟨type ▸ locks.good.type, mapped_of_empty rfl⟩
    rw [obeys_bind]
    refine modify_obeys sees ?_
    refine iupdate_obeys Ghost.setLock_self good ?_
    rw [Ghost.setLock_setLock, same]
    exact then_ _ good
  rw [itrunc, obeys_bind]
  refine itruncLoop_obeys locks.sees ?_ fun new type => ?_
  · exact ends locks.sees rfl fun _ => rfl
  · exact ends (Or.inr Ghost.setLock_self) type fun _ => Ghost.setLock_setLock

theorem ifree_obeys (then_ : post () (g.setLock slot (some .stale))) :
    Obeys logic (ifree slot) g post := by
  rw [ifree, obeys_bind]
  refine itrunc_obeys locks fun new good => ?_
  rw [obeys_bind]
  refine modify_obeys (locks.known good).sees ?_
  rw [obeys_bind, Ghost.setLock_setLock, obeys_iupdate, Ghost.setLock_self]
  refine Or.inr ⟨rfl, fun bn inside below => good.mapped bn inside below, ?_⟩
  rw [Ghost.setLock_setLock]
  refine ⟨Ghost.setLock_self, ?_⟩
  rw [Ghost.setLock_setLock]
  exact then_

omit locks in
theorem ifreeIfLast_obeys (fresh : g.lock slot = some .unknown) (refs : 1 ≤ g.refs slot)
    (then_ : ∀ status, status.Clean → post () (g.setLock slot (some status))) :
    Obeys logic (ifreeIfLast slot) g post := by
  rw [ifreeIfLast, obeys_bind, obeys_look, fresh]
  refine ⟨fun d => ?_, fun d good => ?_⟩
  · simp only [Bool.false_eq_true, false_and, if_false, obeys_pure]
    exact then_ .stale trivial
  · have locks : Locks (g.setLock slot (some (.known d))) slot d := ⟨Ghost.setLock_self, good, refs⟩
    simp only [true_and]
    rw [obeys_ite]
    refine ⟨fun _ => ?_, fun _ => then_ (.known d) trivial⟩
    simp only [obeys_bind, obeys_getRef]
    intro r
    rw [obeys_ite]
    refine ⟨fun _ => ifree_obeys locks ?_, fun _ => then_ (.known d) trivial⟩
    rw [Ghost.setLock_setLock]
    exact then_ .stale trivial

omit locks in
theorem iput_obeys (refs : 1 ≤ g.refs slot) (then_ : g.lock slot = none → post () (g.dropRef slot)) :
    Obeys logic (iput slot) g post := by
  simp only [iput, obeys_bind, obeys_acquiresleep, obeys_releasesleep, obeys_decRef]
  refine ⟨refs, fun isFree => ?_⟩
  refine ifreeIfLast_obeys Ghost.setLock_self refs fun status clean => ?_
  rw [Ghost.setLock_setLock]
  refine ⟨⟨status, Ghost.setLock_self, clean⟩, ?_⟩
  rw [Ghost.setLock_setLock, Ghost.setLock_eq_self isFree]
  exact ⟨refs, isFree, then_ isFree⟩

theorem Locks.iunlockput (then_ : post () ((g.setLock slot none).dropRef slot)) :
    Obeys logic (iunlockput slot) g post := by
  rw [ICache.iunlockput, obeys_bind]
  exact locks.iunlock (iput_obeys locks.refs fun _ => then_)

theorem callDevice_obeys {post : Int → Ghost → Prop} (then_ : ∀ result new, Good new → post result (g.setLock slot (some (.known new)))) :
    Obeys logic (callDevice slot) g post := by
  simp only [callDevice, obeys_bind, obeys_device]
  intro result
  cases result with
  | none =>
    have kept := then_ (-1) d locks.good
    rwa [Ghost.setLock_eq_self locks.lock] at kept
  | some result =>
    simp only [obeys_bind, obeys_pure]
    refine locks.iunlock (ilock_obeys locks.refs fun _ new good => ?_)
    rw [Ghost.setLock_setLock]
    exact then_ result new good

/-- Every byte of the range is in a block that is mapped. -/
def Covers (d : Dinode) (off n : Nat) : Prop :=
  ∀ i, off ≤ i → i < off + n → d.addrs (addrOf (i / BSIZE)) ≠ 0

variable {off : Nat}

omit locks in
theorem covers_of_mapped (mapped : Mapped d) {n : Nat} (inside : off + n ≤ d.size) :
    Covers d off n := by
  intro i _ below
  have isBlock : i / BSIZE * BSIZE ≤ i := Nat.div_mul_le_self i BSIZE
  by_cases direct : i / BSIZE < NDIRECT
  · exact mapped (i / BSIZE) (by unfold MAXFILE; omega) (by omega)
  · have indirect : addrOf (i / BSIZE) = addrOf NDIRECT := by
      rw [addrOf, dif_neg direct, addrOf, dif_neg (Nat.lt_irrefl NDIRECT)]
    have before : NDIRECT * BSIZE ≤ i / BSIZE * BSIZE := Nat.mul_le_mul_right BSIZE (by omega)
    rw [indirect]
    exact mapped NDIRECT (by decide) (by omega)

/-- `new` is `d` with more blocks mapped. -/
structure Grows (d new : Dinode) : Prop where
  type : new.type = d.type
  size : new.size = d.size
  addrs : ∀ k, d.addrs k ≠ 0 → new.addrs k ≠ 0

omit locks in
theorem Grows.refl (d : Dinode) : Grows d d := ⟨rfl, rfl, fun _ mapped => mapped⟩

omit locks in
theorem Grows.trans {first second third : Dinode} (left : Grows first second) (right : Grows second third) :
    Grows first third :=
  ⟨right.type.trans left.type, right.size.trans left.size, fun k mapped => right.addrs k (left.addrs k mapped)⟩

omit locks in
theorem grows_setAddr {k : Fin (NDIRECT + 1)} {addr : Nat} (nonzero : addr ≠ 0) : Grows d (setAddr k addr d) := by
  refine ⟨rfl, rfl, fun k' mapped => ?_⟩
  simp only [setAddr]
  by_cases same : k' = k
  · rw [same, Function.update_self]
    exact nonzero
  · rw [Function.update_of_ne same]
    exact mapped

omit locks in
/-- The bytes of a range that are in its first block, and the others. -/
theorem covers_step {n : Nat} (first : d.addrs (addrOf (off / BSIZE)) ≠ 0)
    (rest : Covers d (off + min n (BSIZE - off % BSIZE)) (n - min n (BSIZE - off % BSIZE))) :
    Covers d off n := by
  intro i low high
  by_cases inFirst : i < off + (BSIZE - off % BSIZE)
  · have sameBlock : i / BSIZE = off / BSIZE := by
      have positive : 0 < BSIZE := by decide
      have split := Nat.div_add_mod off BSIZE
      have inBlock := Nat.mod_lt off positive
      refine Nat.div_eq_of_lt_le ?_ ?_
      · rw [Nat.mul_comm]
        omega
      · rw [Nat.succ_mul, Nat.mul_comm]
        omega
    rw [sameBlock]
    exact first
  · exact rest i (by omega) (by omega)

omit locks in
theorem bmapAddr_obeys {post : Nat → Ghost → Prop} {k : Fin (NDIRECT + 1)} (sees : Sees g slot d)
    (mapped : d.addrs k ≠ 0 → post (d.addrs k) g)
    (allocated : d.addrs k = 0 → ∀ addr, addr ≠ 0 →
      post addr (g.setLock slot (some (.dirty (setAddr k addr d))))) :
    Obeys logic (bmapAddr slot k) g post := by
  rw [bmapAddr, obeys_bind]
  refine look_obeys sees ?_
  simp only
  rw [obeys_ite]
  refine ⟨fun isFree => ?_, fun isMapped => mapped isMapped⟩
  simp only [obeys_bind, obeys_balloc, obeys_pure]
  intro addr nonzero
  exact modify_obeys sees (allocated isFree addr nonzero)

omit locks in
theorem bmap_obeys {post : Nat → Ghost → Prop} {bn : Nat} (sees : Sees g slot d)
    (mapped : d.addrs (addrOf bn) ≠ 0 → ∀ addr, post addr g)
    (allocated : d.addrs (addrOf bn) = 0 → ∀ addr new, new ≠ 0 →
      post addr (g.setLock slot (some (.dirty (setAddr (addrOf bn) new d))))) :
    Obeys logic (bmap slot bn) g post := by
  rw [bmap, obeys_ite]
  constructor
  · intro _
    exact bmapAddr_obeys sees (fun isMapped => mapped isMapped _)
      fun isFree addr nonzero => allocated isFree addr addr nonzero
  · intro _
    rw [obeys_ite]
    refine ⟨fun _ => ?_, fun _ => obeys_panic⟩
    rw [obeys_bind]
    -- the entry of the indirect block is mapped or not, whatever became of its address
    have ends : ∀ {g'}, (∀ addr, post addr g') →
        Obeys logic (do
          let addr ← indirect
          if addr = 0 then balloc else pure addr) g' post := by
      intro g' all
      simp only [obeys_bind, obeys_indirect]
      intro addr
      rw [obeys_ite]
      exact ⟨fun _ => fun new _ => all new, fun _ => all addr⟩
    refine bmapAddr_obeys sees (fun isMapped => ends (mapped isMapped)) fun isFree addr nonzero => ?_
    exact ends fun result => allocated isFree result addr nonzero

omit locks in
/-- The loop of `readi` and `writei`: it changes nothing if the range is mapped, and maps
it otherwise. -/
theorem readLoop_obeys {rounds n : Nat} (enough : n ≤ rounds) (sees : Sees g slot d)
    (kept : Covers d off n → post () g)
    (grown : ¬ Covers d off n → ∀ new, Grows d new → Covers new off n → post () (g.setLock slot (some (.dirty new)))) :
    Obeys logic (readLoop slot rounds off n) g post := by
  induction rounds generalizing g d off n with
  | zero =>
    refine kept fun i low high => ?_
    omega
  | succ rounds ih =>
    rw [readLoop, obeys_ite]
    refine ⟨fun isZero => kept fun i low high => ?_, fun nonempty => ?_⟩
    · omega
    · have positive : 0 < BSIZE := by decide
      have inBlock := Nat.mod_lt off positive
      rw [obeys_bind]
      refine bmap_obeys sees (fun isMapped _ => ?_) fun isFree _ addr nonzero => ?_
      · refine ih (by omega) sees (fun rest => ?_) fun notRest new grows covers => ?_
        · exact kept (covers_step isMapped rest)
        · refine grown (fun all => notRest fun i low high => all i (by omega) (by omega)) new grows ?_
          exact covers_step (grows.addrs _ isMapped) covers
      · have unmapped : ¬ Covers d off n := fun all => all off (Nat.le_refl off) (by omega) isFree
        have grows : Grows d (setAddr (addrOf (off / BSIZE)) addr d) := grows_setAddr nonzero
        have isMapped : (setAddr (addrOf (off / BSIZE)) addr d).addrs (addrOf (off / BSIZE)) ≠ 0 := by
          simpa [setAddr] using nonzero
        refine ih (by omega) (Or.inr Ghost.setLock_self) (fun rest => ?_)
          fun _ new grows' covers => ?_
        · exact grown unmapped _ grows (covers_step isMapped rest)
        · rw [Ghost.setLock_setLock]
          refine grown unmapped new (grows.trans grows') ?_
          exact covers_step (grows'.addrs _ isMapped) covers

/-- `readi` leaves the inode as it was, unless it is a device. -/
theorem readi_obeys {post : Int → Ghost → Prop} {n : Nat} (then_ : ∀ result new, Good new → post result (g.setLock slot (some (.known new)))) :
    Obeys logic (readi slot off n) g post := by
  have kept : ∀ result, post result g := by
    intro result
    have same := then_ result d locks.good
    rwa [Ghost.setLock_eq_self locks.lock] at same
  rw [readi, obeys_bind]
  refine look_obeys locks.sees ?_
  simp only
  rw [obeys_ite]
  refine ⟨fun _ => callDevice_obeys locks then_, fun _ => ?_⟩
  rw [obeys_ite]
  refine ⟨fun _ => kept (-1), fun _ => ?_⟩
  rw [obeys_bind]
  have inside : off + (if d.size < off + n then d.size - off else n) ≤ d.size := by
    split <;> omega
  have covers := covers_of_mapped locks.good.mapped inside
  exact readLoop_obeys (Nat.le_refl _) locks.sees (fun _ => kept _) fun unmapped => absurd covers unmapped

theorem writei_obeys {post : Int → Ghost → Prop} {n : Nat} (then_ : ∀ result new, Good new → post result (g.setLock slot (some (.known new)))) :
    Obeys logic (writei slot off n) g post := by
  have kept : ∀ result, post result g := by
    intro result
    have same := then_ result d locks.good
    rwa [Ghost.setLock_eq_self locks.lock] at same
  rw [writei, obeys_bind]
  refine look_obeys locks.sees ?_
  simp only
  rw [obeys_ite]
  refine ⟨fun _ => callDevice_obeys locks then_, fun _ => ?_⟩
  rw [obeys_ite]
  refine ⟨fun _ => kept (-1), fun valid => ?_⟩
  rw [obeys_ite]
  refine ⟨fun _ => kept (-1), fun short => ?_⟩
  have start : off ≤ d.size := by omega
  -- The blocks below the new size are those below the old one and those of the range.
  have goodOf : ∀ {new : Dinode}, Grows d new → Covers new off n → d.size < off + n →
      Good { new with size := off + n } := by
    intro new grows covers _
    refine ⟨grows.type ▸ locks.good.type, fun bn inside below => ?_⟩
    by_cases old : bn * BSIZE < d.size
    · exact grows.addrs _ (locks.good.mapped bn inside old)
    · have isBlock : bn * BSIZE / BSIZE = bn := Nat.mul_div_cancel bn (by decide)
      have covered := covers (bn * BSIZE) (by omega) below
      rwa [isBlock] at covered
  have extends_ : ∀ {g'} {new : Dinode}, Sees g' slot new → Grows d new → Covers new off n →
      (∀ status, g'.setLock slot status = g.setLock slot status) → 0 < n ∧ d.size < off + n →
      Obeys logic (do
        writeSize slot n (off + n)
        pure (n : Int)) g' post := by
    intro g' new sees grows covers same more
    have good := goodOf grows covers more.2
    simp only [writeSize, obeys_bind]
    refine look_obeys sees ?_
    simp only
    rw [if_pos ⟨more.1, by rw [grows.size]; exact more.2⟩, obeys_bind]
    refine modify_obeys sees (iupdate_obeys Ghost.setLock_self good ?_)
    rw [Ghost.setLock_setLock, same]
    exact then_ _ _ good
  rw [obeys_bind]
  refine readLoop_obeys (Nat.le_refl n) locks.sees (fun covers => ?_) fun unmapped new grows covers => ?_
  · by_cases more : 0 < n ∧ d.size < off + n
    · exact extends_ locks.sees (.refl d) covers (fun _ => rfl) more
    · simp only [writeSize, obeys_bind]
      refine look_obeys locks.sees ?_
      simp only
      rw [if_neg more]
      exact kept n
  · have more : 0 < n ∧ d.size < off + n := by
      constructor
      · by_contra isZero
        exact unmapped fun i low high => by omega
      · by_contra within
        exact unmapped (covers_of_mapped locks.good.mapped (by omega))
    exact extends_ (Or.inr Ghost.setLock_self) grows covers (fun _ => Ghost.setLock_setLock) more

theorem readDirent_obeys {post : Dirent → Ghost → Prop} (then_ : ∀ de new, Good new → post de (g.setLock slot (some (.known new)))) :
    Obeys logic (readDirent slot off) g post := by
  rw [readDirent, obeys_bind]
  refine readi_obeys locks fun result new good => ?_
  rw [obeys_ite]
  exact ⟨fun _ => fun de => then_ de new good, fun _ => obeys_panic⟩

theorem dirlookupLoop_obeys {post : Option (Slot × Nat) → Ghost → Prop} {offsets : List Nat}
    (absent : ∀ new, Good new → post none (g.setLock slot (some (.known new))))
    (found : ∀ new ip off, Good new → post (some (ip, off)) ((g.setLock slot (some (.known new))).addRef ip)) :
    Obeys logic (dirlookupLoop slot name offsets) g post := by
  induction offsets generalizing g d with
  | nil =>
    have same := absent d locks.good
    rwa [Ghost.setLock_eq_self locks.lock] at same
  | cons off rest ih =>
    rw [dirlookupLoop, obeys_bind]
    refine readDirent_obeys locks fun de new good => ?_
    rw [obeys_ite]
    constructor
    · intro _
      simp only [obeys_bind, obeys_ident, obeys_iget, obeys_pure]
      intro id ip
      exact found new ip off good
    · intro _
      refine ih (locks.known good) (fun newer good' => ?_) fun newer ip off' good' => ?_
      · rw [Ghost.setLock_setLock]
        exact absent newer good'
      · rw [Ghost.setLock_setLock]
        exact found newer ip off' good'

theorem dirlookup_obeys {post : Option (Slot × Nat) → Ghost → Prop} (absent : ∀ new, Good new → post none (g.setLock slot (some (.known new))))
    (found : ∀ new ip off, Good new → post (some (ip, off)) ((g.setLock slot (some (.known new))).addRef ip)) :
    Obeys logic (dirlookup slot name) g post := by
  rw [dirlookup, obeys_bind]
  refine look_obeys locks.sees ?_
  simp only
  rw [obeys_ite]
  exact ⟨fun _ => dirlookupLoop_obeys locks absent found, fun _ => obeys_panic⟩

theorem emptyEntry_obeys {post : Nat → Ghost → Prop} {behind : Nat} {offsets : List Nat}
    (then_ : ∀ off new, Good new → post off (g.setLock slot (some (.known new)))) :
    Obeys logic (emptyEntry slot behind offsets) g post := by
  induction offsets generalizing g d with
  | nil =>
    have same := then_ behind d locks.good
    rwa [Ghost.setLock_eq_self locks.lock] at same
  | cons off rest ih =>
    rw [emptyEntry, obeys_bind]
    refine readDirent_obeys locks fun de new good => ?_
    rw [obeys_ite]
    refine ⟨fun _ => then_ off new good, fun _ => ?_⟩
    refine ih (locks.known good) fun off' newer good' => ?_
    rw [Ghost.setLock_setLock]
    exact then_ off' newer good'

theorem dirlink_obeys {post : Int → Ghost → Prop} (then_ : ∀ result new, Good new → post result (g.setLock slot (some (.known new)))) :
    Obeys logic (dirlink slot name) g post := by
  rw [dirlink, obeys_bind]
  refine dirlookup_obeys locks (fun new good => ?_) fun new ip off good => ?_
  · have locks' := locks.known good
    simp only
    rw [addEntry, obeys_bind]
    refine look_obeys locks'.sees ?_
    simp only
    rw [obeys_bind]
    refine emptyEntry_obeys locks' fun off newer good' => ?_
    rw [obeys_bind, Ghost.setLock_setLock]
    refine writei_obeys (locks.known good') fun result newest good'' => ?_
    rw [Ghost.setLock_setLock, obeys_ite]
    exact ⟨fun _ => then_ 0 newest good'', fun _ => obeys_panic⟩
  · simp only [obeys_bind, obeys_pure]
    refine iput_obeys Ghost.one_le_addRef fun _ => ?_
    rw [Ghost.addRef_dropRef]
    exact then_ (-1) new good

end

theorem namexEnd_obeys {post : Option (Slot × List UInt8) → Ghost → Prop} {parent : Bool}
    {ip : Slot} (absent : post none g) (found : ∀ name, post (some (ip, name)) (g.addRef ip)) :
    Obeys logic (namexEnd parent ip name) (g.addRef ip) post := by
  rw [namexEnd, obeys_ite]
  refine ⟨fun _ => ?_, fun _ => found name⟩
  simp only [obeys_bind, obeys_pure]
  refine iput_obeys Ghost.one_le_addRef fun _ => ?_
  rw [Ghost.addRef_dropRef]
  exact absent

theorem namexLoop_obeys {post : Option (Slot × List UInt8) → Ghost → Prop} {parent : Bool}
    {rounds : Nat} {ip : Slot} {path : List UInt8} (absent : post none g)
    (found : ∀ ip name, post (some (ip, name)) (g.addRef ip)) :
    Obeys logic (namexLoop parent rounds ip path name) (g.addRef ip) post := by
  induction rounds generalizing ip path name with
  | zero => exact namexEnd_obeys absent (found ip)
  | succ rounds ih =>
    rw [namexLoop]
    split
    · exact namexEnd_obeys absent (found ip)
    · rename_i path' name' _
      rw [obeys_bind]
      refine ilock_obeys Ghost.one_le_addRef fun wasFree d good => ?_
      have locks : Locks ((g.addRef ip).setLock ip (some (.known d))) ip d :=
        ⟨Ghost.setLock_self, good, Ghost.one_le_addRef⟩
      have unlocked : ((g.addRef ip).setLock ip (some (.known d))).setLock ip none = g.addRef ip := by
        rw [Ghost.setLock_setLock, Ghost.setLock_eq_self wasFree]
      rw [obeys_bind]
      refine look_obeys locks.sees ?_
      simp only
      rw [obeys_ite]
      constructor
      · intro _
        simp only [obeys_bind, obeys_pure]
        refine locks.iunlockput ?_
        rw [unlocked, Ghost.addRef_dropRef]
        exact absent
      · intro _
        rw [obeys_ite]
        constructor
        · intro _
          simp only [obeys_bind, obeys_pure]
          refine locks.iunlock ?_
          rw [unlocked]
          exact found ip name'
        · intro _
          rw [obeys_bind]
          refine dirlookup_obeys locks (fun new good' => ?_) fun new next off good' => ?_
          · simp only [obeys_bind, obeys_pure]
            refine (locks.known good').iunlockput ?_
            rw [Ghost.setLock_setLock, unlocked, Ghost.addRef_dropRef]
            exact absent
          · simp only [obeys_bind]
            refine ((locks.known good').addRef next).iunlockput ?_
            rw [← Ghost.setLock_addRef, Ghost.setLock_setLock, unlocked, Ghost.addRef_addRef_dropRef]
            exact ih

theorem namex_obeys {post : Option (Slot × List UInt8) → Ghost → Prop} {cwd : Slot} {path : List UInt8}
    {parent : Bool} (refs : 1 ≤ g.refs cwd) (absent : post none g)
    (found : ∀ ip name, post (some (ip, name)) (g.addRef ip)) :
    Obeys logic (namex cwd path parent) g post := by
  rw [namex, namexStart, obeys_bind, obeys_ite]
  constructor
  · intro _ ip
    exact namexLoop_obeys absent found
  · intro _
    simp only [idup, obeys_bind, obeys_incRef, obeys_pure]
    exact ⟨refs, namexLoop_obeys absent found⟩

end Xv6.ICache
