import Xv6.Fs.InodeSpecs
import Xv6.Fs.Calls
import Xv6.Fs.Exec

/-!
Contract: the books of a process in the file system: the inodes it has locked, the
references that are counted, and whether it is in a transaction.

The lemmas need no invariant. They hold in every state, of a disk with any contents,
and say for each function how it returns; a function that does not return is no matter
of theirs.
-/

namespace Xv6.Fs

open Function Xv6.Lib

/-- The transaction that a process is in, as `begin_op` and `end_op` open and close it.
Only a device is used outside one. -/
def opStep (inside : Bool) : Event → Option Bool
  | .beginOp => if inside then none else some true
  | .endOp => if inside then some false else none
  | .device => some inside
  | .logWrite _ => if inside then some true else none
  | .balloc _ _ => if inside then some true else none
  | .bfree _ => if inside then some true else none
  | .iput _ => if inside then some true else none

/-- The process that holds the lock of each entry of the inode cache. -/
abbrev Holders := Slot → Option ProcId

abbrev Refs := Slot → Int

/-- The locks and references of `s`, and whether the events since `base` have left the
process in a transaction. -/
structure Books (holders : Holders) (refs : Refs) (inside : Bool) (base : List Event)
    (s : FsState) : Prop where
  holders : ∀ x, (s.icache x).lock = holders x
  refs : ∀ x, (s.icache x).ref = refs x
  trace : ∃ events, s.trace = events ++ base ∧
    events.reverse.foldlM opStep false = some inside

def one (x : Slot) : Refs := Pi.single x 1

namespace Books

variable {holders : Holders} {refs : Refs} {inside after : Bool} {base : List Event} {s : FsState}
  (books : Books holders refs inside base s)

theorem start (s : FsState) :
    Books (fun x => (s.icache x).lock) (fun x => (s.icache x).ref) false s.trace s :=
  ⟨fun _ => rfl, fun _ => rfl, [], rfl, rfl⟩

include books

private theorem scanned {trace : List Event} {event : Event}
    (step : opStep inside event = some after) (same : trace = event :: s.trace) :
    ∃ events, trace = events ++ base ∧ events.reverse.foldlM opStep false = some after := by
  obtain ⟨events, isTrace, scanned⟩ := books.trace
  refine ⟨event :: events, by rw [same, isTrace, List.cons_append], ?_⟩
  rw [List.reverse_cons, List.foldlM_append, scanned]
  simp [step]

theorem log {event : Event} (step : opStep inside event = some after) :
    Books holders refs after base (s.log event) :=
  ⟨books.holders, books.refs, books.scanned step rfl⟩

theorem put (x : Slot) (ip : Inode) :
    Books (update holders x ip.lock) (update refs x ip.ref) inside base
      (s.put x ip) := by
  refine ⟨fun y => ?_, fun y => ?_, books.trace⟩
  · by_cases same : y = x
    · rw [same, FsState.put_icache, update_self, update_self]
    · rw [FsState.put_icache, update_of_ne same, update_of_ne same, books.holders]
  · by_cases same : y = x
    · rw [same, FsState.put_icache, update_self, update_self]
    · rw [FsState.put_icache, update_of_ne same, update_of_ne same, books.refs]

theorem putSame {x : Slot} {ip : Inode} (lock : ip.lock = (s.icache x).lock)
    (ref : ip.ref = (s.icache x).ref) : Books holders refs inside base (s.put x ip) := by
  have put := books.put x ip
  rwa [lock, books.holders, update_eq_self, ref, books.refs, update_eq_self]
    at put

theorem putLock (x : Slot) (ip : Inode) {holder : Option ProcId} (lock : ip.lock = holder)
    (ref : ip.ref = (s.icache x).ref) :
    Books (update holders x holder) refs inside base (s.put x ip) := by
  have put := books.put x ip
  rwa [lock, ref, books.refs, update_eq_self] at put

theorem putRef {x : Slot} {ip : Inode} {change : Int} (lock : ip.lock = (s.icache x).lock)
    (ref : ip.ref = (s.icache x).ref + change) :
    Books holders (refs + Pi.single x change) inside base (s.put x ip) := by
  have put := books.put x ip
  rw [lock, books.holders, update_eq_self, ref, books.refs] at put
  convert put using 1
  funext y
  by_cases same : y = x
  · rw [same, update_self, Pi.add_apply, Pi.single_eq_same]
  · rw [update_of_ne same, Pi.add_apply, Pi.single_eq_of_ne same, add_zero]

theorem congr {holders' : Holders} {refs' : Refs} (sameHolders : holders = holders')
    (sameRefs : refs = refs') : Books holders' refs' inside base s :=
  sameHolders ▸ sameRefs ▸ books

end Books

/-- In a transaction the program leaves all locks and counts as they are. -/
def Keeps {Value : Type} (program : FsM Value) : Prop :=
  ∀ (holders : Holders) (refs : Refs) (base : List Event) (s : FsState),
    Books holders refs true base s →
      wp program (fun _ s' => Books holders refs true base s') (fun _ _ => True) s

namespace Keeps

variable {Value Result Item : Type} {program : FsM Value} {next : Value → FsM Result}

theorem pure (value : Value) : Keeps (pure value : FsM Value) := fun _ _ _ _ books => books

theorem halt (error : Halt) : Keeps (Prog.halt error : FsM Value) := fun _ _ _ _ _ => trivial

theorem get : Keeps (Prog.get : FsM FsState) := fun _ _ _ _ books => books

theorem bind (first : Keeps program) (then_ : ∀ value, Keeps (next value)) :
    Keeps (program >>= next) := by
  intro holders refs base s books
  apply (first holders refs base s books).bind
  intro value s' books'
  exact then_ value holders refs base s' books'

theorem forEach {body : Item → FsM Unit} (each : ∀ item, Keeps (body item)) (items : List Item) :
    Keeps (Prog.forEach body items) := by
  intro holders refs base s books
  apply wp_forEach (fun _ s => Books holders refs true base s)
  · intro _ item _ s' _ books'
    exact each item holders refs base s' books'
  · exact books

theorem record {event : Event} (inner : opStep true event = some true) : Keeps (record event) :=
  fun _ _ _ _ books => books.log inner

theorem logWrite (b : Nat) (data : Block) : Keeps (logWrite b data) := by
  intro holders refs base s books
  have logged : Books holders refs true base (s.log (.logWrite b)) := books.log rfl
  exact ⟨logged.holders, logged.refs, logged.trace⟩

theorem bread (b : Nat) : Keeps (bread b) := fun _ _ _ _ books => books

theorem setInode {x : Slot} {change : Inode → Inode} (lock : ∀ ip, (change ip).lock = ip.lock)
    (ref : ∀ ip, (change ip).ref = ip.ref) : Keeps (setInode x change) :=
  fun _ _ _ _ books => books.putSame (lock _) (ref _)

theorem setCopy (x : Slot) (change : Dinode → Dinode) : Keeps (setCopy x change) :=
  setInode (fun _ => rfl) fun _ => rfl

theorem setAddr (x : Slot) (k : Fin (NDIRECT + 1)) (addr : Nat) : Keeps (setAddr x k addr) :=
  setCopy x _

theorem ite {condition : Prop} [Decidable condition] {first second : FsM Value}
    (holds : Keeps first) (fails : Keeps second) : Keeps (if condition then first else second) := by
  split
  · exact holds
  · exact fails

end Keeps

theorem balloc_keeps (caller : Caller) : Keeps (balloc caller) := by
  apply Keeps.get.bind
  intro s
  split
  · apply (Keeps.record rfl).bind
    intro _
    apply (Keeps.logWrite _ _).bind
    intro _
    exact (Keeps.logWrite _ _).bind fun _ => Keeps.pure _
  · exact Keeps.halt _

theorem bfree_keeps (b : Nat) : Keeps (bfree b) := by
  refine Keeps.bind ?_ fun _ => ?_
  · exact fun _ _ _ _ books => ⟨books.holders, books.refs, books.trace⟩
  · apply Keeps.get.bind
    intro s
    exact Keeps.ite ((Keeps.record rfl).bind fun _ => Keeps.logWrite _ _) (Keeps.halt _)

theorem iupdate_keeps (x : Slot) : Keeps (iupdate x) :=
  Keeps.get.bind fun _ => Keeps.logWrite _ _

theorem bmapSlot_keeps (caller : Caller) (x : Slot) (k : Fin (NDIRECT + 1)) :
    Keeps (bmapSlot caller x k) := by
  apply Keeps.get.bind
  intro s
  apply Keeps.ite
  · exact (balloc_keeps caller).bind fun addr =>
      (Keeps.setAddr x k addr).bind fun _ => Keeps.pure _
  · exact Keeps.pure _

theorem bmapEntry_keeps (caller : Caller) (addr j : Nat) : Keeps (bmapEntry caller addr j) := by
  apply (Keeps.bread addr).bind
  intro bp
  apply Keeps.ite
  · exact (balloc_keeps caller).bind fun new => (Keeps.bread addr).bind fun bp =>
      (Keeps.logWrite _ _).bind fun _ => Keeps.pure _
  · exact Keeps.pure _

theorem bmap_keeps (caller : Caller) (x : Slot) (bn : Nat) : Keeps (bmap caller x bn) := by
  unfold bmap
  split
  · exact bmapSlot_keeps caller x _
  · apply Keeps.ite
    · exact (bmapSlot_keeps caller x last).bind fun addr => bmapEntry_keeps caller addr _
    · exact Keeps.halt _

theorem itrunc_keeps (x : Slot) : Keeps (itrunc x) := by
  apply Keeps.bind
  · apply Keeps.forEach
    intro k
    apply Keeps.get.bind
    intro s
    apply Keeps.ite
    · exact (bfree_keeps _).bind fun _ => Keeps.setAddr x _ _
    · exact Keeps.pure _
  · intro _
    apply Keeps.bind
    · apply Keeps.get.bind
      intro s
      apply Keeps.ite
      · apply (Keeps.bread _).bind
        intro a
        apply (Keeps.forEach (fun j => Keeps.ite (bfree_keeps _) (Keeps.pure _)) _).bind
        intro _
        exact (bfree_keeps _).bind fun _ => Keeps.setAddr x last _
      · exact Keeps.pure _
    · intro _
      exact (Keeps.setCopy x _).bind fun _ => iupdate_keeps x

theorem ifreeIfLast_keeps (x : Slot) : Keeps (ifreeIfLast x) := by
  apply Keeps.get.bind
  intro s
  apply Keeps.ite
  · apply (itrunc_keeps x).bind
    intro _
    apply (Keeps.setCopy x _).bind
    intro _
    exact (iupdate_keeps x).bind fun _ => Keeps.setInode (fun _ => rfl) fun _ => rfl
  · exact Keeps.pure _

theorem readLoop_keeps (x : Slot) (rounds : Nat) : ∀ off n, Keeps (readLoop x rounds off n) := by
  induction rounds with
  | zero => exact fun _ _ => Keeps.pure _
  | succ rounds ih =>
    intro off n
    apply Keeps.ite
    · exact Keeps.pure _
    · exact (bmap_keeps .readi x _).bind fun addr => (Keeps.bread addr).bind fun bp =>
        (ih _ _).bind fun _ => Keeps.pure _

theorem readi_keeps (x : Slot) (off n : Nat) : Keeps (readi x off n) := by
  apply Keeps.get.bind
  intro s
  apply Keeps.ite
  · split
    · exact Keeps.pure _
    · exact (Keeps.record rfl).bind fun _ => Keeps.pure _
  · apply Keeps.ite
    · exact Keeps.pure _
    · exact (readLoop_keeps x _ _ _).bind fun _ => Keeps.pure _

theorem writeLoop_keeps (x : Slot) (rounds : Nat) :
    ∀ off src, Keeps (writeLoop x rounds off src) := by
  induction rounds with
  | zero => exact fun _ _ => Keeps.pure _
  | succ rounds ih =>
    intro off src
    apply Keeps.ite
    · exact Keeps.pure _
    · exact (bmap_keeps .writei x _).bind fun addr => (Keeps.bread addr).bind fun bp =>
        (Keeps.logWrite _ _).bind fun _ => ih _ _

theorem writei_keeps (x : Slot) (src : List UInt8) (off : Nat) : Keeps (writei x src off) := by
  apply Keeps.get.bind
  intro s
  apply Keeps.ite
  · split
    · exact Keeps.pure _
    · exact (Keeps.record rfl).bind fun _ => Keeps.pure _
  · apply Keeps.ite (Keeps.pure _)
    apply Keeps.ite (Keeps.pure _)
    apply (writeLoop_keeps x _ _ _).bind
    intro _
    apply Keeps.bind
    · apply Keeps.get.bind
      intro s
      exact Keeps.ite ((Keeps.setCopy x _).bind fun _ => iupdate_keeps x) (Keeps.pure _)
    · exact fun _ => Keeps.pure _

theorem update_holder {holders : Holders} {x : Slot} (free : holders x = none)
    (holder : Option ProcId) : update (update holders x holder) x none = holders := by
  rw [update_idem, ← free, update_eq_self]

section

variable {holders : Holders} {refs : Refs} {base : List Event} {s : FsState}
  (books : Books holders refs true base s)
include books

theorem iget_books (inum : Nat) :
    wp (iget inum) (fun x s' => Books holders (refs + one x) true base s')
      (fun _ _ => True) s := by
  simp only [iget, wp_bind, wp_get]
  split
  · simp only [wp_bind, wp_setInode, wp_pure]
    exact books.putRef rfl rfl
  · split
    · rename_i x found
      have free := List.find?_some found
      simp only [decide_eq_true_eq] at free
      simp only [wp_bind, wp_setInode, wp_pure]
      exact books.putRef rfl (by simp [free])
    · trivial

theorem idup_books (x : Slot) :
    wp (idup x) (fun y s' => y = x ∧ Books holders (refs + one x) true base s')
      (fun _ _ => True) s := by
  simp only [idup, wp_bind, wp_setInode, wp_pure, true_and]
  exact books.putRef rfl rfl

theorem ialloc_books (type : BitVec 16) :
    wp (ialloc type) (fun x s' => Books holders (refs + one x) true base s')
      (fun _ _ => True) s := by
  simp only [ialloc, wp_bind, wp_get]
  split
  · apply (Keeps.logWrite _ _ holders refs base s books).bind
    intro _ s' books'
    exact iget_books books' _
  · trivial

theorem acquiresleep_books (p : ProcId) (x : Slot) :
    wp (acquiresleep p x) (fun _ s' => holders x = none ∧
      Books (update holders x (some p)) refs true base s') (fun _ _ => True) s := by
  simp only [acquiresleep, wp_bind, wp_get, wp_ite, wp_setInode, wp_halt, implies_true, and_true]
  intro free
  exact ⟨books.holders x ▸ free, books.putLock x _ rfl rfl⟩

theorem ilock_books (p : ProcId) (x : Slot) :
    wp (ilock p x) (fun _ s' => holders x = none ∧
      Books (update holders x (some p)) refs true base s') (fun _ _ => True) s := by
  simp only [ilock, wp_bind, wp_get, wp_ite, wp_halt, implies_true, true_and]
  intro _
  apply (acquiresleep_books books p x).mono
  rintro _ s' ⟨free, books'⟩
  refine ⟨fun _ => ⟨free, books'⟩, fun _ => ?_⟩
  have filled : Keeps (ifill x) := by
    apply Keeps.get.bind
    intro s
    apply Keeps.bind
    · exact Keeps.setInode (fun _ => rfl) fun _ => rfl
    · exact fun _ => Keeps.ite (Keeps.halt _) (Keeps.pure _)
  exact (filled _ _ _ _ books').mono fun _ _ books'' => ⟨free, books''⟩

theorem iunlock_books (p : ProcId) (x : Slot) :
    wp (iunlock p x) (fun _ s' => Books (update holders x none) refs true base s')
      (fun _ _ => True) s := by
  simp only [iunlock, releasesleep, wp_bind, wp_get, wp_ite, wp_halt, wp_setInode, implies_true,
    true_and]
  intro _
  exact books.putLock x _ rfl rfl

theorem iput_books (p : ProcId) (x : Slot) :
    wp (iput p x) (fun _ s' => Books holders (refs - one x) true base s')
      (fun _ _ => True) s := by
  simp only [iput, releasesleep, wp_bind, wp_record, wp_setInode]
  apply (acquiresleep_books (books.log rfl) p x).mono
  rintro _ s1 ⟨free, books1⟩
  apply (ifreeIfLast_keeps x _ _ _ _ books1).mono
  intro _ s2 books2
  have released := books2.putLock x { s2.icache x with lock := none } rfl rfl
  rw [update_holder free] at released
  have lost : refs - one x = refs + Pi.single x (-1) := by
    rw [one, sub_eq_add_neg, Pi.single_neg]
  rw [lost]
  exact released.putRef rfl (sub_eq_add_neg _ _)

theorem iunlockput_books (p : ProcId) (x : Slot) :
    wp (iunlockput p x)
      (fun _ s' => Books (update holders x none) (refs - one x) true base s')
      (fun _ _ => True) s := by
  rw [iunlockput]
  apply (iunlock_books books p x).bind
  intro _ s' books'
  exact iput_books books' p x

end

def kept {Value : Type} (slot : Value → Slot) : Option Value → Refs
  | none => 0
  | some value => one (slot value)

theorem readDirent_keeps (x : Slot) (off : Nat) (short : Halt) : Keeps (readDirent x off short) :=
  (readi_keeps x off DIRENT).bind fun _ => Keeps.ite (Keeps.pure _) (Keeps.halt _)

theorem emptyEntry_keeps (x : Slot) (behind : Nat) (offsets : List Nat) :
    Keeps (emptyEntry x behind offsets) := by
  induction offsets with
  | nil => exact Keeps.pure _
  | cons off rest ih =>
    exact (readDirent_keeps x off _).bind fun _ => Keeps.ite (Keeps.pure _) ih

theorem addEntry_keeps (x : Slot) (name : List UInt8) (inum : Nat) :
    Keeps (addEntry x name inum) := by
  apply Keeps.get.bind
  intro s
  exact (emptyEntry_keeps x _ _).bind fun _ => (writei_keeps x _ _).bind fun _ =>
    Keeps.ite (Keeps.pure _) (Keeps.halt _)

theorem unlinkable_keeps (x : Slot) : Keeps (unlinkable x) := by
  have loop : ∀ offsets, Keeps (isdiremptyLoop x offsets) := by
    intro offsets
    induction offsets with
    | nil => exact Keeps.pure _
    | cons off rest ih =>
      exact (readDirent_keeps x off _).bind fun _ => Keeps.ite (Keeps.pure _) ih
  apply Keeps.get.bind
  intro s
  exact Keeps.ite (Keeps.get.bind fun _ => loop _) (Keeps.pure _)

section

variable {holders : Holders} {refs : Refs} {base : List Event} {s : FsState}
  (books : Books holders refs true base s)
include books

theorem dirlookup_books (x : Slot) (name : List UInt8) :
    wp (dirlookup x name) (fun found s' => Books holders (refs + kept Prod.fst found) true base s')
      (fun _ _ => True) s := by
  have loop : ∀ offsets s, Books holders refs true base s →
      wp (dirlookupLoop x name offsets)
        (fun found s' => Books holders (refs + kept Prod.fst found) true base s')
        (fun _ _ => True) s := by
    intro offsets
    induction offsets with
    | nil =>
      intro s books
      exact books.congr rfl (add_zero refs).symm
    | cons off rest ih =>
      intro s books
      rw [dirlookupLoop]
      apply (readDirent_keeps x off _ _ _ _ _ books).bind
      intro de s' books'
      rw [wp_ite]
      refine ⟨fun _ => ?_, fun _ => ih s' books'⟩
      apply (iget_books books' de.inum).bind
      intro _ _ books''
      exact books''
  simp only [dirlookup, wp_bind, wp_get, wp_ite, wp_halt, implies_true, and_true]
  exact fun _ => loop _ s books

theorem dirlink_books (p : ProcId) (x : Slot) (name : List UInt8) (inum : Nat) :
    wp (dirlink p x name inum) (fun _ s' => Books holders refs true base s')
      (fun _ _ => True) s := by
  rw [dirlink]
  apply (dirlookup_books books x name).bind
  rintro (_ | ⟨ip, _⟩) s' books'
  · exact addEntry_keeps x name inum _ _ _ _ (books'.congr rfl (add_zero refs))
  · apply (iput_books books' p ip).bind
    intro _ s'' books''
    exact books''.congr rfl (add_sub_cancel_right refs (one ip))

end

section

variable {holders : Holders} {refs : Refs} {base : List Event}

theorem namexEnd_books {s : FsState} (p : ProcId) (parent : Bool) (ip : Slot) (name : List UInt8)
    (books : Books holders (refs + one ip) true base s) :
    wp (namexEnd p parent ip name)
      (fun found s' => Books holders (refs + kept Prod.fst found) true base s')
      (fun _ _ => True) s := by
  unfold namexEnd
  rw [wp_ite]
  refine ⟨fun _ => ?_, fun _ => books⟩
  apply (iput_books books p ip).bind
  intro _ s' books'
  apply books'.congr rfl
  rw [add_sub_cancel_right]
  exact (add_zero refs).symm

theorem namexLoop_books (p : ProcId) (parent : Bool) (rounds : Nat) :
    ∀ (ip : Slot) (path name : List UInt8) (s : FsState),
      Books holders (refs + one ip) true base s →
        wp (namexLoop p parent rounds ip path name)
          (fun found s' => Books holders (refs + kept Prod.fst found) true base s')
          (fun _ _ => True) s := by
  induction rounds with
  | zero => exact fun ip _ name s books => namexEnd_books p parent ip name books
  | succ rounds ih =>
    intro ip path name s books
    unfold namexLoop
    split
    · exact namexEnd_books p parent ip name books
    · rename_i path name _
      apply (ilock_books books p ip).bind
      rintro _ s1 ⟨free, books1⟩
      -- Every way out of a round unlocks `ip` and gives its reference back.
      have leave : ∀ {gained : Refs} {s : FsState},
          Books (update holders ip (some p)) (refs + one ip + gained) true base s →
          wp (iunlockput p ip) (fun _ s' => Books holders (refs + gained) true base s')
            (fun _ _ => True) s := by
        intro gained s books
        apply (iunlockput_books books p ip).mono
        intro _ s' books'
        exact books'.congr (update_holder free _) (by abel)
      have notFound : ∀ {s : FsState},
          Books (update holders ip (some p)) (refs + one ip) true base s →
          wp (iunlockput p ip) (fun _ s' => wp (pure none : FsM (Option (Slot × List UInt8)))
            (fun found s' => Books holders (refs + kept Prod.fst found) true base s')
            (fun _ _ => True) s') (fun _ _ => True) s := by
        intro s books
        apply (leave (books.congr rfl (add_zero _).symm)).mono
        intro _ s' books'
        exact books'
      simp only [wp_bind, wp_get, wp_ite]
      refine ⟨fun _ => notFound books1, fun _ => ⟨fun _ => ?_, fun _ => ?_⟩⟩
      · apply (iunlock_books books1 p ip).mono
        intro _ s2 books2
        exact books2.congr (update_holder free _) rfl
      · apply (dirlookup_books books1 ip name).mono
        rintro (_ | ⟨next, off⟩) s2 books2
        · rw [wp_bind]
          exact notFound (books2.congr rfl (add_zero _))
        · apply (leave books2).bind
          intro _ s3 books3
          exact ih next path name s3 books3

theorem namex_books {s : FsState} (p : ProcId) (cwd : Slot) (path : List UInt8) (parent : Bool)
    (books : Books holders refs true base s) :
    wp (namex p cwd path parent)
      (fun found s' => Books holders (refs + kept Prod.fst found) true base s')
      (fun _ _ => True) s := by
  have started : wp (namexStart cwd path)
      (fun ip s' => Books holders (refs + one ip) true base s') (fun _ _ => True) s := by
    unfold namexStart
    rw [wp_ite]
    refine ⟨fun _ => iget_books books ROOTINO, fun _ => ?_⟩
    apply (idup_books books cwd).mono
    rintro _ s' ⟨rfl, books'⟩
    exact books'
  rw [namex]
  apply started.bind
  intro ip s' books'
  exact namexLoop_books p parent _ ip path [] s' books'

theorem namei_books {s : FsState} (p : ProcId) (cwd : Slot) (path : List UInt8)
    (books : Books holders refs true base s) :
    wp (namei p cwd path) (fun found s' => Books holders (refs + kept id found) true base s')
      (fun _ _ => True) s := by
  rw [namei]
  apply (namex_books p cwd path false books).bind
  rintro (_ | ⟨ip, _⟩) s' books'
  · exact books'
  · exact books'

end

/-- What `create` and the like leave: the inode they return is locked and referred
to. -/
def Taken (holders : Holders) (refs : Refs) (base : List Event) (p : ProcId)
    (found : Option Slot) (s : FsState) : Prop :=
  match found with
  | none => Books holders refs true base s
  | some ip => holders ip = none ∧
      Books (update holders ip (some p)) (refs + one ip) true base s

section

variable {holders : Holders} {refs : Refs} {base : List Event} {s : FsState} {p : ProcId}
  {dp ip : Slot}

theorem createFound_books (type : BitVec 16) (free : holders dp = none)
    (books : Books (update holders dp (some p)) (refs + one dp + one ip) true base s) :
    wp (createFound p dp ip type) (Taken holders refs base p) (fun _ _ => True) s := by
  rw [createFound]
  apply (iunlockput_books books p dp).bind
  intro _ s1 books1
  have parentLeft : Books holders (refs + one ip) true base s1 :=
    books1.congr (update_holder free _) (by abel)
  apply (ilock_books parentLeft p ip).bind
  rintro _ s2 ⟨freeChild, books2⟩
  simp only [wp_bind, wp_get, wp_ite, wp_pure]
  refine ⟨fun _ => ⟨freeChild, books2⟩, fun _ => ?_⟩
  apply (iunlockput_books books2 p ip).mono
  intro _ s3 books3
  exact books3.congr (update_holder freeChild _) (add_sub_cancel_right refs (one ip))

theorem createDotsOf_books (type : BitVec 16) (books : Books holders refs true base s) :
    wp (createDotsOf p dp ip type) (fun _ s' => Books holders refs true base s')
      (fun _ _ => True) s := by
  unfold createDotsOf
  rw [wp_ite]
  refine ⟨fun _ => ?_, fun _ => books⟩
  simp only [createDots, addLinks, wp_bind, wp_get]
  apply (Keeps.setCopy dp _ _ _ _ _ books).mono
  intro _ s1 books1
  apply (iupdate_keeps dp _ _ _ _ books1).mono
  intro _ s2 books2
  apply (dirlink_books books2 p ip dot _).mono
  intro _ s3 books3
  simp only [wp_ite, wp_bind, wp_halt, wp_pure, implies_true, true_and]
  intro _
  apply (dirlink_books books3 p ip dotdot _).mono
  intro _ s4 books4
  exact fun _ => books4

theorem createNew_books (name : List UInt8) (type major minor : BitVec 16)
    (free : holders dp = none)
    (books : Books (update holders dp (some p)) (refs + one dp) true base s) :
    wp (createNew p dp name type major minor) (Taken holders refs base p) (fun _ _ => True) s := by
  rw [createNew]
  apply (ialloc_books books type).bind
  intro ip s1 books1
  apply (ilock_books books1 p ip).bind
  rintro _ s2 ⟨lockFree, books2⟩
  have different : ip ≠ dp := by
    rintro rfl
    rw [update_self] at lockFree
    cases lockFree
  have freeChild : holders ip = none := by rwa [update_of_ne different] at lockFree
  apply (Keeps.setCopy ip _ _ _ _ _ books2).bind
  intro _ s3 books3
  apply (iupdate_keeps ip _ _ _ _ books3).bind
  intro _ s4 books4
  apply (createDotsOf_books type books4).bind
  intro _ s5 books5
  simp only [wp_bind, wp_get, wp_ite, wp_halt]
  apply (dirlink_books books5 p dp name _).mono
  intro _ s6 books6
  refine ⟨fun _ => trivial, fun _ => ?_⟩
  apply (iunlockput_books books6 p dp).mono
  intro _ s7 books7
  refine ⟨freeChild, books7.congr ?_ (by abel)⟩
  rw [update_comm different, update_holder free]

theorem create_books (cwd : Slot) (path : List UInt8) (type major minor : BitVec 16)
    (books : Books holders refs true base s) :
    wp (create p cwd path type major minor) (Taken holders refs base p) (fun _ _ => True) s := by
  rw [create]
  apply (namex_books p cwd path true books).bind
  rintro (_ | ⟨dp, name⟩) s1 books1
  · exact books1.congr rfl (add_zero refs)
  · apply (ilock_books books1 p dp).bind
    rintro _ s2 ⟨free, books2⟩
    apply (dirlookup_books books2 dp name).bind
    rintro (_ | ⟨ip, _⟩) s3 books3
    · exact createNew_books name type major minor free (books3.congr rfl (add_zero _))
    · exact createFound_books type free books3

theorem openInode_books (cwd : Slot) (path : List UInt8) (omode : BitVec 32)
    (books : Books holders refs true base s) :
    wp (openInode p cwd path omode) (Taken holders refs base p) (fun _ _ => True) s := by
  unfold openInode
  rw [wp_ite]
  refine ⟨fun _ => create_books cwd path T_FILE 0 0 books, fun _ => ?_⟩
  apply (namei_books p cwd path books).bind
  rintro (_ | ip) s1 books1
  · exact books1.congr rfl (add_zero refs)
  · simp only [wp_bind]
    apply (ilock_books books1 p ip).mono
    rintro _ s2 ⟨free, books2⟩
    simp only [wp_get, wp_ite, wp_bind, wp_pure]
    refine ⟨fun _ => ?_, fun _ => ⟨free, books2⟩⟩
    apply (iunlockput_books books2 p ip).mono
    intro _ s3 books3
    exact books3.congr (update_holder free _) (add_sub_cancel_right refs (one ip))

end

theorem loaduvm_keeps (ip : Slot) (offset sz : Nat) : Keeps (loaduvm ip offset sz) := by
  have loop : ∀ offsets, Keeps (loaduvmLoop ip offset sz offsets) := by
    intro offsets
    induction offsets with
    | nil => exact Keeps.pure _
    | cons i rest ih =>
      exact (readi_keeps ip _ _).bind fun _ => Keeps.ite (Keeps.pure _) ih
  exact loop _

theorem execSegment_keeps (memory : Memory) (ip : Slot) (ph : Proghdr) (sz : Nat) :
    Keeps (execSegment memory ip ph sz) := by
  apply Keeps.ite (Keeps.pure _)
  apply Keeps.ite (Keeps.pure _)
  apply Keeps.ite (Keeps.pure _)
  apply Keeps.ite (Keeps.pure _)
  apply Keeps.ite (Keeps.pure _)
  exact (loaduvm_keeps ip _ _).bind fun _ => Keeps.pure _

theorem fill_keeps (memory : Memory) (bytes : List UInt8) : Keeps (fill memory bytes) :=
  Keeps.get.bind fun _ => Keeps.pure _

theorem execSegments_keeps (memory : Memory) (ip : Slot) (count : Nat) :
    ∀ off sz, Keeps (execSegments memory ip count off sz) := by
  induction count with
  | zero => exact fun _ _ => Keeps.pure _
  | succ count ih =>
    intro off sz
    apply (readi_keeps ip off PROGHDR).bind
    intro read
    apply Keeps.ite (Keeps.pure _)
    apply (fill_keeps memory read.2).bind
    intro bytes
    apply (execSegment_keeps memory ip _ sz).bind
    rintro (_ | sz)
    · exact Keeps.pure _
    · exact ih _ sz

theorem execLoad_keeps (memory : Memory) (ip : Slot) : Keeps (execLoad memory ip) := by
  apply (readi_keeps ip 0 ELFHDR).bind
  intro read
  apply Keeps.ite (Keeps.pure _)
  apply (fill_keeps memory read.2).bind
  intro bytes
  apply Keeps.ite (Keeps.pure _)
  apply Keeps.ite (Keeps.pure _)
  exact execSegments_keeps memory ip _ _ _

end Xv6.Fs
