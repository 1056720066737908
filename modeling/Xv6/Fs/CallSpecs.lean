import Xv6.Fs.Calls
import Xv6.Fs.NameSpecs

/-!
Contract: what the system calls do to the invariant and to the tree.

The references to cached inodes are those of the open files and of the current
directories. The reference of a file that is open for writing is pinned: its inode
is not a directory.
-/

namespace Xv6.Fs

open Function Xv6.Lib

/-! ### References -/

def cwdRef (proc : Proc) : Holds := if proc.alive then {(proc.cwd, false)} else 0

def fileRef (file : File) : Holds := if file.inode then {(file.ip, file.writable)} else 0

def tokens (s : SysState) : Holds := ∑ p, cwdRef (s.proc p) + ∑ f, fileRef (s.ftable f)

section

variable {Index Value : Type} [Fintype Index] [DecidableEq Index]

private theorem sum_update (holds : Value → Holds) (values : Index → Value) (i : Index) (new : Value) :
    ∑ j, holds (update values i new j) + holds (values i) =
      ∑ j, holds (values j) + holds new := by
  have rest : ∑ j ∈ Finset.univ.erase i, holds (update values i new j) =
      ∑ j ∈ Finset.univ.erase i, holds (values j) := by
    apply Finset.sum_congr rfl
    intro j other
    rw [update_of_ne (Finset.ne_of_mem_erase other)]
  rw [← Finset.add_sum_erase _ _ (Finset.mem_univ i), rest, update_self,
    ← Finset.add_sum_erase _ (fun j => holds (values j)) (Finset.mem_univ i)]
  rw [add_comm (holds new), add_comm (holds (values i)), add_right_comm]

end

theorem tokens_setFile (s : SysState) (f : FileId) (file : File) :
    tokens { s with ftable := update s.ftable f file } + fileRef (s.ftable f) =
      tokens s + fileRef file := by
  unfold tokens
  rw [add_assoc, sum_update, add_assoc]

theorem tokens_setProc (s : SysState) (p : ProcId) (proc : Proc) :
    tokens { s with proc := update s.proc p proc } + cwdRef (s.proc p) =
      tokens s + cwdRef proc := by
  unfold tokens
  rw [add_right_comm, sum_update, add_right_comm]

theorem mem_tokens_file {s : SysState} {f : FileId} (isOpen : (s.ftable f).inode = true) :
    ((s.ftable f).ip, (s.ftable f).writable) ∈ tokens s := by
  unfold tokens
  rw [← Finset.add_sum_erase _ (fun f => fileRef (s.ftable f)) (Finset.mem_univ f), Multiset.mem_add,
    Multiset.mem_add, fileRef, if_pos isOpen]
  exact Or.inr (Or.inl (Multiset.mem_singleton_self _))

theorem mem_tokens_cwd {s : SysState} {p : ProcId} (alive : (s.proc p).alive = true) :
    ((s.proc p).cwd, false) ∈ tokens s := by
  unfold tokens
  rw [← Finset.add_sum_erase _ (fun p => cwdRef (s.proc p)) (Finset.mem_univ p), Multiset.mem_add,
    Multiset.mem_add, cwdRef, if_pos alive]
  exact Or.inl (Or.inl (Multiset.mem_singleton_self _))

/-! ### The invariant of the machine -/

/-- The invariant, with references `extra` that a call holds while it runs. -/
structure SysInv (fixed : Superblock) (extra : Holds) (locks : Locks) (s : SysState) : Prop where
  fs : Inv fixed none (extra + tokens s) locks s.fs
  closed : ∀ f, (s.ftable f).ref ≤ 0 → (s.ftable f).inode = false

/-- The machine may halt, but not because it frees a free block. -/
def CalmSys (halt : Halt) (s : SysState) : Prop := Calm halt s.fs

def StopsSys (broken stuck : Prop) (halt : Halt) (s : SysState) : Prop :=
  Stops broken stuck halt s.fs

/-- The invariant, when a call that began in `origin` has left the tree `start`, but for
nodes without links. -/
structure SysRan (fixed : Superblock) (origin : FsState) (start : Tree) (extra : Holds)
    (locks : Locks) (s : SysState) : Prop extends SysInv fixed extra locks s where
  ends : Ends origin start s.fs

theorem SysInv.ran {fixed : Superblock} {extra : Holds} {locks : Locks} {s : SysState}
    (inv : SysInv fixed extra locks s) : SysRan fixed s.fs s.fs.tree extra locks s :=
  ⟨inv, Ends.refl _⟩

theorem wp_onFs {Value : Type} {broken stuck : Prop} {program : FsM Value} {post : Value → SysState → Prop}
    {s : SysState} :
    wp (onFs program) post (StopsSys broken stuck) s ↔
      wp program (fun value fs => post value { s with fs }) (Stops broken stuck) s.fs :=
  wp_focus

section

variable {halts : Halt → SysState → Prop} {s : SysState} {post : Unit → SysState → Prop}

theorem wp_setFile {f : FileId} {change : File → File} :
    wp (setFile f change) post halts s ↔
      post () { s with ftable := update s.ftable f (change (s.ftable f)) } := Iff.rfl

theorem wp_setProc {p : ProcId} {change : Proc → Proc} :
    wp (setProc p change) post halts s ↔
      post () { s with proc := update s.proc p (change (s.proc p)) } := Iff.rfl

end

section

variable {fixed : Superblock} {origin : FsState} {start : Tree} {extra extra' : Holds} {locks locks' : Locks}
  {s : SysState} {p : ProcId} {f : FileId} {broken stuck : Prop}

variable {fs : FsState}

section

variable (inv : SysRan fixed origin start extra locks s)

include inv

theorem SysRan.ranFs (ran : Inv fixed none (extra' + tokens s) locks' fs) (ends : Ends s.fs s.fs.tree fs) :
    SysRan fixed origin start extra' locks' { s with fs } :=
  ⟨⟨ran, inv.closed⟩, inv.ends.trans ends⟩

theorem SysRan.changedFs {tree : Tree}
    (ran : Inv fixed none (extra' + tokens s) locks' fs) (ends : Ends s.fs tree fs) :
    SysRan fixed origin tree extra' locks' { s with fs } :=
  ⟨⟨ran, inv.closed⟩, ends.after inv.ends.moors⟩

theorem SysRan.setFile {file : File} (ref : fileRef file = fileRef (s.ftable f))
    (closed : file.ref ≤ 0 → file.inode = false) :
    SysRan fixed origin start extra locks { s with ftable := update s.ftable f file } := by
  have same : tokens { s with ftable := update s.ftable f file } = tokens s := by
    have moved := tokens_setFile s f file
    rw [ref] at moved
    exact add_right_cancel moved
  refine ⟨⟨?_, ?_⟩, inv.ends⟩
  · rw [same]
    exact inv.fs
  · intro other
    by_cases isF : other = f
    · simp only [isF, update_self]
      exact closed
    · simp only [update_of_ne isF]
      exact inv.closed other

/-- A process changes in a way that keeps its reference. -/
theorem SysRan.setProc {proc : Proc} (ref : cwdRef proc = cwdRef (s.proc p)) :
    SysRan fixed origin start extra locks { s with proc := update s.proc p proc } := by
  have same : tokens { s with proc := update s.proc p proc } = tokens s := by
    have moved := tokens_setProc s p proc
    rw [ref] at moved
    exact add_right_cancel moved
  refine ⟨⟨?_, inv.closed⟩, inv.ends⟩
  rw [same]
  exact inv.fs

theorem record_spec {event : Event} (quiet : ∀ b, event ≠ .balloc .readi b) :
    wp (onFs (record event)) (fun _ s' => SysRan fixed origin start extra locks s' ∧ s'.proc = s.proc ∧
      s'.ftable = s.ftable) (StopsSys broken stuck) s := by
  rw [wp_onFs, wp_record]
  exact ⟨inv.ranFs (inv.fs.record quiet) ((Ends.refl _).log event), rfl, rfl⟩

omit inv in
theorem wp_onFs_of {Value : Type} {program : FsM Value} {ran : Value → FsState → Prop}
    {post : Value → SysState → Prop} (spec : wp program ran (Stops broken stuck) s.fs)
    (next : ∀ value fs, ran value fs → post value { s with fs }) :
    wp (onFs program) post (StopsSys broken stuck) s :=
  wp_onFs.mpr (spec.mono next)

/-- The processes that are alive and their current directories are the same. -/
def SameProcs (s s' : SysState) : Prop :=
  ∀ p, (s'.proc p).alive = (s.proc p).alive ∧ (s'.proc p).cwd = (s.proc p).cwd

/-! ### Files -/

theorem filealloc_spec :
    wp filealloc (fun found s' => SysRan fixed origin start extra locks s' ∧
      ∀ f, found = some f → (s'.ftable f).inode = false ∧ 0 < (s'.ftable f).ref) (StopsSys broken stuck) s := by
  rw [filealloc, wp_bind, wp_get]
  split
  · rename_i f found
    have free := List.find?_some found
    simp only [decide_eq_true_eq] at free
    have unused := inv.closed f (by omega)
    rw [wp_bind, wp_setFile, wp_pure]
    refine ⟨inv.setFile ?_ fun _ => unused, ?_⟩
    · simp only [fileRef]
    · intro g isG
      cases isG
      simp only [update_self]
      exact ⟨unused, by decide⟩
  · exact ⟨inv, fun _ isSome => by cases isSome⟩

theorem filedup_spec :
    wp (filedup f) (fun _ s' => SysRan fixed origin start extra locks s' ∧ s'.proc = s.proc) (StopsSys broken stuck) s := by
  rw [filedup, wp_bind, wp_get, wp_ite]
  refine ⟨fun _ => ⟨by decide, nofun, nofun, inv.fs.quiet⟩, fun positive => ?_⟩
  rw [wp_setFile]
  refine ⟨inv.setFile ?_ ?_, rfl⟩
  · simp only [fileRef]
  · intro below
    simp only at below
    omega

theorem SysRan.closeFile {file : File} (isClosed : file.inode = false) :
    SysRan fixed origin start (fileRef (s.ftable f) + extra) locks
      { s with ftable := update s.ftable f file } := by
  have moved := tokens_setFile s f file
  have none : fileRef file = 0 := by
    simp [fileRef, isClosed]
  rw [none, add_zero] at moved
  refine ⟨⟨?_, ?_⟩, inv.ends⟩
  · rw [add_comm (fileRef _), add_assoc, add_comm (fileRef _), moved]
    exact inv.fs
  · intro other
    by_cases isF : other = f
    · simp only [isF, update_self]
      exact fun _ => isClosed
    · simp only [update_of_ne isF]
      exact inv.closed other

omit inv in
theorem fileput_spec {ff : File} (inv : SysRan fixed origin start (fileRef ff + extra) locks s)
    (awake : ff.inode = true → Awake stuck locks) :
    wp (fileput p ff) (fun _ s' => SysRan fixed origin start extra locks s' ∧ s'.proc = s.proc) (StopsSys broken stuck) s := by
  unfold fileput
  split
  · rename_i isOpen
    rw [fileRef, if_pos isOpen] at inv
    apply (record_spec inv fun _ => Event.noConfusion).bind
    rintro _ s1 ⟨inv1, sameProc1, -⟩
    have held := inv1.fs
    rw [add_assoc, Multiset.singleton_add] at held
    rw [wp_bind]
    apply wp_onFs_of (iput_spec held p (awake isOpen _))
    intro _ fs ⟨ran, steady⟩
    apply (record_spec (inv1.ranFs ran steady.ends) fun _ => Event.noConfusion).mono
    rintro _ s2 ⟨inv2, sameProc2, -⟩
    exact ⟨inv2, sameProc2.trans sameProc1⟩
  · rename_i isClosed
    rw [fileRef, if_neg isClosed, zero_add] at inv
    exact ⟨inv, rfl⟩

theorem fileclose_spec (awake : (s.ftable f).inode = true → Awake stuck locks) :
    wp (fileclose p f) (fun _ s' => SysRan fixed origin start extra locks s' ∧ s'.proc = s.proc) (StopsSys broken stuck) s := by
  rw [fileclose, wp_bind, wp_get, wp_ite]
  refine ⟨fun _ => ⟨by decide, nofun, nofun, inv.fs.quiet⟩, fun _ => ?_⟩
  rw [wp_ite]
  refine ⟨fun more => ?_, fun _ => ?_⟩
  · rw [wp_setFile]
    refine ⟨inv.setFile ?_ ?_, rfl⟩
    · simp only [fileRef]
    · intro below
      simp only at below
      omega
  · rw [wp_bind, wp_setFile]
    exact fileput_spec (inv.closeFile rfl) awake

theorem advance_spec (r : Int) :
    wp (advance f r) (fun _ s' => SysRan fixed origin start extra locks s' ∧
      (s'.ftable f).inode = (s.ftable f).inode ∧ (s'.ftable f).ip = (s.ftable f).ip ∧
      (s'.ftable f).writable = (s.ftable f).writable) (StopsSys broken stuck) s := by
  unfold advance
  split
  · rw [wp_setFile]
    refine ⟨inv.setFile ?_ (inv.closed f), ?_⟩
    · simp only [fileRef]
    · simp only [update_self, and_self]
  · exact ⟨inv, rfl, rfl, rfl⟩

theorem lockFile_spec (awake : Awake stuck locks) (isOpen : (s.ftable f).inode = true) :
    wp (ilock p (s.ftable f).ip) (fun _ fs => ∃ d, locks (s.ftable f).ip = none ∧
      ((s.ftable f).writable = true → d.type ≠ T_DIR) ∧
      Inv fixed none (extra + tokens s) (update locks (s.ftable f).ip (some d)) fs ∧
      Ends s.fs s.fs.tree fs)
      (Stops broken stuck) s.fs := by
  have member : ((s.ftable f).ip, (s.ftable f).writable) ∈ extra + tokens s :=
    Multiset.mem_add.mpr (Or.inr (mem_tokens_file isOpen))
  apply (ilock_spec inv.fs p member (awake _)).mono
  rintro _ fs ⟨d, free, isInode, -, inv', frozen⟩
  refine ⟨d, free, fun writable => ?_, inv', frozen.steady.ends⟩
  rw [writable] at member
  have pinned := (inv.fs.pinned _ member).2
  rw [isInode]
  exact pinned

theorem fileread_spec (awake : Awake stuck locks) (n : Nat) :
    wp (fileread p f n) (fun _ s' => SysRan fixed origin start extra locks s') (StopsSys broken stuck) s := by
  rw [fileread, wp_bind, wp_get, wp_ite]
  refine ⟨fun _ => inv, fun _ => ?_⟩
  rw [wp_ite]
  refine ⟨fun _ => ⟨by decide, nofun, nofun, inv.fs.quiet⟩, fun isOpen => ?_⟩
  rw [Bool.not_eq_false] at isOpen
  rw [wp_bind]
  apply wp_onFs_of (lockFile_spec inv awake isOpen)
  rintro _ fs1 ⟨d, free, -, inv1, ends1⟩
  rw [wp_bind]
  apply wp_onFs_of (readi_spec inv1 (update_self _ _ _) _ _)
  intro read fs2 ⟨inv2, frozen2⟩
  apply (advance_spec (inv.ranFs inv2 (ends1.steady frozen2.steady)) read.1).bind
  intro _ s3 ⟨inv3, _⟩
  rw [wp_bind]
  apply wp_onFs_of (iunlock_spec inv3.fs p (update_self _ _ _))
  intro _ fs4 ⟨inv4, frozen4⟩
  rw [unlock_lock free] at inv4
  exact inv3.ranFs inv4 frozen4.steady.ends

theorem writeChunk_spec (awake : Awake stuck locks)
    (isOpen : (s.ftable f).inode = true) (writable : (s.ftable f).writable = true) (bytes : List UInt8) :
    wp (writeChunk p f bytes) (fun _ s' => SysRan fixed origin start extra locks s' ∧
      (s'.ftable f).inode = true ∧ (s'.ftable f).writable = true) (StopsSys broken stuck) s := by
  rw [writeChunk, wp_bind, wp_get]
  apply (record_spec inv fun _ => Event.noConfusion).bind
  rintro _ s1 ⟨inv1, -, sameFile⟩
  rw [← sameFile] at isOpen writable ⊢
  rw [wp_bind]
  apply wp_onFs_of (lockFile_spec inv1 awake isOpen)
  rintro _ fs2 ⟨d, free, plain, inv2, ends2⟩
  have locked : update locks (s1.ftable f).ip (some d) (s1.ftable f).ip = some d :=
    update_self _ _ _
  rw [wp_bind]
  apply wp_onFs_of (writei_spec inv2 locked fun directory => absurd directory (plain writable))
  rintro written fs3 ⟨d', -, inv3, stays3, stores⟩
  rw [update_idem] at inv3
  have ends3 : Ends s1.fs s1.fs.tree fs3 := by
    refine ⟨?_, ends2.moors.trans stays3.moors⟩
    rw [stores.plain (plain writable)]
    exact ends2.reaped
  apply (advance_spec (inv1.ranFs inv3 ends3) written).bind
  rintro _ s4 ⟨inv4, sameOpen, -, sameWritable⟩
  rw [wp_bind]
  apply wp_onFs_of (iunlock_spec inv4.fs p (update_self _ _ _))
  intro _ fs5 ⟨inv5, frozen5⟩
  rw [unlock_lock free] at inv5
  apply (record_spec (inv4.ranFs inv5 frozen5.steady.ends) fun _ => Event.noConfusion).bind
  rintro _ s6 ⟨inv6, -, sameFile6⟩
  rw [wp_pure, sameFile6]
  exact ⟨inv6, sameOpen.trans isOpen, sameWritable.trans writable⟩

omit inv in
theorem filewriteLoop_spec {rounds : Nat} {src : List UInt8}
    (inv : SysRan fixed origin start extra locks s) (awake : Awake stuck locks)
    (isOpen : (s.ftable f).inode = true) (writable : (s.ftable f).writable = true) :
    wp (filewriteLoop p f rounds src) (fun _ s' => SysRan fixed origin start extra locks s') (StopsSys broken stuck) s := by
  induction rounds generalizing s src with
  | zero => exact inv
  | succ rounds ih =>
    rw [filewriteLoop, wp_ite]
    refine ⟨fun _ => inv, fun _ => ?_⟩
    apply (writeChunk_spec inv awake isOpen writable _).bind
    intro written s1 ⟨inv1, isOpen1, writable1⟩
    rw [wp_ite]
    refine ⟨fun _ => inv1, fun _ => ?_⟩
    rw [wp_ite]
    exact ⟨fun _ => ⟨by decide, nofun, nofun, inv1.fs.quiet⟩, fun _ => ih inv1 isOpen1 writable1⟩

theorem filewrite_spec (awake : Awake stuck locks) (src : List UInt8) :
    wp (filewrite p f src) (fun _ s' => SysRan fixed origin start extra locks s') (StopsSys broken stuck) s := by
  rw [filewrite, wp_bind, wp_get, wp_ite]
  refine ⟨fun _ => inv, fun writable => ?_⟩
  rw [wp_ite]
  refine ⟨fun _ => ⟨by decide, nofun, nofun, inv.fs.quiet⟩, fun isOpen => ?_⟩
  rw [Bool.not_eq_false] at isOpen writable
  apply (filewriteLoop_spec inv awake isOpen writable).bind
  intro complete s1 inv1
  exact inv1

/-! ### Descriptors -/

theorem setFd_spec (fd : Fd) (file : Option FileId) :
    wp (setFd p fd file) (fun _ s' => SysRan fixed origin start extra locks s' ∧ s'.ftable = s.ftable ∧
      SameProcs s s') (StopsSys broken stuck) s := by
  rw [setFd, wp_setProc]
  refine ⟨inv.setProc ?_, rfl, ?_⟩
  · simp only [cwdRef]
  · intro q
    by_cases isP : q = p
    · simp only [isP, update_self, and_self]
    · simp only [update_of_ne isP, and_self]

theorem fdalloc_spec :
    wp (fdalloc p f) (fun _ s' => SysRan fixed origin start extra locks s' ∧ s'.ftable = s.ftable) (StopsSys broken stuck) s := by
  rw [fdalloc, wp_bind, wp_get]
  split
  · rename_i fd found
    apply (setFd_spec inv fd (some f)).bind
    rintro _ s1 ⟨inv1, sameFile, -⟩
    exact ⟨inv1, sameFile⟩
  · exact ⟨inv, rfl⟩

theorem sysDup_spec (fd : Int) :
    wp (sysDup p fd) (fun _ s' => SysRan fixed origin start extra locks s') (StopsSys broken stuck) s := by
  rw [sysDup, wp_bind, wp_get]
  split
  · exact inv
  · apply (fdalloc_spec inv).bind
    intro new s1 ⟨inv1, _⟩
    cases new with
    | none => exact inv1
    | some new =>
      apply (filedup_spec inv1).bind
      intro _ s2 ⟨inv2, _⟩
      exact inv2

theorem sysRead_spec (awake : Awake stuck locks) (fd : Int) (n : Option Nat) :
    wp (sysRead p fd n) (fun _ s' => SysRan fixed origin start extra locks s') (StopsSys broken stuck) s := by
  rw [sysRead, wp_bind, wp_get]
  split
  · exact fileread_spec inv awake _
  · exact inv

theorem sysWrite_spec (awake : Awake stuck locks) (fd : Int) (src : Option (List UInt8)) :
    wp (sysWrite p fd src) (fun _ s' => SysRan fixed origin start extra locks s') (StopsSys broken stuck) s := by
  rw [sysWrite, wp_bind, wp_get]
  split
  · exact filewrite_spec inv awake _
  · exact inv

theorem sysClose_spec (awake : Awake stuck locks) (fd : Int) :
    wp (sysClose p fd) (fun _ s' => SysRan fixed origin start extra locks s') (StopsSys broken stuck) s := by
  rw [sysClose, wp_bind, wp_get]
  split
  · exact inv
  · apply (setFd_spec inv _ none).bind
    intro _ s1 ⟨inv1, _⟩
    apply (fileclose_spec inv1 fun _ => awake).bind
    intro _ s2 ⟨inv2, _⟩
    exact inv2

end

/-! ### Opening -/

/-- A reference to a locked inode that is not a directory can be pinned. -/
theorem Inv.pin {held : Holds} {x : Slot} {d : Dinode}
    (inv : Inv fixed none ((x, false) ::ₘ held) locks fs) (locked : locks x = some d)
    {pinned : Bool} (plain : pinned = true → d.type ≠ T_DIR) :
    Inv fixed none ((x, pinned) ::ₘ held) locks fs := by
  obtain ⟨isInode, allocated⟩ := inv.locked_inode locked
  refine { inv with refs := fun y => ?_, pinned := fun y member => ?_ }
  · rw [inv.refs, Multiset.map_cons, Multiset.map_cons]
  · rcases Multiset.mem_cons.mp member with same | older
    · obtain ⟨rfl, rfl⟩ := Prod.mk.inj same
      rw [isInode]
      exact ⟨allocated, plain rfl⟩
    · exact inv.pinned y (Multiset.mem_cons_of_mem older)

def writes (omode : BitVec 32) : Bool := omode &&& O_WRONLY ≠ 0 ∨ omode &&& O_RDWR ≠ 0

theorem writes_ne {omode : BitVec 32} (writable : writes omode = true) : omode ≠ O_RDONLY := by
  rintro rfl
  exact absurd writable (by decide)

def Call.creates : Call → Option (List UInt8 × BitVec 16)
  | .open (some path) omode => if omode &&& O_CREATE ≠ 0 then some (path, T_FILE) else none
  | .mkdir (some path) => some (path, T_DIR)
  | .mknod (some (path, _, _)) => some (path, T_DEV)
  | _ => none

/-- What a call makes of the tree, but for nodes without links. -/
def Call.Changes (p : ProcId) (s : SysState) (call : Call) (tree : Tree) : Prop :=
  tree = s.fs.tree ∨ match call with
    | .link old new => Links p (s.proc p).cwd old new s.fs tree
    | .unlink path => Unlinks p (s.proc p).cwd path s.fs tree
    | _ => ∃ path type, call.creates = some (path, type) ∧
        Creates p (s.proc p).cwd path type (s.fs.log .beginOp) tree

/-- The inode that is opened is locked, and no directory is opened for writing. -/
def Opened (fixed : Superblock) (held : Holds) (locks : Locks) (omode : BitVec 32)
    (found : Option Slot) (fs : FsState) : Prop :=
  match found with
  | none => Inv fixed none held locks fs
  | some ip => ∃ d, locks ip = none ∧ (writes omode = true → d.type ≠ T_DIR) ∧
      Inv fixed none ((ip, false) ::ₘ held) (update locks ip (some d)) fs

theorem openInode_spec {held : Holds} {k : Bool} {cwd : Slot} (inv : Inv fixed none held locks fs)
    (awake : Awake stuck locks) (member : (cwd, k) ∈ held) (path : List UInt8) (omode : BitVec 32) :
    wp (openInode p cwd path omode) (fun found fs' => Opened fixed held locks omode found fs' ∧
      (found = none ∨ omode &&& O_CREATE = 0 ∨ NameTaken p cwd path fs → Steady held fs fs') ∧
      ∃ tree, (tree = fs.tree ∨ omode &&& O_CREATE ≠ 0 ∧ Creates p cwd path T_FILE fs tree) ∧
        Ends fs tree fs') (Stops broken stuck) fs := by
  rw [openInode, wp_ite]
  refine ⟨fun creates => ?_, fun _ => ?_⟩
  · apply (create_spec inv p awake member path T_FILE 0 0).mono
    rintro made fs1 ⟨created, failed, tree, changes, ends⟩
    refine ⟨?_, fun either => failed (either.imp_right (Or.resolve_left · creates)), tree, Or.inr ⟨creates, changes⟩, ends⟩
    cases made with
    | none => exact created
    | some ip =>
      obtain ⟨d, free, -, isFile, inv1⟩ := created
      refine ⟨d, free, fun _ => ?_, inv1⟩
      rw [isFile rfl]
      decide
  · apply (namei_spec inv p awake member path).bind
    rintro found fs1 ⟨resolved, steady1⟩
    cases found with
    | none => exact ⟨resolved, fun _ => steady1, fs.tree, Or.inl rfl, steady1.ends⟩
    | some ip =>
      apply (ilock_spec resolved p (Multiset.mem_cons_self _ _) (awake ip)).bind
      rintro _ fs2 ⟨d, free, -, -, inv2, frozen2⟩
      have locked : update locks ip (some d) ip = some d := update_self _ _ _
      have isCopy := (inv2.locked ip d locked).2.2.2
      have steady2 := steady1.trans (frozen2.mono (Multiset.subset_cons _ _)).steady
      rw [wp_bind, wp_get, wp_ite]
      refine ⟨fun _ => ?_, fun other => ?_⟩
      · apply (iunlockput_spec inv2 p locked).bind
        rintro _ fs3 ⟨inv3, steady3⟩
        rw [unlock_lock free] at inv3
        have steady := steady2.trans steady3
        exact ⟨inv3, fun _ => steady, fs.tree, Or.inl rfl, steady.ends⟩
      · refine ⟨⟨d, free, fun writable directory => ?_, inv2⟩, fun _ => steady2, fs.tree, Or.inl rfl, steady2.ends⟩
        exact other ⟨isCopy ▸ directory, writes_ne writable⟩

theorem openFile_spec (inv : SysRan fixed origin start extra locks s) :
    wp (openFile p) (fun opened s' => SysRan fixed origin start extra locks s' ∧
      ∀ f fd, opened = some (f, fd) → (s'.ftable f).inode = false ∧ 0 < (s'.ftable f).ref)
      (StopsSys broken stuck) s := by
  rw [openFile]
  apply (filealloc_spec inv).bind
  intro found s1 ⟨inv1, unused⟩
  cases found with
  | none => exact ⟨inv1, fun _ _ isSome => by cases isSome⟩
  | some f =>
    apply (fdalloc_spec inv1).bind
    intro fd s2 ⟨inv2, sameFile⟩
    cases fd with
    | none =>
      have isUnused := (unused f rfl).1
      rw [← sameFile] at isUnused
      apply (fileclose_spec inv2 fun isOpen => by rw [isUnused] at isOpen; cases isOpen).bind
      intro _ s3 ⟨inv3, _⟩
      exact ⟨inv3, fun _ _ isSome => by cases isSome⟩
    | some fd =>
      refine ⟨inv2, ?_⟩
      rintro _ _ ⟨⟩
      rw [sameFile]
      exact unused f rfl

/-- A file that was not open gets the reference of the call. -/
theorem SysRan.openFile {file : File} (inv : SysRan fixed origin start (fileRef file + extra) locks s)
    (unused : (s.ftable f).inode = false) (positive : 0 < file.ref) :
    SysRan fixed origin start extra locks { s with ftable := update s.ftable f file } := by
  have moved := tokens_setFile s f file
  have none : fileRef (s.ftable f) = 0 := by
    simp [fileRef, unused]
  rw [none, add_zero] at moved
  refine ⟨⟨?_, ?_⟩, inv.ends⟩
  · rw [moved, add_comm (tokens s), ← add_assoc, add_comm extra]
    exact inv.fs
  · intro other
    by_cases isF : other = f
    · simp only [isF, update_self]
      intro notPositive
      omega
    · simp only [update_of_ne isF]
      exact inv.closed other

theorem openWith_spec {ip : Slot} {d : Dinode} (omode : BitVec 32)
    (inv : SysRan fixed origin start ({(ip, false)} + extra) (update locks ip (some d)) s)
    (free : locks ip = none) (plain : writes omode = true → d.type ≠ T_DIR) :
    wp (openWith p ip omode) (fun _ s' => SysRan fixed origin start extra locks s') (StopsSys broken stuck) s := by
  have locked : update locks ip (some d) ip = some d := update_self _ _ _
  rw [openWith]
  apply (openFile_spec inv).bind
  intro opened s1 ⟨inv1, unused⟩
  have held := inv1.fs
  rw [add_assoc, Multiset.singleton_add] at held
  cases opened with
  | none =>
    rw [wp_bind]
    apply wp_onFs_of (iunlockput_spec held p locked)
    intro _ fs2 ⟨inv2, steady2⟩
    rw [unlock_lock free] at inv2
    apply (record_spec (inv1.ranFs inv2 steady2.ends) fun _ => Event.noConfusion).bind
    intro _ s3 ⟨inv3, _⟩
    exact inv3
  | some opened =>
    obtain ⟨f, fd⟩ := opened
    obtain ⟨isClosed, positive⟩ := unused f fd rfl
    rw [wp_bind]
    apply wp_onFs_of (iunlock_spec (held.pin locked plain) p locked)
    intro _ fs2 ⟨inv2, frozen2⟩
    rw [unlock_lock free, ← Multiset.singleton_add, ← add_assoc] at inv2
    apply (record_spec (inv1.ranFs inv2 frozen2.steady.ends) fun _ => Event.noConfusion).bind
    rintro _ s3 ⟨inv3, -, sameFile⟩
    have sameFile3 : s3.ftable f = s1.ftable f := congrFun sameFile f
    rw [wp_bind, wp_setFile, wp_pure]
    refine SysRan.openFile ?_ (sameFile3 ▸ isClosed) (sameFile3 ▸ positive)
    exact inv3

theorem sysOpen_spec (inv : SysInv fixed 0 locks s) (awake : Awake stuck locks)
    (alive : (s.proc p).alive = true) (path : Option (List UInt8)) (omode : BitVec 32) :
    wp (sysOpen p path omode) (fun _ s' => ∃ tree, (Call.open path omode).Changes p s tree ∧
      SysRan fixed s.fs tree 0 locks s') (StopsSys broken stuck) s := by
  cases path with
  | none => exact ⟨s.fs.tree, Or.inl rfl, inv.ran⟩
  | some path =>
    have begun : Inv fixed none (tokens s) locks (s.fs.log .beginOp) := by
      rw [← zero_add (tokens s)]
      exact inv.fs.record fun _ => Event.noConfusion
    rw [sysOpen, wp_bind, wp_onFs, wp_record, wp_bind, wp_get, wp_bind]
    apply wp_onFs_of (openInode_spec begun awake (mem_tokens_cwd alive) path omode)
    intro found fs2 ⟨opened, _, tree, changed, ends⟩
    have changes : (Call.open (some path) omode).Changes p s tree := by
      rcases changed with same | ⟨creates, created⟩
      · exact Or.inl same
      · exact Or.inr ⟨path, T_FILE, if_pos creates, created⟩
    cases found with
    | none =>
      have inv2 : SysRan fixed s.fs tree 0 locks { s with fs := fs2 } := by
        refine inv.ran.changedFs ?_ ⟨ends.reaped, ends.moors⟩
        rw [zero_add]
        exact opened
      apply (record_spec inv2 fun _ => Event.noConfusion).bind
      intro _ s3 ⟨inv3, _⟩
      exact ⟨tree, changes, inv3⟩
    | some ip =>
      obtain ⟨d, free, plain, inv2⟩ := opened
      have ran : SysRan fixed s.fs tree ({(ip, false)} + 0) (update locks ip (some d))
          { s with fs := fs2 } := by
        refine inv.ran.changedFs ?_ ⟨ends.reaped, ends.moors⟩
        rw [add_zero, Multiset.singleton_add]
        exact inv2
      apply (openWith_spec omode ran free plain).mono
      intro _ s3 inv3
      exact ⟨tree, changes, inv3⟩

/-! ### Names -/

private theorem fail_spec (inv : SysRan fixed origin start extra locks s) :
    wp (do onFs (record .endOp); pure (-1) : SysM Int) (fun _ s' => SysRan fixed origin start extra locks s')
      (StopsSys broken stuck) s := by
  apply (record_spec inv fun _ => Event.noConfusion).bind
  intro _ s1 ⟨inv1, _⟩
  exact inv1

theorem makeNode_spec (inv : SysInv fixed 0 locks s) (awake : Awake stuck locks)
    (alive : (s.proc p).alive = true) (path : List UInt8) (type major minor : BitVec 16) :
    wp (makeNode p path type major minor) (fun _ s' => ∃ tree,
      Creates p (s.proc p).cwd path type s.fs tree ∧ SysRan fixed s.fs tree 0 locks s')
      (StopsSys broken stuck) s := by
  have held := inv.fs
  rw [zero_add] at held
  rw [makeNode, wp_bind, wp_get, wp_bind]
  apply wp_onFs_of (create_spec held p awake (mem_tokens_cwd alive) path type major minor)
  intro made fs1 ⟨created, _, tree, changes, ends⟩
  cases made with
  | none =>
    have ran : SysRan fixed s.fs tree 0 locks { s with fs := fs1 } := by
      refine inv.ran.changedFs ?_ ends
      rw [zero_add]
      exact created
    apply (fail_spec ran).mono
    intro _ s2 inv2
    exact ⟨tree, changes, inv2⟩
  | some ip =>
    obtain ⟨d, free, -, -, inv1⟩ := created
    rw [wp_bind]
    apply wp_onFs_of (iunlockput_spec inv1 p (update_self _ _ _))
    intro _ fs2 ⟨inv2, steady2⟩
    rw [unlock_lock free, ← zero_add (tokens s)] at inv2
    apply (record_spec (inv.ran.changedFs inv2 (ends.steady steady2))
      fun _ => Event.noConfusion).bind
    intro _ s3 ⟨inv3, _⟩
    exact ⟨tree, changes, inv3⟩

theorem SysInv.begin (inv : SysInv fixed 0 locks s) :
    SysInv fixed 0 locks { s with fs := s.fs.log .beginOp } :=
  ⟨inv.fs.record fun _ => Event.noConfusion, inv.closed⟩

theorem SysRan.begun {event : Event} (inv : SysRan fixed (origin.log event) start extra locks s) :
    SysRan fixed origin start extra locks s :=
  ⟨inv.toSysInv, inv.ends.reaped, inv.ends.moors⟩

theorem sysMkdir_spec (inv : SysInv fixed 0 locks s) (awake : Awake stuck locks)
    (alive : (s.proc p).alive = true)
    (path : Option (List UInt8)) :
    wp (sysMkdir p path) (fun _ s' => ∃ tree, (Call.mkdir path).Changes p s tree ∧
      SysRan fixed s.fs tree 0 locks s') (StopsSys broken stuck) s := by
  unfold sysMkdir
  rw [wp_bind, wp_onFs, wp_record]
  cases path with
  | none =>
    apply (fail_spec inv.begin.ran).mono
    intro _ s1 inv1
    exact ⟨s.fs.tree, Or.inl rfl, inv1.begun⟩
  | some path =>
    apply (makeNode_spec inv.begin awake alive path T_DIR 0 0).mono
    intro _ s1 ⟨tree, changes, inv1⟩
    exact ⟨tree, Or.inr ⟨path, T_DIR, rfl, changes⟩, inv1.begun⟩

theorem sysMknod_spec (inv : SysInv fixed 0 locks s) (awake : Awake stuck locks)
    (alive : (s.proc p).alive = true)
    (args : Option (List UInt8 × BitVec 16 × BitVec 16)) :
    wp (sysMknod p args) (fun _ s' => ∃ tree, (Call.mknod args).Changes p s tree ∧
      SysRan fixed s.fs tree 0 locks s') (StopsSys broken stuck) s := by
  unfold sysMknod
  rw [wp_bind, wp_onFs, wp_record]
  match args with
  | none =>
    apply (fail_spec inv.begin.ran).mono
    intro _ s1 inv1
    exact ⟨s.fs.tree, Or.inl rfl, inv1.begun⟩
  | some (path, major, minor) =>
    apply (makeNode_spec inv.begin awake alive path T_DEV major minor).mono
    intro _ s1 ⟨tree, changes, inv1⟩
    exact ⟨tree, Or.inr ⟨path, T_DEV, rfl, changes⟩, inv1.begun⟩

/-- If the call enters or removes a name that the directory has for itself, it is
stuck. -/
def Call.Itself (p : ProcId) (s : SysState) (stuck : Prop) (call : Call) : Prop :=
  match call with
  | .link (some old) (some new) => ∀ dp name s₁,
      linkParent p (s.proc p).cwd old new s.fs = (.ok (some (dp, name)), s₁) →
      NamesItself s₁ dp name → stuck
  | .unlink (some path) => ∀ dp name s₁,
      nameiparent p (s.proc p).cwd path (s.fs.log .beginOp) = (.ok (some (dp, name)), s₁) →
      Reaped s.fs.tree s₁.tree → ¬ (namecmp name dot ∨ namecmp name dotdot) →
      NamesItself s₁ dp name → stuck
  | _ => True

theorem Call.itself_true (call : Call) : call.Itself p s True := by
  unfold Itself
  split
  · exact fun _ _ _ _ _ => trivial
  · exact fun _ _ _ _ _ _ _ => trivial
  · trivial

theorem sysLinkCall_spec (inv : SysInv fixed 0 locks s) (awake : Awake stuck locks)
    (alive : (s.proc p).alive = true)
    (old new : Option (List UInt8)) (itself : (Call.link old new).Itself p s stuck) :
    wp (sysLinkCall p old new) (fun _ s' => ∃ tree, (Call.link old new).Changes p s tree ∧
      SysRan fixed s.fs tree 0 locks s') (StopsSys broken stuck) s := by
  rw [sysLinkCall, wp_bind, wp_get]
  apply wp_onFs_of (sysLink_spec inv.fs p awake
    (Multiset.mem_add.mpr (Or.inr (mem_tokens_cwd alive))) old new ?_)
  · intro _ fs ⟨ran, _, tree, links, ends⟩
    exact ⟨tree, Or.inr links, inv.ran.changedFs ran ends⟩
  · rintro oldPath newPath dp name s1 rfl rfl
    exact itself dp name s1

/-- If the call can find an entry for an inode without links, the machine is broken. -/
def Call.Unlinked (p : ProcId) (s : SysState) (broken : Prop) (call : Call) : Prop :=
  ∀ path dp name s₁, call = .unlink (some path) →
    nameiparent p (s.proc p).cwd path (s.fs.log .beginOp) = (.ok (some (dp, name)), s₁) →
    Reaped s.fs.tree s₁.tree → ∀ de ∈ (s₁.tree (s₁.icache dp).inum).entries, de.inum ≠ 0 →
    (s₁.tree de.inum).nlink.toInt < 1 → broken

theorem sysUnlinkCall_spec (inv : SysInv fixed 0 locks s) (awake : Awake stuck locks)
    (alive : (s.proc p).alive = true) (path : Option (List UInt8))
    (unlinked : (Call.unlink path).Unlinked p s broken)
    (itself : (Call.unlink path).Itself p s stuck) :
    wp (sysUnlinkCall p path) (fun _ s' => ∃ tree, (Call.unlink path).Changes p s tree ∧
      SysRan fixed s.fs tree 0 locks s') (StopsSys broken stuck) s := by
  rw [sysUnlinkCall, wp_bind, wp_get]
  apply wp_onFs_of (sysUnlink_spec inv.fs p awake
    (Multiset.mem_add.mpr (Or.inr (mem_tokens_cwd alive))) path
    (fun isPath dp name s1 same => unlinked isPath dp name s1 (congrArg Call.unlink same)) ?_)
  · intro _ fs ⟨ran, outcome⟩
    obtain ⟨tree, unlinks, ends⟩ := outcome.ends
    exact ⟨tree, unlinks.imp_right Removes.unlinks, inv.ran.changedFs ran ends⟩
  · rintro isPath dp name s1 rfl
    exact itself dp name s1

/-! ### Current directories -/

/-- The references without that of a process to its current directory. -/
def Left (s : SysState) (p : ProcId) (rest : Holds) : Prop := tokens s = cwdRef (s.proc p) + rest

theorem exists_left (s : SysState) (p : ProcId) : ∃ rest, Left s p rest := by
  refine ⟨∑ q ∈ Finset.univ.erase p, cwdRef (s.proc q) + ∑ f, fileRef (s.ftable f), ?_⟩
  unfold Left tokens
  rw [← add_assoc, Finset.add_sum_erase _ (fun q => cwdRef (s.proc q)) (Finset.mem_univ p)]

/-- A process that has put its current directory gets the reference of the call. -/
theorem SysRan.enter {rest : Holds} {proc : Proc} (left : Left s p rest)
    (ran : Inv fixed none (cwdRef proc + rest) locks s.fs)
    (closed : ∀ f, (s.ftable f).ref ≤ 0 → (s.ftable f).inode = false)
    (ends : Ends origin start s.fs) :
    SysRan fixed origin start 0 locks { s with proc := update s.proc p proc } := by
  refine ⟨⟨?_, closed⟩, ends⟩
  have moved := tokens_setProc s p proc
  unfold Left at left
  rw [left, add_comm (cwdRef _) rest, add_right_comm] at moved
  rw [zero_add, add_right_cancel moved, add_comm rest]
  exact ran

theorem chdirTo_spec {ip : Slot} (inv : SysRan fixed origin start {(ip, false)} locks s)
    (awake : Awake stuck locks) (alive : (s.proc p).alive = true) :
    wp (chdirTo p ip) (fun _ s' => SysRan fixed origin start 0 locks s') (StopsSys broken stuck) s := by
  obtain ⟨rest, left⟩ := exists_left s p
  have held := inv.fs
  rw [Multiset.singleton_add] at held
  rw [chdirTo, wp_bind]
  apply wp_onFs_of (ilock_spec held p (Multiset.mem_cons_self _ _) (awake ip))
  rintro _ fs1 ⟨d, free, -, -, inv1, frozen1⟩
  have locked : update locks ip (some d) ip = some d := update_self _ _ _
  rw [wp_bind, wp_get, wp_ite]
  refine ⟨fun _ => ?_, fun _ => ?_⟩
  · rw [wp_bind]
    apply wp_onFs_of (iunlockput_spec inv1 p locked)
    intro _ fs2 ⟨inv2, steady2⟩
    rw [unlock_lock free, ← zero_add (tokens s)] at inv2
    exact fail_spec (inv.ranFs inv2 (frozen1.steady.ends.steady steady2))
  · rw [wp_bind]
    apply wp_onFs_of (iunlock_spec inv1 p locked)
    intro _ fs2 ⟨inv2, frozen2⟩
    have isLeft : tokens s = (((s.proc p).cwd, false) ::ₘ rest : Holds) := by
      rw [left, cwdRef, if_pos alive, Multiset.singleton_add]
    rw [unlock_lock free, isLeft, Multiset.cons_swap] at inv2
    rw [wp_bind]
    apply wp_onFs_of (iput_spec inv2 p (awake _))
    intro _ fs3 ⟨inv3, steady3⟩
    have ends : Ends origin start fs3 :=
      (inv.ends.steady (frozen1.trans frozen2).steady).trans steady3.ends
    rw [wp_bind, wp_onFs, wp_record, wp_bind, wp_setProc, wp_pure]
    refine SysRan.enter left ?_ inv.closed (ends.log .endOp)
    simp only [cwdRef, alive, if_true, Multiset.singleton_add]
    exact inv3.record fun _ => Event.noConfusion

theorem sysChdir_spec (inv : SysRan fixed origin start 0 locks s) (awake : Awake stuck locks)
    (alive : (s.proc p).alive = true) (path : Option (List UInt8)) :
    wp (sysChdir p path) (fun _ s' => SysRan fixed origin start 0 locks s') (StopsSys broken stuck) s := by
  unfold sysChdir
  apply (record_spec inv fun _ => Event.noConfusion).bind
  rintro _ s1 ⟨inv1, sameProc, -⟩
  rw [← sameProc] at alive
  cases path with
  | none => exact fail_spec inv1
  | some path =>
    have held := inv1.fs
    rw [zero_add] at held
    rw [wp_bind, wp_get, wp_bind]
    apply wp_onFs_of (namei_spec held p awake (mem_tokens_cwd alive) path)
    rintro found fs2 ⟨resolved, steady2⟩
    cases found with
    | none =>
      apply fail_spec (inv1.ranFs _ steady2.ends)
      rw [zero_add]
      exact resolved
    | some ip =>
      refine chdirTo_spec (inv1.ranFs ?_ steady2.ends) awake alive
      rw [Multiset.singleton_add]
      exact resolved

/-! ### Processes -/

theorem SameProcs.of_eq {s' : SysState} (same : s'.proc = s.proc) : SameProcs s s' := by
  intro q
  rw [same]
  exact ⟨rfl, rfl⟩

theorem SameProcs.trans {s' s'' : SysState} (first : SameProcs s s') (second : SameProcs s' s'') :
    SameProcs s s'' :=
  fun q => ⟨(second q).1.trans (first q).1, (second q).2.trans (first q).2⟩

theorem dupFd_spec {child : ProcId} (inv : SysRan fixed origin start extra locks s) (fd : Fd) :
    wp (dupFd p child fd) (fun _ s' => SysRan fixed origin start extra locks s' ∧ SameProcs s s') (StopsSys broken stuck) s := by
  rw [dupFd, wp_bind, wp_get]
  split
  · exact ⟨inv, SameProcs.of_eq rfl⟩
  · rename_i f isOpen
    apply (filedup_spec inv).bind
    intro _ s1 ⟨inv1, sameProc⟩
    apply (setFd_spec inv1 fd (some f)).mono
    rintro _ s2 ⟨inv2, -, same⟩
    exact ⟨inv2, (SameProcs.of_eq sameProc).trans same⟩

theorem forkFiles_spec {child : ProcId} (inv : SysRan fixed origin start 0 locks s)
    (alive : (s.proc p).alive = true) (free : (s.proc child).alive = false) :
    wp (forkFiles p child) (fun _ s' => SysRan fixed origin start 0 locks s') (StopsSys broken stuck) s := by
  rw [forkFiles]
  apply (wp_forEach (fun _ s' => SysRan fixed origin start 0 locks s' ∧ SameProcs s s') ?_
    ⟨inv, SameProcs.of_eq rfl⟩).bind
  · rintro _ s1 ⟨inv1, same⟩
    rw [← (same p).1] at alive
    rw [← (same child).1] at free
    have none : cwdRef (s1.proc child) = 0 := by
      simp [cwdRef, free]
    have left : Left s1 child (tokens s1) := by
      rw [Left, none, zero_add]
    have held := inv1.fs
    rw [zero_add] at held
    rw [wp_bind, wp_get, wp_bind]
    apply wp_onFs_of (idup_spec held (mem_tokens_cwd alive))
    rintro _ fs2 ⟨rfl, inv2, frozen2⟩
    rw [wp_setProc]
    refine SysRan.enter left ?_ inv1.closed (inv1.ends.steady frozen2.steady)
    simp only [cwdRef, if_true, Multiset.singleton_add]
    exact inv2
  · rintro - fd - s1 - ⟨inv1, same⟩
    apply (dupFd_spec inv1 fd).mono
    intro _ s2 ⟨inv2, same2⟩
    exact ⟨inv2, same.trans same2⟩

theorem closeFd_spec (inv : SysRan fixed origin start extra locks s) (awake : Awake stuck locks)
    (fd : Fd) :
    wp (closeFd p fd) (fun _ s' => SysRan fixed origin start extra locks s' ∧ SameProcs s s') (StopsSys broken stuck) s := by
  rw [closeFd, wp_bind, wp_get]
  split
  · exact ⟨inv, SameProcs.of_eq rfl⟩
  · apply (fileclose_spec inv fun _ => awake).bind
    intro _ s1 ⟨inv1, sameProc⟩
    apply (setFd_spec inv1 fd none).mono
    rintro _ s2 ⟨inv2, -, same⟩
    exact ⟨inv2, (SameProcs.of_eq sameProc).trans same⟩

theorem exitFiles_spec (inv : SysRan fixed origin start 0 locks s) (awake : Awake stuck locks)
    (alive : (s.proc p).alive = true) :
    wp (exitFiles p) (fun _ s' => SysRan fixed origin start 0 locks s') (StopsSys broken stuck) s := by
  rw [exitFiles]
  apply (wp_forEach (fun _ s' => SysRan fixed origin start 0 locks s' ∧ SameProcs s s') ?_
    ⟨inv, SameProcs.of_eq rfl⟩).bind
  · rintro _ s1 ⟨inv1, same⟩
    rw [← (same p).1] at alive
    apply (record_spec inv1 fun _ => Event.noConfusion).bind
    rintro _ s2 ⟨inv2, sameProc, -⟩
    rw [← sameProc] at alive
    obtain ⟨rest, left⟩ := exists_left s2 p
    have held := inv2.fs
    rw [zero_add, left, cwdRef, if_pos alive, Multiset.singleton_add] at held
    rw [wp_bind, wp_get, wp_bind]
    apply wp_onFs_of (iput_spec held p (awake _))
    intro _ fs3 ⟨inv3, steady3⟩
    rw [wp_bind, wp_onFs, wp_record, wp_setProc]
    refine SysRan.enter left ?_ inv2.closed ((inv2.ends.steady steady3).log .endOp)
    simp only [cwdRef, Bool.false_eq_true, if_false, zero_add]
    exact inv3.record fun _ => Event.noConfusion
  · rintro - fd - s1 - ⟨inv1, same⟩
    apply (closeFd_spec inv1 awake fd).mono
    intro _ s2 ⟨inv2, same2⟩
    exact ⟨inv2, same.trans same2⟩

/-! ### Every call -/

private theorem unchanged {program : SysM Int} {call : Call}
    (spec : wp program (fun _ s' => SysRan fixed s.fs s.fs.tree 0 locks s') (StopsSys broken stuck) s) :
    wp program (fun _ s' => ∃ tree, call.Changes p s tree ∧ SysRan fixed s.fs tree 0 locks s')
      (StopsSys broken stuck) s :=
  spec.mono fun _ _ ran => ⟨s.fs.tree, Or.inl rfl, ran⟩

theorem Call.program_spec (inv : SysInv fixed 0 locks s) (awake : Awake stuck locks) {call : Call}
    (enabled : call.enabled s p = true) (unlinked : call.Unlinked p s broken)
    (itself : call.Itself p s stuck) :
    wp (call.program p) (fun _ s' => ∃ tree, call.Changes p s tree ∧ SysRan fixed s.fs tree 0 locks s')
      (StopsSys broken stuck) s := by
  obtain ⟨alive, possible⟩ := (Bool.and_eq_true _ _).mp enabled
  cases call with
  | «open» path omode => exact sysOpen_spec inv awake alive path omode
  | close fd => exact unchanged (sysClose_spec inv.ran awake fd)
  | dup fd => exact unchanged (sysDup_spec inv.ran fd)
  | read fd n => exact unchanged (sysRead_spec inv.ran awake fd n)
  | write fd src => exact unchanged (sysWrite_spec inv.ran awake fd src)
  | link old new => exact sysLinkCall_spec inv awake alive old new itself
  | unlink path => exact sysUnlinkCall_spec inv awake alive path unlinked itself
  | mkdir path => exact sysMkdir_spec inv awake alive path
  | mknod args => exact sysMknod_spec inv awake alive args
  | chdir path => exact unchanged (sysChdir_spec inv.ran awake alive path)
  | fork child =>
    apply unchanged
    rw [program]
    apply (forkFiles_spec inv.ran alive (by simpa using possible)).bind
    intro _ s1 inv1
    exact inv1
  | exit =>
    apply unchanged
    rw [program]
    apply (exitFiles_spec inv.ran awake alive).bind
    intro _ s1 inv1
    exact inv1

end

end Xv6.Fs
