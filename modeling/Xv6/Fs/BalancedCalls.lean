import Xv6.Fs.Books
import Xv6.Fs.Ownership

/-!
Contract: on every way out of a system call the books are balanced.

A call opens its transactions one after another and closes each of them, takes no lock
with it, and keeps or gives back just the references that it says it does.
-/

namespace Xv6.Fs

open Function Xv6.Lib

variable {p : ProcId} {ip : Slot}

section

variable {holders : Holders} {refs : Refs} {base : List Event} {s : FsState}

private theorem opened (books : Books holders refs false base s) :
    Books holders refs true base (s.log .beginOp) :=
  books.log rfl

private theorem ended (books : Books holders refs true base s) {value : Int} :
    wp (do record .endOp; pure value : FsM Int)
      (fun _ s' => Books holders refs false base s') (fun _ _ => True) s := by
  simp only [wp_bind, wp_record, wp_pure]
  exact books.log rfl

theorem linkBad_books (books : Books holders (refs + one ip) true base s) :
    wp (linkBad p ip) (fun _ s' => Books holders refs false base s') (fun _ _ => True) s := by
  simp only [linkBad, addLinks, wp_bind, wp_record, wp_pure]
  apply (ilock_books books p ip).mono
  rintro _ s1 ⟨free, books1⟩
  apply (Keeps.setCopy ip _ _ _ _ _ books1).mono
  intro _ s2 books2
  apply (iupdate_keeps ip _ _ _ _ books2).mono
  intro _ s3 books3
  apply (iunlockput_books books3 p ip).mono
  intro _ s4 books4
  exact (books4.congr (update_holder free _) (add_sub_cancel_right refs (one ip))).log rfl

theorem linkInto_books {dp : Slot} (name : List UInt8)
    (books : Books holders (refs + one ip + one dp) true base s) :
    wp (linkInto p ip dp name) (fun _ s' => Books holders refs false base s')
      (fun _ _ => True) s := by
  simp only [linkInto, wp_bind, wp_get]
  apply (ilock_books books p dp).mono
  rintro _ s1 ⟨free, books1⟩
  apply (dirlink_books books1 p dp name _).mono
  intro linked s2 books2
  apply (iunlockput_books books2 p dp).mono
  intro _ s3 books3
  have left : Books holders (refs + one ip) true base s3 :=
    books3.congr (update_holder free _) (add_sub_cancel_right _ (one dp))
  rw [wp_ite]
  refine ⟨fun _ => linkBad_books left, fun _ => ?_⟩
  apply (iput_books left p ip).bind
  intro _ s4 books4
  exact ended (books4.congr rfl (add_sub_cancel_right refs (one ip)))

theorem linkFound_books (cwd : Slot) (new : List UInt8)
    (books : Books holders (refs + one ip) true base s) :
    wp (linkFound p cwd ip new) (fun _ s' => Books holders refs false base s')
      (fun _ _ => True) s := by
  simp only [linkFound, addLinks, wp_bind, wp_get, wp_ite]
  apply (ilock_books books p ip).mono
  rintro _ s1 ⟨free, books1⟩
  refine ⟨fun _ => ?_, fun _ => ?_⟩
  · apply (iunlockput_books books1 p ip).mono
    intro _ s2 books2
    exact (books2.congr (update_holder free _) (add_sub_cancel_right refs (one ip))).log rfl
  · apply (Keeps.setCopy ip _ _ _ _ _ books1).mono
    intro _ s2 books2
    apply (iupdate_keeps ip _ _ _ _ books2).mono
    intro _ s3 books3
    apply (iunlock_books books3 p ip).mono
    intro _ s4 books4
    apply (namex_books p cwd new true (books4.congr (update_holder free _) rfl)).mono
    rintro (_ | ⟨dp, name⟩) s5 books5
    · exact linkBad_books (books5.congr rfl (add_zero _))
    · exact linkInto_books name books5

theorem sysLink_books (p : ProcId) (cwd : Slot) (old new : Option (List UInt8))
    (books : Books holders refs false base s) :
    wp (sysLink p cwd old new) (fun _ s' => Books holders refs false base s')
      (fun _ _ => True) s := by
  unfold sysLink
  split
  · rename_i old new
    simp only [wp_bind, wp_record]
    apply (namei_books p cwd old (opened books)).mono
    rintro (_ | ip) s1 books1
    · exact ended (books1.congr rfl (add_zero refs))
    · exact linkFound_books cwd new books1
  · exact books

theorem unlinkBad_books {dp : Slot} (free : holders dp = none)
    (books : Books (update holders dp (some p)) (refs + one dp) true base s) :
    wp (unlinkBad p dp) (fun _ s' => Books holders refs false base s') (fun _ _ => True) s := by
  rw [unlinkBad]
  apply (iunlockput_books books p dp).bind
  intro _ s' books'
  exact ended (books'.congr (update_holder free _) (add_sub_cancel_right refs (one dp)))

theorem unlinkParent_keeps (dp : Slot) (type : BitVec 16) : Keeps (unlinkParent dp type) := by
  apply Keeps.ite
  · exact (Keeps.setCopy dp _).bind fun _ => iupdate_keeps dp
  · exact Keeps.pure _

theorem unlinkFound_books {dp : Slot} (off : Nat) (free : holders dp = none)
    (books : Books (update holders dp (some p)) (refs + one dp + one ip) true base s) :
    wp (unlinkFound p dp ip off) (fun _ s' => Books holders refs false base s')
      (fun _ _ => True) s := by
  simp only [unlinkFound, wp_bind, wp_get, wp_ite, wp_halt]
  apply (ilock_books books p ip).mono
  rintro _ s1 ⟨lockFree, books1⟩
  have different : dp ≠ ip := by
    rintro rfl
    rw [update_self] at lockFree
    cases lockFree
  have freeChild : holders ip = none := by rwa [update_of_ne different.symm] at lockFree
  refine ⟨fun _ => trivial, fun _ => ?_⟩
  apply (unlinkable_keeps ip _ _ _ _ books1).mono
  intro may s2 books2
  refine ⟨fun _ => ?_, fun _ => ?_⟩
  · simp only [unlinkEntry, addLinks, wp_bind, wp_get, wp_ite, wp_halt]
    apply (writei_keeps dp _ _ _ _ _ _ books2).mono
    intro written s3 books3
    refine ⟨fun _ => trivial, fun _ => ?_⟩
    apply (unlinkParent_keeps dp _ _ _ _ _ books3).mono
    intro _ s4 books4
    apply (iunlockput_books books4 p dp).mono
    intro _ s5 books5
    rw [update_comm different.symm, update_holder free] at books5
    apply (Keeps.setCopy ip _ _ _ _ _ books5).mono
    intro _ s6 books6
    apply (iupdate_keeps ip _ _ _ _ books6).mono
    intro _ s7 books7
    apply (iunlockput_books books7 p ip).mono
    intro _ s8 books8
    exact (books8.congr (update_holder freeChild _) (by abel)).log rfl
  · apply (iunlockput_books books2 p ip).mono
    intro _ s3 books3
    apply unlinkBad_books free
    apply books3.congr
    · rw [update_idem, update_eq_self_iff.mpr]
      rw [update_of_ne different.symm, freeChild]
    · exact add_sub_cancel_right _ (one ip)

theorem sysUnlink_books (p : ProcId) (cwd : Slot) (path : Option (List UInt8))
    (books : Books holders refs false base s) :
    wp (sysUnlink p cwd path) (fun _ s' => Books holders refs false base s')
      (fun _ _ => True) s := by
  unfold sysUnlink
  split
  · exact books
  · rename_i path
    simp only [wp_bind, wp_record]
    apply (namex_books p cwd path true (opened books)).mono
    rintro (_ | ⟨dp, name⟩) s1 books1
    · exact ended (books1.congr rfl (add_zero refs))
    · simp only [unlinkName, wp_bind]
      apply (ilock_books books1 p dp).mono
      rintro _ s2 ⟨free, books2⟩
      rw [wp_ite]
      refine ⟨fun _ => unlinkBad_books free books2, fun _ => ?_⟩
      apply (dirlookup_books books2 dp name).bind
      rintro (_ | ⟨ip, off⟩) s3 books3
      · exact unlinkBad_books free (books3.congr rfl (add_zero _))
      · exact unlinkFound_books off free books3

theorem exec_books (memory : Memory) (p : ProcId) (cwd : Slot) (path : List UInt8)
    (argv : List (List UInt8)) (books : Books holders refs false base s) :
    wp (exec memory p cwd path argv) (fun _ s' => Books holders refs false base s')
      (fun _ _ => True) s := by
  simp only [exec, wp_bind, wp_record]
  apply (namei_books p cwd path (opened books)).mono
  rintro (_ | ip) s1 books1
  · exact ended (books1.congr rfl (add_zero refs))
  · simp only [wp_bind, wp_record]
    apply (ilock_books books1 p ip).mono
    rintro _ s2 ⟨free, books2⟩
    apply (execLoad_keeps memory ip _ _ _ _ books2).mono
    intro loaded s3 books3
    apply (iunlockput_books books3 p ip).mono
    intro _ s4 books4
    have left : Books holders refs true base s4 :=
      books4.congr (update_holder free _) (add_sub_cancel_right refs (one ip))
    cases loaded with
    | none => exact left.log rfl
    | some sz => exact left.log rfl

end

def ClosedFiles (ftable : FileId → File) : Prop :=
  ∀ f, (ftable f).ref ≤ 0 → (ftable f).inode = false

/-- The reference that goes when somebody closes `file`. -/
def lastRef (file : File) : Refs := if file.ref = 1 ∧ file.inode then one file.ip else 0

section

variable {holders : Holders} {refs : Refs} {base : List Event} {s : SysState}

private theorem setFile_closed {ftable : FileId → File} (closed : ClosedFiles ftable) {f : FileId}
    {file : File} (unused : file.ref ≤ 0 → file.inode = false) :
    ClosedFiles (update ftable f file) := by
  intro other below
  by_cases same : other = f
  · subst same
    rw [update_self] at below ⊢
    exact unused below
  · rw [update_of_ne same] at below ⊢
    exact closed other below

theorem wp_onFs_books {Value : Type} {program : FsM Value} {post : Value → SysState → Prop} :
    wp (onFs program) post (fun _ _ => True) s ↔
      wp program (fun value fs => post value { s with fs }) (fun _ _ => True) s.fs := wp_focus

theorem fileclose_books (p : ProcId) (f : FileId) (closed : ClosedFiles s.ftable)
    (books : Books holders refs false base s.fs) :
    wp (fileclose p f) (fun _ s' => Books holders (refs - lastRef (s.ftable f)) false base s'.fs ∧
      ClosedFiles s'.ftable) (fun _ _ => True) s := by
  simp only [fileclose, setFile, wp_bind, wp_get, wp_ite, wp_halt, wp_modify, implies_true,
    true_and]
  refine fun above => ⟨fun shared => ⟨?_, ?_⟩, fun last => ?_⟩
  · have notLast : ¬ ((s.ftable f).ref = 1 ∧ (s.ftable f).inode) := by omega
    rw [lastRef, if_neg notLast, sub_zero]
    exact books
  · apply setFile_closed closed
    intro below
    simp only at below
    omega
  · have isLast : (s.ftable f).ref = 1 := by omega
    have stillClosed : ClosedFiles (update s.ftable f
        { s.ftable f with ref := 0, inode := false }) := setFile_closed closed fun _ => rfl
    unfold fileput
    rw [wp_ite]
    refine ⟨fun hasInode => ?_, fun noInode => ⟨?_, stillClosed⟩⟩
    · simp only [wp_bind, wp_onFs_books, wp_record]
      apply (iput_books (opened books) p (s.ftable f).ip).mono
      intro _ fs books'
      rw [lastRef, if_pos ⟨isLast, hasInode⟩]
      exact ⟨books'.log rfl, stillClosed⟩
    · rw [lastRef, if_neg (fun isLastInode => noInode isLastInode.2), sub_zero]
      exact books

theorem openFile_books (p : ProcId) (closed : ClosedFiles s.ftable) :
    wp (openFile p) (fun found s' => s'.fs = s.fs ∧ ClosedFiles s'.ftable ∧
      ∀ f fd, found = some (f, fd) → (s'.proc p).ofile fd = some f ∧ 0 < (s'.ftable f).ref)
      (fun _ _ => True) s := by
  simp only [openFile, filealloc, wp_bind, wp_get]
  split
  · rename_i f found
    have free := List.find?_some found
    simp only [decide_eq_true_eq] at free
    have unused := closed f (by omega)
    simp only [fdalloc, setFile, setFd, setProc, wp_bind, wp_modify, wp_pure, wp_get]
    split
    · rename_i fd _
      simp only [wp_bind, wp_modify, wp_pure]
      refine ⟨trivial, ?_, ?_⟩
      · apply setFile_closed closed
        intro below
        cases below
      · intro f' fd' same
        obtain ⟨rfl, rfl⟩ := Prod.mk.inj (Option.some.inj same)
        simp
    · simp only [wp_pure, fileclose, fileput, setFile, wp_bind, wp_get, wp_ite, wp_halt, wp_modify,
        update_self, update_idem, unused]
      refine ⟨fun _ => trivial, fun _ => ⟨fun shared => absurd shared (by decide), fun _ => ?_⟩⟩
      refine ⟨nofun, fun _ => ⟨trivial, ?_, nofun⟩⟩
      apply setFile_closed closed
      exact fun _ => rfl
  · exact ⟨rfl, closed, nofun⟩

/-- The inode of the file that the result of `open` is a descriptor for. -/
def openedRef (s : SysState) (p : ProcId) (result : Int) : Refs :=
  kept (fun found => (s.ftable found.2).ip) (argfd s p result)

theorem openedRef_failed (s : SysState) (p : ProcId) : openedRef s p (-1) = 0 := by
  unfold openedRef argfd
  rw [dif_neg (by decide)]
  rfl

theorem openedRef_fd {fd : Fd} {f : FileId} (isOpen : (s.proc p).ofile fd = some f) :
    openedRef s p fd.val = one (s.ftable f).ip := by
  unfold openedRef argfd
  rw [dif_pos ⟨Int.natCast_nonneg _, fd.isLt⟩]
  simp only [Int.toNat_natCast, Fin.eta, isOpen, Option.map_some]
  rfl

theorem openWith_books (omode : BitVec 32) (closed : ClosedFiles s.ftable)
    (free : holders ip = none)
    (books : Books (update holders ip (some p)) (refs + one ip) true base s.fs) :
    wp (openWith p ip omode) (fun result s' =>
      Books holders (refs + openedRef s' p result) false base s'.fs ∧ ClosedFiles s'.ftable)
      (fun _ _ => True) s := by
  rw [openWith]
  apply (openFile_books p closed).bind
  rintro found s1 ⟨sameFs, closed1, described⟩
  have books1 : Books (update holders ip (some p)) (refs + one ip) true base s1.fs :=
    sameFs ▸ books
  rcases found with _ | ⟨f, fd⟩
  · simp only [wp_bind, wp_onFs_books, wp_record, wp_pure, openedRef_failed, add_zero]
    apply (iunlockput_books books1 p ip).mono
    intro _ fs books2
    exact ⟨(books2.congr (update_holder free _) (add_sub_cancel_right refs (one ip))).log rfl,
      closed1⟩
  · obtain ⟨isOpen, positive⟩ := described f fd rfl
    simp only [wp_bind, wp_onFs_books, wp_record, wp_pure, setFile, wp_modify]
    apply (iunlock_books books1 p ip).mono
    intro _ fs books2
    constructor
    · rw [openedRef_fd (f := f)]
      · simp only [update_self]
        exact (books2.congr (update_holder free _) rfl).log rfl
      · exact isOpen
    · apply setFile_closed closed1
      intro below
      simp only at below
      omega

theorem sysOpen_books (p : ProcId) (path : Option (List UInt8)) (omode : BitVec 32)
    (closed : ClosedFiles s.ftable) (books : Books holders refs false base s.fs) :
    wp (sysOpen p path omode) (fun result s' =>
      Books holders (refs + openedRef s' p result) false base s'.fs ∧ ClosedFiles s'.ftable)
      (fun _ _ => True) s := by
  unfold sysOpen
  split
  · rw [wp_pure, openedRef_failed, add_zero]
    exact ⟨books, closed⟩
  · rename_i path
    simp only [wp_bind, wp_get, wp_onFs_books, wp_record]
    apply (openInode_books _ path omode (opened books)).mono
    rintro (_ | ip) fs taken
    · simp only [wp_bind, wp_onFs_books, wp_record, wp_pure, openedRef_failed, add_zero]
      exact ⟨taken.log rfl, closed⟩
    · exact openWith_books omode closed taken.1 taken.2

theorem makeNode_books (p : ProcId) (path : List UInt8) (type major minor : BitVec 16)
    (closed : ClosedFiles s.ftable) (books : Books holders refs true base s.fs) :
    wp (makeNode p path type major minor)
      (fun _ s' => Books holders refs false base s'.fs ∧ ClosedFiles s'.ftable) (fun _ _ => True) s := by
  simp only [makeNode, wp_bind, wp_get, wp_onFs_books]
  apply (create_books _ path type major minor books).mono
  rintro (_ | ip) fs taken
  · simp only [wp_bind, wp_onFs_books, wp_record, wp_pure]
    exact ⟨taken.log rfl, closed⟩
  · obtain ⟨free, books1⟩ := taken
    simp only [wp_bind, wp_onFs_books, wp_record, wp_pure]
    apply (iunlockput_books books1 p ip).mono
    intro _ fs books2
    exact ⟨(books2.congr (update_holder free _) (add_sub_cancel_right refs (one ip))).log rfl,
      closed⟩

theorem sysChdir_books (p : ProcId) (path : Option (List UInt8)) (closed : ClosedFiles s.ftable)
    (books : Books holders refs false base s.fs) :
    wp (sysChdir p path) (fun result s' => Books holders
      (refs + if result = 0 then one (s'.proc p).cwd - one (s.proc p).cwd else 0) false base s'.fs ∧
      ClosedFiles s'.ftable) (fun _ _ => True) s := by
  have failed : ((-1 : Int) = 0) = False := by decide
  simp only [sysChdir, wp_bind, wp_onFs_books, wp_record]
  split
  · simp only [wp_bind, wp_onFs_books, wp_record, wp_pure, failed, if_false, add_zero]
    exact ⟨(opened books).log rfl, closed⟩
  · rename_i path
    simp only [wp_bind, wp_get, wp_onFs_books]
    apply (namei_books p _ path (opened books)).mono
    rintro (_ | ip) fs books1
    · simp only [wp_bind, wp_onFs_books, wp_record, wp_pure, failed, if_false, add_zero]
      exact ⟨(books1.congr rfl (add_zero refs)).log rfl, closed⟩
    · simp only [chdirTo, wp_bind, wp_get, wp_ite, wp_onFs_books, wp_record, wp_pure, setProc,
        wp_modify, failed, if_false, if_true, add_zero, update_self]
      apply (ilock_books books1 p ip).mono
      rintro _ fs2 ⟨free, books2⟩
      refine ⟨fun _ => ?_, fun _ => ?_⟩
      · apply (iunlockput_books books2 p ip).mono
        intro _ fs3 books3
        exact ⟨(books3.congr (update_holder free _) (add_sub_cancel_right refs (one ip))).log rfl,
          closed⟩
      · apply (iunlock_books books2 p ip).mono
        intro _ fs3 books3
        apply (iput_books books3 p _).mono
        intro _ fs4 books4
        exact ⟨(books4.congr (update_holder free _) (add_sub_assoc _ _ _)).log rfl, closed⟩

theorem advance_books (f : FileId) (r : Int) (closed : ClosedFiles s.ftable) :
    wp (advance f r) (fun _ s' => s'.fs = s.fs ∧ ClosedFiles s'.ftable) (fun _ _ => True) s := by
  unfold advance
  rw [wp_ite]
  refine ⟨fun _ => ?_, fun _ => ⟨rfl, closed⟩⟩
  exact ⟨rfl, setFile_closed closed fun below => closed f below⟩

theorem writeChunk_books (p : ProcId) (f : FileId) (bytes : List UInt8) (closed : ClosedFiles s.ftable)
    (books : Books holders refs false base s.fs) :
    wp (writeChunk p f bytes)
      (fun _ s' => Books holders refs false base s'.fs ∧ ClosedFiles s'.ftable) (fun _ _ => True) s := by
  simp only [writeChunk, wp_bind, wp_get, wp_onFs_books, wp_record, wp_pure]
  apply (ilock_books (opened books) p _).mono
  rintro _ fs1 ⟨free, books1⟩
  apply (writei_keeps _ bytes _ _ _ _ _ books1).mono
  intro written fs2 books2
  apply (advance_books (s := { s with fs := fs2 }) f written closed).mono
  rintro _ s3 ⟨sameFs, closed3⟩
  have books3 : Books (update holders (s.ftable f).ip (some p)) refs true base s3.fs :=
    sameFs.symm ▸ books2
  apply (iunlock_books books3 p _).mono
  intro _ fs4 books4
  exact ⟨(books4.congr (update_holder free _) rfl).log rfl, closed3⟩

theorem filewriteLoop_books (p : ProcId) (f : FileId) (rounds : Nat) :
    ∀ (src : List UInt8) (s : SysState), ClosedFiles s.ftable → Books holders refs false base s.fs →
      wp (filewriteLoop p f rounds src)
        (fun _ s' => Books holders refs false base s'.fs ∧ ClosedFiles s'.ftable) (fun _ _ => True) s := by
  induction rounds with
  | zero => exact fun _ _ closed books => ⟨books, closed⟩
  | succ rounds ih =>
    intro src s closed books
    simp only [filewriteLoop, wp_ite, wp_pure, wp_bind, wp_halt]
    refine ⟨fun _ => ⟨books, closed⟩, fun _ => ?_⟩
    apply (writeChunk_books p f _ closed books).mono
    rintro written s1 ⟨books1, closed1⟩
    exact ⟨fun _ => ⟨books1, closed1⟩, fun _ => ⟨fun _ => trivial, fun _ =>
      ih _ s1 closed1 books1⟩⟩

theorem filewrite_books (p : ProcId) (f : FileId) (src : List UInt8) (closed : ClosedFiles s.ftable)
    (books : Books holders refs false base s.fs) :
    wp (filewrite p f src)
      (fun _ s' => Books holders refs false base s'.fs ∧ ClosedFiles s'.ftable) (fun _ _ => True) s := by
  simp only [filewrite, wp_bind, wp_get, wp_ite, wp_pure, wp_halt, implies_true, true_and]
  exact ⟨fun _ => ⟨books, closed⟩, fun _ _ => filewriteLoop_books p f _ src s closed books⟩

end

inductive Operation where
  | link (old new : Option (List UInt8))
  | unlink (path : Option (List UInt8))
  | open (path : Option (List UInt8)) (omode : BitVec 32)
  | mkdir (path : Option (List UInt8))
  | mknod (args : Option (List UInt8 × BitVec 16 × BitVec 16))
  | chdir (path : Option (List UInt8))
  | exec (memory : Memory) (path : List UInt8) (argv : List (List UInt8))
  | filewrite (f : FileId) (src : List UInt8)
  | fileclose (f : FileId)

def Operation.program (p : ProcId) : Operation → SysM Int
  | .link old new => sysLinkCall p old new
  | .unlink path => sysUnlinkCall p path
  | .open path omode => sysOpen p path omode
  | .mkdir path => sysMkdir p path
  | .mknod args => sysMknod p args
  | .chdir path => sysChdir p path
  | .exec memory path argv => do
    let s ← Prog.get
    onFs (Fs.exec memory p (s.proc p).cwd path argv)
  | .filewrite f src => Fs.filewrite p f src
  | .fileclose f => do
    Fs.fileclose p f
    pure 0

/-- The references that an operation is meant to keep and to drop: the inode of the
opened file, the new and the old current directory, and the inode of the closed
file. -/
def Operation.change (p : ProcId) (s s' : SysState) (result : Int) : Operation → Refs
  | .open _ _ => openedRef s' p result
  | .chdir _ => if result = 0 then one (s'.proc p).cwd - one (s.proc p).cwd else 0
  | .fileclose f => -lastRef (s.ftable f)
  | _ => 0

theorem Operation.program_books {holders : Holders} {refs : Refs} {base : List Event}
    {s : SysState} (p : ProcId) (operation : Operation) (closed : ClosedFiles s.ftable)
    (books : Books holders refs false base s.fs) :
    wp (operation.program p) (fun result s' =>
      Books holders (refs + operation.change p s s' result) false base s'.fs ∧ ClosedFiles s'.ftable)
      (fun _ _ => True) s := by
  cases operation with
  | link old new =>
    simp only [program, change, sysLinkCall, wp_bind, wp_get, wp_onFs_books, add_zero]
    exact (sysLink_books p _ old new books).mono fun _ _ books' => ⟨books', closed⟩
  | unlink path =>
    simp only [program, change, sysUnlinkCall, wp_bind, wp_get, wp_onFs_books, add_zero]
    exact (sysUnlink_books p _ path books).mono fun _ _ books' => ⟨books', closed⟩
  | «open» path omode => exact sysOpen_books p path omode closed books
  | mkdir path =>
    simp only [program, change, sysMkdir, wp_bind, wp_onFs_books, wp_record, add_zero]
    split
    · exact ⟨(opened books).log rfl, closed⟩
    · exact makeNode_books p _ T_DIR 0 0 closed (opened books)
  | mknod args =>
    simp only [program, change, sysMknod, wp_bind, wp_onFs_books, wp_record, add_zero]
    split
    · exact ⟨(opened books).log rfl, closed⟩
    · exact makeNode_books p _ T_DEV _ _ closed (opened books)
  | chdir path => exact sysChdir_books p path closed books
  | exec memory path argv =>
    simp only [program, change, wp_bind, wp_get, wp_onFs_books, add_zero]
    exact (exec_books memory p _ path argv books).mono fun _ _ books' => ⟨books', closed⟩
  | filewrite f src =>
    simp only [program, change, add_zero]
    exact filewrite_books p f src closed books
  | fileclose f =>
    simp only [program, change, wp_bind, wp_pure, ← sub_eq_add_neg]
    exact fileclose_books p f closed books

/-- Whatever an operation returns, its transactions are opened and closed one after
another, and every `log_write` and `iput` is in one of them; the inode locks are held
by whoever held them before, so not by the caller if it held none; and the counts of
references have changed by what the operation is meant to keep and drop. -/
theorem operations_balanced (p : ProcId) (operation : Operation) {s s' : SysState} {result : Int}
    (closed : ClosedFiles s.ftable) (ran : operation.program p s = (.ok result, s')) :
    (∃ events, s'.fs.trace = events ++ s.fs.trace ∧
      events.reverse.foldlM opStep false = some false) ∧
    (∀ x, (s'.fs.icache x).lock = (s.fs.icache x).lock) ∧
    (∀ x, (s'.fs.icache x).ref = (s.fs.icache x).ref + operation.change p s s' result x) ∧
    ClosedFiles s'.ftable := by
  have holds := operation.program_books p closed (Books.start s.fs)
  unfold wp at holds
  rw [ran] at holds
  obtain ⟨books, closed'⟩ := holds
  exact ⟨books.trace, books.holders, books.refs, closed'⟩

/-- `init` opens the root directory, which is its current directory already. -/
theorem operations_balanced_open :
    ∃ s', (Operation.open (some [47]) O_RDONLY).program ⟨0, by decide⟩
        (boot (smallDisk 1) noDevices).sys = (.ok 0, s') ∧
      (∃ events, s'.fs.trace = events ++ (boot (smallDisk 1) noDevices).sys.fs.trace ∧
        events.reverse.foldlM opStep false = some false) ∧
      (s'.fs.icache ⟨0, by decide⟩).lock = none := by
  have returns : (((Operation.open (some [47]) O_RDONLY).program ⟨0, by decide⟩)
      (boot (smallDisk 1) noDevices).sys).1.toOption = some 0 := by
    decide +kernel
  have ran := Prog.ran_of_toOption returns
  obtain ⟨transactions, locks, -, -⟩ := operations_balanced ⟨0, by decide⟩
    (.open (some [47]) O_RDONLY) (fun _ _ => rfl) ran
  exact ⟨_, ran, transactions, locks _⟩

end Xv6.Fs
