import Xv6.Lib.Tally
import Xv6.OpenFiles.Model

/-!
Contract: what the counts of the file table and the flags of pipes say.

In the middle of a call the count of a file differs from the number of its descriptors by
the pointers that the call has in its variables. `Counted held` has these as `held`; it is
negative after `sys_dup` has stored a descriptor and before it counts it. Each function of
`file.c` is specified by what it does to `held`, and a complete call leaves it zero.
-/

namespace Xv6.OpenFiles

open Function Xv6.Lib

/-! ### The ends of pipes -/

def PipeOpen (pipe : Pipes.Pipe) (writable : Bool) : Bool :=
  if writable then pipe.writeopen else pipe.readopen

theorem pipeOpen_close (pipe : Pipes.Pipe) (writable other : Bool) :
    PipeOpen (pipe.close writable) other = (PipeOpen pipe other && other != writable) := by
  cases writable <;> cases other <;> simp [PipeOpen, Pipes.Pipe.close]

theorem unused_eq_false_iff (pipe : Pipes.Pipe) :
    pipe.unused = false ↔ ∃ writable, PipeOpen pipe writable = true := by
  simp only [Pipes.Pipe.unused, PipeOpen, Bool.exists_bool]
  cases pipe.readopen <;> cases pipe.writeopen <;> simp

/-- The file is this end of the pipe in the page. -/
structure File.End (file : File) (page : Page) (writable : Bool) : Prop where
  type : file.type = .pipe
  pipe : file.pipe = page
  writable : file.writable = writable

theorem File.end_of_pipe {file : File} (isPipe : file.type = .pipe) : file.End file.pipe file.writable :=
  ⟨isPipe, rfl, rfl⟩

theorem File.End.iff {file : File} {page page' : Page} {writable writable' : Bool} (isEnd : file.End page writable) :
    file.End page' writable' ↔ page' = page ∧ writable' = writable :=
  ⟨fun e => ⟨e.pipe.symm.trans isEnd.pipe, e.writable.symm.trans isEnd.writable⟩,
    fun ⟨samePage, same⟩ => ⟨isEnd.type, isEnd.pipe.trans samePage.symm, isEnd.writable.trans same.symm⟩⟩

/-- The open ends of the pipes are the ends that are files. -/
structure Ends (ftable : FileId → File) (pages : Page → Option (Nat × Pipes.Pipe)) : Prop where
  ends : ∀ f page writable, (ftable f).End page writable →
    ∃ n pipe, pages page = some (n, pipe) ∧ PipeOpen pipe writable = true
  opened : ∀ page n pipe writable, pages page = some (n, pipe) → PipeOpen pipe writable = true →
    ∃ f, (ftable f).End page writable
  unique : ∀ f f' page writable, (ftable f).End page writable → (ftable f').End page writable → f = f'
  live : ∀ page n pipe, pages page = some (n, pipe) → pipe.unused = false

variable {f : FileId} {page : Page} {n : Nat} {pipe : Pipes.Pipe}

section

variable {ftable : FileId → File} {pages : Page → Option (Nat × Pipes.Pipe)}

def EndOpen (pages : Page → Option (Nat × Pipes.Pipe)) (page : Page) (writable : Bool) : Prop :=
  ∃ n pipe, pages page = some (n, pipe) ∧ PipeOpen pipe writable = true

theorem endOpen_iff {writable : Bool} (isPage : pages page = some (n, pipe)) :
    EndOpen pages page writable ↔ PipeOpen pipe writable = true := by
  simp [EndOpen, isPage]

theorem endOpen_update {left : Option (Nat × Pipes.Pipe)} {page' : Page} {writable : Bool}
    (other : page' ≠ page) : EndOpen (update pages page left) page' writable ↔ EndOpen pages page' writable := by
  rw [EndOpen, update_of_ne other, EndOpen]

theorem ends_of_endOpen (opened : ∀ page writable, EndOpen pages page writable ↔ ∃ f, (ftable f).End page writable)
    (unique : ∀ f f' page writable, (ftable f).End page writable → (ftable f').End page writable → f = f')
    (live : ∀ page n pipe, pages page = some (n, pipe) → pipe.unused = false) : Ends ftable pages :=
  ⟨fun f _ _ isEnd => (opened _ _).mpr ⟨f, isEnd⟩,
    fun _ n pipe _ isPage isOpen => (opened _ _).mp ⟨n, pipe, isPage, isOpen⟩, unique, live⟩

theorem Ends.endOpen (ends : Ends ftable pages) (page : Page) (writable : Bool) :
    EndOpen pages page writable ↔ ∃ f, (ftable f).End page writable :=
  ⟨fun ⟨n, pipe, isPage, isOpen⟩ => ends.opened page n pipe writable isPage isOpen,
    fun ⟨f, isEnd⟩ => ends.ends f page writable isEnd⟩

theorem Ends.congr (ends : Ends ftable pages) {after : FileId → File}
    (same : ∀ f page writable, (after f).End page writable ↔ (ftable f).End page writable) :
    Ends after pages := by
  refine ends_of_endOpen (fun page writable => ?_) (fun f f' page writable => ?_) ends.live
  · simp only [ends.endOpen, same]
  · simp only [same]
    exact ends.unique f f' page writable

/-- The file of an end is gone, and so is the end; the page is freed after the second. -/
theorem Ends.close (ends : Ends ftable pages) {writable : Bool} {new : File}
    (isEnd : (ftable f).End page writable) (isPage : pages page = some (n, pipe))
    (gone : new.type ≠ .pipe) :
    Ends (update ftable f new) (update pages page
      (if (pipe.close writable).unused then none else some (n, pipe.close writable))) := by
  set left := if (pipe.close writable).unused then none else some (n, pipe.close writable) with isLeft
  have others : ∀ g page' writable', (update ftable f new g).End page' writable' ↔
      (ftable g).End page' writable' ∧ g ≠ f := by
    intro g page' writable'
    by_cases isF : g = f
    · rw [isF, update_self]
      exact ⟨fun e => absurd e.type gone, fun e => absurd rfl e.2⟩
    · rw [update_of_ne isF]
      exact (and_iff_left isF).symm
  have closed : ∀ writable', EndOpen (update pages page left) page writable' ↔
      EndOpen pages page writable' ∧ writable' ≠ writable := by
    intro writable'
    rw [endOpen_iff isPage, ← bne_iff_ne, ← Bool.and_eq_true, ← pipeOpen_close]
    rw [EndOpen, update_self, isLeft]
    split
    · rename_i unused
      refine ⟨nofun, fun isOpen => ?_⟩
      rw [(unused_eq_false_iff _).mpr ⟨writable', isOpen⟩] at unused
      cases unused
    · simp
  refine ends_of_endOpen (fun page' writable' => ?_) (fun g g' page' writable' first second => ?_)
    fun page' n' pipe' isPage' => ?_
  · simp only [others]
    by_cases samePage : page' = page
    · rw [samePage, closed, ends.endOpen, ← exists_and_right]
      refine exists_congr fun g => and_congr_right fun isEnd' => not_congr ⟨?_, ?_⟩
      · rintro rfl
        exact ends.unique g f page _ isEnd' isEnd
      · rintro rfl
        exact (isEnd.iff.mp isEnd').2
    · rw [endOpen_update samePage, ends.endOpen]
      refine exists_congr fun g => (and_iff_left_of_imp fun isEnd' => ?_).symm
      rintro rfl
      exact samePage (isEnd.iff.mp isEnd').1
  · exact ends.unique g g' page' writable' ((others ..).mp first).1 ((others ..).mp second).1
  · by_cases samePage : page' = page
    · rw [samePage, update_self, isLeft] at isPage'
      obtain ⟨inUse, same⟩ := of_guard_not isPage'
      cases same
      exact eq_false_of_ne_true inUse
    · rw [update_of_ne samePage] at isPage'
      exact ends.live page' n' pipe' isPage'

/-- Two files that were no ends become those of a pipe in a free page. -/
theorem Ends.open (ends : Ends ftable pages) {f0 f1 : FileId} {new0 new1 : File} (differ : f0 ≠ f1)
    (none0 : (ftable f0).type ≠ .pipe) (none1 : (ftable f1).type ≠ .pipe)
    (isFree : pages page = none) (end0 : new0.End page false) (end1 : new1.End page true)
    (bothOpen : ∀ writable, PipeOpen pipe writable = true) :
    Ends (update (update ftable f0 new0) f1 new1)
      (update pages page (some (n, pipe))) := by
  set after := update (update ftable f0 new0) f1 new1 with isAfter
  have isEnd : ∀ g page' writable', (after g).End page' writable' ↔
      page' = page ∧ g = (if writable' then f1 else f0) ∨ page' ≠ page ∧ (ftable g).End page' writable' := by
    intro g page' writable'
    have noEnd : ∀ {file : File}, file.type ≠ .pipe → ¬ file.End page' writable' := fun notPipe e => notPipe e.type
    by_cases is1 : g = f1
    · rw [is1, isAfter, update_self, end1.iff]
      cases writable' <;> simp [differ.symm, noEnd none1]
    · by_cases is0 : g = f0
      · rw [is0, isAfter, update_of_ne differ, update_self, end0.iff]
        cases writable' <;> simp [differ, noEnd none0]
      · rw [isAfter, update_of_ne is1, update_of_ne is0]
        have neither : g ≠ (if writable' then f1 else f0) := by cases writable' <;> assumption
        rw [or_iff_right fun both => neither both.2]
        refine (and_iff_right_of_imp fun e => ?_).symm
        rintro rfl
        obtain ⟨n', pipe', isPage, -⟩ := ends.ends g page' writable' e
        rw [isFree] at isPage
        cases isPage
  refine ends_of_endOpen (fun page' writable' => ?_) (fun g g' page' writable' => ?_) fun page' n' pipe' isPage => ?_
  · simp only [isEnd]
    by_cases samePage : page' = page
    · have isOpen : EndOpen (update pages page (some (n, pipe))) page writable' :=
        (endOpen_iff (update_self ..)).mpr (bothOpen writable')
      simp [samePage, isOpen]
    · simp [samePage, endOpen_update, ends.endOpen]
  · simp only [isEnd]
    rintro (⟨samePage, isG⟩ | ⟨other, first⟩) (⟨samePage', isG'⟩ | ⟨other', second⟩)
    · rw [isG, isG']
    · exact absurd samePage other'
    · exact absurd samePage' other
    · exact ends.unique g g' page' writable' first second
  · by_cases samePage : page' = page
    · rw [samePage, update_self] at isPage
      cases isPage
      exact (unused_eq_false_iff _).mpr ⟨true, bothOpen true⟩
    · rw [update_of_ne samePage] at isPage
      exact ends.live page' n' pipe' isPage

end

/-! ### The pages of pipes -/

/-- Every pipe that was made is in one page, or has been freed once. -/
structure Freed (pages : Page → Option (Nat × Pipes.Pipe)) (made : Nat) (freed : List Nat) : Prop where
  injective : ∀ page page' n pipe pipe', pages page = some (n, pipe) → pages page' = some (n, pipe') →
    page = page'
  allocated : ∀ page n pipe, pages page = some (n, pipe) → n < made ∧ n ∉ freed
  below : ∀ n ∈ freed, n < made
  nodup : freed.Nodup
  total : ∀ n < made, n ∈ freed ∨ ∃ page pipe, pages page = some (n, pipe)

section

variable {pages : Page → Option (Nat × Pipes.Pipe)} {made : Nat} {freed : List Nat}

def Has (pages : Page → Option (Nat × Pipes.Pipe)) (page : Page) (n : Nat) : Prop := ∃ pipe, pages page = some (n, pipe)

theorem has_update_some {pipe : Pipes.Pipe} {q : Page} {m : Nat} :
    Has (update pages page (some (n, pipe))) q m ↔ q = page ∧ m = n ∨ q ≠ page ∧ Has pages q m := by
  by_cases same : q = page
  · simp [Has, same, eq_comm]
  · simp [Has, same]

theorem has_update_none {q : Page} {m : Nat} : Has (update pages page none) q m ↔ q ≠ page ∧ Has pages q m := by
  by_cases same : q = page
  · simp [Has, same]
  · simp [Has, same]

theorem freed_of_has (injective : ∀ q q' m, Has pages q m → Has pages q' m → q = q')
    (allocated : ∀ q m, Has pages q m → m < made ∧ m ∉ freed) (below : ∀ m ∈ freed, m < made) (nodup : freed.Nodup)
    (total : ∀ m < made, m ∈ freed ∨ ∃ q, Has pages q m) : Freed pages made freed :=
  ⟨fun q q' m pipe pipe' isQ isQ' => injective q q' m ⟨pipe, isQ⟩ ⟨pipe', isQ'⟩,
    fun q m pipe isQ => allocated q m ⟨pipe, isQ⟩, below, nodup, total⟩

section

variable (inv : Freed pages made freed)

include inv

theorem Freed.page_eq {q : Page} {m : Nat} (has : Has pages page m) (has' : Has pages q m) : page = q :=
  inv.injective page q m has.choose has'.choose has.choose_spec has'.choose_spec

theorem Freed.number {m : Nat} (has : Has pages page m) : m < made ∧ m ∉ freed :=
  inv.allocated page m has.choose has.choose_spec

theorem Freed.change (isPage : pages page = some (n, pipe)) (pipe' : Pipes.Pipe) :
    Freed (update pages page (some (n, pipe'))) made freed := by
  have same : ∀ q m, Has (update pages page (some (n, pipe'))) q m ↔ Has pages q m := by
    intro q m
    rw [has_update_some]
    by_cases isQ : q = page
    · simp [Has, isQ, isPage, eq_comm]
    · simp [isQ]
  refine freed_of_has (fun q q' m => ?_) (fun q m => ?_) inv.below inv.nodup (fun m => ?_)
  · simp only [same]
    exact inv.page_eq
  · rw [same]
    exact inv.number
  · simp only [same]
    exact inv.total m

theorem Freed.free (isPage : pages page = some (n, pipe)) : Freed (update pages page none) made (n :: freed) := by
  have has : Has pages page n := ⟨pipe, isPage⟩
  refine freed_of_has (fun q q' m => ?_) (fun q m => ?_) (fun m => ?_)
    (List.nodup_cons.mpr ⟨(inv.number has).2, inv.nodup⟩) (fun m isMade => ?_)
  · simp only [has_update_none]
    exact fun isQ isQ' => inv.page_eq isQ.2 isQ'.2
  · rw [has_update_none, List.mem_cons, not_or]
    refine fun isQ => ⟨(inv.number isQ.2).1, ?_, (inv.number isQ.2).2⟩
    rintro rfl
    exact isQ.1 (inv.page_eq isQ.2 has)
  · rw [List.mem_cons]
    rintro (rfl | isFreed)
    · exact (inv.number has).1
    · exact inv.below m isFreed
  · rcases inv.total m isMade with isFreed | ⟨q, isQ⟩
    · exact Or.inl (List.mem_cons_of_mem n isFreed)
    · by_cases same : q = page
      · obtain ⟨old, isOld⟩ := isQ
        rw [same, isPage] at isOld
        cases isOld
        exact Or.inl List.mem_cons_self
      · exact Or.inr ⟨q, has_update_none.mpr ⟨same, isQ⟩⟩

theorem Freed.make (isFree : pages page = none) (pipe : Pipes.Pipe) :
    Freed (update pages page (some (made, pipe))) (made + 1) freed := by
  refine freed_of_has (fun q q' m => ?_) (fun q m => ?_) (fun m isFreed => Nat.lt_succ_of_lt (inv.below m isFreed))
    inv.nodup (fun m isMade => ?_)
  · rw [has_update_some, has_update_some]
    rintro (⟨isPage, isMade⟩ | ⟨-, isQ⟩) (⟨isPage', isMade'⟩ | ⟨-, isQ'⟩)
    · rw [isPage, isPage']
    · exact absurd isMade (inv.number isQ').1.ne
    · exact absurd isMade' (inv.number isQ).1.ne
    · exact inv.page_eq isQ isQ'
  · rw [has_update_some]
    rintro (⟨-, rfl⟩ | ⟨-, isQ⟩)
    · exact ⟨Nat.lt_succ_self m, fun isFreed => Nat.lt_irrefl m (inv.below m isFreed)⟩
    · exact ⟨Nat.lt_succ_of_lt (inv.number isQ).1, (inv.number isQ).2⟩
  · rcases Nat.lt_succ_iff_lt_or_eq.mp isMade with isMade | rfl
    · refine (inv.total m isMade).imp_right fun ⟨q, isQ⟩ => ⟨q, has_update_some.mpr (Or.inr ⟨?_, isQ⟩)⟩
      rintro rfl
      obtain ⟨old, isOld⟩ := isQ
      rw [isFree] at isOld
      cases isOld
    · exact Or.inr ⟨page, has_update_some.mpr (Or.inl ⟨rfl, rfl⟩)⟩

end

end

/-! ### Counts -/

/-- The descriptors of all processes. -/
def Kernel.descriptor (s : Kernel) (slot : ProcId × Fd) : Option FileId := (s.proc slot.1).ofile slot.2

def points (f : FileId) (file : Option FileId) : Int := if file = some f then 1 else 0

theorem points_nonneg (f : FileId) (file : Option FileId) : 0 ≤ points f file := by
  unfold points
  split <;> simp

/-- An end of the pipe `n` has been closed, and the page is freed if that was the second. -/
def Kernel.closed (s : Kernel) (page : Page) (n : Nat) (left : Pipes.Pipe) : Kernel :=
  { s with
    page := update s.page page (if left.unused then none else some (n, left))
    freed := if left.unused then n :: s.freed else s.freed }

structure Counted (held : FileId → Int) (s : Kernel) : Prop where
  count : ∀ f, (s.ftable f).ref = tally (points f) s.descriptor + held f
  closed : ∀ f, (s.ftable f).ref = 0 → (s.ftable f).type = .none
  ends : Ends s.ftable s.page
  freed : Freed s.page s.made s.freed
  idle : ∀ p, (s.proc p).used = false → ∀ fd, (s.proc p).ofile fd = none

variable {held : FileId → Int} {s : Kernel}

theorem descriptor_setFd (p : ProcId) (fd : Fd) (file : Option FileId) :
    (s.setFd p fd file).descriptor = update s.descriptor (p, fd) file := by
  funext slot
  obtain ⟨q, fd'⟩ := slot
  simp only [Kernel.descriptor, Kernel.setFd]
  by_cases isQ : q = p
  · subst isQ
    rw [update_self]
    by_cases isFd : fd' = fd
    · subst isFd
      rw [update_self]
      exact update_self ..
    · have other : (q, fd') ≠ (q, fd) := fun same => isFd (Prod.mk.inj same).2
      rw [update_of_ne other]
      exact update_of_ne isFd _ _
  · have other : (q, fd') ≠ (p, fd) := fun same => isQ (Prod.mk.inj same).1
    rw [update_of_ne isQ, update_of_ne other]
    rfl

variable {p : ProcId} {fd : Fd}

variable {halts : Halt → Kernel → Prop}

section

variable (counted : Counted held s)

include counted

/-- A descriptor is counted, unless the call that runs has taken it back. -/
theorem Counted.ref_pos (isFile : (s.proc p).ofile fd = some f) :
    1 + held f ≤ (s.ftable f).ref := by
  have one := weight_le_tally (points_nonneg f) s.descriptor (p, fd)
  rw [Kernel.descriptor, isFile, points, if_pos rfl] at one
  have count := counted.count f
  omega

/-- What the calls do to the file table and the pages of pipes. -/
theorem Counted.change {held' : FileId → Int} {ftable : FileId → File} {pages : Page → Option (Nat × Pipes.Pipe)}
    {made : Nat} {freed : List Nat} (count : ∀ f, (ftable f).ref + held f = (s.ftable f).ref + held' f)
    (closed : ∀ f, (ftable f).ref = 0 → (ftable f).type = .none) (ends : Ends ftable pages)
    (isFreed : Freed pages made freed) : Counted held' ⟨ftable, s.proc, pages, made, freed⟩ := by
  refine ⟨fun f => ?_, closed, ends, isFreed, counted.idle⟩
  have before := counted.count f
  have moved := count f
  change (ftable f).ref = tally (points f) s.descriptor + held' f
  omega

theorem Counted.changeFile {new : File} {pages : Page → Option (Nat × Pipes.Pipe)} {freed : List Nat}
    (closed : new.ref = 0 → new.type = .none) (ends : Ends (update s.ftable f new) pages)
    (isFreed : Freed pages s.made freed) :
    Counted (held + Pi.single f (new.ref - (s.ftable f).ref)) ⟨update s.ftable f new, s.proc, pages, s.made, freed⟩ := by
  refine counted.change (fun g => ?_) (fun g => ?_) ends isFreed
  · by_cases isF : g = f
    · subst isF
      rw [update_self, Pi.add_apply, Pi.single_eq_same]
      omega
    · rw [update_of_ne isF, Pi.add_apply, Pi.single_eq_of_ne isF, add_zero]
  · by_cases isF : g = f
    · rw [isF, update_self]
      exact closed
    · rw [update_of_ne isF]
      exact counted.closed g

/-- A change of a file that is no end of a pipe, or stays the same end. -/
theorem Counted.setFile {new : File}
    (same : ∀ page writable, new.End page writable ↔ (s.ftable f).End page writable)
    (closed : new.ref = 0 → new.type = .none) :
    Counted (held + Pi.single f (new.ref - (s.ftable f).ref)) (s.setFile f new) := by
  refine counted.changeFile closed (counted.ends.congr fun g page writable => ?_) counted.freed
  by_cases isF : g = f
  · rw [isF, update_self]
    exact same page writable
  · rw [update_of_ne isF]

omit counted in
private theorem add_single_neg (f : FileId) : held + Pi.single f (-1) = held - Pi.single f 1 := by
  rw [Pi.single_neg, sub_eq_add_neg]

omit counted in
theorem points_single (f : FileId) : (fun g => points g (some f)) = Pi.single f 1 := by
  funext g
  by_cases isF : g = f
  · rw [isF, Pi.single_eq_same, points, if_pos rfl]
  · rw [Pi.single_eq_of_ne isF, points, if_neg]
    intro same
    exact isF (Option.some.inj same).symm

theorem Counted.setFd {file : Option FileId} (used : (s.proc p).used = true) :
    Counted (fun f => held f + points f ((s.proc p).ofile fd) - points f file) (s.setFd p fd file) := by
  refine ⟨fun f => ?_, counted.closed, counted.ends, counted.freed, fun q isFree => ?_⟩
  · have count := counted.count f
    have moved := tally_update (points f) s.descriptor (p, fd) file
    rw [← descriptor_setFd] at moved
    change (s.ftable f).ref = _
    rw [moved, count, Kernel.descriptor]
    ring
  · have other : q ≠ p := by
      rintro rfl
      rw [Kernel.setFd_self, used] at isFree
      cases isFree
    rw [Kernel.setFd_of_ne _ _ other] at isFree ⊢
    exact counted.idle q isFree

theorem Counted.recount {ref : Int} (inUse : ref ≠ 0) :
    Counted (held + Pi.single f (ref - (s.ftable f).ref)) (s.setFile f { s.ftable f with ref }) := by
  set new := { s.ftable f with ref }
  have same : ∀ page writable, new.End page writable ↔ (s.ftable f).End page writable :=
    fun _ _ => ⟨fun e => ⟨e.type, e.pipe, e.writable⟩, fun e => ⟨e.type, e.pipe, e.writable⟩⟩
  exact counted.setFile same fun isZero => absurd isZero inUse

theorem Counted.alloc (isFree : (s.ftable f).ref = 0) :
    Counted (held + Pi.single f 1) (s.setFile f { s.ftable f with ref := 1 }) := by
  have changed := counted.recount (f := f) one_ne_zero
  rwa [isFree] at changed

/-- A file that is in use and no end of a pipe gets another type. -/
theorem Counted.retype {new : File} (wasNone : (s.ftable f).type ≠ .pipe)
    (notPipe : new.type ≠ .pipe) (ref : new.ref = (s.ftable f).ref) (inUse : new.ref ≠ 0) :
    Counted held (s.setFile f new) := by
  have changed := counted.setFile (f := f)
    (fun page writable => ⟨fun e => absurd e.type notPipe, fun e => absurd e.type wasNone⟩)
    (fun isZero => absurd isZero inUse)
  rwa [ref, sub_self, Pi.single_zero, add_zero] at changed

/-- A pointer that the call has is stored as a descriptor. -/
theorem Counted.store (used : (s.proc p).used = true) (isFree : (s.proc p).ofile fd = none) :
    Counted (held - Pi.single f 1) (s.setFd p fd (some f)) := by
  have stored : Counted _ (s.setFd p fd (some f)) := counted.setFd used
  have isHeld : (fun g => held g + points g ((s.proc p).ofile fd) - points g (some f)) =
      held - Pi.single f 1 := by
    rw [← points_single, isFree]
    funext g
    simp [points]
  rwa [isHeld] at stored

/-- A descriptor is cleared, and the call has its pointer. -/
theorem Counted.clear (used : (s.proc p).used = true) (isFile : (s.proc p).ofile fd = some f) :
    Counted (held + Pi.single f 1) (s.setFd p fd none) := by
  have cleared : Counted _ (s.setFd p fd none) := counted.setFd used
  have isHeld : (fun g => held g + points g ((s.proc p).ofile fd) - points g none) =
      held + Pi.single f 1 := by
    rw [← points_single, isFile]
    funext g
    simp [points]
  rwa [isHeld] at cleared

theorem Counted.setUsed {used : Bool} (closed : used = false → ∀ fd, (s.proc p).ofile fd = none) :
    Counted held (s.setUsed p used) := by
  have same : (s.setUsed p used).descriptor = s.descriptor := by
    funext slot
    by_cases isP : slot.1 = p
    · rw [Kernel.descriptor, isP, Kernel.setUsed_self, Kernel.descriptor, isP]
    · rw [Kernel.descriptor, Kernel.setUsed_of_ne _ isP, Kernel.descriptor]
  refine ⟨fun f => ?_, counted.closed, counted.ends, counted.freed, fun q isFree => ?_⟩
  · rw [same]
    exact counted.count f
  · by_cases isP : q = p
    · rw [isP, Kernel.setUsed_self] at isFree ⊢
      exact closed isFree
    · rw [Kernel.setUsed_of_ne _ isP] at isFree ⊢
      exact counted.idle q isFree

/-- The last reference to an end of a pipe goes, and the end is closed. -/
theorem Counted.closeEnd (isLast : (s.ftable f).ref = 1) (isPipe : (s.ftable f).type = .pipe)
    (isPage : s.page (s.ftable f).pipe = some (n, pipe)) :
    Counted (held - Pi.single f 1)
      ((s.setFile f { s.ftable f with ref := 0, type := .none }).closed (s.ftable f).pipe n (pipe.close (s.ftable f).writable)) := by
  set new : File := { s.ftable f with ref := 0, type := .none }
  have isHeld : held - Pi.single f 1 = held + Pi.single f (new.ref - (s.ftable f).ref) := by
    rw [isLast, ← add_single_neg]
    rfl
  rw [isHeld]
  refine counted.changeFile (fun _ => rfl) (counted.ends.close (File.end_of_pipe isPipe) isPage nofun) ?_
  split
  · exact counted.freed.free isPage
  · exact counted.freed.change isPage _

theorem Counted.openEnds {f0 f1 : FileId} {fresh : Fresh} {new0 new1 : File}
    (differ : f0 ≠ f1) (none0 : (s.ftable f0).type = .none) (none1 : (s.ftable f1).type = .none)
    (isFree : s.page fresh.page = none) (end0 : new0.End fresh.page false) (end1 : new1.End fresh.page true)
    (ref0 : new0.ref = 1 ∧ (s.ftable f0).ref = 1) (ref1 : new1.ref = 1 ∧ (s.ftable f1).ref = 1) :
    Counted held ((({ s.setPage fresh.page (some (s.made, (Pipes.opened fresh.data).pipe)) with
      made := s.made + 1 } : Kernel).setFile f0 new0).setFile f1 new1) := by
  have same : ∀ g, (update (update s.ftable f0 new0) f1 new1 g).ref = (s.ftable g).ref ∧
      ((s.ftable g).ref = 0 → update (update s.ftable f0 new0) f1 new1 g = s.ftable g) := by
    intro g
    by_cases is1 : g = f1
    · simp [is1, ref1]
    · by_cases is0 : g = f0
      · simp [is0, differ, ref0]
      · simp [is0, is1]
  change Counted held ⟨update (update s.ftable f0 new0) f1 new1, s.proc, _, _, s.freed⟩
  refine counted.change (fun g => by rw [(same g).1]) (fun g closed => ?_) ?_ (counted.freed.make isFree _)
  · have wasClosed := (same g).1.symm.trans closed
    rw [(same g).2 wasClosed]
    exact counted.closed g wasClosed
  · refine counted.ends.open differ (by simp [none0]) (by simp [none1]) isFree end0 end1 ?_
    intro writable
    cases writable <;> rfl

/-! ### The functions of `file.c` and `pipe.c` -/

-- The functions do not panic, so what would hold then can be anything.
omit counted in
theorem filealloc_spec {post : Option FileId → Kernel → Prop} (full : post none s)
    (found : ∀ f, (s.ftable f).ref = 0 → post (some f) (s.setFile f { s.ftable f with ref := 1 })) :
    wp filealloc post halts s := by
  simp only [filealloc, wp_bind, wp_get]
  cases isFirst : (List.finRange NFILE).find? fun f => (s.ftable f).ref = 0 with
  | none => exact full
  | some f => exact found f (by simpa using List.find?_some isFirst)

omit counted in
theorem fdalloc_spec {post : Option Fd → Kernel → Prop} (full : post none s)
    (found : ∀ fd, (s.proc p).ofile fd = none → post (some fd) (s.setFd p fd (some f))) :
    wp (fdalloc p f) post halts s := by
  simp only [fdalloc, wp_bind, wp_get]
  cases isFirst : (List.finRange NOFILE).find? fun fd => (s.proc p).ofile fd = none with
  | none => exact full
  | some fd => exact found fd (by simpa using List.find?_some isFirst)

theorem filedup_spec (referenced : 1 ≤ (s.ftable f).ref) :
    wp (filedup f) (fun _ after => Counted (held + Pi.single f 1) after ∧ after.proc = s.proc) halts s := by
  simp only [filedup, setFile, wp_bind, wp_get, wp_ite, wp_halt, wp_modify]
  refine ⟨fun unreferenced => absurd unreferenced (by omega), fun _ => ⟨?_, rfl⟩⟩
  have inUse : (s.ftable f).ref + 1 ≠ 0 := by omega
  simpa using counted.recount (f := f) inUse

omit counted in
theorem pipeclose_spec {writable : Bool} (isPage : s.page page = some (n, pipe)) :
    wp (pipeclose page writable) (fun _ after => after = s.closed page n (pipe.close writable)) halts s := by
  simp only [pipeclose, wp_bind, wp_get, isPage, wp_modify, wp_ite, wp_pure, kfree, Kernel.closed]
  constructor
  · intro unused
    rw [if_pos unused, if_pos unused]
    simp [Kernel.setPage]
  · intro inUse
    rw [if_neg inUse, if_neg inUse]
    rfl

theorem fileclose_spec (referenced : 1 ≤ (s.ftable f).ref) :
    wp (fileclose f) (fun _ after => Counted (held - Pi.single f 1) after ∧ after.proc = s.proc ∧
      ∀ g, g ≠ f → after.ftable g = s.ftable g) halts s := by
  simp only [fileclose, setFile, wp_bind, wp_get, wp_ite, wp_halt, wp_modify]
  refine ⟨fun unreferenced => absurd unreferenced (by omega), fun _ => ⟨fun more => ?_, fun last => ?_⟩⟩
  · refine ⟨?_, rfl, fun g other => Kernel.setFile_of_ne _ other⟩
    simpa [add_single_neg] using counted.recount (f := f) more.ne'
  · have isLast : (s.ftable f).ref = 1 := by omega
    set dropped := s.setFile f { s.ftable f with ref := 0, type := .none }
    have noEnd : (s.ftable f).type ≠ .pipe → Counted (held - Pi.single f 1) dropped := by
      intro notPipe
      have changed : Counted _ dropped := counted.setFile
        (fun page writable => ⟨fun e => (by cases e.type), fun e => absurd e.type notPipe⟩)
        (fun _ => rfl)
      rw [isLast] at changed
      rw [← add_single_neg]
      exact changed
    unfold fileput
    cases isType : (s.ftable f).type with
    | none => exact ⟨noEnd (by simp [isType]), rfl, fun g other => Kernel.setFile_of_ne _ other⟩
    | inode => exact ⟨noEnd (by simp [isType]), rfl, fun g other => Kernel.setFile_of_ne _ other⟩
    | pipe =>
      obtain ⟨n, pipe, isPage, -⟩ := counted.ends.ends f _ _ (File.end_of_pipe isType)
      apply (pipeclose_spec (s := dropped) isPage).mono
      rintro - after rfl
      exact ⟨counted.closeEnd isLast isType isPage, rfl, fun g other => Kernel.setFile_of_ne _ other⟩

omit counted in
/-- Two files that only the call has are closed. -/
theorem fileclose_both {post : Kernel → Prop} {f0 f1 : FileId} (differ : f0 ≠ f1)
    (both : Counted (held + Pi.single f0 1 + Pi.single f1 1) s) (ref0 : (s.ftable f0).ref = 1)
    (ref1 : (s.ftable f1).ref = 1) (closed : ∀ after, Counted held after → after.proc = s.proc → post after) :
    wp (fileclose f0) (fun _ => wp (fileclose f1) (fun _ => post) halts) halts s := by
  apply (fileclose_spec both ref0.ge).mono
  rintro - middle ⟨closed0, proc0, others⟩
  apply (fileclose_spec closed0 (f := f1) (by rw [others f1 differ.symm, ref1])).mono
  rintro - after ⟨closed1, proc1, -⟩
  have isHeld : held + Pi.single f0 1 + Pi.single f1 1 - Pi.single f0 1 - Pi.single f1 1 = held := by abel
  rw [isHeld] at closed1
  exact closed after closed1 (proc1.trans proc0)

theorem pipealloc_spec {fresh : Option Fresh} (isFree : ∀ page ∈ fresh, s.page page.page = none) :
    wp (pipealloc fresh) (fun result after => after.proc = s.proc ∧
      match result with
      | none => Counted held after
      | some (f0, f1) => Counted (held + Pi.single f0 1 + Pi.single f1 1) after ∧ f0 ≠ f1 ∧
          (after.ftable f0).ref = 1 ∧ (after.ftable f1).ref = 1) halts s := by
  rw [pipealloc, wp_bind]
  refine filealloc_spec ⟨rfl, counted⟩ fun f0 free0 => ?_
  have type0 := counted.closed f0 free0
  have counted0 := counted.alloc free0
  set after0 := s.setFile f0 { s.ftable f0 with ref := 1 }
  have at0 : after0.ftable f0 = { s.ftable f0 with ref := 1 } := Kernel.setFile_self ..
  simp only [wp_bind]
  refine filealloc_spec ?_ fun f1 free1 => ?_
  · simp only [wp_bind]
    apply (fileclose_spec counted0 (f := f0) (by rw [at0])).mono
    rintro - after ⟨closed, proc, -⟩
    rw [add_sub_cancel_right] at closed
    exact ⟨proc, closed⟩
  · have type1 := counted0.closed f1 free1
    have differ : f0 ≠ f1 := by
      rintro rfl
      rw [at0] at free1
      cases free1
    have counted1 := counted0.alloc free1
    set after1 := after0.setFile f1 { after0.ftable f1 with ref := 1 }
    have at1 : after1.ftable f1 = { after0.ftable f1 with ref := 1 } := Kernel.setFile_self ..
    have at0' : after1.ftable f0 = { s.ftable f0 with ref := 1 } := by
      rw [Kernel.setFile_of_ne _ differ, at0]
    have ref0 : (after1.ftable f0).ref = 1 := congrArg File.ref at0'
    have ref1 : (after1.ftable f1).ref = 1 := congrArg File.ref at1
    cases fresh with
    | none =>
      simp only [wp_bind]
      exact fileclose_both differ counted1 ref0 ref1 fun after closed proc => ⟨proc, closed⟩
    | some fresh =>
      simp only [pipeinit, setFile, wp_bind, wp_modify, wp_pure]
      have differ' : f1 ≠ f0 := differ.symm
      refine ⟨rfl, ?_, differ, ?_, ?_⟩
      · rw [Kernel.setFile_of_ne _ differ']
        exact counted1.openEnds differ (by rw [at0']; exact type0) (by rw [at1]; exact type1)
          (isFree fresh rfl) ⟨rfl, rfl, rfl⟩ ⟨rfl, rfl, rfl⟩ ⟨ref0, ref0⟩ ⟨ref1, ref1⟩
      · rw [Kernel.setFile_of_ne _ differ, Kernel.setFile_self]
        exact ref0
      · rw [Kernel.setFile_self, Kernel.setFile_of_ne _ differ']
        exact ref1

end

/-! ### System calls -/

abbrev Exact (s : Kernel) : Prop := Counted 0 s

theorem Counted.ref_one (exact_ : Exact s) (isFile : (s.proc p).ofile fd = some f) :
    1 ≤ (s.ftable f).ref := by
  simpa using exact_.ref_pos isFile

theorem argfd_eq_some {number : Int} (isFd : argfd s p number = some (fd, f)) :
    (s.proc p).ofile fd = some f := by
  unfold argfd at isFd
  split at isFd
  · obtain ⟨g, isFile, same⟩ := Option.map_eq_some_iff.mp isFd
    cases same
    exact isFile
  · cases isFd

theorem sysDup_spec (exact_ : Exact s) (used : (s.proc p).used = true) (number : Int) :
    wp (sysDup p number) (fun _ after => Exact after) halts s := by
  simp only [sysDup, wp_bind, wp_get]
  split
  · exact exact_
  · rename_i fd f isFd
    simp only [wp_bind]
    refine fdalloc_spec exact_ fun new isFree => ?_
    simp only [wp_bind]
    apply (filedup_spec (exact_.store used isFree) (f := f) (exact_.ref_one (argfd_eq_some isFd))).mono
    rintro - after ⟨counted, -⟩
    rwa [sub_add_cancel] at counted

theorem sysClose_spec (exact_ : Exact s) (used : (s.proc p).used = true) (number : Int) :
    wp (sysClose p number) (fun _ after => Exact after) halts s := by
  simp only [sysClose, wp_bind, wp_get]
  split
  · exact exact_
  · rename_i fd f isFd
    have isFile := argfd_eq_some isFd
    simp only [setFd, wp_bind, wp_modify]
    apply (fileclose_spec (exact_.clear used isFile) (f := f) (exact_.ref_one isFile)).mono
    rintro - after ⟨counted, -⟩
    rwa [add_sub_cancel_right] at counted

theorem sysOpen_spec (exact_ : Exact s) (used : (s.proc p).used = true) (omode : BitVec 32)
    (ip : Option InodeAddr) : wp (sysOpen p omode ip) (fun _ after => Exact after) halts s := by
  cases ip with
  | none => exact exact_
  | some ip =>
    simp only [sysOpen, wp_bind]
    refine filealloc_spec exact_ fun f isFree => ?_
    have allocated := exact_.alloc isFree
    simp only [wp_bind]
    refine fdalloc_spec ?_ fun fd isFree' => ?_
    · simp only [wp_bind]
      apply (fileclose_spec allocated (f := f) (by rw [Kernel.setFile_self])).mono
      rintro - after ⟨counted, -⟩
      rwa [add_sub_cancel_right] at counted
    · have stored := allocated.store (f := f) used isFree'
      rw [add_sub_cancel_right] at stored
      set before := (s.setFile f { s.ftable f with ref := 1 }).setFd p fd (some f)
      have isFile : before.ftable f = { s.ftable f with ref := 1 } := Kernel.setFile_self ..
      have noEnd : (before.ftable f).type = .none := by
        rw [isFile]
        exact exact_.closed f isFree
      have isOne : (before.ftable f).ref = 1 := congrArg File.ref isFile
      simp only [setFile, wp_bind, wp_modify, wp_pure]
      exact stored.retype (by simp [noEnd]) (by simp) rfl (by simp [isOne])

theorem sysPipe_spec (exact_ : Exact s) (used : (s.proc p).used = true) (fetched : Bool)
    {fresh : Option Fresh} (isFree : ∀ page ∈ fresh, s.page page.page = none) :
    wp (sysPipe p fetched fresh) (fun _ after => Exact after) halts s := by
  rw [sysPipe, wp_ite]
  refine ⟨fun _ => exact_, fun _ => ?_⟩
  apply (pipealloc_spec exact_ isFree).bind
  rintro result before ⟨proc, made⟩
  cases result with
  | none => exact made
  | some files =>
    obtain ⟨rf, wf⟩ := files
    simp only at made
    obtain ⟨counted, differ, ref0, ref1⟩ := made
    have used' : (before.proc p).used = true := by rw [proc, used]
    simp only [wp_bind]
    refine fdalloc_spec ?_ fun fd0 free0 => ?_
    · simp only [wp_bind]
      exact fileclose_both differ counted ref0 ref1 fun _ closed _ => closed
    have stored0 := counted.store (f := rf) used' free0
    set before0 := before.setFd p fd0 (some rf)
    have isProc : before0.proc p = _ := Kernel.setFd_self ..
    have used0 : (before0.proc p).used = true := isProc ▸ used'
    simp only [wp_bind]
    refine fdalloc_spec ?_ fun fd1 free1 => ?_
    · simp only [setFd, wp_bind, wp_modify]
      have isFd : (before0.proc p).ofile fd0 = some rf := by
        rw [isProc]
        exact update_self ..
      have cleared := stored0.clear used0 isFd
      rw [sub_add_cancel] at cleared
      exact fileclose_both differ cleared ref0 ref1 fun _ closed _ => closed
    · have stored1 := stored0.store (f := wf) used0 free1
      have isHeld : 0 + Pi.single rf 1 + Pi.single wf 1 - Pi.single rf 1 - Pi.single wf 1 =
          (0 : FileId → Int) := by abel
      rw [isHeld] at stored1
      exact stored1

/-! ### `fork` and `exit` -/

theorem fork_spec (exact_ : Exact s) {child : Option ProcId} (used : (s.proc p).used = true)
    (isFree : ∀ np ∈ child, (s.proc np).used = false) :
    wp (OpenFiles.fork p child) (fun _ after => Exact after) halts s := by
  cases child with
  | none => exact exact_
  | some child =>
    have wasFree := isFree child rfl
    have differ : p ≠ child := by
      rintro rfl
      rw [used] at wasFree
      cases wasFree
    simp only [OpenFiles.fork, wp_bind, wp_modify, wp_pure]
    -- the child has no descriptors yet from the ones that are left
    apply (wp_forEach (fun done after => Exact after ∧ (after.proc child).used = true ∧
      ∀ fd, fd ∉ done → (after.proc child).ofile fd = none) ?_ ?_).mono
    · rintro - after ⟨counted, -⟩
      exact counted
    · rintro done fd rest after split ⟨counted, usedChild, left⟩
      have isLeft : fd ∉ done := by
        have nodup := List.nodup_finRange NOFILE
        rw [split] at nodup
        intro isDone
        exact (List.nodup_append.mp nodup).2.2 fd isDone fd List.mem_cons_self rfl
      simp only [dupFd, wp_bind, wp_get]
      split
      · refine ⟨counted, usedChild, fun other notDone => left other ?_⟩
        simp only [List.mem_append, not_or] at notDone
        exact notDone.1
      · rename_i f isFile
        simp only [setFd, wp_bind, wp_modify]
        apply (filedup_spec counted (f := f) (counted.ref_one isFile)).mono
        rintro - after' ⟨counted', proc⟩
        rw [← proc] at usedChild left
        have stored := counted'.store (f := f) usedChild (left fd isLeft)
        rw [add_sub_cancel_right] at stored
        refine ⟨stored, by rw [Kernel.setFd_self]; exact usedChild, fun other notDone => ?_⟩
        simp only [List.mem_append, List.mem_singleton, not_or] at notDone
        rw [Kernel.setFd_self]
        exact (update_of_ne notDone.2 _ _).trans (left other notDone.1)
    · refine ⟨exact_.setUsed (by simp), by rw [Kernel.setUsed_self], fun fd _ => ?_⟩
      rw [Kernel.setUsed_self]
      exact exact_.idle child wasFree fd

theorem exit_spec (exact_ : Exact s) (used : (s.proc p).used = true) :
    wp (OpenFiles.exit p) (fun _ after => Exact after)
      (fun halt after => halt = .initExiting ∧ Exact after) s := by
  rw [OpenFiles.exit, wp_ite]
  refine ⟨fun _ => ⟨rfl, exact_⟩, fun _ => ?_⟩
  simp only [wp_bind, wp_modify, wp_pure]
  apply (wp_forEach (fun done after => Exact after ∧ (after.proc p).used = true ∧
    ∀ fd ∈ done, (after.proc p).ofile fd = none) ?_ ?_).mono
  · rintro - after ⟨counted, -, closed⟩
    exact counted.setUsed fun _ fd => closed fd (List.mem_finRange fd)
  · rintro done fd rest after - ⟨counted, used, closed⟩
    simp only [closeFd, wp_bind, wp_get]
    split
    · rename_i isNone
      refine ⟨counted, used, fun other isDone => ?_⟩
      rcases List.mem_append.mp isDone with before | same
      · exact closed other before
      · rw [List.mem_singleton.mp same]
        exact isNone
    · rename_i f isFile
      simp only [setFd, wp_bind, wp_modify]
      apply (fileclose_spec counted (f := f) (counted.ref_one isFile)).mono
      rintro - after' ⟨counted', proc, -⟩
      rw [← proc] at used closed isFile
      have cleared := counted'.clear used isFile
      rw [sub_add_cancel] at cleared
      refine ⟨cleared, by rw [Kernel.setFd_self]; exact used, fun other isDone => ?_⟩
      rw [Kernel.setFd_self]
      by_cases same : other = fd
      · rw [same]
        exact update_self ..
      · refine (update_of_ne same _ _).trans (closed other ?_)
        simpa [same] using isDone
  · exact ⟨exact_, used, by simp⟩

/-! ### Every run -/

structure Sound (m : Machine) : Prop where
  exact_ : Exact m.kernel
  halted : m.halted = none ∨ m.halted = some .initExiting

theorem program_spec (exact_ : Exact s) {call : Call} (enabled : call.enabled s p = true) :
    wp (call.program p) (fun _ after => Exact after)
      (fun halt after => halt = .initExiting ∧ Exact after) s := by
  have used : (s.proc p).used = true := (Bool.and_eq_true_iff.mp enabled).1
  have can := (Bool.and_eq_true_iff.mp enabled).2
  cases call with
  | «open» omode ip => exact sysOpen_spec exact_ used omode ip
  | pipe fetched fresh =>
    simp only [Call.program, wp_bind, wp_pure]
    refine sysPipe_spec exact_ used fetched ?_
    rintro page rfl
    simpa using can
  | dup fd => exact sysDup_spec exact_ used fd
  | close fd => exact sysClose_spec exact_ used fd
  | fork child =>
    refine fork_spec exact_ used ?_
    rintro np rfl
    simpa using can
  | exit => exact exit_spec exact_ used

theorem Sound.next {m m' : Machine} {label : ProcId × Call} (sound : Sound m)
    (stepped : callNext m label = some m') : Sound m' := by
  obtain ⟨⟨-, enabled⟩, ran⟩ := Option.ite_none_right_eq_some.mp stepped
  have spec := program_spec sound.exact_ enabled
  unfold wp at spec
  split at ran
  · rename_i value kernel isRun
    cases ran
    rw [isRun] at spec
    exact ⟨spec, Or.inl rfl⟩
  · rename_i halt kernel isRun
    cases ran
    rw [isRun] at spec
    exact ⟨spec.2, Or.inr (congrArg some spec.1)⟩

theorem boot_sound : Sound boot := by
  refine ⟨⟨fun f => ?_, fun f _ => rfl, ⟨?_, ?_, ?_, ?_⟩, ⟨?_, ?_, ?_, List.nodup_nil, ?_⟩, fun p _ fd => rfl⟩,
    Or.inl rfl⟩
  · have none_ : ∀ slot, points f (boot.kernel.descriptor slot) = 0 := fun slot => if_neg nofun
    simp only [tally, none_, Finset.sum_const_zero, Pi.zero_apply, add_zero]
    rfl
  · rintro f page writable ⟨isPipe, -, -⟩
    cases isPipe
  · intro page n pipe writable isPage
    cases isPage
  · rintro f f' page writable ⟨isPipe, -, -⟩
    cases isPipe
  · intro page n pipe isPage
    cases isPage
  · intro page page' n pipe pipe' isPage
    cases isPage
  · intro page n pipe isPage
    cases isPage
  · simp [boot]
  · simp [boot]

def Kernel.descriptors (s : Kernel) (f : FileId) : Nat :=
  (Finset.univ.filter fun slot : ProcId × Fd => (s.proc slot.1).ofile slot.2 = some f).card

theorem tally_descriptor (s : Kernel) (f : FileId) :
    tally (points f) s.descriptor = s.descriptors f := by
  unfold tally points Kernel.descriptors
  rw [Finset.card_filter, Nat.cast_sum]
  refine Finset.sum_congr rfl fun slot _ => ?_
  rw [Nat.cast_ite, Nat.cast_one, Nat.cast_zero]
  rfl

theorem Counted.ref_eq (exact_ : Exact s) (f : FileId) : (s.ftable f).ref = s.descriptors f := by
  have count := exact_.count f
  rwa [tally_descriptor, Pi.zero_apply, add_zero] at count

theorem Counted.exists_descriptor (exact_ : Exact s) (isPipe : (s.ftable f).type = .pipe) :
    ∃ p fd, (s.proc p).ofile fd = some f := by
  by_contra nowhere
  have isEmpty : s.descriptors f = 0 := by
    unfold Kernel.descriptors
    rw [Finset.card_eq_zero, Finset.filter_eq_empty_iff]
    intro slot _ isFile
    exact nowhere ⟨slot.1, slot.2, isFile⟩
  have closed := exact_.closed f ((exact_.ref_eq f).trans (Int.natCast_eq_zero.mpr isEmpty))
  rw [isPipe] at closed
  cases closed

/-- Whatever calls the processes make, with whatever outcome: the count of every file is the
number of its descriptors, no panic of `file.c` is reached, no descriptor is left of a file
that is not in use, the ends of pipes are open while they have descriptors, and a pipe is
freed once, when both ends are closed. -/
theorem open_files_counted (labels : List (ProcId × Call)) (m : Machine)
    (ran : callSystem.run boot labels = some m) :
    (∀ f, (m.kernel.ftable f).ref = m.kernel.descriptors f) ∧
    m.halted ≠ some .filedup ∧ m.halted ≠ some .fileclose ∧ m.halted ≠ some .noPipe ∧
    (∀ p fd f, (m.kernel.proc p).ofile fd = some f → (m.kernel.ftable f).ref ≠ 0) ∧
    (∀ page n pipe, m.kernel.page page = some (n, pipe) →
      (pipe.readopen = true ↔ ∃ p fd f, (m.kernel.proc p).ofile fd = some f ∧
        (m.kernel.ftable f).End page false) ∧
      (pipe.writeopen = true ↔ ∃ p fd f, (m.kernel.proc p).ofile fd = some f ∧
        (m.kernel.ftable f).End page true) ∧
      (pipe.readopen = true ∨ pipe.writeopen = true)) ∧
    (∀ p fd f, (m.kernel.proc p).ofile fd = some f → (m.kernel.ftable f).type = .pipe →
      m.kernel.page (m.kernel.ftable f).pipe ≠ none) ∧
    m.kernel.freed.Nodup ∧
    ∀ n, n < m.kernel.made →
      (n ∈ m.kernel.freed ↔ ¬ ∃ page pipe, m.kernel.page page = some (n, pipe)) := by
  have sound : Sound m :=
    System.run_preserves Sound (fun _ _ _ sound stepped => sound.next stepped) boot_sound ran
  have exact_ := sound.exact_
  have ends := exact_.ends
  have freed := exact_.freed
  have isOpen : ∀ {page n pipe}, m.kernel.page page = some (n, pipe) → ∀ writable,
      (PipeOpen pipe writable = true ↔ ∃ p fd f, (m.kernel.proc p).ofile fd = some f ∧
        (m.kernel.ftable f).End page writable) := by
    intro page n pipe isPage writable
    constructor
    · intro opened
      obtain ⟨f, isEnd⟩ := ends.opened page n pipe writable isPage opened
      obtain ⟨p, fd, isFile⟩ := exact_.exists_descriptor isEnd.type
      exact ⟨p, fd, f, isFile, isEnd⟩
    · rintro ⟨p, fd, f, -, isEnd⟩
      obtain ⟨n', pipe', isPage', opened⟩ := ends.ends f page writable isEnd
      rw [isPage] at isPage'
      cases isPage'
      exact opened
  have notHalted : ∀ halt, halt ≠ .initExiting → m.halted ≠ some halt := by
    rintro halt other isHalted
    rcases sound.halted with none_ | exiting
    · rw [none_] at isHalted
      cases isHalted
    · rw [exiting] at isHalted
      exact other (Option.some.inj isHalted).symm
  refine ⟨exact_.ref_eq, notHalted _ (by simp), notHalted _ (by simp), notHalted _ (by simp), ?_, ?_, ?_,
    freed.nodup, ?_⟩
  · intro p fd f isFile
    have referenced := exact_.ref_one isFile
    omega
  · intro page n pipe isPage
    refine ⟨isOpen isPage false, isOpen isPage true, ?_⟩
    obtain ⟨writable, opened⟩ := (unused_eq_false_iff pipe).mp (ends.live page n pipe isPage)
    cases writable with
    | false => exact Or.inl opened
    | true => exact Or.inr opened
  · intro p fd f _ isPipe isNone
    obtain ⟨n, pipe, isPage, -⟩ := ends.ends f _ _ (File.end_of_pipe isPipe)
    rw [isNone] at isPage
    cases isPage
  · intro n isMade
    constructor
    · rintro isFreed ⟨page, pipe, isPage⟩
      exact (freed.allocated page n pipe isPage).2 isFreed
    · intro nowhere
      exact (freed.total n isMade).resolve_right nowhere

def child : ProcId := ⟨1, one_lt_NPROC⟩

/-- `initproc` makes a pipe and a child, and closes its ends; the child exits. -/
def pipeShared : List (ProcId × Call) :=
  [(initproc, .pipe true (some ⟨0x1000, fun _ => 0⟩)), (initproc, .fork (some child)),
    (initproc, .close 0), (initproc, .close 1), (child, .exit)]

theorem pipeShared_freed :
    ∃ m, callSystem.run boot pipeShared = some m ∧ m.kernel.made = 1 ∧ m.kernel.freed = [0] ∧
      ¬ ∃ page pipe, m.kernel.page page = some (0, pipe) := by
  have outcome : (callSystem.run boot pipeShared).map
      (fun m : Machine => (m.kernel.made, m.kernel.freed)) = some (1, [0]) := by
    decide +kernel
  obtain ⟨m, ran, isOutcome⟩ := Option.map_eq_some_iff.mp outcome
  simp only [Prod.mk.injEq] at isOutcome
  obtain ⟨made, freed⟩ := isOutcome
  have counted := open_files_counted pipeShared m ran
  refine ⟨m, ran, made, freed, ?_⟩
  exact (counted.2.2.2.2.2.2.2.2 0 (by omega)).mp (by simp [freed])

end Xv6.OpenFiles
