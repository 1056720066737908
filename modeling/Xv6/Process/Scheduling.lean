import Xv6.Process.Machine

/-!
Contract: scheduling is safe on any number of CPUs.

The lock is taken by one thread and released by another: a process that gives up its CPU
leaves it to the scheduler, and that hands it to the next process. The invariant says for
each thread where it is, whether its CPU then has the lock, and what state of the process
goes with it.

Owns: the invariant, that every step keeps it, that the machine carries out the atomic
operations of `Process.Atomic`, and what follows for `c->proc`, `swtch`, `wait` and
`sched`.
-/

namespace Xv6.Process

open Function (update update_of_ne update_self)
open Xv6.Lib Ptable

/-! ### What goes with where a thread is -/

def Point.locked : Point → Bool
  | .out _ => false
  | _ => true

def Loop.locked : Loop → Bool
  | .idle => false
  | _ => true

/-- The process that a CPU has switched to. -/
def Loop.proc : Loop → Option ProcId
  | .swtch p => some p
  | _ => none

/-- What a process is at in `fork`, also when it is interrupted there. -/
def Point.task : Point → Task
  | .out task | .yield task | .wakeup _ task | .sched (.yield task) | .swtch (.yield task) => task
  | .publish np => .ready np
  | _ => .user

def Task.child : Task → Option ProcId
  | .user => none
  | .kalloc np | .copyuvm np | .ready np => some np

/-- The state in which a process calls `sched`. -/
def Resume.Leaves (p : ProcId) (proc : Proc) : Resume → Prop
  | .yield _ => proc.state = .runnable
  | .sleep => proc.state = .sleeping
  | .wait => proc.state = .sleeping ∧ proc.chan = some (.proc p)
  | .exit => proc.state = .zombie
  | .forkret => False

/-- A process that executes on a CPU is running until it is about to leave. The process
`init` never exits. -/
def Executes (init p : ProcId) (point : Point) (proc : Proc) : Prop :=
  match point with
  | .sched resume => resume.Leaves p proc
  | .swtch .exit => False
  | .exit => proc.state = .running ∧ p ≠ init
  | _ => proc.state = .running

/-- A process that executes nowhere is inside `swtch`, or not a process yet. -/
def Parks (p : ProcId) (point : Point) (proc : Proc) : Prop :=
  match proc.state with
  | .running => False
  | .runnable => ∃ resume, point = .swtch resume ∧ resume ≠ .exit
  | .sleeping => point = .swtch .sleep ∨ point = .swtch .wait ∧ proc.chan = some (.proc p)
  | .zombie => point = .swtch .exit
  | .unused | .embryo => point.task = .user

/-- How far the new process of a `fork` by `q` is. -/
def Prepared (t : Ptable) (point : ProcId → Point) (q : ProcId) : Task → Prop
  | .user => True
  | .kalloc np => (t.proc np).state = .embryo ∧ (t.proc np).parent = none
  | .copyuvm np => (t.proc np).state = .embryo ∧ (t.proc np).parent = none ∧
      (t.proc np).kstack = true ∧ point np = .swtch .forkret
  | .ready np => (t.proc np).state = .embryo ∧ (t.proc np).parent = some q ∧
      (t.proc np).kstack = true ∧ (t.proc np).pgdir = true ∧ point np = .swtch .forkret

/-- The process has been made, and it has not been reaped. -/
def Proc.Exists (proc : Proc) : Prop := proc.state ≠ .unused ∧ proc.state ≠ .embryo

/-! ### The invariant -/

structure Settled (t : Ptable) (point : ProcId → Point) : Prop where
  prepared : ∀ q, Prepared t point q (point q).task
  apart : ∀ q q' np, (point q).task.child = some np → (point q').task.child = some np → q = q'
  embryo : ∀ np q, (t.proc np).state = .embryo → (t.proc np).parent = some q →
    (point q).task = .ready np
  unused : ∀ p, (t.proc p).state = .unused → (t.proc p).parent = none
  supplied : ∀ p, (t.proc p).Exists → (t.proc p).kstack = true ∧ (t.proc p).pgdir = true

structure Inv {C : Type} (s : State C) : Prop where
  executes : ∀ c p, s.thread c = some p → s.loop c = .swtch p ∧
    Executes s.table.initproc p (s.point p) (s.table.proc p) ∧ ((s.point p).locked = true ↔ s.lock = some c)
  schedules : ∀ c, s.thread c = none → ((s.loop c).locked = true ↔ s.lock = some c)
  current : ∀ c, s.cpuProc c = (s.loop c).proc
  exclusive : ∀ c c' p, s.loop c = .swtch p → s.loop c' = .swtch p → c = c'
  parks : ∀ p, (∀ c, s.thread c ≠ some p) → Parks p (s.point p) (s.table.proc p)
  settled : Settled s.table s.point
  panicked : s.panicked = none ∨ s.panicked = some .initExiting

variable {C : Type} {s : State C} {c : C} {p : ProcId} {init : ProcId} {place : Point} {proc : Proc}

theorem Executes.running (executes : Executes init p place proc)
    (unlike : ∀ resume, place ≠ .sched resume) :
    proc.state = .running := by
  unfold Executes at executes
  split at executes
  · exact absurd rfl (unlike _)
  · exact executes.elim
  · exact executes.1
  · exact executes

theorem executes_of_running (running : proc.state = .running)
    (unlike : ∀ resume, place ≠ .sched resume) (alive : place ≠ .swtch .exit)
    (exits : place = .exit → p ≠ init) : Executes init p place proc := by
  unfold Executes
  split
  · exact absurd rfl (unlike _)
  · exact absurd rfl alive
  · exact ⟨running, exits rfl⟩
  · exact running

theorem Inv.thread_unique (inv : Inv s) {c' : C} (left : s.thread c = some p)
    (right : s.thread c' = some p) : c = c' :=
  inv.exclusive c c' p (inv.executes c p left).1 (inv.executes c' p right).1

/-- A process that executes elsewhere is running, unless its CPU has the lock. -/
theorem Inv.running_elsewhere (inv : Inv s) {q : ProcId} (on : s.thread c = some q)
    (unlocked : s.lock ≠ some c) : (s.table.proc q).state = .running := by
  obtain ⟨-, executes, locked⟩ := inv.executes c q on
  generalize isPoint : s.point q = point at executes locked
  exact executes.running fun resume isSched => by
    subst isSched
    exact unlocked (locked.mp rfl)

variable {old new : Proc} {lock : Option C}

omit s in
/-- A process on a CPU without the lock goes on as long as it is running. -/
theorem Executes.stays (executes : Executes init p place old)
    (locked : place.locked = true ↔ lock = some c) (unlocked : lock ≠ some c)
    (running : new.state = .running) : Executes init p place new := by
  refine executes_of_running running (fun resume isSched => ?_) (fun isExit => ?_) fun isExit => ?_
  · subst isSched
    exact unlocked (locked.mp rfl)
  · subst isExit
    exact executes
  · subst isExit
    exact executes.2

/-! ### Steps of a process

A step of the process `p` on the CPU `c` changes the table, the lock and where `p` is. -/

/-- What such a step must do to the other processes: those that run go on running, and
those that do not can still be where they are. -/
def Drifts (q : ProcId) (point : Point) (old new : Proc) : Prop :=
  (old.state = .running → new.state = .running) ∧ (Parks q point old → Parks q point new)

variable {books : Books} {ret : ProcId → Int}

omit s in
theorem foreign (mine : lock = none ∨ lock = some c) {c' : C} (unlike : c' ≠ c) : lock ≠ some c' := by
  rintro rfl
  rcases mine with mine | mine
  · cases mine
  · exact unlike (Option.some.inj mine)

theorem Inv.move (inv : Inv s) (on : s.thread c = some p) {a : Point}
    (mine : s.lock = none ∨ s.lock = some c) (mine' : lock = none ∨ lock = some c)
    (locked : a.locked = true ↔ lock = some c) (frame : books.table.initproc = s.table.initproc)
    (executes : Executes s.table.initproc p a (books.table.proc p))
    (drifts : ∀ q, q ≠ p → Drifts q (s.point q) (s.table.proc q) (books.table.proc q))
    (settled : Settled books.table (update s.point p a)) :
    Inv { s with books := books, lock := lock, point := update s.point p a, ret := ret } := by
  refine ⟨?_, ?_, inv.current, inv.exclusive, ?_, settled, inv.panicked⟩
  · intro c' q on'
    change _ ∧ Executes books.table.initproc q (update s.point p a q) (books.table.proc q) ∧
      ((update s.point p a q).locked = true ↔ lock = some c')
    rw [frame]
    by_cases same : c' = c
    · subst same
      have isP : q = p := Option.some.inj (on'.symm.trans on)
      subst isP
      rw [update_self]
      exact ⟨(inv.executes c' q on).1, executes, locked⟩
    · have isOther : q ≠ p := by
        rintro rfl
        exact same (inv.thread_unique on' on)
      obtain ⟨loop, executes', locked'⟩ := inv.executes c' q on'
      have running := inv.running_elsewhere on' (foreign mine same)
      rw [update_of_ne isOther, locked']
      refine ⟨loop, executes'.stays locked' (foreign mine same) ((drifts q isOther).1 running), ?_⟩
      exact iff_of_false (foreign mine same) (foreign mine' same)
  · intro c' idle
    have unlike : c' ≠ c := by
      rintro rfl
      rw [on] at idle
      cases idle
    rw [inv.schedules c' idle]
    exact iff_of_false (foreign mine unlike) (foreign mine' unlike)
  · intro q nowhere
    have isOther : q ≠ p := by
      rintro rfl
      exact nowhere c on
    change Parks q (update s.point p a q) (books.table.proc q)
    rw [update_of_ne isOther]
    exact (drifts q isOther).2 (inv.parks q nowhere)

/-! ### What keeps the table settled -/

variable {t t' : Ptable} {point point' : ProcId → Point} {np : ProcId}

theorem ne_of_state {q : ProcId} {a b : ProcState} (left : (t.proc p).state = a)
    (right : (t.proc q).state = b) (unlike : a ≠ b) : p ≠ q := by
  rintro rfl
  exact unlike (left.symm.trans right)

theorem Settled.child_embryo (settled : Settled t point) {q : ProcId}
    (isChild : (point q).task.child = some np) : (t.proc np).state = .embryo := by
  have prepared := settled.prepared q
  generalize (point q).task = task at isChild prepared
  cases task with
  | user => cases isChild
  | kalloc np' =>
    cases isChild
    exact prepared.1
  | copyuvm np' =>
    cases isChild
    exact prepared.1
  | ready np' =>
    cases isChild
    exact prepared.1

variable {task : Task}

/-- What a new process is like depends only on its slot and on where it will start. -/
theorem Prepared.congr {q : ProcId} (prepared : Prepared t point q task)
    (same : ∀ np, task.child = some np → point' np = point np ∧ (t'.proc np).state = (t.proc np).state ∧ (t'.proc np).parent = (t.proc np).parent ∧ (t'.proc np).kstack = (t.proc np).kstack ∧ (t'.proc np).pgdir = (t.proc np).pgdir) :
    Prepared t' point' q task := by
  cases task with
  | user => trivial
  | kalloc np =>
    obtain ⟨-, state, parent, -⟩ := same np rfl
    exact ⟨state ▸ prepared.1, parent ▸ prepared.2⟩
  | copyuvm np =>
    obtain ⟨starts, state, parent, kstack, -⟩ := same np rfl
    exact ⟨state ▸ prepared.1, parent ▸ prepared.2.1, kstack ▸ prepared.2.2.1,
      starts.trans prepared.2.2.2⟩
  | ready np =>
    obtain ⟨starts, state, parent, kstack, pgdir⟩ := same np rfl
    exact ⟨state ▸ prepared.1, parent ▸ prepared.2.1, kstack ▸ prepared.2.2.1,
      pgdir ▸ prepared.2.2.2.1, starts.trans prepared.2.2.2.2⟩

/-- What may happen to a slot that has no part in a `fork`. A process that still exists
has its stack and its memory, and a free slot has no parent. -/
structure Keeps (old new : Proc) : Prop where
  embryo : new.state = .embryo ↔ old.state = .embryo
  child : old.state = .embryo →
    new.parent = old.parent ∧ new.kstack = old.kstack ∧ new.pgdir = old.pgdir
  unused : new.state = .unused → new.parent = none ∨ old.state = .unused ∧ new.parent = old.parent
  exists_ : new.Exists → old.Exists ∧ new.kstack = old.kstack ∧ new.pgdir = old.pgdir

theorem Keeps.refl (proc : Proc) : Keeps proc proc :=
  ⟨Iff.rfl, fun _ => ⟨rfl, rfl, rfl⟩, fun isUnused => Or.inr ⟨isUnused, rfl⟩,
    fun exists_ => ⟨exists_, rfl, rfl⟩⟩

theorem Settled.keeps (settled : Settled t point) (keeps : ∀ q, Keeps (t.proc q) (t'.proc q))
    (task : ∀ q, (point' q).task = (point q).task)
    (starts : ∀ np, (t.proc np).state = .embryo → point' np = point np) : Settled t' point' := by
  refine ⟨fun q => ?_, fun q q' np => ?_, fun np q isEmbryo isParent => ?_, fun q isUnused => ?_,
    fun q exists_ => ?_⟩
  · rw [task q]
    refine (settled.prepared q).congr fun np isChild => ?_
    have isEmbryo := settled.child_embryo isChild
    exact ⟨starts np isEmbryo, ((keeps np).embryo.mpr isEmbryo).trans isEmbryo.symm,
      (keeps np).child isEmbryo⟩
  · rw [task q, task q']
    exact settled.apart q q' np
  · rw [task q]
    have wasEmbryo := (keeps np).embryo.mp isEmbryo
    rw [((keeps np).child wasEmbryo).1] at isParent
    exact settled.embryo np q wasEmbryo isParent
  · rcases (keeps q).unused isUnused with none | ⟨wasUnused, same⟩
    · exact none
    · exact same.trans (settled.unused q wasUnused)
  · obtain ⟨existed, kstack, pgdir⟩ := (keeps q).exists_ exists_
    rw [kstack, pgdir]
    exact settled.supplied q existed

/-- The process `p` moves on, and forks go on as before. -/
theorem Settled.moves (settled : Settled t point) (keeps : ∀ q, Keeps (t.proc q) (t'.proc q))
    (running : (t.proc p).state = .running) {a : Point} (task : a.task = (point p).task) :
    Settled t' (update point p a) := by
  refine settled.keeps keeps (fun q => ?_) fun np isEmbryo => ?_
  · by_cases isP : q = p
    · rw [isP, update_self]
      exact task
    · rw [update_of_ne isP]
  · exact update_of_ne (ne_of_state isEmbryo running (by decide)) _ _

theorem Settled.slot (np : ProcId) (settled : Settled t point) (running : (t.proc p).state = .running)
    (apart : ∀ q, q ≠ p → (point q).task.child ≠ some np)
    (mine : ∀ np', (point p).task.child = some np' → np' = np)
    (others : ∀ q, q ≠ np → t'.proc q = t.proc q)
    (places : ∀ q, q ≠ p → q ≠ np → point' q = point q)
    (task : ∀ q, q ≠ p → (point' q).task = (point q).task)
    (next : ∀ np', (point' p).task.child = some np' → np' = np)
    (prepared : Prepared t' point' p (point' p).task)
    (embryo : ∀ q, (t'.proc np).state = .embryo → (t'.proc np).parent = some q →
      (point' q).task = .ready np)
    (unused : (t'.proc np).state = .unused → (t'.proc np).parent = none)
    (supplied : (t'.proc np).Exists → (t'.proc np).kstack = true ∧ (t'.proc np).pgdir = true) :
    Settled t' point' := by
  have child : ∀ q, (point' q).task.child = some np → q = p := by
    intro q isChild
    by_contra other
    rw [task q other] at isChild
    exact apart q other isChild
  refine ⟨fun q => ?_, fun q q' np' left right => ?_, fun np' q isEmbryo isParent => ?_,
    fun q isUnused => ?_, fun q exists_ => ?_⟩
  · by_cases isP : q = p
    · rw [isP]
      exact prepared
    · rw [task q isP]
      refine (settled.prepared q).congr fun np' isChild => ?_
      have isOther : np' ≠ np := by
        rintro rfl
        exact apart q isP isChild
      have notP : np' ≠ p := ne_of_state (settled.child_embryo isChild) running (by decide)
      rw [others np' isOther, places np' notP isOther]
      exact ⟨rfl, rfl, rfl, rfl, rfl⟩
  · by_cases isNp : np' = np
    · subst isNp
      rw [child q left, child q' right]
    · have ofP : ∀ q, (point' q).task.child = some np' → q ≠ p := by
        rintro q isChild rfl
        exact isNp (next np' isChild)
      have left' := ofP q left
      have right' := ofP q' right
      rw [task q left'] at left
      rw [task q' right'] at right
      exact settled.apart q q' np' left right
  · by_cases isNp : np' = np
    · subst isNp
      exact embryo q isEmbryo isParent
    · rw [others np' isNp] at isEmbryo isParent
      have ready := settled.embryo np' q isEmbryo isParent
      have notP : q ≠ p := by
        rintro rfl
        exact isNp (mine np' (congrArg Task.child ready))
      rw [task q notP]
      exact ready
  · by_cases isNp : q = np
    · subst isNp
      exact unused isUnused
    · rw [others q isNp] at isUnused ⊢
      exact settled.unused q isUnused
  · by_cases isNp : q = np
    · subst isNp
      exact supplied exists_
    · rw [others q isNp] at exists_ ⊢
      exact settled.supplied q exists_

/-- The new process of `p` is no other's, and its only one. -/
theorem Settled.child (settled : Settled t point) (isChild : (point p).task.child = some np) :
    (∀ q, q ≠ p → (point q).task.child ≠ some np) ∧
      ∀ np', (point p).task.child = some np' → np' = np :=
  ⟨fun q other isChild' => other (settled.apart q p np isChild' isChild),
    fun _ isChild' => Option.some.inj (isChild'.symm.trans isChild)⟩

theorem Settled.allocproc (settled : Settled t point) {pid : Int}
    (running : (t.proc p).state = .running) (user : (point p).task = .user)
    (free : (t.proc np).state = .unused)
    (isTable : t'.proc = (t.set np { t.proc np with state := .embryo, pid }).proc) :
    Settled t' (update point p (.out (.kalloc np))) := by
  have self : t'.proc np = { t.proc np with state := .embryo, pid } := by rw [isTable, set_self]
  have none := settled.unused np free
  refine settled.slot np running (fun q _ isChild => ?_) (fun np' isChild => ?_) (fun q other => ?_)
    (fun q other _ => update_of_ne other _ _) (fun q other => ?_) ?_ ?_ (fun q _ isParent => ?_) ?_ ?_
  -- The slot was nobody's child.
  · exact ne_of_state (settled.child_embryo isChild) free (by decide) rfl
  · rw [user] at isChild
    cases isChild
  · rw [isTable, set_of_ne _ other]
  · rw [update_of_ne other]
  · rw [update_self]
    exact fun np' isChild => (Option.some.inj isChild).symm
  · rw [update_self]
    exact ⟨by rw [self], by rw [self]; exact none⟩
  · rw [self, none] at isParent
    cases isParent
  · rw [self]
    nofun
  · rw [self]
    exact fun exists_ => absurd rfl exists_.2

/-! ### Steps that leave forks alone -/

/-- The process is as before, but it may have been woken or killed. -/
structure Soft (old new : Proc) : Prop where
  state : new.state = old.state ∨ old.state = .sleeping ∧ new.state = .runnable
  chan : new.chan = old.chan
  parent : new.parent = old.parent
  kstack : new.kstack = old.kstack
  pgdir : new.pgdir = old.pgdir

theorem Soft.refl (proc : Proc) : Soft proc proc := ⟨Or.inl rfl, rfl, rfl, rfl, rfl⟩

theorem Soft.of_wakes (wakes : Wakes old new) : Soft old new := by
  rcases wakes with rfl | ⟨sleeps, rfl⟩
  · exact .refl _
  · exact ⟨Or.inr ⟨sleeps, rfl⟩, rfl, rfl, rfl, rfl⟩

theorem Soft.keeps (soft : Soft old new) : Keeps old new := by
  have embryo : new.state = .embryo ↔ old.state = .embryo := by
    rcases soft.state with same | ⟨slept, wakes⟩
    · rw [same]
    · simp [slept, wakes]
  have unused : new.state = .unused ↔ old.state = .unused := by
    rcases soft.state with same | ⟨slept, wakes⟩
    · rw [same]
    · simp [slept, wakes]
  refine ⟨embryo, fun _ => ⟨soft.parent, soft.kstack, soft.pgdir⟩,
    fun isUnused => Or.inr ⟨unused.mp isUnused, soft.parent⟩, fun exists_ => ⟨⟨?_, ?_⟩, soft.kstack, soft.pgdir⟩⟩
  · exact fun isUnused => exists_.1 (unused.mpr isUnused)
  · exact fun isEmbryo => exists_.2 (embryo.mpr isEmbryo)

theorem Soft.drifts (soft : Soft old new) (q : ProcId) (place : Point) :
    Drifts q place old new := by
  rcases soft.state with same | ⟨slept, wakes⟩
  · refine ⟨fun running => same.trans running, fun parks => ?_⟩
    unfold Parks at parks ⊢
    rw [same, soft.chan]
    exact parks
  · refine ⟨fun running => ?_, fun parks => ?_⟩
    · rw [slept] at running
      cases running
    · unfold Parks at parks ⊢
      rw [slept] at parks
      rw [wakes]
      rcases parks with sleeps | ⟨waits, -⟩
      · exact ⟨.sleep, sleeps, by simp⟩
      · exact ⟨.wait, waits, by simp⟩

theorem Soft.kill (t : Ptable) (pid : Int) (q : ProcId) :
    Soft (t.proc q) ((t.kill pid).1.proc q) := by
  rcases t.kill_cases pid with ⟨-, isSame⟩ | ⟨p, -, -, isTable⟩
  · rw [isSame]
    exact .refl _
  · rw [isTable]
    by_cases same : q = p
    · subst same
      rw [set_self]
      refine ⟨?_, rfl, rfl, rfl, rfl⟩
      by_cases sleeps : (t.proc q).state = .sleeping
      · exact Or.inr ⟨sleeps, if_pos sleeps⟩
      · exact Or.inl (if_neg sleeps)
    · rw [set_of_ne _ same]
      exact .refl _

theorem Inv.soft (inv : Inv s) (on : s.thread c = some p) {a : Point}
    (running : (s.table.proc p).state = .running) (mine : s.lock = none ∨ s.lock = some c)
    (mine' : lock = none ∨ lock = some c) (locked : a.locked = true ↔ lock = some c)
    (frame : books.table.initproc = s.table.initproc)
    (executes : Executes s.table.initproc p a (books.table.proc p))
    (task : a.task = (s.point p).task) (self : Keeps (s.table.proc p) (books.table.proc p))
    (others : ∀ q, q ≠ p → Soft (s.table.proc q) (books.table.proc q)) :
    Inv { s with books := books, lock := lock, point := update s.point p a, ret := ret } := by
  refine inv.move on mine mine' locked frame executes (fun q other => (others q other).drifts q _) ?_
  refine inv.settled.moves (fun q => ?_) running task
  by_cases isP : q = p
  · rw [isP]
    exact self
  · exact (others q isP).keeps

/-! ### The steps of a process, one by one -/

/-- The atomic operation that a step of the process `p` stands for. -/
def processOp (t : Ptable) (p : ProcId) : Point → Act → Option Op
  | .out (.kalloc np), .fail => some (.kallocFails np)
  | .out (.kalloc np), .go => some (.kallocWorks np)
  | .out (.copyuvm np), .fail => some (.copyuvmFails np)
  | .out (.copyuvm np), .go => some (.copyuvmWorks np p)
  | .yield _, .go => some (.yield p)
  | .sleep chan, .go => some (.sleep p chan)
  | .wakeup chan _, .go => some (.wakeup chan)
  | .kill pid, .go => some (.kill pid)
  | .allocproc, .go => t.allocproc.map fun found => .allocproc found.2
  | .publish np, .go => some (.publish np p)
  | .exit, .go => some (.exit p)
  | .wait, .go =>
    match t.wait p with
    | .found child => some (.reap p child)
    | .fails => none
    | .sleeps => some (.waitSleeps p)
  | .swtch .sleep, .go | .swtch .wait, .go => some (.tidyUp p)
  | _, _ => none

def schedulerOp : Loop → Act → Option Op
  | .wakeup chan, .go => some (.wakeup chan)
  | .scan i, .go => if inTable : i < NPROC then some (.run ⟨i, inTable⟩) else none
  | _, _ => none

/-- The atomic operation that a step stands for. The scheduler passes over processes that
are not runnable. -/
def State.op (s : State C) (label : C × Act) : Option Op :=
  match s.thread label.1 with
  | some p => processOp s.table p (s.point p) label.2
  | none => schedulerOp (s.loop label.1) label.2

/-- The step has done nothing to the table, or the operation that it stands for. -/
def Carries (s : State C) (op : Option Op) (s' : State C) : Prop :=
  s'.books = s.books ∨ ∃ did, op = some did ∧ s.books.next did = some s'.books

/-- A process at any point but `sched` is running, and its CPU has the lock if the point is
a locked one. -/
theorem Inv.at_ (inv : Inv s) (on : s.thread c = some p) (isPoint : s.point p = place)
    (unlike : ∀ resume, place ≠ .sched resume) :
    (s.table.proc p).state = .running ∧ (place.locked = true ↔ s.lock = some c) := by
  obtain ⟨-, executes, locked⟩ := inv.executes c p on
  rw [isPoint] at executes locked
  exact ⟨executes.running unlike, locked⟩

theorem Executes.exists_ (executes : Executes init p place proc) : proc.Exists := by
  unfold Executes at executes
  split at executes
  · rename_i resume
    cases resume <;> simp only [Resume.Leaves] at executes <;> simp [Proc.Exists, executes]
  · exact executes.elim
  · simp [Proc.Exists, executes.1]
  · simp [Proc.Exists, executes]

/-- A slot that is not a process yet executes nowhere. -/
theorem Inv.nowhere (inv : Inv s) (slot : ¬ (s.table.proc np).Exists) (c : C) :
    s.thread c ≠ some np :=
  fun on => slot (inv.executes c np on).2.1.exists_

theorem Inv.embryo_task (inv : Inv s) (isEmbryo : (s.table.proc np).state = .embryo) :
    (s.point np).task = .user := by
  have parks := inv.parks np (inv.nowhere fun exists_ => exists_.2 isEmbryo)
  rw [Parks, isEmbryo] at parks
  exact parks

variable {s' : State C}

variable {resume : Resume}

section

variable (inv : Inv s) (on : s.thread c = some p)

include inv on

theorem Inv.acquire [DecidableEq C] {a : Point}
    {op : Option Op} (isPoint : s.point p = .out task) (locked : a.locked = true)
    (isTask : a.task = task) (unlike : ∀ resume, a ≠ .sched resume ∧ a ≠ .swtch resume)
    (exits : a = .exit → p ≠ s.table.initproc) (stepped : s.acquire c (State.goTo p a) = some s') :
    Inv s' ∧ Carries s op s' := by
  obtain ⟨running, unlocked⟩ := inv.at_ on isPoint (by simp)
  have free : s.lock ≠ some c := fun isLock => by cases unlocked.mpr isLock
  unfold State.acquire at stepped
  rw [if_neg free] at stepped
  obtain ⟨isFree, rfl⟩ := of_guard stepped
  refine ⟨inv.soft on running (Or.inl isFree) (Or.inr rfl) (by simp [locked]) rfl ?_ ?_ (.refl _)
    fun q _ => .refl _, Or.inl rfl⟩
  · exact executes_of_running running (fun resume => (unlike resume).1) (unlike .exit).2 exits
  · rw [isPoint]
    exact isTask

/-- A section that leaves forks alone and then releases the lock. -/
theorem Inv.releases (isPoint : s.point p = place)
    (unlike : ∀ resume, place ≠ .sched resume) (locked : place.locked = true)
    (isTask : place.task = task) (frame : books.table.initproc = s.table.initproc)
    (running : (books.table.proc p).state = .running)
    (self : Keeps (s.table.proc p) (books.table.proc p))
    (others : ∀ q, q ≠ p → Soft (s.table.proc q) (books.table.proc q)) :
    Inv { s with
      books := books, lock := none, point := update s.point p (.out task), ret := ret } := by
  obtain ⟨wasRunning, isLocked⟩ := inv.at_ on isPoint unlike
  exact inv.soft on wasRunning (Or.inr (isLocked.mp locked)) (Or.inl rfl) (by simp [Point.locked]) frame
    running (by rw [isPoint, isTask]; rfl) self others


theorem Inv.forking (isPoint : s.point p = .out task)
    (isChild : task.child = some np) :
    (s.table.proc p).state = .running ∧ (s.table.proc np).state = .embryo ∧ np ≠ p ∧
      (s.point np).task = .user := by
  have running := (inv.at_ on isPoint (by simp)).1
  have isEmbryo : (s.table.proc np).state = .embryo := by
    apply inv.settled.child_embryo (q := p)
    rw [isPoint]
    exact isChild
  exact ⟨running, isEmbryo, ne_of_state isEmbryo running (by decide), inv.embryo_task isEmbryo⟩

/-- A step of `fork` outside the lock: `p` fills in `np`, or gives it up. -/
theorem Inv.forks {task' : Task} {place : ProcId → Point}
    (isPoint : s.point p = .out task) (isChild : task.child = some np)
    (next : task' = .user ∨ task'.child = some np)
    (slot : new.state = .embryo ∨ new.state = .unused ∧ new.parent = none)
    (embryo : ∀ q, new.parent = some q → q = p ∧ task' = .ready np) (atP : place p = .out task')
    (atNp : (place np).task = .user) (elsewhere : ∀ q, q ≠ p → q ≠ np → place q = s.point q)
    (prepared : Prepared (s.table.set np new) place p task') :
    Inv { s with books := s.books.withTable (s.table.set np new), point := place, ret := ret } := by
  obtain ⟨running, isEmbryo, -, fresh⟩ := inv.forking on isPoint isChild
  refine { inv with executes := ?_, parks := ?_, settled := ?_ }
  · intro c' q on'
    obtain ⟨loop, executes, locked⟩ := inv.executes c' q on'
    have isOther : q ≠ np := by
      rintro rfl
      exact inv.nowhere (fun exists_ => exists_.2 isEmbryo) c' on'
    refine ⟨loop, ?_⟩
    change Executes s.table.initproc q (place q) ((s.table.set np new).proc q) ∧ ((place q).locked = true ↔ _)
    rw [set_of_ne _ isOther]
    by_cases isP : q = p
    · subst isP
      rw [isPoint] at locked
      rw [atP]
      exact ⟨running, locked⟩
    · rw [elsewhere q isP isOther]
      exact ⟨executes, locked⟩
  · intro q nowhere
    have notP : q ≠ p := by
      rintro rfl
      exact nowhere c on
    change Parks q (place q) ((s.table.set np new).proc q)
    by_cases isNp : q = np
    · rw [isNp, set_self]
      unfold Parks
      rcases slot with slot | ⟨slot, -⟩ <;> rw [slot] <;> exact atNp
    · rw [elsewhere q notP isNp, set_of_ne _ isNp]
      exact inv.parks q nowhere
  · change Settled (s.table.set np new) place
    obtain ⟨apart, mine⟩ := inv.settled.child (p := p) (by rw [isPoint]; exact isChild)
    refine inv.settled.slot np running apart mine (fun q other => set_of_ne _ other) elsewhere
      (fun q notP => ?_) ?_ ?_ ?_ ?_ ?_
    · by_cases isNp : q = np
      · rw [isNp, fresh, atNp]
      · rw [elsewhere q notP isNp]
    · rw [atP]
      intro np' isChild'
      rcases next with rfl | same
      · cases isChild'
      · exact Option.some.inj (isChild'.symm.trans same)
    · rw [atP]
      exact prepared
    · intro q _ isParent
      rw [set_self] at isParent
      obtain ⟨rfl, ready⟩ := embryo q isParent
      rw [atP]
      exact ready
    · intro isUnused
      rw [set_self] at isUnused ⊢
      rcases slot with slot | ⟨-, none⟩
      · rw [isUnused] at slot
        cases slot
      · exact none
    · intro exists_
      rw [set_self] at exists_
      rcases slot with slot | ⟨slot, -⟩
      · exact absurd slot exists_.2
      · exact absurd slot exists_.1

/-- A section changes one slot, whose process does not run, and releases the lock. -/
theorem Inv.changesSlot (isPoint : s.point p = place) (unlike : ∀ resume, place ≠ .sched resume)
    (locked : place.locked = true) (rests : (s.table.proc np).state ≠ .running)
    (frame : books.table.initproc = s.table.initproc)
    (others : ∀ q, q ≠ np → books.table.proc q = s.table.proc q)
    (parks : Parks np (s.point np) (s.table.proc np) → Parks np (s.point np) (books.table.proc np))
    (settled : Settled books.table (update s.point p (.out task))) :
    Inv { s with books := books, lock := none, point := update s.point p (.out task), ret := ret } := by
  obtain ⟨running, isLocked⟩ := inv.at_ on isPoint unlike
  refine inv.move on (Or.inr (isLocked.mp locked)) (Or.inl rfl) (by simp [Point.locked]) frame ?_
    (fun q _ => ?_) settled
  · change (books.table.proc p).state = .running
    rw [others p fun same => rests (same ▸ running)]
    exact running
  · by_cases isNp : q = np
    · rw [isNp]
      exact ⟨fun isRunning => absurd isRunning rests, parks⟩
    · rw [others q isNp]
      exact (Soft.refl _).drifts q _

theorem Inv.publish (isPoint : s.point p = .publish np) :
    Inv { s with
      books := s.books.withTable (s.table.setState np .runnable), lock := none
      point := update s.point p (.out .user), ret := ret } := by
  obtain ⟨running, locked⟩ := inv.at_ on isPoint (by simp)
  have prepared := inv.settled.prepared p
  rw [isPoint] at prepared
  obtain ⟨isEmbryo, parent, kstack, pgdir, starts⟩ := prepared
  have self : (s.table.setState np .runnable).proc np = { s.table.proc np with state := .runnable } :=
    set_self ..
  have others : ∀ q, q ≠ np → (s.table.setState np .runnable).proc q = s.table.proc q :=
    fun q other => set_of_ne _ other
  refine inv.changesSlot on isPoint (by simp) rfl (by simp [isEmbryo]) rfl others (fun _ => ?_) ?_
  · change Parks np _ ((s.table.setState np .runnable).proc np)
    rw [self]
    exact ⟨.forkret, starts, by simp⟩
  · change Settled (s.table.setState np .runnable) _
    have isChild : (s.point p).task.child = some np := by rw [isPoint]; rfl
    obtain ⟨apart, mine⟩ := inv.settled.child isChild
    refine inv.settled.slot np running apart mine others (fun q notP _ => update_of_ne notP _ _)
      (fun q notP => by rw [update_of_ne notP]) ?_ ?_ (fun q isEmbryo' => ?_) ?_ ?_
    · rw [update_self]
      nofun
    · rw [update_self]
      trivial
    · rw [self] at isEmbryo'
      cases isEmbryo'
    · rw [self]
      nofun
    · rw [self]
      exact fun _ => ⟨kstack, pgdir⟩

theorem Inv.allocproc {table : Ptable}
    (isPoint : s.point p = .allocproc) (found : s.table.allocproc = some (table, np))
    (isTable : books.table = table) :
    Inv { s with
      books := books, lock := none
      point := update s.point p (.out (.kalloc np)), ret := ret } := by
  obtain ⟨running, locked⟩ := inv.at_ on isPoint (by simp)
  obtain ⟨free, rfl⟩ := allocproc_cases found
  have others : ∀ q, q ≠ np → books.table.proc q = s.table.proc q := fun q other => by
    rw [isTable]
    exact set_of_ne _ other
  refine inv.changesSlot on isPoint (by simp) rfl (by simp [free]) (by rw [isTable]; rfl) others (fun parks => ?_) ?_
  · have new : books.table.proc np = { s.table.proc np with state := .embryo, pid := s.table.nextpid } := by
      rw [isTable]
      exact set_self ..
    rw [new]
    rw [Parks, free] at parks
    exact parks
  · exact inv.settled.allocproc running (by rw [isPoint]; rfl) free (by rw [isTable])

omit on in
/-- A process that exits has no new process in the making. -/
theorem Inv.childless (isPoint : s.point p = .exit) (np : ProcId)
    (isEmbryo : (s.table.proc np).state = .embryo) : (s.table.proc np).parent ≠ some p := by
  intro isParent
  have ready := inv.settled.embryo np p isEmbryo isParent
  rw [isPoint] at ready
  cases ready

theorem Inv.exit (isPoint : s.point p = .exit) :
    Inv ((s.withTable (s.table.exit p)).goTo p (.sched .exit)) := by
  obtain ⟨running, locked⟩ := inv.at_ on isPoint (by simp)
  have exited := s.table.exited p
  have isLock := locked.mp rfl
  change Inv { s with
    books := s.books.withTable (s.table.exit p), point := update s.point p (.sched .exit) }
  refine inv.move on (Or.inr isLock) (Or.inr isLock) ⟨fun _ => isLock, fun _ => rfl⟩ exited.frame.1
    exited.ends (fun q other => ?_) ?_
  · obtain ⟨proc, wakes, isProc⟩ := exited.others q
    change Drifts q _ _ ((s.table.exit p).proc q)
    have drifts := (Soft.of_wakes wakes).drifts q (s.point q)
    rw [isProc, if_neg other]
    exact drifts
  · change Settled (s.table.exit p) _
    refine inv.settled.moves (fun q => ?_) running (by rw [isPoint]; rfl)
    obtain ⟨proc, wakes, isProc⟩ := exited.others q
    have keeps := (Soft.of_wakes wakes).keeps
    by_cases isP : q = p
    · subst isP
      rw [isProc, if_pos rfl]
      have exists_ : (s.table.proc q).Exists := by simp [Proc.Exists, running]
      refine ⟨by simp [running], fun isEmbryo => ?_, fun isUnused => (by cases isUnused), fun _ => ?_⟩
      · rw [running] at isEmbryo
        cases isEmbryo
      · exact ⟨exists_, (Soft.of_wakes wakes).kstack, (Soft.of_wakes wakes).pgdir⟩
    · rw [isProc, if_neg isP]
      refine ⟨keeps.embryo, fun isEmbryo => ?_, fun isUnused => ?_, keeps.exists_⟩
      · obtain ⟨parent, kstack, pgdir⟩ := keeps.child isEmbryo
        refine ⟨?_, kstack, pgdir⟩
        simp only
        rw [parent, if_neg (inv.childless isPoint q isEmbryo)]
      · left
        rcases keeps.unused isUnused with none | ⟨wasUnused, same⟩
        · simp [none]
        · simp [same, inv.settled.unused q wasUnused]

theorem Inv.reap {child : ProcId}
    (isPoint : s.point p = .wait) (found : s.table.wait p = .found child) :
    Inv { s with
      books := s.books.reap child, lock := none
      point := update s.point p (.out .user), ret := ret } := by
  obtain ⟨running, locked⟩ := inv.at_ on isPoint (by simp)
  obtain ⟨-, isZombie⟩ := wait_found found
  have self : (s.books.reap child).table.proc child = Ptable.reaped (s.table.proc child) := set_self ..
  have others : ∀ q, q ≠ child → (s.books.reap child).table.proc q = s.table.proc q := fun q other =>
    set_of_ne _ other
  refine inv.changesSlot on isPoint (by simp) rfl (by simp [isZombie]) rfl others (fun parks => ?_)
    (inv.settled.moves (fun q => ?_) running (by rw [isPoint]; rfl))
  · rw [self]
    rw [Parks, isZombie] at parks
    change (s.point child).task = .user
    rw [parks]
    rfl
  · by_cases isChild : q = child
    · subst isChild
      rw [self]
      refine ⟨by simp [Ptable.reaped, isZombie], fun isEmbryo => ?_, fun _ => Or.inl rfl,
        fun exists_ => absurd rfl exists_.1⟩
      rw [isZombie] at isEmbryo
      cases isEmbryo
    · rw [others q isChild]
      exact .refl _

omit inv on in
theorem keeps_of_running (running : old.state = .running)
    (stays : new.state ≠ .unused ∧ new.state ≠ .embryo) (parent : new.parent = old.parent)
    (kstack : new.kstack = old.kstack) (pgdir : new.pgdir = old.pgdir) : Keeps old new := by
  refine ⟨by simp [running, stays.2], fun isEmbryo => ?_, fun isUnused => absurd isUnused stays.1,
    fun _ => ⟨by simp [Proc.Exists, running], kstack, pgdir⟩⟩
  exact ⟨parent, kstack, pgdir⟩

/-- A process changes its own slot and goes on to `sched`, still with the lock. -/
theorem Inv.leaves (isPoint : s.point p = place)
    (unlike : ∀ resume, place ≠ .sched resume) (locked : place.locked = true)
    (isTask : (Point.sched resume).task = place.task) (leaves : resume.Leaves p new)
    (parent : new.parent = (s.table.proc p).parent) (kstack : new.kstack = (s.table.proc p).kstack)
    (pgdir : new.pgdir = (s.table.proc p).pgdir) :
    Inv ((s.withTable (s.table.set p new)).goTo p (.sched resume)) := by
  obtain ⟨running, isLocked⟩ := inv.at_ on isPoint unlike
  have isLock := isLocked.mp locked
  have self : (s.table.set p new).proc p = new := set_self ..
  have exists_ : new.Exists := (show Executes p p (.sched resume) new from leaves).exists_
  refine inv.soft on running (Or.inr isLock) (Or.inr isLock) ⟨fun _ => isLock, fun _ => rfl⟩ rfl ?_
    (by rw [isPoint]; exact isTask) ?_ fun q other => ?_
  · change resume.Leaves p ((s.table.set p new).proc p)
    rw [self]
    exact leaves
  · change Keeps _ ((s.table.set p new).proc p)
    rw [self]
    exact keeps_of_running running exists_ parent kstack pgdir
  · change Soft _ ((s.table.set p new).proc q)
    rw [set_of_ne _ other]
    exact .refl _

theorem Inv.tidyUp {a : Point}
    (isPoint : s.point p = .swtch resume) (isTask : a.task = (Point.swtch resume).task)
    (unlike : ∀ resume, a ≠ .sched resume ∧ a ≠ .swtch resume) (exits : a ≠ .exit)
    (mine : lock = none ∨ lock = some c) (locked : a.locked = true ↔ lock = some c) :
    Inv { s with
      books := s.books.withTable (s.table.tidyUp p), lock := lock
      point := update s.point p a } ∧
      s.books.next (.tidyUp p) = some (s.books.withTable (s.table.tidyUp p)) := by
  obtain ⟨running, isLocked⟩ := inv.at_ on isPoint (by simp)
  have self : (s.table.tidyUp p).proc p = { s.table.proc p with chan := none } := set_self ..
  refine ⟨inv.soft on running (Or.inr (isLocked.mp rfl)) mine locked rfl ?_ (by rw [isPoint, isTask]) ?_
    fun q other => ?_, if_pos running⟩
  · change Executes s.table.initproc p a ((s.table.tidyUp p).proc p)
    rw [self]
    exact executes_of_running running (fun resume => (unlike resume).1) (unlike .exit).2
      fun isExit => absurd isExit exits
  · change Keeps _ ((s.table.tidyUp p).proc p)
    rw [self]
    exact keeps_of_running running (by simp [running]) rfl rfl rfl
  · change Soft _ ((s.table.tidyUp p).proc q)
    rw [Ptable.tidyUp, set_of_ne _ other]
    exact .refl _

theorem Inv.fails (isPoint : s.point p = .out task)
    (isChild : task.child = some np) (slot : new.state = .unused) (parent : new.parent = none) :
    Inv ((s.withTable (s.table.set np new)).returns p (-1)) := by
  obtain ⟨-, -, unlike, fresh⟩ := inv.forking on isPoint isChild
  refine inv.forks on isPoint isChild (Or.inl rfl) (Or.inr ⟨slot, parent⟩) (fun q isParent => ?_)
    (update_self ..) ?_ (fun q notP _ => update_of_ne notP _ _) trivial
  · rw [parent] at isParent
    cases isParent
  · change (update s.point p _ np).task = _
    rw [update_of_ne unlike]
    exact fresh

theorem Inv.kallocWorks (isPoint : s.point p = .out (.kalloc np)) :
    Inv (((s.withTable (s.table.kallocWorks np)).goTo np (.swtch .forkret)).goTo p
      (.out (.copyuvm np))) := by
  obtain ⟨-, isEmbryo, unlike, fresh⟩ := inv.forking on isPoint rfl
  have prepared := inv.settled.prepared p
  rw [isPoint] at prepared
  have atNp : update (update s.point np (.swtch .forkret)) p (.out (.copyuvm np)) np =
      .swtch .forkret := by
    rw [update_of_ne unlike, update_self]
  refine inv.forks on isPoint rfl (Or.inr rfl) (Or.inl isEmbryo) (fun q isParent => ?_)
    (update_self ..) ?_ (fun q notP notNp => ?_) ⟨?_, ?_, ?_, atNp⟩
  · rw [prepared.2] at isParent
    cases isParent
  · exact congrArg Point.task atNp
  · exact (update_of_ne notP _ _).trans (update_of_ne notNp _ _)
  · rw [set_self]
    exact isEmbryo
  · rw [set_self]
    exact prepared.2
  · rw [set_self]

theorem Inv.copyuvmWorks (isPoint : s.point p = .out (.copyuvm np)) :
    Inv ((s.withTable (s.table.copyuvmWorks np p)).goTo p (.out (.ready np))) := by
  obtain ⟨-, isEmbryo, unlike, fresh⟩ := inv.forking on isPoint rfl
  have prepared := inv.settled.prepared p
  rw [isPoint] at prepared
  obtain ⟨-, -, kstack, starts⟩ := prepared
  have atNp : update s.point p (.out (.ready np)) np = .swtch .forkret := by
    rw [update_of_ne unlike]
    exact starts
  refine inv.forks on isPoint rfl (Or.inr rfl) (Or.inl isEmbryo) (fun q isParent => ?_)
    (update_self ..) ?_ (fun q notP _ => update_of_ne notP _ _) ⟨?_, ?_, ?_, ?_, atNp⟩
  · exact ⟨(Option.some.inj isParent).symm, rfl⟩
  · exact congrArg Point.task atNp
  · rw [set_self]
    exact isEmbryo
  · rw [set_self]
  · rw [set_self]
    exact kstack
  · rw [set_self]

end

/-! ### Between the scheduler and the processes -/

theorem Resume.Leaves.parks (leaves : resume.Leaves p proc) : Parks p (.swtch resume) proc := by
  unfold Parks
  cases resume with
  | yield task =>
    rw [show proc.state = .runnable from leaves]
    exact ⟨_, rfl, by simp⟩
  | sleep =>
    rw [show proc.state = .sleeping from leaves]
    exact Or.inl rfl
  | wait =>
    rw [leaves.1]
    exact Or.inr ⟨rfl, leaves.2⟩
  | exit => rw [show proc.state = .zombie from leaves]
  | forkret => exact leaves.elim

theorem Resume.Leaves.not_running (leaves : resume.Leaves p proc) : proc.state ≠ .running := by
  intro running
  have parks := leaves.parks
  rw [Parks, running] at parks
  exact parks

variable [DecidableEq C]

theorem Inv.sched (inv : Inv s) (on : s.thread c = some p) (isPoint : s.point p = .sched resume) :
    s.lock = some c ∧ (s.table.proc p).state ≠ .running ∧ Inv (s.sched c p resume) ∧
      (s.sched c p resume).books = s.books := by
  obtain ⟨loop, executes, locked⟩ := inv.executes c p on
  rw [isPoint] at executes locked
  have leaves : resume.Leaves p (s.table.proc p) := executes
  have isLock := locked.mp rfl
  have isSched : s.sched c p resume = { s.goTo p (.swtch resume) with
      thread := update s.thread c none } := by
    rw [State.sched, if_neg (by simp [isLock]), if_neg leaves.not_running]
  have embryo : ∀ np, (s.table.proc np).state = .embryo → np ≠ p := by
    rintro np isEmbryo rfl
    exact executes.exists_.2 isEmbryo
  refine ⟨isLock, leaves.not_running, ?_, by rw [isSched]; rfl⟩
  rw [isSched]
  refine { inv with executes := ?_, schedules := ?_, parks := ?_, settled := ?_ }
  · intro c' q on'
    change update s.thread c none c' = some q at on'
    by_cases same : c' = c
    · rw [same, update_self] at on'
      cases on'
    · rw [update_of_ne same] at on'
      have isOther : q ≠ p := by
        rintro rfl
        exact same (inv.thread_unique on' on)
      obtain ⟨loop', executes', locked'⟩ := inv.executes c' q on'
      refine ⟨loop', ?_⟩
      change Executes s.table.initproc q (update s.point p _ q) (s.table.proc q) ∧
        ((update s.point p _ q).locked = true ↔ _)
      rw [update_of_ne isOther]
      exact ⟨executes', locked'⟩
  · intro c' idle
    change update s.thread c none c' = none at idle
    by_cases same : c' = c
    · subst same
      change ((s.loop c').locked = true ↔ s.lock = some c')
      rw [loop]
      simp [Loop.locked, isLock]
    · rw [update_of_ne same] at idle
      exact inv.schedules c' idle
  · intro q nowhere
    change Parks q (update s.point p (.swtch resume) q) (s.table.proc q)
    by_cases isP : q = p
    · subst isP
      rw [update_self]
      exact leaves.parks
    · rw [update_of_ne isP]
      refine inv.parks q fun c' on' => nowhere c' ?_
      change update s.thread c none c' = some q
      have unlike : c' ≠ c := by
        rintro rfl
        exact isP (Option.some.inj (on'.symm.trans on))
      rw [update_of_ne unlike]
      exact on'
  · refine inv.settled.keeps (fun q => .refl _) (fun q => ?_) fun np isEmbryo =>
      update_of_ne (embryo np isEmbryo) _ _
    change (update s.point p (.swtch resume) q).task = _
    by_cases isP : q = p
    · rw [isP, update_self, isPoint]
      cases resume <;> rfl
    · rw [update_of_ne isP]

/-- The scheduler moves on, and may take or release the lock. -/
theorem Inv.loops (inv : Inv s) (idle : s.thread c = none) {l : Loop} {cpus : C → Option ProcId}
    (mine : s.lock = none ∨ s.lock = some c) (mine' : lock = none ∨ lock = some c)
    (locked : l.locked = true ↔ lock = some c) (none : l.proc = none)
    (isNone : cpus c = Option.none) (others : ∀ c', c' ≠ c → cpus c' = s.cpuProc c')
    (frame : books.table.initproc = s.table.initproc)
    (soft : ∀ q, Soft (s.table.proc q) (books.table.proc q)) :
    Inv { s with books := books, lock := lock, loop := update s.loop c l, cpuProc := cpus } := by
  have busy : ∀ {c' q}, s.thread c' = some q → c' ≠ c := by
    rintro c' q on rfl
    rw [idle] at on
    cases on
  have swtch : ∀ {c' q}, update s.loop c l c' = .swtch q → c' ≠ c ∧ s.loop c' = .swtch q := by
    intro c' q isLoop
    by_cases same : c' = c
    · rw [same, update_self] at isLoop
      rw [isLoop] at none
      cases none
    · rw [update_of_ne same] at isLoop
      exact ⟨same, isLoop⟩
  refine { inv with executes := ?_, schedules := ?_, current := ?_, exclusive := ?_, parks := ?_, settled := ?_ }
  · intro c' q on
    obtain ⟨loop, executes, locked'⟩ := inv.executes c' q on
    have unlike := busy on
    refine ⟨?_, ?_, ?_⟩
    · exact (update_of_ne unlike _ _).trans loop
    · have running := inv.running_elsewhere on (foreign mine unlike)
      change Executes books.table.initproc q (s.point q) (books.table.proc q)
      rw [frame]
      exact executes.stays locked' (foreign mine unlike) (((soft q).drifts q (s.point q)).1 running)
    · rw [locked']
      exact iff_of_false (foreign mine unlike) (foreign mine' unlike)
  · intro c' idle'
    change (update s.loop c l c').locked = true ↔ lock = some c'
    by_cases same : c' = c
    · rw [same, update_self]
      exact locked
    · rw [update_of_ne same, inv.schedules c' idle']
      exact iff_of_false (foreign mine same) (foreign mine' same)
  · intro c'
    change cpus c' = (update s.loop c l c').proc
    by_cases same : c' = c
    · rw [same, update_self, none, isNone]
    · rw [update_of_ne same, others c' same]
      exact inv.current c'
  · intro c' c'' q left right
    exact inv.exclusive c' c'' q (swtch left).2 (swtch right).2
  · intro q nowhere
    exact ((soft q).drifts q _).2 (inv.parks q nowhere)
  · exact inv.settled.keeps (fun q => (soft q).keeps) (fun _ => rfl) fun _ _ => rfl

theorem Inv.dispatch (inv : Inv s) (idle : s.thread c = none) (isLock : s.lock = some c)
    (runnable : (s.table.proc p).state = .runnable) : Inv (s.dispatch c p) := by
  have foreign : ∀ {c'}, c' ≠ c → s.lock ≠ some c' := fun unlike => foreign (Or.inr isLock) unlike
  -- A CPU that still has `p` would have the lock.
  have alone : ∀ c', c' ≠ c → s.loop c' ≠ .swtch p := by
    intro c' unlike isLoop
    cases thread : s.thread c' with
    | none =>
      apply foreign unlike
      apply (inv.schedules c' thread).mp
      rw [isLoop]
      rfl
    | some q =>
      have loop := (inv.executes c' q thread).1
      rw [isLoop] at loop
      cases loop
      have running := inv.running_elsewhere thread (foreign unlike)
      rw [runnable] at running
      cases running
  have nowhere : ∀ c', s.thread c' ≠ some p := by
    intro c' on
    by_cases same : c' = c
    · rw [same, idle] at on
      cases on
    · exact alone c' same (inv.executes c' p on).1
  obtain ⟨resume, isPoint, unlike⟩ : ∃ resume, s.point p = .swtch resume ∧ resume ≠ .exit := by
    have parks := inv.parks p nowhere
    rw [Parks, runnable] at parks
    exact parks
  have table : (s.dispatch c p).table = s.table.setState p .running := rfl
  refine { inv with executes := ?_, schedules := ?_, current := ?_, exclusive := ?_, parks := ?_, settled := ?_ }
  · intro c' q on
    change update s.thread c (some p) c' = some q at on
    rw [table]
    change update s.loop c (.swtch p) c' = .swtch q ∧
      Executes s.table.initproc q (s.point q) _ ∧
      ((s.point q).locked = true ↔ s.lock = some c')
    by_cases same : c' = c
    · subst same
      rw [update_self] at on
      cases on
      rw [update_self, isPoint, setState, set_self]
      exact ⟨rfl, executes_of_running rfl (by simp) (by simpa using unlike) (by simp),
        by simp [Point.locked, isLock]⟩
    · rw [update_of_ne same] at on
      have isOther : q ≠ p := by
        rintro rfl
        exact nowhere c' on
      rw [update_of_ne same, setState, set_of_ne _ isOther]
      exact inv.executes c' q on
  · intro c' idle'
    change update s.thread c (some p) c' = none at idle'
    by_cases same : c' = c
    · rw [same, update_self] at idle'
      cases idle'
    · rw [update_of_ne same] at idle'
      change (update s.loop c (.swtch p) c').locked = true ↔ s.lock = some c'
      rw [update_of_ne same]
      exact inv.schedules c' idle'
  · intro c'
    change update s.cpuProc c (some p) c' = (update s.loop c (.swtch p) c').proc
    by_cases same : c' = c
    · rw [same, update_self, update_self]
      rfl
    · rw [update_of_ne same, update_of_ne same]
      exact inv.current c'
  · intro c' c'' q left right
    change update s.loop c (.swtch p) c' = .swtch q at left
    change update s.loop c (.swtch p) c'' = .swtch q at right
    by_cases first : c' = c
    · rw [first, update_self] at left
      cases left
      by_cases second : c'' = c
      · rw [first, second]
      · rw [update_of_ne second] at right
        exact absurd right (alone c'' second)
    · rw [update_of_ne first] at left
      by_cases second : c'' = c
      · rw [second, update_self] at right
        cases right
        exact absurd left (alone c' first)
      · rw [update_of_ne second] at right
        exact inv.exclusive c' c'' q left right
  · intro q nowhere'
    have isOther : q ≠ p := by
      rintro rfl
      exact nowhere' c (update_self ..)
    rw [table, setState, set_of_ne _ isOther]
    refine inv.parks q fun c' on => nowhere' c' ?_
    change update s.thread c (some p) c' = some q
    have unlike : c' ≠ c := by
      rintro rfl
      rw [idle] at on
      cases on
    rw [update_of_ne unlike]
    exact on
  · rw [table]
    refine inv.settled.keeps (fun q => ?_) (fun _ => rfl) fun _ _ => rfl
    by_cases isP : q = p
    · subst isP
      rw [setState, set_self]
      refine ⟨by simp [runnable], fun isEmbryo => ?_, fun isUnused => (by cases isUnused), fun _ => ?_⟩
      · rw [runnable] at isEmbryo
        cases isEmbryo
      · exact ⟨by simp [Proc.Exists, runnable], rfl, rfl⟩
    · rw [setState, set_of_ne _ isP]
      exact .refl _

/-! ### Every step -/

theorem release_eq (isLock : s.lock = some c) (next : State C → State C) :
    s.release c next = next { s with lock := none } := if_pos isLock

theorem release_books (isLock : s.lock = some c) (books : Books) (next : State C → State C) :
    State.release { s with books } c next = next { s with books, lock := none } := if_pos isLock

theorem Inv.process (inv : Inv s) (on : s.thread c = some p) {act : Act}
    (stepped : s.process c p act = some s') :
    Inv s' ∧ Carries s (processOp s.table p (s.point p) act) s' := by
  have isLock : ∀ {place}, s.point p = place → (∀ resume, place ≠ .sched resume) →
      place.locked = true → s.lock = some c := fun isPoint unlike locked =>
    (inv.at_ on isPoint unlike).2.mp locked
  have running : ∀ {place}, s.point p = place → (∀ resume, place ≠ .sched resume) →
      (s.table.proc p).state = .running := fun isPoint unlike => (inv.at_ on isPoint unlike).1
  have prepared := inv.settled.prepared p
  unfold State.process at stepped
  split at stepped
  -- The lock is taken.
  · exact inv.acquire on ‹_› rfl rfl (by simp) (by simp) stepped
  · exact inv.acquire on ‹_› rfl rfl (by simp) (by simp) stepped
  · exact inv.acquire on ‹_› rfl rfl (by simp) (by simp) stepped
  · exact inv.acquire on ‹_› rfl rfl (by simp) (by simp) stepped
  · exact inv.acquire on ‹_› rfl rfl (by simp) (by simp) stepped
  · exact inv.acquire on ‹_› rfl rfl (by simp) (by simp) stepped
  · split at stepped
    · cases stepped
      exact ⟨{ inv with panicked := Or.inr rfl }, Or.inl rfl⟩
    · rename_i other
      exact inv.acquire on ‹_› rfl rfl (by simp) (fun _ => other) stepped
  -- `fork` outside the lock.
  · rename_i np isPoint
    cases stepped
    rw [isPoint] at prepared
    exact ⟨inv.fails on isPoint rfl rfl prepared.2, Or.inr ⟨.kallocFails np, by rw [isPoint]; rfl, if_pos prepared⟩⟩
  · rename_i np isPoint
    cases stepped
    rw [isPoint] at prepared
    exact ⟨inv.kallocWorks on isPoint, Or.inr ⟨.kallocWorks np, by rw [isPoint]; rfl, if_pos prepared.1⟩⟩
  · rename_i np isPoint
    cases stepped
    rw [isPoint] at prepared
    obtain ⟨isEmbryo, none, -⟩ := prepared
    exact ⟨inv.fails on isPoint rfl rfl none, Or.inr ⟨.copyuvmFails np, by rw [isPoint]; rfl, if_pos ⟨isEmbryo, none⟩⟩⟩
  · rename_i np isPoint
    cases stepped
    rw [isPoint] at prepared
    exact ⟨inv.copyuvmWorks on isPoint,
      Or.inr ⟨.copyuvmWorks np p, by rw [isPoint]; rfl, if_pos ⟨prepared.1, running isPoint (by simp)⟩⟩⟩
  · exact inv.acquire on ‹_› rfl rfl (by simp) (by simp) stepped
  -- The sections.
  · rename_i task isPoint
    cases stepped
    have yields := running isPoint (by simp)
    exact ⟨inv.leaves on isPoint (by simp) rfl rfl rfl rfl rfl rfl, Or.inr ⟨.yield p, by rw [isPoint]; rfl, if_pos yields⟩⟩
  · rename_i chan isPoint
    cases stepped
    have sleeps := running isPoint (by simp)
    exact ⟨inv.leaves on isPoint (by simp) rfl rfl rfl rfl rfl rfl, Or.inr ⟨.sleep p chan, by rw [isPoint]; rfl, if_pos sleeps⟩⟩
  · rename_i chan task isPoint
    cases stepped
    rw [State.withTable, release_books (isLock isPoint (by simp) rfl)]
    have soft : ∀ q, Soft (s.table.proc q) ((s.table.wakeup1 (some (.other chan))).proc q) := fun q =>
      .of_wakes (wakes_wakeup1 _ q)
    refine ⟨inv.releases on isPoint (by simp) rfl rfl rfl ?_ (soft p).keeps fun q _ => soft q,
      Or.inr ⟨.wakeup chan, by rw [isPoint]; rfl, rfl⟩⟩
    exact ((soft p).drifts p (s.point p)).1 (running isPoint (by simp))
  · rename_i pid isPoint
    cases stepped
    rw [release_books (isLock isPoint (by simp) rfl)]
    have soft : ∀ q, Soft (s.table.proc q) ((s.table.kill pid).1.proc q) := Soft.kill s.table pid
    refine ⟨inv.releases on isPoint (by simp) rfl rfl (kill_frame pid).1 ?_ (soft p).keeps fun q _ =>
      soft q, Or.inr ⟨.kill pid, by rw [isPoint]; rfl, rfl⟩⟩
    exact ((soft p).drifts p (s.point p)).1 (running isPoint (by simp))
  · rename_i isPoint
    cases stepped
    unfold State.allocprocSection
    split
    · rw [release_eq (isLock isPoint (by simp) rfl)]
      exact ⟨inv.releases on isPoint (by simp) rfl rfl rfl (running isPoint (by simp)) (.refl _) fun q _ =>
        .refl _, Or.inl rfl⟩
    · rename_i table np found
      rw [release_books (isLock isPoint (by simp) rfl)]
      refine ⟨inv.allocproc on isPoint found rfl, Or.inr ⟨.allocproc np, ?_, ?_⟩⟩
      · rw [isPoint, processOp, found]
        rfl
      · change (s.table.allocproc).bind _ = _
        rw [found]
        exact if_pos rfl
  · rename_i np isPoint
    cases stepped
    rw [isPoint] at prepared
    rw [State.withTable, release_books (isLock isPoint (by simp) rfl)]
    exact ⟨inv.publish on isPoint,
      Or.inr ⟨.publish np p, by rw [isPoint]; rfl, if_pos ⟨prepared.1, prepared.2.1, running isPoint (by simp)⟩⟩⟩
  · rename_i isPoint
    cases stepped
    have executes := (inv.executes c p on).2.1
    rw [isPoint] at executes
    obtain ⟨runs, leaves⟩ := executes
    exact ⟨inv.exit on isPoint, Or.inr ⟨.exit p, by rw [isPoint]; rfl, if_pos ⟨runs, leaves, inv.childless isPoint⟩⟩⟩
  · rename_i isPoint
    cases stepped
    unfold State.waitSection
    split
    · rename_i child found
      rw [release_books (isLock isPoint (by simp) rfl)]
      exact ⟨inv.reap on isPoint found,
        Or.inr ⟨.reap p child, by rw [isPoint, processOp, found], if_pos ⟨running isPoint (by simp), found⟩⟩⟩
    · rw [release_eq (isLock isPoint (by simp) rfl)]
      exact ⟨inv.releases on isPoint (by simp) rfl rfl rfl (running isPoint (by simp)) (.refl _) fun q _ =>
        .refl _, Or.inl rfl⟩
    · rename_i sleeps
      exact ⟨inv.leaves on isPoint (by simp) rfl rfl ⟨rfl, rfl⟩ rfl rfl rfl,
        Or.inr ⟨.waitSleeps p, by rw [isPoint, processOp, sleeps], if_pos ⟨running isPoint (by simp), sleeps⟩⟩⟩
  · rename_i resume isPoint
    cases stepped
    obtain ⟨-, -, after, books⟩ := inv.sched on isPoint
    exact ⟨after, Or.inl books⟩
  · rename_i task isPoint
    cases stepped
    rw [release_eq (isLock isPoint (by simp) rfl)]
    exact ⟨inv.releases on isPoint (by simp) rfl rfl rfl (running isPoint (by simp)) (.refl _) fun q _ =>
      .refl _, Or.inl rfl⟩
  · rename_i isPoint
    cases stepped
    rw [State.withTable, release_books (isLock isPoint (by simp) rfl)]
    obtain ⟨after, carries⟩ := inv.tidyUp on isPoint (a := .out .user) rfl (by simp) (by simp) (Or.inl rfl)
      (by simp [Point.locked])
    exact ⟨after, Or.inr ⟨.tidyUp p, by rw [isPoint]; rfl, carries⟩⟩
  · rename_i isPoint
    cases stepped
    have mine := isLock isPoint (by simp) rfl
    obtain ⟨after, carries⟩ := inv.tidyUp on isPoint (a := .wait) rfl (by simp) (by simp) (Or.inr mine)
      ⟨fun _ => mine, fun _ => rfl⟩
    exact ⟨after, Or.inr ⟨.tidyUp p, by rw [isPoint]; rfl, carries⟩⟩
  · rename_i isPoint
    have executes := (inv.executes c p on).2.1
    rw [isPoint] at executes
    exact executes.elim
  · rename_i isPoint
    cases stepped
    rw [release_eq (isLock isPoint (by simp) rfl)]
    exact ⟨inv.releases on isPoint (by simp) rfl rfl rfl (running isPoint (by simp)) (.refl _) fun q _ =>
      .refl _, Or.inl rfl⟩
  · cases stepped

theorem Inv.scheduler (inv : Inv s) (idle : s.thread c = none) {act : Act}
    (stepped : s.scheduler c act = some s') :
    Inv s' ∧ Carries s (schedulerOp (s.loop c) act) s' := by
  have locked := inv.schedules c idle
  have current := inv.current c
  -- An idle CPU takes the lock.
  have acquires : ∀ {l : Loop}, s.loop c = .idle → l.locked = true → l.proc = none →
      s.acquire c (State.loopTo c l) = some s' → ∀ op, Inv s' ∧ Carries s op s' := by
    intro l isLoop takes none stepped op
    rw [isLoop] at locked current
    have free : s.lock ≠ some c := fun isLock => by cases locked.mpr isLock
    unfold State.acquire at stepped
    rw [if_neg free] at stepped
    obtain ⟨isFree, rfl⟩ := of_guard stepped
    exact ⟨inv.loops idle (Or.inl isFree) (Or.inr rfl) (by simp [takes]) none current (fun _ _ => rfl)
      rfl fun q => .refl _, Or.inl rfl⟩
  unfold State.scheduler at stepped
  split at stepped
  · exact acquires ‹_› rfl rfl stepped _
  · exact acquires ‹_› rfl rfl stepped _
  · rename_i chan isLoop
    cases stepped
    rw [isLoop] at locked current
    have isLock := locked.mp rfl
    rw [State.withTable, release_books isLock]
    exact ⟨inv.loops idle (Or.inr isLock) (Or.inl rfl) (by simp [Loop.locked]) rfl current
      (fun _ _ => rfl) rfl fun q => .of_wakes (wakes_wakeup1 _ q), Or.inr ⟨.wakeup chan, by rw [isLoop]; rfl, rfl⟩⟩
  · rename_i i isLoop
    rw [isLoop] at locked current
    have isLock := locked.mp rfl
    split at stepped
    · rename_i inTable
      split at stepped
      · rename_i runnable
        cases stepped
        exact ⟨inv.dispatch idle isLock runnable, Or.inr ⟨.run ⟨i, inTable⟩, by rw [isLoop]; exact dif_pos inTable, if_pos runnable⟩⟩
      · cases stepped
        exact ⟨inv.loops idle (Or.inr isLock) (Or.inr isLock) ⟨fun _ => isLock, fun _ => rfl⟩ rfl current
          (fun _ _ => rfl) rfl fun q => .refl _, Or.inl rfl⟩
    · cases stepped
      rw [release_eq isLock]
      exact ⟨inv.loops idle (Or.inr isLock) (Or.inl rfl) (by simp [Loop.locked]) rfl current
        (fun _ _ => rfl) rfl fun q => .refl _, Or.inl rfl⟩
  · rename_i p isLoop
    cases stepped
    rw [isLoop] at locked
    have isLock := locked.mp rfl
    exact ⟨inv.loops idle (Or.inr isLock) (Or.inr isLock) ⟨fun _ => isLock, fun _ => rfl⟩ rfl
      (update_self ..) (fun c' unlike => update_of_ne unlike _ _) rfl fun q => .refl _,
      Or.inl rfl⟩
  · cases stepped

/-- Every step keeps the invariant, and does at most one atomic operation. -/
theorem Inv.next (inv : Inv s) {label : C × Act} (stepped : s.next label = some s') :
    Inv s' ∧ Carries s (s.op label) s' := by
  obtain ⟨-, stepped⟩ := Option.ite_none_left_eq_some.mp stepped
  split at stepped
  · rename_i p on
    rw [State.op, on]
    exact inv.process on stepped
  · rename_i idle
    rw [State.op, idle]
    exact inv.scheduler idle stepped

omit [DecidableEq C] in
theorem booted_inv : Inv (State.booted : State C) := by
  have init : (State.booted : State C).table.proc 0 = ⟨.runnable, 1, none, none, false, true, true⟩ := rfl
  have free : ∀ p, p ≠ 0 → (State.booted : State C).table.proc p =
      ⟨.unused, 0, none, none, false, false, false⟩ := fun p other => if_neg other
  refine ⟨fun c p on => (by cases on), fun c _ => (by simp [State.booted, Loop.locked]), fun c => rfl,
    fun c c' p left => (by cases left), fun p _ => ?_, ⟨fun q => trivial, fun q q' np left => (by cases left),
    fun np q isEmbryo => ?_, fun p isUnused => ?_, fun p exists_ => ?_⟩, Or.inl rfl⟩
  · by_cases isInit : p = 0
    · rw [isInit, init]
      exact ⟨.forkret, rfl, by simp⟩
    · rw [free p isInit]
      exact rfl
  · by_cases isInit : np = 0
    · rw [isInit, init] at isEmbryo
      cases isEmbryo
    · rw [free np isInit] at isEmbryo
      cases isEmbryo
  · by_cases isInit : p = 0
    · rw [isInit, init]
    · rw [free p isInit]
  · by_cases isInit : p = 0
    · rw [isInit, init]
      exact ⟨rfl, rfl⟩
    · rw [free p isInit] at exists_
      exact absurd rfl exists_.1

theorem run_inv {labels : List (C × Act)} (ran : (machine C).run State.booted labels = some s) : Inv s :=
  System.run_preserves Inv (fun _ _ _ inv stepped => (inv.next stepped).1) booted_inv ran

/-- The machine refines the atomic operations. -/
theorem machine_refines_atomic {labels : List (C × Act)}
    (ran : (machine C).run State.booted labels = some s) : atomic.Reaches .booted s.books := by
  have both : Inv s ∧ atomic.Reaches .booted s.books := by
    refine System.run_preserves (fun s => Inv s ∧ atomic.Reaches .booted s.books) ?_
      ⟨booted_inv, System.Reaches.refl _ _⟩ ran
    rintro before label after ⟨inv, reached⟩ stepped
    obtain ⟨inv', same | ⟨op, -, did⟩⟩ := inv.next stepped
    · exact ⟨inv', same ▸ reached⟩
    · exact ⟨inv', reached.tail did⟩
  exact both.2

/-! ### Scheduling is safe -/

omit [DecidableEq C] in
/-- A CPU's process executes on it, unless the CPU has the lock. -/
theorem Inv.current_executes (inv : Inv s) (current : s.cpuProc c = some p) (unlocked : s.lock ≠ some c) :
    s.thread c = some p := by
  rw [inv.current c] at current
  have isLoop : s.loop c = .swtch p := by
    generalize s.loop c = l at current
    cases l <;> cases current
    rfl
  cases thread : s.thread c with
  | none =>
    have locked := inv.schedules c thread
    rw [isLoop] at locked
    exact absurd (locked.mp rfl) unlocked
  | some q =>
    have loop := (inv.executes c q thread).1
    rw [isLoop] at loop
    cases loop
    rfl

omit [DecidableEq C] in
theorem Inv.reaped_not_current (inv : Inv s) {q child : ProcId} (on : s.thread c = some q)
    (isPoint : s.point q = .wait) (found : s.table.wait q = .found child) (c' : C) :
    s.cpuProc c' ≠ some child := by
  intro current
  obtain ⟨running, locked⟩ := inv.at_ on isPoint (by simp)
  have isLock := locked.mp rfl
  obtain ⟨-, isZombie⟩ := wait_found found
  have unlike : c' ≠ c := by
    rintro rfl
    rw [inv.current c', (inv.executes c' q on).1] at current
    cases current
    rw [running] at isZombie
    cases isZombie
  have unlocked : s.lock ≠ some c' := by
    rw [isLock]
    exact fun same => unlike (Option.some.inj same).symm
  have running' := inv.running_elsewhere (inv.current_executes current unlocked) unlocked
  rw [isZombie] at running'
  cases running'

theorem thread_acquire {next : State C → State C} (keeps : ∀ s, (next s).thread = s.thread)
    (stepped : s.acquire c next = some s') : s'.thread = s.thread := by
  unfold State.acquire at stepped
  split at stepped
  · cases stepped
    rfl
  · obtain ⟨-, rfl⟩ := of_guard stepped
    exact keeps _

theorem thread_release (next : State C → State C) (keeps : ∀ s, (next s).thread = s.thread) :
    (s.release c next).thread = s.thread := by
  unfold State.release
  split
  · exact keeps _
  · rfl

theorem thread_release_at {next : State C → State C} (keeps : ∀ s, (next s).thread = s.thread)
    (same : s'.thread = s.thread) (c' : C) :
    (s'.release c next).thread c' = s.thread c' ∨ (s'.release c next).thread c' = none := by
  rw [thread_release next keeps, same]
  exact Or.inl rfl

theorem thread_process {act : Act} (stepped : s.process c p act = some s') (c' : C) :
    s'.thread c' = s.thread c' ∨ s'.thread c' = none := by
  have acquires : ∀ {a}, s.acquire c (State.goTo p a) = some s' → s'.thread c' = s.thread c' := by
    intro a took
    rw [thread_acquire _ took]
    exact fun _ => rfl
  unfold State.process at stepped
  split at stepped
  case h_7 =>
    split at stepped
    · cases stepped
      exact Or.inl rfl
    · exact Or.inl (acquires stepped)
  case h_17 =>
    cases stepped
    unfold State.allocprocSection
    split
    · apply thread_release_at <;> intros <;> rfl
    · apply thread_release_at <;> intros <;> rfl
  case h_20 =>
    cases stepped
    unfold State.waitSection
    split
    · apply thread_release_at <;> intros <;> rfl
    · apply thread_release_at <;> intros <;> rfl
    · exact Or.inl rfl
  case h_21 =>
    cases stepped
    unfold State.sched
    split
    · exact Or.inl rfl
    · split
      · exact Or.inl rfl
      · by_cases same : c' = c
        · exact Or.inr (by simp [same])
        · exact Or.inl (by simp [same])
  all_goals first
    | exact Or.inl (acquires stepped)
    | cases stepped
  all_goals first
    | exact Or.inl rfl
    | (apply thread_release_at <;> intros <;> rfl)
theorem thread_scheduler {act : Act} (stepped : s.scheduler c act = some s') (c' : C) :
    s'.thread c' = s.thread c' ∨
      ∃ p, s'.thread c' = some p ∧ (s.table.proc p).state = .runnable := by
  have acquires : ∀ {l}, s.acquire c (State.loopTo c l) = some s' → s'.thread c' = s.thread c' := by
    intro l took
    rw [thread_acquire _ took]
    exact fun _ => rfl
  unfold State.scheduler at stepped
  split at stepped
  · exact Or.inl (acquires stepped)
  · exact Or.inl (acquires stepped)
  · cases stepped
    rw [thread_release]
    · exact Or.inl rfl
    · exact fun _ => rfl
  · split at stepped
    · rename_i inTable
      split at stepped
      · rename_i runnable
        cases stepped
        by_cases same : c' = c
        · exact Or.inr ⟨_, by rw [same]; exact update_self .., runnable⟩
        · exact Or.inl (update_of_ne same _ _)
      · cases stepped
        exact Or.inl rfl
    · cases stepped
      rw [thread_release]
      · exact Or.inl rfl
      · exact fun _ => rfl
  · cases stepped
    exact Or.inl rfl
  · cases stepped

theorem runnable_of_switched {label : C × Act} (stepped : s.next label = some s')
    (before : s.thread c ≠ some p) (after : s'.thread c = some p) :
    (s.table.proc p).state = .runnable := by
  obtain ⟨-, stepped⟩ := Option.ite_none_left_eq_some.mp stepped
  split at stepped
  · rcases thread_process stepped c with same | none
    · exact absurd (same.symm.trans after) before
    · rw [none] at after
      cases after
  · rcases thread_scheduler stepped c with same | ⟨q, switched, runnable⟩
    · exact absurd (same.symm.trans after) before
    · rw [switched] at after
      cases after
      exact runnable

/-- In every state that any CPUs can reach: while nobody has `ptable.lock`, the running
processes are the ones that CPUs have, each has one CPU, and it has its stack and memory.
No process executes on two CPUs, and the scheduler switches to runnable ones only. `wait`
frees no process that a CPU has. `sched` is entered with the lock, by processes that are
not running any more; so only an exit of `initproc` can stop the machine. -/
theorem scheduling_safe (labels : List (C × Act)) (s : State C)
    (ran : (machine C).run State.booted labels = some s) :
    (s.lock = none → (∀ p, (s.table.proc p).state = .running → ∃! c, s.cpuProc c = some p) ∧
      ∀ c p, s.cpuProc c = some p → (s.table.proc p).state = .running ∧
        (s.table.proc p).kstack = true ∧ (s.table.proc p).pgdir = true) ∧
    (∀ c c' p, s.thread c = some p → s.thread c' = some p → c = c') ∧
    (∀ label s' c p, s.next label = some s' → s.thread c ≠ some p → s'.thread c = some p →
      (s.table.proc p).state = .runnable) ∧
    (∀ c q child, s.thread c = some q → s.point q = .wait → s.table.wait q = .found child →
      ∀ c', s.cpuProc c' ≠ some child) ∧
    (∀ c p resume, s.thread c = some p → s.point p = .sched resume →
      s.lock = some c ∧ (s.table.proc p).state ≠ .running) ∧
    (s.panicked = none ∨ s.panicked = some .initExiting) := by
  have inv := run_inv ran
  refine ⟨fun free => ⟨fun p running => ?_, fun c p current => ?_⟩, fun c c' p left right =>
    inv.thread_unique left right, fun label s' c p stepped => runnable_of_switched stepped,
    fun c q child on isPoint found => inv.reaped_not_current on isPoint found, fun c p resume on isPoint => ?_,
    inv.panicked⟩
  · by_cases somewhere : ∃ c, s.thread c = some p
    · obtain ⟨c, on⟩ := somewhere
      have current : s.cpuProc c = some p := by
        rw [inv.current c, (inv.executes c p on).1]
        rfl
      refine ⟨c, current, fun c' current' => ?_⟩
      exact inv.thread_unique (inv.current_executes current' (by simp [free])) on
    · have parks := inv.parks p fun c on => somewhere ⟨c, on⟩
      rw [Parks, running] at parks
      exact parks.elim
  · have on := inv.current_executes current (by simp [free])
    have running := inv.running_elsewhere on (by simp [free])
    exact ⟨running, inv.settled.supplied p (by simp [Proc.Exists, running])⟩
  · obtain ⟨isLock, notRunning, -⟩ := inv.sched on isPoint
    exact ⟨isLock, notRunning⟩

/-- `initproc` runs on one CPU and forks, and a second CPU runs the child. -/
def forkOnTwo : List (Fin 2 × Act) :=
  [(0, .go), (0, .go), (0, .go), (0, .fork), (0, .go), (0, .go), (0, .go), (0, .go), (0, .go),
    (1, .go), (1, .go), (1, .go), (1, .go)]

theorem forkOnTwo_safe :
    ∃ s, (machine (Fin 2)).run State.booted forkOnTwo = some s ∧ s.lock = none ∧
      (s.table.proc 1).state = .running ∧ ∃! c, s.cpuProc c = some 1 := by
  have outcome : ((machine (Fin 2)).run State.booted forkOnTwo).map
      (fun s : State (Fin 2) => (s.lock, (s.table.proc 1).state)) = some (none, .running) := by
    decide +kernel
  obtain ⟨s, ran, isOutcome⟩ := Option.map_eq_some_iff.mp outcome
  simp only [Prod.mk.injEq] at isOutcome
  obtain ⟨free, running⟩ := isOutcome
  exact ⟨s, ran, free, running, ((scheduling_safe forkOnTwo s ran).1 free).1 1 running⟩

end Xv6.Process
