import Xv6.Param
import Xv6.Lib.Bytes

/-!
Contract: the process table of `proc.c` and what is done to it under `ptable.lock`, and
by `allocproc` and `fork` without it.

Does not own: who runs the sections, and when (`Process.Machine`).
-/

namespace Xv6.Process

open Xv6.Lib

inductive ProcState where
  | unused
  | embryo
  | sleeping
  | runnable
  | running
  | zombie
deriving DecidableEq

instance : NeZero NPROC := ⟨by decide⟩

abbrev ProcId := Fin NPROC

/-- The address that a process sleeps on: that of a process, or another one. -/
inductive Chan where
  | proc (p : ProcId)
  | other (addr : Nat)
deriving DecidableEq

/-- `struct proc`. `kstack` and `pgdir` say whether the process has a kernel stack and a
page table. -/
structure Proc where
  state : ProcState
  pid : Int
  parent : Option ProcId
  chan : Option Chan
  killed : Bool
  kstack : Bool
  pgdir : Bool
deriving DecidableEq

structure Ptable where
  proc : ProcId → Proc
  nextpid : Int
  initproc : ProcId

namespace Ptable

variable (t : Ptable)

def set (p : ProcId) (new : Proc) : Ptable := { t with proc := Function.update t.proc p new }

def setState (p : ProcId) (state : ProcState) : Ptable := t.set p { t.proc p with state }

def all : List ProcId := List.finRange NPROC

/-- A process as `wakeup1` leaves it. -/
def woken (chan : Option Chan) (proc : Proc) : Proc :=
  if proc.state = .sleeping ∧ proc.chan = chan then { proc with state := .runnable } else proc

def wakeup1 (chan : Option Chan) : Ptable := { t with proc := fun p => woken chan (t.proc p) }

def kill (pid : Int) : Ptable × Int :=
  match all.find? fun p => (t.proc p).pid = pid with
  | none => (t, -1)
  | some p =>
    let state := if (t.proc p).state = .sleeping then .runnable else (t.proc p).state
    (t.set p { t.proc p with killed := true, state }, 0)

/-- `nextpid++` on a 32-bit `int`. -/
def bump (pid : Int) : Int := toInt32 (ofInt32 (pid + 1))

def allocproc : Option (Ptable × ProcId) :=
  (all.find? fun p => (t.proc p).state = .unused).map fun p =>
    ({ t.set p { t.proc p with state := .embryo, pid := t.nextpid } with nextpid := bump t.nextpid }, p)

/-- `allocproc` finds no page for the stack. -/
def kallocFails (np : ProcId) : Ptable := t.set np { t.proc np with kstack := false, state := .unused }

def kallocWorks (np : ProcId) : Ptable := t.set np { t.proc np with kstack := true }

/-- `fork` after `copyuvm` failed. -/
def copyuvmFails (np : ProcId) : Ptable :=
  t.set np { t.proc np with pgdir := false, kstack := false, state := .unused }

def copyuvmWorks (np curproc : ProcId) : Ptable :=
  t.set np { t.proc np with pgdir := true, parent := some curproc }

/-- An iteration of the loop of `exit`. -/
def adopt (curproc : ProcId) (t : Ptable) (p : ProcId) : Ptable :=
  if (t.proc p).parent = some curproc then
    let t := t.set p { t.proc p with parent := some t.initproc }
    if (t.proc p).state = .zombie then t.wakeup1 (some (.proc t.initproc)) else t
  else t

/-- The section of `exit`, up to `sched`. -/
def exit (curproc : ProcId) : Ptable :=
  let t := t.wakeup1 ((t.proc curproc).parent.map .proc)
  let t := all.foldl (adopt curproc) t
  t.setState curproc .zombie

/-- The slot of a process after `wait` has freed it. -/
def reaped (proc : Proc) : Proc :=
  { proc with
    kstack := false, pgdir := false, pid := 0, parent := none, killed := false, state := .unused }

/-- What an iteration of the loop of `wait` comes to. -/
inductive Waited where
  | found (child : ProcId)
  | fails
  | sleeps
deriving DecidableEq

/-- The scan of `wait` for the first zombie among the children of a process. -/
def wait (curproc : ProcId) : Waited :=
  match all.find? fun p => (t.proc p).parent = some curproc ∧ (t.proc p).state = .zombie with
  | some child => .found child
  | none =>
    let havekids := all.any fun p => (t.proc p).parent = some curproc
    if !havekids || (t.proc curproc).killed then .fails else .sleeps

def sleep (p : ProcId) (chan : Chan) : Ptable :=
  t.set p { t.proc p with chan := some chan, state := .sleeping }

/-- After `sched` returns in `sleep`. -/
def tidyUp (p : ProcId) : Ptable := t.set p { t.proc p with chan := none }

variable {t}

@[simp] theorem mem_all (p : ProcId) : p ∈ all := List.mem_finRange p

@[simp] theorem set_self (p : ProcId) (new : Proc) : (t.set p new).proc p = new := by
  simp [set]

theorem set_of_ne {p q : ProcId} (new : Proc) (unlike : q ≠ p) : (t.set p new).proc q = t.proc q := by
  simp [set, unlike]

theorem woken_cases (chan : Option Chan) (proc : Proc) :
    woken chan proc = proc ∧ ¬ (proc.state = .sleeping ∧ proc.chan = chan) ∨
      woken chan proc = { proc with state := .runnable } ∧ proc.state = .sleeping ∧
        proc.chan = chan := by
  unfold woken
  split
  · rename_i sleeps
    exact Or.inr ⟨rfl, sleeps⟩
  · rename_i awake
    exact Or.inl ⟨rfl, awake⟩

/-- Two processes that differ at most in that the second has been woken. -/
def Wakes (old new : Proc) : Prop :=
  new = old ∨ old.state = .sleeping ∧ new = { old with state := .runnable }

theorem Wakes.trans {first second third : Proc} (early : Wakes first second)
    (late : Wakes second third) : Wakes first third := by
  rcases early with rfl | ⟨sleeps, rfl⟩
  · exact late
  · rcases late with rfl | ⟨again, -⟩
    · exact Or.inr ⟨sleeps, rfl⟩
    · cases again

theorem wakes_wakeup1 (chan : Option Chan) (p : ProcId) :
    Wakes (t.proc p) ((t.wakeup1 chan).proc p) := by
  rcases woken_cases chan (t.proc p) with ⟨same, -⟩ | ⟨woke, sleeps, -⟩
  · exact Or.inl same
  · exact Or.inr ⟨sleeps, woke⟩

theorem awake_wakeup1 (chan : Option Chan) (p : ProcId) :
    ¬ (((t.wakeup1 chan).proc p).state = .sleeping ∧ ((t.wakeup1 chan).proc p).chan = chan) := by
  change ¬ ((woken chan (t.proc p)).state = .sleeping ∧ (woken chan (t.proc p)).chan = chan)
  rcases woken_cases chan (t.proc p) with ⟨same, awake⟩ | ⟨woke, -⟩
  · rw [same]
    exact awake
  · rw [woke]
    rintro ⟨sleeps, -⟩
    cases sleeps

/-- `kill` finds the first process of the table with the number. -/
theorem kill_cases (pid : Int) :
    (∀ p, (t.proc p).pid ≠ pid) ∧ t.kill pid = (t, -1) ∨
      ∃ p, (t.proc p).pid = pid ∧ (t.kill pid).2 = 0 ∧
        (t.kill pid).1 = t.set p { t.proc p with
          killed := true
          state := if (t.proc p).state = .sleeping then .runnable else (t.proc p).state } := by
  unfold kill
  cases found : all.find? fun p => (t.proc p).pid = pid with
  | none =>
    left
    refine ⟨fun p isPid => ?_, rfl⟩
    simpa [isPid] using List.find?_eq_none.mp found p (mem_all p)
  | some p => exact Or.inr ⟨p, by simpa using List.find?_some found, rfl, rfl⟩

theorem kill_frame (pid : Int) :
    (t.kill pid).1.initproc = t.initproc ∧ (t.kill pid).1.nextpid = t.nextpid := by
  rcases kill_cases (t := t) pid with ⟨-, same⟩ | ⟨p, -, -, same⟩
  · rw [same]
    exact ⟨rfl, rfl⟩
  · rw [same]
    exact ⟨rfl, rfl⟩

theorem allocproc_cases {after : Ptable} {np : ProcId} (found : t.allocproc = some (after, np)) :
    (t.proc np).state = .unused ∧
      after = { t.set np { t.proc np with state := .embryo, pid := t.nextpid } with
        nextpid := bump t.nextpid } := by
  obtain ⟨p, isFirst, result⟩ := Option.map_eq_some_iff.mp found
  cases result
  exact ⟨by simpa using List.find?_some isFirst, rfl⟩

variable {curproc : ProcId}

theorem wait_found {child : ProcId} (found : t.wait curproc = .found child) :
    (t.proc child).parent = some curproc ∧ (t.proc child).state = .zombie := by
  unfold wait at found
  split at found
  · rename_i isFirst
    cases found
    simpa using List.find?_some isFirst
  · simp only at found
    split at found <;> cases found

theorem wait_sleeps (sleeps : t.wait curproc = .sleeps) :
    (t.proc curproc).killed = false ∧
      ∀ p, ¬ ((t.proc p).parent = some curproc ∧ (t.proc p).state = .zombie) := by
  unfold wait at sleeps
  split at sleeps
  · cases sleeps
  · rename_i none
    simp only at sleeps
    split at sleeps
    · cases sleeps
    · rename_i goes
      simp only [Bool.or_eq_true, not_or, Bool.not_eq_true] at goes
      refine ⟨goes.2, fun p both => ?_⟩
      simpa [both] using List.find?_eq_none.mp none p (mem_all p)

/-- What the iterations `done` of the loop of `exit` have done to the table. -/
structure Adopted (curproc : ProcId) (done : List ProcId) (t after : Ptable) : Prop where
  frame : after.initproc = t.initproc ∧ after.nextpid = t.nextpid
  others : ∀ p, ∃ proc, Wakes (t.proc p) proc ∧ after.proc p =
    if p ∈ done ∧ (t.proc p).parent = some curproc then { proc with parent := some t.initproc }
    else proc
  wakes : (∃ p ∈ done, (t.proc p).parent = some curproc ∧ (t.proc p).state = .zombie) →
    ∀ p, ¬ ((after.proc p).state = .sleeping ∧ (after.proc p).chan = some (.proc t.initproc))

theorem Wakes.parent_eq {old new : Proc} (wakes : Wakes old new) : new.parent = old.parent := by
  rcases wakes with rfl | ⟨-, rfl⟩ <;> rfl

theorem Wakes.zombie_iff {old new : Proc} (wakes : Wakes old new) :
    new.state = .zombie ↔ old.state = .zombie := by
  rcases wakes with rfl | ⟨sleeps, rfl⟩
  · rfl
  · simp [sleeps]

theorem Adopted.step {done : List ProcId} {after : Ptable} (adopted : Adopted curproc done t after)
    (p : ProcId) (new : p ∉ done) :
    Adopted curproc (done ++ [p]) t (adopt curproc after p) := by
  obtain ⟨proc, wakes, isProc⟩ := adopted.others p
  rw [if_neg fun both => new both.1] at isProc
  have parent : (after.proc p).parent = (t.proc p).parent := by rw [isProc, wakes.parent_eq]
  have zombie : (after.proc p).state = .zombie ↔ (t.proc p).state = .zombie := by
    rw [isProc, wakes.zombie_iff]
  unfold adopt
  by_cases isChild : (t.proc p).parent = some curproc
  · rw [if_pos (parent.trans isChild)]
    -- The table with the new parent of `p`, before anybody is woken.
    set moved := after.set p { after.proc p with parent := some after.initproc } with isMoved
    have others : ∀ q, ∃ proc, Wakes (t.proc q) proc ∧ moved.proc q =
        if q ∈ done ++ [p] ∧ (t.proc q).parent = some curproc then
          { proc with parent := some t.initproc } else proc := by
      intro q
      by_cases same : q = p
      · subst same
        refine ⟨proc, wakes, ?_⟩
        rw [if_pos ⟨by simp, isChild⟩, isMoved, set_self, isProc, adopted.frame.1]
      · obtain ⟨proc', wakes', isProc'⟩ := adopted.others q
        refine ⟨proc', wakes', ?_⟩
        rw [isMoved, set_of_ne _ same, isProc']
        simp [same]
    simp only
    split
    · refine ⟨adopted.frame, fun q => ?_, fun _ q => ?_⟩
      · obtain ⟨proc', wakes', isProc'⟩ := others q
        refine ⟨woken (some (.proc moved.initproc)) proc', ?_, ?_⟩
        · rcases woken_cases (some (.proc moved.initproc)) proc' with ⟨same, -⟩ | ⟨woke, sleeps, -⟩
          · rw [same]
            exact wakes'
          · exact wakes'.trans (Or.inr ⟨sleeps, woke⟩)
        · change woken _ (moved.proc q) = _
          rw [isProc']
          split
          · unfold woken
            simp only
            split <;> rfl
          · rfl
      · rw [show moved.initproc = t.initproc from adopted.frame.1]
        exact awake_wakeup1 _ q
    · rename_i lives
      rw [isMoved, set_self] at lives
      refine ⟨adopted.frame, others, ?_⟩
      rintro ⟨z, member, isChild', isZombie⟩ q
      have earlier : z ∈ done := by
        rcases List.mem_append.mp member with earlier | last
        · exact earlier
        · rw [List.mem_singleton.mp last] at isZombie
          exact absurd (zombie.mpr isZombie) lives
      have awake := adopted.wakes ⟨z, earlier, isChild', isZombie⟩ q
      by_cases same : q = p
      · subst same
        rw [isMoved, set_self]
        exact awake
      · rw [isMoved, set_of_ne _ same]
        exact awake
  · rw [if_neg (by rw [parent]; exact isChild)]
    refine ⟨adopted.frame, fun q => ?_, ?_⟩
    · obtain ⟨proc', wakes', isProc'⟩ := adopted.others q
      refine ⟨proc', wakes', ?_⟩
      rw [isProc']
      by_cases same : q = p
      · subst same
        rw [if_neg fun both => isChild both.2, if_neg fun both => isChild both.2]
      · simp [same]
    · rintro ⟨z, member, isChild', isZombie⟩
      refine adopted.wakes ⟨z, ?_, isChild', isZombie⟩
      rcases List.mem_append.mp member with earlier | last
      · exact earlier
      · rw [List.mem_singleton.mp last] at isChild'
        exact absurd isChild' isChild

theorem Adopted.foldl {done rest : List ProcId} {after : Ptable}
    (adopted : Adopted curproc done t after) (nodup : (done ++ rest).Nodup) :
    Adopted curproc (done ++ rest) t (rest.foldl (adopt curproc) after) := by
  induction rest generalizing done after with
  | nil =>
    rw [List.append_nil]
    exact adopted
  | cons p rest ih =>
    have new : p ∉ done := fun member =>
      (List.nodup_append.mp nodup).2.2 p member p List.mem_cons_self rfl
    rw [show done ++ p :: rest = done ++ [p] ++ rest by simp] at nodup ⊢
    exact ih (adopted.step p new) nodup

/-- What the section of `exit` does. The parent is awake afterwards, and so is `initproc`
if it gets a zombie. -/
structure Exited (curproc : ProcId) (t after : Ptable) : Prop where
  frame : after.initproc = t.initproc ∧ after.nextpid = t.nextpid
  ends : (after.proc curproc).state = .zombie
  others : ∀ p, ∃ proc, Wakes (t.proc p) proc ∧ after.proc p = { proc with
    parent := if proc.parent = some curproc then some t.initproc else proc.parent
    state := if p = curproc then .zombie else proc.state }
  wakesParent : ∀ p, p ≠ curproc → (after.proc p).state = .sleeping →
    (after.proc p).chan ≠ (t.proc curproc).parent.map .proc
  wakesInit : (∃ p, (t.proc p).parent = some curproc ∧ (t.proc p).state = .zombie) →
    ∀ p, p ≠ curproc → (after.proc p).state = .sleeping →
      (after.proc p).chan ≠ some (.proc t.initproc)

theorem exited (t : Ptable) (curproc : ProcId) : Exited curproc t (t.exit curproc) := by
  set first := t.wakeup1 ((t.proc curproc).parent.map .proc) with isFirst
  have start : Adopted curproc [] first first :=
    ⟨⟨rfl, rfl⟩, fun p => ⟨first.proc p, Or.inl rfl, by simp⟩, fun none => by simp at none⟩
  have adopted : Adopted curproc all first (all.foldl (adopt curproc) first) :=
    start.foldl (List.nodup_finRange NPROC)
  have isExit : t.exit curproc = (all.foldl (adopt curproc) first).setState curproc .zombie := rfl
  generalize all.foldl (adopt curproc) first = second at adopted isExit
  have frame : (t.exit curproc).initproc = t.initproc ∧ (t.exit curproc).nextpid = t.nextpid := by
    rw [isExit]
    exact adopted.frame
  have early : ∀ p, Wakes (t.proc p) (first.proc p) := wakes_wakeup1 _
  have last : ∀ p, (t.exit curproc).proc p = { second.proc p with
      state := if p = curproc then .zombie else (second.proc p).state } := by
    intro p
    rw [isExit, setState]
    by_cases same : p = curproc
    · subst same
      rw [set_self, if_pos rfl]
    · rw [set_of_ne _ same, if_neg same]
  refine ⟨frame, by rw [last, if_pos rfl], fun p => ?_, fun p unlike sleeps => ?_, ?_⟩
  · obtain ⟨proc, wakes, isProc⟩ := adopted.others p
    refine ⟨proc, (early p).trans wakes, ?_⟩
    rw [last, isProc, show first.initproc = t.initproc from rfl, ← wakes.parent_eq]
    by_cases isChild : proc.parent = some curproc
    · simp only [mem_all, true_and, if_pos isChild]
    · simp only [mem_all, true_and, if_neg isChild]
  · have awake := awake_wakeup1 (t := t) ((t.proc curproc).parent.map .proc) p
    rw [last, if_neg unlike] at sleeps
    rw [last]
    obtain ⟨proc, wakes, isProc⟩ := adopted.others p
    have kept : second.proc p = { first.proc p with parent := (second.proc p).parent } := by
      have state : (second.proc p).state = proc.state := by
        rw [isProc]
        split <;> rfl
      rcases wakes with rfl | ⟨-, rfl⟩
      · rw [isProc]
        split <;> rfl
      · rw [sleeps] at state
        cases state
    rw [kept] at sleeps ⊢
    exact fun onChan => awake ⟨sleeps, onChan⟩
  · rintro ⟨z, isChild, isZombie⟩ p unlike sleeps onChan
    rw [last, if_neg unlike] at sleeps
    rw [last] at onChan
    refine adopted.wakes ⟨z, mem_all z, ?_, ?_⟩ p ⟨sleeps, onChan⟩
    · rw [(early z).parent_eq]
      exact isChild
    · rw [(early z).zombie_iff]
      exact isZombie

end Ptable

end Xv6.Process
