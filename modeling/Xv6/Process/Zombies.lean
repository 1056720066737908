import Xv6.Process.Scheduling

/-!
Contract: every zombie can be reaped, and is reaped once.

The argument is about the atomic operations; the machine carries them out
(`Process.Scheduling`). A process that exits hands its children to `initproc`, and wakes
its parent and, if one of the children is a zombie, `initproc`, before it is a zombie
itself.
-/

namespace Xv6.Process

open Function (update update_of_ne update_self)
open Xv6.Lib Ptable

def Proc.Alive (proc : Proc) : Prop :=
  proc.state = .runnable ∨ proc.state = .running ∨ proc.state = .sleeping

/-- What holds of parents, children and the history of reaped processes. -/
structure Families (b : Books) : Prop where
  init : (b.table.proc b.table.initproc).Alive ∧ (b.table.proc b.table.initproc).parent = none
  parents : ∀ p, p ≠ b.table.initproc → (b.table.proc p).Exists →
    ∃ q, (b.table.proc p).parent = some q
  alive : ∀ p q, (b.table.proc p).parent = some q →
    p ≠ q ∧ (b.table.proc q).Alive ∧ (b.table.proc p).state ≠ .unused
  awake : ∀ q, (b.table.proc q).state = .sleeping → (b.table.proc q).chan = some (.proc q) →
    ∀ z, (b.table.proc z).parent = some q → (b.table.proc z).state ≠ .zombie
  serials : ∀ p, b.state p ≠ .unused → b.serial p ≤ b.created ∧ b.serial p ∉ b.reaped
  distinct : ∀ p q, b.state p ≠ .unused → b.state q ≠ .unused → b.serial p = b.serial q → p = q
  reaped : b.reaped.Nodup ∧ ∀ n ∈ b.reaped, n ≤ b.created

variable {b : Books}

theorem Proc.Alive.exists_ {proc : Proc} (alive : proc.Alive) : proc.Exists := by
  rcases alive with state | state | state <;> simp [Proc.Exists, state]

/-- The slot keeps its process and its parent. -/
structure Stays (old new : Proc) : Prop where
  parent : new.parent = old.parent
  unused : new.state = .unused ↔ old.state = .unused
  exists_ : new.Exists ↔ old.Exists
  alive : old.Alive → new.Alive
  zombie : new.state = .zombie ↔ old.state = .zombie

/-- The process sleeps in `wait`. -/
def Proc.Waits (p : ProcId) (proc : Proc) : Prop := proc.state = .sleeping ∧ proc.chan = some (.proc p)

theorem Stays.refl (proc : Proc) : Stays proc proc := ⟨rfl, Iff.rfl, Iff.rfl, id, Iff.rfl⟩

variable {after : Books}

/-- Nobody's parent changes, and who goes to sleep in `wait` has no zombie. -/
theorem Families.stays (families : Families b)
    (stays : ∀ p, Stays (b.table.proc p) (after.table.proc p))
    (waits : ∀ p, (after.table.proc p).Waits p → (b.table.proc p).Waits p ∨ ∀ z, (b.table.proc z).parent = some p → (b.table.proc z).state ≠ .zombie)
    (frame : after.table.initproc = b.table.initproc ∧ after.created = b.created ∧ after.serial = b.serial ∧ after.reaped = b.reaped) :
    Families after := by
  obtain ⟨isInit, created, serial, reaped⟩ := frame
  have unused : ∀ p, after.state p ≠ .unused ↔ b.state p ≠ .unused := fun p =>
    not_congr (stays p).unused
  refine ⟨?_, fun p other exists_ => ?_, fun p q isParent => ?_,
    fun q sleeps chan z isParent isZombie => ?_, fun p used => ?_, fun p q left right same => ?_, ?_⟩
  · rw [isInit, (stays _).parent]
    exact ⟨(stays _).alive families.init.1, families.init.2⟩
  · rw [(stays p).parent]
    exact families.parents p (isInit ▸ other) ((stays p).exists_.mp exists_)
  · rw [(stays p).parent] at isParent
    obtain ⟨unlike, alive, used⟩ := families.alive p q isParent
    exact ⟨unlike, (stays q).alive alive, (unused p).mpr used⟩
  · rw [(stays z).parent] at isParent
    have wasZombie := (stays z).zombie.mp isZombie
    rcases waits q ⟨sleeps, chan⟩ with ⟨slept, onChan⟩ | none
    · exact families.awake q slept onChan z isParent wasZombie
    · exact none z isParent wasZombie
  · rw [serial, created, reaped]
    exact families.serials p ((unused p).mp used)
  · rw [serial] at same
    exact families.distinct p q ((unused p).mp left) ((unused q).mp right) same
  · rw [reaped, created]
    exact families.reaped

theorem Stays.of_state {old new : Proc}
    (state : new.state = old.state ∨ old.state = .sleeping ∧ new.state = .runnable)
    (parent : new.parent = old.parent) : Stays old new := by
  rcases state with same | ⟨slept, wakes⟩
  · exact ⟨parent, by rw [same], by rw [Proc.Exists, Proc.Exists, same],
      by rw [Proc.Alive, Proc.Alive, same]; exact id, by rw [same]⟩
  · exact ⟨parent, by simp [slept, wakes], by simp [Proc.Exists, slept, wakes],
      fun _ => Or.inl wakes, by simp [slept, wakes]⟩

theorem Soft.waits {old new : Proc} {p : ProcId} (soft : Soft old new) (waits : new.Waits p) :
    old.Waits p := by
  obtain ⟨sleeps, onChan⟩ := waits
  rcases soft.state with same | ⟨-, wakes⟩
  · exact ⟨same ▸ sleeps, soft.chan ▸ onChan⟩
  · rw [wakes] at sleeps
    cases sleeps

section

variable (families : Families b)

include families

theorem Families.soft (soft : ∀ p, Soft (b.table.proc p) (after.table.proc p))
    (frame : after.table.initproc = b.table.initproc ∧ after.created = b.created ∧ after.serial = b.serial ∧ after.reaped = b.reaped) :
    Families after :=
  families.stays (fun p => .of_state (soft p).state (soft p).parent) (fun p waits => Or.inl ((soft p).waits waits))
    frame

/-- A living process changes its own slot, and stays alive. -/
theorem Families.set {p : ProcId} {new : Proc}
    (wasAlive : (b.table.proc p).Alive) (isAlive : new.Alive)
    (parent : new.parent = (b.table.proc p).parent)
    (waits : new.Waits p → ∀ z, (b.table.proc z).parent = some p → (b.table.proc z).state ≠ .zombie) :
    Families (b.withTable (b.table.set p new)) := by
  have notZombie : ∀ {proc : Proc}, proc.Alive → proc.state ≠ .zombie := by
    rintro proc (state | state | state) <;> simp [state]
  refine families.stays (fun q => ?_) (fun q waiting => ?_) ⟨rfl, rfl, rfl, rfl⟩
  · change Stays _ ((b.table.set p new).proc q)
    by_cases isP : q = p
    · rw [isP, set_self]
      exact ⟨parent, iff_of_false isAlive.exists_.1 wasAlive.exists_.1,
        iff_of_true isAlive.exists_ wasAlive.exists_, fun _ => isAlive,
        iff_of_false (notZombie isAlive) (notZombie wasAlive)⟩
    · rw [set_of_ne _ isP]
      exact .refl _
  · change ((b.table.set p new).proc q).Waits q at waiting
    by_cases isP : q = p
    · rw [isP, set_self] at waiting
      rw [isP]
      exact Or.inr (waits waiting)
    · rw [set_of_ne _ isP] at waiting
      exact Or.inl waiting

theorem Families.unlike_init {np : ProcId}
    (slot : ¬ (b.table.proc np).Exists) : np ≠ b.table.initproc := by
  rintro rfl
  exact slot families.init.1.exists_

/-- A slot without a process is nobody's parent, so it may become anything that has a
living parent itself. -/
theorem Families.replace {np : ProcId} (slot : ¬ (b.table.proc np).Exists)
    (others : ∀ q, q ≠ np → after.table.proc q = b.table.proc q ∧ after.serial q = b.serial q)
    (frame : after.table.initproc = b.table.initproc ∧ after.reaped = b.reaped ∧ b.created ≤ after.created)
    (state : (after.table.proc np).state ≠ .zombie ∧ (after.table.proc np).state ≠ .sleeping)
    (parents : (after.table.proc np).Exists → ∃ q, (after.table.proc np).parent = some q)
    (alive : ∀ q, (after.table.proc np).parent = some q → (b.table.proc q).Alive ∧ (after.table.proc np).state ≠ .unused)
    (serial : (after.table.proc np).state ≠ .unused → after.serial np ≤ after.created ∧ after.serial np ∉ b.reaped ∧ ∀ q, q ≠ np → b.state q ≠ .unused → b.serial q ≠ after.serial np) :
    Families after := by
  obtain ⟨isInit, reaped, grows⟩ := frame
  have proc := fun q other => (others q other).1
  have living : ∀ {q}, (b.table.proc q).Alive → q ≠ np := by
    rintro q lives rfl
    exact slot lives.exists_
  have unlike := families.unlike_init slot
  have state_eq : ∀ {q}, q ≠ np → after.state q = b.state q := fun other => by
    rw [Books.state, proc _ other]
    rfl
  refine ⟨?_, fun p other exists_ => ?_, fun p q isParent => ?_, fun q sleeps chan z isParent => ?_,
    fun p used => ?_, fun p q left right same => ?_, ?_⟩
  · rw [isInit, proc _ unlike.symm]
    exact families.init
  · by_cases isNp : p = np
    · rw [isNp] at exists_ ⊢
      exact parents exists_
    · rw [proc p isNp] at exists_ ⊢
      exact families.parents p (isInit ▸ other) exists_
  · by_cases isNp : p = np
    · rw [isNp] at isParent ⊢
      obtain ⟨isAlive, used⟩ := alive q isParent
      have other := living isAlive
      rw [proc q other]
      exact ⟨other.symm, isAlive, used⟩
    · rw [proc p isNp] at isParent ⊢
      obtain ⟨unlike, isAlive, used⟩ := families.alive p q isParent
      rw [proc q (living isAlive)]
      exact ⟨unlike, isAlive, used⟩
  · by_cases isNp : z = np
    · rw [isNp]
      exact state.1
    · rw [proc z isNp] at isParent ⊢
      by_cases isNp' : q = np
      · rw [isNp'] at sleeps
        exact absurd sleeps state.2
      · rw [proc q isNp'] at sleeps chan
        exact families.awake q sleeps chan z isParent
  · rw [reaped]
    by_cases isNp : p = np
    · rw [isNp] at used ⊢
      obtain ⟨small, new, -⟩ := serial used
      exact ⟨small, new⟩
    · rw [state_eq isNp] at used
      rw [(others p isNp).2]
      obtain ⟨small, new⟩ := families.serials p used
      exact ⟨small.trans grows, new⟩
  · by_cases isNp : p = np
    · by_cases isNp' : q = np
      · rw [isNp, isNp']
      · rw [isNp] at left same
        rw [state_eq isNp'] at right
        rw [(others q isNp').2] at same
        exact absurd same.symm ((serial left).2.2 q isNp' right)
    · rw [state_eq isNp] at left
      rw [(others p isNp).2] at same
      by_cases isNp' : q = np
      · rw [isNp'] at right same
        exact absurd same ((serial right).2.2 p isNp left)
      · rw [state_eq isNp'] at right
        rw [(others q isNp').2] at same
        exact families.distinct p q left right same
  · rw [reaped]
    exact ⟨families.reaped.1, fun n member => (families.reaped.2 n member).trans grows⟩

/-- The same, for a slot that has been allocated before. -/
theorem Families.embryo {np : ProcId} {new : Proc}
    (isEmbryo : b.state np = .embryo) (state : new.state ≠ .zombie ∧ new.state ≠ .sleeping)
    (parents : new.Exists → ∃ q, new.parent = some q)
    (alive : ∀ q, new.parent = some q → (b.table.proc q).Alive ∧ new.state ≠ .unused) :
    Families (b.withTable (b.table.set np new)) := by
  have self : (b.withTable (b.table.set np new)).table.proc np = new := set_self ..
  have used : b.state np ≠ .unused := by simp [isEmbryo]
  refine families.replace (fun exists_ => exists_.2 isEmbryo) (fun q other => ⟨set_of_ne _ other, rfl⟩)
    ⟨rfl, rfl, Nat.le_refl _⟩ ?_ ?_ ?_ fun _ => ?_
  · rw [self]
    exact state
  · rw [self]
    exact parents
  · rw [self]
    exact alive
  · obtain ⟨small, new⟩ := families.serials np used
    exact ⟨small, new, fun q other used' same => other (families.distinct q np used' used same)⟩

theorem Families.allocproc {np : ProcId} {table : Ptable}
    (found : b.table.allocproc = some (table, np)) : Families (b.allocate table np) := by
  obtain ⟨free, rfl⟩ := allocproc_cases found
  have parent : (b.table.proc np).parent = none := by
    cases isParent : (b.table.proc np).parent with
    | none => rfl
    | some q => exact absurd free (families.alive np q isParent).2.2
  have slot : ¬ (b.table.proc np).Exists := fun exists_ => exists_.1 free
  have self : (b.allocate { b.table.set np { b.table.proc np with
      state := .embryo, pid := b.table.nextpid } with nextpid := bump b.table.nextpid } np).table.proc np =
      { b.table.proc np with state := .embryo, pid := b.table.nextpid } := set_self ..
  refine families.replace slot (fun q other => ⟨set_of_ne _ other, update_of_ne other _ _⟩)
    ⟨rfl, rfl, Nat.le_succ _⟩ ?_ ?_ ?_ fun _ => ?_
  · rw [self]
    simp
  · rw [self]
    exact fun exists_ => absurd rfl exists_.2
  · rw [self]
    intro q isParent
    rw [parent] at isParent
    cases isParent
  · change update b.serial np (b.created + 1) np ≤ b.created + 1 ∧
      update b.serial np (b.created + 1) np ∉ b.reaped ∧
      ∀ q, q ≠ np → b.state q ≠ .unused → b.serial q ≠ update b.serial np (b.created + 1) np
    rw [update_self]
    refine ⟨Nat.le_refl _, fun member => ?_, fun q _ used same => ?_⟩
    · have small := families.reaped.2 _ member
      omega
    · have small := (families.serials q used).1
      omega

theorem Families.exit {p : ProcId} (running : b.state p = .running)
    (other : p ≠ b.table.initproc) : Families (b.withTable (b.table.exit p)) := by
  have exited := b.table.exited p
  have isRunning : (b.table.proc p).state = .running := running
  set after := b.withTable (b.table.exit p) with isAfter
  have procs : ∀ q, ∃ proc, Wakes (b.table.proc q) proc ∧ after.table.proc q = { proc with
      parent := if proc.parent = some p then some b.table.initproc else proc.parent
      state := if q = p then .zombie else proc.state } := exited.others
  have isInit : after.table.initproc = b.table.initproc := exited.frame.1
  have ends : (after.table.proc p).state = .zombie := exited.ends
  -- The slots of all other processes, up to being woken.
  have stays : ∀ q, q ≠ p → ∃ proc, Soft (b.table.proc q) proc ∧
      (after.table.proc q).state = proc.state ∧ (after.table.proc q).chan = proc.chan := by
    intro q unlike
    obtain ⟨proc, wakes, isProc⟩ := procs q
    refine ⟨proc, .of_wakes wakes, ?_, ?_⟩
    · rw [isProc, if_neg unlike]
    · rw [isProc]
  have parent : ∀ q, (after.table.proc q).parent =
      if (b.table.proc q).parent = some p then some b.table.initproc else (b.table.proc q).parent := by
    intro q
    obtain ⟨proc, wakes, isProc⟩ := procs q
    rw [isProc, ← wakes.parent_eq]
  have alive : ∀ {q}, q ≠ p → (b.table.proc q).Alive → (after.table.proc q).Alive := by
    intro q unlike lives
    obtain ⟨proc, soft, state, -⟩ := stays q unlike
    rw [Proc.Alive, state]
    exact (Stays.of_state soft.state soft.parent).alive lives
  have unused : ∀ q, after.state q ≠ .unused ↔ b.state q ≠ .unused := by
    intro q
    by_cases isP : q = p
    · subst isP
      rw [running, Books.state, ends]
      simp
    · obtain ⟨proc, soft, state, -⟩ := stays q isP
      rw [Books.state, state]
      exact not_congr (Stays.of_state soft.state soft.parent).unused
  have exists_ : ∀ q, (after.table.proc q).Exists → (b.table.proc q).Exists := by
    intro q exists_
    by_cases isP : q = p
    · rw [isP]
      simp [Proc.Exists, isRunning]
    · obtain ⟨proc, soft, state, -⟩ := stays q isP
      rw [Proc.Exists, state] at exists_
      exact (Stays.of_state soft.state soft.parent).exists_.mp exists_
  have notMine : (b.table.proc b.table.initproc).parent ≠ some p := by
    rw [families.init.2]
    simp
  refine ⟨?_, fun q unlike exists' => ?_, fun q r isParent => ?_, fun q sleeps chan z isParent isZombie => ?_,
    fun q used => families.serials q ((unused q).mp used),
    fun q r left right => families.distinct q r ((unused q).mp left) ((unused r).mp right), families.reaped⟩
  · rw [isInit, parent, if_neg notMine]
    exact ⟨alive other.symm families.init.1, families.init.2⟩
  · rw [parent]
    split
    · exact ⟨_, rfl⟩
    · exact families.parents q (isInit ▸ unlike) (exists_ q exists')
  · rw [parent] at isParent
    split at isParent
    · rename_i child
      cases isParent
      refine ⟨?_, alive other.symm families.init.1, (unused q).mpr (families.alive q p child).2.2⟩
      rintro rfl
      exact notMine child
    · rename_i notChild
      obtain ⟨unlike, lives, used⟩ := families.alive q r isParent
      have notP : r ≠ p := by
        rintro rfl
        exact notChild isParent
      exact ⟨unlike, alive notP lives, (unused q).mpr used⟩
  · have unlike : q ≠ p := by
      rintro rfl
      rw [ends] at sleeps
      cases sleeps
    obtain ⟨proc, soft, state, onChan⟩ := stays q unlike
    have slept := soft.waits (p := q) ⟨state ▸ sleeps, onChan ▸ chan⟩
    rw [parent] at isParent
    by_cases isP : z = p
    · -- The process itself: its parent has been woken.
      subst isP
      have notSelf : (b.table.proc z).parent ≠ some z := fun self => (families.alive z z self).1 rfl
      rw [if_neg notSelf] at isParent
      have woken := exited.wakesParent q unlike sleeps
      rw [isParent] at woken
      exact woken chan
    · obtain ⟨proc', soft', state', -⟩ := stays z isP
      have wasZombie := (Stays.of_state soft'.state soft'.parent).zombie.mp (state' ▸ isZombie)
      split at isParent
      · rename_i child
        cases isParent
        exact exited.wakesInit ⟨z, child, wasZombie⟩ _ unlike sleeps chan
      · exact families.awake q slept.1 slept.2 z isParent wasZombie

theorem Families.reap {p child : ProcId}
    (found : b.table.wait p = .found child) : Families (b.reap child) := by
  obtain ⟨isParent, isZombie⟩ := wait_found found
  have dead : ¬ (b.table.proc child).Alive := by
    rintro (state | state | state) <;> rw [isZombie] at state <;> cases state
  have used : b.state child ≠ .unused := by
    rw [Books.state, isZombie]
    simp
  have self : (b.reap child).table.proc child = Ptable.reaped (b.table.proc child) := set_self ..
  have others : ∀ q, q ≠ child → (b.reap child).table.proc q = b.table.proc q := fun q other =>
    set_of_ne _ other
  have unlike : b.table.initproc ≠ child := by
    rintro same
    exact dead (same ▸ families.init.1)
  have living : ∀ {q}, (b.table.proc q).Alive → q ≠ child := by
    rintro q alive rfl
    exact dead alive
  have kept : ∀ {q}, (b.reap child).state q ≠ .unused → q ≠ child ∧ b.state q ≠ .unused := by
    intro q used
    have notChild : q ≠ child := by
      rintro rfl
      rw [Books.state, self] at used
      exact used rfl
    rw [Books.state, others q notChild] at used
    exact ⟨notChild, used⟩
  refine ⟨?_, fun q other exists_ => ?_, fun q r isParent => ?_, fun q sleeps chan z isParent => ?_,
    fun q used' => ?_, fun q r left right => families.distinct q r (kept left).2 (kept right).2, ?_⟩
  · change ((b.reap child).table.proc b.table.initproc).Alive ∧
      ((b.reap child).table.proc b.table.initproc).parent = none
    rw [others _ unlike]
    exact families.init
  · have notChild : q ≠ child := by
      rintro rfl
      rw [self] at exists_
      exact exists_.1 rfl
    rw [others q notChild] at exists_ ⊢
    exact families.parents q other exists_
  · have notChild : q ≠ child := by
      rintro rfl
      rw [self] at isParent
      cases isParent
    rw [others q notChild] at isParent ⊢
    obtain ⟨unlike, alive, used⟩ := families.alive q r isParent
    rw [others r (living alive)]
    exact ⟨unlike, alive, used⟩
  · have notChild : z ≠ child := by
      rintro rfl
      rw [self] at isParent
      cases isParent
    rw [others z notChild] at isParent ⊢
    have notChild' : q ≠ child := living (families.alive z q isParent).2.1
    rw [others q notChild'] at sleeps chan
    exact families.awake q sleeps chan z isParent
  · obtain ⟨notChild, used''⟩ := kept used'
    obtain ⟨small, new⟩ := families.serials q used''
    refine ⟨small, fun member => ?_⟩
    rcases List.mem_cons.mp member with same | earlier
    · exact notChild (families.distinct q child used'' used same)
    · exact new earlier
  · refine ⟨List.nodup_cons.mpr ⟨(families.serials child used).2, families.reaped.1⟩, fun n member => ?_⟩
    rcases List.mem_cons.mp member with same | earlier
    · rw [same]
      exact (families.serials child used).1
    · exact families.reaped.2 n earlier

theorem Families.next {op : Op} (did : b.next op = some after) : Families after := by
  have alive : ∀ {p}, b.state p = .running → (b.table.proc p).Alive := fun running => Or.inr (Or.inl running)
  cases op with
  | run p =>
    obtain ⟨runnable, rfl⟩ := of_guard did
    exact families.set (Or.inl runnable) (Or.inr (Or.inl rfl)) rfl fun waits => by cases waits.1
  | yield p =>
    obtain ⟨running, rfl⟩ := of_guard did
    exact families.set (alive running) (Or.inl rfl) rfl fun waits => by cases waits.1
  | sleep p addr =>
    obtain ⟨running, rfl⟩ := of_guard did
    exact families.set (alive running) (Or.inr (Or.inr rfl)) rfl fun waits => by cases waits.2
  | tidyUp p =>
    obtain ⟨running, rfl⟩ := of_guard did
    exact families.set (alive running) (alive running) rfl fun waits => by cases waits.2
  | wakeup addr =>
    cases did
    exact families.soft (fun p => .of_wakes (wakes_wakeup1 _ p)) ⟨rfl, rfl, rfl, rfl⟩
  | kill pid =>
    cases did
    exact families.soft (Soft.kill b.table pid) ⟨(kill_frame pid).1, rfl, rfl, rfl⟩
  | allocproc np =>
    obtain ⟨⟨table, found⟩, isFound, rest⟩ := Option.bind_eq_some_iff.mp did
    obtain ⟨rfl, rfl⟩ := of_guard rest
    exact families.allocproc isFound
  | kallocFails np =>
    obtain ⟨⟨isEmbryo, parent⟩, rfl⟩ := of_guard did
    refine families.embryo isEmbryo (by simp) (fun exists_ => absurd rfl exists_.1) fun q isParent => ?_
    rw [parent] at isParent
    cases isParent
  | kallocWorks np =>
    obtain ⟨isEmbryo, rfl⟩ := of_guard did
    have embryo : (b.table.proc np).state = .embryo := isEmbryo
    refine families.embryo isEmbryo (by simp [embryo]) (fun exists_ => absurd embryo exists_.2)
      fun q isParent => ?_
    exact ⟨(families.alive np q isParent).2.1, by simp [embryo]⟩
  | copyuvmFails np =>
    obtain ⟨⟨isEmbryo, parent⟩, rfl⟩ := of_guard did
    refine families.embryo isEmbryo (by simp) (fun exists_ => absurd rfl exists_.1) fun q isParent => ?_
    rw [parent] at isParent
    cases isParent
  | copyuvmWorks np p =>
    obtain ⟨⟨isEmbryo, running⟩, rfl⟩ := of_guard did
    have embryo : (b.table.proc np).state = .embryo := isEmbryo
    refine families.embryo isEmbryo (by simp [embryo]) (fun _ => ⟨p, rfl⟩) fun q isParent => ?_
    cases isParent
    exact ⟨alive running, by simp [embryo]⟩
  | publish np p =>
    obtain ⟨⟨isEmbryo, parent, running⟩, rfl⟩ := of_guard did
    refine families.embryo isEmbryo (by simp) (fun _ => ⟨p, parent⟩) fun q isParent => ?_
    rw [parent] at isParent
    cases isParent
    exact ⟨alive running, by simp⟩
  | exit p =>
    obtain ⟨⟨running, other, -⟩, rfl⟩ := of_guard did
    exact families.exit running other
  | reap p child =>
    obtain ⟨⟨-, found⟩, rfl⟩ := of_guard did
    exact families.reap found
  | waitSleeps p =>
    obtain ⟨⟨running, sleeps⟩, rfl⟩ := of_guard did
    refine families.set (alive running) (Or.inr (Or.inr rfl)) rfl fun _ z isParent isZombie => ?_
    exact (wait_sleeps sleeps).2 z ⟨isParent, isZombie⟩

end

theorem booted_families : Families .booted := by
  have isInit : Books.booted.table.proc 0 = ⟨.runnable, 1, none, none, false, true, true⟩ := rfl
  have free : ∀ p, p ≠ 0 → Books.booted.table.proc p = ⟨.unused, 0, none, none, false, false, false⟩ :=
    fun p other => if_neg other
  have used : ∀ p, Books.booted.state p ≠ .unused → p = 0 := by
    intro p used
    by_contra other
    rw [Books.state, free p other] at used
    exact used rfl
  have parent : ∀ p, (Books.booted.table.proc p).parent = none := by
    intro p
    by_cases zero : p = 0
    · rw [zero, isInit]
    · rw [free p zero]
  refine ⟨⟨Or.inl rfl, rfl⟩, fun p other exists_ => absurd (used p exists_.1) other, fun p q isParent => ?_,
    fun q _ _ z isParent => ?_, fun p isUsed => ?_, fun p q left right _ => (used p left).trans (used q right).symm,
    List.nodup_nil, fun n member => (by cases member)⟩
  · rw [parent] at isParent
    cases isParent
  · rw [parent] at isParent
    cases isParent
  · rw [used p isUsed]
    exact ⟨Nat.le_refl 1, List.not_mem_nil⟩

theorem reaches_families (reached : atomic.Reaches .booted b) : Families b :=
  reached.preserves Families (fun _ _ _ families did => families.next did) booted_families

section

variable {C : Type} [DecidableEq C]

/-- In every state that any CPUs can reach: every process but `initproc` has a living
parent, free slots have none, and nobody sleeps in `wait` with a zombie to reap. A `wait`
that succeeds returns the number of a zombie child of its caller, which no `wait` has
returned before; so no process is returned twice. -/
theorem zombies_reapable (labels : List (C × Act)) (s : State C)
    (ran : (machine C).run State.booted labels = some s) :
    (∀ p, p ≠ s.table.initproc → (s.table.proc p).Exists →
      ∃ q, (s.table.proc p).parent = some q ∧ (s.table.proc q).Alive) ∧
    (∀ p, (s.table.proc p).state = .unused → (s.table.proc p).parent = none) ∧
    (∀ p, s.point p = .swtch .wait → (s.table.proc p).state = .sleeping →
      ∀ z, (s.table.proc z).parent = some p → (s.table.proc z).state ≠ .zombie) ∧
    (∀ c p child s', s.thread c = some p → s.point p = .wait → s.table.wait p = .found child →
      s.next (c, .go) = some s' →
      (s.table.proc child).parent = some p ∧ (s.table.proc child).state = .zombie ∧
        s'.ret p = (s.table.proc child).pid ∧ s.books.serial child ∉ s.books.reaped ∧
        s'.books.reaped = s.books.serial child :: s.books.reaped) ∧
    s.books.reaped.Nodup := by
  have inv := run_inv ran
  have families := reaches_families (machine_refines_atomic ran)
  refine ⟨fun p other exists_ => ?_, fun p isUnused => inv.settled.unused p isUnused,
    fun p isPoint sleeps z isParent => ?_, fun c p child s' on isPoint found stepped => ?_,
    families.reaped.1⟩
  · obtain ⟨q, isParent⟩ := families.parents p other exists_
    exact ⟨q, isParent, (families.alive p q isParent).2.1⟩
  · have nowhere : ∀ c, s.thread c ≠ some p := by
      intro c on
      have running := (inv.at_ on isPoint (by simp)).1
      rw [sleeps] at running
      cases running
    have parks := inv.parks p nowhere
    rw [Parks, sleeps, isPoint] at parks
    obtain other | ⟨-, onChan⟩ := parks
    · cases other
    · exact families.awake p sleeps onChan z isParent
  · obtain ⟨isParent, isZombie⟩ := wait_found found
    have isLock := (inv.at_ on isPoint (by simp)).2.mp rfl
    have used : s.books.state child ≠ .unused := by
      rw [Books.state, show (s.books.table.proc child).state = .zombie from isZombie]
      simp
    have isNext : s' = State.returns p (s.table.proc child).pid
        { s with books := s.books.reap child, lock := none } := by
      unfold State.next at stepped
      split at stepped
      · cases stepped
      · simp only [on] at stepped
        unfold State.process at stepped
        simp only [isPoint] at stepped
        rw [State.waitSection, found] at stepped
        simp only [release_books isLock] at stepped
        exact (Option.some.inj stepped).symm
    rw [isNext]
    exact ⟨isParent, isZombie, update_self .., (families.serials child used).2, rfl⟩

end

def childExits : List (Fin 1 × Act) :=
  [(0, .go), (0, .go), (0, .go), (0, .fork), (0, .go), (0, .go), (0, .go), (0, .go), (0, .go),
    (0, .wait), (0, .go), (0, .go), (0, .go), (0, .go), (0, .go), (0, .exit), (0, .go)]

theorem childExits_reapable :
    ∃ s, (machine (Fin 1)).run State.booted childExits = some s ∧ (s.table.proc 1).state = .zombie ∧
      ∃ q, (s.table.proc 1).parent = some q ∧ (s.table.proc q).Alive := by
  have outcome : ((machine (Fin 1)).run State.booted childExits).map
      (fun s : State (Fin 1) => ((s.table.proc 1).state, s.table.initproc)) = some (.zombie, 0) := by
    decide +kernel
  obtain ⟨s, ran, isOutcome⟩ := Option.map_eq_some_iff.mp outcome
  simp only [Prod.mk.injEq] at isOutcome
  obtain ⟨isZombie, isInit⟩ := isOutcome
  refine ⟨s, ran, isZombie, (zombies_reapable childExits s ran).1 1 ?_ ?_⟩
  · rw [isInit]
    decide
  · simp [Proc.Exists, isZombie]

end Xv6.Process
