import Xv6.Process.Zombies

/-!
Contract: whom `kill` affects.

`kill` does not look at the state of the slot that it finds. The number of a free slot is
0 or the one of a process whose `fork` failed, and `allocproc` keeps `killed`; so a `kill`
that hits a free slot, or a process whose `fork` fails later, kills the next process of the
slot. `kill_exact` is about runs without such calls.
-/

namespace Xv6.Process

open Function (update update_of_ne update_self)
open Xv6.Lib Ptable

variable {b after : Books}

/-- Process numbers are given out in turn. -/
structure Serials (b : Books) : Prop where
  next : b.created + 1 < 2 ^ 31 → b.table.nextpid = b.created + 1
  pids : b.created < 2 ^ 31 → ∀ p, b.state p ≠ .unused → (b.table.proc p).pid = b.serial p

/-- No process is new, and those that are left keep their numbers. -/
structure NoneNew (b after : Books) : Prop where
  nextpid : after.table.nextpid = b.table.nextpid
  created : after.created = b.created
  serial : after.serial = b.serial
  slots : ∀ p, after.state p ≠ .unused → b.state p ≠ .unused ∧ (after.table.proc p).pid = (b.table.proc p).pid

theorem NoneNew.set {p : ProcId} {new : Proc} (used : b.state p ≠ .unused) (pid : new.pid = (b.table.proc p).pid) :
    NoneNew b (b.withTable (b.table.set p new)) := by
  refine ⟨rfl, rfl, rfl, fun q usedAfter => ?_⟩
  by_cases isP : q = p
  · subst isP
    refine ⟨used, ?_⟩
    change ((b.table.set q new).proc q).pid = _
    rw [set_self, pid]
  · have same : (b.table.set p new).proc q = b.table.proc q := set_of_ne new isP
    change ((b.table.set p new).proc q).state ≠ _ at usedAfter
    rw [same] at usedAfter
    exact ⟨usedAfter, congrArg Proc.pid same⟩

theorem NoneNew.wakes {table : Ptable} (wakes : ∀ p, Wakes (b.table.proc p) (table.proc p))
    (nextpid : table.nextpid = b.table.nextpid) : NoneNew b (b.withTable table) := by
  refine ⟨nextpid, rfl, rfl, fun p used => ?_⟩
  change (table.proc p).state ≠ .unused at used
  change (b.table.proc p).state ≠ .unused ∧ (table.proc p).pid = (b.table.proc p).pid
  rcases wakes p with same | ⟨sleeps, woke⟩
  · rw [same] at used ⊢
    exact ⟨used, rfl⟩
  · rw [woke, sleeps]
    exact ⟨nofun, rfl⟩

theorem NoneNew.kill (pid : Int) : NoneNew b (b.kill pid) := by
  refine ⟨(kill_frame pid).2, rfl, rfl, fun p used => ?_⟩
  change ((b.table.kill pid).1.proc p).state ≠ .unused at used
  change (b.table.proc p).state ≠ .unused ∧ ((b.table.kill pid).1.proc p).pid = _
  rcases kill_cases (t := b.table) pid with ⟨-, same⟩ | ⟨q, -, -, isTable⟩
  · rw [same] at used ⊢
    exact ⟨used, rfl⟩
  · rw [isTable] at used ⊢
    by_cases isQ : p = q
    · subst isQ
      rw [set_self] at used ⊢
      refine ⟨fun isFree => used ?_, rfl⟩
      simp [isFree]
    · rw [set_of_ne _ isQ] at used ⊢
      exact ⟨used, rfl⟩

theorem NoneNew.exit {p : ProcId} (running : b.state p = .running) :
    NoneNew b (b.withTable (b.table.exit p)) := by
  have exited := b.table.exited p
  refine ⟨exited.frame.2, rfl, rfl, fun q used => ?_⟩
  obtain ⟨proc, wakes, isProc⟩ := exited.others q
  have same : proc.pid = (b.table.proc q).pid ∧ (proc.state ≠ .unused → (b.table.proc q).state ≠ .unused) := by
    rcases wakes with rfl | ⟨sleeps, rfl⟩
    · exact ⟨rfl, id⟩
    · exact ⟨rfl, fun _ => by simp [sleeps]⟩
  change ((b.table.exit p).proc q).state ≠ .unused at used
  change (b.table.proc q).state ≠ .unused ∧ ((b.table.exit p).proc q).pid = _
  rw [isProc] at used ⊢
  by_cases isP : q = p
  · subst isP
    rw [if_pos rfl] at used ⊢
    change (b.table.proc q).state = .running at running
    exact ⟨by simp [running], same.1⟩
  · rw [if_neg isP] at used ⊢
    exact ⟨same.2 used, same.1⟩

theorem NoneNew.reap (child : ProcId) : NoneNew b (b.reap child) := by
  refine ⟨rfl, rfl, rfl, fun p used => ?_⟩
  change ((b.table.set child (Ptable.reaped (b.table.proc child))).proc p).state ≠ .unused at used
  change _ ∧ ((b.table.set child (Ptable.reaped (b.table.proc child))).proc p).pid = _
  by_cases isChild : p = child
  · rw [isChild, set_self] at used
    exact absurd rfl used
  · rw [set_of_ne _ isChild] at used ⊢
    exact ⟨used, rfl⟩

theorem next_numbers {op : Op} (did : b.next op = some after) :
    (∃ np table, op = .allocproc np ∧ b.table.allocproc = some (table, np) ∧ after = b.allocate table np) ∨
      (∀ np, op ≠ .allocproc np) ∧ NoneNew b after := by
  have used : ∀ {p state}, b.state p = state → state ≠ .unused → b.state p ≠ .unused := by
    rintro p state rfl used
    exact used
  cases op with
  | allocproc np =>
    obtain ⟨⟨table, found⟩, isFound, rest⟩ := Option.bind_eq_some_iff.mp did
    obtain ⟨rfl, rfl⟩ := of_guard rest
    exact Or.inl ⟨found, table, rfl, isFound, rfl⟩
  | run p =>
    obtain ⟨runnable, rfl⟩ := of_guard did
    exact Or.inr ⟨nofun, .set (used runnable (by simp)) rfl⟩
  | yield p =>
    obtain ⟨running, rfl⟩ := of_guard did
    exact Or.inr ⟨nofun, .set (used running (by simp)) rfl⟩
  | sleep p addr =>
    obtain ⟨running, rfl⟩ := of_guard did
    exact Or.inr ⟨nofun, .set (used running (by simp)) rfl⟩
  | tidyUp p =>
    obtain ⟨running, rfl⟩ := of_guard did
    exact Or.inr ⟨nofun, .set (used running (by simp)) rfl⟩
  | wakeup addr =>
    cases did
    exact Or.inr ⟨nofun, .wakes (wakes_wakeup1 _) rfl⟩
  | kill pid =>
    cases did
    exact Or.inr ⟨nofun, .kill pid⟩
  | kallocFails np =>
    obtain ⟨⟨isEmbryo, -⟩, rfl⟩ := of_guard did
    exact Or.inr ⟨nofun, .set (used isEmbryo (by simp)) rfl⟩
  | kallocWorks np =>
    obtain ⟨isEmbryo, rfl⟩ := of_guard did
    exact Or.inr ⟨nofun, .set (used isEmbryo (by simp)) rfl⟩
  | copyuvmFails np =>
    obtain ⟨⟨isEmbryo, -⟩, rfl⟩ := of_guard did
    exact Or.inr ⟨nofun, .set (used isEmbryo (by simp)) rfl⟩
  | copyuvmWorks np p =>
    obtain ⟨⟨isEmbryo, -⟩, rfl⟩ := of_guard did
    exact Or.inr ⟨nofun, .set (used isEmbryo (by simp)) rfl⟩
  | publish np p =>
    obtain ⟨⟨isEmbryo, -⟩, rfl⟩ := of_guard did
    exact Or.inr ⟨nofun, .set (used isEmbryo (by simp)) rfl⟩
  | exit p =>
    obtain ⟨⟨running, -⟩, rfl⟩ := of_guard did
    exact Or.inr ⟨nofun, .exit running⟩
  | reap p child =>
    obtain ⟨-, rfl⟩ := of_guard did
    exact Or.inr ⟨nofun, .reap child⟩
  | waitSleeps p =>
    obtain ⟨⟨running, -⟩, rfl⟩ := of_guard did
    exact Or.inr ⟨nofun, .set (used running (by simp)) rfl⟩

theorem Serials.noneNew (serials : Serials b) (same : NoneNew b after) : Serials after := by
  refine ⟨fun few => ?_, fun few p used => ?_⟩
  · rw [same.nextpid, same.created]
    exact serials.next (same.created ▸ few)
  · obtain ⟨usedBefore, pid⟩ := same.slots p used
    rw [pid, same.serial]
    exact serials.pids (same.created ▸ few) p usedBefore

theorem Serials.allocate (serials : Serials b) {np : ProcId} {table : Ptable}
    (found : b.table.allocproc = some (table, np)) : Serials (b.allocate table np) := by
  obtain ⟨-, rfl⟩ := allocproc_cases found
  refine ⟨fun few => ?_, fun few p used => ?_⟩
  · have small : b.created + 1 + 1 < 2 ^ 31 := few
    change bump b.table.nextpid = ((b.created + 1 : Nat) : Int) + 1
    rw [serials.next (by omega), bump, toInt32_ofInt32 (by omega) (by omega)]
    push_cast
    rfl
  · have small : b.created + 1 < 2 ^ 31 := few
    by_cases isNp : p = np
    · subst isNp
      refine (congrArg Proc.pid (set_self ..)).trans ?_
      change b.table.nextpid = (update b.serial p (b.created + 1) p : Nat)
      rw [update_self, serials.next small]
      rfl
    · have same := set_of_ne (t := b.table) { b.table.proc np with state := .embryo, pid := b.table.nextpid } isNp
      refine (congrArg Proc.pid same).trans ?_
      have serial : (update b.serial np (b.created + 1)) p = b.serial p := update_of_ne isNp _ _
      refine (serials.pids (by omega) p fun isFree => used ?_).trans (congrArg Nat.cast serial.symm)
      exact (congrArg Proc.state same).trans isFree

/-- The operation kills no free slot, and frees no killed one but in `wait`. -/
def Op.Spares (b : Books) : Op → Prop
  | .kill pid => ∀ q, b.state q = .unused → (b.table.proc q).pid ≠ pid
  | .kallocFails np | .copyuvmFails np => (b.table.proc np).killed = false
  | _ => True

instance (b : Books) (op : Op) : Decidable (op.Spares b) := by
  unfold Op.Spares
  cases op <;> infer_instance

/-- What holds of process numbers and of `killed`. -/
structure Numbered (b : Books) : Prop where
  next : b.created + 1 < 2 ^ 31 → b.table.nextpid = b.created + 1
  pids : b.created < 2 ^ 31 → ∀ p, b.state p ≠ .unused → (b.table.proc p).pid = b.serial p
  positive : ∀ p, b.state p ≠ .unused → 1 ≤ b.serial p
  killed : ∀ p, b.state p ≠ .unused → (b.table.proc p).killed = true → b.named p = true
  free : ∀ p, b.state p = .unused → (b.table.proc p).killed = false

/-- A slot that keeps its number and `killed`. -/
structure Marked (old new : Proc) : Prop where
  pid : new.pid = old.pid
  killed : new.killed = old.killed
  used : new.state ≠ .unused → old.state ≠ .unused
  free : new.state = .unused → old.state = .unused ∨ old.killed = false

theorem Marked.refl (proc : Proc) : Marked proc proc := ⟨rfl, rfl, id, Or.inl⟩

theorem Marked.of_state {old new : Proc} (pid : new.pid = old.pid) (killed : new.killed = old.killed)
    (used : old.state ≠ .unused) (used' : new.state ≠ .unused) : Marked old new :=
  ⟨pid, killed, fun _ => used, fun isUnused => absurd isUnused used'⟩

theorem Marked.of_wakes {old new : Proc} (wakes : Wakes old new) : Marked old new := by
  rcases wakes with rfl | ⟨sleeps, rfl⟩
  · exact .refl _
  · exact .of_state rfl rfl (by simp [sleeps]) (by simp)

section

variable (numbered : Numbered b)

include numbered

theorem Numbered.serials : Serials b := ⟨numbered.next, numbered.pids⟩

theorem Numbered.noneNew (same : NoneNew b after)
    (killed : ∀ p, after.state p ≠ .unused → (after.table.proc p).killed = true → after.named p = true)
    (free : ∀ p, after.state p = .unused → (after.table.proc p).killed = false) : Numbered after := by
  obtain ⟨next, pids⟩ := numbered.serials.noneNew same
  refine ⟨next, pids, fun p used => ?_, killed, free⟩
  rw [same.serial]
  exact numbered.positive p (same.slots p used).1

theorem Numbered.marked (same : NoneNew b after)
    (marked : ∀ p, Marked (b.table.proc p) (after.table.proc p)) (named : after.named = b.named) :
    Numbered after := by
  refine numbered.noneNew same (fun p used isKilled => ?_) fun p isFree => ?_
  · rw [(marked p).killed] at isKilled
    rw [named]
    exact numbered.killed p ((marked p).used used) isKilled
  · rw [(marked p).killed]
    rcases (marked p).free isFree with wasFree | spared
    · exact numbered.free p wasFree
    · exact spared

theorem Numbered.set {p : ProcId} {new : Proc}
    (same : NoneNew b (b.withTable (b.table.set p new))) (marked : Marked (b.table.proc p) new) :
    Numbered (b.withTable (b.table.set p new)) := by
  refine numbered.marked same (fun q => ?_) rfl
  change Marked _ ((b.table.set p new).proc q)
  by_cases isP : q = p
  · rw [isP, set_self]
    exact marked
  · rw [set_of_ne _ isP]
    exact .refl _

theorem Numbered.kill {pid : Int}
    (spares : ∀ q, b.state q = .unused → (b.table.proc q).pid ≠ pid) : Numbered (b.kill pid) := by
  -- The process that is found is in use, and so it is named.
  have slots : ∀ p, (b.kill pid).state p = .unused → b.state p = .unused := by
    intro p
    change ((b.table.kill pid).1.proc p).state = .unused → _
    rcases kill_cases (t := b.table) pid with ⟨-, same⟩ | ⟨q, -, -, isTable⟩
    · rw [same]
      exact id
    · rw [isTable]
      by_cases isQ : p = q
      · subst isQ
        rw [set_self]
        simp only
        split
        · nofun
        · exact id
      · rw [set_of_ne _ isQ]
        exact id
  have killed : ∀ p, ((b.kill pid).table.proc p).killed = true → (b.table.proc p).killed = true ∨
      b.state p ≠ .unused ∧ (b.table.proc p).pid = pid := by
    intro p
    change ((b.table.kill pid).1.proc p).killed = true → _
    rcases kill_cases (t := b.table) pid with ⟨-, same⟩ | ⟨q, isPid, -, isTable⟩
    · rw [same]
      exact Or.inl
    · rw [isTable]
      by_cases isQ : p = q
      · subst isQ
        exact fun _ => Or.inr ⟨fun isFree => spares p isFree isPid, isPid⟩
      · rw [set_of_ne _ isQ]
        exact Or.inl
  refine numbered.noneNew (.kill pid) (fun p isUsed isKilled => ?_) fun p isFree => ?_
  · change (b.named p || decide (b.state p ≠ .unused ∧ (b.table.proc p).pid = pid)) = true
    rcases killed p isKilled with already | both
    · rw [numbered.killed p ((NoneNew.kill pid).slots p isUsed).1 already]
      rfl
    · rw [decide_eq_true both, Bool.or_true]
  · have wasFree := slots p isFree
    cases isKilled : ((b.kill pid).table.proc p).killed with
    | false => rfl
    | true =>
      rcases killed p isKilled with already | ⟨used, -⟩
      · rw [numbered.free p wasFree] at already
        exact already.symm
      · exact absurd wasFree used

theorem Numbered.allocproc {np : ProcId} {table : Ptable}
    (found : b.table.allocproc = some (table, np)) : Numbered (b.allocate table np) := by
  obtain ⟨next, pids⟩ := numbered.serials.allocate found
  obtain ⟨isFree, rfl⟩ := allocproc_cases found
  set after := b.allocate { b.table.set np { b.table.proc np with
    state := .embryo, pid := b.table.nextpid } with nextpid := bump b.table.nextpid } np
  have self : after.table.proc np = { b.table.proc np with state := .embryo, pid := b.table.nextpid } :=
    set_self ..
  have others : ∀ q, q ≠ np → after.table.proc q = b.table.proc q ∧ after.serial q = b.serial q ∧
      after.named q = b.named q := fun q other =>
    ⟨set_of_ne _ other, update_of_ne other _ _, update_of_ne other _ _⟩
  have used : ∀ q, q ≠ np → (after.state q ≠ .unused ↔ b.state q ≠ .unused) := fun q other => by
    rw [Books.state, (others q other).1]
    rfl
  refine ⟨next, pids, fun p isUsed => ?_, fun p isUsed isKilled => ?_, fun p isFree' => ?_⟩
  · by_cases isNp : p = np
    · rw [isNp, show after.serial np = b.created + 1 from update_self ..]
      omega
    · rw [(others p isNp).2.1]
      exact numbered.positive p ((used p isNp).mp isUsed)
  · by_cases isNp : p = np
    · rw [isNp, self] at isKilled
      change (b.table.proc np).killed = true at isKilled
      rw [numbered.free np isFree] at isKilled
      cases isKilled
    · rw [(others p isNp).1] at isKilled
      rw [(others p isNp).2.2]
      exact numbered.killed p ((used p isNp).mp isUsed) isKilled
  · have isNp : p ≠ np := by
      rintro rfl
      rw [Books.state, self] at isFree'
      cases isFree'
    rw [(others p isNp).1]
    rw [Books.state, (others p isNp).1] at isFree'
    exact numbered.free p isFree'

theorem Numbered.reap (child : ProcId) : Numbered (b.reap child) := by
  have self : (b.reap child).table.proc child = Ptable.reaped (b.table.proc child) := set_self ..
  have others : ∀ q, q ≠ child → (b.reap child).table.proc q = b.table.proc q := fun q other =>
    set_of_ne _ other
  refine numbered.noneNew (.reap child) (fun p isUsed isKilled => ?_) fun p isFree => ?_
  · have notChild : p ≠ child := by
      rintro rfl
      rw [self] at isKilled
      cases isKilled
    rw [others p notChild] at isKilled
    exact numbered.killed p ((NoneNew.reap child).slots p isUsed).1 isKilled
  · by_cases isChild : p = child
    · rw [isChild, self]
      rfl
    · rw [others p isChild]
      rw [Books.state, others p isChild] at isFree
      exact numbered.free p isFree

theorem Numbered.opNext {op : Op} (spares : op.Spares b)
    (did : b.next op = some after) : Numbered after := by
  have used : ∀ {p state}, b.state p = state → state ≠ .unused → (b.table.proc p).state ≠ .unused := by
    rintro p state rfl used
    exact used
  rcases next_numbers did with ⟨np, table, rfl, found, rfl⟩ | ⟨others, same⟩
  · exact numbered.allocproc found
  cases op with
  | run p =>
    obtain ⟨runnable, rfl⟩ := of_guard did
    exact numbered.set same (.of_state rfl rfl (used runnable (by simp)) (by simp))
  | yield p =>
    obtain ⟨running, rfl⟩ := of_guard did
    exact numbered.set same (.of_state rfl rfl (used running (by simp)) (by simp))
  | sleep p addr =>
    obtain ⟨running, rfl⟩ := of_guard did
    exact numbered.set same (.of_state rfl rfl (used running (by simp)) (by simp))
  | tidyUp p =>
    obtain ⟨running, rfl⟩ := of_guard did
    exact numbered.set same (.of_state rfl rfl (used running (by simp)) (used running (by simp)))
  | wakeup addr =>
    cases did
    exact numbered.marked same (fun p => .of_wakes (wakes_wakeup1 _ p)) rfl
  | kill pid =>
    cases did
    exact numbered.kill spares
  | allocproc np => exact absurd rfl (others np)
  | kallocFails np =>
    obtain ⟨⟨isEmbryo, -⟩, rfl⟩ := of_guard did
    exact numbered.set same ⟨rfl, rfl, fun _ => used isEmbryo (by simp), fun _ => Or.inr spares⟩
  | kallocWorks np =>
    obtain ⟨isEmbryo, rfl⟩ := of_guard did
    exact numbered.set same (.of_state rfl rfl (used isEmbryo (by simp)) (used isEmbryo (by simp)))
  | copyuvmFails np =>
    obtain ⟨⟨isEmbryo, -⟩, rfl⟩ := of_guard did
    exact numbered.set same ⟨rfl, rfl, fun _ => used isEmbryo (by simp), fun _ => Or.inr spares⟩
  | copyuvmWorks np p =>
    obtain ⟨⟨isEmbryo, -⟩, rfl⟩ := of_guard did
    exact numbered.set same (.of_state rfl rfl (used isEmbryo (by simp)) (used isEmbryo (by simp)))
  | publish np p =>
    obtain ⟨⟨isEmbryo, -⟩, rfl⟩ := of_guard did
    exact numbered.set same (.of_state rfl rfl (used isEmbryo (by simp)) (by simp))
  | exit p =>
    obtain ⟨⟨running, -⟩, rfl⟩ := of_guard did
    have exited := b.table.exited p
    refine numbered.marked same (fun q => ?_) rfl
    obtain ⟨proc, wakes, isProc⟩ := exited.others q
    have marked := Marked.of_wakes wakes
    change Marked _ ((b.table.exit p).proc q)
    rw [isProc]
    by_cases isP : q = p
    · subst isP
      rw [if_pos rfl]
      exact .of_state marked.pid marked.killed (used running (by simp)) (by simp)
    · rw [if_neg isP]
      exact ⟨marked.pid, marked.killed, marked.used, marked.free⟩
  | reap p child =>
    obtain ⟨-, rfl⟩ := of_guard did
    exact numbered.reap child
  | waitSleeps p =>
    obtain ⟨⟨running, -⟩, rfl⟩ := of_guard did
    exact numbered.set same (.of_state rfl rfl (used running (by simp)) (by simp))

omit numbered in
theorem booted_numbered : Numbered .booted := by
  have used : ∀ p, Books.booted.state p ≠ .unused → p = 0 := by
    intro p used
    by_contra other
    exact used (congrArg Proc.state (if_neg other))
  refine ⟨fun _ => rfl, fun _ p isUsed => ?_, fun p isUsed => ?_, fun p isUsed isKilled => ?_,
    fun p isFree => ?_⟩
  · rw [used p isUsed]
    rfl
  · rw [used p isUsed]
    exact Nat.le_refl 1
  · rw [used p isUsed] at isKilled
    cases isKilled
  · have other : p ≠ 0 := by
      rintro rfl
      cases isFree
    exact congrArg Proc.killed (if_neg other)

/-- While less than `2 ^ 31` processes have been made, numbers tell them apart. -/
theorem Numbered.pid_injective (families : Families b)
    (few : b.created < 2 ^ 31) {p q : ProcId} (used : b.state p ≠ .unused) (used' : b.state q ≠ .unused)
    (same : (b.table.proc p).pid = (b.table.proc q).pid) : p = q := by
  rw [numbered.pids few p used, numbered.pids few q used'] at same
  exact families.distinct p q used used' (by exact_mod_cast same)

/-- What `kill` does with a number that no free slot has. -/
theorem Numbered.kill_finds (families : Families b) (few : b.created < 2 ^ 31)
    {pid : Int} (spares : ∀ q, b.state q = .unused → (b.table.proc q).pid ≠ pid) :
    ((b.table.kill pid).2 = 0 ↔ ∃ p, b.state p ≠ .unused ∧ (b.table.proc p).pid = pid) ∧
      ∀ p, b.state p ≠ .unused → (b.table.proc p).pid = pid →
        (b.table.kill pid).1 = b.table.set p { b.table.proc p with
          killed := true
          state := if b.state p = .sleeping then .runnable else b.state p } := by
  rcases kill_cases (t := b.table) pid with ⟨nobody, same⟩ | ⟨q, isPid, isZero, isTable⟩
  · rw [same]
    refine ⟨⟨fun isZero => (by cases isZero), ?_⟩, ?_⟩
    · rintro ⟨p, -, isPid⟩
      exact absurd isPid (nobody p)
    · intro p _ isPid
      exact absurd isPid (nobody p)
  · have used : b.state q ≠ .unused := fun isFree => spares q isFree isPid
    refine ⟨⟨fun _ => ⟨q, used, isPid⟩, fun _ => isZero⟩, fun p used' isPid' => ?_⟩
    have same : p = q := numbered.pid_injective families few used' used (isPid'.trans isPid.symm)
    rw [same, isTable]
    rfl

end

section

variable {C : Type} [DecidableEq C]

/-- The operation that the step stands for spares the free slots. -/
def State.Spares (s : State C) (label : C × Act) : Prop := ∀ op ∈ s.op label, op.Spares s.books

instance (s : State C) (label : C × Act) : Decidable (s.Spares label) := by
  unfold State.Spares
  infer_instance

theorem run_numbered {labels : List (C × Act)} {s : State C}
    (meets : (machine C).Meets State.Spares State.booted labels)
    (ran : (machine C).run State.booted labels = some s) : Numbered s.books := by
  have both : Inv s ∧ Numbered s.books := by
    refine System.run_preserves_of_meets (fun s => Inv s ∧ Numbered s.books) ?_
      ⟨booted_inv, booted_numbered⟩ meets ran
    rintro before label after ⟨inv, numbered⟩ spares stepped
    obtain ⟨inv', same | ⟨op, isOp, did⟩⟩ := inv.next stepped
    · rw [same]
      exact ⟨inv', numbered⟩
    · exact ⟨inv', numbered.opNext (spares op isOp) did⟩
  exact both.2

/-- In runs whose calls of `kill` spare the free slots, while less than `2 ^ 31` processes
have been made: processes have distinct positive numbers, `kill` finds exactly the process
with its number and changes no other, and only processes that were named are killed. -/
theorem kill_exact (labels : List (C × Act)) (s : State C)
    (ran : (machine C).run State.booted labels = some s)
    (meets : (machine C).Meets State.Spares State.booted labels) (few : s.books.created < 2 ^ 31) :
    (∀ p, (s.table.proc p).state ≠ .unused → 0 < (s.table.proc p).pid) ∧
    (∀ p q, (s.table.proc p).state ≠ .unused → (s.table.proc q).state ≠ .unused →
      (s.table.proc p).pid = (s.table.proc q).pid → p = q) ∧
    (∀ pid, (∀ q, (s.table.proc q).state = .unused → (s.table.proc q).pid ≠ pid) →
      ((s.table.kill pid).2 = 0 ↔
        ∃ p, (s.table.proc p).state ≠ .unused ∧ (s.table.proc p).pid = pid) ∧
      ∀ p, (s.table.proc p).state ≠ .unused → (s.table.proc p).pid = pid →
        (s.table.kill pid).1 = s.table.set p { s.table.proc p with
          killed := true
          state := if (s.table.proc p).state = .sleeping then .runnable
            else (s.table.proc p).state }) ∧
    ∀ p, (s.table.proc p).state ≠ .unused → s.books.named p = false →
      (s.table.proc p).killed = false := by
  have families := reaches_families (machine_refines_atomic ran)
  have numbered := run_numbered meets ran
  refine ⟨fun p used => ?_, fun p q used used' same =>
    numbered.pid_injective families few used used' same, fun pid spares =>
    numbered.kill_finds families few spares, fun p used notNamed => ?_⟩
  · have isSerial := numbered.pids few p used
    have positive := numbered.positive p used
    change 0 < (s.books.table.proc p).pid
    omega
  · cases isKilled : (s.table.proc p).killed with
    | false => rfl
    | true =>
      have isNamed := numbered.killed p used isKilled
      rw [notNamed] at isNamed
      exact isNamed.symm

end

def childKilled : List (Fin 1 × Act) :=
  [(0, .go), (0, .go), (0, .go), (0, .fork), (0, .go), (0, .go), (0, .go), (0, .go), (0, .go),
    (0, .kill 2), (0, .go)]

theorem childKilled_exact :
    ∃ s, (machine (Fin 1)).run State.booted childKilled = some s ∧ s.ret 0 = 0 ∧
      (s.table.proc 1).killed = true ∧ s.books.named 1 = true ∧
      (s.table.proc 0).state ≠ .unused ∧ (s.table.proc 0).killed = false := by
  have outcome : ((machine (Fin 1)).run State.booted childKilled).map
      (fun s : State (Fin 1) => (s.ret 0, (s.table.proc 1).killed, s.books.named 1, s.books.named 0,
        (s.table.proc 0).state, s.books.created)) = some (0, true, true, false, .running, 2) := by
    decide +kernel
  obtain ⟨s, ran, isOutcome⟩ := Option.map_eq_some_iff.mp outcome
  simp only [Prod.mk.injEq] at isOutcome
  obtain ⟨isZero, isKilled, isNamed, notNamed, running, created⟩ := isOutcome
  have used : (s.table.proc 0).state ≠ .unused := by simp [running]
  have exact := kill_exact childKilled s ran (by decide +kernel) (by omega)
  exact ⟨s, ran, isZero, isKilled, isNamed, used, exact.2.2.2 0 used notNamed⟩

/-- `initproc` kills 0, the number of a free slot, and forks: `kill` has found a process, and
the child starts out killed without having been named. -/
def zeroKilled : List (Fin 1 × Act) :=
  [(0, .go), (0, .go), (0, .go), (0, .kill 0), (0, .go)]

theorem forked_child_killed :
    (∃ s, (machine (Fin 1)).run State.booted zeroKilled = some s ∧ s.ret 0 = 0 ∧
      (s.table.kill 0).2 = 0 ∧
      ∀ p, (s.table.proc p).state ≠ .unused → (s.table.proc p).pid ≠ 0) ∧
    ∃ s, (machine (Fin 1)).run State.booted (zeroKilled ++
        [(0, .fork), (0, .go), (0, .go), (0, .go), (0, .go), (0, .go)]) = some s ∧
      s.ret 0 = 2 ∧ s.books.created < 2 ^ 31 ∧ (s.table.proc 1).pid = 2 ∧
      (s.table.proc 1).state = .runnable ∧ s.books.named 1 = false ∧
      (s.table.proc 1).killed = true := by
  have first : ((machine (Fin 1)).run State.booted zeroKilled).map
      (fun s : State (Fin 1) => (s.ret 0, (s.table.kill 0).2,
        decide (∀ p, (s.table.proc p).state ≠ .unused → (s.table.proc p).pid ≠ 0))) =
        some (0, 0, true) := by
    decide +kernel
  have second : ((machine (Fin 1)).run State.booted (zeroKilled ++
      [(0, .fork), (0, .go), (0, .go), (0, .go), (0, .go), (0, .go)])).map
      (fun s : State (Fin 1) => (s.ret 0, decide (s.books.created < 2 ^ 31), (s.table.proc 1).pid,
        (s.table.proc 1).state, s.books.named 1, (s.table.proc 1).killed)) =
        some (2, true, 2, .runnable, false, true) := by
    decide +kernel
  obtain ⟨s, ran, isFirst⟩ := Option.map_eq_some_iff.mp first
  obtain ⟨s', ran', isSecond⟩ := Option.map_eq_some_iff.mp second
  simp only [Prod.mk.injEq] at isFirst isSecond
  obtain ⟨isZero, again, nobody⟩ := isFirst
  obtain ⟨isTwo, few, isPid, runnable, notNamed, isKilled⟩ := isSecond
  exact ⟨⟨s, ran, isZero, again, of_decide_eq_true nobody⟩,
    ⟨s', ran', isTwo, of_decide_eq_true few, isPid, runnable, notNamed, isKilled⟩⟩

end Xv6.Process
