import Xv6.RedoLog.Reservation
import Xv6.Lib.Monitor

/-!
Contract: who may be between `begin_op` and `end_op`, who commits, and who sleeps on
`&log`, under every interleaving of the acquires and releases of `log.lock` and
`ptable.lock`.

Owns: `begin_op`, `log_write` and `end_op` as the program of one process, the state of
the protocol in all runs, and that nobody sleeps who could be admitted.

Does not own: the sections themselves and how many blocks an operation may log
(`RedoLog.Reservation`); what `commit` writes (`RedoLog.Commit`); the mechanism of sleep
and wakeup (`Lib.Monitor`).
-/

namespace Xv6.RedoLog.Admission

open Function Xv6.Lib

/-- Where a process is. In `beginning` and `ending` it has called the function and not
left its first section; in `writing` it has passed the unlocked tests of `log_write`;
in `committing` it runs `commit`, and in `finishing` it has returned from there. -/
inductive Control where
  | idle
  | beginning
  | inOp
  | writing (blockno : Nat)
  | ending
  | committing
  | finishing
deriving DecidableEq

structure Shared where
  log : Log
  panicked : Option LogPanic

inductive Move where
  | beginOp
  | logWrite (blockno : Nat)
  | endOp
  | commit

/-- `begin_op` tests again after each `sleep`. -/
def beginOp (s : Shared) : Stretch Shared Control Unit :=
  match beginOpSection s.log with
  | none => ⟨s, .beginning, [], .sleep ()⟩
  | some log => ⟨{ s with log }, .inOp, [], .leave⟩

def endOp (s : Shared) : Stretch Shared Control Unit :=
  match endOpSection s.log with
  | .error panic => ⟨{ s with panicked := some panic }, .ending, [], .leave⟩
  | .ok (log, true) => ⟨{ s with log }, .committing, [], .leave⟩
  | .ok (log, false) => ⟨{ s with log }, .idle, [()], .leave⟩

/-- The sections under `log.lock`. After a panic nothing runs. -/
def enter (s : Shared) (c : Control) : Option (Stretch Shared Control Unit) :=
  if s.panicked = none then
    match c with
    | .beginning => some (beginOp s)
    | .writing blockno => some ⟨{ s with log := logWriteRecord s.log blockno }, .inOp, [], .leave⟩
    | .ending => some (endOp s)
    | .finishing => some ⟨{ s with log := endOpFinish s.log }, .idle, [()], .leave⟩
    | _ => none
  else none

/-- What a process does without the lock. -/
def free (move : Move) (s : Shared) (c : Control) : Option (Shared × Control) :=
  if s.panicked = none then
    match move, c with
    | .beginOp, .idle => some (s, .beginning)
    | .logWrite blockno, .inOp =>
      match logWriteCheck s.log with
      | .ok _ => some (s, .writing blockno)
      | .error panic => some ({ s with panicked := some panic }, .inOp)
    | .endOp, .inOp => some (s, .ending)
    | .commit, .committing => some ({ s with log := commitLog s.log }, .finishing)
    | _, _ => none
  else none

def program (P : Type) : Program P Shared Control Unit Move where
  enter _ := enter
  free _ := free

/-- Any number of processes, lock operation by lock operation. -/
def admission (P : Type) [DecidableEq P] :
    System (MonitorState P Shared Control Unit) (MonitorLabel P Move) :=
  monitor (program P)

def start (P : Type) (log : Log) : MonitorState P Shared Control Unit :=
  .initial ⟨log, none⟩ fun _ => .idle

/-- Between the return of `begin_op` and the decrement in `end_op`. -/
def Control.InOp : Control → Prop
  | .inOp => True
  | .writing _ => True
  | .ending => True
  | _ => False

/-- Between the decision to commit and the last section of `end_op`. -/
def Control.InCommit : Control → Prop
  | .committing => True
  | .finishing => True
  | _ => False

instance : DecidablePred Control.InOp := fun c => by
  cases c <;> unfold Control.InOp <;> infer_instance

def Control.active (c : Control) : Int := if c.InOp then 1 else 0

theorem Control.active_nonneg (c : Control) : 0 ≤ c.active := by
  unfold active
  split <;> decide

section

variable {P : Type} [Fintype P]

structure Protocol (j : Joint P Shared Control) : Prop where
  outstanding : j.shared.log.outstanding = tally Control.active j.control
  nonneg : 0 ≤ j.shared.log.lh.n
  busy : ∀ p, (j.control p).InCommit → j.shared.log.committing = true
  owned : j.shared.log.committing = true → ∃ p, (j.control p).InCommit
  unique : ∀ p q, (j.control p).InCommit → (j.control q).InCommit → p = q
  alone : j.shared.log.committing = true → j.shared.log.outstanding = 0
  clean : j.shared.log.outstanding = 0 → j.shared.log.committing = false → j.shared.log.lh.n = 0
  written : ∀ p, j.control p = .finishing → j.shared.log.lh.n = 0
  calm : j.shared.panicked ≠ some .logCommitting

variable {p : P} {c : Control}

namespace Protocol

variable {j : Joint P Shared Control} (inv : Protocol j)
include inv

theorem active_le (p : P) : (j.control p).active ≤ j.shared.log.outstanding := by
  rw [inv.outstanding]
  exact weight_le_tally Control.active_nonneg j.control p

/-- While one process is in an operation nobody commits. -/
theorem idle_of_inOp (inOp : (j.control p).InOp) : j.shared.log.committing = false := by
  have active := inv.active_le p
  rw [Control.active, if_pos inOp] at active
  by_contra committing
  have none := inv.alone (by simpa using committing)
  omega

theorem not_inCommit (quiet : j.shared.log.committing = false) (p : P) : ¬ (j.control p).InCommit := by
  intro inCommit
  rw [inv.busy p inCommit] at quiet
  cases quiet

theorem endOp_ok (ending : j.control p = .ending) (panic : LogPanic) :
    endOpSection j.shared.log ≠ .error panic := by
  have inOp : (j.control p).InOp := by
    rw [ending]
    trivial
  have quiet := inv.idle_of_inOp inOp
  unfold endOpSection
  simp only [quiet, Bool.false_eq_true, if_false]
  split <;> simp

theorem commitLog_n : (commitLog j.shared.log).lh.n = 0 := by
  have nonneg := inv.nonneg
  unfold commitLog
  split
  · rfl
  · omega

/-- Nobody commits after a step without a commit either. -/
theorem busy_of_quiet (quiet : j.shared.log.committing = false) {log : Log} (idle : ¬ c.InCommit)
    (flag : log.committing = false) :
    c.InCommit ∨ (∃ q, q ≠ p ∧ (j.control q).InCommit) ↔ log.committing = true := by
  refine iff_of_false ?_ (by rw [flag]; exact Bool.false_ne_true)
  rintro (inCommit | ⟨q, -, inCommit⟩)
  · exact idle inCommit
  · exact inv.not_inCommit quiet q inCommit

variable [DecidableEq P]

theorem move {s : Shared}
    (outstanding : s.log.outstanding = j.shared.log.outstanding - (j.control p).active + c.active)
    (nonneg : 0 ≤ s.log.lh.n)
    (busy : c.InCommit ∨ (∃ q, q ≠ p ∧ (j.control q).InCommit) ↔ s.log.committing = true)
    (unique : c.InCommit → ∀ q, q ≠ p → ¬ (j.control q).InCommit)
    (alone : s.log.committing = true → s.log.outstanding = 0)
    (clean : s.log.outstanding = 0 → s.log.committing = false → s.log.lh.n = 0)
    (written : c = .finishing ∨ (∃ q, q ≠ p ∧ j.control q = .finishing) → s.log.lh.n = 0)
    (calm : s.panicked ≠ some .logCommitting) :
    Protocol ⟨s, update j.control p c⟩ := by
  refine ⟨?_, nonneg, ?_, ?_, ?_, alone, clean, ?_, calm⟩
  · rw [tally_update, outstanding, inv.outstanding]
  · intro q inCommit
    by_cases same : q = p
    · rw [same] at inCommit
      simp only [update_self] at inCommit
      exact busy.mp (Or.inl inCommit)
    · simp only [update_of_ne same] at inCommit
      exact busy.mp (Or.inr ⟨q, same, inCommit⟩)
  · intro committing
    rcases busy.mpr committing with inCommit | ⟨q, other, inCommit⟩
    · refine ⟨p, ?_⟩
      simp only [update_self]
      exact inCommit
    · refine ⟨q, ?_⟩
      simp only [update_of_ne other]
      exact inCommit
  · intro q r first second
    by_cases isP : q = p
    · by_cases isP' : r = p
      · rw [isP, isP']
      · rw [isP] at first
        simp only [update_self] at first
        simp only [update_of_ne isP'] at second
        exact absurd second (unique first r isP')
    · simp only [update_of_ne isP] at first
      by_cases isP' : r = p
      · rw [isP'] at second
        simp only [update_self] at second
        exact absurd first (unique second q isP)
      · simp only [update_of_ne isP'] at second
        exact inv.unique q r first second
  · intro q finishing
    by_cases same : q = p
    · rw [same] at finishing
      simp only [update_self] at finishing
      exact written (Or.inl finishing)
    · simp only [update_of_ne same] at finishing
      exact written (Or.inr ⟨q, same, finishing⟩)

theorem still {s : Shared} (log : s.log = j.shared.log) (inOp : c.InOp ↔ (j.control p).InOp)
    (idle : ¬ c.InCommit) (idle' : ¬ (j.control p).InCommit)
    (calm : s.panicked ≠ some .logCommitting) :
    Protocol ⟨s, update j.control p c⟩ := by
  have active : c.active = (j.control p).active := by simp only [Control.active, inOp]
  have others : (∃ q, q ≠ p ∧ (j.control q).InCommit) ↔ ∃ q, (j.control q).InCommit := by
    refine ⟨fun ⟨q, _, inCommit⟩ => ⟨q, inCommit⟩, fun ⟨q, inCommit⟩ => ⟨q, ?_, inCommit⟩⟩
    rintro rfl
    exact idle' inCommit
  apply inv.move
  · rw [log, active]
    omega
  · rw [log]
    exact inv.nonneg
  · rw [or_iff_right idle, others, log]
    exact ⟨fun ⟨q, inCommit⟩ => inv.busy q inCommit, inv.owned⟩
  · exact fun inCommit => absurd inCommit idle
  · rw [log]
    exact inv.alone
  · rw [log]
    exact inv.clean
  · rw [log]
    rintro (rfl | ⟨q, -, finishing⟩)
    · exact absurd trivial idle
    · exact inv.written q finishing
  · exact calm

theorem beginOp (beginning : j.control p = .beginning) {log : Log}
    (admitted : beginOpSection j.shared.log = some log) :
    Protocol ⟨{ j.shared with log }, update j.control p .inOp⟩ := by
  obtain ⟨quiet, rfl⟩ := beginOpSection_eq_some admitted
  have active := inv.active_le p
  rw [beginning] at active
  apply inv.move
  · simp [beginning, Control.active, Control.InOp]
  · exact inv.nonneg
  · exact inv.busy_of_quiet quiet id quiet
  · exact fun inCommit => inCommit.elim
  · simp [quiet]
  · intro isZero
    simp only [Control.active, Control.InOp] at active
    simp only at isZero
    omega
  · rintro (isFinishing | ⟨q, -, finishing⟩)
    · cases isFinishing
    · exact inv.written q finishing
  · exact inv.calm

theorem record {blockno : Nat} (writing : j.control p = .writing blockno) :
    Protocol ⟨{ j.shared with log := logWriteRecord j.shared.log blockno },
      update j.control p .inOp⟩ := by
  have inOp : (j.control p).InOp := by
    rw [writing]
    trivial
  have active := inv.active_le p
  rw [Control.active, if_pos inOp] at active
  have quiet := inv.idle_of_inOp inOp
  have none := inv.not_inCommit quiet
  have sameCount : (logWriteRecord j.shared.log blockno).outstanding = j.shared.log.outstanding := rfl
  have sameFlag : (logWriteRecord j.shared.log blockno).committing = j.shared.log.committing := rfl
  apply inv.move
  · simp [sameCount, writing, Control.active, Control.InOp]
  · exact logWriteRecord_nonneg inv.nonneg blockno
  · exact inv.busy_of_quiet quiet id quiet
  · exact fun inCommit => inCommit.elim
  · simp [sameFlag, quiet]
  · simp only [sameCount]
    omega
  · rintro (isFinishing | ⟨q, -, finishing⟩)
    · cases isFinishing
    · exact absurd (finishing ▸ trivial : (j.control q).InCommit) (none q)
  · exact inv.calm

theorem endOp (ending : j.control p = .ending) {log : Log} {doCommit : Bool}
    (ended : endOpSection j.shared.log = .ok (log, doCommit)) :
    Protocol ⟨{ j.shared with log },
      update j.control p (if doCommit then .committing else .idle)⟩ := by
  have inOp : (j.control p).InOp := by
    rw [ending]
    trivial
  have isActive : (j.control p).active = 1 := if_pos inOp
  obtain ⟨quiet, ⟨last, rfl, rfl⟩ | ⟨more, rfl, rfl⟩⟩ := endOpSection_eq_ok ended
  · have none := inv.not_inCommit quiet
    apply inv.move
    · rw [isActive]
      simp [Control.active, Control.InOp]
    · exact inv.nonneg
    · simp [Control.InCommit]
    · exact fun _ q _ => none q
    · simp [last]
    · simp
    · rintro (isFinishing | ⟨q, -, finishing⟩)
      · cases isFinishing
      · exact absurd (finishing ▸ trivial : (j.control q).InCommit) (none q)
    · exact inv.calm
  · apply inv.move
    · rw [isActive]
      simp [Control.active, Control.InOp]
    · exact inv.nonneg
    · exact inv.busy_of_quiet quiet id quiet
    · exact fun inCommit => inCommit.elim
    · simp [quiet]
    · intro isZero
      simp only at isZero
      omega
    · rintro (isFinishing | ⟨q, -, finishing⟩)
      · cases isFinishing
      · exact inv.written q finishing
    · exact inv.calm

theorem commit (committing : j.control p = .committing) :
    Protocol ⟨{ j.shared with log := commitLog j.shared.log },
      update j.control p .finishing⟩ := by
  have inCommit : (j.control p).InCommit := by
    rw [committing]
    trivial
  have busy := inv.busy p inCommit
  have sameCount : (commitLog j.shared.log).outstanding = j.shared.log.outstanding := by
    unfold commitLog
    split <;> rfl
  have sameFlag : (commitLog j.shared.log).committing = j.shared.log.committing := by
    unfold commitLog
    split <;> rfl
  apply inv.move
  · simp [sameCount, committing, Control.active, Control.InOp]
  · simp only [inv.commitLog_n, le_refl]
  · simp [sameFlag, busy, Control.InCommit]
  · exact fun _ q other inCommit' => other (inv.unique q p inCommit' inCommit)
  · simp only [sameCount, sameFlag]
    exact inv.alone
  · exact fun _ _ => inv.commitLog_n
  · exact fun _ => inv.commitLog_n
  · exact inv.calm

theorem finish (finishing : j.control p = .finishing) :
    Protocol ⟨{ j.shared with log := endOpFinish j.shared.log },
      update j.control p .idle⟩ := by
  have inCommit : (j.control p).InCommit := by
    rw [finishing]
    trivial
  have single : ∀ q, q ≠ p → ¬ (j.control q).InCommit :=
    fun q other inCommit' => other (inv.unique q p inCommit' inCommit)
  have clean := inv.written p finishing
  apply inv.move
  · simp [endOpFinish, finishing, Control.active, Control.InOp]
  · exact inv.nonneg
  · simp only [endOpFinish, Bool.false_eq_true, iff_false, not_or, not_exists, not_and]
    exact ⟨id, single⟩
  · exact fun inCommit => inCommit.elim
  · simp [endOpFinish]
  · exact fun _ _ => clean
  · exact fun _ => clean
  · exact inv.calm

theorem enter {stretch : Stretch Shared Control Unit}
    (entered : Admission.enter j.shared (j.control p) = some stretch) :
    Protocol ⟨stretch.shared, update j.control p stretch.control⟩ := by
  obtain ⟨-, entered⟩ := Option.ite_none_right_eq_some.mp entered
  split at entered
  · rename_i beginning
    cases entered
    unfold Admission.beginOp
    split
    · rw [← beginning, update_eq_self]
      exact inv
    · rename_i log admitted
      exact inv.beginOp beginning admitted
  · rename_i blockno writing
    cases entered
    exact inv.record writing
  · rename_i ending
    cases entered
    unfold Admission.endOp
    split
    · rename_i panic failed
      exact absurd failed (inv.endOp_ok ending panic)
    · rename_i log ended
      exact inv.endOp ending ended
    · rename_i log ended
      exact inv.endOp ending ended
  · rename_i finishing
    cases entered
    exact inv.finish finishing
  · cases entered

theorem free {move : Move} {after : Shared × Control}
    (moved : Admission.free move j.shared (j.control p) = some after) :
    Protocol ⟨after.1, update j.control p after.2⟩ := by
  unfold Admission.free at moved
  split at moved
  · split at moved
    · rename_i idle
      cases moved
      exact inv.still rfl (by rw [idle]; rfl) id (by rw [idle]; exact id) inv.calm
    · rename_i blockno inOp
      have notCommit : ¬ (j.control p).InCommit := by
        rw [inOp]
        exact id
      split at moved
      · cases moved
        exact inv.still rfl (by rw [inOp]; rfl) id notCommit inv.calm
      · rename_i panic failed
        cases moved
        refine inv.still (s := { j.shared with panicked := some panic }) rfl (by rw [inOp]) id
          notCommit ?_
        rintro isPanic
        cases isPanic
        unfold logWriteCheck at failed
        split at failed
        · cases failed
        · split at failed
          · cases failed
          · cases failed
    · rename_i inOp
      cases moved
      exact inv.still rfl (by rw [inOp]; rfl) id (by rw [inOp]; exact id) inv.calm
    · rename_i committing
      cases moved
      exact inv.commit committing
    · cases moved
  · cases moved

theorem step {label : AtomicLabel P Move} {after : Joint P Shared Control}
    (stepped : (atomic (program P)).next j label = some after) : Protocol after := by
  change atomicNext (program P) j label = some after at stepped
  cases label with
  | enter p =>
    obtain ⟨stretch, entered, rfl⟩ := Option.map_eq_some_iff.mp stepped
    exact inv.enter entered
  | free p move =>
    obtain ⟨moved, isMoved, rfl⟩ := Option.map_eq_some_iff.mp stepped
    exact inv.free isMoved

end Protocol

/-- The reasons for which `begin_op` sleeps. -/
def Blocked (s : Shared) (_ : Unit) (_ : Control) : Prop :=
  s.log.committing = true ∨ s.log.lh.n + (s.log.outstanding + 1) * MAXOPBLOCKS > LOGSIZE

theorem beginOp_blocked {s : Shared} {chan : Unit} (sleeps : (beginOp s).finish = .sleep chan) :
    Blocked (beginOp s).shared chan c := by
  unfold beginOp at sleeps ⊢
  split
  · rename_i refused
    unfold beginOpSection at refused
    split at refused
    · rename_i committing
      exact Or.inl committing
    · split at refused
      · rename_i full
        exact Or.inr full
      · cases refused
  · rename_i admitted
    rw [admitted] at sleeps
    cases sleeps

theorem enter_wakes {s : Shared} {sleeper : Control} {stretch : Stretch Shared Control Unit}
    (entered : enter s c = some stretch) (blocked : Blocked s () sleeper) :
    Blocked stretch.shared () sleeper ∨ () ∈ stretch.wakes := by
  unfold enter at entered
  split at entered
  · split at entered
    · cases entered
      left
      unfold beginOp
      split
      · exact blocked
      · rename_i log admitted
        obtain ⟨quiet, rfl⟩ := beginOpSection_eq_some admitted
        refine blocked.imp id fun full => ?_
        unfold MAXOPBLOCKS at full ⊢
        simp only
        omega
    · rename_i blockno
      cases entered
      left
      refine blocked.imp id fun full => ?_
      have grows : s.log.lh.n ≤ (logWriteRecord s.log blockno).lh.n := le_logWriteRecord blockno
      have same : (logWriteRecord s.log blockno).outstanding = s.log.outstanding := rfl
      simp only [same]
      omega
    · cases entered
      unfold endOp
      split
      · exact Or.inl blocked
      · rename_i log ended
        obtain ⟨-, ⟨-, -, rfl⟩ | ⟨-, isFalse, -⟩⟩ := endOpSection_eq_ok ended
        · exact Or.inl (Or.inl rfl)
        · cases isFalse
      · exact Or.inr (List.mem_singleton_self ())
    · cases entered
      exact Or.inr (List.mem_singleton_self ())
    · cases entered
  · cases entered

theorem Protocol.free_blocked {j : Joint P Shared Control} (inv : Protocol j) {move : Move}
    {after : Shared × Control} {sleeper : Control}
    (moved : Admission.free move j.shared (j.control p) = some after)
    (blocked : Blocked j.shared () sleeper) : Blocked after.1 () sleeper := by
  unfold Admission.free at moved
  split at moved
  · split at moved
    · cases moved
      exact blocked
    · split at moved
      · cases moved
        exact blocked
      · cases moved
        exact blocked
    · cases moved
      exact blocked
    · rename_i committing
      cases moved
      have busy := inv.busy p (by rw [committing]; trivial)
      left
      unfold commitLog
      split <;> exact busy
    · cases moved
  · cases moved

theorem Protocol.signalsAt {s : MonitorState P Shared Control Unit} (inv : Protocol s.joint)
    (label : MonitorLabel P Move) : SignalsAt (program P) Blocked s label := by
  cases label with
  | enter p =>
    intro control stretch _ entered
    refine ⟨fun chan sleeps => ?_, fun sleeper chan _ => enter_wakes entered⟩
    change Admission.enter s.shared control = some stretch at entered
    obtain ⟨-, entered⟩ := Option.ite_none_right_eq_some.mp entered
    split at entered
    · cases entered
      exact beginOp_blocked sleeps
    · cases entered
      cases sleeps
    · cases entered
      unfold Admission.endOp at sleeps
      split at sleeps <;> cases sleeps
    · cases entered
      cases sleeps
    · cases entered
  | free p move =>
    intro control after chan sleeper at_ moved blocked
    have isControl : s.joint.control p = control := by
      change (s.phase p).control = control
      rw [at_]
      rfl
    exact inv.free_blocked (p := p) (isControl ▸ moved) blocked
  | step p => trivial
  | kill p => trivial

variable [DecidableEq P]

structure Admitted (s : MonitorState P Shared Control Unit) : Prop where
  protocol : Protocol s.joint
  coherent : Coherent Blocked s

theorem Admitted.next (s : MonitorState P Shared Control Unit) (label : MonitorLabel P Move)
    (after : MonitorState P Shared Control Unit) (admitted : Admitted s)
    (stepped : (admission P).next s label = some after) : Admitted after := by
  refine ⟨?_, admitted.coherent.step (admitted.protocol.signalsAt label) stepped⟩
  rcases (monitorSimulation (program P)).simulates s label after stepped with same | ⟨label', taken⟩
  · have isSame : after.joint = s.joint := same
    rw [isSame]
    exact admitted.protocol
  · exact admitted.protocol.step taken

omit [DecidableEq P] in
theorem start_admitted {log : Log} (outstanding : log.outstanding = 0)
    (committing : log.committing = false) (empty : log.lh.n = 0) : Admitted (start P log) := by
  refine ⟨⟨?_, ?_, ?_, ?_, ?_, ?_, ?_, ?_, ?_⟩, Coherent.initial _ _⟩
  · change log.outstanding = ∑ _ : P, (0 : Int)
    rw [outstanding, Finset.sum_const_zero]
  · exact empty.symm.le
  · exact fun _ inCommit => inCommit.elim
  · exact fun isCommitting => absurd (isCommitting.symm.trans committing) (by decide)
  · exact fun _ _ inCommit => inCommit.elim
  · exact fun _ => outstanding
  · exact fun _ _ => empty
  · exact fun _ finishing => nomatch finishing
  · exact nofun

omit [DecidableEq P] in
theorem Protocol.outstanding_eq_card {j : Joint P Shared Control} (inv : Protocol j) :
    j.shared.log.outstanding = (Finset.univ.filter fun p => (j.control p).InOp).card := by
  rw [inv.outstanding, tally, Finset.card_filter, Nat.cast_sum]
  refine Finset.sum_congr rfl fun p _ => ?_
  unfold Control.active
  split <;> rfl

/-- From an empty log, in every run of any number of processes: the counter is right,
`commit` runs alone, nobody panics over it, an idle log is empty, and who sleeps on
`&log` cannot be admitted. -/
theorem admission_protocol {log : Log} (outstanding : log.outstanding = 0)
    (committing : log.committing = false) (empty : log.lh.n = 0)
    {labels : List (MonitorLabel P Move)} {s : MonitorState P Shared Control Unit}
    (ran : (admission P).run (start P log) labels = some s) :
    s.shared.log.outstanding =
        (Finset.univ.filter fun p => (s.phase p).control.InOp).card ∧
      (∀ p, (s.phase p).control = .committing →
        s.shared.log.outstanding = 0 ∧ s.shared.log.committing = true ∧
          ∀ q, ¬ (s.phase q).control.InOp) ∧
      s.shared.panicked ≠ some .logCommitting ∧
      (s.shared.log.outstanding = 0 → s.shared.log.committing = false → s.shared.log.lh.n = 0) ∧
      (s.lock = none → ∀ p c, s.phase p = .asleep c () →
        s.shared.log.committing = true ∨
          s.shared.log.lh.n + (s.shared.log.outstanding + 1) * MAXOPBLOCKS > LOGSIZE) := by
  have final := System.run_preserves Admitted Admitted.next
    (start_admitted outstanding committing empty) ran
  have inv := final.protocol
  refine ⟨inv.outstanding_eq_card, fun p isCommitting => ?_, inv.calm, inv.clean, ?_⟩
  · have isControl : s.joint.control p = .committing := isCommitting
    have busy := inv.busy p (isControl ▸ trivial)
    refine ⟨inv.alone busy, busy, fun q inOp => ?_⟩
    have quiet := inv.idle_of_inOp (p := q) inOp
    rw [busy] at quiet
    cases quiet
  · exact fun unlocked p c asleep => final.coherent.blocked_of_asleep unlocked asleep

end

def fourthWaits : List (MonitorLabel (Fin 4) Move) :=
  ([0, 1, 2].flatMap fun p => [.free p .beginOp, .enter p, .step p]) ++
    [.free 3 .beginOp, .enter 3, .step 3, .step 3, .step 3]

/-- The fourth waits for log space. -/
theorem fourthWaits_sleeps :
    ∃ s, (admission (Fin 4)).run (start (Fin 4) (booted (Fin 4)).log) fourthWaits = some s ∧
      s.phase 3 = .asleep .beginning () ∧ s.shared.log.outstanding = 3 ∧
      (s.shared.log.committing = true ∨
        s.shared.log.lh.n + (s.shared.log.outstanding + 1) * MAXOPBLOCKS > LOGSIZE) := by
  have ends : ((admission (Fin 4)).run (start (Fin 4) (booted (Fin 4)).log) fourthWaits).map
      (fun s => (s.lock, s.phase 3, s.shared.log.outstanding)) =
        some (none, .asleep .beginning (), 3) := by
    rfl
  obtain ⟨s, ran, final⟩ := Option.map_eq_some_iff.mp ends
  simp only [Prod.mk.injEq] at final
  obtain ⟨unlocked, asleep, three⟩ := final
  refine ⟨s, ran, asleep, three, ?_⟩
  exact (admission_protocol rfl rfl rfl ran).2.2.2.2 unlocked 3 .beginning asleep

end Xv6.RedoLog.Admission
