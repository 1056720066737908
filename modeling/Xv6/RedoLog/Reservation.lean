import Xv6.RedoLog.Commit
import Xv6.Lib.System
import Xv6.Lib.Tally

/-!
Contract: the admission protocol of `begin_op`, `log_write` and `end_op`, and
what its reservation guarantees.

`begin_op` reserves against `LOGSIZE`, but `log_write` refuses a block as soon as
the log holds `log.size - 1` of them, before it looks for an absorbed entry. With
`log.size = LOGSIZE`, as mkfs writes it, three operations admitted to an empty
log can therefore panic; `reservation_sound` says how tight an admission may be.

Owns: the sections under `log.lock` as functions on the log, the interleaving of
any number of processes, and the reservation invariant.
-/

namespace Xv6.RedoLog

open Function Xv6.Lib

/-! ### Sections under `log.lock` -/

/-- One iteration of the loop of `begin_op`; `none` when it sleeps. -/
def beginOpSection (log : Log) : Option Log :=
  if log.committing then none
  else if log.lh.n + (log.outstanding + 1) * MAXOPBLOCKS > LOGSIZE then none
  else some { log with outstanding := log.outstanding + 1 }

/-- The first section of `end_op`, with `do_commit`. -/
def endOpSection (log : Log) : Except LogPanic (Log × Bool) :=
  let log := { log with outstanding := log.outstanding - 1 }
  if log.committing then .error .logCommitting
  else if log.outstanding = 0 then .ok ({ log with committing := true }, true)
  else .ok (log, false)

/-- What `commit` leaves of the in-memory log. -/
def commitLog (log : Log) : Log :=
  if 0 < log.lh.n then { log with lh := { log.lh with n := 0 } } else log

/-- The second section of `end_op`. -/
def endOpFinish (log : Log) : Log := { log with committing := false }

variable {log : Log}

theorem beginOpSection_eq_some {after : Log} (admitted : beginOpSection log = some after) :
    log.committing = false ∧ after = { log with outstanding := log.outstanding + 1 } := by
  unfold beginOpSection at admitted
  split at admitted
  · cases admitted
  · split at admitted
    · cases admitted
    · rename_i idle _
      cases admitted
      exact ⟨by simpa using idle, rfl⟩

private theorem mem_entries_logWriteRecord (nonneg : 0 ≤ log.lh.n) (blockno : Nat) :
    blockno ∈ (logWriteRecord log blockno).lh.entries ∧
      ∀ other ∈ log.lh.entries, other ∈ (logWriteRecord log blockno).lh.entries := by
  rw [entries_logWriteRecord nonneg]
  split
  · rename_i logged
    exact ⟨logged, fun _ member => member⟩
  · exact ⟨by simp, fun _ member => by simp [member]⟩

private theorem count_logWriteRecord (nonneg : 0 ≤ log.lh.n) (blockno : Nat) :
    (blockno ∈ log.lh.entries → (logWriteRecord log blockno).lh.n = log.lh.n) ∧
      (logWriteRecord log blockno).lh.n ≤ log.lh.n + 1 := by
  have length := (logWriteRecord log blockno).lh.length_entries
  have oldLength := log.lh.length_entries
  have newNonneg := logWriteRecord_nonneg nonneg blockno
  rw [entries_logWriteRecord nonneg] at length
  split at length
  · omega
  · rename_i fresh
    rw [List.length_append, List.length_singleton] at length
    exact ⟨fun member => absurd member fresh, by omega⟩

theorem endOpSection_eq_ok {after : Log} {doCommit : Bool}
    (ended : endOpSection log = .ok (after, doCommit)) :
    log.committing = false ∧
      ((log.outstanding = 1 ∧ doCommit = true ∧
          after = { log with outstanding := log.outstanding - 1, committing := true }) ∨
        (log.outstanding ≠ 1 ∧ doCommit = false ∧
          after = { log with outstanding := log.outstanding - 1 })) := by
  unfold endOpSection at ended
  simp only at ended
  split at ended
  · cases ended
  · rename_i quiet
    refine ⟨by simpa using quiet, ?_⟩
    split at ended
    · rename_i last
      cases ended
      exact Or.inl ⟨by omega, rfl, rfl⟩
    · rename_i others
      cases ended
      exact Or.inr ⟨by omega, rfl, rfl⟩

/-! ### Interleavings -/

/-- Where a process is. `logged` are the distinct blocks the operation has
log_written so far; a process in `writing` has passed the unlocked tests of
`log_write` and not yet taken the lock. -/
inductive Phase where
  | idle
  | inOp (logged : List Nat)
  | writing (logged : List Nat) (blockno : Nat)
  | committing
  | finishing
deriving DecidableEq

structure State (P : Type) where
  log : Log
  phase : P → Phase
  panicked : Option LogPanic

inductive Label (P : Type) where
  | beginOp (p : P)
  | logWrite (p : P) (blockno : Nat)
  | logRecord (p : P)
  | endOp (p : P)
  | commit (p : P)
  | finish (p : P)

section

variable {P : Type} [DecidableEq P]

def State.moveTo (s : State P) (p : P) (phase : Phase) (log : Log) : State P :=
  { s with log := log, phase := update s.phase p phase }

theorem State.moveTo_phase_self (s : State P) (p : P) (phase : Phase) (log : Log) :
    (s.moveTo p phase log).phase p = phase := by
  simp [State.moveTo]

theorem State.moveTo_phase_other (s : State P) {p q : P} (other : q ≠ p) (phase : Phase)
    (log : Log) : (s.moveTo p phase log).phase q = s.phase q := by
  simp [State.moveTo, update_of_ne other]

/-- One step. An operation may log_write a block it has logged before, or a new
one while it has logged fewer than `MAXOPBLOCKS`; after a panic nothing runs. -/
def reservationNext (s : State P) : Label P → Option (State P)
  | .beginOp p =>
    if s.panicked = none ∧ s.phase p = .idle then
      match beginOpSection s.log with
      | none => some s
      | some log => some (s.moveTo p (.inOp []) log)
    else none
  | .logWrite p blockno =>
    match s.panicked, s.phase p with
    | none, .inOp logged =>
      if blockno ∈ logged ∨ logged.length < MAXOPBLOCKS then
        match logWriteCheck s.log with
        | .ok _ => some (s.moveTo p (.writing logged blockno) s.log)
        | .error panic => some { s with panicked := some panic }
      else none
    | _, _ => none
  | .logRecord p =>
    match s.panicked, s.phase p with
    | none, .writing logged blockno =>
      some (s.moveTo p (.inOp (if blockno ∈ logged then logged else blockno :: logged))
        (logWriteRecord s.log blockno))
    | _, _ => none
  | .endOp p =>
    match s.panicked, s.phase p with
    | none, .inOp _ =>
      match endOpSection s.log with
      | .ok (log, doCommit) => some (s.moveTo p (if doCommit then .committing else .idle) log)
      | .error panic => some { s with panicked := some panic }
    | _, _ => none
  | .commit p =>
    if s.panicked = none ∧ s.phase p = .committing then
      some (s.moveTo p .finishing (commitLog s.log))
    else none
  | .finish p =>
    if s.panicked = none ∧ s.phase p = .finishing then
      some (s.moveTo p .idle (endOpFinish s.log))
    else none

def reservation (P : Type) [DecidableEq P] : System (State P) (Label P) where
  next := reservationNext

/-- The log after boot on a disk made by mkfs, where `sb.nlog = LOGSIZE`. -/
def booted (P : Type) : State P where
  log := { start := 2, size := LOGSIZE, outstanding := 0, committing := false,
           lh := { n := 0, block := fun _ => 0 } }
  phase := fun _ => .idle
  panicked := none

end

def threeFullOperations : List (Label (Fin 3)) :=
  [.beginOp 0, .beginOp 1, .beginOp 2] ++
    (List.range 10).flatMap (fun i => [.logWrite 0 (100 + i), .logRecord 0]) ++
    (List.range 10).flatMap (fun i => [.logWrite 1 (200 + i), .logRecord 1]) ++
    (List.range 9).flatMap (fun i => [.logWrite 2 (300 + i), .logRecord 2]) ++
    [.logWrite 2 309]

theorem threeFullOperations_panic :
    ((reservation (Fin 3)).run (booted (Fin 3)) threeFullOperations).map State.panicked =
      some (some .tooBigATransaction) := by
  decide +kernel

/-! ### What a step can do -/

/-- The outcomes of a step, guards included. -/
inductive Stepped {P : Type} [DecidableEq P] (s : State P) : Label P → State P → Prop where
  | refused (p : P) : Stepped s (.beginOp p) s
  | admitted (p : P) (log : Log) (idle : s.phase p = .idle)
      (section_ : beginOpSection s.log = some log) :
      Stepped s (.beginOp p) (s.moveTo p (.inOp []) log)
  | checked (p : P) (blockno : Nat) (logged : List Nat) (active : s.phase p = .inOp logged)
      (within : blockno ∈ logged ∨ logged.length < MAXOPBLOCKS) :
      Stepped s (.logWrite p blockno) (s.moveTo p (.writing logged blockno) s.log)
  | checkPanic (p : P) (blockno : Nat) (logged : List Nat) (panic : LogPanic)
      (active : s.phase p = .inOp logged) (failed : logWriteCheck s.log = .error panic) :
      Stepped s (.logWrite p blockno) { s with panicked := some panic }
  | recorded (p : P) (blockno : Nat) (logged : List Nat)
      (active : s.phase p = .writing logged blockno) :
      Stepped s (.logRecord p)
        (s.moveTo p (.inOp (if blockno ∈ logged then logged else blockno :: logged))
          (logWriteRecord s.log blockno))
  | ended (p : P) (logged : List Nat) (log : Log) (doCommit : Bool)
      (active : s.phase p = .inOp logged) (section_ : endOpSection s.log = .ok (log, doCommit)) :
      Stepped s (.endOp p) (s.moveTo p (if doCommit then .committing else .idle) log)
  | endPanic (p : P) (panic : LogPanic) (failed : endOpSection s.log = .error panic) :
      Stepped s (.endOp p) { s with panicked := some panic }
  | committed (p : P) (phase : s.phase p = .committing) :
      Stepped s (.commit p) (s.moveTo p .finishing (commitLog s.log))
  | finished (p : P) (phase : s.phase p = .finishing) :
      Stepped s (.finish p) (s.moveTo p .idle (endOpFinish s.log))

section

variable {P : Type} [DecidableEq P]

variable {s : State P}

theorem stepped_of_next {after : State P} {label : Label P}
    (stepped : (reservation P).next s label = some after) :
    s.panicked = none ∧ Stepped s label after := by
  change reservationNext s label = some after at stepped
  cases label with
  | beginOp p =>
    obtain ⟨enabled, stepped⟩ := Option.ite_none_right_eq_some.mp stepped
    refine ⟨enabled.1, ?_⟩
    split at stepped
    · cases stepped
      exact .refused p
    · rename_i log section_
      cases stepped
      exact .admitted p log enabled.2 section_
  | logWrite p blockno =>
    simp only [reservationNext] at stepped
    split at stepped
    · rename_i logged running active
      refine ⟨running, ?_⟩
      obtain ⟨within, stepped⟩ := Option.ite_none_right_eq_some.mp stepped
      split at stepped
      · cases stepped
        exact .checked p blockno logged active within
      · rename_i panic failed
        cases stepped
        exact .checkPanic p blockno logged panic active failed
    · cases stepped
  | logRecord p =>
    simp only [reservationNext] at stepped
    split at stepped
    · rename_i logged blockno running active
      cases stepped
      exact ⟨running, .recorded p blockno logged active⟩
    · cases stepped
  | endOp p =>
    simp only [reservationNext] at stepped
    split at stepped
    · rename_i logged running active
      refine ⟨running, ?_⟩
      split at stepped
      · rename_i log doCommit section_
        cases stepped
        exact .ended p logged log doCommit active section_
      · rename_i panic failed
        cases stepped
        exact .endPanic p panic failed
    · cases stepped
  | commit p =>
    obtain ⟨enabled, rfl⟩ := of_guard stepped
    exact ⟨enabled.1, .committed p enabled.2⟩
  | finish p =>
    obtain ⟨enabled, rfl⟩ := of_guard stepped
    exact ⟨enabled.1, .finished p enabled.2⟩

/-! ### The reservation invariant -/

/-- The blocks the operation in progress has logged. -/
def Phase.logged? : Phase → Option (List Nat)
  | .inOp logged => some logged
  | .writing logged _ => some logged
  | _ => none

def Phase.active (phase : Phase) : Int := if phase.logged?.isSome then 1 else 0

/-- How many more distinct blocks the operation in progress may log. -/
def Phase.remaining (phase : Phase) : Int :=
  match phase.logged? with
  | some logged => ((MAXOPBLOCKS - logged.length : Nat) : Int)
  | none => 0

/-- A process between the decision to commit and the end of `end_op`. -/
def Phase.InCommit (phase : Phase) : Prop := phase = .committing ∨ phase = .finishing

variable [Fintype P]

/-- Blocks in the log and blocks the operations in progress may still add. -/
def reserve (s : State P) : Int := s.log.lh.n + tally Phase.remaining s.phase

/-- An admission leaves room for everything reserved and one spare block:
`log_write` tests for a full log before it looks for an absorbed entry. -/
def AdmitsWithRoom (s : State P) : Label P → Prop
  | .beginOp _ =>
    (beginOpSection s.log).isSome → reserve s + MAXOPBLOCKS ≤ s.log.size - 2
  | _ => True

structure Reserved (s : State P) : Prop where
  size : s.log.size = LOGSIZE
  nonneg : 0 ≤ s.log.lh.n
  outstanding : s.log.outstanding = tally Phase.active s.phase
  alone : s.log.committing = true → ∀ p, (s.phase p).logged? = none
  owner : ∀ p, (s.phase p).InCommit → s.log.committing = true
  unique : ∀ p q, (s.phase p).InCommit → (s.phase q).InCommit → p = q
  budget : ∀ p logged, (s.phase p).logged? = some logged → logged.length ≤ MAXOPBLOCKS
  entries : ∀ p logged, (s.phase p).logged? = some logged →
    ∀ blockno ∈ logged, blockno ∈ s.log.lh.entries
  pending : ∀ p logged blockno, s.phase p = .writing logged blockno →
    blockno ∈ logged ∨ logged.length < MAXOPBLOCKS
  room : reserve s ≤ LOGSIZE - 2
  calm : s.panicked ≠ some .tooBigATransaction

theorem Phase.active_nonneg (phase : Phase) : 0 ≤ phase.active := by
  unfold Phase.active
  split <;> decide

theorem Phase.remaining_nonneg (phase : Phase) : 0 ≤ phase.remaining := by
  unfold Phase.remaining
  split <;> omega

omit [DecidableEq P] in
theorem booted_reserved : Reserved (booted P) where
  size := rfl
  nonneg := le_rfl
  outstanding := by
    change (0 : Int) = ∑ _ : P, 0
    rw [Finset.sum_const_zero]
  alone := fun committing => nomatch committing
  owner := fun _ inCommit => by
    rcases inCommit with phase | phase <;> cases phase
  unique := fun _ _ inCommit _ => by
    rcases inCommit with phase | phase <;> cases phase
  budget := fun _ _ active => nomatch active
  entries := fun _ _ active => nomatch active
  pending := fun _ _ _ active => nomatch active
  room := by
    change (0 : Int) + ∑ _ : P, 0 ≤ LOGSIZE - 2
    rw [Finset.sum_const_zero]
    decide
  calm := fun panicked => nomatch panicked

omit [DecidableEq P] in
/-- The room left keeps the log short of the bound `log_write` tests. -/
theorem Reserved.short (reserved : Reserved s) : s.log.lh.n ≤ LOGSIZE - 2 := by
  have others := tally_nonneg Phase.remaining_nonneg s.phase
  have room := reserved.room
  unfold reserve at room
  omega

omit [DecidableEq P] in
theorem Reserved.check_ne_tooBig (reserved : Reserved s) :
    logWriteCheck s.log ≠ .error .tooBigATransaction := by
  have short := reserved.short
  have size := reserved.size
  have bound : (LOGSIZE : Int) = 30 := rfl
  unfold logWriteCheck
  rw [if_neg (by omega)]
  split <;> simp

/-! ### Preservation -/

/-- What one process moving to phase `new` with log `log` has to respect. -/
structure Moves (s : State P) (p : P) (new : Phase) (log : Log) : Prop where
  size : log.size = s.log.size
  nonneg : 0 ≤ log.lh.n
  outstanding : log.outstanding = s.log.outstanding - (s.phase p).active + new.active
  alone : log.committing = true → new.logged? = none ∧ ∀ q, q ≠ p → (s.phase q).logged? = none
  owner : ∀ q, q ≠ p → (s.phase q).InCommit → log.committing = true
  ownerNew : new.InCommit → log.committing = true ∧ ∀ q, q ≠ p → ¬ (s.phase q).InCommit
  budget : ∀ logged, new.logged? = some logged → logged.length ≤ MAXOPBLOCKS
  entries : ∀ q logged, q ≠ p → (s.phase q).logged? = some logged →
    ∀ blockno ∈ logged, blockno ∈ log.lh.entries
  entriesNew : ∀ logged, new.logged? = some logged → ∀ blockno ∈ logged, blockno ∈ log.lh.entries
  pending : ∀ logged blockno, new = .writing logged blockno →
    blockno ∈ logged ∨ logged.length < MAXOPBLOCKS
  room : log.lh.n + (tally Phase.remaining s.phase - (s.phase p).remaining + new.remaining) ≤
    LOGSIZE - 2

variable {p : P}

theorem Reserved.moveTo {new : Phase} (reserved : Reserved s) (moves : Moves s p new log) :
    Reserved (s.moveTo p new log) := by
  have here := s.moveTo_phase_self p new log
  have there : ∀ q, q ≠ p → (s.moveTo p new log).phase q = s.phase q :=
    fun q other => s.moveTo_phase_other other new log
  refine
    { size := moves.size.trans reserved.size, nonneg := moves.nonneg, outstanding := ?_,
      alone := ?_, owner := ?_, unique := ?_, budget := ?_, entries := ?_, pending := ?_,
      room := ?_, calm := reserved.calm }
  · change log.outstanding = tally Phase.active (update s.phase p new)
    rw [tally_update, ← reserved.outstanding]
    exact moves.outstanding
  · intro committing q
    by_cases same : q = p
    · rw [same, here]
      exact (moves.alone committing).1
    · rw [there q same]
      exact (moves.alone committing).2 q same
  · intro q
    by_cases same : q = p
    · rw [same, here]
      exact fun inCommit => (moves.ownerNew inCommit).1
    · rw [there q same]
      exact moves.owner q same
  · intro q r
    by_cases left : q = p <;> by_cases right : r = p
    · exact fun _ _ => left.trans right.symm
    · rw [left, here, there r right]
      exact fun inCommit other => absurd other ((moves.ownerNew inCommit).2 r right)
    · rw [right, here, there q left]
      exact fun other inCommit => absurd other ((moves.ownerNew inCommit).2 q left)
    · rw [there q left, there r right]
      exact reserved.unique q r
  · intro q logged
    by_cases same : q = p
    · rw [same, here]
      exact moves.budget logged
    · rw [there q same]
      exact reserved.budget q logged
  · intro q logged
    by_cases same : q = p
    · rw [same, here]
      exact moves.entriesNew logged
    · rw [there q same]
      exact moves.entries q logged same
  · intro q logged blockno
    by_cases same : q = p
    · rw [same, here]
      exact moves.pending logged blockno
    · rw [there q same]
      exact reserved.pending q logged blockno
  · change log.lh.n + tally Phase.remaining (update s.phase p new) ≤ LOGSIZE - 2
    rw [tally_update]
    exact moves.room

variable {logged : List Nat}

theorem Reserved.admitted (reserved : Reserved s) (idle : s.phase p = .idle)
    (section_ : beginOpSection s.log = some log) (withRoom : AdmitsWithRoom s (.beginOp p)) :
    Reserved (s.moveTo p (.inOp []) log) := by
  obtain ⟨quiet, rfl⟩ := beginOpSection_eq_some section_
  have room := withRoom (by rw [section_]; rfl)
  apply reserved.moveTo
  refine
    { size := rfl, nonneg := reserved.nonneg, outstanding := ?_, alone := ?_,
      owner := fun q _ => reserved.owner q, ownerNew := ?_, budget := ?_,
      entries := fun q logged _ => reserved.entries q logged, entriesNew := ?_, pending := ?_,
      room := ?_ }
  · rw [idle]
    change s.log.outstanding + 1 = s.log.outstanding - 0 + 1
    omega
  · intro committing
    exact absurd committing (by simp [quiet])
  · rintro (phase | phase) <;> cases phase
  · intro logged active
    cases active
    exact Nat.zero_le _
  · intro logged active
    cases active
    simp
  · intro logged blockno phase
    cases phase
  · have size := reserved.size
    have zero : (s.phase p).remaining = 0 := by rw [idle]; rfl
    have full : Phase.remaining (.inOp []) = MAXOPBLOCKS := rfl
    unfold reserve at room
    rw [zero, full]
    change s.log.lh.n + _ ≤ _
    omega

theorem Reserved.checked {blockno : Nat} (reserved : Reserved s) (phase : s.phase p = .inOp logged)
    (within : blockno ∈ logged ∨ logged.length < MAXOPBLOCKS) :
    Reserved (s.moveTo p (.writing logged blockno) s.log) := by
  have active : (s.phase p).logged? = some logged := by rw [phase]; rfl
  apply reserved.moveTo
  refine
    { size := rfl, nonneg := reserved.nonneg, outstanding := ?_, alone := ?_,
      owner := fun q _ => reserved.owner q, ownerNew := ?_, budget := ?_,
      entries := fun q logged _ => reserved.entries q logged, entriesNew := ?_, pending := ?_,
      room := ?_ }
  · rw [phase]
    change s.log.outstanding = s.log.outstanding - 1 + 1
    omega
  · intro committing
    have none := reserved.alone committing p
    rw [active] at none
    cases none
  · rintro (moved | moved) <;> cases moved
  · intro other same
    cases same
    exact reserved.budget p logged active
  · intro other same
    cases same
    exact reserved.entries p logged active
  · intro other number same
    cases same
    exact within
  · have unchanged : (s.phase p).remaining = Phase.remaining (.writing logged blockno) := by
      rw [phase]
      rfl
    have room := reserved.room
    unfold reserve at room
    omega

/-- Recording a block uses up one block of the operation's budget, or adds
nothing to the log. -/
theorem Reserved.recorded {blockno : Nat} (reserved : Reserved s)
    (phase : s.phase p = .writing logged blockno) :
    Reserved (s.moveTo p (.inOp (if blockno ∈ logged then logged else blockno :: logged))
      (logWriteRecord s.log blockno)) := by
  have active : (s.phase p).logged? = some logged := by rw [phase]; rfl
  have nonneg := reserved.nonneg
  have within := reserved.pending p logged blockno phase
  obtain ⟨recorded, kept⟩ := mem_entries_logWriteRecord nonneg blockno
  obtain ⟨absorbed, grown⟩ := count_logWriteRecord nonneg blockno
  have oldEntries := reserved.entries p logged active
  have oldBudget := reserved.budget p logged active
  apply reserved.moveTo
  refine
    { size := rfl, nonneg := logWriteRecord_nonneg nonneg blockno, outstanding := ?_, alone := ?_,
      owner := fun q _ => reserved.owner q, ownerNew := ?_, budget := ?_,
      entries := fun q other _ same number member => kept number
        (reserved.entries q other same number member),
      entriesNew := ?_, pending := ?_, room := ?_ }
  · rw [phase]
    change s.log.outstanding = s.log.outstanding - 1 + 1
    omega
  · intro committing
    have none := reserved.alone committing p
    rw [active] at none
    cases none
  · rintro (moved | moved) <;> cases moved
  · intro other same
    cases same
    split
    · exact oldBudget
    · rw [List.length_cons]
      rename_i fresh
      rcases within with again | below
      · exact absurd again fresh
      · exact below
  · intro other same
    cases same
    split
    · exact fun number member => kept number (oldEntries number member)
    · intro number member
      rcases List.mem_cons.mp member with rfl | old
      · exact recorded
      · exact kept number (oldEntries number old)
  · intro other number same
    cases same
  · have room := reserved.room
    unfold reserve at room
    have before : (s.phase p).remaining = ((MAXOPBLOCKS - logged.length : Nat) : Int) := by
      rw [phase]
      rfl
    by_cases again : blockno ∈ logged
    · rw [if_pos again, before]
      change _ + (_ - _ + ((MAXOPBLOCKS - logged.length : Nat) : Int)) ≤ _
      rw [absorbed (oldEntries blockno again)]
      omega
    · have below : logged.length < MAXOPBLOCKS := within.resolve_left again
      rw [if_neg again, before]
      change _ + (_ - _ + ((MAXOPBLOCKS - (blockno :: logged).length : Nat) : Int)) ≤ _
      rw [List.length_cons]
      omega

omit [DecidableEq P] in
/-- When the count of operations says one, the others are outside. -/
theorem Reserved.only (reserved : Reserved s) (active : (s.phase p).logged? = some logged)
    (single : s.log.outstanding = 1) :
    ∀ q, q ≠ p → (s.phase q).logged? = none := by
  classical
  intro q other
  have one : (s.phase p).active = 1 := by simp [Phase.active, active]
  have total := reserved.outstanding
  have removed := tally_update Phase.active s.phase p .idle
  have idleZero : Phase.active .idle = 0 := rfl
  have small := weight_le_tally Phase.active_nonneg (update s.phase p .idle) q
  rw [update_of_ne other] at small
  have zero : (s.phase q).active ≤ 0 := by omega
  unfold Phase.active at zero
  split at zero
  · omega
  · rename_i outside
    simpa using outside

theorem Reserved.ended {doCommit : Bool} (reserved : Reserved s) (phase : s.phase p = .inOp logged)
    (section_ : endOpSection s.log = .ok (log, doCommit)) :
    Reserved (s.moveTo p (if doCommit then .committing else .idle) log) := by
  have active : (s.phase p).logged? = some logged := by rw [phase]; rfl
  have one : (s.phase p).active = 1 := by simp [Phase.active, active]
  have room := reserved.room
  have share := Phase.remaining_nonneg (s.phase p)
  unfold reserve at room
  obtain ⟨quiet, ⟨single, rfl, rfl⟩ | ⟨-, rfl, rfl⟩⟩ := endOpSection_eq_ok section_
  · -- The last operation: nobody else is inside, and nobody is committing yet.
    have only := reserved.only active single
    have noCommit : ∀ q, q ≠ p → ¬ (s.phase q).InCommit := by
      intro q _ inCommit
      have busy := reserved.owner q inCommit
      simp [quiet] at busy
    apply reserved.moveTo
    refine
      { size := rfl, nonneg := reserved.nonneg, outstanding := ?_,
        alone := fun _ => ⟨rfl, only⟩, owner := fun _ _ _ => rfl,
        ownerNew := fun _ => ⟨rfl, noCommit⟩, budget := (fun _ none => nomatch none), entries := ?_,
        entriesNew := (fun _ none => nomatch none), pending := (fun _ _ same => nomatch same),
        room := ?_ }
    · rw [one]
      change s.log.outstanding - 1 = s.log.outstanding - 1 + 0
      omega
    · intro q other different same
      rw [only q different] at same
      cases same
    · change s.log.lh.n + (_ - _ + (0 : Int)) ≤ _
      omega
  · apply reserved.moveTo
    refine
      { size := rfl, nonneg := reserved.nonneg, outstanding := ?_, alone := ?_,
        owner := fun q _ => reserved.owner q, ownerNew := ?_,
        budget := (fun _ none => nomatch none),
        entries := fun q other _ => reserved.entries q other,
        entriesNew := (fun _ none => nomatch none), pending := (fun _ _ same => nomatch same),
        room := ?_ }
    · rw [one]
      change s.log.outstanding - 1 = s.log.outstanding - 1 + 0
      omega
    · intro committing
      exact absurd committing (by simp [quiet])
    · rintro (moved | moved) <;> cases moved
    · change s.log.lh.n + (_ - _ + (0 : Int)) ≤ _
      omega

theorem Reserved.committed (reserved : Reserved s) (phase : s.phase p = .committing) :
    Reserved (s.moveTo p .finishing (commitLog s.log)) := by
  have inCommit : (s.phase p).InCommit := Or.inl phase
  have busy := reserved.owner p inCommit
  have outside := reserved.alone busy
  have count : (commitLog s.log).lh.n = 0 := by
    have nonneg := reserved.nonneg
    unfold commitLog
    split
    · rfl
    · omega
  have kept : (commitLog s.log).size = s.log.size ∧
      (commitLog s.log).outstanding = s.log.outstanding ∧
      (commitLog s.log).committing = s.log.committing := by
    unfold commitLog
    split <;> exact ⟨rfl, rfl, rfl⟩
  obtain ⟨size, outstanding, committing⟩ := kept
  have zeroActive : (s.phase p).active = 0 := by simp [Phase.active, outside p]
  have zeroRemaining : (s.phase p).remaining = 0 := by simp [Phase.remaining, outside p]
  apply reserved.moveTo
  refine
    { size := size, nonneg := by omega, outstanding := ?_,
      alone := fun _ => ⟨rfl, fun q _ => outside q⟩, owner := fun _ _ _ => committing.trans busy,
      ownerNew := fun _ => ⟨committing.trans busy, fun q other both =>
        other (reserved.unique q p both inCommit)⟩,
      budget := (fun _ none => nomatch none), entries := ?_,
      entriesNew := (fun _ none => nomatch none), pending := (fun _ _ same => nomatch same),
      room := ?_ }
  · rw [outstanding, zeroActive]
    change _ = _ - (0 : Int) + 0
    omega
  · intro q logged _ same
    rw [outside q] at same
    cases same
  · have room := reserved.room
    have nonneg := reserved.nonneg
    unfold reserve at room
    rw [count, zeroRemaining]
    change (0 : Int) + (_ - 0 + 0) ≤ _
    omega

theorem Reserved.finished (reserved : Reserved s) (phase : s.phase p = .finishing) :
    Reserved (s.moveTo p .idle (endOpFinish s.log)) := by
  have inCommit : (s.phase p).InCommit := Or.inr phase
  have outside := reserved.alone (reserved.owner p inCommit)
  have zeroActive : (s.phase p).active = 0 := by simp [Phase.active, outside p]
  have zeroRemaining : (s.phase p).remaining = 0 := by simp [Phase.remaining, outside p]
  apply reserved.moveTo
  refine
    { size := rfl, nonneg := reserved.nonneg, outstanding := ?_, alone := (fun busy => nomatch busy),
      owner := fun q other both => absurd (reserved.unique q p both inCommit) other,
      ownerNew := ?_, budget := (fun _ none => nomatch none), entries := ?_,
      entriesNew := (fun _ none => nomatch none), pending := (fun _ _ same => nomatch same),
      room := ?_ }
  · rw [zeroActive]
    change s.log.outstanding = s.log.outstanding - 0 + 0
    omega
  · rintro (moved | moved) <;> cases moved
  · intro q logged _ same
    rw [outside q] at same
    cases same
  · have room := reserved.room
    unfold reserve at room
    rw [zeroRemaining]
    change s.log.lh.n + (_ - 0 + 0) ≤ _
    omega

theorem Reserved.step {after : State P} {label : Label P} (reserved : Reserved s)
    (withRoom : AdmitsWithRoom s label) (stepped : (reservation P).next s label = some after) :
    Reserved after := by
  obtain ⟨running, outcome⟩ := stepped_of_next stepped
  cases outcome with
  | refused p => exact reserved
  | admitted p log idle section_ => exact reserved.admitted idle section_ withRoom
  | checked p blockno logged phase within => exact reserved.checked phase within
  | checkPanic p blockno logged panic phase failed =>
    refine { reserved with calm := ?_ }
    rintro tooBig
    cases tooBig
    exact reserved.check_ne_tooBig failed
  | recorded p blockno logged phase => exact reserved.recorded phase
  | ended p logged log doCommit phase section_ => exact reserved.ended phase section_
  | endPanic p panic failed =>
    refine { reserved with calm := ?_ }
    rintro tooBig
    cases tooBig
    unfold endOpSection at failed
    simp only at failed
    split at failed
    · cases failed
    · split at failed <;> cases failed
  | committed p phase => exact reserved.committed phase
  | finished p phase => exact reserved.finished phase

/-- Reservation soundness: in every run in which each admission leaves room for
everything reserved and one spare block, `log_write` never panics with "too big
a transaction". -/
theorem reservation_sound (labels : List (Label P)) (final : State P)
    (withRoom : (reservation P).Meets AdmitsWithRoom (booted P) labels)
    (ran : (reservation P).run (booted P) labels = some final) :
    final.panicked ≠ some .tooBigATransaction := by
  have reserved : Reserved final :=
    System.run_preserves_of_meets Reserved
      (fun _ _ _ holds meets stepped => holds.step meets stepped) booted_reserved withRoom ran
  exact reserved.calm

end

def twoBlockOperation : List (Label (Fin 1)) :=
  [.beginOp 0, .logWrite 0 100, .logRecord 0, .logWrite 0 101, .logRecord 0, .logWrite 0 101,
    .logRecord 0, .endOp 0, .commit 0, .finish 0]

theorem reservation_sound_twoBlockOperation :
    ∃ final, (reservation (Fin 1)).run (booted (Fin 1)) twoBlockOperation = some final ∧
      final.panicked ≠ some .tooBigATransaction := by
  have admits : (reservation (Fin 1)).Meets AdmitsWithRoom (booted (Fin 1)) twoBlockOperation := by
    refine ⟨fun _ => by decide, ?_⟩
    rintro _ -
    repeat refine ⟨trivial, fun _ _ => ?_⟩
    trivial
  exact ⟨_, rfl, reservation_sound twoBlockOperation _ admits rfl⟩

end Xv6.RedoLog
