import Xv6.Pipes.Model

/-!
Contract: who sleeps on a pipe has a reason to, under every interleaving of the acquires
and releases of `p->lock` and `ptable.lock` in `pipewrite`, `piperead`, `pipeclose`,
`sleep`, `wakeup` and `kill`.

There is one exception: a `pipewrite` that fails has filled the pipe without waking the
readers. A reader that sleeps at that time stays asleep in front of a full pipe.
-/

namespace Xv6.Pipes

open Xv6.Lib

/-- The reason for which a process sleeps on a channel. -/
def Blocked (s : Shared) (chan : Channel) (_ : Control) : Prop :=
  match chan with
  | .nread => s.pipe.nread = s.pipe.nwrite ∧ s.pipe.writeopen = true
  | .nwrite => s.pipe.Full ∧ s.pipe.readopen = true

/-- The process is about to fail in `pipewrite`, having stored what fits. -/
def failsWrite (s : Shared) (c : Control) : Bool :=
  match c.call with
  | .writing id _ todo =>
    (pipewriteLoop s.pipe todo).2 ≠ [] ∧
      ((s.stored id todo).pipe.readopen = false ∨ c.killed)
  | _ => false

/-- The loop of `pipewrite` leaves bytes only when the pipe is full. -/
theorem pipewriteLoop_full {p : Pipe} {todo : List UInt8} (left : (pipewriteLoop p todo).2 ≠ []) :
    (pipewriteLoop p todo).1.Full := by
  induction todo generalizing p with
  | nil => exact absurd rfl left
  | cons c rest ih =>
    rw [pipewriteLoop] at left ⊢
    split
    · rename_i full
      exact full
    · rename_i notFull
      rw [if_neg notFull] at left
      exact ih left

/-- A full pipe is not changed by the loop of `pipewrite`. -/
theorem pipewriteLoop_of_full {p : Pipe} (full : p.Full) (todo : List UInt8) :
    (pipewriteLoop p todo).1 = p := by
  cases todo with
  | nil => rfl
  | cons c rest => rw [pipewriteLoop, if_pos full]

section

variable {s : Shared} {c : Control} {stretch : Stretch Shared Control Channel} {chan : Channel}

theorem pipewrite_sleeps {id : Nat} {bytes todo : List UInt8}
    (sleeps : (pipewrite s c id bytes todo).finish = .sleep chan) :
    Blocked (pipewrite s c id bytes todo).shared chan c := by
  unfold pipewrite at sleeps ⊢
  split
  · rename_i done
    rw [if_pos done] at sleeps
    cases sleeps
  · rename_i left
    rw [if_neg left] at sleeps
    split
    · rename_i fails
      rw [if_pos fails] at sleeps
      cases sleeps
    · rename_i goesOn
      rw [if_neg goesOn] at sleeps
      cases sleeps
      rw [not_or, Bool.not_eq_false] at goesOn
      exact ⟨pipewriteLoop_full left, goesOn.1⟩

theorem piperead_sleeps {n : Nat} (sleeps : (piperead s c n).finish = .sleep chan) :
    Blocked (piperead s c n).shared chan c := by
  unfold piperead at sleeps ⊢
  split
  · rename_i waits
    rw [if_pos waits] at sleeps
    split
    · rename_i killed
      rw [if_pos killed] at sleeps
      cases sleeps
    · rename_i notKilled
      rw [if_neg notKilled] at sleeps
      cases sleeps
      exact waits
  · rename_i reads
    rw [if_neg reads] at sleeps
    cases sleeps

/-- A section of `pipewrite` wakes the readers unless it fails. -/
theorem pipewrite_wakes {id : Nat} {bytes todo : List UInt8} {sleeper : Control}
    (blocked : Blocked s chan sleeper)
    (woken : chan = .nread → ¬ ((pipewriteLoop s.pipe todo).2 ≠ [] ∧
      ((s.stored id todo).pipe.readopen = false ∨ c.killed))) :
    Blocked (pipewrite s c id bytes todo).shared chan sleeper ∨
      chan ∈ (pipewrite s c id bytes todo).wakes := by
  cases chan with
  | nread =>
    right
    unfold pipewrite
    split
    · exact List.mem_singleton_self _
    · rename_i left
      split
      · rename_i fails
        exact absurd ⟨left, fails⟩ (woken rfl)
      · exact List.mem_singleton_self _
  | nwrite =>
    left
    have same : (s.stored id todo).pipe = s.pipe := pipewriteLoop_of_full blocked.1 todo
    have still : Blocked (s.stored id todo) .nwrite sleeper := by
      rw [Blocked, same]
      exact blocked
    unfold pipewrite
    split
    · exact still
    · split
      · exact still
      · exact still

/-- A section of `piperead` wakes the writers unless it finds the pipe empty. -/
theorem piperead_wakes {n : Nat} {sleeper : Control} (blocked : Blocked s chan sleeper) :
    Blocked (piperead s c n).shared chan sleeper ∨ chan ∈ (piperead s c n).wakes := by
  unfold piperead
  split
  · left
    split
    · exact blocked
    · exact blocked
  · rename_i reads
    cases chan with
    | nread => exact absurd blocked reads
    | nwrite => exact Or.inr (List.mem_singleton_self _)

theorem pipeclose_wakes {writable : Bool} {sleeper : Control} (blocked : Blocked s chan sleeper) :
    Blocked (pipeclose s c writable).shared chan sleeper ∨ chan ∈ (pipeclose s c writable).wakes := by
  cases chan with
  | nread =>
    cases writable with
    | true => exact Or.inr (List.mem_singleton_self _)
    | false => exact Or.inl blocked
  | nwrite =>
    cases writable with
    | true => exact Or.inl blocked
    | false => exact Or.inr (List.mem_singleton_self _)

theorem start_pipe {move : Move} {after : Shared × Control} (started : start move s c = some after) :
    after.1.pipe = s.pipe := by
  unfold start at started
  split at started <;> cases started <;> rfl

end

section

variable {Process : Type} [DecidableEq Process]

/-- A `pipewrite` fails only while no reader sleeps. -/
def NoReaderLeft (s : MonitorState Process Shared Control Channel) :
    MonitorLabel Process Move → Prop
  | .enter p => failsWrite s.shared (s.phase p).control = true →
      ∀ q, ¬ (s.phase q).Sleeping .nread
  | _ => True

instance [Fintype Process] (s : MonitorState Process Shared Control Channel)
    (label : MonitorLabel Process Move) : Decidable (NoReaderLeft s label) :=
  match label with
  | .enter p => inferInstanceAs (Decidable
      (failsWrite s.shared (s.phase p).control = true → ∀ q, ¬ (s.phase q).Sleeping .nread))
  | .free _ _ | .step _ | .kill _ => isTrue trivial

omit [DecidableEq Process] in
theorem NoReaderLeft.signals (s : MonitorState Process Shared Control Channel)
    (label : MonitorLabel Process Move) (noReader : NoReaderLeft s label) :
    SignalsAt (program Process) Blocked s label := by
  cases label with
  | enter p =>
    intro c stretch at_ entered
    change enter s.shared c = some stretch at entered
    have failing : failsWrite s.shared c = true → ∀ q, ¬ (s.phase q).Sleeping .nread := by
      have atP : (s.phase p).control = c := by
        rw [at_]
        rfl
      rw [← atP]
      exact noReader
    obtain ⟨-, entered⟩ := Option.ite_none_left_eq_some.mp entered
    split at entered
    · cases entered
    · rename_i id bytes todo isWriting
      cases entered
      refine ⟨fun chan sleeps => pipewrite_sleeps sleeps, fun sleeper chan asleep blocked => ?_⟩
      apply pipewrite_wakes blocked
      rintro rfl fails
      have isFailing : failsWrite s.shared c = true := by
        rw [failsWrite, isWriting]
        exact decide_eq_true fails
      exact failing isFailing sleeper asleep
    · cases entered
      exact ⟨fun chan sleeps => piperead_sleeps sleeps,
        fun sleeper chan _ blocked => piperead_wakes blocked⟩
    · cases entered
      refine ⟨fun chan sleeps => ?_, fun sleeper chan _ blocked => pipeclose_wakes blocked⟩
      cases sleeps
  | free p move =>
    intro c after chan sleeper _ started blocked
    unfold Blocked at blocked ⊢
    rw [start_pipe started]
    exact blocked
  | step p => trivial
  | kill p => trivial

/-- When nobody is in a section of `p->lock` or `ptable.lock`, who sleeps on `&p->nread`
sleeps in front of an empty pipe that may still be written, and who sleeps on `&p->nwrite`
in front of a full one that may still be read. -/
theorem sleepers_blocked {data : Fin PIPESIZE → UInt8} {labels : List (MonitorLabel Process Move)}
    {final : MonitorState Process Shared Control Channel}
    (meets : (monitor (program Process)).Meets NoReaderLeft
      (.initial (opened data) fun _ => awake) labels)
    (ran : (monitor (program Process)).run (.initial (opened data) fun _ => awake) labels =
      some final)
    (quiescent : final.Quiescent) (p : Process) (c : Control) :
    (final.phase p = .asleep c .nread →
      final.shared.pipe.nread = final.shared.pipe.nwrite ∧ final.shared.pipe.writeopen = true) ∧
    (final.phase p = .asleep c .nwrite →
      final.shared.pipe.nwrite = addWord final.shared.pipe.nread PIPESIZE ∧
        final.shared.pipe.readopen = true) :=
  ⟨fun asleep => asleep_blocked_of_meets NoReaderLeft.signals meets ran quiescent.1 asleep,
    fun asleep => asleep_blocked_of_meets NoReaderLeft.signals meets ran quiescent.1 asleep⟩

end

def readerSleeps : List (MonitorLabel (Fin 2) Move) :=
  [.free 0 (.read 1), .enter 0, .step 0, .step 0, .step 0]

/-- Process 1 is killed in `pipewrite` of 513 bytes: it stores 512 of them and fails. -/
def writerKilled : List (MonitorLabel (Fin 2) Move) :=
  [.free 1 (.write (List.replicate 513 7)), .free 1 .kill, .enter 1, .step 1]

theorem sleepers_blocked_readerSleeps :
    ∃ final : MonitorState (Fin 2) Shared Control Channel,
      (monitor (program (Fin 2))).run (.initial (opened fun _ => 0) fun _ => awake) readerSleeps =
        some final ∧
      final.phase 0 = .asleep ⟨.reading 1, false⟩ .nread ∧
      final.shared.pipe.nread = final.shared.pipe.nwrite := by
  have meets : (monitor (program (Fin 2))).Meets NoReaderLeft
      (.initial (opened fun _ => 0) fun _ => awake) readerSleeps := by
    decide +kernel
  exact ⟨_, rfl, rfl, ((sleepers_blocked meets rfl ⟨rfl, rfl⟩ (0 : Fin 2) _).1 rfl).1⟩

/-- The reader is left asleep in front of a full pipe. -/
theorem killedWriter_leavesReader :
    ∃ final : MonitorState (Fin 2) Shared Control Channel, ∃ c : Control,
      (monitor (program (Fin 2))).run (.initial (opened fun _ => 0) fun _ => awake)
        (readerSleeps ++ writerKilled) = some final ∧
      final.Quiescent ∧ final.phase 0 = .asleep c .nread ∧
      final.shared.pipe.nread = 0 ∧ final.shared.pipe.nwrite = 512 := by
  have ends : ((monitor (program (Fin 2))).run (.initial (opened fun _ => 0) fun _ => awake)
      (readerSleeps ++ writerKilled)).map (fun s => (s.lock, s.tableLock,
        (match s.phase 0 with
          | .asleep _ .nread => true
          | .asleep _ .nwrite | .out _ | .inside _ _ _ | .waking _ _ _ _ | .handover _ _ | .dropped _ _
          | .runnable _ | .resumed _ => false),
        s.shared.pipe.nread, s.shared.pipe.nwrite)) = some (none, none, true, 0, 512) := by
    decide +kernel
  obtain ⟨final, ran, isFinal⟩ := Option.map_eq_some_iff.mp ends
  simp only [Prod.mk.injEq] at isFinal
  obtain ⟨unlocked, tableFree, asleep, isRead, isWritten⟩ := isFinal
  split at asleep
  · rename_i c isAsleep
    exact ⟨final, c, ran, ⟨unlocked, tableFree⟩, isAsleep, isRead, isWritten⟩
  all_goals cases asleep

end Xv6.Pipes
