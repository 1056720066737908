import Xv6.Lib.System

/-!
Contract: parties that meet in the sections of one lock, sleep inside a section
and wake each other.

A program says what a party does from the acquire of the lock up to the next
`sleep` or to the release. `atomic` takes such a stretch as one step. `monitor`
executes it lock operation by lock operation: a second lock, `tableLock`, protects
who is asleep, `sleep` takes it before it lets go of the monitor's lock, and a
wakeup makes every sleeper of its channel runnable.

Owns: both systems, that the second is simulated by the first, and that no wakeup
is lost.
-/

namespace Xv6.Lib

open Function

/-! ### Programs -/

inductive Finish (Chan : Type) where
  | leave
  | sleep (chan : Chan)

/-- What a party did with the lock held: the shared state and its own control
state as it left them, the channels it wakes, and how the stretch ends. -/
structure Stretch (Shared Control Chan : Type) where
  shared : Shared
  control : Control
  wakes : List Chan
  finish : Finish Chan

/-- `enter` is the stretch a party runs when it acquires the lock, `free` a step
outside the lock's sections. -/
structure Program (Party Shared Control Chan Move : Type) where
  enter : Party → Shared → Control → Option (Stretch Shared Control Chan)
  free : Party → Move → Shared → Control → Option (Shared × Control)

/-- The state of the system of atomic sections. -/
structure Joint (Party Shared Control : Type) where
  shared : Shared
  control : Party → Control

inductive AtomicLabel (Party Move : Type) where
  | enter (party : Party)
  | free (party : Party) (move : Move)

/-- Where a party is. `inside`, `waking` and `handover` hold the monitor's lock;
`waking`, `handover`, `dropped` and `resumed` hold the table lock. -/
inductive Phase (Control Chan : Type) where
  | out (control : Control)
  | inside (control : Control) (wakes : List Chan) (finish : Finish Chan)
  | waking (control : Control) (chan : Chan) (wakes : List Chan) (finish : Finish Chan)
  | handover (control : Control) (chan : Chan)
  | dropped (control : Control) (chan : Chan)
  | asleep (control : Control) (chan : Chan)
  | runnable (control : Control)
  | resumed (control : Control)

structure MonitorState (Party Shared Control Chan : Type) where
  shared : Shared
  phase : Party → Phase Control Chan
  lock : Option Party
  tableLock : Option Party

/-- `kill` makes its target runnable if it sleeps. -/
inductive MonitorLabel (Party Move : Type) where
  | enter (party : Party)
  | free (party : Party) (move : Move)
  | step (party : Party)
  | kill (party : Party)

namespace Phase

variable {Control Chan : Type}

def control : Phase Control Chan → Control
  | out control => control
  | inside control _ _ => control
  | waking control _ _ _ => control
  | handover control _ => control
  | dropped control _ => control
  | asleep control _ => control
  | runnable control => control
  | resumed control => control

def HoldsLock : Phase Control Chan → Prop
  | inside _ _ _ => True
  | waking _ _ _ _ => True
  | handover _ _ => True
  | _ => False

def HoldsTable : Phase Control Chan → Prop
  | waking _ _ _ _ => True
  | handover _ _ => True
  | dropped _ _ => True
  | resumed _ => True
  | _ => False

/-- The party will sleep on `chan` before it gives up the monitor's lock. -/
def GoingToSleep (chan : Chan) : Phase Control Chan → Prop
  | inside _ _ finish => finish = .sleep chan
  | waking _ _ _ finish => finish = .sleep chan
  | handover _ chan' => chan' = chan
  | _ => False

/-- The party sleeps on `chan`, or will without the monitor's lock. -/
def Sleeping (chan : Chan) : Phase Control Chan → Prop
  | dropped _ chan' => chan' = chan
  | asleep _ chan' => chan' = chan
  | _ => False

/-- The party has yet to wake `chan` before it gives up the monitor's lock. -/
def WillWake (chan : Chan) : Phase Control Chan → Prop
  | inside _ wakes _ => chan ∈ wakes
  | waking _ chan' wakes _ => chan = chan' ∨ chan ∈ wakes
  | _ => False

theorem WillWake.holdsLock {chan : Chan} {phase : Phase Control Chan}
    (willWake : phase.WillWake chan) : phase.HoldsLock := by
  cases phase <;> trivial

theorem GoingToSleep.holdsLock {chan : Chan} {phase : Phase Control Chan}
    (going : phase.GoingToSleep chan) : phase.HoldsLock := by
  cases phase <;> trivial

variable [DecidableEq Chan]

instance (chan : Chan) : DecidablePred (fun phase : Phase Control Chan => phase.Sleeping chan)
  | dropped _ chan' => inferInstanceAs (Decidable (chan' = chan))
  | asleep _ chan' => inferInstanceAs (Decidable (chan' = chan))
  | out _ | inside _ _ _ | waking _ _ _ _ | handover _ _ | runnable _ | resumed _ => isFalse id

/-- The effect of a wakeup of `chan` on a party. -/
def wake (chan : Chan) : Phase Control Chan → Phase Control Chan
  | asleep control chan' => if chan' = chan then runnable control else asleep control chan'
  | phase => phase

@[simp] theorem control_wake (chan : Chan) (phase : Phase Control Chan) :
    (phase.wake chan).control = phase.control := by
  cases phase with
  | asleep control chan' =>
    simp only [wake]
    split <;> rfl
  | _ => rfl

/-- A wakeup changes nothing for a party that is awake. -/
theorem wake_cases (chan : Chan) (phase : Phase Control Chan) :
    phase.wake chan = phase ∧ phase ≠ .asleep phase.control chan ∨
      phase = .asleep phase.control chan ∧ phase.wake chan = .runnable phase.control := by
  cases phase with
  | asleep control chan' =>
    by_cases same : chan' = chan
    · exact Or.inr ⟨by rw [same]; rfl, by simp [wake, same, Phase.control]⟩
    · exact Or.inl ⟨by simp [wake, same], by simp [same]⟩
  | _ => exact Or.inl ⟨rfl, nofun⟩

end Phase

/-! ### The two systems -/

section

variable {Party Shared Control Chan Move : Type} [DecidableEq Party]
  (program : Program Party Shared Control Chan Move)

def atomicNext (s : Joint Party Shared Control) :
    AtomicLabel Party Move → Option (Joint Party Shared Control)
  | .enter party =>
    (program.enter party s.shared (s.control party)).map fun stretch =>
      ⟨stretch.shared, update s.control party stretch.control⟩
  | .free party move =>
    (program.free party move s.shared (s.control party)).map fun after =>
      ⟨after.1, update s.control party after.2⟩

def atomic : System (Joint Party Shared Control) (AtomicLabel Party Move) where
  next := atomicNext program

/-- What the system of atomic sections sees of a state. -/
def MonitorState.joint (s : MonitorState Party Shared Control Chan) : Joint Party Shared Control :=
  ⟨s.shared, fun party => (s.phase party).control⟩

private theorem control_update (phase : Party → Phase Control Chan) (party : Party)
    (new : Phase Control Chan) :
    (fun other => (update phase party new other).control) =
      update (fun other => (phase other).control) party new.control := by
  funext other
  exact Function.apply_update (fun _ => Phase.control) phase party new other

private theorem control_update_self {phase : Party → Phase Control Chan} {party : Party}
    {new : Phase Control Chan} (same : new.control = (phase party).control) :
    (fun other => (update phase party new other).control) =
      fun other => (phase other).control := by
  rw [control_update, same]
  exact update_eq_self party fun other => (phase other).control

variable [DecidableEq Chan]

/-- The next lock operation of `party`, with the code up to the one after. -/
def lockStep (s : MonitorState Party Shared Control Chan) (party : Party) :
    Option (MonitorState Party Shared Control Chan) :=
  match s.phase party with
  | .out _ => none
  | .inside control (chan :: wakes) finish =>
    if s.tableLock = none then
      some { s with
        phase := update s.phase party (.waking control chan wakes finish)
        tableLock := some party }
    else none
  | .inside control [] (.sleep chan) =>
    if s.tableLock = none then
      some { s with
        phase := update s.phase party (.handover control chan)
        tableLock := some party }
    else none
  | .inside control [] .leave =>
    some { s with phase := update s.phase party (.out control), lock := none }
  | .waking control chan wakes finish =>
    some { s with
      phase := update (fun other => (s.phase other).wake chan) party
        (.inside control wakes finish)
      tableLock := none }
  | .handover control chan =>
    some { s with phase := update s.phase party (.dropped control chan), lock := none }
  | .dropped control chan =>
    some { s with
      phase := update s.phase party (.asleep control chan)
      tableLock := none }
  | .asleep _ _ => none
  | .runnable control =>
    -- the scheduler takes the table lock and switches to the party
    if s.tableLock = none then
      some { s with
        phase := update s.phase party (.resumed control)
        tableLock := some party }
    else none
  | .resumed control =>
    some { s with phase := update s.phase party (.out control), tableLock := none }

def monitorNext (s : MonitorState Party Shared Control Chan) :
    MonitorLabel Party Move → Option (MonitorState Party Shared Control Chan)
  | .enter party =>
    match s.phase party with
    | .out control =>
      if s.lock = none then
        (program.enter party s.shared control).map fun stretch =>
          { s with
            shared := stretch.shared
            phase := update s.phase party
              (.inside stretch.control stretch.wakes stretch.finish)
            lock := some party }
      else none
    | _ => none
  | .free party move =>
    match s.phase party with
    | .out control =>
      (program.free party move s.shared control).map fun after =>
        { s with
          shared := after.1
          phase := update s.phase party (.out after.2) }
    | _ => none
  | .step party => lockStep s party
  | .kill party =>
    if s.tableLock = none then
      match s.phase party with
      | .asleep control _ =>
        some { s with phase := update s.phase party (.runnable control) }
      | _ => some s
    else none

def monitor : System (MonitorState Party Shared Control Chan) (MonitorLabel Party Move) where
  next := monitorNext program

/-- Nobody holds a lock. -/
def MonitorState.Quiescent (s : MonitorState Party Shared Control Chan) : Prop :=
  s.lock = none ∧ s.tableLock = none

def MonitorState.initial (shared : Shared) (control : Party → Control) :
    MonitorState Party Shared Control Chan :=
  ⟨shared, fun party => .out (control party), none, none⟩

/-! ### Atomic sections -/

/-- A lock operation changes nothing an atomic section would see. -/
theorem lockStep_joint {s after : MonitorState Party Shared Control Chan} {party : Party}
    (stepped : lockStep s party = some after) : after.joint = s.joint := by
  have keep : ∀ (new : Phase Control Chan) (lock tableLock : Option Party),
      new.control = (s.phase party).control →
        MonitorState.joint ⟨s.shared, update s.phase party new, lock, tableLock⟩ =
          s.joint := by
    intro new lock tableLock same
    simp only [MonitorState.joint, control_update_self same]
  unfold lockStep at stepped
  split at stepped
  · cases stepped
  · rename_i at_
    obtain ⟨-, rfl⟩ := of_guard stepped
    exact keep _ _ _ (by rw [at_]; rfl)
  · rename_i at_
    obtain ⟨-, rfl⟩ := of_guard stepped
    exact keep _ _ _ (by rw [at_]; rfl)
  · rename_i at_
    cases stepped
    exact keep _ _ _ (by rw [at_]; rfl)
  · rename_i chan wakes finish at_
    cases stepped
    have woken : ∀ other, ((s.phase other).wake chan).control = (s.phase other).control :=
      fun other => Phase.control_wake chan (s.phase other)
    simp only [MonitorState.joint]
    rw [control_update_self]
    · simp only [woken]
    · rw [woken, at_]
      rfl
  · rename_i at_
    cases stepped
    exact keep _ _ _ (by rw [at_]; rfl)
  · rename_i at_
    cases stepped
    exact keep _ _ _ (by rw [at_]; rfl)
  · cases stepped
  · rename_i at_
    obtain ⟨-, rfl⟩ := of_guard stepped
    exact keep _ _ _ (by rw [at_]; rfl)
  · rename_i at_
    cases stepped
    exact keep _ _ _ (by rw [at_]; rfl)

/-- The sections may be taken as atomic. -/
def monitorSimulation : Simulation (monitor program) (atomic program) where
  abstraction := MonitorState.joint
  simulates := by
    intro s label after stepped
    change monitorNext program s label = some after at stepped
    cases label with
    | enter party =>
      simp only [monitorNext] at stepped
      split at stepped
      · rename_i control at_
        split at stepped
        · obtain ⟨stretch, entered, isAfter⟩ := Option.map_eq_some_iff.mp stepped
          refine Or.inr ⟨.enter party, ?_⟩
          have here : s.joint.control party = control := by
            change (s.phase party).control = control
            rw [at_]
            rfl
          change atomicNext program s.joint (.enter party) = _
          rw [atomicNext, here, show s.joint.shared = s.shared from rfl, entered, ← isAfter]
          simp only [Option.map_some, MonitorState.joint, control_update]
          rfl
        · cases stepped
      · cases stepped
    | free party move =>
      simp only [monitorNext] at stepped
      split at stepped
      · rename_i control at_
        obtain ⟨moved, free, isAfter⟩ := Option.map_eq_some_iff.mp stepped
        refine Or.inr ⟨.free party move, ?_⟩
        have here : s.joint.control party = control := by
          change (s.phase party).control = control
          rw [at_]
          rfl
        change atomicNext program s.joint (.free party move) = _
        rw [atomicNext, here, show s.joint.shared = s.shared from rfl, free, ← isAfter]
        simp only [Option.map_some, MonitorState.joint, control_update]
        rfl
      · cases stepped
    | step party => exact Or.inl (lockStep_joint stepped)
    | kill party =>
      refine Or.inl ?_
      obtain ⟨-, stepped⟩ := Option.ite_none_right_eq_some.mp stepped
      split at stepped
      · rename_i control chan at_
        cases stepped
        simp only [MonitorState.joint]
        rw [control_update_self (by rw [at_]; rfl)]
      · cases stepped
        rfl

end

/-! ### No lost wakeup -/

section

variable {Party Shared Control Chan Move : Type} [DecidableEq Party]
  (program : Program Party Shared Control Chan Move)

/-- `blocked shared chan control` is the reason for which a party with `control`
sleeps on `chan`. A program signals when a party goes to sleep only if it is
blocked, when a stretch that unblocks a sleeper wakes its channel, and when a step
outside the sections unblocks nobody. -/
structure Signals (blocked : Shared → Chan → Control → Prop) : Prop where
  sleeps : ∀ party shared control stretch chan,
    program.enter party shared control = some stretch → stretch.finish = .sleep chan →
      blocked stretch.shared chan stretch.control
  wakes : ∀ party shared control stretch chan sleeper,
    program.enter party shared control = some stretch → blocked shared chan sleeper →
      blocked stretch.shared chan sleeper ∨ chan ∈ stretch.wakes
  free : ∀ party move shared control after chan sleeper,
    program.free party move shared control = some after → blocked shared chan sleeper →
      blocked after.1 chan sleeper

/-- What a program that signals does, for one step from one state. -/
def SignalsAt (blocked : Shared → Chan → Control → Prop)
    (s : MonitorState Party Shared Control Chan) : MonitorLabel Party Move → Prop
  | .enter party => ∀ control stretch, s.phase party = .out control →
      program.enter party s.shared control = some stretch →
        (∀ chan, stretch.finish = .sleep chan → blocked stretch.shared chan stretch.control) ∧
        ∀ sleeper chan, (s.phase sleeper).Sleeping chan →
          blocked s.shared chan (s.phase sleeper).control →
            blocked stretch.shared chan (s.phase sleeper).control ∨ chan ∈ stretch.wakes
  | .free party move => ∀ control after chan sleeper, s.phase party = .out control →
      program.free party move s.shared control = some after → blocked s.shared chan sleeper →
        blocked after.1 chan sleeper
  | .step _ => True
  | .kill _ => True

omit [DecidableEq Party] in
theorem Signals.at {program : Program Party Shared Control Chan Move}
    {blocked : Shared → Chan → Control → Prop} (signals : Signals program blocked)
    (s : MonitorState Party Shared Control Chan) (label : MonitorLabel Party Move) :
    SignalsAt program blocked s label := by
  cases label with
  | enter party =>
    intro control stretch _ entered
    refine ⟨fun chan sleeps => signals.sleeps party s.shared control stretch chan entered sleeps, ?_⟩
    intro sleeper chan _ isBlocked
    exact signals.wakes party s.shared control stretch chan _ entered isBlocked
  | free party move =>
    intro control after chan sleeper _ moved isBlocked
    exact signals.free party move s.shared control after chan sleeper moved isBlocked
  | step party => trivial
  | kill party => trivial

/-- Only the owner of a lock is in a phase that holds it. -/
def Owned (Holds : Phase Control Chan → Prop) (phase : Party → Phase Control Chan)
    (owner : Option Party) : Prop :=
  ∀ party, Holds (phase party) → owner = some party

section

variable {Holds : Phase Control Chan → Prop} {phase : Party → Phase Control Chan}
  {owner : Option Party} (party : Party) (new : Phase Control Chan)

theorem Owned.keep (owned : Owned Holds phase owner) (less : Holds new → Holds (phase party)) :
    Owned Holds (update phase party new) owner := by
  intro other holds
  by_cases same : other = party
  · rw [same, update_self] at holds
    exact same ▸ owned party (less holds)
  · rw [update_of_ne same] at holds
    exact owned other holds

theorem Owned.take (owned : Owned Holds phase none) :
    Owned Holds (update phase party new) (some party) := by
  intro other holds
  by_cases same : other = party
  · rw [same]
  · rw [update_of_ne same] at holds
    cases owned other holds

theorem Owned.give (owned : Owned Holds phase owner) (held : Holds (phase party))
    (dropped : ¬ Holds new) : Owned Holds (update phase party new) none := by
  intro other holds
  by_cases same : other = party
  · rw [same, update_self] at holds
    exact absurd holds dropped
  · rw [update_of_ne same] at holds
    have both := (owned other holds).symm.trans (owned party held)
    exact absurd (Option.some.inj both) same

end

/-- What holds in every state of the monitor. -/
structure Coherent (blocked : Shared → Chan → Control → Prop)
    (s : MonitorState Party Shared Control Chan) : Prop where
  lock : Owned Phase.HoldsLock s.phase s.lock
  table : Owned Phase.HoldsTable s.phase s.tableLock
  going : ∀ party chan, (s.phase party).GoingToSleep chan →
    blocked s.shared chan (s.phase party).control
  sleeping : ∀ party chan, (s.phase party).Sleeping chan →
    blocked s.shared chan (s.phase party).control ∨ ∃ waker, (s.phase waker).WillWake chan

namespace Coherent

variable {program} {blocked : Shared → Chan → Control → Prop}
  {s : MonitorState Party Shared Control Chan}

/-- One party moves on and the shared state stays. -/
theorem move (coherent : Coherent blocked s) {party : Party} {new : Phase Control Chan}
    {lock tableLock : Option Party}
    (locked : Owned Phase.HoldsLock (update s.phase party new) lock)
    (tabled : Owned Phase.HoldsTable (update s.phase party new) tableLock)
    (going : ∀ chan, new.GoingToSleep chan → blocked s.shared chan new.control)
    (sleeping : ∀ chan, new.Sleeping chan → blocked s.shared chan new.control ∨
      ∃ waker, (s.phase waker).WillWake chan)
    (wakes : ∀ chan, (s.phase party).WillWake chan → new.WillWake chan) :
    Coherent blocked
      ⟨s.shared, update s.phase party new, lock, tableLock⟩ where
  lock := locked
  table := tabled
  going := by
    intro other chan goes
    by_cases same : other = party
    · simp only [same, update_self] at goes ⊢
      exact going chan goes
    · simp only [update_of_ne same] at goes ⊢
      exact coherent.going other chan goes
  sleeping := by
    intro other chan sleeps
    -- whoever was to wake `chan` still is
    have kept : (∃ waker, (s.phase waker).WillWake chan) →
        ∃ waker, (update s.phase party new waker).WillWake chan := by
      intro ⟨waker, willWake⟩
      refine ⟨waker, ?_⟩
      by_cases isParty : waker = party
      · rw [isParty, update_self]
        exact wakes chan (isParty ▸ willWake)
      · rw [update_of_ne isParty]
        exact willWake
    by_cases same : other = party
    · simp only [same, update_self] at sleeps ⊢
      exact (sleeping chan sleeps).imp_right kept
    · simp only [update_of_ne same] at sleeps ⊢
      exact (coherent.sleeping other chan sleeps).imp_right kept

theorem enter (coherent : Coherent blocked s) (free : s.lock = none) {party : Party}
    {stretch : Stretch Shared Control Chan}
    (sleeps : ∀ chan, stretch.finish = .sleep chan → blocked stretch.shared chan stretch.control)
    (wakes : ∀ sleeper chan, (s.phase sleeper).Sleeping chan →
      blocked s.shared chan (s.phase sleeper).control →
        blocked stretch.shared chan (s.phase sleeper).control ∨ chan ∈ stretch.wakes) :
    Coherent blocked
      ⟨stretch.shared,
        update s.phase party (.inside stretch.control stretch.wakes stretch.finish),
        some party, s.tableLock⟩ := by
  have unlocked : ∀ other, ¬ (s.phase other).HoldsLock := by
    intro other holds
    have owner := coherent.lock other holds
    rw [free] at owner
    cases owner
  constructor
  · apply Owned.take
    exact free ▸ coherent.lock
  · exact coherent.table.keep _ _ False.elim
  · intro other chan goes
    by_cases same : other = party
    · simp only [same, update_self] at goes ⊢
      exact sleeps chan goes
    · simp only [update_of_ne same] at goes
      exact absurd goes.holdsLock (unlocked other)
  · intro other chan asleep
    by_cases same : other = party
    · simp only [same, update_self] at asleep
      exact asleep.elim
    · simp only [update_of_ne same] at asleep ⊢
      have blockedBefore := (coherent.sleeping other chan asleep).resolve_right
        fun ⟨waker, willWake⟩ => unlocked waker willWake.holdsLock
      apply (wakes other chan asleep blockedBefore).imp_right
      intro woken
      refine ⟨party, ?_⟩
      rw [update_self]
      exact woken

theorem free (coherent : Coherent blocked s) {party : Party} {control : Control}
    {moved : Shared × Control} (at_ : s.phase party = .out control)
    (kept : ∀ chan sleeper, blocked s.shared chan sleeper → blocked moved.1 chan sleeper) :
    Coherent blocked
      ⟨moved.1, update s.phase party (.out moved.2), s.lock, s.tableLock⟩ := by
  constructor
  · exact coherent.lock.keep _ _ False.elim
  · exact coherent.table.keep _ _ False.elim
  · intro other chan goes
    by_cases same : other = party
    · simp only [same, update_self] at goes
      exact goes.elim
    · simp only [update_of_ne same] at goes ⊢
      exact kept chan _ (coherent.going other chan goes)
  · intro other chan sleeps
    by_cases same : other = party
    · simp only [same, update_self] at sleeps
      exact sleeps.elim
    · simp only [update_of_ne same] at sleeps ⊢
      apply (coherent.sleeping other chan sleeps).imp (kept chan _)
      intro ⟨waker, willWake⟩
      refine ⟨waker, ?_⟩
      have notParty : waker ≠ party := by
        intro isParty
        rw [isParty, at_] at willWake
        exact willWake
      rw [update_of_ne notParty]
      exact willWake

variable [DecidableEq Chan]

/-- A wakeup of `chan`: nobody who sleeps on it is left behind. -/
theorem wakeup (coherent : Coherent blocked s) {party : Party} {control : Control} {chan : Chan}
    {wakes : List Chan} {finish : Finish Chan}
    (at_ : s.phase party = .waking control chan wakes finish) :
    Coherent blocked
      ⟨s.shared,
        update (fun other => (s.phase other).wake chan) party
          (.inside control wakes finish), s.lock, none⟩ := by
  have lockHeld : (s.phase party).HoldsLock := by rw [at_]; trivial
  have tableHeld : (s.phase party).HoldsTable := by rw [at_]; trivial
  have partyWoken : (s.phase party).wake chan = s.phase party := by rw [at_]; rfl
  -- a party is woken, or it is as it was
  have woken : ∀ (Holds : Phase Control Chan → Prop), (∀ control, ¬ Holds (.runnable control)) →
      ∀ other, Holds ((s.phase other).wake chan) →
        (s.phase other).wake chan = s.phase other ∧ Holds (s.phase other) ∧
          s.phase other ≠ .asleep (s.phase other).control chan := by
    intro Holds notRunnable other holds
    rcases Phase.wake_cases chan (s.phase other) with ⟨same, notAsleep⟩ | ⟨-, runnable⟩
    · exact ⟨same, same ▸ holds, notAsleep⟩
    · exact absurd (runnable ▸ holds) (notRunnable _)
  constructor
  · apply Owned.keep
    · intro other holds
      exact coherent.lock other (woken _ (fun _ => id) other holds).2.1
    · intro _
      rw [partyWoken]
      exact lockHeld
  · have owned : Owned Phase.HoldsTable (fun other => (s.phase other).wake chan) s.tableLock :=
      fun other holds => coherent.table other (woken _ (fun _ => id) other holds).2.1
    apply owned.give
    · rw [partyWoken]
      exact tableHeld
    · exact id
  · intro other chan' goes
    by_cases same : other = party
    · simp only [same, update_self] at goes ⊢
      have before := coherent.going party chan'
      rw [at_] at before
      exact before goes
    · simp only [update_of_ne same] at goes ⊢
      rw [Phase.control_wake]
      exact coherent.going other chan' (woken _ (fun _ => id) other goes).2.1
  · intro other chan' sleeps
    by_cases same : other = party
    · simp only [same, update_self] at sleeps
      exact sleeps.elim
    · simp only [update_of_ne same] at sleeps ⊢
      obtain ⟨-, slept, notAsleep⟩ := woken _ (fun _ => id) other sleeps
      have otherChan : chan' ≠ chan := by
        intro isChan
        subst isChan
        cases phase : s.phase other with
        | dropped control' chan'' =>
          -- it would hold the table lock together with the waker
          have both := (coherent.table other (by rw [phase]; trivial)).symm.trans
            (coherent.table party tableHeld)
          exact same (Option.some.inj both)
        | asleep control' chan'' =>
          rw [phase] at slept notAsleep
          exact notAsleep (by rw [show chan'' = chan' from slept]; rfl)
        | _ =>
          rw [phase] at slept
          exact slept
      rw [Phase.control_wake]
      apply (coherent.sleeping other chan' slept).imp_right
      intro ⟨waker, willWake⟩
      have isParty : waker = party :=
        Option.some.inj ((coherent.lock waker willWake.holdsLock).symm.trans
          (coherent.lock party lockHeld))
      rw [isParty, at_] at willWake
      refine ⟨party, ?_⟩
      rw [update_self]
      exact willWake.resolve_left otherChan

theorem lockStep {after : MonitorState Party Shared Control Chan} {party : Party}
    (coherent : Coherent blocked s) (stepped : lockStep s party = some after) :
    Coherent blocked after := by
  have going := coherent.going party
  have sleeping := coherent.sleeping party
  have lockKept := fun new => coherent.lock.keep party new
  have tableKept := fun new => coherent.table.keep party new
  have lockGiven := fun new => coherent.lock.give party new
  have tableGiven := fun new => coherent.table.give party new
  have tableTaken : s.tableLock = none → ∀ new,
      Owned Phase.HoldsTable (update s.phase party new) (some party) := by
    intro free new
    apply Owned.take
    exact free ▸ coherent.table
  unfold Lib.lockStep at stepped
  split at stepped
  · cases stepped
  · rename_i at_
    rw [at_] at going lockKept
    obtain ⟨free, rfl⟩ := of_guard stepped
    apply coherent.move (lockKept _ fun _ => trivial) (tableTaken free _)
    · exact going
    · exact fun _ => False.elim
    · rw [at_]
      exact fun _ => List.mem_cons.mp
  · rename_i at_
    rw [at_] at going lockKept
    obtain ⟨free, rfl⟩ := of_guard stepped
    apply coherent.move (lockKept _ fun _ => trivial) (tableTaken free _)
    · intro chan isChan
      exact going chan (congrArg Finish.sleep isChan)
    · exact fun _ => False.elim
    · rw [at_]
      exact fun _ willWake => absurd willWake List.not_mem_nil
  · rename_i at_
    rw [at_] at lockGiven
    cases stepped
    apply coherent.move (lockGiven _ trivial id) (tableKept _ False.elim)
    · exact fun _ => False.elim
    · exact fun _ => False.elim
    · rw [at_]
      exact fun _ willWake => absurd willWake List.not_mem_nil
  · rename_i at_
    cases stepped
    exact coherent.wakeup at_
  · rename_i at_
    rw [at_] at going lockGiven tableKept
    cases stepped
    apply coherent.move (lockGiven _ trivial id) (tableKept _ fun _ => trivial)
    · exact fun _ => False.elim
    · exact fun chan isChan => Or.inl (going chan isChan)
    · rw [at_]
      exact fun _ => False.elim
  · rename_i at_
    rw [at_] at sleeping tableGiven
    cases stepped
    apply coherent.move (lockKept _ False.elim) (tableGiven _ trivial id)
    · exact fun _ => False.elim
    · exact sleeping
    · rw [at_]
      exact fun _ => False.elim
  · cases stepped
  · rename_i at_
    obtain ⟨free, rfl⟩ := of_guard stepped
    apply coherent.move (lockKept _ False.elim) (tableTaken free _)
    · exact fun _ => False.elim
    · exact fun _ => False.elim
    · rw [at_]
      exact fun _ => False.elim
  · rename_i at_
    rw [at_] at tableGiven
    cases stepped
    apply coherent.move (lockKept _ False.elim) (tableGiven _ trivial id)
    · exact fun _ => False.elim
    · exact fun _ => False.elim
    · rw [at_]
      exact fun _ => False.elim

theorem step {after : MonitorState Party Shared Control Chan} {label : MonitorLabel Party Move}
    (coherent : Coherent blocked s) (signals : SignalsAt program blocked s label)
    (stepped : (monitor program).next s label = some after) : Coherent blocked after := by
  change monitorNext program s label = some after at stepped
  cases label with
  | enter party =>
    simp only [monitorNext] at stepped
    split at stepped
    · rename_i at_
      obtain ⟨free, stepped⟩ := Option.ite_none_right_eq_some.mp stepped
      obtain ⟨stretch, entered, isAfter⟩ := Option.map_eq_some_iff.mp stepped
      cases isAfter
      obtain ⟨sleeps, wakes⟩ := signals _ stretch at_ entered
      exact coherent.enter free sleeps wakes
    · cases stepped
  | free party move =>
    simp only [monitorNext] at stepped
    split at stepped
    · rename_i at_
      obtain ⟨moved, isFree, isAfter⟩ := Option.map_eq_some_iff.mp stepped
      cases isAfter
      exact coherent.free at_ fun chan sleeper => signals _ moved chan sleeper at_ isFree
    · cases stepped
  | step party => exact coherent.lockStep stepped
  | kill party =>
    obtain ⟨-, stepped⟩ := Option.ite_none_right_eq_some.mp stepped
    split at stepped
    · rename_i at_
      cases stepped
      apply coherent.move
      · exact coherent.lock.keep _ _ False.elim
      · exact coherent.table.keep _ _ False.elim
      · exact fun _ => False.elim
      · exact fun _ => False.elim
      · rw [at_]
        exact fun _ => False.elim
    · cases stepped
      exact coherent

end Coherent

variable {program} [DecidableEq Chan] {blocked : Shared → Chan → Control → Prop}

omit [DecidableEq Party] [DecidableEq Chan] in
theorem Coherent.initial (shared : Shared) (control : Party → Control) :
    Coherent blocked
      (MonitorState.initial shared control : MonitorState Party Shared Control Chan) :=
  ⟨fun _ => False.elim, fun _ => False.elim, fun _ _ => False.elim, fun _ _ => False.elim⟩

omit [DecidableEq Party] [DecidableEq Chan] in
theorem Coherent.blocked_of_asleep {s : MonitorState Party Shared Control Chan}
    (coherent : Coherent blocked s) (unlocked : s.lock = none) {party : Party} {own : Control}
    {chan : Chan} (asleep : s.phase party = .asleep own chan) : blocked s.shared chan own := by
  have sleeping := coherent.sleeping party chan (by rw [asleep]; rfl)
  rw [asleep] at sleeping
  apply sleeping.resolve_right
  intro ⟨waker, willWake⟩
  have owner := coherent.lock waker willWake.holdsLock
  rw [unlocked] at owner
  cases owner

/-- Whoever sleeps while nobody is in a section of the monitor's lock is blocked. -/
theorem asleep_blocked (signals : Signals program blocked) {shared : Shared}
    {control : Party → Control} {labels : List (MonitorLabel Party Move)}
    {final : MonitorState Party Shared Control Chan}
    (ran : (monitor program).run (.initial shared control) labels = some final)
    (unlocked : final.lock = none) {party : Party} {own : Control} {chan : Chan}
    (asleep : final.phase party = .asleep own chan) : blocked final.shared chan own := by
  have coherent : Coherent blocked final := by
    refine System.run_preserves (Coherent blocked) ?_ (Coherent.initial shared control) ran
    intro s label after coherent stepped
    exact coherent.step (signals.at s label) stepped
  exact coherent.blocked_of_asleep unlocked asleep

/-- The same of a run in which the program signals at every step. -/
theorem asleep_blocked_of_meets {condition : MonitorState Party Shared Control Chan →
      MonitorLabel Party Move → Prop}
    (signals : ∀ s label, condition s label → SignalsAt program blocked s label) {shared : Shared}
    {control : Party → Control} {labels : List (MonitorLabel Party Move)}
    {final : MonitorState Party Shared Control Chan}
    (meets : (monitor program).Meets condition (.initial shared control) labels)
    (ran : (monitor program).run (.initial shared control) labels = some final)
    (unlocked : final.lock = none) {party : Party} {own : Control} {chan : Chan}
    (asleep : final.phase party = .asleep own chan) : blocked final.shared chan own := by
  have coherent : Coherent blocked final := by
    refine System.run_preserves_of_meets (Coherent blocked) ?_ (Coherent.initial shared control)
      meets ran
    intro s label after coherent met stepped
    exact coherent.step (signals s label met) stepped
  exact coherent.blocked_of_asleep unlocked asleep

end

end Xv6.Lib
