import Xv6.Console.Input
import Xv6.Pipes.Model
import Xv6.Process.Table

/-!
Contract: a process that sleeps in a loop which gives up when the process is killed.

`pipewrite`, `piperead`, `consoleread` and `sys_sleep` read `killed` in a section of the
lock of the data that they wait for, and `sleep` then acquires `ptable.lock`. `kill` needs
`ptable.lock` only. So it can come between the two, and then the process goes to sleep with
`killed` set. `wait` reads `killed` in a section of `ptable.lock`, which it keeps up to the
switch to the scheduler.

A step goes from one acquire or release of a lock up to the next. All but the process is
`other`: it can do anything in a section of a lock that it has, but the state of the process
and `killed` change by `kill` and `wakeup` only.

Owns: the steps of the process in the five loops, and what holds of `killed` while it sleeps.

Does not own: what the loops wait for (`Pipes`, `Console`).
-/

namespace Xv6.Process.LostKill

open Function (update)
open Xv6.Lib

inductive Lk where
  | pipe
  | cons
  | ticks
deriving DecidableEq

/-- The addresses that the process sleeps on, apart from its own in `wait`. -/
inductive Channel where
  | nread
  | nwrite
  | input
  | ticks
deriving DecidableEq

/-- What the three locks protect. -/
structure World where
  pipe : Pipes.Shared
  input : Console.Input
  ticks : UInt32

/-- The call that the process is in, with its variables. `ticks0` is set with `tickslock`
held. -/
inductive Call where
  | pipewrite (id : Nat) (bytes todo : List UInt8)
  | piperead (n : Nat)
  | consoleread (target n : Nat) (dst : List UInt8)
  | sysSleep (n : UInt32) (ticks0 : Option UInt32)
  | wait

/-- What the process did in a section, as a `Stretch`. -/
abbrev Ran := Stretch World Call Channel

def Call.lock : Call → Option Lk
  | .pipewrite _ _ _ | .piperead _ => some .pipe
  | .consoleread _ _ _ => some .cons
  | .sysSleep _ _ => some .ticks
  | .wait => none

def pipeChannel : Pipes.Channel → Channel
  | .nread => .nread
  | .nwrite => .nwrite

def pipeFinish : Finish Pipes.Channel → Finish Channel
  | .leave => .leave
  | .sleep chan => .sleep (pipeChannel chan)

/-- A section of a pipe, in which the process stays in its call. -/
def ofPipe (w : World) (call : Call) (ran : Stretch Pipes.Shared Pipes.Control Pipes.Channel) : Ran where
  shared := { w with pipe := ran.shared }
  control :=
    match ran.control.call with
    | .writing id bytes todo => .pipewrite id bytes todo
    | _ => call
  wakes := ran.wakes.map pipeChannel
  finish := pipeFinish ran.finish

/-- A section of `cons.lock` in `consoleread`. -/
def consolereadSection (w : World) (killed : Bool) (target n : Nat) (dst : List UInt8) : Ran :=
  let ran := Console.consolereadLoop killed target n dst w.input
  match ran.2 with
  | .asleep n dst => ⟨{ w with input := ran.1 }, .consoleread target n dst, [], .sleep .input⟩
  | .returned _ | .failed => ⟨{ w with input := ran.1 }, .consoleread target n dst, [], .leave⟩

/-- A section of `tickslock` in `sys_sleep`. The comparison is one of unsigned numbers. -/
def sysSleepSection (w : World) (killed : Bool) (n : UInt32) (ticks0 : Option UInt32) : Ran :=
  let ticks0 := ticks0.getD w.ticks
  if w.ticks - ticks0 < n then
    if killed then ⟨w, .sysSleep n (some ticks0), [], .leave⟩
    else ⟨w, .sysSleep n (some ticks0), [], .sleep .ticks⟩
  else ⟨w, .sysSleep n (some ticks0), [], .leave⟩

/-- What the process does after it has acquired the lock of its call, up to its next lock
operation. `wait` has no lock of its own. -/
def Call.section_ (call : Call) (w : World) (killed : Bool) : Ran :=
  match call with
  | .pipewrite id bytes todo =>
    ofPipe w call (Pipes.pipewrite w.pipe ⟨.writing id bytes todo, killed⟩ id bytes todo)
  | .piperead n => ofPipe w call (Pipes.piperead w.pipe ⟨.reading n, killed⟩ n)
  | .consoleread target n dst => consolereadSection w killed target n dst
  | .sysSleep n ticks0 => sysSleepSection w killed n ticks0
  | .wait => ⟨w, .wait, [], .leave⟩

inductive Party where
  | process
  | other
deriving DecidableEq

/-- Where the process is. `inside`, `waking` and `handover` have the lock of the call;
`waking`, `handover`, `dropped`, `resumed` and `waits` have `ptable.lock`. -/
inductive Point where
  | user
  | start (call : Call)
  | inside (call : Call) (wakes : List Channel) (finish : Finish Channel)
  | waking (call : Call) (chan : Channel) (wakes : List Channel) (finish : Finish Channel)
  | handover (call : Call) (chan : Channel)
  | dropped (call : Call) (chan : Channel)
  | asleep (call : Call)
  | resumed (call : Call)
  | waits

structure State where
  table : Ptable
  tableLock : Option Party
  lock : Lk → Option Party
  world : World
  point : Point

/-- The system calls, as the process makes them. -/
inductive Request where
  | pipewrite (bytes : List UInt8)
  | piperead (n : Nat)
  | consoleread (n : Nat)
  | sysSleep (n : UInt32)
  | wait

def Request.call (w : World) : Request → Call
  | .pipewrite bytes => .pipewrite w.pipe.calls bytes bytes
  | .piperead n => .piperead n
  | .consoleread n => .consoleread n n []
  | .sysSleep n => .sysSleep n none
  | .wait => .wait

/-- What others do with `ptable.lock`. -/
inductive TableAct where
  | kill (pid : Int)
  | wakeup (chan : Option Chan)
  | others (table : Ptable)

inductive Label where
  | request (request : Request)
  | step
  | acquireTable
  | releaseTable (act : TableAct)
  | acquire (lk : Lk)
  | release (lk : Lk) (world : World)

/-- The part of the data that `lk` protects, from `new`. -/
def World.change (w new : World) : Lk → World
  | .pipe => { w with pipe := new.pipe }
  | .cons => { w with input := new.input }
  | .ticks => { w with ticks := new.ticks }

section

variable (addr : Channel → Nat) (p : ProcId)

/-- Others can change all slots, and the parent of `p`. -/
def TableAct.apply (t : Ptable) : TableAct → Ptable
  | .kill pid => (t.kill pid).1
  | .wakeup chan => t.wakeup1 chan
  | .others table => table.set p { t.proc p with parent := (table.proc p).parent }

/-- An iteration of the loop of `wait`, up to a release or to the switch. -/
def waits (s : State) : State :=
  match s.table.wait p with
  | .found child =>
    { s with
      table := s.table.set child (Ptable.reaped (s.table.proc child))
      tableLock := none
      point := .user }
  | .fails => { s with tableLock := none, point := .user }
  | .sleeps => { s with table := s.table.sleep p (.proc p), tableLock := none, point := .asleep .wait }

/-- The process has come back from `sched` in `sleep`. -/
def resume (s : State) (call : Call) : State :=
  match call.lock with
  | some _ => { s with table := s.table.tidyUp p, tableLock := none, point := .start call }
  | none => { s with table := s.table.tidyUp p, point := .waits }

/-- `acquire(&ptable.lock)` by the process. -/
def State.acquireTable (s : State) (point : Point) : Option State :=
  if s.tableLock = none then some { s with tableLock := some .process, point } else none

def State.unlock (s : State) (call : Call) (point : Point) : State :=
  match call.lock with
  | some lk => { s with lock := update s.lock lk none, point }
  | none => { s with point }

/-- The next lock operation of the process, with the code up to the one after. -/
def step (s : State) : Option State :=
  match s.point with
  | .user => none
  | .start call =>
    match call.lock with
    | none => s.acquireTable .waits
    | some lk =>
      if s.lock lk = none then
        let ran := call.section_ s.world (s.table.proc p).killed
        some { s with
          lock := update s.lock lk (some .process)
          world := ran.shared
          point := .inside ran.control ran.wakes ran.finish }
      else none
  | .inside call (chan :: wakes) finish => s.acquireTable (.waking call chan wakes finish)
  | .inside call [] (.sleep chan) => s.acquireTable (.handover call chan)
  | .inside call [] .leave => some (s.unlock call .user)
  | .waking call chan wakes finish =>
    some { s with
      table := s.table.wakeup1 (some (.other (addr chan)))
      tableLock := none
      point := .inside call wakes finish }
  | .handover call chan => some (s.unlock call (.dropped call chan))
  | .dropped call chan =>
    some { s with
      table := s.table.sleep p (.other (addr chan))
      tableLock := none
      point := .asleep call }
  | .asleep call =>
    -- the scheduler takes `ptable.lock` and switches to the process
    if (s.table.proc p).state = .runnable then
      { s with table := s.table.setState p .running }.acquireTable (.resumed call)
    else none
  | .resumed call => some (resume p s call)
  | .waits => some (waits p s)

def next (s : State) : Label → Option State
  | .request request =>
    match s.point with
    | .user => some { s with point := .start (request.call s.world) }
    | _ => none
  | .step => step addr p s
  | .acquireTable => if s.tableLock = none then some { s with tableLock := some .other } else none
  | .releaseTable act =>
    if s.tableLock = some .other then
      some { s with table := act.apply p s.table, tableLock := none }
    else none
  | .acquire lk =>
    if s.lock lk = none then some { s with lock := update s.lock lk (some .other) }
    else none
  | .release lk world =>
    if s.lock lk = some .other then
      some { s with world := s.world.change world lk, lock := update s.lock lk none }
    else none

def machine : System State Label := ⟨next addr p⟩

/-- A process that runs, outside the loops, while nobody has a lock. -/
def State.initial (table : Ptable) (world : World) : State :=
  ⟨table.setState p .running, none, fun _ => none, world, .user⟩

end

/-- The process has found `killed` clear, and will sleep without reading it again. -/
def Point.Decided : Point → Prop
  | .inside _ _ (.sleep _) | .waking _ _ _ (.sleep _) | .handover _ _ | .dropped _ _ => True
  | _ => False

instance : DecidablePred Point.Decided := fun point => by
  unfold Point.Decided
  split <;> infer_instance

def Point.holdsTable : Point → Bool
  | .waking _ _ _ _ | .handover _ _ | .dropped _ _ | .resumed _ | .waits => true
  | _ => false

/-- What the slot of the process is like. -/
def Point.Fits (point : Point) (proc : Proc) : Prop :=
  match point with
  | .asleep _ => proc.state = .sleeping ∧ proc.killed = false ∨ proc.state = .runnable
  | _ => proc.state = .running ∧ (point.Decided → proc.killed = false)

structure Inv (p : ProcId) (s : State) : Prop where
  fits : s.point.Fits (s.table.proc p)
  table : s.point.holdsTable = true → s.tableLock = some .process

variable {point : Point}

theorem fits_running {proc : Proc} (running : proc.state = .running)
    (awake : ∀ call, point ≠ .asleep call) (decided : point.Decided → proc.killed = false) :
    point.Fits proc := by
  cases point with
  | asleep call => exact absurd rfl (awake call)
  | _ => exact ⟨running, decided⟩

/-- What the slot is like depends on the state of the process and on `killed`. -/
theorem Point.Fits.congr {old new : Proc} (fits : point.Fits old) (state : new.state = old.state)
    (killed : new.killed = old.killed) : point.Fits new := by
  unfold Point.Fits
  rw [state, killed]
  exact fits

variable {killed : Bool}

theorem consolereadLoop_asleep {target n left : Nat} {dst got : List UInt8} {input : Console.Input}
    (sleeps : (Console.consolereadLoop killed target n dst input).2 = .asleep left got) :
    killed = false := by
  induction n generalizing dst input with
  | zero => cases sleeps
  | succ n ih =>
    unfold Console.consolereadLoop at sleeps
    split at sleeps
    · cases killed with
      | false => rfl
      | true => cases sleeps
    · simp only at sleeps
      split at sleeps
      · cases sleeps
      · split at sleeps
        · cases sleeps
        · exact ih sleeps

theorem consoleread_sleeps {w : World} {target n : Nat} {dst : List UInt8} {chan : Channel}
    (sleeps : (consolereadSection w killed target n dst).finish = .sleep chan) :
    killed = false := by
  unfold consolereadSection at sleeps
  simp only at sleeps
  split at sleeps
  · rename_i isAsleep
    exact consolereadLoop_asleep isAsleep
  · cases sleeps
  · cases sleeps

theorem sysSleep_sleeps {w : World} {n : UInt32} {ticks0 : Option UInt32} {chan : Channel}
    (sleeps : (sysSleepSection w killed n ticks0).finish = .sleep chan) : killed = false := by
  unfold sysSleepSection at sleeps
  simp only at sleeps
  split at sleeps
  · split at sleeps
    · cases sleeps
    · rename_i notKilled
      exact eq_false_of_ne_true notKilled
  · cases sleeps

/-- A section that ends in `sleep` has found `killed` clear. -/
theorem section_sleeps {call : Call} {w : World} {chan : Channel}
    (sleeps : (call.section_ w killed).finish = .sleep chan) : killed = false := by
  cases call with
  | pipewrite id bytes todo =>
    simp only [Call.section_, ofPipe, Pipes.pipewrite] at sleeps
    split at sleeps
    · cases sleeps
    · split at sleeps
      · cases sleeps
      · rename_i goesOn
        exact eq_false_of_ne_true fun isKilled => goesOn (Or.inr isKilled)
  | piperead n =>
    simp only [Call.section_, ofPipe, Pipes.piperead] at sleeps
    split at sleeps
    · split at sleeps
      · cases sleeps
      · rename_i notKilled
        exact eq_false_of_ne_true notKilled
    · cases sleeps
  | consoleread target n dst => exact consoleread_sleeps sleeps
  | sysSleep n ticks0 => exact sysSleep_sleeps sleeps
  | wait => cases sleeps

variable {addr : Channel → Nat} {p : ProcId} {s s' : State}

theorem inv_acquireTable {table : Ptable} (fits : point.Fits (table.proc p))
    (took : { s with table := table }.acquireTable point = some s') : Inv p s' := by
  obtain ⟨-, rfl⟩ := of_guard took
  exact ⟨fits, fun _ => rfl⟩

theorem inv_unlock {call : Call} (fits : point.Fits (s.table.proc p))
    (holds : point.holdsTable = true → s.tableLock = some .process) :
    Inv p (s.unlock call point) := by
  unfold State.unlock
  split
  · exact ⟨fits, holds⟩
  · exact ⟨fits, holds⟩

theorem Point.Fits.wakeup1 {t : Ptable} (fits : point.Fits (t.proc p)) (chan : Option Chan) :
    point.Fits ((t.wakeup1 chan).proc p) := by
  rcases Ptable.wakes_wakeup1 (t := t) chan p with same | ⟨sleeps, woken⟩
  · rw [same]
    exact fits
  · rw [woken]
    cases point with
    | asleep call => exact Or.inr rfl
    | _ =>
      have running := fits.1
      rw [sleeps] at running
      cases running

theorem Inv.waits (inv : Inv p s) (isPoint : s.point = .waits) : Inv p (waits p s) := by
  have fits := inv.fits
  rw [isPoint] at fits
  obtain ⟨running, -⟩ := fits
  unfold LostKill.waits
  split
  · rename_i child found
    obtain ⟨-, isZombie⟩ := Ptable.wait_found found
    have other : p ≠ child := by
      rintro rfl
      rw [running] at isZombie
      cases isZombie
    refine ⟨fits_running ?_ (by simp) (by simp [Point.Decided]), by simp [Point.holdsTable]⟩
    rw [Ptable.set_of_ne _ other]
    exact running
  · exact ⟨fits_running running (by simp) (by simp [Point.Decided]), by simp [Point.holdsTable]⟩
  · rename_i sleeps
    refine ⟨Or.inl ?_, by simp [Point.holdsTable]⟩
    rw [Ptable.sleep, Ptable.set_self]
    exact ⟨rfl, (Ptable.wait_sleeps sleeps).1⟩

theorem Inv.resume (inv : Inv p s) {call : Call} (isPoint : s.point = .resumed call) :
    Inv p (resume p s call) := by
  have fits := inv.fits
  rw [isPoint] at fits
  have running : ((s.table.tidyUp p).proc p).state = .running := by
    rw [Ptable.tidyUp, Ptable.set_self]
    exact fits.1
  unfold LostKill.resume
  split
  · exact ⟨fits_running running (by simp) (by simp [Point.Decided]), by simp [Point.holdsTable]⟩
  · refine ⟨fits_running running (by simp) (by simp [Point.Decided]), fun _ => inv.table ?_⟩
    rw [isPoint]
    rfl

theorem Inv.step (inv : Inv p s) (stepped : step addr p s = some s') : Inv p s' := by
  have fits := inv.fits
  have holds := inv.table
  unfold LostKill.step at stepped
  split at stepped
  case h_1 => cases stepped
  case h_2 call isPoint =>
    rw [isPoint] at fits
    split at stepped
    · refine inv_acquireTable (fits_running fits.1 (by simp) ?_) stepped
      exact False.elim
    · obtain ⟨-, rfl⟩ := of_guard stepped
      refine ⟨fits_running fits.1 (by simp) fun decided => ?_, by simp [Point.holdsTable]⟩
      simp only [Point.Decided] at decided
      split at decided
      case h_1 isInside =>
        simp only [Point.inside.injEq] at isInside
        exact section_sleeps isInside.2.2
      all_goals simp_all
  case h_3 call chan wakes finish isPoint =>
    rw [isPoint] at fits
    refine inv_acquireTable (fits_running fits.1 (by simp) fun decided => fits.2 ?_) stepped
    cases finish with
    | leave => exact decided.elim
    | sleep chan => trivial
  case h_4 call chan isPoint =>
    rw [isPoint] at fits
    exact inv_acquireTable (fits_running fits.1 (by simp) fun _ => fits.2 trivial) stepped
  case h_5 call isPoint =>
    cases stepped
    rw [isPoint] at fits
    exact inv_unlock (fits_running fits.1 (by simp) False.elim) (by simp [Point.holdsTable])
  case h_6 call chan wakes finish isPoint =>
    cases stepped
    have woken := fits.wakeup1 (some (.other (addr chan)))
    rw [isPoint] at woken
    refine ⟨fits_running woken.1 (by simp) fun decided => woken.2 ?_, by simp [Point.holdsTable]⟩
    cases finish with
    | leave => exact decided.elim
    | sleep chan => trivial
  case h_7 call chan isPoint =>
    cases stepped
    rw [isPoint] at fits
    refine inv_unlock (fits_running fits.1 (by simp) fun _ => fits.2 trivial) fun _ => holds ?_
    rw [isPoint]
    rfl
  case h_8 call chan isPoint =>
    cases stepped
    rw [isPoint] at fits
    refine ⟨Or.inl ?_, by simp [Point.holdsTable]⟩
    rw [Ptable.sleep, Ptable.set_self]
    exact ⟨rfl, fits.2 trivial⟩
  case h_9 call isPoint =>
    split at stepped
    · refine inv_acquireTable (fits_running ?_ (by simp) False.elim) stepped
      rw [Ptable.setState, Ptable.set_self]
    · cases stepped
  case h_10 call isPoint =>
    cases stepped
    exact inv.resume isPoint
  case h_11 isPoint =>
    cases stepped
    exact inv.waits isPoint

/-- The step does not kill the process between its reading of `killed` and its sleep. -/
def Timely (p : ProcId) (s : State) : Label → Prop
  | .releaseTable (.kill pid) => s.point.Decided → (s.table.proc p).pid ≠ pid
  | _ => True

instance (p : ProcId) (s : State) (label : Label) : Decidable (Timely p s label) := by
  unfold Timely
  split <;> infer_instance

/-- A `kill` at any other time leaves a process that sleeps runnable. -/
theorem Point.Fits.kill {t : Ptable} {pid : Int} (fits : point.Fits (t.proc p))
    (timely : point.Decided → (t.proc p).pid ≠ pid) : point.Fits ((t.kill pid).1.proc p) := by
  rcases Ptable.kill_cases (t := t) pid with ⟨-, same⟩ | ⟨q, isPid, -, isTable⟩
  · rw [same]
    exact fits
  · rw [isTable]
    by_cases isQ : p = q
    · subst isQ
      rw [Ptable.set_self]
      cases point with
      | asleep call =>
        rcases fits with ⟨sleeps, -⟩ | runnable
        · exact Or.inr (if_pos sleeps)
        · refine Or.inr ?_
          simp only
          rw [if_neg (by simp [runnable]), runnable]
      | _ =>
        refine fits_running ?_ (by simp) fun decided => absurd isPid (timely decided)
        simp only
        rw [if_neg (by simp [fits.1]), fits.1]
    · rw [Ptable.set_of_ne _ isQ]
      exact fits

theorem Inv.apply (inv : Inv p s) {act : TableAct} (timely : Timely p s (.releaseTable act)) :
    s.point.Fits ((act.apply p s.table).proc p) := by
  cases act with
  | kill pid => exact inv.fits.kill timely
  | wakeup chan => exact inv.fits.wakeup1 chan
  | others table =>
    rw [TableAct.apply, Ptable.set_self]
    exact inv.fits.congr rfl rfl

theorem Inv.next (inv : Inv p s) {label : Label} (timely : Timely p s label)
    (stepped : next addr p s label = some s') : Inv p s' := by
  cases label with
  | request request =>
    unfold LostKill.next at stepped
    simp only at stepped
    split at stepped
    · rename_i isPoint
      cases stepped
      have fits := inv.fits
      rw [isPoint] at fits
      exact ⟨fits_running fits.1 (by simp) False.elim, by simp [Point.holdsTable]⟩
    · cases stepped
  | step => exact inv.step stepped
  | acquireTable =>
    obtain ⟨free, rfl⟩ := of_guard stepped
    refine ⟨inv.fits, fun holds => ?_⟩
    have mine := inv.table holds
    rw [free] at mine
    cases mine
  | releaseTable act =>
    obtain ⟨isOther, rfl⟩ := of_guard stepped
    refine ⟨inv.apply timely, fun holds => ?_⟩
    have mine := inv.table holds
    rw [isOther] at mine
    cases mine
  | acquire lk =>
    obtain ⟨-, rfl⟩ := of_guard stepped
    exact ⟨inv.fits, inv.table⟩
  | release lk world =>
    obtain ⟨-, rfl⟩ := of_guard stepped
    exact ⟨inv.fits, inv.table⟩

theorem initial_inv (table : Ptable) (world : World) : Inv p (State.initial p table world) := by
  refine ⟨fits_running ?_ (by simp [State.initial]) False.elim, by simp [State.initial, Point.holdsTable]⟩
  change ((table.setState p .running).proc p).state = _
  rw [Ptable.setState, Ptable.set_self]

/-- Whatever others do, and whichever of the five calls the process makes: if no `kill` of
it falls between its reading of `killed` and its sleep, it never sleeps with `killed` set.
In `wait` there is no such time. -/
theorem killed_never_asleep (addr : Channel → Nat) (p : ProcId) (table : Ptable) (world : World)
    (labels : List Label) (s : State)
    (ran : (machine addr p).run (State.initial p table world) labels = some s)
    (timely : (machine addr p).Meets (Timely p) (State.initial p table world) labels) (call : Call)
    (inLoop : s.point = .asleep call) (sleeps : (s.table.proc p).state = .sleeping) :
    (s.table.proc p).killed = false := by
  have inv : Inv p s :=
    System.run_preserves_of_meets (Inv p) (fun _ _ _ inv timely stepped => inv.next timely stepped)
      (initial_inv table world) timely ran
  have fits := inv.fits
  rw [inLoop] at fits
  rcases fits with ⟨-, notKilled⟩ | runnable
  · exact notKilled
  · rw [sleeps] at runnable
    cases runnable

/-- Processes 1 and 2, the second a child of the first, in the first two slots. -/
def twoProcesses : Ptable where
  proc q :=
    if q = 0 then ⟨.running, 1, none, none, false, true, true⟩
    else if q = 1 then ⟨.running, 2, some 0, none, false, true, true⟩
    else ⟨.unused, 0, none, none, false, false, false⟩
  nextpid := 3
  initproc := 0

/-- A pipe that is empty or full, no input and no ticks. -/
def quiet (full : Bool) : World where
  pipe := ⟨⟨⟨fun _ => 0, 0, if full then Pipes.PIPESIZE else 0⟩, true, true⟩, false, [], [], 0⟩
  input := ⟨Bytes.zero, 0, 0, 0, 0⟩
  ticks := 0

def killing (pid : Int) : List Label := [.acquireTable, .releaseTable (.kill pid)]

def machine0 : System State Label := machine (fun _ => 0) 0

/-- Process 1 waits, and its child is killed. -/
def childKilledInWait : List Label :=
  [.request .wait, .step, .step] ++ killing 2

theorem childKilledInWait_timely :
    ∃ s, machine0.run (State.initial 0 twoProcesses (quiet false)) childKilledInWait = some s ∧
      (s.table.proc 0).state = .sleeping ∧ (s.table.proc 1).killed = true ∧
      (s.table.proc 0).killed = false := by
  have outcome : (machine0.run (State.initial 0 twoProcesses (quiet false)) childKilledInWait).map
      (fun s : State => ((s.table.proc 0).state, (s.table.proc 1).killed,
        match s.point with | .asleep .wait => true | _ => false)) =
      some (.sleeping, true, true) := by
    decide +kernel
  obtain ⟨s, ran, isOutcome⟩ := Option.map_eq_some_iff.mp outcome
  simp only [Prod.mk.injEq] at isOutcome
  obtain ⟨sleeps, childKilled, isPoint⟩ := isOutcome
  have inLoop : s.point = .asleep .wait := by
    split at isPoint
    · assumption
    · cases isPoint
  exact ⟨s, ran, sleeps, childKilled, killed_never_asleep (fun _ => 0) 0 twoProcesses (quiet false)
    childKilledInWait s ran (by decide +kernel) .wait inLoop sleeps⟩

/-- Process 1 makes the request, and is killed when it has read `killed` and will sleep. -/
def killedInBetween (request : Request) (steps : Nat) : List Label :=
  [.request request, .step] ++ killing 1 ++ List.replicate steps .step

/-- Whether the process sleeps with `killed` set, while `ptable.lock` is free. -/
def State.lost (s : State) : Bool :=
  match s.tableLock, s.point with
  | none, .asleep _ => (s.table.proc 0).state = .sleeping && (s.table.proc 0).killed
  | _, _ => false

theorem State.lost_iff : s.lost = true ↔ s.tableLock = none ∧
    (∃ call, s.point = .asleep call) ∧ (s.table.proc 0).state = .sleeping ∧
      (s.table.proc 0).killed = true := by
  unfold State.lost
  split
  · rename_i free inLoop
    simp [free, inLoop]
  · rename_i other
    constructor
    · intro lost
      cases lost
    · rintro ⟨free, ⟨call, inLoop⟩, -⟩
      exact absurd inLoop (other call free)

/-- The request ends asleep with `killed` set, while nobody has `ptable.lock`. -/
def LosesKill (request : Request) (full : Bool) (steps : Nat) : Prop :=
  ∃ s call, machine0.run (State.initial 0 twoProcesses (quiet full)) (killedInBetween request steps) =
      some s ∧
    s.tableLock = none ∧ s.point = .asleep call ∧ (s.table.proc 0).state = .sleeping ∧
      (s.table.proc 0).killed = true

theorem losesKill_of_lost {request : Request} {full : Bool} {steps : Nat}
    (outcome : (machine0.run (State.initial 0 twoProcesses (quiet full))
      (killedInBetween request steps)).map State.lost = some true) : LosesKill request full steps := by
  obtain ⟨s, ran, isLost⟩ := Option.map_eq_some_iff.mp outcome
  obtain ⟨free, ⟨call, inLoop⟩, sleeps, killed⟩ := State.lost_iff.mp isLost
  exact ⟨s, call, ran, free, inLoop, sleeps, killed⟩

/-- The kill is lost in four of the loops. `pipewrite` finds the pipe full, and wakes readers
before it sleeps. -/
theorem kill_lost :
    LosesKill (.pipewrite [0]) true 5 ∧ LosesKill (.piperead 1) false 3 ∧
      LosesKill (.consoleread 1) false 3 ∧ LosesKill (.sysSleep 1) false 3 := by
  refine ⟨losesKill_of_lost ?_, losesKill_of_lost ?_, losesKill_of_lost ?_, losesKill_of_lost ?_⟩
  all_goals decide +kernel

end Xv6.Process.LostKill
