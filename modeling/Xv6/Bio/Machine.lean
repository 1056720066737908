import Xv6.Bio.Cache
import Xv6.RedoLog.Reservation

/-!
Contract: processes that read, change, log and release blocks through the buffer cache,
and the commit that copies logged blocks to the log and then to their homes.

Each call of `bread`, `bwrite`, `log_write` and `brelse` is one step, and so is each
iteration of the loops of `commit`. A `bread` that has to wait for a buffer is not taken
yet. The disk driver does what is asked before it returns.

Owns: the machine and its steps, and the logical disk: what processes have stored with
`log_write` or `bwrite`.
-/

namespace Xv6.Bio

open Function Xv6.Lib Xv6.RedoLog

/-- How far `commit` is. `writing` and `installing` count the iterations of the two copy
loops, and `finishing` is before the last section of `end_op`. -/
inductive Commit where
  | idle
  | writing (tail : Nat)
  | heading
  | installing (tail : Nat)
  | erasing
  | finishing
deriving DecidableEq

inductive Panic where
  | bget (halt : Halt)
  | nothingToDo
  | log (panic : LogPanic)
deriving DecidableEq

inductive Stop where
  | waits
  | panics (panic : Panic)
deriving DecidableEq

/-- `holder` is who has the sleep lock of a buffer. `logical` is the logical disk, and
`pending` marks the buffers that their holder has changed and not stored since. -/
structure Machine (P : Type) where
  cache : Bcache
  holder : BufId → Option P
  disk : Nat → Block
  log : Log
  commit : Commit
  panicked : Option Panic
  logical : Nat → Block
  pending : BufId → Bool

namespace Machine

variable {P : Type}

def buf (m : Machine P) (b : BufId) : Buf := m.cache.buf b

def setBuf (m : Machine P) (b : BufId) (new : Buf) : Machine P := { m with cache := m.cache.set b new }

/-- `iderw`: a dirty buffer is written, one that is not valid is read. -/
def iderw (m : Machine P) (b : BufId) : Except Stop (Machine P) :=
  if (m.buf b).valid && !(m.buf b).dirty then .error (.panics .nothingToDo)
  else if (m.buf b).dirty then
    .ok { m.setBuf b { m.buf b with valid := true, dirty := false } with
      disk := update m.disk (m.buf b).blockno (m.buf b).data }
  else .ok (m.setBuf b { m.buf b with valid := true, data := m.disk (m.buf b).blockno })

def bread (m : Machine P) (p : P) (blockno : Nat) : Except Stop (Machine P × BufId) :=
  match m.cache.bget ROOTDEV blockno with
  | .error halt => .error (.panics (.bget halt))
  | .ok (cache, b) =>
    if (m.holder b).isSome then .error .waits
    else
      let m := { m with cache, holder := update m.holder b (some p) }
      if (m.buf b).valid then .ok (m, b)
      else do
        let m ← m.iderw b
        pure (m, b)

def bwrite (m : Machine P) (b : BufId) : Except Stop (Machine P) :=
  (m.setBuf b { m.buf b with dirty := true }).iderw b

def brelse (m : Machine P) (b : BufId) : Machine P :=
  { m with cache := m.cache.brelse b, holder := update m.holder b none }

def setData (m : Machine P) (b : BufId) (data : Block) : Machine P :=
  m.setBuf b { m.buf b with data }

def logWrite (m : Machine P) (b : BufId) : Except Stop (Machine P) :=
  match RedoLog.logWrite m.log (m.buf b).blockno with
  | .error panic => .error (.panics (.log panic))
  | .ok log => .ok { m.setBuf b { m.buf b with dirty := true } with log }

/-- An iteration of the loop of `write_log`. -/
def writeLogStep (m : Machine P) (p : P) (tail : Nat) : Except Stop (Machine P) := do
  let (m, target) ← m.bread p (m.log.start + tail + 1)
  let (m, source) ← m.bread p (m.log.lh.block tail)
  let m ← (m.setData target (m.buf source).data).bwrite target
  pure ((m.brelse source).brelse target)

def writeHead (m : Machine P) (p : P) : Except Stop (Machine P) := do
  let (m, buf) ← m.bread p m.log.start
  let m ← (m.setData buf (encodeHeader (m.buf buf).data m.log.lh)).bwrite buf
  pure (m.brelse buf)

/-- An iteration of the loop of `install_trans`. -/
def installStep (m : Machine P) (p : P) (tail : Nat) : Except Stop (Machine P) := do
  let (m, lbuf) ← m.bread p (m.log.start + tail + 1)
  let (m, dbuf) ← m.bread p (m.log.lh.block tail)
  let m ← (m.setData dbuf (m.buf lbuf).data).bwrite dbuf
  pure ((m.brelse lbuf).brelse dbuf)

def at_ (m : Machine P) (commit : Commit) : Machine P := { m with commit }

def commitStep (m : Machine P) (p : P) : Except Stop (Machine P) :=
  match m.commit with
  | .idle => .error .waits
  | .writing tail =>
    if (tail : Int) < m.log.lh.n then do
      let m ← m.writeLogStep p tail
      pure (m.at_ (.writing (tail + 1)))
    else pure (m.at_ .heading)
  | .heading => do
    let m ← m.writeHead p
    pure (m.at_ (.installing 0))
  | .installing tail =>
    if (tail : Int) < m.log.lh.n then do
      let m ← m.installStep p tail
      pure (m.at_ (.installing (tail + 1)))
    else pure { m.at_ .erasing with log := { m.log with lh := { m.log.lh with n := 0 } } }
  | .erasing => do
    let m ← m.writeHead p
    pure (m.at_ .finishing)
  | .finishing => pure { m.at_ .idle with log := endOpFinish m.log }

inductive Step (P : Type) where
  | beginOp
  | endOp
  | bread (p : P) (blockno : Nat)
  | modify (p : P) (b : BufId) (data : Block)
  | logWrite (p : P) (b : BufId)
  | bwrite (p : P) (b : BufId)
  | brelse (p : P) (b : BufId)
  | commit (p : P)

/-- The buffer has been stored: its contents are the logical ones now. -/
def stored (m : Machine P) (b : BufId) : Machine P :=
  { m with
    logical := update m.logical (m.buf b).blockno (m.buf b).data
    pending := update m.pending b false }

/-- A call that waits is not taken, and a panic stops the machine. -/
def take (m : Machine P) : Except Stop (Machine P) → Option (Machine P)
  | .ok after => some after
  | .error .waits => none
  | .error (.panics panic) => some { m with panicked := some panic }

variable [DecidableEq P]

/-- One step. Buffers are changed, stored and released by who holds them, and operations
are ended that have begun. -/
def next (m : Machine P) (step : Step P) : Option (Machine P) :=
  if m.panicked ≠ none then none
  else
    match step with
    | .beginOp => (beginOpSection m.log).map fun log => { m with log }
    | .endOp =>
      if 1 ≤ m.log.outstanding then
        match endOpSection m.log with
        | .error panic => some { m with panicked := some (.log panic) }
        | .ok (log, doCommit) =>
          let commit := if doCommit then
            if 0 < log.lh.n then .writing 0 else .finishing
          else m.commit
          some { m with log, commit }
      else none
    | .bread p blockno => m.take ((m.bread p blockno).map Prod.fst)
    | .modify p b data =>
      if m.holder b = some p then
        some { m.setData b data with pending := update m.pending b true }
      else none
    | .logWrite p b => if m.holder b = some p then m.take ((m.logWrite b).map (stored · b)) else none
    | .bwrite p b => if m.holder b = some p then m.take ((m.bwrite b).map (stored · b)) else none
    | .brelse p b => if m.holder b = some p then some (m.brelse b) else none
    | .commit p => m.take (m.commitStep p)

def booted (disk : Nat → Block) (start : Nat) (size : Int) : Machine P where
  cache := Bcache.zero.binit
  holder := fun _ => none
  disk := disk
  log := ⟨start, size, 0, false, ⟨0, fun _ => 0⟩⟩
  commit := .idle
  panicked := none
  logical := disk
  pending := fun _ => false

end Machine

def machine (P : Type) [DecidableEq P] : System (Machine P) (Machine.Step P) := ⟨Machine.next⟩

end Xv6.Bio
