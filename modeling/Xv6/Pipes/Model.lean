import Xv6.Lib.Bytes
import Xv6.Lib.Monitor
import Xv6.Lib.Ring

/-!
Contract: a pipe and the processes that share it.

A section of `p->lock` runs from its acquire, or from the end of a `sleep`, to the next
`sleep` or to the release. `Pipes.program` says what each section does. A process that
is killed finds its flag set when its section reads it; the flag is set by a step of its
own here. `accepted` lists the bytes stored with the call that stored them, `returns`
what the calls returned, both oldest first; no code reads them.

Owns: `pipewrite`, `piperead` and `pipeclose`.

Does not own: `pipealloc`, whose pipe the processes start with. `fileclose` calls
`pipeclose` for an end that nobody has open any more, so no call follows the one that
frees the pipe.
-/

namespace Xv6.Pipes

open Xv6.Lib

def PIPESIZE : Nat := 512

instance : NeZero PIPESIZE := ⟨by decide⟩

def UINT : Nat := 2 ^ 32

structure Pipe extends Ring UInt8 PIPESIZE where
  readopen : Bool
  writeopen : Bool

namespace Pipe

def Full (p : Pipe) : Prop := p.nwrite = addWord p.nread PIPESIZE

instance (p : Pipe) : Decidable p.Full := inferInstanceAs (Decidable (_ = _))

def put (p : Pipe) (c : UInt8) : Pipe := { p with toRing := p.toRing.push UINT c }

/-- The pipe after `p->data[p->nread++ % PIPESIZE]`. -/
def take (p : Pipe) : Pipe := { p with toRing := p.toRing.pop UINT }

end Pipe

/-- The loop of `pipewrite` until it ends or finds the pipe full, and the bytes left. -/
def pipewriteLoop : Pipe → List UInt8 → Pipe × List UInt8
  | p, [] => (p, [])
  | p, c :: rest => if p.Full then (p, c :: rest) else pipewriteLoop (p.put c) rest

/-- The loop of `piperead` that copies at most `n` bytes. -/
def pipereadLoop : Pipe → (n : Nat) → Pipe × List UInt8
  | p, 0 => (p, [])
  | p, n + 1 =>
    if p.nread = p.nwrite then (p, [])
    else ((pipereadLoop p.take n).1, p.front :: (pipereadLoop p.take n).2)

/-- What a process may sleep on: the addresses of the two counters. -/
inductive Channel where
  | nread
  | nwrite
deriving DecidableEq

/-- How a call returned: `pipewrite` with `n`, the length of `bytes`, or with -1;
`piperead` for `n` bytes with those it got, leaving the pipe as `pipe`, or with -1. -/
inductive Return where
  | wrote (id : Nat) (bytes : List UInt8)
  | writeFailed (id : Nat)
  | read (n : Nat) (bytes : List UInt8) (pipe : Pipe)
  | readFailed

def Return.bytes : Return → List UInt8
  | .read _ bytes _ => bytes
  | _ => []

structure Shared where
  pipe : Pipe
  freed : Bool
  accepted : List (Nat × UInt8)
  returns : List Return
  calls : Nat

/-- The bytes that all calls of `piperead` have handed out. -/
def Shared.delivered (s : Shared) : List UInt8 := s.returns.flatMap Return.bytes

/-- The call a process is in: `pipewrite` of `bytes`, of which `todo` are left;
`piperead` of `n` bytes; or `pipeclose`. -/
inductive Call where
  | idle
  | writing (id : Nat) (bytes todo : List UInt8)
  | reading (n : Nat)
  | closing (writable : Bool)

structure Control where
  call : Call
  killed : Bool

/-- The process goes on to another call, or to another point of its call. -/
def Control.to (c : Control) (call : Call) : Control := { c with call }

/-- Calls start, and a process is killed. -/
inductive Move where
  | write (bytes : List UInt8)
  | read (n : Nat)
  | close (writable : Bool)
  | kill

/-- The shared state after the loop of `pipewrite` has run for the call `id`. -/
def Shared.stored (s : Shared) (id : Nat) (todo : List UInt8) : Shared :=
  let ran := pipewriteLoop s.pipe todo
  { s with
    pipe := ran.1
    accepted := s.accepted ++ (todo.take (todo.length - ran.2.length)).map fun c => (id, c) }

def Shared.setPipe (s : Shared) (pipe : Pipe) : Shared := { s with pipe }

def Shared.returned (s : Shared) (result : Return) : Shared :=
  { s with returns := s.returns ++ [result] }

/-- A section of `pipewrite`. -/
def pipewrite (s : Shared) (c : Control) (id : Nat) (bytes todo : List UInt8) :
    Stretch Shared Control Channel :=
  if (pipewriteLoop s.pipe todo).2 = [] then
    ⟨(s.stored id todo).returned (.wrote id bytes), c.to .idle, [.nread], .leave⟩
  else if (s.stored id todo).pipe.readopen = false ∨ c.killed then
    ⟨(s.stored id todo).returned (.writeFailed id), c.to .idle, [], .leave⟩
  else
    ⟨s.stored id todo, c.to (.writing id bytes (pipewriteLoop s.pipe todo).2), [.nread],
      .sleep .nwrite⟩

/-- A section of `piperead`. -/
def piperead (s : Shared) (c : Control) (n : Nat) : Stretch Shared Control Channel :=
  if s.pipe.nread = s.pipe.nwrite ∧ s.pipe.writeopen then
    if c.killed then ⟨s.returned .readFailed, c.to .idle, [], .leave⟩
    else ⟨s, c, [], .sleep .nread⟩
  else
    ⟨(s.setPipe (pipereadLoop s.pipe n).1).returned
        (.read n (pipereadLoop s.pipe n).2 (pipereadLoop s.pipe n).1),
      c.to .idle, [.nwrite], .leave⟩

def Pipe.close (p : Pipe) (writable : Bool) : Pipe :=
  if writable then { p with writeopen := false } else { p with readopen := false }

def Pipe.unused (p : Pipe) : Bool := !p.readopen && !p.writeopen

def pipeclose (s : Shared) (c : Control) (writable : Bool) : Stretch Shared Control Channel where
  shared := { s with pipe := s.pipe.close writable, freed := (s.pipe.close writable).unused }
  control := c.to .idle
  wakes := [if writable then .nread else .nwrite]
  finish := .leave

def enter (s : Shared) (c : Control) : Option (Stretch Shared Control Channel) :=
  if s.freed then none
  else
    match c.call with
    | .idle => none
    | .writing id bytes todo => some (pipewrite s c id bytes todo)
    | .reading n => some (piperead s c n)
    | .closing writable => some (pipeclose s c writable)

def start (move : Move) (s : Shared) (c : Control) : Option (Shared × Control) :=
  match move, c.call with
  | .write bytes, .idle =>
    some ({ s with calls := s.calls + 1 }, c.to (.writing s.calls bytes bytes))
  | .read n, .idle => some (s, c.to (.reading n))
  | .close writable, .idle => some (s, c.to (.closing writable))
  | .kill, _ => some (s, { c with killed := true })
  | _, _ => none

def program (Process : Type) : Program Process Shared Control Channel Move where
  enter _ s c := enter s c
  free _ move s c := start move s c

/-- A pipe as `pipealloc` leaves it, in a page with any bytes. -/
def opened (data : Fin PIPESIZE → UInt8) : Shared where
  pipe := ⟨⟨data, 0, 0⟩, true, true⟩
  freed := false
  accepted := []
  returns := []
  calls := 0

def awake : Control := ⟨.idle, false⟩

end Xv6.Pipes
