import Xv6.Strings
import Xv6.Lib.System

/-!
Contract: the console's input buffer, `consoleintr` and `consoleread`.

A step handles one character of an interrupt, or runs `consoleread` until it returns
or sleeps. `cons.lock` is held throughout a step. It is also held from one character
of an interrupt to the next, which is not required here; and a reader that sleeps may
run again at any time, not only after `wakeup(&input.r)`. What holds of every run here
holds of those the kernel has.

`getc` returns bytes. Echoing to the screen and `procdump` do not touch the buffer and
are left out.

Owns: the functions, and the system of all processes that read the console.

Does not own: the screen; and what follows a `memmove` that touches memory outside of
`input.buf`.
-/

namespace Xv6.Console

open Function Xv6.Lib

def INPUT_BUF : Nat := 128

def ctrl (x : Char) : UInt8 := UInt8.ofNat (x.toNat - 64)

def LEFT : UInt8 := 228

def RIGHT : UInt8 := 229

def UP : UInt8 := 226

def DOWN : UInt8 := 227

def newline : UInt8 := 10

def carriageReturn : UInt8 := 13

/-- `input`. Its indices are `uint`s. -/
structure Input where
  buf : Bytes INPUT_BUF
  r : Nat
  w : Nat
  e : Nat
  max : Nat

namespace Input

/-- `input.buf[i % INPUT_BUF]`. -/
def byte (input : Input) (i : Nat) : UInt8 := input.buf.get (i % INPUT_BUF)

/-- `input.buf[i % INPUT_BUF] = c`. -/
def store (input : Input) (i : Nat) (c : UInt8) : Input :=
  { input with buf := input.buf.set (i % INPUT_BUF) c }

/-- The buffer with the cursor at `e` and the end of the text at `max`. -/
def place (input : Input) (e max : Nat) : Input := { input with e, max }

/-- `memmove(input.buf + dst, input.buf + src, n)`, unless it touches an index that is
not below `INPUT_BUF`. -/
def move (input : Input) (dst src n : Nat) : Option Input :=
  if n = 0 ∨ dst + n ≤ INPUT_BUF ∧ src + n ≤ INPUT_BUF then
    some { input with buf := fun i => memmove input.buf.get dst src n i.val }
  else none

end Input

/-- The cases of the `switch` of `consoleintr`. -/
inductive Key where
  | procdump
  | killLine
  | backspace
  | up
  | down
  | left
  | right
  | default
deriving DecidableEq

def keyOf (c : UInt8) : Key :=
  if c = ctrl 'P' then .procdump
  else if c = ctrl 'U' then .killLine
  else if c = ctrl 'H' ∨ c = 127 then .backspace
  else if c = UP then .up
  else if c = DOWN then .down
  else if c = LEFT then .left
  else if c = RIGHT then .right
  else .default

/-- The loop of `C('U')`. It ends at the latest when `max` has come down to `w`. -/
def killLine : (rounds : Nat) → Input → Input
  | 0, input => input
  | rounds + 1, input =>
    if input.max ≠ input.w ∧ input.byte (subWord input.max 1) ≠ newline then
      killLine rounds (input.place (subWord input.e 1) (subWord input.max 1))
    else input

def backspace (input : Input) : Option Input :=
  if input.e ≠ input.w then
    let input := input.place (subWord input.e 1) (subWord input.max 1)
    input.move input.e (addWord input.e 1) (subWord input.max input.e)
  else some input

def left (input : Input) : Input :=
  if input.e ≠ input.w then { input with e := subWord input.e 1 } else input

def right (input : Input) : Input :=
  if input.e < input.max then { input with e := addWord input.e 1 } else input

/-- A character goes to the cursor, a newline behind the line. -/
def insert (input : Input) (c : UInt8) : Option Input :=
  if c ≠ newline then
    (input.move (addWord input.e 1) input.e (subWord input.max input.e)).map fun moved =>
      (moved.store input.e c).place (addWord input.e 1) (addWord input.max 1)
  else some ((input.store input.max c).place input.e (addWord input.max 1))

def submit (c : UInt8) (input : Input) : Input :=
  if c = newline ∨ c = ctrl 'D' ∨ input.max = addWord input.r INPUT_BUF then
    { input with w := input.max, e := input.max }
  else input

def crToNl (c : UInt8) : UInt8 := if c = carriageReturn then newline else c

def accepts (input : Input) (c : UInt8) : Prop := c ≠ 0 ∧ input.max < INPUT_BUF

instance (input : Input) (c : UInt8) : Decidable (accepts input c) := instDecidableAnd

def accept (input : Input) (c : UInt8) : Option Input :=
  (insert input (crToNl c)).map (submit (crToNl c))

def consoleintr (input : Input) (c : UInt8) : Option Input :=
  match keyOf c with
  | .procdump | .up | .down => some input
  | .killLine => some (killLine (subWord input.max input.w) input)
  | .backspace => backspace input
  | .left => some (left input)
  | .right => some (right input)
  | .default => if accepts input c then accept input c else some input

/-- Where `consoleread` has got to when it gives up `cons.lock`: it returns these
bytes, returns -1, or sleeps with `n` bytes to go. -/
inductive Outcome where
  | returned (bytes : List UInt8)
  | failed
  | asleep (n : Nat) (dst : List UInt8)
deriving DecidableEq

/-- The loop of `consoleread`, with the bytes `dst` read and `n` to go. -/
def consolereadLoop (killed : Bool) (target : Nat) :
    (n : Nat) → (dst : List UInt8) → Input → Input × Outcome
  | 0, dst, input => (input, .returned dst)
  | n + 1, dst, input =>
    if input.r = input.w then (input, if killed then .failed else .asleep (n + 1) dst)
    else
      let c := input.byte input.r
      let taken := { input with r := addWord input.r 1 }
      if c = ctrl 'D' then
        (if n + 1 < target then { taken with r := subWord taken.r 1 } else taken, .returned dst)
      else if c = newline then (taken, .returned (dst ++ [c]))
      else consolereadLoop killed target n (dst ++ [c]) taken

structure Sleeper where
  target : Nat
  n : Nat
  dst : List UInt8

/-- The console and its readers. `accepted` counts the characters stored, `returned` lists
what the calls returned, oldest first; `wild` says that a `memmove` has left the
buffer. -/
structure ConsoleState (Proc : Type) where
  input : Input
  sleeper : Proc → Option Sleeper
  accepted : Nat
  returned : List (List UInt8)
  wild : Bool

/-- A character arrives; a process calls `consoleread` for `n` bytes; a process that
sleeps in it goes on. `killed` is the process's flag at the time. -/
inductive Label (Proc : Type) where
  | key (c : UInt8)
  | read (p : Proc) (n : Nat) (killed : Bool)
  | resume (p : Proc) (killed : Bool)

section

variable {Proc : Type} [DecidableEq Proc]

def keyNext (s : ConsoleState Proc) (c : UInt8) : ConsoleState Proc :=
  match consoleintr s.input c with
  | none => { s with wild := true }
  | some input =>
    { s with
      input := input
      accepted := if keyOf c = .default ∧ accepts s.input c then s.accepted + 1 else s.accepted }

/-- The process `p` gives up `cons.lock` in a call for `target` bytes. -/
def settle (s : ConsoleState Proc) (p : Proc) (target : Nat) (ran : Input × Outcome) : ConsoleState Proc :=
  match ran.2 with
  | .returned bytes =>
    { s with
      input := ran.1
      sleeper := update s.sleeper p none
      returned := s.returned ++ [bytes] }
  | .failed => { s with input := ran.1, sleeper := update s.sleeper p none }
  | .asleep n dst =>
    { s with input := ran.1, sleeper := update s.sleeper p (some ⟨target, n, dst⟩) }

def consoleNext (s : ConsoleState Proc) (label : Label Proc) : Option (ConsoleState Proc) :=
  if s.wild then none
  else
    match label with
    | .key c => some (keyNext s c)
    | .read p n killed =>
      match s.sleeper p with
      | none => some (settle s p n (consolereadLoop killed n n [] s.input))
      | some _ => none
    | .resume p killed =>
      match s.sleeper p with
      | none => none
      | some call =>
        some (settle s p call.target
          (consolereadLoop killed call.target call.n call.dst s.input))

def consoleSystem : System (ConsoleState Proc) (Label Proc) := ⟨consoleNext⟩

def boot : ConsoleState Proc := ⟨⟨Bytes.zero, 0, 0, 0, 0⟩, fun _ => none, 0, [], false⟩

end

end Xv6.Console
