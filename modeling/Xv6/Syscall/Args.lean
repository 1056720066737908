import Xv6.Lib.Bytes

/-!
Contract: fetching system call arguments from the user stack, and the argument
record `fill_arglist` makes of them.

Pointers are addresses; a fetch returns `none` where the source returns -1.
-/

namespace Xv6.Syscall

open Function Xv6.Lib

/-- What argument fetching sees of the current process: its size, its saved
stack pointer and its memory. -/
structure UserImage where
  sz : Nat
  esp : Nat
  mem : Nat → UInt8

def UserImage.word (image : UserImage) (addr : Nat) : Nat :=
  (image.mem addr).toNat + 256 * (image.mem (addr + 1)).toNat +
    256 ^ 2 * (image.mem (addr + 2)).toNat + 256 ^ 3 * (image.mem (addr + 3)).toNat

def fetchint (image : UserImage) (addr : Nat) : Option Int :=
  if addr ≥ image.sz ∨ (addr + 4) % 2 ^ 32 > image.sz then none
  else some (toInt32 (image.word addr))

/-- The loop of `fetchstr`: the distance to the first NUL among the next bytes. -/
def scanNul (mem : Nat → UInt8) (addr : Nat) : Nat → Option Nat
  | 0 => none
  | left + 1 => if mem addr = 0 then some 0 else (scanNul mem (addr + 1) left).map (· + 1)

/-- The length of the string at `addr`. -/
def fetchstr (image : UserImage) (addr : Nat) : Option Nat :=
  if addr ≥ image.sz then none else scanNul image.mem addr (image.sz - addr)

def argint (image : UserImage) (n : Nat) : Option Int :=
  fetchint image ((image.esp + 4 + 4 * n) % 2 ^ 32)

def argptr (image : UserImage) (n : Nat) (size : Int) : Option Nat := do
  let i ← argint image n
  if size < 0 ∨ ofInt32 i ≥ image.sz ∨ (ofInt32 i + size.toNat) % 2 ^ 32 > image.sz then none
  else some (ofInt32 i)

/-- The address and the length of the string argument. -/
def argstr (image : UserImage) (n : Nat) : Option (Nat × Nat) := do
  let addr ← argint image n
  let length ← fetchstr image (ofInt32 addr)
  some (ofInt32 addr, length)

/-- The word that `kfree` leaves everywhere in a page. -/
def junkWord : Nat := 0x01010101

/-- `struct syscallarg`. A `type` that was never written is `none`. -/
structure SyscallArg where
  type : Nat → Option String
  intArgv : Nat → Int
  intptrArgv : Nat
  strArgv : Nat → Nat
  ptrArgv : Nat → Nat
  st : Nat
  next : Nat

def junkArg : SyscallArg where
  type := fun _ => none
  intArgv := fun _ => junkWord
  intptrArgv := junkWord
  strArgv := fun _ => junkWord
  ptrArgv := fun _ => junkWord
  st := junkWord
  next := junkWord

namespace SyscallArg

/-- `safestrcpy(end->type[i], name, strlen(name)+1)` for successive `i`. -/
def setTypes (arg : SyscallArg) (names : List String) : SyscallArg :=
  { arg with type := fun i => if h : i < names.length then some names[i] else arg.type i }

def setInt (arg : SyscallArg) (i : Nat) (value : Int) : SyscallArg :=
  { arg with intArgv := update arg.intArgv i value }

def setStr (arg : SyscallArg) (i : Nat) (value : Nat) : SyscallArg :=
  { arg with strArgv := update arg.strArgv i value }

def setPtr (arg : SyscallArg) (i : Nat) (value : Nat) : SyscallArg :=
  { arg with ptrArgv := update arg.ptrArgv i value }

end SyscallArg

/-- `sizeof(struct stat)` and `2*sizeof(int)`. -/
def sizeofStat : Int := 20

def sizeofFds : Int := 8

/-- The argument record after the switch over the system call number, or after
its fetches failed together with the message printed then. -/
def fillArglist (image : UserImage) (arg : SyscallArg) (type : Nat) :
    SyscallArg × Option String :=
  match type with
  | 3 | 2 | 1 | 14 | 11 | 28 | 29 => (arg.setTypes ["void"], none)
  | 6 | 22 | 23 | 25 | 12 | 13 | 10 | 21 =>
    let arg := arg.setTypes ["int"]
    match argint image 0 with
    | some intArg => (arg.setInt 0 intArg, none)
    | none => (arg, some "bad int arg val?\n")
  | 24 =>
    let arg := arg.setTypes ["int", "int"]
    match argint image 0, argint image 1 with
    | some intArg, some intArg2 => ((arg.setInt 0 intArg).setInt 1 intArg2, none)
    | _, _ => (arg, some "bad int arg val?\n")
  | 4 =>
    let arg := arg.setTypes ["int*"]
    match argptr image 0 sizeofFds with
    | some fds => ({ arg with intptrArgv := fds }, none)
    | none => (arg, some "bad int* arg val?\n")
  | 5 | 16 =>
    let arg := arg.setTypes ["int", "char*", "int"]
    match argint image 0, argint image 2 with
    | some fd, some n =>
      match argptr image 1 n with
      | some p => (((arg.setInt 0 fd).setInt 1 n).setStr 0 p, none)
      | none => (arg, some "bad 3 arg val?\n")
    | _, _ => (arg, some "bad 3 arg val?\n")
  | 7 =>
    let arg := arg.setTypes ["char*", "char**"]
    match argstr image 0, argint image 1 with
    | some (path, _), some uargv => ((arg.setStr 0 path).setPtr 0 (ofInt32 uargv), none)
    | _, _ => (arg, some "bad exec arg val?\n")
  | 15 =>
    let arg := arg.setTypes ["char*", "int"]
    match argstr image 0, argint image 1 with
    | some (path, _), some n => ((arg.setStr 0 path).setInt 0 n, none)
    | _, _ => (arg, some "bad open arg val?\n")
  | 18 | 20 | 9 =>
    let arg := arg.setTypes ["char*"]
    match argstr image 0 with
    | some (path, _) => (arg.setStr 0 path, none)
    | none => (arg, some "bad path arg val?\n")
  | 19 =>
    -- both fetches read argument 0
    let arg := arg.setTypes ["char*", "char*"]
    match argstr image 0, argstr image 0 with
    | some (path, _), some (path1, _) => ((arg.setStr 0 path).setStr 1 path1, none)
    | _, _ => (arg, some "bad path arg val?\n")
  | 8 =>
    let arg := arg.setTypes ["int", "struct stat*"]
    match argint image 0, argptr image 1 sizeofStat with
    | some n, some st => ({ arg.setInt 0 n with st := st }, none)
    | _, _ => (arg, some "bad fstat arg val?\n")
  | 17 =>
    let arg := arg.setTypes ["char*", "short", "short"]
    match argstr image 0, argint image 1, argint image 2 with
    | some (path, _), some n, some fd => (((arg.setInt 0 n).setInt 1 fd).setStr 0 path, none)
    | _, _, _ => (arg, some "bad mknode arg val?\n")
  | _ => (arg, none)

theorem fillArglist_next (image : UserImage) (arg : SyscallArg) (type : Nat) :
    (fillArglist image arg type).1.next = arg.next := by
  unfold fillArglist
  split
  all_goals try rfl
  all_goals
    dsimp only
    split
    all_goals try rfl
  all_goals
    split
    all_goals rfl

end Xv6.Syscall
