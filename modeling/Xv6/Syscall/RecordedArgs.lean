import Xv6.Syscall.ArgChecks
import Xv6.Syscall.RecordInvariant

/-!
Contract: the argument record of a completed call against the arguments of the call.

`fill_arglist` fetches the arguments a second time, after the handler has returned. What it
stores are the words on the stack at the call as long as the handler has left the stack
pointer, the size, the words and the strings as they were; and not for `link`, for which it
fetches the first argument twice.
-/

namespace Xv6.Syscall

open Xv6.Lib

/-- A field of `struct syscallarg` that holds an argument. -/
inductive ArgField where
  | int (i : Nat)
  | intptr
  | str (i : Nat)
  | ptr (i : Nat)
  | st
deriving DecidableEq

/-- What the field holds, as a word. -/
def SyscallArg.field (arg : SyscallArg) : ArgField → Nat
  | .int i => ofInt32 (arg.intArgv i)
  | .intptr => arg.intptrArgv
  | .str i => arg.strArgv i
  | .ptr i => arg.ptrArgv i
  | .st => arg.st

/-- How an argument is fetched. A `buffer` has its size in another argument. -/
inductive Fetch where
  | int
  | str
  | block (size : Int)
  | buffer (sizeArg : Nat)
deriving DecidableEq

/-- The arguments of a system call in their order: the field for each of them and the way its
handler fetches it. -/
def callArgs : Nat → List (ArgField × Fetch)
  | 6 | 22 | 23 | 25 | 12 | 13 | 10 | 21 => [(.int 0, .int)]
  | 24 => [(.int 0, .int), (.int 1, .int)]
  | 4 => [(.intptr, .block sizeofFds)]
  | 5 | 16 => [(.int 0, .int), (.str 0, .buffer 2), (.int 1, .int)]
  | 7 => [(.str 0, .str), (.ptr 0, .int)]
  | 15 => [(.str 0, .str), (.int 0, .int)]
  | 18 | 20 | 9 => [(.str 0, .str)]
  | 19 => [(.str 0, .str), (.str 1, .str)]
  | 8 => [(.int 0, .int), (.st, .block sizeofStat)]
  | 17 => [(.str 0, .str), (.int 0, .int), (.int 1, .int)]
  | _ => []

def SYS_link : Nat := 19

def UserImage.arg (image : UserImage) (n : Nat) : Nat := image.word (image.argAddr n)

/-- The `n`th argument can be fetched. -/
def UserImage.Fetches (image : UserImage) (n : Nat) : Fetch → Prop
  | .int => ∃ value, argint image n = some value
  | .str => ∃ found, argstr image n = some found
  | .block size => ∃ p, argptr image n size = some p
  | .buffer sizeArg => ∃ size p, argint image sizeArg = some size ∧ argptr image n size = some p

/-- The handler left the `n`th argument as it was: the word, and the string up to its NUL if it
is one. -/
structure KeepsArg (before after : UserImage) (n : Nat) (fetch : Fetch) : Prop where
  word : ∀ k, k < 4 → after.mem (before.argAddr n + k) = before.mem (before.argAddr n + k)
  string : fetch = .str → ∀ p length, argstr before n = some (p, length) →
    ∀ k, k ≤ length → after.mem (p + k) = before.mem (p + k)

/-- The handler left the stack pointer, did not give memory back, and left the arguments. -/
structure Keeps (before after : UserImage) (num : Nat) : Prop where
  esp : after.esp = before.esp
  sz : before.sz ≤ after.sz
  user : after.sz < KERNBASE
  args : ∀ n field fetch, (callArgs num)[n]? = some (field, fetch) → KeepsArg before after n fetch

section

variable {before after : UserImage} {n : Nat} {fetch : Fetch}

theorem KeepsArg.word_eq (kept : KeepsArg before after n fetch) :
    after.word (before.argAddr n) = before.word (before.argAddr n) := by
  have b0 := kept.word 0 (by omega)
  have b1 := kept.word 1 (by omega)
  have b2 := kept.word 2 (by omega)
  have b3 := kept.word 3 (by omega)
  rw [Nat.add_zero] at b0
  rw [UserImage.word, UserImage.word, b0, b1, b2, b3]

theorem argint_eq_some {image : UserImage} (user : image.sz < KERNBASE) {value : Int} :
    argint image n = some value ↔
      image.argAddr n + 4 ≤ image.sz ∧ value = toInt32 (image.arg n) := fetchint_eq_some user

variable {num : Nat} (keeps : Keeps before after num)

include keeps

theorem Keeps.argAddr_eq : after.argAddr n = before.argAddr n := by
  rw [UserImage.argAddr, UserImage.argAddr, keeps.esp]

theorem Keeps.argint (kept : KeepsArg before after n fetch) {value : Int}
    (found : Syscall.argint before n = some value) :
    Syscall.argint after n = some value ∧ ofInt32 value = before.arg n := by
  have user : before.sz < KERNBASE := keeps.sz.trans_lt keeps.user
  obtain ⟨below, rfl⟩ := (argint_eq_some user).mp found
  refine ⟨(argint_eq_some keeps.user).mpr ⟨?_, ?_⟩, ofInt32_toInt32 (before.word_lt _)⟩
  · rw [keeps.argAddr_eq]
    exact below.trans keeps.sz
  · rw [UserImage.arg, UserImage.arg, keeps.argAddr_eq, kept.word_eq]

theorem Keeps.argptr (kept : KeepsArg before after n fetch) {size : Int} {p : Nat}
    (isInt : -2 ^ 31 ≤ size ∧ size < 2 ^ 31) (found : Syscall.argptr before n size = some p) :
    Syscall.argptr after n size = some p ∧ p = before.arg n := by
  obtain ⟨i, isArg, rest⟩ := Option.bind_eq_some_iff.mp found
  obtain ⟨passed, isP⟩ := Option.ite_none_left_eq_some.mp rest
  obtain ⟨again, isWord⟩ := keeps.argint kept isArg
  have user := keeps.user
  have sz := keeps.sz
  unfold KERNBASE at user
  cases isP
  refine ⟨?_, isWord⟩
  rw [Syscall.argptr, again]
  exact if_neg (by omega)

theorem Keeps.argstr (kept : KeepsArg before after n .str) {p length : Nat}
    (found : Syscall.argstr before n = some (p, length)) :
    Syscall.argstr after n = some (p, length) ∧ p = before.arg n := by
  have string := kept.string rfl p length found
  obtain ⟨addr, isArg, rest⟩ := Option.bind_eq_some_iff.mp found
  obtain ⟨length', isLength, isPair⟩ := Option.bind_eq_some_iff.mp rest
  obtain ⟨again, isWord⟩ := keeps.argint kept isArg
  cases isPair
  obtain ⟨below, isNul, noneBefore⟩ := fetchstr_eq_some.mp isLength
  have fetched : fetchstr after (ofInt32 addr) = some length := by
    refine fetchstr_eq_some.mpr ⟨below.trans_le keeps.sz, ?_, fun k belowK => ?_⟩
    · rw [string length le_rfl]
      exact isNul
    · rw [string k belowK.le]
      exact noneBefore k belowK
  refine ⟨?_, isWord⟩
  simp only [Syscall.argstr, again, Option.bind_eq_bind, Option.bind_some, fetched]

end

theorem toInt32_bounds {word : Nat} (isWord : word < 2 ^ 32) :
    -2 ^ 31 ≤ toInt32 word ∧ toInt32 word < 2 ^ 31 := by
  unfold toInt32
  split <;> omega

/-- `fill_arglist` stores the arguments of the call, each in its field. -/
theorem fillArglist_fields {before after : UserImage} {num : Nat} (notLink : num ≠ SYS_link)
    (fetchable : ∀ n field fetch, (callArgs num)[n]? = some (field, fetch) → before.Fetches n fetch)
    (keeps : Keeps before after num) (arg : SyscallArg) (n : Nat) (field : ArgField) (fetch : Fetch)
    (isArg : (callArgs num)[n]? = some (field, fetch)) :
    (fillArglist after arg num).1.field field = before.arg n := by
  have user : before.sz < KERNBASE := keeps.sz.trans_lt keeps.user
  have int : ∀ n field, (callArgs num)[n]? = some (field, .int) →
      ∃ value, argint after n = some value ∧ ofInt32 value = before.arg n := by
    intro n field isArg
    obtain ⟨value, found⟩ := fetchable n field .int isArg
    exact ⟨value, keeps.argint (keeps.args n field .int isArg) found⟩
  have str : ∀ n field, (callArgs num)[n]? = some (field, .str) →
      ∃ length, argstr after n = some (before.arg n, length) := by
    intro n field isArg
    obtain ⟨⟨p, length⟩, found⟩ := fetchable n field .str isArg
    obtain ⟨again, rfl⟩ := keeps.argstr (keeps.args n field .str isArg) found
    exact ⟨length, again⟩
  have block : ∀ n field size, (callArgs num)[n]? = some (field, .block size) → -2 ^ 31 ≤ size ∧ size < 2 ^ 31 →
      argptr after n size = some (before.arg n) := by
    intro n field size isArg isInt
    obtain ⟨p, found⟩ := fetchable n field (.block size) isArg
    obtain ⟨again, rfl⟩ := keeps.argptr (keeps.args n field (.block size) isArg) isInt found
    exact again
  -- what is stored, against the arguments, field by field
  have stored : (callArgs num).map (fun arg' => (fillArglist after arg num).1.field arg'.1) =
      (List.range (callArgs num).length).map before.arg := by
    unfold callArgs
    split
    -- one `int`
    iterate 8
      obtain ⟨value, fetched, isWord⟩ := int 0 (.int 0) rfl
      simp [fillArglist, fetched, SyscallArg.field, SyscallArg.setInt, isWord]
    · obtain ⟨value, fetched, isWord⟩ := int 0 (.int 0) rfl
      obtain ⟨value', fetched', isWord'⟩ := int 1 (.int 1) rfl
      simp [fillArglist, fetched, fetched', SyscallArg.field, SyscallArg.setInt, isWord, isWord', List.range_succ]
    · have fetched := block 0 .intptr sizeofFds rfl (by decide)
      simp [fillArglist, fetched, SyscallArg.field]
    -- a buffer, with its size behind it
    iterate 2
      obtain ⟨value, fetched, isWord⟩ := int 0 (.int 0) rfl
      obtain ⟨size, fetchedSize, isSize⟩ := int 2 (.int 1) rfl
      obtain ⟨size', p, isArgSize, found⟩ := fetchable 1 (.str 0) (.buffer 2) rfl
      obtain ⟨again, -⟩ := keeps.argint (keeps.args 2 (.int 1) .int rfl) isArgSize
      have sameSize : size' = size := Option.some_injective _ (again.symm.trans fetchedSize)
      have isInt : -2 ^ 31 ≤ size' ∧ size' < 2 ^ 31 := by
        rw [((argint_eq_some user).mp isArgSize).2]
        exact toInt32_bounds (before.word_lt _)
      obtain ⟨fetchedPtr, isPtr⟩ := keeps.argptr (keeps.args 1 (.str 0) (.buffer 2) rfl) isInt found
      rw [sameSize] at fetchedPtr
      simp [fillArglist, fetched, fetchedSize, fetchedPtr, SyscallArg.field, SyscallArg.setInt, SyscallArg.setStr,
        isWord, isPtr, isSize, List.range_succ]
    · obtain ⟨length, fetched⟩ := str 0 (.str 0) rfl
      obtain ⟨value, fetched', isWord⟩ := int 1 (.ptr 0) rfl
      simp [fillArglist, fetched, fetched', SyscallArg.field, SyscallArg.setStr, SyscallArg.setPtr, isWord,
        List.range_succ]
    · obtain ⟨length, fetched⟩ := str 0 (.str 0) rfl
      obtain ⟨value, fetched', isWord⟩ := int 1 (.int 0) rfl
      simp [fillArglist, fetched, fetched', SyscallArg.field, SyscallArg.setStr, SyscallArg.setInt, isWord,
        List.range_succ]
    -- one path
    iterate 3
      obtain ⟨length, fetched⟩ := str 0 (.str 0) rfl
      simp [fillArglist, fetched, SyscallArg.field, SyscallArg.setStr]
    · exact absurd rfl notLink
    · obtain ⟨value, fetched, isWord⟩ := int 0 (.int 0) rfl
      have fetched' := block 1 .st sizeofStat rfl (by decide)
      simp [fillArglist, fetched, fetched', SyscallArg.field, SyscallArg.setInt, isWord, List.range_succ]
    · obtain ⟨length, fetched⟩ := str 0 (.str 0) rfl
      obtain ⟨value, fetched', isWord⟩ := int 1 (.int 0) rfl
      obtain ⟨value', fetched'', isWord'⟩ := int 2 (.int 1) rfl
      simp [fillArglist, fetched, fetched', fetched'', SyscallArg.field, SyscallArg.setStr, SyscallArg.setInt, isWord,
        isWord', List.range_succ]
    · rfl
  obtain ⟨inside, isHere⟩ := List.getElem?_eq_some_iff.mp isArg
  have here := congrArg (·[n]?) stored
  simpa [inside, isHere] using here

def firstRuns : List Action := [.userinit 0, .schedule ⟨0, NPROC_pos⟩ .RUNNING]

def sampleClock : Rtcdate × Rtcdate := (⟨0, 0, 0, 1, 1, 2018⟩, ⟨1, 0, 0, 1, 1, 2018⟩)

/-- A stack at 16 with the arguments 40 and 48, and two strings there. -/
def twoPaths : UserImage where
  sz := 64
  esp := 16
  mem := fun addr => if addr = 20 then 40 else if addr = 24 then 48 else if addr = 40 then 97
    else if addr = 48 then 98 else 0

/-- An image as `exec` leaves it: one argument, and the stack below it. -/
def execImage : UserImage where
  sz := 64
  esp := 32
  mem := fun addr => if addr < 36 ∧ 32 ≤ addr then 255 else if addr = 36 then 1 else if addr = 40 then 44
    else if addr = 44 then 56 else if addr = 56 then 97 else 0

/-- The record of the last call of the first process with a number. -/
def lastRecord (m : Machine) (num : Nat) : SyscallArg :=
  m.kernel.args.cell ((m.kernel.proc ⟨0, NPROC_pos⟩).syscalls (num - 1)).arglistEnd

end Xv6.Syscall
