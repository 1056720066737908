import Xv6.Lib.Prog
import Xv6.Syscall.Record

/-!
Contract: the checks of `argint`, `argptr` and `argstr` keep a system call inside the memory
of its process.

The functions of `Syscall.Args` are read a second time as programs that leave the addresses
of the bytes they read. Both readings return the same, and what the programs read is below
`sz`, whatever the stack pointer, the arguments and the memory are.
-/

namespace Xv6.Syscall

open Xv6.Lib

namespace Reading

/-- A program that leaves the addresses it has read, the last one first. -/
abbrev Reader := Prog (List Nat) Empty

def readByte (image : UserImage) (addr : Nat) : Reader UInt8 := do
  Prog.modify (addr :: ·)
  pure (image.mem addr)

def readWord (image : UserImage) (addr : Nat) : Reader Nat := do
  let b0 ← readByte image addr
  let b1 ← readByte image (addr + 1)
  let b2 ← readByte image (addr + 2)
  let b3 ← readByte image (addr + 3)
  pure (b0.toNat + 256 * b1.toNat + 256 ^ 2 * b2.toNat + 256 ^ 3 * b3.toNat)

def fetchint (image : UserImage) (addr : Nat) : Reader (Option Int) :=
  if addr ≥ image.sz ∨ (addr + 4) % 2 ^ 32 > image.sz then pure none
  else do
    let word ← readWord image addr
    pure (some (toInt32 word))

def scanNul (image : UserImage) (addr : Nat) : Nat → Reader (Option Nat)
  | 0 => pure none
  | left + 1 => do
    let byte ← readByte image addr
    if byte = 0 then pure (some 0)
    else do
      let rest ← scanNul image (addr + 1) left
      pure (rest.map (· + 1))

def fetchstr (image : UserImage) (addr : Nat) : Reader (Option Nat) :=
  if addr ≥ image.sz then pure none else scanNul image addr (image.sz - addr)

def argint (image : UserImage) (n : Nat) : Reader (Option Int) :=
  fetchint image ((image.esp + 4 + 4 * n) % 2 ^ 32)

def argptr (image : UserImage) (n : Nat) (size : Int) : Reader (Option Nat) := do
  let i ← argint image n
  match i with
  | none => pure none
  | some i =>
    if size < 0 ∨ ofInt32 i ≥ image.sz ∨ (ofInt32 i + size.toNat) % 2 ^ 32 > image.sz then pure none
    else pure (some (ofInt32 i))

def argstr (image : UserImage) (n : Nat) : Reader (Option (Nat × Nat)) := do
  let addr ← argint image n
  match addr with
  | none => pure none
  | some addr => do
    let length ← fetchstr image (ofInt32 addr)
    pure (length.map fun length => (ofInt32 addr, length))

end Reading

/-- The program returns `value`, and reads no byte outside the memory of the process. -/
def ReadsInside {Value : Type} (image : UserImage) (program : Reading.Reader Value) (value : Value) : Prop :=
  ∀ reads, (∀ addr ∈ reads, addr < image.sz) →
    wp program (fun result reads' => result = value ∧ ∀ addr ∈ reads', addr < image.sz) (fun _ _ => False) reads

variable {image : UserImage}

variable {addr : Nat}

namespace ReadsInside

variable {Value Result : Type}

theorem pure (value : Value) : ReadsInside image (pure value) value := fun _ inside => ⟨rfl, inside⟩

theorem bind {program : Reading.Reader Value} {rest : Value → Reading.Reader Result} {value : Value} {result : Result}
    (first : ReadsInside image program value) (then_ : ReadsInside image (rest value) result) :
    ReadsInside image (program >>= rest) result := by
  intro reads inside
  refine (first reads inside).bind fun value' reads' outcome => ?_
  obtain ⟨rfl, inside'⟩ := outcome
  exact then_ reads' inside'

theorem readByte (below : addr < image.sz) :
    ReadsInside image (Reading.readByte image addr) (image.mem addr) := by
  intro reads inside
  refine ⟨rfl, fun other isIn => ?_⟩
  rcases List.mem_cons.mp isIn with rfl | isIn
  · exact below
  · exact inside other isIn

theorem readWord (below : addr + 4 ≤ image.sz) :
    ReadsInside image (Reading.readWord image addr) (image.word addr) := by
  refine bind (readByte (by omega)) (bind (readByte (by omega)) (bind (readByte (by omega)) ?_))
  exact bind (readByte (by omega)) (pure _)

theorem fetchint (user : image.sz < KERNBASE) (addr : Nat) :
    ReadsInside image (Reading.fetchint image addr) (fetchint image addr) := by
  unfold KERNBASE at user
  rw [Reading.fetchint, Syscall.fetchint]
  split
  · exact pure none
  · exact bind (readWord (by omega)) (pure _)

theorem scanNul {left : Nat} (below : addr + left ≤ image.sz) :
    ReadsInside image (Reading.scanNul image addr left) (scanNul image.mem addr left) := by
  induction left generalizing addr with
  | zero => exact pure none
  | succ left ih =>
    rw [Reading.scanNul, Syscall.scanNul]
    refine bind (readByte (by omega)) ?_
    split
    · exact pure (some 0)
    · exact bind (ih (by omega)) (pure _)

theorem fetchstr (addr : Nat) : ReadsInside image (Reading.fetchstr image addr) (fetchstr image addr) := by
  rw [Reading.fetchstr, Syscall.fetchstr]
  split
  · exact pure none
  · exact scanNul (by omega)

theorem argint (user : image.sz < KERNBASE) (n : Nat) :
    ReadsInside image (Reading.argint image n) (argint image n) := fetchint user _

theorem argptr (user : image.sz < KERNBASE) (n : Nat) (size : Int) :
    ReadsInside image (Reading.argptr image n size) (argptr image n size) := by
  refine bind (argint user n) ?_
  rw [Syscall.argptr]
  cases Syscall.argint image n with
  | none => exact pure none
  | some i =>
    simp only [Option.bind_eq_bind, Option.bind_some]
    split
    · exact pure none
    · exact pure (some (ofInt32 i))

theorem argstr (user : image.sz < KERNBASE) (n : Nat) :
    ReadsInside image (Reading.argstr image n) (argstr image n) := by
  refine bind (argint user n) ?_
  rw [Syscall.argstr]
  cases Syscall.argint image n with
  | none => exact pure none
  | some addr =>
    refine bind (fetchstr (ofInt32 addr)) ?_
    simp only [Option.bind_eq_bind, Option.bind_some]
    cases Syscall.fetchstr image (ofInt32 addr) with
    | none => exact pure none
    | some length => exact pure (some (ofInt32 addr, length))

end ReadsInside

theorem UserImage.word_lt (image : UserImage) (addr : Nat) : image.word addr < 2 ^ 32 := by
  have b0 := (image.mem addr).toNat_lt
  have b1 := (image.mem (addr + 1)).toNat_lt
  have b2 := (image.mem (addr + 2)).toNat_lt
  have b3 := (image.mem (addr + 3)).toNat_lt
  unfold UserImage.word
  omega

theorem ofInt32_toInt32 {word : Nat} (isWord : word < 2 ^ 32) : ofInt32 (toInt32 word) = word := by
  unfold ofInt32 toInt32
  split <;> omega

theorem fetchint_eq_some (user : image.sz < KERNBASE) {value : Int} :
    fetchint image addr = some value ↔ addr + 4 ≤ image.sz ∧ value = toInt32 (image.word addr) := by
  unfold KERNBASE at user
  rw [fetchint]
  split
  · simp only [reduceCtorEq, false_iff, not_and]
    omega
  · simp only [Option.some.injEq, eq_comm (b := value), iff_and_self]
    omega

theorem scanNul_eq_some {mem : Nat → UInt8} {left length : Nat} :
    scanNul mem addr left = some length ↔
      length < left ∧ mem (addr + length) = 0 ∧ ∀ k, k < length → mem (addr + k) ≠ 0 := by
  induction left generalizing addr length with
  | zero => simp [scanNul]
  | succ left ih =>
    rw [scanNul]
    split
    · rename_i isNul
      constructor
      · rintro ⟨⟩
        exact ⟨Nat.succ_pos left, isNul, nofun⟩
      · rintro ⟨-, -, before⟩
        cases length with
        | zero => rfl
        | succ length => exact absurd isNul (before 0 (Nat.succ_pos length))
    · rename_i notNul
      rw [Option.map_eq_some_iff]
      constructor
      · rintro ⟨rest, found, rfl⟩
        obtain ⟨below, isNul, before⟩ := ih.mp found
        refine ⟨by omega, by rwa [← Nat.add_assoc, Nat.add_right_comm], fun k belowK => ?_⟩
        cases k with
        | zero => exact notNul
        | succ k =>
          rw [Nat.add_comm k, ← Nat.add_assoc]
          exact before k (by omega)
      · rintro ⟨below, isNul, before⟩
        cases length with
        | zero => exact absurd isNul notNul
        | succ length =>
          refine ⟨length, ih.mpr ⟨by omega, ?_, fun k belowK => ?_⟩, rfl⟩
          · rwa [Nat.add_assoc, Nat.add_comm 1]
          · rw [Nat.add_assoc, Nat.add_comm 1]
            exact before (k + 1) (by omega)

theorem fetchstr_eq_some {length : Nat} :
    fetchstr image addr = some length ↔
      addr + length < image.sz ∧ image.mem (addr + length) = 0 ∧ ∀ k, k < length → image.mem (addr + k) ≠ 0 := by
  rw [fetchstr]
  split
  · simp only [reduceCtorEq, false_iff, not_and]
    omega
  · rw [scanNul_eq_some]
    refine and_congr_left fun _ => ?_
    omega

/-- The address of the `n`th argument. -/
def UserImage.argAddr (image : UserImage) (n : Nat) : Nat := (image.esp + 4 + 4 * n) % 2 ^ 32

theorem argument_checks (image : UserImage) (user : image.sz < KERNBASE) (n : Nat) (size : Int)
    (isInt : -2 ^ 31 ≤ size ∧ size < 2 ^ 31) :
    -- each function succeeds exactly if what it is to give lies below `sz`
    (∀ value, argint image n = some value ↔
      image.argAddr n + 4 ≤ image.sz ∧ value = toInt32 (image.word (image.argAddr n))) ∧
    (∀ p, argptr image n size = some p ↔
      image.argAddr n + 4 ≤ image.sz ∧ p = image.word (image.argAddr n) ∧ 0 ≤ size ∧ p < image.sz ∧
        p + size.toNat ≤ image.sz) ∧
    (∀ p length, argstr image n = some (p, length) ↔
      image.argAddr n + 4 ≤ image.sz ∧ p = image.word (image.argAddr n) ∧ p + length < image.sz ∧
        image.mem (p + length) = 0 ∧ ∀ k, k < length → image.mem (p + k) ≠ 0) ∧
    -- and reads nothing else of the memory
    ReadsInside image (Reading.argint image n) (argint image n) ∧
    ReadsInside image (Reading.argptr image n size) (argptr image n size) ∧
    ReadsInside image (Reading.argstr image n) (argstr image n) := by
  have isArgint : ∀ value, argint image n = some value ↔
      image.argAddr n + 4 ≤ image.sz ∧ value = toInt32 (image.word (image.argAddr n)) :=
    fun value => fetchint_eq_some user
  have back : ofInt32 (toInt32 (image.word (image.argAddr n))) = image.word (image.argAddr n) :=
    ofInt32_toInt32 (image.word_lt _)
  refine ⟨isArgint, fun p => ?_, fun p length => ?_, ReadsInside.argint user n, ReadsInside.argptr user n size,
    ReadsInside.argstr user n⟩
  · unfold KERNBASE at user
    simp only [argptr, Option.bind_eq_bind, Option.bind_eq_some_iff, isArgint, Option.ite_none_left_eq_some,
      Option.some.injEq]
    constructor
    · rintro ⟨value, ⟨below, rfl⟩, passed, isP⟩
      rw [back] at passed isP
      rw [← isP]
      refine ⟨below, rfl, ?_⟩
      omega
    · rintro ⟨below, isP, natural, low, high⟩
      refine ⟨_, ⟨below, rfl⟩, ?_, ?_⟩
      · rw [back, ← isP]
        omega
      · rw [back, isP]
  · simp only [argstr, Option.bind_eq_bind, Option.bind_eq_some_iff, isArgint, fetchstr_eq_some, Option.some.injEq,
      Prod.mk.injEq]
    constructor
    · rintro ⟨value, ⟨below, rfl⟩, length', found, isP, rfl⟩
      rw [back] at found isP
      rw [← isP]
      exact ⟨below, rfl, found⟩
    · rintro ⟨below, isP, found⟩
      refine ⟨_, ⟨below, rfl⟩, length, ?_, ?_, rfl⟩
      · rw [back, ← isP]
        exact found
      · rw [back, isP]

/-- A stack pointer just below 2^32 wraps around to the argument, a pointer to the string "a"
behind it. -/
def sampleImage : UserImage where
  sz := 16
  esp := 2 ^ 32 - 4
  mem := fun addr => if addr = 0 then 4 else if addr = 4 then 97 else 0

theorem sampleImage_checked : argint sampleImage 0 = some 4 ∧ argptr sampleImage 0 12 = some 4 ∧
    argptr sampleImage 0 13 = none ∧ argstr sampleImage 0 = some (4, 1) := by
  have small : sampleImage.sz < KERNBASE := by decide
  obtain ⟨isInt, isPtr, isStr, -⟩ := argument_checks sampleImage small 0 12 (by decide)
  obtain ⟨-, isPtr', -⟩ := argument_checks sampleImage small 0 13 (by decide)
  refine ⟨(isInt 4).mpr (by decide), (isPtr 4).mpr (by decide), ?_, (isStr 4 1).mpr (by decide)⟩
  rw [Option.eq_none_iff_forall_not_mem]
  intro p isP
  obtain ⟨-, rfl, -, -, high⟩ := (isPtr' p).mp isP
  exact absurd high (by decide)

end Xv6.Syscall
