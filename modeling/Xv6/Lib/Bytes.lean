import Mathlib

/-!
Contract: byte buffers of a fixed size with little-endian number fields.
-/

namespace Xv6.Lib

/-- A 32-bit word read as a C `int`. -/
def toInt32 (word : Nat) : Int := if word < 2 ^ 31 then word else (word : Int) - 2 ^ 32

def ofInt32 (value : Int) : Nat := (value % 2 ^ 32).toNat

theorem toInt32_ofInt32 {value : Int} (lower : -2 ^ 31 ≤ value) (upper : value < 2 ^ 31) :
    toInt32 (ofInt32 value) = value := by
  unfold toInt32 ofInt32
  split <;> omega

def addWord (a b : Nat) : Nat := (a + b) % 2 ^ 32

def subWord (a b : Nat) : Nat := (a + 2 ^ 32 - b) % 2 ^ 32

theorem addWord_of_lt {a b : Nat} (fits : a + b < 2 ^ 32) : addWord a b = a + b :=
  Nat.mod_eq_of_lt fits

theorem subWord_of_le {a b : Nat} (below : b ≤ a) (fits : a < 2 ^ 32) : subWord a b = a - b := by
  unfold subWord
  omega

abbrev Bytes (size : Nat) := Fin size → UInt8

variable {index : Nat}

namespace Bytes

variable {size : Nat}

def get (buffer : Bytes size) (offset : Nat) : UInt8 :=
  if inside : offset < size then buffer ⟨offset, inside⟩ else 0

/-- Store one byte; a store past the end changes nothing. -/
def set (buffer : Bytes size) (offset : Nat) (value : UInt8) : Bytes size :=
  fun index => if index.val = offset then value else buffer index

def zero : Bytes size := fun _ => 0

@[simp] theorem get_zero (offset : Nat) : (zero : Bytes size).get offset = 0 := by
  simp [get, zero]

variable {offset : Nat}

theorem get_set_same (buffer : Bytes size) (inside : offset < size) (value : UInt8) :
    (buffer.set offset value).get offset = value := by
  simp [get, set, inside]

theorem get_set_other (buffer : Bytes size) {other : Nat} (different : other ≠ offset)
    (value : UInt8) : (buffer.set offset value).get other = buffer.get other := by
  simp [get, set, different]

/-- The little-endian number of `width` bytes at `offset`. -/
def getLe (buffer : Bytes size) (offset : Nat) : (width : Nat) → Nat
  | 0 => 0
  | width + 1 => (buffer.get offset).toNat + 256 * getLe buffer (offset + 1) width

/-- Store `value` in `width` bytes at `offset`, least significant byte first. -/
def setLe (buffer : Bytes size) (offset : Nat) : (width : Nat) → (value : Nat) → Bytes size
  | 0, _ => buffer
  | width + 1, value =>
    setLe (buffer.set offset (UInt8.ofNat value)) (offset + 1) width (value / 256)

theorem getLe_lt (buffer : Bytes size) (offset width : Nat) :
    buffer.getLe offset width < 256 ^ width := by
  induction width generalizing offset with
  | zero => simp [getLe]
  | succ width ih =>
    have byteLt := (buffer.get offset).toNat_lt
    have restLt := ih (offset + 1)
    rw [getLe, pow_succ]
    omega

@[simp] theorem getLe_zero (offset width : Nat) : (zero : Bytes size).getLe offset width = 0 := by
  induction width generalizing offset with
  | zero => rfl
  | succ width ih => simp [getLe, ih]

variable {width : Nat}

theorem getLe_congr {left right : Bytes size}
    (same : ∀ other, offset ≤ other → other < offset + width → left.get other = right.get other) :
    left.getLe offset width = right.getLe offset width := by
  induction width generalizing offset with
  | zero => rfl
  | succ width ih =>
    rw [getLe, getLe, same offset le_rfl (by omega),
      ih fun other lower upper => same other (by omega) (by omega)]

theorem get_setLe_other (buffer : Bytes size) {other : Nat} (value : Nat)
    (outside : other < offset ∨ offset + width ≤ other) :
    (buffer.setLe offset width value).get other = buffer.get other := by
  induction width generalizing buffer offset value with
  | zero => rfl
  | succ width ih =>
    rw [setLe, ih _ _ (by omega), get_set_other _ (by omega)]

theorem getLe_setLe_same (buffer : Bytes size) (value : Nat) (inside : offset + width ≤ size) :
    (buffer.setLe offset width value).getLe offset width = value % 256 ^ width := by
  induction width generalizing buffer offset value with
  | zero => simp [getLe, Nat.mod_one]
  | succ width ih =>
    rw [setLe, getLe, ih _ _ (by omega),
      get_setLe_other _ _ (by omega), get_set_same _ (by omega)]
    have lowByte : (UInt8.ofNat value).toNat = value % 256 := by simp
    rw [lowByte, pow_succ, Nat.mul_comm (256 ^ width) 256, Nat.mod_mul]

theorem getLe_setLe_other (buffer : Bytes size) {other otherWidth : Nat} (value : Nat)
    (apart : other + otherWidth ≤ offset ∨ offset + width ≤ other) :
    (buffer.setLe offset width value).getLe other otherWidth = buffer.getLe other otherWidth := by
  apply getLe_congr
  intro position lower upper
  exact get_setLe_other buffer value (by omega)

def slice (buffer : Bytes size) (offset count : Nat) : List UInt8 :=
  (List.range count).map fun index => buffer.get (offset + index)

/-- Store a run of bytes; what does not fit is dropped. -/
def splice (buffer : Bytes size) (offset : Nat) (run : List UInt8) : Bytes size := fun index =>
  if offset ≤ index.val ∧ index.val < offset + run.length then run.getD (index.val - offset) 0
  else buffer index

theorem getD_slice (buffer : Bytes size) (offset : Nat) {count : Nat} (inside : index < count) :
    (buffer.slice offset count).getD index 0 = buffer.get (offset + index) := by
  simp [slice, List.getD_eq_getElem?_getD, List.getElem?_range inside]

theorem get_splice_other (buffer : Bytes size) {other : Nat} (run : List UInt8)
    (outside : other < offset ∨ offset + run.length ≤ other) :
    (buffer.splice offset run).get other = buffer.get other := by
  unfold get splice
  by_cases inside : other < size
  · rw [dif_pos inside, dif_pos inside, if_neg (by simp only; omega)]
  · rw [dif_neg inside, dif_neg inside]

theorem get_splice_same (buffer : Bytes size) (offset index : Nat) (run : List UInt8)
    (inRun : index < run.length) (inside : offset + index < size) :
    (buffer.splice offset run).get (offset + index) = run.getD index 0 := by
  unfold get splice
  rw [dif_pos inside, if_pos (by simp only; omega)]
  simp only [Nat.add_sub_cancel_left]

end Bytes

/-- The byte with the bit `index` set. -/
def bitMask (index : Nat) : UInt8 := 1 <<< UInt8.ofNat index

theorem getLsbD_bitMask (small : index < 8) (other : Nat) :
    (bitMask index).toBitVec.getLsbD other = decide (index = other) := by
  have table : ∀ index other : Fin 8,
      (bitMask index.val).toBitVec.getLsbD other.val = decide (index.val = other.val) := by
    decide
  by_cases inside : other < 8
  · exact table ⟨index, small⟩ ⟨other, inside⟩
  · rw [BitVec.getLsbD_of_ge _ _ (by omega)]
    symm
    rw [decide_eq_false_iff_not]
    omega

theorem and_bitMask_eq_zero (value : UInt8) (small : index < 8) :
    value &&& bitMask index = 0 ↔ value.toBitVec.getLsbD index = false := by
  rw [← UInt8.toBitVec_inj]
  constructor
  · intro zero
    have bit := congrArg (fun vector => BitVec.getLsbD vector index) zero
    simpa [getLsbD_bitMask small] using bit
  · intro off
    apply BitVec.eq_of_getLsbD_eq
    intro other inside
    simp only [UInt8.toBitVec_and, BitVec.getLsbD_and, getLsbD_bitMask small, UInt8.toBitVec_zero,
      BitVec.getLsbD_zero, Bool.and_eq_false_imp, decide_eq_false_iff_not]
    intro on same
    rw [← same, off] at on
    cases on

namespace Bytes

variable {size : Nat}

/-- Whether the bit `index` of the buffer is set. -/
def getBit (buffer : Bytes size) (index : Nat) : Bool :=
  buffer.get (index / 8) &&& bitMask (index % 8) != 0

def setBit (buffer : Bytes size) (index : Nat) : Bytes size :=
  buffer.set (index / 8) (buffer.get (index / 8) ||| bitMask (index % 8))

def clearBit (buffer : Bytes size) (index : Nat) : Bytes size :=
  buffer.set (index / 8) (buffer.get (index / 8) &&& ~~~ bitMask (index % 8))

private theorem getBit_eq (buffer : Bytes size) (index : Nat) :
    buffer.getBit index = (buffer.get (index / 8)).toBitVec.getLsbD (index % 8) := by
  have small : index % 8 < 8 := Nat.mod_lt index (by decide)
  unfold getBit
  cases bit : (buffer.get (index / 8)).toBitVec.getLsbD (index % 8) with
  | false => rw [(and_bitMask_eq_zero _ small).mpr bit, bne_self_eq_false]
  | true =>
    rw [bne_iff_ne, ne_eq, and_bitMask_eq_zero _ small, bit]
    exact Bool.noConfusion

private theorem getBit_set (buffer : Bytes size) (inside : index / 8 < size) (value : UInt8)
    (other : Nat) :
    (buffer.set (index / 8) value).getBit other =
      if other / 8 = index / 8 then value.toBitVec.getLsbD (other % 8) else buffer.getBit other := by
  rw [getBit_eq, getBit_eq]
  by_cases same : other / 8 = index / 8
  · rw [if_pos same, same, get_set_same _ inside]
  · rw [if_neg same, get_set_other _ same]

theorem getBit_setBit (buffer : Bytes size) (inside : index / 8 < size) (other : Nat) :
    (buffer.setBit index).getBit other = if other = index then true else buffer.getBit other := by
  have small : index % 8 < 8 := Nat.mod_lt index (by decide)
  rw [setBit, getBit_set _ inside, getBit_eq]
  by_cases sameByte : other / 8 = index / 8
  · rw [if_pos sameByte, UInt8.toBitVec_or, BitVec.getLsbD_or, getLsbD_bitMask small, sameByte]
    by_cases same : other = index
    · simp [same]
    · have differ : ¬ index % 8 = other % 8 := by omega
      simp [same, differ]
  · have differ : other ≠ index := fun same => sameByte (by rw [same])
    rw [if_neg sameByte, if_neg differ]

theorem getBit_clearBit (buffer : Bytes size) (inside : index / 8 < size) (other : Nat) :
    (buffer.clearBit index).getBit other =
      if other = index then false else buffer.getBit other := by
  have small : index % 8 < 8 := Nat.mod_lt index (by decide)
  rw [clearBit, getBit_set _ inside, getBit_eq]
  by_cases sameByte : other / 8 = index / 8
  · have low : other % 8 < 8 := Nat.mod_lt other (by decide)
    rw [if_pos sameByte, UInt8.toBitVec_and, BitVec.getLsbD_and, UInt8.toBitVec_not,
      BitVec.getLsbD_not, getLsbD_bitMask small, sameByte]
    by_cases same : other = index
    · simp [same]
    · have differ : ¬ index % 8 = other % 8 := by omega
      simp [same, differ, low]
  · have differ : other ≠ index := fun same => sameByte (by rw [same])
    rw [if_neg sameByte, if_neg differ]

end Bytes

end Xv6.Lib
