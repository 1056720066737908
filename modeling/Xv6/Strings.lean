import Xv6.Lib.Bytes

/-!
Contract: `memmove` of `string.c`, and the `memmove` of `ulib.c` beside it.
-/

namespace Xv6

open Function Xv6.Lib

abbrev Memory := Nat → UInt8

/-- `while(n-- > 0) *d++ = *s++`. -/
def copyUp : (mem : Memory) → (d s n : Nat) → Memory
  | mem, _, _, 0 => mem
  | mem, d, s, n + 1 =>
    copyUp (update mem d (mem s)) (addWord d 1) (addWord s 1) n

/-- `while(n-- > 0) *--d = *--s`. -/
def copyDown : (mem : Memory) → (d s n : Nat) → Memory
  | mem, _, _, 0 => mem
  | mem, d, s, n + 1 =>
    copyDown (update mem (subWord d 1) (mem (subWord s 1))) (subWord d 1) (subWord s 1) n

def memmove (mem : Memory) (dst src n : Nat) : Memory :=
  if src < dst ∧ dst < addWord src n then copyDown mem (addWord dst n) (addWord src n) n
  else copyUp mem dst src n

/-- What `mem` becomes when the `n` bytes at `src` are put at `dst` all at once. -/
def moved (mem : Memory) (dst src n : Nat) : Memory := fun a =>
  if dst ≤ a ∧ a < dst + n then mem (src + (a - dst)) else mem a

theorem moved_zero (mem : Memory) (dst src : Nat) : moved mem dst src 0 = mem := by
  funext a
  rw [moved, if_neg (by omega)]

/-- Copying upwards is right unless the source lies below and reaches into the
destination. -/
theorem copyUp_eq (mem : Memory) {d s n : Nat} (toFits : d + n ≤ 2 ^ 32) (fromFits : s + n ≤ 2 ^ 32)
    (apart : d ≤ s ∨ s + n ≤ d) : copyUp mem d s n = moved mem d s n := by
  induction n generalizing mem d s with
  | zero => rw [copyUp, moved_zero]
  | succ n ih =>
    rw [copyUp]
    by_cases isLast : n = 0
    · subst isLast
      funext a
      by_cases here : a = d
      · rw [here, copyUp, update_self, moved, if_pos (by omega), Nat.sub_self, Nat.add_zero]
      · rw [copyUp, update_of_ne here, moved, if_neg (by omega)]
    · rw [addWord_of_lt (by omega), addWord_of_lt (by omega),
        ih _ (by omega) (by omega) (by omega)]
      funext a
      unfold moved
      by_cases here : a = d
      · rw [if_neg (by omega), if_pos (by omega), here, update_self, Nat.sub_self,
          Nat.add_zero]
      · by_cases inside : d ≤ a ∧ a < d + (n + 1)
        · have source : s + 1 + (a - (d + 1)) = s + (a - d) := by omega
          rw [if_pos (by omega), if_pos inside, source, update_of_ne (by omega)]
        · rw [if_neg (by omega), if_neg inside, update_of_ne here]

private theorem subWord_addWord_succ {a n : Nat} (fits : a + (n + 1) ≤ 2 ^ 32) :
    subWord (addWord a (n + 1)) 1 = a + n := by
  unfold subWord addWord
  omega

/-- Copying downwards is right unless the source lies above. -/
theorem copyDown_eq (mem : Memory) {dst src n : Nat} (toFits : dst + n ≤ 2 ^ 32) (below : src ≤ dst) :
    copyDown mem (addWord dst n) (addWord src n) n = moved mem dst src n := by
  induction n generalizing mem with
  | zero => rw [copyDown, moved_zero]
  | succ n ih =>
    have rest := ih (update mem (dst + n) (mem (src + n))) (by omega)
    rw [addWord_of_lt (by omega), addWord_of_lt (by omega)] at rest
    rw [copyDown, subWord_addWord_succ toFits, subWord_addWord_succ (by omega), rest]
    funext a
    unfold moved
    by_cases here : a = dst + n
    · have source : src + (dst + n - dst) = src + n := by omega
      rw [if_neg (by omega), if_pos (by omega), here, update_self, source]
    · by_cases inside : dst ≤ a ∧ a < dst + (n + 1)
      · rw [if_pos (by omega), if_pos inside, update_of_ne (by omega)]
      · rw [if_neg (by omega), if_neg inside, update_of_ne here]

theorem memmove_eq_moved (mem : Memory) {dst src n : Nat} (toFits : dst + n ≤ 2 ^ 32)
    (fromFits : src + n ≤ 2 ^ 32) : memmove mem dst src n = moved mem dst src n := by
  unfold memmove
  split
  · rename_i overlaps
    exact copyDown_eq mem toFits (by omega)
  · rename_i notBelow
    apply copyUp_eq mem toFits fromFits
    by_cases below : src < dst
    · rw [addWord_of_lt (by omega)] at notBelow
      omega
    · omega

/-- However the regions overlap, the bytes that were at `src` are at `dst`, and no other byte
has changed. -/
theorem memmove_copies (mem : Memory) {dst src n : Nat} (toFits : dst + n ≤ 2 ^ 32) (fromFits : src + n ≤ 2 ^ 32) :
    (∀ i, i < n → memmove mem dst src n (dst + i) = mem (src + i)) ∧
      ∀ a, ¬ (dst ≤ a ∧ a < dst + n) → memmove mem dst src n a = mem a := by
  rw [memmove_eq_moved mem toFits fromFits]
  refine ⟨fun i below => ?_, fun a outside => if_neg outside⟩
  rw [moved, if_pos (by omega), Nat.add_sub_cancel_left]

/-- Four bytes are moved up by one. -/
theorem memmove_copies_overlapping : memmove UInt8.ofNat 1 0 4 4 = 3 :=
  (memmove_copies UInt8.ofNat (by decide) (by decide)).1 3 (by decide)

/-- `memmove` of `ulib.c`. -/
def Ulib.memmove (mem : Memory) (vdst vsrc : Nat) (n : Int) : Memory := copyUp mem vdst vsrc n.toNat

end Xv6
