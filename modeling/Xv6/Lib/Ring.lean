import Mathlib

/-!
Contract: a ring buffer with free-running counters.

The counters of items read and written run modulo `modulus`, a multiple of the number
of cells. `Carries` relates a ring to the list of all items ever written and to the
number of them that have been read, which do not wrap.
-/

namespace Xv6.Lib

open Function

structure Ring (Item : Type) (size : Nat) where
  data : Fin size → Item
  nread : Nat
  nwrite : Nat

namespace Ring

variable {Item : Type} {size : Nat} [NeZero size] (modulus : Nat)

def cell (ring : Ring Item size) (i : Nat) : Item := ring.data (Fin.ofNat size i)

def push (ring : Ring Item size) (item : Item) : Ring Item size where
  data := update ring.data (Fin.ofNat size ring.nwrite) item
  nread := ring.nread
  nwrite := (ring.nwrite + 1) % modulus

def front (ring : Ring Item size) : Item := ring.cell ring.nread

def pop (ring : Ring Item size) : Ring Item size :=
  { ring with nread := (ring.nread + 1) % modulus }

def count (ring : Ring Item size) : Nat := (ring.nwrite + modulus - ring.nread) % modulus

def contents (ring : Ring Item size) : List Item :=
  (List.range (ring.count modulus)).map fun k => ring.cell (ring.nread + k)

/-- The items `written` have gone in, and `read` of them have come out. -/
structure Carries (ring : Ring Item size) (written : List Item) (read : Nat) : Prop where
  nwrite : ring.nwrite = written.length % modulus
  nread : ring.nread = read % modulus
  lower : read ≤ written.length
  upper : written.length ≤ read + size
  stored : ∀ i item, read ≤ i → written[i]? = some item → ring.cell i = item

/-- Two numbers that differ by less than the modulus are equal when they are modulo
it. -/
private theorem eq_of_mod_eq {modulus a b : Nat} (same : a % modulus = b % modulus) (lower : a ≤ b)
    (near : b - a < modulus) : a = b := by
  have zero := Nat.sub_mod_eq_zero_of_mod_eq same.symm
  rw [Nat.mod_eq_of_lt near] at zero
  omega

namespace Carries

variable {modulus} {ring : Ring Item size} {written : List Item} {read : Nat}

section

variable (carries : Carries modulus ring written read)

include carries

theorem empty_iff (small : size < modulus) : ring.nread = ring.nwrite ↔ read = written.length := by
  have lower := carries.lower
  have upper := carries.upper
  rw [carries.nread, carries.nwrite]
  exact ⟨fun same => eq_of_mod_eq same lower (by omega), fun same => by rw [same]⟩

theorem full_iff (small : size < modulus) :
    ring.nwrite = (ring.nread + size) % modulus ↔ written.length = read + size := by
  have lower := carries.lower
  have upper := carries.upper
  rw [carries.nread, carries.nwrite, Nat.mod_add_mod]
  exact ⟨fun same => eq_of_mod_eq same upper (by omega), fun same => by rw [same]⟩

variable (divides : size ∣ modulus)
include divides

omit carries in
/-- The counter names the cell that the unwrapped number names. -/
theorem cell_mod (ring : Ring Item size) (i : Nat) : ring.cell (i % modulus) = ring.cell i := by
  unfold cell
  congr 1
  apply Fin.ext
  exact Nat.mod_mod_of_dvd i divides

theorem push (room : written.length < read + size)
    (item : Item) : Carries modulus (ring.push modulus item) (written ++ [item]) read := by
  have lower := carries.lower
  have place : Fin.ofNat size ring.nwrite = Fin.ofNat size written.length := by
    apply Fin.ext
    change ring.nwrite % size = written.length % size
    rw [carries.nwrite]
    exact Nat.mod_mod_of_dvd _ divides
  constructor
  · change (ring.nwrite + 1) % modulus = _
    rw [carries.nwrite, Nat.mod_add_mod, List.length_append, List.length_singleton]
  · exact carries.nread
  · rw [List.length_append]
    omega
  · rw [List.length_append, List.length_singleton]
    omega
  · intro i other isUnread isItem
    change update ring.data (Fin.ofNat size ring.nwrite) item (Fin.ofNat size i) = other
    rw [place]
    by_cases isNew : i = written.length
    · rw [isNew, List.getElem?_concat_length, Option.some.injEq] at isItem
      rw [isNew, update_self, isItem]
    · have older : i < written.length := by
        have inside := (List.getElem?_eq_some_iff.mp isItem).1
        rw [List.length_append, List.length_singleton] at inside
        omega
      have otherCell : Fin.ofNat size i ≠ Fin.ofNat size written.length := by
        intro same
        have index := congrArg Fin.val same
        exact absurd (eq_of_mod_eq index (Nat.le_of_lt older) (by omega)) isNew
      rw [update_of_ne otherCell]
      rw [List.getElem?_append_left older] at isItem
      exact carries.stored i other isUnread isItem

theorem front (unread : read < written.length) : written[read]? = some ring.front := by
  rw [List.getElem?_eq_getElem unread, Option.some.injEq, Ring.front, carries.nread,
    cell_mod divides]
  exact (carries.stored read _ le_rfl (List.getElem?_eq_getElem unread)).symm

omit divides in
theorem pop (unread : read < written.length) :
    Carries modulus (ring.pop modulus) written (read + 1) := by
  have upper := carries.upper
  refine ⟨carries.nwrite, ?_, unread, by omega, ?_⟩
  · change (ring.nread + 1) % modulus = _
    rw [carries.nread, Nat.mod_add_mod]
  · intro i item isUnread isItem
    exact carries.stored i item (by omega) isItem

omit divides in
theorem count_eq (small : size < modulus) : ring.count modulus = written.length - read := by
  have lower := carries.lower
  have upper := carries.upper
  have below := Nat.mod_lt read (show 0 < modulus by omega)
  have split := Nat.mod_add_div read modulus
  rw [count, carries.nwrite, carries.nread, Nat.add_sub_assoc (Nat.le_of_lt below), Nat.mod_add_mod]
  have difference : written.length + (modulus - read % modulus) =
      (written.length - read) + modulus * (read / modulus + 1) := by
    rw [Nat.mul_add, Nat.mul_one]
    omega
  rw [difference, Nat.add_mul_mod_self_left]
  exact Nat.mod_eq_of_lt (by omega)

/-- What is in the ring is what has not come out. -/
theorem contents_eq (small : size < modulus) : ring.contents modulus = written.drop read := by
  apply List.ext_getElem?
  intro k
  rw [contents, carries.count_eq small, List.getElem?_map, List.getElem?_drop]
  by_cases inside : k < written.length - read
  · have isItem := List.getElem?_eq_getElem (show read + k < written.length by omega)
    rw [List.getElem?_range inside, Option.map_some, isItem, Option.some.injEq, carries.nread,
      ← cell_mod divides, Nat.mod_add_mod, cell_mod divides]
    exact carries.stored (read + k) _ (by omega) isItem
  · rw [List.getElem?_eq_none (by rw [List.length_range]; omega), Option.map_none,
      List.getElem?_eq_none (by omega)]

end

end Carries

end Ring

end Xv6.Lib
