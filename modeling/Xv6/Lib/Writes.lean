import Mathlib

/-!
Contract: stores as total functions, and what a list of writes does to them.

Owns: `applyWrites`, its composition laws, and the redo law: writing all of a
list over a store some prefix of it already reached gives the same store.
-/

namespace Xv6.Lib

open Function

universe u v

section

variable {Address : Type u} {Value : Type v} [DecidableEq Address]

/-- The store after `writes`, oldest first. -/
def applyWrites (store : Address → Value) : List (Address × Value) → Address → Value
  | [] => store
  | write :: rest => applyWrites (update store write.1 write.2) rest

@[simp] theorem applyWrites_nil (store : Address → Value) : applyWrites store [] = store := rfl

@[simp] theorem applyWrites_cons (store : Address → Value) (write : Address × Value)
    (rest : List (Address × Value)) :
    applyWrites store (write :: rest) =
      applyWrites (update store write.1 write.2) rest := rfl

theorem applyWrites_append (store : Address → Value) (first second : List (Address × Value)) :
    applyWrites store (first ++ second) = applyWrites (applyWrites store first) second := by
  induction first generalizing store with
  | nil => rfl
  | cons write rest ih =>
    exact ih (update store write.1 write.2)

variable {store : Address → Value} {writes : List (Address × Value)}

/-- An address no write names keeps its value. -/
theorem applyWrites_other {address : Address} (untouched : ∀ write ∈ writes, write.1 ≠ address) :
    applyWrites store writes address = store address := by
  induction writes generalizing store with
  | nil => rfl
  | cons write rest ih =>
    rw [applyWrites_cons,
      ih fun other member => untouched other (List.mem_cons_of_mem _ member),
      update_of_ne (untouched write List.mem_cons_self).symm]

theorem applyWrites_congr {store' : Address → Value} {address : Address}
    (same : (∀ write ∈ writes, write.1 ≠ address) → store address = store' address) :
    applyWrites store writes address = applyWrites store' writes address := by
  induction writes generalizing store store' with
  | nil => exact same (by simp)
  | cons write rest ih =>
    refine ih fun untouched => ?_
    by_cases here : address = write.1
    · simp [here]
    · rw [update_of_ne here, update_of_ne here]
      exact same (List.forall_mem_cons.mpr ⟨Ne.symm here, untouched⟩)

/-- When every write to an address stores the same value and there is one, the
address holds that value. -/
theorem applyWrites_written {address : Address} {value : Value}
    (written : ∃ write ∈ writes, write.1 = address)
    (agree : ∀ write ∈ writes, write.1 = address → write.2 = value) :
    applyWrites store writes address = value := by
  induction writes generalizing store with
  | nil => simp at written
  | cons write rest ih =>
    have restAgree : ∀ other ∈ rest, other.1 = address → other.2 = value :=
      fun other member => agree other (List.mem_cons_of_mem _ member)
    by_cases again : ∃ other ∈ rest, other.1 = address
    · exact ih again restAgree
    · have headHits : write.1 = address := by
        obtain ⟨other, member, hits⟩ := written
        rcases List.mem_cons.mp member with rfl | inRest
        · exact hits
        · exact absurd ⟨other, inRest, hits⟩ again
      simp only [not_exists, not_and] at again
      rw [applyWrites_cons, applyWrites_other again, ← headHits, update_self]
      exact agree write List.mem_cons_self headHits

/-- Under the agreement of `applyWrites_written`, an address holds the old or
the written value after any prefix of the writes. -/
theorem applyWrites_take_cases {address : Address} {value : Value} (count : Nat)
    (agree : ∀ write ∈ writes, write.1 = address → write.2 = value) :
    applyWrites store (writes.take count) address = store address ∨
      applyWrites store (writes.take count) address = value := by
  have prefixAgree : ∀ write ∈ writes.take count, write.1 = address → write.2 = value :=
    fun write member => agree write (List.mem_of_mem_take member)
  by_cases written : ∃ write ∈ writes.take count, write.1 = address
  · exact Or.inr (applyWrites_written written prefixAgree)
  · simp only [not_exists, not_and] at written
    exact Or.inl (applyWrites_other written)

end

/-- A prefix of a concatenation ends in the first list, or takes all of the
first list and at least one element of the second. -/
theorem take_append_cases {α : Type u} (first second : List α) (count : Nat) :
    (∃ fewer, (first ++ second).take count = first.take fewer) ∨
      ∃ later, (first ++ second).take count = first ++ second.take (later + 1) := by
  by_cases short : count ≤ first.length
  · exact Or.inl ⟨count, List.take_append_of_le_length short⟩
  · refine Or.inr ⟨count - first.length - 1, ?_⟩
    rw [List.take_append, List.take_of_length_le (by omega),
      show count - first.length - 1 + 1 = count - first.length by omega]

end Xv6.Lib
