import Mathlib

/-!
Contract: totals over the parties of a system, and how they change when one
party changes.
-/

namespace Xv6.Lib

open Function

section

variable {Party Value : Type} [Fintype Party]

def tally (weight : Value → Int) (value : Party → Value) : Int := ∑ party, weight (value party)

/-- Changing one party exchanges its old weight for its new one. -/
theorem tally_update [DecidableEq Party] (weight : Value → Int) (value : Party → Value)
    (party : Party) (new : Value) :
    tally weight (update value party new) =
      tally weight value - weight (value party) + weight new := by
  have rest : ∑ other ∈ Finset.univ.erase party, weight (update value party new other) =
      ∑ other ∈ Finset.univ.erase party, weight (value other) := by
    apply Finset.sum_congr rfl
    intro other member
    rw [update_of_ne (Finset.ne_of_mem_erase member)]
  have before := Finset.add_sum_erase Finset.univ (fun other => weight (value other))
    (Finset.mem_univ party)
  have after := Finset.add_sum_erase Finset.univ
    (fun other => weight (update value party new other)) (Finset.mem_univ party)
  simp only [update_self] at after
  unfold tally
  rw [← before, ← after, rest]
  ring

theorem tally_nonneg {weight : Value → Int} (nonneg : ∀ value, 0 ≤ weight value)
    (value : Party → Value) : 0 ≤ tally weight value :=
  Finset.sum_nonneg fun party _ => nonneg (value party)

/-- One party's weight is at most the total. -/
theorem weight_le_tally {weight : Value → Int} (nonneg : ∀ value, 0 ≤ weight value)
    (value : Party → Value) (party : Party) : weight (value party) ≤ tally weight value :=
  Finset.single_le_sum (fun other _ => nonneg (value other)) (Finset.mem_univ party)

end

end Xv6.Lib
