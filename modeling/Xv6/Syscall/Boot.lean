import Xv6.Syscall.Machine

/-!
Contract: the free list at boot. `kinit1` and `kinit2` put every page behind the kernel on it,
each once.
-/

namespace Xv6.Syscall

open Function Xv6.Lib

variable {k : Kernel}

def Kernel.freerangeLoop (k : Kernel) (p vend : Nat) : Result Kernel :=
  if p + PGSIZE ≤ vend then do freerangeLoop (← k.kfree p) (p + PGSIZE) vend else pure k
termination_by vend - p
decreasing_by
  unfold PGSIZE at *
  omega

def PGROUNDUP (sz : Nat) : Nat := (sz + PGSIZE - 1) % 2 ^ 32 / PGSIZE * PGSIZE

/-- `kinit1` and `kinit2` are calls of it. -/
def Kernel.freerange (k : Kernel) (vstart vend : Nat) : Result Kernel :=
  k.freerangeLoop (PGROUNDUP vstart) vend

theorem freerangeLoop_spec {p vstart vend : Nat} (aligned : p % PGSIZE = 0)
    (start : vstart ≤ p ∧ p < vstart + PGSIZE) (above : k.kernelEnd ≤ vstart)
    (top : vend ≤ KERNBASE + PHYSTOP) (distinct : k.freelist.Nodup)
    (below : ∀ page ∈ k.freelist, page < vstart) :
    ∃ free, k.freerangeLoop p vend = .ok { k with freelist := free } ∧ free.Nodup ∧
      ∀ page, page ∈ free ↔
        page ∈ k.freelist ∨ page % PGSIZE = 0 ∧ vstart ≤ page ∧ page + PGSIZE ≤ vend := by
  unfold PGSIZE at aligned start
  fun_induction Kernel.freerangeLoop k p vend generalizing vstart with
  | case1 k p more ih =>
    have valid : Kernel.ValidPage k.kernelEnd p := by
      unfold Kernel.ValidPage PHYSTOP PGSIZE at *
      omega
    simp only [Kernel.kfree, if_pos valid, bind, Except.bind]
    unfold PGSIZE at *
    have next : vstart + 4096 ≤ p + 4096 ∧ p + 4096 < vstart + 4096 + 4096 := by omega
    obtain ⟨free, ran, nodup, members⟩ := ih { k with freelist := p :: k.freelist } (by omega) next
      (Nat.le_add_right_of_le above) (by grind) (by grind)
    exact ⟨free, ran, nodup, by grind⟩
  | case2 k p done =>
    unfold PGSIZE at *
    exact ⟨k.freelist, rfl, distinct, by grind⟩

/-- The end of what `entrypgdir` maps: `P2V(4*1024*1024)`. -/
def entryEnd : Nat := KERNBASE + 4 * 1024 * 1024

/-- `kinit1` leaves the pages that it is given, and if `main` takes all of them but `rest`, then
`kinit2` leaves these and the pages behind, each once. -/
theorem kinit_memory (entry : Memory) (empty : entry.pages = [])
    (linked : KERNBASE < entry.kernelEnd ∧ entry.kernelEnd ≤ entryEnd) :
    ∃ free, entry.boot.kernel.freerange entry.kernelEnd entryEnd =
        .ok { entry.boot.kernel with freelist := free } ∧
      (∀ page, page ∈ free ↔ Kernel.ValidPage entry.kernelEnd page ∧ page < entryEnd) ∧
      ∀ rest, rest.Sublist free → ∃ memory : Memory,
        Kernel.freerange { entry.boot.kernel with freelist := rest } entryEnd (KERNBASE + PHYSTOP) =
          .ok memory.boot.kernel ∧
        ∀ page, page ∈ memory.pages ↔
          Kernel.ValidPage entry.kernelEnd page ∧ (page < entryEnd → page ∈ rest) := by
  have start : ∀ v ≤ entryEnd, v ≤ PGROUNDUP v ∧ PGROUNDUP v < v + PGSIZE := by
    unfold PGROUNDUP entryEnd KERNBASE PGSIZE
    omega
  obtain ⟨free, ran, nodup, members⟩ := freerangeLoop_spec (k := entry.boot.kernel)
    (Nat.mul_mod_left _ _) (start _ linked.2) le_rfl (by decide : entryEnd ≤ _)
    (by simp [Memory.boot, empty]) (by simp [Memory.boot, empty])
  have early : ∀ page, page ∈ free ↔ Kernel.ValidPage entry.kernelEnd page ∧ page < entryEnd := by
    intro page
    rw [members, show entry.boot.kernel.freelist = [] from empty]
    unfold Kernel.ValidPage entryEnd KERNBASE PHYSTOP PGSIZE at *
    grind
  refine ⟨free, ran, early, fun rest part => ?_⟩
  have old := fun page (isIn : page ∈ rest) => (early page).mp (part.subset isIn)
  obtain ⟨pages, isRun, distinct, isPage⟩ := freerangeLoop_spec
    (k := { entry.boot.kernel with freelist := rest }) (Nat.mul_mod_left _ _) (start _ le_rfl)
    linked.2 le_rfl (nodup.sublist part) fun page isIn => (old page isIn).2
  have same : ∀ page, page ∈ pages ↔
      Kernel.ValidPage entry.kernelEnd page ∧ (page < entryEnd → page ∈ rest) := by
    intro page
    rw [isPage]
    unfold Kernel.ValidPage entryEnd KERNBASE PHYSTOP PGSIZE at *
    grind
  have valid := fun page isIn => ((same page).mp isIn).1
  exact ⟨⟨entry.kernelEnd, pages, entry.aboveNull, distinct, valid⟩, isRun, same⟩

def noPages : Memory where
  kernelEnd := 0x80116000
  pages := []
  aboveNull := by decide
  distinct := .nil
  valid := by simp

theorem kinit_memory_noPages : ∃ free, ∃ memory : Memory,
    noPages.boot.kernel.freerange noPages.kernelEnd entryEnd = .ok free ∧
      free.freerange entryEnd (KERNBASE + PHYSTOP) = .ok memory.boot.kernel ∧
      ∀ page, page ∈ memory.pages ↔ Kernel.ValidPage noPages.kernelEnd page := by
  obtain ⟨free, ran, early, later⟩ := kinit_memory noPages rfl (by decide)
  obtain ⟨memory, isRun, pages⟩ := later free (List.Sublist.refl _)
  exact ⟨_, memory, ran, isRun, by grind⟩

end Xv6.Syscall
