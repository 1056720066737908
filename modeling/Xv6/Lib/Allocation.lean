import Mathlib

/-!
Contract: units of storage that are each owned by one key at most, and a map of
the units in use that is exact.

Unit 0 is reserved, so a key that owns nothing is said to own unit 0.
-/

namespace Xv6.Lib

open Function

/-- Every key owns a unit below `size` that is not reserved, or none; no unit has two
owners; the units in use are the reserved ones and the owned ones. -/
structure Exact {Key : Type} (reserved : Nat → Prop) (size : Nat) (own : Key → Nat)
    (used : Nat → Bool) : Prop where
  zero : reserved 0
  inRange : ∀ key, own key ≠ 0 → ¬ reserved (own key) ∧ own key < size
  single : ∀ first second, own first ≠ 0 → own first = own second → first = second
  exact : ∀ unit, unit < size →
    (used unit = true ↔ reserved unit ∨ ∃ key, own key ≠ 0 ∧ own key = unit)

namespace Exact

variable {Key : Type} {reserved : Nat → Prop} {size : Nat} {own : Key → Nat}
  {used : Nat → Bool}

theorem used_own (exact : Exact reserved size own used) {key : Key} (owns : own key ≠ 0) :
    used (own key) = true :=
  (exact.exact _ (exact.inRange key owns).2).mpr (Or.inr ⟨key, owns, rfl⟩)

/-- A unit that is not in use is nobody's. -/
theorem of_unused (exact : Exact reserved size own used) {unit : Nat} (inside : unit < size)
    (unused : used unit = false) : unit ≠ 0 ∧ ¬ reserved unit ∧ ∀ key, own key ≠ unit := by
  have notUsed : ¬ (reserved unit ∨ ∃ key, own key ≠ 0 ∧ own key = unit) := by
    rw [← exact.exact unit inside, unused]
    exact Bool.false_ne_true
  have nonzero : unit ≠ 0 := by
    intro isZero
    exact notUsed (Or.inl (isZero ▸ exact.zero))
  refine ⟨nonzero, fun isReserved => notUsed (Or.inl isReserved), fun key owns => ?_⟩
  exact notUsed (Or.inr ⟨key, owns ▸ nonzero, owns⟩)

variable [DecidableEq Key]

/-- A key that owns nothing gets a unit that is not in use. -/
theorem alloc (exact : Exact reserved size own used) {key : Key} {unit : Nat}
    (nothing : own key = 0) (inside : unit < size) (unused : used unit = false) :
    Exact reserved size (update own key unit) (update used unit true) := by
  obtain ⟨nonzero, notReserved, notOwned⟩ := exact.of_unused inside unused
  have others : ∀ other, other ≠ key → update own key unit other = own other :=
    fun other different => update_of_ne different unit own
  constructor
  · exact exact.zero
  · intro other owns
    by_cases same : other = key
    · rw [same, update_self]
      exact ⟨notReserved, inside⟩
    · rw [others other same] at owns ⊢
      exact exact.inRange other owns
  · intro first second owns equal
    by_cases isFirst : first = key
    · by_cases isSecond : second = key
      · rw [isFirst, isSecond]
      · rw [isFirst, update_self, others second isSecond] at equal
        exact absurd equal.symm (notOwned second)
    · rw [others first isFirst] at owns equal
      by_cases isSecond : second = key
      · rw [isSecond, update_self] at equal
        exact absurd equal (notOwned first)
      · rw [others second isSecond] at equal
        exact exact.single first second owns equal
  · intro other below
    by_cases same : other = unit
    · rw [same, update_self]
      refine ⟨fun _ => Or.inr ⟨key, ?_⟩, fun _ => rfl⟩
      rw [update_self]
      exact ⟨nonzero, rfl⟩
    · rw [update_of_ne same, exact.exact other below]
      constructor
      · intro inUse
        apply inUse.imp_right
        intro ⟨owner, owns, isOther⟩
        refine ⟨owner, ?_⟩
        have notKey : owner ≠ key := fun isKey => owns (isKey ▸ nothing)
        rw [others owner notKey]
        exact ⟨owns, isOther⟩
      · intro inUse
        apply inUse.imp_right
        intro ⟨owner, owns, isOther⟩
        by_cases isKey : owner = key
        · rw [isKey, update_self] at isOther
          exact absurd isOther.symm same
        · rw [others owner isKey] at owns isOther
          exact ⟨owner, owns, isOther⟩

/-- A key gives its unit back. -/
theorem free (exact : Exact reserved size own used) {key : Key} (owns : own key ≠ 0) :
    Exact reserved size (update own key 0) (update used (own key) false) := by
  have others : ∀ other, other ≠ key → update own key 0 other = own other :=
    fun other different => update_of_ne different 0 own
  have still : ∀ other, update own key 0 other ≠ 0 →
      other ≠ key ∧ update own key 0 other = own other := by
    intro other stillOwns
    have notKey : other ≠ key := by
      intro isKey
      rw [isKey, update_self] at stillOwns
      exact stillOwns rfl
    exact ⟨notKey, others other notKey⟩
  constructor
  · exact exact.zero
  · intro other stillOwns
    obtain ⟨-, same⟩ := still other stillOwns
    rw [same] at stillOwns ⊢
    exact exact.inRange other stillOwns
  · intro first second stillOwns equal
    obtain ⟨-, same⟩ := still first stillOwns
    rw [same] at stillOwns equal
    by_cases isSecond : second = key
    · rw [isSecond, update_self] at equal
      exact absurd equal stillOwns
    · rw [others second isSecond] at equal
      exact exact.single first second stillOwns equal
  · intro other below
    by_cases freed : other = own key
    · rw [freed, update_self]
      refine ⟨fun inUse => absurd inUse Bool.false_ne_true, fun inUse => ?_⟩
      rcases inUse with isReserved | ⟨owner, stillOwns, isUnit⟩
      · exact absurd isReserved (exact.inRange key owns).1
      · obtain ⟨notKey, same⟩ := still owner stillOwns
        rw [same] at isUnit
        exact absurd (exact.single key owner owns isUnit.symm).symm notKey
    · rw [update_of_ne freed, exact.exact other below]
      constructor
      · intro inUse
        apply inUse.imp_right
        intro ⟨owner, ownerOwns, isOther⟩
        have notKey : owner ≠ key := fun isKey => freed (isOther ▸ isKey ▸ rfl)
        refine ⟨owner, ?_⟩
        rw [others owner notKey]
        exact ⟨ownerOwns, isOther⟩
      · intro inUse
        apply inUse.imp_right
        intro ⟨owner, stillOwns, isOther⟩
        obtain ⟨-, same⟩ := still owner stillOwns
        rw [same] at stillOwns isOther
        exact ⟨owner, stillOwns, isOther⟩

end Exact

end Xv6.Lib
