import Mathlib

/-!
Contract: singly linked lists in a store, given by the successor function of
their cells.
-/

namespace Xv6.Lib

open Function

section

variable {Cell : Type}

/-- Following `next` from `start` visits `cells` and then arrives at `stop`. -/
def Segment (next : Cell → Cell) : Cell → List Cell → Cell → Prop
  | start, [], stop => start = stop
  | start, cell :: rest, stop => start = cell ∧ Segment next (next cell) rest stop

/-- A null-terminated list with cells `cells`. -/
def Chain (next : Cell → Cell) (null start : Cell) (cells : List Cell) : Prop :=
  Segment next start cells null ∧ null ∉ cells

variable {next next' : Cell → Cell} {null start middle stop : Cell}

theorem Segment.append {first second : List Cell} :
    Segment next start (first ++ second) stop ↔
      ∃ middle, Segment next start first middle ∧ Segment next middle second stop := by
  induction first generalizing start with
  | nil => simp [Segment]
  | cons cell rest ih =>
    simp only [List.cons_append, Segment, ih]
    constructor
    · rintro ⟨same, middle, left, right⟩
      exact ⟨middle, ⟨same, left⟩, right⟩
    · rintro ⟨middle, ⟨same, left⟩, right⟩
      exact ⟨same, middle, left, right⟩

variable {cells : List Cell}

theorem Segment.snoc {last : Cell} :
    Segment next start (cells ++ [last]) stop ↔
      Segment next start cells last ∧ next last = stop := by
  rw [Segment.append]
  simp [Segment]

/-- Stores outside the cells of a segment leave it alone. -/
theorem Segment.frame (segment : Segment next start cells stop)
    (same : ∀ cell ∈ cells, next' cell = next cell) : Segment next' start cells stop := by
  induction cells generalizing start with
  | nil => exact segment
  | cons cell rest ih =>
    refine ⟨segment.1, ?_⟩
    rw [same cell List.mem_cons_self]
    exact ih segment.2 fun other member =>
      same other (List.mem_cons_of_mem cell member)

theorem Chain.frame (chain : Chain next null start cells)
    (same : ∀ cell ∈ cells, next' cell = next cell) : Chain next' null start cells :=
  ⟨chain.1.frame same, chain.2⟩

theorem Chain.start_eq_null (chain : Chain next null start cells) : start = null ↔ cells = [] := by
  cases cells with
  | nil => exact ⟨fun _ => rfl, fun _ => chain.1⟩
  | cons cell rest =>
    have different : null ≠ cell := fun same => chain.2 (same ▸ List.mem_cons_self)
    have here : start = cell := chain.1.1
    simp [here, different.symm]

/-- A list cell determines the list that starts at it. -/
theorem Chain.unique {first second : List Cell} (left : Chain next null start first)
    (right : Chain next null start second) : first = second := by
  induction first generalizing start second with
  | nil => exact (right.start_eq_null.mp left.1).symm
  | cons cell rest ih =>
    cases second with
    | nil => exact left.start_eq_null.mp right.1
    | cons cell' rest' =>
      have same : cell = cell' := left.1.1.symm.trans right.1.1
      subst same
      have tails : rest = rest' :=
        ih ⟨left.1.2, fun member => left.2 (List.mem_cons_of_mem _ member)⟩
          ⟨right.1.2, fun member => right.2 (List.mem_cons_of_mem _ member)⟩
      rw [tails]

theorem Chain.suffix {first second : List Cell} {cell : Cell}
    (chain : Chain next null start (first ++ cell :: second)) :
    Chain next null cell (cell :: second) := by
  obtain ⟨middle, -, rest⟩ := Segment.append.mp chain.1
  have here : middle = cell := rest.1
  subst here
  exact ⟨rest, fun member => chain.2 (List.mem_append_right first member)⟩

/-- A null-terminated list has no cycle. -/
theorem Chain.nodup (chain : Chain next null start cells) : cells.Nodup := by
  induction cells generalizing start with
  | nil => exact List.nodup_nil
  | cons cell rest ih =>
    have tail : Chain next null (next cell) rest :=
      ⟨chain.1.2, fun member => chain.2 (List.mem_cons_of_mem cell member)⟩
    refine List.nodup_cons.mpr ⟨?_, ih tail⟩
    intro again
    -- the list from the second occurrence is both `rest`'s suffix and the whole list
    obtain ⟨before, after, split⟩ := List.append_of_mem again
    have whole : Chain next null cell (cell :: rest) := chain.1.1 ▸ chain
    have later : Chain next null cell (cell :: after) := (split ▸ tail).suffix
    have same : rest = after := (List.cons.inj (whole.unique later)).2
    have shorter := congrArg List.length split
    rw [same, List.length_append, List.length_cons] at shorter
    omega

section

variable [DecidableEq Cell]

/-- Link a fresh cell behind the last one and terminate it. -/
theorem Chain.append_tail {last fresh : Cell} (chain : Chain next null start (cells ++ [last]))
    (notNull : fresh ≠ null) (isFresh : fresh ∉ cells ++ [last]) :
    Chain (update (update next last fresh) fresh null) null start
      (cells ++ [last, fresh]) := by
  have distinct : last ≠ fresh := fun same => isFresh (by simp [same])
  have unique : last ∉ cells := by
    have nodup := chain.nodup
    rw [List.nodup_append] at nodup
    exact fun member => nodup.2.2 last member last List.mem_cons_self rfl
  have front : Segment (update (update next last fresh) fresh null) start cells
      last := by
    refine (Segment.snoc.mp chain.1).1.frame fun cell member => ?_
    have notLast : cell ≠ last := fun same => unique (same ▸ member)
    have notFresh : cell ≠ fresh := fun same => isFresh (by simp [same ▸ member])
    rw [update_of_ne notFresh, update_of_ne notLast]
  constructor
  · rw [Segment.append]
    refine ⟨last, front, rfl, ?_, ?_⟩
    · rw [update_of_ne distinct, update_self]
    · exact update_self ..
  · intro member
    rcases List.mem_append.mp member with inCells | inTail
    · exact chain.2 (List.mem_append_left _ inCells)
    · rcases List.mem_cons.mp inTail with isLast | isFresh
      · exact chain.2 (by simp [isLast])
      · exact notNull (List.mem_singleton.mp isFresh).symm

end

end

end Xv6.Lib
