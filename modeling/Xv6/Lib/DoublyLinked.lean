import Mathlib

/-!
Contract: rings of nodes that are linked in both directions through a head.

A link is `none` for the head of the ring and `some` for a node. The operations are
sequences of stores to the link fields, and the nodes of a ring are a list.
-/

namespace Xv6.Lib

open Function

/-- The link fields of the head and of all nodes. -/
structure Links (Node : Type) where
  next : Option Node → Option Node
  prev : Option Node → Option Node

namespace Links

variable {Node : Type}

/-- Following `next` from `a` visits the nodes of the list and then arrives at `b`, and
`prev` leads back. -/
def Segment (links : Links Node) (a : Option Node) : List Node → Option Node → Prop
  | [], b => links.next a = b ∧ links.prev b = a
  | n :: rest, b => links.next a = some n ∧ links.prev (some n) = a ∧ links.Segment (some n) rest b

/-- The nodes of the ring, from the head on, each once. -/
structure Ring (links : Links Node) (nodes : List Node) : Prop where
  nodup : nodes.Nodup
  segment : links.Segment none nodes none

variable {links links' : Links Node} {a b : Option Node} {first second nodes : List Node} {n : Node}

theorem segment_append :
    links.Segment a (first ++ n :: second) b ↔
      links.Segment a first (some n) ∧ links.Segment (some n) second b := by
  induction first generalizing a with
  | nil => exact and_assoc.symm
  | cons m rest ih =>
    simp only [List.cons_append, Segment, ih, and_assoc]

theorem Segment.congr (segment : links.Segment a nodes b)
    (next : ∀ x, x = a ∨ (∃ m ∈ nodes, x = some m) → links'.next x = links.next x)
    (prev : ∀ x, x = b ∨ (∃ m ∈ nodes, x = some m) → links'.prev x = links.prev x) :
    links'.Segment a nodes b := by
  induction nodes generalizing a with
  | nil =>
    refine ⟨?_, ?_⟩
    · rw [next a (Or.inl rfl), segment.1]
    · rw [prev b (Or.inl rfl), segment.2]
  | cons m rest ih =>
    obtain ⟨isNext, isPrev, segment⟩ := segment
    refine ⟨?_, ?_, ih segment ?_ ?_⟩
    · rw [next a (Or.inl rfl), isNext]
    · rw [prev _ (Or.inr ⟨m, List.mem_cons_self, rfl⟩), isPrev]
    · rintro x (rfl | ⟨k, member, rfl⟩)
      · exact next _ (Or.inr ⟨m, List.mem_cons_self, rfl⟩)
      · exact next _ (Or.inr ⟨k, List.mem_cons_of_mem m member, rfl⟩)
    · rintro x (rfl | ⟨k, member, rfl⟩)
      · exact prev _ (Or.inl rfl)
      · exact prev _ (Or.inr ⟨k, List.mem_cons_of_mem m member, rfl⟩)

/-- The last link of a segment. -/
theorem Segment.prev_end (segment : links.Segment a nodes b) :
    links.prev b = a ∧ nodes = [] ∨ ∃ m ∈ nodes, links.prev b = some m := by
  induction nodes generalizing a with
  | nil => exact Or.inl ⟨segment.2, rfl⟩
  | cons m rest ih =>
    right
    rcases ih segment.2.2 with ⟨isPrev, -⟩ | ⟨k, member, isPrev⟩
    · exact ⟨m, List.mem_cons_self, isPrev⟩
    · exact ⟨k, List.mem_cons_of_mem m member, isPrev⟩

theorem Segment.next_prev (segment : links.Segment a nodes b) : links.next (links.prev b) = b := by
  induction nodes generalizing a with
  | nil => rw [segment.2, segment.1]
  | cons m rest ih => exact ih segment.2.2

theorem Segment.prev_next (segment : links.Segment a nodes b) : links.prev (links.next a) = a := by
  cases nodes with
  | nil => rw [segment.1, segment.2]
  | cons m rest => rw [segment.1, segment.2.1]

/-- In a ring the two directions are inverse to each other. -/
theorem Ring.inverse (ring : links.Ring nodes) {x : Option Node} (member : ∀ m, x = some m → m ∈ nodes) :
    links.prev (links.next x) = x ∧ links.next (links.prev x) = x := by
  cases x with
  | none => exact ⟨ring.segment.prev_next, ring.segment.next_prev⟩
  | some m =>
    obtain ⟨before, after, rfl⟩ := List.append_of_mem (member m rfl)
    obtain ⟨left, right⟩ := segment_append.mp ring.segment
    exact ⟨right.prev_next, left.next_prev⟩

variable [DecidableEq Node]

def setNext (links : Links Node) (x value : Option Node) : Links Node :=
  { links with next := update links.next x value }

def setPrev (links : Links Node) (x value : Option Node) : Links Node :=
  { links with prev := update links.prev x value }

/-- The head is linked to itself. -/
def reset (links : Links Node) : Links Node := (links.setPrev none none).setNext none none

/-- The node `n` is linked in after the head. -/
def insert (links : Links Node) (n : Node) : Links Node :=
  let links := links.setNext (some n) (links.next none)
  let links := links.setPrev (some n) none
  let links := links.setPrev (links.next none) (some n)
  links.setNext none (some n)

/-- The neighbours of the node `n` are linked to each other. -/
def unlink (links : Links Node) (n : Node) : Links Node :=
  let links := links.setPrev (links.next (some n)) (links.prev (some n))
  links.setNext (links.prev (some n)) (links.next (some n))

theorem reset_ring (links : Links Node) : links.reset.Ring [] :=
  ⟨List.nodup_nil, by simp [Segment, reset, setNext, setPrev]⟩

/-- The end of a segment is moved to `c`. -/
private theorem Segment.redirect {c : Option Node} {next prev : Option Node → Option Node}
    (segment : links.Segment a nodes b) (nodup : nodes.Nodup)
    (start : ∀ m ∈ nodes, a ≠ some m) (free : ∀ m ∈ nodes, c ≠ some m)
    (isNext : next = update links.next (links.prev b) c)
    (isPrev : prev = update links.prev c (links.prev b)) :
    Segment ⟨next, prev⟩ a nodes c := by
  induction nodes generalizing a with
  | nil =>
    rw [Segment, isNext, isPrev, segment.2]
    exact ⟨update_self _ _ _, update_self _ _ _⟩
  | cons m rest ih =>
    obtain ⟨first, back, segment⟩ := segment
    obtain ⟨fresh, nodup⟩ := List.nodup_cons.mp nodup
    have notFirst : a ≠ links.prev b := by
      rcases segment.prev_end with ⟨isPrev, -⟩ | ⟨k, member, isPrev⟩
      · rw [isPrev]
        exact start m List.mem_cons_self
      · rw [isPrev]
        exact start k (List.mem_cons_of_mem m member)
    refine ⟨?_, ?_, ih segment nodup ?_ ?_⟩
    · simp only [isNext, update_of_ne notFirst, first]
    · simp only [isPrev, update_of_ne (Ne.symm (free m List.mem_cons_self)), back]
    · intro k member same
      exact fresh (Option.some.inj same ▸ member)
    · exact fun k member => free k (List.mem_cons_of_mem m member)

theorem Ring.insert (ring : links.Ring nodes) (fresh : n ∉ nodes) :
    (links.insert n).Ring (n :: nodes) := by
  have isNext : (links.insert n).next =
      update (update links.next (some n) (links.next none)) none (some n) := rfl
  have isPrev : (links.insert n).prev =
      update (update links.prev (some n) none) (links.next none) (some n) := by
    simp only [Links.insert, setNext, setPrev, update_of_ne (Option.some_ne_none n).symm]
  have notFirst : links.next none ≠ some n := by
    intro first
    cases nodes with
    | nil => exact absurd (ring.segment.1.symm.trans first) (Option.some_ne_none n).symm
    | cons m rest =>
      have same := Option.some.inj (ring.segment.1.symm.trans first)
      exact fresh (same ▸ List.mem_cons_self)
  refine ⟨List.nodup_cons.mpr ⟨fresh, ring.nodup⟩, ?_, ?_, ?_⟩
  · rw [isNext, update_self]
  · rw [isPrev, update_of_ne (Ne.symm notFirst), update_self]
  · cases nodes with
    | nil =>
      have first : links.next none = none := ring.segment.1
      refine ⟨?_, ?_⟩
      · rw [isNext, update_of_ne (Option.some_ne_none n), update_self, first]
      · rw [isPrev, first, update_self]
    | cons m rest =>
      obtain ⟨first, -, segment⟩ := ring.segment
      obtain ⟨unlike, -⟩ := List.nodup_cons.mp ring.nodup
      rw [first] at isNext isPrev
      refine ⟨?_, ?_, segment.congr ?_ ?_⟩
      · rw [isNext, update_of_ne (Option.some_ne_none n), update_self]
      · rw [isPrev, update_self]
      · -- the nodes behind `m` are neither the head nor `n`
        rintro x at_
        have known : ∃ k ∈ m :: rest, x = some k := by
          rcases at_ with rfl | ⟨k, member, rfl⟩
          · exact ⟨m, List.mem_cons_self, rfl⟩
          · exact ⟨k, List.mem_cons_of_mem m member, rfl⟩
        obtain ⟨k, member, rfl⟩ := known
        have other : some k ≠ some n := fun same => fresh (Option.some.inj same ▸ member)
        rw [isNext, update_of_ne (Option.some_ne_none k), update_of_ne other]
      · rintro x at_
        have notNew : x ≠ some n := by
          rcases at_ with rfl | ⟨k, member, rfl⟩
          · exact (Option.some_ne_none n).symm
          · exact fun same => fresh (Option.some.inj same ▸ List.mem_cons_of_mem m member)
        have notFirst : x ≠ some m := by
          rcases at_ with rfl | ⟨k, member, rfl⟩
          · exact (Option.some_ne_none m).symm
          · exact fun same => unlike (Option.some.inj same ▸ member)
        rw [isPrev, update_of_ne notFirst, update_of_ne notNew]

theorem Ring.unlink (ring : links.Ring nodes) (member : n ∈ nodes) :
    (links.unlink n).Ring (nodes.erase n) := by
  obtain ⟨before, after, rfl⟩ := List.append_of_mem member
  obtain ⟨left, right⟩ := segment_append.mp ring.segment
  obtain ⟨nodupLeft, nodupRight, apart⟩ := List.nodup_append.mp ring.nodup
  obtain ⟨fresh, nodupAfter⟩ := List.nodup_cons.mp nodupRight
  have notBefore : n ∉ before := fun isBefore => apart n isBefore n List.mem_cons_self rfl
  have notNext : links.next (some n) ≠ some n := by
    intro same
    cases after with
    | nil => exact absurd (right.1.symm.trans same) (Option.some_ne_none n).symm
    | cons m rest =>
      exact fresh (Option.some.inj (right.1.symm.trans same) ▸ List.mem_cons_self)
  have isLinks : links.unlink n =
      ⟨update links.next (links.prev (some n)) (links.next (some n)),
        update links.prev (links.next (some n)) (links.prev (some n))⟩ := by
    simp only [Links.unlink, setNext, setPrev, update_of_ne (Ne.symm notNext)]
  have nodes : (before ++ n :: after).erase n = before ++ after := by
    rw [List.erase_append_right _ notBefore, List.erase_cons_head]
  have free : ∀ m ∈ before, links.next (some n) ≠ some m := by
    intro m isBefore same
    cases after with
    | nil => exact absurd (right.1.symm.trans same) (Option.some_ne_none m).symm
    | cons k rest =>
      have isFirst := Option.some.inj (right.1.symm.trans same)
      exact apart m isBefore k (List.mem_cons_of_mem n List.mem_cons_self) isFirst.symm
  have redirected : (links.unlink n).Segment none before (links.next (some n)) := by
    rw [isLinks]
    exact left.redirect nodupLeft (fun m _ => (Option.some_ne_none m).symm) free rfl rfl
  refine ⟨ring.nodup.erase n, ?_⟩
  rw [nodes]
  cases after with
  | nil =>
    rw [right.1] at redirected
    rw [List.append_nil]
    exact redirected
  | cons k rest =>
    obtain ⟨first, -, segment⟩ := right
    obtain ⟨unlike, -⟩ := List.nodup_cons.mp nodupAfter
    rw [first] at redirected isLinks
    refine segment_append.mpr ⟨redirected, segment.congr ?_ ?_⟩
    · intro x at_
      have known : ∃ m ∈ k :: rest, x = some m := by
        rcases at_ with rfl | ⟨m, isRest, rfl⟩
        · exact ⟨k, List.mem_cons_self, rfl⟩
        · exact ⟨m, List.mem_cons_of_mem k isRest, rfl⟩
      obtain ⟨m, isAfter, rfl⟩ := known
      have other : some m ≠ links.prev (some n) := by
        rcases left.prev_end with ⟨isPrev, -⟩ | ⟨l, isBefore, isPrev⟩
        · rw [isPrev]
          exact Option.some_ne_none m
        · rw [isPrev]
          exact fun same => apart l isBefore m (List.mem_cons_of_mem n isAfter)
            (Option.some.inj same).symm
      rw [isLinks]
      exact update_of_ne other _ _
    · intro x at_
      have other : x ≠ some k := by
        rcases at_ with rfl | ⟨m, isRest, rfl⟩
        · exact (Option.some_ne_none k).symm
        · exact fun same => unlike (Option.some.inj same ▸ isRest)
      rw [isLinks]
      exact update_of_ne other _ _

/-- The first node from `x` on that passes the test, up to the head. `none` when the head
is not reached in this many steps. -/
def search (step : Option Node → Option Node) (test : Node → Bool) :
    Nat → Option Node → Option (Option Node)
  | _, none => some none
  | 0, some _ => none
  | fuel + 1, some n => if test n then some (some n) else search step test fuel (step (some n))

omit [DecidableEq Node] in
theorem Segment.search_next (segment : links.Segment a nodes none) (test : Node → Bool) :
    search links.next test nodes.length (links.next a) = some (nodes.find? test) := by
  induction nodes generalizing a with
  | nil =>
    rw [segment.1]
    rfl
  | cons m rest ih =>
    rw [segment.1, List.length_cons, search, List.find?_cons]
    by_cases passes : test m = true
    · rw [if_pos passes, passes]
    · rw [if_neg passes, ih segment.2.2]
      simp only [Bool.not_eq_true] at passes
      rw [passes]

omit [DecidableEq Node] in
theorem Segment.search_prev (segment : links.Segment none nodes b) (test : Node → Bool) :
    search links.prev test nodes.length (links.prev b) = some (nodes.reverse.find? test) := by
  induction nodes using List.reverseRecOn generalizing b with
  | nil =>
    rw [segment.2]
    rfl
  | append_singleton init m ih =>
    obtain ⟨left, right⟩ := segment_append.mp segment
    rw [right.2, List.length_append, List.length_singleton, search, List.reverse_append,
      List.reverse_singleton, List.singleton_append, List.find?_cons]
    by_cases passes : test m = true
    · rw [if_pos passes, passes]
    · rw [if_neg passes, ih left]
      simp only [Bool.not_eq_true] at passes
      rw [passes]

end Links

end Xv6.Lib
