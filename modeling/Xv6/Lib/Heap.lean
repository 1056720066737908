import Xv6.Lib.Chain

/-!
Contract: a heap of pages that each hold one list cell, and lists built in it by
appending freshly allocated pages at the tail.

Addresses are numbers and 0 is the null pointer. Loads and stores fail with the
address when it is not an allocated page.
-/

namespace Xv6.Lib

open Function

/-- The two halves of a sequence that succeeded. -/
theorem bind_eq_ok {Error Value Result : Type} {first : Except Error Value}
    {continuation : Value → Except Error Result} {result : Result} :
    first >>= continuation = .ok result ↔
      ∃ value, first = .ok value ∧ continuation value = .ok result := by
  cases first with
  | ok value => simp [bind, Except.bind]
  | error error => simp [bind, Except.bind]

/-- Cells with a successor field. `blank` is what a page holds when it is
allocated. -/
class Linked (Cell : Type) where
  next : Cell → Nat
  setNext : Nat → Cell → Cell
  blank : Cell
  next_setNext : ∀ link cell, next (setNext link cell) = link

structure Heap (Cell : Type) where
  cell : Nat → Cell
  pages : List Nat

namespace Heap

section

variable {Cell : Type}

def load (heap : Heap Cell) (addr : Nat) : Except Nat Cell :=
  if addr ∈ heap.pages then .ok (heap.cell addr) else .error addr

def store (heap : Heap Cell) (addr : Nat) (change : Cell → Cell) : Except Nat (Heap Cell) :=
  if addr ∈ heap.pages then
    .ok { heap with cell := update heap.cell addr (change (heap.cell addr)) }
  else .error addr

variable {heap : Heap Cell}

theorem load_eq {addr : Nat} (allocated : addr ∈ heap.pages) :
    heap.load addr = .ok (heap.cell addr) := if_pos allocated

theorem store_eq {addr : Nat} (allocated : addr ∈ heap.pages) (change : Cell → Cell) :
    heap.store addr change =
      .ok { heap with cell := update heap.cell addr (change (heap.cell addr)) } :=
  if_pos allocated

variable [Linked Cell]

/-- The allocator returned `page`; 0 means that it had none. -/
def grant (heap : Heap Cell) (page : Nat) : Heap Cell :=
  if page = 0 then heap
  else { cell := update heap.cell page Linked.blank, pages := page :: heap.pages }

variable {page : Nat}

theorem grant_eq (heap : Heap Cell) (nonzero : page ≠ 0) :
    heap.grant page =
      { cell := update heap.cell page Linked.blank, pages := page :: heap.pages } :=
  if_neg nonzero

def next (heap : Heap Cell) (addr : Nat) : Nat := Linked.next (heap.cell addr)

/-- A list of one page: its only cell is its last. -/
def start (heap : Heap Cell) (page : Nat) : Except Nat (Heap Cell) :=
  (heap.grant page).store page (Linked.setNext 0)

/-- Append `page` behind the cell `last`; the result names the new last cell. -/
def extend (heap : Heap Cell) (last page : Nat) : Except Nat (Heap Cell × Nat) := do
  let heap ← (heap.grant page).store last (Linked.setNext page)
  let heap ← heap.store (Linked.next (← heap.load last)) (Linked.setNext 0)
  pure (heap, Linked.next (← heap.load last))

/-- A null-terminated list of allocated pages. -/
structure IsList (heap : Heap Cell) (first : Nat) (cells : List Nat) : Prop where
  chain : Chain heap.next 0 first cells
  allocated : ∀ cell ∈ cells, cell ∈ heap.pages

/-- Following `next` from `first` arrives at `page` before the null pointer. -/
inductive Reaches (heap : Heap Cell) (page : Nat) : Nat → Prop where
  | here (notNull : page ≠ 0) : Reaches heap page page
  | later {first : Nat} (notNull : first ≠ 0) (rest : Reaches heap page (heap.next first)) :
      Reaches heap page first

variable {cells : List Nat}

/-- The cells of a list are reachable. -/
theorem reaches_of_chain {first : Nat} (chain : Chain heap.next 0 first cells)
    (member : page ∈ cells) : heap.Reaches page first := by
  induction cells generalizing first with
  | nil => cases member
  | cons cell rest ih =>
    obtain ⟨⟨here, segment⟩, notNull⟩ := chain
    rw [List.mem_cons, not_or] at notNull
    have nonzero : cell ≠ 0 := fun isNull => notNull.1 isNull.symm
    rcases List.mem_cons.mp member with isCell | inRest
    · rw [here, isCell]
      exact .here nonzero
    · rw [here]
      exact .later nonzero (ih ⟨segment, notNull.2⟩ inRest)

/-- Nothing outside a set of cells is reachable from it when `next` does not leave
it. -/
theorem Reaches.mem_of_closed {first : Nat} (reaches : heap.Reaches page first)
    (closed : ∀ cell ∈ cells, heap.next cell = 0 ∨ heap.next cell ∈ cells)
    (start : first = 0 ∨ first ∈ cells) : page ∈ cells := by
  induction reaches with
  | here notNull => exact start.resolve_left notNull
  | later notNull rest ih =>
    exact ih (closed _ (start.resolve_left notNull))

/-- Stores to other pages leave a list alone. -/
theorem IsList.frame {heap' : Heap Cell} {first : Nat} (list : heap.IsList first cells)
    (same : ∀ cell ∈ cells, heap'.cell cell = heap.cell cell)
    (kept : ∀ cell ∈ cells, cell ∈ heap'.pages) : heap'.IsList first cells where
  chain := list.chain.frame fun cell member => congrArg Linked.next (same cell member)
  allocated := kept

/-- What `start` does to the heap. -/
theorem start_spec (heap : Heap Cell) (nonzero : page ≠ 0) :
    ∃ after, heap.start page = .ok after ∧ after.IsList page [page] ∧
      after.pages = page :: heap.pages ∧
      ∀ addr, addr ≠ page → after.cell addr = heap.cell addr := by
  have held : page ∈ (heap.grant page).pages := by
    rw [grant_eq heap nonzero]
    exact List.mem_cons_self
  refine ⟨_, store_eq held _, ⟨⟨⟨rfl, ?_⟩, ?_⟩, ?_⟩, ?_, ?_⟩
  · simp [Segment, next, Linked.next_setNext]
  · exact fun isNull => nonzero (List.mem_singleton.mp isNull).symm
  · intro cell member
    rw [List.mem_singleton.mp member]
    exact held
  · rw [grant_eq heap nonzero]
  · intro addr other
    simp [grant_eq heap nonzero, update_of_ne other]

/-- What `extend` does to the heap when `last` ends a list. -/
theorem extend_spec {first last : Nat} (list : heap.IsList first (cells ++ [last]))
    (nonzero : page ≠ 0) (isFresh : page ∉ heap.pages) :
    ∃ after, heap.extend last page = .ok (after, page) ∧
      after.IsList first (cells ++ [last, page]) ∧ after.pages = page :: heap.pages ∧
      ∀ addr, addr ≠ page → addr ≠ last → after.cell addr = heap.cell addr := by
  have held : last ∈ heap.pages := list.allocated last (by simp)
  have distinct : last ≠ page := fun same => isFresh (same ▸ held)
  -- the three stores and the reads between them
  let linked : Nat → Cell := update (update heap.cell page Linked.blank) last
    (Linked.setNext page (heap.cell last))
  let final : Nat → Cell := update linked page (Linked.setNext 0 (linked page))
  have atLast : final last = Linked.setNext page (heap.cell last) := by
    simp [final, linked, update_of_ne distinct]
  have ran : heap.extend last page =
      .ok ({ cell := final, pages := page :: heap.pages }, page) := by
    have first : (heap.grant page).store last (Linked.setNext page) =
        .ok { cell := linked, pages := page :: heap.pages } := by
      rw [grant_eq heap nonzero, store_eq (List.mem_cons_of_mem page held)]
      simp [linked, update_of_ne distinct]
    have second : store ⟨linked, page :: heap.pages⟩ page (Linked.setNext 0) =
        .ok { cell := final, pages := page :: heap.pages } := store_eq List.mem_cons_self _
    have load : ∀ cell : Nat → Cell, Heap.load ⟨cell, page :: heap.pages⟩ last = .ok (cell last) :=
      fun _ => load_eq (List.mem_cons_of_mem page held)
    have read : Linked.next (linked last) = page := by
      simp [linked, Linked.next_setNext]
    have readAgain : Linked.next (final last) = page := by
      rw [atLast, Linked.next_setNext]
    simp only [extend, first, second, load, read, readAgain, bind, Except.bind, pure, Except.pure]
  have same : ∀ addr, addr ≠ page → addr ≠ last → final addr = heap.cell addr := by
    intro addr notPage notLast
    simp [final, linked, update_of_ne notPage, update_of_ne notLast]
  refine ⟨_, ran, ⟨?_, ?_⟩, rfl, same⟩
  · have fresh : page ∉ cells ++ [last] := fun member => isFresh (list.allocated page member)
    apply (list.chain.append_tail nonzero fresh).frame
    intro addr _
    show Linked.next (final addr) = _
    by_cases isPage : addr = page
    · subst isPage
      rw [update_self]
      simp [final, Linked.next_setNext]
    · rw [update_of_ne isPage]
      by_cases isLast : addr = last
      · rw [isLast, atLast, Linked.next_setNext, update_self]
      · rw [update_of_ne isLast, same addr isPage isLast]
        rfl
  · intro cell member
    rw [List.append_cons, List.mem_append] at member
    rcases member with old | isPage
    · exact List.mem_cons_of_mem page (list.allocated cell old)
    · rw [List.mem_singleton.mp isPage]
      exact List.mem_cons_self

end

end Heap

end Xv6.Lib
