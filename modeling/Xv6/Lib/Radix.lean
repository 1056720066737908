import Mathlib

/-!
Contract: trees whose nodes are pages of a memory, and which pages they own.

A page has words, and a word can lead to another page. The shape of a tree says which pages
are inner nodes; the words of a leaf lead nowhere, whatever they are. `owned` counts a page
as often as the tree leads to it. If no page is counted twice, a write to one word of an
inner node exchanges the branch behind the old word for the one behind the new word, and
a change of any page only what is below it.
-/

namespace Xv6.Lib

open Function

/-- `leaf` is a page whose words are not looked at. -/
inductive Shape (Index : Type) where
  | leaf
  | node (child : Index → Shape Index)

section

variable {Page Index Word : Type} [Fintype Index] (next : Word → Option Page)

/-- The pages of the tree at `page`. -/
def owned (mem : Page → Index → Word) : Shape Index → Page → Multiset Page
  | .leaf, page => {page}
  | .node child, page =>
    {page} + ∑ i, match next (mem page i) with
      | none => 0
      | some below => owned mem (child i) below

/-- The pages behind a word. -/
def branch (mem : Page → Index → Word) (shape : Shape Index) (word : Word) : Multiset Page :=
  match next word with
  | none => 0
  | some below => owned next mem shape below

variable {next} {mem mem' : Page → Index → Word} {shape sub : Shape Index} {child : Index → Shape Index}
  {page below : Page} {word : Word}

theorem owned_leaf : owned next mem .leaf page = {page} := rfl

theorem owned_node : owned next mem (.node child) page =
    {page} + ∑ i, branch next mem (child i) (mem page i) := rfl

-- a tree with many branches is never to be unfolded by the unifier
attribute [irreducible] owned

theorem branch_none (mem : Page → Index → Word) (shape : Shape Index) (absent : next word = none) :
    branch next mem shape word = 0 := by
  rw [branch, absent]

theorem branch_some (mem : Page → Index → Word) (shape : Shape Index) (leads : next word = some below) :
    branch next mem shape word = owned next mem shape below := by
  rw [branch, leads]

theorem mem_owned_self : page ∈ owned next mem shape page := by
  cases shape with
  | leaf =>
    rw [owned_leaf]
    exact Multiset.mem_singleton_self page
  | node child =>
    rw [owned_node]
    exact Multiset.mem_add.mpr (Or.inl (Multiset.mem_singleton_self page))

theorem branch_le (i : Index) :
    branch next mem (child i) (mem page i) ≤ owned next mem (.node child) page := by
  rw [owned_node]
  refine le_trans ?_ (Multiset.le_add_left _ _)
  exact Finset.single_le_sum (f := fun j => branch next mem (child j) (mem page j))
    (fun _ _ => Multiset.zero_le _) (Finset.mem_univ i)

/-- Only the words of pages of the tree are looked at. -/
theorem owned_congr (same : ∀ other ∈ owned next mem shape page, mem' other = mem other) :
    owned next mem' shape page = owned next mem shape page := by
  induction shape generalizing page with
  | leaf => rw [owned_leaf, owned_leaf]
  | node child ih =>
    have here : mem' page = mem page := same page mem_owned_self
    rw [owned_node, owned_node, here]
    congr 1
    refine Finset.sum_congr rfl fun i _ => ?_
    cases leads : next (mem page i) with
    | none => rw [branch_none _ _ leads, branch_none _ _ leads]
    | some below =>
      rw [branch_some _ _ leads, branch_some _ _ leads]
      refine ih i fun other isOther => same other ?_
      rw [← branch_some mem (child i) leads] at isOther
      exact Multiset.mem_of_le (branch_le i) isOther

theorem branch_congr (same : ∀ other ∈ branch next mem shape word, mem' other = mem other) :
    branch next mem' shape word = branch next mem shape word := by
  cases leads : next word with
  | none => rw [branch_none _ _ leads, branch_none _ _ leads]
  | some below =>
    rw [branch_some _ _ leads] at same ⊢
    rw [branch_some _ _ leads]
    exact owned_congr same

section

variable (distinct : (owned next mem (.node child) page).Nodup)

include distinct

/-- What a node that counts no page twice says of its branches. -/
theorem branches_apart {i j : Index} (different : i ≠ j) :
    Disjoint (branch next mem (child i) (mem page i)) (branch next mem (child j) (mem page j)) := by
  classical
  rw [owned_node] at distinct
  have all := (Multiset.nodup_add.mp distinct).2.1
  rw [← Finset.add_sum_erase Finset.univ _ (Finset.mem_univ i)] at all
  refine (Multiset.nodup_add.mp all).2.2.mono_right ?_
  exact Finset.single_le_sum (f := fun k => branch next mem (child k) (mem page k))
    (fun _ _ => Multiset.zero_le _) (Finset.mem_erase.mpr ⟨different.symm, Finset.mem_univ j⟩)

theorem root_notMem_branch (i : Index) : page ∉ branch next mem (child i) (mem page i) := by
  intro isBelow
  rw [owned_node] at distinct
  have apart := (Multiset.nodup_add.mp distinct).2.2
  refine Multiset.disjoint_left.mp apart (Multiset.mem_singleton_self page) ?_
  exact Multiset.mem_sum.mpr ⟨i, Finset.mem_univ i, isBelow⟩

theorem child_ne_root {i : Index} (leads : next (mem page i) = some below) : below ≠ page := by
  rintro rfl
  refine root_notMem_branch distinct i ?_
  rw [branch_some _ _ leads]
  exact mem_owned_self

theorem children_ne {i j : Index} {other : Page}
    (different : i ≠ j) (first : next (mem page i) = some below) (second : next (mem page j) = some other) :
    below ≠ other := by
  rintro rfl
  have apart := branches_apart distinct different
  rw [branch_some _ _ first, branch_some _ _ second] at apart
  exact Multiset.disjoint_left.mp apart mem_owned_self mem_owned_self

end

/-- In the tree of `shape` at `page`, the page `below` is the root of a tree of shape `sub`. -/
inductive Within (next : Word → Option Page) (mem : Page → Index → Word) :
    Shape Index → Page → Shape Index → Page → Prop where
  | root {shape : Shape Index} {page : Page} : Within next mem shape page shape page
  | step {child : Index → Shape Index} {page middle : Page} {i : Index} {sub : Shape Index} {below : Page}
      (leads : next (mem page i) = some middle) (within : Within next mem (child i) middle sub below) :
      Within next mem (.node child) page sub below

theorem Within.le (within : Within next mem shape page sub below) :
    owned next mem sub below ≤ owned next mem shape page := by
  induction within with
  | root => exact le_rfl
  | step leads _ ih =>
    refine ih.trans ?_
    rw [← branch_some mem _ leads]
    exact branch_le _

theorem Within.mem_owned (within : Within next mem shape page sub below) :
    below ∈ owned next mem shape page :=
  Multiset.mem_of_le within.le mem_owned_self

/-- One term of a sum is exchanged. -/
theorem sum_exchange {M : Type} [AddCommMonoid M] (f f' : Index → M) (k : Index)
    (same : ∀ j, j ≠ k → f' j = f j) : ∑ j, f' j + f k = ∑ j, f j + f' k := by
  classical
  rw [← Finset.add_sum_erase Finset.univ f' (Finset.mem_univ k),
    ← Finset.add_sum_erase Finset.univ f (Finset.mem_univ k)]
  have rest : ∑ j ∈ Finset.univ.erase k, f' j = ∑ j ∈ Finset.univ.erase k, f j :=
    Finset.sum_congr rfl fun j isOther => same j (Finset.ne_of_mem_erase isOther)
  rw [rest]
  abel

/-- A page of the tree changes: the tree below it is exchanged. -/
theorem owned_exchange (distinct : (owned next mem shape page).Nodup)
    (within : Within next mem shape page sub below) (same : ∀ other, other ≠ below → mem' other = mem other) :
    owned next mem' shape page + owned next mem sub below =
      owned next mem shape page + owned next mem' sub below := by
  induction within with
  | root => exact add_comm _ _
  | step leads within ih =>
    rename_i child root middle k sub inner
    have ofMiddle : (owned next mem (child k) middle).Nodup := by
      rw [← branch_some mem (child k) leads]
      exact Multiset.nodup_of_le (branch_le k) distinct
    have inBranch : inner ∈ branch next mem (child k) (mem root k) := by
      rw [branch_some _ _ leads]
      exact within.mem_owned
    have notRoot : root ≠ inner := by
      rintro rfl
      exact root_notMem_branch distinct k inBranch
    have others : ∀ j, j ≠ k →
        branch next mem' (child j) (mem root j) = branch next mem (child j) (mem root j) := by
      intro j different
      refine branch_congr fun other isOther => same other ?_
      rintro rfl
      exact Multiset.disjoint_left.mp (branches_apart distinct different) isOther inBranch
    have ofBranch := ih ofMiddle same
    have exchanged := sum_exchange (fun j => branch next mem (child j) (mem root j))
      (fun j => branch next mem' (child j) (mem root j)) k others
    simp only [branch_some _ _ leads] at exchanged
    rw [owned_node, owned_node, same root notRoot, add_assoc, add_assoc]
    congr 1
    refine add_right_cancel (b := owned next mem (child k) middle) ?_
    calc _ = (∑ j, branch next mem' (child j) (mem root j) + owned next mem (child k) middle) +
            owned next mem sub inner := by abel
      _ = ∑ j, branch next mem (child j) (mem root j) +
            (owned next mem' (child k) middle + owned next mem sub inner) := by
          rw [exchanged, add_assoc]
      _ = _ := by
          rw [ofBranch]
          abel

section

variable [DecidableEq Page] [DecidableEq Index]

/-- The word `i` of a page gets a new value. -/
def write (mem : Page → Index → Word) (page : Page) (i : Index) (word : Word) : Page → Index → Word :=
  update mem page (update (mem page) i word)

variable {i : Index}

omit [Fintype Index] in
@[simp] theorem write_self : write mem page i word page i = word := by
  simp [write]

omit [Fintype Index] in
theorem write_of_ne {other : Page} (different : other ≠ page) : write mem page i word other = mem other :=
  update_of_ne different _ _

omit [Fintype Index] in
theorem write_word_of_ne {j : Index} (different : j ≠ i) : write mem page i word page j = mem page j := by
  simp [write, update_of_ne different]

/-- A write to a node exchanges one branch of it. -/
theorem owned_write (distinct : (owned next mem (.node child) page).Nodup)
    (outside : page ∉ branch next mem (child i) word) :
    owned next (write mem page i word) (.node child) page + branch next mem (child i) (mem page i) =
      owned next mem (.node child) page + branch next mem (child i) word := by
  have unchanged : ∀ {shape : Shape Index} {old : Word}, page ∉ branch next mem shape old →
      branch next (write mem page i word) shape old = branch next mem shape old := by
    intro shape old notHere
    refine branch_congr fun other isOther => write_of_ne ?_
    rintro rfl
    exact notHere isOther
  have exchanged := sum_exchange (fun j => branch next mem (child j) (mem page j))
    (fun j => branch next (write mem page i word) (child j) (write mem page i word page j)) i ?_
  · simp only [write_self] at exchanged
    rw [unchanged outside] at exchanged
    rw [owned_node, owned_node, add_assoc, add_assoc, exchanged]
  · intro j different
    simp only [write_word_of_ne different]
    exact unchanged (root_notMem_branch distinct j)

end

variable (next mem shape) in
def forest (roots : List Page) : Multiset Page := (roots.map (owned next mem shape)).sum

variable {roots : List Page}

theorem forest_cons : forest next mem shape (page :: roots) =
    owned next mem shape page + forest next mem shape roots := by
  simp [forest]

theorem mem_forest {other : Page} (isRoot : page ∈ roots) (isOwned : other ∈ owned next mem shape page) :
    other ∈ forest next mem shape roots := by
  induction roots with
  | nil => cases isRoot
  | cons root rest ih =>
    rw [forest_cons, Multiset.mem_add]
    rcases List.mem_cons.mp isRoot with rfl | isRest
    · exact Or.inl isOwned
    · exact Or.inr (ih isRest)

theorem forest_congr (same : ∀ other ∈ forest next mem shape roots, mem' other = mem other) :
    forest next mem' shape roots = forest next mem shape roots := by
  induction roots with
  | nil => rfl
  | cons root rest ih =>
    rw [forest_cons] at same
    rw [forest_cons, forest_cons, owned_congr fun other isOther => same other (Multiset.mem_add.mpr (Or.inl isOther)),
      ih fun other isOther => same other (Multiset.mem_add.mpr (Or.inr isOther))]

end

end Xv6.Lib
