import Xv6.Vm.Model

/-!
Contract: who has each page, while the functions of `vm.c` run.

A directory owns itself, its page tables and the pages that the tables of the user half lead
to. Between two steps of a function every page of the supply is on the free list, owned by
one directory, or in the hand of the function. One rule for each function says what it does
to the hand and to the entries of the directory.
-/

namespace Xv6.Vm

open Function Xv6.Lib

/-! ### What a directory owns -/

/-- The page that a present entry leads to. -/
def Pte.next (e : Pte) : Option Nat := if e.present then some e.page else none

theorem Pte.next_eq_none {e : Pte} : e.next = none ↔ e.present = false := by
  simp [Pte.next]

theorem Pte.next_eq_some {e : Pte} {page : Nat} : e.next = some page ↔ e.present = true ∧ e.page = page := by
  simp [Pte.next]

@[simp] theorem Pte.zero_next : Pte.zero.next = none := by decide

def tableShape : Shape Index := .node fun _ => .leaf

/-- The tables of the kernel half lead to no pages of the directory. -/
def childShape (i : Index) : Shape Index := if i.val < 512 then tableShape else .leaf

def dirShape : Shape Index := .node childShape

/-- The page behind an entry of a page table. -/
def Pte.leaf (e : Pte) : Multiset Nat :=
  match e.next with
  | none => 0
  | some page => {page}

theorem Pte.leaf_none {e : Pte} (absent : e.next = none) : e.leaf = 0 := by
  rw [Pte.leaf, absent]

theorem Pte.leaf_some {e : Pte} {page : Nat} (leads : e.next = some page) : e.leaf = {page} := by
  rw [Pte.leaf, leads]

theorem branch_leaf (mem : Nat → Index → Pte) (e : Pte) : branch Pte.next mem .leaf e = e.leaf := by
  cases isNext : e.next with
  | none => rw [branch_none _ _ isNext, Pte.leaf_none isNext]
  | some page => rw [branch_some _ _ isNext, Pte.leaf_some isNext, owned_leaf]

/-- The page that a directory owns through an entry of its table at `i`. -/
def leafOf (i : Index) (e : Pte) : Multiset Nat := if i.val < 512 then e.leaf else 0

variable {i : Index}

theorem leafOf_none {e : Pte} (absent : e.next = none) : leafOf i e = 0 := by
  rw [leafOf, Pte.leaf_none absent, ite_self]

theorem leafOf_user {e : Pte} {page : Nat} (user : i.val < 512) (leads : e.next = some page) :
    leafOf i e = {page} := by
  rw [leafOf, if_pos user, Pte.leaf_some leads]

theorem leafOf_kernel (kernel : 512 ≤ i.val) (e : Pte) : leafOf i e = 0 := by
  rw [leafOf, if_neg (by omega)]

theorem Pte.next_mk (page : Nat) {flags : BitVec 12} (bit : flags &&& PTE_P ≠ 0) :
    (⟨page, flags⟩ : Pte).next = some page :=
  Pte.next_eq_some.mpr ⟨by simpa [Pte.present] using bit, rfl⟩

theorem leafOf_congr {e e' : Pte} (same : e.next = e'.next) : leafOf i e = leafOf i e' := by
  rw [leafOf, leafOf, Pte.leaf, Pte.leaf, same]

theorem Pte.mapped_next (page : Nat) (perm : BitVec 12) : (⟨page, perm ||| PTE_P⟩ : Pte).next = some page := by
  have bit : (perm ||| PTE_P) &&& PTE_P = PTE_P := by
    ext i
    simp
    tauto
  refine Pte.next_mk page ?_
  rw [bit]
  decide

/-- A directory, its page tables, and the pages of its user half. -/
abbrev pagesOf (mem : Nat → Index → Pte) (d : Nat) : Multiset Nat := owned Pte.next mem dirShape d

abbrev pagesOfAll (mem : Nat → Index → Pte) (dirs : List Nat) : Multiset Nat :=
  forest Pte.next mem dirShape dirs

/-- The first page of the kernel half. -/
def KERNPAGE : Nat := 0x80000

theorem PDX_user {u : Nat} (user : u < KERNPAGE) : (PDX u).val < 512 := by
  simp only [PDX, Fin.ofNat]
  unfold KERNPAGE at user
  omega

/-- The entry for the virtual page `v`, which is 0 where there is no page table. -/
def entry (mem : Nat → Index → Pte) (d v : Nat) : Pte :=
  match (mem d (PDX v)).next with
  | none => Pte.zero
  | some t => mem t (PTX v)

section

variable {mem mem' : Nat → Index → Pte} {d t v : Nat}

theorem entry_none (absent : (mem d (PDX v)).next = none) : entry mem d v = Pte.zero := by
  rw [entry, absent]

theorem entry_some (leads : (mem d (PDX v)).next = some t) : entry mem d v = mem t (PTX v) := by
  rw [entry, leads]

theorem table_mem (leads : (mem d (PDX v)).next = some t) : t ∈ pagesOf mem d :=
  (Within.step leads .root).mem_owned

theorem entry_congr (same : ∀ page ∈ pagesOf mem d, mem' page = mem page) : entry mem' d = entry mem d := by
  funext v
  have here : mem' d = mem d := same d mem_owned_self
  cases leads : (mem d (PDX v)).next with
  | none => rw [entry_none leads, entry_none (here ▸ leads)]
  | some t => rw [entry_some leads, entry_some (here ▸ leads), same t (table_mem leads)]

theorem index_eq {u : Nat} (insideU : u < NPAGES) (insideV : v < NPAGES) (dir : PDX u = PDX v)
    (table : PTX u = PTX v) : u = v := by
  simp only [PDX, PTX, Fin.ofNat, Fin.mk.injEq] at dir table
  unfold NPAGES at insideU insideV
  omega

theorem entry_write (distinct : (pagesOf mem d).Nodup) (leads : (mem d (PDX v)).next = some t) {e : Pte} {u : Nat}
    (insideU : u < NPAGES) (insideV : v < NPAGES) :
    entry (write mem t (PTX v) e) d u = if u = v then e else entry mem d u := by
  have isTable : d ≠ t := (child_ne_root distinct leads).symm
  by_cases dir : PDX u = PDX v
  · rw [← dir] at leads
    have leads' : (write mem t (PTX v) e d (PDX u)).next = some t := by
      rw [write_of_ne isTable]
      exact leads
    rw [entry_some leads', entry_some leads]
    by_cases table : PTX u = PTX v
    · rw [if_pos (index_eq insideU insideV dir table), table, write_self]
    · rw [write_word_of_ne table, if_neg]
      rintro rfl
      exact table rfl
  · have other : u ≠ v := by
      rintro rfl
      exact dir rfl
    rw [if_neg other]
    cases leadsU : (mem d (PDX u)).next with
    | none =>
      rw [entry_none leadsU, entry_none]
      rw [write_of_ne isTable]
      exact leadsU
    | some t' =>
      have otherTable : t' ≠ t := children_ne distinct dir leadsU leads
      have leads' : (write mem t (PTX v) e d (PDX u)).next = some t' := by
        rw [write_of_ne isTable]
        exact leadsU
      rw [entry_some leads', entry_some leadsU, write_of_ne otherTable]

theorem entry_addTable (distinct : (pagesOf mem d).Nodup) (absent : (mem d (PDX v)).next = none)
    (isZero : ∀ i, mem t i = Pte.zero) (notDir : t ≠ d) {e : Pte} (leads : e.next = some t) :
    entry (write mem d (PDX v) e) d = entry mem d := by
  funext u
  by_cases dir : PDX u = PDX v
  · have leads' : (write mem d (PDX v) e d (PDX u)).next = some t := by
      rw [dir, write_self]
      exact leads
    rw [entry_some leads', entry_none (dir ▸ absent), write_of_ne notDir, isZero]
  · have same : write mem d (PDX v) e d (PDX u) = mem d (PDX u) := write_word_of_ne dir
    cases leadsU : (mem d (PDX u)).next with
    | none => rw [entry_none leadsU, entry_none (same ▸ leadsU)]
    | some t' =>
      rw [entry_some leadsU, entry_some (same ▸ leadsU), write_of_ne (child_ne_root distinct leadsU)]

end

/-! ### The ledger -/

/-- The pages that these functions can get. -/
structure Supply (layout : Layout) where
  pages : Multiset Nat
  distinct : pages.Nodup
  inside : ∀ page ∈ pages, layout.first ≤ page ∧ page < PHYSTOP / PGSIZE

variable {layout : Layout}

/-- Every page of the supply is in one place. -/
structure Owned (supply : Supply layout) (dirs : List Nat) (hand : Multiset Nat) (s : State) : Prop where
  total : (s.freelist : Multiset Nat) + pagesOfAll s.mem dirs + hand = supply.pages

variable {supply : Supply layout} {dirs others : List Nat} {hand hand' : Multiset Nat} {s : State}
  {d t v page : Nat} {halts : Panic → State → Prop}

namespace Owned

theorem distinct (owned : Owned supply dirs hand s) :
    ((s.freelist : Multiset Nat) + pagesOfAll s.mem dirs + hand).Nodup := by
  rw [owned.total]
  exact supply.distinct

theorem forest_distinct (owned : Owned supply dirs hand s) : (pagesOfAll s.mem dirs).Nodup :=
  (Multiset.nodup_add.mp (Multiset.nodup_add.mp owned.distinct).1).2.1

theorem tree_distinct (owned : Owned supply (d :: others) hand s) : (pagesOf s.mem d).Nodup := by
  have all := owned.forest_distinct
  rw [pagesOfAll, forest_cons] at all
  exact (Multiset.nodup_add.mp all).1

theorem inside (owned : Owned supply dirs hand s) (has : page ∈ pagesOfAll s.mem dirs + hand) :
    layout.first ≤ page ∧ page < PHYSTOP / PGSIZE := by
  refine supply.inside page ?_
  rw [← owned.total, add_assoc]
  exact Multiset.mem_add.mpr (Or.inr has)

theorem hand_notMem (owned : Owned supply dirs hand s) (inHand : page ∈ hand) :
    page ∉ pagesOfAll s.mem dirs := by
  intro isOwned
  have apart := (Multiset.nodup_add.mp owned.distinct).2.2
  exact Multiset.disjoint_right.mp apart inHand (Multiset.mem_add.mpr (Or.inr isOwned))

theorem hand_notMem_tree (owned : Owned supply (d :: others) hand s) (inHand : page ∈ hand) :
    page ∉ pagesOf s.mem d := fun isOwned => owned.hand_notMem inHand (mem_forest List.mem_cons_self isOwned)

theorem notMem_others (owned : Owned supply (d :: others) hand s) (isOwned : page ∈ pagesOf s.mem d) :
    page ∉ pagesOfAll s.mem others := by
  have all := owned.forest_distinct
  rw [pagesOfAll, forest_cons] at all
  exact Multiset.disjoint_left.mp (Multiset.nodup_add.mp all).2.2 isOwned

theorem perm (owned : Owned supply dirs hand s) {dirs' : List Nat} (permuted : dirs.Perm dirs') :
    Owned supply dirs' hand s := by
  refine ⟨?_⟩
  rw [← owned.total, pagesOfAll, pagesOfAll, forest, forest, (permuted.map _).sum_eq]

theorem cons_iff : Owned supply (d :: others) hand s ↔ Owned supply others (pagesOf s.mem d + hand) s := by
  have same : (s.freelist : Multiset Nat) + pagesOfAll s.mem (d :: others) + hand =
      (s.freelist : Multiset Nat) + pagesOfAll s.mem others + (pagesOf s.mem d + hand) := by
    rw [pagesOfAll, forest_cons]
    abel
  exact ⟨fun owned => ⟨same ▸ owned.total⟩, fun owned => ⟨same ▸ owned.total⟩⟩

/-- A page of a directory changes, and what is below it is exchanged with the hand. -/
theorem exchange (owned : Owned supply (d :: others) hand s) {sub : Shape Index} {mem' : Nat → Index → Pte}
    (within : Within Pte.next s.mem dirShape d sub t) (same : ∀ other, other ≠ t → mem' other = s.mem other)
    (balance : hand' + Lib.owned Pte.next mem' sub t = hand + Lib.owned Pte.next s.mem sub t) :
    Owned supply (d :: others) hand' { s with mem := mem' } ∧
      pagesOfAll mem' others = pagesOfAll s.mem others := by
  have exchanged := owned_exchange owned.tree_distinct within same
  have unchanged : pagesOfAll mem' others = pagesOfAll s.mem others := by
    refine forest_congr fun other isOther => same other ?_
    rintro rfl
    exact owned.notMem_others within.mem_owned isOther
  refine ⟨⟨?_⟩, unchanged⟩
  rw [← owned.total]
  simp only [pagesOfAll, forest_cons] at unchanged ⊢
  rw [unchanged]
  refine add_right_cancel (b := Lib.owned Pte.next mem' sub t + Lib.owned Pte.next s.mem sub t) ?_
  calc _ = (s.freelist : Multiset Nat) + forest Pte.next s.mem dirShape others +
          (Lib.owned Pte.next mem' dirShape d + Lib.owned Pte.next s.mem sub t) +
          (hand' + Lib.owned Pte.next mem' sub t) := by abel
    _ = _ := by
      rw [exchanged, balance]
      abel

theorem fill (owned : Owned supply dirs hand s) (inHand : page ∈ hand) (words : Index → Pte) :
    Owned supply dirs hand { s with mem := update s.mem page words } := by
  refine ⟨?_⟩
  rw [← owned.total]
  congr 2
  refine forest_congr fun other isOther => update_of_ne ?_ _ _
  rintro rfl
  exact owned.hand_notMem inHand isOther

theorem free (owned : Owned supply dirs (page ::ₘ hand) s) :
    Owned supply dirs hand
      { s with mem := update s.mem page junk, freelist := page :: s.freelist } := by
  refine ⟨?_⟩
  rw [← (owned.fill (Multiset.mem_cons_self page hand) junk).total]
  simp only [Multiset.add_cons, ← Multiset.cons_coe, Multiset.cons_add]

/-- An empty page table goes from the hand to the directory. -/
theorem addTable (owned : Owned supply (d :: others) (t ::ₘ hand) s) {e : Pte}
    (absent : (s.mem d i).next = none) (isZero : ∀ j, s.mem t j = Pte.zero)
    (leads : e.next = some t) :
    Owned supply (d :: others) hand { s with mem := write s.mem d i e } := by
  have fresh := owned.hand_notMem_tree (Multiset.mem_cons_self t hand)
  have isEmpty : branch Pte.next s.mem (childShape i) e = {t} := by
    rw [branch_some _ _ leads, childShape]
    split
    · rw [tableShape, owned_node, Finset.sum_eq_zero, add_zero]
      intro j _
      rw [isZero, branch_none _ _ Pte.zero_next]
    · exact owned_leaf
  have outside : d ∉ branch Pte.next s.mem (childShape i) e := by
    rw [isEmpty, Multiset.mem_singleton]
    rintro rfl
    exact fresh mem_owned_self
  have written := owned_write owned.tree_distinct outside
  rw [branch_none _ _ absent, add_zero, isEmpty] at written
  refine (owned.exchange .root (fun other different => write_of_ne different) ?_).1
  rw [dirShape, written, Multiset.cons_add, ← Multiset.singleton_add]
  abel

/-- An entry of a page table of the directory gets a new value. -/
theorem setEntry (owned : Owned supply (d :: others) hand s) {j : Index} {e : Pte}
    (leads : (s.mem d i).next = some t)
    (fresh : i.val < 512 → ∀ page, e.next = some page → page ≠ t)
    (balance : hand' + leafOf i e = hand + leafOf i (s.mem t j)) :
    Owned supply (d :: others) hand' { s with mem := write s.mem t j e } ∧
      pagesOfAll (write s.mem t j e) others = pagesOfAll s.mem others := by
  have within : Within Pte.next s.mem dirShape d (childShape i) t := .step leads .root
  refine owned.exchange within (fun other different => write_of_ne different) ?_
  unfold leafOf at balance
  by_cases user : i.val < 512
  · have isTable : childShape i = .node fun _ => .leaf := if_pos user
    rw [isTable] at within ⊢
    have distinct := Multiset.nodup_of_le within.le owned.tree_distinct
    have outside : t ∉ branch Pte.next s.mem .leaf e := by
      cases isNext : e.next with
      | none => simp [branch_none _ _ isNext]
      | some page =>
        rw [branch_some _ _ isNext, owned_leaf, Multiset.mem_singleton]
        exact (fresh user page isNext).symm
    have written := owned_write (i := j) distinct outside
    rw [if_pos user, if_pos user] at balance
    rw [branch_leaf, branch_leaf] at written
    refine add_right_cancel (b := (s.mem t j).leaf) ?_
    rw [add_assoc, written]
    calc _ = (hand' + e.leaf) + Lib.owned Pte.next s.mem (.node fun _ => .leaf) t := by abel
      _ = _ := by
        rw [balance]
        abel
  · have isLeaf : childShape i = .leaf := if_neg user
    rw [if_neg user, if_neg user, add_zero, add_zero] at balance
    rw [isLeaf, owned_leaf, owned_leaf, balance]

end Owned

/-! ### What stays as it is -/

/-- The pages of the other directories and those in the hand are as they were. -/
def Untouched (others : List Nat) (hand : Multiset Nat) (mem mem' : Nat → Index → Pte) : Prop :=
  ∀ page ∈ pagesOfAll mem others + hand, mem' page = mem page

/-- The pages that the directory maps are where they were, apart from those that are `gone`,
and those of the user half have their contents. -/
def Kept (d : Nat) (gone : Nat → Prop) (mem mem' : Nat → Index → Pte) : Prop :=
  ∀ u page, u < NPAGES → ¬ gone u → (entry mem d u).next = some page →
    entry mem' d u = entry mem d u ∧ (u < KERNPAGE → mem' page = mem page)

abbrev none_ : Nat → Prop := fun _ => False

section

variable {mem mem1 mem2 : Nat → Index → Pte} {gone gone' : Nat → Prop} {e : Pte} {u : Nat}

namespace Untouched

theorem refl : Untouched others hand mem mem :=
  fun _ _ => rfl

theorem forest (same : Untouched others hand mem mem1) : pagesOfAll mem1 others = pagesOfAll mem others :=
  forest_congr fun other isOther => same other (Multiset.mem_add.mpr (Or.inl isOther))

theorem trans (first : Untouched others hand mem mem1) (second : Untouched others hand mem1 mem2) :
    Untouched others hand mem mem2 := by
  intro page isIn
  rw [second page (by rwa [first.forest]), first page isIn]

theorem tail (same : Untouched (d :: others) hand mem mem1) : Untouched others hand mem mem1 := by
  intro page isIn
  refine same page ?_
  rw [pagesOfAll, forest_cons, add_assoc]
  exact Multiset.mem_add.mpr (Or.inr isIn)

theorem mono (same : Untouched others hand mem mem1) (fewer : hand' ⊆ hand) : Untouched others hand' mem mem1 := by
  intro page isIn
  refine same page (Multiset.mem_add.mpr ?_)
  exact (Multiset.mem_add.mp isIn).imp_right fun inHand => fewer inHand

end Untouched

namespace Kept

theorem refl : Kept d gone mem mem :=
  fun _ _ _ _ _ => ⟨rfl, fun _ => rfl⟩

theorem trans (first : Kept d gone mem mem1) (second : Kept d gone mem1 mem2) : Kept d gone mem mem2 := by
  intro u page inside stays leads
  obtain ⟨sameEntry, samePage⟩ := first u page inside stays leads
  obtain ⟨sameEntry', samePage'⟩ := second u page inside stays (sameEntry ▸ leads)
  exact ⟨sameEntry'.trans sameEntry, fun user => (samePage' user).trans (samePage user)⟩

theorem mono (kept : Kept d gone mem mem1) (more : ∀ u, gone u → gone' u) : Kept d gone' mem mem1 :=
  fun u page inside stays => kept u page inside fun isGone => stays (more u isGone)

end Kept

theorem within_data (user : u < KERNPAGE) (leads : (entry mem d u).next = some page) :
    ∃ t, (mem d (PDX u)).next = some t ∧ (mem t (PTX u)).next = some page ∧ childShape (PDX u) = tableShape := by
  have isUser := PDX_user user
  cases isTable : (mem d (PDX u)).next with
  | none =>
    rw [entry_none isTable] at leads
    cases leads
  | some t =>
    rw [entry_some isTable] at leads
    exact ⟨t, rfl, leads, if_pos isUser⟩

theorem data_mem_branch (user : u < KERNPAGE) (leads : (entry mem d u).next = some page) :
    page ∈ branch Pte.next mem (childShape (PDX u)) (mem d (PDX u)) := by
  obtain ⟨t, isTable, isPage, shape⟩ := within_data user leads
  rw [branch_some _ _ isTable, shape]
  exact (Within.step isPage .root).mem_owned

theorem data_mem (user : u < KERNPAGE) (leads : (entry mem d u).next = some page) : page ∈ pagesOf mem d :=
  Multiset.mem_of_le (branch_le (PDX u)) (data_mem_branch user leads)

theorem data_ne_dir (distinct : (pagesOf mem d).Nodup) (user : u < KERNPAGE)
    (leads : (entry mem d u).next = some page) : page ≠ d := by
  rintro rfl
  exact root_notMem_branch distinct (PDX u) (data_mem_branch user leads)

theorem data_ne_table (distinct : (pagesOf mem d).Nodup) (user : u < KERNPAGE)
    (leads : (entry mem d u).next = some page) (isTable : (mem d i).next = some t) : page ≠ t := by
  rintro rfl
  by_cases same : PDX u = i
  · obtain ⟨t, isTable', isPage, shape⟩ := within_data user leads
    rw [same] at isTable' shape
    cases isTable.symm.trans isTable'
    have inTable := Multiset.nodup_of_le (branch_le i) distinct
    rw [branch_some _ _ isTable, shape] at inTable
    exact child_ne_root inTable isPage rfl
  · have apart := branches_apart distinct same
    refine Multiset.disjoint_left.mp apart (data_mem_branch user leads) ?_
    rw [branch_some _ _ isTable]
    exact mem_owned_self

theorem Kept.of_outside (outside : page ∉ pagesOf mem d) (same : ∀ other, other ≠ page → mem1 other = mem other) :
    Kept d gone mem mem1 := by
  have notPage : ∀ other ∈ pagesOf mem d, mem1 other = mem other := by
    intro other isOwned
    refine same other ?_
    rintro rfl
    exact outside isOwned
  intro u other _ _ leads
  exact ⟨congrFun (entry_congr notPage) u, fun user => notPage other (data_mem user leads)⟩

theorem Kept.of_addTable (distinct : (pagesOf mem d).Nodup) (absent : (mem d (PDX v)).next = none)
    (isZero : ∀ i, mem t i = Pte.zero) (notDir : t ≠ d) (leads : e.next = some t) :
    Kept d gone mem (write mem d (PDX v) e) := by
  intro u page _ _ leadsU
  exact ⟨congrFun (entry_addTable distinct absent isZero notDir leads) u,
    fun user => write_of_ne (data_ne_dir distinct user leadsU)⟩

/-- The entry for a page that is gone, or was not there, is written. -/
theorem Kept.of_setEntry (distinct : (pagesOf mem d).Nodup) (leads : (mem d (PDX v)).next = some t)
    (inside : v < NPAGES) (replaced : gone v ∨ (entry mem d v).next = none) :
    Kept d gone mem (write mem t (PTX v) e) := by
  intro u page insideU stays leadsU
  have other : u ≠ v := by
    rintro rfl
    rcases replaced with isGone | absent
    · exact stays isGone
    · cases leadsU.symm.trans absent
  refine ⟨?_, fun user => write_of_ne (data_ne_table distinct user leadsU leads)⟩
  rw [entry_write distinct leads insideU inside, if_neg other]

theorem Owned.untouched_tree (owned : Owned supply (d :: others) hand s) (isOwned : page ∈ pagesOf s.mem d)
    (same : ∀ other, other ≠ page → mem1 other = s.mem other) : Untouched others hand s.mem mem1 := by
  intro other isIn
  refine same other ?_
  rintro rfl
  rcases Multiset.mem_add.mp isIn with isOther | inHand
  · exact owned.notMem_others isOwned isOther
  · exact owned.hand_notMem_tree inHand isOwned

theorem Owned.untouched_hand (owned : Owned supply dirs (page ::ₘ hand) s)
    (same : ∀ other, other ≠ page → mem1 other = s.mem other) : Untouched dirs hand s.mem mem1 := by
  intro other isIn
  refine same other ?_
  rintro rfl
  rcases Multiset.mem_add.mp isIn with isOther | inHand
  · exact owned.hand_notMem (Multiset.mem_cons_self other hand) isOther
  · have distinct := (Multiset.nodup_add.mp owned.distinct).2.1
    exact (Multiset.nodup_cons.mp distinct).1 inHand

/-- What a page of the hand leaves alone when it changes. -/
structure Beside (d : Nat) (others : List Nat) (hand : Multiset Nat) (mem mem' : Nat → Index → Pte) :
    Prop where
  untouched : Untouched others hand mem mem'
  kept : ∀ gone, Kept d gone mem mem'
  entries : entry mem' d = entry mem d
  directory : mem' d = mem d

theorem Owned.beside (owned : Owned supply (d :: others) (page ::ₘ hand) s)
    (same : ∀ other, other ≠ page → mem1 other = s.mem other) : Beside d others hand s.mem mem1 := by
  have outside := owned.hand_notMem_tree (Multiset.mem_cons_self page hand)
  have sameTree : ∀ other ∈ pagesOf s.mem d, mem1 other = s.mem other := by
    intro other isOther
    refine same other ?_
    rintro rfl
    exact outside isOther
  exact ⟨(owned.untouched_hand same).tail, fun _ => .of_outside outside same, entry_congr sameTree,
    sameTree d mem_owned_self⟩

theorem Owned.beside_update (owned : Owned supply (d :: others) (page ::ₘ hand) s) (words : Index → Pte) :
    Beside d others hand s.mem (update s.mem page words) :=
  owned.beside fun _ different => update_of_ne different _ _

end

/-! ### The free list -/

/-- `kalloc` has failed: unless it was to fail, there are no pages. -/
def Starved (s s' : State) : Prop := s.fails = [] → s.freelist = [] ∧ s'.freelist = []

/-- `kalloc` has returned at most `count` pages. -/
structure Spent (count : Nat) (s s' : State) : Prop where
  fed : s.fails = [] → s'.fails = []
  pages : s.freelist.length ≤ s'.freelist.length + count

theorem Spent.none (s : State) (count : Nat) : Spent count s s := ⟨id, Nat.le_add_right _ _⟩

theorem kalloc_spec {post : Option Nat → State → Prop} (owned : Owned supply dirs hand s)
    (failed : ∀ s', Owned supply dirs hand s' → s'.mem = s.mem → Starved s s' → post none s')
    (got : ∀ page s', Owned supply dirs (page ::ₘ hand) s' → s'.mem = s.mem → Spent 1 s s' →
      post (some page) s') : wp kalloc post halts s := by
  simp only [kalloc, nextFails, wp_bind, wp_get, wp_modify, wp_pure]
  cases isList : s.freelist with
  | nil =>
    simp only [wp_pure]
    refine failed _ ⟨?_⟩ rfl fun _ => ⟨isList, rfl⟩
    rw [← owned.total, isList]
  | cons page rest =>
    simp only
    rw [wp_ite]
    constructor
    · intro fail
      rw [wp_pure]
      refine failed _ ⟨by rw [← owned.total, isList]⟩ rfl fun noFails => ?_
      rw [noFails] at fail
      cases fail
    · intro _
      simp only [wp_bind, wp_modify, wp_pure]
      refine got page _ ⟨?_⟩ rfl ⟨fun noFails => by simp [noFails], by simp [isList]⟩
      rw [← owned.total, isList, ← Multiset.cons_coe, Multiset.cons_add, Multiset.cons_add, Multiset.add_cons]

variable {post : Unit → State → Prop}

theorem kfree_spec (owned : Owned supply dirs (page ::ₘ hand) s)
    (then_ : ∀ s', Owned supply dirs hand s' → s'.mem = update s.mem page junk → post () s') :
    wp (kfree layout page) post halts s := by
  have inHand : page ∈ page ::ₘ hand := Multiset.mem_cons_self page hand
  have inside := owned.inside (Multiset.mem_add.mpr (Or.inr inHand))
  rw [kfree, if_neg (by omega), wp_bind]
  exact then_ _ owned.free rfl

/-! ### Page tables -/

theorem wp_walkpgdir {post : Option (Nat × Index) → State → Prop} :
    wp (walkpgdir d v false) post halts s ↔ post ((s.mem d (PDX v)).next.map fun t => (t, PTX v)) s := by
  simp only [walkpgdir, load, wp_bind, wp_get, wp_pure]
  rw [Pte.next]
  split <;> simp

/-- The table for a virtual page is there, and the entries are as they were. -/
theorem walkpgdir_spec {post : Option (Nat × Index) → State → Prop} (owned : Owned supply (d :: others) hand s)
    (failed : ∀ s', Owned supply (d :: others) hand s' → s'.mem = s.mem → Starved s s' → post none s')
    (found : ∀ t s', Owned supply (d :: others) hand s' → (s'.mem d (PDX v)).next = some t →
      entry s'.mem d = entry s.mem d → (∀ i, i ≠ PDX v → s'.mem d i = s.mem d i) →
      Untouched others hand s.mem s'.mem → Kept d none_ s.mem s'.mem → Spent 1 s s' → post (some (t, PTX v)) s') :
    wp (walkpgdir d v true) post halts s := by
  simp only [walkpgdir, load, wp_bind, wp_get, wp_pure]
  rw [wp_ite]
  constructor
  · intro isPresent
    exact found _ s owned (Pte.next_eq_some.mpr ⟨isPresent, rfl⟩) rfl (fun _ _ => rfl) .refl .refl (.none s 1)
  · intro isAbsent
    have absent : (s.mem d (PDX v)).next = none := Pte.next_eq_none.mpr (by simpa using isAbsent)
    rw [if_pos trivial, wp_bind]
    refine kalloc_spec owned failed fun t s' owned' mem spent => ?_
    simp only [clear, Vm.fill, store, wp_bind, wp_modify, wp_pure]
    have inHand : t ∈ t ::ₘ hand := Multiset.mem_cons_self t hand
    have notDir : t ≠ d := by
      rintro rfl
      exact owned'.hand_notMem_tree inHand mem_owned_self
    have filled := owned'.beside_update fun _ => Pte.zero
    have owned1 := owned'.fill inHand fun _ => Pte.zero
    have sameDir := filled.directory.trans (congrFun mem d)
    have absent' : ((update s'.mem t fun _ => Pte.zero) d (PDX v)).next = none := by
      rw [sameDir]
      exact absent
    have isZero : ∀ i, (update s'.mem t fun _ => Pte.zero) t i = Pte.zero := by
      intro i
      rw [update_self]
    have leads : (⟨t, PTE_P ||| PTE_W ||| PTE_U⟩ : Pte).next = some t := Pte.next_mk t (by decide)
    have added : Untouched others (t ::ₘ hand) _ (write (update s'.mem t fun _ => Pte.zero) d (PDX v)
        ⟨t, PTE_P ||| PTE_W ||| PTE_U⟩) :=
      owned1.untouched_tree mem_owned_self fun other different => write_of_ne different
    have untouched := filled.untouched.trans (added.mono (Multiset.subset_cons hand t))
    have kept : Kept d none_ s'.mem (write (update s'.mem t fun _ => Pte.zero) d (PDX v)
        ⟨t, PTE_P ||| PTE_W ||| PTE_U⟩) :=
      (filled.kept _).trans (Kept.of_addTable owned1.tree_distinct absent' isZero notDir leads)
    refine found t _ (owned1.addTable absent' isZero leads) ?_ ?_ (fun i other => ?_) (mem ▸ untouched) (mem ▸ kept)
      ⟨spent.fed, spent.pages⟩
    · simp only [write_self]
      exact leads
    · refine (entry_addTable owned1.tree_distinct absent' isZero notDir leads).trans ?_
      rw [← mem]
      exact filled.entries
    · rw [← sameDir]
      exact write_word_of_ne other

/-- The page `pa` is mapped at `v`; in the user half it goes from the hand to the directory. -/
theorem mapPage_spec {post : Bool → State → Prop} {pa : Nat} {perm : BitVec 12}
    (owned : Owned supply (d :: others) hand s) (inside : v < NPAGES)
    (given : 512 ≤ (PDX v).val ∧ hand' = hand ∨ (PDX v).val < 512 ∧ hand = pa ::ₘ hand')
    (remap : ∀ s', (entry s.mem d v).present = true → halts .remap s')
    (failed : ∀ s', Owned supply (d :: others) hand s' → s'.mem = s.mem → Starved s s' → post false s')
    (mapped : (entry s.mem d v).present = false → ∀ s', Owned supply (d :: others) hand' s' →
      (∀ u, u < NPAGES → entry s'.mem d u = if u = v then ⟨pa, perm ||| PTE_P⟩ else entry s.mem d u) →
      (∀ i, i ≠ PDX v → s'.mem d i = s.mem d i) → Untouched others hand s.mem s'.mem →
      Kept d none_ s.mem s'.mem → Spent 1 s s' → post true s') :
    wp (mapPage d v pa perm) post halts s := by
  rw [mapPage, wp_bind]
  refine walkpgdir_spec owned failed fun t s' owned' leads same directory untouched kept spent => ?_
  simp only [load, wp_bind, wp_get, wp_pure]
  have isEntry : s'.mem t (PTX v) = entry s.mem d v := by rw [← same, entry_some leads]
  rw [wp_ite]
  constructor
  · intro isPresent
    rw [isEntry] at isPresent
    exact remap s' isPresent
  · intro isAbsent
    have absent : (s'.mem t (PTX v)).next = none := Pte.next_eq_none.mpr (by simpa using isAbsent)
    simp only [store, wp_bind, wp_modify, wp_pure]
    have entries : ∀ u, u < NPAGES → entry (write s'.mem t (PTX v) ⟨pa, perm ||| PTE_P⟩) d u =
        if u = v then ⟨pa, perm ||| PTE_P⟩ else entry s.mem d u := by
      intro u insideU
      rw [entry_write owned'.tree_distinct leads insideU inside, same]
    have wasAbsent : (entry s.mem d v).present = false := by
      rw [← isEntry]
      simpa using isAbsent
    have wasAbsent' : (entry s'.mem d v).next = none := by
      rw [entry_some leads]
      exact absent
    have written : Untouched others hand s'.mem (write s'.mem t (PTX v) ⟨pa, perm ||| PTE_P⟩) :=
      owned'.untouched_tree (table_mem leads) fun other different => write_of_ne different
    have notTable : d ≠ t := (child_ne_root owned'.tree_distinct leads).symm
    have directory' : ∀ i, i ≠ PDX v → write s'.mem t (PTX v) ⟨pa, perm ||| PTE_P⟩ d i = s.mem d i := by
      intro i other
      rw [write_of_ne notTable, directory i other]
    refine mapped wasAbsent _ ?_ entries directory' (untouched.trans written)
      (kept.trans (Kept.of_setEntry owned'.tree_distinct leads inside (Or.inr wasAbsent'))) ⟨spent.fed, spent.pages⟩
    rcases given with ⟨kernel, rfl⟩ | ⟨user, rfl⟩
    · refine (owned'.setEntry leads (fun user => by omega) ?_).1
      rw [leafOf_kernel kernel, leafOf_kernel kernel]
    · refine (owned'.setEntry leads (fun _ page isNext => ?_) ?_).1
      · rw [Pte.mapped_next] at isNext
        cases isNext
        rintro rfl
        exact owned'.hand_notMem_tree (Multiset.mem_cons_self _ _) (table_mem leads)
      · rw [leafOf_user user (Pte.mapped_next pa perm), leafOf_none absent, add_zero, add_comm,
          Multiset.singleton_add]

theorem wp_mappages_one {post : Bool → State → Prop} {perm : BitVec 12} {a pa : Nat} :
    wp (mappages d perm 1 a pa) post halts s ↔ wp (mapPage d a pa perm) post halts s := by
  have returned : (fun mapped after => wp (if mapped then mappages d perm 0 (a + 1) (pa + 1) else pure false)
      post halts after) = post := by
    funext mapped after
    cases mapped <;> rfl
  rw [mappages, wp_bind, returned]

/-! ### Freeing -/

/-- Of the user pages of `d` at most those that are `gone` have been freed. -/
structure Shrunk (supply : Supply layout) (d : Nat) (others : List Nat) (hand : Multiset Nat)
    (gone : Nat → Prop) (s s' : State) : Prop where
  owned : Owned supply (d :: others) hand s'
  untouched : Untouched others hand s.mem s'.mem
  kept : Kept d gone s.mem s'.mem
  directory : s'.mem d = s.mem d
  absent : ∀ u, u < NPAGES → (entry s.mem d u).next = none → (entry s'.mem d u).next = none

namespace Shrunk

variable {gone gone' : Nat → Prop} {s1 s2 : State}

theorem refl (owned : Owned supply (d :: others) hand s) : Shrunk supply d others hand gone s s :=
  ⟨owned, .refl, .refl, rfl, fun _ _ absent => absent⟩

theorem trans (first : Shrunk supply d others hand gone s s1)
    (second : Shrunk supply d others hand gone s1 s2) : Shrunk supply d others hand gone s s2 :=
  ⟨second.owned, first.untouched.trans second.untouched, first.kept.trans second.kept,
    second.directory.trans first.directory,
    fun u inside absent => second.absent u inside (first.absent u inside absent)⟩

theorem mono (shrunk : Shrunk supply d others hand gone s s1) (more : ∀ u, gone u → gone' u) :
    Shrunk supply d others hand gone' s s1 :=
  { shrunk with kept := shrunk.kept.mono more }

theorem next_eq (shrunk : Shrunk supply d others hand gone s s1) {u : Nat} (inside : u < NPAGES)
    (stays : ¬ gone u) : (entry s1.mem d u).next = (entry s.mem d u).next := by
  cases isNext : (entry s.mem d u).next with
  | none => exact shrunk.absent u inside isNext
  | some page => rw [(shrunk.kept u page inside stays isNext).1, isNext]

end Shrunk

/-- The page behind an entry of the user half goes back to the free list. -/
theorem freePage_spec (owned : Owned supply (d :: others) hand s)
    (leads : (s.mem d (PDX v)).next = some t) (user : v < KERNPAGE)
    (then_ : ∀ s', Shrunk supply d others hand (· = v) s s' → (entry s'.mem d v).next = none →
      s'.freelist = (entry s.mem d v).next.toList ++ s.freelist → post () s') :
    wp (freePage layout t (PTX v)) post halts s := by
  have inside : v < NPAGES := user.trans (by decide)
  simp only [freePage, load, wp_bind, wp_get, wp_pure]
  rw [wp_ite]
  constructor
  · intro isPresent
    have isNext : (s.mem t (PTX v)).next = some (s.mem t (PTX v)).page := Pte.next_eq_some.mpr ⟨isPresent, rfl⟩
    generalize (s.mem t (PTX v)).page = page at isNext
    have isEntry : (entry s.mem d v).next = some page := by
      rw [entry_some leads]
      exact isNext
    have isUser := PDX_user user
    have notTable : page ≠ t := data_ne_table owned.tree_distinct user isEntry leads
    -- the entry is cleared after the page is freed; the other order ends in the same state
    have balance : page ::ₘ hand + leafOf (PDX v) Pte.zero = hand + leafOf (PDX v) (s.mem t (PTX v)) := by
      rw [leafOf_user isUser isNext, leafOf_none Pte.zero_next, add_zero, add_comm, Multiset.singleton_add]
    have cleared := (owned.setEntry leads (fun _ page isNext => by cases isNext) balance).1
    have inHand : page ∈ page ::ₘ hand := Multiset.mem_cons_self page hand
    have isPage := cleared.inside (Multiset.mem_add.mpr (Or.inr inHand))
    have low : 0 < layout.first := (Nat.zero_lt_of_lt layout.text).trans_le layout.bss
    have swapped : write (update s.mem page junk) t (PTX v) Pte.zero =
        update (write s.mem t (PTX v) Pte.zero) page junk := by
      simp only [write, update_of_ne notTable.symm]
      exact update_comm notTable _ _ _
    have filled := cleared.beside_update junk
    have untouched : Untouched others hand s.mem (write s.mem t (PTX v) Pte.zero) :=
      owned.untouched_tree (table_mem leads) fun other different => write_of_ne different
    have kept : Kept d (· = v) s.mem (write s.mem t (PTX v) Pte.zero) :=
      Kept.of_setEntry owned.tree_distinct leads inside (Or.inl rfl)
    rw [if_neg (by omega), wp_bind, kfree, if_neg (by omega)]
    simp only [Vm.fill, store, wp_bind, wp_modify, swapped]
    have isTable : d ≠ t := (child_ne_root owned.tree_distinct leads).symm
    refine then_ _ ⟨cleared.free, untouched.trans filled.untouched, kept.trans (filled.kept _),
      filled.directory.trans (write_of_ne isTable), fun u insideU absent => ?_⟩ ?_ ?_
    · simp only [filled.entries, entry_write owned.tree_distinct leads insideU inside]
      split
      · rfl
      · exact absent
    · simp only [filled.entries, entry_write owned.tree_distinct leads inside inside, if_true]
      rfl
    · rw [isEntry]
      rfl
  · intro isAbsent
    have isGone : (entry s.mem d v).next = none := by
      rw [entry_some leads, Pte.next_eq_none]
      simpa using isAbsent
    exact then_ s (.refl owned) isGone (by rw [isGone]; rfl)

/-- The user pages that `deallocuvm` frees. -/
def Freed (oldsz first : Nat) (u : Nat) : Prop := first ≤ u ∧ u * PGSIZE < oldsz

def visitPage (layout : Layout) (pgdir v : Nat) : M Unit := do
  let pte ← walkpgdir pgdir v false
  match pte with
  | none => pure ()
  | some (pgtab, i) => freePage layout pgtab i

/-- The loop of `deallocuvm`, if it visited the pages one by one. -/
def visitPages (layout : Layout) (pgdir first oldsz : Nat) : M Unit :=
  Prog.forEach (visitPage layout pgdir) (List.range' first (pagesBelow oldsz - first))

section

variable {oldsz a : Nat}

theorem mem_freed {u : Nat} : u ∈ List.range' a (pagesBelow oldsz - a) ↔ Freed oldsz a u := by
  rw [List.mem_range'_1, Freed]
  unfold pagesBelow PGSIZE
  omega

theorem visitPages_cons (below : a * PGSIZE < oldsz) :
    visitPages layout d a oldsz = visitPage layout d a >>= fun _ => visitPages layout d (a + 1) oldsz := by
  have count : pagesBelow oldsz - a = pagesBelow oldsz - (a + 1) + 1 := by
    unfold pagesBelow PGSIZE at *
    omega
  rw [visitPages, count]
  rfl

theorem visitPages_end (reached : ¬ a * PGSIZE < oldsz) : visitPages layout d a oldsz = pure () := by
  have count : pagesBelow oldsz - a = 0 := by
    unfold pagesBelow PGSIZE at *
    omega
  rw [visitPages, count]
  rfl

theorem wp_visitPage : wp (visitPage layout d v) post halts s ↔
    match (s.mem d (PDX v)).next with
    | none => post () s
    | some t => wp (freePage layout t (PTX v)) post halts s := by
  rw [visitPage, wp_bind, wp_walkpgdir]
  cases (s.mem d (PDX v)).next with
  | none => rfl
  | some t => rfl

theorem wp_visitPages_skip (count : Nat)
    (absent : ∀ u, a ≤ u → u < a + count → (s.mem d (PDX u)).next = none) :
    wp (visitPages layout d a oldsz) post halts s ↔ wp (visitPages layout d (a + count) oldsz) post halts s := by
  induction count generalizing a with
  | zero => rfl
  | succ count ih =>
    have later := ih (a := a + 1) fun u low high => absent u (by omega) (by omega)
    have sum : a + (count + 1) = a + 1 + count := by omega
    rw [sum, ← later]
    by_cases below : a * PGSIZE < oldsz
    · rw [visitPages_cons below, wp_bind, wp_visitPage, absent a le_rfl (by omega)]
    · have below' : ¬ (a + 1) * PGSIZE < oldsz := fun less =>
        below ((Nat.mul_le_mul_right PGSIZE (Nat.le_succ a)).trans_lt less)
      rw [visitPages_end below, visitPages_end below']

/-- The loop does what it would do if it visited the pages one by one. -/
theorem wp_deallocLoop (user : oldsz ≤ KERNBASE) {rounds : Nat} (some_ : 0 < rounds)
    (enough : pagesBelow oldsz < rounds + a) :
    wp (deallocLoop layout d oldsz rounds a) post halts s ↔ wp (visitPages layout d a oldsz) post halts s := by
  induction rounds generalizing s a with
  | zero => omega
  | succ rounds ih =>
    rw [deallocLoop]
    by_cases below : a * PGSIZE < oldsz
    · have bounds : a < 0x80000 ∧ 0 < rounds ∧ pagesBelow oldsz < rounds + (a + 1) := by
        unfold pagesBelow PGSIZE KERNBASE at *
        omega
      rw [if_pos below, wp_bind, wp_walkpgdir, visitPages_cons below, wp_bind, wp_visitPage]
      cases leads : (s.mem d (PDX a)).next with
      | none =>
        have skipped : (a / 1024 + 1) * 1024 % NPAGES = a + 1 + (1023 - a % 1024) := by
          unfold NPAGES
          omega
        simp only [Option.map_none]
        rw [skipped, ih bounds.2.1 (by omega), ← wp_visitPages_skip]
        intro u low high
        have sameDir : PDX u = PDX a := by
          simp only [PDX, Fin.ofNat, Fin.mk.injEq]
          omega
        rw [sameDir]
        exact leads
      | some t =>
        have next : (a + 1) % NPAGES = a + 1 := by
          unfold NPAGES
          omega
        simp only [Option.map_some]
        rw [next, wp_bind]
        have later := fun s' => ih (s := s') bounds.2.1 bounds.2.2
        simp only [later]
    · rw [if_neg below, visitPages_end below]

theorem wp_deallocuvm {post : Nat → State → Prop} {newsz : Nat} (smaller : newsz < oldsz) (user : oldsz ≤ KERNBASE) :
    wp (deallocuvm layout d oldsz newsz) post halts s ↔
      wp (visitPages layout d (pgroundup newsz) oldsz) (fun _ => post newsz) halts s := by
  have enough : pagesBelow oldsz < NPAGES + 1 + pgroundup newsz := by
    unfold pagesBelow NPAGES PGSIZE KERNBASE at *
    omega
  rw [deallocuvm, if_neg (by omega), wp_bind, wp_deallocLoop user (Nat.succ_pos _) enough]
  rfl

end

theorem visitPage_spec (owned : Owned supply (d :: others) hand s) (user : v < KERNPAGE)
    (then_ : ∀ s', Shrunk supply d others hand (· = v) s s' → (entry s'.mem d v).next = none →
      s'.freelist = (entry s.mem d v).next.toList ++ s.freelist → post () s') :
    wp (visitPage layout d v) post halts s := by
  rw [wp_visitPage]
  cases leads : (s.mem d (PDX v)).next with
  | none =>
    have isGone : (entry s.mem d v).next = none := by
      rw [entry_none leads]
      rfl
    exact then_ s (.refl owned) isGone (by rw [isGone]; rfl)
  | some t => exact freePage_spec owned leads user then_

theorem visitPages_spec {oldsz : Nat} (first : Nat) (user : oldsz ≤ KERNBASE)
    (owned : Owned supply (d :: others) hand s) :
    wp (visitPages layout d first oldsz) (fun _ s' => Shrunk supply d others hand (Freed oldsz first) s s' ∧
      (∀ u, Freed oldsz first u → (entry s'.mem d u).next = none) ∧
      s'.freelist = ((List.range' first (pagesBelow oldsz - first)).filterMap fun u =>
        (entry s.mem d u).next).reverse ++ s.freelist) halts s := by
  let Inv (done : List Nat) (s' : State) : Prop := Shrunk supply d others hand (· ∈ done) s s' ∧
    (∀ u ∈ done, u < KERNPAGE ∧ (entry s'.mem d u).next = none) ∧
    s'.freelist = (done.filterMap fun u => (entry s.mem d u).next).reverse ++ s.freelist
  have all : wp (visitPages layout d first oldsz)
      (fun _ => Inv (List.range' first (pagesBelow oldsz - first))) halts s := by
    refine wp_forEach Inv (fun done v rest s1 split ⟨shrunk, gone, list⟩ => ?_) ⟨.refl owned, nofun, rfl⟩
    have distinct : (done ++ v :: rest).Nodup := split ▸ List.nodup_range'
    have isNew : v ∉ done := fun isOld =>
      (List.nodup_append.mp distinct).2.2 v isOld v List.mem_cons_self rfl
    have isFreed : Freed oldsz first v := mem_freed.mp (split ▸ List.mem_append_right done List.mem_cons_self)
    have low : v < KERNPAGE := by
      have := isFreed.2
      unfold KERNPAGE PGSIZE KERNBASE at *
      omega
    have same := shrunk.next_eq (low.trans (by decide)) isNew
    refine visitPage_spec shrunk.owned low fun s2 freed isGone list2 => ⟨?_, fun u isIn => ?_, ?_⟩
    · exact (shrunk.mono fun u isOld => List.mem_append_left [v] isOld).trans
        (freed.mono fun u isHere => by simp [isHere])
    · rcases List.mem_append.mp isIn with isOld | isHere
      · exact ⟨(gone u isOld).1, freed.absent u ((gone u isOld).1.trans (by decide)) (gone u isOld).2⟩
      · cases List.mem_singleton.mp isHere
        exact ⟨low, isGone⟩
    · rw [list2, list, same, List.filterMap_append, List.reverse_append, List.append_assoc]
      cases isNext : (entry s.mem d v).next with
      | none => simp [isNext]
      | some page => simp [isNext]
  exact all.mono fun _ s' ⟨shrunk, gone, list⟩ =>
    ⟨shrunk.mono fun u isIn => mem_freed.mp isIn, fun u isFreed => (gone u (mem_freed.mpr isFreed)).2, list⟩

theorem deallocuvm_spec {post : Nat → State → Prop} {oldsz newsz : Nat} (user : oldsz ≤ KERNBASE)
    (owned : Owned supply (d :: others) hand s)
    (then_ : ∀ s', Shrunk supply d others hand (Freed oldsz (pgroundup newsz)) s s' →
      (newsz < oldsz → ∀ u, Freed oldsz (pgroundup newsz) u → (entry s'.mem d u).next = none) →
      post (min oldsz newsz) s') :
    wp (deallocuvm layout d oldsz newsz) post halts s := by
  by_cases smaller : newsz < oldsz
  · rw [wp_deallocuvm smaller user]
    apply (visitPages_spec _ user owned).mono
    intro _ s' ⟨shrunk, gone, _⟩
    rw [← min_eq_right smaller.le]
    exact then_ s' shrunk fun _ => gone
  · have result : min oldsz newsz = oldsz := min_eq_left (Nat.not_lt.mp smaller)
    rw [deallocuvm, if_pos (Nat.not_lt.mp smaller), wp_pure, ← result]
    exact then_ s (.refl owned) fun less => absurd less smaller

def tableAt (mem : Nat → Index → Pte) (d : Nat) (i : Index) : Multiset Nat := (mem d i).leaf

/-- A directory without user pages has itself and its page tables. -/
theorem pagesOf_eq_tables {mem : Nat → Index → Pte}
    (isEmpty : ∀ u, u < KERNPAGE → (entry mem d u).next = none) :
    pagesOf mem d = {d} + ∑ i, tableAt mem d i := by
  rw [pagesOf, dirShape, owned_node]
  refine congrArg _ (Finset.sum_congr rfl fun i _ => ?_)
  rw [tableAt]
  cases leads : (mem d i).next with
  | none => rw [branch_none _ _ leads, Pte.leaf_none leads]
  | some t =>
    rw [branch_some _ _ leads, Pte.leaf_some leads, childShape]
    split
    · rename_i user
      rw [tableShape, owned_node, Finset.sum_eq_zero, add_zero]
      intro j _
      have isIndex : PDX (i.val * 1024 + j.val) = i ∧ PTX (i.val * 1024 + j.val) = j := by
        have insideI := i.isLt
        have insideJ := j.isLt
        simp only [PDX, PTX, Fin.ofNat, Fin.ext_iff]
        omega
      have absent := isEmpty (i.val * 1024 + j.val) (by unfold KERNPAGE; omega)
      have leads' : (mem d (PDX (i.val * 1024 + j.val))).next = some t := by
        rw [isIndex.1]
        exact leads
      rw [entry_some leads', isIndex.2] at absent
      exact branch_none _ _ absent
    · exact owned_leaf

theorem freeTables_spec (mem : Nat → Index → Pte) (items : List Index)
    (owned : Owned supply others ((items.map (tableAt mem d)).sum + hand) s) (inHand : d ∈ hand)
    (same : s.mem d = mem d)
    (then_ : ∀ s', Owned supply others hand s' → Untouched others hand s.mem s'.mem → post () s') :
    wp (freeTables layout d items) post halts s := by
  induction items generalizing s with
  | nil =>
    rw [List.map_nil, List.sum_nil, zero_add] at owned
    exact then_ s owned .refl
  | cons i rest ih =>
    rw [List.map_cons, List.sum_cons, add_assoc] at owned
    rw [freeTables, Prog.forEach, ← freeTables]
    simp only [load, wp_bind, wp_get, wp_pure]
    rw [same, wp_ite]
    constructor
    · intro isPresent
      have leads : (mem d i).next = some (mem d i).page := Pte.next_eq_some.mpr ⟨isPresent, rfl⟩
      rw [tableAt, Pte.leaf_some leads, Multiset.singleton_add] at owned
      refine kfree_spec owned fun s1 owned1 mem1 => ?_
      have freed : Untouched others ((rest.map (tableAt mem d)).sum + hand) s.mem s1.mem := by
        rw [mem1]
        exact owned.untouched_hand fun other different => update_of_ne different _ _
      have untouched := freed.mono fun page isIn => Multiset.mem_add.mpr (Or.inr isIn)
      have sameDir := untouched d (Multiset.mem_add.mpr (Or.inr inHand))
      exact ih owned1 (sameDir.trans same) fun s' owned' untouched' =>
        then_ s' owned' (untouched.trans untouched')
    · intro isAbsent
      have absent : (mem d i).next = none := Pte.next_eq_none.mpr (by simpa using isAbsent)
      rw [tableAt, Pte.leaf_none absent, zero_add] at owned
      exact ih owned same then_

/-- All pages of the directory go back to the free list. -/
theorem freevm_spec (owned : Owned supply (d :: others) hand s)
    (then_ : ∀ s', Owned supply others hand s' → Untouched others hand s.mem s'.mem → (s'.freelist : Multiset Nat) = s.freelist + pagesOf s.mem d → post () s') :
    wp (freevm layout (some d)) post halts s := by
  rw [freevm, wp_bind]
  refine deallocuvm_spec le_rfl owned fun s1 shrunk gone => ?_
  have owned1 := shrunk.owned
  have isEmpty : ∀ u, u < KERNPAGE → (entry s1.mem d u).next = none := by
    intro u user
    refine gone (by decide) u ⟨?_, ?_⟩
    · rw [show pgroundup 0 = 0 by decide]
      exact Nat.zero_le u
    · unfold KERNPAGE at user
      unfold PGSIZE KERNBASE
      omega
  have order : pagesOf s1.mem d + hand =
      ((List.finRange 1024).map (tableAt s1.mem d)).sum + ({d} + hand) := by
    rw [pagesOf_eq_tables isEmpty, Fin.sum_univ_def, add_comm ({d} : Multiset Nat), add_assoc]
  rw [Owned.cons_iff, order] at owned1
  have inHand : d ∈ {d} + hand := Multiset.mem_add.mpr (Or.inl (Multiset.mem_singleton_self d))
  rw [wp_bind]
  generalize List.finRange 1024 = items at owned1 ⊢
  refine freeTables_spec s1.mem items owned1 inHand rfl fun s2 owned2 untouched2 => ?_
  rw [Multiset.singleton_add] at owned2 untouched2
  refine kfree_spec owned2 fun s3 owned3 mem3 => ?_
  have untouched3 : Untouched others hand s2.mem s3.mem := by
    rw [mem3]
    exact owned2.untouched_hand fun other different => update_of_ne different _ _
  have untouched := shrunk.untouched.trans ((untouched2.mono (Multiset.subset_cons hand d)).trans untouched3)
  refine then_ s3 owned3 untouched ?_
  have before := owned.total
  have after := owned3.total
  rw [← before, untouched.forest, pagesOfAll, pagesOfAll, forest_cons] at after
  refine add_right_cancel (b := forest Pte.next s.mem dirShape others + hand) ?_
  rw [← add_assoc, after]
  abel

end Xv6.Vm
