import Xv6.Vm.Ledger

/-!
Contract: no sequence of calls loses a page or has it twice.

The rules of `Vm.Ledger` go on to the functions that make and grow address spaces, with the
ways out of them when there are no pages. The entries of the kernel half are followed as
well: `copyuvm` cannot get behind them, and `deallocuvm` frees the pages behind them if it is
called with a size in the kernel half.
-/

namespace Xv6.Vm

open Function Xv6.Lib

variable {layout : Layout} {supply : Supply layout} {dirs others : List Nat} {hand : Multiset Nat}
  {s : State} {d v : Nat} {halts : Panic → State → Prop}

/-! ### The kernel half -/

variable {post : Bool → State → Prop}

theorem mappages_spec {perm : BitVec 12} {count a pa : Nat}
    (owned : Owned supply (d :: others) hand s) (kernel : KERNPAGE ≤ a)
    (inside : a + count ≤ NPAGES)
    (unmapped : ∀ u, a ≤ u → u < a + count → (entry s.mem d u).present = false)
    (failed : ∀ s', Owned supply (d :: others) hand s' → Untouched others hand s.mem s'.mem → (∀ u, u < KERNPAGE → entry s'.mem d u = entry s.mem d u) → (s.fails = [] → s'.freelist = []) → post false s')
    (mapped : ∀ s', Owned supply (d :: others) hand s' → Untouched others hand s.mem s'.mem → (∀ u, u < NPAGES → entry s'.mem d u = if a ≤ u ∧ u < a + count then ⟨pa + (u - a), perm ||| PTE_P⟩ else entry s.mem d u) → (∀ i, (∀ u, a ≤ u → u < a + count → PDX u ≠ i) → s'.mem d i = s.mem d i) → (s.fails = [] → s'.fails = []) → post true s') :
    wp (mappages d perm count a pa) post halts s := by
  induction count generalizing s a pa with
  | zero =>
    refine mapped s owned .refl (fun u _ => ?_) (fun _ _ => rfl) id
    rw [if_neg (by omega)]
  | succ count ih =>
    have isKernel : 512 ≤ (PDX a).val := by
      simp only [PDX, Fin.ofNat]
      unfold KERNPAGE NPAGES at *
      omega
    have notYet : (entry s.mem d a).present ≠ true := by
      rw [unmapped a le_rfl (by omega)]
      exact Bool.false_ne_true
    rw [mappages, wp_bind]
    refine mapPage_spec owned (by omega) (Or.inl ⟨isKernel, rfl⟩) (fun _ isPresent => absurd isPresent notYet)
      (fun s' owned' same starved => ?_) fun _ s1 owned1 entries directory1 untouched1 _ spent => ?_
    · exact failed s' owned' (same ▸ .refl) (fun u _ => by rw [same]) fun noFails => (starved noFails).2
    · rw [if_pos rfl]
      refine ih owned1 (by omega) (by omega) (fun u low high => ?_)
        (fun s' owned' untouched same fed => ?_) fun s' owned' untouched entries' directory fed => ?_
      · rw [entries u (by omega), if_neg (by omega)]
        exact unmapped u (by omega) (by omega)
      · refine failed s' owned' (untouched1.trans untouched) (fun u below => ?_)
          fun noFails => fed (spent.fed noFails)
        rw [same u below, entries u (by omega), if_neg (by omega)]
      · refine mapped s' owned' (untouched1.trans untouched) (fun u insideU => ?_) (fun i elsewhere => ?_)
          fun noFails => fed (spent.fed noFails)
        · rw [entries' u insideU, entries u insideU]
          by_cases later : a + 1 ≤ u ∧ u < a + 1 + count
          · rw [if_pos later, if_pos (by omega), show pa + 1 + (u - (a + 1)) = pa + (u - a) by omega]
          · rw [if_neg later]
            by_cases here : u = a
            · rw [if_pos here, if_pos (by omega), here, Nat.sub_self, Nat.add_zero]
            · rw [if_neg here, if_neg (by omega)]
        · rw [directory i fun u low high => elsewhere u (by omega) (by omega),
            directory1 i (elsewhere a le_rfl (by omega)).symm]

/-- The entry of `kmap` is about the virtual page `u`. -/
def Kmap.Has (k : Kmap) (u : Nat) : Prop := k.virt ≤ u ∧ u < k.virt + k.count

theorem kmap_inside (layout : Layout) : ∀ k ∈ kmap layout, KERNPAGE ≤ k.virt ∧ k.virt + k.count ≤ NPAGES := by
  have text := layout.text
  have bss := layout.bss
  have memory := layout.memory
  intro k isIn
  simp only [kmap, List.mem_cons, List.not_mem_nil, or_false] at isIn
  unfold KERNLINK KERNBASE EXTMEM PHYSTOP DEVSPACE PGSIZE NPAGES at *
  unfold KERNPAGE
  rcases isIn with rfl | rfl | rfl | rfl
  · exact ⟨by decide, by decide⟩
  · exact ⟨by simp only; omega, by simp only; omega⟩
  · exact ⟨by simp only; omega, by simp only; omega⟩
  · exact ⟨by decide, by decide⟩

theorem kmap_apart (layout : Layout) : (kmap layout).Pairwise fun k k' => k.virt + k.count ≤ k'.virt := by
  have text := layout.text
  have bss := layout.bss
  have memory := layout.memory
  simp only [kmap, List.pairwise_cons, List.mem_cons, List.not_mem_nil, or_false, forall_eq_or_imp, forall_eq]
  unfold KERNLINK KERNBASE EXTMEM PHYSTOP DEVSPACE PGSIZE at *
  simp
  omega

/-- What `setupkvm` leaves: nothing is mapped in the user half, and the memory from `data` on
is mapped in the kernel half. -/
structure Fresh (layout : Layout) (mem : Nat → Index → Pte) (d : Nat) : Prop where
  user : ∀ u, u < KERNPAGE → (entry mem d u).next = none
  base : (entry mem d KERNPAGE).present = true
  direct : ∀ page, layout.data ≤ page → page < PHYSTOP / PGSIZE →
    entry mem d (KERNPAGE + page) = ⟨page, PTE_W ||| PTE_P⟩

/-- The mappings of `kmap` that are done. -/
structure Mapped (mem : Nat → Index → Pte) (d : Nat) (done : List Kmap) : Prop where
  outside : ∀ u, u < NPAGES → (∀ k ∈ done, ¬ k.Has u) → entry mem d u = Pte.zero
  inside : ∀ k ∈ done, ∀ u, k.Has u → entry mem d u = ⟨k.phys + (u - k.virt), k.perm ||| PTE_P⟩
  tables : ∀ i, (∀ k ∈ done, ∀ u, k.Has u → PDX u ≠ i) → (mem d i).next = none

theorem Mapped.fresh {mem : Nat → Index → Pte} (mapped : Mapped mem d (kmap layout)) : Fresh layout mem d := by
  have text := layout.text
  refine ⟨fun u below => ?_, ?_, fun page low high => ?_⟩
  · have insideU : u < NPAGES := below.trans (by decide)
    rw [mapped.outside u insideU]
    · rfl
    · intro k isIn has
      have kernel := (kmap_inside layout k isIn).1
      have first := has.1
      omega
  · have has : Kmap.Has ⟨KERNBASE / PGSIZE, 0, EXTMEM / PGSIZE, PTE_W⟩ KERNPAGE := by
      unfold Kmap.Has
      decide
    rw [mapped.inside _ (by simp [kmap]) _ has]
    decide
  · have has : Kmap.Has ⟨KERNBASE / PGSIZE + layout.data, layout.data, PHYSTOP / PGSIZE - layout.data, PTE_W⟩
        (KERNPAGE + page) := by
      have base : KERNBASE / PGSIZE = KERNPAGE := by decide
      simp only [Kmap.Has, base]
      omega
    rw [mapped.inside _ (by simp [kmap]) _ has]
    have base : KERNBASE / PGSIZE = KERNPAGE := by decide
    simp only [base, Pte.mk.injEq, and_true]
    omega

/-- The loop of `setupkvm`. -/
theorem kmap_spec (owned : Owned supply (d :: others) hand s) (noTables : ∀ i, s.mem d i = Pte.zero)
    (failed : ∀ s', Owned supply (d :: others) hand s' → Untouched others hand s.mem s'.mem → (∀ u, u < KERNPAGE → (entry s'.mem d u).next = none) → (s.fails = [] → s'.freelist = []) → post false s')
    (made : ∀ s', Owned supply (d :: others) hand s' → Untouched others hand s.mem s'.mem → Mapped s'.mem d (kmap layout) → post true s') :
    wp (Prog.forAll (fun k => mappages d k.perm k.count k.virt k.phys) (kmap layout)) post halts s := by
  refine wp_forAll (fun done s' => Owned supply (d :: others) hand s' ∧ Untouched others hand s.mem s'.mem ∧
    Mapped s'.mem d done ∧ (s.fails = [] → s'.fails = []))
    ?_ ⟨owned, .refl, ⟨fun u _ _ => entry_none (by rw [noTables]; rfl), nofun, fun i _ => by rw [noTables]; rfl⟩, id⟩
    fun s' holds => made s' holds.1 holds.2.1 holds.2.2.1
  rintro done k rest s1 split ⟨owned1, untouched1, mapped, fed1⟩
  have isIn : k ∈ kmap layout := by simp [split]
  obtain ⟨kernel, inside⟩ := kmap_inside layout k isIn
  have apart := kmap_apart layout
  rw [split, List.pairwise_append] at apart
  have before : ∀ k' ∈ done, k'.virt + k'.count ≤ k.virt := fun k' isDone =>
    apart.2.2 k' isDone k List.mem_cons_self
  have notDone : ∀ u, k.Has u → ∀ k' ∈ done, ¬ k'.Has u := by
    intro u has k' isDone has'
    have order := before k' isDone
    have low := has.1
    have high := has'.2
    omega
  refine mappages_spec owned1 kernel inside (fun u low high => ?_) (fun s' owned' untouched same fed => ?_)
    fun s' owned' untouched entries directory fed => ?_
  · rw [mapped.outside u (by omega) (notDone u ⟨low, high⟩)]
    rfl
  · refine failed s' owned' (untouched1.trans untouched) (fun u below => ?_) fun noFails => fed (fed1 noFails)
    have insideU : u < NPAGES := below.trans (by decide)
    rw [same u below, mapped.outside u insideU]
    · rfl
    · intro k' isDone has
      have kernel' := (kmap_inside layout k' (by simp [split, isDone])).1
      have low := has.1
      omega
  · rw [if_pos rfl]
    refine ⟨owned', untouched1.trans untouched,
      ⟨fun u insideU nowhere => ?_, fun k' isDone u has => ?_, fun i elsewhere => ?_⟩,
      fun noFails => fed (fed1 noFails)⟩
    · have notHere : ¬ k.Has u := nowhere k (by simp)
      rw [entries u insideU]
      exact (if_neg notHere).trans (mapped.outside u insideU fun k' isDone => nowhere k' (by simp [isDone]))
    · rcases List.mem_append.mp isDone with isDone | isLast
      · have insideU : u < NPAGES := by
          have order := before k' isDone
          have high := has.2
          omega
        have notHere : ¬ k.Has u := fun hasK => notDone u hasK k' isDone has
        rw [entries u insideU]
        exact (if_neg notHere).trans (mapped.inside k' isDone u has)
      · cases List.mem_singleton.mp isLast
        have high := has.2
        rw [entries u (by omega)]
        exact if_pos has
    · rw [directory i fun u low high => elsewhere k (by simp) u ⟨low, high⟩]
      exact mapped.tables i fun k' isDone => elsewhere k' (by simp [isDone])

theorem card_pagesOf {mem : Nat → Index → Pte} (user : ∀ u, u < KERNPAGE → (entry mem d u).next = none) :
    Multiset.card (pagesOf mem d) ≤ 1025 := by
  have few : ∀ i ∈ Finset.univ, Multiset.card (tableAt mem d i) ≤ 1 := by
    intro i _
    rw [tableAt]
    cases leads : (mem d i).next with
    | none => simp [Pte.leaf_none leads]
    | some t => simp [Pte.leaf_some leads]
  have total := Finset.sum_le_sum few
  rw [← Finset.card_eq_sum_ones, Finset.card_univ, Fintype.card_fin, ← Multiset.card_sum] at total
  rw [pagesOf_eq_tables user, Multiset.card_add, Multiset.card_singleton]
  omega

/-! ### Directories -/

theorem setupkvm_spec {post : Option Nat → State → Prop} (owned : Owned supply dirs hand s)
    (failed : ∀ s', Owned supply dirs hand s' → Untouched dirs hand s.mem s'.mem →
      (s.fails = [] → s.freelist.length ≤ 1025) → post none s')
    (made : ∀ d s', Owned supply (d :: dirs) hand s' → Untouched dirs hand s.mem s'.mem →
      Mapped s'.mem d (kmap layout) → post (some d) s') :
    wp (setupkvm layout) post halts s := by
  rw [setupkvm, wp_bind]
  refine kalloc_spec owned (fun s' owned' mem starved => ?_) fun d s1 owned1 mem spent => ?_
  · refine failed s' owned' (mem ▸ .refl) fun noFails => ?_
    rw [(starved noFails).1]
    exact Nat.zero_le _
  · simp only [clear, fill, wp_bind, wp_modify]
    rw [if_neg (by decide), wp_bind]
    have inHand : d ∈ d ::ₘ hand := Multiset.mem_cons_self d hand
    have owned2 := owned1.fill inHand fun _ => Pte.zero
    have isZero : ∀ i, (update s1.mem d fun _ => Pte.zero) d i = Pte.zero := by
      intro i
      rw [update_self]
    have alone : pagesOf (update s1.mem d fun _ => Pte.zero) d = {d} := by
      rw [pagesOf, dirShape, owned_node, Finset.sum_eq_zero, add_zero]
      intro i _
      rw [isZero, branch_none _ _ Pte.zero_next]
    have cleared : Untouched dirs hand s.mem (update s1.mem d fun _ => Pte.zero) :=
      mem ▸ owned1.untouched_hand fun other different => update_of_ne different _ _
    rw [← Multiset.singleton_add, ← alone] at owned2
    refine kmap_spec (Owned.cons_iff.mpr owned2) isZero (fun s' owned' untouched user fed => ?_)
      fun s' owned' untouched mapped => ?_
    · rw [if_neg Bool.false_ne_true, wp_bind]
      refine freevm_spec owned' fun s3 owned3 freed _ => ?_
      refine failed s3 owned3 (cleared.trans (untouched.trans freed)) fun noFails => ?_
      -- the pages that were free are now those of the directory
      have total := owned'.total
      rw [fed (spent.fed noFails), ← owned.total, pagesOfAll, forest_cons, ← pagesOfAll,
        (cleared.trans untouched).forest, Multiset.coe_nil, zero_add, add_assoc, add_assoc] at total
      have sameCard := congrArg Multiset.card (add_right_cancel total)
      rw [Multiset.coe_card] at sameCard
      rw [← sameCard]
      exact card_pagesOf user
    · rw [if_pos rfl]
      exact made d s' owned' (cleared.trans untouched) mapped

/-- The body of the loop of `allocuvm`, and what it undoes when there are no pages. -/
theorem growPage_spec {oldsz newsz a : Nat} (owned : Owned supply (d :: others) hand s)
    (user : newsz < KERNBASE) (below : a < KERNPAGE)
    (remap : ∀ s', (entry s.mem d a).present = true → halts .remap s')
    (failed : ∀ s', Shrunk supply d others hand (Freed newsz (pgroundup oldsz)) s s' →
      (oldsz < newsz → ∀ u, Freed newsz (pgroundup oldsz) u → (entry s'.mem d u).next = none) →
      (s.fails = [] → s.freelist.length ≤ 1) → post false s')
    (grown : ∀ page s', (entry s.mem d a).present = false → Owned supply (d :: others) hand s' → Untouched others hand s.mem s'.mem → Kept d none_ s.mem s'.mem → (∀ u, u < NPAGES → entry s'.mem d u = if u = a then ⟨page, PTE_W ||| PTE_U ||| PTE_P⟩ else entry s.mem d u) → (∀ i, i ≠ PDX a → s'.mem d i = s.mem d i) → s'.mem page = (fun _ => Pte.zero) → Spent 2 s s' → post true s') :
    wp (growPage layout d oldsz newsz a) post halts s := by
  rw [growPage, wp_bind]
  refine kalloc_spec owned (fun s1 owned1 mem1 starved => ?_) fun page s1 owned1 mem1 spent => ?_
  · simp only [wp_bind, wp_pure]
    refine deallocuvm_spec user.le owned1 fun s' shrunk gone => ?_
    refine failed s' ⟨shrunk.owned, mem1 ▸ shrunk.untouched, mem1 ▸ shrunk.kept, mem1 ▸ shrunk.directory,
      mem1 ▸ shrunk.absent⟩ gone fun noFails => ?_
    rw [(starved noFails).1]
    exact Nat.zero_le 1
  · simp only [clear, fill, wp_bind, wp_modify]
    have inHand : page ∈ page ::ₘ hand := Multiset.mem_cons_self page hand
    have filled := owned1.beside_update fun _ => Pte.zero
    have owned2 := owned1.fill inHand fun _ => Pte.zero
    rw [mem1] at filled
    rw [wp_mappages_one]
    refine mapPage_spec owned2 (below.trans (by decide)) (Or.inr ⟨PDX_user below, rfl⟩) (fun s' isPresent => ?_)
      (fun s3 owned3 mem3 starved => ?_) fun absent s3 owned3 entries directory untouched3 kept3 spent3 => ?_
    · simp only [mem1, filled.entries] at isPresent
      exact remap s' isPresent
    · rw [if_neg Bool.false_ne_true]
      simp only [wp_bind, wp_pure]
      refine deallocuvm_spec user.le owned3 fun s4 shrunk gone => ?_
      refine kfree_spec shrunk.owned fun s' owned' mem' => ?_
      have freed := shrunk.owned.beside_update junk
      rw [← mem'] at freed
      obtain ⟨-, untouched4, kept4, directory4, stays⟩ := shrunk
      simp only [mem3, mem1] at untouched4 kept4 directory4 stays
      refine failed s' ⟨owned', ?_, (filled.kept _).trans (kept4.trans (freed.kept _)),
        freed.directory.trans (directory4.trans filled.directory), fun u inside wasAbsent => ?_⟩
        (fun smaller u isFreed => ?_) fun noFails => ?_
      · exact filled.untouched.trans ((untouched4.mono (Multiset.subset_cons hand page)).trans freed.untouched)
      · rw [freed.entries]
        refine stays u inside ?_
        rw [filled.entries]
        exact wasAbsent
      · rw [freed.entries]
        exact gone smaller u isFreed
      · have isEmpty : s1.freelist = [] := (starved (spent.fed noFails)).1
        have pages := spent.pages
        rw [isEmpty] at pages
        exact pages
    · rw [if_pos rfl, wp_pure]
      simp only [mem1, filled.entries] at absent entries
      simp only [mem1] at directory untouched3 kept3
      refine grown page s3 absent owned3 (filled.untouched.trans (untouched3.mono (Multiset.subset_cons hand page)))
        ((filled.kept _).trans kept3) entries (fun i other => ?_) ?_ ⟨fun noFails => spent3.fed (spent.fed noFails), ?_⟩
      · rw [directory i other, filled.directory]
      · rw [untouched3 page (Multiset.mem_add.mpr (Or.inr inHand)), update_self]
      · have first := spent.pages
        have second : s1.freelist.length ≤ s3.freelist.length + 1 := spent3.pages
        omega

theorem range'_at {first count a : Nat} {done rest : List Nat}
    (split : List.range' first count = done ++ a :: rest) : a = first + done.length := by
  have at_ := congrArg (fun list : List Nat => list[done.length]?) split
  simp only [List.getElem?_append_right (le_refl _), Nat.sub_self, List.getElem?_cons_zero] at at_
  obtain ⟨_, isAt⟩ := List.getElem?_eq_some_iff.mp at_
  rw [List.getElem_range'] at isAt
  omega

/-- The pages of the loop of `allocuvm` are in the user half. -/
theorem grown_below {oldsz newsz a : Nat} (user : newsz < KERNBASE)
    (isIn : a ∈ List.range' (pgroundup oldsz) (pagesBelow newsz - pgroundup oldsz)) : a < KERNPAGE := by
  obtain ⟨low, high⟩ := List.mem_range'_1.mp isIn
  unfold pagesBelow PGSIZE at high
  unfold KERNBASE at user
  unfold KERNPAGE
  omega

theorem allocuvm_spec {oldsz newsz : Nat} (owned : Owned supply (d :: others) hand s) :
    wp (allocuvm layout d oldsz newsz) (fun _ s' => Owned supply (d :: others) hand s') (fun _ _ => True) s := by
  rw [allocuvm, wp_ite]
  refine ⟨fun _ => owned, fun user => ?_⟩
  rw [wp_ite]
  refine ⟨fun _ => owned, fun _ => ?_⟩
  simp only [wp_bind, wp_pure]
  refine wp_forAll (fun _ s' => Owned supply (d :: others) hand s') ?_ owned fun _ owned' => owned'
  intro done a rest s1 split owned1
  have isIn : a ∈ List.range' (pgroundup oldsz) (pagesBelow newsz - pgroundup oldsz) := by simp [split]
  have below : newsz < KERNBASE := by omega
  exact growPage_spec owned1 below (grown_below below isIn) (fun _ _ => trivial) (fun _ shrunk _ _ => shrunk.owned)
    fun _ _ _ owned' _ _ _ _ _ _ => owned'

theorem clearpteu_spec {uva : Nat} (owned : Owned supply (d :: others) hand s) :
    wp (clearpteu d uva) (fun _ s' => Owned supply (d :: others) hand s') (fun _ _ => True) s := by
  rw [clearpteu, wp_bind, wp_walkpgdir]
  cases leads : (s.mem d (PDX (uva / PGSIZE))).next with
  | none => trivial
  | some t =>
    simp only [Option.map_some, load, store, wp_bind, wp_get, wp_modify, wp_pure]
    set e := s.mem t (PTX (uva / PGSIZE)) with isEntry
    have same : ({ e with flags := e.flags &&& ~~~PTE_U } : Pte).next = e.next := by
      have bit : e.flags &&& ~~~PTE_U &&& PTE_P = e.flags &&& PTE_P := by
        rw [BitVec.and_assoc]
        rfl
      simp only [Pte.next, Pte.present, bit]
      rfl
    refine (owned.setEntry leads (fun user page isNext => ?_) ?_).1
    · have within : Within Pte.next s.mem dirShape d (childShape (PDX (uva / PGSIZE))) t := .step leads .root
      rw [show childShape (PDX (uva / PGSIZE)) = .node fun _ => .leaf from if_pos user] at within
      rw [same, isEntry] at isNext
      exact child_ne_root (Multiset.nodup_of_le within.le owned.tree_distinct) isNext
    · rw [leafOf_congr same]

/-- A page of a process is copied. It is a page of the user half, since the new directory has
the first page of the kernel half mapped. -/
theorem copyMapping_spec {pgdir : Nat} (owned : Owned supply (d :: others) hand s) (low : v ≤ KERNPAGE)
    (base : (entry s.mem d KERNPAGE).present = true) :
    wp (copyMapping layout pgdir d v) (fun copied s' => Owned supply (d :: others) hand s' ∧
      (copied = true → v < KERNPAGE ∧ (entry s'.mem d KERNPAGE).present = true)) (fun _ _ => True) s := by
  have inside : v < NPAGES := low.trans_lt (by decide)
  rw [copyMapping, wp_bind, wp_walkpgdir]
  cases leads : (s.mem pgdir (PDX v)).next with
  | none => trivial
  | some t =>
    simp only [Option.map_some, load, wp_bind, wp_get, wp_pure]
    rw [wp_ite]
    refine ⟨fun _ => ?_, fun _ => trivial⟩
    rw [wp_bind]
    refine kalloc_spec owned (fun s1 owned1 _ _ => ⟨owned1, by simp⟩) fun page s1 owned1 mem1 _ => ?_
    simp only [copyPage, wp_bind, wp_modify]
    have inHand : page ∈ page ::ₘ hand := Multiset.mem_cons_self page hand
    set words := s1.mem (s.mem t (PTX v)).page
    have owned2 := owned1.fill inHand words
    have sameEntry : entry (update s1.mem page words) d = entry s.mem d := by
      rw [(owned1.beside_update words).entries, mem1]
    rw [wp_mappages_one]
    by_cases atBase : v = KERNPAGE
    · have given : 512 ≤ (PDX v).val ∧ page ::ₘ hand = page ::ₘ hand ∨
          (PDX v).val < 512 ∧ page ::ₘ hand = page ::ₘ page ::ₘ hand := by
        subst atBase
        exact Or.inl ⟨by decide, rfl⟩
      refine mapPage_spec owned2 inside given
        (fun _ _ => trivial) (fun s3 owned3 _ _ => ?_) fun absent => ?_
      · rw [if_neg Bool.false_ne_true]
        simp only [wp_bind, wp_pure]
        exact kfree_spec owned3 fun s' owned' _ => ⟨owned', by simp⟩
      · rw [atBase] at absent
        simp only [sameEntry] at absent
        rw [base] at absent
        cases absent
    · refine mapPage_spec owned2 inside (Or.inr ⟨PDX_user (by omega), rfl⟩) (fun _ _ => trivial)
        (fun s3 owned3 _ _ => ?_) fun _ s3 owned3 entries _ _ _ _ => ?_
      · rw [if_neg Bool.false_ne_true]
        simp only [wp_bind, wp_pure]
        exact kfree_spec owned3 fun s' owned' _ => ⟨owned', by simp⟩
      · rw [if_pos rfl, wp_pure]
        refine ⟨owned3, fun _ => ⟨by omega, ?_⟩⟩
        rw [entries KERNPAGE (by decide), if_neg (Ne.symm atBase)]
        simp only [sameEntry]
        exact base

theorem copyuvm_spec {pgdir sz : Nat} (owned : Owned supply dirs hand s) :
    wp (copyuvm layout pgdir sz) (fun made s' => Owned supply (made.toList ++ dirs) hand s') (fun _ _ => True) s := by
  rw [copyuvm, wp_bind]
  refine setupkvm_spec owned (fun s1 owned1 _ _ => owned1) fun d s1 owned1 _ mapped => ?_
  simp only [wp_bind]
  refine wp_forAll (fun done s' => Owned supply (d :: dirs) hand s' ∧ done.length ≤ KERNPAGE ∧
    (entry s'.mem d KERNPAGE).present = true) ?_ ⟨owned1, Nat.zero_le _, mapped.fresh.base⟩ ?_
  · rintro done v rest s2 split ⟨owned2, few, base⟩
    have isV : v = done.length := (range'_at split).trans (Nat.zero_add _)
    refine (copyMapping_spec owned2 (isV ▸ few) base).mono fun copied s' outcome => ?_
    cases copied with
    | false =>
      rw [if_neg Bool.false_ne_true, if_neg Bool.false_ne_true, wp_bind]
      exact freevm_spec outcome.1 fun s' owned' _ _ => owned'
    | true =>
      obtain ⟨below, base'⟩ := outcome.2 rfl
      rw [if_pos rfl]
      refine ⟨outcome.1, ?_, base'⟩
      rw [List.length_append, List.length_singleton]
      omega
  · intro s' holds
    rw [if_pos rfl, wp_pure]
    exact holds.1

theorem setupkvm_returns (owned : Owned supply dirs hand s) (noFails : s.fails = [])
    (enough : 1025 < s.freelist.length) :
    ∃ d s', setupkvm layout s = (.ok (some d), s') ∧ Owned supply (d :: dirs) hand s' ∧
      Untouched dirs hand s.mem s'.mem ∧ Mapped s'.mem d (kmap layout) := by
  have returned : wp (setupkvm layout) (fun made s' => ∃ d, made = some d ∧ Owned supply (d :: dirs) hand s' ∧
      Untouched dirs hand s.mem s'.mem ∧ Mapped s'.mem d (kmap layout)) (fun _ _ => False) s := by
    refine setupkvm_spec owned (fun _ _ _ few => ?_) fun d s' owned' untouched mapped =>
      ⟨d, rfl, owned', untouched, mapped⟩
    have atMost := few noFails
    omega
  obtain ⟨made, s', ran, d, rfl, owned', untouched, mapped⟩ := returned.returns
  exact ⟨d, s', ran, owned', untouched, mapped⟩

theorem wp_deallocLoop_end {post : Unit → State → Prop} {oldsz rounds a : Nat} (reached : oldsz ≤ a * PGSIZE)
    (some_ : 0 < rounds) : wp (deallocLoop layout d oldsz rounds a) post halts s ↔ post () s := by
  cases rounds with
  | zero => omega
  | succ rounds => rw [deallocLoop, if_neg (by omega), wp_pure]

/-- `deallocuvm` does not stop at the kernel half: called with sizes there, it frees pages of
the direct map. -/
theorem deallocuvm_kernel (page : Nat) (fresh : Fresh layout s.mem d) (low : layout.first ≤ page)
    (high : page < PHYSTOP / PGSIZE) :
    wp (deallocuvm layout d ((KERNPAGE + page + 1) * PGSIZE) ((KERNPAGE + page) * PGSIZE))
      (fun _ s' => s'.freelist = page :: s.freelist) halts s := by
  have data := layout.bss
  have isEntry := fresh.direct page (by omega) high
  have numbers : pgroundup ((KERNPAGE + page) * PGSIZE) = KERNPAGE + page ∧
      (KERNPAGE + page + 1) % NPAGES = KERNPAGE + page + 1 ∧
      (KERNPAGE + page) * PGSIZE < (KERNPAGE + page + 1) * PGSIZE := by
    unfold PHYSTOP PGSIZE at high
    unfold pgroundup KERNPAGE PGSIZE NPAGES
    omega
  have positive : page ≠ 0 := by
    have text := Nat.zero_lt_of_lt layout.text
    omega
  cases leads : (s.mem d (PDX (KERNPAGE + page))).next with
  | none =>
    rw [entry_none leads] at isEntry
    cases congrArg Pte.flags isEntry
  | some t =>
    rw [entry_some leads] at isEntry
    have present : (⟨page, PTE_W ||| PTE_P⟩ : Pte).present = true :=
      (Pte.next_eq_some.mp (Pte.mapped_next page PTE_W)).1
    rw [deallocuvm, if_neg (by omega), numbers.1, wp_bind, deallocLoop, if_pos numbers.2.2, wp_bind, wp_walkpgdir,
      leads]
    simp only [Option.map_some, wp_bind, freePage, load, wp_get, wp_pure, isEntry, present, if_true]
    rw [if_neg positive, wp_bind, kfree, if_neg (by omega)]
    simp only [fill, store, wp_bind, wp_modify]
    rw [numbers.2.1, wp_deallocLoop_end le_rfl (by decide)]

/-! ### Sequences of calls -/

/-- `deallocuvm` is called for a size of the user half. The other functions see to that
themselves. -/
def Call.Userland : Call → Prop
  | .deallocuvm _ oldsz _ => oldsz.toNat ≤ KERNBASE
  | _ => True

theorem Call.code_spec {call : Call} (owned : Owned supply dirs 0 s) (userland : call.Userland)
    (enabled : call.enabled dirs = true) :
    wp (call.code layout dirs) (fun dirs' s' => Owned supply dirs' 0 s') (fun _ _ => True) s := by
  have atHead : ∀ {pgdir}, decide (pgdir ∈ dirs) = true → Owned supply (pgdir :: dirs.erase pgdir) 0 s :=
    fun isIn => owned.perm (List.perm_cons_erase (of_decide_eq_true isIn))
  have back : ∀ {pgdir s'}, decide (pgdir ∈ dirs) = true → Owned supply (pgdir :: dirs.erase pgdir) 0 s' →
      Owned supply dirs 0 s' :=
    fun isIn owned' => owned'.perm (List.perm_cons_erase (of_decide_eq_true isIn)).symm
  cases call with
  | setupkvm =>
    rw [Call.code, wp_bind]
    exact setupkvm_spec owned (fun _ owned' _ _ => owned') fun _ _ owned' _ _ => owned'
  | allocuvm pgdir oldsz newsz =>
    rw [Call.code]
    exact (allocuvm_spec (atHead enabled)).bind fun _ _ owned' => back enabled owned'
  | deallocuvm pgdir oldsz newsz =>
    rw [Call.code, wp_bind]
    exact deallocuvm_spec userland (atHead enabled) fun _ shrunk _ => back enabled shrunk.owned
  | copyuvm pgdir sz =>
    rw [Call.code]
    exact (copyuvm_spec owned).bind fun _ _ owned' => owned'
  | clearpteu pgdir uva =>
    rw [Call.code]
    exact (clearpteu_spec (atHead enabled)).bind fun _ _ owned' => back enabled owned'
  | freevm pgdir =>
    rw [Call.code, wp_bind]
    exact freevm_spec (atHead enabled) fun _ owned' _ _ => owned'

theorem callNext_eq_some {m : Machine} {label : List Bool × Call}
    (enabled : label.2.enabled m.dirs = true)
    (isRun : label.2.code layout m.dirs { m.state with fails := label.1 } = (.ok dirs, s)) :
    callNext layout m label = some ⟨s, dirs⟩ := by
  rw [callNext, if_pos enabled, isRun]

theorem callNext_owned {m m' : Machine} {label : List Bool × Call} (owned : Owned supply m.dirs 0 m.state)
    (userland : label.2.Userland) (stepped : callNext layout m label = some m') :
    Owned supply m'.dirs 0 m'.state := by
  unfold callNext at stepped
  obtain ⟨enabled, ran⟩ := Option.ite_none_right_eq_some.mp stepped
  have spec := Call.code_spec (s := { m.state with fails := label.1 }) ⟨owned.total⟩ userland enabled
  unfold wp at spec
  split at ran
  · rename_i dirs state isRun
    rw [isRun] at spec
    cases ran
    exact spec
  · cases ran

theorem run_owned {m m' : Machine} {labels : List (List Bool × Call)} (owned : Owned supply m.dirs 0 m.state)
    (userland : ∀ label ∈ labels, label.2.Userland) (ran : (callSystem layout).run m labels = some m') :
    Owned supply m'.dirs 0 m'.state := by
  induction labels generalizing m with
  | nil =>
    cases ran
    exact owned
  | cons label rest ih =>
    obtain ⟨middle, stepped, ranRest⟩ := (callSystem layout).run_cons_eq_some.mp ran
    refine ih (callNext_owned owned (userland label List.mem_cons_self) stepped)
      (fun label isIn => userland label (List.mem_cons_of_mem _ isIn)) ranRest

/-- The pages of the free list can be allocated: they are distinct, and behind the kernel. -/
def freeSupply (free : List Nat) (distinct : free.Nodup)
    (inside : ∀ page ∈ free, layout.first ≤ page ∧ page < PHYSTOP / PGSIZE) : Supply layout :=
  ⟨free, distinct, inside⟩

def start (mem : Nat → Index → Pte) (free : List Nat) : Machine := ⟨⟨mem, free, []⟩, []⟩

theorem start_owned (mem : Nat → Index → Pte) (free : List Nat) (distinct : free.Nodup)
    (inside : ∀ page ∈ free, layout.first ≤ page ∧ page < PHYSTOP / PGSIZE) :
    Owned (freeSupply free distinct inside) (start mem free).dirs 0 (start mem free).state := by
  refine ⟨?_⟩
  simp [start, freeSupply, forest]

theorem pages_conserved (layout : Layout) (mem : Nat → Index → Pte) (free : List Nat) (distinct : free.Nodup)
    (inside : ∀ page ∈ free, layout.first ≤ page ∧ page < PHYSTOP / PGSIZE)
    (labels : List (List Bool × Call)) (userland : ∀ label ∈ labels, label.2.Userland) (m : Machine)
    (ran : (callSystem layout).run (start mem free) labels = some m) :
    -- the pages taken from the free list are those of the directories, each once
    (m.state.freelist : Multiset Nat) + (m.dirs.map (pagesOf m.state.mem)).sum = free ∧
    ((m.state.freelist : Multiset Nat) + (m.dirs.map (pagesOf m.state.mem)).sum).Nodup ∧
    -- `freevm` returns, and gives back the pages of its directory and no others
    ∀ d ∈ m.dirs, ∀ fails, ∃ m', callNext layout m (fails, .freevm d) = some m' ∧ m'.dirs = m.dirs.erase d ∧
      (m'.state.freelist : Multiset Nat) = m.state.freelist + pagesOf m.state.mem d ∧
      (m'.dirs.map (pagesOf m'.state.mem)).sum = (m'.dirs.map (pagesOf m.state.mem)).sum := by
  have owned := run_owned (start_owned mem free distinct inside) userland ran
  have total := owned.total
  rw [add_zero] at total
  refine ⟨total, ?_, fun d isIn fails => ?_⟩
  · have allDistinct := owned.distinct
    rwa [add_zero] at allDistinct
  · have atHead := owned.perm (List.perm_cons_erase isIn)
    have atCall : Owned (freeSupply free distinct inside) (d :: m.dirs.erase d) 0 { m.state with fails := fails } :=
      ⟨atHead.total⟩
    have freed : wp (Call.code layout m.dirs (.freevm d))
        (fun dirs s' => dirs = m.dirs.erase d ∧
          (s'.freelist : Multiset Nat) = m.state.freelist + pagesOf m.state.mem d ∧
          pagesOfAll s'.mem dirs = pagesOfAll m.state.mem dirs) (fun _ _ => False)
        { m.state with fails := fails } := by
      rw [Call.code, wp_bind]
      exact freevm_spec atCall fun _ _ same list => ⟨rfl, list, same.forest⟩
    obtain ⟨dirs, s', isRun, isDirs, list, same⟩ := freed.returns
    exact ⟨⟨s', dirs⟩, callNext_eq_some (decide_eq_true isIn) isRun, isDirs, list, same⟩

/-- With enough pages a first call of `setupkvm` returns a directory. -/
theorem run_setupkvm (layout : Layout) (mem : Nat → Index → Pte) (free : List Nat) (distinct : free.Nodup)
    (inside : ∀ page ∈ free, layout.first ≤ page ∧ page < PHYSTOP / PGSIZE) (enough : 1025 < free.length) :
    ∃ m d, m.dirs = [d] ∧ Fresh layout m.state.mem d ∧
      (callSystem layout).run (start mem free) [([], .setupkvm)] = some m := by
  obtain ⟨d, s, isRun, -, -, mapped⟩ := setupkvm_returns (start_owned mem free distinct inside) rfl enough
  have code : Call.code layout [] .setupkvm (start mem free).state = (.ok [d], s) := by
    rw [Call.code, Prog.bind_ran isRun]
    rfl
  have stepped : callNext layout (start mem free) ([], .setupkvm) = some ⟨s, [d]⟩ := callNext_eq_some rfl code
  exact ⟨⟨s, [d]⟩, d, rfl, mapped.fresh, (callSystem layout).run_cons_eq_some.mpr ⟨_, stepped, rfl⟩⟩

def sampleLayout : Layout := ⟨0x108, 0x10a, by decide, by decide, by decide⟩

def samplePages : List Nat := List.range' 0x400 2000

theorem samplePages_inside : ∀ page ∈ samplePages, sampleLayout.first ≤ page ∧ page < PHYSTOP / PGSIZE := by
  intro page isIn
  obtain ⟨low, high⟩ := List.mem_range'_1.mp isIn
  have bounds : sampleLayout.first = 0x10a ∧ PHYSTOP / PGSIZE = 0xE000 := by decide
  omega

theorem sample_setupkvm : ∃ m d, m.dirs = [d] ∧ Fresh sampleLayout m.state.mem d ∧
    (callSystem sampleLayout).run (start (fun _ _ => Pte.zero) samplePages) [([], .setupkvm)] = some m :=
  run_setupkvm sampleLayout _ samplePages List.nodup_range' samplePages_inside (by simp [samplePages])

/-- The directory that `setupkvm` returns is freed again. -/
theorem sample_conserved : ∃ m d m', m.dirs = [d] ∧
    (callSystem sampleLayout).run (start (fun _ _ => Pte.zero) samplePages) [([], .setupkvm)] = some m ∧
    callNext sampleLayout m ([], .freevm d) = some m' ∧ (m'.state.freelist : Multiset Nat) = samplePages := by
  obtain ⟨m, d, isDirs, -, ran⟩ := sample_setupkvm
  have userland : ∀ label ∈ [(([] : List Bool), Call.setupkvm)], label.2.Userland := by
    intro label isIn
    cases List.mem_singleton.mp isIn
    trivial
  obtain ⟨total, -, freed⟩ := pages_conserved sampleLayout (fun _ _ => Pte.zero) samplePages List.nodup_range'
    samplePages_inside [([], .setupkvm)] userland m ran
  obtain ⟨m', stepped, -, list, -⟩ := freed d (by simp [isDirs]) []
  refine ⟨m, d, m', isDirs, ran, stepped, ?_⟩
  rw [list, ← total, isDirs]
  simp

/-- The jump over absent tables loses nothing: `deallocuvm` ends as if it had visited every
page of the range, of which those that are mapped are freed once, and no other page. -/
theorem deallocuvm_visits_every_page {oldsz newsz : Nat} (owned : Owned supply (d :: others) hand s)
    (smaller : newsz < oldsz) (user : oldsz ≤ KERNBASE) :
    ∃ s', deallocuvm layout d oldsz newsz s = (.ok newsz, s') ∧
      visitPages layout d (pgroundup newsz) oldsz s = (.ok (), s') ∧
      s'.freelist.Nodup ∧
      s'.freelist = ((List.range' (pgroundup newsz) (pagesBelow oldsz - pgroundup newsz)).filterMap fun u =>
        (entry s.mem d u).next).reverse ++ s.freelist ∧
      (∀ u, Freed oldsz (pgroundup newsz) u → (entry s'.mem d u).next = none) ∧
      -- what is mapped outside the range stays mapped, and nothing else gets mapped
      Kept d (Freed oldsz (pgroundup newsz)) s.mem s'.mem ∧
      ∀ u, u < NPAGES → (entry s.mem d u).next = none → (entry s'.mem d u).next = none := by
  obtain ⟨_, s', visited, shrunk, gone, list⟩ := wp.returns (visitPages_spec (pgroundup newsz) user owned)
  have looped : wp (deallocuvm layout d oldsz newsz) (fun value after => value = newsz ∧ after = s')
      (fun _ _ => False) s := by
    rw [wp_deallocuvm smaller user]
    unfold wp
    rw [visited]
    exact ⟨rfl, rfl⟩
  obtain ⟨value, after, ran, rfl, rfl⟩ := looped.returns
  have distinct := (Multiset.nodup_add.mp (Multiset.nodup_add.mp shrunk.owned.distinct).1).1
  exact ⟨after, ran, visited, Multiset.coe_nodup.mp distinct, list, gone, shrunk.kept, shrunk.absent⟩

/-- No user page of a new directory is mapped, and no user table is there. -/
theorem sample_visited : ∃ m d s', m.dirs = [d] ∧
    (callSystem sampleLayout).run (start (fun _ _ => Pte.zero) samplePages) [([], .setupkvm)] = some m ∧
    deallocuvm sampleLayout d KERNBASE 1 m.state = (.ok 1, s') ∧
    visitPages sampleLayout d (pgroundup 1) KERNBASE m.state = (.ok (), s') := by
  obtain ⟨m, d, isDirs, -, ran⟩ := sample_setupkvm
  have owned := run_owned (start_owned _ _ List.nodup_range' samplePages_inside) (by simp [Call.Userland]) ran
  rw [isDirs] at owned
  have smaller : 1 < KERNBASE := by decide
  obtain ⟨s', deallocated, visited, -⟩ := deallocuvm_visits_every_page owned smaller le_rfl
  exact ⟨m, d, s', isDirs, ran, deallocated, visited⟩

/-- A call of `deallocuvm` with sizes in the kernel half puts a page on the free list that was
never allocated. -/
theorem kernel_page_freed : ∃ d m, (callSystem sampleLayout).run (start (fun _ _ => Pte.zero) samplePages)
      [([], .setupkvm), ([], .deallocuvm d 0x81001000 0x81000000)] = some m ∧
    0x1000 ∈ m.state.freelist ∧ 0x1000 ∉ samplePages ∧
    (m.state.freelist : Multiset Nat) + (m.dirs.map (pagesOf m.state.mem)).sum ≠ samplePages := by
  obtain ⟨m, d, isDirs, fresh, ran⟩ := sample_setupkvm
  have freed : wp (deallocuvm sampleLayout d 0x81001000 0x81000000)
      (fun _ s' => s'.freelist = 0x1000 :: m.state.freelist) (fun _ _ => False) { m.state with fails := [] } := by
    have sizes : (KERNPAGE + 0x1000 + 1) * PGSIZE = 0x81001000 ∧ (KERNPAGE + 0x1000) * PGSIZE = 0x81000000 := by
      decide
    rw [← sizes.1, ← sizes.2]
    exact deallocuvm_kernel 0x1000 fresh (by decide) (by decide)
  obtain ⟨result, s', isRun, list⟩ := freed.returns
  have code : Call.code sampleLayout m.dirs (.deallocuvm d 0x81001000 0x81000000) { m.state with fails := [] } =
      (.ok m.dirs, s') := by
    have sizes : (0x81001000 : BitVec 32).toNat = 0x81001000 ∧ (0x81000000 : BitVec 32).toNat = 0x81000000 := by
      decide
    rw [Call.code, sizes.1, sizes.2, Prog.bind_ran isRun]
    rfl
  have stepped : callNext sampleLayout m ([], .deallocuvm d 0x81001000 0x81000000) = some ⟨s', m.dirs⟩ :=
    callNext_eq_some (decide_eq_true (by simp [isDirs])) code
  have isFree : 0x1000 ∈ s'.freelist := by simp [list]
  have notSample : 0x1000 ∉ samplePages := by
    intro isIn
    have high := (List.mem_range'_1.mp isIn).2
    omega
  refine ⟨d, ⟨s', m.dirs⟩, ?_, isFree, notSample, fun same => notSample ?_⟩
  · have both := (callSystem sampleLayout).run_append (start (fun _ _ => Pte.zero) samplePages)
      [([], .setupkvm)] [([], .deallocuvm d 0x81001000 0x81000000)]
    rw [ran] at both
    refine both.trans ((callSystem sampleLayout).run_cons_eq_some.mpr ⟨_, stepped, rfl⟩)
  · have isPage : 0x1000 ∈ (samplePages : Multiset Nat) := by
      rw [← same]
      exact Multiset.mem_add.mpr (Or.inl isFree)
    exact Multiset.mem_coe.mp isPage

end Xv6.Vm
