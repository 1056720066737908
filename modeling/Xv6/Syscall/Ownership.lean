import Xv6.Syscall.Record

/-!
Contract: who owns each physical page, and what the record of system calls looks
like for a given history of completed calls.

A page is free, held by a process, used by the global list, or used by the record
of one call of one slot's occupant. Every step of the kernel moves pages between
owners; the lemmas here say what such a move does to the records.
-/

namespace Xv6.Syscall

open Function Xv6.Lib

/-- A completed call and the pages `kalloc` returned for its two records. -/
structure Completed where
  num : Nat
  datePage : Nat
  argPage : Nat

inductive RecordList where
  | dates
  | args
deriving DecidableEq

def Completed.page (call : Completed) : RecordList → Nat
  | .dates => call.datePage
  | .args => call.argPage

def Kernel.recordPages (k : Kernel) : RecordList → List Nat
  | .dates => k.dates.pages
  | .args => k.args.pages

/-- Who uses a page. The record of the call number `index` of a slot's occupant
is abandoned, not freed, when the slot goes to another process. -/
inductive Owner where
  | free
  | log
  | record (list : RecordList) (p : Slot) (index : Nat)
  | abandoned
  | proc (p : Slot)
deriving DecidableEq

def Owner.abandon (np : Slot) : Owner → Owner
  | .record list p index => if p = np then .abandoned else .record list p index
  | owner => owner

/-- The pages of the kernel stack and the address space. -/
def Proc.held (proc : Proc) : List Nat := proc.kstack :: proc.pages

def Usable (k : Kernel) (page : Nat) : Prop := page ≠ 0 ∧ Kernel.ValidPage k.kernelEnd page

/-- `owner` accounts for every page in use. -/
structure Accounts (k : Kernel) (calls : Slot → List Completed) (owner : Nat → Owner) : Prop where
  distinct : k.freelist.Nodup
  free : ∀ page ∈ k.freelist, owner page = .free ∧ Usable k page
  log : ∀ page ∈ k.log.pages, owner page = .log
  heap : ∀ list, ∀ page ∈ k.recordPages list,
    owner page = .abandoned ∨ ∃ p index, owner page = .record list p index
  record : ∀ list p index call, (calls p)[index]? = some call →
    owner (call.page list) = .record list p index ∧ Usable k (call.page list) ∧
      call.page list ∈ k.recordPages list
  procDistinct : ∀ p, (k.proc p).state ≠ .UNUSED → (k.proc p).held.Nodup
  proc : ∀ p, (k.proc p).state ≠ .UNUSED →
    ∀ page ∈ (k.proc p).held, owner page = .proc p ∧ Usable k page

def cells (calls : List Completed) (list : RecordList) (num : Nat) : List Nat :=
  (calls.filter fun call => call.num = num).map fun call => call.page list

/-- The record of one call number is a pair of lists of the pages of its calls. -/
structure OwnRecord (k : Kernel) (p : Slot) (num : Nat) (calls : List Completed) : Prop where
  dates : Kernel.Holds k.dates ((k.proc p).syscalls (num - 1)).count
    ((k.proc p).syscalls (num - 1)).datelist ((k.proc p).syscalls (num - 1)).datelistEnd
    (cells calls .dates num)
  args : Kernel.Holds k.args ((k.proc p).syscalls (num - 1)).count
    ((k.proc p).syscalls (num - 1)).arglist ((k.proc p).syscalls (num - 1)).arglistEnd
    (cells calls .args num)

structure Recorded (k : Kernel) (calls : Slot → List Completed) : Prop where
  accounts : ∃ owner, Accounts k calls owner
  global : ∃ nodes recorded, k.log.Lists nodes 0 recorded
  own : ∀ p, (k.proc p).state ≠ .UNUSED → ∀ num, 1 ≤ num → num ≤ SYS_CALL_COUNT →
    OwnRecord k p num (calls p)

theorem mem_cells {calls : List Completed} {list : RecordList} {num page : Nat} :
    page ∈ cells calls list num ↔
      ∃ (index : Nat) (call : Completed), calls[index]? = some call ∧ call.num = num ∧
        call.page list = page := by
  simp only [cells, List.mem_map, List.mem_filter, decide_eq_true_eq]
  constructor
  · rintro ⟨call, ⟨member, sameNum⟩, samePage⟩
    obtain ⟨index, found⟩ := List.mem_iff_getElem?.mp member
    exact ⟨index, call, found, sameNum, samePage⟩
  · rintro ⟨index, call, found, sameNum, samePage⟩
    exact ⟨call, ⟨List.mem_iff_getElem?.mpr ⟨index, found⟩, sameNum⟩, samePage⟩

variable {calls : Slot → List Completed} {k : Kernel} {owner : Nat → Owner} {p : Slot}

/-- A page of a record belongs to one call of one slot. -/
theorem Accounts.call_unique (accounts : Accounts k calls owner) {list : RecordList} {q : Slot}
    {num num' page : Nat} (left : page ∈ cells (calls p) list num)
    (right : page ∈ cells (calls q) list num') :
    p = q ∧ num = num' := by
  obtain ⟨index, call, found, sameNum, samePage⟩ := mem_cells.mp left
  obtain ⟨index', call', found', sameNum', samePage'⟩ := mem_cells.mp right
  have owned := (accounts.record list p index call found).1
  have owned' := (accounts.record list q index' call' found').1
  rw [samePage] at owned
  rw [samePage', owned] at owned'
  cases owned'
  rw [found] at found'
  cases found'
  exact ⟨rfl, sameNum.symm.trans sameNum'⟩

theorem Accounts.cells_nodup (accounts : Accounts k calls owner) (list : RecordList) (p : Slot) :
    ((calls p).map fun call => call.page list).Nodup := by
  rw [List.nodup_iff_injective_getElem]
  intro i j same
  simp only [List.getElem_map] at same
  have bound (i : Fin ((calls p).map fun call => call.page list).length) :
      i.val < (calls p).length := by
    simpa using i.isLt
  have left := (accounts.record list p i _ (List.getElem?_eq_getElem (bound i))).1
  have right := (accounts.record list p j _ (List.getElem?_eq_getElem (bound j))).1
  rw [same, right] at left
  injection left with _ _ sameIndex
  exact Fin.ext sameIndex.symm

/-- The machine has fewer pages than the count can reach. -/
theorem Accounts.calls_short (accounts : Accounts k calls owner) (p : Slot) (num : Nat) :
    (cells (calls p) .dates num).length + 1 < 2 ^ 32 := by
  have bounded : ((calls p).map fun call => call.page .dates).toFinset ⊆
      Finset.range (KERNBASE + PHYSTOP) := by
    intro page member
    rw [List.mem_toFinset, List.mem_map] at member
    obtain ⟨call, inCalls, samePage⟩ := member
    obtain ⟨index, found⟩ := List.mem_iff_getElem?.mp inCalls
    have valid := (accounts.record .dates p index call found).2.1.2.2.2
    rw [samePage] at valid
    rw [Finset.mem_range]
    omega
  have counted := Finset.card_le_card bounded
  rw [List.toFinset_card_of_nodup (accounts.cells_nodup .dates p), List.length_map,
    Finset.card_range] at counted
  have filtered := List.length_filter_le (fun call : Completed => decide (call.num = num)) (calls p)
  have sizes : KERNBASE + PHYSTOP + 1 < 2 ^ 32 := by decide
  simp only [cells, List.length_map]
  omega

/-- Only bookkeeping of the process table changed: no slot became used, and
nothing of the record, the pages or the free list moved. -/
structure Untouched (k after : Kernel) : Prop where
  kernelEnd : after.kernelEnd = k.kernelEnd
  freelist : after.freelist = k.freelist
  log : after.log = k.log
  dates : after.dates = k.dates
  args : after.args = k.args
  used : ∀ p, (after.proc p).state ≠ .UNUSED → (k.proc p).state ≠ .UNUSED
  held : ∀ p, (after.proc p).held = (k.proc p).held
  syscalls : ∀ p, (after.proc p).syscalls = (k.proc p).syscalls

/-- The slots in use are among those that were, with their pages and records;
nothing of the lists or the free list moved. -/
structure SameUsed (k after : Kernel) : Prop where
  kernelEnd : after.kernelEnd = k.kernelEnd
  freelist : after.freelist = k.freelist
  log : after.log = k.log
  dates : after.dates = k.dates
  args : after.args = k.args
  used : ∀ p, (after.proc p).state ≠ .UNUSED → (k.proc p).state ≠ .UNUSED ∧
    (after.proc p).held = (k.proc p).held ∧ (after.proc p).syscalls = (k.proc p).syscalls

variable {after : Kernel}

theorem Recorded.sameUsed (recorded : Recorded k calls) (same : SameUsed k after) :
    Recorded after calls := by
  obtain ⟨owner, accounts⟩ := recorded.accounts
  have usable : ∀ page, Usable k page → Usable after page := by
    intro page usable
    rw [Usable, same.kernelEnd]
    exact usable
  have pages : ∀ list, after.recordPages list = k.recordPages list := by
    intro list
    cases list
    · exact congrArg Heap.pages same.dates
    · exact congrArg Heap.pages same.args
  refine { accounts := ⟨owner, ?_⟩, global := same.log ▸ recorded.global, own := ?_ }
  · refine { distinct := same.freelist ▸ accounts.distinct, free := ?_,
             log := same.log ▸ accounts.log, heap := ?_, record := ?_, procDistinct := ?_,
             proc := ?_ }
    · intro page member
      rw [same.freelist] at member
      exact (accounts.free page member).imp_right (usable page)
    · intro list page member
      exact accounts.heap list page (pages list ▸ member)
    · intro list p index call found
      obtain ⟨owned, usablePage, held⟩ := accounts.record list p index call found
      exact ⟨owned, usable _ usablePage, pages list ▸ held⟩
    · intro p used
      obtain ⟨wasUsed, held, -⟩ := same.used p used
      rw [held]
      exact accounts.procDistinct p wasUsed
    · intro p used page member
      obtain ⟨wasUsed, held, -⟩ := same.used p used
      rw [held] at member
      exact (accounts.proc p wasUsed page member).imp_right (usable page)
  · intro p used num lower upper
    obtain ⟨wasUsed, -, syscalls⟩ := same.used p used
    have own := recorded.own p wasUsed num lower upper
    constructor
    · rw [syscalls, same.dates]
      exact own.dates
    · rw [syscalls, same.args]
      exact own.args

theorem Recorded.untouched (recorded : Recorded k calls) (same : Untouched k after) :
    Recorded after calls :=
  recorded.sameUsed
    { kernelEnd := same.kernelEnd, freelist := same.freelist, log := same.log, dates := same.dates,
      args := same.args,
      used := fun p used => ⟨same.used p used, same.held p, same.syscalls p⟩ }

theorem Untouched.trans {middle : Kernel} (first : Untouched k middle)
    (second : Untouched middle after) : Untouched k after where
  kernelEnd := second.kernelEnd.trans first.kernelEnd
  freelist := second.freelist.trans first.freelist
  log := second.log.trans first.log
  dates := second.dates.trans first.dates
  args := second.args.trans first.args
  used := fun p used => first.used p (second.used p used)
  held := fun p => (second.held p).trans (first.held p)
  syscalls := fun p => (second.syscalls p).trans (first.syscalls p)

theorem setProc_untouched {proc : Proc} (used : proc.state ≠ .UNUSED → (k.proc p).state ≠ .UNUSED)
    (held : proc.held = (k.proc p).held) (syscalls : proc.syscalls = (k.proc p).syscalls) :
    Untouched k (k.setProc p proc) := by
  have elsewhere : ∀ q, q ≠ p → (k.setProc p proc).proc q = k.proc q :=
    fun q other => k.setProc_proc_other other proc
  have here := k.setProc_proc_self p proc
  refine { kernelEnd := rfl, freelist := rfl, log := rfl, dates := rfl, args := rfl, used := ?_,
           held := ?_, syscalls := ?_ }
  all_goals
    intro q
    by_cases same : q = p
  · rw [same, here]
    exact used
  · rw [elsewhere q same]
    exact id
  · rw [same, here]
    exact held
  · rw [elsewhere q same]
  · rw [same, here]
    exact syscalls
  · rw [elsewhere q same]

theorem adopt_untouched (k : Kernel) (p : Slot) : Untouched k (k.adopt p) := by
  have same : ∀ q, ((k.adopt p).proc q).state = (k.proc q).state ∧
      ((k.adopt p).proc q).held = (k.proc q).held ∧
      ((k.adopt p).proc q).syscalls = (k.proc q).syscalls := by
    intro q
    by_cases child : (k.proc q).parent = some p
    · simp [Kernel.adopt, child, Proc.held]
    · simp [Kernel.adopt, child]
  exact { kernelEnd := rfl, freelist := rfl, log := rfl, dates := rfl, args := rfl,
          used := fun q used => (same q).1 ▸ used, held := fun q => (same q).2.1,
          syscalls := fun q => (same q).2.2 }

theorem exit_untouched (alive : (k.proc p).state = .RUNNING) (exited : k.exit p = .ok after) :
    Untouched k after := by
  unfold Kernel.exit at exited
  split at exited
  · cases exited
  · cases exited
    apply (adopt_untouched k p).trans
    refine setProc_untouched (fun _ isUnused => ?_) rfl rfl
    have used : (k.proc p).state ≠ .UNUSED := by
      rw [alive]
      decide
    have adopted : ((k.adopt p).proc p).state = (k.proc p).state := by
      dsimp only [Kernel.adopt]
      split <;> rfl
    exact used (adopted ▸ isUnused)

theorem Recorded.forget (recorded : Recorded k calls) {np : Slot}
    (unused : (k.proc np).state = .UNUSED) :
    Recorded k (update calls np []) := by
  obtain ⟨owner, accounts⟩ := recorded.accounts
  have kept : ∀ o, (∀ list index, o ≠ Owner.record list np index) → o.abandon np = o := by
    intro o foreign
    cases o with
    | record list p index =>
      have other : p ≠ np := fun same => foreign list index (same ▸ rfl)
      exact if_neg other
    | free => rfl
    | log => rfl
    | abandoned => rfl
    | proc p => rfl
  refine { accounts := ⟨fun page => (owner page).abandon np, ?_⟩, global := recorded.global,
           own := ?_ }
  · refine { distinct := accounts.distinct, free := ?_, log := ?_, heap := ?_, record := ?_,
             procDistinct := accounts.procDistinct, proc := ?_ }
    · intro page member
      obtain ⟨isFree, usable⟩ := accounts.free page member
      exact ⟨by rw [isFree]; rfl, usable⟩
    · intro page member
      rw [accounts.log page member]
      rfl
    · intro list page member
      rcases accounts.heap list page member with gone | ⟨p, index, owned⟩
      · exact Or.inl (by rw [gone]; rfl)
      · by_cases same : p = np
        · exact Or.inl (by rw [owned, same]; exact if_pos rfl)
        · exact Or.inr ⟨p, index, by rw [owned]; exact if_neg same⟩
    · intro list p index call found
      by_cases same : p = np
      · rw [same, update_self] at found
        cases found
      · rw [update_of_ne same] at found
        obtain ⟨owned, rest⟩ := accounts.record list p index call found
        exact ⟨by rw [owned]; exact if_neg same, rest⟩
    · intro p used page member
      obtain ⟨owned, usable⟩ := accounts.proc p used page member
      exact ⟨by rw [owned]; rfl, usable⟩
  · intro p used
    have different : p ≠ np := fun same => used (same ▸ unused)
    rw [update_of_ne different]
    exact recorded.own p used

/-- The free list without `taken`, which slot `p` now holds as `proc` says. -/
def Kernel.assign (k : Kernel) (p : Slot) (proc : Proc) (freelist : List Nat) : Kernel :=
  { k.setProc p proc with freelist := freelist }

theorem Kernel.assign_proc_self (k : Kernel) (p : Slot) (proc : Proc) (freelist : List Nat) :
    (k.assign p proc freelist).proc p = proc := update_self ..

theorem Kernel.assign_proc_other (k : Kernel) {q : Slot} (other : q ≠ p) (proc : Proc)
    (freelist : List Nat) : (k.assign p proc freelist).proc q = k.proc q :=
  update_of_ne other ..

theorem Accounts.heap_owner (accounts : Accounts k calls owner) {list : RecordList} {page : Nat}
    (member : page ∈ k.recordPages list) : owner page ≠ .free ∧ owner page ≠ .proc p := by
  rcases accounts.heap list page member with gone | ⟨q, index, found⟩
  · rw [gone]
    exact ⟨Owner.noConfusion, Owner.noConfusion⟩
  · rw [found]
    exact ⟨Owner.noConfusion, Owner.noConfusion⟩

/-- Pages move between the free list and slot `p` only. -/
theorem Recorded.assign (recorded : Recorded k calls) (accounts : Accounts k calls owner)
    {owner' : Nat → Owner} {proc : Proc} {freelist : List Nat}
    (kept : ∀ page, owner page ≠ .free → owner page ≠ .proc p → owner' page = owner page)
    (distinct : freelist.Nodup) (free : ∀ page ∈ freelist, owner' page = .free ∧ Usable k page)
    (held : proc.state ≠ .UNUSED → proc.held.Nodup ∧
      ∀ page ∈ proc.held, owner' page = .proc p ∧ Usable k page)
    (own : proc.state ≠ .UNUSED → ∀ num, 1 ≤ num → num ≤ SYS_CALL_COUNT →
      OwnRecord (k.assign p proc freelist) p num (calls p)) :
    Recorded (k.assign p proc freelist) calls := by
  refine { accounts := ⟨owner', ?_⟩, global := recorded.global, own := fun q used => ?_ }
  · refine { distinct := distinct, free := free, log := ?_, heap := ?_, record := ?_,
             procDistinct := fun q used => ?_, proc := fun q used => ?_ }
    · intro page member
      have owned := accounts.log page member
      rw [kept page (by simp [owned]) (by simp [owned]), owned]
    · intro list page member
      obtain ⟨notFree, notProc⟩ := accounts.heap_owner (p := p) member
      rw [kept page notFree notProc]
      exact accounts.heap list page member
    · intro list q index call found
      obtain ⟨owned, rest⟩ := accounts.record list q index call found
      rw [kept _ (by simp [owned]) (by simp [owned])]
      exact ⟨owned, rest⟩
    all_goals by_cases same : q = p
    · rw [same, Kernel.assign_proc_self] at used ⊢
      exact (held used).1
    · rw [Kernel.assign_proc_other k same] at used ⊢
      exact accounts.procDistinct q used
    · rw [same, Kernel.assign_proc_self] at used ⊢
      exact (held used).2
    · rw [Kernel.assign_proc_other k same] at used ⊢
      intro page member
      obtain ⟨owned, usable⟩ := accounts.proc q used page member
      rw [kept page (by simp [owned]) (by simpa [owned] using same)]
      exact ⟨owned, usable⟩
  · by_cases same : q = p
    · rw [same, Kernel.assign_proc_self] at used
      exact same ▸ own used
    · rw [Kernel.assign_proc_other k same] at used
      intro num lower upper
      have before := recorded.own q used num lower upper
      constructor
      · rw [Kernel.assign_proc_other k same]
        exact before.dates
      · rw [Kernel.assign_proc_other k same]
        exact before.args

theorem Recorded.take (recorded : Recorded k calls) {proc : Proc} {taken rest : List Nat}
    (supply : k.freelist = taken ++ rest) (distinct : proc.held.Nodup)
    (source : ∀ page ∈ proc.held,
      page ∈ taken ∨ ((k.proc p).state ≠ .UNUSED ∧ page ∈ (k.proc p).held))
    (own : ∀ num, 1 ≤ num → num ≤ SYS_CALL_COUNT → OwnRecord (k.assign p proc rest) p num (calls p)) :
    Recorded (k.assign p proc rest) calls := by
  obtain ⟨owner, accounts⟩ := recorded.accounts
  have wasFree : ∀ page ∈ taken, owner page = .free ∧ Usable k page :=
    fun page member => accounts.free page (supply ▸ List.mem_append_left rest member)
  have splits := accounts.distinct
  rw [supply, List.nodup_append] at splits
  -- a page that is not free has not been taken
  have kept : ∀ page, owner page ≠ .free →
      (if page ∈ taken then Owner.proc p else owner page) = owner page :=
    fun page notFree => if_neg fun member => notFree (wasFree page member).1
  refine recorded.assign accounts (fun page notFree _ => kept page notFree) splits.2.1
    (fun page member => ?_) (fun _ => ⟨distinct, fun page member => ?_⟩) fun _ => own
  · have notTaken : page ∉ taken := fun inTaken => splits.2.2 page inTaken page member rfl
    rw [if_neg notTaken]
    exact accounts.free page (supply ▸ List.mem_append_right taken member)
  · rcases source page member with inTaken | ⟨wasUsed, inHeld⟩
    · rw [if_pos inTaken]
      exact ⟨rfl, (wasFree page inTaken).2⟩
    · obtain ⟨owned, usable⟩ := accounts.proc p wasUsed page inHeld
      rw [kept page (by simp [owned])]
      exact ⟨owned, usable⟩

theorem Recorded.give (recorded : Recorded k calls) {proc : Proc} {returned : List Nat}
    (used : (k.proc p).state ≠ .UNUSED) (distinct : returned.Nodup)
    (source : ∀ page ∈ returned, page ∈ (k.proc p).held)
    (kept : proc.state ≠ .UNUSED → proc.held.Nodup ∧
      ∀ page ∈ proc.held, page ∈ (k.proc p).held ∧ page ∉ returned)
    (syscalls : proc.syscalls = (k.proc p).syscalls) :
    Recorded (k.assign p proc (returned ++ k.freelist)) calls := by
  obtain ⟨owner, accounts⟩ := recorded.accounts
  have wasOwned : ∀ page ∈ returned, owner page = .proc p ∧ Usable k page :=
    fun page member => accounts.proc p used page (source page member)
  -- a page of another owner has not been returned
  have other : ∀ page, owner page ≠ .proc p →
      (if page ∈ returned then Owner.free else owner page) = owner page :=
    fun page foreign => if_neg fun member => foreign (wasOwned page member).1
  refine recorded.assign accounts (fun page _ foreign => other page foreign) ?_
    (fun page member => ?_) (fun used' => ⟨(kept used').1, fun page member => ?_⟩)
    fun used' num lower upper => ?_
  · rw [List.nodup_append]
    refine ⟨distinct, accounts.distinct, ?_⟩
    rintro page inReturned _ inFree rfl
    have owned := (wasOwned page inReturned).1
    rw [(accounts.free page inFree).1] at owned
    cases owned
  · by_cases inReturned : page ∈ returned
    · rw [if_pos inReturned]
      exact ⟨rfl, (wasOwned page inReturned).2⟩
    · rw [if_neg inReturned]
      exact accounts.free page ((List.mem_append.mp member).resolve_left inReturned)
  · obtain ⟨inHeld, notReturned⟩ := (kept used').2 page member
    rw [if_neg notReturned]
    exact accounts.proc p used page inHeld
  · have before := recorded.own p used num lower upper
    constructor
    · rw [Kernel.assign_proc_self, syscalls]
      exact before.dates
    · rw [Kernel.assign_proc_self, syscalls]
      exact before.args

theorem cells_append (calls : List Completed) (call : Completed) (list : RecordList) (num : Nat) :
    cells (calls ++ [call]) list num =
      cells calls list num ++ if call.num = num then [call.page list] else [] := by
  by_cases same : call.num = num
  · simp [cells, List.filter_append, same]
  · simp [cells, List.filter_append, same]

/-- The pages of another record are neither the new page nor in this list. -/
theorem Accounts.apart (accounts : Accounts k calls owner) {list : RecordList} {q : Slot}
    {num num' fresh : Nat} (isFree : owner fresh = .free) (other : q ≠ p ∨ num' ≠ num) :
    ∀ cell ∈ cells (calls q) list num',
      cell ≠ fresh ∧ cell ∉ cells (calls p) list num ∧ cell ∈ k.recordPages list := by
  intro cell member
  obtain ⟨index, call, found, -, samePage⟩ := mem_cells.mp member
  obtain ⟨owned, -, held⟩ := accounts.record list q index call found
  rw [samePage] at owned held
  refine ⟨fun same => ?_, fun inList => ?_, held⟩
  · rw [same, isFree] at owned
    cases owned
  · obtain ⟨sameSlot, sameNum⟩ := accounts.call_unique member inList
    exact other.elim (fun differs => differs sameSlot) fun differs => differs sameNum

/-- The owners after a call: the three pages go to the log and to the two records
of the next call of `p`. -/
structure RecordOwner (owner owner' : Nat → Owner) (p : Slot) (index : Nat)
    (nodePage datePage argPage : Nat) : Prop where
  node : owner' nodePage = .log
  date : owner' datePage = .record .dates p index
  arg : owner' argPage = .record .args p index
  rest : ∀ page, page ≠ nodePage → page ≠ datePage → page ≠ argPage → owner' page = owner page

theorem recordOwner_exists (owner : Nat → Owner) (p : Slot) (index : Nat)
    {nodePage datePage argPage : Nat} (nodeDate : nodePage ≠ datePage)
    (nodeArg : nodePage ≠ argPage) (dateArg : datePage ≠ argPage) :
    ∃ owner', RecordOwner owner owner' p index nodePage datePage argPage := by
  refine ⟨update (update (update owner nodePage .log)
    datePage (.record .dates p index)) argPage (.record .args p index), ?_, ?_, ?_, ?_⟩
  · rw [update_of_ne nodeArg, update_of_ne nodeDate, update_self]
  · rw [update_of_ne dateArg, update_self]
  · rw [update_self]
  · intro page notNode notDate notArg
    rw [update_of_ne notArg, update_of_ne notDate, update_of_ne notNode]

theorem Accounts.recordCall (accounts : Accounts k calls owner) {num : Nat}
    {nodePage datePage argPage : Nat} {rest : List Nat}
    (supply : k.freelist = nodePage :: datePage :: argPage :: rest)
    (kernelEnd : after.kernelEnd = k.kernelEnd) (freelist : after.freelist = rest)
    (log : after.log.pages = nodePage :: k.log.pages)
    (dates : after.dates.pages = datePage :: k.dates.pages)
    (args : after.args.pages = argPage :: k.args.pages)
    (state : ∀ q, (after.proc q).state = (k.proc q).state)
    (held : ∀ q, (after.proc q).held = (k.proc q).held) :
    ∃ owner', Accounts after
      (update calls p (calls p ++ [⟨num, datePage, argPage⟩])) owner' := by
  have distinct := accounts.distinct
  rw [supply] at distinct
  simp only [List.nodup_cons, List.mem_cons, not_or] at distinct
  obtain ⟨⟨nodeDate, nodeArg, nodeRest⟩, ⟨dateArg, dateRest⟩, argRest, restDistinct⟩ := distinct
  have inFree : ∀ page, page = nodePage ∨ page = datePage ∨ page = argPage ∨ page ∈ rest →
      page ∈ k.freelist := by
    intro page cases
    rw [supply]
    simpa using cases
  have wasFree : ∀ page, page = nodePage ∨ page = datePage ∨ page = argPage ∨ page ∈ rest →
      owner page = .free ∧ Usable k page :=
    fun page cases => accounts.free page (inFree page cases)
  obtain ⟨owner', owners⟩ :=
    recordOwner_exists owner p (calls p).length nodeDate nodeArg dateArg
  have kept : ∀ page, owner page ≠ .free → owner' page = owner page := by
    intro page notFree
    exact owners.rest page (fun same => notFree (wasFree page (by simp [same])).1)
      (fun same => notFree (wasFree page (by simp [same])).1)
      (fun same => notFree (wasFree page (by simp [same])).1)
  have usable : ∀ page, Usable k page → Usable after page := by
    intro page holds
    rw [Usable, kernelEnd]
    exact holds
  have pages : ∀ list, after.recordPages list =
      (Completed.page ⟨num, datePage, argPage⟩ list) :: k.recordPages list := by
    intro list
    cases list
    · exact dates
    · exact args
  have newOwner : ∀ list, owner' (Completed.page ⟨num, datePage, argPage⟩ list) =
      .record list p (calls p).length := by
    intro list
    cases list
    · exact owners.date
    · exact owners.arg
  refine ⟨owner', { distinct := freelist ▸ restDistinct, free := ?_, log := ?_, heap := ?_,
                    record := ?_, procDistinct := ?_, proc := ?_ }⟩
  · intro page member
    rw [freelist] at member
    have free := wasFree page (by simp [member])
    rw [owners.rest page (fun same => nodeRest (same ▸ member)) (fun same => dateRest (same ▸ member))
      (fun same => argRest (same ▸ member))]
    exact ⟨free.1, usable page free.2⟩
  · intro page member
    rw [log] at member
    rcases List.mem_cons.mp member with isNode | old
    · rw [isNode]
      exact owners.node
    · have owned := accounts.log page old
      rw [kept page (by rw [owned]; exact Owner.noConfusion)]
      exact owned
  · intro list page member
    rw [pages] at member
    rcases List.mem_cons.mp member with isNew | old
    · rw [isNew]
      exact Or.inr ⟨p, (calls p).length, newOwner list⟩
    · rw [kept page (accounts.heap_owner (p := p) old).1]
      exact accounts.heap list page old
  · intro list q index call found
    have old : (calls q)[index]? = some call → owner' (call.page list) = .record list q index ∧
        Usable after (call.page list) ∧ call.page list ∈ after.recordPages list := by
      intro found
      obtain ⟨owned, holds, inHeap⟩ := accounts.record list q index call found
      rw [kept _ (by rw [owned]; exact Owner.noConfusion), pages]
      exact ⟨owned, usable _ holds, List.mem_cons_of_mem _ inHeap⟩
    by_cases same : q = p
    · subst same
      rw [update_self, List.getElem?_append] at found
      split at found
      · exact old found
      · have isNew := List.mem_of_getElem? found
        have index_eq : index = (calls q).length := by
          have bound := (List.getElem?_eq_some_iff.mp found).1
          simp only [List.length_singleton] at bound
          omega
        rw [List.mem_singleton.mp isNew, index_eq, pages]
        refine ⟨newOwner list, ?_, List.mem_cons_self⟩
        cases list
        · exact usable _ (wasFree datePage (by simp)).2
        · exact usable _ (wasFree argPage (by simp)).2
    · rw [update_of_ne same] at found
      exact old found
  · intro q used
    rw [held]
    exact accounts.procDistinct q (state q ▸ used)
  · intro q used page member
    rw [held] at member
    obtain ⟨owned, holds⟩ := accounts.proc q (state q ▸ used) page member
    rw [kept page (by rw [owned]; exact Owner.noConfusion)]
    exact ⟨owned, usable page holds⟩

end Xv6.Syscall
