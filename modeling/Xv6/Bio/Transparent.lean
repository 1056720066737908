import Xv6.Bio.Machine
import Xv6.Lib.Heap

/-!
Contract: the buffer cache and the log are transparent.

A block has up to three copies: in a buffer, in the log and at its home. Only `B_DIRTY`
says that the buffer is ahead of the home, and every write by the driver clears it, so
a recorded block stays pinned only while nobody calls `bwrite` on it.
-/

namespace Xv6.Bio

open Function Xv6.Lib Xv6.RedoLog

namespace Machine

variable {P : Type}

/-! ### The discipline of the code -/

/-- What `log.c` and its callers keep to: no process changes the log region, `bwrite` is
not called on a recorded block, and no changed buffer is released before it is stored. -/
def Disciplined (m : Machine P) : Step P → Prop
  | .modify _ b _ => ¬ m.log.Holds (m.buf b).blockno
  | .logWrite _ b => ¬ m.log.Holds (m.buf b).blockno
  | .bwrite _ b => (m.buf b).blockno ∉ m.log.lh.entries
  | .brelse _ b => m.pending b = false
  | _ => True

instance (m : Machine P) (step : Step P) : Decidable (m.Disciplined step) := by
  unfold Disciplined Log.Holds
  cases step <;> infer_instance

/-- How many blocks of the transaction are in the log. -/
def copied (m : Machine P) : Nat :=
  match m.commit with
  | .writing tail => tail
  | .heading | .installing _ => m.log.lh.n.toNat
  | _ => 0

/-- How many blocks of the transaction are at home. -/
def installed (m : Machine P) : Nat :=
  match m.commit with
  | .installing tail => tail
  | _ => 0

/-! ### The invariant -/

/-- One buffer is in order. `inside` is the log region, and `todo` are the recorded blocks
that are not at home yet. -/
structure Kept (inside : Nat → Prop) (disk logical : Nat → Block) (todo : List Nat) (buf : Buf)
    (held pending : Bool) : Prop where
  counted : buf.refcnt = held.toNat
  device : held ∨ buf.dirty → buf.dev = ROOTDEV
  valid : buf.dev = ROOTDEV → buf.valid
  changed : pending → held ∧ ¬ inside buf.blockno
  contents : buf.dev = ROOTDEV → ¬ inside buf.blockno → pending = false →
    buf.data = logical buf.blockno
  region : buf.dev = ROOTDEV → inside buf.blockno → buf.data = disk buf.blockno
  dirty : buf.dirty → buf.blockno ∈ todo

/-- The part of the invariant that does not depend on how far `commit` is. The first
`copied` recorded blocks are in the log, and the first `installed` ones are at home. -/
structure Inv (m : Machine P) (copied installed : Nat) : Prop where
  sound : ∃ order, m.cache.Sound order
  kept : ∀ b, Kept m.log.Holds m.disk m.logical (m.log.lh.entries.drop installed) (m.buf b)
    (m.holder b).isSome (m.pending b)
  ahead : ∀ x, ¬ m.log.Holds x → m.disk x ≠ m.logical x →
    ∃ b, (m.buf b).key = (ROOTDEV, x) ∧ (m.buf b).dirty
  pinned : ∀ x ∈ m.log.lh.entries.drop installed,
    ∃ b, (m.buf b).key = (ROOTDEV, x) ∧ (m.buf b).dirty
  nonneg : 0 ≤ m.log.lh.n
  distinct : m.log.lh.entries.Nodup
  outside : ∀ x ∈ m.log.lh.entries, ¬ m.log.Holds x
  room : ∀ i < m.log.lh.n.toNat, m.log.Holds (m.log.start + i + 1)
  copiedLe : copied ≤ m.log.lh.n.toNat
  logged : ∀ i < copied, m.disk (m.log.start + i + 1) = m.logical (m.log.lh.block i)

variable {m : Machine P} {copied installed : Nat}

theorem block_mem (lh : LogHeader) {i : Nat} (below : i < lh.n.toNat) : lh.block i ∈ lh.entries :=
  List.mem_map.mpr ⟨i, List.mem_range.mpr below, rfl⟩

theorem drop_entries (lh : LogHeader) {i : Nat} (below : i < lh.n.toNat) :
    lh.entries.drop i = lh.block i :: lh.entries.drop (i + 1) := by
  have length := lh.length_entries
  rw [List.drop_eq_getElem_cons (by omega)]
  congr 1
  simp [LogHeader.entries]

variable {b : BufId}

variable {p : P} {m' : Machine P}

section

variable (inv : m.Inv copied installed)

include inv

theorem Inv.eq_of_key {a : BufId} {x : Nat}
    (left : (m.buf a).key = (ROOTDEV, x)) (right : (m.buf b).key = (ROOTDEV, x)) : a = b := by
  obtain ⟨order, sound⟩ := inv.sound
  apply sound.unique a b (left.trans right.symm)
  rw [show (m.cache.buf a).key = (ROOTDEV, x) from left]
  intro zero
  cases congrArg Prod.fst zero

theorem Inv.unpending (free : m.holder b = none) : m.pending b = false := by
  cases changed : m.pending b with
  | false => rfl
  | true =>
    have held := ((inv.kept b).changed changed).1
    rw [free] at held
    cases held

/-! ### Touching a buffer

`bread` and `brelse` change who holds a buffer, and a miss changes what it is for. The
disk and the log stay as they are. -/

theorem Inv.touch {cache : Bcache} {new : Buf} {who : Option P}
    (sound : ∃ order, cache.Sound order) (buf : cache.buf = update m.buf b new)
    (stays : (m.buf b).dirty = true → new.key = (m.buf b).key ∧ new.dirty = true)
    (kept : Kept m.log.Holds m.disk m.logical (m.log.lh.entries.drop installed) new who.isSome (m.pending b)) :
    Inv { m with cache := cache, holder := update m.holder b who } copied installed := by
  -- A dirty buffer stays for its block.
  have pins : ∀ x, (∃ a, (m.buf a).key = (ROOTDEV, x) ∧ (m.buf a).dirty = true) →
      ∃ a, (cache.buf a).key = (ROOTDEV, x) ∧ (cache.buf a).dirty = true := by
    rintro x ⟨a, isKey, isDirty⟩
    refine ⟨a, ?_⟩
    by_cases isB : a = b
    · subst isB
      rw [buf, update_self]
      exact ⟨(stays isDirty).1.trans isKey, (stays isDirty).2⟩
    · rw [buf, update_of_ne isB]
      exact ⟨isKey, isDirty⟩
  refine ⟨sound, ?_, ?_, ?_, inv.nonneg, inv.distinct, inv.outside, inv.room, inv.copiedLe,
    inv.logged⟩
  · intro a
    simp only [Machine.buf]
    by_cases isB : a = b
    · subst isB
      rw [buf, update_self, update_self]
      exact kept
    · rw [buf, update_of_ne isB, update_of_ne isB]
      exact inv.kept a
  · intro x outside unlike
    exact pins x (inv.ahead x outside unlike)
  · intro x recorded
    exact pins x (inv.pinned x recorded)

/-- What `bread` does to a machine: the buffer was for the block already, or it is
recycled and read. -/
inductive Read (m : Machine P) (p : P) (x : Nat) : Machine P → BufId → Prop where
  | hit (b : BufId) (isKey : (m.buf b).key = (ROOTDEV, x)) :
      Read m p x { m with
        cache := m.cache.set b { m.buf b with refcnt := 1 }
        holder := update m.holder b (some p) } b
  | miss (b : BufId) (uncached : ∀ a, (m.buf a).key ≠ (ROOTDEV, x)) (clean : (m.buf b).dirty = false) :
      Read m p x { m with
        cache := m.cache.set b ⟨true, false, ROOTDEV, x, 1, m.disk x⟩
        holder := update m.holder b (some p) } b

theorem Inv.read {x : Nat} (read : m.bread p x = .ok (m', b)) :
    m.holder b = none ∧ Read m p x m' b := by
  obtain ⟨order, sound⟩ := inv.sound
  unfold bread at read
  have got := sound.bget ROOTDEV x
  generalize m.cache.bget ROOTDEV x = outcome at got read
  cases got with
  | full => cases read
  | hit a isKey =>
    simp only at read
    split at read
    · cases read
    · rename_i unheld
      have free : m.holder a = none := by simpa using unheld
      have one : (m.cache.buf a).refcnt + 1 = 1 := by
        have count := (inv.kept a).counted
        rw [free] at count
        exact congrArg (· + 1) count
      have valid := (inv.kept a).valid (congrArg Prod.fst isKey)
      simp only [Machine.buf, Bcache.set_buf, update_self, one] at valid read
      rw [if_pos valid] at read
      cases read
      exact ⟨free, .hit b isKey⟩
  | miss a uncached idle =>
    simp only at read
    split at read
    · cases read
    · rename_i unheld
      have free : m.holder a = none := by simpa using unheld
      have clean : (m.buf a).dirty = false := by
        unfold Buf.idle at idle
        simp only [Bool.and_eq_true, Bool.not_eq_true'] at idle
        exact idle.2
      simp only [Machine.buf, iderw, setBuf, Bcache.set, update_self,
        update_idem] at read
      cases read
      exact ⟨free, .miss b uncached clean⟩

/-- After `bread` the buffer is for the block, and the rest of the machine is as before. -/
structure Fresh (m : Machine P) (x : Nat) (m' : Machine P) (b : BufId) : Prop where
  free : m.holder b = none
  key : (m'.buf b).key = (ROOTDEV, x)
  held : (m'.holder b).isSome = true
  settled : m'.pending b = false
  others : ∀ a, a ≠ b → m'.buf a = m.buf a ∧ m'.holder a = m.holder a
  frame : m'.log = m.log ∧ m'.commit = m.commit ∧ m'.logical = m.logical ∧ m'.pending = m.pending

theorem Inv.bread {x : Nat} (read : m.bread p x = .ok (m', b)) :
    m'.Inv copied installed ∧ Fresh m x m' b := by
  obtain ⟨order, sound⟩ := inv.sound
  obtain ⟨free, did⟩ := inv.read read
  have settled := inv.unpending free
  cases did with
  | hit _ isKey =>
    have device : (m.buf b).dev = ROOTDEV := congrArg Prod.fst isKey
    have old := inv.kept b
    rw [settled] at old
    constructor
    · refine inv.touch ⟨order, sound.set rfl⟩ rfl (fun isDirty => ⟨rfl, isDirty⟩) ?_
      rw [settled]
      exact ⟨rfl, fun _ => device, old.valid, fun changed => (by cases changed), old.contents,
        old.region, old.dirty⟩
    · refine ⟨free, ?_, ?_, settled, fun a unlike => ⟨?_, ?_⟩, rfl, rfl, rfl, rfl⟩
      · simp only [Machine.buf, Bcache.set_buf, update_self]
        exact isKey
      · simp only [update_self, Option.isSome_some]
      · exact update_of_ne unlike _ _
      · exact update_of_ne unlike _ _
  | miss _ uncached clean =>
    -- No buffer is for the block, so the disk is not behind.
    have current : ¬ m.log.Holds x → m.disk x = m.logical x := by
      intro outside
      by_contra unlike
      obtain ⟨a, isKey, -⟩ := inv.ahead x outside unlike
      exact uncached a isKey
    constructor
    · refine inv.touch ⟨order, sound.recycle uncached⟩ rfl ?_ ?_
      · intro isDirty
        rw [clean] at isDirty
        cases isDirty
      · rw [settled]
        exact ⟨rfl, fun _ => rfl, fun _ => rfl, fun changed => (by cases changed),
          fun _ outside _ => current outside, fun _ _ => rfl, fun isDirty => by cases isDirty⟩
    · refine ⟨free, ?_, ?_, settled, fun a unlike => ⟨?_, ?_⟩, rfl, rfl, rfl, rfl⟩
      · simp only [Machine.buf, Bcache.set_buf, update_self]
        rfl
      · simp only [update_self, Option.isSome_some]
      · exact update_of_ne unlike _ _
      · exact update_of_ne unlike _ _

theorem Inv.brelse (held : (m.holder b).isSome = true)
    (settled : m.pending b = false) : (m.brelse b).Inv copied installed := by
  obtain ⟨order, sound⟩ := inv.sound
  have old := inv.kept b
  have device := old.device (Or.inl held)
  have count := old.counted
  rw [settled] at old
  refine inv.touch ⟨_, sound.brelse b⟩ (m.cache.brelse_buf b) (fun isDirty => ⟨rfl, isDirty⟩) ?_
  rw [settled]
  refine ⟨?_, fun _ => device, old.valid, fun changed => (by cases changed), old.contents,
    old.region, old.dirty⟩
  rw [held] at count
  change (m.buf b).refcnt - 1 = 0
  rw [count]
  rfl

/-! ### Writing a buffer

The driver writes a buffer to the disk for `bwrite`, with what its holder has put there.
For a process this also changes the logical disk. -/

/-- The machine after `bwrite` of a buffer with new contents. -/
def written (m : Machine P) (b : BufId) (data : Block) (logical : Nat → Block) : Machine P :=
  { m with
    cache := m.cache.set b { m.buf b with valid := true, dirty := false, data }
    disk := update m.disk (m.buf b).blockno data
    logical
    pending := update m.pending b false }

omit inv in
theorem buf_written (m : Machine P) (b : BufId) (data : Block) (logical : Nat → Block) :
    (m.written b data logical).buf =
      update m.buf b { m.buf b with valid := true, dirty := false, data } := rfl

omit inv in
theorem bwrite_eq (m : Machine P) (b : BufId) :
    m.bwrite b = .ok { m with
      cache := m.cache.set b { m.buf b with valid := true, dirty := false }
      disk := update m.disk (m.buf b).blockno (m.buf b).data } := by
  unfold bwrite iderw
  simp [Machine.buf, setBuf, Bcache.set]

omit inv in
theorem setData_bwrite (m : Machine P) (data : Block) (settled : m.pending b = false) :
    (m.setData b data).bwrite b = .ok (m.written b data m.logical) := by
  rw [bwrite_eq, written, ← settled, update_eq_self]
  simp [Machine.buf, setData, setBuf, Bcache.set]

/-- A write to a block `y`, after which the recorded blocks `entries.drop installed'` are
still to be installed. -/
theorem Inv.written {y : Nat} {data : Block} {logical : Nat → Block}
    {copied' installed' : Nat} (isBlock : (m.buf b).blockno = y) (held : (m.holder b).isSome = true)
    (elsewhere : ∀ x, x ≠ y → logical x = m.logical x) (here : ¬ m.log.Holds y → logical y = data)
    (todo : ∀ x, x ∈ m.log.lh.entries.drop installed' ↔ x ∈ m.log.lh.entries.drop installed ∧ x ≠ y)
    (copiedLe : copied' ≤ m.log.lh.n.toNat)
    (logged : ∀ i < copied', update m.disk y data (m.log.start + i + 1) = logical (m.log.lh.block i)) :
    (m.written b data logical).Inv copied' installed' := by
  obtain ⟨order, sound⟩ := inv.sound
  have old := inv.kept b
  have device := old.device (Or.inl held)
  have isKey : (m.buf b).key = (ROOTDEV, y) := Prod.ext device isBlock
  -- Buffers that were dirty and are for another block stay as they are.
  have pins : ∀ x, x ≠ y → (∃ a, (m.buf a).key = (ROOTDEV, x) ∧ (m.buf a).dirty = true) →
      ∃ a, ((m.written b data logical).buf a).key = (ROOTDEV, x) ∧
        ((m.written b data logical).buf a).dirty = true := by
    rintro x unlike ⟨a, key, isDirty⟩
    have isB : a ≠ b := by
      rintro rfl
      exact unlike (congrArg Prod.snd (key.symm.trans isKey))
    refine ⟨a, ?_⟩
    rw [buf_written, update_of_ne isB]
    exact ⟨key, isDirty⟩
  refine ⟨⟨order, sound.set rfl⟩, ?_, ?_, ?_, inv.nonneg, inv.distinct, inv.outside, inv.room,
    copiedLe, ?_⟩
  · intro a
    by_cases isB : a = b
    · subst isB
      rw [buf_written, update_self]
      simp only [Machine.written, update_self, isBlock]
      exact ⟨old.counted, fun _ => device, fun _ => rfl, fun changed => (by cases changed),
        fun _ outside _ => (here outside).symm, fun _ _ => (update_self y data m.disk).symm,
        fun isDirty => by cases isDirty⟩
    · rw [buf_written, update_of_ne isB]
      simp only [Machine.written, update_of_ne isB, isBlock]
      have other := inv.kept a
      have unlike : (m.buf a).dev = ROOTDEV → (m.buf a).blockno ≠ y := by
        intro isRoot same
        exact isB (inv.eq_of_key (Prod.ext isRoot same) isKey)
      refine ⟨other.counted, other.device, other.valid, other.changed, ?_, ?_, ?_⟩
      · intro isRoot outside clear
        rw [elsewhere _ (unlike isRoot)]
        exact other.contents isRoot outside clear
      · intro isRoot inside
        rw [update_of_ne (unlike isRoot)]
        exact other.region isRoot inside
      · intro isDirty
        exact (todo _).mpr ⟨other.dirty isDirty, unlike (other.device (Or.inr isDirty))⟩
  · intro x outside unlike
    simp only [Machine.written, isBlock] at outside unlike
    by_cases same : x = y
    · subst same
      rw [update_self, here outside] at unlike
      exact absurd rfl unlike
    · rw [update_of_ne same, elsewhere x same] at unlike
      exact pins x same (inv.ahead x outside unlike)
  · intro x recorded
    obtain ⟨wasTodo, unlike⟩ := (todo x).mp recorded
    exact pins x unlike (inv.pinned x wasTodo)
  · intro i below
    simp only [Machine.written, isBlock]
    exact logged i below

/-! ### Steps of processes -/

/-- Counters, flags and how far `commit` is are not part of the invariant. -/
theorem Inv.moved (outstanding : Int) (committing : Bool)
    (commit : Commit) (panicked : Option Panic) :
    Inv { m with log := { m.log with outstanding, committing }, commit, panicked } copied installed :=
  { inv with }

theorem Inv.modify {data : Block} (held : (m.holder b).isSome = true)
    (outside : ¬ m.log.Holds (m.buf b).blockno) :
    Inv { m.setData b data with pending := update m.pending b true } copied installed := by
  obtain ⟨order, sound⟩ := inv.sound
  have buf : (m.setData b data).buf = update m.buf b { m.buf b with data } := rfl
  have pins : ∀ x, (∃ a, (m.buf a).key = (ROOTDEV, x) ∧ (m.buf a).dirty = true) →
      ∃ a, ((m.setData b data).buf a).key = (ROOTDEV, x) ∧
        ((m.setData b data).buf a).dirty = true := by
    rintro x ⟨a, isKey, isDirty⟩
    refine ⟨a, ?_⟩
    by_cases isB : a = b
    · subst isB
      rw [buf, update_self]
      exact ⟨isKey, isDirty⟩
    · rw [buf, update_of_ne isB]
      exact ⟨isKey, isDirty⟩
  refine ⟨⟨order, sound.set rfl⟩, ?_, fun x outside unlike => pins x (inv.ahead x outside unlike),
    fun x recorded => pins x (inv.pinned x recorded), inv.nonneg, inv.distinct, inv.outside,
    inv.room, inv.copiedLe, inv.logged⟩
  intro a
  change Kept m.log.Holds m.disk m.logical _ ((m.setData b data).buf a) (m.holder a).isSome
    (update m.pending b true a)
  by_cases isB : a = b
  · subst isB
    rw [buf, update_self, update_self]
    have old := inv.kept a
    exact ⟨old.counted, old.device, old.valid, fun _ => ⟨held, outside⟩,
      fun _ _ clear => (by cases clear), fun _ inside => absurd inside outside, old.dirty⟩
  · rw [buf, update_of_ne isB, update_of_ne isB]
    exact inv.kept a

omit inv in
/-- Outside `commit` a recorded block is pinned and not yet at home. -/
theorem Inv.logWrite (inv : m.Inv 0 0) {log : Log} (held : (m.holder b).isSome = true)
    (outside : ¬ m.log.Holds (m.buf b).blockno)
    (recorded : RedoLog.logWrite m.log (m.buf b).blockno = .ok log) :
    Inv (stored { m.setBuf b { m.buf b with dirty := true } with log } b) 0 0 := by
  obtain ⟨order, sound⟩ := inv.sound
  have old := inv.kept b
  have device := old.device (Or.inl held)
  obtain ⟨nonneg, -, fits, distinct⟩ := logWrite_fits inv.nonneg inv.distinct recorded
  have isLog : log = logWriteRecord m.log (m.buf b).blockno := by
    unfold RedoLog.logWrite at recorded
    obtain ⟨-, -, result⟩ := bind_eq_ok.mp recorded
    cases result
    rfl
  have holds : ∀ x, log.Holds x ↔ m.log.Holds x := by
    subst isLog
    exact fun x => Iff.rfl
  have entries : ∀ x, x ∈ log.lh.entries ↔ x ∈ m.log.lh.entries ∨ x = (m.buf b).blockno := by
    intro x
    rw [isLog, entries_logWriteRecord inv.nonneg]
    split
    · rename_i already
      exact ⟨Or.inl, fun known => known.elim id fun same => same ▸ already⟩
    · rw [List.mem_append, List.mem_singleton]
  set after := stored { m.setBuf b { m.buf b with dirty := true } with log } b
  have buf : after.buf = update m.buf b { m.buf b with dirty := true } := rfl
  have logical : after.logical = update m.logical (m.buf b).blockno (m.buf b).data := by
    change update m.logical ((update m.buf b _) b).blockno
      ((update m.buf b _) b).data = _
    rw [update_self]
  have pin : (after.buf b).key = (ROOTDEV, (m.buf b).blockno) ∧ (after.buf b).dirty = true := by
    rw [buf, update_self]
    exact ⟨Prod.ext device rfl, rfl⟩
  have pins : ∀ x, (∃ a, (m.buf a).key = (ROOTDEV, x) ∧ (m.buf a).dirty = true) →
      ∃ a, (after.buf a).key = (ROOTDEV, x) ∧ (after.buf a).dirty = true := by
    rintro x ⟨a, isKey, isDirty⟩
    refine ⟨a, ?_⟩
    by_cases isB : a = b
    · subst isB
      rw [buf, update_self]
      exact ⟨isKey, rfl⟩
    · rw [buf, update_of_ne isB]
      exact ⟨isKey, isDirty⟩
  refine ⟨⟨order, sound.set rfl⟩, ?_, ?_, ?_, nonneg, distinct, ?_, ?_, Nat.zero_le _,
    fun i below => absurd below (Nat.not_lt_zero i)⟩
  · intro a
    rw [List.drop_zero, buf, logical]
    change Kept log.Holds m.disk _ _ _ (m.holder a).isSome (update m.pending b false a)
    by_cases isB : a = b
    · subst isB
      rw [update_self, update_self]
      exact ⟨old.counted, fun _ => device, old.valid, fun changed => (by cases changed),
        fun _ _ _ => (update_self (m.buf a).blockno (m.buf a).data m.logical).symm,
        fun _ inside => absurd ((holds _).mp inside) outside, fun _ => (entries _).mpr (Or.inr rfl)⟩
    · rw [update_of_ne isB, update_of_ne isB]
      have other := inv.kept a
      refine ⟨other.counted, other.device, other.valid,
        fun changed => ⟨(other.changed changed).1, fun inside =>
          (other.changed changed).2 ((holds _).mp inside)⟩, ?_,
        fun isRoot inside => other.region isRoot ((holds _).mp inside),
        fun isDirty => (entries _).mpr (Or.inl (other.dirty isDirty))⟩
      intro isRoot clear settled
      have unlike : (m.buf a).blockno ≠ (m.buf b).blockno := fun same =>
        isB (inv.eq_of_key (Prod.ext isRoot same) (Prod.ext device rfl))
      rw [update_of_ne unlike]
      exact other.contents isRoot (fun inside => clear ((holds _).mpr inside)) settled
  · intro x clear unlike
    by_cases same : x = (m.buf b).blockno
    · exact ⟨b, same ▸ pin.1, pin.2⟩
    · rw [logical, update_of_ne same] at unlike
      exact pins x (inv.ahead x (fun inside => clear ((holds x).mpr inside)) unlike)
  · intro x known
    rcases (entries x).mp known with known | same
    · exact pins x (inv.pinned x known)
    · exact ⟨b, same ▸ pin.1, pin.2⟩
  · intro x known
    rcases (entries x).mp known with known | same
    · exact fun inside => inv.outside x known ((holds x).mp inside)
    · exact fun inside => outside (same ▸ (holds x).mp inside)
  · intro i below
    have fits' : after.log.lh.n ≤ after.log.size - 1 := fits
    constructor <;> omega

theorem Inv.bwrite (held : (m.holder b).isSome = true)
    (unrecorded : (m.buf b).blockno ∉ m.log.lh.entries) (wrote : m.bwrite b = .ok m') :
    (stored m' b).Inv copied installed := by
  have device := (inv.kept b).device (Or.inl held)
  have isWritten : stored m' b = m.written b (m.buf b).data
      (update m.logical (m.buf b).blockno (m.buf b).data) := by
    rw [bwrite_eq] at wrote
    cases wrote
    simp [stored, Machine.written, Machine.buf, Bcache.set]
  rw [isWritten]
  refine inv.written rfl held (fun x unlike => update_of_ne unlike _ _)
    (fun _ => update_self _ _ _) ?_ inv.copiedLe ?_
  · intro x
    refine ⟨fun todo => ⟨todo, ?_⟩, And.left⟩
    rintro rfl
    exact unrecorded (List.mem_of_mem_drop todo)
  · intro i below
    have small : i < m.log.lh.n.toNat := Nat.lt_of_lt_of_le below inv.copiedLe
    have home := block_mem m.log.lh small
    have unlike : m.log.lh.block i ≠ (m.buf b).blockno := fun same => unrecorded (same ▸ home)
    rw [update_of_ne unlike, ← inv.logged i below]
    by_cases same : m.log.start + i + 1 = (m.buf b).blockno
    · rw [same, update_self]
      exact (inv.kept b).region device (same ▸ inv.room i small)
    · rw [update_of_ne same]

/-! ### Steps of `commit` -/

structure Pair (m : Machine P) (x y : Nat) (m' : Machine P) (a b : BufId) : Prop where
  unlike : a ≠ b
  keys : (m'.buf a).key = (ROOTDEV, x) ∧ (m'.buf b).key = (ROOTDEV, y)
  held : (m'.holder a).isSome = true ∧ (m'.holder b).isSome = true
  settled : m'.pending a = false ∧ m'.pending b = false
  frame : m'.log = m.log ∧ m'.commit = m.commit

theorem Inv.bread_bread {x y : Nat} {m1 m2 : Machine P} {a : BufId}
    (first : m.bread p x = .ok (m1, a)) (second : m1.bread p y = .ok (m2, b)) :
    m2.Inv copied installed ∧ Pair m x y m2 a b := by
  obtain ⟨inv1, fresh1⟩ := inv.bread first
  obtain ⟨inv2, fresh2⟩ := inv1.bread second
  have unlike : a ≠ b := by
    rintro rfl
    have held := fresh1.held
    rw [fresh2.free] at held
    cases held
  obtain ⟨buf, holder⟩ := fresh2.others a unlike
  obtain ⟨log, commit, -, pending⟩ := fresh2.frame
  refine ⟨inv2, unlike, ⟨buf ▸ fresh1.key, fresh2.key⟩, ⟨holder ▸ fresh1.held, fresh2.held⟩,
    ⟨pending ▸ fresh1.settled, fresh2.settled⟩, log.trans fresh1.frame.1,
    commit.trans fresh1.frame.2.1⟩

theorem Inv.brelse_brelse {a : BufId} (unlike : a ≠ b)
    (held : (m.holder a).isSome = true ∧ (m.holder b).isSome = true)
    (settled : m.pending a = false ∧ m.pending b = false) :
    ((m.brelse a).brelse b).Inv copied installed := by
  refine (inv.brelse held.1 settled.1).brelse ?_ settled.2
  change (update m.holder a none b).isSome = true
  rw [update_of_ne unlike.symm]
  exact held.2

omit inv in
theorem settled_written {a : BufId} {data : Block} {logical : Nat → Block}
    (settled : m.pending a = false) : (m.written b data logical).pending a = false := by
  change update m.pending b false a = false
  by_cases same : a = b
  · rw [same, update_self]
  · rw [update_of_ne same, settled]

theorem Inv.todo_region {y : Nat} (inside : m.log.Holds y) (x : Nat) :
    x ∈ m.log.lh.entries.drop installed ↔ x ∈ m.log.lh.entries.drop installed ∧ x ≠ y := by
  refine ⟨fun todo => ⟨todo, ?_⟩, And.left⟩
  rintro rfl
  exact inv.outside x (List.mem_of_mem_drop todo) inside

omit inv in
theorem Inv.writeLogStep {tail : Nat} (inv : m.Inv tail installed) (below : tail < m.log.lh.n.toNat)
    (stepped : m.writeLogStep p tail = .ok m') :
    m'.Inv (tail + 1) installed ∧ m'.log = m.log ∧ m'.commit = m.commit := by
  unfold Machine.writeLogStep at stepped
  obtain ⟨⟨m1, target⟩, first, stepped⟩ := bind_eq_ok.mp stepped
  obtain ⟨⟨m2, source⟩, second, stepped⟩ := bind_eq_ok.mp stepped
  simp only [(inv.bread first).2.frame.1] at second
  have inside := inv.room tail below
  have outside := inv.outside _ (block_mem _ below)
  obtain ⟨inv, pair⟩ := inv.bread_bread first second
  simp only [setData_bwrite _ _ pair.settled.1] at stepped
  cases stepped
  rw [← pair.frame.1] at below inside outside pair ⊢
  have device : (m2.buf source).dev = ROOTDEV := congrArg Prod.fst pair.keys.2
  have home : (m2.buf source).blockno = m2.log.lh.block tail := congrArg Prod.snd pair.keys.2
  have contents : (m2.buf source).data = m2.logical (m2.log.lh.block tail) := by
    rw [← home] at outside ⊢
    exact (inv.kept source).contents device outside pair.settled.2
  have wrote : (m2.written target (m2.buf source).data m2.logical).Inv (tail + 1) installed := by
    refine inv.written (congrArg Prod.snd pair.keys.1) pair.held.1 (fun _ _ => rfl)
      (fun clear => absurd inside clear) (inv.todo_region inside) below ?_
    intro i small
    by_cases last : i = tail
    · rw [last, update_self, contents]
    · rw [update_of_ne (by omega)]
      exact inv.logged i (by omega)
  exact ⟨wrote.brelse_brelse pair.unlike.symm pair.held.symm
    ⟨settled_written pair.settled.2, settled_written pair.settled.1⟩, rfl, pair.frame.2⟩

omit inv in
theorem Inv.installStep {tail : Nat} (inv : m.Inv copied tail) (below : tail < copied)
    (stepped : m.installStep p tail = .ok m') :
    m'.Inv copied (tail + 1) ∧ m'.log = m.log ∧ m'.commit = m.commit := by
  unfold Machine.installStep at stepped
  obtain ⟨⟨m1, lbuf⟩, first, stepped⟩ := bind_eq_ok.mp stepped
  obtain ⟨⟨m2, dbuf⟩, second, stepped⟩ := bind_eq_ok.mp stepped
  simp only [(inv.bread first).2.frame.1] at second
  have small : tail < m.log.lh.n.toNat := Nat.lt_of_lt_of_le below inv.copiedLe
  have inside := inv.room tail small
  obtain ⟨inv, pair⟩ := inv.bread_bread first second
  simp only [setData_bwrite _ _ pair.settled.2] at stepped
  cases stepped
  rw [← pair.frame.1] at small inside pair ⊢
  have device : (m2.buf lbuf).dev = ROOTDEV := congrArg Prod.fst pair.keys.1
  have copy : (m2.buf lbuf).blockno = m2.log.start + tail + 1 := congrArg Prod.snd pair.keys.1
  have contents : (m2.buf lbuf).data = m2.logical (m2.log.lh.block tail) := by
    rw [← inv.logged tail below, ← copy]
    rw [← copy] at inside
    exact (inv.kept lbuf).region device inside
  have wrote : (m2.written dbuf (m2.buf lbuf).data m2.logical).Inv copied (tail + 1) := by
    refine inv.written (congrArg Prod.snd pair.keys.2) pair.held.2 (fun _ _ => rfl)
      (fun _ => contents.symm) ?_ inv.copiedLe ?_
    · intro x
      have distinct := inv.distinct.sublist (List.drop_sublist tail _)
      rw [drop_entries m2.log.lh small] at distinct ⊢
      obtain ⟨fresh, -⟩ := List.nodup_cons.mp distinct
      rw [List.mem_cons]
      refine ⟨fun todo => ⟨Or.inr todo, ?_⟩, fun both => both.1.resolve_left both.2⟩
      rintro rfl
      exact fresh todo
    · intro i smaller
      have apart : m2.log.start + i + 1 ≠ m2.log.lh.block tail := fun same =>
        inv.outside _ (block_mem _ small) (same ▸ inv.room i (Nat.lt_of_lt_of_le smaller inv.copiedLe))
      rw [update_of_ne apart]
      exact inv.logged i smaller
  exact ⟨wrote.brelse_brelse pair.unlike pair.held
    ⟨settled_written pair.settled.1, settled_written pair.settled.2⟩, rfl, pair.frame.2⟩

theorem Inv.writeHead (inside : m.log.Holds m.log.start) (stepped : m.writeHead p = .ok m') :
    m'.Inv copied installed ∧ m'.log = m.log ∧ m'.commit = m.commit := by
  unfold Machine.writeHead at stepped
  obtain ⟨⟨m1, buf⟩, read, stepped⟩ := bind_eq_ok.mp stepped
  obtain ⟨inv, fresh⟩ := inv.bread read
  simp only [setData_bwrite _ _ fresh.settled] at stepped
  cases stepped
  have frame := fresh.frame
  have isBlock : (m1.buf buf).blockno = m1.log.start := by
    rw [frame.1]
    exact congrArg Prod.snd fresh.key
  rw [← frame.1] at inside ⊢
  have wrote : (m1.written buf (encodeHeader (m1.buf buf).data m1.log.lh) m1.logical).Inv
      copied installed := by
    refine inv.written isBlock fresh.held (fun _ _ => rfl) (fun clear => absurd inside clear)
      (inv.todo_region inside) inv.copiedLe ?_
    intro i below
    rw [update_of_ne (by omega)]
    exact inv.logged i below
  exact ⟨wrote.brelse fresh.held (settled_written fresh.settled), rfl, frame.2.1⟩

end

/-! ### Whole runs -/

structure Good (m : Machine P) : Prop where
  inv : m.Inv m.copied m.installed
  busy : m.commit ≠ .idle → m.log.committing = true ∧ m.log.outstanding = 0
  header : m.commit ≠ .idle → m.commit ≠ .finishing → m.log.Holds m.log.start
  emptied : m.commit = .erasing ∨ m.commit = .finishing → m.log.lh.n = 0

theorem booted_good (disk : Nat → Block) (start : Nat) (size : Int) :
    (booted disk start size : Machine P).Good := by
  refine ⟨⟨⟨_, Bcache.binit_sound⟩, ?_, ?_, ?_, Int.le_refl 0, List.nodup_nil, ?_, ?_, Nat.le_refl 0, ?_⟩,
    fun busy => absurd rfl busy, fun busy => absurd rfl busy, fun either => ?_⟩
  · intro b
    exact ⟨rfl, fun either => (by rcases either with held | dirty <;> contradiction),
      fun root => (by cases root), fun changed => (by cases changed), fun root => (by cases root),
      fun root => (by cases root), fun dirty => by cases dirty⟩
  · intro x _ unlike
    exact absurd rfl unlike
  · intro x recorded
    cases recorded
  · intro x recorded
    cases recorded
  · intro i below
    cases below
  · intro i below
    cases below
  · rfl

theorem Good.idle_of_outstanding (good : m.Good) (some : 1 ≤ m.log.outstanding) :
    m.commit = .idle := by
  by_contra busy
  have none := (good.busy busy).2
  omega

theorem Good.inv_idle (good : m.Good) (idle : m.commit = .idle) : m.Inv 0 0 := by
  have inv := good.inv
  unfold Machine.copied Machine.installed at inv
  rw [idle] at inv
  exact inv

/-- A step that leaves the log and `commit` as they are. -/
theorem Good.same (good : m.Good) (log : m'.log = m.log) (commit : m'.commit = m.commit)
    (inv : ∀ {copied installed}, m.Inv copied installed → m'.Inv copied installed) : m'.Good := by
  refine ⟨?_, ?_, ?_, ?_⟩
  · unfold Machine.copied Machine.installed
    rw [log, commit]
    exact inv good.inv
  · rw [log, commit]
    exact good.busy
  · rw [log, commit]
    exact good.header
  · rw [log, commit]
    exact good.emptied

theorem Good.panicked (good : m.Good) (panic : Panic) : Good { m with panicked := some panic } :=
  good.same rfl rfl fun inv => { inv with }

/-- A call that waits is no step, and one that panics changes nothing else. -/
theorem Good.take (good : m.Good) {outcome : Except Stop (Machine P)}
    (took : m.take outcome = some m') (ok : ∀ after, outcome = .ok after → after.Good) :
    m'.Good := by
  cases outcome with
  | ok after =>
    cases took
    exact ok _ rfl
  | error stop =>
    cases stop with
    | waits => cases took
    | panics panic =>
      cases took
      exact good.panicked panic

theorem Good.commitStep (good : m.Good) (stepped : m.commitStep p = .ok m') : m'.Good := by
  obtain ⟨inv, busy, header, emptied⟩ := good
  unfold Machine.copied Machine.installed at inv
  unfold Machine.commitStep at stepped
  cases stage : m.commit with
  | idle =>
    rw [stage] at stepped
    cases stepped
  | writing tail =>
    simp only [stage] at stepped inv
    have busy := busy (by simp [stage])
    have header := header (by simp [stage]) (by simp [stage])
    split at stepped
    · obtain ⟨after, wrote, stepped⟩ := bind_eq_ok.mp stepped
      obtain ⟨inv, log, -⟩ := inv.writeLogStep (by omega) wrote
      cases stepped
      rw [← log] at busy header
      exact ⟨inv.moved after.log.outstanding after.log.committing _ after.panicked, fun _ => busy,
        fun _ _ => header, fun either => by rcases either with done | done <;> cases done⟩
    · cases stepped
      have all : tail = m.log.lh.n.toNat := by
        have most := inv.copiedLe
        omega
      rw [all] at inv
      exact ⟨inv.moved m.log.outstanding m.log.committing _ m.panicked, fun _ => busy,
        fun _ _ => header, fun either => by rcases either with done | done <;> cases done⟩
  | heading =>
    simp only [stage] at stepped inv
    have busy := busy (by simp [stage])
    have header := header (by simp [stage]) (by simp [stage])
    obtain ⟨after, wrote, stepped⟩ := bind_eq_ok.mp stepped
    obtain ⟨inv, log, -⟩ := inv.writeHead header wrote
    cases stepped
    rw [← log] at busy header inv
    exact ⟨inv.moved after.log.outstanding after.log.committing _ after.panicked, fun _ => busy,
      fun _ _ => header, fun either => by rcases either with done | done <;> cases done⟩
  | installing tail =>
    simp only [stage] at stepped inv
    have busy := busy (by simp [stage])
    have header := header (by simp [stage]) (by simp [stage])
    split at stepped
    · obtain ⟨after, wrote, stepped⟩ := bind_eq_ok.mp stepped
      obtain ⟨inv, log, -⟩ := inv.installStep (by omega) wrote
      cases stepped
      rw [← log] at busy header inv
      exact ⟨inv.moved after.log.outstanding after.log.committing _ after.panicked, fun _ => busy,
        fun _ _ => header, fun either => by rcases either with done | done <;> cases done⟩
    · cases stepped
      -- Everything is at home, so no buffer is dirty.
      have none : m.log.lh.entries.drop tail = [] := by
        rw [List.drop_eq_nil_iff, m.log.lh.length_entries]
        omega
      have clean : ∀ b, (m.buf b).dirty ≠ true := by
        intro b isDirty
        have todo := (inv.kept b).dirty isDirty
        rw [none] at todo
        cases todo
      refine ⟨⟨inv.sound, fun b => ?_, ?_, ?_, Int.le_refl 0, List.nodup_nil, ?_, ?_,
        Nat.le_refl 0, ?_⟩, fun _ => busy, fun _ _ => header, fun _ => rfl⟩
      · have old := inv.kept b
        exact { old with dirty := fun isDirty => absurd isDirty (clean b) }
      · intro x outside unlike
        exact inv.ahead x outside unlike
      · intro x recorded
        cases recorded
      · intro x recorded
        cases recorded
      · intro i below
        cases below
      · intro i below
        cases below
  | erasing =>
    simp only [stage] at stepped inv
    have busy := busy (by simp [stage])
    have emptied := emptied (Or.inl stage)
    obtain ⟨after, wrote, stepped⟩ := bind_eq_ok.mp stepped
    obtain ⟨inv, log, -⟩ := inv.writeHead (header (by simp [stage]) (by simp [stage])) wrote
    cases stepped
    rw [← log] at busy emptied
    exact ⟨inv.moved after.log.outstanding after.log.committing _ after.panicked, fun _ => busy,
      fun _ unlike => absurd rfl unlike, fun _ => emptied⟩
  | finishing =>
    simp only [stage] at stepped inv
    cases stepped
    exact ⟨inv.moved m.log.outstanding false _ m.panicked, fun unlike => absurd rfl unlike,
      fun unlike => absurd rfl unlike, fun either => by rcases either with done | done <;> cases done⟩

theorem Good.logWrite (good : m.Good) (held : (m.holder b).isSome = true)
    (outside : ¬ m.log.Holds (m.buf b).blockno) (wrote : m.logWrite b = .ok m') :
    (stored m' b).Good := by
  unfold Machine.logWrite at wrote
  split at wrote
  · cases wrote
  · rename_i log recorded
    cases wrote
    have inOp : 1 ≤ m.log.outstanding := by
      unfold RedoLog.logWrite logWriteCheck at recorded
      split_ifs at recorded
      · cases recorded
      · cases recorded
      · omega
    have idle := good.idle_of_outstanding inOp
    have idle' : (stored { m.setBuf b { m.buf b with dirty := true } with log } b).commit = .idle := idle
    refine ⟨?_, fun busy => absurd idle' busy, fun busy => absurd idle' busy, ?_⟩
    · unfold Machine.copied Machine.installed
      rw [idle']
      exact (good.inv_idle idle).logWrite held outside recorded
    · rw [idle']
      rintro (done | done) <;> cases done

variable [DecidableEq P]

theorem Good.endOp (good : m.Good) (stepped : m.next .endOp = some m') : m'.Good := by
  unfold Machine.next at stepped
  split at stepped
  · cases stepped
  · simp only at stepped
    obtain ⟨inOp, stepped⟩ := Option.ite_none_right_eq_some.mp stepped
    have idle := good.idle_of_outstanding inOp
    have inv := good.inv_idle idle
    split at stepped
    · cases stepped
      exact good.panicked _
    · rename_i log doCommit ended
      obtain ⟨-, ⟨last, rfl, rfl⟩ | ⟨more, rfl, rfl⟩⟩ := endOpSection_eq_ok ended
      · cases stepped
        have count : m.log.outstanding - 1 = 0 := by omega
        have inv := fun commit => inv.moved (m.log.outstanding - 1) true commit m.panicked
        by_cases some : 0 < m.log.lh.n
        · simp only [if_true, if_pos some]
          have room := (good.inv_idle idle).room 0 (by omega)
          have first : m.log.Holds m.log.start := by
            obtain ⟨-, upper⟩ := room
            constructor <;> omega
          exact ⟨inv _, fun _ => ⟨rfl, count⟩, fun _ _ => first,
            fun either => by rcases either with done | done <;> cases done⟩
        · simp only [if_true, if_neg some]
          have nonneg := (good.inv_idle idle).nonneg
          exact ⟨inv _, fun _ => ⟨rfl, count⟩, fun _ unlike => absurd rfl unlike,
            fun _ => by change m.log.lh.n = 0; omega⟩
      · cases stepped
        simp only [Bool.false_eq_true, if_false, idle]
        exact ⟨inv.moved (m.log.outstanding - 1) m.log.committing _ m.panicked,
          fun unlike => absurd rfl unlike, fun unlike => absurd rfl unlike,
          fun either => by rcases either with done | done <;> cases done⟩

theorem Good.next (good : m.Good) {step : Step P} (disciplined : m.Disciplined step)
    (stepped : m.next step = some m') : m'.Good := by
  have unfolded := stepped
  unfold Machine.next at unfolded
  split at unfolded
  · cases unfolded
  · cases step with
    | endOp => exact good.endOp stepped
    | beginOp =>
      obtain ⟨log, admitted, rfl⟩ := Option.map_eq_some_iff.mp unfolded
      obtain ⟨quiet, rfl⟩ := beginOpSection_eq_some admitted
      have idle : m.commit = .idle := by
        by_contra busy
        rw [(good.busy busy).1] at quiet
        cases quiet
      refine ⟨?_, fun busy => absurd idle busy, fun busy => absurd idle busy, good.emptied⟩
      exact good.inv.moved (m.log.outstanding + 1) m.log.committing m.commit m.panicked
    | bread p blockno =>
      refine good.take unfolded fun after ok => ?_
      cases read : m.bread p blockno with
      | error stop =>
        rw [read] at ok
        cases ok
      | ok result =>
        rw [read] at ok
        cases ok
        have frame := (good.inv.bread read).2.frame
        exact good.same frame.1 frame.2.1 fun inv => (inv.bread read).1
    | modify p b data =>
      simp only at unfolded
      obtain ⟨isHolder, rfl⟩ := of_guard unfolded
      have held : (m.holder b).isSome = true := by rw [isHolder]; rfl
      exact good.same rfl rfl fun inv => inv.modify held disciplined
    | logWrite p b =>
      simp only at unfolded
      obtain ⟨isHolder, unfolded⟩ := Option.ite_none_right_eq_some.mp unfolded
      have held : (m.holder b).isSome = true := by rw [isHolder]; rfl
      refine good.take unfolded fun after ok => ?_
      cases wrote : m.logWrite b with
      | error stop =>
        rw [wrote] at ok
        cases ok
      | ok result =>
        rw [wrote] at ok
        cases ok
        exact good.logWrite held disciplined wrote
    | bwrite p b =>
      simp only at unfolded
      obtain ⟨isHolder, unfolded⟩ := Option.ite_none_right_eq_some.mp unfolded
      have held : (m.holder b).isSome = true := by rw [isHolder]; rfl
      refine good.take unfolded fun after ok => ?_
      have wrote := bwrite_eq m b
      rw [wrote] at ok
      cases ok
      exact good.same rfl rfl fun inv => inv.bwrite held disciplined wrote
    | brelse p b =>
      simp only at unfolded
      obtain ⟨isHolder, rfl⟩ := of_guard unfolded
      have held : (m.holder b).isSome = true := by rw [isHolder]; rfl
      exact good.same rfl rfl fun inv => inv.brelse held disciplined
    | commit p => exact good.take unfolded fun after ok => good.commitStep ok

/-- In every state that disciplined steps lead to, `bread` of a block outside the log
region returns what was last stored there. A recorded block is in the cache and pinned
until `install_trans` has copied it from the log to its home. When `commit` returns, all
homes are up to date. -/
theorem cache_transparent (disk : Nat → Block) (start : Nat) (size : Int) (steps : List (Step P))
    (m : Machine P) (disciplined : (machine P).Meets Disciplined (booted disk start size) steps)
    (ran : (machine P).run (booted disk start size) steps = some m) :
    (∀ p x m' b, ¬ m.log.Holds x → m.bread p x = .ok (m', b) →
      (m'.buf b).blockno = x ∧ (m'.buf b).data = m.logical x) ∧
    (∀ i < m.log.lh.n.toNat,
      (∃ b, (m.buf b).key = (ROOTDEV, m.log.lh.block i) ∧ (m.buf b).dirty = true) ∨
      ∃ tail, m.commit = .installing tail ∧ i < tail ∧
        m.disk (m.log.start + i + 1) = m.logical (m.log.lh.block i) ∧
        m.disk (m.log.lh.block i) = m.logical (m.log.lh.block i)) ∧
    (m.commit = .finishing → ∀ x, ¬ m.log.Holds x → m.disk x = m.logical x) := by
  have good : m.Good := System.run_preserves_of_meets Good
    (fun _ _ _ good disciplined stepped => good.next disciplined stepped) (booted_good disk start size)
    disciplined ran
  refine ⟨?_, ?_, ?_⟩
  · intro p x m' b outside read
    obtain ⟨inv, fresh⟩ := good.inv.bread read
    have isBlock : (m'.buf b).blockno = x := congrArg Prod.snd fresh.key
    refine ⟨isBlock, ?_⟩
    rw [← fresh.frame.2.2.1, ← isBlock]
    refine (inv.kept b).contents (congrArg Prod.fst fresh.key) ?_ fresh.settled
    rw [isBlock, fresh.frame.1]
    exact outside
  · intro i below
    by_cases pinned : ∃ b, (m.buf b).key = (ROOTDEV, m.log.lh.block i) ∧ (m.buf b).dirty = true
    · exact Or.inl pinned
    · right
      have home := block_mem m.log.lh below
      have done : i < m.installed := by
        by_contra early
        apply pinned
        apply good.inv.pinned
        rw [List.mem_drop_iff_getElem]
        have length := m.log.lh.length_entries
        refine ⟨i - m.installed, by omega, ?_⟩
        simp only [LogHeader.entries, List.getElem_map, List.getElem_range]
        congr 1
        omega
      have logged := good.inv.logged i
      unfold Machine.installed at done
      unfold Machine.copied at logged
      split at done
      · rename_i tail stage
        simp only [stage] at logged
        refine ⟨tail, stage, done, logged below, ?_⟩
        by_contra unlike
        exact pinned (good.inv.ahead _ (good.inv.outside _ home) unlike)
      · cases done
  · intro stage x outside
    by_contra unlike
    obtain ⟨b, -, isDirty⟩ := good.inv.ahead x outside unlike
    have todo := List.mem_of_mem_drop ((good.inv.kept b).dirty isDirty)
    unfold LogHeader.entries at todo
    rw [good.emptied (Or.inr stage)] at todo
    cases todo

def oneCommit : List (Step (Fin 1)) :=
  [.beginOp, .bread 0 40, .modify 0 0 (Bytes.zero.set 0 1), .logWrite 0 0, .brelse 0 0, .endOp,
    .commit 0, .commit 0, .commit 0, .commit 0, .commit 0, .commit 0]

theorem oneCommit_transparent :
    ∃ m, (machine (Fin 1)).run (booted (fun _ => Bytes.zero) 2 30) oneCommit = some m ∧
      m.commit = .finishing ∧ (m.disk 40).get 0 = 1 := by
  have outcome : ((machine (Fin 1)).run (booted (fun _ => Bytes.zero) 2 30) oneCommit).map
      (fun m : Machine (Fin 1) => (m.commit, (m.logical 40).get 0, m.log.start, m.log.size)) =
      some (.finishing, 1, 2, 30) := by
    decide +kernel
  obtain ⟨m, ran, isOutcome⟩ := Option.map_eq_some_iff.mp outcome
  simp only [Prod.mk.injEq] at isOutcome
  obtain ⟨stage, stored, start, size⟩ := isOutcome
  refine ⟨m, ran, stage, ?_⟩
  have outside : ¬ m.log.Holds 40 := by
    unfold Log.Holds
    rw [start, size]
    decide
  have home := (cache_transparent (fun _ => Bytes.zero) 2 30 oneCommit m (by decide +kernel) ran).2.2
    stage 40 outside
  rw [home]
  exact stored

/-! ### A recorded block that is written -/

/-- Only that changed buffers are stored before they are released. -/
def StoresFirst (m : Machine P) : Step P → Prop
  | .brelse _ b => m.pending b = false
  | _ => True

instance (m : Machine P) (step : Step P) : Decidable (m.StoresFirst step) := by
  unfold StoresFirst
  cases step <;> infer_instance

/-- Block 40 is recorded and then written, and after that every buffer is used once. -/
def writesRecorded : List (Step (Fin 1)) :=
  [.beginOp, .bread 0 40, .modify 0 0 (Bytes.zero.set 0 1), .logWrite 0 0, .bwrite 0 0, .brelse 0 0] ++
  ((List.finRange NBUF).tail ++ [0]).flatMap fun (b : BufId) =>
    [.bread 0 (100 + b.val), .brelse 0 b]

/-- `bwrite` clears the flag that pins a recorded block, and the block is evicted before
any commit. -/
theorem recorded_block_evicted :
    (machine (Fin 1)).Meets StoresFirst (booted (fun _ => Bytes.zero) 2 30) writesRecorded ∧
      ∃ m, (machine (Fin 1)).run (booted (fun _ => Bytes.zero) 2 30) writesRecorded = some m ∧
        m.panicked = none ∧ m.commit = .idle ∧ 40 ∈ m.log.lh.entries ∧
        ∀ b, (m.buf b).blockno ≠ 40 := by
  refine ⟨by decide +kernel, ?_⟩
  have outcome : ((machine (Fin 1)).run (booted (fun _ => Bytes.zero) 2 30) writesRecorded).map
      (fun m : Machine (Fin 1) => decide (m.panicked = none ∧ m.commit = .idle ∧
        40 ∈ m.log.lh.entries ∧ ∀ b, (m.buf b).blockno ≠ 40)) = some true := by
    decide +kernel
  obtain ⟨m, ran, holds⟩ := Option.map_eq_some_iff.mp outcome
  exact ⟨m, ran, of_decide_eq_true holds⟩

end Machine

end Xv6.Bio
