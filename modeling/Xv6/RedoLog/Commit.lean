import Xv6.Param
import Xv6.Lib.Bytes
import Xv6.Lib.Writes

/-!
Contract: the redo log of `log.c` over a disk, a buffer cache and the in-memory
log header.

Does not own: crash points and recovery runs (`RedoLog.CrashSafety`), or the
admission protocol of `begin_op` and `end_op` (`RedoLog.Reservation`).
-/

namespace Xv6.RedoLog

open Function Xv6.Lib

abbrev Block := Bytes BSIZE

abbrev Disk := Nat → Block

/-- `struct logheader`: how many blocks are logged, and their home numbers. -/
structure LogHeader where
  n : Int
  block : Nat → Nat

def LogHeader.entries (lh : LogHeader) : List Nat := (List.range lh.n.toNat).map lh.block

/-- `struct log`, without the spinlock and the device number. -/
structure Log where
  start : Nat
  size : Int
  outstanding : Int
  committing : Bool
  lh : LogHeader

inductive LogPanic where
  | tooBigATransaction
  | logWriteOutsideOfTrans
  | logCommitting
deriving DecidableEq, Repr

/-- The unlocked tests at the head of `log_write`. -/
def logWriteCheck (log : Log) : Except LogPanic Unit :=
  if log.lh.n ≥ LOGSIZE ∨ log.lh.n ≥ log.size - 1 then .error .tooBigATransaction
  else if log.outstanding < 1 then .error .logWriteOutsideOfTrans
  else .ok ()

/-- The section of `log_write` under `log.lock`. The search loop leaves `i` at
the first entry that holds `blockno` (log absorption), or at `lh.n`. -/
def logWriteRecord (log : Log) (blockno : Nat) : Log :=
  let i := log.lh.entries.findIdx (· == blockno)
  let block := update log.lh.block i blockno
  let n := if (i : Int) = log.lh.n then log.lh.n + 1 else log.lh.n
  { log with lh := { n := n, block := block } }

def logWrite (log : Log) (blockno : Nat) : Except LogPanic Log := do
  logWriteCheck log
  pure (logWriteRecord log blockno)

/-- What `write_head` stores into the header buffer: `n`, then the first `n`
entries. The rest of the buffer keeps its bytes. -/
def encodeHeader (buf : Block) (lh : LogHeader) : Block :=
  (List.range lh.n.toNat).foldl (fun hb i => hb.setLe (4 * (i + 1)) 4 (lh.block i))
    (buf.setLe 0 4 (ofInt32 lh.n))

def headerCount (buf : Block) : Int := toInt32 (buf.getLe 0 4)

def headerEntry (buf : Block) (i : Nat) : Nat := buf.getLe (4 * (i + 1)) 4

/-- Disk, buffer cache and log. `written` is the history of the disk writes
since the machine was started, oldest first. -/
structure Machine where
  disk : Disk
  cache : Nat → Option Block
  log : Log
  written : List (Nat × Block)

/-- The contents of the buffer `bread` returns: the cached block if there is
one, the disk block otherwise. Keeping a clean copy reads the same as reading
the disk again, so `bread` leaves the machine as it is. -/
def bread (m : Machine) (blockno : Nat) : Block := (m.cache blockno).getD (m.disk blockno)

/-- `bwrite` of a buffer with contents `data`: one atomic block write. -/
def bwrite (m : Machine) (blockno : Nat) (data : Block) : Machine :=
  { m with
    disk := update m.disk blockno data
    cache := update m.cache blockno (some data)
    written := m.written ++ [(blockno, data)] }

def writeLog (m : Machine) : Machine :=
  (List.range m.log.lh.n.toNat).foldl (fun current tail =>
    bwrite current (m.log.start + tail + 1) (bread current (m.log.lh.block tail))) m

def installTrans (m : Machine) : Machine :=
  (List.range m.log.lh.n.toNat).foldl (fun current tail =>
    bwrite current (m.log.lh.block tail) (bread current (m.log.start + tail + 1))) m

def writeHead (m : Machine) : Machine :=
  bwrite m m.log.start (encodeHeader (bread m m.log.start) m.log.lh)

/-- Read the log header from disk into the in-memory log header. Entries from
`n` on keep their old values. -/
def readHead (m : Machine) : Machine :=
  let buf := bread m m.log.start
  let n := headerCount buf
  { m with log := { m.log with lh :=
    { n := n, block := fun i => if (i : Int) < n then headerEntry buf i else m.log.lh.block i } } }

def clearCount (m : Machine) : Machine :=
  { m with log := { m.log with lh := { m.log.lh with n := 0 } } }

def commit (m : Machine) : Machine :=
  if 0 < m.log.lh.n then writeHead (clearCount (installTrans (writeHead (writeLog m)))) else m

def recoverFromLog (m : Machine) : Machine :=
  writeHead (clearCount (installTrans (readHead m)))

theorem LogHeader.length_entries (lh : LogHeader) : lh.entries.length = lh.n.toNat := by
  simp [LogHeader.entries]

variable {log : Log}

/-- `log_write` appends the block unless it is logged already. -/
theorem entries_logWriteRecord (nonneg : 0 ≤ log.lh.n) (blockno : Nat) :
    (logWriteRecord log blockno).lh.entries =
      if blockno ∈ log.lh.entries then log.lh.entries else log.lh.entries ++ [blockno] := by
  have length := log.lh.length_entries
  rw [logWriteRecord, LogHeader.entries]
  by_cases logged : blockno ∈ log.lh.entries
  · have found : log.lh.entries.findIdx (· == blockno) < log.lh.entries.length :=
      List.findIdx_lt_length_of_exists ⟨blockno, logged, by simp⟩
    have holds := List.findIdx_getElem (w := found)
    generalize log.lh.entries.findIdx (· == blockno) = i at found holds ⊢
    have same : update log.lh.block i blockno = log.lh.block := by
      apply update_eq_self_iff.mpr
      have entry : log.lh.entries[i] = log.lh.block i := by simp [LogHeader.entries]
      rw [← entry]
      exact (beq_iff_eq.mp holds).symm
    rw [if_pos logged, same, if_neg (by omega)]
    rfl
  · have absent : log.lh.entries.findIdx (· == blockno) = log.lh.n.toNat := by
      rw [← length]
      apply List.findIdx_eq_length_of_false
      intro entry member
      simp only [beq_eq_false_iff_ne]
      rintro rfl
      exact logged member
    rw [if_neg logged, absent, if_pos (by omega), Int.toNat_add nonneg (by decide)]
    change (List.range (log.lh.n.toNat + 1)).map
      (update log.lh.block log.lh.n.toNat blockno) = _
    rw [List.range_succ, List.map_append, List.map_singleton, update_self]
    congr 1
    apply List.map_congr_left
    intro i member
    rw [update_of_ne (Nat.ne_of_lt (List.mem_range.mp member))]

theorem le_logWriteRecord (blockno : Nat) : log.lh.n ≤ (logWriteRecord log blockno).lh.n := by
  rw [logWriteRecord]
  simp only
  split <;> omega

theorem logWriteRecord_nonneg (nonneg : 0 ≤ log.lh.n) (blockno : Nat) :
    0 ≤ (logWriteRecord log blockno).lh.n := by
  rw [logWriteRecord]
  simp only
  split <;> omega

/-- `log_write` only ever builds headers `commit` can handle: as many entries as
the header and the log have room for, all different. -/
theorem logWrite_fits {after : Log} {blockno : Nat} (nonneg : 0 ≤ log.lh.n)
    (distinct : log.lh.entries.Nodup) (ok : logWrite log blockno = .ok after) :
    0 ≤ after.lh.n ∧ after.lh.n ≤ LOGSIZE ∧ after.lh.n ≤ after.size - 1 ∧
      after.lh.entries.Nodup := by
  unfold logWrite logWriteCheck at ok
  split_ifs at ok with full idle
  · cases ok
  · cases ok
  · cases ok
    have grown : (logWriteRecord log blockno).lh.n ≤ log.lh.n + 1 := by
      rw [logWriteRecord]
      simp only
      split <;> omega
    have size : (logWriteRecord log blockno).size = log.size := rfl
    refine ⟨logWriteRecord_nonneg nonneg blockno, by omega, by omega, ?_⟩
    rw [entries_logWriteRecord nonneg]
    split
    · exact distinct
    · rename_i fresh
      rw [← List.concat_eq_append]
      exact (List.nodup_concat _ _).mpr ⟨fresh, distinct⟩

private theorem headerFold_count (entry : Nat → Nat) (count : Nat) (buf : Block) :
    ((List.range count).foldl (fun hb i => hb.setLe (4 * (i + 1)) 4 (entry i)) buf).getLe 0 4 =
      buf.getLe 0 4 := by
  induction count with
  | zero => rfl
  | succ count ih =>
    rw [List.range_succ, List.foldl_append]
    exact (Bytes.getLe_setLe_other _ _ (by omega)).trans ih

private theorem headerFold_entry (entry : Nat → Nat) (count : Nat) (buf : Block)
    (fits : 4 * (count + 1) ≤ BSIZE) {i : Nat} (below : i < count) :
    headerEntry ((List.range count).foldl
      (fun hb i => hb.setLe (4 * (i + 1)) 4 (entry i)) buf) i = entry i % 2 ^ 32 := by
  induction count with
  | zero => omega
  | succ count ih =>
    rw [List.range_succ, List.foldl_append]
    by_cases last : i = count
    · subst last
      exact Bytes.getLe_setLe_same _ _ (by omega)
    · exact (Bytes.getLe_setLe_other _ _ (by omega)).trans
        (ih (by omega) (by omega))

theorem headerCount_encodeHeader (buf : Block) (lh : LogHeader) (nonneg : 0 ≤ lh.n)
    (small : lh.n ≤ LOGSIZE) : headerCount (encodeHeader buf lh) = lh.n := by
  unfold headerCount encodeHeader
  rw [headerFold_count, Bytes.getLe_setLe_same _ _ (by decide)]
  have word : ofInt32 lh.n % 256 ^ 4 = ofInt32 lh.n := by
    unfold ofInt32
    omega
  have bound : (LOGSIZE : Int) = 30 := rfl
  rw [word, toInt32_ofInt32 (by omega) (by omega)]

theorem headerEntry_encodeHeader (buf : Block) (lh : LogHeader) (small : lh.n ≤ LOGSIZE)
    {i : Nat} (below : i < lh.n.toNat) :
    headerEntry (encodeHeader buf lh) i = lh.block i % 2 ^ 32 := by
  unfold encodeHeader
  have bound : (LOGSIZE : Int) = 30 := rfl
  have size : BSIZE = 512 := rfl
  exact headerFold_entry lh.block _ _ (by omega) below

def Machine.writeAll (m : Machine) (writes : List (Nat × Block)) : Machine :=
  writes.foldl (fun current write => bwrite current write.1 write.2) m

theorem bread_bwrite (m : Machine) (blockno : Nat) (data : Block) :
    bread (bwrite m blockno data) = update (bread m) blockno data := by
  funext other
  by_cases same : other = blockno
  · subst same
    simp [bread, bwrite]
  · simp [bread, bwrite, update_of_ne same]

theorem Machine.writeAll_spec (m : Machine) (writes : List (Nat × Block)) :
    (m.writeAll writes).disk = applyWrites m.disk writes ∧
      bread (m.writeAll writes) = applyWrites (bread m) writes ∧
      (m.writeAll writes).written = m.written ++ writes ∧
      (m.writeAll writes).log = m.log := by
  induction writes generalizing m with
  | nil => simp [writeAll]
  | cons write rest ih =>
    obtain ⟨disk, buffers, history, log⟩ := ih (bwrite m write.1 write.2)
    refine ⟨disk, ?_, ?_, log⟩
    · rw [applyWrites_cons, ← bread_bwrite]
      exact buffers
    · rw [show m.written ++ write :: rest = m.written ++ [write] ++ rest by simp]
      exact history

/-- The two copy loops of `log.c` issue one write per index, each with the
contents its source had before the loop, when no source is also a target. -/
private theorem foldl_copy_eq_writeAll (m : Machine) (target source : Nat → Nat)
    (indices : List Nat) (apart : ∀ i ∈ indices, ∀ j ∈ indices, source i ≠ target j) :
    indices.foldl (fun current i => bwrite current (target i) (bread current (source i))) m =
      m.writeAll (indices.map fun i => (target i, bread m (source i))) := by
  induction indices generalizing m with
  | nil => rfl
  | cons index rest ih =>
    have unread : ∀ i ∈ rest,
        bread (bwrite m (target index) (bread m (source index))) (source i) =
          bread m (source i) := by
      intro i member
      rw [bread_bwrite, update_of_ne
        (apart i (List.mem_cons_of_mem _ member) index List.mem_cons_self)]
    rw [List.foldl_cons, ih _ fun i left j right =>
      apart i (List.mem_cons_of_mem _ left) j (List.mem_cons_of_mem _ right)]
    rw [List.map_congr_left fun i member => by rw [unread i member]]
    rfl

/-- Block `blockno` belongs to the log region. -/
def Log.Holds (log : Log) (blockno : Nat) : Prop :=
  log.start ≤ blockno ∧ (blockno : Int) < log.start + log.size

/-- The header names blocks outside the log region and the log has room for a
copy of each. -/
structure Log.Fits (log : Log) : Prop where
  fitsHeader : log.lh.n ≤ LOGSIZE
  fitsLog : log.lh.n ≤ log.size - 1
  outside : ∀ i < log.lh.n.toNat, ¬ log.Holds (log.lh.block i)

theorem Log.Fits.copy_holds (fits : log.Fits) {i : Nat} (below : i < log.lh.n.toNat) :
    log.Holds (log.start + i + 1) := by
  have room := fits.fitsLog
  constructor <;> omega

theorem Log.Fits.home_ne_copy (fits : log.Fits) {i j : Nat} (homeBelow : i < log.lh.n.toNat)
    (copyBelow : j < log.lh.n.toNat) :
    log.lh.block i ≠ log.start + j + 1 := by
  intro equal
  exact fits.outside i homeBelow (equal ▸ fits.copy_holds copyBelow)

theorem writeLog_eq {m : Machine} (fits : m.log.Fits) :
    writeLog m = m.writeAll ((List.range m.log.lh.n.toNat).map fun i =>
      (m.log.start + i + 1, bread m (m.log.lh.block i))) := by
  apply foldl_copy_eq_writeAll
  intro i left j right
  exact fits.home_ne_copy (List.mem_range.mp left) (List.mem_range.mp right)

theorem installTrans_eq {m : Machine} (fits : m.log.Fits) :
    installTrans m = m.writeAll ((List.range m.log.lh.n.toNat).map fun i =>
      (m.log.lh.block i, bread m (m.log.start + i + 1))) := by
  apply foldl_copy_eq_writeAll
  intro i left j right
  exact (fits.home_ne_copy (List.mem_range.mp right) (List.mem_range.mp left)).symm

theorem writeHead_eq (m : Machine) :
    writeHead m = m.writeAll [(m.log.start, encodeHeader (bread m m.log.start) m.log.lh)] := rfl

end Xv6.RedoLog
