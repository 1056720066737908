import Xv6.RedoLog.Commit

/-!
Contract: crash atomicity of the redo log.

A crash keeps the disk after some prefix of the block writes and loses the
buffer cache. Relative to the machine on which `commit` was called, a disk is in
one of three phases: `Intact` (nothing visible happened), `Committed` (the header
names the transaction and the log holds its blocks) and `Installed` (everything
is at home, the header is cleared). Every crash point of `commit` leaves one of
the three, every crash point of `recover_from_log` keeps one of the three, and
`recover_from_log` never ends in `Committed`.
-/

namespace Xv6.RedoLog

open Function Xv6.Lib

/-- The disk a crash after `count` writes of `commit` leaves. -/
def commitCrash (m : Machine) (count : Nat) : Disk :=
  applyWrites m.disk ((commit m).written.drop m.written.length |>.take count)

/-- The machine after a reboot: an empty buffer cache and a zeroed log, with the
log region the superblock names. -/
def reboot (log : Log) (disk : Disk) : Machine where
  disk := disk
  cache := fun _ => none
  log := { log with outstanding := 0, committing := false, lh := { n := 0, block := fun _ => 0 } }
  written := []

/-- The disk a crash after `count` writes of `recover_from_log` leaves. -/
def recoveryCrash (log : Log) (disk : Disk) (count : Nat) : Disk :=
  applyWrites disk ((recoverFromLog (reboot log disk)).written.take count)

/-- `recover_from_log` finally completes, after any number of further crashes. -/
inductive Recovered (log : Log) : Disk → Disk → Prop where
  | complete (disk : Disk) : Recovered log disk (recoverFromLog (reboot log disk)).disk
  | crash {disk final : Disk} (count : Nat)
      (later : Recovered log (recoveryCrash log disk count) final) : Recovered log disk final

/-- What a block outside the log region holds once the transaction of `m` is
installed. -/
def installedBlock (m : Machine) (blockno : Nat) : Block :=
  if blockno ∈ m.log.lh.entries then bread m blockno else m.disk blockno

structure Intact (m : Machine) (disk : Disk) : Prop where
  cleared : headerCount (disk m.log.start) = 0
  homes : ∀ blockno, ¬ m.log.Holds blockno → disk blockno = m.disk blockno

structure Committed (m : Machine) (disk : Disk) : Prop where
  count : headerCount (disk m.log.start) = m.log.lh.n
  entries : ∀ i < m.log.lh.n.toNat, headerEntry (disk m.log.start) i = m.log.lh.block i
  copies : ∀ i < m.log.lh.n.toNat, disk (m.log.start + i + 1) = bread m (m.log.lh.block i)
  homes : ∀ blockno, ¬ m.log.Holds blockno →
    disk blockno = m.disk blockno ∨ disk blockno = installedBlock m blockno

structure Installed (m : Machine) (disk : Disk) : Prop where
  cleared : headerCount (disk m.log.start) = 0
  homes : ∀ blockno, ¬ m.log.Holds blockno → disk blockno = installedBlock m blockno

/-- The machine `commit` is called on: the transaction fits the log, its block
numbers are 32-bit, and the header on disk is cleared. -/
structure Ready (m : Machine) : Prop where
  fits : m.log.Fits
  nonneg : 0 ≤ m.log.lh.n
  number : ∀ i < m.log.lh.n.toNat, m.log.lh.block i < 2 ^ 32
  cleared : headerCount (m.disk m.log.start) = 0

section

variable {m : Machine}

theorem Ready.size_pos (ready : Ready m) : 1 ≤ m.log.size := by
  have room := ready.fits.fitsLog
  have nonneg := ready.nonneg
  omega

theorem Ready.start_holds (ready : Ready m) : m.log.Holds m.log.start := by
  have positive := ready.size_pos
  constructor <;> omega

theorem mem_entries {lh : LogHeader} {blockno : Nat} :
    blockno ∈ lh.entries ↔ ∃ i < lh.n.toNat, lh.block i = blockno := by
  simp [LogHeader.entries]

/-- The copies `write_log` puts into the log. -/
def logCopies (m : Machine) : List (Nat × Block) :=
  (List.range m.log.lh.n.toNat).map fun i => (m.log.start + i + 1, bread m (m.log.lh.block i))

/-- The writes `install_trans` sends home. -/
def homeWrites (m : Machine) : List (Nat × Block) :=
  (List.range m.log.lh.n.toNat).map fun i => (m.log.lh.block i, bread m (m.log.lh.block i))

private theorem mem_logCopies {write : Nat × Block} (member : write ∈ logCopies m) :
    ∃ i < m.log.lh.n.toNat,
      write = (m.log.start + i + 1, bread m (m.log.lh.block i)) := by
  simp only [logCopies, List.mem_map, List.mem_range] at member
  obtain ⟨i, below, rfl⟩ := member
  exact ⟨i, below, rfl⟩

private theorem mem_homeWrites {write : Nat × Block} (member : write ∈ homeWrites m) :
    ∃ i < m.log.lh.n.toNat,
      write = (m.log.lh.block i, bread m (m.log.lh.block i)) := by
  simp only [homeWrites, List.mem_map, List.mem_range] at member
  obtain ⟨i, below, rfl⟩ := member
  exact ⟨i, below, rfl⟩

theorem logCopies_read (store : Nat → Block) {i : Nat} (below : i < m.log.lh.n.toNat) :
    applyWrites store (logCopies m) (m.log.start + i + 1) = bread m (m.log.lh.block i) := by
  apply applyWrites_written
  · exact ⟨_, List.mem_map.mpr ⟨i, List.mem_range.mpr below, rfl⟩, rfl⟩
  · intro write member hits
    obtain ⟨j, _, rfl⟩ := mem_logCopies member
    have same : j = i := by
      simp only at hits
      omega
    rw [same]

/-- The last step of `commit` and of `recover_from_log`: one write that clears
the header. -/
theorem clearHead_eq (m : Machine) :
    ∃ cleared : Block, headerCount cleared = 0 ∧
      writeHead (clearCount m) = (clearCount m).writeAll [(m.log.start, cleared)] := by
  refine ⟨encodeHeader (bread m m.log.start) { m.log.lh with n := 0 }, ?_, rfl⟩
  exact headerCount_encodeHeader _ _ le_rfl (Int.natCast_nonneg LOGSIZE)

section

variable (ready : Ready m)

include ready

/-- `write_log` and the commit record leave the log copies in the cache, where
`install_trans` reads them back. -/
theorem writeHead_writeLog_eq :
    ∃ record : Block, headerCount record = m.log.lh.n ∧
      (∀ i < m.log.lh.n.toNat, headerEntry record i = m.log.lh.block i) ∧
      writeHead (writeLog m) = m.writeAll (logCopies m ++ [(m.log.start, record)]) := by
  have fits := ready.fits
  let logged := m.writeAll (logCopies m)
  have logSame : logged.log = m.log := (m.writeAll_spec (logCopies m)).2.2.2
  refine ⟨encodeHeader (bread logged m.log.start) m.log.lh, ?_, ?_, ?_⟩
  · exact headerCount_encodeHeader _ _ ready.nonneg fits.fitsHeader
  · intro i below
    rw [headerEntry_encodeHeader _ _ fits.fitsHeader below,
      Nat.mod_eq_of_lt (ready.number i below)]
  · rw [writeLog_eq fits, writeHead_eq]
    change logged.writeAll [(logged.log.start, encodeHeader (bread logged logged.log.start)
      logged.log.lh)] = _
    rw [logSame, Machine.writeAll, Machine.writeAll, List.foldl_append]
    rfl

/-- `write_log`, the commit record, the installation and the clearing of the
header, as one list of writes. -/
theorem commit_writes (nonempty : 0 < m.log.lh.n) :
    ∃ record cleared : Block,
      (commit m).written = m.written ++
        (logCopies m ++ (m.log.start, record) :: (homeWrites m ++ [(m.log.start, cleared)])) ∧
      headerCount record = m.log.lh.n ∧
      (∀ i < m.log.lh.n.toNat, headerEntry record i = m.log.lh.block i) ∧
      headerCount cleared = 0 := by
  obtain ⟨record, count, entries, headedEq⟩ := writeHead_writeLog_eq ready
  let headed := m.writeAll (logCopies m ++ [(m.log.start, record)])
  obtain ⟨-, buffers, history, log⟩ := m.writeAll_spec (logCopies m ++ [(m.log.start, record)])
  have readBack : ∀ i ∈ List.range m.log.lh.n.toNat,
      bread headed (m.log.start + i + 1) = bread m (m.log.lh.block i) := by
    intro i member
    rw [show bread headed = _ from buffers, applyWrites_append,
      applyWrites_other (by simp; omega)]
    exact logCopies_read _ (List.mem_range.mp member)
  have installedEq : installTrans headed = headed.writeAll (homeWrites m) := by
    have headedLog : headed.log = m.log := log
    rw [installTrans_eq (headedLog ▸ ready.fits), headedLog]
    congr 1
    apply List.map_congr_left
    intro i member
    rw [readBack i member]
  obtain ⟨-, -, history', log'⟩ := headed.writeAll_spec (homeWrites m)
  obtain ⟨cleared, zero, clearedEq⟩ := clearHead_eq (headed.writeAll (homeWrites m))
  refine ⟨record, cleared, ?_, count, entries, zero⟩
  rw [commit, if_pos nonempty, headedEq]
  change (writeHead (clearCount (installTrans headed))).written = _
  rw [installedEq, clearedEq, (Machine.writeAll_spec _ _).2.2.1]
  change (headed.writeAll (homeWrites m)).written ++ [((headed.writeAll (homeWrites m)).log.start,
    cleared)] = _
  rw [history', log', history, show headed.log = m.log from log]
  simp only [List.append_assoc, List.cons_append, List.nil_append]

/-- Any prefix of the log copies leaves everything outside the log alone. -/
theorem intact_of_copies (count : Nat) :
    Intact m (applyWrites m.disk ((logCopies m).take count)) := by
  have untouched : ∀ blockno, (∀ i < m.log.lh.n.toNat, blockno ≠ m.log.start + i + 1) →
      applyWrites m.disk ((logCopies m).take count) blockno = m.disk blockno := by
    intro blockno apart
    apply applyWrites_other
    intro write member
    obtain ⟨i, below, rfl⟩ := mem_logCopies (List.mem_of_mem_take member)
    exact (apart i below).symm
  constructor
  · rw [untouched _ fun i _ => by omega]
    exact ready.cleared
  · intro blockno outside
    apply untouched
    rintro i below rfl
    exact outside (ready.fits.copy_holds below)

/-- The commit record turns the log copies into a committed transaction. -/
theorem committed_of_record {record : Block} (count : headerCount record = m.log.lh.n)
    (entries : ∀ i < m.log.lh.n.toNat, headerEntry record i = m.log.lh.block i) :
    Committed m (update (applyWrites m.disk (logCopies m)) m.log.start record) := by
  have intact := intact_of_copies ready (logCopies m).length
  rw [List.take_length] at intact
  refine ⟨?_, ?_, ?_, ?_⟩
  · rw [update_self]
    exact count
  · rw [update_self]
    exact entries
  · intro i below
    rw [update_of_ne (by omega)]
    exact logCopies_read _ below
  · intro blockno outside
    have different : blockno ≠ m.log.start := by
      rintro rfl
      exact outside ready.start_holds
    rw [update_of_ne different]
    exact Or.inl (intact.homes blockno outside)

omit ready in
private theorem homeWrites_agree {blockno : Nat} :
    ∀ write ∈ homeWrites m, write.1 = blockno → write.2 = installedBlock m blockno := by
  intro write member hits
  obtain ⟨i, below, rfl⟩ := mem_homeWrites member
  simp only at hits ⊢
  subst hits
  rw [installedBlock, if_pos (mem_entries.mpr ⟨i, below, rfl⟩)]

private theorem homeWrites_other {blockno : Nat} (inside : m.log.Holds blockno)
    (store : Disk) (count : Nat) :
    applyWrites store ((homeWrites m).take count) blockno = store blockno := by
  apply applyWrites_other
  intro write member hits
  obtain ⟨i, below, rfl⟩ := mem_homeWrites (List.mem_of_mem_take member)
  simp only at hits
  subst hits
  exact ready.fits.outside i below inside

/-- Installing part of a committed transaction keeps it committed: the home
writes never reach the log region. -/
theorem Committed.installPart {disk : Disk} (committed : Committed m disk)
    (count : Nat) : Committed m (applyWrites disk ((homeWrites m).take count)) := by
  refine ⟨?_, ?_, ?_, ?_⟩
  · rw [homeWrites_other ready ready.start_holds]
    exact committed.count
  · rw [homeWrites_other ready ready.start_holds]
    exact committed.entries
  · intro i below
    rw [homeWrites_other ready (ready.fits.copy_holds below)]
    exact committed.copies i below
  · intro blockno outside
    rcases applyWrites_take_cases count homeWrites_agree with kept | written
    · rw [kept]
      exact committed.homes blockno outside
    · exact Or.inr written

/-- Installing all of it and clearing the header finishes the transaction,
whatever part had been installed before. -/
theorem Committed.installAll {disk : Disk} (committed : Committed m disk)
    {cleared : Block} (zero : headerCount cleared = 0) :
    Installed m (update (applyWrites disk (homeWrites m)) m.log.start cleared) := by
  refine ⟨?_, ?_⟩
  · rw [update_self]
    exact zero
  · intro blockno outside
    have different : blockno ≠ m.log.start := by
      rintro rfl
      exact outside ready.start_holds
    rw [update_of_ne different]
    by_cases home : blockno ∈ m.log.lh.entries
    · obtain ⟨i, below, rfl⟩ := mem_entries.mp home
      apply applyWrites_written _ homeWrites_agree
      exact ⟨_, List.mem_map.mpr ⟨i, List.mem_range.mpr below, rfl⟩, rfl⟩
    · -- A block outside the transaction is not written, and was unchanged before.
      have unwritten : applyWrites disk (homeWrites m) blockno = disk blockno := by
        apply applyWrites_other
        rintro write member rfl
        obtain ⟨i, below, rfl⟩ := mem_homeWrites member
        exact home (mem_entries.mpr ⟨i, below, rfl⟩)
      rw [unwritten]
      rcases committed.homes blockno outside with same | same
      · rw [same, installedBlock, if_neg home]
      · exact same

/-- Every crash point of `commit` leaves one of the three phases. -/
theorem commitCrash_phase (count : Nat) :
    Intact m (commitCrash m count) ∨ Committed m (commitCrash m count) ∨
      Installed m (commitCrash m count) := by
  unfold commitCrash
  by_cases nonempty : 0 < m.log.lh.n
  · obtain ⟨record, cleared, writes, recordCount, recordEntries, zero⟩ :=
      commit_writes ready nonempty
    have committed := committed_of_record ready recordCount recordEntries
    rw [writes, List.drop_left]
    rcases take_append_cases (logCopies m) _ count with ⟨fewer, early⟩ | ⟨later, late⟩
    · rw [early]
      exact Or.inl (intact_of_copies ready fewer)
    · rw [late, applyWrites_append, List.take_succ_cons, applyWrites_cons]
      right
      rcases take_append_cases (homeWrites m) [(m.log.start, cleared)] later with
        ⟨some, part⟩ | ⟨none, all⟩
      · rw [part]
        exact Or.inl (committed.installPart ready some)
      · rw [all, applyWrites_append, List.take_succ_cons, List.take_nil]
        exact Or.inr (committed.installAll ready zero)
  · left
    rw [commit, if_neg nonempty, List.drop_length, List.take_nil]
    exact ⟨ready.cleared, fun _ _ => rfl⟩

/-- What `read_head` leaves in memory after a reboot. -/
def recoveredLog (log : Log) (disk : Disk) : Log := (readHead (reboot log disk)).log

omit ready in
/-- The writes of `recover_from_log`: the home writes of the transaction the
header names, then the cleared header. -/
theorem recover_writes {log : Log} {disk : Disk} (fits : (recoveredLog log disk).Fits) :
    ∃ cleared : Block, headerCount cleared = 0 ∧
      (recoverFromLog (reboot log disk)).written =
        (List.range (recoveredLog log disk).lh.n.toNat).map (fun i =>
          ((recoveredLog log disk).lh.block i, disk (log.start + i + 1))) ++
          [(log.start, cleared)] ∧
      (recoverFromLog (reboot log disk)).disk =
        applyWrites disk (recoverFromLog (reboot log disk)).written := by
  let headed := readHead (reboot log disk)
  let writes := (List.range (recoveredLog log disk).lh.n.toNat).map fun i =>
    ((recoveredLog log disk).lh.block i, disk (log.start + i + 1))
  have installedEq : installTrans headed = headed.writeAll writes := installTrans_eq fits
  obtain ⟨installedDisk, -, history, sameLog⟩ := headed.writeAll_spec writes
  have start : (headed.writeAll writes).log.start = log.start := by
    rw [sameLog]
    rfl
  have initial : headed.written = [] := rfl
  generalize headed.writeAll writes = installed at *
  obtain ⟨cleared, zero, clearedEq⟩ := clearHead_eq installed
  obtain ⟨finalDisk, -, finalHistory, -⟩ :=
    (clearCount installed).writeAll_spec [(installed.log.start, cleared)]
  have steps : recoverFromLog (reboot log disk) =
      (clearCount installed).writeAll [(installed.log.start, cleared)] := by
    rw [← clearedEq, ← installedEq]
    rfl
  have total : (recoverFromLog (reboot log disk)).written = writes ++ [(log.start, cleared)] := by
    rw [steps, finalHistory, start, show (clearCount installed).written = installed.written from rfl,
      history, initial, List.nil_append]
  refine ⟨cleared, zero, total, ?_⟩
  rw [total, applyWrites_append, steps, finalDisk, start,
    show (clearCount installed).disk = installed.disk from rfl, installedDisk]
  rfl

omit ready in
private theorem recoveredLog_cleared {log : Log} {disk : Disk} (positive : 1 ≤ log.size)
    (cleared : headerCount (disk log.start) = 0) :
    (recoveredLog log disk).lh.n = 0 ∧ (recoveredLog log disk).Fits := by
  have zero : (recoveredLog log disk).lh.n = 0 := cleared
  have size : (recoveredLog log disk).size = log.size := rfl
  refine ⟨zero, ?_, ?_, ?_⟩
  · rw [zero]
    exact Int.natCast_nonneg LOGSIZE
  · rw [zero, size]
    omega
  · rw [zero]
    intro i below
    simp at below

omit ready in
/-- With a cleared header, recovery only writes a cleared header. -/
theorem recover_cleared {log : Log} {disk : Disk} (positive : 1 ≤ log.size)
    (cleared : headerCount (disk log.start) = 0) :
    ∃ block : Block, headerCount block = 0 ∧
      (recoverFromLog (reboot log disk)).written = [(log.start, block)] ∧
      (recoverFromLog (reboot log disk)).disk = update disk log.start block := by
  obtain ⟨zero, fits⟩ := recoveredLog_cleared positive cleared
  obtain ⟨block, isZero, writes, final⟩ := recover_writes fits
  rw [zero] at writes
  refine ⟨block, isZero, writes, ?_⟩
  rw [final, writes]
  rfl

/-- With a committed transaction, recovery issues the same home writes as
`commit` would have. -/
theorem recover_committed {disk : Disk} (committed : Committed m disk) :
    ∃ block : Block, headerCount block = 0 ∧
      (recoverFromLog (reboot m.log disk)).written = homeWrites m ++ [(m.log.start, block)] ∧
      (recoverFromLog (reboot m.log disk)).disk =
        update (applyWrites disk (homeWrites m)) m.log.start block := by
  have count : (recoveredLog m.log disk).lh.n = m.log.lh.n := committed.count
  have start : (recoveredLog m.log disk).start = m.log.start := rfl
  have size : (recoveredLog m.log disk).size = m.log.size := rfl
  have entry : ∀ i < m.log.lh.n.toNat, (recoveredLog m.log disk).lh.block i = m.log.lh.block i := by
    intro i below
    have inUse : (i : Int) < headerCount (disk m.log.start) := by
      rw [committed.count]
      omega
    change (if (i : Int) < headerCount (disk m.log.start) then
      headerEntry (disk m.log.start) i else 0) = _
    rw [if_pos inUse]
    exact committed.entries i below
  have fits : (recoveredLog m.log disk).Fits := by
    refine ⟨?_, ?_, ?_⟩
    · rw [count]
      exact ready.fits.fitsHeader
    · rw [count, size]
      exact ready.fits.fitsLog
    · rw [count]
      intro i below inside
      rw [entry i below] at inside
      exact ready.fits.outside i below inside
  obtain ⟨block, zero, writes, final⟩ := recover_writes fits
  have sameWrites : (recoverFromLog (reboot m.log disk)).written =
      homeWrites m ++ [(m.log.start, block)] := by
    rw [writes, count]
    congr 1
    apply List.map_congr_left
    intro i member
    have below := List.mem_range.mp member
    rw [entry i below, committed.copies i below]
  refine ⟨block, zero, sameWrites, ?_⟩
  rw [final, sameWrites, applyWrites_append]
  rfl

section Cleared

variable {disk : Disk} {block : Block}

private theorem Intact.clearAgain (intact : Intact m disk)
    (zero : headerCount block = 0) : Intact m (update disk m.log.start block) := by
  refine ⟨by rw [update_self]; exact zero, fun blockno outside => ?_⟩
  have different : blockno ≠ m.log.start := by
    rintro rfl
    exact outside ready.start_holds
  rw [update_of_ne different]
  exact intact.homes blockno outside

private theorem Installed.clearAgain (installed : Installed m disk)
    (zero : headerCount block = 0) : Installed m (update disk m.log.start block) := by
  refine ⟨by rw [update_self]; exact zero, fun blockno outside => ?_⟩
  have different : blockno ≠ m.log.start := by
    rintro rfl
    exact outside ready.start_holds
  rw [update_of_ne different]
  exact installed.homes blockno outside

omit ready in
private theorem applyWrites_take_single (count : Nat) :
    applyWrites disk ([(m.log.start, block)].take count) = disk ∨
      applyWrites disk ([(m.log.start, block)].take count) =
        update disk m.log.start block := by
  cases count with
  | zero => exact Or.inl rfl
  | succ count => exact Or.inr (by rw [List.take_succ_cons, List.take_nil]; rfl)

end Cleared

/-- A crash inside recovery keeps the phase, or completes the installation. -/
theorem recoveryCrash_phase {disk : Disk} (count : Nat)
    (phase : Intact m disk ∨ Committed m disk ∨ Installed m disk) :
    Intact m (recoveryCrash m.log disk count) ∨ Committed m (recoveryCrash m.log disk count) ∨
      Installed m (recoveryCrash m.log disk count) := by
  unfold recoveryCrash
  rcases phase with intact | committed | installed
  · obtain ⟨block, zero, writes, -⟩ := recover_cleared ready.size_pos intact.cleared
    rw [writes]
    left
    rcases applyWrites_take_single (m := m) count with same | cleared
    · rw [same]
      exact intact
    · rw [cleared]
      exact intact.clearAgain ready zero
  · obtain ⟨block, zero, writes, -⟩ := recover_committed ready committed
    rw [writes]
    right
    rcases take_append_cases (homeWrites m) [(m.log.start, block)] count with
      ⟨some, part⟩ | ⟨none, all⟩
    · rw [part]
      exact Or.inl (committed.installPart ready some)
    · rw [all, applyWrites_append, List.take_succ_cons, List.take_nil]
      exact Or.inr (committed.installAll ready zero)
  · obtain ⟨block, zero, writes, -⟩ := recover_cleared ready.size_pos installed.cleared
    rw [writes]
    right
    right
    rcases applyWrites_take_single (m := m) count with same | cleared
    · rw [same]
      exact installed
    · rw [cleared]
      exact installed.clearAgain ready zero

theorem recoverFromLog_phase {disk : Disk}
    (phase : Intact m disk ∨ Committed m disk ∨ Installed m disk) :
    Intact m (recoverFromLog (reboot m.log disk)).disk ∨
      Installed m (recoverFromLog (reboot m.log disk)).disk := by
  rcases phase with intact | committed | installed
  · obtain ⟨block, zero, -, final⟩ := recover_cleared ready.size_pos intact.cleared
    rw [final]
    exact Or.inl (intact.clearAgain ready zero)
  · obtain ⟨block, zero, -, final⟩ := recover_committed ready committed
    rw [final]
    exact Or.inr (committed.installAll ready zero)
  · obtain ⟨block, zero, -, final⟩ := recover_cleared ready.size_pos installed.cleared
    rw [final]
    exact Or.inr (installed.clearAgain ready zero)

theorem Recovered.phase {disk final : Disk} (recovered : Recovered m.log disk final)
    (phase : Intact m disk ∨ Committed m disk ∨ Installed m disk) :
    Intact m final ∨ Installed m final := by
  induction recovered with
  | complete disk => exact recoverFromLog_phase ready phase
  | crash count _ ih =>
    exact ih (recoveryCrash_phase ready count phase)

end

/-- Crash atomicity. Cut `commit` after any number of writes, let recovery crash
any number of times, and let it finally complete: the home blocks all hold their
old values or all hold their new ones, every other block outside the log region
is unchanged, and the header on disk is cleared. -/
theorem commit_crash_atomic (m : Machine) (ready : Ready m) (count : Nat) (final : Disk)
    (recovered : Recovered m.log (commitCrash m count) final) :
    ((∀ blockno ∈ m.log.lh.entries, final blockno = m.disk blockno) ∨
        (∀ blockno ∈ m.log.lh.entries, final blockno = bread m blockno)) ∧
      (∀ blockno, blockno ∉ m.log.lh.entries → ¬ m.log.Holds blockno →
        final blockno = m.disk blockno) ∧
      headerCount (final m.log.start) = 0 := by
  have outside : ∀ blockno ∈ m.log.lh.entries, ¬ m.log.Holds blockno := by
    intro blockno member
    obtain ⟨i, below, rfl⟩ := mem_entries.mp member
    exact ready.fits.outside i below
  rcases recovered.phase ready (commitCrash_phase ready count) with intact | installed
  · refine ⟨Or.inl fun blockno member => ?_, fun blockno _ free => ?_, intact.cleared⟩
    · exact intact.homes blockno (outside blockno member)
    · exact intact.homes blockno free
  · refine ⟨Or.inr fun blockno member => ?_, fun blockno other free => ?_, installed.cleared⟩
    · rw [installed.homes blockno (outside blockno member), installedBlock, if_pos member]
    · rw [installed.homes blockno free, installedBlock, if_neg other]

/-- A zeroed disk whose block 40 has been logged with new contents. -/
def loggedOnce : Machine where
  disk := fun _ => Bytes.zero
  cache := fun blockno => if blockno = 40 then some (fun _ => 1) else none
  log := { start := 2, size := LOGSIZE, outstanding := 0, committing := true,
           lh := { n := 1, block := fun _ => 40 } }
  written := []

theorem loggedOnce_ready : Ready loggedOnce where
  fits := by
    refine ⟨by decide, by decide, fun i _ inside => ?_⟩
    have below : (40 : Int) < 2 + LOGSIZE := inside.2
    exact absurd below (by decide)
  nonneg := by decide
  number := fun _ _ => show 40 < 2 ^ 32 by decide
  cleared := by
    change toInt32 (Bytes.getLe Bytes.zero 0 4) = 0
    rw [Bytes.getLe_zero]
    rfl

/-- Crashed right after the commit record, then after the first home write of
the recovery, and recovered at the second attempt. -/
def loggedOnceFinal : Disk :=
  (recoverFromLog (reboot loggedOnce.log
    (recoveryCrash loggedOnce.log (commitCrash loggedOnce 2) 1))).disk

theorem commit_crash_atomic_loggedOnce :
    ((∀ blockno ∈ loggedOnce.log.lh.entries,
          loggedOnceFinal blockno = loggedOnce.disk blockno) ∨
        (∀ blockno ∈ loggedOnce.log.lh.entries,
          loggedOnceFinal blockno = bread loggedOnce blockno)) ∧
      (∀ blockno, blockno ∉ loggedOnce.log.lh.entries → ¬ loggedOnce.log.Holds blockno →
        loggedOnceFinal blockno = loggedOnce.disk blockno) ∧
      headerCount (loggedOnceFinal loggedOnce.log.start) = 0 :=
  commit_crash_atomic loggedOnce loggedOnce_ready 2 loggedOnceFinal
    (Recovered.crash 1 (Recovered.complete _))

end

end Xv6.RedoLog
