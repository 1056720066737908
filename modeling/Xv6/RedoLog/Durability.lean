import Xv6.RedoLog.CrashSafety

/-!
Contract: durability. However often the machine crashes, the disk is what some of the
transactions make of it, one after another and each as a whole; every transaction whose
commit returned is among them.
-/

namespace Xv6.RedoLog

open Function Xv6.Lib

/-- The writes of the operations between two commits, and whether the commit returned. -/
structure Transaction where
  writes : List (Nat × Block)
  committed : Bool

/-- The transactions since `first`, the writes that are not committed yet, and the machine. -/
inductive Run (first : Machine) : List Transaction → List (Nat × Block) → Machine → Prop where
  | boot : Run first [] [] first
  -- `begin_op` and `end_op`
  | count {past writes m} (before : Run first past writes m) (outstanding : Int)
      (committing : Bool) :
      Run first past writes { m with log := { m.log with outstanding, committing } }
  -- a store to a buffer and its `log_write`
  | store {past writes m b after} (before : Run first past writes m) (data : Block)
      (number : b < 2 ^ 32) (outside : ¬ m.log.Holds b) (ok : logWrite m.log b = .ok after) :
      Run first past (writes ++ [(b, data)])
        { m with cache := update m.cache b (some data), log := after }
  | commit {past writes m} (before : Run first past writes m) :
      Run first (past ++ [⟨writes, true⟩]) [] (commit m)
  -- in a commit, or before it if `count` is 0
  | crash {past writes m final} (before : Run first past writes m) (count : Nat)
      (recovered : Recovered m.log (commitCrash m count) final) :
      Run first (past ++ [⟨writes, false⟩]) [] (reboot m.log final)

/-- The cache has the contents of `writes`, and the log their blocks. -/
structure Logged (writes : List (Nat × Block)) (m : Machine) : Prop where
  ready : Ready m
  distinct : m.log.lh.entries.Nodup
  reads : bread m = applyWrites m.disk writes
  entries : ∀ b, b ∈ m.log.lh.entries ↔ b ∈ writes.map Prod.fst

variable {m first : Machine} {writes : List (Nat × Block)} {past : List Transaction}

theorem Logged.nothing (size : 1 ≤ m.log.size) (empty : m.log.lh.n = 0)
    (cleared : headerCount (m.disk m.log.start) = 0) (clean : bread m = m.disk) :
    Logged [] m := by
  have none : m.log.lh.entries = [] := by simp [LogHeader.entries, empty]
  refine ⟨⟨⟨by simp [empty], by omega, ?_⟩, by omega, ?_, cleared⟩, ?_, clean, ?_⟩ <;>
    simp [none, empty]

theorem commit_spec (ready : Ready m) (nonempty : 0 < m.log.lh.n) :
    (commit m).log = (clearCount m).log ∧
      (commit m).disk = applyWrites m.disk ((commit m).written.drop m.written.length) ∧
      bread (commit m) = applyWrites (bread m) ((commit m).written.drop m.written.length) := by
  obtain ⟨record, -, -, headed⟩ := writeHead_writeLog_eq ready
  have spec := Machine.writeAll_spec
  have fits := (spec m (logCopies m ++ [(m.log.start, record)])).2.2.2 ▸ ready.fits
  have cleared : ∀ m, bread (clearCount m) = bread m ∧ (clearCount m).disk = m.disk ∧
      (clearCount m).written = m.written ∧
      (clearCount m).log = { m.log with lh := { m.log.lh with n := 0 } } :=
    fun _ => ⟨rfl, rfl, rfl, rfl⟩
  rw [commit, if_pos nonempty, headed, installTrans_eq fits, writeHead_eq]
  simp only [spec, cleared, List.append_assoc, List.drop_left, applyWrites_append, and_self]

namespace Logged

variable (logged : Logged writes m)

include logged

theorem store {b : Nat} (data : Block) {after : Log} (number : b < 2 ^ 32)
    (outside : ¬ m.log.Holds b) (ok : logWrite m.log b = .ok after) :
    after.Holds = m.log.Holds ∧ Logged (writes ++ [(b, data)])
      { m with cache := update m.cache b (some data), log := after } := by
  have ready := logged.ready
  obtain ⟨nonneg, header, room, distinct⟩ := logWrite_fits ready.nonneg logged.distinct ok
  unfold logWrite logWriteCheck at ok
  split_ifs at ok <;> cases ok
  have entries : ∀ e, e ∈ (logWriteRecord m.log b).lh.entries ↔ e ∈ m.log.lh.entries ∨ e = b := by
    rw [entries_logWriteRecord ready.nonneg]
    grind
  have named : ∀ i < (logWriteRecord m.log b).lh.n.toNat,
      ¬ m.log.Holds ((logWriteRecord m.log b).lh.block i) ∧
        (logWriteRecord m.log b).lh.block i < 2 ^ 32 := by
    intro i below
    rcases (entries _).mp (mem_entries.mpr ⟨i, below, rfl⟩) with old | same
    · obtain ⟨j, before, same⟩ := mem_entries.mp old
      exact same ▸ ⟨ready.fits.outside j before, ready.number j before⟩
    · rw [same]
      exact ⟨outside, number⟩
  refine ⟨rfl, ⟨⟨header, room, fun i below => (named i below).1⟩, nonneg,
    fun i below => (named i below).2, ready.cleared⟩, distinct, ?_, ?_⟩
  · rw [applyWrites_append, ← logged.reads]
    funext e
    by_cases here : e = b <;> simp [bread, here]
  · simp [entries, logged.entries]

theorem unlogged {b : Nat} (absent : b ∉ m.log.lh.entries) : bread m b = m.disk b := by
  rw [logged.reads, applyWrites_other]
  intro write member same
  exact absent ((logged.entries b).mpr (List.mem_map.mpr ⟨write, member, same⟩))

theorem installedBlock_eq (b : Nat) : installedBlock m b = bread m b := by
  unfold installedBlock
  split_ifs with member
  · rfl
  · exact (logged.unlogged member).symm

/-- A commit that returned has put everything on the disk that was read before. -/
theorem commit :
    (commit m).log.Holds = m.log.Holds ∧ Logged [] (commit m) ∧
      ∀ b, ¬ m.log.Holds b → (commit m).disk b = bread m b := by
  have ready := logged.ready
  by_cases nonempty : 0 < m.log.lh.n
  · obtain ⟨record, cleared, history, count, entries, zero⟩ := commit_writes ready nonempty
    obtain ⟨isLog, isDisk, isRead⟩ := commit_spec ready nonempty
    rw [history, List.drop_left] at isDisk isRead
    have installed : Installed m (RedoLog.commit m).disk := by
      rw [isDisk, applyWrites_append, applyWrites_cons, applyWrites_append]
      exact (committed_of_record ready count entries).installAll ready zero
    have clean : bread (RedoLog.commit m) = (RedoLog.commit m).disk := by
      rw [isRead, isDisk]
      funext b
      refine applyWrites_congr fun untouched => logged.unlogged fun member => ?_
      obtain ⟨i, below, rfl⟩ := mem_entries.mp member
      have written : (m.log.lh.block i, bread m (m.log.lh.block i)) ∈ homeWrites m :=
        List.mem_map_of_mem (List.mem_range.mpr below)
      exact untouched _ (List.mem_append_right _ (.tail _ (List.mem_append_left _ written))) rfl
    refine ⟨isLog ▸ rfl, Logged.nothing (isLog ▸ ready.size_pos) (isLog ▸ rfl)
      (isLog ▸ installed.cleared) clean, fun b outside => ?_⟩
    rw [installed.homes b outside, logged.installedBlock_eq]
  · have empty : m.log.lh.n = 0 := le_antisymm (not_lt.mp nonempty) ready.nonneg
    have clean : bread m = m.disk :=
      funext fun b => logged.unlogged (by simp [LogHeader.entries, empty])
    rw [RedoLog.commit, if_neg nonempty, clean]
    exact ⟨rfl, Logged.nothing ready.size_pos empty ready.cleared clean, fun _ _ => rfl⟩

/-- After a crash the disk is as before, or as after the commit. -/
theorem crash {count : Nat} {final : Disk}
    (recovered : Recovered m.log (commitCrash m count) final) :
    Logged [] (reboot m.log final) ∧ ((∀ b, ¬ m.log.Holds b → final b = m.disk b) ∨
      ∀ b, ¬ m.log.Holds b → final b = bread m b) := by
  have ready := logged.ready
  rcases recovered.phase ready (commitCrash_phase ready _) with intact | installed
  · exact ⟨Logged.nothing ready.size_pos rfl intact.cleared rfl, Or.inl intact.homes⟩
  · refine ⟨Logged.nothing ready.size_pos rfl installed.cleared rfl, Or.inr fun b outside => ?_⟩
    rw [installed.homes b outside, logged.installedBlock_eq]

theorem durable {disk : Disk} {kept : List (Nat × Block)} {b : Nat}
    (isDisk : m.disk b = applyWrites disk kept b) :
    m.disk b = applyWrites disk kept b ∧ bread m b = applyWrites disk (kept ++ writes) b := by
  refine ⟨isDisk, ?_⟩
  rw [logged.reads, applyWrites_append]
  exact applyWrites_congr fun _ => isDisk

end Logged

theorem Run.logged (booted : Logged [] first) (run : Run first past writes m) :
    m.log.Holds = first.log.Holds ∧ Logged writes m := by
  induction run with
  | boot => exact ⟨rfl, booted⟩
  | count _ _ _ ih =>
    obtain ⟨region, ⟨⟨header, room, outside⟩, nonneg, number, cleared⟩, distinct, reads, same⟩ := ih
    exact ⟨region, ⟨⟨header, room, outside⟩, nonneg, number, cleared⟩, distinct, reads, same⟩
  | store _ data number outside ok ih =>
    obtain ⟨same, logged⟩ := ih.2.store data number outside ok
    exact ⟨same.trans ih.1, logged⟩
  | commit _ ih => exact ⟨ih.2.commit.1.trans ih.1, ih.2.commit.2.1⟩
  | crash _ _ recovered ih => exact ⟨ih.1, (ih.2.crash recovered).1⟩

end Xv6.RedoLog
