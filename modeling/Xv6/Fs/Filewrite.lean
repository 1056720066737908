import Xv6.Fs.ByteArray

/-!
Contract: `filewrite`, which writes in chunks, each in a transaction of its own.

A chunk fits what its transaction has reserved: besides the blocks of the file that it
covers, it can log the block of the free map, the indirect block and the block of the inode.
-/

namespace Xv6.Fs

open Function Xv6.Lib

/-- The blocks that were logged on the way from one state to another. -/
def loggedBlocks (s s' : FsState) : Finset Nat :=
  ((s'.trace.take (s'.trace.length - s.trace.length)).filterMap fun
    | .logWrite b => some b
    | _ => none).toFinset

/-- Since `base` no block was logged but that of the free map, the indirect block of the
inode and the blocks `data`; and block 0, which is in use on a disk that is well-formed. -/
structure Logs (sb : Superblock) (x : Slot) (base : List Event) (data : Finset Nat) (s : FsState) : Prop where
  isSb : s.sb = sb
  trace : ∃ events, s.trace = events ++ base ∧ ∀ b, .logWrite b ∈ events →
    b = sb.bmapstart ∨ b = 0 ∨ b = (s.icache x).copy.addrs last ∨ b ∈ data

section

variable {sb : Superblock} {x : Slot} {base : List Event} {data : Finset Nat} {s : FsState}

namespace Logs

variable (logs : Logs sb x base data s)

include logs

theorem grow {data' : Finset Nat} (more : data ⊆ data') : Logs sb x base data' s := by
  obtain ⟨events, isTrace, known⟩ := logs.trace
  exact ⟨logs.isSb, events, isTrace, fun b member => (known b member).imp_right (Or.imp_right (Or.imp_right (@more b)))⟩

theorem record {event : Event} (other : ∀ b, event ≠ .logWrite b) : Logs sb x base data (s.log event) := by
  obtain ⟨events, isTrace, known⟩ := logs.trace
  refine ⟨logs.isSb, event :: events, congrArg (event :: ·) isTrace, fun b member => known b ?_⟩
  exact (List.mem_cons.mp member).resolve_left (other b).symm

theorem write (b : Nat) (block : Block) : Logs sb x base (insert b data) (s.write b block) := by
  obtain ⟨events, isTrace, known⟩ := logs.trace
  refine ⟨logs.isSb, .logWrite b :: events, congrArg (Event.logWrite b :: ·) isTrace, fun b' member => ?_⟩
  rcases List.mem_cons.mp member with same | earlier
  · cases same
    exact Or.inr (Or.inr (Or.inr (Finset.mem_insert_self b data)))
  · exact (known b' earlier).imp_right (Or.imp_right (Or.imp_right Finset.mem_insert_of_mem))

theorem put {ip : Inode} (kept : (s.icache x).copy.addrs last = 0 ∨ ip.copy.addrs last = (s.icache x).copy.addrs last) :
    Logs sb x base data (s.put x ip) := by
  obtain ⟨events, isTrace, known⟩ := logs.trace
  refine ⟨logs.isSb, events, isTrace, fun b member => ?_⟩
  rw [FsState.put_icache, update_self]
  rcases known b member with isMap | isZero | isLast | isData
  · exact Or.inl isMap
  · exact Or.inr (Or.inl isZero)
  · rcases kept with none | same
    · exact Or.inr (Or.inl (isLast.trans none))
    · exact Or.inr (Or.inr (Or.inl (isLast.trans same.symm)))
  · exact Or.inr (Or.inr (Or.inr isData))

end Logs

theorem Logs.known {b : Nat} (logs : Logs sb x base (insert b data) s)
    (isKnown : b = sb.bmapstart ∨ b = (s.icache x).copy.addrs last) : Logs sb x base data s := by
  obtain ⟨events, isTrace, known⟩ := logs.trace
  refine ⟨logs.isSb, events, isTrace, fun b' member => ?_⟩
  rcases known b' member with isMap | isZero | isLast | isData
  · exact Or.inl isMap
  · exact Or.inr (Or.inl isZero)
  · exact Or.inr (Or.inr (Or.inl isLast))
  · rcases Finset.mem_insert.mp isData with rfl | isData
    · exact isKnown.imp_right fun isLast => Or.inr (Or.inl isLast)
    · exact Or.inr (Or.inr (Or.inr isData))

/-- No more than `bound` blocks were logged besides the known ones. -/
def LogsFew (sb : Superblock) (x : Slot) (base : List Event) (bound : Nat) (s : FsState) : Prop :=
  ∃ data, data.card ≤ bound ∧ Logs sb x base data s

variable {bound : Nat}

section

variable (small : sb.size ≤ BPB) (few : data.card ≤ bound) (logs : Logs sb x base data s)

include small few logs

theorem balloc_logs (caller : Caller) :
    wp (balloc caller) (fun b s' => Logs sb x base (insert b data) s' ∧ s'.icache = s.icache) (fun _ => LogsFew sb x base bound) s := by
  simp only [balloc, wp_bind, wp_get]
  split
  · rename_i b found
    have inside : b < s.sb.size := List.mem_range.mp (List.mem_of_find?_eq_some found)
    have isMap : BBLOCK b s.sb = sb.bmapstart := by
      rw [logs.isSb] at inside ⊢
      rw [BBLOCK, Nat.div_eq_of_lt (inside.trans_le small), zero_add]
    have recorded : Logs sb x base data (s.log (.balloc caller b)) := logs.record (by simp)
    simp only [wp_bind, wp_record, wp_logWrite, bzero, wp_pure]
    exact ⟨((recorded.write _ _).known (Or.inl isMap)).write b _, rfl⟩
  · exact ⟨data, few, logs⟩

theorem bmapSlot_logs (caller : Caller) {k : Fin (NDIRECT + 1)} (direct : last ≠ k) :
    wp (bmapSlot caller x k) (fun addr s' => Logs sb x base (insert addr data) s') (fun _ => LogsFew sb x base bound) s := by
  simp only [bmapSlot, wp_bind, wp_get, wp_ite]
  refine ⟨fun _ => ?_, fun _ => logs.grow (Finset.subset_insert _ _)⟩
  apply (balloc_logs small few logs caller).mono
  rintro b s' ⟨logs', _⟩
  rw [wp_setAddr]
  exact logs'.put (Or.inr (update_of_ne direct _ _))

theorem bmapLast_logs (caller : Caller) :
    wp (bmapSlot caller x last) (fun addr s' => Logs sb x base data s' ∧ addr = (s'.icache x).copy.addrs last)
      (fun _ => LogsFew sb x base bound) s := by
  simp only [bmapSlot, wp_bind, wp_get, wp_ite]
  refine ⟨fun none => ?_, fun _ => ⟨logs, rfl⟩⟩
  apply (balloc_logs small few logs caller).mono
  rintro b s' ⟨logs', icache⟩
  rw [wp_setAddr, wp_pure]
  have isLast : b = ((s'.put x { s'.icache x with copy := (s'.icache x).copy.setAddr last b }).icache x).copy.addrs last := by
    rw [FsState.put_icache, update_self, Dinode.setAddr_self]
  exact ⟨(logs'.put (Or.inl (icache ▸ none))).known (Or.inr isLast), isLast⟩

theorem bmapEntry_logs (caller : Caller) {addr : Nat} (isAddr : addr = (s.icache x).copy.addrs last) (j : Nat) :
    wp (bmapEntry caller addr j) (fun new s' => Logs sb x base (insert new data) s') (fun _ => LogsFew sb x base bound) s := by
  simp only [bmapEntry, wp_bind, wp_bread, wp_ite]
  refine ⟨fun _ => ?_, fun _ => logs.grow (Finset.subset_insert _ _)⟩
  apply (balloc_logs small few logs caller).mono
  rintro new s' ⟨logs', icache⟩
  simp only [wp_logWrite, wp_pure]
  exact (logs'.write addr _).known (Or.inr (icache ▸ isAddr))

theorem bmap_logs (caller : Caller) (bn : Nat) :
    wp (bmap caller x bn) (fun addr s' => Logs sb x base (insert addr data) s') (fun _ => LogsFew sb x base bound) s := by
  unfold bmap
  split
  · rename_i direct
    exact bmapSlot_logs small few logs caller (Fin.ne_of_gt direct)
  · rw [wp_ite]
    refine ⟨fun _ => ?_, fun _ => ⟨data, few, logs⟩⟩
    apply (bmapLast_logs small few logs caller).bind
    intro addr s' ⟨logs', isAddr⟩
    exact bmapEntry_logs small few logs' caller isAddr _

end

/-- Each round logs one block of the file. -/
theorem writeLoop_logs (small : sb.size ≤ BPB) {rounds off count total : Nat} {src : List UInt8}
    (few : data.card + count ≤ total) (within : total ≤ bound) (logs : Logs sb x base data s)
    (covered : src.length ≤ BSIZE * count - off % BSIZE) :
    wp (writeLoop x rounds off src) (fun _ => LogsFew sb x base total) (fun _ => LogsFew sb x base bound) s := by
  induction rounds generalizing off count src data s with
  | zero => exact ⟨data, Nat.le_of_add_right_le few, logs⟩
  | succ rounds ih =>
    rw [writeLoop, wp_ite]
    refine ⟨fun _ => ⟨data, Nat.le_of_add_right_le few, logs⟩, fun some => ?_⟩
    apply (bmap_logs small ((Nat.le_of_add_right_le few).trans within) logs .writei _).bind
    intro addr s' logs'
    simp only [wp_bind, wp_bread, wp_logWrite]
    set m := min src.length (BSIZE - off % BSIZE) with isM
    have written := logs'.write addr ((s'.disk addr).splice (off % BSIZE) (src.take m))
    rw [Finset.insert_idem] at written
    have rest : (src.drop m).length ≤ BSIZE * (count - 1) - (off + m) % BSIZE ∧ 0 < count := by
      rw [List.length_drop]
      unfold BSIZE at isM covered ⊢
      omega
    have one := Finset.card_insert_le addr data
    exact ih (by omega) written rest.1

theorem writeSize_logs {n off : Nat} (logs : Logs sb x base data s) :
    wp (writeSize x n off) (fun _ s' => ∃ b, Logs sb x base (insert b data) s') (fun _ => LogsFew sb x base bound) s := by
  simp only [writeSize, wp_bind, wp_get, wp_ite]
  refine ⟨fun _ => ?_, fun _ => ⟨0, logs.grow (Finset.subset_insert _ _)⟩⟩
  have resized : Logs sb x base data (s.put x { s.icache x with copy := { (s.icache x).copy with size := off } }) :=
    logs.put (Or.inr rfl)
  exact ⟨_, resized.write _ _⟩

/-- A chunk covers four blocks of the file at most. -/
theorem writei_logs (x : Slot) (off : Nat) (small : s.sb.size ≤ BPB) {src : List UInt8} (fits : src.length ≤ writeMax) :
    wp (writei x src off) (fun _ => LogsFew s.sb x s.trace 5) (fun _ => LogsFew s.sb x s.trace 5) s := by
  have start : Logs s.sb x s.trace ∅ s := ⟨rfl, [], rfl, by simp⟩
  have nothing : LogsFew s.sb x s.trace 5 s := ⟨∅, Nat.zero_le _, start⟩
  have covered : src.length ≤ BSIZE * 4 - off % BSIZE := by
    have most : writeMax = 1536 := rfl
    unfold BSIZE
    omega
  simp only [writei, wp_bind, wp_get, wp_ite]
  refine ⟨fun _ => ?_, fun _ => ⟨fun _ => nothing, fun _ => ⟨fun _ => nothing, fun _ => ?_⟩⟩⟩
  · split
    · exact nothing
    · exact ⟨∅, Nat.zero_le _, start.record (by simp)⟩
  · apply (writeLoop_logs small le_rfl (by decide) start covered).mono
    rintro _ s1 ⟨data, four, logs⟩
    apply (writeSize_logs logs).mono
    rintro _ s2 ⟨b, logs'⟩
    exact ⟨insert b data, (Finset.card_insert_le b data).trans (Nat.succ_le_succ four), logs'⟩

theorem Logs.loggedBlocks_card {s0 : FsState} (logs : Logs sb x s0.trace data s) : (loggedBlocks s0 s).card ≤ data.card + 3 := by
  obtain ⟨events, isTrace, known⟩ := logs.trace
  have isNew : s.trace.take (s.trace.length - s0.trace.length) = events := by
    rw [isTrace, List.length_append, Nat.add_sub_cancel, List.take_left]
  have inside : loggedBlocks s0 s ⊆ insert sb.bmapstart (insert 0 (insert ((s.icache x).copy.addrs last) data)) := by
    intro b member
    rw [loggedBlocks, isNew, List.mem_toFinset, List.mem_filterMap] at member
    obtain ⟨event, isEvent, isBlock⟩ := member
    cases event <;> cases isBlock
    simpa only [Finset.mem_insert] using known b isEvent
  have bound := Finset.card_le_card inside
  have first := Finset.card_insert_le sb.bmapstart (insert 0 (insert ((s.icache x).copy.addrs last) data))
  have second := Finset.card_insert_le 0 (insert ((s.icache x).copy.addrs last) data)
  have third := Finset.card_insert_le ((s.icache x).copy.addrs last) data
  omega

end

/-- A chunk of `filewrite` logs at most the blocks that `begin_op` reserves for a
transaction, when the free map is a single block. -/
theorem chunk_within_reservation (x : Slot) (off : Nat) {src : List UInt8} {s : FsState} (fits : src.length ≤ writeMax)
    (small : s.sb.size ≤ BPB) : (loggedBlocks s (writei x src off s).2).card ≤ MAXOPBLOCKS := by
  obtain ⟨data, five, logs⟩ := (writei_logs x off small fits).always
  have bound := logs.loggedBlocks_card
  unfold MAXOPBLOCKS
  omega

/-- The longest chunk, across the border of a block. -/
theorem chunk_within_reservation_longest : ∃ m, callSystem.run (boot (smallDisk 1) noDevices) twoBytes = some m ∧
    (loggedBlocks m.sys.fs (writei twoBytesSlot (List.replicate writeMax 9) 1 m.sys.fs).2).card ≤ MAXOPBLOCKS := by
  have ends : (callSystem.run (boot (smallDisk 1) noDevices) twoBytes).map
      (fun m => decide (m.sys.fs.sb.size ≤ BPB)) = some true := by decide +kernel
  obtain ⟨m, ran, small⟩ := Option.map_eq_some_iff.mp ends
  have fits : (List.replicate writeMax (9 : UInt8)).length ≤ writeMax := (List.length_replicate ..).le
  exact ⟨m, ran, chunk_within_reservation twoBytesSlot 1 fits (of_decide_eq_true small)⟩

end Xv6.Fs
