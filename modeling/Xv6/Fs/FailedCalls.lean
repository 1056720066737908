import Xv6.Fs.Orphans

/-!
Contract: what a system call that fails has changed.

Between two calls every inode without links is referred to, so that no reference a call
takes and puts back is the last one to such an inode. A call that changes nothing else
leaves the disk as it was.
-/

namespace Xv6.Fs

open Function Xv6.Lib

variable {fixed : Superblock} {s s' : SysState} {p : ProcId}

theorem SysInv.anchored {locks : Locks} (inv : SysInv fixed 0 locks s) (moored : ∀ i, Moored s.fs i) :
    Anchored (tokens s) s.fs := by
  intro i allocated unlinked
  obtain ⟨x, positive, isInum, -⟩ := moored i allocated unlinked
  rw [inv.fs.refs, zero_add] at positive
  have member : x ∈ (tokens s).map Prod.fst := Multiset.count_pos.mp (by exact_mod_cast positive)
  obtain ⟨⟨y, k⟩, isToken, rfl⟩ := Multiset.mem_map.mp member
  exact ⟨y, k, isToken, isInum⟩

/-- Code of the file system leaves the file table and the processes alone. -/
theorem of_onFs {Value : Type} {program : FsM Value} {post : Value → FsState → Prop} {value : Value}
    (spec : wp program post (Stops True True) s.fs) (ran : onFs program s = (.ok value, s')) :
    post value s'.fs ∧ s'.ftable = s.ftable ∧ s'.proc = s.proc := by
  have lifted : wp (onFs program) (fun value s' => post value s'.fs ∧ s'.ftable = s.ftable ∧ s'.proc = s.proc)
      (StopsSys True True) s := wp_onFs_of spec fun _ _ ran => ⟨ran, rfl, rfl⟩
  exact lifted.of_ran ran

def Call.OnNames : Call → Prop
  | .link .. | .unlink _ | .mkdir _ | .mknod _ => True
  | _ => False

/-- What a call that returns 0 has done. `sys_link` has counted and entered one link, to the
inode of the old name; `sys_unlink` has removed the entry of the last element of the path,
and the inode with it if nothing else keeps it. -/
def Call.Done (p : ProcId) (s s' : SysState) : Call → Prop
  | .link old _ => ∃ oldPath ip s₁ dir name, old = some oldPath ∧
      namei p (s.proc p).cwd oldPath (s.fs.log .beginOp) = (.ok (some ip), s₁) ∧
      Enters (s.fs.tree.addLinks (s₁.icache ip).inum 1) dir (s₁.icache ip).inum name s'.fs.tree
  | .unlink path => ∃ isPath dp name s₁ tree, path = some isPath ∧
      Fs.nameiparent p (s.proc p).cwd isPath (s.fs.log .beginOp) = (.ok (some (dp, name)), s₁) ∧
      UnlinksName s.fs.tree (s₁.icache dp).inum name tree ∧ Reaped tree s'.fs.tree
  | _ => True

/-- A new entry and one more link leave no further inode without links. -/
theorem Anchored.entered {held : Holds} {start middle : FsState} {i dir inum : Nat} {name : List UInt8}
    (anchored : Anchored held start) (counted : 0 ≤ (start.tree i).nlink.toInt)
    (enters : Enters (start.tree.addLinks i 1) dir inum name middle.tree) (stays : Stays held start middle) :
    Anchored held middle := by
  obtain ⟨-, -, j, -, isTree⟩ := enters
  intro n allocated unlinked
  have labels : (middle.tree n).type = (start.tree.addLinks i 1 n).type ∧
      (middle.tree n).nlink = (start.tree.addLinks i 1 n).nlink := by
    rw [isTree]
    by_cases same : n = dir
    · simp [Tree.setEntry, same]
    · simp [Tree.setEntry, same]
  rw [labels.1] at allocated
  rw [labels.2] at unlinked
  by_cases same : n = i
  · subst same
    rw [Tree.addLinks, update_self] at unlinked
    have isMinus : (start.tree n).nlink = -1 := by
      change (start.tree n).nlink + 1 = 0 at unlinked
      bv_omega
    rw [isMinus] at counted
    exact absurd counted (by decide)
  · rw [Tree.addLinks, update_of_ne same] at allocated unlinked
    obtain ⟨x, k, member, isInum⟩ := anchored n allocated unlinked
    exact ⟨x, k, member, (stays.inums x k member).trans isInum⟩

section

variable {result : Int} (inv : SysInv fixed 0 (fun _ => none) s) (anchored : Anchored (tokens s) s.fs)
  (alive : (s.proc p).alive = true)

include inv anchored alive

theorem link_outcome (consistent : TreeConsistent fixed.ninodes s.fs.tree) {old new : Option (List UInt8)}
    (ran : sysLinkCall p old new s = (.ok result, s')) :
    result = -1 ∧ image s'.fs.sb s'.fs.disk = image s.fs.sb s.fs.disk ∨
      result = 0 ∧ (Call.link old new).Done p s s' := by
  have held := inv.fs
  rw [zero_add] at held
  obtain ⟨_, _, ⟨⟩, ran⟩ := Prog.of_bind_ran ran
  have spec := of_onFs (sysLink_spec held p nofun (mem_tokens_cwd alive) old new fun _ _ _ _ _ _ _ _ _ => trivial) ran
  rcases spec.1.2.1 with ⟨failed, spares⟩ | ⟨oldPath, ip, s1, isOld, found, steady1, used, linked⟩
  · exact Or.inl ⟨failed, spares anchored⟩
  have frozen1 := steady1.still anchored
  rcases linked (anchored.frozen frozen1) with ⟨failed, same⟩ | ⟨isZero, dir, name, middle, enters, stays, steady⟩
  · rw [frozen1.sb, frozen1.disk] at same
    exact Or.inl ⟨failed, same⟩
  · have counted : 0 ≤ (s1.tree (s1.icache ip).inum).nlink.toInt := by
      rw [frozen1.tree] at used ⊢
      have inside := FsState.inside_of_type used
      rw [inv.fs.isSb] at inside
      rw [consistent.counts _ inside used]
      exact Int.natCast_nonneg _
    have frozen := steady.still ((anchored.frozen frozen1).entered counted enters stays)
    rw [← frozen.tree, frozen1.tree] at enters
    exact Or.inr ⟨isZero, oldPath, ip, s1, dir, name, isOld, found, enters⟩

theorem unlink_outcome {path : Option (List UInt8)} (ran : sysUnlinkCall p path s = (.ok result, s')) :
    result = -1 ∧ image s'.fs.sb s'.fs.disk = image s.fs.sb s.fs.disk ∨
      result = 0 ∧ (Call.unlink path).Done p s s' := by
  have held := inv.fs
  rw [zero_add] at held
  obtain ⟨_, _, ⟨⟩, ran⟩ := Prog.of_bind_ran ran
  have spec := of_onFs (sysUnlink_spec held p nofun (mem_tokens_cwd alive) path
    (fun _ _ _ _ _ _ _ _ _ _ _ => trivial) fun _ _ _ _ _ _ _ _ _ => trivial) ran
  rcases spec.1.2 with ⟨failed, steady⟩ | ⟨isZero, tree, removes, ends⟩
  · exact Or.inl ⟨failed, steady.spares anchored⟩
  · obtain ⟨isPath, dp, name, s1, same, found, steady1, removed⟩ := removes
    rw [(steady1.still anchored).tree] at removed
    exact Or.inr ⟨isZero, isPath, dp, name, s1, tree, same, found, removed, ends.reaped⟩

theorem makeNode_failed {path : List UInt8} {type major minor : BitVec 16}
    (failed : makeNode p path type major minor { s with fs := s.fs.log .beginOp } = (.ok (-1), s')) :
    image s'.fs.sb s'.fs.disk = image s.fs.sb s.fs.disk := by
  have held := inv.begin.fs
  rw [zero_add] at held
  have begun : Anchored (tokens s) (s.fs.log .beginOp) := anchored
  obtain ⟨_, _, ⟨⟩, failed⟩ := Prog.of_bind_ran failed
  obtain ⟨made, s1, ran1, rest1⟩ := Prog.of_bind_ran failed
  obtain ⟨⟨-, steady, -⟩, -⟩ :=
    of_onFs (create_spec held p nofun (mem_tokens_cwd alive) path type major minor) ran1
  cases made with
  | none =>
    obtain ⟨_, _, ⟨⟩, ⟨⟩⟩ := Prog.of_bind_ran rest1
    exact (steady (Or.inl rfl)).spares begun
  | some ip =>
    obtain ⟨_, _, -, rest2⟩ := Prog.of_bind_ran rest1
    obtain ⟨_, _, -, ends⟩ := Prog.of_bind_ran rest2
    exact absurd (Except.ok.inj (Prod.mk.inj ends).1) (by decide)

end

/-- A file of the file table and a descriptor of the process are free. -/
def TablesFree (p : ProcId) (s : SysState) : Prop :=
  (∃ f, (s.ftable f).ref = 0) ∧ ∃ fd, (s.proc p).ofile fd = none

theorem openFile_failed (closed : ∀ f, (s.ftable f).ref ≤ 0 → (s.ftable f).inode = false)
    (failed : openFile p s = (.ok none, s')) : s' = s ∧ ¬ TablesFree p s := by
  have spec : wp (openFile p) (fun opened s' => opened = none → s' = s ∧ ¬ TablesFree p s) (fun _ _ => True) s := by
    rw [openFile, wp_bind, filealloc, wp_bind, wp_get]
    split
    · rename_i f found
      have free : (s.ftable f).ref = 0 := by simpa using List.find?_some found
      have plain := closed f free.le
      rw [wp_bind, wp_setFile, wp_pure]
      dsimp only
      rw [wp_bind, fdalloc, wp_bind, wp_get]
      split
      · simp [setFd, wp_setProc]
      · rename_i full
        have restored : update s.ftable f { s.ftable f with ref := 0, inode := false } = s.ftable := by
          rw [← free, ← plain]
          exact update_eq_self f s.ftable
        have isFull : ¬ TablesFree p s := by
          rintro ⟨-, fd, isFree⟩
          simpa [isFree] using List.find?_eq_none.mp full fd (List.mem_finRange fd)
        simp [fileclose, fileput, wp_ite, wp_setFile, plain, restored, isFull]
    · rename_i full
      refine fun _ => ⟨rfl, ?_⟩
      rintro ⟨⟨f, isFree⟩, -⟩
      simpa [isFree] using List.find?_eq_none.mp full f (List.mem_finRange f)
  exact spec.of_ran failed rfl

end Xv6.Fs
