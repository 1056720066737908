import Xv6.Fs.LinkCounts

/-!
Contract: the calls that wait for an inode lock which their own process holds.

With no other process active, `acquiresleep` sleeps for ever exactly when the caller
holds the lock. `dirlink` puts an inode that it finds under the new name, and `iput`
takes the lock of that inode even to drop a reference. So `sys_link` waits for the
locked parent directory when the new path ends in a name which that directory has
for itself: `.`, or the root's `..`.
-/

namespace Xv6.Fs

open Xv6.Lib

/-- No directory has an entry for itself, other than `.` and `..`. -/
def DirectoriesApart (tree : Tree) : Prop := ∀ d, ∀ de ∈ (tree d).entries, de.IsChild → de.inum ≠ d

/-- The new path of a `link` ends in a name that its directory has for itself. -/
def Call.LinksItself (p : ProcId) (s : SysState) (call : Call) : Prop :=
  match call with
  | .link (some old) (some new) => ∃ dp name s₁,
      linkParent p (s.proc p).cwd old new s.fs = (.ok (some (dp, name)), s₁) ∧ NamesItself s₁ dp name
  | _ => False

theorem Dirent.isChild_of_is {de : Dirent} {name : List UInt8} (isName : de.Is name)
    (notDots : ¬ (namecmp name dot ∨ namecmp name dotdot)) : de.IsChild := by
  have same := namecmp_iff.mp isName.2
  rw [not_or, namecmp_iff, namecmp_iff, same] at notDots
  refine ⟨⟨isName.1, fun isDot => ?_⟩, fun isDotdot => ?_⟩
  · exact notDots.1 (namecmp_iff.mp isDot).symm
  · exact notDots.2 (namecmp_iff.mp isDotdot).symm

theorem DirectoriesApart.reaped {tree tree' : Tree} (apart : DirectoriesApart tree)
    (reaped : Reaped tree tree') (directory : ∀ d, ∀ de ∈ (tree' d).entries, (tree' d).type ≠ 0) :
    DirectoriesApart tree' := by
  intro d de member
  rw [reaped.eq_of_allocated (directory d de member)] at member
  exact apart d de member

theorem Call.itself {p : ProcId} {s : SysState} {call : Call} (apart : DirectoriesApart s.fs.tree)
    (other : ¬ call.LinksItself p s) : call.Itself p s False := by
  unfold Itself
  split
  · intro dp name s1 ran names
    exact other ⟨dp, name, s1, ran, names⟩
  · rintro dp name s1 - reaped notDots ⟨de, member, isName, itself⟩
    have allocated : ∀ d, ∀ de ∈ (s1.tree d).entries, (s1.tree d).type ≠ 0 := by
      intro d de member
      rw [FsState.directory_of_mem member]
      decide
    exact (apart.reaped reaped allocated) _ de member (Dirent.isChild_of_is isName notDots) itself
  · trivial

/-- In a tree whose only directory is the root, none names itself. -/
private theorem apart_of_root {s : FsState} (consistent : TreeConsistent s.sb.ninodes s.tree)
    (single : ∀ i < s.sb.ninodes, (s.tree i).type = T_DIR → i = ROOTINO) : DirectoriesApart s.tree := by
  intro d de member isChild itself
  have directory := FsState.directory_of_mem member
  have allocated : (s.tree d).type ≠ 0 := by
    rw [directory]
    decide
  have isRoot := single d (FsState.inside_of_type allocated) directory
  rw [isRoot] at member itself
  have none := consistent.rootNamed
  rw [Tree.childrenAt, Finset.sum_eq_zero_iff] at none
  have unnamed := none ROOTINO consistent.rootLive
  rw [List.countP_eq_zero] at unnamed
  exact unnamed de member (decide_eq_true ⟨isChild, itself⟩)

private theorem dotsDisk_apart : DirectoriesApart (boot (dotsDisk 0) noDevices).sys.fs.tree := by
  refine apart_of_root ?_ fun i _ directory => smallLayout.eq_root (directory.trans_ne (by decide))
  exact dotsDisk_treeConsistent

end Xv6.Fs
