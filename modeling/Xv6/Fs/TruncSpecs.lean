import Xv6.Fs.ContentSpecs

/-!
Contract: truncating an inode gives all its blocks back, and dropping the last
reference to an inode without links frees it.
-/

namespace Xv6.Fs

open Function Xv6.Lib

/-! ### Blocks given back -/

/-- The blocks of inode `i` at the positions `gone` have been given back since `start`;
the rest of the disk is as it was then. -/
structure Freed (start : FsState) (i : Nat) (gone : Pos → Prop) (s : FsState) : Prop where
  isSb : s.sb = start.sb
  super : readsb s.disk = start.sb
  inodes : (image start.sb s.disk).inode = (image start.sb start.disk).inode
  blocks : (image start.sb s.disk).block = (image start.sb start.disk).block
  exact : ∃ own : Nat × Pos → Nat,
    Exact (· < start.sb.dataStart) start.sb.size own (image start.sb s.disk).bit ∧
    (∀ key : Nat × Pos, key.1 ≠ i → own key = (image start.sb start.disk).own key) ∧
    (∀ pos, gone pos → own (i, pos) = 0) ∧
    ∀ pos, ¬ gone pos → own (i, pos) = (image start.sb start.disk).own (i, pos)
  quiet : Quiet start → Quiet s

section

variable {halts : Halt → FsState → Prop} {start : FsState} {i : Nat} {gone gone' : Pos → Prop}
  {s : FsState}

theorem Freed.widen (freed : Freed start i gone s) (more : ∀ pos, gone pos → gone' pos)
    (empty : ∀ pos, gone' pos → ¬ gone pos → (image start.sb start.disk).own (i, pos) = 0) :
    Freed start i gone' s := by
  obtain ⟨own, exact, others, isGone, kept⟩ := freed.exact
  refine { freed with exact := ⟨own, exact, others, ?_, ?_⟩ }
  · intro pos isGone'
    by_cases already : gone pos
    · exact isGone pos already
    · rw [kept pos already, empty pos isGone' already]
  · intro pos notGone'
    exact kept pos fun already => notGone' (more pos already)

theorem bfree_spec (layout : start.sb.Valid) (freed : Freed start i gone s) {pos : Pos}
    (notGone : ¬ gone pos) (owns : (image start.sb start.disk).own (i, pos) ≠ 0) :
    wp (bfree ((image start.sb start.disk).own (i, pos))) (fun _ s' =>
      Freed start i (fun other => other = pos ∨ gone other) s' ∧ s'.icache = s.icache) halts s := by
  obtain ⟨own, exact, others, isGone, kept⟩ := freed.exact
  have isOwn := kept pos notGone
  have owned : own (i, pos) ≠ 0 := isOwn.trans_ne owns
  have range := exact.inRange (i, pos) owned
  have used := exact.used_own owned
  rw [isOwn] at range used
  rw [image_bit _ range.2] at used
  simp only [bfree, wp_bind, wp_modify, wp_get, freed.super, used, ↓reduceIte, wp_record,
    wp_logWrite]
  have block := layout.BBLOCK_range range.2
  have first := layout.one_lt_bmapstart
  have marked := image_markFree layout s.disk range.2
  refine ⟨⟨rfl, ?_, ?_, ?_, ?_, ?_⟩, rfl⟩
  · exact (readsb_update (by omega)).trans freed.super
  · exact (congrArg Image.inode marked).trans freed.inodes
  · exact (congrArg Image.block marked).trans freed.blocks
  · refine ⟨update own (i, pos) 0, ?_, ?_, ?_, ?_⟩
    · have bits := congrArg Image.bit marked
      rw [Image.setBit_bit, ← isOwn] at bits
      have freeing := exact.free owned
      rw [← bits, isOwn] at freeing
      exact freeing
    · intro key different
      rw [update_of_ne fun same => different (congrArg Prod.fst same), others key different]
    · intro other isGone'
      by_cases same : other = pos
      · rw [same, update_self]
      · rw [update_of_ne fun key => same (congrArg Prod.snd key)]
        exact isGone other (isGone'.resolve_left same)
    · intro other notGone'
      rw [not_or] at notGone'
      rw [update_of_ne fun key => notGone'.1 (congrArg Prod.snd key)]
      exact kept other notGone'.2
  · intro quiet
    have reread : Quiet { s with sb := start.sb } := freed.quiet quiet
    exact (reread.log fun _ => by simp).write _ _

end

theorem Freed.put {start : FsState} {i : Nat} {gone : Pos → Prop} {s : FsState}
    (freed : Freed start i gone s) (x : Slot) (ip : Inode) : Freed start i gone (s.put x ip) :=
  ⟨freed.isSb, freed.super, freed.inodes, freed.blocks, freed.exact, freed.quiet⟩

/-! ### Truncation -/

/-- The inode without the addresses in the slots `gone`. -/
def Dinode.dropAddrs (d : Dinode) (gone : List (Fin (NDIRECT + 1))) : Dinode :=
  { d with addrs := fun k => if k ∈ gone then 0 else d.addrs k }

def Dinode.emptied (d : Dinode) : Dinode := { d with size := 0, addrs := fun _ => 0 }

theorem Dinode.dropAddrs_of_mem (d : Dinode) {gone : List (Fin (NDIRECT + 1))}
    {k : Fin (NDIRECT + 1)} (member : k ∈ gone) : (d.dropAddrs gone).addrs k = 0 :=
  if_pos member

theorem Dinode.dropAddrs_of_notMem (d : Dinode) {gone : List (Fin (NDIRECT + 1))}
    {k : Fin (NDIRECT + 1)} (other : k ∉ gone) : (d.dropAddrs gone).addrs k = d.addrs k :=
  if_neg other

theorem Dinode.setAddr_dropAddrs (d : Dinode) (gone : List (Fin (NDIRECT + 1)))
    (k : Fin (NDIRECT + 1)) : (d.dropAddrs gone).setAddr k 0 = d.dropAddrs (gone ++ [k]) := by
  have addrs : update (d.dropAddrs gone).addrs k 0 = (d.dropAddrs (gone ++ [k])).addrs := by
    funext other
    by_cases same : other = k
    · rw [same, update_self]
      simp [dropAddrs]
    · rw [update_of_ne same]
      simp [dropAddrs, same]
  simp only [setAddr, addrs]
  rfl

theorem Dinode.dropAddrs_of_empty {d : Dinode} {gone : List (Fin (NDIRECT + 1))}
    {k : Fin (NDIRECT + 1)} (empty : (d.dropAddrs gone).addrs k = 0) :
    d.dropAddrs (gone ++ [k]) = d.dropAddrs gone := by
  rw [← setAddr_dropAddrs, setAddr, ← empty, update_eq_self]

section

variable {halts : Halt → FsState → Prop} {fixed : Superblock} {broken stuck : Prop} {held : Holds}
  {locks : Locks} {s : FsState} {x : Slot} {k : Bool} {d : Dinode}

theorem Current.owned_disk (current : Current x s) : Owned s.sb (image s.sb s.disk) :=
  current.view_eq ▸ current.owned

theorem Current.own (current : Current x s) (pos : Pos) :
    (image s.sb s.disk).own ((s.icache x).inum, pos) =
      ref (image s.sb s.disk).block (s.icache x).copy pos :=
  current.view_eq ▸ current.own_self pos

theorem Current.freed (current : Current x s) (super : readsb s.disk = s.sb) (i : Nat) :
    Freed s i (fun _ => False) s :=
  ⟨rfl, super, rfl, rfl,
    ⟨(image s.sb s.disk).own, current.owned_disk, fun _ _ => rfl, fun _ => False.elim,
      fun _ _ => rfl⟩, id⟩

def directSlots : List (Fin (NDIRECT + 1)) := (List.finRange NDIRECT).map Fin.castSucc

/-- The positions in the direct slots. -/
def isDirect (pos : Pos) : Prop := ∃ k ∈ List.finRange NDIRECT, pos = .slot k.castSucc

theorem itruncSlots_spec (current : Current x s) (super : readsb s.disk = s.sb) :
    wp (Prog.forEach (itruncSlot x) (List.finRange NDIRECT)) (fun _ s' =>
      Freed s (s.icache x).inum isDirect s' ∧
      s'.icache = update s.icache x
        { s.icache x with copy := (s.icache x).copy.dropAddrs directSlots }) halts s := by
  apply wp_forEach fun done s' =>
    Freed s (s.icache x).inum (fun pos => ∃ k ∈ done, pos = .slot k.castSucc) s' ∧
    s'.icache = update s.icache x
      { s.icache x with copy := (s.icache x).copy.dropAddrs (done.map Fin.castSucc) }
  · rintro done k rest s1 order ⟨freed, icache⟩
    have isNew : k ∉ done := by
      have nodup := List.nodup_finRange NDIRECT
      rw [order, List.nodup_append] at nodup
      exact fun member => nodup.2.2 k member k (List.mem_cons_self) rfl
    have notDropped : k.castSucc ∉ done.map Fin.castSucc := by
      intro member
      obtain ⟨other, inDone, same⟩ := List.mem_map.mp member
      exact isNew (Fin.castSucc_injective _ same ▸ inDone)
    have addr : (s1.icache x).copy.addrs k.castSucc =
        (image s.sb s.disk).own ((s.icache x).inum, .slot k.castSucc) := by
      rw [icache, update_self, current.own]
      exact Dinode.dropAddrs_of_notMem _ notDropped
    have notGone : ¬ ∃ k' ∈ done, Pos.slot k.castSucc = .slot k'.castSucc := by
      rintro ⟨k', inDone, same⟩
      exact isNew (Fin.castSucc_injective _ (Pos.slot.inj same) ▸ inDone)
    have gone : ∀ pos : Pos, (pos = .slot k.castSucc ∨ ∃ k' ∈ done, pos = .slot k'.castSucc) ↔
        ∃ k' ∈ done ++ [k], pos = .slot k'.castSucc := by
      intro pos
      simp only [List.mem_append, List.mem_singleton, or_and_right, exists_or, exists_eq_left]
      exact or_comm
    simp only [itruncSlot, wp_bind, wp_get, List.map_append, List.map_singleton]
    split
    · rename_i some
      rw [addr] at some ⊢
      apply (bfree_spec current.layout freed notGone some).bind
      rintro _ s2 ⟨freed2, sameCache⟩
      rw [wp_setAddr]
      refine ⟨(freed2.put _ _).widen (fun pos => (gone pos).mp) fun pos isGone notGone' =>
        absurd ((gone pos).mpr isGone) notGone', ?_⟩
      rw [FsState.put_icache, sameCache, icache, update_self, update_idem,
        Dinode.setAddr_dropAddrs]
    · rename_i none
      rw [not_not, addr] at none
      rw [wp_pure]
      refine ⟨freed.widen (fun pos isGone => (gone pos).mp (Or.inr isGone)) ?_, ?_⟩
      · intro pos isGone notGone'
        rcases (gone pos).mpr isGone with same | already
        · rw [same, none]
        · exact absurd already notGone'
      · rw [icache, Dinode.dropAddrs_of_empty]
        rw [icache, update_self] at addr
        exact addr.trans none
  · refine ⟨(current.freed super _).widen (fun _ => False.elim) ?_, ?_⟩
    · rintro pos ⟨k, member, _⟩
      cases member
    · exact (update_eq_self x s.icache).symm

/-- The loop over the entries of the indirect block, whose words are those of `a`. -/
theorem itruncEntries_spec {start : FsState} {i : Nat} {a : Block}
    (layout : start.sb.Valid) (freed : Freed start i isDirect s)
    (words : ∀ j : Fin NINDIRECT,
      a.getLe (4 * j.val) 4 = (image start.sb start.disk).own (i, .entry j)) :
    wp (Prog.forEach (itruncEntry a) (List.range NINDIRECT)) (fun _ s' =>
      Freed start i (fun pos => isDirect pos ∨ ∃ j : Fin NINDIRECT, pos = .entry j) s' ∧
        s'.icache = s.icache) halts s := by
  have looped : wp (Prog.forEach (itruncEntry a) (List.range NINDIRECT)) (fun _ s' =>
      Freed start i (fun pos => isDirect pos ∨
        ∃ j : Fin NINDIRECT, j.val ∈ List.range NINDIRECT ∧ pos = .entry j) s' ∧
      s'.icache = s.icache) halts s := by
    apply wp_forEach fun done s' =>
      Freed start i (fun pos => isDirect pos ∨
        ∃ j : Fin NINDIRECT, j.val ∈ done ∧ pos = .entry j) s' ∧ s'.icache = s.icache
    · intro done index rest s1 order ⟨freed1, icache⟩
      have inside : index < NINDIRECT := by
        apply List.mem_range.mp
        rw [order]
        exact List.mem_append_right _ List.mem_cons_self
      have isNew : index ∉ done := by
        have nodup := List.nodup_range (n := NINDIRECT)
        rw [order, List.nodup_append] at nodup
        exact fun member => nodup.2.2 index member index List.mem_cons_self rfl
      have notGone : ¬ (isDirect (.entry ⟨index, inside⟩) ∨
          ∃ j : Fin NINDIRECT, j.val ∈ done ∧ Pos.entry ⟨index, inside⟩ = .entry j) := by
        rintro (⟨k, -, same⟩ | ⟨j, inDone, same⟩)
        · cases same
        · cases same
          exact isNew inDone
      have gone : ∀ pos : Pos, (pos = .entry ⟨index, inside⟩ ∨ isDirect pos ∨
          ∃ j : Fin NINDIRECT, j.val ∈ done ∧ pos = .entry j) ↔ (isDirect pos ∨
          ∃ j : Fin NINDIRECT, j.val ∈ done ++ [index] ∧ pos = .entry j) := by
        intro pos
        have here : (∃ j : Fin NINDIRECT, j.val = index ∧ pos = .entry j) ↔
            pos = .entry ⟨index, inside⟩ := by
          constructor
          · rintro ⟨j, rfl, same⟩
            exact same
          · intro same
            exact ⟨⟨index, inside⟩, rfl, same⟩
        simp only [List.mem_append, List.mem_singleton, or_and_right, exists_or, here]
        exact or_comm.trans or_assoc
      simp only [itruncEntry]
      have word := words ⟨index, inside⟩
      simp only at word
      split
      · rename_i some
        rw [word] at some ⊢
        apply (bfree_spec layout freed1 notGone some).mono
        intro _ s2 ⟨freed2, sameCache⟩
        exact ⟨freed2.widen (fun pos => (gone pos).mp) fun pos isGone notGone' =>
          absurd ((gone pos).mpr isGone) notGone', sameCache.trans icache⟩
      · rename_i none
        rw [not_not, word] at none
        rw [wp_pure]
        refine ⟨freed1.widen (fun pos isGone => (gone pos).mp (Or.inr isGone)) ?_, icache⟩
        intro pos isGone notGone'
        rcases (gone pos).mpr isGone with same | already
        · rw [same, none]
        · exact absurd already notGone'
    · refine ⟨freed.widen (fun pos => Or.inl) ?_, rfl⟩
      intro pos isGone notDirect
      rcases isGone with direct | ⟨j, member, -⟩
      · exact absurd direct notDirect
      · cases member
  apply looped.mono
  intro _ s' ⟨freed', icache⟩
  refine ⟨freed'.widen ?_ ?_, icache⟩
  · exact fun pos => Or.imp_right fun ⟨j, _, same⟩ => ⟨j, same⟩
  · intro pos isGone notGone
    exact absurd (isGone.imp_right fun ⟨j, same⟩ => ⟨j, List.mem_range.mpr j.isLt, same⟩) notGone

theorem itruncIndirect_spec {s1 : FsState} (current : Current x s)
    (freed : Freed s (s.icache x).inum isDirect s1)
    (icache : s1.icache = update s.icache x
      { s.icache x with copy := (s.icache x).copy.dropAddrs directSlots }) :
    wp (itruncIndirect x) (fun _ s' =>
      Freed s (s.icache x).inum (fun _ => True) s' ∧
      s'.icache = update s.icache x
        { s.icache x with copy := (s.icache x).copy.dropAddrs (directSlots ++ [last]) })
      halts s1 := by
  have own := current.own
  have notDropped : last ∉ directSlots := by
    intro member
    obtain ⟨k, -, same⟩ := List.mem_map.mp member
    exact Fin.castSucc_ne_last k same
  have addr : (s1.icache x).copy.addrs last = (s.icache x).copy.addrs last := by
    rw [icache, update_self]
    exact Dinode.dropAddrs_of_notMem _ notDropped
  have isSlot : ∀ k : Fin (NDIRECT + 1), k = last ∨ isDirect (.slot k) := by
    intro k
    rcases Fin.eq_castSucc_or_eq_last k with ⟨j, same⟩ | same
    · exact Or.inr ⟨j, List.mem_finRange j, same ▸ rfl⟩
    · exact Or.inl same
  simp only [itruncIndirect, wp_bind, wp_get, addr]
  split
  · rename_i indirect
    have words : ∀ j : Fin NINDIRECT, (s1.disk ((s.icache x).copy.addrs last)).getLe (4 * j.val) 4 =
        (image s.sb s.disk).own ((s.icache x).inum, .entry j) := by
      intro j
      rw [own, ref_entry indirect, ← freed.blocks, image_block _ (current.last_range indirect)]
    rw [wp_bind, wp_bread]
    apply (itruncEntries_spec current.layout freed words).bind
    rintro _ s2 ⟨freed2, sameCache2⟩
    have isLast : (s.icache x).copy.addrs last =
        (image s.sb s.disk).own ((s.icache x).inum, .slot last) :=
      (own (.slot last)).symm
    have notGone : ¬ (isDirect (.slot last) ∨ ∃ j : Fin NINDIRECT, Pos.slot last = .entry j) := by
      rintro (⟨k, -, same⟩ | ⟨j, same⟩)
      · exact Fin.castSucc_ne_last k (Pos.slot.inj same).symm
      · cases same
    rw [wp_bind, isLast]
    apply (bfree_spec current.layout freed2 notGone (isLast ▸ indirect)).mono
    rintro _ s3 ⟨freed3, sameCache3⟩
    rw [wp_setAddr]
    refine ⟨(freed3.put _ _).widen (fun _ _ => trivial) ?_, ?_⟩
    · intro pos _ notGone'
      rw [not_or, not_or] at notGone'
      cases pos with
      | slot k =>
        rcases isSlot k with same | direct
        · exact absurd (same ▸ rfl) notGone'.1
        · exact absurd direct notGone'.2.1
      | entry j => exact absurd ⟨j, rfl⟩ notGone'.2.2
    · rw [FsState.put_icache, sameCache3, sameCache2, icache, update_self,
        update_idem, Dinode.setAddr_dropAddrs]
  · rename_i none
    rw [not_not] at none
    rw [wp_pure]
    refine ⟨freed.widen (fun _ _ => trivial) ?_, ?_⟩
    · intro pos _ notDirect
      rw [own]
      cases pos with
      | slot k =>
        rcases isSlot k with same | direct
        · rw [same]
          exact none
        · exact absurd direct notDirect
      | entry j => exact ref_entry_of_none none j
    · rw [icache, Dinode.dropAddrs_of_empty]
      exact (Dinode.dropAddrs_of_notMem _ notDropped).trans none

theorem Dinode.dropAddrs_all (d : Dinode) :
    (d.dropAddrs (directSlots ++ [last])).setSize 0 = d.emptied := by
  have addrs : (d.dropAddrs (directSlots ++ [last])).addrs = fun _ => 0 := by
    funext k
    apply d.dropAddrs_of_mem
    rcases Fin.eq_castSucc_or_eq_last k with ⟨j, same⟩ | same
    · rw [same]
      exact List.mem_append_left _ (List.mem_map_of_mem (List.mem_finRange j))
    · exact List.mem_append_right _ (List.mem_singleton.mpr same)
  simp only [Dinode.setSize, addrs]
  rfl

/-- What `itrunc` has done when it writes the empty inode to the disk. -/
theorem wp_itrunc {post : Unit → FsState → Prop} (current : Current x s)
    (super : readsb s.disk = s.sb)
    (ends : ∀ s', Freed s (s.icache x).inum (fun _ => True) s' →
      s'.icache = update s.icache x
        { s.icache x with copy := (s.icache x).copy.emptied } →
      post () (s'.writeInode (s.icache x).inum (s.icache x).copy.emptied)) :
    wp (itrunc x) post halts s := by
  rw [itrunc]
  apply (itruncSlots_spec current super).bind
  intro _ s1 ⟨freed1, icache1⟩
  apply (itruncIndirect_spec current freed1 icache1).bind
  intro _ s2 ⟨freed, icache⟩
  have isNew : (s2.put x { s2.icache x with copy := (s2.icache x).copy.setSize 0 }).icache =
      update s.icache x { s.icache x with copy := (s.icache x).copy.emptied } := by
    rw [FsState.put_icache, icache, update_self, update_idem,
      Dinode.dropAddrs_all]
  have sized := freed.put x { s2.icache x with copy := (s2.icache x).copy.setSize 0 }
  rw [wp_bind, wp_setCopy]
  change wp (iupdate x) post halts
    (s2.put x { s2.icache x with copy := (s2.icache x).copy.setSize 0 })
  generalize s2.put x { s2.icache x with copy := (s2.icache x).copy.setSize 0 } = s3 at *
  rw [wp_iupdate, isNew, update_self]
  exact ends s3 sized isNew

/-- The free map after all the blocks of inode `i` have been given back. -/
theorem Freed.exact_all {start : FsState} {i : Nat} (freed : Freed start i (fun _ => True) s) :
    Exact (· < start.sb.dataStart) start.sb.size
      (fun key => if key.1 = i then 0 else (image start.sb start.disk).own key)
      (image start.sb s.disk).bit := by
  obtain ⟨own, exact, others, isGone, -⟩ := freed.exact
  have isOwn : own = fun key => if key.1 = i then 0 else (image start.sb start.disk).own key := by
    funext ⟨j, pos⟩
    by_cases same : j = i
    · rw [if_pos same, same]
      exact isGone pos trivial
    · rw [if_neg same]
      exact others (j, pos) same
  exact isOwn ▸ exact

theorem itrunc_spec (inv : Inv fixed none held locks s) (locked : locks x = some d) :
    wp (itrunc x) (fun _ s' =>
      Inv fixed none held (update locks x (some d.emptied)) s' ∧ Stays held s s' ∧
      s'.tree = update s.tree (s.icache x).inum ⟨d.type, d.nlink, []⟩)
      (Stops broken stuck) s := by
  obtain ⟨-, -, -, isCopy⟩ := inv.locked x d locked
  apply wp_itrunc (inv.current locked) inv.super
  intro s' freed icache
  rw [isCopy] at icache ⊢
  have isImage : image s.sb s'.disk = { image s.sb s.disk with bit := (image s.sb s'.disk).bit } :=
    Image.ext freed.inodes rfl freed.blocks
  have good : Good s.sb ((image s.sb s'.disk).setInode (s.icache x).inum d.emptied) := by
    rw [isImage]
    exact inv.good.emptied rfl (fun _ => rfl) freed.exact_all
  have changed : Inv fixed (some x) held (update locks x (some d.emptied)) s' :=
    (inv.toDirty locked).change locked freed.isSb icache (freed.super.trans inv.super.symm)
      freed.inodes good rfl (freed.quiet inv.quiet)
  have written := changed.writeBack (update_self _ _ _)
  have onDisk := changed.image_writeBack (update_self _ _ _)
  rw [view_some, freed.isSb] at onDisk
  rw [icache, update_self] at written onDisk
  refine ⟨written, ?_, ?_⟩
  · apply written.stays_changed held (update_self _ _ _) icache rfl
    intro i different
    have isSb : (s'.writeInode (s.icache x).inum d.emptied).sb = s.sb := freed.isSb
    rw [isSb, onDisk, Image.setInode_inode, update_of_ne different, freed.inodes]
  · have isSb : (s'.writeInode (s.icache x).inum d.emptied).sb = s.sb := freed.isSb
    rw [FsState.tree, isSb, onDisk, Image.tree_setInode, Image.tree_congr freed.inodes freed.blocks,
      nodeOf_empty _ rfl, FsState.tree]
    rfl

/-! ### Dropping references -/

section

variable (inv : Inv fixed none ((x, k) ::ₘ held) locks s)

include inv

theorem Inv.dropRef {ip : Inode}
    (ref : ip.ref = (s.icache x).ref - 1) (inum : ip.inum = (s.icache x).inum)
    (lock : ip.lock = none)
    (cached : 0 < ip.ref → ip.valid = true →
      ip.copy = (image s.sb s.disk).inode ip.inum ∧ ip.copy.type ≠ 0) :
    Inv fixed none held (update locks x none) (s.put x ip) := by
  have positive := inv.ref_pos (Multiset.mem_cons_self (x, k) held)
  apply inv.recache (x := x)
  · rfl
  · rfl
  · rfl
  · exact inv.quiet
  · rw [ref, inv.refs, Multiset.map_cons, Multiset.count_cons_self]
    push_cast
    omega
  · intro y different
    rw [Multiset.map_cons, Multiset.count_cons_of_ne different]
  · exact fun y _ member => Multiset.mem_cons_of_mem member
  · exact fun y different => update_of_ne different _ _
  · intro _
    rw [inum]
    exact ⟨inv.inside x positive, fun y different => inv.inum_ne positive different⟩
  · exact cached
  · intro member
    rw [inum]
    exact inv.pinned x (Multiset.mem_cons_of_mem member)
  · intro d isLock
    rw [update_self] at isLock
    cases isLock
  · exact fun _ => lock

/-- The last reference to a locked and empty inode is dropped, and the inode freed. -/
theorem Inv.freeInode (locked : locks x = some d)
    (size : d.size = 0) (addrs : ∀ k, d.addrs k = 0) (single : (s.icache x).ref = 1) {ip : Inode}
    (ref : ip.ref = 0) (inum : ip.inum = (s.icache x).inum) (lock : ip.lock = none) :
    Inv fixed none held (update locks x none)
      ((s.put x ip).writeInode (s.icache x).inum { d with type := 0 }) := by
  obtain ⟨isInode, allocated⟩ := inv.locked_inode locked
  rw [view_none] at isInode
  have positive := inv.ref_pos (Multiset.mem_cons_self (x, k) held)
  have dropped : Inv fixed none held (update locks x none) (s.put x ip) := by
    apply inv.dropRef
    · rw [ref, single]
      rfl
    · exact inum
    · exact lock
    · intro positive'
      omega
  apply dropped.rewrite (inv.inside x positive)
  · constructor
    · simp only [size]
      decide
    · simp only [addrs]
      decide
  · have nothing : ∀ pos, (image s.sb s.disk).own ((s.icache x).inum, pos) = 0 := by
      intro pos
      rw [Image.own_of_allocated (isInode.symm ▸ allocated), isInode]
      cases pos with
      | slot k => exact addrs k
      | entry j => exact ref_entry_of_none (addrs last) j
    exact dropped.good.reset nothing size addrs
  · intro y positive' same
    by_cases isX : y = x
    · rw [isX, FsState.put_icache, update_self] at positive'
      omega
    · rw [FsState.put_icache, update_of_ne isX] at positive' same
      exact absurd same (inv.inum_ne positive isX positive')

omit inv in
/-- The type 0 has been written to an inode without contents and links. -/
theorem Inv.tree_freeInode (inv : Inv fixed none held locks s) {inum : Nat} {e : Dinode}
    (inside : inum < s.sb.ninodes) (type : e.type = 0) (nlink : e.nlink = 0) (size : e.size = 0)
    (addrs : ∀ k, e.addrs k = 0) (ip : Inode) :
    ((s.put x ip).writeInode inum e).tree = update s.tree inum Node.free := by
  have fits : e.Fits := by
    constructor
    · rw [size]
      decide
    · intro k
      rw [addrs]
      decide
  have written : image s.sb ((s.put x ip).writeInode inum e).disk =
      (image s.sb s.disk).setInode inum e :=
    FsState.image_writeInode (s := s.put x ip) inv.layout inside fits
  have isSb : ((s.put x ip).writeInode inum e).sb = s.sb := rfl
  rw [FsState.tree, isSb, written, Image.tree_setInode, nodeOf_empty _ size, type, nlink, FsState.tree]
  rfl

omit inv in
/-- The type 0 has been written to an inode that is in the cache no longer. -/
theorem Inv.moors_freeInode (inv : Inv fixed none held locks s) {e : Dinode} {ip : Inode}
    (inside : (s.icache x).inum < s.sb.ninodes) (type : e.type = 0) (size : e.size = 0)
    (addrs : ∀ k, e.addrs k = 0) :
    Moors s ((s.put x ip).writeInode (s.icache x).inum e) := by
  have fits : e.Fits := by
    constructor
    · rw [size]
      decide
    · intro k
      rw [addrs]
      decide
  have written : image s.sb ((s.put x ip).writeInode (s.icache x).inum e).disk =
      (image s.sb s.disk).setInode (s.icache x).inum e :=
    FsState.image_writeInode (s := s.put x ip) inv.layout inside fits
  intro i moored allocated unlinked
  change ((image s.sb ((s.put x ip).writeInode _ e).disk).inode i).type ≠ 0 at allocated
  change ((image s.sb ((s.put x ip).writeInode _ e).disk).inode i).nlink = 0 at unlinked
  rw [written, Image.setInode_inode] at allocated unlinked
  have different : i ≠ (s.icache x).inum := by
    rintro rfl
    rw [update_self] at allocated
    exact allocated type
  rw [update_of_ne different] at allocated unlinked
  obtain ⟨y, positive, isInum, isValid⟩ := moored allocated unlinked
  have other : y ≠ x := by
    rintro rfl
    exact different isInum.symm
  refine ⟨y, ?_⟩
  rw [FsState.writeInode_icache, FsState.put_icache, update_of_ne other]
  exact ⟨positive, isInum, isValid⟩

omit inv in
/-- A reference is dropped that is not the last one to an inode without links. -/
theorem Inv.moors_dropRef (inv : Inv fixed none held locks s) {ip : Inode}
    (positive : 0 < (s.icache x).ref) (ref : ip.ref = (s.icache x).ref - 1)
    (inum : ip.inum = (s.icache x).inum) (valid : ip.valid = (s.icache x).valid)
    (notLast : ¬ ((s.icache x).valid = true ∧ (s.icache x).copy.nlink = 0 ∧ (s.icache x).ref = 1)) :
    Moors s (s.put x ip) := by
  intro i moored allocated unlinked
  obtain ⟨y, positive', isInum, isValid⟩ := moored allocated unlinked
  refine ⟨y, ?_⟩
  by_cases same : y = x
  · subst same
    rw [FsState.put_icache, update_self, ref, inum, valid]
    refine ⟨?_, isInum, isValid⟩
    by_contra last
    refine notLast ⟨isValid, ?_, by omega⟩
    rw [(inv.cached y positive' isValid).1, isInum]
    exact unlinked
  · rw [FsState.put_icache, update_of_ne same]
    exact ⟨positive', isInum, isValid⟩

/-- The last reference to a node without links is none that is put while `held` keeps it. -/
theorem Inv.ref_ne_one (anchored : Anchored held s)
    (allocated : (s.tree (s.icache x).inum).type ≠ 0) (unlinked : (s.tree (s.icache x).inum).nlink = 0) :
    (s.icache x).ref ≠ 1 := by
  obtain ⟨y, k', member, same⟩ := anchored _ allocated unlinked
  have isX := inv.single y x (inv.ref_pos (Multiset.mem_cons_of_mem member))
    (inv.ref_pos (Multiset.mem_cons_self _ _)) same
  subst isX
  have more := Multiset.count_pos.mpr (Multiset.mem_map_of_mem Prod.fst member)
  rw [inv.refs, Multiset.map_cons, Multiset.count_cons_self]
  dsimp only at more
  omega

theorem iput_spec (p : ProcId) (awake : ∀ d, locks x = some d → stuck) :
    wp (iput p x) (fun _ s' => Inv fixed none held locks s' ∧ Steady held s s')
      (Stops broken stuck) s := by
  have logged : Inv fixed none ((x, k) ::ₘ held) locks (s.log (.iput x)) :=
    inv.record fun _ => Event.noConfusion
  have positive := inv.ref_pos (Multiset.mem_cons_self (x, k) held)
  have fewer : held ⊆ (x, k) ::ₘ held := Multiset.subset_cons held (x, k)
  simp only [iput, wp_bind, wp_record, acquiresleep, wp_get, wp_ite, wp_setInode, wp_halt,
    FsState.log_icache]
  refine ⟨fun free => ?_, fun taken =>
    ⟨by decide, by simp, fun _ => inv.waits awake taken, logged.quiet⟩⟩
  have isFree : locks x = none := by
    cases lock : locks x with
    | none => rfl
    | some d => exact absurd free (inv.locked x d lock).2.2.1
  simp only [ifreeIfLast, wp_bind, wp_get, releasesleep, wp_setInode, FsState.put_icache,
    update_self]
  split
  · rename_i isLast
    obtain ⟨isValid, unlinked, single⟩ := isLast
    obtain ⟨isInode, allocated⟩ := inv.cached x positive isValid
    have acquired : Inv fixed none ((x, k) ::ₘ held) (update locks x (some (s.icache x).copy))
        ((s.log (.iput x)).put x { s.icache x with lock := some p }) := by
      apply logged.relock positive
      · rfl
      · rfl
      · exact fun _ => ⟨isInode, allocated⟩
      · intro d isCopy
        exact ⟨isValid, Option.some_ne_none p, Option.some.inj isCopy⟩
      · intro isNone
        cases isNone
    have began : Frozen ((x, k) ::ₘ held) s
        ((s.log (.iput x)).put x { s.icache x with lock := some p }) :=
      ⟨rfl, rfl, (Stays.log _ s (.iput x)).trans (Stays.put _ rfl id id)⟩
    rw [ifree]
    apply (itrunc_spec acquired (update_self _ _ _)).bind
    rintro _ s2 ⟨truncated, stays, tree⟩
    rw [update_idem] at truncated
    have relocked : update locks x (some (s.icache x).copy.emptied) x =
        some (s.icache x).copy.emptied := update_self _ _ _
    have isCopy := (truncated.locked x _ relocked).2.2.2
    have sameRef : (s2.icache x).ref = 1 := by
      rw [truncated.refs, ← inv.refs, single]
    have sameInum : (s2.icache x).inum = (s.icache x).inum :=
      (began.stays.trans stays).inums x k (Multiset.mem_cons_self _ _)
    rw [began.stays.inums x k (Multiset.mem_cons_self _ _), began.tree] at tree
    simp only [wp_bind, wp_setCopy, wp_iupdate, wp_setInode, FsState.put_writeInode,
      FsState.writeInode_icache, FsState.put_put, FsState.put_icache, update_self, isCopy]
    constructor
    · rw [← unlock_lock isFree (some (s.icache x).copy.emptied)]
      apply truncated.freeInode relocked rfl (fun _ => rfl) sameRef
      · rw [sameRef]
        rfl
      · rfl
      · rfl
    · constructor
      · refine ⟨fun y pinned member => ?_, ?_⟩
        · have before := (began.stays.trans stays).inums y pinned (fewer member)
          by_cases same : y = x
          · rw [FsState.writeInode_icache, same, FsState.put_icache, update_self, sameInum]
          · rw [FsState.writeInode_icache, FsState.put_icache, update_of_ne same, before]
        · apply (began.stays.trans stays).moors.trans
          exact truncated.moors_freeInode (truncated.locked_inside relocked) rfl rfl fun _ => rfl
      · have freed := truncated.tree_freeInode (x := x) (truncated.locked_inside relocked)
          (e := { (s.icache x).copy.emptied with type := 0 }) rfl unlinked rfl fun _ => rfl
        rw [freed, tree, sameInum, update_idem]
        apply Reaped.free
        rw [isInode] at unlinked
        exact unlinked
      · intro anchored
        rw [isInode] at allocated unlinked
        exact absurd single (inv.ref_ne_one anchored allocated unlinked)
  · rename_i notLast
    simp only [wp_pure, FsState.put_icache, update_self, FsState.put_put]
    have dropped : Inv fixed none held (update locks x none) ((s.log (.iput x)).put x
        { s.icache x with lock := none, ref := (s.icache x).ref - 1 }) :=
      logged.dropRef rfl rfl rfl fun _ => inv.cached x positive
    rw [← isFree, update_eq_self] at dropped
    have frozen : Frozen held s ((s.log (.iput x)).put x
        { s.icache x with lock := none, ref := (s.icache x).ref - 1 }) := by
      refine ⟨rfl, rfl, fun y _ _ => ?_, ?_⟩
      · by_cases same : y = x
        · rw [same, FsState.put_icache, update_self]
        · rw [FsState.put_icache, update_of_ne same, FsState.log_icache]
      · exact (Stays.log held s (.iput x)).moors.trans
          (logged.moors_dropRef positive rfl rfl rfl notLast)
    exact ⟨dropped, frozen.steady⟩

theorem iunlockput_spec (p : ProcId) (locked : locks x = some d) :
    wp (iunlockput p x) (fun _ s' => Inv fixed none held (update locks x none) s' ∧
      Steady held s s') (Stops broken stuck) s := by
  rw [iunlockput]
  apply (iunlock_spec inv p locked).bind
  intro _ s1 ⟨inv1, frozen⟩
  have unlocked : ∀ d, update locks x none x = some d → stuck := by
    intro d isLocked
    rw [update_self] at isLocked
    cases isLocked
  apply (iput_spec inv1 p unlocked).mono
  intro _ s2 ⟨inv2, steady⟩
  exact ⟨inv2, (frozen.mono (Multiset.subset_cons _ _)).steady.trans steady⟩

end

end

end Xv6.Fs
