import Xv6.Fs.InodeSpecs

/-!
Contract: what mapping, reading and writing the blocks of a cached inode do to the
blocks of all inodes.

Nothing is asked of the disk but that every block has one owner once the cached copy
is put in the place of the inode on the disk. Mapping a block for a write takes at
most as many free blocks as positions are empty; what is mapped stays where it is.
-/

namespace Xv6.Fs

open Function Xv6.Lib

/-! ### Contents -/

def contents (block : Nat → Block) (d : Dinode) (off n : Nat) : List UInt8 :=
  (List.range n).map fun k =>
    (block (addrOf block d ((off + k) / BSIZE))).get ((off + k) % BSIZE)

variable {off : Nat}

theorem contents_split {block : Nat → Block} {d : Dinode} {n m : Nat} (part : m ≤ n)
    (room : off % BSIZE + m ≤ BSIZE) :
    contents block d off n =
      (block (addrOf block d (off / BSIZE))).slice (off % BSIZE) m ++
        contents block d (off + m) (n - m) := by
  have total : n = m + (n - m) := by omega
  unfold contents Bytes.slice
  conv_lhs => rw [total, List.range_add, List.map_append, List.map_map]
  congr 1
  · apply List.map_congr_left
    intro k inside
    rw [List.mem_range] at inside
    have sameBlock : (off + k) / BSIZE = off / BSIZE := by
      unfold BSIZE at room ⊢
      omega
    have position : (off + k) % BSIZE = off % BSIZE + k := by
      unfold BSIZE at room ⊢
      omega
    rw [sameBlock, position]
  · apply List.map_congr_left
    intro k _
    simp only [Function.comp_apply, Nat.add_assoc]

def readResult (block : Nat → Block) (d : Dinode) (off n : Nat) : Int × List UInt8 :=
  if d.size < off ∨ uintAdd off n < off then (-1, [])
  else
    let n := if d.size < off + n then d.size - off else n
    (n, contents block d off n)

variable {post : Nat → FsState → Prop} {k : Fin (NDIRECT + 1)} {bn : Nat}

section

variable {halts : Halt → FsState → Prop} {s : FsState} {x : Slot}

@[simp] theorem wp_setCopy {change : Dinode → Dinode} {post : Unit → FsState → Prop} :
    wp (setCopy x change) post halts s ↔
      post () (s.put x { s.icache x with copy := change (s.icache x).copy }) := Iff.rfl

@[simp] theorem wp_setAddr {addr : Nat} {post : Unit → FsState → Prop} :
    wp (setAddr x k addr) post halts s ↔
      post () (s.put x { s.icache x with copy := (s.icache x).copy.setAddr k addr }) := Iff.rfl

theorem wp_bmapSlot {caller : Caller} (some : (s.icache x).copy.addrs k ≠ 0) :
    wp (bmapSlot caller x k) post halts s ↔ post ((s.icache x).copy.addrs k) s := by
  simp [bmapSlot, some]

theorem wp_bmap {caller : Caller} (mapped : addrOf s.disk (s.icache x).copy bn ≠ 0) :
    wp (bmap caller x bn) post halts s ↔ post (addrOf s.disk (s.icache x).copy bn) s := by
  unfold addrOf posOf at mapped ⊢
  unfold bmap
  by_cases direct : bn < NDIRECT
  · simp only [direct, ↓reduceDIte] at mapped ⊢
    exact wp_bmapSlot mapped
  · by_cases indirect : bn - NDIRECT < NINDIRECT
    · simp only [direct, indirect, ↓reduceDIte, ↓reduceIte] at mapped ⊢
      have some : (s.icache x).copy.addrs last ≠ 0 := by
        intro none
        exact mapped (ref_entry_of_none none _)
      rw [ref_entry some] at mapped ⊢
      rw [wp_bind, wp_bmapSlot some, bmapEntry, wp_bind, wp_bread, if_neg mapped, wp_pure]
    · simp only [direct, indirect, ↓reduceDIte, ne_eq, not_true_eq_false] at mapped

theorem wp_readLoop {rounds n : Nat} {post : List UInt8 → FsState → Prop}
    (mapped : ∀ bn, bn * BSIZE < off + n → addrOf s.disk (s.icache x).copy bn ≠ 0)
    (enough : n ≤ rounds) :
    wp (readLoop x rounds off n) post halts s ↔
      post (contents s.disk (s.icache x).copy off n) s := by
  induction rounds generalizing off n post with
  | zero =>
    have none : n = 0 := by omega
    rw [none]
    exact Iff.rfl
  | succ rounds ih =>
    rw [readLoop]
    split
    · rename_i none
      rw [none]
      exact Iff.rfl
    · rename_i some
      have below : off % BSIZE < BSIZE := Nat.mod_lt off (by decide)
      have here : addrOf s.disk (s.icache x).copy (off / BSIZE) ≠ 0 := by
        apply mapped
        have := Nat.div_mul_le_self off BSIZE
        omega
      rw [wp_bind, wp_bmap here, wp_bind, wp_bread, wp_bind, ih _ (by omega),
        wp_pure, contents_split (Nat.min_le_left n (BSIZE - off % BSIZE)) (by omega)]
      intro bn inside
      exact mapped bn (by omega)

theorem wp_readi {n : Nat} {post : Int × List UInt8 → FsState → Prop}
    (notDevice : (s.icache x).copy.type ≠ T_DEV)
    (mapped : ∀ bn, bn * BSIZE < (s.icache x).copy.size → addrOf s.disk (s.icache x).copy bn ≠ 0) :
    wp (readi x off n) post halts s ↔
      post (readResult s.disk (s.icache x).copy off n) s := by
  simp only [readi, wp_bind, wp_get, if_neg notDevice, readResult]
  split
  · rw [wp_pure]
  · rename_i inRange
    rw [wp_bind, wp_readLoop _ le_rfl, wp_pure]
    intro bn below
    apply mapped
    split at below <;> omega

end

/-! ### Bytes -/

def Image.byteAt (img : Image) (i p : Nat) : UInt8 :=
  (img.block (addrOf img.block (img.inode i) (p / BSIZE))).get (p % BSIZE)

theorem Image.contents_eq (img : Image) (i off n : Nat) :
    contents img.block (img.inode i) off n =
      (List.range n).map fun k => img.byteAt i (off + k) := rfl

theorem Owned.byteAt_write {sb : Superblock} {img : Image} (owned : Owned sb img) {i : Nat}
    (data : Block) (allocated : (img.inode i).type ≠ 0)
    (mapped : addrOf img.block (img.inode i) bn ≠ 0) {j p : Nat}
    (allocated' : (img.inode j).type ≠ 0) :
    (img.setBlock (addrOf img.block (img.inode i) bn) data).byteAt j p =
      if j = i ∧ p / BSIZE = bn then data.get (p % BSIZE) else img.byteAt j p := by
  have notIndirect := owned.addrOf_ne_indirect (j := j) allocated mapped
  rw [Image.own_of_allocated allocated'] at notIndirect
  have kept : addrOf (img.setBlock (addrOf img.block (img.inode i) bn) data).block (img.inode j)
      (p / BSIZE) = addrOf img.block (img.inode j) (p / BSIZE) :=
    addrOf_congr (fun _ => update_of_ne notIndirect _ _) _
  rw [Image.byteAt, Image.setBlock_inode, kept, Image.setBlock_block]
  split
  · rename_i here
    rw [here.1, here.2, update_self]
  · rename_i elsewhere
    rw [update_of_ne, Image.byteAt]
    intro same
    obtain ⟨isI, isBn⟩ := owned.addrOf_injective allocated allocated' mapped same.symm
    exact elsewhere ⟨isI.symm, isBn.symm⟩

/-! ### The cached inode in its place -/

/-- The cached inode `x` is allocated, and every block has one owner once its copy is put
in the place of the inode on the disk. -/
structure Laid (x : Slot) (s : FsState) : Prop where
  layout : s.sb.Valid
  inside : (s.icache x).inum < s.sb.ninodes
  allocated : (s.icache x).copy.type ≠ 0
  fits : (s.icache x).copy.Fits
  owned : Owned s.sb (view (some x) s)

namespace Laid

variable {x : Slot} {s : FsState} (laid : Laid x s)
include laid

theorem allocated_view : ((view (some x) s).inode (s.icache x).inum).type ≠ 0 := by
  rw [view_some_self]
  exact laid.allocated

theorem own_self (pos : Pos) :
    (view (some x) s).own ((s.icache x).inum, pos) =
      ref (image s.sb s.disk).block (s.icache x).copy pos := by
  rw [Image.own_of_allocated laid.allocated_view, view_some_self, view_block]

theorem addrOf_range (mapped : addrOf (image s.sb s.disk).block (s.icache x).copy bn ≠ 0) :
    s.sb.dataStart ≤ addrOf (image s.sb s.disk).block (s.icache x).copy bn := by
  obtain ⟨pos, -, isRef⟩ := posOf_of_addrOf mapped
  rw [← laid.own_self] at isRef
  have range := (laid.owned.inRange _ (isRef.trans_ne mapped)).1
  rw [isRef] at range
  exact not_lt.mp range

theorem last_range (indirect : (s.icache x).copy.addrs last ≠ 0) :
    s.sb.dataStart ≤ (s.icache x).copy.addrs last := by
  have isLast := laid.own_self (.slot last)
  have range := (laid.owned.inRange _ (isLast.trans_ne indirect)).1
  rw [isLast] at range
  exact not_lt.mp range

theorem addrOf_disk (bn : Nat) :
    addrOf s.disk (s.icache x).copy bn =
      addrOf (image s.sb s.disk).block (s.icache x).copy bn :=
  addrOf_congr (fun indirect => (image_block _ (laid.last_range indirect)).symm) bn

end Laid

/-- The copy is the inode on the disk. -/
structure Current (x : Slot) (s : FsState) : Prop extends Laid x s where
  onDisk : (image s.sb s.disk).inode (s.icache x).inum = (s.icache x).copy

theorem Current.view_eq {x : Slot} {s : FsState} (current : Current x s) :
    view (some x) s = image s.sb s.disk := by
  rw [view_some, ← current.onDisk, Image.setInode_self]

theorem Current.congr {x : Slot} {s s' : FsState} (current : Current x s) (sb : s'.sb = s.sb)
    (disk : s'.disk = s.disk) (inum : (s'.icache x).inum = (s.icache x).inum)
    (copy : (s'.icache x).copy = (s.icache x).copy) : Current x s' := by
  have views : view (some x) s' = view (some x) s := by
    rw [view_some, view_some, sb, disk, inum, copy]
  refine ⟨⟨sb ▸ current.layout, ?_, copy ▸ current.allocated, copy ▸ current.fits, ?_⟩, ?_⟩
  · rw [inum, sb]
    exact current.inside
  · rw [views, sb]
    exact current.owned
  · rw [sb, disk, inum, copy]
    exact current.onDisk

def Mapped (x : Slot) (s : FsState) (bn : Nat) : Prop :=
  addrOf (image s.sb s.disk).block (s.icache x).copy bn ≠ 0

/-- The blocks of the cached inode have been written and new ones may have been added;
the inodes on the disk are as before. -/
structure Extends (x : Slot) (s s' : FsState) : Prop where
  sb : s'.sb = s.sb
  devsw : s'.devsw = s.devsw
  super : readsb s'.disk = readsb s.disk
  inodes : (image s.sb s'.disk).inode = (image s.sb s.disk).inode
  icache : ∃ addrs, s'.icache = update s.icache x
    { s.icache x with copy := { (s.icache x).copy with addrs := addrs } }
  kept : ∀ key, (view (some x) s).own key ≠ 0 →
    (view (some x) s').own key = (view (some x) s).own key
  quiet : Quiet s → Quiet s'

namespace Extends

variable {x : Slot} {s s' s'' : FsState}

theorem refl (x : Slot) (s : FsState) : Extends x s s :=
  ⟨rfl, rfl, rfl, rfl, ⟨(s.icache x).copy.addrs, (update_eq_self x s.icache).symm⟩,
    fun _ _ => rfl, id⟩

theorem trans (first : Extends x s s') (second : Extends x s' s'') : Extends x s s'' := by
  obtain ⟨addrs, icache⟩ := first.icache
  obtain ⟨addrs', icache'⟩ := second.icache
  refine ⟨second.sb.trans first.sb, second.devsw.trans first.devsw,
    second.super.trans first.super, ?_, ⟨addrs', ?_⟩, ?_, second.quiet ∘ first.quiet⟩
  · have inodes := second.inodes
    rw [first.sb] at inodes
    exact inodes.trans first.inodes
  · rw [icache', icache, update_self, update_idem]
  · intro key owns
    have kept := first.kept key owns
    rw [second.kept key (kept.trans_ne owns), kept]

variable (extended : Extends x s s')
include extended

theorem self : s'.icache x =
    { s.icache x with
      copy := { (s.icache x).copy with addrs := (s'.icache x).copy.addrs } } := by
  obtain ⟨addrs, icache⟩ := extended.icache
  rw [icache, update_self]

theorem inum : (s'.icache x).inum = (s.icache x).inum := by
  rw [extended.self]

theorem type : (s'.icache x).copy.type = (s.icache x).copy.type := by
  rw [extended.self]

theorem size : (s'.icache x).copy.size = (s.icache x).copy.size := by
  rw [extended.self]

theorem inode_other {j : Nat} (different : j ≠ (s.icache x).inum) :
    (view (some x) s').inode j = (view (some x) s).inode j := by
  rw [view_some_other different, view_some_other (extended.inum.symm ▸ different), extended.sb,
    extended.inodes]

theorem inode_fields (j : Nat) :
    (view (some x) s').inode j = { (view (some x) s).inode j with
      addrs := ((view (some x) s').inode j).addrs } := by
  by_cases same : j = (s.icache x).inum
  · have self := view_some_self x s'
    rw [extended.inum] at self
    rw [same, self, view_some_self]
    conv_lhs => rw [extended.self]
  · rw [extended.inode_other same]

theorem addrOf_kept {j : Nat} (allocated : ((view (some x) s).inode j).type ≠ 0)
    (mapped : addrOf (view (some x) s).block ((view (some x) s).inode j) bn ≠ 0) :
    addrOf (view (some x) s').block ((view (some x) s').inode j) bn =
      addrOf (view (some x) s).block ((view (some x) s).inode j) bn := by
  apply Image.addrOf_of_kept allocated
  · rw [extended.inode_fields]
    exact allocated
  · exact fun pos => extended.kept (j, pos)
  · exact mapped

theorem mapped (laid : Laid x s) (mapped : Mapped x s bn) : Mapped x s' bn := by
  have before : addrOf (view (some x) s).block ((view (some x) s).inode (s.icache x).inum) bn ≠ 0 := by
    rw [view_block, view_some_self]
    exact mapped
  have kept := extended.addrOf_kept laid.allocated_view before
  have self := view_some_self x s'
  rw [extended.inum] at self
  rw [view_block, self] at kept
  exact kept.trans_ne before

end Extends

/-- Blocks have been added to the cached inode, and nothing else has changed. -/
structure Grown (x : Slot) (s s' : FsState) : Prop extends Extends x s s' where
  contents : ∀ key : Nat × Pos, key.2 ≠ .slot last → (view (some x) s).own key ≠ 0 →
    (image s.sb s'.disk).block ((view (some x) s).own key) =
      (image s.sb s.disk).block ((view (some x) s).own key)

theorem Grown.refl (x : Slot) (s : FsState) : Grown x s s := ⟨Extends.refl x s, fun _ _ _ => rfl⟩

theorem Grown.trans {x : Slot} {s s' s'' : FsState} (first : Grown x s s') (second : Grown x s' s'') :
    Grown x s s'' := by
  refine ⟨first.toExtends.trans second.toExtends, fun key notLast owns => ?_⟩
  have kept := first.kept key owns
  have later := second.contents key notLast (kept.trans_ne owns)
  rw [kept, first.sb] at later
  rw [later, first.contents key notLast owns]

theorem Grown.byteAt {x : Slot} {s s' : FsState} (grown : Grown x s s') {j p : Nat}
    (allocated : ((view (some x) s).inode j).type ≠ 0)
    (mapped : addrOf (view (some x) s).block ((view (some x) s).inode j) (p / BSIZE) ≠ 0) :
    (view (some x) s').byteAt j p = (view (some x) s).byteAt j p := by
  obtain ⟨pos, at_, owns⟩ := Image.own_of_mapped allocated mapped
  have notLast : pos ≠ .slot last := fun isLast => posOf_ne_last (isLast ▸ at_)
  have data := grown.contents (j, pos) notLast (owns.trans_ne mapped)
  rw [owns] at data
  rw [Image.byteAt, Image.byteAt, grown.addrOf_kept allocated mapped, view_block (some x) s', grown.sb,
    data, view_block]

/-! ### Free blocks -/

deriving instance Fintype for Pos

/-- The first block of a file that is found through the position. -/
def Pos.start : Pos → Nat
  | .slot k => k.val
  | .entry j => NDIRECT + j.val

/-- The positions below the offset `upto` that have no block. -/
def lacking (x : Slot) (upto : Nat) (s : FsState) : Finset Pos :=
  Finset.univ.filter fun pos =>
    pos.start * BSIZE < upto ∧ (view (some x) s).own ((s.icache x).inum, pos) = 0

def freeBlocks (s : FsState) : Finset Nat :=
  (Finset.range s.sb.size).filter fun b => bitAt s.sb s.disk b = false

/-- There are free blocks for all positions below `upto`, or the file system may run out
of them. -/
def Room (halts : Halt → FsState → Prop) (x : Slot) (upto : Nat) (s : FsState) : Prop :=
  (∀ t, Extends x s t → halts .ballocOutOfBlocks t) ∨
    (lacking x upto s).card ≤ (freeBlocks s).card

def FsState.allocBlock (s : FsState) (caller : Caller) (b : Nat) : FsState :=
  ((s.log (.balloc caller b)).write (BBLOCK b s.sb)
    ((s.disk (BBLOCK b s.sb)).setBit (b % BPB))).write b Bytes.zero

section

variable {halts : Halt → FsState → Prop} {s : FsState} {x : Slot}

theorem FsState.image_allocBlock (layout : s.sb.Valid) (caller : Caller) {b : Nat}
    (inside : b < s.sb.size) (isData : s.sb.dataStart ≤ b) :
    image s.sb (s.allocBlock caller b).disk =
      ((image s.sb s.disk).setBit b true).setBlock b Bytes.zero := by
  have marked := image_markUsed layout s.disk inside
  rw [← marked]
  exact image_update_data layout isData

theorem FsState.readsb_allocBlock (layout : s.sb.Valid) (caller : Caller) {b : Nat}
    (inside : b < s.sb.size) (isData : s.sb.dataStart ≤ b) :
    readsb (s.allocBlock caller b).disk = readsb s.disk := by
  have before := layout.bmapstart_lt_dataStart
  have range := layout.BBLOCK_range inside
  have first := layout.one_lt_bmapstart
  unfold allocBlock
  rw [write_disk, readsb_update (by omega), write_disk, readsb_update (by omega), log_disk]

theorem Quiet.allocBlock (quiet : Quiet s) (b : Nat) : Quiet (s.allocBlock .writei b) := by
  have logged : Quiet (s.log (.balloc .writei b)) := quiet.log fun _ => by simp
  exact (logged.write _ _).write _ _

/-- A block that is free is found, or the file system halts. -/
theorem balloc_spec (laid : Laid x s) {caller : Caller}
    (full : freeBlocks s = ∅ → halts .ballocOutOfBlocks s)
    (found : ∀ b, b < s.sb.size → (image s.sb s.disk).bit b = false → s.sb.dataStart ≤ b → post b (s.allocBlock caller b)) :
    wp (balloc caller) post halts s := by
  simp only [balloc, wp_bind, wp_get]
  split
  · rename_i b isFound
    have free := List.find?_some isFound
    have inside := List.mem_range.mp (List.mem_of_find?_eq_some isFound)
    rw [Bool.not_eq_true', ← image_bit _ inside] at free
    have unused := (laid.owned.of_unused inside free).2.1
    exact found b inside free (not_lt.mp unused)
  · rename_i none
    rw [wp_halt]
    apply full
    rw [List.find?_eq_none] at none
    apply Finset.filter_false_of_mem
    intro b member
    simpa using none b (List.mem_range.mpr (Finset.mem_range.mp member))

variable {upto : Nat}

/-- A free block has been given to the empty position `pos` of the cached inode. -/
theorem Laid.alloc (laid : Laid x s) {s' : FsState} {pos : Pos} {b : Nat}
    {addrs : Fin (NDIRECT + 1) → Nat} (nothing : (view (some x) s).own ((s.icache x).inum, pos) = 0)
    (inside : b < s.sb.size) (free : (image s.sb s.disk).bit b = false) (sb : s'.sb = s.sb)
    (devsw : s'.devsw = s.devsw) (super : readsb s'.disk = readsb s.disk)
    (inodes : (image s.sb s'.disk).inode = (image s.sb s.disk).inode)
    (bit : (image s.sb s'.disk).bit = update (image s.sb s.disk).bit b true)
    (icache : s'.icache = update s.icache x { s.icache x with copy := { (s.icache x).copy with addrs := addrs } })
    (fits : ∀ k, addrs k < 2 ^ 32)
    (own : (view (some x) s').own = update (view (some x) s).own ((s.icache x).inum, pos) b)
    (contents : ∀ key : Nat × Pos, key.2 ≠ .slot last → (view (some x) s).own key ≠ 0 → (image s.sb s'.disk).block ((view (some x) s).own key) = (image s.sb s.disk).block ((view (some x) s).own key))
    (quiet : Quiet s → Quiet s') (needed : pos.start * BSIZE < upto) (room : Room halts x upto s) :
    Laid x s' ∧ Grown x s s' ∧ Room halts x upto s' := by
  have atX : s'.icache x = { s.icache x with copy := { (s.icache x).copy with addrs := addrs } } := by
    rw [icache, update_self]
  have grown : Grown x s s' := by
    refine ⟨⟨sb, devsw, super, inodes, ⟨addrs, icache⟩, ?_, quiet⟩, contents⟩
    intro key owns
    rw [own, update_of_ne]
    intro same
    exact owns (same ▸ nothing)
  refine ⟨⟨?_, ?_, ?_, ?_, ?_⟩, grown, ?_⟩
  · exact sb ▸ laid.layout
  · rw [atX, sb]
    exact laid.inside
  · rw [atX]
    exact laid.allocated
  · rw [atX]
    exact ⟨laid.fits.size, fits⟩
  · have isBit : (view (some x) s').bit = update (view (some x) s).bit b true := by
      rw [view_some, view_some, sb]
      exact bit
    rw [Owned, sb, own, isBit]
    exact laid.owned.alloc nothing inside free
  · refine room.imp (fun may t extended => may t (grown.toExtends.trans extended)) fun enough => ?_
    have fewer : lacking x upto s' ⊆ (lacking x upto s).erase pos := by
      intro other member
      rw [lacking, Finset.mem_filter, own, grown.inum] at member
      obtain ⟨-, below, isZero⟩ := member
      have different : other ≠ pos := by
        rintro rfl
        rw [update_self] at isZero
        exact (laid.owned.of_unused inside free).1 isZero
      rw [update_of_ne (by simp [different])] at isZero
      rw [Finset.mem_erase, lacking, Finset.mem_filter]
      exact ⟨different, Finset.mem_univ _, below, isZero⟩
    have more : (freeBlocks s).erase b ⊆ freeBlocks s' := by
      intro other member
      rw [Finset.mem_erase, freeBlocks, Finset.mem_filter, Finset.mem_range] at member
      obtain ⟨different, below, isFree⟩ := member
      have still := congrFun bit other
      rw [update_of_ne different, image_bit _ below, image_bit _ below, isFree] at still
      rw [freeBlocks, Finset.mem_filter, Finset.mem_range, sb]
      exact ⟨below, still⟩
    have isLacking : pos ∈ lacking x upto s := by
      rw [lacking, Finset.mem_filter]
      exact ⟨Finset.mem_univ _, needed, nothing⟩
    have isFree : b ∈ freeBlocks s := by
      rw [freeBlocks, Finset.mem_filter, Finset.mem_range]
      exact ⟨inside, image_bit _ inside ▸ free⟩
    calc (lacking x upto s').card
        ≤ ((lacking x upto s).erase pos).card := Finset.card_le_card fewer
      _ = (lacking x upto s).card - 1 := Finset.card_erase_of_mem isLacking
      _ ≤ (freeBlocks s).card - 1 := Nat.sub_le_sub_right enough 1
      _ = ((freeBlocks s).erase b).card := (Finset.card_erase_of_mem isFree).symm
      _ ≤ (freeBlocks s').card := Finset.card_le_card more

/-- A position below `upto` without a block leaves room for one more. -/
theorem Room.full (room : Room halts x upto s) (pos : Pos) (needed : pos.start * BSIZE < upto)
    (nothing : (view (some x) s).own ((s.icache x).inum, pos) = 0) (none : freeBlocks s = ∅) :
    halts .ballocOutOfBlocks s := by
  rcases room with may | enough
  · exact may s (Extends.refl x s)
  · have isLacking : pos ∈ lacking x upto s := by
      rw [lacking, Finset.mem_filter]
      exact ⟨Finset.mem_univ _, needed, nothing⟩
    rw [none, Finset.card_empty, Nat.le_zero, Finset.card_eq_zero] at enough
    rw [enough] at isLacking
    exact absurd isLacking (Finset.notMem_empty _)

/-! ### Mapping blocks -/

theorem bmapSlot_spec (laid : Laid x s) (needed : k.val * BSIZE < upto) (room : Room halts x upto s) :
    wp (bmapSlot .writei x k) (fun addr s' => Laid x s' ∧ Grown x s s' ∧ Room halts x upto s' ∧
      (s'.icache x).copy.addrs k = addr ∧ addr ≠ 0) halts s := by
  by_cases empty : (s.icache x).copy.addrs k = 0
  · have nothing : (view (some x) s).own ((s.icache x).inum, .slot k) = 0 :=
      (laid.own_self (.slot k)).trans empty
    simp only [bmapSlot, wp_bind, wp_get, if_pos empty]
    apply balloc_spec laid (room.full (.slot k) needed nothing)
    intro b inside free isData
    obtain ⟨nonzero, -, notOwned⟩ := laid.owned.of_unused inside free
    have isImage := FsState.image_allocBlock laid.layout .writei inside isData
    simp only [wp_setAddr, wp_pure, FsState.put_icache, update_self, Dinode.setAddr_self]
    have allocated : Laid x ((s.allocBlock .writei b).put x
          { s.icache x with copy := (s.icache x).copy.setAddr k b }) ∧
        Grown x s ((s.allocBlock .writei b).put x
          { s.icache x with copy := (s.icache x).copy.setAddr k b }) ∧
        Room halts x upto ((s.allocBlock .writei b).put x
          { s.icache x with copy := (s.icache x).copy.setAddr k b }) := by
      refine laid.alloc nothing inside free rfl rfl
        (FsState.readsb_allocBlock laid.layout .writei inside isData)
        (by rw [FsState.put_disk, isImage]; rfl) (by rw [FsState.put_disk, isImage]; rfl) rfl ?_ ?_ ?_
        (fun quiet => quiet.allocBlock b) needed room
      · intro other
        by_cases same : other = k
        · rw [same, update_self]
          exact lt_trans inside laid.layout.fits
        · rw [update_of_ne same]
          exact laid.fits.addrs other
      · rw [← laid.owned.allocSlot laid.allocated_view (by rw [view_some_self]; exact empty) inside
          free, view_some, view_some_self, view_some]
        simp only [FsState.put_sb, FsState.put_disk, FsState.put_icache, update_self]
        change ((image s.sb (s.allocBlock .writei b).disk).setInode _ _).own = _
        rw [isImage]
        simp [Image.setInode, Image.setBit, Image.setBlock]
      · intro key _ owns
        rw [FsState.put_disk, isImage, Image.setBlock_block, update_of_ne (notOwned key)]
        rfl
    exact ⟨allocated.1, allocated.2.1, allocated.2.2, trivial, nonzero⟩
  · rw [wp_bmapSlot empty]
    exact ⟨laid, Grown.refl x s, room, rfl, empty⟩

/-- The state in which block `b` has been allocated and entered in the indirect block
`addr`. -/
def FsState.allocEntry (s : FsState) (addr j b : Nat) : FsState :=
  (s.allocBlock .writei b).write addr ((s.disk addr).setLe (4 * j) 4 b)

section

-- the goals are not to be evaluated
attribute [local irreducible] wp

theorem bmapEntry_spec (laid : Laid x s) (indirect : (s.icache x).copy.addrs last ≠ 0)
    (j : Fin NINDIRECT) (needed : (NDIRECT + j.val) * BSIZE < upto) (room : Room halts x upto s) :
    wp (bmapEntry .writei ((s.icache x).copy.addrs last) j.val) (fun addr s' => Laid x s' ∧
      Grown x s s' ∧ Room halts x upto s' ∧ s'.icache = s.icache ∧
      addr = ref (image s'.sb s'.disk).block (s.icache x).copy (.entry j) ∧ addr ≠ 0) halts s := by
  have isData := laid.last_range indirect
  have isBlock := image_block s.disk isData
  rw [bmapEntry, wp_bind, wp_bread]
  by_cases empty : (s.disk ((s.icache x).copy.addrs last)).getLe (4 * j.val) 4 = 0
  · have nothing : (view (some x) s).own ((s.icache x).inum, .entry j) = 0 := by
      rw [laid.own_self, ref_entry indirect, isBlock, empty]
    rw [if_pos empty, wp_bind]
    apply balloc_spec laid (room.full (.entry j) needed nothing)
    intro b inside free newIsData
    obtain ⟨nonzero, -, notOwned⟩ := laid.owned.of_unused inside free
    have isLast := laid.own_self (.slot last)
    have notLast : (s.icache x).copy.addrs last ≠ b := by
      have other := notOwned ((s.icache x).inum, .slot last)
      rw [isLast] at other
      exact other
    have isImage := FsState.image_allocBlock laid.layout .writei inside newIsData
    have kept : (s.allocBlock .writei b).disk ((s.icache x).copy.addrs last) =
        s.disk ((s.icache x).copy.addrs last) := by
      rw [← image_block (s.allocBlock .writei b).disk isData, isImage, Image.setBlock_block,
        update_of_ne notLast, Image.setBit_block, isBlock]
    have written : image s.sb (s.allocEntry ((s.icache x).copy.addrs last) j.val b).disk =
        (((image s.sb s.disk).setBit b true).setBlock b Bytes.zero).setBlock
          ((s.icache x).copy.addrs last)
          ((s.disk ((s.icache x).copy.addrs last)).setLe (4 * j.val) 4 b) := by
      rw [FsState.allocEntry, FsState.write_disk, image_update_data laid.layout isData, isImage]
    have room' : 4 * j.val + 4 ≤ BSIZE := by
      have bound : j.val < 128 := j.isLt
      unfold BSIZE
      omega
    have allocated : Laid x (s.allocEntry ((s.icache x).copy.addrs last) j.val b) ∧
        Grown x s (s.allocEntry ((s.icache x).copy.addrs last) j.val b) ∧
        Room halts x upto (s.allocEntry ((s.icache x).copy.addrs last) j.val b) := by
      refine laid.alloc nothing inside free rfl rfl ?_
        (by rw [written]; rfl) (by rw [written]; rfl) (update_eq_self x s.icache).symm
        laid.fits.addrs ?_ ?_ (fun quiet => (quiet.allocBlock b).write _ _) needed room
      · have before := laid.layout.bmapstart_lt_dataStart
        have first := laid.layout.one_lt_bmapstart
        rw [FsState.allocEntry, FsState.write_disk, readsb_update (by omega),
          FsState.readsb_allocBlock laid.layout .writei inside newIsData]
      · rw [← laid.owned.allocEntry laid.allocated_view (by rw [view_some_self]; exact indirect)
          inside free (lt_trans inside laid.layout.fits), view_some, view_some_self, view_block,
          isBlock, view_some]
        change ((image s.sb (s.allocEntry ((s.icache x).copy.addrs last) j.val b).disk).setInode _
          _).own = _
        rw [written]
        rfl
      · intro key notLast' owns
        have notIndirect : (view (some x) s).own key ≠ (s.icache x).copy.addrs last := by
          intro equal
          have same := laid.owned.single key ((s.icache x).inum, .slot last) owns
            (equal.trans isLast.symm)
          exact notLast' (congrArg Prod.snd same)
        rw [written, Image.setBlock_block, update_of_ne notIndirect, Image.setBlock_block,
          update_of_ne (notOwned key)]
        rfl
    have isState : (s.allocBlock .writei b).write ((s.icache x).copy.addrs last)
        ((s.disk ((s.icache x).copy.addrs last)).setLe (4 * j.val) 4 b) =
        s.allocEntry ((s.icache x).copy.addrs last) j.val b := rfl
    rw [wp_bind, wp_bread, kept, wp_bind, wp_logWrite, wp_pure, isState]
    refine ⟨allocated.1, allocated.2.1, allocated.2.2, rfl, ?_, nonzero⟩
    change b = ref (image s.sb (s.allocEntry ((s.icache x).copy.addrs last) j.val b).disk).block
      (s.icache x).copy (.entry j)
    rw [ref_entry indirect, written, Image.setBlock_block, update_self,
      Bytes.getLe_setLe_same _ _ room']
    exact (Nat.mod_eq_of_lt (lt_trans inside laid.layout.fits)).symm
  · rw [if_neg empty, wp_pure, ref_entry indirect, isBlock]
    exact ⟨laid, Grown.refl x s, room, rfl, rfl, empty⟩

theorem bmap_spec (laid : Laid x s) (small : bn < MAXFILE) (needed : bn * BSIZE < upto)
    (room : Room halts x upto s) :
    wp (bmap .writei x bn) (fun addr s' => Laid x s' ∧ Grown x s s' ∧ Room halts x upto s' ∧
      addr = addrOf (image s'.sb s'.disk).block (s'.icache x).copy bn ∧ addr ≠ 0 ∧
      (Mapped x s bn → s' = s)) halts s := by
  by_cases mapped : Mapped x s bn
  · have onDisk := laid.addrOf_disk bn
    rw [wp_bmap (onDisk.trans_ne mapped), onDisk]
    exact ⟨laid, Grown.refl x s, room, rfl, mapped, fun _ => rfl⟩
  · unfold bmap
    split
    · rename_i direct
      apply (bmapSlot_spec laid (k := ⟨bn, Nat.lt_succ_of_lt direct⟩) needed room).mono
      rintro addr s' ⟨laid', grown, room', isAddr, nonzero⟩
      refine ⟨laid', grown, room', ?_, nonzero, fun isMapped => absurd isMapped mapped⟩
      simp only [addrOf, posOf, direct, ↓reduceDIte, ref, isAddr]
    · rename_i direct
      have indirect : bn - NDIRECT < NINDIRECT := by
        unfold MAXFILE at small
        omega
      have first : last.val * BSIZE < upto := by
        have isLast : last.val = NDIRECT := rfl
        rw [isLast]
        exact lt_of_le_of_lt (Nat.mul_le_mul_right BSIZE (not_lt.mp direct)) needed
      have isBn : NDIRECT + (bn - NDIRECT) = bn := by omega
      rw [if_pos indirect]
      apply (bmapSlot_spec laid (k := last) first room).bind
      rintro addr s1 ⟨laid1, grown1, room1, isAddr, nonzero1⟩
      rw [← isAddr] at nonzero1 ⊢
      apply (bmapEntry_spec laid1 nonzero1 ⟨_, indirect⟩ (isBn.symm ▸ needed) room1).mono
      rintro addr' s2 ⟨laid2, grown2, room2, icache, isAddr', nonzero2⟩
      rw [icache]
      refine ⟨laid2, grown1.trans grown2, room2, ?_, nonzero2, fun isMapped => absurd isMapped mapped⟩
      simp only [addrOf, posOf, direct, indirect, ↓reduceDIte, isAddr']

end

/-! ### Writing -/

theorem Laid.store (laid : Laid x s) {addr : Nat}
    (isAddr : addr = addrOf (image s.sb s.disk).block (s.icache x).copy bn) (mapped : addr ≠ 0)
    (data : Block) :
    Laid x (s.write addr data) ∧ Extends x s (s.write addr data) ∧
      view (some x) (s.write addr data) = (view (some x) s).setBlock
        (addrOf (view (some x) s).block ((view (some x) s).inode (s.icache x).inum) bn) data ∧
      (view (some x) (s.write addr data)).own = (view (some x) s).own := by
  have isView : addrOf (view (some x) s).block ((view (some x) s).inode (s.icache x).inum) bn =
      addr := by
    rw [view_block, view_some_self, isAddr]
  have isData : s.sb.dataStart ≤ addr := by
    rw [isAddr] at mapped ⊢
    exact laid.addrOf_range mapped
  have written : image s.sb (s.write addr data).disk = (image s.sb s.disk).setBlock addr data := by
    rw [FsState.write_disk, image_update_data laid.layout isData]
  have views : view (some x) (s.write addr data) = (view (some x) s).setBlock addr data := by
    rw [view_some, FsState.write_sb, FsState.write_icache, written]
    rfl
  have own : (view (some x) (s.write addr data)).own = (view (some x) s).own := by
    rw [views, ← isView]
    exact laid.owned.own_write data laid.allocated_view (isView.trans_ne mapped)
  refine ⟨⟨laid.layout, laid.inside, laid.allocated, laid.fits, ?_⟩, ?_, isView.symm ▸ views, own⟩
  · rw [Owned, own, views]
    exact laid.owned
  · refine ⟨rfl, rfl, ?_, ?_, ⟨_, (update_eq_self x s.icache).symm⟩,
      fun key _ => congrFun own key, fun quiet => quiet.write _ _⟩
    · have before := laid.layout.bmapstart_lt_dataStart
      have first := laid.layout.one_lt_bmapstart
      exact readsb_update (by omega)
    · rw [written]
      rfl

theorem Room.store {addr : Nat} (room : Room halts x upto s) (laid : Laid x s)
    (isAddr : addr = addrOf (image s.sb s.disk).block (s.icache x).copy bn) (mapped : addr ≠ 0)
    (data : Block) : Room halts x upto (s.write addr data) := by
  obtain ⟨-, extended, views, own⟩ := laid.store isAddr mapped data
  have bit : (view (some x) (s.write addr data)).bit = (view (some x) s).bit := by
    rw [views]
    rfl
  refine room.imp (fun may t later => may t (extended.trans later)) fun enough => ?_
  have sameLacking : lacking x upto (s.write addr data) = lacking x upto s := by
    rw [lacking, lacking, own, extended.inum]
  have sameFree : freeBlocks (s.write addr data) = freeBlocks s := by
    apply Finset.filter_congr
    intro b member
    have inside : b < s.sb.size := Finset.mem_range.mp member
    have same : (image s.sb (s.write addr data).disk).bit b = (image s.sb s.disk).bit b :=
      congrFun bit b
    rw [image_bit _ inside, image_bit _ inside] at same
    rw [FsState.write_sb, same]
  rw [sameLacking, sameFree]
  exact enough

/-- What the loop of `writei` leaves after it has written `src` at `off`. -/
structure Wrote (x : Slot) (off : Nat) (src : List UInt8) (s s' : FsState) : Prop where
  laid : Laid x s'
  extended : Extends x s s'
  mapped : ∀ p, off ≤ p → p < off + src.length → Mapped x s' (p / BSIZE)
  same : (∀ p, off ≤ p → p < off + src.length → Mapped x s (p / BSIZE)) → s'.icache = s.icache
  old : ∀ j p, ((view (some x) s).inode j).type ≠ 0 →
    addrOf (view (some x) s).block ((view (some x) s).inode j) (p / BSIZE) ≠ 0 →
    (j = (s.icache x).inum → p < off ∨ off + src.length ≤ p) →
    (view (some x) s').byteAt j p = (view (some x) s).byteAt j p
  new : ∀ k, k < src.length →
    (view (some x) s').byteAt (s.icache x).inum (off + k) = src.getD k 0

theorem Wrote.nothing (laid : Laid x s) (off : Nat) : Wrote x off [] s s :=
  ⟨laid, Extends.refl x s, fun _ above below => absurd below (not_lt.mpr above), fun _ => rfl,
    fun _ _ _ _ _ => rfl, fun k inside => absurd inside (Nat.not_lt_zero k)⟩

/-- A file without holes below `off` has none below the end of what was written. -/
theorem Wrote.covers {src : List UInt8} {s' : FsState} (wrote : Wrote x off src s s')
    (laid : Laid x s) (before : ∀ bn, bn * BSIZE < off → Mapped x s bn)
    (below : bn * BSIZE < off + src.length) : Mapped x s' bn := by
  by_cases early : bn * BSIZE < off
  · exact wrote.extended.mapped laid (before bn early)
  · have mapped := wrote.mapped (bn * BSIZE) (not_lt.mp early) below
    rwa [Nat.mul_div_cancel bn (by decide)] at mapped

theorem Wrote.append (laid : Laid x s) {front rest : List UInt8} {s1 s2 : FsState}
    (first : Wrote x off front s s1) (second : Wrote x (off + front.length) rest s1 s2) :
    Wrote x off (front ++ rest) s s2 := by
  have type : ∀ j, ((view (some x) s).inode j).type ≠ 0 →
      ((view (some x) s1).inode j).type ≠ 0 := by
    intro j allocated
    rw [first.extended.inode_fields]
    exact allocated
  have sameInum := first.extended.inum
  refine ⟨second.laid, first.extended.trans second.extended, ?_, ?_, ?_, ?_⟩
  · intro p above below
    rw [List.length_append] at below
    by_cases early : p < off + front.length
    · exact second.extended.mapped first.laid (first.mapped p above early)
    · exact second.mapped p (not_lt.mp early) (by omega)
  · intro mapped
    rw [List.length_append] at mapped
    rw [second.same, first.same]
    · exact fun p above below => mapped p above (by omega)
    · exact fun p above below => first.extended.mapped laid (mapped p (by omega) (by omega))
  · intro j p allocated mapped outside
    rw [List.length_append] at outside
    rw [second.old j p (type j allocated), first.old j p allocated mapped]
    · exact fun isX => (outside isX).imp id (by omega)
    · rw [first.extended.addrOf_kept allocated mapped]
      exact mapped
    · rw [sameInum]
      exact fun isX => (outside isX).imp (by omega) (by omega)
  · intro k inside
    rw [List.length_append] at inside
    by_cases early : k < front.length
    · rw [List.getD_append _ _ _ _ early, ← first.new k early]
      apply second.old _ _ (type _ laid.allocated_view)
      · have mapped := first.mapped (off + k) (by omega) (by omega)
        rw [view_block, ← sameInum, view_some_self]
        exact mapped
      · exact fun _ => Or.inl (by omega)
    · have written := second.new (k - front.length) (by omega)
      rw [sameInum, show off + front.length + (k - front.length) = off + k by omega] at written
      rw [List.getD_append_right _ _ _ _ (not_lt.mp early)]
      exact written

theorem Wrote.chunk {addr : Nat} {run : List UInt8} {s1 : FsState} (laid1 : Laid x s1)
    (grown : Grown x s s1)
    (isAddr : addr = addrOf (image s1.sb s1.disk).block (s1.icache x).copy (off / BSIZE))
    (mapped : addr ≠ 0) (same : Mapped x s (off / BSIZE) → s1 = s) (nonempty : run ≠ [])
    (fits : off % BSIZE + run.length ≤ BSIZE) :
    Wrote x off run s (s1.write addr ((s1.disk addr).splice (off % BSIZE) run)) := by
  have positive : 0 < run.length := List.length_pos_iff.mpr nonempty
  have isData : s1.sb.dataStart ≤ addr := by
    rw [isAddr] at mapped ⊢
    exact laid1.addrOf_range mapped
  obtain ⟨laid2, extended, views, -⟩ :=
    laid1.store isAddr mapped ((s1.disk addr).splice (off % BSIZE) run)
  have inBlock : ∀ p, off ≤ p → p < off + run.length →
      p / BSIZE = off / BSIZE ∧ p % BSIZE = off % BSIZE + (p - off) := by
    intro p above below
    unfold BSIZE at fits ⊢
    omega
  have isView : addrOf (view (some x) s1).block ((view (some x) s1).inode (s1.icache x).inum)
      (off / BSIZE) = addr := by
    rw [view_block, view_some_self, isAddr]
  have byteAt : ∀ j p, ((view (some x) s1).inode j).type ≠ 0 →
      (view (some x) (s1.write addr ((s1.disk addr).splice (off % BSIZE) run))).byteAt j p =
        if j = (s1.icache x).inum ∧ p / BSIZE = off / BSIZE
        then ((s1.disk addr).splice (off % BSIZE) run).get (p % BSIZE)
        else (view (some x) s1).byteAt j p := by
    intro j p allocated
    rw [views]
    exact laid1.owned.byteAt_write _ laid1.allocated_view (isView.trans_ne mapped) allocated
  refine ⟨laid2, grown.toExtends.trans extended, ?_, ?_, ?_, ?_⟩
  · intro p above below
    rw [(inBlock p above below).1]
    exact extended.mapped laid1 (isAddr.symm.trans_ne mapped)
  · intro isMapped
    have here := isMapped off le_rfl (by omega)
    rw [FsState.write_icache, same here]
  · intro j p allocated isMapped outside
    have stays : ((view (some x) s1).inode j).type ≠ 0 := by
      rw [grown.inode_fields]
      exact allocated
    rw [byteAt j p stays, ← grown.byteAt allocated isMapped]
    split
    · rename_i here
      have apart := outside (here.1.trans grown.inum)
      rw [Bytes.get_splice_other, Image.byteAt, here.1, here.2, isView, view_block,
        image_block _ isData]
      unfold BSIZE at fits here ⊢
      omega
    · rfl
  · intro k inside
    obtain ⟨sameBlock, position⟩ := inBlock (off + k) (by omega) (by omega)
    rw [← grown.inum, byteAt _ _ laid1.allocated_view, if_pos ⟨rfl, sameBlock⟩, position,
      Nat.add_sub_cancel_left, Bytes.get_splice_same _ _ _ _ inside (by omega)]

theorem writeLoop_spec {rounds : Nat} {src : List UInt8} (laid : Laid x s)
    (enough : src.length ≤ rounds) (small : off + src.length ≤ MAXFILE * BSIZE)
    (room : Room halts x (off + src.length) s) :
    wp (writeLoop x rounds off src) (fun _ s' => Wrote x off src s s') halts s := by
  induction rounds generalizing off src s with
  | zero =>
    have none : src = [] := List.eq_nil_of_length_eq_zero (by omega)
    rw [none]
    exact Wrote.nothing laid off
  | succ rounds ih =>
    rw [writeLoop]
    split
    · rename_i empty
      rw [List.eq_nil_of_length_eq_zero empty]
      exact Wrote.nothing laid off
    · rename_i some
      have below : off % BSIZE < BSIZE := Nat.mod_lt off (by decide)
      have start : off / BSIZE * BSIZE < off + src.length := by
        have := Nat.div_mul_le_self off BSIZE
        omega
      apply (bmap_spec laid (Nat.lt_of_mul_lt_mul_right (lt_of_lt_of_le start small)) start room).bind
      intro addr s1 ⟨laid1, grown, room1, isAddr, nonzero, same⟩
      rw [wp_bind, wp_bread, wp_bind, wp_logWrite]
      generalize isPart : min src.length (BSIZE - off % BSIZE) = m
      have length : (src.take m).length = m := by
        rw [List.length_take]
        omega
      have rest : (src.drop m).length = src.length - m := List.length_drop
      have chunk : Wrote x off (src.take m) s
          (s1.write addr ((s1.disk addr).splice (off % BSIZE) (src.take m))) := by
        apply Wrote.chunk laid1 grown isAddr nonzero same
        · intro none
          rw [none, List.length_nil] at length
          omega
        · omega
      have room2 : Room halts x (off + m + (src.drop m).length)
          (s1.write addr ((s1.disk addr).splice (off % BSIZE) (src.take m))) := by
        rw [rest, show off + m + (src.length - m) = off + src.length by omega]
        exact room1.store laid1 isAddr nonzero _
      apply (ih chunk.laid (by omega) (by omega) room2).mono
      intro _ s' wrote
      rw [← List.take_append_drop m src]
      exact Wrote.append laid chunk (length.symm ▸ wrote)

/-- What `writei` leaves when its loop has run from `s` to `s₁`: the inode on the disk is
the copy, with the new size. -/
structure Sized (x : Slot) (size : Nat) (s s₁ s₂ : FsState) : Prop where
  sb : s₂.sb = s.sb
  devsw : s₂.devsw = s.devsw
  super : readsb s₂.disk = readsb s.disk
  icache : s₂.icache = update s.icache x
    { s.icache x with copy := (s₁.icache x).copy.setSize size }
  disk : image s.sb s₂.disk = (view (some x) s₁).setInode (s.icache x).inum
    (((view (some x) s₁).inode (s.icache x).inum).setSize size)
  quiet : Quiet s → Quiet s₂

theorem Wrote.writeSize_spec {src : List UInt8} {s1 : FsState} (wrote : Wrote x off src s s1)
    (current : Current x s) (mapped : ∀ bn, bn * BSIZE < (s.icache x).copy.size → Mapped x s bn)
    (start : off ≤ (s.icache x).copy.size) (small : off + src.length ≤ MAXFILE * BSIZE) :
    wp (writeSize x src.length (off + src.length)) (fun _ s2 =>
      Sized x (max (s.icache x).copy.size (off + src.length)) s s1 s2) halts s1 := by
  have extended := wrote.extended
  have size := extended.size
  have inum := extended.inum
  have laid := wrote.laid
  obtain ⟨addrs, icache⟩ := extended.icache
  simp only [writeSize, wp_bind, wp_get]
  split
  · rename_i grows
    have isMax : max (s.icache x).copy.size (off + src.length) = off + src.length := by omega
    have fits : ((s1.icache x).copy.setSize (off + src.length)).Fits := by
      refine ⟨?_, laid.fits.addrs⟩
      simp only [Dinode.setSize]
      unfold MAXFILE NDIRECT NINDIRECT BSIZE at small
      omega
    rw [wp_bind, wp_setCopy]
    change wp (iupdate x) _ _ (s1.put x
      { s1.icache x with copy := (s1.icache x).copy.setSize (off + src.length) })
    rw [wp_iupdate, FsState.put_icache, update_self]
    refine ⟨extended.sb, extended.devsw, ?_, ?_, ?_,
      fun quiet => ((extended.quiet quiet).put _ _).write _ _⟩
    · have written := FsState.readsb_writeInode (s := s1.put x
        { s1.icache x with copy := (s1.icache x).copy.setSize (off + src.length) })
        (e := (s1.icache x).copy.setSize (off + src.length)) laid.layout laid.inside
      exact written.trans extended.super
    · rw [FsState.writeInode_icache, FsState.put_icache, isMax, icache, update_self,
        update_idem]
    · have written := FsState.image_writeInode
        (s := s1.put x { s1.icache x with copy := (s1.icache x).copy.setSize (off + src.length) })
        laid.layout laid.inside fits
      rw [FsState.put_sb, extended.sb, FsState.put_disk, inum] at written
      rw [inum, written, isMax, ← inum, view_some_self, view_some, Image.setInode_setInode, inum,
        extended.sb]
  · rename_i stays
    have isMax : max (s.icache x).copy.size (off + src.length) = (s.icache x).copy.size := by omega
    have sameCopy : (s1.icache x).copy.setSize (s.icache x).copy.size = (s1.icache x).copy := by
      rw [← size]
      rfl
    -- nothing was allocated, so the inode on the disk is still up to date
    have sameCache : s1.icache = s.icache := by
      apply wrote.same
      intro p above below
      apply mapped
      have := Nat.div_mul_le_self p BSIZE
      omega
    rw [wp_pure]
    refine ⟨extended.sb, extended.devsw, extended.super, ?_, ?_, extended.quiet⟩
    · rw [isMax, sameCopy, sameCache, update_eq_self]
    · rw [isMax, ← inum, view_some_self, sameCopy, view_some, Image.setInode_setInode, extended.sb,
        sameCache, ← current.onDisk, ← extended.inodes, Image.setInode_self]

end

end Xv6.Fs
