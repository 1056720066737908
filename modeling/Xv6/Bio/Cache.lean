import Xv6.Param
import Xv6.Lib.Bytes
import Xv6.Lib.DoublyLinked

/-!
Contract: the buffers of `bio.c` and the list that orders them.

The link `none` is `bcache.head`. The search loops of `bget` follow the list for as many
steps as there are buffers; that they end at the head by then is part of what is proved.

Owns: `binit`, the sections of `bget` and `brelse` under `bcache.lock`, and what these
find and change in a sound cache.
-/

namespace Xv6.Bio

open Function Xv6.Lib

abbrev Block := Bytes BSIZE

instance : NeZero NBUF := ⟨by decide⟩

abbrev BufId := Fin NBUF

/-- `struct buf`, without its sleep lock and its links. The flags `B_VALID` and `B_DIRTY`
are two fields. There are fewer processes than a `uint` can count. -/
structure Buf where
  valid : Bool
  dirty : Bool
  dev : Nat
  blockno : Nat
  refcnt : Nat
  data : Block

/-- The block that a buffer is for. -/
def Buf.key (b : Buf) : Nat × Nat := (b.dev, b.blockno)

def Buf.idle (b : Buf) : Bool := b.refcnt = 0 && !b.dirty

structure Bcache where
  buf : BufId → Buf
  links : Links BufId

/-- `noBuffers` is the panic of `bget`; `loops` is a search that does not come back to
the head. -/
inductive Halt where
  | noBuffers
  | loops
deriving DecidableEq

namespace Bcache

def set (c : Bcache) (b : BufId) (new : Buf) : Bcache := { c with buf := update c.buf b new }

/-- The buffers as the kernel finds them at boot: all bytes are zero. -/
def zero : Bcache where
  buf := fun _ => ⟨false, false, 0, 0, 0, Bytes.zero⟩
  links := ⟨fun _ => none, fun _ => none⟩

def binit (c : Bcache) : Bcache :=
  { c with links := (List.finRange NBUF).foldl Links.insert c.links.reset }

def bget (c : Bcache) (dev blockno : Nat) : Except Halt (Bcache × BufId) :=
  match Links.search c.links.next (fun b => (c.buf b).dev = dev && (c.buf b).blockno = blockno) NBUF
      (c.links.next none) with
  | none => .error .loops
  | some (some b) => .ok (c.set b { c.buf b with refcnt := (c.buf b).refcnt + 1 }, b)
  | some none =>
    match Links.search c.links.prev (fun b => (c.buf b).idle) NBUF (c.links.prev none) with
    | none => .error .loops
    | some none => .error .noBuffers
    | some (some b) =>
      .ok (c.set b ⟨false, false, dev, blockno, 1, (c.buf b).data⟩, b)

def brelse (c : Bcache) (b : BufId) : Bcache :=
  let c := c.set b { c.buf b with refcnt := (c.buf b).refcnt - 1 }
  if (c.buf b).refcnt = 0 then { c with links := (c.links.unlink b).insert b } else c

/-- The list has every buffer once, and no block has two buffers. The key of all zeros is
that of buffers which were never used. -/
structure Sound (c : Bcache) (order : List BufId) : Prop where
  ring : c.links.Ring order
  all : ∀ b, b ∈ order
  unique : ∀ a b, (c.buf a).key = (c.buf b).key → (c.buf a).key ≠ (0, 0) → a = b

variable {c : Bcache} {order : List BufId}

theorem Sound.length (sound : c.Sound order) : order.length = NBUF := by
  have all : order.toFinset = Finset.univ := Finset.eq_univ_of_forall fun b =>
    List.mem_toFinset.mpr (sound.all b)
  rw [← List.toFinset_card_of_nodup sound.ring.nodup, all, Finset.card_univ, Fintype.card_fin]

private theorem foldl_insert_ring {links : Links BufId} {nodes new : List BufId}
    (ring : links.Ring nodes) (nodup : new.Nodup) (fresh : ∀ b ∈ new, b ∉ nodes) :
    (new.foldl Links.insert links).Ring (new.reverse ++ nodes) := by
  induction new generalizing links nodes with
  | nil => exact ring
  | cons b rest ih =>
    obtain ⟨unlike, nodup⟩ := List.nodup_cons.mp nodup
    rw [List.foldl_cons, List.reverse_cons, List.append_assoc, List.singleton_append]
    apply ih (ring.insert (fresh b List.mem_cons_self)) nodup
    intro other member isOld
    rcases List.mem_cons.mp isOld with rfl | isOld
    · exact unlike member
    · exact fresh other (List.mem_cons_of_mem b member) isOld

theorem binit_sound : zero.binit.Sound (List.finRange NBUF).reverse := by
  refine ⟨?_, fun b => List.mem_reverse.mpr (List.mem_finRange b), fun a b _ used => ?_⟩
  · have ring := foldl_insert_ring (Links.reset_ring zero.links) (List.nodup_finRange NBUF)
      fun _ _ => List.not_mem_nil
    rw [List.append_nil] at ring
    exact ring
  · exact absurd rfl used

inductive Got (c : Bcache) (order : List BufId) (dev blockno : Nat) :
    Except Halt (Bcache × BufId) → Prop where
  | hit (b : BufId) (isKey : (c.buf b).key = (dev, blockno)) :
      Got c order dev blockno (.ok (c.set b { c.buf b with refcnt := (c.buf b).refcnt + 1 }, b))
  | miss (b : BufId) (uncached : ∀ a, (c.buf a).key ≠ (dev, blockno))
      (idle : (c.buf b).idle = true) (before after : List BufId) (split : order = before ++ b :: after)
      (last : ∀ a ∈ after, (c.buf a).idle = false) :
      Got c order dev blockno (.ok (c.set b ⟨false, false, dev, blockno, 1, (c.buf b).data⟩, b))
  | full (uncached : ∀ a, (c.buf a).key ≠ (dev, blockno)) (busy : ∀ a, (c.buf a).idle = false) :
      Got c order dev blockno (.error .noBuffers)

theorem Sound.bget (sound : c.Sound order) (dev blockno : Nat) :
    Got c order dev blockno (c.bget dev blockno) := by
  have forward := sound.ring.segment.search_next
    fun b => (c.buf b).dev = dev && (c.buf b).blockno = blockno
  have backward := sound.ring.segment.search_prev fun b => (c.buf b).idle
  rw [sound.length] at forward backward
  unfold Bcache.bget
  rw [forward]
  cases found : order.find? fun b => (c.buf b).dev = dev && (c.buf b).blockno = blockno with
  | some b =>
    have isKey := List.find?_some found
    simp only [Bool.and_eq_true, decide_eq_true_eq] at isKey
    exact .hit b (Prod.ext isKey.1 isKey.2)
  | none =>
    have uncached : ∀ a, (c.buf a).key ≠ (dev, blockno) := by
      intro a isKey
      have other := List.find?_eq_none.mp found a (sound.all a)
      simp only [Bool.and_eq_true, decide_eq_true_eq] at other
      exact other ⟨congrArg Prod.fst isKey, congrArg Prod.snd isKey⟩
    simp only
    rw [backward]
    cases oldest : order.reverse.find? fun b => (c.buf b).idle with
    | some b =>
      obtain ⟨idle, after, before, split, last⟩ := List.find?_eq_some_iff_append.mp oldest
      refine .miss b uncached idle before.reverse after.reverse ?_ ?_
      · have reversed := congrArg List.reverse split
        rw [List.reverse_reverse, List.reverse_append, List.reverse_cons] at reversed
        rw [reversed, List.append_assoc, List.singleton_append]
      · intro a member
        simpa using last a (List.mem_reverse.mp member)
    | none =>
      refine .full uncached fun a => ?_
      simpa using List.find?_eq_none.mp oldest a (List.mem_reverse.mpr (sound.all a))

theorem set_buf (c : Bcache) (b : BufId) (new : Buf) : (c.set b new).buf = update c.buf b new := rfl

variable {b : BufId}

theorem key_set {new : Buf} (key : new.key = (c.buf b).key) (a : BufId) :
    (update c.buf b new a).key = (c.buf a).key := by
  by_cases same : a = b
  · rw [same, update_self, key]
  · rw [update_of_ne same]

/-- Flags, counts and contents of buffers do not matter. -/
theorem Sound.congr {c' : Bcache} (sound : c.Sound order) (links : c'.links = c.links)
    (key : ∀ b, (c'.buf b).key = (c.buf b).key) : c'.Sound order := by
  refine ⟨links ▸ sound.ring, sound.all, fun a b same used => ?_⟩
  rw [key a] at same used
  rw [key b] at same
  exact sound.unique a b same used

theorem Sound.set {new : Buf} (sound : c.Sound order) (key : new.key = (c.buf b).key) :
    (c.set b new).Sound order :=
  sound.congr rfl fun a => key_set key a

theorem Sound.recycle {new : Buf} (sound : c.Sound order) (uncached : ∀ a, (c.buf a).key ≠ new.key) :
    (c.set b new).Sound order := by
  refine ⟨sound.ring, sound.all, fun a a' same used => ?_⟩
  by_cases isNew : a = b
  · by_cases isNew' : a' = b
    · rw [isNew, isNew']
    · rw [isNew, set_buf, update_self, update_of_ne isNew'] at same
      exact absurd same.symm (uncached a')
  · rw [set_buf, update_of_ne isNew] at same used
    by_cases isNew' : a' = b
    · rw [isNew', update_self] at same
      exact absurd same (uncached a)
    · rw [update_of_ne isNew'] at same
      exact sound.unique a a' same used

theorem brelse_buf (c : Bcache) (b : BufId) :
    (c.brelse b).buf =
      update c.buf b { c.buf b with refcnt := (c.buf b).refcnt - 1 } := by
  unfold brelse
  simp only
  split <;> rfl

def released (c : Bcache) (order : List BufId) (b : BufId) : List BufId :=
  if (c.buf b).refcnt - 1 = 0 then b :: order.erase b else order

theorem Sound.brelse (sound : c.Sound order) (b : BufId) :
    (c.brelse b).Sound (c.released order b) := by
  have counted : (c.set b { c.buf b with refcnt := (c.buf b).refcnt - 1 }).Sound order := sound.set rfl
  have count : ((c.set b { c.buf b with refcnt := (c.buf b).refcnt - 1 }).buf b).refcnt =
      (c.buf b).refcnt - 1 := by
    rw [set_buf, update_self]
  unfold Bcache.brelse released
  simp only [count]
  split
  · refine ⟨?_, fun a => ?_, counted.unique⟩
    · apply (counted.ring.unlink (counted.all b)).insert
      rw [sound.ring.nodup.mem_erase_iff]
      exact fun both => both.1 rfl
    · by_cases same : a = b
      · rw [same]
        exact List.mem_cons_self
      · exact List.mem_cons_of_mem b ((List.mem_erase_of_ne same).mpr (sound.all a))
  · exact counted

/-- A section of `bget` leaves buffers in use for their blocks. -/
theorem Got.sound {dev blockno : Nat} {c' : Bcache} (sound : c.Sound order)
    (got : Got c order dev blockno (.ok (c', b))) : c'.Sound order := by
  cases got with
  | hit _ isKey => exact sound.set rfl
  | miss _ uncached => exact sound.recycle uncached

theorem Got.key_stays {dev blockno : Nat} {c' : Bcache} {a : BufId}
    (got : Got c order dev blockno (.ok (c', b))) (busy : (c.buf a).idle = false) :
    (c'.buf a).key = (c.buf a).key := by
  cases got with
  | hit _ isKey =>
    apply key_set
    rfl
  | miss _ _ idle =>
    have other : a ≠ b := by
      rintro rfl
      rw [idle] at busy
      cases busy
    rw [set_buf, update_of_ne other]

end Bcache

end Xv6.Bio
