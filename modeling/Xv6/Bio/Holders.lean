import Xv6.Bio.Cache
import Xv6.Lib.System

/-!
Contract: any number of processes that get and release buffers, under every
interleaving of the sections of `bget` and `brelse`.

`bget` counts a process before it sleeps for the lock of the buffer, and `brelse` gives
up that lock before it counts the process out. What a holder does to the flags of its
buffer (`log_write`, `bwrite` and the disk driver) is free.
-/

namespace Xv6.Bio

open Function Xv6.Lib

/-- How far a process is with a buffer: it has left the section of `bget`, it has the sleep
lock of the buffer, or it has given up the lock in `brelse`. -/
inductive Stage where
  | waiting
  | holding
  | releasing
deriving DecidableEq

structure Hold (P : Type) where
  who : P
  buf : BufId
  stage : Stage
deriving DecidableEq

/-- `holds` has one entry for each buffer that a process got from `bget` and has not yet
released. `released` says when a buffer was last released, in terms of a clock that counts
the releases; it is 0 for a buffer that never was. -/
structure State (P : Type) where
  cache : Bcache
  lock : BufId → Option P
  holds : List (Hold P)
  halted : Option Halt
  clock : Nat
  released : BufId → Nat

inductive Label (P : Type) where
  | bget (p : P) (dev blockno : Nat)
  | acquiresleep (p : P) (b : BufId)
  | setFlags (p : P) (b : BufId) (valid dirty : Bool)
  | releasesleep (p : P) (b : BufId)
  | brelse (p : P) (b : BufId)

section

variable {P : Type} [DecidableEq P]

def State.move (s : State P) (old new : Hold P) : State P := { s with holds := new :: s.holds.erase old }

/-- One step. After a panic nothing runs. -/
def holdersNext (s : State P) (label : Label P) : Option (State P) :=
  if s.halted ≠ none then none
  else
    match label with
    | .bget p dev blockno =>
      match s.cache.bget dev blockno with
      | .error halt => some { s with halted := some halt }
      | .ok (cache, b) => some { s with cache, holds := ⟨p, b, .waiting⟩ :: s.holds }
    | .acquiresleep p b =>
      if ⟨p, b, .waiting⟩ ∈ s.holds ∧ s.lock b = none then
        some { s.move ⟨p, b, .waiting⟩ ⟨p, b, .holding⟩ with
          lock := update s.lock b (some p) }
      else none
    | .setFlags p b valid dirty =>
      if ⟨p, b, .holding⟩ ∈ s.holds then
        some { s with cache := s.cache.set b { s.cache.buf b with valid, dirty } }
      else none
    | .releasesleep p b =>
      if ⟨p, b, .holding⟩ ∈ s.holds then
        some { s.move ⟨p, b, .holding⟩ ⟨p, b, .releasing⟩ with
          lock := update s.lock b none }
      else none
    | .brelse p b =>
      if ⟨p, b, .releasing⟩ ∈ s.holds then
        some { s with
          cache := s.cache.brelse b
          holds := s.holds.erase ⟨p, b, .releasing⟩
          clock := s.clock + 1
          released := update s.released b (s.clock + 1) }
      else none

def holders (P : Type) [DecidableEq P] : System (State P) (Label P) := ⟨holdersNext⟩

def booted (P : Type) : State P where
  cache := Bcache.zero.binit
  lock := fun _ => none
  holds := []
  halted := none
  clock := 0
  released := fun _ => 0

/-- How many got the buffer and have not released it. A process that gets a buffer again
while it has it waits for itself, and counts twice. -/
def State.holdersOf (s : State P) (b : BufId) : Nat := s.holds.countP fun hold => hold.buf = b

/-- Of two buffers that nobody has, the first was released later, unless the second never
was released. -/
def State.Newer (s : State P) (a b : BufId) : Prop :=
  (s.cache.buf a).refcnt = 0 → (s.cache.buf b).refcnt = 0 →
    s.released b < s.released a ∨ s.released b = 0

structure Represents (s : State P) (order : List BufId) : Prop where
  sound : s.cache.Sound order
  counts : ∀ b, (s.cache.buf b).refcnt = s.holdersOf b
  sorted : order.Pairwise s.Newer
  past : ∀ b, s.released b ≤ s.clock
  returns : s.halted ≠ some .loops

omit [DecidableEq P] in
theorem booted_represents : Represents (booted P) (List.finRange NBUF).reverse := by
  refine ⟨Bcache.binit_sound, fun _ => rfl, ?_, fun _ => le_rfl, nofun⟩
  exact List.pairwise_of_forall fun _ _ _ _ => Or.inr rfl

variable {s : State P} {order : List BufId}

theorem countP_erase {holds : List (Hold P)} {hold : Hold P} (member : hold ∈ holds) (b : BufId) :
    holds.countP (fun other => other.buf = b) =
      (holds.erase hold).countP (fun other => other.buf = b) + if hold.buf = b then 1 else 0 := by
  rw [(List.perm_cons_erase member).countP_eq, List.countP_cons]
  simp only [decide_eq_true_eq]

theorem holdersOf_move {old new : Hold P} (member : old ∈ s.holds) (same : new.buf = old.buf)
    (b : BufId) : (s.move old new).holdersOf b = s.holdersOf b := by
  simp only [State.holdersOf, State.move, countP_erase member b, List.countP_cons, same,
    decide_eq_true_eq]

namespace Represents

variable (represents : Represents s order)
include represents

theorem move {old : Hold P} (member : old ∈ s.holds) (new : Hold P) (same : new.buf = old.buf)
    (lock : BufId → Option P) : Represents { s.move old new with lock } order := by
  refine ⟨represents.sound, fun b => ?_, represents.sorted, represents.past, represents.returns⟩
  exact (represents.counts b).trans (holdersOf_move member same b).symm

omit [DecidableEq P] in
theorem setFlags (b : BufId) (valid dirty : Bool) :
    Represents { s with cache := s.cache.set b { s.cache.buf b with valid, dirty } } order := by
  have refcnt : ∀ a, ((s.cache.set b { s.cache.buf b with valid, dirty }).buf a).refcnt =
      (s.cache.buf a).refcnt := by
    intro a
    by_cases same : a = b
    · rw [same, Bcache.set_buf, update_self]
    · rw [Bcache.set_buf, update_of_ne same]
  refine ⟨represents.sound.set rfl, fun a => (refcnt a).trans (represents.counts a), ?_,
    represents.past, represents.returns⟩
  refine represents.sorted.imp fun newer first second => ?_
  exact newer ((refcnt _).symm.trans first) ((refcnt _).symm.trans second)

variable {b : BufId}

omit [DecidableEq P] in
theorem take {new : Buf} (p : P) (sound : (s.cache.set b new).Sound order)
    (refcnt : new.refcnt = (s.cache.buf b).refcnt + 1) :
    Represents { s with cache := s.cache.set b new, holds := ⟨p, b, .waiting⟩ :: s.holds } order := by
  refine ⟨sound, fun a => ?_, ?_, represents.past, represents.returns⟩
  · simp only [State.holdersOf, List.countP_cons, decide_eq_true_eq]
    have count := represents.counts a
    rw [State.holdersOf] at count
    by_cases same : b = a
    · rw [if_pos same, ← count, ← same, Bcache.set_buf, update_self, refcnt]
    · rw [if_neg same, ← count, Bcache.set_buf, update_of_ne (Ne.symm same)]
      rfl
  · have busier : ∀ a, ((s.cache.set b new).buf a).refcnt = 0 → (s.cache.buf a).refcnt = 0 := by
      intro a none
      by_cases same : a = b
      · rw [same, Bcache.set_buf, update_self, refcnt] at none
        omega
      · rw [Bcache.set_buf, update_of_ne same] at none
        exact none
    exact represents.sorted.imp fun newer first second => newer (busier _ first) (busier _ second)

omit [DecidableEq P] in
theorem bget {p : P} {dev blockno : Nat} {cache : Bcache}
    (got : s.cache.bget dev blockno = .ok (cache, b)) :
    Represents { s with cache, holds := ⟨p, b, .waiting⟩ :: s.holds } order := by
  have outcome := represents.sound.bget dev blockno
  rw [got] at outcome
  have sound := outcome.sound represents.sound
  cases outcome with
  | hit _ isKey => exact represents.take p sound rfl
  | miss _ uncached idle =>
    have free : (s.cache.buf b).refcnt = 0 := by
      simp only [Buf.idle, Bool.and_eq_true, decide_eq_true_eq] at idle
      exact idle.1
    exact represents.take p sound (by rw [free])

theorem brelse {p : P} (member : ⟨p, b, .releasing⟩ ∈ s.holds) :
    Represents { s with
      cache := s.cache.brelse b
      holds := s.holds.erase ⟨p, b, .releasing⟩
      clock := s.clock + 1
      released := update s.released b (s.clock + 1) } (s.cache.released order b) := by
  have refcnt : ∀ a, a ≠ b → ((s.cache.brelse b).buf a).refcnt = (s.cache.buf a).refcnt := by
    intro a other
    rw [Bcache.brelse_buf, update_of_ne other]
  have refcntSelf : ((s.cache.brelse b).buf b).refcnt = (s.cache.buf b).refcnt - 1 := by
    rw [Bcache.brelse_buf, update_self]
  -- the order of the other buffers stays
  have others : ∀ {x y : BufId}, x ≠ b → y ≠ b → s.Newer x y →
      ((s.cache.brelse b).buf x).refcnt = 0 → ((s.cache.brelse b).buf y).refcnt = 0 →
        update s.released b (s.clock + 1) y < update s.released b (s.clock + 1) x ∨
          update s.released b (s.clock + 1) y = 0 := by
    intro x y otherX otherY newer first second
    rw [refcnt x otherX] at first
    rw [refcnt y otherY] at second
    rw [update_of_ne otherX, update_of_ne otherY]
    exact newer first second
  refine ⟨represents.sound.brelse b, fun a => ?_, ?_, fun a => ?_, represents.returns⟩
  · have count := represents.counts a
    rw [State.holdersOf, countP_erase member a] at count
    simp only [State.holdersOf]
    by_cases same : a = b
    · rw [same] at count ⊢
      rw [if_pos rfl] at count
      rw [refcntSelf, count]
      rfl
    · rw [if_neg (Ne.symm same)] at count
      rw [refcnt a same, count]
      rfl
  · unfold Bcache.released
    split
    · refine List.pairwise_cons.mpr ⟨fun a isOther _ _ => ?_, ?_⟩
      · have other : a ≠ b := (represents.sound.ring.nodup.mem_erase_iff.mp isOther).1
        left
        simp only [update_self, update_of_ne other]
        have past := represents.past a
        omega
      · refine (represents.sorted.sublist List.erase_sublist).imp_of_mem ?_
        intro x y isX isY newer
        exact others (represents.sound.ring.nodup.mem_erase_iff.mp isX).1
          (represents.sound.ring.nodup.mem_erase_iff.mp isY).1 newer
    · rename_i busy
      refine represents.sorted.imp fun {x y} newer first second => ?_
      have notX : x ≠ b := by
        rintro rfl
        rw [refcntSelf] at first
        exact busy first
      have notY : y ≠ b := by
        rintro rfl
        rw [refcntSelf] at second
        exact busy second
      exact others notX notY newer first second
  · by_cases same : a = b
    · simp only [same, update_self, le_refl]
    · have past := represents.past a
      simp only [update_of_ne same]
      omega

theorem next {label : Label P} {s' : State P} (stepped : (holders P).next s label = some s') :
    ∃ order', Represents s' order' := by
  change holdersNext s label = some s' at stepped
  unfold holdersNext at stepped
  split at stepped
  · cases stepped
  · split at stepped
    · rename_i p dev blockno
      split at stepped
      · rename_i halt failed
        cases stepped
        refine ⟨order, represents.sound, represents.counts, represents.sorted, represents.past, ?_⟩
        have outcome := represents.sound.bget dev blockno
        rw [failed] at outcome
        cases outcome with
        | full => nofun
      · rename_i got
        cases stepped
        exact ⟨order, represents.bget got⟩
    · obtain ⟨may, rfl⟩ := of_guard stepped
      refine ⟨order, ?_⟩
      apply represents.move may.1
      rfl
    · obtain ⟨-, rfl⟩ := of_guard stepped
      exact ⟨order, represents.setFlags _ _ _⟩
    · obtain ⟨may, rfl⟩ := of_guard stepped
      refine ⟨order, ?_⟩
      apply represents.move may
      rfl
    · obtain ⟨may, rfl⟩ := of_guard stepped
      exact ⟨_, represents.brelse may⟩

theorem key_stays {label : Label P} {s' : State P} (stepped : (holders P).next s label = some s')
    (busy : (s.cache.buf b).idle = false) : (s'.cache.buf b).key = (s.cache.buf b).key := by
  change holdersNext s label = some s' at stepped
  unfold holdersNext at stepped
  split at stepped
  · cases stepped
  · split at stepped
    · rename_i p dev blockno
      split at stepped
      · cases stepped
        rfl
      · rename_i got
        cases stepped
        have outcome := represents.sound.bget dev blockno
        rw [got] at outcome
        exact outcome.key_stays busy
    · obtain ⟨-, rfl⟩ := of_guard stepped
      rfl
    · obtain ⟨-, rfl⟩ := of_guard stepped
      apply Bcache.key_set
      rfl
    · obtain ⟨-, rfl⟩ := of_guard stepped
      rfl
    · obtain ⟨-, rfl⟩ := of_guard stepped
      simp only [Bcache.brelse_buf]
      apply Bcache.key_set
      rfl

omit [DecidableEq P] in
/-- A miss recycles the buffer that was released before all others. -/
theorem recycles_oldest {dev blockno : Nat} {cache : Bcache}
    (got : s.cache.bget dev blockno = .ok (cache, b))
    (uncached : ∀ a, (s.cache.buf a).key ≠ (dev, blockno)) :
    (s.cache.buf b).idle = true ∧ ∀ a, (s.cache.buf a).idle = true →
      a = b ∨ s.released b < s.released a ∨ s.released b = 0 := by
  have outcome := represents.sound.bget dev blockno
  rw [got] at outcome
  cases outcome with
  | hit _ isKey => exact absurd isKey (uncached b)
  | miss _ _ idle before after split last =>
    refine ⟨idle, fun a isIdle => ?_⟩
    have member := represents.sound.all a
    rw [split, List.mem_append, List.mem_cons] at member
    rcases member with isBefore | isB | isAfter
    · have newer := represents.sorted
      rw [split, List.pairwise_append] at newer
      have free : ∀ c : Buf, c.idle = true → c.refcnt = 0 := by
        intro c isFree
        simp only [Buf.idle, Bool.and_eq_true, decide_eq_true_eq] at isFree
        exact isFree.1
      exact Or.inr (newer.2.2 a isBefore b List.mem_cons_self (free _ isIdle) (free _ idle))
    · exact Or.inl isB
    · rw [last a isAfter] at isIdle
      cases isIdle

end Represents

/-- After `binit`, in every run: the list has every buffer once and `prev` is the inverse
of `next`; no block has two buffers; the counts are right; a buffer in use or dirty keeps
its block; and the list has the buffers in the order of their last release, so that a miss
recycles the one that was released before all others. -/
theorem bcache_representation {labels : List (Label P)}
    (ran : (holders P).run (booted P) labels = some s) :
    ∃ order : List BufId, order.Nodup ∧ (∀ b, b ∈ order) ∧
      s.cache.links.Segment none order none ∧
      (∀ x, s.cache.links.prev (s.cache.links.next x) = x ∧
        s.cache.links.next (s.cache.links.prev x) = x) ∧
      (∀ a b, (s.cache.buf a).dev = ROOTDEV → (s.cache.buf a).key = (s.cache.buf b).key → a = b) ∧
      (∀ b, (s.cache.buf b).refcnt = s.holdersOf b) ∧
      (∀ label s', (holders P).next s label = some s' → ∀ b,
        0 < (s.cache.buf b).refcnt ∨ (s.cache.buf b).dirty = true →
          (s'.cache.buf b).key = (s.cache.buf b).key) ∧
      order.Pairwise s.Newer ∧
      (∀ dev blockno cache b, s.cache.bget dev blockno = .ok (cache, b) →
        (∀ a, (s.cache.buf a).key ≠ (dev, blockno)) → (s.cache.buf b).idle = true ∧
          ∀ a, (s.cache.buf a).idle = true →
            a = b ∨ s.released b < s.released a ∨ s.released b = 0) ∧
      s.halted ≠ some .loops := by
  obtain ⟨order, represents⟩ := System.run_preserves (fun s => ∃ order, Represents s order)
    (fun _ _ _ ⟨_, represents⟩ stepped => represents.next stepped) ⟨_, booted_represents⟩ ran
  refine ⟨order, represents.sound.ring.nodup, represents.sound.all, represents.sound.ring.segment,
    fun x => represents.sound.ring.inverse fun m _ => represents.sound.all m, ?_, represents.counts,
    ?_, represents.sorted, fun _ _ _ _ => represents.recycles_oldest, represents.returns⟩
  · intro a b isRoot same
    apply represents.sound.unique a b same
    intro unused
    have isZero : (s.cache.buf a).dev = 0 := congrArg Prod.fst unused
    rw [isRoot] at isZero
    cases isZero
  · intro label s' stepped b busy
    apply represents.key_stays stepped
    rcases busy with used | dirty
    · simp [Buf.idle, Nat.ne_of_gt used]
    · simp [Buf.idle, dirty]

end

/-- Two processes get the same block, of which one has to wait, and a third gets another
block. -/
def threeGets : List (Label (Fin 3)) :=
  [.bget 0 ROOTDEV 5, .acquiresleep 0 0, .bget 1 ROOTDEV 5, .bget 2 ROOTDEV 6, .acquiresleep 2 1,
    .releasesleep 2 1, .brelse 2 1, .releasesleep 0 0, .brelse 0 0]

/-- The first buffer is still in use, and the second one comes first. -/
theorem threeGets_represented :
    ∃ s, (holders (Fin 3)).run (booted (Fin 3)) threeGets = some s ∧
      s.cache.links.next none = some 1 ∧ (s.cache.buf 0).refcnt = 1 ∧ s.holdersOf 0 = 1 := by
  have ends : ((holders (Fin 3)).run (booted (Fin 3)) threeGets).map
      (fun s => decide (s.cache.links.next none = some 1 ∧ (s.cache.buf 0).refcnt = 1)) =
        some true := by
    decide +kernel
  obtain ⟨s, ran, final⟩ := Option.map_eq_some_iff.mp ends
  obtain ⟨first, count⟩ := of_decide_eq_true final
  obtain ⟨-, -, -, -, -, -, counts, -⟩ := bcache_representation ran
  exact ⟨s, ran, first, count, (counts 0).symm.trans count⟩

end Xv6.Bio
