import Mathlib

/-!
Contract: a lock that its parties obtain in the order in which they joined its
queue.
-/

namespace Xv6.Lib

/-- The parties that have obtained the lock and left it, the party that has it, and
the parties that wait, each in order. Nobody is in the queue twice. -/
structure FifoLock (Party : Type) where
  served : List Party
  holder : Option Party
  waiting : List Party
  nodup : (holder.toList ++ waiting).Nodup

namespace FifoLock

variable {Party : Type}

/-- The holder and those who wait. -/
def queue (lock : FifoLock Party) : List Party := lock.holder.toList ++ lock.waiting

def joined (lock : FifoLock Party) : List Party := lock.served ++ lock.queue

def obtained (lock : FifoLock Party) : List Party := lock.served ++ lock.holder.toList

theorem obtained_isPrefix_joined (lock : FifoLock Party) : lock.obtained <+: lock.joined :=
  ⟨lock.waiting, List.append_assoc lock.served lock.holder.toList lock.waiting⟩

def unused (Party : Type) : FifoLock Party := ⟨[], none, [], List.nodup_nil⟩

def join (lock : FifoLock Party) (party : Party) (fresh : party ∉ lock.queue) : FifoLock Party where
  served := lock.served
  holder := lock.holder
  waiting := lock.waiting ++ [party]
  nodup := by
    rw [← List.append_assoc]
    refine List.nodup_append'.mpr ⟨lock.nodup, List.nodup_singleton party, ?_⟩
    rw [List.disjoint_singleton]
    exact fresh

/-- The first party that waits obtains the free lock. -/
def obtain (lock : FifoLock Party) {party : Party} {rest : List Party}
    (isFree : lock.holder = none) (first : lock.waiting = party :: rest) : FifoLock Party where
  served := lock.served
  holder := some party
  waiting := rest
  nodup := by
    have nodup := lock.nodup
    rw [isFree, first] at nodup
    exact nodup

/-- The holder `party` leaves. -/
def leave (lock : FifoLock Party) (party : Party) : FifoLock Party where
  served := lock.served ++ [party]
  holder := none
  waiting := lock.waiting
  nodup := lock.nodup.of_append_right

theorem queue_join (lock : FifoLock Party) (party : Party) (fresh : party ∉ lock.queue) :
    (lock.join party fresh).queue = lock.queue ++ [party] :=
  (List.append_assoc lock.holder.toList lock.waiting [party]).symm

theorem queue_obtain (lock : FifoLock Party) {party : Party} {rest : List Party}
    (isFree : lock.holder = none) (first : lock.waiting = party :: rest) :
    (lock.obtain isFree first).queue = lock.queue := by
  simp only [queue, obtain, isFree, first]
  rfl

theorem queue_leave (lock : FifoLock Party) {party : Party} (holds : lock.holder = some party) :
    lock.queue = party :: (lock.leave party).queue := by
  simp only [queue, leave, holds]
  rfl

/-- Who is at which place after somebody joined. -/
theorem queue_join_place (lock : FifoLock Party) {party : Party} (fresh : party ∉ lock.queue)
    {index : Nat} {other : Party}
    (place : (lock.join party fresh).queue[index]? = some other) :
    other ≠ party ∧ lock.queue[index]? = some other ∨
      other = party ∧ index = lock.queue.length := by
  rw [queue_join, List.getElem?_append] at place
  split at place
  · refine Or.inl ⟨fun same => fresh ?_, place⟩
    rw [← same]
    exact List.mem_of_getElem? place
  · obtain ⟨inTail, isOther⟩ := List.getElem?_eq_some_iff.mp place
    rw [List.length_singleton] at inTail
    refine Or.inr ⟨?_, by omega⟩
    rw [← isOther, List.getElem_singleton]

inductive Step (lock : FifoLock Party) : FifoLock Party → Prop where
  | join (party : Party) (fresh : party ∉ lock.queue) : Step lock (lock.join party fresh)
  | obtain {party : Party} {rest : List Party} (isFree : lock.holder = none)
      (first : lock.waiting = party :: rest) : Step lock (lock.obtain isFree first)
  | leave {party : Party} (holds : lock.holder = some party) : Step lock (lock.leave party)

/-- The states a lock can come to. -/
def Reachable (lock : FifoLock Party) : Prop := Relation.ReflTransGen Step (unused Party) lock

theorem queue_length_le [Fintype Party] (lock : FifoLock Party) :
    lock.queue.length ≤ Fintype.card Party :=
  List.Nodup.length_le_card lock.nodup

end FifoLock

end Xv6.Lib
