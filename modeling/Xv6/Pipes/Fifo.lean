import Xv6.Pipes.Model

/-!
Contract: a pipe loses, reorders and invents no byte, whatever processes write to it and
read from it and however often its counters wrap.

The ring carries all bytes ever stored, of which the readers have got the first ones
(`Ring.Carries`). Every byte stored is stored for a call, and those of one call are the
bytes it was to write, in order.
-/

namespace Xv6.Pipes

open Function Xv6.Lib

section

variable {p : Pipe} {written : List UInt8} {read : Nat}

private theorem size_divides : PIPESIZE ∣ UINT := by decide

private theorem size_small : PIPESIZE < UINT := by decide

/-- The loop of `pipewrite` stores bytes until none are left or the pipe is full. -/
theorem pipewriteLoop_spec (carries : p.toRing.Carries UINT written read) (todo : List UInt8) :
    ∃ stored, todo = stored ++ (pipewriteLoop p todo).2 ∧
      (pipewriteLoop p todo).1.toRing.Carries UINT (written ++ stored) read := by
  induction todo generalizing p written with
  | nil => exact ⟨[], rfl, by rw [List.append_nil]; exact carries⟩
  | cons c rest ih =>
    rw [pipewriteLoop]
    split
    · exact ⟨[], rfl, by rw [List.append_nil]; exact carries⟩
    · rename_i notFull
      have room : written.length < read + PIPESIZE := by
        have upper := carries.upper
        have notEqual : written.length ≠ read + PIPESIZE :=
          fun same => notFull ((carries.full_iff size_small).mpr same)
        omega
      have next : (p.put c).toRing.Carries UINT (written ++ [c]) read :=
        carries.push size_divides room c
      obtain ⟨stored, isRest, carries'⟩ := ih next
      refine ⟨c :: stored, by rw [List.cons_append, ← isRest], ?_⟩
      rw [List.append_assoc, List.singleton_append] at carries'
      exact carries'

theorem pipereadLoop_spec (carries : p.toRing.Carries UINT written read) (n : Nat) :
    (pipereadLoop p n).1.toRing.Carries UINT written (read + (pipereadLoop p n).2.length) ∧
      (pipereadLoop p n).2 <+: written.drop read := by
  induction n generalizing p read with
  | zero => exact ⟨carries, List.nil_prefix⟩
  | succ n ih =>
    rw [pipereadLoop]
    split
    · exact ⟨carries, List.nil_prefix⟩
    · rename_i notEmpty
      have unread : read < written.length := by
        have lower := carries.lower
        have notEqual : read ≠ written.length :=
          fun same => notEmpty ((carries.empty_iff size_small).mpr same)
        omega
      have next : p.take.toRing.Carries UINT written (read + 1) := carries.pop unread
      obtain ⟨carries', isPrefix⟩ := ih next
      obtain ⟨inside, isFront⟩ :=
        List.getElem?_eq_some_iff.mp (carries.front size_divides unread)
      refine ⟨?_, ?_⟩
      · rw [List.length_cons, Nat.add_comm _ 1, ← Nat.add_assoc]
        exact carries'
      · rw [List.drop_eq_getElem_cons inside, isFront]
        exact (List.prefix_cons_inj _).mpr isPrefix

/-- A read that gets nothing found the pipe empty, and left it so. -/
theorem pipereadLoop_nil {n : Nat} (positive : 0 < n) (none : (pipereadLoop p n).2 = []) :
    (pipereadLoop p n).1 = p ∧ p.nread = p.nwrite := by
  cases n with
  | zero => omega
  | succ n =>
    rw [pipereadLoop] at none ⊢
    split at none
    · rename_i isEmpty
      rw [if_pos isEmpty]
      exact ⟨rfl, isEmpty⟩
    · cases none

end

/-- The bytes stored for the call `id`. -/
def storedBy (id : Nat) (accepted : List (Nat × UInt8)) : List UInt8 :=
  (accepted.filter fun entry => entry.1 = id).map Prod.snd

theorem storedBy_own (id : Nat) (accepted : List (Nat × UInt8)) (bytes : List UInt8) :
    storedBy id (accepted ++ bytes.map fun c => (id, c)) = storedBy id accepted ++ bytes := by
  have own : (bytes.map fun c => (id, c)).filter (fun entry => entry.1 = id) =
      bytes.map fun c => (id, c) := by
    apply List.filter_eq_self.mpr
    intro entry member
    obtain ⟨c, -, rfl⟩ := List.mem_map.mp member
    exact decide_eq_true rfl
  rw [storedBy, storedBy, List.filter_append, List.map_append, own, List.map_map]
  congr 1
  exact List.map_id bytes

theorem storedBy_other {id other : Nat} (different : other ≠ id) (accepted : List (Nat × UInt8))
    (bytes : List UInt8) :
    storedBy other (accepted ++ bytes.map fun c => (id, c)) = storedBy other accepted := by
  have none : (bytes.map fun c => (id, c)).filter (fun entry => entry.1 = other) = [] := by
    apply List.filter_eq_nil_iff.mpr
    intro entry member
    obtain ⟨c, -, rfl⟩ := List.mem_map.mp member
    simpa using Ne.symm different
  rw [storedBy, storedBy, List.filter_append, none, List.append_nil]

theorem storedBy_fresh {id : Nat} {accepted : List (Nat × UInt8)}
    (older : ∀ entry ∈ accepted, entry.1 < id) : storedBy id accepted = [] := by
  have none : accepted.filter (fun entry => entry.1 = id) = [] := by
    apply List.filter_eq_nil_iff.mpr
    intro entry member
    have below := older entry member
    simp only [decide_eq_true_eq]
    omega
  rw [storedBy, none, List.map_nil]

variable {Process : Type} [DecidableEq Process]

structure Fifo (s : Shared) (control : Process → Control) : Prop where
  carries : s.pipe.toRing.Carries UINT (s.accepted.map Prod.snd) s.delivered.length
  delivered : s.delivered <+: s.accepted.map Prod.snd
  older : ∀ entry ∈ s.accepted, entry.1 < s.calls
  writing : ∀ p id bytes todo, (control p).call = .writing id bytes todo →
    id < s.calls ∧ storedBy id s.accepted ++ todo = bytes
  distinct : ∀ p q id bytes todo bytes' todo', (control p).call = .writing id bytes todo →
    (control q).call = .writing id bytes' todo' → p = q
  wrote : ∀ id bytes, Return.wrote id bytes ∈ s.returns →
    id < s.calls ∧ storedBy id s.accepted = bytes ∧
      ∀ p bytes' todo, (control p).call ≠ .writing id bytes' todo
  empty : ∀ n bytes pipe, Return.read n bytes pipe ∈ s.returns → 0 < n → bytes = [] →
    pipe.nread = pipe.nwrite ∧ pipe.writeopen = false

def Call.NotWriting (call : Call) : Prop := ∀ id bytes todo, call ≠ .writing id bytes todo

@[simp] theorem delivered_returned (s : Shared) (result : Return) :
    (s.returned result).delivered = s.delivered ++ result.bytes := by
  simp [Shared.delivered, Shared.returned]

namespace Fifo

variable {s : Shared} {control : Process → Control} {p : Process}

omit [DecidableEq Process] in
/-- The pipe changes but for its ring, and so does `freed`. -/
theorem reopen (fifo : Fifo s control) {pipe : Pipe} (sameRing : pipe.toRing = s.pipe.toRing)
    (freed : Bool) : Fifo { s with pipe, freed } control :=
  { fifo with carries := sameRing.symm ▸ fifo.carries }

theorem go (fifo : Fifo s control) {c : Control} (notWriting : c.call.NotWriting) :
    Fifo s (update control p c) := by
  have before : ∀ q id bytes todo, (update control p c q).call = .writing id bytes todo →
      (control q).call = .writing id bytes todo := by
    intro q id bytes todo isWriting
    by_cases same : q = p
    · rw [same, update_self] at isWriting
      exact absurd isWriting (notWriting id bytes todo)
    · rw [update_of_ne same] at isWriting
      exact isWriting
  refine { fifo with writing := ?_, distinct := ?_, wrote := ?_ }
  · intro q id bytes todo isWriting
    exact fifo.writing q id bytes todo (before q id bytes todo isWriting)
  · intro q q' id bytes todo bytes' todo' first second
    exact fifo.distinct q q' id bytes todo bytes' todo' (before _ _ _ _ first) (before _ _ _ _ second)
  · intro id bytes member
    obtain ⟨older, stored, notNow⟩ := fifo.wrote id bytes member
    exact ⟨older, stored, fun q bytes' todo isWriting => notNow q bytes' todo (before _ _ _ _ isWriting)⟩

omit [DecidableEq Process] in
theorem returned (fifo : Fifo s control) {result : Return} (noBytes : result.bytes = [])
    (wrote : ∀ id bytes, result = .wrote id bytes → id < s.calls ∧
      storedBy id s.accepted = bytes ∧
        ∀ q bytes' todo, (control q).call ≠ .writing id bytes' todo)
    (notRead : ∀ n bytes pipe, result ≠ .read n bytes pipe) :
    Fifo (s.returned result) control := by
  have same : (s.returned result).delivered = s.delivered := by
    rw [delivered_returned, noBytes, List.append_nil]
  refine { fifo with carries := ?_, delivered := ?_, wrote := ?_, empty := ?_ }
  · rw [same]
    exact fifo.carries
  · rw [same]
    exact fifo.delivered
  · intro id bytes member
    rcases List.mem_append.mp member with older | isNew
    · exact fifo.wrote id bytes older
    · exact wrote id bytes (List.mem_singleton.mp isNew).symm
  · intro n bytes pipe member
    rcases List.mem_append.mp member with older | isNew
    · exact fifo.empty n bytes pipe older
    · exact absurd (List.mem_singleton.mp isNew).symm (notRead n bytes pipe)

/-- The loop of `pipewrite` runs. -/
theorem store (fifo : Fifo s control) {id : Nat} {bytes todo : List UInt8} {c : Control}
    (isWriting : (control p).call = .writing id bytes todo)
    (stays : c.call = .writing id bytes (pipewriteLoop s.pipe todo).2) :
    Fifo (s.stored id todo) (update control p c) := by
  obtain ⟨stored, isTodo, carries⟩ := pipewriteLoop_spec fifo.carries todo
  have taken : todo.take (todo.length - (pipewriteLoop s.pipe todo).2.length) = stored := by
    have long := congrArg List.length isTodo
    rw [List.length_append] at long
    have isStored : todo.length - (pipewriteLoop s.pipe todo).2.length = stored.length := by omega
    rw [isStored]
    conv_lhs => rw [isTodo]
    exact List.take_left
  have accepted : (s.stored id todo).accepted =
      s.accepted ++ stored.map fun c => (id, c) := by
    simp only [Shared.stored, taken]
  have bytesOf : (s.stored id todo).accepted.map Prod.snd =
      s.accepted.map Prod.snd ++ stored := by
    rw [accepted, List.map_append, List.map_map]
    congr 1
    exact List.map_id stored
  obtain ⟨isCall, soFar⟩ := fifo.writing p id bytes todo isWriting
  -- who writes now wrote before
  have before : ∀ q id' bytes' todo', (update control p c q).call = .writing id' bytes' todo' →
      ∃ todo'', (control q).call = .writing id' bytes' todo'' ∧ (q = p ∨ todo'' = todo') := by
    intro q id' bytes' todo' writes
    by_cases same : q = p
    · rw [same, update_self, stays] at writes
      cases writes
      exact ⟨todo, same ▸ isWriting, Or.inl same⟩
    · rw [update_of_ne same] at writes
      exact ⟨todo', writes, Or.inr rfl⟩
  constructor
  · rw [bytesOf]
    exact carries
  · rw [bytesOf]
    exact fifo.delivered.trans (List.prefix_append _ _)
  · intro entry member
    rw [accepted] at member
    rcases List.mem_append.mp member with older | isNew
    · exact fifo.older entry older
    · obtain ⟨byte, -, rfl⟩ := List.mem_map.mp isNew
      exact isCall
  · intro q id' bytes' todo' writes
    rw [accepted]
    by_cases same : q = p
    · rw [same, update_self, stays] at writes
      cases writes
      refine ⟨isCall, ?_⟩
      rw [storedBy_own, List.append_assoc, ← isTodo]
      exact soFar
    · rw [update_of_ne same] at writes
      have other : id' ≠ id := by
        rintro rfl
        exact same (fifo.distinct q p id' _ _ _ _ writes isWriting)
      rw [storedBy_other other]
      exact fifo.writing q id' bytes' todo' writes
  · intro q q' id' first todo' second todo'' isFirst isSecond
    obtain ⟨_, wasFirst, -⟩ := before q id' first todo' isFirst
    obtain ⟨_, wasSecond, -⟩ := before q' id' second todo'' isSecond
    exact fifo.distinct q q' id' _ _ _ _ wasFirst wasSecond
  · intro id' bytes' member
    obtain ⟨older, whole, notNow⟩ := fifo.wrote id' bytes' member
    have other : id' ≠ id := by
      rintro rfl
      exact notNow p bytes todo isWriting
    refine ⟨older, ?_, ?_⟩
    · rw [accepted, storedBy_other other]
      exact whole
    · intro q first todo' writes
      obtain ⟨todo'', wrote, -⟩ := before q id' first todo' writes
      exact notNow q first todo'' wrote
  · exact fifo.empty

theorem pipewrite (fifo : Fifo s control) {id : Nat} {bytes todo : List UInt8}
    (isWriting : (control p).call = .writing id bytes todo) :
    Fifo (pipewrite s (control p) id bytes todo).shared
      (update control p (pipewrite s (control p) id bytes todo).control) := by
  have stored : ∀ c : Control, c.call = .writing id bytes (pipewriteLoop s.pipe todo).2 →
      Fifo (s.stored id todo) (update control p c) :=
    fun _ stays => fifo.store isWriting stays
  have running := stored ((control p).to (.writing id bytes _)) rfl
  have idle : ((control p).to .idle).call.NotWriting := fun _ _ _ => Call.noConfusion
  have done : Fifo (s.stored id todo) (update control p ((control p).to .idle)) := by
    have gone := running.go (p := p) idle
    rw [update_idem] at gone
    exact gone
  unfold Pipes.pipewrite
  split
  · rename_i finished
    refine done.returned rfl ?_ fun _ _ _ => Return.noConfusion
    intro id' bytes' isReturn
    cases isReturn
    obtain ⟨isCall, whole⟩ := running.writing p id bytes (pipewriteLoop s.pipe todo).2
      (by rw [update_self]; rfl)
    rw [finished, List.append_nil] at whole
    refine ⟨isCall, whole, ?_⟩
    intro q bytes' todo' writes
    by_cases same : q = p
    · rw [same, update_self] at writes
      cases writes
    · rw [update_of_ne same] at writes
      exact same (fifo.distinct q p id _ _ _ _ writes isWriting)
  · split
    · refine done.returned rfl ?_ fun _ _ _ => Return.noConfusion
      exact fun _ _ => Return.noConfusion
    · exact running

theorem piperead (fifo : Fifo s control) {n : Nat} (isReading : (control p).call = .reading n) :
    Fifo (piperead s (control p) n).shared
      (update control p (piperead s (control p) n).control) := by
  have idle : ((control p).to .idle).call.NotWriting := fun _ _ _ => Call.noConfusion
  unfold Pipes.piperead
  split
  · split
    · refine (fifo.go idle).returned rfl ?_ fun _ _ _ => Return.noConfusion
      exact fun _ _ => Return.noConfusion
    · apply fifo.go
      rw [isReading]
      exact fun _ _ _ => Call.noConfusion
  · rename_i mayRead
    obtain ⟨carries, isNext⟩ := pipereadLoop_spec fifo.carries n
    have fromHere := (fifo.go (p := p) idle)
    have soFar := List.prefix_iff_eq_append.mp fifo.delivered
    refine { fromHere with carries := ?_, delivered := ?_, wrote := ?_, empty := ?_ }
    · simp only [delivered_returned, Return.bytes, List.length_append]
      exact carries
    · simp only [delivered_returned, Return.bytes]
      change _ <+: s.accepted.map Prod.snd
      rw [← soFar]
      exact (List.prefix_append_right_inj _).mpr isNext
    · intro id bytes member
      rcases List.mem_append.mp member with older | isNew
      · exact fromHere.wrote id bytes older
      · exact absurd (List.mem_singleton.mp isNew) Return.noConfusion
    · intro m bytes pipe member positive none
      rcases List.mem_append.mp member with older | isNew
      · exact fifo.empty m bytes pipe older positive none
      · cases List.mem_singleton.mp isNew
        obtain ⟨same, isEmpty⟩ := pipereadLoop_nil positive none
        rw [same]
        refine ⟨isEmpty, ?_⟩
        rw [← Bool.not_eq_true]
        exact fun isOpen => mayRead ⟨isEmpty, isOpen⟩

theorem pipeclose (fifo : Fifo s control) (writable : Bool) :
    Fifo (pipeclose s (control p) writable).shared
      (update control p (pipeclose s (control p) writable).control) := by
  have sameRing : (s.pipe.close writable).toRing = s.pipe.toRing := by
    cases writable <;> rfl
  have idle : ((control p).to .idle).call.NotWriting := fun _ _ _ => Call.noConfusion
  exact (fifo.reopen sameRing _).go idle

theorem start (fifo : Fifo s control) {move : Move} {after : Shared × Control}
    (started : start move s (control p) = some after) :
    Fifo after.1 (update control p after.2) := by
  unfold Pipes.start at started
  split at started
  · rename_i bytes isIdle
    cases started
    have fresh := storedBy_fresh fifo.older
    constructor
    · exact fifo.carries
    · exact fifo.delivered
    · exact fun entry member => Nat.lt_succ_of_lt (fifo.older entry member)
    · intro q id bytes' todo writes
      by_cases same : q = p
      · rw [same, update_self] at writes
        cases writes
        refine ⟨Nat.lt_succ_self _, ?_⟩
        rw [fresh, List.nil_append]
      · rw [update_of_ne same] at writes
        obtain ⟨isCall, whole⟩ := fifo.writing q id bytes' todo writes
        exact ⟨Nat.lt_succ_of_lt isCall, whole⟩
    · intro q q' id first todo second todo' isFirst isSecond
      by_cases same : q = p
      · by_cases same' : q' = p
        · rw [same, same']
        · rw [same, update_self] at isFirst
          rw [update_of_ne same'] at isSecond
          cases isFirst
          exact absurd (fifo.writing q' _ _ _ isSecond).1 (lt_irrefl _)
      · rw [update_of_ne same] at isFirst
        by_cases same' : q' = p
        · rw [same', update_self] at isSecond
          cases isSecond
          exact absurd (fifo.writing q _ _ _ isFirst).1 (lt_irrefl _)
        · rw [update_of_ne same'] at isSecond
          exact fifo.distinct q q' id _ _ _ _ isFirst isSecond
    · intro id bytes' member
      obtain ⟨older, whole, notNow⟩ := fifo.wrote id bytes' member
      refine ⟨Nat.lt_succ_of_lt older, whole, ?_⟩
      intro q first todo writes
      by_cases same : q = p
      · rw [same, update_self] at writes
        cases writes
        exact absurd older (lt_irrefl _)
      · rw [update_of_ne same] at writes
        exact notNow q first todo writes
    · exact fifo.empty
  · cases started
    exact fifo.go fun _ _ _ => Call.noConfusion
  · cases started
    exact fifo.go fun _ _ _ => Call.noConfusion
  · cases started
    -- only the flag changes
    have same : ∀ q, (update control p { control p with killed := true } q).call =
        (control q).call := by
      intro q
      by_cases isP : q = p
      · rw [isP, update_self]
      · rw [update_of_ne isP]
    refine { fifo with writing := ?_, distinct := ?_, wrote := ?_ }
    · intro q id bytes todo writes
      exact fifo.writing q id bytes todo ((same q).symm.trans writes)
    · intro q q' id first todo second todo' isFirst isSecond
      exact fifo.distinct q q' id _ _ _ _ ((same q).symm.trans isFirst) ((same q').symm.trans isSecond)
    · intro id bytes member
      obtain ⟨older, whole, notNow⟩ := fifo.wrote id bytes member
      exact ⟨older, whole, fun q first todo writes => notNow q first todo ((same q).symm.trans writes)⟩
  · cases started

end Fifo

theorem Fifo.step (s : Joint Process Shared Control) (label : AtomicLabel Process Move)
    (s' : Joint Process Shared Control) (fifo : Fifo s.shared s.control)
    (stepped : (atomic (program Process)).next s label = some s') :
    Fifo s'.shared s'.control := by
  change atomicNext (program Process) s label = some s' at stepped
  cases label with
  | enter p =>
    obtain ⟨stretch, entered, rfl⟩ := Option.map_eq_some_iff.mp stepped
    change enter s.shared (s.control p) = some stretch at entered
    obtain ⟨-, entered⟩ := Option.ite_none_left_eq_some.mp entered
    split at entered
    · cases entered
    · rename_i isWriting
      cases entered
      exact fifo.pipewrite isWriting
    · rename_i isReading
      cases entered
      exact fifo.piperead isReading
    · rename_i writable _
      cases entered
      exact fifo.pipeclose writable
  | free p move =>
    obtain ⟨after, started, rfl⟩ := Option.map_eq_some_iff.mp stepped
    exact fifo.start started

omit [DecidableEq Process] in
theorem opened_fifo (data : Fin PIPESIZE → UInt8) :
    Fifo (opened data) fun _ : Process => awake where
  carries := ⟨rfl, rfl, le_rfl, Nat.zero_le _, fun _ _ _ isItem => by cases isItem⟩
  delivered := List.nil_prefix
  older _ member := absurd member List.not_mem_nil
  writing _ _ _ _ writes := by cases writes
  distinct _ _ _ _ _ _ _ writes := by cases writes
  wrote _ _ member := absurd member List.not_mem_nil
  empty _ _ _ member := absurd member List.not_mem_nil

/-- The bytes handed out are the first of those accepted, and the others are those in the
ring; a `pipewrite` that returned `n` stored its bytes in order; a `piperead` that returned
0 left an empty pipe whose write end is closed. -/
theorem pipe_fifo {data : Fin PIPESIZE → UInt8} {labels : List (AtomicLabel Process Move)}
    {s : Joint Process Shared Control}
    (ran : (atomic (program Process)).run ⟨opened data, fun _ => awake⟩ labels = some s) :
    s.shared.delivered <+: s.shared.accepted.map Prod.snd ∧
    s.shared.accepted.map Prod.snd = s.shared.delivered ++ s.shared.pipe.contents UINT ∧
    s.shared.pipe.count UINT ≤ PIPESIZE ∧
    (∀ id bytes, Return.wrote id bytes ∈ s.shared.returns →
      storedBy id s.shared.accepted = bytes) ∧
    ∀ n bytes pipe, Return.read n bytes pipe ∈ s.shared.returns → 0 < n → bytes = [] →
      pipe.nread = pipe.nwrite ∧ pipe.writeopen = false := by
  have fifo := System.run_preserves
    (fun s : Joint Process Shared Control => Fifo s.shared s.control) Fifo.step (opened_fifo data) ran
  have upper := fifo.carries.upper
  refine ⟨fifo.delivered, ?_, ?_, fun id bytes member => (fifo.wrote id bytes member).2.1, fifo.empty⟩
  · rw [fifo.carries.contents_eq size_divides size_small]
    exact (List.prefix_iff_eq_append.mp fifo.delivered).symm
  · rw [fifo.carries.count_eq size_small]
    omega

/-- Two writers and a reader: the second write finds room, the read takes part of both. -/
theorem pipe_fifo_twoWriters :
    ∃ s : Joint (Fin 3) Shared Control,
      (atomic (program (Fin 3))).run ⟨opened fun _ => 0, fun _ => awake⟩
        [.free 0 (.write [1, 2]), .free 1 (.write [3, 4]), .enter 1, .enter 0, .free 2 (.read 3),
          .enter 2] = some s ∧
      s.shared.delivered = [3, 4, 1] ∧
      s.shared.accepted.map Prod.snd = s.shared.delivered ++ s.shared.pipe.contents UINT := by
  have ends : ((atomic (program (Fin 3))).run ⟨opened fun _ => 0, fun _ => awake⟩
      [.free 0 (.write [1, 2]), .free 1 (.write [3, 4]), .enter 1, .enter 0, .free 2 (.read 3),
        .enter 2]).map (fun s => s.shared.delivered) = some [3, 4, 1] := by
    decide +kernel
  obtain ⟨s, ran, isDelivered⟩ := Option.map_eq_some_iff.mp ends
  exact ⟨s, ran, isDelivered, (pipe_fifo ran).2.1⟩

end Xv6.Pipes
