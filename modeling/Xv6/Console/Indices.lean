import Xv6.Console.Input

/-!
Contract: the indices of the input buffer stay in order as long as a line is only
killed with the cursor at its end.

`C('U')` takes as much off `e` as off `max`. With the cursor inside the line this
leaves `e` below `w`. And since `max` is never brought back down, the buffer takes no
more than `INPUT_BUF` characters from boot on.
-/

namespace Xv6.Console

open Xv6.Lib

/-- The indices are in order and the text fits in the buffer. -/
structure Ordered (input : Input) : Prop where
  read : input.r ≤ input.w
  written : input.w ≤ input.e
  edited : input.e ≤ input.max
  fits : input.max ≤ INPUT_BUF

/-- The buffer with `c` inserted at the cursor. -/
def Input.inserted (input : Input) (c : UInt8) : Input :=
  { input with
    buf := fun i =>
      if i.val < input.e then input.buf i
      else if i.val = input.e then c
      else if i.val ≤ input.max then input.buf.get (i.val - 1)
      else input.buf i
    e := input.e + 1
    max := input.max + 1 }

/-- The buffer with the character in front of the cursor deleted. -/
def Input.deleted (input : Input) : Input :=
  { input with
    buf := fun i =>
      if input.e - 1 ≤ i.val ∧ i.val < input.max - 1 then input.buf.get (i.val + 1) else input.buf i
    e := input.e - 1
    max := input.max - 1 }

def Input.ended (input : Input) : Input :=
  { input with buf := input.buf.set input.max newline, max := input.max + 1 }

@[simp] theorem Input.inserted_max (input : Input) (c : UInt8) :
    (input.inserted c).max = input.max + 1 := rfl

@[simp] theorem Input.deleted_max (input : Input) : input.deleted.max = input.max - 1 := rfl

theorem get_inserted (input : Input) (c : UInt8) {i : Nat} (below : i < INPUT_BUF) :
    (input.inserted c).buf.get i =
      if i < input.e then input.buf.get i else if i = input.e then c
      else if i ≤ input.max then input.buf.get (i - 1) else input.buf.get i := by
  simp only [Input.inserted, Bytes.get, below, ↓reduceDIte]

theorem get_deleted (input : Input) {i : Nat} (below : i < INPUT_BUF) :
    input.deleted.buf.get i =
      if input.e - 1 ≤ i ∧ i < input.max - 1 then input.buf.get (i + 1) else input.buf.get i := by
  simp only [Input.deleted, Bytes.get, below, ↓reduceDIte]

theorem insert_newline {input : Input} (room : input.max < INPUT_BUF) :
    insert input newline = some input.ended := by
  have bound : input.max < 128 := room
  rw [insert, if_neg (by decide), Input.store, Nat.mod_eq_of_lt room, addWord_of_lt (by omega)]
  rfl

@[simp] theorem submit_buf (c : UInt8) (input : Input) : (submit c input).buf = input.buf := by
  unfold submit
  split <;> rfl

@[simp] theorem submit_max (c : UInt8) (input : Input) : (submit c input).max = input.max := by
  unfold submit
  split <;> rfl

namespace Ordered

variable {input : Input}

private theorem get_val (buf : Bytes INPUT_BUF) (i : Fin INPUT_BUF) : buf.get i.val = buf i := by
  simp [Bytes.get]

section

variable (ordered : Ordered input)

include ordered

theorem insert_eq (room : input.max < INPUT_BUF) {c : UInt8}
    (inLine : c ≠ newline) : insert input c = some (input.inserted c) := by
  have edited := ordered.edited
  have bound : input.max < 128 := room
  have index : input.e % INPUT_BUF = input.e := Nat.mod_eq_of_lt (by omega)
  have inside : addWord input.e 1 + subWord input.max input.e ≤ INPUT_BUF ∧
      input.e + subWord input.max input.e ≤ INPUT_BUF := by
    rw [addWord_of_lt (by omega), subWord_of_le edited (by omega)]
    unfold INPUT_BUF
    omega
  rw [insert, if_pos inLine, Input.move, if_pos (Or.inr inside), Option.map_some, Input.inserted,
    Input.store, index, addWord_of_lt (by omega), addWord_of_lt (by omega),
    subWord_of_le edited (by omega), memmove_eq_moved _ (by omega) (by omega)]
  simp only [Input.place]
  congr 2
  funext i
  simp only [Bytes.set, moved]
  by_cases before : i.val < input.e
  · rw [if_neg (by omega), if_neg (by omega), if_pos before, get_val]
  · rw [if_neg before]
    by_cases here : i.val = input.e
    · rw [if_pos here, if_pos here]
    · rw [if_neg here, if_neg here]
      by_cases within : i.val ≤ input.max
      · have source : input.e + (i.val - (input.e + 1)) = i.val - 1 := by omega
        rw [if_pos (by omega), if_pos within, source]
      · rw [if_neg (by omega), if_neg within, get_val]

theorem backspace_eq (inLine : input.e ≠ input.w) : backspace input = some input.deleted := by
  have written := ordered.written
  have edited := ordered.edited
  have bound : input.max ≤ 128 := ordered.fits
  have inside : input.e - 1 + (input.max - 1 - (input.e - 1)) ≤ INPUT_BUF ∧
      input.e - 1 + 1 + (input.max - 1 - (input.e - 1)) ≤ INPUT_BUF := by
    unfold INPUT_BUF
    omega
  simp only [backspace, Input.place]
  rw [if_pos inLine, subWord_of_le (show 1 ≤ input.max by omega) (by omega),
    subWord_of_le (show 1 ≤ input.e by omega) (by omega), addWord_of_lt (by omega),
    subWord_of_le (by omega) (by omega), Input.move, if_pos (Or.inr inside), Input.deleted,
    memmove_eq_moved _ (by omega) (by omega)]
  congr 2
  funext i
  simp only [moved]
  by_cases within : input.e - 1 ≤ i.val ∧ i.val < input.max - 1
  · have source : input.e - 1 + 1 + (i.val - (input.e - 1)) = i.val + 1 := by omega
    rw [if_pos (by omega), if_pos within, source]
  · rw [if_neg (by omega), if_neg within, get_val]

theorem left_eq (inLine : input.e ≠ input.w) : left input = { input with e := input.e - 1 } := by
  have written := ordered.written
  have edited := ordered.edited
  have bound : input.max ≤ 128 := ordered.fits
  rw [left, if_pos inLine, subWord_of_le (by omega) (by omega)]

theorem right_eq (inLine : input.e < input.max) :
    right input = { input with e := input.e + 1 } := by
  have bound : input.max ≤ 128 := ordered.fits
  rw [right, if_pos inLine, addWord_of_lt (by omega)]

theorem killLine (atEnd : input.e = input.max) (rounds : Nat) :
    Ordered (killLine rounds input) := by
  induction rounds generalizing input with
  | zero => exact ordered
  | succ rounds ih =>
    rw [Console.killLine]
    split
    · rename_i more
      have read := ordered.read
      have written := ordered.written
      have bound : input.max ≤ 128 := ordered.fits
      rw [subWord_of_le (show 1 ≤ input.max by omega) (by omega),
        subWord_of_le (show 1 ≤ input.e by omega) (by omega)]
      apply ih
      · constructor
        · exact read
        · change input.w ≤ input.e - 1
          omega
        · change input.e - 1 ≤ input.max - 1
          omega
        · change input.max - 1 ≤ 128
          omega
      · change input.e - 1 = input.max - 1
        omega
    · exact ordered

theorem backspace : ∃ after, backspace input = some after ∧ Ordered after := by
  by_cases inLine : input.e = input.w
  · exact ⟨input, by rw [Console.backspace, if_neg (not_not.mpr inLine)], ordered⟩
  · refine ⟨input.deleted, ordered.backspace_eq inLine, ?_⟩
    have written := ordered.written
    have edited := ordered.edited
    have bound : input.max ≤ 128 := ordered.fits
    constructor
    · exact ordered.read
    · change input.w ≤ input.e - 1
      omega
    · change input.e - 1 ≤ input.max - 1
      omega
    · change input.max - 1 ≤ 128
      omega

theorem left : Ordered (left input) := by
  by_cases inLine : input.e = input.w
  · rw [Console.left, if_neg (not_not.mpr inLine)]
    exact ordered
  · have written := ordered.written
    have edited := ordered.edited
    rw [ordered.left_eq inLine]
    constructor
    · exact ordered.read
    · change input.w ≤ input.e - 1
      omega
    · change input.e - 1 ≤ input.max
      omega
    · exact ordered.fits

theorem right : Ordered (right input) := by
  by_cases inLine : input.e < input.max
  · have written := ordered.written
    rw [ordered.right_eq inLine]
    constructor
    · exact ordered.read
    · change input.w ≤ input.e + 1
      omega
    · exact inLine
    · exact ordered.fits
  · rw [Console.right, if_neg inLine]
    exact ordered

theorem inserted (room : input.max < INPUT_BUF) (c : UInt8) : Ordered (input.inserted c) := by
  have written := ordered.written
  have edited := ordered.edited
  constructor
  · exact ordered.read
  · change input.w ≤ input.e + 1
    omega
  · change input.e + 1 ≤ input.max + 1
    omega
  · exact room

theorem ended (room : input.max < INPUT_BUF) : Ordered input.ended := by
  have edited := ordered.edited
  refine ⟨ordered.read, ordered.written, ?_, room⟩
  change input.e ≤ input.max + 1
  omega

theorem submit (c : UInt8) : Ordered (submit c input) := by
  unfold Console.submit
  split
  · refine ⟨?_, le_rfl, le_rfl, ordered.fits⟩
    exact ordered.read.trans (ordered.written.trans ordered.edited)
  · exact ordered

theorem accept_eq (room : input.max < INPUT_BUF) (c : UInt8) :
    accept input c = some (Console.submit (crToNl c)
      (if crToNl c = newline then input.ended else input.inserted (crToNl c))) := by
  unfold accept
  by_cases isEnd : crToNl c = newline
  · rw [if_pos isEnd, isEnd, insert_newline room, Option.map_some]
  · rw [if_neg isEnd, ordered.insert_eq room isEnd, Option.map_some]

theorem accept (room : input.max < INPUT_BUF) (c : UInt8) :
    ∃ after, accept input c = some after ∧ Ordered after := by
  refine ⟨_, ordered.accept_eq room c, Ordered.submit ?_ _⟩
  split
  · exact ordered.ended room
  · exact ordered.inserted room _

theorem consoleintr {c : UInt8} (atEnd : keyOf c = .killLine → input.e = input.max) :
    ∃ after, consoleintr input c = some after ∧ Ordered after := by
  unfold Console.consoleintr
  cases isKey : keyOf c with
  | procdump => exact ⟨input, rfl, ordered⟩
  | killLine => exact ⟨_, rfl, ordered.killLine (atEnd isKey) _⟩
  | backspace => exact ordered.backspace
  | up => exact ⟨input, rfl, ordered⟩
  | down => exact ⟨input, rfl, ordered⟩
  | left => exact ⟨_, rfl, ordered.left⟩
  | right => exact ⟨_, rfl, ordered.right⟩
  | default =>
    by_cases may : accepts input c
    · simp only [if_pos may]
      exact ordered.accept may.2 c
    · simp only [if_neg may]
      exact ⟨input, rfl, ordered⟩

/-- Reading moves `r` towards `w` and changes nothing else. -/
theorem consolereadLoop_input (killed : Bool) (target n : Nat) (dst : List UInt8) :
    ∃ r, input.r ≤ r ∧ r ≤ input.w ∧
      (consolereadLoop killed target n dst input).1 = { input with r := r } := by
  induction n generalizing input dst with
  | zero => exact ⟨input.r, le_rfl, ordered.read, rfl⟩
  | succ n ih =>
    have read := ordered.read
    have written := ordered.written
    have edited := ordered.edited
    have bound : input.max ≤ 128 := ordered.fits
    rw [consolereadLoop]
    split
    · exact ⟨input.r, le_rfl, read, rfl⟩
    · rename_i more
      have next : addWord input.r 1 = input.r + 1 := addWord_of_lt (by omega)
      have taken : Ordered { input with r := input.r + 1 } :=
        ⟨by change input.r + 1 ≤ input.w; omega, written, edited, bound⟩
      simp only [next]
      split
      · split
        · refine ⟨input.r, le_rfl, read, ?_⟩
          rw [subWord_of_le (by omega) (by omega), Nat.add_sub_cancel]
        · exact ⟨input.r + 1, by omega, by omega, rfl⟩
      · split
        · exact ⟨input.r + 1, by omega, by omega, rfl⟩
        · obtain ⟨r, lower, upper, same⟩ := ih taken (dst ++ [input.byte input.r])
          exact ⟨r, by change input.r + 1 ≤ r at lower; omega, upper, same⟩

theorem consolereadLoop (killed : Bool) (target n : Nat)
    (dst : List UInt8) : Ordered (consolereadLoop killed target n dst input).1 := by
  obtain ⟨r, -, upper, same⟩ := ordered.consolereadLoop_input killed target n dst
  rw [same]
  exact ⟨upper, ordered.written, ordered.edited, ordered.fits⟩

end

end Ordered

section

variable {Proc : Type} [DecidableEq Proc]

/-- A line is killed with the cursor at its end. -/
def KillsAtEnd (s : ConsoleState Proc) : Label Proc → Prop
  | .key c => keyOf c = .killLine → s.input.e = s.input.max
  | _ => True

instance (s : ConsoleState Proc) (label : Label Proc) : Decidable (KillsAtEnd s label) :=
  match label with
  | .key c => inferInstanceAs (Decidable (keyOf c = .killLine → s.input.e = s.input.max))
  | .read _ _ _ => isTrue trivial
  | .resume _ _ => isTrue trivial

def Sound (s : ConsoleState Proc) : Prop := s.wild = false ∧ Ordered s.input

@[simp] theorem settle_input (s : ConsoleState Proc) (p : Proc) (target : Nat)
    (ran : Input × Outcome) : (settle s p target ran).input = ran.1 := by
  unfold settle
  split <;> rfl

@[simp] theorem settle_wild (s : ConsoleState Proc) (p : Proc) (target : Nat)
    (ran : Input × Outcome) : (settle s p target ran).wild = s.wild := by
  unfold settle
  split <;> rfl

/-- What a step does: it handles a character, or a process runs in `consoleread`. -/
theorem consoleNext_cases {s s' : ConsoleState Proc} {label : Label Proc}
    (stepped : consoleNext s label = some s') :
    s.wild = false ∧
      ((∃ c, label = .key c ∧ s' = keyNext s c) ∨
        ∃ p killed target n dst,
          (label = .read p target killed ∧ s.sleeper p = none ∧ n = target ∧ dst = [] ∨
            label = .resume p killed ∧ s.sleeper p = some ⟨target, n, dst⟩) ∧
          s' = settle s p target (consolereadLoop killed target n dst s.input)) := by
  obtain ⟨notWild, stepped⟩ := Option.ite_none_left_eq_some.mp stepped
  refine ⟨Bool.eq_false_iff.mpr notWild, ?_⟩
  cases label with
  | key c => exact Or.inl ⟨c, rfl, (Option.some.inj stepped).symm⟩
  | read p n killed =>
    simp only at stepped
    split at stepped
    · rename_i awake
      exact Or.inr ⟨p, killed, n, n, [], Or.inl ⟨rfl, awake, rfl, rfl⟩,
        (Option.some.inj stepped).symm⟩
    · cases stepped
  | resume p killed =>
    simp only at stepped
    split at stepped
    · cases stepped
    · rename_i call asleep
      exact Or.inr ⟨p, killed, call.target, call.n, call.dst, Or.inr ⟨rfl, asleep⟩,
        (Option.some.inj stepped).symm⟩

theorem Sound.step (s : ConsoleState Proc) (label : Label Proc) (s' : ConsoleState Proc)
    (sound : Sound s) (meets : KillsAtEnd s label) (stepped : consoleSystem.next s label = some s') :
    Sound s' := by
  obtain ⟨notWild, ⟨c, rfl, rfl⟩ | ⟨p, killed, target, n, dst, -, rfl⟩⟩ :=
    consoleNext_cases stepped
  · obtain ⟨input, handled, ordered⟩ := sound.2.consoleintr meets
    rw [keyNext, handled]
    exact ⟨notWild, ordered⟩
  · rw [Sound, settle_wild, settle_input]
    exact ⟨notWild, sound.2.consolereadLoop killed target n dst⟩

omit [DecidableEq Proc] in
theorem boot_sound : Sound (boot : ConsoleState Proc) :=
  ⟨rfl, le_rfl, le_rfl, le_rfl, Nat.zero_le _⟩

theorem indices_ordered {labels : List (Label Proc)} {s : ConsoleState Proc}
    (meets : consoleSystem.Meets KillsAtEnd boot labels)
    (ran : consoleSystem.run boot labels = some s) :
    s.wild = false ∧ s.input.r ≤ s.input.w ∧ s.input.w ≤ s.input.e ∧
      s.input.e ≤ s.input.max ∧ s.input.max ≤ s.input.r + INPUT_BUF := by
  obtain ⟨notWild, ordered⟩ := System.run_preserves_of_meets Sound Sound.step boot_sound meets ran
  have fits := ordered.fits
  exact ⟨notWild, ordered.read, ordered.written, ordered.edited, by omega⟩

/-- Two characters, one inserted between them, a killed line and one that is read. -/
theorem indices_ordered_editedLines :
    ∃ s : ConsoleState (Fin 2), consoleSystem.run boot
        [.key 97, .key 98, .key LEFT, .key 99, .key RIGHT, .key (ctrl 'U'), .key 100, .key newline,
          .read 0 5 false] = some s ∧
      s.wild = false ∧ s.input.r ≤ s.input.w ∧ s.input.w ≤ s.input.e ∧
        s.input.e ≤ s.input.max ∧ s.input.max ≤ s.input.r + INPUT_BUF := by
  have runs : (consoleSystem.run (boot : ConsoleState (Fin 2))
      [.key 97, .key 98, .key LEFT, .key 99, .key RIGHT, .key (ctrl 'U'), .key 100, .key newline,
        .read 0 5 false]).isSome = true := by
    decide +kernel
  obtain ⟨s, ran⟩ := Option.isSome_iff_exists.mp runs
  exact ⟨s, ran, indices_ordered (by decide +kernel) ran⟩

/-- `a`, LEFT and `C('U')` leave the cursor before the line, and the next character moves
bytes from outside of the buffer. -/
theorem killedInside_disorders :
    ∃ s s' : ConsoleState (Fin 1),
      consoleSystem.run boot [.key 97, .key LEFT, .key (ctrl 'U')] = some s ∧
      s.wild = false ∧ s.input.w = 0 ∧ s.input.max = 0 ∧ s.input.e = 2 ^ 32 - 1 ∧
      consoleSystem.next s (.key 98) = some s' ∧ s'.wild = true := by
  have ends : (consoleSystem.run (boot : ConsoleState (Fin 1))
      [.key 97, .key LEFT, .key (ctrl 'U')]).map (fun s => (s.wild, s.input.w, s.input.max, s.input.e,
        (consoleSystem.next s (.key 98)).map ConsoleState.wild)) =
      some (false, 0, 0, 2 ^ 32 - 1, some true) := by
    decide +kernel
  obtain ⟨s, ran, final⟩ := Option.map_eq_some_iff.mp ends
  simp only [Prod.mk.injEq, Option.map_eq_some_iff] at final
  obtain ⟨notWild, isW, isMax, isE, s', stepped, isWild⟩ := final
  exact ⟨s, s', ran, notWild, isW, isMax, isE, stepped, isWild⟩

/-- A character that is not a command is stored as long as the text does not end at the
end of the buffer, and dropped from then on. -/
theorem stored_iff_room {labels : List (Label Proc)} {s : ConsoleState Proc}
    (meets : consoleSystem.Meets KillsAtEnd boot labels)
    (ran : consoleSystem.run boot labels = some s) {c : UInt8} (ordinary : keyOf c = .default)
    (nonzero : c ≠ 0) :
    ∃ s', consoleSystem.next s (.key c) = some s' ∧ s'.wild = false ∧
      (s.input.max < INPUT_BUF → s'.input.max = s.input.max + 1 ∧
        s'.input.buf.get (if crToNl c = newline then s.input.max else s.input.e) = crToNl c) ∧
      (INPUT_BUF ≤ s.input.max → s'.input = s.input) := by
  obtain ⟨notWild, ordered⟩ := System.run_preserves_of_meets Sound Sound.step boot_sound meets ran
  have stepped : consoleSystem.next s (.key c) = some (keyNext s c) := by
    change consoleNext s (.key c) = _
    rw [consoleNext, notWild]
    rfl
  refine ⟨keyNext s c, stepped, ?_⟩
  by_cases room : s.input.max < INPUT_BUF
  · have handled : consoleintr s.input c = some (submit (crToNl c)
        (if crToNl c = newline then s.input.ended else s.input.inserted (crToNl c))) := by
      rw [consoleintr, ordinary, ← ordered.accept_eq room c]
      exact if_pos ⟨nonzero, room⟩
    rw [keyNext, handled]
    refine ⟨notWild, fun _ => ?_, fun full => absurd room (not_lt.mpr full)⟩
    have edited := ordered.edited
    simp only [submit_max, submit_buf]
    split
    · rename_i isEnd
      rw [isEnd]
      exact ⟨rfl, Bytes.get_set_same _ room newline⟩
    · refine ⟨rfl, ?_⟩
      have inside : s.input.e < INPUT_BUF := lt_of_le_of_lt edited room
      simp only [Input.inserted, Bytes.get, inside, lt_irrefl, ↓reduceDIte, ↓reduceIte]
  · have handled : consoleintr s.input c = some s.input := by
      rw [consoleintr, ordinary]
      exact if_neg fun accepted => room accepted.2
    rw [keyNext, handled]
    exact ⟨notWild, fun isRoom => absurd isRoom room, fun _ => rfl⟩

theorem stored_iff_room_secondLine :
    ∃ s s' : ConsoleState (Fin 1),
      consoleSystem.run boot [.key 97, .key newline, .read 0 2 false] = some s ∧
      consoleSystem.next s (.key 98) = some s' ∧ s'.input.max = 3 := by
  have ends : (consoleSystem.run (boot : ConsoleState (Fin 1))
      [.key 97, .key newline, .read 0 2 false]).map (fun s => s.input.max) = some 2 := by
    decide +kernel
  obtain ⟨s, ran, isMax⟩ := Option.map_eq_some_iff.mp ends
  have meets : consoleSystem.Meets KillsAtEnd (boot : ConsoleState (Fin 1))
      [.key 97, .key newline, .read 0 2 false] := by
    decide +kernel
  obtain ⟨s', stepped, -, stored, -⟩ :=
    stored_iff_room meets ran (show keyOf 98 = .default by decide) (by decide)
  refine ⟨s, s', ran, stepped, ?_⟩
  rw [(stored (by rw [isMax]; decide)).1, isMax]

/-- A line that fills the buffer is read to its end, and the buffer is empty. The next
character is dropped all the same. -/
theorem readLine_refuses :
    ∃ s s' : ConsoleState (Fin 1),
      consoleSystem.run boot
        (List.replicate 127 (.key 97) ++ [.key newline, .read 0 128 false]) = some s ∧
      s.input.max = s.input.r ∧ keyOf 98 = .default ∧
      consoleSystem.next s (.key 98) = some s' ∧ s'.input.max = s.input.max := by
  have ends : (consoleSystem.run (boot : ConsoleState (Fin 1))
      (List.replicate 127 (.key 97) ++ [.key newline, .read 0 128 false])).map
        (fun s => (s.input.max, s.input.r,
          (consoleSystem.next s (.key 98)).map fun s' => s'.input.max)) =
      some (128, 128, some 128) := by
    decide +kernel
  obtain ⟨s, ran, final⟩ := Option.map_eq_some_iff.mp ends
  simp only [Prod.mk.injEq, Option.map_eq_some_iff] at final
  obtain ⟨isMax, isR, s', stepped, isMax'⟩ := final
  exact ⟨s, s', ran, isMax.trans isR.symm, by decide, stepped, isMax'.trans isMax.symm⟩

end

end Xv6.Console
