import Xv6.Console.Indices

/-!
Contract: the console is a line editor with a cursor.

The editor holds the line as the text before and the text after its cursor. As long as
fewer than `INPUT_BUF` characters have been accepted, the buffer holds the lines
submitted so far and then the line being edited, from its start on; nothing is ever
overwritten. The readers together get the submitted lines in order, and each of them
bytes of one line only.
-/

namespace Xv6.Console

open Function Xv6.Lib

/-! ### The editor -/

/-- A line with a cursor, and the lines submitted. -/
structure Editor where
  before : List UInt8
  after : List UInt8
  lines : List (List UInt8)

namespace Editor

def left (ed : Editor) : Editor :=
  match ed.before.getLast? with
  | some c => { ed with before := ed.before.dropLast, after := c :: ed.after }
  | none => ed

def right (ed : Editor) : Editor :=
  match ed.after with
  | c :: rest => { ed with before := ed.before ++ [c], after := rest }
  | [] => ed

def backspace (ed : Editor) : Editor := { ed with before := ed.before.dropLast }

def insert (ed : Editor) (c : UInt8) : Editor := { ed with before := ed.before ++ [c] }

def submit (ed : Editor) : Editor where
  before := []
  after := []
  lines := ed.lines ++ [ed.before ++ ed.after ++ [newline]]

/-- What a key does. Both `\r` and `\n` submit the line. -/
def key (ed : Editor) (c : UInt8) : Editor :=
  match keyOf c with
  | .left => ed.left
  | .right => ed.right
  | .backspace => ed.backspace
  | .default =>
    if c = 0 then ed else if crToNl c = newline then ed.submit else ed.insert c
  | .procdump | .killLine | .up | .down => ed

def empty : Editor := ⟨[], [], []⟩

/-- What a step of the console is for the editor: readers do not concern it. -/
def step {Proc : Type} (ed : Editor) : Label Proc → Editor
  | .key c => ed.key c
  | .read _ _ _ | .resume _ _ => ed

def typed {Proc : Type} (labels : List (Label Proc)) : Editor := labels.foldl step empty

end Editor

/-- The `len` bytes from `start` on are bytes of one of the lines. -/
def InOneLine (lines : List (List UInt8)) (start len : Nat) : Prop :=
  len = 0 ∨ ∃ first line rest, lines = first ++ line :: rest ∧
    first.flatten.length ≤ start ∧ start + len ≤ first.flatten.length + line.length

variable {lines : List (List UInt8)}

theorem InOneLine.submit {start len : Nat} (inLine : InOneLine lines start len) (line : List UInt8) :
    InOneLine (lines ++ [line]) start len := by
  rcases inLine with none | ⟨first, found, rest, isLines, lower, upper⟩
  · exact Or.inl none
  · refine Or.inr ⟨first, found, rest ++ [line], ?_, lower, upper⟩
    rw [isLines, List.append_assoc, List.cons_append]

/-! ### Lines -/

def Plain (text : List UInt8) : Prop := ∀ c ∈ text, c ≠ newline ∧ c ≠ ctrl 'D'

def IsLine (line : List UInt8) : Prop := ∃ body, line = body ++ [newline] ∧ Plain body

theorem not_eof (areLines : ∀ line ∈ lines, IsLine line) : ctrl 'D' ∉ lines.flatten := by
  intro member
  obtain ⟨line, isLine, inLine⟩ := List.mem_flatten.mp member
  obtain ⟨body, rfl, plain⟩ := areLines line isLine
  rcases List.mem_append.mp inLine with inBody | isEnd
  · exact (plain _ inBody).2 rfl
  · exact absurd (List.mem_singleton.mp isEnd) (by decide)

theorem last_isNewline (areLines : ∀ line ∈ lines, IsLine line) {i : Nat}
    (isLast : i + 1 = lines.flatten.length) : lines.flatten[i]? = some newline := by
  rcases List.eq_nil_or_concat lines with rfl | ⟨first, line, rfl⟩
  · cases isLast
  · obtain ⟨body, rfl, -⟩ := areLines line (by simp)
    rw [List.concat_eq_append, List.flatten_append, List.flatten_singleton, ← List.append_assoc] at isLast ⊢
    rw [List.length_append, List.length_singleton, Nat.add_right_cancel_iff] at isLast
    rw [isLast, List.getElem?_concat_length]

/-- Bytes none of which but the last is a newline are in one line. -/
theorem inOneLine_of_newlines (areLines : ∀ line ∈ lines, IsLine line) {start len : Nat}
    (inside : start + len ≤ lines.flatten.length)
    (newlines : ∀ i, i + 1 < len → lines.flatten[start + i]? ≠ some newline) :
    InOneLine lines start len := by
  induction lines generalizing start with
  | nil =>
    left
    rw [List.flatten_nil, List.length_nil] at inside
    omega
  | cons line rest ih =>
    obtain ⟨body, isLine, -⟩ := areLines line List.mem_cons_self
    have long : line.length = body.length + 1 := by
      rw [isLine, List.length_append, List.length_singleton]
    rw [List.flatten_cons] at inside newlines
    rw [List.length_append] at inside
    by_cases here : start < line.length
    · refine Or.inr ⟨[], line, rest, rfl, Nat.zero_le _, ?_⟩
      rw [List.flatten_nil, List.length_nil, Nat.zero_add]
      by_contra beyond
      apply newlines (body.length - start) (by omega)
      have index : start + (body.length - start) = body.length := by omega
      rw [index, List.getElem?_append_left (by omega), isLine, List.getElem?_concat_length]
    · have shorter : InOneLine rest (start - line.length) len := by
        apply ih (fun line member => areLines line (List.mem_cons_of_mem _ member))
        · omega
        · intro i within
          have index : start - line.length + i = start + i - line.length := by omega
          rw [index, ← List.getElem?_append_right (by omega)]
          exact newlines i within
      rcases shorter with none | ⟨first, found, more, isRest, lower, upper⟩
      · exact Or.inl none
      · refine Or.inr ⟨line :: first, found, more, by rw [isRest, List.cons_append], ?_, ?_⟩
        · rw [List.flatten_cons, List.length_append]
          omega
        · rw [List.flatten_cons, List.length_append]
          omega

/-! ### The text of the buffer -/

def Input.text (input : Input) : List UInt8 := (List.range input.max).map input.buf.get

@[simp] theorem length_text (input : Input) : input.text.length = input.max := by
  simp [Input.text]

theorem getElem_text (input : Input) {i : Nat} (inside : i < input.text.length) :
    input.text[i] = input.buf.get i := by
  simp [Input.text]

theorem text_inserted {input : Input} (ordered : Ordered input) (room : input.max < INPUT_BUF)
    (c : UInt8) :
    (input.inserted c).text = input.text.take input.e ++ c :: input.text.drop input.e := by
  have edited := ordered.edited
  apply List.ext_getElem
  · simp only [length_text, Input.inserted, List.length_append, List.length_take, List.length_cons,
      List.length_drop]
    omega
  · intro i isNew _
    rw [length_text, Input.inserted_max] at isNew
    have below : i < INPUT_BUF := by omega
    rw [getElem_text, get_inserted input c below, List.getElem_append]
    simp only [List.length_take, length_text, Nat.min_eq_left edited]
    split
    · rw [List.getElem_take, getElem_text]
    · rename_i notBefore
      rw [List.getElem_cons]
      split
      · rw [dif_pos (by omega)]
      · rename_i notHere
        rw [dif_neg (by omega), if_pos (by omega), List.getElem_drop, getElem_text]
        congr 1
        omega

theorem text_deleted {input : Input} (ordered : Ordered input) (inLine : input.w < input.e) :
    input.deleted.text = input.text.take (input.e - 1) ++ input.text.drop input.e := by
  have edited := ordered.edited
  have bound := ordered.fits
  apply List.ext_getElem
  · simp only [length_text, Input.deleted, List.length_append, List.length_take, List.length_drop]
    omega
  · intro i isNew _
    rw [length_text, Input.deleted_max] at isNew
    have below : i < INPUT_BUF := by omega
    have short : min (input.e - 1) input.max = input.e - 1 := by omega
    rw [getElem_text, get_deleted input below, List.getElem_append]
    simp only [List.length_take, length_text, short]
    split
    · rw [dif_neg (by omega), List.getElem_drop, getElem_text]
      congr 1
      omega
    · rw [dif_pos (by omega), List.getElem_take, getElem_text]

theorem text_ended {input : Input} (room : input.max < INPUT_BUF) :
    input.ended.text = input.text ++ [newline] := by
  have others : (List.range input.max).map (input.buf.set input.max newline).get = input.text := by
    apply List.map_congr_left
    intro i inside
    have below := List.mem_range.mp inside
    exact Bytes.get_set_other _ (by omega) newline
  rw [Input.text, Input.ended, List.range_succ, List.map_append, others, List.map_singleton,
    Bytes.get_set_same _ room]

/-! ### Editing -/

/-- The buffer holds the submitted lines and then the line of the editor. -/
structure Edits (ed : Editor) (input : Input) : Prop where
  text : input.text = ed.lines.flatten ++ ed.before ++ ed.after
  atLine : input.w = ed.lines.flatten.length
  atCursor : input.e = input.w + ed.before.length
  areLines : ∀ line ∈ ed.lines, IsLine line
  plain : Plain (ed.before ++ ed.after)

namespace Edits

variable {ed : Editor} {input : Input}

section

variable (edits : Edits ed input)

include edits

theorem max_eq : input.max = input.e + ed.after.length := by
  have long := congrArg List.length edits.text
  rw [length_text, List.length_append, List.length_append] at long
  rw [edits.atCursor, edits.atLine]
  exact long

theorem take_cursor : input.text.take input.e = ed.lines.flatten ++ ed.before := by
  rw [edits.text]
  apply List.take_left'
  rw [List.length_append, edits.atCursor, edits.atLine]

theorem drop_cursor : input.text.drop input.e = ed.after := by
  rw [edits.text]
  apply List.drop_left'
  rw [List.length_append, edits.atCursor, edits.atLine]

/-- The lines submitted are the bytes in front of `w`. -/
theorem take_lines : input.text.take input.w = ed.lines.flatten := by
  rw [edits.text, List.append_assoc]
  exact List.take_left' edits.atLine.symm

theorem left (ordered : Ordered input) : Edits ed.left (left input) := by
  rcases List.eq_nil_or_concat ed.before with none | ⟨before, c, some⟩
  · have atStart : input.e = input.w := by
      rw [edits.atCursor, none, List.length_nil, Nat.add_zero]
    rw [Console.left, if_neg (not_not.mpr atStart), Editor.left, none]
    exact edits
  · rw [List.concat_eq_append] at some
    have cursor := edits.atCursor
    rw [some, List.length_append, List.length_singleton] at cursor
    have isLeft : ed.left = ⟨before, c :: ed.after, ed.lines⟩ := by
      simp [Editor.left, some]
    rw [ordered.left_eq (by omega), isLeft]
    constructor
    · change input.text = _
      rw [edits.text, some]
      simp
    · exact edits.atLine
    · change input.e - 1 = input.w + before.length
      omega
    · exact edits.areLines
    · have plain := edits.plain
      rw [some] at plain
      simpa using plain

theorem right (ordered : Ordered input) : Edits ed.right (right input) := by
  have long := edits.max_eq
  cases rest : ed.after with
  | nil =>
    rw [rest, List.length_nil] at long
    rw [Console.right, if_neg (by omega), Editor.right, rest]
    exact edits
  | cons c after =>
    rw [rest, List.length_cons] at long
    rw [ordered.right_eq (by omega), Editor.right, rest]
    constructor
    · change input.text = _
      rw [edits.text, rest]
      simp
    · exact edits.atLine
    · change input.e + 1 = input.w + (ed.before ++ [c]).length
      rw [edits.atCursor, List.length_append, List.length_singleton, Nat.add_assoc]
    · exact edits.areLines
    · have plain := edits.plain
      rw [rest] at plain
      simpa using plain

theorem backspace (ordered : Ordered input) :
    ∃ after, backspace input = some after ∧ after.r = input.r ∧ after.max ≤ input.max ∧
      Edits ed.backspace after := by
  rcases List.eq_nil_or_concat ed.before with none | ⟨before, c, some⟩
  · have atStart : input.e = input.w := by
      rw [edits.atCursor, none, List.length_nil, Nat.add_zero]
    have same : ed.before.dropLast = ed.before := by
      rw [none, List.dropLast_nil]
    refine ⟨input, ?_, rfl, le_rfl, ?_⟩
    · rw [Console.backspace, if_neg (not_not.mpr atStart)]
    · rw [Editor.backspace, same]
      exact edits
  · rw [List.concat_eq_append] at some
    have cursor := edits.atCursor
    rw [some, List.length_append, List.length_singleton] at cursor
    have deleted : ed.backspace = ⟨before, ed.after, ed.lines⟩ := by
      simp [Editor.backspace, some]
    have inFront : input.text.take (input.e - 1) = ed.lines.flatten ++ before := by
      rw [edits.text, some, ← List.append_assoc, List.append_assoc]
      apply List.take_left'
      rw [List.length_append, ← edits.atLine]
      omega
    refine ⟨input.deleted, ordered.backspace_eq (by omega), rfl, Nat.sub_le _ _, ?_⟩
    rw [deleted]
    constructor
    · rw [text_deleted ordered (by omega), inFront, edits.drop_cursor]
    · exact edits.atLine
    · change input.e - 1 = input.w + before.length
      omega
    · exact edits.areLines
    · intro d member
      apply edits.plain
      rw [some]
      simp only [List.mem_append] at member ⊢
      exact member.imp_left Or.inl

theorem insert (ordered : Ordered input) (room : input.max < INPUT_BUF)
    {c : UInt8} (inLine : c ≠ newline) (notEof : c ≠ ctrl 'D') :
    Edits (ed.insert c) (input.inserted c) := by
  constructor
  · rw [text_inserted ordered room, edits.take_cursor, edits.drop_cursor]
    simp [Editor.insert]
  · exact edits.atLine
  · change input.e + 1 = input.w + (ed.before ++ [c]).length
    rw [edits.atCursor, List.length_append, List.length_singleton, Nat.add_assoc]
  · exact edits.areLines
  · intro d member
    simp only [Editor.insert, List.mem_append, List.mem_singleton] at member
    rcases member with (inBefore | isNew) | inAfter
    · exact edits.plain d (List.mem_append_left _ inBefore)
    · exact isNew ▸ ⟨inLine, notEof⟩
    · exact edits.plain d (List.mem_append_right _ inAfter)

theorem submit (room : input.max < INPUT_BUF) : Edits ed.submit (submit newline input.ended) := by
  have isEnded : Console.submit newline input.ended =
      { input.ended with w := input.max + 1, e := input.max + 1 } := if_pos (Or.inl rfl)
  have long := edits.max_eq
  have sum : input.max + 1 = (ed.lines ++ [ed.before ++ ed.after ++ [newline]]).flatten.length := by
    rw [List.flatten_append, List.flatten_singleton, List.length_append, List.length_append,
      List.length_append, List.length_singleton, ← edits.atLine]
    have cursor := edits.atCursor
    omega
  rw [isEnded]
  constructor
  · change input.ended.text = _
    rw [text_ended room, edits.text]
    simp [Editor.submit]
  · exact sum
  · exact (Nat.add_zero _).symm
  · intro line member
    rcases List.mem_append.mp member with older | isNew
    · exact edits.areLines line older
    · exact ⟨ed.before ++ ed.after, List.mem_singleton.mp isNew, edits.plain⟩
  · intro c member
    cases member

/-- Every key does to the buffer what it does to the editor, when there is room. -/
theorem consoleintr (ordered : Ordered input) {c : UInt8}
    (notKill : keyOf c ≠ .killLine) (notEof : c ≠ ctrl 'D')
    (room : keyOf c = .default → c ≠ 0 → input.max + 1 < INPUT_BUF) :
    ∃ after, consoleintr input c = some after ∧ after.r = input.r ∧
      (after.max ≤ input.max ∨ (keyOf c = .default ∧ accepts input c) ∧ after.max = input.max + 1) ∧
      Edits (ed.key c) after := by
  unfold Console.consoleintr Editor.key
  cases isKey : keyOf c with
  | procdump => exact ⟨input, rfl, rfl, Or.inl le_rfl, edits⟩
  | killLine => exact absurd isKey notKill
  | backspace =>
    obtain ⟨after, handled, sameR, shorter, edits'⟩ := edits.backspace ordered
    exact ⟨after, handled, sameR, Or.inl shorter, edits'⟩
  | up => exact ⟨input, rfl, rfl, Or.inl le_rfl, edits⟩
  | down => exact ⟨input, rfl, rfl, Or.inl le_rfl, edits⟩
  | left =>
    refine ⟨_, rfl, ?_, Or.inl ?_, edits.left ordered⟩
    · unfold Console.left
      split <;> rfl
    · unfold Console.left
      split <;> exact le_rfl
  | right =>
    refine ⟨_, rfl, ?_, Or.inl ?_, edits.right ordered⟩
    · unfold Console.right
      split <;> rfl
    · unfold Console.right
      split <;> exact le_rfl
  | default =>
    by_cases isZero : c = 0
    · refine ⟨input, if_neg fun may => may.1 isZero, rfl, Or.inl le_rfl, ?_⟩
      rw [isZero]
      exact edits
    · have isRoom := room isKey isZero
      have fits : input.max < INPUT_BUF := by omega
      have may : accepts input c := ⟨isZero, fits⟩
      simp only [if_pos may, if_neg isZero]
      refine ⟨_, ordered.accept_eq fits c, ?_, Or.inr ⟨⟨trivial, may⟩, ?_⟩, ?_⟩
      · unfold Console.submit
        split <;> split <;> rfl
      · rw [submit_max]
        split <;> rfl
      · split
        · rename_i isEnd
          rw [isEnd]
          exact edits.submit fits
        · rename_i inLine
          have same : crToNl c = c := by
            unfold crToNl at inLine ⊢
            split at inLine
            · exact absurd rfl inLine
            · rename_i notReturn
              exact if_neg notReturn
          rw [same] at inLine ⊢
          have waits : Console.submit c (input.inserted c) = input.inserted c := by
            apply if_neg
            rintro (isEnd | isEof | isFull)
            · exact inLine isEnd
            · exact notEof isEof
            · -- the line would fill the buffer
              have read := ordered.read
              have written := ordered.written
              have edited := ordered.edited
              have bound : input.max + 1 < 128 := isRoom
              change input.max + 1 = addWord input.r INPUT_BUF at isFull
              unfold INPUT_BUF at isFull
              rw [addWord_of_lt (by omega)] at isFull
              omega
          rw [waits]
          exact edits.insert ordered fits inLine notEof

end

end Edits

/-! ### Reading -/

theorem byte_eq {input : Input} (ordered : Ordered input) (more : input.r < input.w) :
    (input.text.take input.w)[input.r]? = some (input.byte input.r) := by
  have written := ordered.written
  have edited := ordered.edited
  have fits := ordered.fits
  have inside : input.r < input.text.length := by
    rw [length_text]
    omega
  rw [List.getElem?_take_of_lt more, List.getElem?_eq_getElem inside, getElem_text, Input.byte,
    Nat.mod_eq_of_lt (by omega)]

/-- A read takes bytes of one line. It sleeps or fails only when it has taken none. -/
theorem consolereadLoop_lines {input : Input} (ordered : Ordered input)
    (areLines : ∀ line ∈ lines, IsLine line) (submitted : input.text.take input.w = lines.flatten)
    (killed : Bool) (target n : Nat) {dst : List UInt8}
    (within : dst = [] ∨ ∃ i, i + 1 = input.r ∧ lines.flatten[i]? ≠ some newline) :
    ∃ k, (consolereadLoop killed target n dst input).1.r = input.r + k ∧ input.r + k ≤ input.w ∧
      (∀ i, i + 1 < k → lines.flatten[input.r + i]? ≠ some newline) ∧
      ((consolereadLoop killed target n dst input).2 =
          .returned (dst ++ (lines.flatten.drop input.r).take k) ∨
        k = 0 ∧ dst = [] ∧ ((consolereadLoop killed target n dst input).2 = .failed ∨
          ∃ m, (consolereadLoop killed target n dst input).2 = .asleep m [])) := by
  have long : lines.flatten.length = input.w := by
    have written := ordered.written
    have edited := ordered.edited
    rw [← submitted, List.length_take, length_text]
    omega
  induction n generalizing input dst with
  | zero =>
    refine ⟨0, rfl, ordered.read, fun i below => absurd below (by omega), Or.inl ?_⟩
    rw [List.take_zero, List.append_nil]
    rfl
  | succ n ih =>
    rw [consolereadLoop]
    split
    · rename_i isEmpty
      have none : dst = [] := by
        rcases within with none | ⟨i, isLast, notNewline⟩
        · exact none
        · exact absurd (last_isNewline areLines (by omega)) notNewline
      refine ⟨0, rfl, ordered.read, fun i below => absurd below (by omega), Or.inr ⟨rfl, none, ?_⟩⟩
      rw [none]
      cases killed with
      | true => exact Or.inl rfl
      | false => exact Or.inr ⟨n + 1, rfl⟩
    · rename_i notEmpty
      have read := ordered.read
      have written := ordered.written
      have edited := ordered.edited
      have bound : input.max ≤ 128 := ordered.fits
      have more : input.r < input.w := by omega
      have next : addWord input.r 1 = input.r + 1 := addWord_of_lt (by omega)
      have isByte := byte_eq ordered more
      rw [submitted] at isByte
      have notEof : input.byte input.r ≠ ctrl 'D' := by
        intro isEof
        exact not_eof areLines (isEof ▸ List.mem_of_getElem? isByte)
      have first : ∀ k, (lines.flatten.drop input.r).take (k + 1) =
          input.byte input.r :: (lines.flatten.drop (input.r + 1)).take k := by
        intro k
        obtain ⟨inside, isElem⟩ := List.getElem?_eq_some_iff.mp isByte
        rw [List.drop_eq_getElem_cons inside, List.take_succ_cons, isElem]
      simp only [next, if_neg notEof]
      split
      · refine ⟨1, rfl, more, fun i below => absurd below (by omega), Or.inl ?_⟩
        rw [first 0, List.take_zero]
      · rename_i notNewline
        have notEnd : lines.flatten[input.r]? ≠ some newline := by
          rw [isByte, ne_eq, Option.some.injEq]
          exact notNewline
        have taken : Ordered { input with r := input.r + 1 } := ⟨more, written, edited, bound⟩
        obtain ⟨k, isR, upper, newlines, outcome⟩ :=
          ih taken submitted
            (Or.inr ⟨input.r, rfl, notEnd⟩) long
        refine ⟨k + 1, ?_, ?_, ?_, ?_⟩
        · rw [isR]
          change input.r + 1 + k = input.r + (k + 1)
          omega
        · change input.r + 1 + k ≤ input.w at upper
          omega
        · intro i below
          cases i with
          | zero => exact notEnd
          | succ i =>
            have later := newlines i (by omega)
            change lines.flatten[input.r + 1 + i]? ≠ some newline at later
            rw [Nat.add_right_comm, Nat.add_assoc] at later
            exact later
        · rcases outcome with returned | ⟨-, none, -⟩
          · left
            rw [returned, first, List.append_assoc, List.singleton_append]
          · simp at none

section

variable {Proc : Type} [DecidableEq Proc]

/-- What the readers have got of the lines, and that nobody sleeps in the middle of
one. -/
structure Delivered (lines : List (List UInt8)) (s : ConsoleState Proc) : Prop where
  returned : s.returned.flatten = lines.flatten.take s.input.r
  chunks : ∀ first bytes rest, s.returned = first ++ bytes :: rest →
    InOneLine lines first.flatten.length bytes.length
  sleepers : ∀ p call, s.sleeper p = some call → call.dst = []

variable {s : ConsoleState Proc}

omit [DecidableEq Proc] in
theorem Delivered.snoc (delivered : Delivered lines s) {bytes : List UInt8}
    (inLine : InOneLine lines s.returned.flatten.length bytes.length) :
    ∀ first chunk rest, s.returned ++ [bytes] = first ++ chunk :: rest →
      InOneLine lines first.flatten.length chunk.length := by
  intro first chunk rest split
  rcases List.eq_nil_or_concat rest with rfl | ⟨rest, last, rfl⟩
  · obtain ⟨rfl, isChunk⟩ := List.append_inj' split rfl
    cases isChunk
    exact inLine
  · rw [List.concat_eq_append, ← List.cons_append, ← List.append_assoc] at split
    exact delivered.chunks first chunk rest (List.append_inj' split rfl).1

theorem Delivered.settle {ed : Editor} (delivered : Delivered ed.lines s) (edits : Edits ed s.input)
    (ordered : Ordered s.input) (p : Proc) (killed : Bool) (target n : Nat) :
    Delivered ed.lines (settle s p target (consolereadLoop killed target n [] s.input)) := by
  obtain ⟨k, isR, upper, newlines, outcome⟩ :=
    consolereadLoop_lines ordered edits.areLines edits.take_lines killed target n (Or.inl rfl)
  have noneFor : ∀ q call, update s.sleeper p none q = some call → call.dst = [] := by
    intro q call asleep
    by_cases same : q = p
    · rw [same, update_self] at asleep
      cases asleep
    · rw [update_of_ne same] at asleep
      exact delivered.sleepers q call asleep
  rcases outcome with returned | ⟨isZero, -, failed | ⟨m, asleep⟩⟩
  · have start : s.returned.flatten.length = s.input.r := by
      rw [delivered.returned, List.length_take, ← edits.atLine]
      exact Nat.min_eq_left ordered.read
    have long : ((ed.lines.flatten.drop s.input.r).take k).length = k := by
      rw [List.length_take, List.length_drop, ← edits.atLine]
      omega
    rw [List.nil_append] at returned
    unfold Console.settle
    rw [returned]
    refine ⟨?_, delivered.snoc ?_, noneFor⟩
    · simp only [isR]
      rw [List.flatten_append, List.flatten_singleton, delivered.returned, ← List.take_add]
    · rw [start, long]
      apply inOneLine_of_newlines edits.areLines _ newlines
      rw [← edits.atLine]
      exact upper
  · unfold Console.settle
    rw [failed]
    refine ⟨?_, delivered.chunks, noneFor⟩
    simp only [isR, isZero, Nat.add_zero]
    exact delivered.returned
  · unfold Console.settle
    rw [asleep]
    refine ⟨?_, delivered.chunks, ?_⟩
    · simp only [isR, isZero, Nat.add_zero]
      exact delivered.returned
    · intro q call isAsleep
      by_cases same : q = p
      · simp only [same, update_self, Option.some.injEq] at isAsleep
        rw [← isAsleep]
      · simp only [update_of_ne same] at isAsleep
        exact delivered.sleepers q call isAsleep

/-! ### Runs -/

structure Follows (ed : Editor) (s : ConsoleState Proc) : Prop where
  edits : Edits ed s.input
  accepted : s.input.max ≤ s.accepted
  delivered : Delivered ed.lines s

def Edit : Label Proc → Prop
  | .key c => keyOf c ≠ .killLine ∧ c ≠ ctrl 'D'
  | .read _ _ _ | .resume _ _ => True

omit [DecidableEq Proc] in
theorem Editor.key_lines (ed : Editor) (c : UInt8) :
    (ed.key c).lines = ed.lines ∨ ∃ line, (ed.key c).lines = ed.lines ++ [line] := by
  unfold Editor.key Editor.left Editor.right
  split
  · split <;> exact Or.inl rfl
  · split <;> exact Or.inl rfl
  · exact Or.inl rfl
  · split
    · exact Or.inl rfl
    · split
      · exact Or.inr ⟨_, rfl⟩
      · exact Or.inl rfl
  all_goals exact Or.inl rfl

variable {s' : ConsoleState Proc}

omit [DecidableEq Proc] in
/-- What has been delivered does not depend on lines submitted later. -/
theorem Delivered.key {ed : Editor} (delivered : Delivered ed.lines s)
    (read : s.input.r ≤ ed.lines.flatten.length) (c : UInt8) (sameR : s'.input.r = s.input.r)
    (sameReturned : s'.returned = s.returned) (sameSleepers : s'.sleeper = s.sleeper) :
    Delivered (ed.key c).lines s' := by
  constructor
  · rw [sameReturned, sameR, delivered.returned]
    rcases ed.key_lines c with same | ⟨line, more⟩
    · rw [same]
    · rw [more, List.flatten_append, List.take_append_of_le_length read]
  · intro first bytes rest split
    rw [sameReturned] at split
    have inLine := delivered.chunks first bytes rest split
    rcases ed.key_lines c with same | ⟨line, more⟩
    · rw [same]
      exact inLine
    · rw [more]
      exact inLine.submit line
  · rw [sameSleepers]
    exact delivered.sleepers

omit [DecidableEq Proc] in
theorem keyNext_accepted (s : ConsoleState Proc) (c : UInt8) : s.accepted ≤ (keyNext s c).accepted := by
  unfold keyNext
  split
  · exact le_rfl
  · simp only
    split <;> omega

omit [DecidableEq Proc] in
theorem Follows.key {ed : Editor} (follows : Follows ed s) (ordered : Ordered s.input) {c : UInt8}
    (notKill : keyOf c ≠ .killLine) (notEof : c ≠ ctrl 'D')
    (few : (keyNext s c).accepted < INPUT_BUF) : Follows (ed.key c) (keyNext s c) := by
  have room : keyOf c = .default → c ≠ 0 → s.input.max + 1 < INPUT_BUF := by
    intro isKey nonzero
    have isMax := follows.accepted
    have before := keyNext_accepted s c
    have may : accepts s.input c := ⟨nonzero, by omega⟩
    obtain ⟨after, handled, -⟩ := ordered.accept may.2 c
    have result : consoleintr s.input c = some after := by
      rw [consoleintr, isKey]
      exact (if_pos may).trans handled
    rw [keyNext, result] at few
    simp only [isKey, may, and_self, ↓reduceIte] at few
    omega
  obtain ⟨after, handled, sameR, grows, edits⟩ :=
    follows.edits.consoleintr ordered notKill notEof room
  have isMax := follows.accepted
  have read := ordered.read
  rw [follows.edits.atLine] at read
  rw [keyNext, handled]
  refine ⟨edits, ?_, follows.delivered.key read c sameR rfl rfl⟩
  change after.max ≤ if keyOf c = .default ∧ accepts s.input c then s.accepted + 1 else s.accepted
  rcases grows with shorter | ⟨stored, longer⟩
  · split <;> omega
  · rw [if_pos stored]
    omega

theorem Follows.step {ed : Editor} {label : Label Proc} (sound : Sound s) (edit : Edit label)
    (follows : s.accepted < INPUT_BUF → Follows ed s)
    (stepped : consoleSystem.next s label = some s') :
    Sound s' ∧ (s'.accepted < INPUT_BUF → Follows (ed.step label) s') := by
  have atEnd : KillsAtEnd s label := by
    cases label with
    | key c => exact fun isKill => absurd isKill edit.1
    | read p n killed => trivial
    | resume p killed => trivial
  refine ⟨Sound.step s label s' sound atEnd stepped, fun few => ?_⟩
  obtain ⟨-, ⟨c, rfl, rfl⟩ | ⟨p, killed, target, n, dst, started, rfl⟩⟩ := consoleNext_cases stepped
  · have before := keyNext_accepted s c
    exact (follows (by omega)).key sound.2 edit.1 edit.2 few
  · have same : (settle s p target (consolereadLoop killed target n dst s.input)).accepted =
        s.accepted := by
      unfold settle
      split <;> rfl
    rw [same] at few
    have holds := follows few
    have none : dst = [] := by
      rcases started with ⟨-, -, -, none⟩ | ⟨-, asleep⟩
      · exact none
      · exact holds.delivered.sleepers p _ asleep
    have isStep : ed.step label = ed := by
      rcases started with ⟨rfl, -⟩ | ⟨rfl, -⟩ <;> rfl
    obtain ⟨r, -, -, sameInput⟩ := sound.2.consolereadLoop_input killed target n dst
    rw [isStep]
    constructor
    · rw [settle_input, sameInput]
      exact ⟨holds.edits.text, holds.edits.atLine, holds.edits.atCursor, holds.edits.areLines,
        holds.edits.plain⟩
    · rw [settle_input, sameInput, same]
      exact holds.accepted
    · rw [none]
      exact holds.delivered.settle holds.edits sound.2 p killed target n

theorem follows_run {labels : List (Label Proc)} {ed : Editor} (sound : Sound s)
    (edits : ∀ label ∈ labels, Edit label) (follows : s.accepted < INPUT_BUF → Follows ed s)
    (ran : consoleSystem.run s labels = some s') :
    Sound s' ∧ (s'.accepted < INPUT_BUF → Follows (labels.foldl Editor.step ed) s') := by
  induction labels generalizing ed s with
  | nil =>
    cases ran
    exact ⟨sound, follows⟩
  | cons label rest ih =>
    obtain ⟨middle, stepped, rests⟩ := (System.run_cons_eq_some _).mp ran
    obtain ⟨sound', follows'⟩ := Follows.step sound (edits label List.mem_cons_self) follows stepped
    exact ih sound' (fun other member => edits other (List.mem_cons_of_mem _ member))
      follows' rests

omit [DecidableEq Proc] in
theorem boot_follows : Follows Editor.empty (boot : ConsoleState Proc) where
  edits :=
    { text := rfl
      atLine := rfl
      atCursor := rfl
      areLines := fun _ member => absurd member List.not_mem_nil
      plain := fun _ member => absurd member List.not_mem_nil }
  accepted := le_rfl
  delivered :=
    { returned := rfl
      chunks := fun first _ _ split => by cases first <;> cases split
      sleepers := fun _ _ asleep => by cases asleep }

/-- The readers get the lines that the editor submits, in order, each read bytes of one
line; and all of them once nothing is left to read. -/
theorem reads_submitted_lines {labels : List (Label Proc)} {s : ConsoleState Proc}
    (edits : ∀ label ∈ labels, Edit label) (ran : consoleSystem.run boot labels = some s)
    (few : s.accepted < INPUT_BUF) :
    s.wild = false ∧
    s.returned.flatten <+: (Editor.typed labels).lines.flatten ∧
    (s.input.r = s.input.w → s.returned.flatten = (Editor.typed labels).lines.flatten) ∧
    ∀ first bytes rest, s.returned = first ++ bytes :: rest →
      InOneLine (Editor.typed labels).lines first.flatten.length bytes.length := by
  obtain ⟨sound, follows⟩ := follows_run boot_sound edits (fun _ => boot_follows) ran
  obtain ⟨isEdited, -, delivered⟩ := follows few
  refine ⟨sound.1, ?_, fun allRead => ?_, delivered.chunks⟩
  · rw [delivered.returned]
    exact List.take_prefix _ _
  · rw [delivered.returned, allRead, isEdited.atLine]
    exact List.take_length

/-- The line `ab` with `c` inserted between its characters is read in two parts. -/
theorem reads_submitted_lines_inserted :
    ∃ s : ConsoleState (Fin 1), consoleSystem.run boot
        [.read 0 2 false, .key 97, .key 98, .key LEFT, .key 99, .key newline, .resume 0 false,
          .read 0 9 false] = some s ∧
      s.returned = [[97, 99], [98, newline]] ∧
      s.returned.flatten <+: (Editor.typed [.read 0 2 false, .key 97, .key 98, .key LEFT, .key 99,
        .key newline, .resume 0 false, .read (0 : Fin 1) 9 false]).lines.flatten := by
  have ends : (consoleSystem.run (boot : ConsoleState (Fin 1))
      [.read 0 2 false, .key 97, .key 98, .key LEFT, .key 99, .key newline, .resume 0 false,
        .read 0 9 false]).map (fun s => (s.accepted, s.returned)) =
      some (4, [[97, 99], [98, newline]]) := by
    decide +kernel
  obtain ⟨s, ran, final⟩ := Option.map_eq_some_iff.mp ends
  obtain ⟨isAccepted, isReturned⟩ := Prod.mk.inj final
  have edits : ∀ label ∈ ([.read 0 2 false, .key 97, .key 98, .key LEFT, .key 99, .key newline,
      .resume 0 false, .read 0 9 false] : List (Label (Fin 1))), Edit label := by
    simp only [List.mem_cons, List.not_mem_nil, or_false, forall_eq_or_imp, forall_eq]
    refine ⟨trivial, ?_, ?_, ?_, ?_, ?_, trivial, trivial⟩
    all_goals exact ⟨by decide, by decide⟩
  exact ⟨s, ran, isReturned, (reads_submitted_lines edits ran (by rw [isAccepted]; decide)).2.1⟩

end

end Xv6.Console
