import Xv6.Console.Indices

/-!
Contract: the screen behind the console, and the line that is edited on it.

`crt` is CGA memory from its first cell on, two bytes a cell. `cgaputc` moves the cells
behind the cursor by a `memmove` whose length it computes before it tests the cursor. The
line that `consoleintr` edits is kept twice, in `input.buf` and on the screen.

Owns: `cgaputc`, that it stays on the screen, and that both lines are the same.

Does not own: the serial port; and the registers of the cursor, which return what was
written to them last.
-/

namespace Xv6.Console

open Function Xv6.Lib

def BACKSPACE : Int := 0x100

def CELLS : Nat := 25 * 80

structure Screen where
  crt : Memory
  pos : Nat

/-- The panic, and a `memmove` or a store that leaves the screen. -/
inductive Fault where
  | overflow
  | outside
deriving DecidableEq

/-- `sizeof(crt[0])*(24*80 - pos)`, a `uint`. -/
def restBytes (pos : Nat) : Nat := 2 * subWord (24 * 80) pos % 2 ^ 32

/-- `memmove(crt + dst, crt + src, n)`. -/
def moveCells (crt : Memory) (dst src n : Nat) : Except Fault Memory :=
  if 2 * dst + n ≤ 2 * CELLS ∧ 2 * src + n ≤ 2 * CELLS then .ok (memmove crt (2 * dst) (2 * src) n)
  else .error .outside

/-- `memset(crt + dst, 0, n)`. -/
def clearCells (crt : Memory) (dst n : Nat) : Except Fault Memory :=
  if 2 * dst + n ≤ 2 * CELLS then .ok fun a => if 2 * dst ≤ a ∧ a < 2 * dst + n then 0 else crt a
  else .error .outside

/-- The cell `i` with the character `c`, black on white. -/
def cellSet (crt : Memory) (i : Nat) (c : UInt8) : Memory :=
  update (update crt (2 * i) c) (2 * i + 1) 7

/-- `crt[i] = (c & 0xff) | 0x0700`. -/
def setCell (crt : Memory) (i : Nat) (c : Int) : Except Fault Memory :=
  if i < CELLS then .ok (cellSet crt i (UInt8.ofNat (c % 256).toNat)) else .error .outside

def cgaEdit (screen : Screen) (c : Int) : Except Fault Screen :=
  if c = newline.toNat then pure { screen with pos := screen.pos + (80 - screen.pos % 80) }
  else if c = BACKSPACE then
    if 0 < screen.pos then do
      let crt ← moveCells screen.crt (screen.pos - 1) (screen.pos - 1 + 1) (restBytes (screen.pos - 1))
      pure ⟨crt, screen.pos - 1⟩
    else pure screen
  else if c = LEFT.toNat then
    if 0 < screen.pos then pure { screen with pos := screen.pos - 1 } else pure screen
  else if c = RIGHT.toNat then pure { screen with pos := screen.pos + 1 }
  else if c = UP.toNat ∨ c = DOWN.toNat then pure screen
  else do
    let crt ← moveCells screen.crt (screen.pos + 1) screen.pos (restBytes screen.pos)
    let crt ← setCell crt screen.pos c
    pure ⟨crt, screen.pos + 1⟩

def scrollUp (screen : Screen) : Except Fault Screen :=
  if 24 ≤ screen.pos / 80 then do
    let crt ← moveCells screen.crt 0 80 (2 * 23 * 80)
    let crt ← clearCells crt (screen.pos - 80) (restBytes (screen.pos - 80))
    pure ⟨crt, screen.pos - 80⟩
  else pure screen

def cgaputc (screen : Screen) (c : Int) : Except Fault Screen := do
  let screen ← cgaEdit screen c
  if CELLS < screen.pos then .error .overflow else scrollUp screen

theorem restBytes_eq {pos : Nat} (above : pos ≤ 24 * 80) : restBytes pos = 2 * (24 * 80 - pos) := by
  unfold restBytes subWord
  omega

theorem moveCells_rest (crt : Memory) {pos dst src : Nat} (above : pos ≤ 24 * 80) (toNext : dst ≤ pos + 1)
    (fromNext : src ≤ pos + 1) :
    moveCells crt dst src (restBytes pos) =
      .ok (moved crt (2 * dst) (2 * src) (2 * (24 * 80 - pos))) := by
  have small : CELLS = 2000 := rfl
  rw [restBytes_eq above, moveCells, if_pos (by omega), memmove_eq_moved crt (by omega) (by omega)]

theorem cgaEdit_ok (screen : Screen) (above : screen.pos ≤ 24 * 80) (c : Int) :
    ∃ after, cgaEdit screen c = .ok after ∧ after.pos ≤ CELLS := by
  have small : CELLS = 2000 := rfl
  unfold cgaEdit
  split_ifs
  · refine ⟨_, rfl, ?_⟩
    dsimp only
    omega
  · rw [moveCells_rest screen.crt (by omega) (by omega) (by omega)]
    refine ⟨_, rfl, ?_⟩
    dsimp only
    omega
  · exact ⟨_, rfl, by omega⟩
  · refine ⟨_, rfl, ?_⟩
    dsimp only
    omega
  · exact ⟨_, rfl, by omega⟩
  · refine ⟨_, rfl, ?_⟩
    dsimp only
    omega
  · exact ⟨_, rfl, by omega⟩
  · have onScreen : screen.pos < CELLS := by omega
    rw [moveCells_rest screen.crt above (by omega) (by omega)]
    simp only [setCell, if_pos onScreen]
    exact ⟨_, rfl, onScreen⟩

/-- The cursor is in the first 24 rows afterwards, or at the start of the last one. -/
theorem scrollUp_ok (screen : Screen) (onScreen : screen.pos ≤ CELLS) :
    ∃ after, scrollUp screen = .ok after ∧ after.pos ≤ 24 * 80 := by
  have small : CELLS = 2000 := rfl
  unfold scrollUp
  split_ifs with below
  · have above : screen.pos - 80 ≤ 24 * 80 := by omega
    have fits : 2 * (screen.pos - 80) + 2 * (24 * 80 - (screen.pos - 80)) ≤ 2 * CELLS := by omega
    rw [moveCells, if_pos (by decide)]
    simp only [clearCells, restBytes_eq above, if_pos fits]
    exact ⟨_, rfl, above⟩
  · exact ⟨_, rfl, by omega⟩

theorem cgaputc_ok (screen : Screen) (above : screen.pos ≤ 24 * 80) (c : Int) :
    ∃ after, cgaputc screen c = .ok after ∧ after.pos ≤ 24 * 80 := by
  obtain ⟨edited, isEdited, onScreen⟩ := cgaEdit_ok screen above c
  obtain ⟨after, isAfter, above'⟩ := scrollUp_ok edited onScreen
  refine ⟨after, ?_, above'⟩
  rw [cgaputc, isEdited]
  change (if CELLS < edited.pos then _ else _) = _
  rw [if_neg (not_lt.mpr onScreen), isAfter]

/-- The codes that `consoleintr` passes to `consputc` for a character. -/
def echo (input : Input) (c : UInt8) : List Int :=
  match keyOf c with
  | .procdump => []
  | .killLine =>
    List.replicate (subWord input.max (killLine (subWord input.max input.w) input).max) BACKSPACE
  | .backspace => if input.e ≠ input.w then [BACKSPACE] else []
  | .up | .down => [c.toNat]
  | .left => if input.e ≠ input.w then [c.toNat] else []
  | .right => if input.e < input.max then [c.toNat] else []
  | .default => if accepts input c then [(crToNl c).toNat] else []

structure Display where
  input : Input
  screen : Screen

def keyed (display : Display) (c : UInt8) : Option Display :=
  match consoleintr display.input c, (echo display.input c).foldlM cgaputc display.screen with
  | some input, .ok screen => some ⟨input, screen⟩
  | _, _ => none

def editing : System Display UInt8 := ⟨keyed⟩

def Printable (c : UInt8) : Prop := 32 ≤ c.toNat ∧ c.toNat < 127

/-- The keys that edit a line. What a character adds has room on the screen and leaves the
buffer unfilled. -/
structure Types (start : Nat) (display : Display) (c : UInt8) : Prop where
  key : Printable c ∨ c = LEFT ∨ c = RIGHT ∨ keyOf c = .backspace
  room : Printable c → start + (display.input.max - display.input.w) + 1 < 24 * 80 - 1 ∧
    display.input.max + 1 < display.input.r + INPUT_BUF

instance (c : UInt8) : Decidable (Printable c) := instDecidableAnd

instance (start : Nat) (display : Display) (c : UInt8) : Decidable (Types start display c) :=
  decidable_of_iff (_ ∧ (Printable c → _)) ⟨fun both => ⟨both.1, both.2⟩, fun types => ⟨types.key, types.room⟩⟩

def Shown (crt : Memory) (i : Nat) (c : UInt8) : Prop := crt (2 * i) = c ∧ crt (2 * i + 1) = 7

/-- The screen shows the line from the cell `start` on, and what it showed before that. -/
structure Shows (start : Nat) (origin : Memory) (display : Display) : Prop where
  ordered : Ordered display.input
  cursor : display.screen.pos = start + (display.input.e - display.input.w)
  line : ∀ i, display.input.w ≤ i → i < display.input.max →
    Shown display.screen.crt (start + (i - display.input.w)) (display.input.buf.get i)
  before : ∀ a, a < 2 * start → display.screen.crt a = origin a
  short : start + (display.input.max - display.input.w) < 24 * 80 - 1

theorem cgaputc_of_edit {screen edited : Screen} {c : Int} (isEdited : cgaEdit screen c = .ok edited)
    (above : edited.pos < 24 * 80) : cgaputc screen c = .ok edited := by
  have small : CELLS = 2000 := rfl
  rw [cgaputc, isEdited]
  change (if CELLS < edited.pos then _ else scrollUp edited) = _
  rw [if_neg (by omega), scrollUp, if_neg (by omega)]
  rfl

theorem Printable.ne {c : UInt8} (printable : Printable c) {key : UInt8}
    (outside : ¬ (32 ≤ key.toNat ∧ key.toNat < 127)) : c ≠ key := by
  rintro rfl
  exact outside printable

theorem keyOf_printable {c : UInt8} (printable : Printable c) : keyOf c = .default := by
  rw [keyOf, if_neg (printable.ne (by decide)), if_neg (printable.ne (by decide)),
    if_neg (not_or.mpr ⟨printable.ne (by decide), printable.ne (by decide)⟩), if_neg (printable.ne (by decide)),
    if_neg (printable.ne (by decide)), if_neg (printable.ne (by decide)), if_neg (printable.ne (by decide))]

theorem cgaEdit_printable (screen : Screen) (above : screen.pos ≤ 24 * 80) {c : UInt8} (printable : Printable c) :
    cgaEdit screen c.toNat = .ok ⟨cellSet (moved screen.crt (2 * (screen.pos + 1)) (2 * screen.pos)
      (2 * (24 * 80 - screen.pos))) screen.pos c, screen.pos + 1⟩ := by
  have isByte : UInt8.ofNat ((c.toNat : Int) % 256).toNat = c := by
    rw [Int.emod_eq_of_lt (by omega) (by exact_mod_cast c.toNat_lt), Int.toNat_natCast, UInt8.ofNat_toNat]
  have onScreen : screen.pos < CELLS := lt_of_le_of_lt above (by decide)
  have differs : ∀ key : Int, ¬ (32 ≤ key ∧ key < 127) → (c.toNat : Int) ≠ key := by
    rintro key outside rfl
    exact outside (by exact_mod_cast printable)
  rw [cgaEdit, if_neg (differs _ (by decide)), if_neg (differs _ (by decide)), if_neg (differs _ (by decide)),
    if_neg (differs _ (by decide)), if_neg (not_or.mpr ⟨differs _ (by decide), differs _ (by decide)⟩),
    moveCells_rest screen.crt above le_rfl (Nat.le_succ _)]
  simp only [setCell, if_pos onScreen, isByte]
  rfl

namespace Shown

variable {crt : Memory} {dst src n i j : Nat} {c : UInt8}

theorem moved (inside : dst ≤ j ∧ j < dst + n) (shown : Shown crt (src + (j - dst)) c) :
    Shown (moved crt (2 * dst) (2 * src) (2 * n)) j c := by
  obtain ⟨isCharacter, isColour⟩ := shown
  refine ⟨?_, ?_⟩
  · rw [Xv6.moved, if_pos (by omega), ← isCharacter]
    congr 1
    omega
  · rw [Xv6.moved, if_pos (by omega), ← isColour]
    congr 1
    omega

theorem kept (shown : Shown crt j c) (outside : j < dst ∨ dst + n ≤ j) :
    Shown (Xv6.moved crt (2 * dst) (2 * src) (2 * n)) j c := by
  refine ⟨?_, ?_⟩
  · rw [Xv6.moved, if_neg (by omega), shown.1]
  · rw [Xv6.moved, if_neg (by omega), shown.2]

theorem set_self (crt : Memory) (i : Nat) (c : UInt8) : Shown (cellSet crt i c) i c := by
  refine ⟨?_, update_self ..⟩
  rw [cellSet, update_of_ne (by omega), update_self]

theorem set {c' : UInt8} (shown : Shown crt j c) (other : j ≠ i) : Shown (cellSet crt i c') j c := by
  refine ⟨?_, ?_⟩
  · rw [cellSet, update_of_ne (by omega), update_of_ne (by omega), shown.1]
  · rw [cellSet, update_of_ne (by omega), update_of_ne (by omega), shown.2]

end Shown

variable {start : Nat} {origin : Memory} {display : Display} {c : UInt8}

namespace Shows

section

variable (shows : Shows start origin display)

include shows

theorem ignored (handled : consoleintr display.input c = some display.input) (isEcho : echo display.input c = []) :
    ∃ after, keyed display c = some after ∧ Shows start origin after := by
  refine ⟨display, ?_, shows⟩
  rw [keyed, handled, isEcho]
  rfl

omit shows in
theorem echoed (code : Int) (input : Input) (screen : Screen) (shows : Shows start origin ⟨input, screen⟩)
    (handled : consoleintr display.input c = some input) (isEcho : echo display.input c = [code])
    (isEdited : cgaEdit display.screen code = .ok screen) :
    ∃ after, keyed display c = some after ∧ Shows start origin after := by
  have cursor := shows.cursor
  have edited := shows.ordered.edited
  have short := shows.short
  dsimp only at cursor edited short
  refine ⟨⟨input, screen⟩, ?_, shows⟩
  rw [keyed, handled, isEcho, List.foldlM_cons, cgaputc_of_edit isEdited (by omega)]
  rfl

theorem cursorMoved (code : Int) {e : Nat} (ordered : Ordered { display.input with e })
    (handled : consoleintr display.input c = some { display.input with e })
    (isEcho : echo display.input c = [code])
    (isEdited : cgaEdit display.screen code =
      .ok { display.screen with pos := start + (e - display.input.w) }) :
    ∃ after, keyed display c = some after ∧ Shows start origin after :=
  echoed code _ { display.screen with pos := start + (e - display.input.w) }
    ⟨ordered, rfl, shows.line, shows.before, shows.short⟩ handled isEcho isEdited

theorem left : ∃ after, keyed display LEFT = some after ∧ Shows start origin after := by
  have isKey : keyOf LEFT = .left := by decide
  by_cases inLine : display.input.e = display.input.w
  · exact shows.ignored (by simp [consoleintr, isKey, Console.left, inLine]) (by simp [echo, isKey, inLine])
  · have isLeft := shows.ordered.left_eq inLine
    have written := shows.ordered.written
    have moved : start + (display.input.e - 1 - display.input.w) = display.screen.pos - 1 := by
      rw [shows.cursor]
      omega
    refine shows.cursorMoved LEFT.toNat (isLeft ▸ shows.ordered.left) ?_ ?_ ?_
    · rw [consoleintr, isKey, ← isLeft]
    · simp [echo, isKey, inLine]
    · rw [moved, cgaEdit, if_neg (by decide), if_neg (by decide), if_pos rfl,
        if_pos (by rw [shows.cursor]; omega)]
      rfl

theorem right : ∃ after, keyed display RIGHT = some after ∧ Shows start origin after := by
  have isKey : keyOf RIGHT = .right := by decide
  by_cases inLine : display.input.e < display.input.max
  · have isRight := shows.ordered.right_eq inLine
    have written := shows.ordered.written
    have moved : start + (display.input.e + 1 - display.input.w) = display.screen.pos + 1 := by
      rw [shows.cursor]
      omega
    refine shows.cursorMoved RIGHT.toNat (isRight ▸ shows.ordered.right) ?_ ?_ ?_
    · rw [consoleintr, isKey, ← isRight]
    · simp [echo, isKey, inLine]
    · rw [moved, cgaEdit, if_neg (by decide), if_neg (by decide), if_neg (by decide), if_pos rfl]
      rfl
  · exact shows.ignored (by simp [consoleintr, isKey, Console.right, inLine]) (by simp [echo, isKey, inLine])

theorem backspace (isKey : keyOf c = .backspace) :
    ∃ after, keyed display c = some after ∧ Shows start origin after := by
  by_cases inLine : display.input.e = display.input.w
  · exact shows.ignored (by simp [consoleintr, isKey, Console.backspace, inLine]) (by simp [echo, isKey, inLine])
  · have isDeleted := shows.ordered.backspace_eq inLine
    obtain ⟨_, isAfter, ordered⟩ := shows.ordered.backspace
    rw [isDeleted] at isAfter
    cases isAfter
    obtain ⟨-, written, edited, fits⟩ := shows.ordered
    have cursor := shows.cursor
    have short := shows.short
    refine echoed BACKSPACE display.input.deleted ⟨moved display.screen.crt (2 * (display.screen.pos - 1))
        (2 * (display.screen.pos - 1 + 1)) (2 * (24 * 80 - (display.screen.pos - 1))), display.screen.pos - 1⟩
      ⟨ordered, ?_, fun i fromW below => ?_, fun a inFront => ?_, ?_⟩ (by rw [consoleintr, isKey, isDeleted])
      (by simp [echo, isKey, inLine]) ?_
    · dsimp only [Input.deleted]
      omega
    · dsimp only [Input.deleted] at fromW below
      rw [get_deleted _ (by omega)]
      dsimp only [Input.deleted]
      split
      · have shown := shows.line (i + 1) (by omega) (by omega)
        refine Shown.moved (by omega) ?_
        rwa [show display.screen.pos - 1 + 1 + (start + (i - display.input.w) - (display.screen.pos - 1)) =
          start + (i + 1 - display.input.w) by omega]
      · exact (shows.line i fromW (by omega)).kept (by omega)
    · dsimp only
      rw [Xv6.moved, if_neg (by omega), shows.before a inFront]
    · dsimp only [Input.deleted]
      omega
    · rw [cgaEdit, if_neg (by decide), if_pos rfl, if_pos (by omega),
        moveCells_rest _ (by omega) (by omega) le_rfl]
      rfl

theorem printable (printable : Printable c) (types : Types start display c) :
    ∃ after, keyed display c = some after ∧ Shows start origin after := by
  have isKey := keyOf_printable printable
  by_cases accepted : accepts display.input c
  · have room := types.room printable
    have isNew : crToNl c = c := if_neg (printable.ne (by decide))
    have inLine : c ≠ newline := printable.ne (by decide)
    obtain ⟨-, written, edited, fits⟩ := shows.ordered
    have cursor := shows.cursor
    have full := accepted.2
    have small : CELLS = 2000 ∧ INPUT_BUF = 128 := ⟨rfl, rfl⟩
    refine echoed c.toNat (display.input.inserted c) ⟨cellSet (moved display.screen.crt (2 * (display.screen.pos + 1))
        (2 * display.screen.pos) (2 * (24 * 80 - display.screen.pos))) display.screen.pos c, display.screen.pos + 1⟩
      ⟨shows.ordered.inserted accepted.2 c, ?_, fun i fromW below => ?_, fun a inFront => ?_, ?_⟩ ?_
      (by simp [echo, isKey, accepted, isNew]) ?_
    · dsimp only [Input.inserted]
      omega
    · dsimp only [Input.inserted] at fromW below
      rw [get_inserted _ _ (by omega)]
      dsimp only [Input.inserted]
      split
      · exact ((shows.line i fromW (by omega)).kept (by omega)).set (by omega)
      · split
        · rw [show start + (i - display.input.w) = display.screen.pos by omega]
          exact .set_self _ _ c
        · rw [if_pos (by omega)]
          have shown := shows.line (i - 1) (by omega) (by omega)
          refine Shown.set (Shown.moved (by omega) ?_) (by omega)
          rwa [show display.screen.pos + (start + (i - display.input.w) - (display.screen.pos + 1)) =
            start + (i - 1 - display.input.w) by omega]
    · dsimp only
      rw [cellSet, update_of_ne (by omega), update_of_ne (by omega), Xv6.moved, if_neg (by omega),
        shows.before a inFront]
    · dsimp only [Input.inserted]
      omega
    · have unfilled : (display.input.inserted c).max ≠ addWord (display.input.inserted c).r INPUT_BUF := by
        dsimp only [Input.inserted]
        rw [addWord]
        have read := shows.ordered.read
        omega
      rw [consoleintr, isKey, if_pos accepted, shows.ordered.accept_eq accepted.2, isNew, if_neg inLine, submit,
        if_neg (not_or.mpr ⟨inLine, not_or.mpr ⟨printable.ne (by decide), unfilled⟩⟩)]
    · exact cgaEdit_printable _ (by omega) printable
  · exact shows.ignored (by simp [consoleintr, isKey, accepted]) (by simp [echo, isKey, accepted])

end

end Shows

/-- After each key the screen shows the line of the buffer. -/
theorem line_on_screen (start : Nat) (input : Input) (crt : Memory) (keys : List UInt8)
    (ordered : Ordered input) (empty : input.e = input.w ∧ input.max = input.w) (short : start < 24 * 80 - 1)
    (types : editing.Meets (Types start) ⟨input, crt, start⟩ keys) :
    ∃ final, editing.run ⟨input, crt, start⟩ keys = some final ∧ Shows start crt final := by
  have shows : Shows start crt ⟨input, crt, start⟩ := by
    refine ⟨ordered, ?_, fun i fromW below => ?_, fun _ _ => rfl, ?_⟩
    · dsimp only
      omega
    · dsimp only at fromW below
      omega
    · dsimp only
      omega
  generalize (⟨input, crt, start⟩ : Display) = display at shows types
  induction keys generalizing display with
  | nil => exact ⟨display, rfl, shows⟩
  | cons c rest ih =>
    obtain ⟨typed, later⟩ := types
    have step : ∃ after, keyed display c = some after ∧ Shows start crt after := by
      rcases typed.key with isPrintable | rfl | rfl | isBackspace
      · exact shows.printable isPrintable typed
      · exact shows.left
      · exact shows.right
      · exact shows.backspace isBackspace
    obtain ⟨after, stepped, shows'⟩ := step
    obtain ⟨final, ran, holds⟩ := ih after shows' (later after stepped)
    exact ⟨final, editing.run_cons_eq_some.mpr ⟨after, stepped, ran⟩, holds⟩

/-- `ab`, a `c` between them, and the `a` deleted. -/
theorem line_on_screen_inserted :
    ∃ final, editing.run ⟨⟨Bytes.zero, 0, 0, 0, 0⟩, fun _ => 0, 80⟩ [97, 98, LEFT, 99, LEFT, 127] = some final ∧
      Shows 80 (fun _ => 0) final :=
  line_on_screen 80 ⟨Bytes.zero, 0, 0, 0, 0⟩ (fun _ => 0) _ ⟨le_rfl, le_rfl, le_rfl, by decide⟩ ⟨rfl, rfl⟩ (by decide)
    (by decide +kernel)

end Xv6.Console
