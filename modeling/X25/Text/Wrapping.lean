/-! # Wrapping of lines

A line that is too wide becomes several rows. A row ends after a word, and a word that is wider
than a row is cut. Blanks that would still fit at the end of a row are dropped there, and the others
start the next row. If only blanks are left for the last row, an empty row comes before it. Main
statement: wrapping loses nothing that can be seen.
-/

namespace X25.Text

/-- A line on the way to its rows: the finished rows with the last one first, the row that is
being filled, and the blanks and the word that come next. -/
structure Wrapping where
  finished : List (List Char)
  row : List Char
  blanks : Nat
  word : List Char
  afterWord : Bool
  deriving DecidableEq, Repr

namespace Wrapping

def start : Wrapping :=
  ⟨[], [], 0, [], false⟩

def pending (w : Wrapping) : List Char :=
  w.row ++ .replicate w.blanks ' ' ++ w.word

def pendingWidth (w : Wrapping) : Nat :=
  w.row.length + w.blanks + w.word.length

def settle (w : Wrapping) : Wrapping :=
  { w with row := w.pending, blanks := 0, word := [] }

theorem pending_settle (w : Wrapping) : w.settle.pending = w.pending := by
  simp [settle, pending]

/-- Finishes the row. The blanks that fit at its end are dropped. -/
def finishRow (width : Nat) (w : Wrapping) : Wrapping :=
  { w with
    finished := w.row :: w.finished
    row := []
    blanks := w.blanks - (width - w.row.length) }

def append (w : Wrapping) (c : Char) : Wrapping :=
  if c = ' ' then { w with blanks := w.blanks + 1, afterWord := false }
  else { w with word := w.word ++ [c], afterWord := true }

def isFull (width : Nat) (w : Wrapping) : Bool :=
  w.row.isEmpty && decide (width ≤ w.pendingWidth)

/-- Adds a character, after finishing the row if nothing more fits. A blank at which a row ends is
dropped. -/
def put (width : Nat) (w : Wrapping) (c : Char) : Wrapping :=
  if w.pendingWidth < width then w.append c
  else if c = ' ' ∧ (w.finishRow width).blanks = 0 then w.finishRow width
  else (w.finishRow width).append c

/-- Takes one more character, and settles the row first if it ends a word. -/
def push (width : Nat) (w : Wrapping) (c : Char) : Wrapping :=
  if (w.afterWord && c == ' ') || w.isFull width then w.settle.put width c else w.put width c

/-- The finished rows, and an empty one if only blanks are left. -/
def ended (w : Wrapping) : List (List Char) :=
  if w.row = [] ∧ w.word = [] ∧ w.blanks ≠ 0 then [] :: w.finished else w.finished

def rows (w : Wrapping) : List (List Char) :=
  if w.pending ≠ [] ∨ w.ended = [] then (w.pending :: w.ended).reverse else w.ended.reverse

end Wrapping

/-- The rows of a line at a width. -/
def wrap (width : Nat) (line : List Char) : List (List Char) :=
  (line.foldl (Wrapping.push width) .start).rows

def visible (cs : List Char) : List Char :=
  cs.filter (· ≠ ' ')

namespace Wrapping

def visible (w : Wrapping) : List Char :=
  Text.visible (w.finished.reverse.flatten ++ w.pending)

theorem visible_settle (w : Wrapping) : w.settle.visible = w.visible := by
  rw [visible, pending_settle]; rfl

theorem visible_finishRow (width : Nat) (w : Wrapping) :
    (w.finishRow width).visible = w.visible := by
  simp [visible, Text.visible, finishRow, pending]

theorem visible_append (w : Wrapping) (c : Char) :
    (w.append c).visible = w.visible ++ Text.visible [c] := by
  by_cases h : c = ' ' <;> simp [visible, Text.visible, append, pending, h]

theorem visible_put (width : Nat) (w : Wrapping) (c : Char) :
    (w.put width c).visible = w.visible ++ Text.visible [c] := by
  unfold put
  split
  · exact visible_append w c
  · split
    · rename_i h
      rw [visible_finishRow, h.1]; simp [Text.visible]
    · rw [visible_append, visible_finishRow]

theorem visible_push (width : Nat) (w : Wrapping) (c : Char) :
    (w.push width c).visible = w.visible ++ Text.visible [c] := by
  unfold push
  split
  · rw [visible_put, visible_settle]
  · exact visible_put width w c

theorem visible_foldl_push (width : Nat) (w : Wrapping) (line : List Char) :
    (line.foldl (push width) w).visible = w.visible ++ Text.visible line := by
  induction line generalizing w with
  | nil => simp [Text.visible]
  | cons c line ih =>
    rw [List.foldl_cons, ih, visible_push, List.append_assoc]
    simp [Text.visible, ← List.filter_append]

theorem flatten_reverse_ended (w : Wrapping) :
    w.ended.reverse.flatten = w.finished.reverse.flatten := by
  unfold ended
  split <;> simp

theorem visible_rows (w : Wrapping) : Text.visible w.rows.flatten = w.visible := by
  unfold rows
  split
  · simp [visible, flatten_reverse_ended]
  · rename_i h
    have hp : w.pending = [] := Decidable.byContradiction fun hp => h (.inl hp)
    simp [visible, flatten_reverse_ended, hp]

end Wrapping

/-- Wrapping loses nothing that can be seen and keeps its order. -/
theorem visible_wrap (width : Nat) (line : List Char) :
    visible (wrap width line).flatten = visible line := by
  rw [wrap, Wrapping.visible_rows, Wrapping.visible_foldl_push]
  rfl

end X25.Text
