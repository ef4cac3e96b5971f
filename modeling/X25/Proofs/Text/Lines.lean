import X25.Text.Lines

/-! # Cutting off lines

A text that is cut after a line feed has the lines of both parts; after a line and its line feed, it
has this line and the lines of the rest.
-/

namespace X25.Text

theorem lines_nil : lines [] = [] := by
  simp [lines, linesOfPieces]

theorem linesOfPieces_append (ps : List (List Char)) {qs : List (List Char)} (h : qs ≠ []) :
    linesOfPieces (ps ++ qs) = ps.map dropReturn ++ linesOfPieces qs := by
  induction ps with
  | nil => rfl
  | cons p ps ih =>
    obtain ⟨r, rs, hr⟩ := List.exists_cons_of_ne_nil (List.append_ne_nil_of_right_ne_nil ps h)
    rw [List.cons_append, hr, linesOfPieces, ← hr, ih]
    · rfl
    · simp

theorem lines_append_cons (s t : List Char) :
    lines (s ++ '\n' :: t) = (s.splitOn '\n').map dropReturn ++ lines t := by
  have hs : (s ++ '\n' :: t).splitOn '\n' = s.splitOn '\n' ++ t.splitOn '\n' :=
    List.splitOnP_append_cons s t (by simp)
  rw [lines, hs, linesOfPieces_append _ (List.splitOn_ne_nil _ _), lines]

theorem lines_append_feed {l : List Char} (h : '\n' ∉ l) (rest : List Char) :
    lines (l ++ '\n' :: rest) = dropReturn l :: lines rest := by
  have hs : l.splitOn '\n' = [l] := List.splitOnP_eq_singleton fun c hc => by
    rw [beq_eq_false_iff_ne]
    rintro rfl
    exact h hc
  rw [lines_append_cons, hs]
  rfl

/-- A return is taken away only after the last character that is another. -/
theorem dropReturn_append_cons {c : Char} (hc : c ≠ '\r') (a b : List Char) :
    ∃ b', dropReturn (a ++ c :: b) = a ++ c :: b' := by
  rw [dropReturn]
  split
  · next h =>
    cases b with
    | nil =>
      rw [List.getLast?_append] at h
      exact absurd (Option.some.inj h) hc
    | cons d b =>
      refine ⟨(d :: b).dropLast, ?_⟩
      rw [List.dropLast_append_of_ne_nil (List.cons_ne_nil c _), List.dropLast_cons_cons]
  · exact ⟨b, rfl⟩

end X25.Text
