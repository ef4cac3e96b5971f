import X25.Proofs.Assembly.Lines

/-! # Whole sources

Every line of a source is read on its own, and the first line that is refused is the error of the
whole source, whatever comes after it. So a source put together from two that assemble gives the
words of both, and an error in its second part is counted on from the first.
-/

namespace X25

def SourceError.shift (k : Nat) (e : SourceError) : SourceError :=
  { e with line := e.line + k }

namespace Assembly

open Statement

def sourceLines (source : String) : List String :=
  (Text.lines source.toList).map String.ofList

def linePair? (line : String) : Option WordPair :=
  (assembleLine line).toOption.join

def lineWords (line : String) : List Word :=
  (linePair? line).toList.flatMap WordPair.toList

def IsAccepted (line : String) : Prop :=
  ∃ r, assembleLine line = .ok r

variable {ls ms : List String} {l source : String} {words : List Word} {d e : SourceError}

theorem lines_eq_map_sourceLines (source : String) :
    Text.lines source.toList = (sourceLines source).map String.toList := by
  simp [sourceLines, Function.comp_def]

section Numbers

/-- The number of a line is that of its error, and counts for nothing else. -/
theorem assembleNumbered_eq_mapError (n : Nat) (l : String) :
    assembleNumbered n l.toList = (assembleLine l).mapError ({ · with line := n }) := by
  unfold assembleLine assembleNumbered
  cases ofLine l.toList <;> rfl

theorem assembleNumbered_add (n k : Nat) (cs : List Char) :
    assembleNumbered (n + k) cs = (assembleNumbered n cs).mapError (SourceError.shift k) := by
  unfold assembleNumbered
  cases ofLine cs <;> rfl

theorem assembleLines_add (n k : Nat) (ls : List (List Char)) :
    assembleLines (n + k) ls = (assembleLines n ls).mapError (SourceError.shift k) := by
  induction ls generalizing n with
  | nil => rfl
  | cons cs ls ih =>
    rw [assembleLines, assembleLines, assembleNumbered_add, Nat.add_right_comm, ih]
    cases assembleNumbered n cs with
    | error e => rfl
    | ok p => cases assembleLines (n + 1) ls <;> rfl

end Numbers

section Accepted

theorem assembleNumbered_of_isAccepted (h : IsAccepted l) (n : Nat) :
    assembleNumbered n l.toList = .ok (linePair? l) := by
  obtain ⟨r, hr⟩ := h
  rw [assembleNumbered_eq_mapError, linePair?, hr]
  rfl

theorem assembleLines_append (n : Nat) (ls ms : List (List Char)) :
    assembleLines n (ls ++ ms) = do
      let ps ← assembleLines n ls
      let qs ← assembleLines (n + ls.length) ms
      return ps ++ qs := by
  induction ls generalizing n with
  | nil =>
    show assembleLines n ms = (assembleLines n ms >>= pure)
    exact (bind_pure _).symm
  | cons cs ls ih =>
    have hn : n + 1 + ls.length = n + (cs :: ls).length := by
      simp only [List.length_cons]
      omega
    simp only [List.cons_append, assembleLines, ih, hn, bind_assoc, pure_bind, List.append_assoc]

theorem assembleLines_of_forall (h : ∀ l ∈ ls, IsAccepted l) (n : Nat) :
    assembleLines n (ls.map String.toList) = .ok (ls.flatMap fun l => (linePair? l).toList) := by
  induction ls generalizing n with
  | nil => rfl
  | cons l ls ih =>
    have hl := assembleNumbered_of_isAccepted (h l List.mem_cons_self) n
    have hs := ih (fun m hm => h m (List.mem_cons_of_mem l hm)) (n + 1)
    rw [List.map_cons, assembleLines, hl, hs]
    rfl

theorem assembleLines_of_first (h : ∀ l ∈ ls, IsAccepted l) (hl : assembleLine l = .error d)
    (n : Nat) (ms : List String) : assembleLines n ((ls ++ l :: ms).map String.toList) =
      .error { d with line := n + ls.length } := by
  have hn : assembleNumbered (n + ls.length) l.toList =
      .error { d with line := n + ls.length } := by
    rw [assembleNumbered_eq_mapError, hl]
    rfl
  rw [List.map_append, assembleLines_append, assembleLines_of_forall h, List.length_map,
    List.map_cons, assembleLines, hn]
  rfl

theorem forall_isAccepted_or_first (ls : List String) :
    (∀ l ∈ ls, IsAccepted l) ∨ ∃ before l after d, ls = before ++ l :: after ∧
      (∀ b ∈ before, IsAccepted b) ∧ assembleLine l = .error d := by
  induction ls with
  | nil => exact .inl (by simp)
  | cons l ls ih =>
    cases hl : assembleLine l with
    | error d => exact .inr ⟨[], l, ls, d, rfl, by simp, hl⟩
    | ok r =>
      rcases ih with h | ⟨before, m, after, d, rfl, hb, hm⟩
      · exact .inl (List.forall_mem_cons.mpr ⟨⟨r, hl⟩, h⟩)
      · exact .inr ⟨l :: before, m, after, d, rfl, List.forall_mem_cons.mpr ⟨⟨r, hl⟩, hb⟩, hm⟩

end Accepted

section Joining

theorem tokens_dropReturn (cs : List Char) : tokens (Text.dropReturn cs) = tokens cs := by
  rw [Text.dropReturn]
  split
  · next h =>
    have hr : isSeparator '\r' = true := by decide
    obtain ⟨cs, rfl⟩ := List.getLast?_eq_some_iff.mp h
    rw [List.dropLast_concat, tokens_eq_pieces, tokens_eq_pieces, List.takeWhile_append]
    split
    · next hl =>
      rw [List.takeWhile_cons_of_pos (by decide), List.takeWhile_nil, pieces_append_cons hr,
        pieces_nil, List.append_nil, (List.takeWhile_prefix _).eq_of_length hl]
    · rfl
  · rfl

theorem assembleNumbered_dropReturn (n : Nat) (cs : List Char) :
    assembleNumbered n (Text.dropReturn cs) = assembleNumbered n cs := by
  simp only [assembleNumbered, ofLine, tokens_dropReturn]

/-- A line feed after the last line changes nothing: the line may lose a return, and an empty line
may be added. -/
theorem assembleLines_map_dropReturn (n : Nat) (pieces : List (List Char)) :
    assembleLines n (pieces.map Text.dropReturn) =
      assembleLines n (Text.linesOfPieces pieces) := by
  induction pieces using Text.linesOfPieces.induct generalizing n with
  | case1 => rfl
  | case2 last h =>
    obtain rfl := List.isEmpty_iff.mp h
    rfl
  | case3 last h =>
    simp only [Text.linesOfPieces, h, List.map_cons, List.map_nil, assembleLines,
      assembleNumbered_dropReturn]
    rfl
  | case4 piece rest hr ih =>
    have hl : Text.linesOfPieces (piece :: rest) =
        Text.dropReturn piece :: Text.linesOfPieces rest := by
      rw [Text.linesOfPieces]
      exact hr
    rw [hl, List.map_cons, assembleLines, assembleLines, ih]

theorem lines_append_feed_append (s t : String) :
    Text.lines (s ++ "\n" ++ t).toList =
      Text.lines (s ++ "\n").toList ++ Text.lines t.toList := by
  have hs : (s ++ "\n").toList = s.toList ++ '\n' :: [] := by simp
  have ht : (s ++ "\n" ++ t).toList = s.toList ++ '\n' :: t.toList := by simp
  rw [hs, ht, Text.lines_append_cons, Text.lines_append_cons, Text.lines_nil, List.append_nil]

theorem assemblePairs_feed (s : String) : assemblePairs (s ++ "\n") = assemblePairs s := by
  have hs : (s ++ "\n").toList = s.toList ++ '\n' :: [] := by simp
  rw [assemblePairs, hs, Text.lines_append_cons, Text.lines_nil, List.append_nil,
    assembleLines_map_dropReturn]
  rfl

/-- A source after another is assembled after it, with its lines counted on. -/
theorem assemble_append (s t : String) :
    assemble (s ++ "\n" ++ t) = do
      let ws ← assemble s
      let vs ← (assemble t).mapError (.shift (sourceLines (s ++ "\n")).length)
      return ws ++ vs := by
  have hp : assemblePairs (s ++ "\n" ++ t) = do
      let ps ← assemblePairs s
      let qs ← (assemblePairs t).mapError (.shift (sourceLines (s ++ "\n")).length)
      return ps ++ qs := by
    rw [← assemblePairs_feed s, assemblePairs, lines_append_feed_append, assembleLines_append,
      assembleLines_add, sourceLines, List.length_map]
    rfl
  rw [assemble, assemble, assemble, hp]
  cases assemblePairs s with
  | error e => rfl
  | ok ps =>
    cases assemblePairs t with
    | error e => rfl
    | ok qs => exact congrArg Except.ok List.flatMap_append

end Joining

theorem assemble_of_forall (h : ∀ l ∈ sourceLines source, IsAccepted l) :
    assemble source = .ok ((sourceLines source).flatMap lineWords) := by
  rw [assemble, assemblePairs, lines_eq_map_sourceLines, assembleLines_of_forall h]
  exact congrArg Except.ok List.flatMap_assoc

theorem assemble_of_first (hs : sourceLines source = ls ++ l :: ms)
    (h : ∀ b ∈ ls, IsAccepted b) (hl : assembleLine l = .error d) :
    assemble source = .error { d with line := ls.length + 1 } := by
  rw [assemble, assemblePairs, lines_eq_map_sourceLines, hs, assembleLines_of_first h hl,
    Nat.add_comm]
  rfl

theorem assemble_eq_ok_iff : assemble source = .ok words ↔
    (∀ l ∈ sourceLines source, IsAccepted l) ∧
      words = (sourceLines source).flatMap lineWords := by
  constructor
  · intro h
    rcases forall_isAccepted_or_first (sourceLines source) with ha | ⟨_, _, _, d, hs, hb, hd⟩
    · rw [assemble_of_forall ha] at h
      exact ⟨ha, (Except.ok.inj h).symm⟩
    · rw [assemble_of_first hs hb hd] at h
      cases h
  · rintro ⟨ha, rfl⟩
    exact assemble_of_forall ha

theorem assemble_eq_error_iff : assemble source = .error e ↔
    ∃ before l after d, sourceLines source = before ++ l :: after ∧
      (∀ b ∈ before, IsAccepted b) ∧ assembleLine l = .error d ∧
      e = { d with line := before.length + 1 } := by
  constructor
  · intro h
    rcases forall_isAccepted_or_first (sourceLines source) with
      ha | ⟨before, l, after, d, hs, hb, hd⟩
    · rw [assemble_of_forall ha] at h
      cases h
    · rw [assemble_of_first hs hb hd] at h
      exact ⟨before, l, after, d, hs, hb, hd, (Except.error.inj h).symm⟩
  · rintro ⟨before, l, after, d, hs, hb, hd, rfl⟩
    exact assemble_of_first hs hb hd

theorem assemble_pairText (p : WordPair) : assemble (pairText p) = .ok p.toList := by
  obtain ⟨s, hs, rfl⟩ := words_ofLine_pairText p
  have ht : (pairText s.words ++ "\n").toList = (pairText s.words).toList ++ '\n' :: [] := by simp
  have hl : assembleNumbered 1 (Text.dropReturn (pairText s.words).toList) =
      .ok (some s.words) := by
    rw [assembleNumbered_dropReturn, assembleNumbered_of_ofLine hs, Option.map_some]
  unfold assemble
  rw [← assemblePairs_feed, assemblePairs, ht, Text.lines_append_feed (feed_not_mem_pairText _),
    Text.lines_nil, assembleLines_cons_of_ok hl rfl]
  simp [bind, Except.bind, pure, Except.pure]

/-- A source assembles exactly if each of its lines does on its own, and to their words in order,
two for each line with a statement. It is refused exactly with the error of the first line that is,
under the number of this line, whatever comes after. So two sources, one after the other, give the
words of the first and then those of the second, and an error of the second is counted on. -/
theorem assemble_by_lines :
    (∀ source words, assemble source = .ok words ↔
      (∀ l ∈ sourceLines source, IsAccepted l) ∧
        words = (sourceLines source).flatMap lineWords) ∧
    (∀ source words, assemble source = .ok words →
      words.length = 2 * (statementLines source).length) ∧
    (∀ source e, assemble source = .error e ↔
      ∃ before l after d, sourceLines source = before ++ l :: after ∧
        (∀ b ∈ before, IsAccepted b) ∧ assembleLine l = .error d ∧
        e = { d with line := before.length + 1 }) ∧
    (∀ s t ws vs, assemble s = .ok ws → assemble t = .ok vs →
      assemble (s ++ "\n" ++ t) = .ok (ws ++ vs)) ∧
    ∀ s t ws e, assemble s = .ok ws → assemble t = .error e →
      assemble (s ++ "\n" ++ t) =
        .error { e with line := e.line + (sourceLines (s ++ "\n")).length } := by
  refine ⟨fun _ _ => assemble_eq_ok_iff, fun _ _ => length_of_assemble,
    fun _ _ => assemble_eq_error_iff, ?_, ?_⟩
  · intro s t ws vs hs ht
    rw [assemble_append, hs, ht]
    rfl
  · intro s t ws e hs ht
    rw [assemble_append, hs, ht]
    rfl

/-- A source of three lines, one of them empty, without a line end at its last, before another and
before one that is refused in its third line. -/
theorem assemble_by_lines_joined :
    let s := "inc gp1 ; once\r\n\nSUBNZ GP1, GP2"
    let t := "; twice\nNOP\r\n"
    let u := "\nNOP\nMUL GP1\nFOO 2"
    let i : Instruction := .immediate .aopi .always (.gp 1) .incrementA 0
    let j : Instruction := .register .aopr .nz (.gp 1) (.gp 2) .subtractB
    let k : Instruction := .jump .nop .always 0
    assemble s = .ok (i.encode.toList ++ j.encode.toList) ∧
      (statementLines s).length = 2 ∧
      assemble t = .ok k.encode.toList ∧
      assemble (s ++ "\n" ++ t) =
        .ok (i.encode.toList ++ j.encode.toList ++ k.encode.toList) ∧
      assemble u = .error ⟨3, .operandCount "MUL" 2 1⟩ ∧
      assemble (s ++ "\n" ++ u) = .error ⟨6, .operandCount "MUL" 2 1⟩ := by
  intro s t u i j k
  obtain ⟨ho, hn, he, ha, hr⟩ := assemble_by_lines
  have hs : assemble s = .ok (i.encode.toList ++ j.encode.toList) := by
    refine (ho s _).mpr ⟨fun l hl => ?_, by decide +kernel⟩
    have hm : sourceLines s = ["inc gp1 ; once", "", "SUBNZ GP1, GP2"] := by decide +kernel
    rw [hm] at hl
    simp only [List.mem_cons, List.not_mem_nil, or_false] at hl
    rcases hl with rfl | rfl | rfl
    · exact ⟨some i.encode, by decide +kernel⟩
    · exact ⟨none, by decide +kernel⟩
    · exact ⟨some j.encode, by decide +kernel⟩
  have ht : assemble t = .ok k.encode.toList := by decide +kernel
  have hu : assemble u = .error ⟨3, .operandCount "MUL" 2 1⟩ := by
    refine (he u _).mpr ⟨["", "NOP"], "MUL GP1", ["FOO 2"], ⟨1, .operandCount "MUL" 2 1⟩,
      by decide +kernel, fun b hb => ?_, by decide +kernel, rfl⟩
    simp only [List.mem_cons, List.not_mem_nil, or_false] at hb
    rcases hb with rfl | rfl
    · exact ⟨none, by decide +kernel⟩
    · exact ⟨some k.encode, by decide +kernel⟩
  have hk : (sourceLines (s ++ "\n")).length = 3 := by decide +kernel
  have hl : 4 = 2 * (statementLines s).length := hn s _ hs
  refine ⟨hs, by omega, ht, ha s t _ _ hs ht, hu, ?_⟩
  rw [hr s u _ _ hs hu, hk]

end Assembly

end X25
