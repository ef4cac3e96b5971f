import X25.Assembly.Printer

/-! # Tokens of printed lines

A line that was put together from tokens is cut into the same tokens again, also after blanks and a
comment were added to it.
-/

namespace X25

namespace Statement

def isPlain (c : Char) : Bool :=
  !isSeparator c && c != ';'

theorem isPlain_iff {c : Char} : isPlain c = true ↔ isSeparator c = false ∧ c ≠ ';' := by
  simp [isPlain]

def IsToken (t : String) : Prop :=
  t.toList ≠ [] ∧ t.toList.all isPlain = true

instance (t : String) : Decidable (IsToken t) :=
  inferInstanceAs (Decidable (_ ∧ _))

def pieces (cs : List Char) : List String :=
  ((cs.splitOnP isSeparator).filter (!·.isEmpty)).map String.ofList

theorem tokens_eq_pieces (cs : List Char) : tokens cs = pieces (cs.takeWhile (· != ';')) := rfl

theorem pieces_append_cons {c : Char} (h : isSeparator c = true) (cs ds : List Char) :
    pieces (cs ++ c :: ds) = pieces cs ++ pieces ds := by
  simp only [pieces, List.splitOnP_append_cons cs ds h, List.filter_append, List.map_append]

theorem pieces_nil : pieces [] = [] := by
  simp [pieces]

theorem pieces_replicate_blank (n : Nat) : pieces (List.replicate n ' ') = [] := by
  induction n with
  | zero => exact pieces_nil
  | succ n ih =>
    have hs : isSeparator ' ' = true := by decide
    rw [List.replicate_succ, ← List.nil_append (' ' :: _), pieces_append_cons hs, ih, pieces_nil]
    rfl

theorem pieces_append_blanks (cs : List Char) (n : Nat) :
    pieces (cs ++ List.replicate n ' ') = pieces cs := by
  cases n with
  | zero => rw [List.replicate_zero, List.append_nil]
  | succ n =>
    have hs : isSeparator ' ' = true := by decide
    rw [List.replicate_succ, pieces_append_cons hs, pieces_replicate_blank, List.append_nil]

theorem IsToken.isPlain {t : String} (h : IsToken t) {c : Char} (hc : c ∈ t.toList) :
    isSeparator c = false ∧ c ≠ ';' :=
  isPlain_iff.mp (List.all_eq_true.mp h.2 c hc)

theorem pieces_token {t : String} (h : IsToken t) : pieces t.toList = [t] := by
  have hs : t.toList.splitOnP isSeparator = [t.toList] :=
    List.splitOnP_eq_singleton fun c hc => (h.isPlain hc).1
  have he : t.toList.isEmpty = false := List.isEmpty_eq_false_iff.mpr h.1
  simp [pieces, hs, he]

/-- Blanks and a comment at the end of a line, which may hold a comment before, change nothing. -/
theorem tokens_append_comment (cs rest : List Char) (n : Nat) :
    tokens (cs ++ List.replicate n ' ' ++ ';' :: rest) = tokens cs := by
  have hb : ∀ c ∈ List.replicate n ' ', (c != ';') = true := by
    intro c hc
    rw [List.eq_of_mem_replicate hc]
    decide
  rw [tokens_eq_pieces, tokens_eq_pieces, List.append_assoc, List.takeWhile_append]
  split
  · next h =>
    have ht : cs.takeWhile (· != ';') = cs :=
      (List.takeWhile_prefix _).eq_of_length h
    rw [List.takeWhile_append_of_pos hb, List.takeWhile_cons_of_neg (by simp), List.append_nil,
      pieces_append_blanks, ht]
  · rfl

theorem tokens_eq_nil_of_comment (rest : List Char) : tokens (';' :: rest) = [] := by
  rw [tokens_eq_pieces, List.takeWhile_cons_of_neg (by simp), pieces_nil]

end Statement

namespace SourceLine

open Statement

def IsProper (l : SourceLine) : Prop :=
  ∀ t ∈ l.head.text :: l.operands, IsToken t

theorem pieces_intercalate {ts : List String} (h : ∀ t ∈ ts, IsToken t) :
    pieces (String.intercalate ", " ts).toList = ts := by
  rw [String.toList_intercalate]
  induction ts with
  | nil => exact pieces_nil
  | cons t ts ih =>
    have ht := pieces_token (h t List.mem_cons_self)
    have hs := ih fun u hu => h u (List.mem_cons_of_mem t hu)
    cases ts with
    | nil => simpa using ht
    | cons u ts =>
      have hc : isSeparator ',' = true := by decide
      have hb : isSeparator ' ' = true := by decide
      rw [List.map_cons, List.map_cons, List.intercalate_cons_cons, List.append_assoc]
      show pieces (t.toList ++ ',' :: ([] ++ ' ' :: _)) = _
      rw [pieces_append_cons hc, pieces_append_cons hb, pieces_nil, List.nil_append, ht]
      exact congrArg (t :: ·) hs

theorem pieces_text {l : SourceLine} (h : l.IsProper) :
    pieces l.text.toList = l.head.text :: l.operands := by
  have hh := pieces_token (h _ List.mem_cons_self)
  have ho := pieces_intercalate fun t ht => h t (List.mem_cons_of_mem _ ht)
  have hb : isSeparator ' ' = true := by decide
  rw [text]
  split
  · next hn => rw [hn, hh]
  · rw [String.toList_append, String.toList_append, List.append_assoc]
    show pieces (l.head.text.toList ++ ' ' :: (String.intercalate ", " l.operands).toList) = _
    rw [pieces_append_cons hb, hh, ho]
    rfl

theorem mem_intercalate {ts : List String} {c : Char}
    (hc : c ∈ (String.intercalate ", " ts).toList) :
    c = ' ' ∨ c = ',' ∨ ∃ t ∈ ts, c ∈ t.toList := by
  rw [String.toList_intercalate] at hc
  induction ts with
  | nil => cases hc
  | cons t ts ih =>
    cases ts with
    | nil => exact .inr (.inr ⟨t, List.mem_singleton_self t, by simpa using hc⟩)
    | cons u ts =>
      rw [List.map_cons, List.map_cons, List.intercalate_cons_cons, List.mem_append,
        List.mem_append] at hc
      obtain (hc | hc) | hc := hc
      · exact .inr (.inr ⟨t, List.mem_cons_self, hc⟩)
      · obtain rfl | rfl : c = ',' ∨ c = ' ' := by simpa using hc
        · exact .inr (.inl rfl)
        · exact .inl rfl
      · obtain hc | hc | ⟨v, hv, hc⟩ := ih hc
        · exact .inl hc
        · exact .inr (.inl hc)
        · exact .inr (.inr ⟨v, List.mem_cons_of_mem t hv, hc⟩)

theorem mem_text {l : SourceLine} {c : Char} (hc : c ∈ l.text.toList) :
    c = ' ' ∨ c = ',' ∨ ∃ t ∈ l.head.text :: l.operands, c ∈ t.toList := by
  rw [text] at hc
  split at hc
  · exact .inr (.inr ⟨_, List.mem_cons_self, hc⟩)
  · rw [String.toList_append, String.toList_append, List.mem_append, List.mem_append] at hc
    obtain (hc | hc) | hc := hc
    · exact .inr (.inr ⟨_, List.mem_cons_self, hc⟩)
    · exact .inl (by simpa using hc)
    · obtain hc | hc | ⟨t, ht, hc⟩ := mem_intercalate hc
      · exact .inl hc
      · exact .inr (.inl hc)
      · exact .inr (.inr ⟨t, List.mem_cons_of_mem _ ht, hc⟩)

theorem ne_of_mem_text {l : SourceLine} (h : l.IsProper) {c : Char} (hc : c ∈ l.text.toList) :
    c ≠ ';' ∧ c ≠ '\n' := by
  obtain rfl | rfl | ⟨t, ht, hc⟩ := mem_text hc
  · decide
  · decide
  · obtain ⟨hs, hsc⟩ := (h t ht).isPlain hc
    refine ⟨hsc, ?_⟩
    rintro rfl
    exact absurd hs (by decide)

/-- A proper line is cut into the parts it was made of. -/
theorem tokens_text {l : SourceLine} (h : l.IsProper) :
    tokens l.text.toList = l.head.text :: l.operands := by
  have hp : ∀ c ∈ l.text.toList, (c != ';') = true := fun c hc => by
    simpa using (ne_of_mem_text h hc).1
  have ht : (l.text.toList ++ []).takeWhile (· != ';') = l.text.toList ++ [].takeWhile _ :=
    List.takeWhile_append_of_pos hp
  rw [List.append_nil, List.takeWhile_nil, List.append_nil] at ht
  rw [tokens_eq_pieces, ht, pieces_text h]

end SourceLine

end X25
