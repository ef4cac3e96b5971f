import X25.Proofs.Assembly.Canonical

/-! # Where raw words are shown

The text of a well-formed instruction stands for its canonical form, so it stands for the words of
the instruction itself only if this is canonical. A pair of words is therefore shown by the text of
its instruction wherever this says everything about it, and as raw words wherever it does not or
there is no instruction.
-/

namespace X25

namespace Instruction

variable {i : Instruction}

theorem isWellFormed_canonical (i : Instruction) : i.canonical.isWellFormed = i.isWellFormed := by
  rw [isWellFormed, isWellFormed, opcode_canonical, format_canonical]

/-- Of well-formed instructions, each has words of its own. -/
theorem encode_canonical_iff (h : i.isWellFormed = true) :
    i.canonical.encode = i.encode ↔ i.canonical = i := by
  constructor
  · intro he
    have hc := decode_encode ((isWellFormed_canonical i).trans h)
    rw [he, decode_encode h] at hc
    exact (Except.ok.inj hc).symm
  · exact congrArg encode

end Instruction

namespace Assembly

open Instruction

variable {p : WordPair} {i : Instruction}

theorem standsFor_text_iff (h : i.isWellFormed = true) :
    standsFor i.text i.encode = true ↔ i.canonical = i := by
  simp [standsFor, assembleLine_text_canonical h, encode_canonical_iff h]

theorem pairText_of_decode (h : decode p = .ok i) :
    pairText p = if i.canonical = i then i.text else (rawLine p).text := by
  obtain ⟨hw, rfl⟩ := decode_eq_ok.mp h
  simp only [pairText, h, standsFor_text_iff hw]

theorem pairText_of_decode_error {e : DecodeError} (h : decode p = .error e) :
    pairText p = (rawLine p).text := by
  simp only [pairText, h]

def StartsRaw (text : String) : Prop :=
  ".WORD".toList <+: text.toList

theorem exists_text_eq_append (l : SourceLine) :
    ∃ rest, l.text.toList = l.head.mnemonic.text.toList ++ rest := by
  rw [SourceLine.text]
  split
  · exact ⟨l.head.condition.suffix.toList, by simp [Head.text]⟩
  · refine ⟨l.head.condition.suffix.toList ++ " ".toList ++
      (String.intercalate ", " l.operands).toList, ?_⟩
    simp only [Head.text, String.toList_append, List.append_assoc]

theorem startsRaw_rawLine (p : WordPair) : StartsRaw (rawLine p).text := by
  obtain ⟨rest, hr⟩ := exists_text_eq_append (rawLine p)
  exact ⟨rest, hr.symm⟩

theorem not_startsRaw_text (i : Instruction) : ¬ StartsRaw i.text := by
  have hm : ∀ m ∈ Mnemonic.all, m ≠ .words →
      m.text.toList.head?.any (· != '.') = true := by
    decide
  have hi := hm _ i.line.head.mnemonic.mem_all i.mnemonic_line_ne_words
  obtain ⟨rest, hr⟩ := exists_text_eq_append i.line
  rintro ⟨more, hp⟩
  rw [text, hr] at hp
  cases hs : i.line.head.mnemonic.text.toList with
  | nil => simp [hs] at hi
  | cons c cs =>
    rw [hs] at hp hi
    obtain rfl : '.' = c := (List.cons.inj hp).1
    simp at hi

theorem startsRaw_pairText_iff : StartsRaw (pairText p) ↔
    (∃ e, decode p = .error e) ∨ ∃ i, decode p = .ok i ∧ i.canonical ≠ i := by
  cases h : decode p with
  | error e => simp [pairText_of_decode_error h, startsRaw_rawLine]
  | ok i =>
    by_cases hc : i.canonical = i
    · simp [pairText_of_decode h, hc, not_startsRaw_text]
    · simp [pairText_of_decode h, hc, startsRaw_rawLine]

/-- The text of a well-formed instruction stands for the words of its canonical form. So raw words
are shown exactly for the pairs that do not decode or decode to an instruction that is not
canonical, and every other pair is shown by the text of its instruction. -/
theorem raw_words_shown :
    (∀ i : Instruction, i.isWellFormed = true →
      assembleLine i.text = .ok (some i.canonical.encode)) ∧
    (∀ p, StartsRaw (pairText p) ↔
      (∃ e, decode p = .error e) ∨ ∃ i, decode p = .ok i ∧ i.canonical ≠ i) ∧
    ∀ p i, decode p = .ok i → i.canonical = i → pairText p = i.text := by
  refine ⟨fun i => assembleLine_text_canonical, fun p => startsRaw_pairText_iff, fun p i h hc => ?_⟩
  rw [pairText_of_decode h, if_pos hc]

/-- A multiplication with microcode, which its text leaves out, and a decrement, which is shown by
its alias. -/
theorem raw_words_shown_multiplying :
    let i : Instruction := .register .mul .ng (.gp 12) .mar .disjunction
    let j : Instruction := .immediate .aopi .always .pc .decrementA 0
    i.isWellFormed = true ∧ assembleLine i.text = .ok (some i.canonical.encode) ∧
      StartsRaw (pairText i.encode) ∧
      decode j.encode = .ok j ∧ j.canonical = j ∧ pairText j.encode = j.text ∧
      j.text = "DEC PC" := by
  intro i j
  obtain ⟨ha, hr, ht⟩ := raw_words_shown
  have hi : decode i.encode = .ok i := by decide +kernel
  have hj : decode j.encode = .ok j := by decide +kernel
  have hp : StartsRaw (pairText i.encode) :=
    (hr _).mpr (.inr ⟨i, hi, by decide⟩)
  exact ⟨rfl, ha i rfl, hp, hj, rfl, ht _ j hj rfl, by decide +kernel⟩

end Assembly

end X25
