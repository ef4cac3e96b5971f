import X25.Proofs.Assembly.Grammar

/-! # Lines and canonical instructions

Every line with an instruction stands for a canonical one, and the printed line of a well-formed
instruction stands for its canonical form. So the lines that show what others stand for are a normal
form of these, and never need raw words.
-/

namespace X25

open Statement

namespace Statement

variable {m : Mnemonic} {c : Condition} {operands : List String} {s : Statement}

theorem isCanonical_of_makes (hm : m ≠ .words) (h : Makes c m operands s) :
    ∃ i, s = instruction i ∧ i.IsCanonical := by
  cases h with
  | registerAlias | immediateAlias | unaryAlias | nop | registersAlu | immediateAlu =>
    exact ⟨_, rfl, rfl, rfl⟩
  | access ho | jump ho =>
    simp only [List.mem_cons, List.not_mem_nil, or_false] at ho
    rcases ho with rfl | rfl <;> exact ⟨_, rfl, rfl, rfl⟩
  | clear ho =>
    simp only [List.mem_cons, List.not_mem_nil, or_false] at ho
    rcases ho with rfl | rfl | rfl <;> exact ⟨_, rfl, rfl, rfl⟩
  | registers ho =>
    simp only [List.mem_cons, List.not_mem_nil, or_false] at ho
    rcases ho with rfl | rfl | rfl | rfl | rfl | rfl | rfl <;> exact ⟨_, rfl, rfl, rfl⟩
  | words => exact absurd rfl hm

end Statement

namespace SourceLine

def statement (l : SourceLine) : Except LineError Statement :=
  ofOperands l.head.mnemonic l.head.condition l.operands

theorem ofLine_text {l : SourceLine} (h : l.IsProper) :
    ofLine l.text.toList = some <$> l.statement := by
  rw [ofLine, tokens_text h, ofTokens, Head.ofToken_text, statement]
  show (ofOperands _ _ _ >>= _) = _
  cases ofOperands l.head.mnemonic l.head.condition l.operands <;> rfl

end SourceLine

namespace Instruction

theorem microcode_of_ofMicrocode? {m : Microcode} {a : BinaryAlias}
    (h : BinaryAlias.ofMicrocode? m = some a) : a.microcode = m := by
  simpa using List.find?_some h

theorem statement_registerLine (c : Condition) (d s : Register) (m : Microcode) :
    (registerLine c d s m).statement = .ok (.instruction (.register .aopr c d s m)) := by
  rw [registerLine]
  split
  · next a ha =>
    simp only [SourceLine.statement, ofOperands, ofBinary, Operand.register_name,
      Literal.isIntended_name, microcode_of_ofMicrocode? ha]
    rfl
  · simp only [SourceLine.statement, ofOperands, ofOpcode, Mnemonic.form, Operand.register_name,
      Operand.microcode_text]
    rfl

theorem statement_immediateLine (c : Condition) (d : Register) (m : Microcode) (v : Word) :
    (immediateLine c d m v).statement = .ok (.instruction (.immediate .aopi c d m v)) := by
  rw [immediateLine]
  split
  · next a _ ha =>
    simp only [SourceLine.statement, ofOperands, ofBinary, Operand.register_name,
      Operand.literal_ofWord, Literal.isIntended_ofWord, microcode_of_ofMicrocode? ha]
    rfl
  · next a _ ha =>
    obtain ⟨hu, hv⟩ := Option.filter_eq_some_iff.mp ha
    obtain rfl : v = 0 := of_decide_eq_true hv
    have hm : a.microcode = m := by simpa using List.find?_some hu
    simp only [SourceLine.statement, ofOperands, Operand.register_name, hm]
    rfl
  · simp only [SourceLine.statement, ofOperands, ofOpcode, Mnemonic.form, Operand.register_name,
      Operand.literal_ofWord, Operand.microcode_text]
    rfl

/-- The line of a well-formed instruction stands for its canonical form. -/
theorem statement_line {i : Instruction} (h : i.isWellFormed = true) :
    i.line.statement = .ok (.instruction i.canonical) := by
  cases i with
  | register o c d s m =>
    cases o with
    | nop | jmp | b | aopi | load | store => cases h
    | aopr => exact statement_registerLine c d s m
    | clz | clof | clng => rfl
    | _ =>
      simp only [line, SourceLine.statement, ofOperands, ofOpcode, Mnemonic.form,
        Operand.register_name]
      rfl
  | immediate o c d m v =>
    cases o with
    | aopi => exact statement_immediateLine c d m v
    | load | store =>
      simp only [line, SourceLine.statement, ofOperands, ofOpcode, Mnemonic.form,
        Operand.register_name, Operand.literal_ofWord]
      rfl
    | _ => cases h
  | jump o c t =>
    cases o with
    | nop => rfl
    | jmp | b =>
      simp only [line, SourceLine.statement, ofOperands, ofOpcode, Mnemonic.form,
        Operand.literal_ofWord]
      rfl
    | _ => cases h

theorem mnemonic_line_ne_words (i : Instruction) : i.line.head.mnemonic ≠ .words := by
  cases i with
  | register o c d s m =>
    cases o with
    | aopr =>
      show (registerLine c d s m).head.mnemonic ≠ _
      rw [registerLine]
      split <;> rintro ⟨⟩
    | _ => rintro ⟨⟩
  | immediate o c d m v =>
    cases o with
    | aopi =>
      show (immediateLine c d m v).head.mnemonic ≠ _
      rw [immediateLine]
      split <;> rintro ⟨⟩
    | _ => rintro ⟨⟩
  | jump o c t => cases o <;> rintro ⟨⟩

theorem ofLine_text {i : Instruction} (h : i.isWellFormed = true) :
    ofLine i.text.toList = .ok (some (.instruction i.canonical)) := by
  rw [text, SourceLine.ofLine_text i.isProper_line, statement_line h]
  rfl

end Instruction

namespace Assembly

def mnemonic? (text : String) : Option Mnemonic :=
  match tokens text.toList with
  | [] => none
  | head :: _ => (Head.ofToken head).toOption.map Head.mnemonic

/-- The line that shows the words a line stands for. -/
def normalLine? (text : String) : Option String :=
  match assembleLine text with
  | .ok (some p) => some (pairText p)
  | _ => none

variable {text : String} {p : WordPair} {i : Instruction}

theorem isCanonical_of_assembleLine (hm : mnemonic? text ≠ some .words)
    (h : assembleLine text = .ok (some p)) : ∃ i : Instruction, i.IsCanonical ∧ i.encode = p := by
  obtain ⟨s, hs, rfl⟩ := assembleLine_eq_ok.mp h
  obtain ⟨head, operands, k, ht, hk, ho⟩ := ofLine_eq_ok_some.mp hs
  have hw : k.mnemonic ≠ .words := by simpa [mnemonic?, ht, hk, Except.toOption] using hm
  obtain ⟨i, rfl, hi⟩ := isCanonical_of_makes hw (ofOperands_eq_ok_iff.mp ho)
  exact ⟨i, hi, rfl⟩

theorem mnemonic?_text (i : Instruction) : mnemonic? i.text = some i.line.head.mnemonic := by
  rw [mnemonic?, Instruction.text, SourceLine.tokens_text i.isProper_line]
  show (Head.ofToken i.line.head.text).toOption.map _ = _
  rw [Head.ofToken_text]
  rfl

theorem assembleLine_text_canonical (h : i.isWellFormed = true) :
    assembleLine i.text = .ok (some i.canonical.encode) :=
  assembleLine_eq_ok.mpr ⟨_, Instruction.ofLine_text h, rfl⟩

theorem assembleLine_text (h : i.IsCanonical) : assembleLine i.text = .ok (some i.encode) := by
  rw [assembleLine_text_canonical h.1, h.2]

theorem pairText_encode (h : i.IsCanonical) : pairText i.encode = i.text := by
  have hs : standsFor i.text i.encode = true := by simp [standsFor, assembleLine_text h]
  rw [pairText, Instruction.decode_encode h.1]
  simp only [hs, if_true]

theorem normalLine?_pairText (p : WordPair) : normalLine? (pairText p) = some (pairText p) := by
  rw [normalLine?, assembleLine_eq_ok.mpr (words_ofLine_pairText p)]

/-- The lines with a mnemonic other than that of raw words stand for exactly the canonical
instructions: the words of such a line decode to a canonical instruction, and are shown by its text,
which is again such a line for the same words; and the text of every canonical instruction is such a
line. Showing what a line stands for is a normal form of lines. -/
theorem canonical_lines :
    (∀ text p, mnemonic? text ≠ some .words → assembleLine text = .ok (some p) →
      ∃ i : Instruction, i.IsCanonical ∧ Instruction.decode p = .ok i ∧ pairText p = i.text ∧
        mnemonic? i.text ≠ some .words ∧ assembleLine i.text = .ok (some p)) ∧
    (∀ i : Instruction, i.IsCanonical →
      mnemonic? i.text ≠ some .words ∧ assembleLine i.text = .ok (some i.encode)) ∧
    ∀ text t, normalLine? text = some t → normalLine? t = some t := by
  have hm : ∀ i : Instruction, mnemonic? i.text ≠ some .words := fun i => by
    rw [mnemonic?_text]
    exact fun h => i.mnemonic_line_ne_words (Option.some.inj h)
  refine ⟨fun text p hw h => ?_, fun i hi => ⟨hm i, assembleLine_text hi⟩, fun text t h => ?_⟩
  · obtain ⟨i, hi, rfl⟩ := isCanonical_of_assembleLine hw h
    exact ⟨i, hi, Instruction.decode_encode hi.1, pairText_encode hi, hm i, assembleLine_text hi⟩
  · rw [normalLine?] at h
    split at h
    · cases h
      exact normalLine?_pairText _
    · cases h

/-- A raw form in small letters, with a comment, that has an alias. -/
theorem canonical_lines_aliased :
    let line := "aopinn gp3, 0, a_increment ; next"
    let i : Instruction := .immediate .aopi .nn (.gp 3) .incrementA 0
    mnemonic? line ≠ some .words ∧ assembleLine line = .ok (some i.encode) ∧
      (∃ j : Instruction, j.IsCanonical ∧ Instruction.decode i.encode = .ok j ∧
        pairText i.encode = j.text ∧ mnemonic? j.text ≠ some .words ∧
        assembleLine j.text = .ok (some i.encode)) ∧
      i.IsCanonical ∧ i.text = "INCNN GP3" ∧ assembleLine "INCNN GP3" = .ok (some i.encode) ∧
      normalLine? line = some "INCNN GP3" ∧ normalLine? "INCNN GP3" = some "INCNN GP3" := by
  intro line i
  have hm : mnemonic? line ≠ some .words := by decide +kernel
  have ha : assembleLine line = .ok (some i.encode) := by decide +kernel
  have hi : i.IsCanonical := ⟨rfl, rfl⟩
  have ht : i.text = "INCNN GP3" := by decide +kernel
  have hn : normalLine? line = some "INCNN GP3" := by
    rw [normalLine?, ha, ← ht]
    exact congrArg some (pairText_encode hi)
  obtain ⟨h₁, h₂, h₃⟩ := canonical_lines
  exact ⟨hm, ha, h₁ line _ hm ha, hi, ht, ht ▸ (h₂ i hi).2, hn, h₃ line _ hn⟩

end Assembly

end X25
