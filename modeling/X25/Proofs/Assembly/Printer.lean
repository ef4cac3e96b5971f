import X25.Proofs.Assembly.Token
import X25.Proofs.Text.Numeral

/-! # Printed lines

The line of every instruction is made of proper tokens, and the line of a pair of words, whether it
shows an instruction or raw words, stands for just this pair.
-/

namespace X25

open Statement

section Tokens

theorem toNat_of_digitValue? {c : Char} (h : (Numeral.digitValue? c).isSome = true) :
    48 ≤ c.toNat ∧ c.toNat ≤ 102 := by
  have hle : ∀ a b : Char, a ≤ b ↔ a.toNat ≤ b.toNat := fun a b => UInt32.le_iff_toNat_le
  rw [Numeral.digitValue?] at h
  simp only [hle] at h
  split at h
  · next hc => exact ⟨hc.1, le_trans hc.2 (by decide)⟩
  · split at h
    · next hc => exact ⟨le_trans (by decide) hc.1, hc.2⟩
    · split at h
      · next hc => exact ⟨le_trans (by decide) hc.1, le_trans hc.2 (by decide)⟩
      · cases h

theorem isPlain_of_digitValue? {c : Char} (h : (Numeral.digitValue? c).isSome = true) :
    isPlain c = true := by
  have hr := toNat_of_digitValue? h
  refine isPlain_iff.mpr ⟨?_, ?_⟩
  · have hb : Text.isBlank c = false := by
      simp only [Text.isBlank, Bool.or_eq_false_iff, Bool.and_eq_false_iff, beq_eq_false_iff_ne,
        decide_eq_false_iff_not]
      omega
    have hc : c ≠ ',' := by
      rintro rfl
      exact absurd hr.1 (by decide)
    simp [isSeparator, hb, hc]
  · rintro rfl
    cases h

theorem isToken_append {s t : String} (hs : IsToken s) (ht : t.toList.all isPlain = true) :
    IsToken (s ++ t) := by
  rw [IsToken, String.toList_append, List.all_append, hs.2, ht]
  exact ⟨List.append_ne_nil_of_left_ne_nil hs.1 _, rfl⟩

theorem isToken_marked {mark : String} (hm : IsToken mark) {base : Nat} (h : 1 < base)
    (hb : base ≤ 16) (width n : Nat) :
    IsToken (mark ++ String.ofList (Numeral.digits base width n)) := by
  refine isToken_append hm ?_
  rw [String.toList_ofList, List.all_eq_true]
  intro c hc
  exact isPlain_of_digitValue? (Numeral.digitValue?_isSome_of_mem_digits h hb hc)

theorem isToken_hexMarked (width n : Nat) : IsToken (Numeral.hexMarked width n) :=
  isToken_marked (by decide) (by decide) (by decide) width n

theorem isToken_name (r : Register) : IsToken r.name := by
  have h : ∀ r ∈ Register.all, IsToken r.name := by decide
  exact h r r.mem_all

theorem isToken_microcode (m : Microcode) : IsToken m.text := by
  have h : ∀ e ∈ Microcode.named, IsToken e.1 := by decide
  rw [Microcode.text]
  cases hn : m.name? with
  | none => exact isToken_marked (by decide) (by decide) (by decide) 6 _
  | some s =>
    obtain ⟨e, he, rfl⟩ := Option.map_eq_some_iff.mp hn
    exact h e (List.mem_of_find?_eq_some he)

theorem isToken_head (h : Head) : IsToken h.text := by
  have hm : ∀ m ∈ Mnemonic.all, IsToken m.text := by decide
  have hc : ∀ c ∈ Condition.all, c.suffix.toList.all isPlain = true := by decide
  exact isToken_append (hm h.mnemonic h.mnemonic.mem_all) (hc h.condition h.condition.mem_all)

end Tokens

namespace Instruction

theorem isProper_mk {h : Head} {ts : List String} (ht : ∀ t ∈ ts, IsToken t) :
    SourceLine.IsProper ⟨h, ts⟩ :=
  List.forall_mem_cons.mpr ⟨isToken_head h, ht⟩

theorem isProper_registerLine (c : Condition) (d s : Register) (m : Microcode) :
    (registerLine c d s m).IsProper := by
  have hd := isToken_name d
  have hs := isToken_name s
  have hm := isToken_microcode m
  rw [registerLine]
  split
  · exact isProper_mk (by simp [hd, hs])
  · exact isProper_mk (by simp [hd, hs, hm])

theorem isProper_immediateLine (c : Condition) (d : Register) (m : Microcode) (v : Word) :
    (immediateLine c d m v).IsProper := by
  have hd := isToken_name d
  have hv : IsToken (Literal.ofWord v) := isToken_hexMarked 1 v.toNat
  have hm := isToken_microcode m
  rw [immediateLine]
  split
  · exact isProper_mk (by simp [hd, hv])
  · exact isProper_mk (by simp [hd])
  · exact isProper_mk (by simp [hd, hv, hm])

theorem isProper_line (i : Instruction) : i.line.IsProper := by
  cases i with
  | register o c d s m =>
    have hd := isToken_name d
    have hs := isToken_name s
    cases o with
    | aopr => exact isProper_registerLine c d s m
    | clz | clof | clng => exact isProper_mk (by simp)
    | _ => exact isProper_mk (by simp [hd, hs])
  | immediate o c d m v =>
    have hd := isToken_name d
    have hv : IsToken (Literal.ofWord v) := isToken_hexMarked 1 v.toNat
    cases o with
    | aopi => exact isProper_immediateLine c d m v
    | _ => exact isProper_mk (by simp [hd, hv])
  | jump o c t =>
    have ht : IsToken (Literal.ofWord t) := isToken_hexMarked 1 t.toNat
    cases o with
    | nop => exact isProper_mk (by simp)
    | _ => exact isProper_mk (by simp [ht])

end Instruction

namespace Literal

theorem read?_of_magnitude? {t : String} {c : Char} {cs : List Char} {w : Word}
    (ht : t.toList = '0' :: c :: cs) (h : magnitude? ('0' :: c :: cs) = some w.toNat) :
    read? t = some w := by
  have hw : w.toNat < UInt32.size := w.toNat_lt
  rw [read?, ht]
  show (magnitude? _).bind positive? = _
  rw [h, Option.bind_some, positive?, if_pos hw, UInt32.ofNat_toNat]

theorem read?_hexMarked (width : Nat) (w : Word) :
    read? (Numeral.hexMarked width w.toNat) = some w := by
  have hl : (Numeral.hexMarked width w.toNat).toList =
      '0' :: 'x' :: Numeral.digits 16 width w.toNat := by
    simp [Numeral.hexMarked, Numeral.hex]
  exact read?_of_magnitude? hl (Numeral.read?_digits (by decide) (by decide) width w.toNat)

theorem read?_binaryMarked (width : Nat) (w : Word) :
    read? (Numeral.binaryMarked width w.toNat) = some w := by
  have hl : (Numeral.binaryMarked width w.toNat).toList =
      '0' :: 'b' :: Numeral.digits 2 width w.toNat := by
    simp [Numeral.binaryMarked]
  exact read?_of_magnitude? hl (Numeral.read?_digits (by decide) (by decide) width w.toNat)

end Literal

theorem Operand.literal_hexMarked (width : Nat) (w : Word) :
    literal (Numeral.hexMarked width w.toNat) = .ok w := by
  rw [literal, Literal.read?_hexMarked]

namespace Assembly

theorem isProper_rawLine (p : WordPair) : (rawLine p).IsProper :=
  Instruction.isProper_mk (by simp [Literal.ofWord, isToken_hexMarked])

theorem ofTokens_rawLine (p : WordPair) :
    ofTokens ((rawLine p).head.text :: (rawLine p).operands) = .ok (some (.raw p)) := by
  have hh : Head.ofToken (Head.text ⟨.words, .always⟩) = .ok ⟨.words, .always⟩ := by decide
  have hl : Operand.literal (Numeral.hexMarked 8 p.low.toNat) = .ok p.low :=
    Operand.literal_hexMarked 8 p.low
  have hr : Operand.literal (Literal.ofWord p.high) = .ok p.high :=
    Operand.literal_hexMarked 1 p.high
  have ho : ofOperands .words .always [Numeral.hexMarked 8 p.low.toNat, Literal.ofWord p.high] =
      .ok (.raw p) := by
    simp only [ofOperands, ofWords, hl, hr]
    rfl
  simp only [ofTokens, rawLine, hh]
  show (ofOperands .words .always _ >>= _) = _
  rw [ho]
  rfl

theorem ofLine_rawLine (p : WordPair) :
    ofLine (rawLine p).text.toList = .ok (some (.raw p)) := by
  rw [ofLine, SourceLine.tokens_text (isProper_rawLine p), ofTokens_rawLine]

theorem words_of_standsFor {text : String} {p : WordPair} (h : standsFor text p = true) :
    ∃ s, ofLine text.toList = .ok (some s) ∧ s.words = p := by
  rw [standsFor, assembleLine, assembleNumbered] at h
  cases hs : ofLine text.toList with
  | error e => rw [hs] at h; cases h
  | ok s? =>
    rw [hs] at h
    cases s? with
    | none => cases h
    | some s => exact ⟨s, rfl, eq_of_beq h⟩

theorem words_ofLine_pairText (p : WordPair) :
    ∃ s, ofLine (pairText p).toList = .ok (some s) ∧ s.words = p := by
  rw [pairText]
  split
  · split
    · next h => exact words_of_standsFor h
    · exact ⟨_, ofLine_rawLine p, rfl⟩
  · exact ⟨_, ofLine_rawLine p, rfl⟩

theorem feed_not_mem_pairText (p : WordPair) : '\n' ∉ (pairText p).toList := by
  have hr : '\n' ∉ (rawLine p).text.toList := fun h =>
    (SourceLine.ne_of_mem_text (isProper_rawLine p) h).2 rfl
  rw [pairText]
  split
  · next i _ =>
    split
    · exact fun h => (SourceLine.ne_of_mem_text i.isProper_line h).2 rfl
    · exact hr
  · exact hr

end Assembly

end X25
