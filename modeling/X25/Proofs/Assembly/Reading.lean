import X25.Proofs.Assembly.Printer

/-! # Reading back what is printed in a line

Each part of a printed line, a mnemonic with its suffix, a register, a literal or microcode, is read
back as what it was printed from. No mnemonic is another one with a suffix, so a head is cut in one
way only.
-/

namespace X25

namespace Text

def headLetters : List Char :=
  "ABCDEFGHIJKLMNOPQRSTUVWXYZ.".toList

theorem capitalize_of_all {cs : List Char} (h : cs.all headLetters.contains = true) :
    capitalize cs = cs := by
  have hc : (headLetters.all fun c => capitals c == [c]) = true := by decide
  induction cs with
  | nil => rfl
  | cons c cs ih =>
    obtain ⟨hm, hs⟩ := Bool.and_eq_true_iff.mp (List.all_cons ▸ h)
    have hm : capitals c = [c] := eq_of_beq (List.all_eq_true.mp hc c (List.contains_iff_mem.mp hm))
    rw [capitalize, List.flatMap_cons, hm]
    exact congrArg (c :: ·) (ih hs)

end Text

/-- No mnemonic is another one with two more letters. -/
theorem Mnemonic.text_ne_append (m m' : Mnemonic) (d e : Char) :
    m'.text.toList ≠ m.text.toList ++ [d, e] := by
  have h : ∀ m ∈ all, ∀ m' ∈ all, m'.text.toList.dropLast.dropLast ≠ m.text.toList := by
    decide
  intro he
  apply h m m.mem_all m' m'.mem_all
  rw [he]
  simp

theorem Mnemonic.ofText?_append (m : Mnemonic) (d e : Char) :
    ofText? (.ofList (m.text.toList ++ [d, e])) = none := by
  cases h : ofText? (.ofList (m.text.toList ++ [d, e])) with
  | none => rfl
  | some m' =>
    refine absurd ?_ (m.text_ne_append m' d e)
    rw [text_of_ofText? h, String.toList_ofList]

theorem Condition.suffix_cases (c : Condition) :
    c = .always ∨ ∃ d e, c.suffix.toList = [d, e] ∧ d.utf8Size = 1 ∧ e.utf8Size = 1 ∧
      ofSuffix? (.ofList [d, e]) = some c := by
  cases c with
  | always => exact .inl rfl
  | _ => exact .inr ⟨_, _, rfl, by decide⟩

namespace Head

theorem cutSuffix?_append {cs : List Char} (hn : cs ≠ []) {d e : Char} (hd : d.utf8Size = 1)
    (he : e.utf8Size = 1) : cutSuffix? (cs ++ [d, e]) = some (cs, [d, e]) := by
  simp [cutSuffix?, hd, he, hn]

theorem ofCapitals_text (h : Head) : ofCapitals h.text.toList = .ok h := by
  obtain ⟨m, c⟩ := h
  have hn : m.text.toList ≠ [] := by
    have hm : ∀ m ∈ Mnemonic.all, m.text.toList ≠ [] := by decide
    exact hm m m.mem_all
  obtain rfl | ⟨d, e, hs, hd, he, hc⟩ := c.suffix_cases
  · have ht : (text ⟨m, .always⟩).toList = m.text.toList := by simp [text, Condition.suffix]
    simp only [ofCapitals, ht, String.ofList_toList, Mnemonic.ofText?_text]
  · have ht : (text ⟨m, c⟩).toList = m.text.toList ++ [d, e] := by simp [text, hs]
    simp only [ofCapitals, ht, Mnemonic.ofText?_append, cutSuffix?_append hn hd he,
      String.ofList_toList, Mnemonic.ofText?_text, hc]

theorem ofToken_text (h : Head) : ofToken h.text = .ok h := by
  have hm : ∀ m ∈ Mnemonic.all, m.text.toList.all Text.headLetters.contains = true := by
    decide
  have hc : ∀ k ∈ Condition.all, k.suffix.toList.all Text.headLetters.contains = true := by
    decide
  have hl : h.text.toList.all Text.headLetters.contains = true := by
    rw [text, String.toList_append, List.all_append, hm _ h.mnemonic.mem_all,
      hc _ h.condition.mem_all]
    rfl
  rw [ofToken, Text.capitalize_of_all hl, ofCapitals_text]

end Head

theorem Register.ofName?_name (r : Register) : ofName? r.name = some r := by
  have h : ∀ r ∈ all, ofName? r.name = some r := by decide
  exact h r r.mem_all

namespace Microcode

theorem ofName?_of_mem {s : String} {m : Microcode} (h : (s, m) ∈ named) : ofName? s = some m := by
  have hn : ∀ e ∈ named, ofName? e.1 = some e.2 := by decide
  exact hn (s, m) h

theorem name?_eq_some {m : Microcode} {s : String} (h : m.name? = some s) : (s, m) ∈ named := by
  obtain ⟨e, he, rfl⟩ := Option.map_eq_some_iff.mp h
  obtain rfl : e.2 = m := by simpa using List.find?_some he
  exact List.mem_of_find?_eq_some he

theorem ofName?_binaryMarked (width n : Nat) : ofName? (Numeral.binaryMarked width n) = none := by
  have hn : ∀ e ∈ named, (e.1.toList.map Char.toUpper).head? ≠ some '0' := by decide
  rw [ofName?, Option.map_eq_none_iff, List.find?_eq_none]
  intro e he hs
  apply hn e he
  rw [Text.sameLetters_iff.mp hs, Numeral.binaryMarked, String.toList_append]
  rfl

end Microcode

namespace Operand

theorem register_name (r : Register) : register r.name = .ok r := by
  rw [register, Register.ofName?_name]

theorem literal_ofWord (w : Word) : literal (Literal.ofWord w) = .ok w :=
  literal_hexMarked 1 w

theorem microcode_text (m : Microcode) : microcode m.text = .ok m := by
  rw [microcode, microcode?, Microcode.text]
  cases h : m.name? with
  | some s =>
    rw [Option.getD_some, Microcode.ofName?_of_mem (Microcode.name?_eq_some h)]
    rfl
  | none =>
    have hb := m.bits_lt
    have hw : (UInt32.ofNat m.bits).toNat = m.bits :=
      UInt32.toNat_ofNat_of_lt' (Nat.lt_trans hb (by decide))
    have hr : Literal.read? (Numeral.binaryMarked 6 m.bits) = some (.ofNat m.bits) := by
      rw [← hw, Literal.read?_binaryMarked, hw]
    have hle : UInt32.ofNat m.bits ≤ 0x3F := by
      rw [UInt32.le_iff_toNat_le, hw]
      exact Nat.le_of_lt_succ hb
    rw [Option.getD_none, Microcode.ofName?_binaryMarked, hr, Option.filter_some,
      if_pos (decide_eq_true hle), Option.map_some, hw, Microcode.ofBits_bits]
    rfl

end Operand

theorem Literal.isIntended_ofWord (w : Word) : isIntended (ofWord w) = true := by
  rw [isIntended, ofWord, Numeral.hexMarked, String.toList_append]
  rfl

theorem Literal.isIntended_name (r : Register) : isIntended r.name = false := by
  have h : ∀ r ∈ Register.all, isIntended r.name = false := by decide
  exact h r r.mem_all

end X25
