import X25.Proofs.Assembly.Literal
import X25.Proofs.Assembly.Reading
import X25.Proofs.Isa.Codec

/-! # The grammar of lines

A line without tokens holds no statement. Any other has to start with a mnemonic and the suffix of a
condition, which are told apart in one way only, and to go on with the operands of the mnemonic.
Assembly accepts exactly these lines and gives the words of the statement that they make.
-/

namespace X25

open Statement

namespace Text

variable {s t : String}

theorem sameLetters_congr (h : sameLetters s t = true) (u : String) :
    sameLetters u s = sameLetters u t := by
  rw [sameLetters, sameLetters, sameLetters_iff.mp h]

end Text

theorem Register.ofName?_eq_some_iff {t : String} {r : Register} :
    ofName? t = some r ↔ Text.sameLetters r.name t = true := by
  constructor
  · exact List.find?_some
  · intro h
    rw [← r.ofName?_name, ofName?, ofName?]
    simp only [Text.sameLetters_congr h]

theorem Microcode.ofName?_eq_some_iff {t : String} {m : Microcode} :
    ofName? t = some m ↔ ∃ s, (s, m) ∈ named ∧ Text.sameLetters s t = true := by
  constructor
  · intro h
    obtain ⟨⟨s, m'⟩, he, rfl⟩ := Option.map_eq_some_iff.mp h
    have hs : Text.sameLetters s t = true := by simpa using List.find?_some he
    exact ⟨s, List.mem_of_find?_eq_some he, hs⟩
  · rintro ⟨s, hs, h⟩
    rw [← ofName?_of_mem hs, ofName?, ofName?]
    simp only [Text.sameLetters_congr h]

namespace Literal

variable {s t : String} {v : Word} {cs : List Char} {n : Nat}

theorem isNumberStart_toUpper (c : Char) :
    (c.toUpper.isDigit || c.toUpper == '-' || c.toUpper == '+') =
      (c.isDigit || c == '-' || c == '+') := by
  have hs : ∀ k < 123, let c := Char.ofNat k;
      (c.toUpper.isDigit || c.toUpper == '-' || c.toUpper == '+') =
        (c.isDigit || c == '-' || c == '+') := by
    decide
  by_cases hc : c.toNat < 123
  · simpa using hs c.toNat hc
  · -- only the letters up to `z` change their case
    have hz : ¬ ('a'.val ≤ c.val ∧ c.val ≤ 'z'.val) := by
      rintro ⟨-, h⟩
      exact hc (Nat.lt_succ_of_le (UInt32.le_iff_toNat_le.mp h))
    have hu : c.toUpper = c := dif_neg hz
    rw [hu]

theorem isIntended_congr (h : Text.sameLetters s t = true) : isIntended s = isIntended t := by
  have hm := Text.sameLetters_iff.mp h
  rw [isIntended, isIntended]
  cases hs : s.toList with
  | nil =>
    cases ht : t.toList with
    | nil => rfl
    | cons d ds => simp [hs, ht] at hm
  | cons c cs =>
    cases ht : t.toList with
    | nil => simp [hs, ht] at hm
    | cons d ds =>
      simp only [hs, ht, List.map_cons, List.cons.injEq] at hm
      show (c.isDigit || c == '-' || c == '+') = (d.isDigit || d == '-' || d == '+')
      rw [← isNumberStart_toUpper c, hm.1, isNumberStart_toUpper]

theorem IsMagnitude.exists_cons (h : IsMagnitude cs n) :
    ∃ c ds, cs = c :: ds ∧ c.isDigit = true := by
  cases h with
  | binary => exact ⟨_, _, rfl, rfl⟩
  | hexadecimal => exact ⟨_, _, rfl, rfl⟩
  | decimal h =>
    have hs : ∀ d < 10, d.digitChar.isDigit = true ∧ d.digitChar.toUpper.isDigit = true := by
      decide
    obtain ⟨hn, ds, hd, -⟩ := h
    cases hd with
    | nil => exact absurd rfl hn
    | cons hc =>
      obtain ⟨hlt, rfl | rfl⟩ := hc
      · exact ⟨_, _, rfl, (hs _ hlt).1⟩
      · exact ⟨_, _, rfl, (hs _ hlt).2⟩

theorem isIntended_of_read? (h : read? t = some v) : isIntended t = true := by
  rw [isIntended]
  rcases readList?_eq_some_iff.mp h with ⟨n, hm, -⟩ | ⟨ds, n, hc, -⟩
  · obtain ⟨c, ds, hc, hd⟩ := hm.exists_cons
    simp [hc, hd]
  · simp [hc]

theorem isIntended_of_register {r : Register} (h : Text.sameLetters r.name t = true) :
    isIntended t = false := by
  rw [← isIntended_congr h, isIntended_name]

theorem read?_of_microcode {m : Microcode} (h : Microcode.ofName? t = some m) :
    read? t = none := by
  have hn : ∀ e ∈ Microcode.named, isIntended e.1 = false := by decide
  obtain ⟨s, hs, hl⟩ := Microcode.ofName?_eq_some_iff.mp h
  cases hr : read? t with
  | none => rfl
  | some v =>
    have hi := isIntended_of_read? hr
    rw [← isIntended_congr hl, hn _ hs] at hi
    cases hi

end Literal

namespace Operand

variable {t : String} {r : Register} {v : Word} {m : Microcode}

/-- The token is a name of the microcode, in either case, or a literal of its six bits. -/
def IsMicrocode (t : String) (m : Microcode) : Prop :=
  (∃ s, (s, m) ∈ Microcode.named ∧ Text.sameLetters s t = true) ∨
    ∃ v, Literal.read? t = some v ∧ v ≤ 0x3F ∧ .ofBits v.toNat = m

theorem register_eq_ok_iff : register t = .ok r ↔ Text.sameLetters r.name t = true := by
  rw [← Register.ofName?_eq_some_iff, register]
  cases Register.ofName? t <;> simp

theorem literal_eq_ok_iff : literal t = .ok v ↔ Literal.read? t = some v := by
  rw [literal]
  cases Literal.read? t <;> simp

theorem microcode?_eq_some_iff : microcode? t = some m ↔ IsMicrocode t m := by
  rw [microcode?, IsMicrocode, ← Microcode.ofName?_eq_some_iff]
  cases h : Microcode.ofName? t with
  | some k => simp [Literal.read?_of_microcode h]
  | none => simp [Option.filter_eq_some_iff, and_assoc]

theorem microcode_eq_ok_iff : microcode t = .ok m ↔ IsMicrocode t m := by
  rw [← microcode?_eq_some_iff, microcode]
  cases microcode? t <;> simp

end Operand

namespace Head

variable {cs : List Char} {h : Head}

theorem eq_append_of_cutSuffix? {base suffix : List Char}
    (h : cutSuffix? cs = some (base, suffix)) : cs = base ++ suffix := by
  unfold cutSuffix? at h
  split at h
  · next c d rest hr =>
    have hc := List.reverse_eq_iff.mp hr
    split at h
    · cases h
      simpa using hc
    · split at h
      · cases h
        simpa using hc
      · cases h
  · cases h

theorem ofCapitals_eq_ok_iff : ofCapitals cs = .ok h ↔ cs = h.text.toList := by
  constructor
  · intro ho
    rw [ofCapitals] at ho
    cases hm : Mnemonic.ofText? (.ofList cs) with
    | some m =>
      simp only [hm] at ho
      cases ho
      simp [text, Mnemonic.text_of_ofText? hm, Condition.suffix]
    | none =>
      simp only [hm] at ho
      split at ho
      · cases ho
      · next base suffix hc =>
        split at ho
        · cases ho
        · next m hb =>
          split at ho
          · next c hs =>
            cases ho
            simp [text, eq_append_of_cutSuffix? hc, Mnemonic.text_of_ofText? hb,
              Condition.suffix_of_ofSuffix? hs]
          · cases ho
  · rintro rfl
    exact ofCapitals_text h

theorem ofToken_eq_ok_iff {t : String} :
    ofToken t = .ok h ↔ Text.capitalize t.toList = h.text.toList :=
  ofCapitals_eq_ok_iff

theorem text_injective : Function.Injective text := by
  intro h h' he
  have ho : Except.ok h = (Except.ok h' : Except LineError Head) := by
    rw [← ofToken_text h, he, ofToken_text h']
  exact Except.ok.inj ho

end Head

namespace Statement

open Text Literal Operand

/-- The operands are such as the mnemonic takes, and make the statement under the condition. -/
inductive Makes (c : Condition) : Mnemonic → List String → Statement → Prop
  | registerAlias {a : BinaryAlias} {t u : String} {d r : Register} :
      sameLetters d.name t = true → sameLetters r.name u = true →
      Makes c (.binary a) [t, u] (.instruction (.register .aopr c d r a.microcode))
  | immediateAlias {a : BinaryAlias} {t u : String} {d : Register} {v : Word} :
      sameLetters d.name t = true → read? u = some v →
      Makes c (.binary a) [t, u] (.instruction (.immediate .aopi c d a.microcode v))
  | unaryAlias {a : UnaryAlias} {t : String} {d : Register} :
      sameLetters d.name t = true →
      Makes c (.unary a) [t] (.instruction (.immediate .aopi c d a.microcode 0))
  | access {o : Opcode} {t u : String} {d : Register} {v : Word} :
      o ∈ [.load, .store] → sameLetters d.name t = true → read? u = some v →
      Makes c (.opcode o) [t, u] (.instruction (.immediate o c d .zero v))
  | jump {o : Opcode} {t : String} {v : Word} :
      o ∈ [.jmp, .b] → read? t = some v →
      Makes c (.opcode o) [t] (.instruction (.jump o c v))
  | nop : Makes c (.opcode .nop) [] (.instruction (.jump .nop c 0))
  | clear {o : Opcode} : o ∈ [.clz, .clof, .clng] →
      Makes c (.opcode o) [] (.instruction (.register o c .zero .zero .zero))
  | registers {o : Opcode} {t u : String} {d r : Register} :
      o ∈ [.loadr, .storr, .mul, .shl, .shr, .rol, .ror] →
      sameLetters d.name t = true → sameLetters r.name u = true →
      Makes c (.opcode o) [t, u] (.instruction (.register o c d r .zero))
  | registersAlu {t u x : String} {d r : Register} {m : Microcode} :
      sameLetters d.name t = true → sameLetters r.name u = true → IsMicrocode x m →
      Makes c (.opcode .aopr) [t, u, x] (.instruction (.register .aopr c d r m))
  | immediateAlu {t u x : String} {d : Register} {v : Word} {m : Microcode} :
      sameLetters d.name t = true → read? u = some v → IsMicrocode x m →
      Makes c (.opcode .aopi) [t, u, x] (.instruction (.immediate .aopi c d m v))
  | words {t u : String} {v w : Word} :
      c = .always → read? t = some v → read? u = some w →
      Makes c .words [t, u] (.raw ⟨v, w⟩)

variable {a : BinaryAlias} {o : Opcode} {m : Mnemonic} {c : Condition} {t u : String}
  {operands : List String} {s : Statement} {cs : List Char}

section Forms

theorem form_eq_target : (Mnemonic.opcode o).form = .target ↔ o ∈ [.jmp, .b] := by
  cases o <;> decide

theorem form_eq_immediate : (Mnemonic.opcode o).form = .immediate ↔ o ∈ [.load, .store] := by
  cases o <;> decide

theorem form_eq_registers : (Mnemonic.opcode o).form = .registers ↔
    o ∈ [.loadr, .storr, .mul, .shl, .shr, .rol, .ror] := by
  cases o <;> decide

theorem form_eq_registersAlu : (Mnemonic.opcode o).form = .registersAlu ↔ o = .aopr := by
  cases o <;> decide

theorem form_eq_immediateAlu : (Mnemonic.opcode o).form = .immediateAlu ↔ o = .aopi := by
  cases o <;> decide

theorem form_eq_none : (Mnemonic.opcode o).form = .none ↔ o ∈ [.nop, .clz, .clof, .clng] := by
  cases o <;> decide

end Forms

theorem makes_of_ofBinary (h : ofBinary a c t u = .ok s) : Makes c (.binary a) [t, u] s := by
  obtain ⟨d, hd, h⟩ := exceptBind_eq_ok.mp h
  rw [register_eq_ok_iff] at hd
  split at h
  · obtain ⟨v, hv, h⟩ := exceptBind_eq_ok.mp h
    cases h
    exact .immediateAlias hd (literal_eq_ok_iff.mp hv)
  · obtain ⟨r, hr, h⟩ := exceptBind_eq_ok.mp h
    cases h
    exact .registerAlias hd (register_eq_ok_iff.mp hr)

theorem makes_bare (h : o ∈ [.nop, .clz, .clof, .clng]) :
    Makes c (.opcode o) [] (.instruction (bare o c)) := by
  cases o with
  | nop => exact .nop
  | clz | clof | clng => exact .clear (by decide)
  | _ => simp at h

theorem makes_of_ofOpcode (h : ofOpcode o c operands = .ok s) :
    Makes c (.opcode o) operands s := by
  unfold ofOpcode at h
  split at h
  case h_1 hf =>
    cases h
    exact makes_bare (form_eq_none.mp hf)
  case h_2 hf =>
    obtain ⟨v, hv, h⟩ := exceptBind_eq_ok.mp h
    cases h
    exact .jump (form_eq_target.mp hf) (literal_eq_ok_iff.mp hv)
  case h_3 hf =>
    obtain ⟨d, hd, h⟩ := exceptBind_eq_ok.mp h
    obtain ⟨v, hv, h⟩ := exceptBind_eq_ok.mp h
    cases h
    exact .access (form_eq_immediate.mp hf) (register_eq_ok_iff.mp hd) (literal_eq_ok_iff.mp hv)
  case h_4 hf =>
    obtain ⟨d, hd, h⟩ := exceptBind_eq_ok.mp h
    obtain ⟨r, hr, h⟩ := exceptBind_eq_ok.mp h
    cases h
    exact .registers (form_eq_registers.mp hf) (register_eq_ok_iff.mp hd)
      (register_eq_ok_iff.mp hr)
  case h_5 hf =>
    obtain ⟨d, hd, h⟩ := exceptBind_eq_ok.mp h
    obtain ⟨r, hr, h⟩ := exceptBind_eq_ok.mp h
    obtain ⟨m, hm, h⟩ := exceptBind_eq_ok.mp h
    cases h
    obtain rfl := form_eq_registersAlu.mp hf
    exact .registersAlu (register_eq_ok_iff.mp hd) (register_eq_ok_iff.mp hr)
      (microcode_eq_ok_iff.mp hm)
  case h_6 hf =>
    obtain ⟨d, hd, h⟩ := exceptBind_eq_ok.mp h
    obtain ⟨m, hm, h⟩ := exceptBind_eq_ok.mp h
    obtain ⟨v, hv, h⟩ := exceptBind_eq_ok.mp h
    cases h
    obtain rfl := form_eq_immediateAlu.mp hf
    exact .immediateAlu (register_eq_ok_iff.mp hd) (literal_eq_ok_iff.mp hv)
      (microcode_eq_ok_iff.mp hm)
  case h_7 => cases h

theorem makes_of_ofWords (h : ofWords c operands = .ok s) : Makes c .words operands s := by
  unfold ofWords at h
  by_cases hc : c = .always
  · simp only [hc, ne_eq, not_true_eq_false, if_false] at h
    split at h
    · obtain ⟨v, hv, h⟩ := exceptBind_eq_ok.mp h
      obtain ⟨w, hw, h⟩ := exceptBind_eq_ok.mp h
      cases h
      exact .words hc (literal_eq_ok_iff.mp hv) (literal_eq_ok_iff.mp hw)
    · cases h
  · simp only [ne_eq, hc, not_false_eq_true, if_true] at h
    split at h <;> cases h

theorem makes_of_ofOperands (h : ofOperands m c operands = .ok s) : Makes c m operands s := by
  unfold ofOperands at h
  split at h
  case h_1 => exact makes_of_ofBinary h
  case h_3 =>
    obtain ⟨d, hd, h⟩ := exceptBind_eq_ok.mp h
    cases h
    exact .unaryAlias (register_eq_ok_iff.mp hd)
  case h_5 => exact makes_of_ofOpcode h
  case h_6 => exact makes_of_ofWords h
  case h_2 | h_4 => cases h

theorem ofOperands_of_makes (h : Makes c m operands s) : ofOperands m c operands = .ok s := by
  cases h with
  | registerAlias hd hr =>
    simp only [ofOperands, ofBinary, isIntended_of_register hr, register_eq_ok_iff.mpr hd,
      register_eq_ok_iff.mpr hr]
    rfl
  | immediateAlias hd hv =>
    simp only [ofOperands, ofBinary, isIntended_of_read? hv, register_eq_ok_iff.mpr hd,
      literal_eq_ok_iff.mpr hv]
    rfl
  | unaryAlias hd =>
    simp only [ofOperands, register_eq_ok_iff.mpr hd]
    rfl
  | access ho hd hv =>
    simp only [ofOperands, ofOpcode, form_eq_immediate.mpr ho, register_eq_ok_iff.mpr hd,
      literal_eq_ok_iff.mpr hv]
    rfl
  | jump ho hv =>
    simp only [ofOperands, ofOpcode, form_eq_target.mpr ho, literal_eq_ok_iff.mpr hv]
    rfl
  | nop => rfl
  | clear ho =>
    simp only [List.mem_cons, List.not_mem_nil, or_false] at ho
    rcases ho with rfl | rfl | rfl <;> rfl
  | registers ho hd hr =>
    simp only [ofOperands, ofOpcode, form_eq_registers.mpr ho, register_eq_ok_iff.mpr hd,
      register_eq_ok_iff.mpr hr]
    rfl
  | registersAlu hd hr hm =>
    simp only [ofOperands, ofOpcode, Mnemonic.form, register_eq_ok_iff.mpr hd,
      register_eq_ok_iff.mpr hr, microcode_eq_ok_iff.mpr hm]
    rfl
  | immediateAlu hd hv hm =>
    simp only [ofOperands, ofOpcode, Mnemonic.form, register_eq_ok_iff.mpr hd,
      literal_eq_ok_iff.mpr hv, microcode_eq_ok_iff.mpr hm]
    rfl
  | words hc hv hw =>
    subst hc
    simp only [ofOperands, ofWords, literal_eq_ok_iff.mpr hv, literal_eq_ok_iff.mpr hw]
    rfl

theorem ofOperands_eq_ok_iff : ofOperands m c operands = .ok s ↔ Makes c m operands s :=
  ⟨makes_of_ofOperands, ofOperands_of_makes⟩

theorem ofLine_eq_ok_some : ofLine cs = .ok (some s) ↔ ∃ head operands k,
    tokens cs = head :: operands ∧ Head.ofToken head = .ok k ∧
      ofOperands k.mnemonic k.condition operands = .ok s := by
  rw [ofLine]
  cases tokens cs with
  | nil => simp [ofTokens, pure, Except.pure]
  | cons head operands => simp [ofTokens, exceptBind_eq_ok, pure, Except.pure]

theorem ofLine_eq_ok_none : ofLine cs = .ok none ↔ tokens cs = [] := by
  rw [ofLine]
  cases tokens cs with
  | nil => simp [ofTokens, pure, Except.pure]
  | cons head operands => simp [ofTokens, exceptBind_eq_ok, pure, Except.pure]

theorem ofLine_eq_ok_iff : ofLine cs = .ok (some s) ↔ ∃ head operands m c,
    tokens cs = head :: operands ∧ capitalize head.toList = (m.text ++ c.suffix).toList ∧
      Makes c m operands s := by
  simp only [ofLine_eq_ok_some, Head.ofToken_eq_ok_iff, ofOperands_eq_ok_iff]
  constructor
  · rintro ⟨head, operands, k, ht, hk, hs⟩
    exact ⟨head, operands, k.mnemonic, k.condition, ht, hk, hs⟩
  · rintro ⟨head, operands, m, c, ht, hk, hs⟩
    exact ⟨head, operands, ⟨m, c⟩, ht, hk, hs⟩

theorem exists_format_of_makes (h : Makes c (.binary a) [t, u] s) : ∃ i : Instruction,
    s = .instruction i ∧ i.isWellFormed = true ∧
      i.format = if (read? u).isSome then .immediate else .register := by
  cases h with
  | registerAlias hd hr =>
    have hn : read? u = none := by
      cases hv : read? u with
      | none => rfl
      | some v =>
        have hi := isIntended_of_read? hv
        rw [isIntended_of_register hr] at hi
        cases hi
    exact ⟨_, rfl, rfl, by simp [hn, Instruction.format]⟩
  | immediateAlias hd hv => exact ⟨_, rfl, rfl, by simp [hv, Instruction.format]⟩

end Statement

namespace Assembly

variable {text : String} {p : WordPair}

theorem assembleLine_eq_ok :
    assembleLine text = .ok (some p) ↔ ∃ s, ofLine text.toList = .ok (some s) ∧ s.words = p := by
  rw [assembleLine, assembleNumbered]
  cases ofLine text.toList with
  | error e => simp
  | ok s? => cases s? <;> simp

theorem assembleLine_eq_ok_none :
    assembleLine text = .ok none ↔ tokens text.toList = [] := by
  rw [← ofLine_eq_ok_none, assembleLine, assembleNumbered]
  cases ofLine text.toList with
  | error e => simp
  | ok s? => cases s? <;> simp

/-- A line without tokens has no words. Any other has words exactly if the capitals of its first
token are a mnemonic and the suffix of a condition, which may be empty, and its other tokens are
operands that the mnemonic takes; its words are then those of the statement that these make. No text
is a mnemonic with a suffix in two ways, and no mnemonic is another one with a suffix. The second
operand of an alias makes an instruction with a value exactly if it is a literal. -/
theorem line_grammar :
    (∀ line, assembleLine line = .ok none ↔ tokens line.toList = []) ∧
    (∀ line p, assembleLine line = .ok (some p) ↔ ∃ head operands m c s,
      tokens line.toList = head :: operands ∧
        Text.capitalize head.toList = (m.text ++ c.suffix).toList ∧
        Makes c m operands s ∧ s.words = p) ∧
    (∀ (m m' : Mnemonic) (c c' : Condition),
      m.text ++ c.suffix = m'.text ++ c'.suffix → m = m' ∧ c = c') ∧
    (∀ (m m' : Mnemonic) (c : Condition), m.text = m'.text ++ c.suffix → m = m' ∧ c = .always) ∧
    ∀ line head t u (a : BinaryAlias) (c : Condition) p, tokens line.toList = [head, t, u] →
      Text.capitalize head.toList = (a.text ++ c.suffix).toList →
      assembleLine line = .ok (some p) → ∃ i, Instruction.decode p = .ok i ∧
        i.format = if (Literal.read? u).isSome then .immediate else .register := by
  have hu : ∀ (m m' : Mnemonic) (c c' : Condition),
      m.text ++ c.suffix = m'.text ++ c'.suffix → m = m' ∧ c = c' := by
    intro m m' c c' he
    have hh : Head.mk m c = ⟨m', c'⟩ := Head.text_injective he
    cases hh
    exact ⟨rfl, rfl⟩
  have hw : ∀ line p, assembleLine line = .ok (some p) ↔ ∃ head operands m c s,
      tokens line.toList = head :: operands ∧
        Text.capitalize head.toList = (m.text ++ c.suffix).toList ∧
        Makes c m operands s ∧ s.words = p := by
    intro line p
    rw [assembleLine_eq_ok]
    simp only [ofLine_eq_ok_iff]
    constructor
    · rintro ⟨s, ⟨head, operands, m, c, ht, hk, hs⟩, hp⟩
      exact ⟨head, operands, m, c, s, ht, hk, hs, hp⟩
    · rintro ⟨head, operands, m, c, s, ht, hk, hs, hp⟩
      exact ⟨s, ⟨head, operands, m, c, ht, hk, hs⟩, hp⟩
  refine ⟨fun line => assembleLine_eq_ok_none, hw, hu, fun m m' c he => ?_, ?_⟩
  · obtain ⟨hm, hc⟩ := hu m m' .always c (by simpa [Condition.suffix] using he)
    exact ⟨hm, hc.symm⟩
  · intro line head t u a c p ht hk hp
    obtain ⟨head', operands, m, c', s, ht', hk', hs, rfl⟩ := (hw line p).mp hp
    obtain ⟨rfl, rfl⟩ := List.cons.inj (ht.symm.trans ht')
    obtain ⟨rfl, rfl⟩ := hu (.binary a) m c c' (String.toList_inj.mp (hk.symm.trans hk'))
    obtain ⟨i, rfl, hi, hf⟩ := exists_format_of_makes hs
    exact ⟨i, Instruction.decode_encode hi, hf⟩

/-- A first token with a ligature that has two capitals, before a signed literal, and an alias with
tokens apart at a wide blank. -/
theorem line_grammar_ligature :
    let line := "\uFB06orezr gp1, -0X10 ; kept"
    let aliased := "subnz GP3\u30000b11"
    let i : Instruction := .immediate .store .zr (.gp 1) .zero 0xFFFFFFF0
    assembleLine line = .ok (some i.encode) ∧
      tokens aliased.toList = ["subnz", "GP3", "0b11"] ∧
      Text.capitalize "subnz".toList = (BinaryAlias.sub.text ++ Condition.nz.suffix).toList ∧
      assembleLine aliased =
        .ok (some (Instruction.immediate .aopi .nz (.gp 3) .subtractB 3).encode) ∧
      (∃ j, Instruction.decode (Instruction.immediate .aopi .nz (.gp 3) .subtractB 3).encode =
        .ok j ∧ j.format = .immediate) ∧
      (Mnemonic.opcode .clng).text = (Mnemonic.opcode .clng).text ++ Condition.always.suffix ∧
      (Mnemonic.opcode .clng = .opcode .clng ∧ Condition.always = .always) ∧
      Mnemonic.opcode .clng = .opcode .clng ∧ Condition.nz = .nz := by
  intro line aliased i
  obtain ⟨-, hw, hu, hs, hf⟩ := line_grammar
  have hm : Makes .zr (.opcode .store) ["gp1", "-0X10"] (.instruction i) :=
    .access (by decide) (by decide) (by decide +kernel)
  have ht : tokens aliased.toList = ["subnz", "GP3", "0b11"] := by decide +kernel
  have hc : Text.capitalize "subnz".toList =
      (BinaryAlias.sub.text ++ Condition.nz.suffix).toList := by
    decide +kernel
  have ha : assembleLine aliased =
      .ok (some (Instruction.immediate .aopi .nz (.gp 3) .subtractB 3).encode) := by
    decide +kernel
  have hn : (Mnemonic.opcode .clng).text =
      (Mnemonic.opcode .clng).text ++ Condition.always.suffix := by
    decide
  refine ⟨?_, ht, hc, ha, hf aliased "subnz" "GP3" "0b11" .sub .nz _ ht hc ha, hn, hs _ _ _ hn,
    hu (.opcode .clng) (.opcode .clng) .nz .nz rfl⟩
  exact (hw line _).mpr ⟨"\uFB06orezr", _, .opcode .store, .zr, .instruction i, by decide +kernel,
    by decide +kernel, hm, rfl⟩

end Assembly

end X25
