import X25.Isa.Codec
import X25.Proofs.Isa.Field

/-! # Instructions and their words

Decoding inverts encoding on exactly the well-formed instructions. Every other pair of words has a
defect, and decoding reports the first in a fixed order.
-/

namespace X25

section Tables

variable {α : Type} {n : Nat} {e f : DecodeError}

theorem elim_eq_ok {x : Option α} {a : α} : x.elim (.error f) Except.ok = .ok a ↔ x = some a := by
  cases x <;> simp

theorem elim_eq_error {x : Option α} :
    x.elim (.error f) Except.ok = .error e ↔ x = none ∧ e = f := by
  cases x <;> simp [eq_comm]

theorem find?_code_eq_none {all : List α} {code : α → Nat} (h : ∀ a, a ∈ all) :
    all.find? (code · == n) = none ↔ ∀ a, code a ≠ n := by
  simp [h]

theorem Opcode.decode_eq_elim (n : Nat) :
    decode n = (ofCode? n).elim (.error (.unknownOpcode n)) .ok := by
  rw [decode]
  cases ofCode? n <;> rfl

theorem Opcode.decode_eq_ok {o : Opcode} : decode n = .ok o ↔ o.code = n := by
  rw [decode_eq_elim, elim_eq_ok]
  refine ⟨code_of_ofCode?, ?_⟩
  rintro rfl
  exact ofCode?_code o

theorem Opcode.decode_eq_error :
    decode n = .error e ↔ (∀ o : Opcode, o.code ≠ n) ∧ e = .unknownOpcode n := by
  rw [decode_eq_elim, elim_eq_error, ofCode?, find?_code_eq_none mem_all]

theorem Opcode.code_injective {o o' : Opcode} (h : o.code = o'.code) : o = o' := by
  have ho := ofCode?_code o
  rw [h, ofCode?_code] at ho
  exact (Option.some.inj ho).symm

theorem Condition.decode_eq_elim (n : Nat) :
    decode n = (ofCode? n).elim (.error (.unknownCondition n)) .ok := by
  rw [decode]
  cases ofCode? n <;> rfl

theorem Condition.decode_eq_ok {c : Condition} : decode n = .ok c ↔ c.code = n := by
  rw [decode_eq_elim, elim_eq_ok]
  refine ⟨code_of_ofCode?, ?_⟩
  rintro rfl
  exact ofCode?_code c

theorem Condition.decode_eq_error :
    decode n = .error e ↔ (∀ c : Condition, c.code ≠ n) ∧ e = .unknownCondition n := by
  rw [decode_eq_elim, elim_eq_error, ofCode?, find?_code_eq_none mem_all]

theorem Register.decode_eq_elim (n : Nat) :
    decode n = (ofCode? n).elim (.error (.unknownRegister n)) .ok := by
  rw [decode]
  cases ofCode? n <;> rfl

theorem Register.decode_eq_ok {r : Register} : decode n = .ok r ↔ r.code = n := by
  rw [decode_eq_elim, elim_eq_ok]
  refine ⟨code_of_ofCode?, ?_⟩
  rintro rfl
  exact ofCode?_code r

theorem Register.decode_eq_error :
    decode n = .error e ↔ (∀ r : Register, r.code ≠ n) ∧ e = .unknownRegister n := by
  rw [decode_eq_elim, elim_eq_error, ofCode?, find?_code_eq_none mem_all]

end Tables

theorem Microcode.bits_ofBits {n : Nat} (h : n < 64) : (ofBits n).bits = n := by
  revert n
  decide

section Bind

variable {ε α β : Type} {x : Except ε α} {f : α → Except ε β}

theorem exceptBind_eq_ok {b : β} : (x >>= f) = .ok b ↔ ∃ a, x = .ok a ∧ f a = .ok b := by
  cases x <;> simp [bind, Except.bind]

end Bind

namespace Instruction

variable {p : WordPair} {i : Instruction} {e : DecodeError}

theorem checkUnused_eq_ok {k : Nat} {bits : Word} {u : Unit} :
    checkUnused k bits = .ok u ↔ bits = 0 := by
  simp [checkUnused]

theorem checkUnused_eq_error {k : Nat} {bits : Word} :
    checkUnused k bits = .error e ↔ bits ≠ 0 ∧ e = .reservedBits k bits := by
  by_cases h : bits = 0 <;> simp [checkUnused, h, eq_comm]

section Words

variable {o : Opcode} {c : Condition} {d s : Register} {w : Word}

theorem bit_header (ho : o.code = (Field.opcode.extract w).toNat)
    (hc : c.code = (Field.condition.extract w).toNat) {i : Nat} (hi : i < 32)
    (h : ¬ Field.opcode.Covers i → ¬ Field.condition.Covers i → w.bit i = false) :
    (header o c).bit i = w.bit i := by
  rw [header, ho, hc, UInt32.ofNat_toNat, UInt32.ofNat_toNat]
  refine Field.bit_insert_extract _ hi fun hc => Field.bit_insert_extract _ hi fun ho => ?_
  rw [Word.bit_zero, h ho hc]

theorem opcode_extract_header : (Field.opcode.extract (header o c)).toNat = o.code := by
  rw [header, Field.extract_insert_of_apart _ _ (by decide),
    Field.toNat_extract_insert _ (by decide) o.code_lt]

theorem condition_extract_header : (Field.condition.extract (header o c)).toNat = c.code :=
  Field.toNat_extract_insert _ (by decide) c.code_lt

theorem header_and_mask {f : Field} (ho : f.Apart .opcode) (hc : f.Apart .condition) :
    header o c &&& f.mask = 0 := by
  rw [header, Field.insert_and_mask_of_apart _ _ hc, Field.insert_and_mask_of_apart _ _ ho,
    UInt32.zero_and]

theorem bits_ofBits_extract {f : Field} (h : f.width = 6) (w : Word) :
    .ofNat (Microcode.ofBits (f.extract w).toNat).bits = f.extract w := by
  have hn : (f.extract w).toNat < 64 := by
    rw [Field.toNat_extract, h]
    exact Nat.mod_lt _ (by decide)
  rw [Microcode.bits_ofBits hn, UInt32.ofNat_toNat]

theorem encode_of_decodeRegister (ho : o.code = (Field.opcode.extract p.low).toNat)
    (hc : c.code = (Field.condition.extract p.low).toNat) (hf : o.format = .register)
    (h : decodeRegister o c p = .ok i) : i.isWellFormed = true ∧ i.encode = p := by
  obtain ⟨_, hu, h⟩ := exceptBind_eq_ok.mp h
  obtain ⟨_, hh, h⟩ := exceptBind_eq_ok.mp h
  obtain ⟨d, hd, h⟩ := exceptBind_eq_ok.mp h
  obtain ⟨s, hs, h⟩ := exceptBind_eq_ok.mp h
  cases h
  rw [checkUnused_eq_ok] at hu hh
  rw [Register.decode_eq_ok] at hd hs
  refine ⟨by simp only [isWellFormed, opcode, format, hf, beq_self_eq_true], ?_⟩
  rw [encode, hd, hs, bits_ofBits_extract rfl, UInt32.ofNat_toNat, UInt32.ofNat_toNat, ← hh]
  refine congrArg (WordPair.mk · p.high) (Word.eq_of_bit_eq fun i hi => ?_)
  -- Each bit is taken over by a field, or is a zero that no field covers.
  refine Field.bit_insert_extract _ hi fun ha => Field.bit_insert_extract _ hi fun hs =>
    Field.bit_insert_extract _ hi fun hd => bit_header ho hc hi fun ho hc =>
      Field.bit_of_and_mask_eq_zero hu hi ?_
  simp only [Field.Covers, Field.registerAlu, Field.src, Field.dest, Field.condition,
    Field.opcode, Field.registerUnused] at *
  omega

theorem encode_of_decodeImmediate (ho : o.code = (Field.opcode.extract p.low).toNat)
    (hc : c.code = (Field.condition.extract p.low).toNat) (hf : o.format = .immediate)
    (h : decodeImmediate o c p = .ok i) : i.isWellFormed = true ∧ i.encode = p := by
  obtain ⟨_, hu, h⟩ := exceptBind_eq_ok.mp h
  obtain ⟨d, hd, h⟩ := exceptBind_eq_ok.mp h
  cases h
  rw [checkUnused_eq_ok] at hu
  rw [Register.decode_eq_ok] at hd
  refine ⟨by simp only [isWellFormed, opcode, format, hf, beq_self_eq_true], ?_⟩
  rw [encode, hd, bits_ofBits_extract rfl, UInt32.ofNat_toNat]
  refine congrArg (WordPair.mk · p.high) (Word.eq_of_bit_eq fun i hi => ?_)
  refine Field.bit_insert_extract _ hi fun ha => Field.bit_insert_extract _ hi fun hd =>
    bit_header ho hc hi fun ho hc => Field.bit_of_and_mask_eq_zero hu hi ?_
  simp only [Field.Covers, Field.immediateAlu, Field.dest, Field.condition, Field.opcode,
    Field.immediateUnused] at *
  omega

theorem encode_of_decodeJump (ho : o.code = (Field.opcode.extract p.low).toNat)
    (hc : c.code = (Field.condition.extract p.low).toNat) (hf : o.format = .jump)
    (h : decodeJump o c p = .ok i) : i.isWellFormed = true ∧ i.encode = p := by
  obtain ⟨_, hu, h⟩ := exceptBind_eq_ok.mp h
  cases h
  rw [checkUnused_eq_ok] at hu
  refine ⟨by simp only [isWellFormed, opcode, format, hf, beq_self_eq_true], ?_⟩
  rw [encode]
  refine congrArg (WordPair.mk · p.high) (Word.eq_of_bit_eq fun i hi => ?_)
  refine bit_header ho hc hi fun ho hc => Field.bit_of_and_mask_eq_zero hu hi ?_
  simp only [Field.Covers, Field.condition, Field.opcode, Field.jumpUnused] at *
  omega

end Words

/-- What decodes is well formed, and encodes to the words it was decoded from. -/
theorem encode_of_decode (h : decode p = .ok i) : i.isWellFormed = true ∧ i.encode = p := by
  obtain ⟨o, ho, h⟩ := exceptBind_eq_ok.mp h
  obtain ⟨c, hc, h⟩ := exceptBind_eq_ok.mp h
  rw [Opcode.decode_eq_ok] at ho
  rw [Condition.decode_eq_ok] at hc
  cases hf : o.format with
  | register =>
    rw [hf] at h
    exact encode_of_decodeRegister ho hc hf h
  | immediate =>
    rw [hf] at h
    exact encode_of_decodeImmediate ho hc hf h
  | jump =>
    rw [hf] at h
    exact encode_of_decodeJump ho hc hf h

theorem opcode_extract_encode (i : Instruction) :
    (Field.opcode.extract i.encode.low).toNat = i.opcode.code := by
  cases i with
  | register o c d s m =>
    rw [encode, Field.extract_insert_of_apart _ _ (by decide),
      Field.extract_insert_of_apart _ _ (by decide),
      Field.extract_insert_of_apart _ _ (by decide), opcode_extract_header, opcode]
  | immediate o c d m v =>
    rw [encode, Field.extract_insert_of_apart _ _ (by decide),
      Field.extract_insert_of_apart _ _ (by decide), opcode_extract_header, opcode]
  | jump o c t => exact opcode_extract_header

theorem condition_extract_encode (i : Instruction) :
    (Field.condition.extract i.encode.low).toNat = i.condition.code := by
  cases i with
  | register o c d s m =>
    rw [encode, Field.extract_insert_of_apart _ _ (by decide),
      Field.extract_insert_of_apart _ _ (by decide),
      Field.extract_insert_of_apart _ _ (by decide), condition_extract_header, condition]
  | immediate o c d m v =>
    rw [encode, Field.extract_insert_of_apart _ _ (by decide),
      Field.extract_insert_of_apart _ _ (by decide), condition_extract_header, condition]
  | jump o c t => exact condition_extract_header

theorem decodeRegister_encode (o : Opcode) (c : Condition) (d s : Register) (m : Microcode) :
    decodeRegister o c (register o c d s m).encode = .ok (register o c d s m) := by
  have hu : (register o c d s m).encode.low &&& Field.registerUnused.mask = 0 := by
    rw [encode, Field.insert_and_mask_of_apart _ _ (by decide),
      Field.insert_and_mask_of_apart _ _ (by decide),
      Field.insert_and_mask_of_apart _ _ (by decide), header_and_mask (by decide) (by decide)]
  have hd : (Field.dest.extract (register o c d s m).encode.low).toNat = d.code := by
    rw [encode, Field.extract_insert_of_apart _ _ (by decide),
      Field.extract_insert_of_apart _ _ (by decide),
      Field.toNat_extract_insert _ (by decide) d.code_lt]
  have hs : (Field.src.extract (register o c d s m).encode.low).toNat = s.code := by
    rw [encode, Field.extract_insert_of_apart _ _ (by decide),
      Field.toNat_extract_insert _ (by decide) s.code_lt]
  have hm : (Field.registerAlu.extract (register o c d s m).encode.low).toNat = m.bits :=
    Field.toNat_extract_insert _ (by decide) m.bits_lt
  refine exceptBind_eq_ok.mpr ⟨(), checkUnused_eq_ok.mpr hu, ?_⟩
  refine exceptBind_eq_ok.mpr ⟨(), checkUnused_eq_ok.mpr rfl, ?_⟩
  refine exceptBind_eq_ok.mpr ⟨d, Register.decode_eq_ok.mpr hd.symm, ?_⟩
  refine exceptBind_eq_ok.mpr ⟨s, Register.decode_eq_ok.mpr hs.symm, ?_⟩
  rw [hm, Microcode.ofBits_bits]
  rfl

theorem decodeImmediate_encode (o : Opcode) (c : Condition) (d : Register) (m : Microcode)
    (v : Word) :
    decodeImmediate o c (immediate o c d m v).encode = .ok (immediate o c d m v) := by
  have hu : (immediate o c d m v).encode.low &&& Field.immediateUnused.mask = 0 := by
    rw [encode, Field.insert_and_mask_of_apart _ _ (by decide),
      Field.insert_and_mask_of_apart _ _ (by decide), header_and_mask (by decide) (by decide)]
  have hd : (Field.dest.extract (immediate o c d m v).encode.low).toNat = d.code := by
    rw [encode, Field.extract_insert_of_apart _ _ (by decide),
      Field.toNat_extract_insert _ (by decide) d.code_lt]
  have hm : (Field.immediateAlu.extract (immediate o c d m v).encode.low).toNat = m.bits :=
    Field.toNat_extract_insert _ (by decide) m.bits_lt
  refine exceptBind_eq_ok.mpr ⟨(), checkUnused_eq_ok.mpr hu, ?_⟩
  refine exceptBind_eq_ok.mpr ⟨d, Register.decode_eq_ok.mpr hd.symm, ?_⟩
  rw [hm, Microcode.ofBits_bits]
  rfl

theorem decodeJump_encode (o : Opcode) (c : Condition) (t : Word) :
    decodeJump o c (jump o c t).encode = .ok (jump o c t) := by
  have hu : (jump o c t).encode.low &&& Field.jumpUnused.mask = 0 :=
    header_and_mask (by decide) (by decide)
  exact exceptBind_eq_ok.mpr ⟨(), checkUnused_eq_ok.mpr hu, rfl⟩

theorem decode_encode (h : i.isWellFormed = true) : decode i.encode = .ok i := by
  have ho := Opcode.decode_eq_ok.mpr (opcode_extract_encode i).symm
  have hc := Condition.decode_eq_ok.mpr (condition_extract_encode i).symm
  refine exceptBind_eq_ok.mpr ⟨_, ho, exceptBind_eq_ok.mpr ⟨_, hc, ?_⟩⟩
  have hf : i.opcode.format = i.format := by simpa [isWellFormed] using h
  rw [hf]
  cases i with
  | register o c d s m => exact decodeRegister_encode o c d s m
  | immediate o c d m v => exact decodeImmediate_encode o c d m v
  | jump o c t => exact decodeJump_encode o c t

theorem decode_eq_ok : decode p = .ok i ↔ i.isWellFormed = true ∧ i.encode = p := by
  refine ⟨encode_of_decode, ?_⟩
  rintro ⟨hw, rfl⟩
  exact decode_encode hw

end Instruction

end X25
