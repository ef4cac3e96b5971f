import X25.Proofs.Isa.Codec

/-! # Defects of word pairs

What can be wrong with two words, in the order in which decoding looks for it. Where the parts of
an instruction lie in the first word is said by division, apart from how fields are read.
-/

namespace X25

namespace WordPair

variable (p : WordPair)

def opcodeCode : Nat :=
  p.low.toNat / 2 ^ 26

def conditionCode : Nat :=
  p.low.toNat / 2 ^ 22 % 2 ^ 4

def destCode : Nat :=
  p.low.toNat / 2 ^ 17 % 2 ^ 5

def srcCode : Nat :=
  p.low.toNat / 2 ^ 12 % 2 ^ 5

def unused : Format → Nat
  | .register => p.low.toNat % 2 ^ 6
  | .immediate => p.low.toNat % 2 ^ 11
  | .jump => p.low.toNat % 2 ^ 22

/-- A defect at its place in the order, with the error that tells of it. -/
inductive Defect : Nat → DecodeError → Prop
  | opcode (h : ∀ o : Opcode, o.code ≠ p.opcodeCode) : Defect 0 (.unknownOpcode p.opcodeCode)
  | condition (h : ∀ c : Condition, c.code ≠ p.conditionCode) :
      Defect 1 (.unknownCondition p.conditionCode)
  | unused {o : Opcode} (ho : o.code = p.opcodeCode) (h : p.unused o.format ≠ 0) :
      Defect 2 (.reservedBits 0 (.ofNat (p.unused o.format)))
  | high {o : Opcode} (ho : o.code = p.opcodeCode) (hf : o.format = .register)
      (h : p.high ≠ 0) : Defect 3 (.reservedBits 1 p.high)
  | dest {o : Opcode} (ho : o.code = p.opcodeCode) (hf : o.format ≠ .jump)
      (h : ∀ r : Register, r.code ≠ p.destCode) : Defect 4 (.unknownRegister p.destCode)
  | src {o : Opcode} (ho : o.code = p.opcodeCode) (hf : o.format = .register)
      (h : ∀ r : Register, r.code ≠ p.srcCode) : Defect 5 (.unknownRegister p.srcCode)

/-- There is no defect before a place. -/
def ClearBefore (k : Nat) : Prop :=
  ∀ j < k, ∀ e, ¬ p.Defect j e

end WordPair

namespace WordPair

variable {p : WordPair} {k : Nat} {e e' : DecodeError} {o : Opcode}

theorem opcode_extract_eq : (Field.opcode.extract p.low).toNat = p.opcodeCode := by
  have h : p.low.toNat < 2 ^ 32 := p.low.toNat_lt
  rw [Field.toNat_extract, opcodeCode]
  show p.low.toNat / 2 ^ 26 % 2 ^ 6 = _
  omega

theorem condition_extract_eq : (Field.condition.extract p.low).toNat = p.conditionCode :=
  Field.toNat_extract _ _

theorem dest_extract_eq : (Field.dest.extract p.low).toNat = p.destCode :=
  Field.toNat_extract _ _

theorem src_extract_eq : (Field.src.extract p.low).toNat = p.srcCode :=
  Field.toNat_extract _ _

/-- The word of a mask at the low end, as decoding reports it. -/
theorem and_mask_eq {f : Field} (h : f.shift = 0) :
    p.low &&& f.mask = .ofNat (p.low.toNat % 2 ^ f.width) := by
  rw [← Field.toNat_and_mask_of_shift_eq_zero _ h, UInt32.ofNat_toNat]

theorem ofNat_unused_eq_zero {f : Format} : UInt32.ofNat (p.unused f) = 0 ↔ p.unused f = 0 := by
  have h : p.low.toNat < 2 ^ 32 := p.low.toNat_lt
  have hu : p.unused f < 2 ^ 32 := by
    cases f with
    | register => rw [unused]; omega
    | immediate => rw [unused]; omega
    | jump => rw [unused]; omega
  rw [← UInt32.toNat_inj, UInt32.toNat_ofNat_of_lt' hu]
  rfl

theorem Defect.lt_six (h : p.Defect k e) : k < 6 := by
  cases h <;> decide

theorem Defect.unique (h : p.Defect k e) (h' : p.Defect k e') : e = e' := by
  cases h with
  | unused ho =>
    cases h' with
    | unused ho' =>
      obtain rfl := Opcode.code_injective (ho.trans ho'.symm)
      rfl
  | opcode | condition | high | dest | src => cases h'; rfl

theorem clearBefore_zero : p.ClearBefore 0 :=
  fun _ h => absurd h (Nat.not_lt_zero _)

theorem ClearBefore.succ (h : p.ClearBefore k) (hk : ∀ e, ¬ p.Defect k e) :
    p.ClearBefore (k + 1) := by
  intro j hj
  obtain hj | rfl := Nat.lt_succ_iff_lt_or_eq.mp hj
  · exact h j hj
  · exact hk

theorem clearBefore_one (ho : o.code = p.opcodeCode) : p.ClearBefore 1 := by
  refine clearBefore_zero.succ fun e h => ?_
  cases h with
  | opcode h => exact h o ho

theorem ClearBefore.two (hk : p.ClearBefore 1) {c : Condition} (hc : c.code = p.conditionCode) :
    p.ClearBefore 2 := by
  refine hk.succ fun e h => ?_
  cases h with
  | condition h => exact h c hc

theorem ClearBefore.three (hk : p.ClearBefore 2) (ho : o.code = p.opcodeCode)
    (hu : p.unused o.format = 0) : p.ClearBefore 3 := by
  refine hk.succ fun e h => ?_
  cases h with
  | unused ho' h =>
    obtain rfl := Opcode.code_injective (ho.trans ho'.symm)
    exact h hu

theorem ClearBefore.four (hk : p.ClearBefore 3) (ho : o.code = p.opcodeCode)
    (hh : o.format = .register → p.high = 0) : p.ClearBefore 4 := by
  refine hk.succ fun e h => ?_
  cases h with
  | high ho' hf h =>
    obtain rfl := Opcode.code_injective (ho.trans ho'.symm)
    exact h (hh hf)

theorem ClearBefore.five (hk : p.ClearBefore 4) (ho : o.code = p.opcodeCode)
    (hd : o.format ≠ .jump → ∃ r : Register, r.code = p.destCode) : p.ClearBefore 5 := by
  refine hk.succ fun e h => ?_
  cases h with
  | dest ho' hf h =>
    obtain rfl := Opcode.code_injective (ho.trans ho'.symm)
    obtain ⟨r, hr⟩ := hd hf
    exact h r hr

theorem ClearBefore.six (hk : p.ClearBefore 5) (ho : o.code = p.opcodeCode)
    (hs : o.format = .register → ∃ r : Register, r.code = p.srcCode) : p.ClearBefore 6 := by
  refine hk.succ fun e h => ?_
  cases h with
  | src ho' hf h =>
    obtain rfl := Opcode.code_injective (ho.trans ho'.symm)
    obtain ⟨r, hr⟩ := hs hf
    exact h r hr

/-- An answer about the pair is right: a refusal names the first defect, and nothing with a defect
is accepted. -/
def Judged (p : WordPair) {α : Type} : Except DecodeError α → Prop
  | .ok _ => p.ClearBefore 6
  | .error e => ∃ k, p.Defect k e ∧ p.ClearBefore k

theorem Judged.bind {α β : Type} {x : Except DecodeError α} {f : α → Except DecodeError β}
    (he : ∀ e, x = .error e → ∃ k, p.Defect k e ∧ p.ClearBefore k)
    (hf : ∀ a, x = .ok a → p.Judged (f a)) : p.Judged (x >>= f) := by
  cases hx : x with
  | ok a => exact hf a hx
  | error e => exact he e hx

end WordPair

namespace Instruction

open WordPair

variable {p : WordPair} {o : Opcode} {e : DecodeError}

theorem judged_unused {α : Type} {f : Field} {g : Unit → Except DecodeError α}
    (ho : o.code = p.opcodeCode) (hk : p.ClearBefore 2)
    (hm : p.low &&& f.mask = .ofNat (p.unused o.format))
    (hg : p.ClearBefore 3 → p.Judged (g ())) :
    p.Judged (checkUnused 0 (p.low &&& f.mask) >>= g) := by
  refine Judged.bind (fun e h => ?_) fun _ h => ?_
  · obtain ⟨hu, rfl⟩ := checkUnused_eq_error.mp h
    rw [hm] at hu ⊢
    exact ⟨2, .unused ho fun h => hu (ofNat_unused_eq_zero.mpr h), hk⟩
  · rw [checkUnused_eq_ok, hm, ofNat_unused_eq_zero] at h
    exact hg (hk.three ho h)

theorem judged_dest {α : Type} {g : Register → Except DecodeError α} (ho : o.code = p.opcodeCode)
    (hf : o.format ≠ .jump) (hk : p.ClearBefore 4)
    (hg : ∀ d, p.ClearBefore 5 → p.Judged (g d)) :
    p.Judged (Register.decode (Field.dest.extract p.low).toNat >>= g) := by
  rw [dest_extract_eq]
  refine Judged.bind (fun e h => ?_) fun d h => ?_
  · obtain ⟨hd, rfl⟩ := Register.decode_eq_error.mp h
    exact ⟨4, .dest ho hf hd, hk⟩
  · exact hg d (hk.five ho fun _ => ⟨d, Register.decode_eq_ok.mp h⟩)

theorem judged_decodeRegister (c : Condition) (ho : o.code = p.opcodeCode)
    (hf : o.format = .register) (hk : p.ClearBefore 2) : p.Judged (decodeRegister o c p) := by
  have hm : p.low &&& Field.registerUnused.mask = .ofNat (p.unused o.format) := by
    rw [and_mask_eq rfl, hf]
    rfl
  have hj : o.format ≠ .jump := by simp [hf]
  refine judged_unused ho hk hm fun hk => Judged.bind (fun e h => ?_) fun _ h => ?_
  · obtain ⟨hh, rfl⟩ := checkUnused_eq_error.mp h
    exact ⟨3, .high ho hf hh, hk⟩
  · have hk := hk.four ho fun _ => checkUnused_eq_ok.mp h
    refine judged_dest ho hj hk fun d hk => Judged.bind (fun e h => ?_) fun s h => ?_
    · obtain ⟨hs, rfl⟩ := Register.decode_eq_error.mp h
      rw [src_extract_eq] at hs ⊢
      exact ⟨5, .src ho hf hs, hk⟩
    · exact hk.six ho fun _ => ⟨s, (Register.decode_eq_ok.mp h).trans src_extract_eq⟩

theorem judged_decodeImmediate (c : Condition) (ho : o.code = p.opcodeCode)
    (hf : o.format = .immediate) (hk : p.ClearBefore 2) : p.Judged (decodeImmediate o c p) := by
  have hm : p.low &&& Field.immediateUnused.mask = .ofNat (p.unused o.format) := by
    rw [and_mask_eq rfl, hf]
    rfl
  have hj : o.format ≠ .jump := by simp [hf]
  have hr : o.format ≠ .register := by simp [hf]
  refine judged_unused ho hk hm fun hk => ?_
  have hk := hk.four ho fun h => absurd h hr
  exact judged_dest ho hj hk fun d hk => hk.six ho fun h => absurd h hr

theorem judged_decodeJump (c : Condition) (ho : o.code = p.opcodeCode)
    (hf : o.format = .jump) (hk : p.ClearBefore 2) : p.Judged (decodeJump o c p) := by
  have hm : p.low &&& Field.jumpUnused.mask = .ofNat (p.unused o.format) := by
    rw [and_mask_eq rfl, hf]
    rfl
  have hr : o.format ≠ .register := by simp [hf]
  refine judged_unused ho hk hm fun hk => ?_
  have hk := hk.four ho fun h => absurd h hr
  exact (hk.five ho fun h => absurd hf h).six ho fun h => absurd h hr

theorem judged_decode (p : WordPair) : p.Judged (decode p) := by
  refine Judged.bind (fun e h => ?_) fun o h => ?_
  · obtain ⟨ho, rfl⟩ := Opcode.decode_eq_error.mp h
    rw [opcode_extract_eq] at ho ⊢
    exact ⟨0, .opcode ho, clearBefore_zero⟩
  · have ho := (Opcode.decode_eq_ok.mp h).trans opcode_extract_eq
    refine Judged.bind (fun e h => ?_) fun c h => ?_
    · obtain ⟨hc, rfl⟩ := Condition.decode_eq_error.mp h
      rw [condition_extract_eq] at hc ⊢
      exact ⟨1, .condition hc, clearBefore_one ho⟩
    · have hc := (Condition.decode_eq_ok.mp h).trans condition_extract_eq
      have hk := (clearBefore_one ho).two hc
      cases hf : o.format with
      | register => exact judged_decodeRegister c ho hf hk
      | immediate => exact judged_decodeImmediate c ho hf hk
      | jump => exact judged_decodeJump c ho hf hk

theorem decode_eq_error : decode p = .error e ↔ ∃ k, p.Defect k e ∧ p.ClearBefore k := by
  have hp := judged_decode p
  constructor
  · intro h
    rwa [h] at hp
  · rintro ⟨k, hd, hk⟩
    cases h : decode p with
    | ok i =>
      rw [h] at hp
      exact absurd hd (hp k hd.lt_six e)
    | error e' =>
      rw [h] at hp
      obtain ⟨k', hd', hk'⟩ := hp
      obtain hlt | rfl | hgt := Nat.lt_trichotomy k k'
      · exact absurd hd (hk' k hlt e)
      · rw [hd.unique hd']
      · exact absurd hd' (hk k' hgt e')

/-- The accepted pairs are the words of the well-formed instructions, each decoded to the one
instruction whose words they are; every other pair is refused for its first defect. -/
theorem decode_iff (p : WordPair) :
    (∀ i, decode p = .ok i ↔ i.isWellFormed = true ∧ i.encode = p) ∧
      (∀ e, decode p = .error e ↔ ∃ k, p.Defect k e ∧ ∀ j < k, ∀ e', ¬ p.Defect j e') :=
  ⟨fun _ => decode_eq_ok, fun _ => decode_eq_error⟩

end Instruction

end X25
