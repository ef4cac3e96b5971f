import Mathlib.Data.Nat.Bitwise
import X25.Isa.Field

/-! # Bits of fields

Every operation on fields is determined bit by bit: reading moves the bits of the field down, and
replacing changes the bits of the field and no others. Fields without a common bit do not interfere.
-/

namespace X25

namespace Word

/-- The bit of a word at a position; above the highest, none is set. -/
def bit (w : Word) (i : Nat) : Bool :=
  w.toBitVec.getLsbD i

theorem bit_eq_testBit (w : Word) (i : Nat) : w.bit i = w.toNat.testBit i := rfl

theorem bit_of_ge (w : Word) {i : Nat} (h : 32 ≤ i) : w.bit i = false :=
  BitVec.getLsbD_of_ge _ _ h

theorem eq_of_bit_eq {v w : Word} (h : ∀ i < 32, v.bit i = w.bit i) : v = w :=
  UInt32.toBitVec_inj.mp (BitVec.eq_of_getLsbD_eq h)

theorem bit_zero (i : Nat) : (0 : Word).bit i = false :=
  BitVec.getLsbD_zero

theorem bit_and (v w : Word) (i : Nat) : (v &&& w).bit i = (v.bit i && w.bit i) :=
  BitVec.getLsbD_and

theorem bit_or (v w : Word) (i : Nat) : (v ||| w).bit i = (v.bit i || w.bit i) :=
  BitVec.getLsbD_or

theorem bit_not (w : Word) {i : Nat} (h : i < 32) : (~~~w).bit i = !w.bit i := by
  simp [bit, h]

end Word

namespace Field

/-- Whether the field reaches over a position. -/
def Covers (f : Field) (i : Nat) : Prop :=
  f.shift ≤ i ∧ i < f.shift + f.width

instance (f : Field) (i : Nat) : Decidable (f.Covers i) :=
  inferInstanceAs (Decidable (_ ∧ _))

def Apart (f g : Field) : Prop :=
  f.shift + f.width ≤ g.shift ∨ g.shift + g.width ≤ f.shift

instance (f g : Field) : Decidable (f.Apart g) :=
  inferInstanceAs (Decidable (_ ∨ _))

theorem Apart.not_covers {f g : Field} (h : f.Apart g) {i : Nat} (hf : f.Covers i) :
    ¬ g.Covers i := by
  rintro ⟨hg, hg'⟩
  obtain ⟨hf, hf'⟩ := hf
  obtain h | h := h <;> omega

variable (f : Field) (w v : Word)

theorem bit_shiftUp (n : Nat) {i : Nat} (h : i < 32) :
    (shiftUp w n).bit i = (decide (n ≤ i) && w.bit (i - n)) := by
  have hn : (!decide (i < n)) = decide (n ≤ i) := by
    rw [← decide_not, decide_eq_decide, Nat.not_lt]
  simp only [shiftUp, Word.bit, BitVec.getLsbD_shiftLeft, h, decide_true, Bool.true_and, hn]

theorem bit_shiftDown (n i : Nat) : (shiftDown w n).bit i = w.bit (n + i) :=
  BitVec.getLsbD_ushiftRight _ _ _

theorem bit_max (i : Nat) : f.max.bit i = (decide (i < 32) && decide (i < f.width)) := by
  show (BitVec.ofNat 32 (2 ^ f.width - 1)).getLsbD i = _
  rw [BitVec.getLsbD_ofNat, Nat.testBit_two_pow_sub_one]

theorem bit_mask {i : Nat} (h : i < 32) : f.mask.bit i = decide (f.Covers i) := by
  have hi : i - f.shift < 32 := by omega
  rw [mask, bit_shiftUp _ _ h, bit_max, ← Bool.decide_and, ← Bool.decide_and]
  refine decide_eq_decide.mpr ⟨?_, ?_⟩
  · rintro ⟨hs, -, hw⟩
    exact ⟨hs, by omega⟩
  · rintro ⟨hs, hw⟩
    exact ⟨hs, hi, by omega⟩

theorem bit_extract (i : Nat) :
    (f.extract w).bit i = (decide (i < f.width) && w.bit (f.shift + i)) := by
  rw [extract, bit_shiftDown, Word.bit_and]
  by_cases h : f.shift + i < 32
  · have hc : f.Covers (f.shift + i) ↔ i < f.width := by
      simp [Covers]
    rw [bit_mask f h, Bool.and_comm, decide_eq_decide.mpr hc]
  · rw [Word.bit_of_ge w (by omega)]
    simp

theorem bit_insert {i : Nat} (h : i < 32) :
    (f.insert w v).bit i = if f.Covers i then v.bit (i - f.shift) else w.bit i := by
  rw [insert, Word.bit_or, Word.bit_and, Word.bit_not _ h, bit_mask f h, bit_shiftUp _ _ h,
    Word.bit_and, bit_max]
  by_cases hc : f.Covers i
  · have hs : f.shift ≤ i := hc.1
    have hm : i - f.shift < 32 ∧ i - f.shift < f.width := ⟨by omega, by have := hc.2; omega⟩
    simp [hc, hs, hm]
  · have hm : ¬ (f.shift ≤ i ∧ i - f.shift < 32 ∧ i - f.shift < f.width) := by
      rintro ⟨hs, -, hw⟩
      exact hc ⟨hs, by omega⟩
    have hd : (decide (f.shift ≤ i) && (decide (i - f.shift < 32) &&
        decide (i - f.shift < f.width))) = false := by
      rw [← Bool.decide_and, ← Bool.decide_and]
      exact decide_eq_false hm
    rw [Bool.and_left_comm, hd, Bool.and_false, Bool.or_false, decide_eq_false hc, if_neg hc,
      Bool.not_false, Bool.and_true]

/-- Replacing a field by that of another word takes its bits over; it remains to compare the
others. -/
theorem bit_insert_extract {w v : Word} {i : Nat} (h : i < 32)
    (ho : ¬ f.Covers i → w.bit i = v.bit i) : (f.insert w (f.extract v)).bit i = v.bit i := by
  rw [bit_insert f _ _ h]
  split
  · next hc =>
    obtain ⟨hs, hw⟩ := hc
    rw [bit_extract, decide_eq_true (by omega), Bool.true_and, Nat.add_sub_cancel' hs]
  · next hc => exact ho hc

theorem toNat_extract : (f.extract w).toNat = w.toNat / 2 ^ f.shift % 2 ^ f.width := by
  apply Nat.eq_of_testBit_eq
  intro i
  rw [← Word.bit_eq_testBit, bit_extract, Nat.testBit_mod_two_pow, Nat.testBit_div_two_pow,
    Nat.add_comm, Word.bit_eq_testBit]

theorem toNat_and_mask_of_shift_eq_zero {f : Field} (h : f.shift = 0) :
    (w &&& f.mask).toNat = w.toNat % 2 ^ f.width := by
  apply Nat.eq_of_testBit_eq
  intro i
  rw [← Word.bit_eq_testBit, Nat.testBit_mod_two_pow, ← Word.bit_eq_testBit, Word.bit_and]
  by_cases hi : i < 32
  · have hc : f.Covers i ↔ i < f.width := by
      simp [Covers, h]
    rw [bit_mask f hi, Bool.and_comm, decide_eq_decide.mpr hc]
  · rw [Word.bit_of_ge w (by omega), Bool.false_and, Bool.and_false]

theorem bit_of_and_mask_eq_zero {f : Field} {w : Word} (h : w &&& f.mask = 0) {i : Nat}
    (hi : i < 32) (hc : f.Covers i) : w.bit i = false := by
  have hb := Word.bit_and w f.mask i
  rw [h, Word.bit_zero, bit_mask f hi, decide_eq_true hc, Bool.and_true] at hb
  exact hb.symm

theorem toNat_extract_insert {f : Field} (hf : f.shift + f.width ≤ 32) {n : Nat}
    (hn : n < 2 ^ f.width) : (f.extract (f.insert w (.ofNat n))).toNat = n := by
  apply Nat.eq_of_testBit_eq
  intro i
  rw [← Word.bit_eq_testBit, bit_extract]
  by_cases hi : i < f.width
  · have hc : f.Covers (f.shift + i) := ⟨by omega, by omega⟩
    have h32 : i < 32 := by omega
    rw [bit_insert f _ _ (by omega), if_pos hc, Nat.add_sub_cancel_left, decide_eq_true hi,
      Bool.true_and]
    show (BitVec.ofNat 32 n).getLsbD i = _
    rw [BitVec.getLsbD_ofNat, decide_eq_true h32, Bool.true_and]
  · have hp : 2 ^ f.width ≤ 2 ^ i := Nat.pow_le_pow_right (by decide) (by omega)
    rw [decide_eq_false hi, Bool.false_and, Nat.testBit_lt_two_pow (by omega)]

variable {f} {g : Field}

/-- Fields whose masks share no bit have no position within the word in common. -/
theorem not_covers_of_disjoint (h : f.mask &&& g.mask = 0) {i : Nat} (hi : i < 32)
    (hf : f.Covers i) : ¬ g.Covers i := by
  intro hg
  have hb := Word.bit_and f.mask g.mask i
  rw [h, Word.bit_zero, bit_mask f hi, bit_mask g hi, decide_eq_true hf, decide_eq_true hg] at hb
  cases hb

theorem Apart.disjoint (h : f.Apart g) : f.mask &&& g.mask = 0 := by
  apply Word.eq_of_bit_eq
  intro i hi
  rw [Word.bit_and, Word.bit_zero, bit_mask f hi, bit_mask g hi]
  by_cases hc : f.Covers i
  · rw [decide_eq_false (h.not_covers hc), Bool.and_false]
  · rw [decide_eq_false hc, Bool.false_and]

theorem extract_insert_of_disjoint (h : f.mask &&& g.mask = 0) :
    f.extract (g.insert w v) = f.extract w := by
  apply Word.eq_of_bit_eq
  intro i hi
  rw [bit_extract, bit_extract]
  by_cases hf : i < f.width ∧ f.shift + i < 32
  · have hc : ¬ g.Covers (f.shift + i) := not_covers_of_disjoint h hf.2 ⟨by omega, by omega⟩
    rw [bit_insert g _ _ hf.2, if_neg hc]
  · by_cases hw : i < f.width
    · rw [Word.bit_of_ge _ (by omega), Word.bit_of_ge _ (by omega)]
    · rw [decide_eq_false hw, Bool.false_and, Bool.false_and]

theorem extract_insert_of_apart (h : f.Apart g) : f.extract (g.insert w v) = f.extract w :=
  extract_insert_of_disjoint w v h.disjoint

theorem insert_and_mask_of_apart (h : f.Apart g) :
    g.insert w v &&& f.mask = w &&& f.mask := by
  apply Word.eq_of_bit_eq
  intro i hi
  rw [Word.bit_and, Word.bit_and, bit_mask f hi, bit_insert g _ _ hi]
  by_cases hc : f.Covers i
  · rw [if_neg (h.not_covers hc)]
  · rw [decide_eq_false hc, Bool.and_false, Bool.and_false]

end Field

end X25
