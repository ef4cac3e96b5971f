import X25.Proofs.Isa.Field

/-! # Fields as lenses

What is put into a field is read back, up to the bits that lie beyond the field or beyond the word.
Putting back what was read changes nothing, and of two insertions the second counts. Fields whose
masks share no bit are read and replaced independently of each other, also where they reach beyond
the highest bit.
-/

namespace X25.Field

variable (f g : Field) (w u v v' : Word)

theorem bit_lowest (n i : Nat) :
    Word.bit (.ofNat (2 ^ n - 1)) i = (decide (i < 32) && decide (i < n)) :=
  bit_max ⟨0, n⟩ i

theorem extract_insert :
    f.extract (f.insert w v) = v &&& f.max &&& .ofNat (2 ^ (32 - f.shift) - 1) := by
  apply Word.eq_of_bit_eq
  intro i hi
  rw [bit_extract, Word.bit_and, Word.bit_and, bit_max, bit_lowest]
  by_cases hs : f.shift + i < 32
  · have hc : f.Covers (f.shift + i) ↔ i < f.width := by simp [Covers]
    have hl : i < 32 - f.shift := by omega
    by_cases hw : i < f.width
    · simp [bit_insert, hs, hc, hw, hi, hl]
    · simp [hw]
  · -- The field reaches beyond the word here, and what was put there is lost.
    have hl : ¬ i < 32 - f.shift := by omega
    simp [Word.bit_of_ge _ (Nat.not_lt.mp hs), hl]

theorem and_lowest_of_fits {f : Field} (h : f.shift + f.width ≤ 32) :
    v &&& f.max &&& .ofNat (2 ^ (32 - f.shift) - 1) = v &&& f.max := by
  apply Word.eq_of_bit_eq
  intro i hi
  rw [Word.bit_and, Word.bit_and, bit_max, bit_lowest]
  by_cases hw : i < f.width
  · have hl : i < 32 - f.shift := by omega
    simp [hi, hl]
  · simp [hw]

theorem insert_extract : f.insert w (f.extract w) = w :=
  Word.eq_of_bit_eq fun _ hi => bit_insert_extract f hi fun _ => rfl

theorem insert_insert : f.insert (f.insert w v) v' = f.insert w v' := by
  apply Word.eq_of_bit_eq
  intro i hi
  by_cases hc : f.Covers i <;> simp [bit_insert, hi, hc]

theorem insert_and_not_mask : f.insert w v &&& ~~~f.mask = w &&& ~~~f.mask := by
  apply Word.eq_of_bit_eq
  intro i hi
  rw [Word.bit_and, Word.bit_and, Word.bit_not _ hi, bit_mask f hi, bit_insert f _ _ hi]
  by_cases hc : f.Covers i <;> simp [hc]

theorem insert_comm_of_disjoint {f g : Field} (h : f.mask &&& g.mask = 0) :
    f.insert (g.insert w u) v = g.insert (f.insert w v) u := by
  apply Word.eq_of_bit_eq
  intro i hi
  by_cases hf : f.Covers i
  · simp [bit_insert, hi, hf, not_covers_of_disjoint h hi hf]
  · simp [bit_insert, hi, hf]

/-- Reading after writing gives what was written, cut to the field and to the part of it within the
word. Writing what was read changes nothing, a second write replaces the first, and no bit outside
of the mask changes. Two fields with disjoint masks do not see each other's writes, in whichever
order these are made. -/
theorem lawful_lens :
    f.extract (f.insert w v) = v &&& f.max &&& .ofNat (2 ^ (32 - f.shift) - 1) ∧
    (f.shift + f.width ≤ 32 → f.extract (f.insert w v) = v &&& f.max) ∧
    f.insert w (f.extract w) = w ∧
    f.insert (f.insert w v) v' = f.insert w v' ∧
    f.insert w v &&& ~~~f.mask = w &&& ~~~f.mask ∧
    (f.mask &&& g.mask = 0 →
      g.extract (f.insert w v) = g.extract w ∧
        f.insert (g.insert w u) v = g.insert (f.insert w v) u) := by
  refine ⟨extract_insert f w v, fun h => ?_, insert_extract f w, insert_insert f w v v',
    insert_and_not_mask f w v, fun h => ⟨?_, insert_comm_of_disjoint w u v h⟩⟩
  · rw [extract_insert, and_lowest_of_fits v h]
  · exact extract_insert_of_disjoint w v (by rwa [UInt32.and_comm])

/-- A field wider than a word, of which four bits are within it, beside one that fits. -/
theorem lawful_lens_beyond :
    let f : Field := ⟨28, 40⟩
    let g : Field := ⟨4, 24⟩
    f.extract (f.insert 0x12345678 0xABCDEF99) = 9 ∧
      (g.shift + g.width ≤ 32 ∧
        g.extract (g.insert 0x12345678 0xABCDEF99) = 0xABCDEF99 &&& g.max) ∧
      (f.mask &&& g.mask = 0 ∧ g.extract (f.insert 0x12345678 0xABCDEF99) = 0x234567 ∧
        f.insert (g.insert 0x12345678 5) 0xABCDEF99 = 0x90000058) := by
  intro f g
  obtain ⟨hf, -, -, -, -, hd⟩ := lawful_lens f g 0x12345678 5 0xABCDEF99 0
  obtain ⟨-, hg, -⟩ := lawful_lens g f 0x12345678 5 0xABCDEF99 0
  have hm : f.mask &&& g.mask = 0 := by decide
  obtain ⟨he, hc⟩ := hd hm
  have hw : g.shift + g.width ≤ 32 := by decide
  exact ⟨hf.trans (by decide), ⟨hw, hg hw⟩, hm, he.trans (by decide), hc.trans (by decide)⟩

end X25.Field
