import X25.Proofs.Memory.Arrangement

/-! # Loaded programs

Storing consecutive words leaves each of them at its distance from the start and changes no other
word. A program that has its place in working memory is loaded without anything being shown.
-/

namespace X25

namespace AddressSpace

variable {s : AddressSpace} {start a : Word}

theorem toNat_sub_self (start : Word) : (start - start).toNat = 0 := by
  rw [UInt32.sub_self]
  rfl

theorem toNat_sub_succ (h : start ≠ a) : (a - start).toNat = (a - (start + 1)).toNat + 1 := by
  have hne : start.toNat ≠ a.toNat := fun he => h (UInt32.toNat_inj.mp he)
  have hs := start.toNat_lt
  have ha := a.toNat_lt
  rw [UInt32.toNat_sub, UInt32.toNat_sub, UInt32.toNat_add, UInt32.toNat_one]
  omega

theorem toNat_sub_succ_self (start : Word) : (start - (start + 1)).toNat = UInt32.size - 1 := by
  have hs := start.toNat_lt
  rw [UInt32.toNat_sub, UInt32.toNat_add, UInt32.toNat_one, UInt32.size]
  omega

theorem holds_of_put (s : AddressSpace) (a v b : Word) : (s.put a v).holds b = s.holds b := by
  rw [← get?_isSome, ← get?_isSome, get?_put]
  split
  · next h => rw [h.1.symm, get?_isSome, h.2]; rfl
  · rfl

/-- Consecutive words that do not come round to the first are all there. -/
theorem get?_putAll (s : AddressSpace) (start a : Word) {ws : List Word}
    (h : ws.length ≤ UInt32.size) :
    (s.putAll start ws).get? a = (s.get? a).map fun v => ws[(a - start).toNat]?.getD v := by
  induction ws generalizing s start with
  | nil => cases hv : s.get? a <;> simp only [putAll, hv] <;> rfl
  | cons w ws ih =>
    rw [List.length_cons] at h
    rw [putAll, ih _ _ (Nat.le_of_succ_le h), get?_put]
    by_cases ha : start = a
    · subst ha
      have hn : ws[(start - (start + 1)).toNat]? = none := by
        rw [List.getElem?_eq_none_iff, toNat_sub_succ_self]
        exact Nat.le_sub_one_of_lt h
      rw [hn, toNat_sub_self]
      cases hv : s.get? start with
      | none => simp only [holds_of_get?_eq_none hv, and_false, if_false, Option.map_none,
          Bool.false_eq_true]
      | some v => simp only [holds_of_get?_eq_some hv, and_self, if_true, Option.map_some,
          Option.getD_none, List.getElem?_cons_zero, Option.getD_some]
    · rw [if_neg fun hs => ha hs.1, toNat_sub_succ ha, List.getElem?_cons_succ]

def MuteFrom (s : AddressSpace) (start : Word) (n : Nat) : Prop :=
  s.Mute fun a => (a - start).toNat < n

theorem MuteFrom.succ {n : Nat} (h : s.MuteFrom start (n + 1)) : s.MuteFrom (start + 1) n := by
  intro a r ha hr
  have hd : (a - start).toNat < n + 1 := by
    by_cases hs : start = a
    · rw [hs, toNat_sub_self]
      exact Nat.succ_pos n
    · rw [toNat_sub_succ hs]
      exact Nat.succ_lt_succ ha
  exact h a r hd hr

theorem output_putAll {ws : List Word} (h : s.MuteFrom start ws.length) :
    (s.putAll start ws).output = s.output := by
  induction ws generalizing s start with
  | nil => rfl
  | cons w ws ih =>
    have hn : (start - start).toNat < (w :: ws).length := by
      rw [toNat_sub_self]
      exact Nat.succ_pos _
    have hp : (s.put start w).MuteFrom start (w :: ws).length := h.put start w
    rw [putAll, ih hp.succ, h.output_put hn]

end AddressSpace

namespace Layout

open AddressSpace

section Parts

variable (l : Layout)

def InRam (a : Word) : Prop :=
  l.ramStart ≤ a ∧ a ≤ l.ramEnd

def InConsole (a : Word) : Prop :=
  l.consoleStart ≤ a ∧ a ≤ l.consoleEnd

instance (a : Word) : Decidable (l.InRam a) :=
  inferInstanceAs (Decidable (_ ∧ _))

instance (a : Word) : Decidable (l.InConsole a) :=
  inferInstanceAs (Decidable (_ ∧ _))

end Parts

variable {l : Layout} {s : AddressSpace}

theorem ramSize_le (l : Layout) : l.ramSize ≤ UInt32.size := by
  have h := l.ramEnd.toNat_lt
  rw [ramSize, Region.span, UInt32.size]
  omega

theorem get?_of_space (h : l.space = .ok s) (a : Word) :
    s.get? a = if s.maps a then some 0 else none := by
  obtain ⟨hw, hs⟩ := space_eq_ok h
  rw [get?, maps]
  cases hr : s.regionAt? a with
  | none => rfl
  | some r =>
    have hm := List.mem_of_find?_eq_some hr
    have hb : r.device.IsBlank := by
      rw [hs] at hm
      rcases List.mem_cons.mp hm with rfl | hm
      · exact ⟨_, .inl rfl⟩
      · rw [List.mem_singleton.mp hm]
        exact ⟨_, .inr (.inl rfl)⟩
    exact hb.get?_eq ((hw.fits r hm).lt_length
      (Region.serves_iff.mpr ⟨contains_of_regionAt? hr, rfl⟩))

theorem eq_zero_of_space (h : l.space = .ok s) {a v : Word} (hv : s.get? a = some v) : v = 0 := by
  rw [get?_of_space h] at hv
  split at hv <;> cases hv
  rfl

theorem muteFrom_space (h : l.space = .ok s) : s.MuteFrom l.ramStart l.ramSize := by
  obtain ⟨hw, rfl⟩ := space_eq_ok h
  intro a r ha hr
  let ram : Region := ⟨l.ramStart, l.ramEnd, .ram l.ramSize⟩
  have hc : ram.contains a = true := by
    have ho : l.ramStart.toNat ≤ l.ramEnd.toNat :=
      UInt32.le_iff_toNat_le.mp (hw.fits ram List.mem_cons_self).ordered
    rw [UInt32.toNat_sub, ramSize, Region.span] at ha
    have hl := l.ramEnd.toNat_lt
    have hb := a.toNat_lt
    rw [Region.contains_iff, UInt32.le_iff_toNat_le, UInt32.le_iff_toNat_le]
    show l.ramStart.toNat ≤ a.toNat ∧ a.toNat ≤ l.ramEnd.toNat
    omega
  rw [regionAt?, List.find?_cons_of_pos (p := fun r : Region => r.contains a) hc] at hr
  rw [← Option.some.inj hr]
  rfl

end Layout

namespace AddressSpace

variable {l : Layout} {s : AddressSpace}

theorem regionAt?_cleared (s : AddressSpace) (a : Word) :
    s.cleared.regionAt? a = (s.regionAt? a).map Region.clear := by
  simp only [regionAt?, cleared, List.find?_map]
  rfl

theorem holds_cleared (s : AddressSpace) (a : Word) : s.cleared.holds a = s.holds a := by
  rw [holds, holds, regionAt?_cleared, Option.any_map]
  simp only [Device.holds, Region.size_cells_clear]
  rfl

/-- There is a word at the addresses of the two regions, and nowhere else. -/
theorem holds_iff_of_space (h : l.space = .ok s.cleared) (a : Word) :
    s.holds a = true ↔ l.InRam a ∨ l.InConsole a := by
  have hm : s.cleared.holds a = s.cleared.maps a := by
    rw [← get?_isSome, Layout.get?_of_space h]
    cases s.cleared.maps a <;> rfl
  rw [← holds_cleared, hm, maps_iff, (Layout.space_eq_ok h).2]
  simp only [List.mem_cons, List.not_mem_nil, or_false, exists_eq_or_imp, exists_eq_left]
  rfl

theorem inRam_of_lt {i : Nat} (h : i < l.ramSize) :
    (l.ramStart + .ofNat i).toNat = l.ramStart.toNat + i ∧ l.InRam (l.ramStart + .ofNat i) := by
  have hl := l.ramEnd.toNat_lt
  rw [Layout.ramSize, Region.span] at h
  have hi : (l.ramStart + .ofNat i).toNat = l.ramStart.toNat + i := by
    rw [UInt32.toNat_add, UInt32.toNat_ofNat']
    omega
  refine ⟨hi, UInt32.le_iff_toNat_le.mpr ?_, UInt32.le_iff_toNat_le.mpr ?_⟩ <;> omega

theorem muteFrom_of_space (h : l.space = .ok s.cleared) {n : Nat} (hn : n ≤ l.ramSize) :
    s.MuteFrom l.ramStart n := by
  intro a r ha hr
  have hc : s.cleared.regionAt? a = some r.clear := by
    rw [regionAt?_cleared, hr]
    rfl
  exact Layout.muteFrom_space h a r.clear (Nat.lt_of_lt_of_le ha hn) hc

end AddressSpace

end X25
