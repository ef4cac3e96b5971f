import X25.Memory.Layout
import X25.Proofs.Memory.FlatStore

/-! # What a layout leaves open

The layout of a machine decides its address space up to the words in it and what was shown, and
stores change nothing else. So two address spaces of one layout with the same words have the same
regions.
-/

namespace X25

namespace Region

def clear (r : Region) : Region :=
  { r with device := r.device.clear }

theorem clear_put (r : Region) (a v : Word) : (r.put a v).clear = r.clear := by
  simp only [clear, put, Device.clear, Device.put, Array.size_setIfInBounds]

theorem fits_clear {r : Region} : r.clear.Fits ↔ r.Fits :=
  ⟨fun h => ⟨h.ordered, h.backed⟩, fun h => ⟨h.ordered, h.backed⟩⟩

theorem size_cells_clear (r : Region) :
    r.clear.device.cells.size = r.device.cells.size :=
  Array.size_replicate

theorem eq_of_clear {r r' : Region} (hc : r.clear = r'.clear)
    (h : ∀ i, i < r.device.cells.size → r.device.cells[i]? = r'.device.cells[i]?) : r = r' := by
  obtain ⟨first, last, kind, length, cells⟩ := r
  obtain ⟨first', last', kind', length', cells'⟩ := r'
  have hs : cells.size = cells'.size := by
    have hs := congrArg (fun r : Region => r.device.cells.size) hc
    simpa only [size_cells_clear] using hs
  have hcells : cells = cells' := by
    refine Array.ext_getElem? fun i => ?_
    by_cases hi : i < cells.size
    · exact h i hi
    · rw [Array.getElem?_eq_none (Nat.le_of_not_lt hi),
        Array.getElem?_eq_none (hs ▸ Nat.le_of_not_lt hi)]
  subst hcells
  cases hc
  rfl

theorem exists_contains {r : Region} {i : Nat} (h : i < r.size) :
    ∃ a, r.contains a = true ∧ (r.offset a).toNat = i := by
  rw [size, span] at h
  have hl := r.last.toNat_lt
  have ha : (r.first + .ofNat i).toNat = r.first.toNat + i := by
    rw [UInt32.toNat_add, UInt32.toNat_ofNat']
    omega
  have hf : r.first ≤ r.first + .ofNat i := UInt32.le_iff_toNat_le.mpr (by omega)
  refine ⟨r.first + .ofNat i, contains_iff.mpr ⟨hf, UInt32.le_iff_toNat_le.mpr (by omega)⟩, ?_⟩
  rw [offset, UInt32.toNat_sub_of_le _ _ hf]
  omega

end Region

namespace AddressSpace

def cleared (s : AddressSpace) : AddressSpace :=
  ⟨s.regions.map Region.clear, ""⟩

variable {s s' : AddressSpace}

theorem cleared_put (s : AddressSpace) (a v : Word) : (s.put a v).cleared = s.cleared := by
  have h (rs : List Region) : (putIn a v rs).map Region.clear = rs.map Region.clear := by
    induction rs with
    | nil => rfl
    | cons r rs ih =>
      rw [putIn]
      split
      · rw [List.map_cons, Region.clear_put, List.map_cons]
      · rw [List.map_cons, ih, List.map_cons]
  exact congrArg (AddressSpace.mk · "") (h s.regions)

theorem wellMapped_cleared : s.cleared.WellMapped ↔ s.WellMapped := by
  constructor
  · intro h
    exact ⟨fun r hr => Region.fits_clear.mp (h.fits r.clear (List.mem_map_of_mem hr)),
      (List.pairwise_map.mp h.apart).imp fun ha => ha⟩
  · intro h
    refine ⟨fun r hr => ?_, List.pairwise_map.mpr (h.apart.imp fun ha => ha)⟩
    obtain ⟨r₀, hr₀, rfl⟩ := List.mem_map.mp hr
    exact Region.fits_clear.mpr (h.fits r₀ hr₀)

/-- No device has a word that its region does not reach. -/
def Tight (s : AddressSpace) : Prop :=
  ∀ r ∈ s.regions, r.device.cells.size ≤ r.size

theorem tight_of_cleared (h : s.cleared.Tight) : s.Tight := by
  intro r hr
  have hc := h r.clear (List.mem_map_of_mem hr)
  rwa [Region.size_cells_clear] at hc

theorem WellMapped.get?_of_mem (h : s.WellMapped) {r : Region} (hr : r ∈ s.regions) {a : Word}
    (ha : r.contains a = true) : s.get? a = r.get? a := by
  rw [get?, regionAt?, (find?_contains_iff h.apart).mpr ⟨hr, ha⟩]
  rfl

/-- Address spaces that differ in their words alone have the same regions if the words are. -/
theorem regions_eq_of_cleared (hw : s.WellMapped) (ht : s.Tight) (hc : s.cleared = s'.cleared)
    (h : ∀ a, s.get? a = s'.get? a) : s.regions = s'.regions := by
  have hw' : s'.WellMapped := by rwa [← wellMapped_cleared, ← hc, wellMapped_cleared]
  have hm : s.regions.map Region.clear = s'.regions.map Region.clear := congrArg regions hc
  have hl : s.regions.length = s'.regions.length := by
    simpa only [List.length_map] using congrArg List.length hm
  refine List.ext_getElem hl fun i hi hi' => ?_
  have hr := List.getElem_mem hi
  have hr' := List.getElem_mem hi'
  have hrc : s.regions[i].clear = s'.regions[i].clear := by
    have he := congrArg (·[i]?) hm
    simpa [hi, hi'] using he
  refine Region.eq_of_clear hrc fun j hj => ?_
  obtain ⟨a, ha, rfl⟩ := Region.exists_contains (Nat.lt_of_lt_of_le hj (ht _ hr))
  -- the two regions have the same first and last address
  have ha' : s'.regions[i].contains a = true := by
    have hb := congrArg (·.contains a) hrc
    exact hb.symm.trans ha
  have ho : s'.regions[i].offset a = s.regions[i].offset a :=
    (congrArg (·.offset a) hrc).symm
  have hg := h a
  rw [hw.get?_of_mem hr ha, hw'.get?_of_mem hr' ha'] at hg
  rw [Region.get?, Region.get?, ho] at hg
  exact hg

end AddressSpace

namespace Layout

open AddressSpace Effect

variable {l : Layout} {s : AddressSpace}

theorem eq_span_of_regionSize {first last : Word} {n : Nat} (h : regionSize first last = .ok n) :
    n = Region.span first last := by
  rw [regionSize] at h
  split at h
  · cases h
  · split at h <;> cases h
    rfl

theorem space_eq_outcome {ram console : Nat} (hr : regionSize l.ramStart l.ramEnd = .ok ram)
    (hc : regionSize l.consoleStart l.consoleEnd = .ok console) :
    l.space = outcome (l.mapRegions ram console .empty) := by
  rw [space, hr, hc]
  dsimp only [bind, Except.bind]
  cases l.mapRegions ram console .empty <;> rfl

theorem space_eq_ok (h : l.space = .ok s) :
    s.WellMapped ∧ s = ⟨[⟨l.ramStart, l.ramEnd, .ram l.ramSize⟩,
      ⟨l.consoleStart, l.consoleEnd, .console l.consoleSize⟩], ""⟩ := by
  cases hr : regionSize l.ramStart l.ramEnd with
  | error e => rw [space, hr] at h; cases h
  | ok ramSize =>
    cases hc : regionSize l.consoleStart l.consoleEnd with
    | error e => rw [space, hr, hc] at h; cases h
    | ok consoleSize =>
      obtain rfl := eq_span_of_regionSize hr
      obtain rfl := eq_span_of_regionSize hc
      let ram : Region := ⟨l.ramStart, l.ramEnd, .ram l.ramSize⟩
      let console : Region := ⟨l.consoleStart, l.consoleEnd, .console l.consoleSize⟩
      rw [space_eq_outcome hr hc, outcome_eq_ok] at h
      obtain ⟨u, h⟩ := h
      obtain ⟨u₁, s₁, hm, h⟩ := bind_eq_ok.mp h
      replace hm : (empty : AddressSpace).map ram.first ram.last ram.device = .ok () s₁ := hm
      replace h : s₁.map console.first console.last console.device = .ok () s := h
      have hw : s₁.WellMapped := wellMapped_empty.map hm
      obtain ⟨-, -, hs₁⟩ := (map_eq_ok_iff fun r' hr' => absurd hr' List.not_mem_nil).mp hm
      obtain ⟨-, -, hs⟩ := (map_eq_ok_iff fun r' hr' => (hw.fits r' hr').ordered).mp h
      refine ⟨hw.map h, ?_⟩
      rw [hs, hs₁]
      rfl

theorem cleared_of_space (h : l.space = .ok s) : s.cleared = s := by
  obtain ⟨-, rfl⟩ := space_eq_ok h
  simp only [cleared, List.map_cons, List.map_nil, Region.clear, Device.clear, Device.ram,
    Device.console, Array.size_replicate]

theorem tight_of_space (h : l.space = .ok s) : s.Tight := by
  obtain ⟨-, rfl⟩ := space_eq_ok h
  intro r hr
  obtain rfl | hr := List.mem_cons.mp hr
  · exact Nat.le_of_eq Array.size_replicate
  · rw [List.mem_singleton.mp hr]
    exact Nat.le_of_eq Array.size_replicate

end Layout

end X25
