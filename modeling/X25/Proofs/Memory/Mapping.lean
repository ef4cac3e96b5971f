import X25.Memory.AddressSpace
import X25.Proofs.Effect

/-! # Mapping regions

A host maps devices one after the other into an address space that has no regions at first, and may
be refused. What is accepted is in order, does not meet what was accepted before, and is backed by a
device that is large enough. So at most one region has an address, the order in which regions were
accepted does not matter, and an offset is always within what the device says it holds.
-/

namespace X25

open Effect MemoryDevice

variable {δ : Type}

namespace Region

/-- The address is in the region, at this distance from the first. -/
structure Serves (r : Region δ) (a offset : Word) : Prop where
  first_le : r.first ≤ a
  le_last : a ≤ r.last
  distance : r.first.toNat + offset.toNat = a.toNat

/-- No address is in both regions. -/
def Apart (r r' : Region δ) : Prop :=
  ∀ a, r.contains a = true → ¬ r'.contains a = true

theorem Apart.symm {r r' : Region δ} (h : r.Apart r') : r'.Apart r :=
  fun a ha' ha => h a ha ha'

theorem contains_iff {r : Region δ} {a : Word} :
    r.contains a = true ↔ r.first ≤ a ∧ a ≤ r.last := by
  rw [contains, decide_eq_true_eq]

theorem first_le_last_of_contains {r : Region δ} {a : Word} (h : r.contains a = true) :
    r.first ≤ r.last :=
  have ⟨hf, hl⟩ := contains_iff.mp h
  UInt32.le_trans hf hl

theorem serves_iff {r : Region δ} {a o : Word} :
    r.Serves a o ↔ r.contains a = true ∧ o = r.offset a := by
  rw [contains_iff, offset]
  constructor
  · rintro ⟨hf, hl, hd⟩
    refine ⟨⟨hf, hl⟩, UInt32.toNat_inj.mp ?_⟩
    rw [UInt32.toNat_sub_of_le _ _ hf]
    omega
  · rintro ⟨⟨hf, hl⟩, rfl⟩
    refine ⟨hf, hl, ?_⟩
    rw [UInt32.toNat_sub_of_le _ _ hf]
    have := UInt32.le_iff_toNat_le.mp hf
    omega

theorem meets_eq_false_iff {r r' : Region δ} (h : r.first ≤ r.last) (h' : r'.first ≤ r'.last) :
    r.meets r'.first r'.last = false ↔ r.Apart r' := by
  simp only [meets, decide_eq_false_iff_not, Apart, contains_iff]
  constructor
  · rintro hm a ⟨hf, hl⟩ ⟨hf', hl'⟩
    exact hm ⟨UInt32.le_trans hf' hl, UInt32.le_trans hf hl'⟩
  · rintro ha ⟨hl, hl'⟩
    obtain hf | hf := UInt32.le_total r.first r'.first
    · exact ha r'.first ⟨hf, hl⟩ ⟨UInt32.le_refl _, h'⟩
    · exact ha r.first ⟨UInt32.le_refl _, h⟩ ⟨hf, hl'⟩

instance (r r' : Region δ) : Decidable (r.Apart r') :=
  if h : r.first ≤ r.last ∧ r'.first ≤ r'.last then
    decidable_of_iff _ (meets_eq_false_iff h.1 h.2)
  else
    isTrue fun _ ha ha' => h ⟨first_le_last_of_contains ha, first_le_last_of_contains ha'⟩

variable [MemoryDevice δ]

/-- The region ends at or after its start, and its device says it holds enough words. -/
structure Fits (r : Region δ) : Prop where
  ordered : r.first ≤ r.last
  backed : r.last.toNat - r.first.toNat + 1 ≤ length r.device

instance (r : Region δ) : Decidable r.Fits :=
  decidable_of_iff (r.first ≤ r.last ∧ r.last.toNat - r.first.toNat + 1 ≤ length r.device)
    ⟨fun h => ⟨h.1, h.2⟩, fun h => ⟨h.1, h.2⟩⟩

theorem Fits.size_le {r : Region δ} (h : r.Fits) : r.size ≤ length r.device := by
  have hb := h.backed
  have ho := UInt32.le_iff_toNat_le.mp h.ordered
  rw [size, span]
  omega

theorem Fits.lt_length {r : Region δ} (h : r.Fits) {a o : Word} (hs : r.Serves a o) :
    o.toNat < length r.device := by
  have hb := h.backed
  have hl := UInt32.le_iff_toNat_le.mp hs.le_last
  have hd := hs.distance
  omega

end Region

namespace AddressSpace

/-- Every region fits its device, and no two regions have an address in common. -/
structure WellMapped [MemoryDevice δ] (s : AddressSpace δ) : Prop where
  fits : ∀ r ∈ s.regions, r.Fits
  apart : s.regions.Pairwise Region.Apart

section Search

variable {rs : List (Region δ)} {r : Region δ} {a : Word} {l : Location}

theorem find?_contains_iff (h : rs.Pairwise Region.Apart) :
    rs.find? (·.contains a) = some r ↔ r ∈ rs ∧ r.contains a = true := by
  induction rs with
  | nil => simp
  | cons r₀ rs ih =>
    obtain ⟨h₀, h⟩ := List.pairwise_cons.mp h
    rw [List.find?_cons, List.mem_cons]
    cases hc : r₀.contains a with
    | true =>
      -- the others are apart from this one
      constructor
      · rintro ⟨⟩
        exact ⟨.inl rfl, hc⟩
      · rintro ⟨rfl | hm, hr⟩
        · rfl
        · exact absurd hr (h₀ r hm a hc)
    | false =>
      simp only [ih h]
      constructor
      · rintro ⟨hm, hr⟩
        exact ⟨.inr hm, hr⟩
      · rintro ⟨rfl | hm, hr⟩
        · exact absurd (hc.symm.trans hr) Bool.false_ne_true
        · exact ⟨hm, hr⟩

theorem locateIn_eq_none_iff : locateIn rs a = none ↔ ∀ r ∈ rs, ¬ r.contains a = true := by
  induction rs with
  | nil => simp [locateIn]
  | cons r₀ rs ih =>
    rw [locateIn, List.forall_mem_cons]
    cases hc : r₀.contains a with
    | true => simp
    | false => simp [ih]

/-- The search finds the region, and not one before it, since no two have the address. -/
theorem locateIn_eq_some_iff (h : rs.Pairwise Region.Apart) :
    locateIn rs a = some l ↔ ∃ r, rs[l.region]? = some r ∧ r.Serves a l.offset := by
  induction rs generalizing l with
  | nil => simp [locateIn]
  | cons r₀ rs ih =>
    obtain ⟨h₀, h⟩ := List.pairwise_cons.mp h
    obtain ⟨i, o⟩ := l
    rw [locateIn]
    cases hc : r₀.contains a with
    | true =>
      constructor
      · rintro ⟨⟩
        exact ⟨r₀, rfl, Region.serves_iff.mpr ⟨hc, rfl⟩⟩
      · rintro ⟨r, hr, hs⟩
        obtain ⟨hrc, rfl⟩ := Region.serves_iff.mp hs
        cases i with
        | zero =>
          cases hr
          rfl
        | succ i => exact absurd hrc (h₀ r (List.mem_of_getElem? hr) a hc)
    | false =>
      rw [if_neg Bool.false_ne_true, Option.map_eq_some_iff]
      constructor
      · rintro ⟨l', hl, ⟨⟩⟩
        exact (ih h).mp hl
      · rintro ⟨r, hr, hs⟩
        cases i with
        | zero =>
          cases hr
          exact absurd (hc.symm.trans (Region.serves_iff.mp hs).1) Bool.false_ne_true
        | succ i => exact ⟨⟨i, o⟩, (ih h).mpr ⟨r, hr, hs⟩, rfl⟩

end Search

section Routing

variable {s s' : AddressSpace δ} {a : Word} {l : Location} {f : AddressFault}

theorem locate_eq_ok_iff (h : s.regions.Pairwise Region.Apart) :
    s.locate a = .ok l ↔ ∃ r, s.regions[l.region]? = some r ∧ r.Serves a l.offset := by
  rw [← locateIn_eq_some_iff h, locate]
  cases locateIn s.regions a <;> simp

theorem locate_eq_error_iff :
    s.locate a = .error f ↔ f = ⟨a⟩ ∧ ∀ r ∈ s.regions, ¬ (r.first ≤ a ∧ a ≤ r.last) := by
  simp only [← Region.contains_iff, ← locateIn_eq_none_iff, locate]
  cases locateIn s.regions a <;> simp [eq_comm]

/-- The region that serves an address and the offset within its device, or the fault. -/
def route (s : AddressSpace δ) (a : Word) : Except AddressFault (Option (Region δ) × Word) :=
  (s.locate a).map fun l => (s.regions[l.region]?, l.offset)

theorem route_congr (h : s.regions.Pairwise Region.Apart) (hp : s'.regions.Perm s.regions)
    (a : Word) : s'.route a = s.route a := by
  have h' : s'.regions.Pairwise Region.Apart := hp.symm.pairwise h fun hr => hr.symm
  cases hl : s.locate a with
  | error f =>
    rw [locate_eq_error_iff] at hl
    have hl' : s'.locate a = .error f :=
      locate_eq_error_iff.mpr ⟨hl.1, fun r hr => hl.2 r (hp.mem_iff.mp hr)⟩
    simp only [route, locate_eq_error_iff.mpr hl, hl']
    rfl
  | ok l =>
    obtain ⟨r, hr, hs⟩ := (locate_eq_ok_iff h).mp hl
    obtain ⟨i, hi⟩ := List.mem_iff_getElem?.mp (hp.mem_iff.mpr (List.mem_of_getElem? hr))
    have hl' : s'.locate a = .ok ⟨i, l.offset⟩ := (locate_eq_ok_iff h').mpr ⟨r, hi, hs⟩
    simp only [route, hl, hl', Except.map, hr, hi]

theorem eq_of_contains (h : s.regions.Pairwise Region.Apart) {i j : Nat} {r r' : Region δ}
    (hi : s.regions[i]? = some r) (hj : s.regions[j]? = some r') (hr : r.contains a = true)
    (hr' : r'.contains a = true) : i = j := by
  have hl : s.locate a = .ok ⟨i, r.offset a⟩ :=
    (locate_eq_ok_iff h).mpr ⟨r, hi, Region.serves_iff.mpr ⟨hr, rfl⟩⟩
  have hl' : s.locate a = .ok ⟨j, r'.offset a⟩ :=
    (locate_eq_ok_iff h).mpr ⟨r', hj, Region.serves_iff.mpr ⟨hr', rfl⟩⟩
  exact congrArg Location.region (Except.ok.inj (hl.symm.trans hl'))

end Routing

section Requests

variable [MemoryDevice δ] {s s' : AddressSpace δ} {r : Region δ} {rs : List (Region δ)}

/-- A region is accepted exactly if it fits its device and meets no other, and is then the last. -/
theorem map_eq_ok_iff (h : ∀ r' ∈ s.regions, r'.first ≤ r'.last) :
    s.map r.first r.last r.device = .ok () s' ↔
      r.Fits ∧ (∀ r' ∈ s.regions, r'.Apart r) ∧ s' = { s with regions := s.regions ++ [r] } := by
  rw [map]
  by_cases ho : r.last < r.first
  · rw [if_pos ho]
    exact iff_of_false (by simp) fun hf => UInt32.not_le.mpr ho hf.1.ordered
  have ho' : r.first ≤ r.last := UInt32.not_lt.mp ho
  rw [if_neg ho]
  cases hm : s.regions.find? (·.meets r.first r.last) with
  | some r' =>
    have hr' := List.mem_of_find?_eq_some hm
    have hs : r'.meets r.first r.last = true := by simpa using List.find?_some hm
    refine iff_of_false (by simp) fun hf => ?_
    rw [(Region.meets_eq_false_iff (h r' hr') ho').mpr (hf.2.1 r' hr')] at hs
    cases hs
  | none =>
    have ha : ∀ r' ∈ s.regions, r'.Apart r := fun r' hr' =>
      (Region.meets_eq_false_iff (h r' hr') ho').mp (by simpa using List.find?_eq_none.mp hm r' hr')
    by_cases hl : length r.device < Region.span r.first r.last
    · simp only [if_pos hl]
      exact iff_of_false (by simp) fun hf => absurd hf.1.size_le (Nat.not_le.mpr hl)
    · have hn := UInt32.le_iff_toNat_le.mp ho'
      have hf : r.Fits := ⟨ho', by rw [Region.span] at hl; omega⟩
      simp only [if_neg hl, EStateM.Result.ok.injEq, true_and]
      exact ⟨fun he => ⟨hf, ha, he.symm⟩, fun he => he.2.2.symm⟩

theorem map_cases (s : AddressSpace δ) (r : Region δ) :
    (∃ e, s.map r.first r.last r.device = .error e s) ∨
      s.map r.first r.last r.device = .ok () { s with regions := s.regions ++ [r] } := by
  rw [map]
  split
  · exact .inl ⟨_, rfl⟩
  · split
    · exact .inl ⟨_, rfl⟩
    · split
      · exact .inl ⟨_, rfl⟩
      · exact .inr rfl

theorem eq_of_map_eq_error {e : MapError} (h : s.map r.first r.last r.device = .error e s') :
    s' = s := by
  obtain ⟨e', hm⟩ | hm := map_cases s r
  · cases hm.symm.trans h
    rfl
  · cases hm.symm.trans h

/-- Asks for a region, which may be refused. -/
def place (s : AddressSpace δ) (r : Region δ) : AddressSpace δ :=
  final (s.map r.first r.last r.device)

def placeAll (s : AddressSpace δ) (rs : List (Region δ)) : AddressSpace δ :=
  rs.foldl place s

theorem place_cases (s : AddressSpace δ) (r : Region δ) :
    s.place r = s ∨ s.place r = { s with regions := s.regions ++ [r] } := by
  rw [place]
  obtain ⟨e, hm⟩ | hm := map_cases s r <;> rw [hm]
  · exact .inl rfl
  · exact .inr rfl

theorem mem_of_mem_placeAll (h : r ∈ (s.placeAll rs).regions) : r ∈ s.regions ∨ r ∈ rs := by
  induction rs generalizing s with
  | nil => exact .inl h
  | cons r₀ rs ih =>
    obtain h | h := ih h
    · obtain hp | hp := place_cases s r₀ <;> rw [hp] at h
      · exact .inl h
      · obtain h | h := List.mem_append.mp h
        · exact .inl h
        · exact .inr (List.mem_cons.mpr (.inl (List.mem_singleton.mp h)))
    · exact .inr (List.mem_cons_of_mem _ h)

theorem output_placeAll (s : AddressSpace δ) (rs : List (Region δ)) :
    (s.placeAll rs).output = s.output := by
  induction rs generalizing s with
  | nil => rfl
  | cons r₀ rs ih =>
    have ho : (s.place r₀).output = s.output := by
      obtain hp | hp := place_cases s r₀ <;> rw [hp]
    exact (ih (s.place r₀)).trans ho

theorem wellMapped_empty : WellMapped (empty : AddressSpace δ) :=
  ⟨fun _ h => absurd h List.not_mem_nil, .nil⟩

theorem WellMapped.map (h : s.WellMapped) (hm : s.map r.first r.last r.device = .ok () s') :
    s'.WellMapped := by
  obtain ⟨hf, ha, rfl⟩ := (map_eq_ok_iff fun r' hr => (h.fits r' hr).ordered).mp hm
  constructor
  · intro r' hr
    obtain hr | hr := List.mem_append.mp hr
    · exact h.fits r' hr
    · rw [List.mem_singleton.mp hr]
      exact hf
  · refine List.pairwise_append.mpr ⟨h.apart, List.pairwise_singleton _ _, fun r' hr x hx => ?_⟩
    rw [List.mem_singleton.mp hx]
    exact ha r' hr

theorem WellMapped.place (h : s.WellMapped) (r : Region δ) : (s.place r).WellMapped := by
  rw [AddressSpace.place]
  cases hm : s.map r.first r.last r.device with
  | ok u s' => exact h.map hm
  | error e s' =>
    rw [eq_of_map_eq_error hm]
    exact h

theorem WellMapped.placeAll (h : s.WellMapped) (rs : List (Region δ)) :
    (s.placeAll rs).WellMapped := by
  induction rs generalizing s with
  | nil => exact h
  | cons r rs ih => exact ih (h.place r)

theorem placeAll_eq (hf : ∀ r ∈ s.regions ++ rs, r.Fits)
    (ha : (s.regions ++ rs).Pairwise Region.Apart) :
    s.placeAll rs = { s with regions := s.regions ++ rs } := by
  induction rs generalizing s with
  | nil => simp [AddressSpace.placeAll]
  | cons r rs ih =>
    have hs : s.place r = { s with regions := s.regions ++ [r] } := by
      have hm : s.map r.first r.last r.device = .ok () { s with regions := s.regions ++ [r] } := by
        refine (map_eq_ok_iff fun r' hr => ?_).mpr ⟨?_, fun r' hr => ?_, rfl⟩
        · exact (hf r' (List.mem_append_left _ hr)).ordered
        · exact hf r (List.mem_append_right _ List.mem_cons_self)
        · exact (List.pairwise_append.mp ha).2.2 r' hr r List.mem_cons_self
      rw [place, hm]
      rfl
    have hc : s.regions ++ r :: rs = s.regions ++ [r] ++ rs := by simp
    rw [hc] at hf ha ⊢
    show (s.place r).placeAll rs = _
    rw [hs]
    exact ih hf ha

theorem placeAll_empty (hf : ∀ r ∈ rs, r.Fits) (ha : rs.Pairwise Region.Apart) :
    (empty : AddressSpace δ).placeAll rs = ⟨rs, ""⟩ :=
  placeAll_eq hf ha

/-- Whatever regions a host asks for, in whatever order, the accepted ones are in order, apart from
each other and backed by devices that are large enough. A region is refused only if it does not fit
or meets another, and then changes nothing. An address is located in the one region that has it, at
its distance from the start, which the device says it holds; it faults exactly if no region has it.
Regions that fit and are apart are accepted in any order, and then every address goes to the same
region and offset. -/
theorem mapped_regions (requests : List (Region δ)) :
    let s : AddressSpace δ := empty.placeAll requests
    (∀ r ∈ s.regions, r.first ≤ r.last ∧ r.last.toNat - r.first.toNat + 1 ≤ length r.device) ∧
      s.regions.Pairwise Region.Apart ∧
      (∀ r e s', s.map r.first r.last r.device = .error e s' →
        s' = s ∧ s.place r = s ∧ ¬ (r.Fits ∧ ∀ r' ∈ s.regions, r'.Apart r)) ∧
      (∀ a l, s.locate a = .ok l ↔ ∃ r, s.regions[l.region]? = some r ∧ r.Serves a l.offset ∧
        l.offset.toNat < length r.device) ∧
      (∀ a f, s.locate a = .error f ↔
        f = ⟨a⟩ ∧ ∀ r ∈ s.regions, ¬ (r.first ≤ a ∧ a ≤ r.last)) ∧
      (∀ a (i j : Nat) r r', s.regions[i]? = some r → s.regions[j]? = some r' →
        r.contains a = true → r'.contains a = true → i = j) ∧
      ((∀ r ∈ requests, r.Fits) → requests.Pairwise Region.Apart →
        ∀ requests', requests'.Perm requests →
          (empty.placeAll requests').regions = requests' ∧
            ∀ a, (empty.placeAll requests').route a = s.route a) := by
  intro s
  have h : s.WellMapped := wellMapped_empty.placeAll requests
  have ho : ∀ r ∈ s.regions, r.first ≤ r.last := fun r hr => (h.fits r hr).ordered
  refine ⟨fun r hr => ⟨ho r hr, (h.fits r hr).backed⟩, h.apart, fun r e s' hm => ?_,
    fun a l => ?_, fun a f => locate_eq_error_iff,
    fun a i j r r' hi hj => eq_of_contains h.apart hi hj, fun hf ha requests' hp => ?_⟩
  · obtain rfl := eq_of_map_eq_error hm
    refine ⟨rfl, by rw [place, hm]; rfl, ?_⟩
    rintro ⟨hf, ha⟩
    cases hm.symm.trans ((map_eq_ok_iff ho).mpr ⟨hf, ha, rfl⟩)
  · rw [locate_eq_ok_iff h.apart]
    constructor
    · rintro ⟨r, hr, hs⟩
      exact ⟨r, hr, hs, (h.fits r (List.mem_of_getElem? hr)).lt_length hs⟩
    · rintro ⟨r, hr, hs, -⟩
      exact ⟨r, hr, hs⟩
  · have hs : s = ⟨requests, ""⟩ := placeAll_empty hf ha
    have hs' : empty.placeAll requests' = (⟨requests', ""⟩ : AddressSpace δ) :=
      placeAll_empty (fun r hr => hf r (hp.mem_iff.mp hr))
        (hp.symm.pairwise ha fun hr => hr.symm)
    rw [hs, hs']
    exact ⟨rfl, route_congr ha hp⟩

end Requests

/-- Two regions side by side, and one of the last address alone. -/
theorem mapped_regions_adjacent :
    let ram : Region := ⟨4, 7, .ram 4⟩
    let console : Region := ⟨0, 3, .console 5⟩
    let top : Region := ⟨0xFFFFFFFF, 0xFFFFFFFF, .brokenConsole 1⟩
    let s := empty.placeAll [ram, console, top]
    let s' := empty.placeAll [top, ram, console]
    (∀ r ∈ [ram, console, top], r.Fits) ∧ [ram, console, top].Pairwise Region.Apart ∧
      [top, ram, console].Perm [ram, console, top] ∧ s'.regions = [top, ram, console] ∧
      (∀ a, s'.route a = s.route a) ∧ s.locate 0xFFFFFFFF = .ok ⟨2, 0⟩ ∧
      s.locate 8 = .error ⟨8⟩ ∧ s.map 3 4 (.ram 2) = .error (.overlap 3 4 "ram") s ∧
      s.place ⟨3, 4, .ram 2⟩ = s := by
  intro ram console top s s'
  obtain ⟨-, -, hrefused, hfound, hfault, -, horder⟩ := mapped_regions [ram, console, top]
  have hf : ∀ r ∈ [ram, console, top], r.Fits := by decide
  have ha : [ram, console, top].Pairwise Region.Apart := by decide
  have hp : [top, ram, console].Perm [ram, console, top] := by decide
  have hs : s = ⟨[ram, console, top], ""⟩ := placeAll_empty hf ha
  have hm : s.map 3 4 (.ram 2) = .error (.overlap 3 4 "ram") s := by rw [hs]; rfl
  have ht : s.regions[2]? = some top := by rw [hs]; rfl
  have hg : ∀ r ∈ s.regions, ¬ (r.first ≤ 8 ∧ 8 ≤ r.last) := by rw [hs]; decide
  obtain ⟨hs', hr⟩ := horder hf ha _ hp
  have ho : top.Serves 0xFFFFFFFF 0 := ⟨by decide, by decide, rfl⟩
  exact ⟨hf, ha, hp, hs', hr, (hfound _ ⟨2, 0⟩).mpr ⟨top, ht, ho, by decide⟩,
    (hfault 8 _).mpr ⟨rfl, hg⟩, hm, (hrefused ⟨3, 4, .ram 2⟩ _ _ hm).2.1⟩

end AddressSpace

end X25
