import X25.Proofs.Effect
import X25.Proofs.Memory.Mapping

/-! # One flat store

However regions and devices are arranged, a host that reads and writes sees one store of words: an
address has a word exactly if some region has the address, a write changes the word at its own
address alone, and a word that was never written is zero. What a device shows when it is written
makes no difference to what it stores.
-/

namespace X25

open Effect

namespace Device

/-- A new device, with zero in as many words as it says it holds. -/
def IsBlank (d : Device) : Prop :=
  ∃ size, d = .ram size ∨ d = .console size ∨ d = .brokenConsole size

def plain (d : Device) : Device :=
  { d with kind := .ram }

theorem IsBlank.size_cells {d : Device} (h : d.IsBlank) : d.cells.size = d.length := by
  obtain ⟨size, rfl | rfl | rfl⟩ := h <;> exact Array.size_replicate

theorem IsBlank.get?_eq {d : Device} (h : d.IsBlank) {a : Word} (ha : a.toNat < d.length) :
    d.get? a = some 0 := by
  obtain ⟨size, rfl | rfl | rfl⟩ := h <;>
    exact (Array.getElem?_replicate ..).trans (if_pos ha)

theorem plain_put (d : Device) (a v : Word) : (d.put a v).plain = d.plain.put a v := rfl

end Device

namespace Region

def plain (r : Region) : Region :=
  { r with device := r.device.plain }

end Region

namespace AddressSpace

def maps (s : AddressSpace) (a : Word) : Bool :=
  (s.regionAt? a).isSome

/-- Every address of a region has a word in its device. -/
def Full (s : AddressSpace) : Prop :=
  ∀ r ∈ s.regions, ∀ a, r.contains a = true → r.device.holds (r.offset a) = true

def plain (s : AddressSpace) : AddressSpace :=
  ⟨s.regions.map Region.plain, ""⟩

variable {s s' : AddressSpace} {a b v w : Word}

theorem maps_iff : s.maps a = true ↔ ∃ r ∈ s.regions, r.first ≤ a ∧ a ≤ r.last := by
  simp only [maps, regionAt?, List.find?_isSome, Region.contains_iff]

theorem maps_put (s : AddressSpace) (a v b : Word) : (s.put a v).maps b = s.maps b := by
  rw [maps, regionAt?_put, Option.isSome_map]
  rfl

theorem Full.holds_eq (h : s.Full) (a : Word) : s.holds a = s.maps a := by
  rw [holds, maps]
  cases hr : s.regionAt? a with
  | none => rfl
  | some r => exact h r (List.mem_of_find?_eq_some hr) a (contains_of_regionAt? hr)

theorem holds_put (d : Device) (a v b : Word) : (d.put a v).holds b = d.holds b := by
  simp only [Device.holds, Device.put, Array.size_setIfInBounds]

theorem mem_putIn {rs : List Region} {r : Region} (h : r ∈ putIn a v rs) :
    r ∈ rs ∨ ∃ r₀ ∈ rs, r = r₀.put a v := by
  induction rs with
  | nil => cases h
  | cons r₀ rs ih =>
    rw [putIn] at h
    split at h
    · obtain rfl | h := List.mem_cons.mp h
      · exact .inr ⟨r₀, List.mem_cons_self, rfl⟩
      · exact .inl (List.mem_cons_of_mem _ h)
    · obtain rfl | h := List.mem_cons.mp h
      · exact .inl List.mem_cons_self
      · obtain h | ⟨r₁, h₁, rfl⟩ := ih h
        · exact .inl (List.mem_cons_of_mem _ h)
        · exact .inr ⟨r₁, List.mem_cons_of_mem _ h₁, rfl⟩

theorem Full.put (h : s.Full) (a v : Word) : (s.put a v).Full := by
  intro r hr b hb
  obtain hr | ⟨r₀, hr₀, rfl⟩ := mem_putIn hr
  · exact h r hr b hb
  · exact (holds_put r₀.device _ v _).trans (h r₀ hr₀ b hb)

theorem Full.get?_put (h : s.Full) (a v b : Word) :
    (s.put a v).get? b = if a = b ∧ s.maps a then some v else s.get? b := by
  rw [AddressSpace.get?_put, h.holds_eq]

theorem read_of_get? (h : s.get? a = some v) : s.read a = .ok v := by
  rw [read, h]

theorem read_of_not_holds (h : s.holds a = false) : s.read a = .error ⟨a⟩ := by
  have hn : s.get? a = none := by
    rw [← get?_isSome] at h
    exact Option.isNone_iff_eq_none.mp (Option.isSome_eq_false_iff.mp h)
  rw [read, hn]

end AddressSpace

/-- One access of a host to an address space. -/
inductive MemoryAccess
  | read (a : Word)
  | write (a v : Word)
  deriving DecidableEq, Repr

namespace MemoryAccess

open AddressSpace

def perform (x : MemoryAccess) : EStateM AddressFault AddressSpace (Option Word) := fun s =>
  match x with
  | read a =>
    match s.read a with
    | .ok v => .ok (some v) s
    | .error f => .error f s
  | write a v =>
    match store a v s with
    | .ok _ s => .ok none s
    | .error f s => .error f s

/-- The word that an access leaves at an address that had `w`. -/
def leaves (a w : Word) : MemoryAccess → Word
  | read _ => w
  | write b v => if b = a then v else w

/-- The word written last to an address, or else zero. -/
def lastWritten (a : Word) (accesses : List MemoryAccess) : Word :=
  accesses.foldl (leaves a) 0

end MemoryAccess

namespace AddressSpace

open MemoryAccess

def afterAll (s : AddressSpace) (accesses : List MemoryAccess) : AddressSpace :=
  accesses.foldl (fun s x => final (x.perform s)) s

def answers (s : AddressSpace) : List MemoryAccess → List (Except AddressFault (Option Word))
  | [] => []
  | x :: accesses => answer (x.perform s) :: answers (final (x.perform s)) accesses

section Session

variable {s : AddressSpace} {a w : Word}

theorem final_perform_read (a : Word) (s : AddressSpace) :
    final ((MemoryAccess.read a).perform s) = s := by
  simp only [MemoryAccess.perform]
  cases s.read a <;> rfl

theorem Full.perform_write (h : s.Full) (a v : Word) :
    (MemoryAccess.write a v).perform s =
      if s.maps a then .ok none (s.put a v) else .error ⟨a⟩ s := by
  have hh := h.holds_eq a
  cases hm : s.maps a with
  | true =>
    simp only [MemoryAccess.perform, store_of_holds (hh.trans hm) v]
    rfl
  | false =>
    simp only [MemoryAccess.perform, store_of_not_holds (hh.trans hm) v]
    rfl

/-- An access keeps which addresses there are, and leaves one word at each of them. -/
theorem Full.perform (h : s.Full) (x : MemoryAccess) :
    (final (x.perform s)).Full ∧ (final (x.perform s)).maps = s.maps ∧
      ∀ a w, s.maps a = true → s.get? a = some w →
        (final (x.perform s)).get? a = some (x.leaves a w) := by
  cases x with
  | read b =>
    rw [final_perform_read]
    exact ⟨h, rfl, fun a w _ hw => hw⟩
  | write b v =>
    rw [h.perform_write]
    split
    · next hb =>
      refine ⟨h.put b v, funext (maps_put s b v), fun a w ha hw => ?_⟩
      rw [final_ok, h.get?_put, MemoryAccess.leaves, hb]
      split <;> simp_all
    · next hb =>
      refine ⟨h, rfl, fun a w ha hw => ?_⟩
      have hne : b ≠ a := by
        rintro rfl
        exact hb ha
      rw [final_error, hw, MemoryAccess.leaves, if_neg hne]

theorem Full.afterAll (h : s.Full) (accesses : List MemoryAccess) :
    (s.afterAll accesses).Full ∧ (s.afterAll accesses).maps = s.maps ∧
      ∀ a w, s.maps a = true → s.get? a = some w →
        (s.afterAll accesses).get? a = some (accesses.foldl (fun w x => x.leaves a w) w) := by
  induction accesses generalizing s with
  | nil => exact ⟨h, rfl, fun a w _ hw => hw⟩
  | cons x accesses ih =>
    obtain ⟨hf, hm, hg⟩ := h.perform x
    obtain ⟨hf', hm', hg'⟩ := ih hf
    refine ⟨hf', hm'.trans hm, fun a w ha hw => ?_⟩
    exact hg' a _ ((congrFun hm a).trans ha) (hg a w ha hw)

end Session

section Plain

variable {s : AddressSpace}

theorem plain_contains (r : Region) (a : Word) : r.plain.contains a = r.contains a := rfl

theorem regionAt?_plain (s : AddressSpace) (a : Word) :
    s.plain.regionAt? a = (s.regionAt? a).map Region.plain := by
  simp only [regionAt?, plain, List.find?_map]
  rfl

theorem get?_plain (s : AddressSpace) (a : Word) : s.plain.get? a = s.get? a := by
  rw [get?, get?, regionAt?_plain]
  cases s.regionAt? a <;> rfl

theorem holds_plain (s : AddressSpace) (a : Word) : s.plain.holds a = s.holds a := by
  rw [← get?_isSome, get?_plain, get?_isSome]

theorem shown_plain (s : AddressSpace) (a v : Word) : s.plain.shown a v = [] := by
  rw [shown, regionAt?_plain]
  cases s.regionAt? a <;> rfl

theorem putIn_plain (a v : Word) (rs : List Region) :
    putIn a v (rs.map Region.plain) = (putIn a v rs).map Region.plain := by
  induction rs with
  | nil => rfl
  | cons r rs ih =>
    rw [List.map_cons, putIn, putIn, plain_contains, ih]
    split <;> rfl

theorem plain_put (s : AddressSpace) (a v : Word) : (s.put a v).plain = s.plain.put a v := by
  rw [put, put, shown_plain]
  simp only [plain, putIn_plain, List.foldl_nil]

/-- Every access is answered as by working memory in place of each device. -/
theorem perform_plain (x : MemoryAccess) (s : AddressSpace) :
    x.perform s.plain = seen plain (x.perform s) := by
  cases x with
  | read a =>
    simp only [MemoryAccess.perform, read, get?_plain]
    cases s.get? a <;> rfl
  | write a v =>
    cases h : s.holds a with
    | true =>
      have h' : s.plain.holds a = true := (holds_plain s a).trans h
      simp only [MemoryAccess.perform, store_of_holds h, store_of_holds h', seen_ok, plain_put]
    | false =>
      have h' : s.plain.holds a = false := (holds_plain s a).trans h
      simp only [MemoryAccess.perform, store_of_not_holds h, store_of_not_holds h', seen_error]

theorem answers_plain (s : AddressSpace) (accesses : List MemoryAccess) :
    s.plain.answers accesses = s.answers accesses := by
  induction accesses generalizing s with
  | nil => rfl
  | cons x accesses ih =>
    rw [answers, answers, perform_plain, answer_seen, final_seen, ih]

theorem place_plain (s : AddressSpace) (r : Region) :
    s.plain.place r.plain = (s.place r).plain := by
  have hf : s.plain.regions.find? (·.meets r.plain.first r.plain.last) =
      (s.regions.find? (·.meets r.first r.last)).map Region.plain := by
    rw [plain, List.find?_map]
    rfl
  have hd : r.plain.device.length = r.device.length := rfl
  rw [place, place, map, map, hf]
  by_cases ho : r.last < r.first
  · have ho' : r.plain.last < r.plain.first := ho
    rw [if_pos ho, if_pos ho']
    rfl
  · have ho' : ¬ r.plain.last < r.plain.first := ho
    rw [if_neg ho, if_neg ho']
    cases s.regions.find? (·.meets r.first r.last) with
    | some r' => rfl
    | none =>
      by_cases hl : MemoryDevice.length r.device < Region.span r.first r.last
      · have hl' : MemoryDevice.length r.plain.device < Region.span r.plain.first r.plain.last := hl
        simp only [Option.map_none, if_pos hl, if_pos hl', final_error]
      · have hl' : ¬ MemoryDevice.length r.plain.device <
            Region.span r.plain.first r.plain.last := hl
        simp only [Option.map_none, if_neg hl, if_neg hl', final_ok, plain, List.map_append,
          List.map_cons, List.map_nil]

theorem placeAll_plain (s : AddressSpace) (rs : List Region) :
    s.plain.placeAll (rs.map Region.plain) = (s.placeAll rs).plain := by
  induction rs generalizing s with
  | nil => rfl
  | cons r rs ih =>
    show (s.plain.place r.plain).placeAll (rs.map Region.plain) = _
    rw [place_plain, ih]
    rfl

end Plain

section Mute

variable {s : AddressSpace} {A : Word → Prop}

theorem shown_eq_nil {a : Word} (h : ∀ r, s.regionAt? a = some r → r.device.shows = false)
    (v : Word) : s.shown a v = [] := by
  rw [shown]
  cases hr : s.regionAt? a with
  | none => rfl
  | some r => exact Device.shown_of_not_shows (h r hr) v

/-- The devices at these addresses show nothing. -/
def Mute (s : AddressSpace) (A : Word → Prop) : Prop :=
  ∀ a r, A a → s.regionAt? a = some r → r.device.shows = false

theorem Mute.put (h : s.Mute A) (a v : Word) : (s.put a v).Mute A := by
  intro b r hb hr
  rw [regionAt?_put] at hr
  obtain ⟨r₀, hr₀, rfl⟩ := Option.map_eq_some_iff.mp hr
  have hs := h b r₀ hb hr₀
  split
  · exact hs
  · exact hs

theorem Mute.output_put (h : s.Mute A) {a : Word} (ha : A a) (v : Word) :
    (s.put a v).output = s.output := by
  rw [AddressSpace.put, shown_eq_nil fun r hr => h a r ha hr]
  rfl

theorem Mute.output_afterAll (h : s.Mute fun _ => True) (hf : s.Full)
    (accesses : List MemoryAccess) : (s.afterAll accesses).output = s.output := by
  induction accesses generalizing s with
  | nil => rfl
  | cons x accesses ih =>
    have hx : (final (x.perform s)).Mute (fun _ => True) ∧
        (final (x.perform s)).output = s.output := by
      cases x with
      | read a =>
        rw [final_perform_read]
        exact ⟨h, rfl⟩
      | write a v =>
        rw [hf.perform_write]
        split
        · exact ⟨h.put a v, h.output_put trivial v⟩
        · exact ⟨h, rfl⟩
    exact (ih hx.1 (hf.perform x).1).trans hx.2

end Mute

section Requests

variable {requests : List Region}

theorem mem_of_mem_placed {r : Region} (h : r ∈ (empty.placeAll requests).regions) :
    r ∈ requests :=
  (mem_of_mem_placeAll h).resolve_left List.not_mem_nil

theorem full_placeAll (hd : ∀ r ∈ requests, r.device.IsBlank) :
    (empty.placeAll requests : AddressSpace).Full := by
  intro r hr a ha
  have hm := mem_of_mem_placed hr
  have hl := ((wellMapped_empty.placeAll requests).fits r hr).lt_length
    (Region.serves_iff.mpr ⟨ha, rfl⟩)
  rw [Device.holds, decide_eq_true_eq, (hd r hm).size_cells]
  exact hl

theorem get?_placeAll (hd : ∀ r ∈ requests, r.device.IsBlank) {a : Word}
    (ha : (empty.placeAll requests).maps a = true) : (empty.placeAll requests).get? a = some 0 := by
  obtain ⟨r, hr⟩ := Option.isSome_iff_exists.mp ha
  have hc := contains_of_regionAt? hr
  have hr' := List.mem_of_find?_eq_some hr
  have hm := mem_of_mem_placed hr'
  have hl := ((wellMapped_empty.placeAll requests).fits r hr').lt_length
    (Region.serves_iff.mpr ⟨hc, rfl⟩)
  rw [get?, hr]
  exact (hd r hm).get?_eq hl

/-- However new devices are mapped and whatever was read and written since, the address space is one
store of words. It has a word at exactly the addresses of its regions, the one written last or zero.
A write there succeeds and changes that word alone; elsewhere reads and writes fault at the address
itself and change nothing. All answers are those of working memory in place of every device, and
where no device shows anything, nothing is shown. -/
theorem flat_store (hd : ∀ r ∈ requests, r.device.IsBlank) (accesses : List MemoryAccess) :
    let s₀ : AddressSpace := empty.placeAll requests
    let s := s₀.afterAll accesses
    (∀ a, (∃ r ∈ s₀.regions, r.first ≤ a ∧ a ≤ r.last) →
      s.read a = .ok (MemoryAccess.lastWritten a accesses) ∧
        ∀ v, ∃ s', store a v s = .ok () s' ∧ s'.read a = .ok v ∧
          ∀ b, b ≠ a → s'.read b = s.read b) ∧
      (∀ a, (¬ ∃ r ∈ s₀.regions, r.first ≤ a ∧ a ≤ r.last) →
        s.read a = .error ⟨a⟩ ∧ ∀ v, store a v s = .error ⟨a⟩ s) ∧
      (empty.placeAll (requests.map Region.plain)).answers accesses = s₀.answers accesses ∧
      ((∀ r ∈ requests, r.device.shows = false) → s.output = "") := by
  intro s₀ s
  have hf₀ : s₀.Full := full_placeAll hd
  obtain ⟨hf, hm, hg⟩ := hf₀.afterAll accesses
  refine ⟨fun a ha => ?_, fun a ha => ?_, ?_, fun hs => ?_⟩
  · have hm₀ : s₀.maps a = true := maps_iff.mpr ha
    have hma : s.maps a = true := (congrFun hm a).trans hm₀
    refine ⟨read_of_get? (hg a 0 hm₀ (get?_placeAll hd hm₀)), fun v => ?_⟩
    refine ⟨s.put a v, store_of_holds ((hf.holds_eq a).trans hma) v, ?_, fun b hb => ?_⟩
    · exact read_of_get? (by rw [hf.get?_put, if_pos ⟨rfl, hma⟩])
    · rw [read, hf.get?_put, if_neg fun h => hb h.1.symm]
      rfl
  · have hma : s.maps a = false :=
      (congrFun hm a).trans (Bool.eq_false_iff.mpr fun h => ha (maps_iff.mp h))
    have hh : s.holds a = false := (hf.holds_eq a).trans hma
    exact ⟨read_of_not_holds hh, store_of_not_holds hh⟩
  · rw [← answers_plain s₀, ← placeAll_plain]
    rfl
  · have hmute : s₀.Mute fun _ => True := fun a r _ hr =>
      hs r (mem_of_mem_placed (List.mem_of_find?_eq_some hr))
    exact (hmute.output_afterAll hf₀ accesses).trans (output_placeAll empty requests)

/-- A console whose output is lost next to working memory, and a console at the last address. -/
theorem flat_store_adjacent :
    let requests : List Region :=
      [⟨0, 3, .ram 4⟩, ⟨4, 5, .brokenConsole 2⟩, ⟨0xFFFFFFFF, 0xFFFFFFFF, .console 1⟩]
    let accesses : List MemoryAccess := [.write 3 7, .write 4 0x41, .write 6 9, .read 6]
    let s := (empty.placeAll requests).afterAll accesses
    (∀ r ∈ requests, r.device.IsBlank) ∧ s.read 3 = .ok 7 ∧ s.read 4 = .ok 0x41 ∧
      s.read 5 = .ok 0 ∧ s.read 0xFFFFFFFF = .ok 0 ∧ s.read 6 = .error ⟨6⟩ ∧
      store 6 1 s = .error ⟨6⟩ s ∧
      ∃ s', store 4 0x42 s = .ok () s' ∧ s'.read 4 = .ok 0x42 ∧ s'.read 3 = .ok 7 := by
  intro requests accesses s
  have hd : ∀ r ∈ requests, r.device.IsBlank := by
    intro r hr
    simp only [requests, List.mem_cons, List.not_mem_nil, or_false] at hr
    obtain rfl | rfl | rfl := hr
    · exact ⟨4, .inl rfl⟩
    · exact ⟨2, .inr (.inr rfl)⟩
    · exact ⟨1, .inr (.inl rfl)⟩
  have hr : (empty.placeAll requests).regions = requests := by
    rw [placeAll_empty (by decide) (by decide)]
  obtain ⟨hmapped, hunmapped, -⟩ := flat_store hd accesses
  rw [hr] at hmapped hunmapped
  obtain ⟨hread, hwrite⟩ := hmapped 4 (by decide)
  obtain ⟨hfault, hrefused⟩ := hunmapped 6 (by decide)
  obtain ⟨s', hs', hsame, hother⟩ := hwrite 0x42
  have hthree := (hmapped 3 (by decide)).1
  exact ⟨hd, hthree, hread, (hmapped 5 (by decide)).1, (hmapped 0xFFFFFFFF (by decide)).1, hfault,
    hrefused 1, s', hs', hsame, (hother 3 (by decide)).trans hthree⟩

end Requests

end AddressSpace

end X25
