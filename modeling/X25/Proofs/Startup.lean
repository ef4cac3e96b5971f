import X25.Proofs.Machine.Console

/-! # Starting from an executable

An executable asks for two regions and for a place for its program. Both must be in order and of a
permitted size, and may not meet; the program must fit the first. What fails first is reported, and
nothing else can fail: a program that fits is stored word by word without a refusal and without an
address that wraps. Then the processor is a new one, with the program in memory that is zero
elsewhere.
-/

namespace X25

open Effect

namespace Layout

variable (l : Layout)

def extent (first last : Word) : Nat :=
  last.toNat - first.toNat + 1

/-- A region from the first to the last address is in order and of a permitted size. -/
structure Permits (first last : Word) : Prop where
  ordered : first ≤ last
  sized : extent first last ≤ 0x1000000

/-- The layout can be built into an address space. -/
structure IsBuildable : Prop where
  ram : Permits l.ramStart l.ramEnd
  console : Permits l.consoleStart l.consoleEnd
  disjoint : ∀ a, l.InRam a → ¬ l.InConsole a

/-- Why the layout cannot be built. Each reason assumes that none before it applies. -/
inductive Refuses : MapError → Prop
  | ramInverted (h : l.ramEnd < l.ramStart) : Refuses (.inverted l.ramStart l.ramEnd)
  | ramTooLarge (ho : l.ramStart ≤ l.ramEnd) (h : 0x1000000 < extent l.ramStart l.ramEnd) :
      Refuses (.tooLarge l.ramStart l.ramEnd 0x1000000)
  | consoleInverted (hr : Permits l.ramStart l.ramEnd) (h : l.consoleEnd < l.consoleStart) :
      Refuses (.inverted l.consoleStart l.consoleEnd)
  | consoleTooLarge (hr : Permits l.ramStart l.ramEnd) (ho : l.consoleStart ≤ l.consoleEnd)
      (h : 0x1000000 < extent l.consoleStart l.consoleEnd) :
      Refuses (.tooLarge l.consoleStart l.consoleEnd 0x1000000)
  | overlap (hr : Permits l.ramStart l.ramEnd) (hc : Permits l.consoleStart l.consoleEnd) {a : Word}
      (ha : l.InRam a) (ha' : l.InConsole a) :
      Refuses (.overlap l.consoleStart l.consoleEnd "ram")

section Building

variable {l} {first last : Word} {f : MapError}

theorem span_eq_extent (h : first ≤ last) : Region.span first last = extent first last := by
  have ho := UInt32.le_iff_toNat_le.mp h
  rw [Region.span, extent]
  omega

theorem regionSize_of_inverted (h : last < first) :
    regionSize first last = .error (.inverted first last) :=
  if_pos h

theorem regionSize_of_tooLarge (ho : first ≤ last) (h : 0x1000000 < extent first last) :
    regionSize first last = .error (.tooLarge first last 0x1000000) := by
  rw [regionSize, if_neg (UInt32.not_lt.mpr ho), span_eq_extent ho]
  exact if_pos h

theorem regionSize_of_permits (h : Permits first last) :
    regionSize first last = .ok (extent first last) := by
  rw [regionSize, if_neg (UInt32.not_lt.mpr h.ordered), span_eq_extent h.ordered]
  exact if_neg (Nat.not_lt.mpr h.sized)

def ramRegion (l : Layout) : Region :=
  ⟨l.ramStart, l.ramEnd, .ram l.ramSize⟩

def consoleRegion (l : Layout) : Region :=
  ⟨l.consoleStart, l.consoleEnd, .console l.consoleSize⟩

theorem fits_ramRegion (h : l.ramStart ≤ l.ramEnd) : l.ramRegion.Fits :=
  ⟨h, Nat.le_of_eq (span_eq_extent h).symm⟩

theorem space_of_permits (hr : Permits l.ramStart l.ramEnd)
    (hc : Permits l.consoleStart l.consoleEnd) :
    l.space =
      if l.ramRegion.meets l.consoleStart l.consoleEnd then
        .error (.overlap l.consoleStart l.consoleEnd "ram")
      else .ok ⟨[l.ramRegion, l.consoleRegion], ""⟩ := by
  have hm : (AddressSpace.empty : AddressSpace).map l.ramStart l.ramEnd l.ramRegion.device =
      .ok () ⟨[l.ramRegion], ""⟩ :=
    (AddressSpace.map_eq_ok_iff (r := l.ramRegion) fun _ h => absurd h List.not_mem_nil).mpr
      ⟨fits_ramRegion hr.ordered, fun _ h => absurd h List.not_mem_nil, rfl⟩
  have hs : l.space = outcome ((⟨[l.ramRegion], ""⟩ : AddressSpace).map l.consoleStart l.consoleEnd
      l.consoleRegion.device) := by
    rw [space_eq_outcome (regionSize_of_permits hr) (regionSize_of_permits hc),
      ← span_eq_extent hr.ordered, ← span_eq_extent hc.ordered]
    exact congrArg outcome (bind_of_ok hm)
  rw [hs, AddressSpace.map, if_neg (UInt32.not_lt.mpr hc.ordered), List.find?_cons]
  cases l.ramRegion.meets l.consoleStart l.consoleEnd with
  | true => rfl
  | false => exact congrArg outcome (if_neg (Nat.lt_irrefl _))

theorem meets_iff (hr : l.ramStart ≤ l.ramEnd) (hc : l.consoleStart ≤ l.consoleEnd) :
    l.ramRegion.meets l.consoleStart l.consoleEnd = true ↔ ∃ a, l.InRam a ∧ l.InConsole a := by
  show l.ramRegion.meets l.consoleRegion.first l.consoleRegion.last = true ↔ _
  rw [← Bool.not_eq_false, Region.meets_eq_false_iff hr hc, Region.Apart]
  simp only [Region.contains_iff]
  constructor
  · intro hn
    exact Classical.not_forall_not.mp fun hf => hn fun a ha hb => hf a ⟨ha, hb⟩
  · rintro ⟨a, ha, hb⟩ hn
    exact hn a ha hb

theorem space_of_refuses (h : l.Refuses f) : l.space = .error f := by
  cases h with
  | ramInverted h => rw [space, regionSize_of_inverted h]; rfl
  | ramTooLarge ho h => rw [space, regionSize_of_tooLarge ho h]; rfl
  | consoleInverted hr h => rw [space, regionSize_of_permits hr, regionSize_of_inverted h]; rfl
  | consoleTooLarge hr ho h =>
    rw [space, regionSize_of_permits hr, regionSize_of_tooLarge ho h]; rfl
  | overlap hr hc ha ha' =>
    rw [space_of_permits hr hc, if_pos ((meets_iff hr.ordered hc.ordered).mpr ⟨_, ha, ha'⟩)]

theorem space_of_isBuildable (h : l.IsBuildable) :
    l.space = .ok ⟨[l.ramRegion, l.consoleRegion], ""⟩ := by
  rw [space_of_permits h.ram h.console, if_neg]
  rw [meets_iff h.ram.ordered h.console.ordered]
  rintro ⟨a, ha, ha'⟩
  exact h.disjoint a ha ha'

theorem isBuildable_or_refuses (l : Layout) : l.IsBuildable ∨ ∃ f, l.Refuses f := by
  by_cases hro : l.ramStart ≤ l.ramEnd
  case neg => exact .inr ⟨_, .ramInverted (UInt32.not_le.mp hro)⟩
  by_cases hrs : extent l.ramStart l.ramEnd ≤ 0x1000000
  case neg => exact .inr ⟨_, .ramTooLarge hro (Nat.lt_of_not_le hrs)⟩
  have hr : Permits l.ramStart l.ramEnd := ⟨hro, hrs⟩
  by_cases hco : l.consoleStart ≤ l.consoleEnd
  case neg => exact .inr ⟨_, .consoleInverted hr (UInt32.not_le.mp hco)⟩
  by_cases hcs : extent l.consoleStart l.consoleEnd ≤ 0x1000000
  case neg => exact .inr ⟨_, .consoleTooLarge hr hco (Nat.lt_of_not_le hcs)⟩
  have hc : Permits l.consoleStart l.consoleEnd := ⟨hco, hcs⟩
  by_cases ha : ∃ a, l.InRam a ∧ l.InConsole a
  · obtain ⟨a, ha, ha'⟩ := ha
    exact .inr ⟨_, .overlap hr hc ha ha'⟩
  · exact .inl ⟨hr, hc, fun a h h' => ha ⟨a, h, h'⟩⟩

end Building

end Layout

namespace AddressSpace

variable {l : Layout} {s : AddressSpace} {program : List Word}

/-- From `s` to `s'` a program is placed at the start of working memory. Nothing else changes. -/
structure Places (l : Layout) (program : List Word) (s s' : AddressSpace) : Prop where
  fits : ∀ i < program.length, (l.ramStart + .ofNat i).toNat = l.ramStart.toNat + i ∧
    l.InRam (l.ramStart + .ofNat i)
  placed : ∀ i (h : i < program.length), s'.read (l.ramStart + .ofNat i) = .ok program[i]
  kept : ∀ a, (∀ i < program.length, a ≠ l.ramStart + .ofNat i) → s'.read a = s.read a
  output : s'.output = s.output
  regions : s'.cleared = s.cleared

theorem cleared_putAll (s : AddressSpace) (start : Word) (ws : List Word) :
    (s.putAll start ws).cleared = s.cleared := by
  rw [← replay_consecutive]
  exact replay_of_put (P := fun t => t.cleared = s.cleared)
    (fun t a v ht => (cleared_put t a v).trans ht) rfl _

theorem places_putAll (h : l.space = .ok s.cleared) (hn : program.length ≤ l.ramSize) :
    Places l program s (s.putAll l.ramStart program) := by
  have hg (a : Word) := s.get?_putAll l.ramStart a (Nat.le_trans hn l.ramSize_le)
  have hin (i : Nat) (hi : i < program.length) := inRam_of_lt (Nat.lt_of_lt_of_le hi hn)
  refine ⟨hin, fun i hi => ?_, fun a ha => ?_, output_putAll (muteFrom_of_space h hn),
    cleared_putAll s _ _⟩
  · obtain ⟨ht, hr⟩ := hin i hi
    have hd : (l.ramStart + .ofNat i - l.ramStart).toNat = i := by
      rw [UInt32.toNat_sub_of_le _ _ hr.1, ht, Nat.add_sub_cancel_left]
    have hs := (holds_iff_of_space h _).mpr (.inl hr)
    rw [← get?_isSome] at hs
    obtain ⟨v, hv⟩ := Option.isSome_iff_exists.mp hs
    refine read_of_get? ?_
    rw [hg, hv, hd, List.getElem?_eq_getElem hi]
    rfl
  · have hd : program[(a - l.ramStart).toNat]? = none := by
      refine List.getElem?_eq_none (Nat.le_of_not_lt fun hi => ha _ hi ?_)
      rw [UInt32.ofNat_toNat, UInt32.add_comm, UInt32.sub_add_cancel]
    rw [read, hg, hd, read]
    cases s.get? a <;> rfl

end AddressSpace

namespace Executable

/-- Why the machine does not take the executable. Each reason assumes that none before it is met. -/
inductive Refused (e : Executable) : MachineError → Prop
  | layout {f : MapError} (h : e.header.layout.Refuses f) : Refused e (.layout f)
  | program (hb : e.header.layout.IsBuildable)
      (h : Layout.extent e.header.layout.ramStart e.header.layout.ramEnd < e.program.length) :
      Refused e (.programTooLarge e.program.length
        (Layout.extent e.header.layout.ramStart e.header.layout.ramEnd))

theorem fits_or_refused (e : Executable) :
    (e.header.layout.IsBuildable ∧
      e.program.length ≤ Layout.extent e.header.layout.ramStart e.header.layout.ramEnd) ∨
      ∃ f, e.Refused f := by
  obtain hb | ⟨f, h⟩ := e.header.layout.isBuildable_or_refuses
  · obtain hn | hn := Nat.lt_or_ge (Layout.extent e.header.layout.ramStart e.header.layout.ramEnd)
      e.program.length
    · exact .inr ⟨_, .program hb hn⟩
    · exact .inl ⟨hb, hn⟩
  · exact .inr ⟨_, .layout h⟩

end Executable

namespace Cpu

variable {c : Cpu} {e : Executable} {f : MachineError}

/-- The processor is new, at an entry point, with a program at the start of working memory. -/
structure IsNew (c : Cpu) (l : Layout) (entry : Word) (program : List Word) : Prop where
  layout_eq : c.layout = l
  entry_eq : c.entry = entry
  running : c.state = .running
  phase : c.phase = .fetch1
  cycles : c.cycles = 0
  registers : ∀ r, c.registers.get r = if r = .pc then entry else if r = .one then 1 else 0
  void : c.registers.void = 0
  flags : c.flags = .clear
  output : c.output = ""
  fits : ∀ i < program.length, (l.ramStart + .ofNat i).toNat = l.ramStart.toNat + i ∧
    l.InRam (l.ramStart + .ofNat i)
  loaded : ∀ i (h : i < program.length), c.readMemory (l.ramStart + .ofNat i) = .ok program[i]
  blank : ∀ a, l.InRam a ∨ l.InConsole a → (∀ i < program.length, a ≠ l.ramStart + .ofNat i) →
    c.readMemory a = .ok 0
  outside : ∀ a, ¬ l.InRam a → ¬ l.InConsole a →
    c.readMemory a = .error ⟨a⟩ ∧ ∀ v, writeMemory a v c = .error (.address ⟨a⟩) c

theorem get_initial_put_pc (entry : Word) (r : Register) :
    (RegisterFile.initial.put .pc entry).get r =
      if r = .pc then entry else if r = .one then 1 else 0 := by
  rw [RegisterFile.get_put]
  by_cases h : Register.pc = r
  · rw [if_pos h, if_pos h.symm]
  · rw [if_neg h, if_neg (Ne.symm h)]
    cases r <;> simp [RegisterFile.get, RegisterFile.initial]

theorem isNew_started {l : Layout} {s : AddressSpace} (hs : l.space = .ok s) (entry : Word)
    {program : List Word} (hn : program.length ≤ l.ramSize) :
    (started (s.putAll l.ramStart program) l entry).IsNew l entry program := by
  have hc : l.space = .ok s.cleared := by rw [Layout.cleared_of_space hs, hs]
  have hp := AddressSpace.places_putAll hc hn
  have ho : s.output = "" := by rw [(Layout.space_eq_ok hs).2]
  have hc' : l.space = .ok (s.putAll l.ramStart program).cleared := by rw [hp.regions, hc]
  have hh := AddressSpace.holds_iff_of_space hc'
  have hh₀ := AddressSpace.holds_iff_of_space hc
  exact {
    layout_eq := rfl
    entry_eq := rfl
    running := rfl
    phase := rfl
    cycles := rfl
    registers := get_initial_put_pc entry
    void := rfl
    flags := rfl
    output := hp.output.trans ho
    fits := hp.fits
    loaded := hp.placed
    blank := fun a ha hne => by
      have hr := (hh₀ a).mpr ha
      rw [← AddressSpace.get?_isSome] at hr
      obtain ⟨v, hv⟩ := Option.isSome_iff_exists.mp hr
      rw [Layout.eq_zero_of_space hs hv] at hv
      exact (hp.kept a hne).trans (AddressSpace.read_of_get? hv)
    outside := fun a hr hc => by
      have hn : (s.putAll l.ramStart program).holds a = false :=
        Bool.eq_false_iff.mpr fun h => ((hh a).mp h).elim hr hc
      exact ⟨AddressSpace.read_of_not_holds hn, fun v => if_neg (Bool.eq_false_iff.mp hn)⟩ }

theorem ofExecutable_of_refused (h : e.Refused f) : ofExecutable e = .error f := by
  cases h with
  | layout h =>
    rw [ofExecutable, ofLayout, Layout.space_of_refuses h]
    rfl
  | program hb h =>
    rw [← Layout.span_eq_extent hb.ram.ordered] at h ⊢
    exact (ofExecutable_eq (Layout.space_of_isBuildable hb)).trans (if_pos h)

theorem ofExecutable_of_fits (hb : e.header.layout.IsBuildable)
    (hn : e.program.length ≤ Layout.extent e.header.layout.ramStart e.header.layout.ramEnd) :
    ∃ c, ofExecutable e = .ok c ∧ c.IsNew e.header.layout e.header.entry e.program := by
  rw [← Layout.span_eq_extent hb.ram.ordered] at hn
  have hs := Layout.space_of_isBuildable hb
  exact ⟨_, (ofExecutable_eq hs).trans (if_neg (Nat.not_lt.mpr hn)), isNew_started hs _ hn⟩

/-- Only a program that is too large is refused, and then before any of its words is stored. -/
theorem IsArranged.loadProgram_eq_error (ha : c.IsArranged) {program : List Word} {c' : Cpu}
    (h : loadProgram program c = .error f c') :
    c' = c ∧ f = .programTooLarge program.length c.layout.ramSize ∧
      c.layout.ramSize < program.length := by
  obtain ⟨hn, hr⟩ | ⟨hn, -⟩ := loadProgram_cases program c
  · rw [hr] at h
    cases h
    exact ⟨rfl, rfl, hn⟩
  · rw [ha.loadProgram_eq hn] at h
    cases h

/-- An executable starts a processor if and only if both its regions are in order and of a permitted
size, do not meet, and have room for its program; otherwise the first of these that fails is
reported. The processor is then new, with the program in memory that is zero elsewhere. Loading
another program changes nothing if it does not fit, and otherwise only the words that it takes: it
is stored word by word, and none is refused. -/
theorem start_from_executable (e : Executable) :
    let l := e.header.layout
    ((∃ c, ofExecutable e = .ok c) ↔
      l.IsBuildable ∧ e.program.length ≤ Layout.extent l.ramStart l.ramEnd) ∧
    (∀ f, ofExecutable e = .error f ↔ e.Refused f) ∧
    (∀ name length needed,
      ofExecutable e ≠ .error (.layout (.deviceTooSmall name length needed))) ∧
    (∀ c, ofExecutable e = .ok c → c.IsNew l e.header.entry e.program) ∧
    (∀ c : Cpu, c.IsArranged → ∀ program f c', loadProgram program c = .error f c' →
      c' = c ∧ f = .programTooLarge program.length c.layout.ramSize ∧
        c.layout.ramSize < program.length) ∧
    (∀ c : Cpu, c.IsArranged → ∀ program, program.length ≤ c.layout.ramSize → ∃ memory,
      let c' := c.modifyMemory fun _ => memory
      loadProgram program c = .ok () c' ∧ writeAll c.layout.ramStart program c = .ok () c' ∧
        AddressSpace.Places c.layout program c.memory memory) ∧
    ∀ c : Cpu, Reachable c → c.IsArranged := by
  intro l
  have hrefused (f : MachineError) : ofExecutable e = .error f ↔ e.Refused f := by
    refine ⟨fun h => ?_, ofExecutable_of_refused⟩
    obtain ⟨hb, hn⟩ | ⟨f', hf⟩ := e.fits_or_refused
    · obtain ⟨c, hc, -⟩ := ofExecutable_of_fits hb hn
      cases h.symm.trans hc
    · cases h.symm.trans (ofExecutable_of_refused hf)
      exact hf
  refine ⟨⟨fun ⟨c, hc⟩ => ?_, fun ⟨hb, hn⟩ => ?_⟩, hrefused, fun name length needed h => ?_,
    fun c hc => ?_, fun c hc program f c' => hc.loadProgram_eq_error, fun c hc program hn => ?_,
    fun c hc => hc.space_eq⟩
  · obtain h | ⟨f, hf⟩ := e.fits_or_refused
    · exact h
    · cases hc.symm.trans (ofExecutable_of_refused hf)
  · obtain ⟨c, hc, -⟩ := ofExecutable_of_fits hb hn
    exact ⟨c, hc⟩
  · cases (hrefused _).mp h with
    | layout h => cases h
  · obtain ⟨hb, hn⟩ | ⟨f, hf⟩ := e.fits_or_refused
    · obtain ⟨c', hc', hnew⟩ := ofExecutable_of_fits hb hn
      cases hc.symm.trans hc'
      exact hnew
    · cases hc.symm.trans (ofExecutable_of_refused hf)
  · have hl := hc.loadProgram_eq hn
    exact ⟨_, hl, (loadProgram_of_le hn).symm.trans hl, AddressSpace.places_putAll hc hn⟩

/-- The first region ends at the last address, and the second is below it. -/
theorem start_from_executable_topmost :
    let l : Layout := ⟨0xFFFFFFFE, 0xFFFFFFFF, 0xFFFFFFFD, 0xFFFFFFFD⟩
    let e : Executable := ⟨⟨Header.currentVersion, l, 5⟩, [7, 8]⟩
    l.IsBuildable ∧ ∃ c, ofExecutable e = .ok c ∧ c.pc = 5 ∧ c.readMemory 0xFFFFFFFF = .ok 8 ∧
      c.readMemory 0xFFFFFFFD = .ok 0 ∧ c.readMemory 0 = .error ⟨0⟩ ∧
      (∃ c', loadProgram [9] c = .ok () c' ∧ c'.readMemory 0xFFFFFFFE = .ok 9 ∧
        c'.readMemory 0xFFFFFFFF = .ok 8) ∧
      ofExecutable ⟨e.header, [7, 8, 9]⟩ = .error (.programTooLarge 3 2) := by
  intro l e
  have hb : l.IsBuildable :=
    ⟨⟨by decide, by decide⟩, ⟨by decide, by decide⟩, fun a h h' =>
      absurd (UInt32.le_trans h.1 h'.2) (by decide)⟩
  obtain ⟨hok, -, -, hnew, -, hload, hreach⟩ := start_from_executable e
  obtain ⟨c, hc⟩ := hok.mpr ⟨hb, by decide⟩
  have hl : c.layout = l := layout_of_ofExecutable hc
  have hn := hnew c hc
  have ha := hreach c (.ofExecutable hc)
  obtain ⟨memory, hm, -, hp⟩ := hload c ha [9] (by rw [hl]; decide)
  rw [hl] at hp
  refine ⟨hb, c, hc, hn.registers .pc, hn.loaded 1 (by decide),
    hn.blank _ (.inr (by decide)) (by decide), (hn.outside 0 (by decide) (by decide)).1,
    ⟨_, hm, hp.placed 0 (by decide), ?_⟩, ?_⟩
  · exact (hp.kept 0xFFFFFFFF (by decide)).trans (hn.loaded 1 (by decide))
  · have hx : Layout.extent l.ramStart l.ramEnd = 2 := by decide
    have hr : Executable.Refused ⟨e.header, [7, 8, 9]⟩
        (.programTooLarge 3 (Layout.extent l.ramStart l.ramEnd)) :=
      .program hb (hx.trans_lt (by decide))
    rw [hx] at hr
    exact ((start_from_executable ⟨e.header, [7, 8, 9]⟩).2.1 _).mpr hr

end Cpu

end X25
