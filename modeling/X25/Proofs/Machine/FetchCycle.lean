import X25.Proofs.Machine.LifeCycle
import X25.Proofs.Machine.MemoryOperand
import X25.Proofs.Machine.Settled

/-! # From a first fetch to the retired instruction

What the registers hold in every phase is told by the processor as it was when the first fetch
began, and so is the record of the instruction when it has retired: neither is taken from what the
instruction may have overwritten meanwhile. Only a host that writes in between breaks this.
-/

namespace X25

open Effect

/-- The action writes something that a program sees, or starts over. -/
def Action.disturbs (c : Cpu) : Action → Bool
  | reset | setEntry _ => true
  | setRegister r _ => !r.isConstant
  | writeMemory a _ => c.memory.holds a
  | loadProgram program => decide (program.length ≤ c.layout.ramSize)
  | _ => false

namespace Cpu

/-- The processor as it was before the last first fetch among a number of cycles, or before that if
there is none. -/
def fetchStart : Nat → Cpu → Option Cpu → Option Cpu
  | 0, _, before => before
  | n + 1, c, before =>
    match advance c with
    | .ok _ c' => fetchStart n c' (if c.phase = .fetch1 then some c else before)
    | .error _ _ => before

/-- The processor as it was before the last first fetch of a session, if nothing has disturbed it
since. -/
def lastFetch (c : Cpu) (actions : List Action) (before : Option Cpu) : Option Cpu :=
  match actions with
  | [] => before
  | a :: actions =>
    lastFetch (final (a.perform c)) actions
      (if a.disturbs c then none else fetchStart (a.edges c) c before)

/-- How far the instruction is that a program saw before its first fetch. -/
inductive Underway (s : Architecture) (c : Cpu) : Prop
  | first {v : Word} (hp : c.phase = .fetch2) (hk : c.control.fetchedAt = s.pc)
    (hv : s.memory.get? s.pc = some v) (hs : c.architecture = (s.accessed s.pc v).set .ira v)
  | second {p : WordPair} (hp : c.phase = .decode) (hk : c.control.fetchedAt = s.pc)
    (hf : s.fetch? = some p) (hs : c.architecture = s.loaded p)
  | decoded {p : WordPair} {i : Instruction} (hp : c.phase = .execute)
    (hk : c.control.fetchedAt = s.pc) (hf : s.fetch? = some p)
    (hd : Instruction.decode p = .ok i) (hc : c.control.current = some i)
    (hs : c.architecture = s.fetched p)
  | retired {p : WordPair} {i : Instruction} {x : Bool} (hp : c.phase = .fetch1)
    (hf : s.fetch? = some p) (hd : Instruction.decode p = .ok i)
    (he : i.condition.evaluate s.flags = .ok x)
    (hr : c.control.retired = some ⟨s.pc, i, x⟩)

variable {s : Architecture} {c c' c₀ : Cpu} {p : Phase} {n : Nat} {a : Action}
  {before : Option Cpu} {e : MachineError}

theorem underway_of_fetch1 (hi : c.datapath.Idle) (hp : c.phase = .fetch1)
    (ha : advance c = .ok p c') : Underway c.architecture c' := by
  obtain ⟨hr, -⟩ := advance_eq_ok ha
  have h : Ready .fetch1 c c.architecture := ⟨hr, hp, hi, rfl⟩
  obtain ⟨s', hs, h'⟩ := h.follows_fetch1.of_ok ha
  obtain ⟨v, hv, hs'⟩ : ∃ v, c.architecture.memory.get? c.architecture.pc = some v ∧
      s' = (c.architecture.accessed c.architecture.pc v).set .ira v := by
    have hl := congrArg Except.toOption hs
    rw [Architecture.toOption_fill (by decide), Architecture.load?] at hl
    obtain ⟨v, hv, rfl⟩ := Option.map_eq_some_iff.mp hl
    exact ⟨v, hv, rfl⟩
  refine .first h'.phase ?_ hv (h'.architecture.trans hs')
  cases success_of_advance ha with
  | fetch1 _ hk => exact congrArg Control.fetchedAt hk
  | fetch2 hp' | decode hp' | execute hp' => cases hp.symm.trans hp'

theorem fetchedAt_of_advance (hp : c.phase ≠ .fetch1) (ha : advance c = .ok p c') :
    c'.control.fetchedAt = c.control.fetchedAt := by
  show c'.machine.control.fetchedAt = c.machine.control.fetchedAt
  cases success_of_advance ha with
  | fetch1 hp' => exact absurd hp' hp
  | fetch2 _ hk | decode _ _ hk => rw [hk]
  | execute _ _ _ hk => rw [hk, Control.retiring]

theorem fetchedAt_of_advances (hp : c.phase ≠ .fetch1) (hn : c.phase.index + n ≤ 3)
    (h : advances n c = .ok () c') : c'.control.fetchedAt = c.control.fetchedAt := by
  induction n generalizing c with
  | zero =>
    cases h
    rfl
  | succ n ih =>
    obtain ⟨p, c₁, ha, h⟩ := advances_succ_eq_ok h
    have hi := index_of_advance ha
    have hp₁ : c₁.phase ≠ .fetch1 := by
      intro hp₁
      rw [hp₁, Phase.index] at hi
      omega
    rw [ih hp₁ (by omega) h, fetchedAt_of_advance hp ha]

theorem address_of_stepInstruction {r : Retired} (h : stepInstruction c = .ok r c') :
    r.address = if c.phase = .fetch1 then c.pc else c.control.fetchedAt := by
  obtain ⟨c₁, h₁, hr⟩ := retires_of_stepInstruction h
  rw [hr.address]
  split
  · next hp =>
    rw [hp] at h₁
    obtain ⟨p, c₂, ha, h₁⟩ := advances_succ_eq_ok (n := 2) h₁
    have hp₂ : c₂.phase = .fetch2 := by
      rw [(phase_of_advance ha).2, hp]
      rfl
    rw [fetchedAt_of_advances (by rw [hp₂]; decide) (by rw [hp₂]; decide) h₁]
    cases success_of_advance ha with
    | fetch1 _ hk => exact congrArg Control.fetchedAt hk
    | fetch2 hp' | decode hp' | execute hp' => cases hp.symm.trans hp'
  · next hp =>
    have hi := c.phase.index_lt
    exact fetchedAt_of_advances hp (by omega) h₁

theorem Underway.advance (h : Underway s c) (hi : c.datapath.Idle) (hp : c.phase ≠ .fetch1)
    (ha : Cpu.advance c = .ok p c') : Underway s c' := by
  obtain ⟨hr, -⟩ := advance_eq_ok ha
  have hk' := fetchedAt_of_advance hp ha
  cases h with
  | @first v hp hk hv hs =>
    have h : Ready .fetch2 c _ := ⟨hr, hp, hi, hs⟩
    obtain ⟨s', hs', h'⟩ := h.follows_fetch2.of_ok ha
    have hl := congrArg Except.toOption hs'
    have hb := s.bind_load?
    have hv' : s.load? .ira s.pc = some ((s.accessed s.pc v).set .ira v) := by
      rw [Architecture.load?, hv]
      rfl
    rw [Architecture.toOption_fill (by decide)] at hl
    rw [hv', Option.bind_some] at hb
    obtain ⟨w, hw, rfl⟩ := Option.map_eq_some_iff.mp (hb.symm.trans hl)
    exact .second h'.phase (hk'.trans hk) hw h'.architecture
  | @second w hp hk hf hs =>
    have h : Ready .decode c _ := ⟨hr, hp, hi, hs⟩
    cases hd : Instruction.decode w with
    | error f =>
      obtain ⟨c₁, h₁⟩ := h.advance_of_undecodable hd
      cases ha.symm.trans h₁
    | ok i =>
      obtain ⟨c₁, h₁, h', hc⟩ := h.advance_of_decodable hd
      cases ha.symm.trans h₁
      exact .decoded h'.phase (hk'.trans hk) hf hd hc (h'.architecture.trans (s.set_loaded w))
  | decoded hp hk hf hd hc hs =>
    obtain rfl : p = .execute := (phase_of_advance ha).1.trans hp
    obtain ⟨r, hr⟩ := exists_retires ha
    obtain ⟨ad, i, x⟩ := r
    cases hc.symm.trans hr.instruction
    have hfl : c.flags = s.flags := congrArg Architecture.flags hs
    have had : ad = s.pc := hr.address.trans hk
    refine .retired ?_ hf hd (hfl ▸ hr.executed) (had ▸ hr.last)
    rw [(phase_of_advance ha).2, hp]
    rfl
  | retired hp' => exact absurd hp' hp

theorem Underway.of_eq (h : Underway s c) (hk : c'.control = c.control)
    (hs : c'.architecture = c.architecture) : Underway s c' := by
  have hp : c'.phase = c.phase := congrArg Control.phase hk
  cases h with
  | first h hk' hv ha => exact .first (hp.trans h) (hk ▸ hk') hv (hs.trans ha)
  | second h hk' hf ha => exact .second (hp.trans h) (hk ▸ hk') hf (hs.trans ha)
  | decoded h hk' hf hd hc ha =>
    exact .decoded (hp.trans h) (hk ▸ hk') hf hd (hk ▸ hc) (hs.trans ha)
  | retired h hf hd he hr => exact .retired (hp.trans h) hf hd he (hk ▸ hr)

def Traced (before : Option Cpu) (c : Cpu) : Prop :=
  ∀ c₀, before = some c₀ → Underway c₀.architecture c

theorem traced_advances (hi : c.datapath.Idle) (ht : Traced before c)
    (h : advances n c = .ok () c') : Traced (fetchStart n c before) c' := by
  induction n generalizing c before with
  | zero =>
    cases h
    exact ht
  | succ n ih =>
    obtain ⟨q, c₁, ha, h⟩ := advances_succ_eq_ok h
    have hi₁ : c₁.datapath.Idle := by
      have hk := stable_idle.advance c hi
      rw [ha] at hk
      exact hk
    rw [fetchStart, ha]
    refine ih hi₁ ?_ h
    split
    · next hp =>
      rintro c₀ ⟨⟩
      exact underway_of_fetch1 hi hp ha
    · next hp => exact fun c₀ hc => (ht c₀ hc).advance hi hp ha

theorem fetchStart_of_stopped (hs : c.state ≠ .running) (n : Nat) (before : Option Cpu) :
    fetchStart n c before = before := by
  cases n with
  | zero => rfl
  | succ n => rw [fetchStart, advance_of_stopped hs]

theorem architecture_of_undisturbed (ha : a.clocks = false) (hd : a.disturbs c = false) :
    (final (a.perform c)).architecture = c.architecture := by
  cases a with
  | advance | pulse | stepInstruction | run => cases ha
  | halt =>
    show (halt c).architecture = _
    rw [halt]
    split <;> rfl
  | resume =>
    show (resume c).architecture = _
    rw [resume]
    split <;> rfl
  | reset | setEntry => cases hd
  | setRegister r v =>
    have hr : r.isConstant = true := by simpa [Action.disturbs] using hd
    simp only [Action.perform]
    show (c.setRegister r v).architecture = _
    simp only [setRegister, modifyRegisters, RegisterFile.set_constant _ hr]
  | writeMemory b v =>
    have hb : c.memory.holds b = false := hd
    simp only [Action.perform, writeMemory, hb]
    rfl
  | loadProgram program =>
    have hn : c.layout.ramSize < program.length := by simpa [Action.disturbs] using hd
    simp only [Action.perform, loadProgram_of_lt hn]
    rfl

theorem traced_perform (hc : Reachable c) (hf : (final (a.perform c)).state ≠ .faulted)
    (ht : c.state ≠ .faulted → Traced before c) :
    Traced (if a.disturbs c then none else fetchStart (a.edges c) c before)
      (final (a.perform c)) := by
  cases hd : a.disturbs c with
  | true => exact fun _ h => by cases h
  | false =>
    cases ha : a.clocks with
    | true =>
      by_cases hr : c.state = .running
      · have ht := ht (by simp [hr])
        cases h : advances (a.edges c) c with
        | ok u c' =>
          rw [perform_of_clocks ha hr, h]
          exact traced_advances hc.idle ht h
        | error e c' =>
          rw [perform_of_clocks ha hr, h] at hf
          exact absurd (faulted_of_advances hr h) hf
      · rw [final_perform_of_stopped ha hr] at hf ⊢
        rw [fetchStart_of_stopped hr]
        exact ht hf
    | false =>
      have hn : a ≠ .reset := by rintro rfl; cases hd
      have hs : c.state ≠ .faulted := fun hs =>
        hn ((lawful_perform a c).recovered hs hf)
      have hu := (unclocked_perform ha hn c).control
      rw [edges_of_not_clocks ha]
      exact fun c₀ h => (ht hs c₀ h).of_eq hu (architecture_of_undisturbed ha hd)

theorem traced_after (hc : Reachable c) (actions : List Action)
    (hf : (c.after actions).state ≠ .faulted) (ht : c.state ≠ .faulted → Traced before c) :
    Traced (lastFetch c actions before) (c.after actions) := by
  induction actions generalizing c before with
  | nil => exact ht hf
  | cons a actions ih =>
    exact ih (hc.perform a) hf fun hs => traced_perform hc hs ht

/-- What a processor holds in each phase of an instruction, and records of it in the end, told by
the processor `s` as it was when the first fetch began. -/
structure Course (s c : Cpu) : Prop where
  fetch2 : c.phase = .fetch2 → c.registers.pc = s.pc ∧ c.registers.mar = s.pc ∧
    s.memory.get? s.pc = some c.registers.ira ∧ c.registers.mdr = c.registers.ira
  decode : c.phase = .decode → c.registers.pc = s.pc ∧ c.registers.mar = s.pc + 1 ∧
    s.memory.get? s.pc = some c.registers.ira ∧ s.memory.get? (s.pc + 1) = some c.registers.irb ∧
    c.registers.mdr = c.registers.irb
  execute : c.phase = .execute → c.registers.pc = s.pc + 2 ∧ c.registers.mar = s.pc + 1 ∧
    s.memory.get? s.pc = some c.registers.ira ∧ s.memory.get? (s.pc + 1) = some c.registers.irb ∧
    c.registers.mdr = c.registers.irb ∧
    ∃ i, c.control.current = some i ∧ Instruction.decode c.machine.instructionWords = .ok i
  retires : c.phase = .execute → ∀ p c', advance c = .ok p c' →
    ∃ i x, c.control.current = some i ∧ c'.control.retired = some ⟨s.pc, i, x⟩ ∧
      i.encode = c.machine.instructionWords ∧ i.condition.evaluate c.flags = .ok x
  retired : c.phase = .fetch1 → ∃ i x, c.control.retired = some ⟨s.pc, i, x⟩ ∧
    s.memory.get? s.pc = some i.encode.low ∧ s.memory.get? (s.pc + 1) = some i.encode.high ∧
    i.condition.evaluate s.flags = .ok x

theorem Underway.retires {s : Cpu} (h : Underway s.architecture c) (hp : c.phase = .execute)
    (ha : Cpu.advance c = .ok p c') :
    ∃ i x, c.control.current = some i ∧ c'.control.retired = some ⟨s.pc, i, x⟩ ∧
      i.encode = c.machine.instructionWords ∧ i.condition.evaluate c.flags = .ok x := by
  obtain rfl : p = .execute := (phase_of_advance ha).1.trans hp
  obtain ⟨⟨a, i, x⟩, hr⟩ := exists_retires ha
  cases h with
  | first h | second h | retired h => cases hp.symm.trans h
  | @decoded w j _ hk hf hd hc hs =>
    cases hc.symm.trans hr.instruction
    obtain rfl : a = s.pc := hr.address.trans hk
    have hw : c.machine.instructionWords = w :=
      congrArg (fun t => WordPair.mk (t.registers .ira) (t.registers .irb)) hs
    rw [hw]
    exact ⟨_, x, hc, hr.last, (Instruction.encode_of_decode hd).2, hr.executed⟩

theorem Underway.course {s : Cpu} (h : Underway s.architecture c) : Course s c := by
  have hr (hp : c.phase = .execute) (p : Phase) (c' : Cpu) (ha : Cpu.advance c = .ok p c') :=
    h.retires hp ha
  cases h with
  | first hp hk hv hs =>
    have hx (r : Register) := congrArg (·.registers r) hs
    constructor
    · exact fun _ => ⟨hx .pc, hx .mar, hv.trans (congrArg some (hx .ira).symm),
        (hx .mdr).trans (hx .ira).symm⟩
    all_goals exact fun h => by cases hp.symm.trans h
  | second hp hk hf hs =>
    have hx (r : Register) := congrArg (·.registers r) hs
    obtain ⟨hl, hh⟩ := Architecture.fetch?_eq_some.mp hf
    constructor
    · exact fun h => by cases hp.symm.trans h
    · exact fun _ => ⟨hx .pc, hx .mar, hl.trans (congrArg some (hx .ira).symm),
        hh.trans (congrArg some (hx .irb).symm), (hx .mdr).trans (hx .irb).symm⟩
    all_goals exact fun h => by cases hp.symm.trans h
  | @decoded p i hp hk hf hd hc hs =>
    have hx (r : Register) := congrArg (·.registers r) hs
    obtain ⟨hl, hh⟩ := Architecture.fetch?_eq_some.mp hf
    have hw : c.machine.instructionWords = p := by
      show WordPair.mk (c.registers.get .ira) (c.registers.get .irb) = p
      exact congrArg₂ WordPair.mk (hx .ira) (hx .irb)
    constructor
    · exact fun h => by cases hp.symm.trans h
    · exact fun h => by cases hp.symm.trans h
    · exact fun _ => ⟨hx .pc, hx .mar, hl.trans (congrArg some (hx .ira).symm),
        hh.trans (congrArg some (hx .irb).symm), (hx .mdr).trans (hx .irb).symm, i, hc, hw ▸ hd⟩
    · exact hr
    · exact fun h => by cases hp.symm.trans h
  | @retired p i x hp hf hd he hr =>
    obtain ⟨hl, hh⟩ := Architecture.fetch?_eq_some.mp hf
    obtain ⟨-, rfl⟩ := Instruction.encode_of_decode hd
    constructor
    case retired => exact fun _ => ⟨i, x, hr, hl, hh, he⟩
    all_goals exact fun h => by cases hp.symm.trans h

/-- Whatever a host asks of a processor in whatever order, unless the processor is faulted or has
been disturbed since the last first fetch, in every phase its registers are told by where that fetch
began and by the two words that were there. So is the record that the execute phase makes of the
instruction, even if it has overwritten its own words, the program counter or the registers that it
was fetched with. -/
theorem course_after (h : Reachable c₀) (actions : List Action)
    (hf : (c₀.after actions).state ≠ .faulted) {s : Cpu}
    (hs : lastFetch c₀ actions none = some s) : Course s (c₀.after actions) :=
  (traced_after h actions hf (fun _ _ h => by cases h) s hs).course

def selfStoring : Cpu :=
  let i : Instruction := .immediate .store .always (.gp (Fin.last 15)) .zero 1
  small.after [.loadProgram i.encode.toList]

theorem course_after_selfStoring :
    let actions : List Action :=
      [.run 2, .halt, .advance, .writeMemory 99 7, .resume, .pulse .falling, .stepInstruction]
    let c := selfStoring.after actions
    Reachable selfStoring ∧ c.state ≠ .faulted ∧
      lastFetch selfStoring actions none = some selfStoring ∧ c.phase = .fetch1 ∧
      selfStoring.memory.get? 1 = some 1 ∧ c.memory.get? 1 = some 0 ∧
      ∃ i x, c.control.retired = some ⟨0, i, x⟩ ∧ i.encode.high = 1 ∧ Course selfStoring c := by
  intro actions c
  have hl : ofLayout ⟨0, 15, 16, 31⟩ = .ok small := by decide
  have hc : Reachable selfStoring := (Reachable.ofLayout hl).after _
  have hf : c.state ≠ .faulted := by decide +kernel
  have hs : lastFetch selfStoring actions none = some selfStoring := by decide +kernel
  have hp : c.phase = .fetch1 := by decide +kernel
  have h : Course selfStoring c := course_after hc actions hf hs
  have hm : selfStoring.memory.get? 1 = some 1 := by decide +kernel
  obtain ⟨i, x, hr, -, hh, -⟩ := h.retired hp
  exact ⟨hc, hf, hs, hp, hm, by decide +kernel, i, x, hr, Option.some.inj (hh.symm.trans hm), h⟩

end Cpu

end X25
