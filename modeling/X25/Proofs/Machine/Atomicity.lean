import X25.Proofs.Machine.Latching
import X25.Proofs.Memory.Store

/-! # Failed phases

A phase that fails has not begun to change what a program computes with. Every microprogram writes
a register other than the memory registers, or the memory, in its last step alone, and a step that
fails writes nothing but what a device does that refuses a word. Three traces remain: a first fetch
notes where it begins, a routine leaves the latching of flags switched off, and a device may show
something before it refuses a word.
-/

namespace X25

variable {δ : Type}

/-- The memory and all registers but the memory registers are the same. -/
def Datapath.Untouched (d d' : Datapath δ) : Prop :=
  d'.memory = d.memory ∧
    ∀ r : Register, r.isMemoryRegister = false → d'.registers.get r = d.registers.get r

/-- The words of the memory, what consoles have shown and all registers but the memory registers
are the same. -/
def Datapath.Agrees [MemoryDevice δ] (d d' : Datapath δ) : Prop :=
  d.memory.Agrees d'.memory ∧
    ∀ r : Register, r.isMemoryRegister = false → d'.registers.get r = d.registers.get r

def MachineError.isTransfer : MachineError → Bool
  | address _ | fabric _ => true
  | _ => false

namespace Datapath

open Effect

theorem Untouched.refl (d : Datapath δ) : d.Untouched d :=
  ⟨rfl, fun _ _ => rfl⟩

variable {d d' d₀ : Datapath δ} {e : MachineError}

theorem Untouched.put (h : d₀.Untouched d) {r : Register} (hr : r.isMemoryRegister = true)
    (v : Word) : d₀.Untouched { d with registers := d.registers.put r v } := by
  refine ⟨h.1, fun s hs => ?_⟩
  have hne : r ≠ s := by
    rintro rfl
    exact Bool.noConfusion (hr.symm.trans hs)
  exact (RegisterFile.get_put_of_ne _ v hne).trans (h.2 s hs)

theorem Untouched.delivered (h : d₀.Untouched d) (r : Register) :
    d₀.Untouched (MicroOp.delivered r d) := by
  refine ⟨h.1, fun s hs => ?_⟩
  rw [← h.2 s hs]
  cases s <;> rfl

variable [MemoryDevice δ]

theorem Untouched.agrees (h : d.Untouched d') : d.Agrees d' := by
  refine ⟨?_, h.2⟩
  rw [h.1]
  exact .refl _

theorem keeps_untouched_read (r : Register) : Keeps d₀.Untouched (read (.register r)) := by
  intro d h
  obtain ⟨he, -⟩ | ⟨v, he, -⟩ | ⟨he, -⟩ := read_register_cases r d <;> rw [he]
  · exact h
  · exact h.put rfl v
  · exact h

theorem keeps_untouched_write_mar (v : Word) : Keeps d₀.Untouched (write (.register .mar) v) :=
  fun _ h => h.put rfl v

theorem isTransfer_of_read_error {r : Register}
    (h : read (.register r) d = .error e d') : e.isTransfer = true := by
  obtain ⟨he, -⟩ | ⟨v, he, -⟩ | ⟨he, -⟩ := read_register_cases r d <;> rw [he] at h <;> cases h
  rfl

theorem write_eq_error {r : Register} {v : Word} (h : write (.register r) v d = .error e d') :
    e.isTransfer = true ∧ (d' = d ∨ ∃ f s, d' = { d with memory := s } ∧
      AddressSpace.store d.registers.mar v d.memory = .error f s) := by
  obtain ⟨he, -⟩ | ⟨he, -⟩ | ⟨s, he, -⟩ | ⟨f, s, he, -, hs⟩ := write_register_cases r v d <;>
    rw [he] at h <;> cases h
  · exact ⟨rfl, .inl rfl⟩
  · exact ⟨rfl, .inr ⟨f, s, rfl, hs⟩⟩

theorem Untouched.agrees_of_write_error (hk : ∀ r ∈ d₀.memory.regions, KeepsWords r.device)
    (hq : ∀ r ∈ d₀.memory.regions, RefusesSilently r.device) (ha : d₀.Untouched d) {r : Register}
    {v : Word} (h : write (.register r) v d = .error e d') : d₀.Agrees d' := by
  obtain ⟨-, rfl | ⟨f, s, rfl, hs⟩⟩ := write_eq_error h
  · exact ha.agrees
  · rw [ha.1] at hs
    exact ⟨AddressSpace.agrees_of_store_error hk hq hs, ha.2⟩

end Datapath

namespace MicroOp

open Effect

/-- Steps that write no register but the memory address register, and no memory. -/
def isQuiet : MicroOp → Bool
  | deliver r => r == .mar
  | _ => true

variable [MemoryDevice δ] {d d' d₀ : Datapath δ} {e : MachineError}

theorem keeps_untouched_run {op : MicroOp} (hq : op.isQuiet = true) :
    Keeps d₀.Untouched op.run := by
  cases op with
  | operate m => exact fun _ h => h
  | latchFlags => exact fun _ h => h
  | feedA r =>
    rw [run_feedA]
    exact (Datapath.keeps_untouched_read r).bind fun v _ h => h
  | feedB r =>
    rw [run_feedB]
    exact (Datapath.keeps_untouched_read r).bind fun v _ h => h
  | deliver r =>
    obtain rfl : r = .mar := by simpa [isQuiet] using hq
    have hd : Keeps d₀.Untouched (modify (delivered .mar) : Datapath.Step δ PUnit) :=
      fun _ h => h.delivered .mar
    rw [run_deliver]
    intro d h
    exact (Datapath.keeps_untouched_write_mar d.alu.out).bind (fun _ => hd) d h

section Refusing

variable (hk : ∀ r ∈ d₀.memory.regions, KeepsWords r.device)
  (hs : ∀ r ∈ d₀.memory.regions, RefusesSilently r.device)

include hk hs

theorem agrees_of_run_error {op : MicroOp}
    (ha : d₀.Untouched d) (h : op.run d = .error e d') : d₀.Agrees d' := by
  by_cases hq : op.isQuiet = true
  · have hu := keeps_untouched_run hq d ha
    rw [h] at hu
    exact hu.agrees
  · obtain ⟨r, rfl⟩ : ∃ r, op = deliver r := by
      cases op <;> first | exact ⟨_, rfl⟩ | exact absurd rfl hq
    rw [run_deliver, bind_get, bind_eq_error] at h
    obtain h | ⟨u, d'', -, h⟩ := h
    · exact ha.agrees_of_write_error hk hs h
    · cases h

/-- A microprogram whose steps before the last are quiet fails before it has written anything. -/
theorem agrees_of_runAll_error {ops : List MicroOp} (hq : ops.dropLast.all isQuiet = true)
    (ha : d₀.Untouched d) (h : runAll ops d = .error e d') : d₀.Agrees d' := by
  induction ops generalizing d with
  | nil => cases h
  | cons op ops ih =>
    rw [runAll_cons, bind_eq_error] at h
    obtain h | ⟨u, d'', ho, h⟩ := h
    · exact agrees_of_run_error hk hs ha h
    · cases ops with
      | nil => cases h
      | cons op' ops =>
        rw [List.dropLast_cons_cons, List.all_cons, Bool.and_eq_true] at hq
        have hu := keeps_untouched_run hq.1 d ha
        rw [ho] at hu
        exact ih hq.2 hu h

end Refusing

theorem isTransfer_of_run_error {op : MicroOp} (h : op.run d = .error e d') :
    e.isTransfer = true := by
  cases op with
  | operate m => cases h
  | latchFlags => cases h
  | feedA r =>
    rw [run_feedA, bind_eq_error] at h
    obtain h | ⟨v, d'', -, h⟩ := h
    · exact Datapath.isTransfer_of_read_error h
    · cases h
  | feedB r =>
    rw [run_feedB, bind_eq_error] at h
    obtain h | ⟨v, d'', -, h⟩ := h
    · exact Datapath.isTransfer_of_read_error h
    · cases h
  | deliver r =>
    rw [run_deliver, bind_get, bind_eq_error] at h
    obtain h | ⟨u, d'', -, h⟩ := h
    · exact (Datapath.write_eq_error h).1
    · cases h

theorem isTransfer_of_runAll_error {ops : List MicroOp} (h : runAll ops d = .error e d') :
    e.isTransfer = true := by
  induction ops generalizing d with
  | nil => cases h
  | cons op ops ih =>
    rw [runAll_cons, bind_eq_error] at h
    obtain h | ⟨u, d'', -, h⟩ := h
    · exact isTransfer_of_run_error h
    · exact ih h

end MicroOp

theorem Instruction.all_isQuiet_routine {i : Instruction} {ops : List MicroOp}
    (h : i.routine? = some ops) : ops.dropLast.all MicroOp.isQuiet = true := by
  cases i with
  | register o => cases o <;> cases h <;> rfl
  | immediate o => cases o <;> cases h <;> rfl
  | jump o => cases o <;> cases h <;> rfl

namespace Machine

open Effect

variable [MemoryDevice δ] {m m' : Machine δ} {e : MachineError}

/-- The next phase runs the routine of an instruction, if there is one. -/
def Executes (m : Machine δ) : Prop :=
  m.control.phase = .execute ∧
    ∃ i, m.control.current = some i ∧ i.condition.evaluate m.datapath.alu.flags = .ok true

theorem agrees_of_tick_error (hk : ∀ r ∈ m.datapath.memory.regions, KeepsWords r.device)
    (hs : ∀ r ∈ m.datapath.memory.regions, RefusesSilently r.device)
    (h : tick m = .error e m') : m.datapath.Agrees m'.datapath := by
  have hu := Datapath.Untouched.refl m.datapath
  cases failure_of_tick_error h with
  | fetch1 _ ho => exact MicroOp.agrees_of_runAll_error hk hs rfl hu ho
  | fetch2 _ ho => exact MicroOp.agrees_of_runAll_error hk hs rfl hu ho
  | undecoded => exact hu.agrees
  | nothing => exact hu.agrees
  | unmapped => exact hu.agrees
  | unimplemented => exact hu.agrees
  | routine _ _ _ hr ho =>
    have hd := MicroOp.agrees_of_runAll_error hk hs (Instruction.all_isQuiet_routine hr) hu ho
    exact ⟨hd.1, hd.2⟩

theorem control_of_tick_error (h : tick m = .error e m') :
    m'.control = ⟨m.control.phase,
      if m.control.phase = .fetch1 then m.datapath.registers.pc else m.control.fetchedAt,
      m.control.current, m.control.retired⟩ := by
  cases failure_of_tick_error h with
  | fetch1 hp => rw [if_pos hp]
  | fetch2 hp | undecoded hp | nothing hp | unmapped hp | routine hp =>
    rw [if_neg (by rw [hp]; decide)]
  | unimplemented hp =>
    rw [if_neg (by rw [hp]; decide)]
    rfl

/-- Flags are no longer latched after a routine was run, and otherwise as before. -/
theorem latching_of_tick_error (h : tick m = .error e m') :
    (m.Executes → m'.datapath.alu.latching = false) ∧
      (¬ m.Executes → m'.datapath.alu.latching = m.datapath.alu.latching) := by
  have hne {p : Phase} (hp : m.control.phase = p) (hx : p ≠ .execute) : ¬ m.Executes :=
    fun ⟨hp', _⟩ => hx (hp.symm.trans hp')
  cases failure_of_tick_error h with
  | @fetch1 _ d hp ho =>
    have hn : MicroOp.latchFlags ∉ MicroOp.fetchFirst := by decide
    have hl := MicroOp.keeps_isLatching_runAll hn m.datapath rfl
    rw [ho] at hl
    exact ⟨fun hx => absurd hx (hne hp (by decide)), fun _ => hl⟩
  | @fetch2 _ d hp ho =>
    have hn : MicroOp.latchFlags ∉ MicroOp.fetchSecond := by decide
    have hl := MicroOp.keeps_isLatching_runAll hn m.datapath rfl
    rw [ho] at hl
    exact ⟨fun hx => absurd hx (hne hp (by decide)), fun _ => hl⟩
  | undecoded hp => exact ⟨fun hx => absurd hx (hne hp (by decide)), fun _ => rfl⟩
  | nothing _ hc =>
    refine ⟨fun ⟨_, i, hi, _⟩ => ?_, fun _ => rfl⟩
    cases hc.symm.trans hi
  | unmapped _ hc he =>
    refine ⟨fun ⟨_, i, hi, ht⟩ => ?_, fun _ => rfl⟩
    cases hc.symm.trans hi
    cases he.symm.trans ht
  | unimplemented hp hc he => exact ⟨fun _ => rfl, fun hx => absurd ⟨hp, _, hc, he⟩ hx⟩
  | routine hp hc he => exact ⟨fun _ => rfl, fun hx => absurd ⟨hp, _, hc, he⟩ hx⟩

/-- A failed first fetch can leave no trace in the control unit: the note is made anew. -/
theorem tick_fetch1_fetchedAt (h : m.control.phase = .fetch1) (a : Word) :
    tick { m with control.fetchedAt := a } = tick m := by
  rw [tick_fetch1 h, tick_fetch1 (m := { m with control.fetchedAt := a }) h]

theorem eq_of_tick_decode_error (hp : m.control.phase = .decode) (h : tick m = .error e m') :
    m' = m := by
  cases failure_of_tick_error h with
  | undecoded => rfl
  | fetch1 hp' | fetch2 hp' | nothing hp' | unmapped hp' | unimplemented hp' | routine hp' =>
    cases hp.symm.trans hp'

theorem eq_of_tick_error_decode {f : DecodeError} (h : tick m = .error (.decode f) m') :
    m' = m := by
  cases failure_of_tick_error h with
  | undecoded => rfl
  | unmapped => rfl
  | fetch1 _ ho => cases MicroOp.isTransfer_of_runAll_error ho
  | fetch2 _ ho => cases MicroOp.isTransfer_of_runAll_error ho
  | routine _ _ _ _ ho => cases MicroOp.isTransfer_of_runAll_error ho

theorem eq_of_tick_error_unimplemented {o : Opcode}
    (h : tick m = .error (.unimplemented o) m') : m' = m.stopLatching := by
  cases failure_of_tick_error h with
  | unimplemented => rfl
  | fetch1 _ ho => cases MicroOp.isTransfer_of_runAll_error ho
  | fetch2 _ ho => cases MicroOp.isTransfer_of_runAll_error ho
  | routine _ _ _ _ ho => cases MicroOp.isTransfer_of_runAll_error ho

/-- If devices that refuse a word keep their words and show nothing, a phase that fails has changed
no register but the memory registers, no word and nothing that consoles have shown. Of the control
unit it has changed at most the note of where the fetch began, which the next try makes anew, and
flags are latched as before unless a routine was run, which leaves that switched off. If decoding
failed or a condition has no meaning it has changed nothing, and if an opcode has no routine nothing
but the latching of flags. -/
theorem unharmed_of_tick_error (hk : ∀ r ∈ m.datapath.memory.regions, KeepsWords r.device)
    (hs : ∀ r ∈ m.datapath.memory.regions, RefusesSilently r.device)
    (h : tick m = .error e m') :
    m.datapath.Agrees m'.datapath ∧ m'.control.phase = m.control.phase ∧
      m'.control.current = m.control.current ∧ m'.control.retired = m.control.retired ∧
      m'.control.fetchedAt = (if m.control.phase = .fetch1 then m.datapath.registers.pc
        else m.control.fetchedAt) ∧
      (m.control.phase = .fetch1 → ∀ a, tick { m' with control.fetchedAt := a } = tick m') ∧
      (m.Executes → m'.datapath.alu.latching = false) ∧
      (¬ m.Executes → m'.datapath.alu.latching = m.datapath.alu.latching) ∧
      (m.control.phase = .decode → m' = m) ∧
      (∀ f, e = .decode f → m' = m) ∧
      (∀ o, e = .unimplemented o → m' = m.stopLatching) := by
  have hc := control_of_tick_error h
  have hp : m'.control.phase = m.control.phase := by rw [hc]
  obtain ⟨hl, hl'⟩ := latching_of_tick_error h
  refine ⟨agrees_of_tick_error hk hs h, hp, by rw [hc], by rw [hc], by rw [hc], ?_, hl, hl',
    fun hp => eq_of_tick_decode_error hp h, ?_, ?_⟩
  · exact fun hf => tick_fetch1_fetchedAt (hp.trans hf)
  · rintro f rfl
    exact eq_of_tick_error_decode h
  · rintro o rfl
    exact eq_of_tick_error_unimplemented h

def storingOutside : Machine :=
  ⟨⟨RegisterFile.initial.put .irb 0xFFFF, .initial, ⟨[⟨0, 15, .ram 16⟩], ""⟩, .initial⟩,
    ⟨.execute, 0, some (.immediate .store .always (.gp 0) .zero 0xFFFF), none⟩⟩

theorem unharmed_storingOutside :
    ∃ m', tick storingOutside = .error (.address ⟨0xFFFF⟩) m' ∧
      m'.datapath.registers.mar = 0xFFFF ∧ storingOutside.datapath.Agrees m'.datapath ∧
      m'.control.phase = .execute ∧ m'.datapath.alu.latching = false :=
  have h := unharmed_of_tick_error (m := storingOutside) (e := .address ⟨0xFFFF⟩)
    (fun r _ => r.device.keepsWords) (fun r _ => r.device.refusesSilently) rfl
  have hx : storingOutside.Executes := ⟨rfl, _, rfl, rfl⟩
  ⟨_, rfl, rfl, h.1, h.2.1, h.2.2.2.2.2.2.1 hx⟩

/-- The traces that a failed phase leaves beyond the memory registers, the sink, the arithmetic unit
and the buses are none. -/
structure Unmarked (m m' : Machine δ) : Prop where
  agrees : m.datapath.Agrees m'.datapath
  control : m'.control = m.control
  latching : m'.datapath.alu.latching = m.datapath.alu.latching

def fetchingOutside : Machine :=
  ⟨⟨RegisterFile.initial.put .pc 0xFFFF, .initial, ⟨[⟨0, 15, .ram 16⟩], ""⟩, .initial⟩, .initial⟩

def multiplying : Machine :=
  ⟨⟨.initial, { Alu.initial with latching := true }, ⟨[⟨0, 15, .ram 16⟩], ""⟩, .initial⟩,
    ⟨.execute, 0, some (.register .mul .always (.gp 0) (.gp 0) .zero), none⟩⟩

/-- A device that shows a character and then refuses the word. -/
inductive Protester
  | device
  deriving DecidableEq

instance : MemoryDevice Protester where
  name _ := "protester"
  length _ := 4
  get? _ a := if a < 4 then some 0 else none
  store a _ d := .error ⟨⟨a⟩, ['!']⟩ d

def protested : Machine Protester :=
  ⟨⟨RegisterFile.initial, .initial, ⟨[⟨0, 3, .device⟩], ""⟩, .initial⟩,
    ⟨.execute, 0, some (.immediate .store .always (.gp 0) .zero 0), none⟩⟩

/-- A first fetch that fails is noted, a routine that fails ends the latching of flags, and a device
may show something of a word that it refuses. -/
theorem not_unmarked_of_tick_error :
    (∃ m', tick fetchingOutside = .error (.address ⟨0xFFFF⟩) m' ∧
      fetchingOutside.control.fetchedAt = 0 ∧ m'.control.fetchedAt = 0xFFFF) ∧
    (∃ m', tick multiplying = .error (.unimplemented .mul) m' ∧
      multiplying.datapath.alu.latching = true ∧ m'.datapath.alu.latching = false) ∧
    (∃ m', tick protested = .error (.address ⟨0⟩) m' ∧
      protested.datapath.memory.output = "" ∧ m'.datapath.memory.output = "!") ∧
    ¬ ∀ (δ : Type) [MemoryDevice δ] (m m' : Machine δ) (e : MachineError),
      (∀ r ∈ m.datapath.memory.regions, KeepsWords r.device) → tick m = .error e m' →
        m.Unmarked m' := by
  have hfetch : tick fetchingOutside = .error (.address ⟨0xFFFF⟩)
      (final (tick fetchingOutside)) := rfl
  refine ⟨⟨_, hfetch, rfl, rfl⟩, ⟨_, rfl, rfl, rfl⟩, ⟨_, rfl, rfl, rfl⟩, fun h => ?_⟩
  have hu := h Device fetchingOutside _ _ (fun r _ => r.device.keepsWords) hfetch
  exact absurd (congrArg Control.fetchedAt hu.control) (by decide)

end Machine

end X25
