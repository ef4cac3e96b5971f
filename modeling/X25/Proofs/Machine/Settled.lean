import X25.Proofs.Machine.Routine

/-! # What holds between calls

Every step of a microprogram keeps the constants, the flags in agreement with each other, and the
writeback bus parked on the sink. A microprogram that succeeds ends with a feed and a delivery, and
so leaves the result of its last operation in the arithmetic unit and in the sink. Hence, whatever
a host does, all this holds after every call, and the last as long as no phase has failed.
-/

namespace X25

open Effect

/-- Flags that some result can have. -/
structure Flags.Consistent (f : Flags) : Prop where
  carry : f.carry = f.overflow
  sign : ¬ (f.zero = true ∧ f.negative = true)

theorem Flags.consistent_clear : Flags.clear.Consistent :=
  ⟨rfl, by decide⟩

theorem Microcode.consistent_compute (m : Microcode) (x y : Word) :
    (m.compute x y).2.Consistent := by
  refine ⟨rfl, ?_⟩
  rintro ⟨hz, hn⟩
  simp only [compute, beq_iff_eq] at hz hn
  rw [hz] at hn
  revert hn
  decide

namespace Alu

def Computed (u : Alu) : Prop :=
  u.out = (u.operation.compute u.a u.b).1

theorem computed_initial : Alu.initial.Computed := by
  unfold Computed
  decide

theorem computed_recompute (u : Alu) : u.recompute.Computed := rfl

theorem consistent_recompute {u : Alu} (h : u.flags.Consistent) :
    u.recompute.flags.Consistent := by
  simp only [recompute]
  split
  · exact u.operation.consistent_compute u.a u.b
  · exact h

end Alu

namespace Fabric

def IsParked (f : Fabric) : Prop :=
  f.selection .writeback = none ∨ f.selection .writeback = some ⟨.writeback, .aluOut, .void⟩

theorem selection_record (f : Fabric) (t : Transfer) (b : Bus) :
    (f.record t).selection b = if t.bus = b then some t else f.selection b := by
  obtain ⟨bus, source, destination⟩ := t
  cases bus <;> cases b <;> rfl

theorem IsParked.record {f : Fabric} (h : f.IsParked) {t : Transfer} (ht : t.bus ≠ .writeback) :
    (f.record t).IsParked := by
  simpa only [IsParked, selection_record, if_neg ht] using h

theorem isParked_record_void (f : Fabric) :
    (f.record ⟨.writeback, .aluOut, .void⟩).IsParked := by
  right
  rw [selection_record, if_pos rfl]

end Fabric

namespace RegisterFile

/-- The constants have their values. -/
structure HasConstants (f : RegisterFile) : Prop where
  zero : f.get .zero = 0
  one : f.get .one = 1

theorem HasConstants.put {f : RegisterFile} (h : f.HasConstants) {r : Register}
    (hr : r.isConstant = false) (v : Word) : (f.put r v).HasConstants := by
  constructor
  · rw [get_put_of_ne f v (by rintro rfl; cases hr), h.zero]
  · rw [get_put_of_ne f v (by rintro rfl; cases hr), h.one]

theorem set_constant (f : RegisterFile) {r : Register} (h : r.isConstant = true) (v : Word) :
    f.set r v = f := by
  cases r <;> first | rfl | cases h

theorem set_eq_put (f : RegisterFile) {r : Register} (h : r.isConstant = false) (v : Word) :
    f.set r v = f.put r v := by
  cases r <;> first | rfl | cases h

end RegisterFile

namespace Datapath

/-- What every step of a microprogram keeps. -/
structure Sound (d : Datapath) : Prop where
  constants : d.registers.HasConstants
  flags : d.alu.flags.Consistent
  parked : d.fabric.IsParked

/-- The result of the last operation is in the arithmetic unit and in the sink. -/
structure Latched (d : Datapath) : Prop where
  computed : d.alu.Computed
  sunk : d.registers.void = d.alu.out

theorem Sound.put {d : Datapath} (h : d.Sound) {r : Register} (hr : r.isConstant = false)
    (v : Word) : Sound { d with registers := d.registers.put r v } :=
  ⟨h.constants.put hr v, h.flags, h.parked⟩

theorem keeps_sound_read (r : Register) : Keeps Sound (read (.register r)) := by
  intro d h
  obtain ⟨he, -⟩ | ⟨v, he, -⟩ | ⟨he, -⟩ := read_register_cases r d <;> rw [he]
  · exact h
  · exact h.put rfl v
  · exact h

theorem keeps_sound_write (r : Register) (v : Word) : Keeps Sound (write (.register r) v) := by
  intro d h
  obtain ⟨he, -⟩ | ⟨he, hc, -⟩ | ⟨s, he, -⟩ | ⟨f, s, he, -⟩ := write_register_cases r v d <;>
    rw [he]
  · exact h
  · exact h.put hc v
  · have hc := h.constants.put (r := .mdr) rfl v
    exact ⟨hc, h.flags, h.parked⟩
  · exact ⟨h.constants, h.flags, h.parked⟩

theorem alu_of_write {r : Register} {v : Word} {d d' : Datapath} {u : Unit}
    (h : write (.register r) v d = .ok u d') : d'.alu = d.alu := by
  obtain ⟨he, -⟩ | ⟨he, -⟩ | ⟨s, he, -⟩ | ⟨f, s, he, -⟩ := write_register_cases r v d <;>
    rw [he] at h <;> cases h <;> rfl

end Datapath

namespace MicroOp

open Datapath

theorem keeps_sound_run (op : MicroOp) : Keeps Sound op.run := by
  cases op with
  | operate m => exact fun _ h => ⟨h.constants, h.flags, h.parked⟩
  | latchFlags => exact fun _ h => ⟨h.constants, h.flags, h.parked⟩
  | feedA r =>
    have hf : ∀ v, Keeps Sound (modify (fedA r v) : DatapathM PUnit) := fun v d h =>
      ⟨h.constants, Alu.consistent_recompute h.flags, h.parked.record (by simp)⟩
    rw [run_feedA]
    exact (keeps_sound_read r).bind hf
  | feedB r =>
    have hf : ∀ v, Keeps Sound (modify (fedB r v) : DatapathM PUnit) := fun v d h =>
      ⟨h.constants, Alu.consistent_recompute h.flags, h.parked.record (by simp)⟩
    rw [run_feedB]
    exact (keeps_sound_read r).bind hf
  | deliver r =>
    -- in between, the bus delivers to the register, but no step ends there
    have hd : Keeps Sound (modify (delivered r) : DatapathM PUnit) := fun d h =>
      ⟨⟨h.constants.zero, h.constants.one⟩, h.flags, Fabric.isParked_record_void _⟩
    rw [run_deliver]
    exact fun d h => ((keeps_sound_write r d.alu.out).bind fun _ => hd) d h

theorem keeps_sound_runAll (ops : List MicroOp) : Keeps Sound (runAll ops) := by
  induction ops with
  | nil => exact .of_pure ()
  | cons op ops ih =>
    rw [runAll_cons]
    exact (keeps_sound_run op).bind fun _ => ih

def isFeed : MicroOp → Bool
  | feedA _ | feedB _ => true
  | _ => false

/-- The microprogram ends with a feed and a delivery, unless it is empty. -/
def Delivers (ops : List MicroOp) : Prop :=
  ops = [] ∨ ∃ before feed r, ops = before ++ [feed, deliver r] ∧ feed.isFeed = true

theorem computed_of_run_feed {feed : MicroOp} (hf : feed.isFeed = true) {d d' : Datapath} {u : Unit}
    (h : feed.run d = .ok u d') : d'.alu.Computed := by
  cases feed with
  | feedA r =>
    rw [run_feedA, bind_eq_ok] at h
    obtain ⟨v, d₁, -, h⟩ := h
    cases h
    exact Alu.computed_recompute _
  | feedB r =>
    rw [run_feedB, bind_eq_ok] at h
    obtain ⟨v, d₁, -, h⟩ := h
    cases h
    exact Alu.computed_recompute _
  | operate | latchFlags | deliver => cases hf

theorem latched_of_run_deliver {r : Register} {d d' : Datapath} {u : Unit} (hc : d.alu.Computed)
    (h : (deliver r).run d = .ok u d') : d'.Latched := by
  rw [run_deliver, bind_get, bind_eq_ok] at h
  obtain ⟨u, d₁, hw, h⟩ := h
  cases h
  refine ⟨?_, rfl⟩
  show d₁.alu.Computed
  rw [alu_of_write hw]
  exact hc

theorem latched_of_runAll {ops : List MicroOp} (ho : Delivers ops) {d d' : Datapath} {u : Unit}
    (hd : d.Latched) (h : runAll ops d = .ok u d') : d'.Latched := by
  obtain rfl | ⟨before, feed, r, rfl, hf⟩ := ho
  · cases h
    exact hd
  · rw [runAll_append, bind_eq_ok] at h
    obtain ⟨_, d₁, -, h⟩ := h
    rw [runAll_cons, runAll_singleton, bind_eq_ok] at h
    obtain ⟨_, d₂, hr, h⟩ := h
    exact latched_of_run_deliver (computed_of_run_feed hf hr) h

theorem delivers_append (ops : List MicroOp) {ops' : List MicroOp} (h : Delivers ops')
    (hn : ops' ≠ []) : Delivers (ops ++ ops') := by
  obtain rfl | ⟨before, feed, r, rfl, hf⟩ := h
  · exact absurd rfl hn
  · exact .inr ⟨ops ++ before, feed, r, (List.append_assoc ..).symm, hf⟩

theorem delivers_move (source dest : Register) : Delivers (move source dest) :=
  .inr ⟨[operate .transferA], feedA source, dest, rfl, rfl⟩

theorem delivers_increment (source dest : Register) : Delivers (increment source dest) :=
  .inr ⟨[operate .incrementA], feedA source, dest, rfl, rfl⟩

theorem delivers_load (dest : Register) : Delivers (load dest) :=
  .inr ⟨[operate .transferB], feedB .mdr, dest, rfl, rfl⟩

theorem delivers_arithmetic (m : Microcode) (dest operand : Register) :
    Delivers (arithmetic m dest operand) :=
  .inr ⟨[operate m, feedA dest, latchFlags], feedB operand, dest, rfl, rfl⟩

theorem delivers_fetchFirst : Delivers fetchFirst :=
  delivers_append _ (delivers_load .ira) (by simp [load])

theorem delivers_fetchSecond : Delivers fetchSecond :=
  delivers_append _ (delivers_load .irb) (by simp [load])

theorem delivers_passInstruction : Delivers passInstruction :=
  delivers_append _ (delivers_increment .pc .pc) (by simp [increment])

theorem delivers_micro (t : Task) : Delivers t.micro := by
  cases t with
  | compute m d r => exact delivers_arithmetic m d r
  | load d r => exact delivers_append _ (delivers_load d) (by simp [load])
  | store d r => exact delivers_append _ (delivers_move d .mdr) (by simp [move])
  | jump => exact delivers_move .irb .pc
  | nothing => exact .inl rfl

theorem delivers_routine {i : Instruction} {ops : List MicroOp} (h : i.routine? = some ops) :
    Delivers ops := by
  rw [Instruction.routine?_eq_map] at h
  obtain ⟨t, -, rfl⟩ := Option.map_eq_some_iff.mp h
  exact delivers_micro t

end MicroOp

namespace Machine

variable {m : Machine}

theorem sound_of_ticks {r : EStateM.Result MachineError Machine Phase} (ht : Ticks m r)
    (h : m.datapath.Sound) : (final r).datapath.Sound := by
  cases ht with
  | fetch1 | fetch2 | decoded =>
    rw [final_ending]
    exact MicroOp.keeps_sound_runAll _ _ h
  | @routine _ ops =>
    rw [final_ending, final_seen]
    have hs := MicroOp.keeps_sound_runAll ops _ h
    exact ⟨hs.constants, hs.flags, hs.parked⟩
  | undecoded | nothing | unmapped | skipped => exact h
  | unimplemented => exact ⟨h.constants, h.flags, h.parked⟩

theorem latched_of_ending {p p' : Phase} {c c' : Control} {m' : Machine}
    {r : EStateM.Result MachineError Datapath Unit} (hr : ∀ u d, r = .ok u d → d.Latched)
    (h : ending p c c' r = .ok p' m') : m'.datapath.Latched := by
  cases r with
  | ok u d =>
    cases h
    exact hr u d rfl
  | error e d => cases h

theorem latched_of_ticks {r : EStateM.Result MachineError Machine Phase} (ht : Ticks m r)
    (hd : m.datapath.Latched) {p : Phase} {m' : Machine} (h : r = .ok p m') :
    m'.datapath.Latched := by
  cases ht with
  | fetch1 =>
    exact latched_of_ending (fun u d => MicroOp.latched_of_runAll MicroOp.delivers_fetchFirst hd) h
  | fetch2 =>
    exact latched_of_ending (fun u d => MicroOp.latched_of_runAll MicroOp.delivers_fetchSecond hd) h
  | decoded =>
    exact latched_of_ending
      (fun u d => MicroOp.latched_of_runAll MicroOp.delivers_passInstruction hd) h
  | @routine _ ops _ _ _ hr =>
    refine latched_of_ending (fun u d hs => ?_) h
    obtain ⟨d', ho, rfl⟩ := seen_eq_ok hs
    have hl := MicroOp.latched_of_runAll (MicroOp.delivers_routine hr) hd ho
    exact ⟨hl.computed, hl.sunk⟩
  | skipped => cases h; exact hd
  | undecoded | nothing | unmapped | unimplemented => cases h

end Machine

namespace Cpu

/-- What holds of a processor between calls. -/
structure Settled (c : Cpu) : Prop where
  zero : c.registers.get .zero = 0
  one : c.registers.get .one = 1
  latching : c.datapath.alu.latching = false
  carry : c.flags.carry = c.flags.overflow
  sign : ¬ (c.flags.zero = true ∧ c.flags.negative = true)
  writeback : c.datapath.fabric.selection .writeback = none ∨
    c.datapath.fabric.selection .writeback = some ⟨.writeback, .aluOut, .void⟩
  result : c.state ≠ .faulted →
    c.datapath.alu.out = (c.datapath.alu.operation.compute c.datapath.alu.a c.datapath.alu.b).1
  sink : c.state ≠ .faulted → c.datapath.alu.out = c.registers.void

def Consistent (c : Cpu) : Prop :=
  c.datapath.Sound ∧ (c.state ≠ .faulted → c.datapath.Latched)

theorem consistent_started (memory : AddressSpace) (layout : Layout) (entry : Word) :
    (started memory layout entry).Consistent := by
  have hr : (RegisterFile.initial.put .pc entry).HasConstants := ⟨rfl, rfl⟩
  exact ⟨⟨hr, Flags.consistent_clear, .inl rfl⟩, fun _ => ⟨Alu.computed_initial, rfl⟩⟩

theorem Consistent.risingEdge {c : Cpu} (hs : c.state = .running) (h : c.Consistent) :
    (final (risingEdge c)).Consistent := by
  have hd := Machine.sound_of_ticks (Machine.ticks_tick c.machine) h.1
  simp only [Cpu.risingEdge]
  cases ht : Machine.tick c.machine with
  | error e m =>
    rw [ht] at hd
    exact ⟨hd, fun hf => absurd rfl hf⟩
  | ok p m =>
    rw [ht] at hd
    have hl : c.datapath.Latched := h.2 (by simp [hs])
    exact ⟨hd, fun _ => Machine.latched_of_ticks (Machine.ticks_tick c.machine) hl ht⟩

theorem Consistent.put {c : Cpu} (h : c.Consistent) {r : Register} (hr : r.isConstant = false)
    (v : Word) : (c.modifyRegisters (·.put r v)).Consistent :=
  ⟨h.1.put hr v, fun hf => ⟨(h.2 hf).computed, (RegisterFile.void_put ..).trans (h.2 hf).sunk⟩⟩

theorem stable_consistent : Stable Consistent where
  risingEdge _ hs h := h.risingEdge hs
  halt c h := by
    rw [halt]
    split
    · next hs => exact ⟨h.1, fun _ => h.2 (by simp [hs])⟩
    · exact h
  resume c h := by
    rw [resume]
    split
    · next hs => exact ⟨h.1, fun _ => h.2 (by simp [hs])⟩
    · exact h
  reset c _ := consistent_started c.memory c.layout c.entry
  setEntry entry c h := h.put rfl entry
  setRegister r v c h := by
    cases hc : r.isConstant with
    | true =>
      simp only [setRegister, modifyRegisters, RegisterFile.set_constant _ hc]
      exact h
    | false =>
      simp only [setRegister, modifyRegisters, RegisterFile.set_eq_put _ hc]
      exact h.put hc v
  writeMemory a v c h := by
    rw [writeMemory]
    split
    · exact ⟨⟨h.1.constants, h.1.flags, h.1.parked⟩, fun hf => ⟨(h.2 hf).computed, (h.2 hf).sunk⟩⟩
    · exact h

theorem Reachable.settled {c : Cpu} (h : Reachable c) : c.Settled := by
  have hc : c.Consistent := by
    refine h.of_stable stable_consistent fun l c h => ?_
    rw [Cpu.ofLayout] at h
    split at h <;> cases h
    exact consistent_started _ _ _
  exact {
    zero := hc.1.constants.zero
    one := hc.1.constants.one
    latching := h.idle
    carry := hc.1.flags.carry
    sign := hc.1.flags.sign
    writeback := hc.1.parked
    result := fun hf => (hc.2 hf).computed
    sink := fun hf => (hc.2 hf).sunk.symm }

/-- Whatever a host asks of a processor in whatever order, after every action the constants have
their values, no flags are being latched, the flags agree with each other and the writeback bus is
parked; and unless the processor is faulted, the result of the arithmetic unit is that of its
operation on its operands and is in the sink. -/
theorem settled_after {e : Executable} {c : Cpu} (h : ofExecutable e = .ok c)
    (actions : List Action) : (c.after actions).Settled :=
  ((Reachable.ofExecutable h).after actions).settled

theorem settled_after_refused_write :
    ofExecutable subtracting = .ok subtractor ∧
      (subtractor.after [.stepInstruction, .stepInstruction]).state = .faulted ∧
      (subtractor.after [.stepInstruction, .stepInstruction]).Settled ∧
      (subtractor.after [.stepInstruction, .stepInstruction, .reset, .run 5]).state = .running ∧
      (subtractor.after [.stepInstruction, .stepInstruction, .reset, .run 5]).Settled :=
  have h : ofExecutable subtracting = .ok subtractor := rfl
  ⟨h, by decide +kernel, settled_after h _, by decide +kernel, settled_after h _⟩

end Cpu

end X25
