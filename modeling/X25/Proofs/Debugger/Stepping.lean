import X25.Proofs.Debugger.Window
import X25.Proofs.Machine.Fault
import X25.Proofs.Machine.FetchCycle

/-! # What is shown is what is executed

The window reads the two words at the program counter from memory, and the processor fetches them
into its registers, decodes them, and may overwrite them before it records the instruction. The
record has the same words all the same, so the status after a step has the text of the marked row.
If the words are no instruction, the step fails with what decoding them reports.
-/

namespace X25

open Effect

namespace Cpu

variable {s : Architecture} {c c' : Cpu} {n : Nat} {p : WordPair} {r : Retired}

theorem Underway.advances (h : Underway s c) (hi : c.datapath.Idle) (hp : c.phase ≠ .fetch1)
    (hn : c.phase.index + n ≤ 3) (ha : Cpu.advances n c = .ok () c') : Underway s c' := by
  induction n generalizing c with
  | zero =>
    cases ha
    exact h
  | succ n ih =>
    obtain ⟨q, c₁, ha₁, ha⟩ := advances_succ_eq_ok ha
    have hi₁ := stable_idle.advance c hi
    rw [ha₁, final_ok] at hi₁
    have hx := index_of_advance ha₁
    have hp₁ : c₁.phase ≠ .fetch1 := by
      intro hf
      rw [hf, Phase.index] at hx
      omega
    exact ih (h.advance hi hp ha₁) hi₁ hp₁ (by omega) ha

/-- A step from a first fetch retires the instruction with the two words that were at the program
counter before the step. -/
theorem fetched_of_stepInstruction (hi : c.datapath.Idle) (hp : c.phase = .fetch1)
    (h : stepInstruction c = .ok r c') :
    r.address = c.pc ∧ c.memory.pair? c.pc = some r.instruction.encode ∧
      r.instruction.condition.evaluate c.flags = .ok r.executed := by
  have hr := address_of_stepInstruction h
  rw [if_pos hp] at hr
  obtain ⟨c₃, h₃, hret⟩ := retires_of_stepInstruction h
  rw [hp] at h₃
  obtain ⟨q, c₁, ha, h₂⟩ := advances_succ_eq_ok (n := 2) h₃
  have hi₁ := stable_idle.advance c hi
  rw [ha, final_ok] at hi₁
  have hp₁ : c₁.phase = .fetch2 := by
    rw [(phase_of_advance ha).2, hp]
    rfl
  have hu : Underway c.architecture c₃ :=
    (underway_of_fetch1 hi hp ha).advances hi₁ (by rw [hp₁]; decide) (by rw [hp₁]; decide) h₂
  cases hu with
  | first hx | second hx | retired hx => cases hret.phase.symm.trans hx
  | decoded _ _ hf hd hc hs =>
    cases hc.symm.trans hret.instruction
    have hfl : c₃.flags = c.flags := congrArg Architecture.flags hs
    obtain ⟨-, rfl⟩ := Instruction.encode_of_decode hd
    exact ⟨hr, hf, hfl ▸ hret.executed⟩

theorem Ready.stepInstruction_of_undecodable (h : Ready .fetch1 c s) (hp : s.fetch? = some p)
    {f : DecodeError} (hd : Instruction.decode p = .error f) :
    ∃ c', stepInstruction c = .error (.decode f) c' ∧ c'.state = .faulted := by
  have hj := h.judged_stepInstruction
  have hf : s.Fault 2 (.decode f) := .undecodable hp hd
  obtain ⟨e, c', hx⟩ := hj.fails_iff.mpr ⟨2, _, hf⟩
  rw [hx] at hj
  obtain ⟨hs, k, hk, hclear, -⟩ := hj
  have hge : ¬ k < 2 := fun hlt => Architecture.clearBefore_of_fetch hp k hlt e hk
  have hle : ¬ 2 < k := fun hlt => hclear 2 hlt _ hf
  obtain rfl : k = 2 := by omega
  cases hk with
  | undecodable hp' hd' =>
    cases hp.symm.trans hp'
    cases hd.symm.trans hd'
    exact ⟨c', hx, hs⟩

end Cpu

namespace Debugger

variable {d : Debugger} {c : Cpu} {r : Retired} {e : MachineError} {rows : Nat}
  {row : DisassemblyRow} {l : List DisassemblyRow}

theorem step_of_ok (hs : d.cpu.state = .running) (h : d.cpu.stepInstruction = .ok r c) :
    d.step = { d with cpu := c, status := retiredText r } := by
  have hr : d.cpu.isRunning = true := by simp [Cpu.isRunning, hs]
  rw [step, if_pos hr, h]

theorem step_of_error (hs : d.cpu.state = .running) (h : d.cpu.stepInstruction = .error e c) :
    d.step = { d with cpu := c }.fault e := by
  have hr : d.cpu.isRunning = true := by simp [Cpu.isRunning, hs]
  rw [step, if_pos hr, h]

/-- Before a first fetch, a row that is marked as current shows the instruction that a step
executes. If the step succeeds, its status is the program counter and the text of this row, with a
note if the condition did not hold; this is the text of the retired instruction, whatever has become
of its words. If the words of the row are no instruction, the step fails with the error that
decoding them reports. -/
theorem step_executes_marked_row (h : d.Reachable) (hs : d.cpu.state = .running)
    (hp : d.cpu.phase = .fetch1) (hw : d.window rows = .ok l) (hm : row ∈ l)
    (hc : row.isCurrent = true) :
    row.address = d.cpu.pc ∧
    ∃ p : WordPair, d.cpu.readMemory d.cpu.pc = .ok p.low ∧
      d.cpu.readMemory (d.cpu.pc + 1) = .ok p.high ∧ row.text = Assembly.pairText p ∧
      (∀ r c, d.cpu.stepInstruction = .ok r c →
        r.address = d.cpu.pc ∧ r.instruction.encode = p ∧
        Assembly.pairText r.instruction.encode = row.text ∧
        r.instruction.condition.evaluate d.cpu.flags = .ok r.executed ∧
        d.step.cpu = c ∧
        d.step.status = addressText d.cpu.pc ++ ": " ++ row.text ++
          if r.executed then "" else " (skipped)") ∧
      ∀ f, Instruction.decode p = .error f →
        ∃ c, d.cpu.stepInstruction = .error (.decode f) c ∧ c.state = .faulted ∧
          d.step = { d with cpu := c }.fault (.decode f) := by
  obtain ⟨i, hi⟩ := List.mem_iff_getElem?.mp hm
  obtain ⟨-, ⟨p, hpair, htext⟩, hcur⟩ := shows_of_window hw hi
  have hpc : row.address = d.cpu.pc := hcur.mp hc
  rw [hpc] at hpair
  obtain ⟨hlow, hhigh⟩ := AddressSpace.pair?_eq_some.mp hpair
  refine ⟨hpc, p, AddressSpace.read_of_get? hlow, AddressSpace.read_of_get? hhigh, htext, ?_, ?_⟩
  · intro r c hr
    obtain ⟨ha, hf, hx⟩ := Cpu.fetched_of_stepInstruction h.idle hp hr
    have he : r.instruction.encode = p := Option.some.inj (hf.symm.trans hpair)
    rw [step_of_ok hs hr]
    refine ⟨ha, he, by rw [he, htext], hx, rfl, ?_⟩
    rw [retiredText, ha, he, htext]
  · intro f hd
    have hready : Cpu.Ready .fetch1 d.cpu d.cpu.architecture := ⟨hs, hp, h.idle, rfl⟩
    obtain ⟨c, hx, hstate⟩ := hready.stepInstruction_of_undecodable (p := p) hpair hd
    exact ⟨c, hx, hstate, step_of_error hs hx⟩

/-- Stores zero at address one, where its own second word is. -/
def storingSelf : Instruction :=
  .immediate .store .always (.gp (Fin.last 15)) .zero 1

def selfStoring : Executable :=
  ⟨⟨Header.currentVersion, ⟨0, 15, 16, 31⟩, 0⟩, storingSelf.encode.toList ++ [0xFC000000, 0]⟩

/-- A row is executed as it was shown, though its words are not the same any more. -/
theorem step_executes_marked_row_selfStoring :
    let l := selfStoring.header.layout
    let c := Cpu.started (AddressSpace.putAll ⟨[l.ramRegion, l.consoleRegion], ""⟩ 0
      selfStoring.program) l 0
    let d : Debugger := ⟨c, selfStoring, [], false, false, greeting, 0⟩
    d.window 3 = .ok [⟨0, "STORE GP15, 0x1", true⟩, ⟨2, ".WORD 0xfc000000, 0x0", false⟩,
        ⟨4, "NOP", false⟩] ∧
      d.step.status = "0x0000: STORE GP15, 0x1" ∧
      d.step.window 3 = .ok [⟨0, "STORE GP15, 0x0", false⟩, ⟨2, ".WORD 0xfc000000, 0x0", true⟩,
        ⟨4, "NOP", false⟩] ∧
      ∃ c, d.step.cpu.stepInstruction = .error (.decode (.unknownOpcode 63)) c ∧
        d.step.step = { d.step with cpu := c }.fault (.decode (.unknownOpcode 63)) := by
  intro l c d
  have hd : d.Reachable := .ofExecutable (e := selfStoring) (by decide +kernel)
  have hw : d.window 3 = .ok [⟨0, "STORE GP15, 0x1", true⟩,
      ⟨2, ".WORD 0xfc000000, 0x0", false⟩, ⟨4, "NOP", false⟩] := by decide +kernel
  have hw' : d.step.window 3 = .ok [⟨0, "STORE GP15, 0x0", false⟩,
      ⟨2, ".WORD 0xfc000000, 0x0", true⟩, ⟨4, "NOP", false⟩] := by decide +kernel
  obtain ⟨-, p, -, -, -, hok, -⟩ :=
    step_executes_marked_row hd (by decide +kernel) (by decide +kernel) hw
      (List.mem_cons_self ..) rfl
  obtain ⟨-, p', hlow, hhigh, -, -, herr⟩ :=
    step_executes_marked_row (hd.perform .step) (by decide +kernel) (by decide +kernel) hw'
      (List.mem_cons_of_mem _ (List.mem_cons_self ..)) rfl
  have ha : answer d.cpu.stepInstruction = .ok ⟨0, storingSelf, true⟩ := by decide +kernel
  have hstatus : d.step.status = "0x0000: STORE GP15, 0x1" := by
    cases hr : d.cpu.stepInstruction with
    | error e c =>
      rw [hr] at ha
      cases ha
    | ok r c =>
      rw [hr] at ha
      cases ha
      obtain ⟨-, -, -, -, -, hstatus⟩ := hok _ c hr
      rw [hstatus]
      decide +kernel
  have hlow' : d.step.cpu.readMemory d.step.cpu.pc = .ok 0xFC000000 := by decide +kernel
  have hhigh' : d.step.cpu.readMemory (d.step.cpu.pc + 1) = .ok 0 := by decide +kernel
  obtain rfl : p' = ⟨0xFC000000, 0⟩ := by
    cases p'
    cases hlow.symm.trans hlow'
    cases hhigh.symm.trans hhigh'
    rfl
  obtain ⟨c', hx, -, hstep⟩ := herr (.unknownOpcode 63) (by decide)
  exact ⟨hw, hstatus, hw', c', hx, hstep⟩

end Debugger

end X25
