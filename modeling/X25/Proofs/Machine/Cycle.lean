import X25.Proofs.Machine.Routine

/-! # Cycles and their errors

A cycle of a running processor goes as a program sees its phase go: with the state that the program
sees next, or with the same error. The first three cycles of an instruction fail for its words
alone; the last one carries it out, also if its operands are memory registers.
-/

namespace X25

open Effect

namespace Architecture

variable (s : Architecture)

def loaded (p : WordPair) : Architecture :=
  (((s.accessed s.pc p.low).set .ira p.low).accessed (s.pc + 1) p.high).set .irb p.high

theorem set_loaded (p : WordPair) : (s.loaded p).set .pc (s.pc + 2) = s.fetched p := by
  refine congrArg (Architecture.mk · s.flags s.memory) (funext fun r => ?_)
  cases r <;> rfl

end Architecture

namespace Cpu

def architecture (c : Cpu) : Architecture :=
  c.datapath.architecture

/-- A running processor before a phase, and what a program sees of it. -/
structure Ready (p : Phase) (c : Cpu) (s : Architecture) : Prop where
  running : c.state = .running
  phase : c.phase = p
  idle : c.datapath.Idle
  architecture : c.architecture = s

variable {c c' : Cpu} {p : Phase} {s : Architecture} {e : MachineError}

theorem advance_eq_ok (h : advance c = .ok p c') :
    c.state = .running ∧ ∃ m, Machine.tick c.machine = .ok p m ∧
      c' = { c with machine := m, cycles := c.cycles + 1 } := by
  by_cases hr : c.state = .running
  · rw [advance, if_pos hr] at h
    simp only [risingEdge] at h
    cases ht : Machine.tick c.machine with
    | ok q m =>
      rw [ht] at h
      cases h
      exact ⟨hr, m, rfl, rfl⟩
    | error e m => rw [ht] at h; cases h
  · rw [advance, if_neg hr] at h
    cases h

theorem advance_eq_error (hr : c.state = .running) (h : advance c = .error e c') :
    ∃ m, Machine.tick c.machine = .error e m ∧ c' = { c with machine := m, state := .faulted } := by
  rw [advance, if_pos hr] at h
  simp only [risingEdge] at h
  cases ht : Machine.tick c.machine with
  | ok p m => rw [ht] at h; cases h
  | error e' m =>
    rw [ht] at h
    cases h
    exact ⟨m, rfl, rfl⟩

theorem faulted_of_advance (hr : c.state = .running) (h : advance c = .error e c') :
    c'.state = .faulted ∧ c'.cycles = c.cycles := by
  obtain ⟨m, -, rfl⟩ := advance_eq_error hr h
  exact ⟨rfl, rfl⟩

/-- The next cycle succeeds with what a program sees then, or fails with the error. -/
def Follows (c : Cpu) (p : Phase) (Q : Cpu → Architecture → Prop) :
    Except MachineError Architecture → Prop
  | .ok s => ∃ c', advance c = .ok p c' ∧ Q c' s
  | .error e => ∃ c', advance c = .error e c'

theorem Ready.follows (h : Ready p c s) {k k' : Control} {x : Except MachineError Architecture}
    {r : EStateM.Result MachineError Datapath Unit}
    (ht : Machine.tick c.machine = Machine.ending p k k' r) (hi : (final r).Idle)
    (hx : outcome (seen Datapath.architecture r) = x) :
    Follows c p (fun c' s' => Ready k'.phase c' s' ∧ c'.control = k') x := by
  subst hx
  have ha : Cpu.advance c = risingEdge c := by rw [Cpu.advance, if_pos h.running]
  cases r with
  | ok u d =>
    refine ⟨⟨⟨d, k'⟩, c.state, c.cycles + 1, c.layout, c.entry⟩, ?_, ⟨h.running, rfl, hi, rfl⟩, rfl⟩
    rw [ha]
    simp only [risingEdge, ht, Machine.ending]
  | error e d =>
    refine ⟨⟨⟨d, k⟩, .faulted, c.cycles, c.layout, c.entry⟩, ?_⟩
    rw [ha]
    simp only [risingEdge, ht, Machine.ending]

theorem Follows.imp {Q Q' : Cpu → Architecture → Prop} {x : Except MachineError Architecture}
    (h : Follows c p Q x) (hq : ∀ c' s', Q c' s' → Q' c' s') : Follows c p Q' x := by
  cases x with
  | ok s =>
    obtain ⟨c', ha, hs⟩ := h
    exact ⟨c', ha, hq c' s hs⟩
  | error e => exact h

theorem Ready.follows_fetch1 (h : Ready .fetch1 c s) :
    Follows c .fetch1 (Ready .fetch2) (s.fill .ira s.pc) := by
  obtain rfl := h.architecture
  have hf := h.follows (Machine.tick_fetch1 h.phase)
    (MicroOp.keeps_idle_runAll (by decide) _ h.idle) (MicroOp.outcome_fetchFirst h.idle)
  exact hf.imp fun _ _ => And.left

theorem Ready.follows_fetch2 (h : Ready .fetch2 c s) :
    Follows c .fetch2 (Ready .decode) (s.fill .irb (s.pc + 1)) := by
  obtain rfl := h.architecture
  have hf := h.follows (Machine.tick_fetch2 h.phase)
    (MicroOp.keeps_idle_runAll (by decide) _ h.idle) (MicroOp.outcome_fetchSecond h.idle)
  exact hf.imp fun _ _ => And.left

theorem Ready.advance_of_tick_error (h : Ready p c s) {m : Machine}
    (ht : Machine.tick c.machine = .error e m) : ∃ c', Cpu.advance c = .error e c' := by
  refine ⟨⟨m, .faulted, c.cycles, c.layout, c.entry⟩, ?_⟩
  rw [Cpu.advance, if_pos h.running]
  simp only [risingEdge, ht]

theorem Ready.advance_of_undecodable (h : Ready .decode c s) {f : DecodeError}
    (hd : Instruction.decode ⟨s.registers .ira, s.registers .irb⟩ = .error f) :
    ∃ c', Cpu.advance c = .error (.decode f) c' := by
  obtain rfl := h.architecture
  exact h.advance_of_tick_error (Machine.tick_decode_of_error h.phase hd)

theorem Ready.advance_of_decodable (h : Ready .decode c s) {i : Instruction}
    (hd : Instruction.decode ⟨s.registers .ira, s.registers .irb⟩ = .ok i) :
    ∃ c', Cpu.advance c = .ok .decode c' ∧ Ready .execute c' (s.set .pc (s.pc + 2)) ∧
      c'.control.current = some i := by
  obtain rfl := h.architecture
  obtain ⟨c', ha, hr, hk⟩ := h.follows (Machine.tick_decode_of_ok h.phase hd)
    (MicroOp.keeps_idle_runAll (by decide) _ h.idle) (MicroOp.outcome_passInstruction h.idle)
  exact ⟨c', ha, hr, by rw [hk]⟩

theorem Ready.advance_of_skipped (h : Ready .execute c s) {i : Instruction}
    (hc : c.control.current = some i) (he : i.condition.evaluate s.flags = .ok false) :
    ∃ c', Cpu.advance c = .ok .execute c' ∧ Ready .fetch1 c' s ∧ c'.control.retired.isSome := by
  obtain rfl := h.architecture
  refine ⟨⟨⟨c.machine.datapath, c.control.retiring i false⟩, c.state, c.cycles + 1, c.layout,
    c.entry⟩, ?_, ⟨h.running, rfl, h.idle, rfl⟩, rfl⟩
  rw [Cpu.advance, if_pos h.running]
  simp only [risingEdge, Machine.tick_execute_of_false h.phase hc he]
  rfl

theorem Ready.follows_execute (h : Ready .execute c s) (hs : s.IsOpen) {i : Instruction}
    (hc : c.control.current = some i) :
    Follows c .execute (fun c' s' => Ready .fetch1 c' s' ∧ c'.control.retired.isSome)
      (s.outcome i) := by
  obtain rfl := h.architecture
  rw [Architecture.outcome]
  cases he : i.condition.evaluate c.architecture.flags with
  | error e => exact h.advance_of_tick_error (Machine.tick_execute_of_error h.phase hc he)
  | ok holds =>
    cases holds with
    | false => exact h.advance_of_skipped hc he
    | true =>
      cases ht : i.task? with
      | none =>
        have hr : i.routine? = none := by rw [Instruction.routine?_eq_map, ht]; rfl
        exact h.advance_of_tick_error (Machine.tick_execute_unimplemented h.phase hc he hr)
      | some t =>
        have hr : i.routine? = some t.micro := by rw [Instruction.routine?_eq_map, ht]; rfl
        have hx : outcome (seen Datapath.architecture
            (seen Datapath.stopLatching (MicroOp.runAll t.micro c.datapath))) =
              t.outcome c.architecture := by
          rw [← t.outcome_visible hs]
          show _ = outcome (t.visible c.datapath.architecture)
          rw [← t.seenAs_visible c.datapath h.idle]
          cases MicroOp.runAll t.micro c.datapath <;> rfl
        have hi : (final (seen Datapath.stopLatching
            (MicroOp.runAll t.micro c.datapath))).Idle := by
          rw [final_seen]
          rfl
        refine (h.follows (Machine.tick_execute_routine h.phase hc he hr) hi hx).imp ?_
        rintro c' s' ⟨hr', hk⟩
        exact ⟨hr', by rw [hk]; rfl⟩

end Cpu

end X25
