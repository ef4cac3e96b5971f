import X25.Proofs.Machine.Drivers
import X25.Proofs.Machine.Session

/-! # The life cycle of a processor

All through a session the count of cycles, the phase, the held instruction and the last retired one
agree, although each is kept in its own place: a rising edge that fails passes no phase and is not
counted. The state of running changes in four ways only. A rising edge that fails faults the
processor, and the host can halt, resume and reset it.
-/

namespace X25

open Effect

namespace Action

/-- The action clocks the processor. -/
def clocks : Action → Bool
  | advance | pulse _ | stepInstruction | run _ => true
  | _ => false

/-- The rising edges that the action takes if none of them fails. -/
def edges (c : Cpu) : Action → Nat
  | advance | pulse .rising => 1
  | stepInstruction => 4 - c.phase.index
  | run n => min n (Cpu.cycleLimit - c.cycles)
  | _ => 0

end Action

namespace Cpu

variable {a : Action} {c c' c₀ : Cpu} {e : MachineError} {n : Nat}

section Clock

/-- While the processor runs, a clock action is its rising edges, up to the first that fails. -/
theorem perform_of_clocks (ha : a.clocks = true) (hr : c.state = .running) :
    a.perform c = advances (a.edges c) c := by
  cases a with
  | advance => exact (advances_one c).symm
  | pulse edge =>
    cases edge with
    | rising => exact (pulse_rising hr).trans (advances_one c).symm
    | falling => exact pulse_falling hr
  | stepInstruction => exact discard_stepInstruction c
  | run n =>
    have hn := run_of_running hr n
    simp only [Action.perform, Action.edges]
    cases h : advances (min n (cycleLimit - c.cycles)) c with
    | error e c' => exact discard_of_error (hn.trans (bind_of_error h))
    | ok u c' => exact discard_of_ok (hn.trans (bind_of_ok h))
  | halt | resume | reset | setEntry | setRegister | writeMemory | loadProgram => cases ha

theorem final_perform_of_stopped (ha : a.clocks = true) (hs : c.state ≠ .running) :
    final (a.perform c) = c := by
  have he := advance_of_stopped hs
  cases a with
  | advance =>
    simp only [Action.perform, discard_of_error he, final_error]
  | pulse edge =>
    have hp : pulse edge c = .error (.notRunning c.state) c := by
      simp only [pulse, if_neg hs]
    simp only [Action.perform, discard_of_error hp, final_error]
  | stepInstruction =>
    simp only [Action.perform, discard_stepInstruction, advances_of_stopped hs]
  | run n =>
    simp only [Action.perform, discard_of_ok (run_of_stopped hs n), final_ok]
  | halt | resume | reset | setEntry | setRegister | writeMemory | loadProgram => cases ha

theorem final_perform_of_clocks (ha : a.clocks = true) (c : Cpu) :
    final (a.perform c) = final (advances (a.edges c) c) := by
  by_cases hr : c.state = .running
  · rw [perform_of_clocks ha hr]
  · rw [final_perform_of_stopped ha hr, advances_of_stopped hr]

/-- Cycles that fail end with a rising edge that fails. -/
theorem exists_failing_edge (hr : c.state = .running) (h : advances n c = .error e c') :
    ∃ k c₁, advances k c = .ok () c₁ ∧ c₁.state = .running ∧ risingEdge c₁ = .error e c' := by
  induction n generalizing c with
  | zero => cases h
  | succ n ih =>
    cases ha : advance c with
    | error e₁ c₁ =>
      rw [advances_succ_of_error ha] at h
      cases h
      rw [advance, if_pos hr] at ha
      exact ⟨0, c, rfl, hr, ha⟩
    | ok p c₁ =>
      rw [advances_succ_of_ok ha] at h
      obtain ⟨k, c₂, hk, hf⟩ := ih (running_of_advance ha) h
      exact ⟨k + 1, c₂, (advances_succ_of_ok ha).trans hk, hf⟩

theorem faulted_of_failing_edge (hr : c.state = .running) (h : risingEdge c = .error e c') :
    c'.state = .faulted := by
  have ha : advance c = .error e c' := by rw [advance, if_pos hr, h]
  exact (faulted_of_advance hr ha).1

theorem faulted_of_advances (hr : c.state = .running) (h : advances n c = .error e c') :
    c'.state = .faulted := by
  obtain ⟨k, c₁, -, hr₁, he⟩ := exists_failing_edge hr h
  exact faulted_of_failing_edge hr₁ he

theorem completed_of_stepInstruction {r : Retired} (hs : c.state = .running)
    (h : stepInstruction c = .ok r c') :
    c'.state = .running ∧ c'.phase = .fetch1 ∧ c'.cycles = c.cycles + (4 - c.phase.index) := by
  have ha : advances (4 - c.phase.index) c = .ok () c' :=
    (discard_stepInstruction c).symm.trans (discard_of_ok h)
  obtain ⟨c₁, -, hr⟩ := retires_of_stepInstruction h
  obtain ⟨hs', hn⟩ := counted_of_advances hs ha
  refine ⟨hs', ?_, hn⟩
  rw [(phase_of_advance hr.cycle).2, hr.phase]
  rfl

theorem faulted_of_stepInstruction (hs : c.state = .running)
    (h : stepInstruction c = .error e c') : c'.state = .faulted := by
  have ha : advances (4 - c.phase.index) c = .error e c' :=
    (discard_stepInstruction c).symm.trans (discard_of_error h)
  exact faulted_of_advances hs ha

theorem edges_of_not_clocks (ha : a.clocks = false) (c : Cpu) : a.edges c = 0 := by
  cases a with
  | advance | pulse | stepInstruction | run => cases ha
  | halt | resume | reset | setEntry | setRegister | writeMemory | loadProgram => rfl

end Clock

section Action

/-- The ways in which an action leaves or changes the state of running. -/
inductive Turns (a : Action) (c c' : Cpu) : Prop
  | stays (h : c'.state = c.state)
  | faults {k : Nat} {c₁ : Cpu} {e : MachineError} (hr : c.state = .running)
      (hk : advances k c = .ok () c₁) (hr₁ : c₁.state = .running)
      (he : risingEdge c₁ = .error e c') (hp : a.perform c = .error e c')
      (h : c'.state = .faulted)
  | halts (ha : a = .halt) (hr : c.state = .running) (h : c'.state = .halted)
  | resumes (ha : a = .resume) (hs : c.state = .halted) (h : c'.state = .running)
  | resets (ha : a = .reset) (h : c'.state = .running)

theorem turns_of_clocks (ha : a.clocks = true) (c : Cpu) : Turns a c (final (a.perform c)) := by
  by_cases hr : c.state = .running
  · have hp := perform_of_clocks ha hr
    cases h : advances (a.edges c) c with
    | ok u c' =>
      rw [hp, h]
      exact .stays ((counted_of_advances hr h).1.trans hr.symm)
    | error e c' =>
      obtain ⟨k, c₁, hk, hr₁, he⟩ := exists_failing_edge hr h
      rw [hp, h]
      exact .faults hr hk hr₁ he (hp.trans h) (faulted_of_failing_edge hr₁ he)
  · rw [final_perform_of_stopped ha hr]
    exact .stays rfl

/-- What an action that neither clocks nor resets the processor does. -/
structure Unclocked (a : Action) (c c' : Cpu) : Prop where
  control : c'.control = c.control
  cycles : c'.cycles = c.cycles
  turns : Turns a c c'

theorem unclocked_perform (ha : a.clocks = false) (hr : a ≠ .reset) (c : Cpu) :
    Unclocked a c (final (a.perform c)) := by
  cases a with
  | advance | pulse | stepInstruction | run => cases ha
  | reset => exact absurd rfl hr
  | halt =>
    show Unclocked _ c (halt c)
    rw [halt]
    split
    · next hs => exact ⟨rfl, rfl, .halts rfl hs rfl⟩
    · exact ⟨rfl, rfl, .stays rfl⟩
  | resume =>
    show Unclocked _ c (resume c)
    rw [resume]
    split
    · next hs => exact ⟨rfl, rfl, .resumes rfl hs rfl⟩
    · exact ⟨rfl, rfl, .stays rfl⟩
  | setEntry | setRegister => exact ⟨rfl, rfl, .stays rfl⟩
  | writeMemory a v =>
    simp only [Action.perform, writeMemory]
    split <;> exact ⟨rfl, rfl, .stays rfl⟩
  | loadProgram program =>
    obtain ⟨memory, hm⟩ := final_loadProgram program c
    simp only [Action.perform, hm]
    exact ⟨rfl, rfl, .stays rfl⟩

theorem turns_perform (a : Action) (c : Cpu) : Turns a c (final (a.perform c)) := by
  by_cases hr : a = .reset
  · subst hr
    exact .resets rfl rfl
  · cases ha : a.clocks with
    | true => exact turns_of_clocks ha c
    | false => exact (unclocked_perform ha hr c).turns

end Action

section Count

/-- How many of the next rising edges succeed, up to the first that fails. -/
def succeeding : Nat → Cpu → Nat
  | 0, _ => 0
  | n + 1, c =>
    match advance c with
    | .ok _ c' => succeeding n c' + 1
    | .error _ _ => 0

/-- The rising edges that succeeded up to the end of a session since its last reset, where `n`
succeeded before the session. -/
def tally : Nat → Cpu → List Action → Nat
  | n, _, [] => n
  | n, c, a :: actions =>
    let n := if a = .reset then 0 else n + succeeding (a.edges c) c
    tally n (final (a.perform c)) actions

/-- The rising edges that a session takes if none of them fails. -/
def edgesOf : Cpu → List Action → Nat
  | _, [] => 0
  | c, a :: actions => a.edges c + edgesOf (final (a.perform c)) actions

theorem succeeding_le (n : Nat) (c : Cpu) : succeeding n c ≤ n := by
  induction n generalizing c with
  | zero => exact Nat.le_refl 0
  | succ n ih =>
    rw [succeeding]
    split
    · exact Nat.succ_le_succ (ih _)
    · exact Nat.zero_le _

theorem tally_le (n : Nat) (c : Cpu) (actions : List Action) :
    tally n c actions ≤ n + edgesOf c actions := by
  induction actions generalizing n c with
  | nil => exact Nat.le_refl n
  | cons a actions ih =>
    have hs := succeeding_le (a.edges c) c
    rw [tally, edgesOf]
    refine (ih _ _).trans ?_
    split <;> omega

theorem edgesOf_take_le (c : Cpu) (actions : List Action) (k : Nat) :
    edgesOf c (actions.take k) ≤ edgesOf c actions := by
  induction actions generalizing c k with
  | nil => rw [List.take_nil]
  | cons a actions ih =>
    cases k with
    | zero => exact Nat.zero_le _
    | succ k => exact Nat.add_le_add_left (ih _ k) _

theorem cycles_advances (n : Nat) (c : Cpu) :
    (final (advances n c)).cycles = c.cycles + succeeding n c := by
  induction n generalizing c with
  | zero => rfl
  | succ n ih =>
    cases ha : advance c with
    | error e c' =>
      by_cases hr : c.state = .running
      · simp only [advances_succ_of_error ha, final_error, succeeding, ha, Nat.add_zero]
        exact (faulted_of_advance hr ha).2
      · simp only [advances_of_stopped hr, succeeding, ha, Nat.add_zero]
    | ok p c' =>
      simp only [advances_succ_of_ok ha, ih, succeeding, ha, cycles_of_advance ha]
      omega

theorem cycles_perform (a : Action) (c : Cpu) :
    (final (a.perform c)).cycles =
      if a = .reset then 0 else c.cycles + succeeding (a.edges c) c := by
  by_cases hr : a = .reset
  · subst hr
    rfl
  · rw [if_neg hr]
    cases ha : a.clocks with
    | true => rw [final_perform_of_clocks ha, cycles_advances]
    | false =>
      rw [(unclocked_perform ha hr c).cycles, edges_of_not_clocks ha]
      rfl

theorem cycles_after (c : Cpu) (actions : List Action) :
    (c.after actions).cycles = tally c.cycles c actions := by
  induction actions generalizing c with
  | nil => rfl
  | cons a actions ih =>
    simp only [tally, ← cycles_perform]
    exact ih _

end Count

section Invariant

/-- The count of cycles agrees with the control unit, and an instruction is held to be executed. -/
structure Accounted (c : Cpu) : Prop where
  phase : c.phase.index = c.cycles % 4
  retired : c.control.retired = none ↔ c.cycles < 4
  current : c.phase = .execute → ∃ i, c.control.current = some i ∧ i.isWellFormed = true

theorem accounted_started (memory : AddressSpace) (layout : Layout) (entry : Word) :
    (started memory layout entry).Accounted :=
  ⟨rfl, iff_of_true rfl (Nat.zero_lt_succ 3), fun h => by cases h⟩

theorem Accounted.of_eq (h : c.Accounted) (hp : c'.phase = c.phase)
    (hr : c'.control.retired = c.control.retired) (hc : c'.control.current = c.control.current)
    (hn : c'.cycles = c.cycles) : c'.Accounted := by
  constructor
  · rw [hp, hn, h.phase]
  · rw [hr, hn, h.retired]
  · rw [hp, hc]
    exact h.current

theorem retired_of_advance {p : Phase} (h : advance c = .ok p c') (hp : p ≠ .execute) :
    c'.control.retired = c.control.retired := by
  show c'.machine.control.retired = c.machine.control.retired
  cases success_of_advance h with
  | fetch1 _ hk | fetch2 _ hk | decode _ _ hk => rw [hk]
  | execute => exact absurd rfl hp

theorem current_of_advance {p : Phase} (h : advance c = .ok p c') (hp : c'.phase = .execute) :
    ∃ i, c'.control.current = some i ∧ i.isWellFormed = true := by
  cases success_of_advance h with
  | fetch1 _ hk | fetch2 _ hk | execute _ _ _ hk =>
    cases hp.symm.trans (congrArg Control.phase hk)
  | @decode i _ hd hk =>
    obtain ⟨hw, -⟩ := Instruction.encode_of_decode hd
    exact ⟨i, congrArg Control.current hk, hw⟩

theorem Accounted.advance {p : Phase} (h : c.Accounted) (ha : Cpu.advance c = .ok p c') :
    c'.Accounted := by
  obtain ⟨hp, -⟩ := phase_of_advance ha
  have hn := cycles_of_advance ha
  have hi := h.phase
  constructor
  · rw [index_of_advance ha, hn, hi]
    omega
  · by_cases he : p = .execute
    · subst he
      obtain ⟨r, hr⟩ := exists_retires ha
      have h3 : c.phase.index = 3 := Phase.index_eq_three.mpr hp.symm
      rw [hr.last]
      exact iff_of_false (by simp) (by omega)
    · have h3 : c.phase.index ≠ 3 := fun h3 => he (hp.trans (Phase.index_eq_three.mp h3))
      rw [retired_of_advance ha he, h.retired, hn]
      omega
  · exact current_of_advance ha

theorem control_of_failing (hr : c.state = .running) (h : advance c = .error e c') :
    c'.phase = c.phase ∧ c'.control.retired = c.control.retired ∧
      c'.control.current = c.control.current := by
  obtain ⟨m, ht, rfl⟩ := advance_eq_error hr h
  have hf := Machine.failure_of_tick_error ht
  cases hf with
  | fetch1 | fetch2 | undecoded | nothing | unmapped | unimplemented | routine =>
    exact ⟨rfl, rfl, rfl⟩

theorem keeps_accounted_advance : Keeps Accounted advance := by
  intro c h
  cases ha : advance c with
  | ok p c' => exact h.advance ha
  | error e c' =>
    by_cases hr : c.state = .running
    · obtain ⟨hp, hl, hc⟩ := control_of_failing hr ha
      exact h.of_eq hp hl hc (faulted_of_advance hr ha).2
    · rw [advance_of_stopped hr] at ha
      cases ha
      exact h

theorem keeps_accounted_advances (n : Nat) : Keeps Accounted (advances n) := by
  induction n with
  | zero => exact .of_pure ()
  | succ n ih => exact keeps_accounted_advance.discard.bind fun _ => ih

theorem Accounted.perform (h : c.Accounted) (a : Action) : (final (a.perform c)).Accounted := by
  by_cases hr : a = .reset
  · subst hr
    show c.reset.Accounted
    rw [reset_eq_started]
    exact accounted_started _ _ _
  · cases ha : a.clocks with
    | true =>
      rw [final_perform_of_clocks ha]
      exact keeps_accounted_advances _ c h
    | false =>
      obtain ⟨hk, hn, -⟩ := unclocked_perform ha hr c
      exact h.of_eq (congrArg Control.phase hk) (congrArg Control.retired hk)
        (congrArg Control.current hk) hn

theorem Reachable.accounted (h : Reachable c) : c.Accounted := by
  induction h with
  | ofLayout h =>
    obtain ⟨memory, rfl⟩ := ofLayout_eq_ok h
    exact accounted_started _ _ _
  | perform _ a ih => exact ih.perform a

end Invariant

section Laws

/-- What an action can do to a processor, from `c` to `c'`. -/
structure Lawful (a : Action) (c c' : Cpu) : Prop where
  clocked : a.clocks = true → c.state = .running → a.perform c = advances (a.edges c) c
  stopped : a.clocks = true → c.state ≠ .running → c' = c
  faulted : c.state ≠ .faulted → c'.state = .faulted →
    ∃ k c₁ e, advances k c = .ok () c₁ ∧ c₁.state = .running ∧ risingEdge c₁ = .error e c' ∧
      a.perform c = .error e c'
  recovered : c.state = .faulted → c'.state ≠ .faulted → a = .reset
  halted : c.state ≠ .halted → c'.state = .halted → a = .halt ∧ c.state = .running
  resumed : c.state = .halted → c'.state ≠ .halted → a = .resume ∨ a = .reset

theorem lawful_perform (a : Action) (c : Cpu) : Lawful a c (final (a.perform c)) := by
  have ht := turns_perform a c
  constructor
  · exact perform_of_clocks
  · exact final_perform_of_stopped
  · intro hs hs'
    cases ht with
    | stays h => exact absurd (h.symm.trans hs') hs
    | faults _ hk hr₁ he hp => exact ⟨_, _, _, hk, hr₁, he, hp⟩
    | halts _ _ h | resumes _ _ h | resets _ h => cases h.symm.trans hs'
  · intro hs hs'
    cases ht with
    | stays h => exact absurd (h.trans hs) hs'
    | faults hr | halts _ hr | resumes _ hr => cases hs.symm.trans hr
    | resets ha => exact ha
  · intro hs hs'
    cases ht with
    | stays h => exact absurd (h.symm.trans hs') hs
    | halts ha hr => exact ⟨ha, hr⟩
    | faults _ _ _ _ _ h | resumes _ _ h | resets _ h => cases h.symm.trans hs'
  · intro hs hs'
    cases ht with
    | stays h => exact absurd (h.trans hs) hs'
    | faults hr | halts _ hr => cases hs.symm.trans hr
    | resumes ha => exact .inl ha
    | resets ha => exact .inr ha

end Laws

theorem cycles_of_ofExecutable {e : Executable} (h : ofExecutable e = .ok c) : c.cycles = 0 := by
  obtain ⟨c₀, hl, rfl⟩ := after_of_ofExecutable h
  obtain ⟨memory, rfl⟩ := ofLayout_eq_ok hl
  exact cycles_after _ _

/-- The count of cycles does not leave its 64 bits in a session of fewer than `2 ^ 64` rising
edges. -/
theorem cycles_after_lt {e : Executable} (h : ofExecutable e = .ok c₀) {actions : List Action}
    (hn : edgesOf c₀ actions < UInt64.size) (k : Nat) :
    (c₀.after (actions.take k)).cycles < UInt64.size := by
  rw [cycles_after, cycles_of_ofExecutable h]
  calc tally 0 c₀ (actions.take k)
      ≤ 0 + edgesOf c₀ (actions.take k) := tally_le 0 c₀ _
    _ ≤ edgesOf c₀ actions := by
      rw [Nat.zero_add]
      exact edgesOf_take_le c₀ actions k
    _ < UInt64.size := hn

/-- Whatever a host asks of a processor in whatever order, after every action the count of cycles is
the number of rising edges that succeeded since the last reset, it tells the phase and whether an
instruction was retired, and before an execute phase a well-formed instruction is held. The next
action faults the processor only at a rising edge that fails, and halts it only if it is a halt and
the processor runs; it ends a fault only if it is a reset, and a halt only if it is a resume or a
reset. Clock actions change nothing unless the processor runs. -/
theorem life_cycle {e : Executable} (h : ofExecutable e = .ok c₀) (actions : List Action) :
    (c₀.after actions).cycles = tally 0 c₀ actions ∧ (c₀.after actions).Accounted ∧
      ∀ a, Lawful a (c₀.after actions) (final (a.perform (c₀.after actions))) := by
  refine ⟨?_, ((Reachable.ofExecutable h).after actions).accounted, fun a => lawful_perform a _⟩
  rw [cycles_after, cycles_of_ofExecutable h]

theorem life_cycle_subtracting :
    let actions : List Action := [.stepInstruction, .halt, .advance, .resume, .pulse .rising]
    let c := subtractor.after actions
    let c' := final ((Action.run 9).perform c)
    ofExecutable subtracting = .ok subtractor ∧ c.cycles = 5 ∧ tally 0 subtractor actions = 5 ∧
      c.phase = .fetch2 ∧ c.Accounted ∧ c.state = .running ∧ c'.state = .faulted ∧
      (∃ k c₁ e, advances k c = .ok () c₁ ∧ c₁.state = .running ∧ risingEdge c₁ = .error e c' ∧
        (Action.run 9).perform c = .error e c') ∧
      c'.cycles = 7 ∧ c'.phase = .execute := by
  intro actions c c'
  have h : ofExecutable subtracting = .ok subtractor := rfl
  have hr : c.state = .running := by decide +kernel
  have hf : c'.state = .faulted := by decide +kernel
  obtain ⟨hn, hc, hl⟩ := life_cycle h actions
  have hn' : c.cycles = 5 := by decide +kernel
  exact ⟨h, hn', hn.symm.trans hn', by decide +kernel, hc, hr, hf,
    (hl (.run 9)).faulted (by simp [c, hr]) hf, by decide +kernel, by decide +kernel⟩

end Cpu

end X25
