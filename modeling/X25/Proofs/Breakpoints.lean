import X25.Proofs.Machine.FetchCycle
import X25.Proofs.Reset

/-! # Running continuously

A debugger that runs completes an instruction with each tick, as the processor does by itself. It
stops at an error, and in front of the first breakpoint that the program counter gets to. Where the
run began does not count, so a run can go on from a breakpoint.
-/

namespace X25

open Effect

namespace Cpu

/-- The processor after a number of instructions, of which the first may be half done already, or
after the first that fails. -/
def steps (n : Nat) (c : Cpu) : Cpu :=
  c.after (List.replicate n .stepInstruction)

theorem steps_succ (n : Nat) (c : Cpu) : c.steps (n + 1) = final (stepInstruction (c.steps n)) := by
  rw [steps, List.replicate_succ', after_append]
  exact final_discard _ _

end Cpu

namespace Debugger

variable {d d' : Debugger} {k n : Nat}

/-- A debugger that was told to run, after a number of ticks. -/
def ticked (d : Debugger) (k : Nat) : Debugger :=
  d.after (.run :: List.replicate k .tick)

theorem ticked_succ (d : Debugger) (k : Nat) : d.ticked (k + 1) = (d.ticked k).tick := by
  simp only [ticked, after, List.replicate_succ', ← List.cons_append, List.foldl_append]
  rfl

/-- What a tick of a running debugger does with a running processor. -/
inductive Turn (d : Debugger) : Debugger → Prop
  | goesOn {r : Retired} {c : Cpu} (h : d.cpu.stepInstruction = .ok r c)
      (hb : c.pc ∉ d.breakpoints) :
      Turn d { d with cpu := c, status := retiredText r }
  | stops {r : Retired} {c : Cpu} (h : d.cpu.stepInstruction = .ok r c)
      (hb : c.pc ∈ d.breakpoints) :
      Turn d { d with
        cpu := c
        running := false
        status := "Breakpoint at PC=" ++ addressText c.pc }
  | fails {e : MachineError} {c : Cpu} (h : d.cpu.stepInstruction = .error e c) :
      Turn d ({ d with cpu := c }.fault e)

theorem turn_tick (hd : d.running = true) (hc : d.cpu.state = .running) : Turn d d.tick := by
  have hr : d.cpu.isRunning = true := by simp [Cpu.isRunning, hc]
  rw [tick, if_pos hd, if_pos hr, step, if_pos hr]
  cases h : d.cpu.stepInstruction with
  | error e c => exact .fails h
  | ok r c =>
    simp only [stopAtBreakpoint, hd, Bool.true_and, hasBreakpoint, List.contains_iff_mem]
    split
    · next hb => exact .stops h hb
    · next hb => simpa only [hd] using Turn.goesOn h hb

theorem tick_of_stopped (hd : d.running = false) : d.tick = d := by
  simp [tick, hd]

/-- A debugger that goes on after a number of ticks. -/
structure GoesOn (d : Debugger) (k : Nat) (d' : Debugger) : Prop where
  running : d'.running = true
  breakpoints : d'.breakpoints = d.breakpoints
  state : d'.cpu.state = .running
  cpu : d'.cpu = d.cpu.steps k
  ahead : 0 < k → d'.cpu.phase = .fetch1 ∧ d'.cpu.pc ∉ d.breakpoints

/-- A debugger that has stopped with the last of a number of ticks. -/
structure Stopped (d : Debugger) (k : Nat) (d' : Debugger) : Prop where
  stopped : d'.running = false
  cpu : d'.cpu = d.cpu.steps k
  reason : d'.cpu.state = .faulted ∨
    d'.cpu.state = .running ∧ d'.cpu.phase = .fetch1 ∧ d'.cpu.pc ∈ d.breakpoints ∧
      d'.status = "Breakpoint at PC=" ++ addressText d'.cpu.pc

theorem goesOn_run (hs : d.cpu.state = .running) : GoesOn d 0 d.run :=
  ⟨rfl, rfl, hs, rfl, fun h => absurd h (Nat.lt_irrefl 0)⟩

/-- With each tick a debugger goes on or stops. -/
theorem GoesOn.tick (h : GoesOn d k d') : GoesOn d (k + 1) d'.tick ∨ Stopped d (k + 1) d'.tick := by
  have hc : final (d'.cpu.stepInstruction) = d.cpu.steps (k + 1) := by
    rw [Cpu.steps_succ, ← h.cpu]
  have ht := turn_tick h.running h.state
  -- what the tick computes does not matter any more, only which turn it is
  generalize d'.tick = t at ht ⊢
  cases ht with
  | goesOn hi hb =>
    rw [hi] at hc
    rw [h.breakpoints] at hb
    obtain ⟨hs, hp, -⟩ := Cpu.completed_of_stepInstruction h.state hi
    exact .inl ⟨h.running, h.breakpoints, hs, hc, fun _ => ⟨hp, hb⟩⟩
  | stops hi hb =>
    rw [hi] at hc
    rw [h.breakpoints] at hb
    obtain ⟨hs, hp, -⟩ := Cpu.completed_of_stepInstruction h.state hi
    exact .inr ⟨rfl, hc, .inr ⟨hs, hp, hb, rfl⟩⟩
  | fails hi =>
    rw [hi] at hc
    exact .inr ⟨rfl, hc, .inl (Cpu.faulted_of_stepInstruction h.state hi)⟩

theorem ticked_add (hk : (d.ticked k).running = false) (j : Nat) :
    d.ticked (k + j) = d.ticked k := by
  induction j with
  | zero => rfl
  | succ j ih => rw [← Nat.add_assoc, ticked_succ, ih, tick_of_stopped hk]

theorem running_of_le (hk : (d.ticked k).running = true) (hn : n ≤ k) :
    (d.ticked n).running = true := by
  cases hr : (d.ticked n).running
  case true => rfl
  obtain ⟨j, rfl⟩ := Nat.exists_eq_add_of_le hn
  rw [ticked_add hr, hr] at hk
  cases hk

theorem goesOn_or_stopped (hs : d.cpu.state = .running) (k : Nat) :
    GoesOn d k (d.ticked k) ∨
      ∃ n < k, GoesOn d n (d.ticked n) ∧ Stopped d (n + 1) (d.ticked (n + 1)) ∧
        d.ticked k = d.ticked (n + 1) := by
  induction k with
  | zero => exact .inl (goesOn_run hs)
  | succ k ih =>
    rcases ih with hg | ⟨n, hn, hg, hstop, he⟩
    · have ht := hg.tick
      rw [← ticked_succ] at ht
      exact ht.imp_right fun hstop => ⟨k, Nat.lt_succ_self k, hg, hstop, rfl⟩
    · refine .inr ⟨n, Nat.lt_succ_of_lt hn, hg, hstop, ?_⟩
      rw [ticked_succ, he, tick_of_stopped hstop.stopped]

theorem goesOn_of_running (hs : d.cpu.state = .running) (hk : (d.ticked k).running = true) :
    GoesOn d k (d.ticked k) := by
  rcases goesOn_or_stopped hs k with hg | ⟨n, -, -, hstop, he⟩
  · exact hg
  · rw [he, hstop.stopped] at hk
    cases hk

theorem stopped_of_not_running (hs : d.cpu.state = .running) (hk : (d.ticked k).running = false) :
    ∃ n < k, GoesOn d n (d.ticked n) ∧ Stopped d (n + 1) (d.ticked (n + 1)) ∧
      d.ticked k = d.ticked (n + 1) := by
  rcases goesOn_or_stopped hs k with hg | hstop
  · rw [hg.running] at hk
    cases hk
  · exact hstop

theorem turn_ticked (hs : d.cpu.state = .running) (hk : (d.ticked k).running = true) :
    Turn (d.ticked k) (d.ticked (k + 1)) := by
  have hg := goesOn_of_running hs hk
  rw [ticked_succ]
  exact turn_tick hk hg.state

theorem running_iff (hs : d.cpu.state = .running) (k : Nat) :
    (d.ticked k).running = true ↔
      ∀ i, 0 < i → i ≤ k →
        (d.ticked i).cpu.state ≠ .faulted ∧ (d.ticked i).cpu.pc ∉ d.breakpoints := by
  constructor
  · intro hk i hi hik
    have hg := goesOn_of_running hs (running_of_le hk hik)
    exact ⟨by simp [hg.state], (hg.ahead hi).2⟩
  · intro h
    cases hk : (d.ticked k).running
    case true => rfl
    obtain ⟨n, hn, -, hstop, -⟩ := stopped_of_not_running hs hk
    obtain ⟨hf, hb⟩ := h (n + 1) (Nat.succ_pos n) hn
    rcases hstop.reason with hf' | ⟨-, -, hb', -⟩
    · exact absurd hf' hf
    · exact absurd hb' hb

/-- Running continuously executes what the processor executes by itself, instruction by instruction,
the first of which may be half done. It stops at an error, and in front of every breakpoint, but for
one where it began; from then on ticks change nothing. -/
theorem run_stops_before_breakpoints (d : Debugger) (hs : d.cpu.state = .running) :
    (∀ k, ∃ n ≤ k, d.ticked k = d.ticked n ∧ (n < k → (d.ticked n).running = false) ∧
      (∀ i ≤ n, (d.ticked i).cpu = d.cpu.steps i) ∧
      ∀ i < n, Turn (d.ticked i) (d.ticked (i + 1))) ∧
    (∀ k, 0 < k → (d.ticked k).running = true →
      (d.ticked k).cpu.phase = .fetch1 ∧ (d.ticked k).cpu.pc ∉ d.breakpoints ∧
      ∀ r c, (d.ticked k).cpu.stepInstruction = .ok r c → r.address ∉ d.breakpoints) ∧
    (∀ k, (d.ticked k).running = true ↔
      ∀ i, 0 < i → i ≤ k →
        (d.ticked i).cpu.state ≠ .faulted ∧ (d.ticked i).cpu.pc ∉ d.breakpoints) ∧
    (∀ k, (d.ticked k).running = false →
      (∀ j, d.ticked (k + j) = d.ticked k) ∧
      ((d.ticked k).cpu.state = .faulted ∨
        (d.ticked k).cpu.state = .running ∧ (d.ticked k).cpu.phase = .fetch1 ∧
          (d.ticked k).cpu.pc ∈ d.breakpoints ∧
          (d.ticked k).status = "Breakpoint at PC=" ++ addressText (d.ticked k).cpu.pc)) ∧
    (d.ticked 1).cpu = final (Cpu.advances (4 - d.cpu.phase.index) d.cpu) ∧
    ∀ r c, d.cpu.stepInstruction = .ok r c →
      (d.ticked 1).cpu = c ∧ c.cycles = d.cpu.cycles + (4 - d.cpu.phase.index) ∧
      r.address = if d.cpu.phase = .fetch1 then d.cpu.pc else d.cpu.control.fetchedAt := by
  have hfirst : (d.ticked 1).cpu = final d.cpu.stepInstruction := by
    have h : (d.ticked 1).cpu = d.cpu.steps 1 := (goesOn_run hs).tick.elim GoesOn.cpu Stopped.cpu
    exact h.trans (Cpu.steps_succ 0 d.cpu)
  refine ⟨fun k => ?_, fun k hp hk => ?_, running_iff hs, fun k hk => ?_, ?_, fun r c h => ?_⟩
  · rcases goesOn_or_stopped hs k with hg | ⟨n, hn, hg, hstop, he⟩
    · refine ⟨k, Nat.le_refl k, rfl, fun h => absurd h (Nat.lt_irrefl k), fun i hi => ?_,
        fun i hi => ?_⟩
      · exact (goesOn_of_running hs (running_of_le hg.running hi)).cpu
      · exact turn_ticked hs (running_of_le hg.running (Nat.le_of_lt hi))
    · refine ⟨n + 1, hn, he, fun _ => hstop.stopped, fun i hi => ?_, fun i hi => ?_⟩
      · rcases Nat.lt_or_eq_of_le hi with hi | rfl
        · exact (goesOn_of_running hs (running_of_le hg.running (Nat.le_of_lt_succ hi))).cpu
        · exact hstop.cpu
      · exact turn_ticked hs (running_of_le hg.running (Nat.le_of_lt_succ hi))
  · obtain ⟨hf, hb⟩ := (goesOn_of_running hs hk).ahead hp
    refine ⟨hf, hb, fun r c h => ?_⟩
    rwa [Cpu.address_of_stepInstruction h, if_pos hf]
  · obtain ⟨n, -, -, hstop, he⟩ := stopped_of_not_running hs hk
    exact ⟨ticked_add hk, he ▸ hstop.reason⟩
  · rw [hfirst, ← Cpu.discard_stepInstruction, final_discard]
  · obtain ⟨-, -, hn⟩ := Cpu.completed_of_stepInstruction hs h
    exact ⟨by rw [hfirst, h, final_ok], hn, Cpu.address_of_stepInstruction h⟩

/-- The run begins between the two fetches from a breakpoint. It completes that instruction, and
stops in front of the next one, which would fail. -/
theorem run_stops_before_breakpoints_underway :
    let c := Cpu.subtractor.after [.advance]
    let d : Debugger := ⟨c, Cpu.subtracting, [0, 2], false, false, greeting, 0⟩
    d.cpu.state = .running ∧ d.cpu.phase = .fetch2 ∧ d.cpu.pc = 0 ∧
      (d.ticked 1).cpu = d.cpu.steps 1 ∧ (d.ticked 1).running = false ∧
      (d.ticked 1).cpu.cycles = 4 ∧ (d.ticked 1).cpu.phase = .fetch1 ∧
      (d.ticked 1).cpu.pc = 2 ∧ (d.ticked 1).status = "Breakpoint at PC=0x0002" ∧
      (∀ j, d.ticked (1 + j) = d.ticked 1) ∧ (d.cpu.steps 2).state = .faulted := by
  intro c d
  have hs : d.cpu.state = .running := by decide +kernel
  have hk : (d.ticked 1).running = false := by decide +kernel
  have hf : (d.ticked 1).cpu.state ≠ .faulted := by decide +kernel
  have hp : (d.ticked 1).cpu.pc = 2 := by decide +kernel
  obtain ⟨hcpu, -, -, hstop, -⟩ := run_stops_before_breakpoints d hs
  obtain ⟨n, hn, -, hlast, hsteps, -⟩ := hcpu 1
  obtain ⟨hstays, hf' | ⟨-, hphase, -, hstatus⟩⟩ := hstop 1 hk
  · exact absurd hf' hf
  have hn1 : n = 1 := by
    rcases Nat.lt_or_eq_of_le hn with h | h
    · obtain rfl : n = 0 := by omega
      cases hlast h
    · exact h
  subst hn1
  refine ⟨hs, by decide +kernel, by decide +kernel, hsteps 1 (Nat.le_refl 1), hk, by decide +kernel,
    hphase, hp, ?_, hstays, by decide +kernel⟩
  rw [hstatus, hp]
  decide +kernel

end Debugger

end X25
