import X25.Clock
import X25.Proofs.Machine.Fault
import X25.Proofs.Machine.Refinement

/-! # Drivers

There are several ways to clock a processor: cycle by cycle, by edges, by a run with a limit, by a
clock, and by whole instructions. All of them are a number of cycles, up to the first that fails,
and differ only in how they count these cycles and in what they report.
-/

namespace X25

open Effect

namespace Phase

theorem index_lt (p : Phase) : p.index < 4 := by
  cases p <;> decide

theorem index_next (p : Phase) : p.next.index = (p.index + 1) % 4 := by
  cases p <;> rfl

theorem index_eq_three {p : Phase} : p.index = 3 ↔ p = .execute := by
  cases p <;> decide

end Phase

namespace Cpu

variable {c c' : Cpu} {p : Phase} {e : MachineError} {n : Nat}

section Advances

theorem advances_succ_of_ok (h : advance c = .ok p c') : advances (n + 1) c = advances n c' := by
  rw [advances, bind_of_ok (discard_of_ok h)]

theorem advances_succ_of_error (h : advance c = .error e c') :
    advances (n + 1) c = .error e c' := by
  rw [advances, bind_of_error (discard_of_error h)]

theorem advances_one (c : Cpu) : advances 1 c = discard advance c := by
  rw [advances, advances, bind_pure_unit]

theorem advance_of_stopped (hs : c.state ≠ .running) :
    advance c = .error (.notRunning c.state) c := by
  rw [advance, if_neg hs]

theorem advances_of_stopped (hs : c.state ≠ .running) (n : Nat) : final (advances n c) = c := by
  cases n with
  | zero => rfl
  | succ n =>
    rw [advances_succ_of_error (advance_of_stopped hs)]
    rfl

theorem running_of_advance (h : advance c = .ok p c') : c'.state = .running := by
  obtain ⟨hr, m, -, rfl⟩ := advance_eq_ok h
  exact hr

theorem after_advance (c : Cpu) (actions : List Action) :
    c.after (.advance :: actions) = (final (advance c)).after actions :=
  congrArg (·.after actions) (final_discard advance c)

/-- What goes on after a cycle as `n` cycles do, while the processor runs, is `n + 1` cycles. -/
theorem discard_advance_bind {f : Unit → CpuM Unit}
    (hf : ∀ c', c'.state = .running → f () c' = advances n c') (c : Cpu) :
    (discard advance >>= f) c = advances (n + 1) c := by
  cases ha : advance c with
  | error e c' => rw [advances_succ_of_error ha, bind_of_error (discard_of_error ha)]
  | ok p c' =>
    rw [advances_succ_of_ok ha, bind_of_ok (discard_of_ok ha), hf c' (running_of_advance ha)]

theorem counted_of_advances (hr : c.state = .running) (h : advances n c = .ok () c') :
    c'.state = .running ∧ c'.cycles = c.cycles + n := by
  induction n generalizing c with
  | zero =>
    cases h
    exact ⟨hr, rfl⟩
  | succ n ih =>
    obtain ⟨p, c₁, ha, h⟩ := advances_succ_eq_ok h
    obtain ⟨hs, hn⟩ := ih (running_of_advance ha) h
    constructor
    · exact hs
    · rw [hn, cycles_of_advance ha]
      omega

end Advances

section Run

/-- Each turn counts one cycle, so there are as many as the limit leaves. -/
theorem advanceBelow_of_running (hr : c.state = .running) (limit : Nat) :
    advanceBelow limit c = advances (limit - c.cycles) c := by
  fun_induction advanceBelow limit c with
  | case1 c hb p c' ha ih =>
    have hn : limit - c.cycles = limit - c'.cycles + 1 := by
      rw [cycles_of_advance ha]
      omega
    rw [ih (running_of_advance ha), hn, advances_succ_of_ok ha]
  | case2 c hb e c' ha =>
    obtain ⟨n, hn⟩ := Nat.exists_eq_succ_of_ne_zero (Nat.sub_ne_zero_of_lt hb.2)
    rw [hn, advances_succ_of_error ha]
  | case3 c hb =>
    have hn : limit ≤ c.cycles := Nat.not_lt.mp fun h => hb ⟨hr, h⟩
    rw [Nat.sub_eq_zero_of_le hn]
    rfl

theorem run_of_running (hr : c.state = .running) (n : Nat) :
    run n c =
      (do advances (min n (cycleLimit - c.cycles))
          return min n (cycleLimit - c.cycles) : CpuM Nat) c := by
  rw [run, bind_get]
  have ha := advanceBelow_of_running hr (min (c.cycles + n) cycleLimit)
  have hm : min (c.cycles + n) cycleLimit - c.cycles = min n (cycleLimit - c.cycles) := by omega
  rw [hm] at ha
  cases h : advances (min n (cycleLimit - c.cycles)) c with
  | error e c' => rw [bind_of_error h, bind_of_error (ha.trans h)]
  | ok u c' =>
    obtain ⟨-, hn⟩ := counted_of_advances hr h
    rw [bind_of_ok h, bind_of_ok (ha.trans h), bind_get, hn, Nat.add_sub_cancel_left]

theorem run_of_stopped (hs : c.state ≠ .running) (n : Nat) : run n c = .ok 0 c := by
  rw [run, bind_get, bind_of_ok (advanceBelow_of_not fun h => hs h.1), bind_get, Nat.sub_self]
  rfl

theorem run_add (a b : Nat) :
    run (a + b) = do
      let x ← run a
      let y ← run b
      return x + y := by
  funext c
  by_cases hr : c.state = .running
  · have ha := run_of_running hr a
    have hn : min (a + b) (cycleLimit - c.cycles) = min a (cycleLimit - c.cycles) +
        min b (cycleLimit - c.cycles - min a (cycleLimit - c.cycles)) := by
      omega
    rw [run_of_running hr, hn, advances_add, bind_assoc]
    cases h : advances (min a (cycleLimit - c.cycles)) c with
    | error e c' =>
      rw [bind_of_error h] at ha ⊢
      rw [bind_of_error ha]
    | ok u c' =>
      obtain ⟨hr', hc⟩ := counted_of_advances hr h
      rw [bind_of_ok h] at ha ⊢
      rw [bind_of_ok ha, bind_congr_at (run_of_running hr' b), hc, Nat.sub_add_eq, bind_assoc]
      rfl
  · rw [run_of_stopped hr, bind_of_ok (run_of_stopped hr a), bind_of_ok (run_of_stopped hr b)]
    rfl

end Run

section Edges

def pulses : List Edge → CpuM Unit
  | [] => pure ()
  | edge :: edges => do
    discard (pulse edge)
    pulses edges

theorem pulse_rising (hr : c.state = .running) :
    discard (pulse .rising) c = discard advance c := by
  have hp : pulse .rising c = (some <$> advance) c := by
    simp only [pulse, if_pos hr]
    show EStateM.map _ _ _ = EStateM.map _ _ _
    simp only [EStateM.map, advance, if_pos hr]
  rw [discard_eq_bind, discard_eq_bind, bind_congr_at hp, map_eq_pure_bind, bind_assoc]
  simp only [pure_bind]

theorem pulse_falling (hr : c.state = .running) : discard (pulse .falling) c = .ok () c := by
  have hp : pulse .falling c = .ok none c := by simp only [pulse, if_pos hr]
  exact discard_of_ok hp

theorem pulses_eq_advances (hr : c.state = .running) (edges : List Edge) :
    pulses edges c = advances (edges.count .rising) c := by
  induction edges generalizing c with
  | nil => rfl
  | cons edge edges ih =>
    cases edge with
    | falling =>
      rw [pulses, bind_of_ok (pulse_falling hr), List.count_cons_of_ne (by decide), ih hr]
    | rising =>
      rw [pulses, bind_congr_at (pulse_rising hr), List.count_cons_self]
      exact discard_advance_bind (fun c' hr' => ih hr') c

end Edges

end Cpu

namespace Observer

variable {α : Type}

/-- After each cycle the observer asks the processor for the actions that `answer` gives, and
changes it in no other way. -/
def Asks (o : Observer α) (answer : Phase → Cpu → α → List Action) : Prop :=
  ∀ p c notes, (o p c notes).cpu = c.after (answer p c notes)

/-- What a number of cycles ask of the processor: each cycle and, unless it fails and is the last,
the answer to it. -/
def session (o : Observer α) (answer : Phase → Cpu → α → List Action) :
    Nat → Cpu → α → List Action
  | 0, _, _ => []
  | n + 1, c, notes =>
    .advance :: match c.advance with
      | .ok p c' => answer p c' notes ++ o.session answer n (o p c' notes).cpu (o p c' notes).notes
      | .error _ _ => []

end Observer

namespace ClockRun

def ofCpu (source : Option SignalSource) (c : Cpu) : ClockRun Unit :=
  ⟨c, false, source, ()⟩

variable {c c' : Cpu} {p : Phase} {e : MachineError} {source : Option SignalSource}

theorem cycle_of_ok (h : Cpu.advance c = .ok p c') :
    cycle Observer.idle (ofCpu source c) = .ok () (ofCpu source c') := by
  simp only [cycle, ofCpu, h]
  rfl

theorem cycle_of_error (h : Cpu.advance c = .error e c') :
    cycle Observer.idle (ofCpu source c) = .error e (ofCpu source c') := by
  simp only [cycle, ofCpu, h]

variable {pause k m budget : Nat}

theorem ending?_at_limit :
    (ofCpu source c).ending? ⟨.auto pause, some k⟩ k = some .cycleLimit := by
  simp [ending?, ofCpu]

theorem ending?_below_limit (hr : c.state = .running) :
    (ofCpu source c).ending? ⟨.auto pause, some (k + (m + 1))⟩ k = none := by
  simp [ending?, ofCpu, Cpu.isRunning, hr]

/-- With `m` cycles left below the limit, the clock takes these cycles and ends at the limit, unless
one of them fails. -/
theorem proceed_eq (hr : c.state = .running) (hb : m < budget) :
    proceed ⟨.auto pause, some (k + m)⟩ .idle k budget (ofCpu source c) =
      some (seen (ofCpu source)
        ((do Cpu.advances m; return ⟨k + m, .cycleLimit⟩ : CpuM RunSummary) c)) := by
  induction m generalizing c k budget with
  | zero =>
    obtain ⟨budget, rfl⟩ := Nat.exists_eq_succ_of_ne_zero (Nat.ne_of_gt hb)
    simp only [proceed, Nat.add_zero, ending?_at_limit]
    rfl
  | succ m ih =>
    obtain ⟨budget, rfl⟩ := Nat.exists_eq_succ_of_ne_zero (Nat.ne_of_gt (Nat.zero_lt_of_lt hb))
    simp only [proceed, ending?_below_limit hr, ask]
    cases ha : Cpu.advance c with
    | error e c' =>
      simp only [cycle_of_error ha, bind_of_error (Cpu.advances_succ_of_error ha), seen_error]
    | ok p c' =>
      have hm := Nat.lt_of_succ_lt_succ hb
      have hk : k + (m + 1) = k + 1 + m := by omega
      simp only [cycle_of_ok ha]
      rw [hk, ih (Cpu.running_of_advance ha) hm, bind_congr_at (Cpu.advances_succ_of_ok ha)]

section Observed

variable {α : Type} {o : Observer α} {config : ClockConfig} {r r' : ClockRun α}
  {answer : Phase → Cpu → α → List Action}

theorem ask_eq (r : ClockRun α) (config : ClockConfig) (ending : Option HaltReason) :
    (r.ask config ending).cpu = r.cpu ∧ (r.ask config ending).notes = r.notes := by
  unfold ask
  split <;> exact ⟨rfl, rfl⟩

theorem after_session_of_ok (ho : o.Asks answer) (h : cycle o r = .ok () r') (n : Nat) :
    r.cpu.after (o.session answer (n + 1) r.cpu r.notes) =
      r'.cpu.after (o.session answer n r'.cpu r'.notes) := by
  obtain ⟨c, stop, source, notes⟩ := r
  cases ha : c.advance with
  | error e c' =>
    simp only [cycle, ha] at h
    cases h
  | ok p c' =>
    simp only [cycle, ha] at h
    cases h
    simp only [Observer.session, Cpu.after_advance, ha, final_ok, ho p c' notes, Cpu.after_append]

theorem after_session_of_error (h : cycle o r = .error e r') (n : Nat) :
    r'.cpu = r.cpu.after (o.session answer (n + 1) r.cpu r.notes) := by
  obtain ⟨c, stop, source, notes⟩ := r
  cases ha : c.advance with
  | error e' c' =>
    simp only [cycle, ha] at h
    cases h
    simp only [Observer.session, Cpu.after_advance, ha, final_error]
    rfl
  | ok p c' =>
    simp only [cycle, ha] at h
    cases h

/-- The processor is asked for the cycles of the run, and in between for what the observer answers
to them. -/
theorem exists_session (ho : o.Asks answer) {cycles budget : Nat}
    {x : EStateM.Result MachineError (ClockRun α) RunSummary}
    (h : r.proceed config o cycles budget = some x) :
    ∃ n, (∀ s r', x = .ok s r' → s.cycles = cycles + n) ∧
      (final x).cpu = r.cpu.after (o.session answer n r.cpu r.notes) := by
  induction budget generalizing cycles r with
  | zero => cases h
  | succ budget ih =>
    unfold proceed at h
    obtain ⟨hc, hn⟩ := r.ask_eq config (r.ending? config cycles)
    cases he : r.ending? config cycles with
    | some reason =>
      simp only [he] at h hc
      cases h
      refine ⟨0, ?_, hc⟩
      rintro s r' ⟨⟩
      rfl
    | none =>
      simp only [he] at h hc hn
      rw [← hc, ← hn]
      cases hcycle : cycle o (r.ask config none) with
      | ok u r' =>
        simp only [hcycle] at h
        obtain ⟨n, hs, hf⟩ := ih h
        refine ⟨n + 1, fun s r' hx => ?_, hf.trans (after_session_of_ok ho hcycle n).symm⟩
        rw [hs s r' hx]
        omega
      | error e r' =>
        simp only [hcycle] at h
        cases h
        refine ⟨1, ?_, ?_⟩
        · rintro s r' ⟨⟩
        · exact after_session_of_error hcycle 0

end Observed

end ClockRun

namespace Cpu

section Instructions

variable {c c' : Cpu} {p : Phase} {n limit : Nat}

/-- A cycle that carries an instruction out, or skips it, and retires it. -/
structure Retires (c : Cpu) (r : Retired) (c' : Cpu) : Prop where
  phase : c.phase = .execute
  cycle : advance c = .ok .execute c'
  address : r.address = c.control.fetchedAt
  instruction : c.control.current = some r.instruction
  executed : r.instruction.condition.evaluate c.flags = .ok r.executed
  last : c'.control.retired = some r

def lastRetired : CpuM Retired := do
  match (← get).control.retired with
  | some r => return r
  | none => throw .nothingDecoded

theorem success_of_advance (h : advance c = .ok p c') :
    Machine.Success c.machine c'.machine.control p := by
  obtain ⟨-, m, ht, rfl⟩ := advance_eq_ok h
  exact Machine.success_of_tick_ok ht

theorem phase_of_advance (h : advance c = .ok p c') : p = c.phase ∧ c'.phase = c.phase.next := by
  show p = c.machine.control.phase ∧ c'.machine.control.phase = c.machine.control.phase.next
  cases success_of_advance h with
  | fetch1 hp hk | fetch2 hp hk | decode hp _ hk | execute hp _ _ hk =>
    rw [hp, hk]
    exact ⟨rfl, rfl⟩

theorem exists_retires (h : advance c = .ok .execute c') : ∃ r, Retires c r c' := by
  cases success_of_advance h with
  | execute hp hc he hk => exact ⟨⟨_, _, _⟩, hp, h, rfl, hc, he, congrArg Control.retired hk⟩

theorem index_of_advance (h : advance c = .ok p c') :
    c'.phase.index = (c.phase.index + 1) % 4 := by
  rw [(phase_of_advance h).2, Phase.index_next]

theorem index_of_advances (h : advances n c = .ok () c') :
    c'.phase.index = (c.phase.index + n) % 4 := by
  induction n generalizing c with
  | zero =>
    cases h
    exact (Nat.mod_eq_of_lt (Phase.index_lt _)).symm
  | succ n ih =>
    obtain ⟨p, c₁, ha, h⟩ := advances_succ_eq_ok h
    rw [ih h, index_of_advance ha]
    omega

theorem retires_of_advances (h : advances (4 - c.phase.index) c = .ok () c') :
    ∃ c₁ r, advances (3 - c.phase.index) c = .ok () c₁ ∧ Retires c₁ r c' := by
  have hi := c.phase.index_lt
  have hn : 4 - c.phase.index = (3 - c.phase.index) + 1 := by omega
  rw [hn, advances_add, bind_eq_ok] at h
  obtain ⟨u, c₁, h₁, h⟩ := h
  have hp : c₁.phase = .execute := by
    rw [← Phase.index_eq_three, index_of_advances h₁]
    omega
  obtain ⟨p, c₂, ha, ⟨⟩⟩ := advances_succ_eq_ok h
  obtain rfl : p = .execute := (phase_of_advance ha).1.trans hp
  obtain ⟨r, hr⟩ := exists_retires ha
  exact ⟨c₁, r, h₁, hr⟩

/-- A step takes the cycles that are left of the instruction, and then gives what was retired. Its
limit does not matter if these cycles are within it. -/
theorem advanceToExecute_eq (hl : 4 - c.phase.index ≤ limit) :
    advanceToExecute limit c =
      (do advances (4 - c.phase.index); lastRetired : CpuM Retired) c := by
  have hi := c.phase.index_lt
  induction limit generalizing c with
  | zero => omega
  | succ limit ih =>
    have hn : 4 - c.phase.index = (3 - c.phase.index) + 1 := by omega
    rw [hn]
    cases ha : advance c with
    | error e c' => rw [advanceToExecute_of_error ha, bind_of_error (advances_succ_of_error ha)]
    | ok p c' =>
      obtain ⟨rfl, -⟩ := phase_of_advance ha
      rw [bind_congr_at (advances_succ_of_ok ha)]
      by_cases hp : c.phase = .execute
      · have hk : 3 - c.phase.index = 0 := by rw [hp]; rfl
        rw [hk, advanceToExecute, bind_of_ok ha, if_pos hp]
        rfl
      · have hne : c.phase.index ≠ 3 := mt Phase.index_eq_three.mp hp
        have hi' := index_of_advance ha
        have hk : 3 - c.phase.index = 4 - c'.phase.index := by omega
        rw [hk, advanceToExecute_of_ok ha hp, ih (by omega) (by omega)]

theorem discard_stepInstruction (c : Cpu) :
    discard stepInstruction c = advances (4 - c.phase.index) c := by
  have hs : stepInstruction c = _ := advanceToExecute_eq (Nat.sub_le 4 c.phase.index)
  cases h : advances (4 - c.phase.index) c with
  | error e c' => exact discard_of_error (hs.trans (bind_of_error h))
  | ok u c' =>
    obtain ⟨c₁, r, -, hr⟩ := retires_of_advances h
    have hl : lastRetired c' = .ok r c' := by
      rw [lastRetired, bind_get, hr.last]
      rfl
    exact discard_of_ok (hs.trans ((bind_of_ok h).trans hl))

theorem retires_of_stepInstruction {r : Retired} (h : stepInstruction c = .ok r c') :
    ∃ c₁, advances (3 - c.phase.index) c = .ok () c₁ ∧ Retires c₁ r c' := by
  rw [stepInstruction, advanceToExecute_eq (Nat.sub_le 4 c.phase.index), bind_eq_ok] at h
  obtain ⟨u, c₂, h, hl⟩ := h
  obtain ⟨c₁, r', h₁, hr⟩ := retires_of_advances h
  rw [lastRetired, bind_get, hr.last] at hl
  cases hl
  exact ⟨c₁, h₁, hr⟩

end Instructions

/-- All drivers take the same cycles. For a running processor whose count of cycles has room for `n`
more, a run of `n` cycles, `n` rising edges with falling ones anywhere, and a clock that ends after
`n` cycles leave what `n` cycles up to the first that fails leave, with the same error. Runs add up.
A step is as many cycles as are left of the instruction, however many more it might take, and gives
the instruction that the last of them retires. -/
theorem drivers_agree :
    (∀ c : Cpu, c.state = .running → ∀ n, c.cycles + n ≤ cycleLimit →
      run n c = (do advances n; return n : CpuM Nat) c ∧
      (∀ edges : List Edge, edges.count .rising = n → pulses edges c = advances n c) ∧
      ∀ pause source budget, n < budget →
        ClockRun.run ⟨.auto pause, some n⟩ .idle budget (.ofCpu source c) =
          some (seen (.ofCpu source)
            ((do advances n; return ⟨n, .cycleLimit⟩ : CpuM RunSummary) c))) ∧
    (∀ a b, run (a + b) = do
      let x ← run a
      let y ← run b
      return x + y) ∧
    ∀ c : Cpu,
      discard stepInstruction c = advances (4 - c.phase.index) c ∧
      (∀ limit, 4 - c.phase.index ≤ limit → advanceToExecute limit c = stepInstruction c) ∧
      ∀ r c', stepInstruction c = .ok r c' →
        ∃ c₁, advances (3 - c.phase.index) c = .ok () c₁ ∧ Retires c₁ r c' := by
  refine ⟨fun c hr n hn => ⟨?_, ?_, ?_⟩, run_add, fun c => ⟨?_, ?_, ?_⟩⟩
  · have hm : min n (cycleLimit - c.cycles) = n := by omega
    rw [run_of_running hr, hm]
  · rintro edges rfl
    exact pulses_eq_advances hr edges
  · intro pause source budget hb
    have h : ClockRun.proceed ⟨.auto pause, some (0 + n)⟩ .idle 0 budget (.ofCpu source c) = _ :=
      ClockRun.proceed_eq hr hb
    rwa [Nat.zero_add] at h
  · exact discard_stepInstruction c
  · intro limit hl
    rw [stepInstruction, advanceToExecute_eq hl, advanceToExecute_eq (Nat.sub_le 4 c.phase.index)]
  · intro r c' h
    exact retires_of_stepInstruction h

/-- The first instruction of the program retires, and the last phase of the second one fails. -/
theorem drivers_agree_subtractor :
    let edges := (List.replicate 9 [Edge.rising, .falling]).flatten
    subtractor.state = .running ∧ subtractor.cycles + 9 ≤ cycleLimit ∧ edges.count .rising = 9 ∧
      run 9 subtractor = (do advances 9; return 9 : CpuM Nat) subtractor ∧
      pulses edges subtractor = advances 9 subtractor ∧
      ClockRun.run ⟨.auto 0, some 9⟩ .idle 10 (.ofCpu none subtractor) =
        some (seen (.ofCpu none)
          ((do advances 9; return ⟨9, .cycleLimit⟩ : CpuM RunSummary) subtractor)) ∧
      (final (advances 9 subtractor)).state = .faulted ∧
      (final (advances 9 subtractor)).cycles = 7 ∧
      4 - subtractor.phase.index ≤ 6 ∧ advanceToExecute 6 subtractor = stepInstruction subtractor ∧
      ∃ r c₁ c', stepInstruction subtractor = .ok r c' ∧
        advances (3 - subtractor.phase.index) subtractor = .ok () c₁ ∧ Retires c₁ r c' := by
  intro edges
  have hr : subtractor.state = .running := by decide +kernel
  have hn : subtractor.cycles + 9 ≤ cycleLimit := by decide +kernel
  have he : edges.count .rising = 9 := by decide
  have hl : 4 - subtractor.phase.index ≤ 6 := by decide +kernel
  obtain ⟨hruns, -, hsteps⟩ := drivers_agree
  obtain ⟨hrun, hpulses, hclock⟩ := hruns subtractor hr 9 hn
  obtain ⟨-, hlimit, hlast⟩ := hsteps subtractor
  refine ⟨hr, hn, he, hrun, hpulses edges he, hclock 0 none 10 (by decide), by decide +kernel,
    by decide +kernel, hl, hlimit 6 hl, ?_⟩
  have hs : (reached (stepInstruction subtractor)).isSome = true := by decide +kernel
  cases h : stepInstruction subtractor with
  | error e c' =>
    rw [h] at hs
    cases hs
  | ok r c' =>
    obtain ⟨c₁, h₁, hr⟩ := hlast r c' h
    exact ⟨r, c₁, c', rfl, h₁, hr⟩

end Cpu

end X25
