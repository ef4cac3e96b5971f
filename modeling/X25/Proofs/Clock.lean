import X25.Proofs.Machine.Drivers

/-! # Runs of the clock

Before every cycle a run may end for one of four reasons, the first of which counts; otherwise it
takes an answer if it waits for signals, runs the cycle, and shows it to the observer once. So what
a run has done is a list of the cycles that the observer was shown, and how it is over is told by
what holds after the last of them. The budget only bounds how far the run is followed.
-/

namespace X25

open Effect

namespace SignalSource

def takeMany (n : Nat) (s : SignalSource) : SignalSource :=
  ⟨s.remaining - n, s.taken + n⟩

theorem takeMany_takeMany (m n : Nat) (s : SignalSource) :
    (s.takeMany m).takeMany n = s.takeMany (m + n) := by
  simp only [takeMany]
  congr 1 <;> omega

end SignalSource

/-- The source once a number of answers have been waited for, one before each cycle. A clock that
runs by itself waits for none. -/
def ClockMode.sourceAfter (n : Nat) (source : Option SignalSource) :
    ClockMode → Option SignalSource
  | .auto _ => source
  | .manual => source.map (·.takeMany n)

namespace ClockMode

@[simp] theorem sourceAfter_zero (source : Option SignalSource) (m : ClockMode) :
    m.sourceAfter 0 source = source := by
  cases m with
  | auto pause => rfl
  | manual => exact Option.map_id'

theorem sourceAfter_add (i j : Nat) (source : Option SignalSource) (m : ClockMode) :
    m.sourceAfter j (m.sourceAfter i source) = m.sourceAfter (i + j) source := by
  cases m with
  | auto pause => rfl
  | manual => simp only [sourceAfter, Option.map_map, Function.comp_def,
      SignalSource.takeMany_takeMany]

end ClockMode

/-- Cycles with a call of the observer after each: what they leave, if none of them fails. -/
def Observer.alternate {α : Type} (o : Observer α) : Nat → Cpu → α → Option (Cpu × α)
  | 0, c, notes => some (c, notes)
  | n + 1, c, notes =>
    match c.advance with
    | .ok p c' => o.alternate n (o p c' notes).cpu (o p c' notes).notes
    | .error _ _ => none

theorem Observer.count_of_alternate {α : Type} {o : Observer α} {count : α → Nat}
    (hc : ∀ p c notes, count (o p c notes).notes = count notes + 1) {n : Nat} {c c' : Cpu}
    {notes notes' : α} (h : o.alternate n c notes = some (c', notes')) :
    count notes' = count notes + n := by
  induction n generalizing c notes with
  | zero =>
    cases h
    rfl
  | succ n ih =>
    simp only [alternate] at h
    split at h
    · rw [ih h, hc, Nat.add_assoc, Nat.add_comm 1]
    · cases h

namespace ClockRun

variable {α : Type}

def IsClosed (r : ClockRun α) : Prop :=
  ∀ s, r.source = some s → s.remaining = 0

def HasRoom (config : ClockConfig) (cycles : Nat) : Prop :=
  ∀ most, config.limit = some most → cycles < most

/-- Why a run ends before the next cycle: the first of four reasons that applies. -/
inductive EndsFor (config : ClockConfig) (cycles : Nat) (r : ClockRun α) : HaltReason → Prop
  | stopped (hs : r.stopRequested = true) : EndsFor config cycles r .stopped
  | cycleLimit {most : Nat} (hs : r.stopRequested = false) (hl : config.limit = some most)
      (hn : most ≤ cycles) : EndsFor config cycles r .cycleLimit
  | cpuHalted (hs : r.stopRequested = false) (hl : HasRoom config cycles)
      (hr : r.cpu.state ≠ .running) : EndsFor config cycles r .cpuHalted
  | signalClosed (hs : r.stopRequested = false) (hl : HasRoom config cycles)
      (hr : r.cpu.state = .running) (hm : config.mode = .manual) (hc : r.IsClosed) :
      EndsFor config cycles r .signalClosed

/-- None of the four reasons applies. -/
structure GoesOn (config : ClockConfig) (cycles : Nat) (r : ClockRun α) : Prop where
  notStopped : r.stopRequested = false
  room : HasRoom config cycles
  running : r.cpu.state = .running
  signalled : config.mode = .manual → ∃ s, r.source = some s ∧ s.remaining ≠ 0

def answered (config : ClockConfig) (r : ClockRun α) : ClockRun α :=
  { r with source := config.mode.sourceAfter 1 r.source }

/-- A cycle as the observer is shown it: the phase that ran, and the processor after it. -/
structure Showing where
  phase : Phase
  cpu : Cpu

def observed (config : ClockConfig) (o : Observer α) (r : ClockRun α) (s : Showing) : ClockRun α :=
  let answer := o s.phase s.cpu r.notes
  ⟨answer.cpu, r.stopRequested || answer.stop, (r.answered config).source, answer.notes⟩

/-- After a number of cycles, a run goes on with cycles that the observer is shown. -/
inductive Runs (config : ClockConfig) (o : Observer α) :
    Nat → ClockRun α → List Showing → ClockRun α → Prop
  | done (cycles : Nat) (r : ClockRun α) : Runs config o cycles r [] r
  | cycle {cycles : Nat} {r r' : ClockRun α} {s : Showing} {shown : List Showing}
      (hg : GoesOn config cycles r) (ha : r.cpu.advance = .ok s.phase s.cpu)
      (h : Runs config o (cycles + 1) (r.observed config o s) shown r') :
      Runs config o cycles r (s :: shown) r'

/-- How a run is over after a number of cycles: for a reason, or with a cycle that fails. -/
inductive IsOver (config : ClockConfig) (cycles : Nat) (r : ClockRun α) :
    EStateM.Result MachineError (ClockRun α) RunSummary → Prop
  | ends {reason : HaltReason} (h : EndsFor config cycles r reason) :
      IsOver config cycles r
        (.ok ⟨cycles, reason⟩ (if reason = .signalClosed then r.answered config else r))
  | fails {e : MachineError} {c : Cpu} (hg : GoesOn config cycles r)
      (ha : r.cpu.advance = .error e c) :
      IsOver config cycles r (.error e { r.answered config with cpu := c })

section Ending

variable {config : ClockConfig} {cycles : Nat} {r : ClockRun α} {reason : HaltReason}

theorem goesOn_or_endsFor (config : ClockConfig) (cycles : Nat) (r : ClockRun α) :
    GoesOn config cycles r ∨ ∃ reason, EndsFor config cycles r reason := by
  cases hs : r.stopRequested
  case true => exact .inr ⟨_, .stopped hs⟩
  by_cases hl : HasRoom config cycles
  case neg =>
    simp only [HasRoom, not_forall, Nat.not_lt] at hl
    obtain ⟨most, hm, hn⟩ := hl
    exact .inr ⟨_, .cycleLimit hs hm hn⟩
  by_cases hr : r.cpu.state = .running
  case neg => exact .inr ⟨_, .cpuHalted hs hl hr⟩
  by_cases hc : config.mode = .manual ∧ r.IsClosed
  · exact .inr ⟨_, .signalClosed hs hl hr hc.1 hc.2⟩
  · refine .inl ⟨hs, hl, hr, fun hm => ?_⟩
    simpa only [hm, true_and, IsClosed, not_forall, exists_prop] using hc

theorem any_limit_eq_false (h : HasRoom config cycles) :
    config.limit.any (· ≤ cycles) = false := by
  cases hl : config.limit with
  | none => rfl
  | some most => exact decide_eq_false (Nat.not_le.mpr (h most hl))

theorem ending?_of_endsFor (h : EndsFor config cycles r reason) :
    r.ending? config cycles = some reason := by
  cases h with
  | stopped hs => simp [ending?, hs]
  | cycleLimit hs hl hn => simp [ending?, hs, hl, hn]
  | cpuHalted hs hl hr => simp [ending?, hs, any_limit_eq_false hl, Cpu.isRunning, hr]
  | signalClosed hs hl hr hm hc =>
    have ho : r.source.any (·.isOpen) = false := by
      cases hsrc : r.source with
      | none => rfl
      | some s => simp [SignalSource.isOpen, hc s hsrc]
    simp [ending?, hs, any_limit_eq_false hl, Cpu.isRunning, hr, hm, ho]

theorem ending?_of_goesOn (h : GoesOn config cycles r) : r.ending? config cycles = none := by
  obtain ⟨hs, hl, hr, hm⟩ := h
  cases hmode : config.mode with
  | auto pause => simp [ending?, hs, any_limit_eq_false hl, Cpu.isRunning, hr, hmode]
  | manual =>
    obtain ⟨s, hsrc, hn⟩ := hm hmode
    simp [ending?, hs, any_limit_eq_false hl, Cpu.isRunning, hr, hmode, hsrc, SignalSource.isOpen,
      hn]

theorem ask_none (config : ClockConfig) (r : ClockRun α) :
    r.ask config none = r.answered config := by
  cases hm : config.mode <;> simp only [ask, answered, hm] <;> rfl

theorem ask_of_endsFor (h : EndsFor config cycles r reason) :
    r.ask config (some reason) =
      if reason = .signalClosed then r.answered config else r := by
  cases h with
  | signalClosed hs hl hr hm hc =>
    -- the only reason that is found by asking, so its answer is taken
    simp only [ask, answered, hm, ↓reduceIte]
    rfl
  | stopped | cycleLimit | cpuHalted =>
    cases hm : config.mode <;> simp only [ask, hm, reduceCtorEq, ↓reduceIte]

end Ending

section Steps

variable {config : ClockConfig} {o : Observer α} {cycles : Nat} {r : ClockRun α}
  {r' : ClockRun α} {shown : List Showing} {x : EStateM.Result MachineError (ClockRun α) RunSummary}

theorem proceed_of_endsFor {reason : HaltReason} (h : EndsFor config cycles r reason)
    (budget : Nat) :
    r.proceed config o cycles (budget + 1) =
      some (.ok ⟨cycles, reason⟩ (if reason = .signalClosed then r.answered config else r)) := by
  simp only [proceed, ending?_of_endsFor h, ask_of_endsFor h]

theorem proceed_of_ok {s : Showing} (hg : GoesOn config cycles r)
    (ha : r.cpu.advance = .ok s.phase s.cpu) (budget : Nat) :
    r.proceed config o cycles (budget + 1) =
      (r.observed config o s).proceed config o (cycles + 1) budget := by
  simp only [proceed, ending?_of_goesOn hg, ask_none, cycle, answered, ha, observed]

theorem proceed_of_error {e : MachineError} {c : Cpu} (hg : GoesOn config cycles r)
    (ha : r.cpu.advance = .error e c) (budget : Nat) :
    r.proceed config o cycles (budget + 1) =
      some (.error e { r.answered config with cpu := c }) := by
  simp only [proceed, ending?_of_goesOn hg, ask_none, cycle, answered, ha]

theorem proceed_of_isOver (h : IsOver config cycles r x) (budget : Nat) :
    r.proceed config o cycles (budget + 1) = some x := by
  cases h with
  | ends he => exact proceed_of_endsFor he budget
  | fails hg ha => exact proceed_of_error hg ha budget

/-- The cycles that a run has done are taken off its budget. -/
theorem proceed_of_runs (h : Runs config o cycles r shown r') (budget : Nat) :
    r.proceed config o cycles (shown.length + budget) =
      r'.proceed config o (cycles + shown.length) budget := by
  induction h with
  | done cycles r => rw [List.length_nil, Nat.zero_add, Nat.add_zero]
  | @cycle cycles r r' s shown hg ha h ih =>
    rw [List.length_cons, Nat.add_right_comm, proceed_of_ok hg ha, ih, Nat.add_right_comm,
      Nat.add_assoc]

theorem exists_runs (config : ClockConfig) (o : Observer α) (cycles budget : Nat)
    (r : ClockRun α) :
    ∃ shown r', Runs config o cycles r shown r' ∧
      (shown.length = budget ∨
        shown.length < budget ∧ ∃ x, IsOver config (cycles + shown.length) r' x) := by
  induction budget generalizing cycles r with
  | zero => exact ⟨[], r, .done cycles r, .inl rfl⟩
  | succ budget ih =>
    -- over before its next cycle, or with it
    have hnow {x} (hx : IsOver config cycles r x) :
        ∃ shown r', Runs config o cycles r shown r' ∧
          (shown.length = budget + 1 ∨
            shown.length < budget + 1 ∧ ∃ x, IsOver config (cycles + shown.length) r' x) :=
      ⟨[], r, .done cycles r, .inr ⟨Nat.succ_pos budget, x, hx⟩⟩
    obtain hg | ⟨reason, he⟩ := goesOn_or_endsFor config cycles r
    · cases ha : r.cpu.advance with
      | error e c => exact hnow (.fails hg ha)
      | ok p c =>
        obtain ⟨shown, r', hr, hl⟩ := ih (cycles + 1) (r.observed config o ⟨p, c⟩)
        refine ⟨⟨p, c⟩ :: shown, r', .cycle hg ha hr, ?_⟩
        rw [List.length_cons, Nat.add_comm shown.length, ← Nat.add_assoc]
        exact hl.imp (by omega) (And.imp_left (by omega))
    · exact hnow (.ends he)

/-- A run is over within a budget exactly if fewer cycles lead to where it is over. -/
theorem proceed_eq_some_iff (cycles budget : Nat) :
    r.proceed config o cycles budget = some x ↔
      ∃ shown r', Runs config o cycles r shown r' ∧ shown.length < budget ∧
        IsOver config (cycles + shown.length) r' x := by
  constructor
  · intro h
    obtain ⟨shown, r', hr, rfl | ⟨hl, y, hy⟩⟩ := exists_runs config o cycles budget r
    · cases h.symm.trans (proceed_of_runs hr 0)
    · obtain ⟨budget, rfl⟩ := Nat.exists_eq_add_of_lt hl
      have hx := (proceed_of_runs hr (budget + 1)).trans (proceed_of_isOver hy budget)
      cases h.symm.trans hx
      exact ⟨shown, r', hr, hl, hy⟩
  · rintro ⟨shown, r', hr, hl, hx⟩
    obtain ⟨budget, rfl⟩ := Nat.exists_eq_add_of_lt hl
    exact (proceed_of_runs hr (budget + 1)).trans (proceed_of_isOver hx budget)

theorem proceed_eq_none_iff (cycles budget : Nat) :
    r.proceed config o cycles budget = none ↔
      ∃ shown r', Runs config o cycles r shown r' ∧ shown.length = budget := by
  constructor
  · intro h
    obtain ⟨shown, r', hr, hl | ⟨hl, y, hy⟩⟩ := exists_runs config o cycles budget r
    · exact ⟨shown, r', hr, hl⟩
    · cases h.symm.trans ((proceed_eq_some_iff cycles budget).mpr ⟨shown, r', hr, hl, hy⟩)
  · rintro ⟨shown, r', hr, rfl⟩
    exact proceed_of_runs hr 0

end Steps

section Course

variable {config : ClockConfig} {o : Observer α} {cycles : Nat} {r r' : ClockRun α}
  {shown : List Showing}

theorem length_le_of_runs (h : Runs config o cycles r shown r') {most : Nat}
    (hl : config.limit = some most) (hc : cycles ≤ most) : cycles + shown.length ≤ most := by
  induction h with
  | done cycles r => exact hc
  | @cycle cycles r r' s shown hg ha h ih =>
    have := ih (hg.room most hl)
    rw [List.length_cons]
    omega

theorem source_of_runs (h : Runs config o cycles r shown r') :
    r'.source = config.mode.sourceAfter shown.length r.source := by
  induction h with
  | done cycles r => exact (ClockMode.sourceAfter_zero _ _).symm
  | @cycle cycles r r' s shown hg ha h ih =>
    rw [ih, List.length_cons, Nat.add_comm]
    exact ClockMode.sourceAfter_add _ _ _ _

theorem alternate_of_runs (h : Runs config o cycles r shown r') :
    o.alternate shown.length r.cpu r.notes = some (r'.cpu, r'.notes) := by
  induction h with
  | done cycles r => rfl
  | cycle hg ha h ih =>
    simp only [List.length_cons, Observer.alternate, ha]
    exact ih

theorem endsFor_answered (h : EndsFor config cycles r .signalClosed) :
    EndsFor config cycles (r.answered config) .signalClosed := by
  cases h with
  | signalClosed hs hl hr hm hc =>
    refine .signalClosed hs hl hr hm fun s h => ?_
    simp only [answered, hm, ClockMode.sourceAfter, Option.map_eq_some_iff] at h
    obtain ⟨s, hsrc, rfl⟩ := h
    simp only [SignalSource.takeMany, hc s hsrc]

end Course

/-- The clock stops at the right cycle for the right reason. -/
theorem run_ends_at_first_reason (config : ClockConfig) (o : Observer α) (r : ClockRun α) :
    (∀ budget x, r.run config o budget = some x ↔
      ∃ shown r', Runs config o 0 r shown r' ∧ shown.length < budget ∧
        IsOver config shown.length r' x) ∧
    (∀ budget, r.run config o budget = none ↔
      ∃ shown r', Runs config o 0 r shown r' ∧ shown.length = budget) ∧
    (∀ most, config.limit = some most → ∀ budget, most < budget →
      ∃ x, r.run config o budget = some x) ∧
    (∀ budget n reason r', r.run config o budget = some (.ok ⟨n, reason⟩ r') →
      EndsFor config n r' reason ∧
      (∀ most, config.limit = some most → n ≤ most) ∧
      o.alternate n r.cpu r.notes = some (r'.cpu, r'.notes) ∧
      (∀ count : α → Nat, (∀ p c notes, count (o p c notes).notes = count notes + 1) →
        count r'.notes = count r.notes + n) ∧
      r'.source =
        config.mode.sourceAfter (if reason = .signalClosed then n + 1 else n) r.source) ∧
    ∀ budget e r', r.run config o budget = some (.error e r') →
      ∃ n c, (∀ most, config.limit = some most → n < most) ∧
        o.alternate n r.cpu r.notes = some (c, r'.notes) ∧
        c.advance = .error e r'.cpu ∧ r'.cpu.state = .faulted ∧
        r'.source = config.mode.sourceAfter (n + 1) r.source := by
  have hsome budget {x} : r.run config o budget = some x ↔
      ∃ shown r', Runs config o 0 r shown r' ∧ shown.length < budget ∧
        IsOver config shown.length r' x := by
    simpa only [run, Nat.zero_add] using proceed_eq_some_iff 0 budget
  refine ⟨fun budget _ => hsome budget, proceed_eq_none_iff 0, ?_, ?_, ?_⟩
  · intro most hl budget hb
    cases hx : r.run config o budget with
    | some x => exact ⟨x, rfl⟩
    | none =>
      obtain ⟨shown, r', hr, rfl⟩ := (proceed_eq_none_iff 0 budget).mp hx
      have := length_le_of_runs hr hl (Nat.zero_le most)
      omega
  · intro budget n reason r' h
    obtain ⟨shown, r₁, hr, -, hx⟩ := (hsome budget).mp h
    have ha := alternate_of_runs hr
    have hs := source_of_runs hr
    have hl most (hl : config.limit = some most) : shown.length ≤ most := by
      simpa only [Nat.zero_add] using length_le_of_runs hr hl (Nat.zero_le most)
    cases hx with
    | ends he =>
      by_cases hc : reason = .signalClosed
      · subst hc
        refine ⟨endsFor_answered he, hl, ha, fun count hcount => o.count_of_alternate hcount ha, ?_⟩
        simp only [↓reduceIte, answered, hs, ClockMode.sourceAfter_add]
      · simp only [if_neg hc]
        exact ⟨he, hl, ha, fun count hcount => o.count_of_alternate hcount ha, hs⟩
  · intro budget e r' h
    obtain ⟨shown, r₁, hr, -, hx⟩ := (hsome budget).mp h
    cases hx with
    | fails hg hadv =>
      refine ⟨shown.length, r₁.cpu, hg.room, alternate_of_runs hr, hadv, ?_, ?_⟩
      · exact (Cpu.faulted_of_advance hg.running hadv).1
      · simp only [answered, source_of_runs hr, ClockMode.sourceAfter_add]

/-- The observer halts the processor after the third cycle, so the two signals that are left are not
asked for. -/
theorem run_ends_at_halt :
    let o : Observer (List Phase) := fun p c notes =>
      ⟨if p = .decode then c.halt else c, false, p :: notes⟩
    ∃ r', run ⟨.manual, none⟩ o 4 ⟨Cpu.subtractor, false, some (.ofCount 5), []⟩ =
        some (.ok ⟨3, .cpuHalted⟩ r') ∧
      EndsFor ⟨.manual, none⟩ 3 r' .cpuHalted ∧
      o.alternate 3 Cpu.subtractor [] = some (r'.cpu, r'.notes) ∧
      (∀ p c notes, (o p c notes).notes.length = notes.length + 1) ∧ r'.notes.length = 3 ∧
      r'.source = some ⟨2, 3⟩ := by
  intro o
  have hs : (run ⟨.manual, none⟩ o 4 ⟨Cpu.subtractor, false, some (.ofCount 5), []⟩).map answer =
      some (.ok ⟨3, .cpuHalted⟩) := by
    decide +kernel
  have hc p c notes : (o p c notes).notes.length = notes.length + 1 := rfl
  obtain ⟨-, -, -, hok, -⟩ := run_ends_at_first_reason ⟨.manual, none⟩ o
    ⟨Cpu.subtractor, false, some (.ofCount 5), []⟩
  obtain ⟨x, hx, ha⟩ := Option.map_eq_some_iff.mp hs
  cases x with
  | error e r' => cases ha
  | ok summary r' =>
    cases ha
    obtain ⟨he, -, halt, hcount, hsrc⟩ := hok 4 3 .cpuHalted r' hx
    exact ⟨r', hx, he, halt, hc, hcount List.length hc, hsrc⟩

end ClockRun

end X25
