import X25.Proofs.Isa.Codec
import X25.Proofs.Machine.Cycle

/-! # Faults

All that can make an instruction fail, in the order in which the machine meets it, told from what a
program sees before the fetch. A step fails if and only if there is such a fault; it reports the
first one, counts the cycles before it, and leaves the processor faulted.
-/

namespace X25

open Effect

theorem Condition.evaluate_eq_error {c : Condition} {f : Flags} {e : DecodeError} :
    c.evaluate f = .error e ↔ (c = .eq ∨ c = .ne) ∧ e = .unmappedCondition c := by
  cases c <;> simp [evaluate, eq_comm]

namespace Architecture

variable (s : Architecture)

def address? : Instruction → Option Word
  | .register .loadr _ _ r _ | .register .storr _ _ r _ => some (s.registers r)
  | .immediate .load _ _ _ v | .immediate .store _ _ _ v => some v
  | _ => none

/-- What makes an instruction fail, at its place in the order, with the error that tells of it. -/
inductive Fault : Nat → MachineError → Prop
  | first (h : s.memory.get? s.pc = none) : Fault 0 (.address ⟨s.pc⟩)
  | second (h : s.memory.get? (s.pc + 1) = none) : Fault 1 (.address ⟨s.pc + 1⟩)
  | undecodable {p : WordPair} {e : DecodeError} (hp : s.fetch? = some p)
      (h : Instruction.decode p = .error e) : Fault 2 (.decode e)
  | unmapped {i : Instruction} (hi : s.instruction? = some i)
      (h : i.condition = .eq ∨ i.condition = .ne) :
      Fault 3 (.decode (.unmappedCondition i.condition))
  | unimplemented {i : Instruction} (hi : s.instruction? = some i)
      (hc : i.condition.evaluate s.flags = .ok true) (h : i.opcode.isImplemented = false) :
      Fault 4 (.unimplemented i.opcode)
  | address {p : WordPair} {i : Instruction} {a : Word} (hp : s.fetch? = some p)
      (hi : Instruction.decode p = .ok i) (hc : i.condition.evaluate s.flags = .ok true)
      (ha : (s.fetched p).address? i = some a) (h : s.memory.get? a = none) : Fault 5 (.address ⟨a⟩)
  | constant {i : Instruction} {d : Register} (hi : s.instruction? = some i)
      (hc : i.condition.evaluate s.flags = .ok true) (hd : i.target? = some d)
      (h : d.isConstant = true) : Fault 6 (.fabric (.access ⟨.register d⟩))

def ClearBefore (k : Nat) : Prop :=
  ∀ j < k, ∀ e, ¬ s.Fault j e

variable {s} {p : WordPair} {i : Instruction} {k : Nat} {e : MachineError}

theorem Fault.lt_seven (h : s.Fault k e) : k < 7 := by
  cases h <;> decide

theorem clearBefore_zero : s.ClearBefore 0 :=
  fun _ h => absurd h (Nat.not_lt_zero _)

theorem ClearBefore.succ (h : s.ClearBefore k) (hk : ∀ e, ¬ s.Fault k e) :
    s.ClearBefore (k + 1) := by
  intro j hj
  obtain hj | rfl := Nat.lt_succ_iff_lt_or_eq.mp hj
  · exact h j hj
  · exact hk

theorem instruction?_eq_some :
    s.instruction? = some i ↔ ∃ p, s.fetch? = some p ∧ Instruction.decode p = .ok i := by
  rw [instruction?]
  cases s.fetch? with
  | none => simp
  | some p =>
    show (Instruction.decode p).toOption = some i ↔ _
    cases hd : Instruction.decode p <;> simp [Except.toOption, hd]

theorem clearBefore_of_fetch (hp : s.fetch? = some p) : s.ClearBefore 2 := by
  obtain ⟨h₁, h₂⟩ := fetch?_eq_some.mp hp
  refine (clearBefore_zero.succ fun e h => ?_).succ fun e h => ?_
  · cases h with
    | first h => cases h₁.symm.trans h
  · cases h with
    | second h => cases h₂.symm.trans h

theorem clearBefore_of_decode (hp : s.fetch? = some p) (hd : Instruction.decode p = .ok i) :
    s.ClearBefore 3 := by
  refine (clearBefore_of_fetch hp).succ fun e h => ?_
  cases h with
  | undecodable hp' h =>
    cases hp.symm.trans hp'
    cases hd.symm.trans h

theorem ClearBefore.past_unmapped (hk : s.ClearBefore 3) (hi : s.instruction? = some i)
    (h : ¬ (i.condition = .eq ∨ i.condition = .ne)) : s.ClearBefore 4 := by
  refine hk.succ fun e hf => ?_
  cases hf with
  | unmapped hi' h' =>
    cases hi.symm.trans hi'
    exact h h'

theorem ClearBefore.past_unimplemented (hk : s.ClearBefore 4) (hi : s.instruction? = some i)
    (h : i.condition.evaluate s.flags = .ok true → i.opcode.isImplemented = true) :
    s.ClearBefore 5 := by
  refine hk.succ fun e hf => ?_
  cases hf with
  | unimplemented hi' hc h' =>
    cases hi.symm.trans hi'
    cases (h hc).symm.trans h'

theorem ClearBefore.past_address (hk : s.ClearBefore 5) (hp : s.fetch? = some p)
    (hd : Instruction.decode p = .ok i)
    (h : i.condition.evaluate s.flags = .ok true →
      ∀ a, (s.fetched p).address? i = some a → s.memory.get? a ≠ none) : s.ClearBefore 6 := by
  refine hk.succ fun e hf => ?_
  cases hf with
  | address hp' hd' hc ha h' =>
    cases hp.symm.trans hp'
    cases hd.symm.trans hd'
    exact h hc _ ha h'

theorem ClearBefore.past_constant (hk : s.ClearBefore 6) (hi : s.instruction? = some i)
    (h : i.condition.evaluate s.flags = .ok true →
      ∀ d, i.target? = some d → d.isConstant = false) : s.ClearBefore 7 := by
  refine hk.succ fun e hf => ?_
  cases hf with
  | constant hi' hc hd h' =>
    cases hi.symm.trans hi'
    cases (h hc _ hd).symm.trans h'

theorem clearBefore_of_skipped (hp : s.fetch? = some p) (hd : Instruction.decode p = .ok i)
    (he : i.condition.evaluate s.flags = .ok false) : s.ClearBefore 7 := by
  have hi : s.instruction? = some i := instruction?_eq_some.mpr ⟨p, hp, hd⟩
  have hf : i.condition.evaluate s.flags ≠ .ok true := fun h => by cases he.symm.trans h
  have hk : s.ClearBefore 4 := (clearBefore_of_decode hp hd).past_unmapped hi fun h => by
    cases he.symm.trans (Condition.evaluate_eq_error.mpr ⟨h, rfl⟩)
  have hk := hk.past_unimplemented hi fun h => absurd h hf
  have hk := hk.past_address hp hd fun h => absurd h hf
  exact hk.past_constant hi fun h => absurd h hf

theorem not_fault_of_skipped (hi : s.instruction? = some i)
    (he : i.condition.evaluate s.flags = .ok false) : ¬ s.Fault k e := by
  obtain ⟨p, hp, hd⟩ := instruction?_eq_some.mp hi
  exact fun h => clearBefore_of_skipped hp hd he k h.lt_seven e h

end Architecture

namespace Task

def address? (s : Architecture) : Task → Option Word
  | load _ r | store _ r => some (s.registers r)
  | _ => none

def target? : Task → Option Register
  | compute _ d _ | load d _ => some d
  | _ => none

/-- Why a task can fail while the memory is open: its address has no word, or else its result is
for a constant. -/
inductive Refused (s : Architecture) (t : Task) : MachineError → Prop
  | address {a : Word} (ha : t.address? s = some a) (h : s.memory.get? a = none) :
      Refused s t (.address ⟨a⟩)
  | constant {d : Register} (ha : ∀ a, t.address? s = some a → s.memory.get? a ≠ none)
      (hd : t.target? = some d) (h : d.isConstant = true) :
      Refused s t (.fabric (.access ⟨.register d⟩))

/-- The address of the task has a word, and its result is for no constant. -/
structure Allowed (s : Architecture) (t : Task) : Prop where
  address : ∀ a, t.address? s = some a → s.memory.get? a ≠ none
  target : ∀ d, t.target? = some d → d.isConstant = false

theorem outcome_cases (s : Architecture) (t : Task) :
    (∃ s', t.outcome s = .ok s' ∧ t.Allowed s) ∨ ∃ e, t.outcome s = .error e ∧ t.Refused s e := by
  cases t with
  | compute m d r =>
    have ha : ∀ a, (compute m d r).address? s = some a → s.memory.get? a ≠ none := by rintro a ⟨⟩
    rw [outcome, Architecture.combine]
    cases hc : d.isConstant with
    | true => exact .inr ⟨_, rfl, .constant ha rfl hc⟩
    | false => exact .inl ⟨_, rfl, ha, by rintro _ ⟨⟩; exact hc⟩
  | load d r =>
    rw [outcome, Architecture.fill]
    cases hm : s.memory.get? (s.registers r) with
    | none => exact .inr ⟨_, rfl, .address rfl hm⟩
    | some v =>
      have ha : ∀ a, (load d r).address? s = some a → s.memory.get? a ≠ none := by
        rintro _ ⟨⟩ h
        cases hm.symm.trans h
      cases hc : d.isConstant with
      | true => exact .inr ⟨_, rfl, .constant ha rfl hc⟩
      | false => exact .inl ⟨_, rfl, ha, by rintro _ ⟨⟩; exact hc⟩
  | store d r =>
    rw [outcome, Architecture.spill]
    cases hm : s.memory.get? (s.registers r) with
    | none => exact .inr ⟨_, rfl, .address rfl hm⟩
    | some v =>
      refine .inl ⟨_, rfl, ?_, by rintro _ ⟨⟩⟩
      rintro _ ⟨⟩ h
      cases hm.symm.trans h
  | jump | nothing => exact .inl ⟨_, rfl, by rintro _ ⟨⟩, by rintro _ ⟨⟩⟩

end Task

namespace Architecture

variable {s : Architecture} {p : WordPair} {i : Instruction}

theorem address?_of_task? (hi : i.encode.high = s.registers .irb) {t : Task}
    (ht : i.task? = some t) : s.address? i = t.address? s := by
  cases i with
  | register o => cases o <;> cases ht <;> rfl
  | immediate o c d m v =>
    obtain rfl : v = s.registers .irb := hi
    cases o <;> cases ht <;> rfl
  | jump o => cases o <;> cases ht <;> rfl

theorem target?_of_task? {t : Task} (ht : i.task? = some t) : i.target? = t.target? := by
  cases i with
  | register o => cases o <;> cases ht <;> rfl
  | immediate o => cases o <;> cases ht <;> rfl
  | jump o => cases o <;> cases ht <;> rfl

/-- What becomes of an instruction that was fetched and decoded is right: a failure names the first
fault, and nothing with a fault succeeds. -/
def Judged (s : Architecture) : Except MachineError Architecture → Prop
  | .ok _ => s.ClearBefore 7
  | .error e => ∃ k, 3 ≤ k ∧ s.Fault k e ∧ s.ClearBefore k

theorem judged_outcome (hp : s.fetch? = some p) (hd : Instruction.decode p = .ok i) :
    s.Judged ((s.fetched p).outcome i) := by
  have hi : s.instruction? = some i := instruction?_eq_some.mpr ⟨p, hp, hd⟩
  have hk := clearBefore_of_decode hp hd
  obtain ⟨hw, hen⟩ := Instruction.encode_of_decode hd
  have hh : i.encode.high = (s.fetched p).registers .irb := by
    rw [hen]
    rfl
  rw [outcome]
  cases he : i.condition.evaluate (s.fetched p).flags with
  | error e =>
    obtain ⟨hc, rfl⟩ := Condition.evaluate_eq_error.mp he
    exact ⟨3, le_rfl, .unmapped hi hc, hk⟩
  | ok holds =>
    have hk := hk.past_unmapped hi fun h => by
      cases he.symm.trans (Condition.evaluate_eq_error.mpr ⟨h, rfl⟩)
    cases holds with
    | false => exact clearBefore_of_skipped hp hd he
    | true =>
      have hm := Instruction.isSome_task? hw
      cases ht : i.task? with
      | none =>
        rw [ht] at hm
        exact ⟨4, by decide, .unimplemented hi he hm.symm, hk⟩
      | some t =>
        rw [ht] at hm
        have hk := hk.past_unimplemented hi fun _ => hm.symm
        have ha := address?_of_task? hh ht
        have hg := target?_of_task? ht
        show s.Judged (t.outcome (s.fetched p))
        obtain ⟨s', hx, hm, hc⟩ | ⟨e, hx, ho⟩ := t.outcome_cases (s.fetched p)
        · rw [hx]
          have hk := hk.past_address hp hd fun _ a h => hm a (ha ▸ h)
          exact hk.past_constant hi fun _ d h => hc d (hg ▸ h)
        · rw [hx]
          cases ho with
          | address ha' h => exact ⟨5, by decide, .address hp hd he (ha.trans ha') h, hk⟩
          | constant hm hd' h =>
            have hk := hk.past_address hp hd fun _ a h => hm a (ha ▸ h)
            exact ⟨6, by decide, .constant hi he (hg.trans hd') h, hk⟩

end Architecture

namespace Cpu

variable {c c' : Cpu} {s : Architecture} {n : Nat} {e : MachineError}

theorem advanceToExecute_of_error (h : advance c = .error e c') :
    advanceToExecute (n + 1) c = .error e c' :=
  bind_of_error h

theorem advanceToExecute_of_ok {p : Phase} (h : advance c = .ok p c') (hp : p ≠ .execute) :
    advanceToExecute (n + 1) c = advanceToExecute n c' := by
  rw [advanceToExecute, bind_of_ok h, if_neg hp]

theorem advanceToExecute_of_execute {r : Retired} (h : advance c = .ok .execute c')
    (hr : c'.control.retired = some r) : advanceToExecute (n + 1) c = .ok r c' := by
  rw [advanceToExecute, bind_of_ok h, if_pos rfl, bind_get, hr]
  rfl

/-- The end of a step is right: a failure faults the processor and names the first fault, after
the cycles before it, and no step succeeds where there is a fault. -/
def Judged (s : Architecture) (cycles : Nat) : EStateM.Result MachineError Cpu Retired → Prop
  | .ok _ _ => s.ClearBefore 7
  | .error e c => c.state = .faulted ∧
      ∃ k, s.Fault k e ∧ s.ClearBefore k ∧ c.cycles = cycles + min k 3

theorem Ready.judged_of_error {p : Phase} (h : Ready p c s) (ha : Cpu.advance c = .error e c')
    {k : Nat} {t : Architecture} (hf : t.Fault k e) (hk : t.ClearBefore k) {cycles : Nat}
    (hn : c.cycles = cycles + min k 3) : Judged t cycles (advanceToExecute (n + 1) c) := by
  obtain ⟨hs, hc⟩ := faulted_of_advance h.running ha
  rw [advanceToExecute_of_error ha]
  exact ⟨hs, k, hf, hk, hc.trans hn⟩

theorem Ready.judged_execute {p : WordPair} {i : Instruction} {cycles : Nat}
    (h : Ready .execute c (s.fetched p)) (hp : s.fetch? = some p)
    (hd : Instruction.decode p = .ok i) (hc : c.control.current = some i)
    (hn : c.cycles = cycles + 3) : Judged s cycles (advanceToExecute 1 c) := by
  have hj := Architecture.judged_outcome hp hd
  have hf := h.follows_execute (Architecture.isOpen_fetched hp) hc
  cases hx : (s.fetched p).outcome i with
  | ok s' =>
    rw [hx] at hj hf
    obtain ⟨c', ha, -, hr⟩ := hf
    obtain ⟨r, hr⟩ := Option.isSome_iff_exists.mp hr
    rw [advanceToExecute_of_execute ha hr]
    exact hj
  | error e =>
    rw [hx] at hj hf
    obtain ⟨c', ha⟩ := hf
    obtain ⟨k, hle, hf, hk⟩ := hj
    exact h.judged_of_error ha hf hk (by omega)

theorem Ready.judged_decode {p : WordPair} {cycles : Nat} (h : Ready .decode c (s.loaded p))
    (hp : s.fetch? = some p) (hn : c.cycles = cycles + 2) :
    Judged s cycles (advanceToExecute 2 c) := by
  cases hd : Instruction.decode p with
  | error e =>
    obtain ⟨c', ha⟩ := h.advance_of_undecodable hd
    exact h.judged_of_error ha (.undecodable hp hd) (Architecture.clearBefore_of_fetch hp) hn
  | ok i =>
    obtain ⟨c', ha, hr, hc⟩ := h.advance_of_decodable hd
    have hs : (s.loaded p).set .pc ((s.loaded p).pc + 2) = s.fetched p := s.set_loaded p
    rw [hs] at hr
    rw [advanceToExecute_of_ok ha (by decide)]
    exact hr.judged_execute hp hd hc (by rw [cycles_of_advance ha, hn])

theorem Ready.judged_fetch2 {low : Word} {cycles : Nat}
    (h : Ready .fetch2 c ((s.accessed s.pc low).set .ira low)) (hl : s.memory.get? s.pc = some low)
    (hn : c.cycles = cycles + 1) : Judged s cycles (advanceToExecute 3 c) := by
  let t : Architecture := (s.accessed s.pc low).set .ira low
  have hf : Follows c .fetch2 (Ready .decode) (t.fill .irb (s.pc + 1)) := h.follows_fetch2
  cases hh : s.memory.get? (s.pc + 1) with
  | none =>
    have hm : t.memory.get? (s.pc + 1) = none := hh
    rw [Architecture.fill_of_none hm] at hf
    obtain ⟨c', ha⟩ := hf
    have hk : s.ClearBefore 1 := Architecture.clearBefore_zero.succ fun e h => by
      cases h with
      | first h => cases hl.symm.trans h
    exact h.judged_of_error ha (.second hh) hk hn
  | some high =>
    have hm : t.memory.get? (s.pc + 1) = some high := hh
    rw [Architecture.fill_of_some hm rfl] at hf
    obtain ⟨c', ha, hr⟩ := hf
    have hp : s.fetch? = some ⟨low, high⟩ := Architecture.fetch?_eq_some.mpr ⟨hl, hh⟩
    rw [advanceToExecute_of_ok ha (by decide)]
    exact hr.judged_decode hp (by rw [cycles_of_advance ha, hn])

theorem Ready.judged_stepInstruction (h : Ready .fetch1 c s) :
    Judged s c.cycles (stepInstruction c) := by
  rw [stepInstruction]
  have hf := h.follows_fetch1
  cases hl : s.memory.get? s.pc with
  | none =>
    rw [Architecture.fill_of_none hl] at hf
    obtain ⟨c', ha⟩ := hf
    exact h.judged_of_error ha (.first hl) Architecture.clearBefore_zero rfl
  | some low =>
    rw [Architecture.fill_of_some hl rfl] at hf
    obtain ⟨c', ha, hr⟩ := hf
    rw [advanceToExecute_of_ok ha (by decide)]
    exact hr.judged_fetch2 hl (cycles_of_advance ha)

theorem Judged.fails_iff {x : EStateM.Result MachineError Cpu Retired} (h : Judged s n x) :
    (∃ e c', x = .error e c') ↔ ∃ k e, s.Fault k e := by
  cases x with
  | ok r c' =>
    refine iff_of_false ?_ ?_
    · rintro ⟨e, c'', hx⟩
      contradiction
    · rintro ⟨k, e, hf⟩
      exact h k hf.lt_seven e hf
  | error e c' =>
    obtain ⟨-, k, hf, -⟩ := h
    exact iff_of_true ⟨e, c', rfl⟩ ⟨k, e, hf⟩

theorem Judged.succeeds {x : EStateM.Result MachineError Cpu Retired} (h : Judged s n x)
    (hs : ∀ k e, ¬ s.Fault k e) : ∃ r c', x = .ok r c' := by
  cases x with
  | ok r c' => exact ⟨r, c', rfl⟩
  | error e c' =>
    obtain ⟨-, k, hf, -⟩ := h
    exact absurd hf (hs k e)

/-- From a first fetch a step fails if and only if the instruction has a fault. It then reports the
first fault, counts one cycle for each phase before the one that failed, and leaves the processor
faulted. Where the condition of the instruction does not hold, the step succeeds. -/
theorem stepInstruction_fails_iff (hc : Reachable c) (hr : c.state = .running)
    (hp : c.phase = .fetch1) :
    ((∃ e c', stepInstruction c = .error e c') ↔ ∃ k e, c.architecture.Fault k e) ∧
      (∀ e c', stepInstruction c = .error e c' → c'.state = .faulted ∧
        ∃ k, c.architecture.Fault k e ∧ (∀ j < k, ∀ e', ¬ c.architecture.Fault j e') ∧
          c'.cycles = c.cycles + min k 3) ∧
      ∀ i, c.architecture.instruction? = some i → i.condition.evaluate c.flags = .ok false →
        ∃ r c', stepInstruction c = .ok r c' := by
  have hj := Ready.judged_stepInstruction ⟨hr, hp, hc.idle, rfl⟩
  refine ⟨hj.fails_iff, fun e c' hx => ?_, fun i hi he => hj.succeeds fun k e => ?_⟩
  · rw [hx] at hj
    exact hj
  · exact Architecture.not_fault_of_skipped hi he

theorem stepInstruction_fails_refused_write :
    Reachable subtracted ∧ subtracted.state = .running ∧ subtracted.phase = .fetch1 ∧
      subtracted.architecture.Fault 6 (.fabric (.access ⟨.register .one⟩)) ∧
      (∃ e c', stepInstruction subtracted = .error e c') ∧
      (final (stepInstruction subtracted)).state = .faulted := by
  have hc : Reachable subtracted := (Reachable.ofExecutable (e := subtracting) rfl).after _
  have hr : subtracted.state = .running := by decide +kernel
  have hp : subtracted.phase = .fetch1 := by decide +kernel
  have hf : subtracted.architecture.Fault 6 (.fabric (.access ⟨.register .one⟩)) :=
    .constant (i := .register .aopr .always .one .one .subtractB) (by decide +kernel)
      (by decide +kernel) rfl rfl
  obtain ⟨hiff, herr, -⟩ := stepInstruction_fails_iff hc hr hp
  obtain ⟨e, c', h⟩ := hiff.mpr ⟨6, _, hf⟩
  have hs : (final (stepInstruction subtracted)).state = .faulted := by
    rw [h]
    exact (herr e c' h).1
  exact ⟨hc, hr, hp, hf, ⟨e, c', h⟩, hs⟩

end Cpu

end X25
