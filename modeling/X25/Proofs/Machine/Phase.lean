import X25.Machine.Control
import X25.Proofs.Effect

/-! # Phases

What a tick does in each phase, in one equation. A phase runs its microprogram on the datapath and
then passes to the next phase; if the microprogram fails, the phase stays.
-/

namespace X25

def Control.retiring (c : Control) (i : Instruction) (executed : Bool) : Control :=
  { c with phase := .fetch1, retired := some ⟨c.fetchedAt, i, executed⟩ }

def Datapath.stopLatching {δ : Type} (d : Datapath δ) : Datapath δ :=
  { d with alu.latching := false }

namespace Machine

open Effect

variable {δ : Type}

/-- The end of a phase after its microprogram. If that failed, the control unit is `c`. -/
def ending (p : Phase) (c c' : Control) :
    EStateM.Result MachineError (Datapath δ) Unit → EStateM.Result MachineError (Machine δ) Phase
  | .ok _ d => .ok p ⟨d, c'⟩
  | .error e d => .error e ⟨d, c⟩

theorem final_ending (p : Phase) (c c' : Control)
    (r : EStateM.Result MachineError (Datapath δ) Unit) :
    (final (ending p c c' r)).datapath = final r := by
  cases r <;> rfl

theorem ending_eq_error {p : Phase} {c c' : Control} {m' : Machine δ} {e : MachineError}
    {r : EStateM.Result MachineError (Datapath δ) Unit} (h : ending p c c' r = .error e m') :
    ∃ d, r = .error e d ∧ m' = ⟨d, c⟩ := by
  cases r with
  | ok u d => cases h
  | error e' d => cases h; exact ⟨d, rfl, rfl⟩

theorem ending_eq_ok {p p' : Phase} {c c' : Control} {m' : Machine δ}
    {r : EStateM.Result MachineError (Datapath δ) Unit} (h : ending p c c' r = .ok p' m') :
    p' = p ∧ ∃ d, m' = ⟨d, c'⟩ := by
  cases r with
  | ok u d => cases h; exact ⟨rfl, d, rfl⟩
  | error e d => cases h

variable [MemoryDevice δ]

theorem runMicro_bind_modifyControl (ops : List MicroOp) (f : Control → Control) (p : Phase)
    (m : Machine δ) :
    (runMicro ops >>= fun _ => modifyControl f >>= fun _ => pure p) m =
      ending p m.control (f m.control) (MicroOp.runAll ops m.datapath) := by
  obtain ⟨d, c⟩ := m
  cases h : MicroOp.runAll ops d with
  | ok u d' =>
    have hr : runMicro ops ⟨d, c⟩ = .ok u ⟨d', c⟩ := by simp only [runMicro, onDatapath, h]
    rw [bind_of_ok hr]
    rfl
  | error e d' =>
    have hr : runMicro ops ⟨d, c⟩ = .error e ⟨d', c⟩ := by simp only [runMicro, onDatapath, h]
    rw [bind_of_error hr]
    rfl

theorem runAll_passInstruction (d : Datapath δ) :
    ∃ d', MicroOp.runAll MicroOp.passInstruction d = .ok () d' :=
  ⟨_, rfl⟩

variable {m : Machine δ}

theorem tick_fetch1 (h : m.control.phase = .fetch1) :
    tick m =
      ending .fetch1 { m.control with fetchedAt := m.datapath.registers.pc }
        { m.control with fetchedAt := m.datapath.registers.pc, phase := .fetch2 }
        (MicroOp.runAll MicroOp.fetchFirst m.datapath) := by
  rw [tick, bind_get, h]
  exact runMicro_bind_modifyControl MicroOp.fetchFirst _ _
    { m with control.fetchedAt := m.datapath.registers.pc }

theorem tick_fetch2 (h : m.control.phase = .fetch2) :
    tick m =
      ending .fetch2 m.control { m.control with phase := .decode }
        (MicroOp.runAll MicroOp.fetchSecond m.datapath) := by
  rw [tick, bind_get, h]
  exact runMicro_bind_modifyControl MicroOp.fetchSecond _ _ m

theorem tick_decode_of_error (h : m.control.phase = .decode) {e : DecodeError}
    (hd : Instruction.decode m.instructionWords = .error e) :
    tick m = .error (.decode e) m := by
  have hs : decode m = .error (.decode e) m := by rw [decode, bind_get, hd]; rfl
  rw [tick, bind_get, h]
  exact bind_of_error hs

theorem tick_decode_of_ok (h : m.control.phase = .decode) {i : Instruction}
    (hd : Instruction.decode m.instructionWords = .ok i) :
    tick m =
      ending .decode m.control { m.control with current := some i, phase := .execute }
        (MicroOp.runAll MicroOp.passInstruction m.datapath) := by
  have hs : decode m = (runMicro MicroOp.passInstruction >>= fun _ =>
      modifyControl ({ · with current := some i })) m := by
    rw [decode, bind_get, hd]
  rw [tick, bind_get, h]
  show (decode >>= _) m = _
  rw [bind_congr_at hs, bind_assoc]
  exact runMicro_bind_modifyControl MicroOp.passInstruction
    (fun c => { c with current := some i, phase := .execute }) _ m

section Execute

variable {i : Instruction}

theorem tick_execute_of_none (h : m.control.phase = .execute) (hc : m.control.current = none) :
    tick m = .error .nothingDecoded m := by
  have hs : execute m = .error .nothingDecoded m := by rw [execute, bind_get, hc]; rfl
  rw [tick, bind_get, h]
  exact bind_of_error hs

theorem tick_execute_of_error (h : m.control.phase = .execute) (hc : m.control.current = some i)
    {e : DecodeError} (he : i.condition.evaluate m.datapath.alu.flags = .error e) :
    tick m = .error (.decode e) m := by
  have hs : execute m = .error (.decode e) m := by
    rw [execute, bind_get, hc]
    simp only [he]
    rfl
  rw [tick, bind_get, h]
  exact bind_of_error hs

theorem tick_execute_of_false (h : m.control.phase = .execute) (hc : m.control.current = some i)
    (he : i.condition.evaluate m.datapath.alu.flags = .ok false) :
    tick m = .ok .execute ⟨m.datapath, m.control.retiring i false⟩ := by
  have hs : execute m =
      .ok ⟨⟩ { m with control.retired := some ⟨m.control.fetchedAt, i, false⟩ } := by
    rw [execute, bind_get, hc]
    simp only [he, Bool.false_eq_true, if_false]
    rfl
  rw [tick, bind_get, h]
  exact bind_of_ok hs

theorem execute_of_true (hc : m.control.current = some i)
    (he : i.condition.evaluate m.datapath.alu.flags = .ok true) :
    execute m = (withoutLatching (runRoutine i) >>= fun _ =>
      modifyControl fun c => { c with retired := some ⟨c.fetchedAt, i, true⟩ }) m := by
  rw [execute, bind_get, hc]
  simp only [he, if_true]

theorem tick_execute_unimplemented (h : m.control.phase = .execute)
    (hc : m.control.current = some i)
    (he : i.condition.evaluate m.datapath.alu.flags = .ok true) (hr : i.routine? = none) :
    tick m = .error (.unimplemented i.opcode) m.stopLatching := by
  have hw : withoutLatching (runRoutine i) m = .error (.unimplemented i.opcode) m.stopLatching := by
    simp only [withoutLatching, runRoutine, hr]
    rfl
  have hs := execute_of_true hc he
  rw [bind_of_error hw] at hs
  rw [tick, bind_get, h]
  exact bind_of_error hs

/-- After a routine the unit no longer latches its flags, also if the routine failed. -/
theorem tick_execute_routine (h : m.control.phase = .execute) (hc : m.control.current = some i)
    (he : i.condition.evaluate m.datapath.alu.flags = .ok true) {ops : List MicroOp}
    (hr : i.routine? = some ops) :
    tick m = ending .execute m.control (m.control.retiring i true)
      (seen Datapath.stopLatching (MicroOp.runAll ops m.datapath)) := by
  have hs := execute_of_true hc he
  rw [tick, bind_get, h]
  show (execute >>= _) m = _
  rw [bind_congr_at hs, bind_assoc]
  cases ho : MicroOp.runAll ops m.datapath with
  | ok u d =>
    have hw : withoutLatching (runRoutine i) m = .ok u ⟨d.stopLatching, m.control⟩ := by
      simp only [withoutLatching, runRoutine, hr, runMicro, onDatapath, ho]
      rfl
    rw [bind_of_ok hw]
    rfl
  | error e d =>
    have hw : withoutLatching (runRoutine i) m = .error e ⟨d.stopLatching, m.control⟩ := by
      simp only [withoutLatching, runRoutine, hr, runMicro, onDatapath, ho]
      rfl
    rw [bind_of_error hw]
    rfl

end Execute

/-- The ways in which a tick can go. -/
inductive Ticks (m : Machine δ) : EStateM.Result MachineError (Machine δ) Phase → Prop
  | fetch1 (hp : m.control.phase = .fetch1) :
      Ticks m (ending .fetch1 { m.control with fetchedAt := m.datapath.registers.pc }
        { m.control with fetchedAt := m.datapath.registers.pc, phase := .fetch2 }
        (MicroOp.runAll MicroOp.fetchFirst m.datapath))
  | fetch2 (hp : m.control.phase = .fetch2) :
      Ticks m (ending .fetch2 m.control { m.control with phase := .decode }
        (MicroOp.runAll MicroOp.fetchSecond m.datapath))
  | undecoded {e : DecodeError} (hp : m.control.phase = .decode)
      (hd : Instruction.decode m.instructionWords = .error e) : Ticks m (.error (.decode e) m)
  | decoded {i : Instruction} (hp : m.control.phase = .decode)
      (hd : Instruction.decode m.instructionWords = .ok i) :
      Ticks m (ending .decode m.control { m.control with current := some i, phase := .execute }
        (MicroOp.runAll MicroOp.passInstruction m.datapath))
  | nothing (hp : m.control.phase = .execute) (hc : m.control.current = none) :
      Ticks m (.error .nothingDecoded m)
  | unmapped {i : Instruction} {e : DecodeError} (hp : m.control.phase = .execute)
      (hc : m.control.current = some i)
      (he : i.condition.evaluate m.datapath.alu.flags = .error e) : Ticks m (.error (.decode e) m)
  | skipped {i : Instruction} (hp : m.control.phase = .execute) (hc : m.control.current = some i)
      (he : i.condition.evaluate m.datapath.alu.flags = .ok false) :
      Ticks m (.ok .execute ⟨m.datapath, m.control.retiring i false⟩)
  | unimplemented {i : Instruction} (hp : m.control.phase = .execute)
      (hc : m.control.current = some i)
      (he : i.condition.evaluate m.datapath.alu.flags = .ok true) (hr : i.routine? = none) :
      Ticks m (.error (.unimplemented i.opcode) m.stopLatching)
  | routine {i : Instruction} {ops : List MicroOp} (hp : m.control.phase = .execute)
      (hc : m.control.current = some i)
      (he : i.condition.evaluate m.datapath.alu.flags = .ok true) (hr : i.routine? = some ops) :
      Ticks m (ending .execute m.control (m.control.retiring i true)
        (seen Datapath.stopLatching (MicroOp.runAll ops m.datapath)))

theorem ticks_tick (m : Machine δ) : Ticks m (tick m) := by
  cases hp : m.control.phase with
  | fetch1 => rw [tick_fetch1 hp]; exact .fetch1 hp
  | fetch2 => rw [tick_fetch2 hp]; exact .fetch2 hp
  | decode =>
    cases hd : Instruction.decode m.instructionWords with
    | error e => rw [tick_decode_of_error hp hd]; exact .undecoded hp hd
    | ok i => rw [tick_decode_of_ok hp hd]; exact .decoded hp hd
  | execute =>
    cases hc : m.control.current with
    | none => rw [tick_execute_of_none hp hc]; exact .nothing hp hc
    | some i =>
      cases he : i.condition.evaluate m.datapath.alu.flags with
      | error e => rw [tick_execute_of_error hp hc he]; exact .unmapped hp hc he
      | ok holds =>
        cases holds with
        | false => rw [tick_execute_of_false hp hc he]; exact .skipped hp hc he
        | true =>
          cases hr : i.routine? with
          | none => rw [tick_execute_unimplemented hp hc he hr]; exact .unimplemented hp hc he hr
          | some ops => rw [tick_execute_routine hp hc he hr]; exact .routine hp hc he hr

theorem tick_eq_of_ticks {r : EStateM.Result MachineError (Machine δ) Phase} (h : Ticks m r) :
    tick m = r := by
  cases h with
  | fetch1 hp => exact tick_fetch1 hp
  | fetch2 hp => exact tick_fetch2 hp
  | undecoded hp hd => exact tick_decode_of_error hp hd
  | decoded hp hd => exact tick_decode_of_ok hp hd
  | nothing hp hc => exact tick_execute_of_none hp hc
  | unmapped hp hc he => exact tick_execute_of_error hp hc he
  | skipped hp hc he => exact tick_execute_of_false hp hc he
  | unimplemented hp hc he hr => exact tick_execute_unimplemented hp hc he hr
  | routine hp hc he hr => exact tick_execute_routine hp hc he hr

/-- The ways in which a tick can fail. -/
inductive Failure (m : Machine δ) : MachineError → Machine δ → Prop
  | fetch1 {e : MachineError} {d : Datapath δ} (hp : m.control.phase = .fetch1)
      (ho : MicroOp.runAll MicroOp.fetchFirst m.datapath = .error e d) :
      Failure m e ⟨d, { m.control with fetchedAt := m.datapath.registers.pc }⟩
  | fetch2 {e : MachineError} {d : Datapath δ} (hp : m.control.phase = .fetch2)
      (ho : MicroOp.runAll MicroOp.fetchSecond m.datapath = .error e d) : Failure m e ⟨d, m.control⟩
  | undecoded {e : DecodeError} (hp : m.control.phase = .decode) : Failure m (.decode e) m
  | nothing (hp : m.control.phase = .execute) (hc : m.control.current = none) :
      Failure m .nothingDecoded m
  | unmapped {i : Instruction} {e : DecodeError} (hp : m.control.phase = .execute)
      (hc : m.control.current = some i)
      (he : i.condition.evaluate m.datapath.alu.flags = .error e) : Failure m (.decode e) m
  | unimplemented {i : Instruction} (hp : m.control.phase = .execute)
      (hc : m.control.current = some i)
      (he : i.condition.evaluate m.datapath.alu.flags = .ok true) :
      Failure m (.unimplemented i.opcode) m.stopLatching
  | routine {i : Instruction} {ops : List MicroOp} {e : MachineError} {d : Datapath δ}
      (hp : m.control.phase = .execute) (hc : m.control.current = some i)
      (he : i.condition.evaluate m.datapath.alu.flags = .ok true) (hr : i.routine? = some ops)
      (ho : MicroOp.runAll ops m.datapath = .error e d) : Failure m e ⟨d.stopLatching, m.control⟩

theorem failure_of_ticks {m' : Machine δ} {e : MachineError}
    {r : EStateM.Result MachineError (Machine δ) Phase} (ht : Ticks m r) (h : r = .error e m') :
    Failure m e m' := by
  cases ht with
  | fetch1 hp =>
    obtain ⟨d, ho, rfl⟩ := ending_eq_error h
    exact .fetch1 hp ho
  | fetch2 hp =>
    obtain ⟨d, ho, rfl⟩ := ending_eq_error h
    exact .fetch2 hp ho
  | undecoded hp => cases h; exact .undecoded hp
  | decoded =>
    obtain ⟨d, ho, -⟩ := ending_eq_error h
    obtain ⟨d', ho'⟩ := runAll_passInstruction m.datapath
    cases ho.symm.trans ho'
  | nothing hp hc => cases h; exact .nothing hp hc
  | unmapped hp hc he => cases h; exact .unmapped hp hc he
  | skipped => cases h
  | unimplemented hp hc he => cases h; exact .unimplemented hp hc he
  | routine hp hc he hr =>
    obtain ⟨d, hs, rfl⟩ := ending_eq_error h
    obtain ⟨d', ho, rfl⟩ := seen_eq_error hs
    exact .routine hp hc he hr ho

theorem failure_of_tick_error {m' : Machine δ} {e : MachineError} (h : tick m = .error e m') :
    Failure m e m' :=
  failure_of_ticks (ticks_tick m) h

/-- The ways in which a tick can succeed, and the control unit that each leaves. -/
inductive Success (m : Machine δ) (k : Control) : Phase → Prop
  | fetch1 (hp : m.control.phase = .fetch1)
      (hk : k = { m.control with fetchedAt := m.datapath.registers.pc, phase := .fetch2 }) :
      Success m k .fetch1
  | fetch2 (hp : m.control.phase = .fetch2) (hk : k = { m.control with phase := .decode }) :
      Success m k .fetch2
  | decode {i : Instruction} (hp : m.control.phase = .decode)
      (hd : Instruction.decode m.instructionWords = .ok i)
      (hk : k = { m.control with current := some i, phase := .execute }) : Success m k .decode
  | execute {i : Instruction} {holds : Bool} (hp : m.control.phase = .execute)
      (hc : m.control.current = some i)
      (he : i.condition.evaluate m.datapath.alu.flags = .ok holds)
      (hk : k = m.control.retiring i holds) : Success m k .execute

theorem success_of_ticks {p : Phase} {m' : Machine δ}
    {r : EStateM.Result MachineError (Machine δ) Phase} (ht : Ticks m r) (h : r = .ok p m') :
    Success m m'.control p := by
  cases ht with
  | fetch1 hp =>
    obtain ⟨rfl, d, rfl⟩ := ending_eq_ok h
    exact .fetch1 hp rfl
  | fetch2 hp =>
    obtain ⟨rfl, d, rfl⟩ := ending_eq_ok h
    exact .fetch2 hp rfl
  | decoded hp hd =>
    obtain ⟨rfl, d, rfl⟩ := ending_eq_ok h
    exact .decode hp hd rfl
  | skipped hp hc he =>
    cases h
    exact .execute hp hc he rfl
  | routine hp hc he =>
    obtain ⟨rfl, d, rfl⟩ := ending_eq_ok h
    exact .execute hp hc he rfl
  | undecoded | nothing | unmapped | unimplemented => cases h

theorem success_of_tick_ok {p : Phase} {m' : Machine δ} (h : tick m = .ok p m') :
    Success m m'.control p :=
  success_of_ticks (ticks_tick m) h

end Machine

end X25
