import X25.Machine.Cpu
import X25.Proofs.Effect

/-! # Sessions

A host builds a processor and then asks for actions in any order, each of which may succeed or
fail. What every part of an action keeps holds all through every session.
-/

namespace X25

/-- What a host asks of a processor. -/
inductive Action
  | advance
  | pulse (edge : Edge)
  | stepInstruction
  | run (cycles : Nat)
  | halt
  | resume
  | reset
  | setEntry (entry : Word)
  | setRegister (r : Register) (v : Word)
  | writeMemory (a v : Word)
  | loadProgram (program : List Word)
  deriving DecidableEq, Repr

def Action.perform : Action → CpuM Unit
  | advance => discard Cpu.advance
  | pulse edge => discard (Cpu.pulse edge)
  | stepInstruction => discard Cpu.stepInstruction
  | run cycles => discard (Cpu.run cycles)
  | halt => modify Cpu.halt
  | resume => modify Cpu.resume
  | reset => modify Cpu.reset
  | setEntry entry => modify (Cpu.setEntry entry)
  | setRegister r v => modify (Cpu.setRegister r v)
  | writeMemory a v => Cpu.writeMemory a v
  | loadProgram program => Cpu.loadProgram program

namespace Cpu

open Effect

/-- The processors of all sessions. -/
inductive Reachable : Cpu → Prop
  | ofLayout {l : Layout} {c : Cpu} (h : ofLayout l = .ok c) : Reachable c
  | perform {c : Cpu} (h : Reachable c) (a : Action) : Reachable (final (a.perform c))

/-- What a processor is after some actions, whether they succeed or not. -/
def after (c : Cpu) (actions : List Action) : Cpu :=
  actions.foldl (fun c a => final (a.perform c)) c

theorem after_append (c : Cpu) (actions more : List Action) :
    c.after (actions ++ more) = (c.after actions).after more :=
  List.foldl_append

section Loading

variable {c : Cpu} {program : List Word}

theorem loadProgram_of_lt (h : c.layout.ramSize < program.length) :
    loadProgram program c = .error (.programTooLarge program.length c.layout.ramSize) c := by
  rw [loadProgram, bind_get, if_pos h]
  rfl

theorem loadProgram_of_le (h : program.length ≤ c.layout.ramSize) :
    loadProgram program c = writeAll c.layout.ramStart program c := by
  rw [loadProgram, bind_get, if_neg (Nat.not_lt.mpr h)]

theorem loadProgram_cases (program : List Word) (c : Cpu) :
    (c.layout.ramSize < program.length ∧
      loadProgram program c = .error (.programTooLarge program.length c.layout.ramSize) c) ∨
    (program.length ≤ c.layout.ramSize ∧
      loadProgram program c = writeAll c.layout.ramStart program c) := by
  obtain h | h := Nat.lt_or_ge c.layout.ramSize program.length
  · exact .inl ⟨h, loadProgram_of_lt h⟩
  · exact .inr ⟨h, loadProgram_of_le h⟩

theorem writeAll_of_holds {start : Word} (h : c.memory.holds start = true) (v : Word)
    (vs : List Word) :
    writeAll start (v :: vs) c = writeAll (start + 1) vs (c.modifyMemory (·.put start v)) := by
  have hw : writeMemory start v c = .ok () (c.modifyMemory (·.put start v)) := if_pos h
  rw [writeAll, bind_of_ok hw]

theorem writeAll_of_not_holds {start : Word} (h : ¬ c.memory.holds start = true) (v : Word)
    (vs : List Word) : writeAll start (v :: vs) c = .error (.address ⟨start⟩) c := by
  have hw : writeMemory start v c = .error (.address ⟨start⟩) c := if_neg h
  rw [writeAll, bind_of_error hw]

theorem final_writeAll (start : Word) (vs : List Word) (c : Cpu) :
    ∃ memory, final (writeAll start vs c) = c.modifyMemory fun _ => memory := by
  induction vs generalizing c start with
  | nil => exact ⟨c.memory, rfl⟩
  | cons v vs ih =>
    by_cases hs : c.memory.holds start
    · rw [writeAll_of_holds hs]
      exact ih (start + 1) _
    · rw [writeAll_of_not_holds hs]
      exact ⟨c.memory, rfl⟩

theorem final_loadProgram (program : List Word) (c : Cpu) :
    ∃ memory, final (loadProgram program c) = c.modifyMemory fun _ => memory := by
  obtain ⟨-, hr⟩ | ⟨-, hr⟩ := loadProgram_cases program c <;> rw [hr]
  · exact ⟨c.memory, rfl⟩
  · exact final_writeAll _ program c

end Loading

/-- Every part of an action keeps the property; phases are run only while running. -/
structure Stable (P : Cpu → Prop) : Prop where
  risingEdge : ∀ c, c.state = .running → P c → P (final (risingEdge c))
  halt : ∀ c, P c → P c.halt
  resume : ∀ c, P c → P c.resume
  reset : ∀ c, P c → P c.reset
  setEntry : ∀ entry c, P c → P (c.setEntry entry)
  setRegister : ∀ r v c, P c → P (c.setRegister r v)
  writeMemory : ∀ a v, Keeps P (writeMemory a v)

namespace Stable

variable {P : Cpu → Prop}

theorem advance (h : Stable P) : Keeps P advance := by
  intro c hc
  by_cases hs : c.state = .running
  · simp only [Cpu.advance, if_pos hs]
    exact h.risingEdge c hs hc
  · simp only [Cpu.advance, if_neg hs]
    exact hc

theorem pulse (h : Stable P) (edge : Edge) : Keeps P (pulse edge) := by
  intro c hc
  by_cases hs : c.state = .running
  · simp only [Cpu.pulse, if_pos hs]
    cases edge with
    | rising =>
      have hr := h.risingEdge c hs hc
      show P (final (EStateM.map _ _ _))
      simp only [EStateM.map]
      cases he : Cpu.risingEdge c <;> rw [he] at hr <;> exact hr
    | falling => exact hc
  · simp only [Cpu.pulse, if_neg hs]
    exact hc

theorem advanceToExecute (h : Stable P) (n : Nat) : Keeps P (advanceToExecute n) := by
  induction n with
  | zero => exact .of_throw _
  | succ n ih =>
    refine h.advance.bind fun p => ?_
    split
    · intro c hc
      rw [bind_get]
      cases c.control.retired with
      | some r => exact hc
      | none => exact hc
    · exact ih

theorem advanceBelow (h : Stable P) (limit : Nat) : Keeps P (advanceBelow limit) := by
  intro c hc
  have ha := h.advance c hc
  fun_induction Cpu.advanceBelow limit c with
  | case1 c _ p c' hr ih =>
    rw [hr] at ha
    exact ih ha (h.advance c' ha)
  | case2 c _ e c' hr =>
    rw [hr] at ha
    exact ha
  | case3 => exact hc

theorem run (h : Stable P) (n : Nat) : Keeps P (run n) := by
  intro c hc
  rw [Cpu.run, bind_get]
  have hg : Keeps P (do return (← get).cycles - c.cycles : CpuM Nat) := fun _ hs => hs
  exact ((h.advanceBelow _).bind fun _ => hg) c hc

theorem writeAll (h : Stable P) (start : Word) (vs : List Word) : Keeps P (writeAll start vs) := by
  induction vs generalizing start with
  | nil => exact .of_pure _
  | cons v vs ih => exact (h.writeMemory start v).bind fun _ => ih (start + 1)

theorem loadProgram (h : Stable P) (program : List Word) : Keeps P (loadProgram program) := by
  intro c hc
  obtain hr | hr := loadProgram_cases program c <;> rw [hr.2]
  · exact hc
  · exact h.writeAll _ program c hc

theorem perform (h : Stable P) (a : Action) : Keeps P a.perform := by
  cases a with
  | advance => exact h.advance.discard
  | pulse edge => exact (h.pulse edge).discard
  | stepInstruction => exact (h.advanceToExecute 4).discard
  | run n => exact (h.run n).discard
  | halt => exact h.halt
  | resume => exact h.resume
  | reset => exact h.reset
  | setEntry entry => exact h.setEntry entry
  | setRegister r v => exact h.setRegister r v
  | writeMemory a v => exact h.writeMemory a v
  | loadProgram program => exact h.loadProgram program

end Stable

theorem ofLayout_eq_ok {l : Layout} {c : Cpu} (h : ofLayout l = .ok c) :
    ∃ memory, c = started memory l l.ramStart := by
  rw [ofLayout] at h
  split at h <;> cases h
  exact ⟨_, rfl⟩

theorem after_of_ofExecutable {e : Executable} {c : Cpu} (h : ofExecutable e = .ok c) :
    ∃ c₀, ofLayout e.header.layout = .ok c₀ ∧
      c = c₀.after [.loadProgram e.program, .setEntry e.header.entry] := by
  cases hl : ofLayout e.header.layout with
  | error f => simp only [ofExecutable, hl] at h; cases h
  | ok c₀ =>
    cases hr : loadProgram e.program c₀ with
    | error f c₁ => simp only [ofExecutable, hl, bind, Except.bind, hr] at h; cases h
    | ok u c₁ =>
      simp only [ofExecutable, hl, bind, Except.bind, hr] at h
      cases h
      have hp : final ((Action.loadProgram e.program).perform c₀) = c₁ := by
        simp only [Action.perform, hr, final_ok]
      refine ⟨c₀, rfl, ?_⟩
      rw [← hp]
      rfl

namespace Reachable

variable {c : Cpu}

theorem of_stable {P : Cpu → Prop} (hs : Stable P) (h₀ : ∀ l c, Cpu.ofLayout l = .ok c → P c)
    (h : Reachable c) : P c := by
  induction h with
  | ofLayout h => exact h₀ _ _ h
  | perform _ a ih => exact hs.perform a _ ih

theorem after (h : Reachable c) (actions : List Action) : Reachable (c.after actions) := by
  induction actions generalizing c with
  | nil => exact h
  | cons a actions ih => exact ih (h.perform a)

theorem ofExecutable {e : Executable} (h : Cpu.ofExecutable e = .ok c) : Reachable c := by
  obtain ⟨c₀, hl, rfl⟩ := after_of_ofExecutable h
  exact (Reachable.ofLayout hl).after _

end Reachable

def small : Cpu :=
  started ⟨[⟨0, 15, .ram 16⟩, ⟨16, 31, .console 16⟩], ""⟩ ⟨0, 15, 16, 31⟩ 0

def subtracting : Executable :=
  let program : List Instruction :=
    [.register .aopr .always .irb .one .subtractB, .register .aopr .always .one .one .subtractB]
  ⟨.ofLayout ⟨0, 15, 16, 31⟩, program.flatMap (·.encode.toList)⟩

def subtractor : Cpu :=
  small.after [.loadProgram subtracting.program]

def subtracted : Cpu :=
  subtractor.after [.stepInstruction]

end Cpu

end X25
