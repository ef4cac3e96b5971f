import X25.Proofs.Reset
import X25.Proofs.Startup

/-! # Sessions with a debugger

A debugger does nothing to its processor that a host could not do, except that a reset loads a new
one, or makes the old one forget what was shown if its executable was exchanged for one that the
machine does not take. So the processor of a debugger is one of a session, apart from what was shown
before, and its memory is arranged as its layout says.
-/

namespace X25

open Effect

namespace Debugger

variable {d : Debugger}

/-- The debuggers of all sessions. The executable that a reset loads may be exchanged. -/
inductive Reachable : Debugger → Prop
  | ofExecutable {e : Executable} {d : Debugger} (h : ofExecutable e = .ok d) : Reachable d
  | perform {d : Debugger} (h : Reachable d) (r : Request) : Reachable (d.perform r)
  | exchange {d : Debugger} (h : Reachable d) (e : Executable) :
      Reachable { d with executable := e }

/-- What a request can do to the processor. -/
inductive Affects (d : Debugger) : Cpu → Prop
  | spares : Affects d d.cpu
  | acts (a : Action) : Affects d (final (a.perform d.cpu))
  | loads {c : Cpu} (h : Cpu.ofExecutable d.executable = .ok c) : Affects d c
  | silences : Affects d d.cpu.silenced

theorem affects_of_discard {α : Type} {x : CpuM α} {a : Action} (h : a.perform = discard x) :
    d.Affects (final (x d.cpu)) := by
  have ha := Affects.acts (d := d) a
  rwa [h, final_discard] at ha

theorem affects_pulse (d : Debugger) : d.Affects d.pulse.cpu := by
  have hd : d.Affects (final (Cpu.advance d.cpu)) := affects_of_discard (a := .advance) rfl
  unfold pulse
  split
  · split
    · next h => rwa [h] at hd
    · next h => rwa [h] at hd
  · exact .spares

theorem affects_step (d : Debugger) : d.Affects d.step.cpu := by
  have hd : d.Affects (final (Cpu.stepInstruction d.cpu)) :=
    affects_of_discard (a := .stepInstruction) rfl
  unfold step
  split
  · split
    · next h => rwa [h] at hd
    · next h => rwa [h] at hd
  · exact .spares

theorem affects_tick (d : Debugger) : d.Affects d.tick.cpu := by
  unfold tick
  split
  · split
    · unfold stopAtBreakpoint
      split <;> exact affects_step d
    · exact .spares
  · exact .spares

theorem affects_reset (d : Debugger) : d.Affects d.reset.cpu := by
  unfold reset
  split
  · next h => exact .loads h
  · exact .silences

theorem affects_toggleBreakpoint (d : Debugger) : d.Affects d.toggleBreakpoint.cpu := by
  rw [toggleBreakpoint]
  split <;> exact .spares

theorem affects_perform (d : Debugger) (r : Request) : d.Affects (d.perform r).cpu := by
  cases r with
  | pulse => exact affects_pulse d
  | step => exact affects_step d
  | tick => exact affects_tick d
  | reset => exact affects_reset d
  | onCpu a => exact .acts a
  | toggleBreakpoint => exact affects_toggleBreakpoint d
  | run | pause | quit | scrollTo => exact .spares

theorem cpu_of_ofExecutable {e : Executable} (h : ofExecutable e = .ok d) :
    Cpu.ofExecutable e = .ok d.cpu := by
  unfold ofExecutable at h
  cases hc : Cpu.ofExecutable e with
  | error f => rw [hc] at h; cases h
  | ok c => rw [hc] at h; cases h; rfl

namespace Reachable

theorem after (h : Reachable d) (requests : List Request) : Reachable (d.after requests) := by
  induction requests generalizing d with
  | nil => exact h
  | cons r requests ih => exact ih (h.perform r)

/-- What was shown before a failed reset is all that sets the processor apart from those of
sessions without a debugger. -/
theorem exists_preceded (h : Reachable d) : ∃ t, (d.cpu.preceded t).Reachable := by
  have hnew {e : Executable} {c : Cpu} (hc : Cpu.ofExecutable e = .ok c) :
      (c.preceded "").Reachable := by
    have hp : c.preceded "" = c :=
      congrArg (fun t => c.modifyMemory fun s => ⟨s.regions, t⟩) String.empty_append
    rw [hp]
    exact .ofExecutable hc
  induction h with
  | ofExecutable h => exact ⟨"", hnew (cpu_of_ofExecutable h)⟩
  | exchange _ e ih => exact ih
  | @perform d _ r ih =>
    obtain ⟨t, ht⟩ := ih
    have ha := affects_perform d r
    generalize (d.perform r).cpu = c at ha ⊢
    cases ha with
    | spares => exact ⟨t, ht⟩
    | acts a =>
      have hb := congrArg final (Cpu.blind_perform t a d.cpu)
      rw [final_seen] at hb
      exact ⟨t, hb ▸ ht.perform a⟩
    | loads hc => exact ⟨"", hnew hc⟩
    | silences =>
      have hp : d.cpu.silenced.preceded (t ++ d.cpu.output) = d.cpu.preceded t :=
        congrArg (fun o => d.cpu.modifyMemory fun s => ⟨s.regions, o⟩) (String.append_empty)
      exact ⟨t ++ d.cpu.output, hp ▸ ht⟩

theorem idle (h : Reachable d) : d.cpu.datapath.Idle := by
  obtain ⟨t, ht⟩ := h.exists_preceded
  exact ht.idle

theorem isArranged (h : Reachable d) : d.cpu.IsArranged := by
  obtain ⟨t, ht⟩ := h.exists_preceded
  exact ht.space_eq

end Reachable

end Debugger

end X25
