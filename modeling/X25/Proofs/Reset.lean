import X25.Debugger.Basic
import X25.Proofs.Machine.Echo
import X25.Proofs.Machine.Storing

/-! # What a reset forgets

A reset of a processor keeps its layout, its entry point, the words in its memory and what was
shown, and nothing else that a session did to it. A reset of a debugger does not keep these either,
and leaves what the debugger was at first, but for breakpoints, the view and the status.
-/

namespace X25

open Effect

namespace Cpu

variable {c c₁ c₂ : Cpu}

def silenced (c : Cpu) : Cpu :=
  c.modifyMemory AddressSpace.clearOutput

theorem preceded_silenced (c : Cpu) : c.silenced.preceded c.output = c := by
  have h : c.output ++ "" = c.output := String.append_empty
  show c.modifyMemory (fun s => ⟨s.regions, c.output ++ ""⟩) = c
  rw [h]
  rfl

/-- Where layout, entry point and words are the same, so are the processors after a reset, but for
what was shown. -/
theorem Reachable.silenced_reset_eq (h₁ : Reachable c₁) (h₂ : Reachable c₂)
    (hl : c₁.layout = c₂.layout) (he : c₁.entry = c₂.entry)
    (hm : ∀ a, c₁.memory.get? a = c₂.memory.get? a) : c₁.reset.silenced = c₂.reset.silenced := by
  have hr := h₁.regions_eq h₂ hl hm
  show started ⟨c₁.memory.regions, ""⟩ c₁.layout c₁.entry =
    started ⟨c₂.memory.regions, ""⟩ c₂.layout c₂.entry
  rw [hr, hl, he]

end Cpu

namespace Debugger

/-- What a user asks of a debugger, or a host of the processor in it. -/
inductive Request
  | pulse
  | step
  | run
  | tick
  | pause
  | toggleBreakpoint
  | reset
  | quit
  | scrollTo (words : Nat)
  | onCpu (a : Action)
  deriving DecidableEq, Repr

def perform (d : Debugger) : Request → Debugger
  | .pulse => d.pulse
  | .step => d.step
  | .run => d.run
  | .tick => d.tick
  | .pause => { d with running := false, status := "Paused." }
  | .toggleBreakpoint => d.toggleBreakpoint
  | .reset => d.reset
  | .quit => { d with quitting := true }
  | .scrollTo words => { d with scroll := words }
  | .onCpu a => { d with cpu := final (a.perform d.cpu) }

def after (d : Debugger) (requests : List Request) : Debugger :=
  requests.foldl perform d

theorem executable_step (d : Debugger) : d.step.executable = d.executable := by
  rw [step]
  split
  · split <;> rfl
  · rfl

theorem executable_perform (d : Debugger) (r : Request) :
    (d.perform r).executable = d.executable := by
  cases r with
  | pulse =>
    rw [perform, pulse]
    split
    · split <;> rfl
    · rfl
  | step => exact executable_step d
  | tick =>
    rw [perform, tick]
    split
    · split
      · rw [stopAtBreakpoint]
        split <;> exact executable_step d
      · rfl
    · rfl
  | toggleBreakpoint =>
    rw [perform, toggleBreakpoint]
    split <;> rfl
  | reset =>
    rw [perform, reset]
    split <;> rfl
  | run | pause | quit | scrollTo | onCpu => rfl

theorem executable_after (d : Debugger) (requests : List Request) :
    (d.after requests).executable = d.executable := by
  induction requests generalizing d with
  | nil => rfl
  | cons r requests ih => exact (ih (d.perform r)).trans (executable_perform d r)

theorem reset_after {e : Executable} {d₀ : Debugger} (h : ofExecutable e = .ok d₀)
    (requests : List Request) :
    (d₀.after requests).reset =
      { d₀ with
        breakpoints := (d₀.after requests).breakpoints
        quitting := (d₀.after requests).quitting
        status := "Reset. Ready."
        scroll := (d₀.after requests).scroll } := by
  have he := executable_after d₀ requests
  rw [ofExecutable] at h
  cases hc : Cpu.ofExecutable e with
  | error f => rw [hc] at h; cases h
  | ok cpu =>
    rw [hc] at h
    cases h
    simp only [reset, he, hc]

end Debugger

/-- A reset changes no word and shows nothing. After it a processor of any session does what any
other of the same layout, entry point and words does, action by action with the same answer or error
and the same processor, but for what was shown before. A reset of a debugger in any session gives
the new debugger, stopped, with nothing shown and its program in empty memory, but for its
breakpoints, the view, the wish to quit and the status. -/
theorem reset_forgets :
    (∀ c : Cpu, c.reset.memory = c.memory) ∧
      (∀ c₁ c₂ : Cpu, c₁.Reachable → c₂.Reachable → c₁.layout = c₂.layout → c₁.entry = c₂.entry →
        (∀ a, c₁.memory.get? a = c₂.memory.get? a) →
          ∃ c : Cpu, c.output = "" ∧
            c.preceded c₁.output = c₁.reset ∧ c.preceded c₂.output = c₂.reset ∧
              ∀ actions,
                c₁.reset.transcript actions =
                  (c.transcript actions).map (seen (Cpu.preceded c₁.output)) ∧
                c₂.reset.transcript actions =
                  (c.transcript actions).map (seen (Cpu.preceded c₂.output))) ∧
      ∀ (e : Executable) (d₀ : Debugger), Debugger.ofExecutable e = .ok d₀ →
        (∀ requests,
          let d := d₀.after requests
          d.reset =
            { d₀ with
              breakpoints := d.breakpoints
              quitting := d.quitting
              status := "Reset. Ready."
              scroll := d.scroll }) ∧
          d₀.running = false ∧ d₀.cpu.output = "" ∧
          ∀ a v, d₀.cpu.memory.get? a = some v →
            v = e.program[(a - e.header.layout.ramStart).toNat]?.getD 0 := by
  refine ⟨fun _ => rfl, fun c₁ c₂ h₁ h₂ hl he hm => ?_, fun e d₀ h => ?_⟩
  · have hs := h₁.silenced_reset_eq h₂ hl he hm
    have hp₁ : c₁.reset.silenced.preceded c₁.output = c₁.reset := Cpu.preceded_silenced c₁.reset
    have hp₂ : c₁.reset.silenced.preceded c₂.output = c₂.reset :=
      hs ▸ Cpu.preceded_silenced c₂.reset
    refine ⟨c₁.reset.silenced, rfl, hp₁, hp₂, fun actions => ⟨?_, ?_⟩⟩
    · rw [← Cpu.transcript_preceded, hp₁]
    · rw [← Cpu.transcript_preceded, hp₂]
  · refine ⟨Debugger.reset_after h, ?_⟩
    rw [Debugger.ofExecutable] at h
    cases hc : Cpu.ofExecutable e with
    | error f => rw [hc] at h; cases h
    | ok cpu =>
      rw [hc] at h
      cases h
      exact ⟨rfl, Cpu.output_of_ofExecutable hc, fun a v => Cpu.get?_of_ofExecutable hc⟩

open Cpu in
theorem reset_forgets_subtracting :
    let c := subtractor.after
      [.writeMemory 16 0x41, .writeMemory 16 0, .stepInstruction, .stepInstruction]
    let d₀ : Debugger := ⟨subtractor, subtracting, [], false, false, Debugger.greeting, 0⟩
    let d := d₀.after [.step, .toggleBreakpoint, .run, .tick]
    c.state = .faulted ∧ c.flags ≠ subtractor.flags ∧ c.output = "A" ∧ subtractor.output = "" ∧
      (∃ c₀ : Cpu, c₀.preceded "A" = c.reset ∧ c₀.preceded "" = subtractor.reset ∧
        ∀ actions,
          c.reset.transcript actions = (c₀.transcript actions).map (seen (Cpu.preceded "A"))) ∧
      Debugger.ofExecutable subtracting = .ok d₀ ∧ d.cpu.state = .faulted ∧
      d.reset = { d₀ with breakpoints := [2], status := "Reset. Ready." } := by
  intro c d₀ d
  obtain ⟨-, hcpu, hdebugger⟩ := reset_forgets
  have h₀ : Reachable subtractor := .ofExecutable (e := subtracting) rfl
  have hm : c.memory.regions = subtractor.memory.regions := by decide +kernel
  have ho : c.output = "A" := by decide +kernel
  have ho₀ : subtractor.output = "" := rfl
  have hg (a : Word) : c.memory.get? a = subtractor.memory.get? a := by
    rw [AddressSpace.get?, AddressSpace.regionAt?, hm]
    rfl
  obtain ⟨c₀, -, hc, hc₀, ht⟩ := hcpu c subtractor (h₀.after _) h₀ (by decide +kernel)
    (by decide +kernel) hg
  rw [ho] at hc ht
  have hd : Debugger.ofExecutable subtracting = .ok d₀ := rfl
  have hb : d.breakpoints = [2] := by decide +kernel
  have hq : d.quitting = false := by decide +kernel
  have hs : d.scroll = 0 := by decide +kernel
  have hr := (hdebugger subtracting d₀ hd).1 [.step, .toggleBreakpoint, .run, .tick]
  refine ⟨by decide +kernel, by decide +kernel, ho, ho₀,
    ⟨c₀, hc, hc₀, fun actions => (ht actions).1⟩, hd, by decide +kernel, hr.trans ?_⟩
  show Debugger.mk d₀.cpu d₀.executable d.breakpoints d₀.running d.quitting _ d.scroll = _
  rw [hb, hq, hs]

end X25
