import X25.Proofs.Assembly.Listing
import X25.Proofs.Machine.Storing
import X25.Workbench

/-! # Failed loads

A source with an error in it leaves a workbench as it was. A source that assembles to more words
than working memory has does not: the processor stays, but its console is cleared, and the program
that does not fit has taken the place of the old one, so that resets fail from then on.
-/

namespace X25.Workbench

open Effect

/-- What a program that embeds the machine asks of a workbench. -/
inductive Request
  | loadSource (source : String)
  | cycle
  | stepInstruction
  | run (cycles : Nat)
  | reset
  deriving DecidableEq, Repr

namespace Request

def perform : Request → WorkbenchM Unit
  | loadSource source => discard (Workbench.loadSource source)
  | cycle => discard Workbench.cycle
  | stepInstruction => discard Workbench.stepInstruction
  | run cycles => discard (Workbench.run cycles)
  | reset => Workbench.reset

/-- The request puts a program in the place of the one before. -/
def Replaces (r : Request) : Prop :=
  ∃ source words, r = loadSource source ∧ Assembly.assemble source = .ok words

end Request

inductive Reachable : Workbench → Prop
  | initial {w : Workbench} (h : initial = .ok w) : Reachable w
  | perform {w : Workbench} (h : Reachable w) (r : Request) : Reachable (final (r.perform w))

def after (w : Workbench) (requests : List Request) : Workbench :=
  requests.foldl (fun w r => final (r.perform w)) w

theorem Reachable.after {w : Workbench} (h : Reachable w) (requests : List Request) :
    Reachable (w.after requests) := by
  induction requests generalizing w with
  | nil => exact h
  | cons r requests ih => exact ih (h.perform r)

def loaded (program : List Word) : Cpu :=
  let memory : AddressSpace :=
    ⟨[⟨0x0000, 0x0FFF, .ram 4096⟩, ⟨0x1000, 0x10FF, .console 256⟩], ""⟩
  Cpu.started (memory.putAll 0 program) .standard 0

theorem ofLayout_standard : Cpu.ofLayout .standard = .ok (loaded []) := rfl

theorem initial_eq : initial = .ok ⟨loaded [], []⟩ := rfl

section Loading

variable {w : Workbench} {source : String} {words : List Word}

theorem rebuilt_eq (hl : w.cpu.layout = .standard) :
    w.rebuilt =
      if 4096 < w.program.length then .error (.programTooLarge w.program.length 4096)
      else .ok (loaded w.program) := by
  by_cases h : 4096 < w.program.length
  · have hp : Cpu.loadProgram w.program (loaded []) =
        .error (.programTooLarge w.program.length 4096) (loaded []) := Cpu.loadProgram_of_lt h
    simp only [rebuilt, hl, ofLayout_standard, bind, Except.bind, hp, if_pos h]
    rfl
  · have ha : (loaded []).IsArranged := (Cpu.Reachable.ofLayout ofLayout_standard).space_eq
    have hp : Cpu.loadProgram w.program (loaded []) = .ok () (loaded w.program) :=
      ha.loadProgram_eq (Nat.le_of_not_lt h)
    simp only [rebuilt, hl, ofLayout_standard, bind, Except.bind, hp, if_neg h]
    rfl

theorem reset_of_le (hl : w.cpu.layout = .standard) (h : w.program.length ≤ 4096) :
    reset w = .ok () ⟨loaded w.program, w.program⟩ := by
  rw [reset, rebuilt_eq hl, if_neg (Nat.not_lt.mpr h)]

theorem reset_of_lt (hl : w.cpu.layout = .standard) (h : 4096 < w.program.length) :
    reset w = .error (.machine (.programTooLarge w.program.length 4096))
      ⟨w.cpu.modifyMemory AddressSpace.clearOutput, w.program⟩ := by
  rw [reset, rebuilt_eq hl, if_pos h]

theorem loadSource_of_error {f : SourceError} (h : Assembly.assemble source = .error f)
    (w : Workbench) : loadSource source w = .error (.source f) w := by
  rw [loadSource, h]
  rfl

theorem loadSource_of_le (hl : w.cpu.layout = .standard) (h : Assembly.assemble source = .ok words)
    (hn : words.length ≤ 4096) :
    loadSource source w = .ok (words.length / 2) ⟨loaded words, words⟩ := by
  have hr : reset ⟨w.cpu, words⟩ = .ok () ⟨loaded words, words⟩ := reset_of_le hl hn
  rw [loadSource, h]
  exact (bind_modify _ _ w).trans (bind_of_ok hr)

theorem loadSource_of_lt (hl : w.cpu.layout = .standard) (h : Assembly.assemble source = .ok words)
    (hn : 4096 < words.length) :
    loadSource source w = .error (.machine (.programTooLarge words.length 4096))
      ⟨w.cpu.modifyMemory AddressSpace.clearOutput, words⟩ := by
  have hr : reset ⟨w.cpu, words⟩ = .error (.machine (.programTooLarge words.length 4096))
    ⟨w.cpu.modifyMemory AddressSpace.clearOutput, words⟩ := reset_of_lt hl hn
  rw [loadSource, h]
  exact (bind_modify _ _ w).trans (bind_of_error hr)

end Loading

section Session

variable {w : Workbench} {p : List Word}

theorem keeps_onCpu {α : Type} {P : Cpu → Prop} {x : CpuM α} (h : Effect.Keeps P x) :
    Keeps (fun w => P w.cpu ∧ w.program = p) (onCpu x) := by
  rintro ⟨cpu, program⟩ ⟨hc, hp⟩
  have hx := h cpu hc
  rw [onCpu]
  cases hr : x cpu <;> rw [hr] at hx <;> exact ⟨hx, hp⟩

/-- The layout stays, and so does the program until another source assembles. -/
theorem keeps_program {r : Request} (hr : ¬ r.Replaces) :
    Keeps (fun w => w.cpu.layout = .standard ∧ w.program = p) r.perform := by
  have hs := Cpu.stable_layout .standard
  cases r with
  | loadSource source =>
    cases ha : Assembly.assemble source with
    | ok words => exact absurd ⟨source, words, rfl, ha⟩ hr
    | error f =>
      intro w hw
      rw [Request.perform, discard_of_error (loadSource_of_error ha w)]
      exact hw
  | cycle => exact ((keeps_onCpu hs.advance).bind fun _ => .of_pure _).discard
  | stepInstruction =>
    exact ((keeps_onCpu (hs.advanceToExecute 4)).bind fun _ => .of_pure _).discard
  | run cycles =>
    have hg : Keeps (fun w : Workbench => w.cpu.layout = .standard ∧ w.program = p)
        (do return (← get).cpu.cycles : WorkbenchM Nat) := fun _ h => h
    exact ((keeps_onCpu (hs.run cycles)).discard.bind fun _ => hg).discard
  | reset =>
    rintro w ⟨hl, hp⟩
    rw [Request.perform]
    by_cases hn : 4096 < w.program.length
    · rw [reset_of_lt hl hn]
      exact ⟨hl, hp⟩
    · rw [reset_of_le hl (Nat.le_of_not_lt hn)]
      exact ⟨rfl, hp⟩

theorem layout_perform (hl : w.cpu.layout = .standard) (r : Request) :
    (final (r.perform w)).cpu.layout = .standard := by
  by_cases hr : r.Replaces
  · obtain ⟨source, words, rfl, ha⟩ := hr
    rw [Request.perform]
    by_cases hn : 4096 < words.length
    · rw [discard_of_error (loadSource_of_lt hl ha hn)]
      exact hl
    · rw [discard_of_ok (loadSource_of_le hl ha (Nat.le_of_not_lt hn))]
      rfl
  · exact (keeps_program (p := w.program) hr w ⟨hl, rfl⟩).1

theorem Reachable.layout_eq (h : Reachable w) : w.cpu.layout = .standard := by
  induction h with
  | initial h =>
    rw [initial_eq] at h
    cases h
    rfl
  | perform _ r ih => exact layout_perform ih r

theorem program_after (hl : w.cpu.layout = .standard) {requests : List Request}
    (hr : ∀ r ∈ requests, ¬ r.Replaces) :
    (w.after requests).cpu.layout = .standard ∧ (w.after requests).program = w.program := by
  induction requests generalizing w with
  | nil => exact ⟨hl, rfl⟩
  | cons r requests ih =>
    obtain ⟨hl', hp⟩ := keeps_program (p := w.program) (hr r List.mem_cons_self) w ⟨hl, rfl⟩
    obtain ⟨hl'', hp'⟩ := ih hl' fun r' hr' => hr r' (List.mem_cons_of_mem r hr')
    exact ⟨hl'', hp'.trans hp⟩

end Session

def letterSource : String :=
  "MOV GP0, 65\nSTORE GP0, 0x1000"

def letterWords : List Word :=
  [0x24218000, 65, 0x4C200000, 0x1000]

theorem assemble_letterSource : Assembly.assemble letterSource = .ok letterWords := by
  decide +kernel

def lettered : Workbench :=
  after ⟨loaded [], []⟩ [.loadSource letterSource, .run 8]

theorem lettered_eq :
    lettered = final ((Request.run 8).perform ⟨loaded letterWords, letterWords⟩) := by
  have hl : loadSource letterSource ⟨loaded [], []⟩ = .ok 2 ⟨loaded letterWords, letterWords⟩ :=
    loadSource_of_le rfl assemble_letterSource (by decide)
  have hp : (Request.loadSource letterSource).perform ⟨loaded [], []⟩ =
      .ok () ⟨loaded letterWords, letterWords⟩ := discard_of_ok hl
  rw [lettered, after, List.foldl_cons, hp, final_ok, List.foldl_cons, List.foldl_nil]

theorem reachable_lettered : Reachable lettered :=
  (Reachable.initial initial_eq).after _

theorem output_lettered : lettered.cpu.output = "A" := by
  rw [lettered_eq]
  decide +kernel

theorem program_lettered : lettered.program = letterWords := by
  have hr : ¬ (Request.run 8).Replaces := by
    rintro ⟨source, words, h, -⟩
    cases h
  rw [lettered_eq]
  exact (keeps_program (p := letterWords) hr ⟨loaded letterWords, letterWords⟩ ⟨rfl, rfl⟩).2

def idleSource (n : Nat) : String :=
  .ofList (List.replicate n ['N', 'O', 'P', '\n']).flatten

theorem lines_idleSource (n : Nat) :
    Text.lines (idleSource n).toList = List.replicate n ['N', 'O', 'P'] := by
  rw [idleSource, String.toList_ofList]
  induction n with
  | zero => exact Text.lines_nil
  | succ n ih =>
    have hf : '\n' ∉ ['N', 'O', 'P'] := by decide
    rw [List.replicate_succ, List.replicate_succ, List.flatten_cons, ← ih]
    exact Text.lines_append_feed hf _

theorem assemble_idleSource (n : Nat) :
    ∃ words, Assembly.assemble (idleSource n) = .ok words ∧ words.length = 2 * n := by
  let p := (Statement.bare .nop .always).encode
  have hl : Statement.ofLine ['N', 'O', 'P'] =
      .ok (some (.instruction (Statement.bare .nop .always))) := by decide +kernel
  have hp : Assembly.assemblePairs (idleSource n) = .ok (List.replicate n p) := by
    rw [Assembly.assemblePairs, lines_idleSource]
    exact Assembly.assembleLines_replicate (fun k => Assembly.assembleNumbered_of_ofLine hl k) n 1
  refine ⟨(List.replicate n p).flatMap WordPair.toList, ?_, ?_⟩
  · rw [Assembly.assemble, hp]
    rfl
  · rw [List.flatMap_replicate, List.length_flatten, List.map_replicate, List.sum_replicate_nat]
    exact Nat.mul_comm n 2

/-- A workbench in any session can load its program again if it fits. A load that fails leaves the
workbench as it was if the source has an error in it. If the program of the source does not fit, it
stays in the place of the old one: the processor is as it was but for the console, which is empty,
and whatever is asked from then on, every reset fails until another source assembles. -/
theorem failed_load {w : Workbench} (h : Reachable w) {source : String} {e : WorkbenchError}
    {w' : Workbench} (he : loadSource source w = .error e w') :
    (w.program.length ≤ 4096 → reset w = .ok () ⟨loaded w.program, w.program⟩) ∧
      ((∃ f, Assembly.assemble source = .error f ∧ e = .source f ∧ w' = w) ∨
        ∃ words, Assembly.assemble source = .ok words ∧ 4096 < words.length ∧
          e = .machine (.programTooLarge words.length 4096) ∧
          w' = ⟨w.cpu.modifyMemory AddressSpace.clearOutput, words⟩ ∧
          ∀ requests, (∀ r ∈ requests, ¬ r.Replaces) →
            ∃ w₁, reset (w'.after requests) = .error e w₁) := by
  have hl := h.layout_eq
  refine ⟨reset_of_le hl, ?_⟩
  cases ha : Assembly.assemble source with
  | error f =>
    rw [loadSource_of_error ha] at he
    cases he
    exact .inl ⟨f, rfl, rfl, rfl⟩
  | ok words =>
    by_cases hn : 4096 < words.length
    · rw [loadSource_of_lt hl ha hn] at he
      cases he
      refine .inr ⟨words, rfl, hn, rfl, rfl, fun requests hr => ?_⟩
      have hc : (w.cpu.modifyMemory AddressSpace.clearOutput).layout = .standard := hl
      obtain ⟨hl', hp⟩ := program_after
        (w := ⟨w.cpu.modifyMemory AddressSpace.clearOutput, words⟩) hc hr
      have hf := reset_of_lt hl' (hp ▸ hn)
      rw [hp] at hf
      exact ⟨_, hf⟩
    · rw [loadSource_of_le hl ha (Nat.le_of_not_lt hn)] at he
      cases he

theorem failed_load_lettered :
    lettered.Reachable ∧ lettered.cpu.output = "A" ∧
      reset lettered = .ok () ⟨loaded letterWords, letterWords⟩ ∧
      ∃ e w', loadSource (idleSource 2049) lettered = .error e w' ∧
        e = .machine (.programTooLarge 4098 4096) ∧ w'.cpu.output = "" ∧
        w'.program.length = 4098 ∧ (∃ w₁, reset w' = .error e w₁) ∧
        ∃ w₁, reset (w'.after [.reset, .run 8]) = .error e w₁ := by
  obtain ⟨words, ha, hn⟩ := assemble_idleSource 2049
  have hs := loadSource_of_lt reachable_lettered.layout_eq ha (by omega)
  obtain ⟨hr, hf⟩ := failed_load reachable_lettered hs
  rw [program_lettered] at hr
  obtain ⟨f, hf, -⟩ | ⟨words', ha', -, he, hw, hl⟩ := hf
  · rw [ha] at hf
    cases hf
  · rw [ha] at ha'
    cases ha'
    have hq : ∀ r ∈ [Request.reset, .run 8], ¬ r.Replaces := by
      rintro r hr ⟨source, -, rfl, -⟩
      simp at hr
    refine ⟨reachable_lettered, output_lettered, hr (by decide), _, _, hs, ?_, rfl, hn,
      hl [] (fun r hr => absurd hr List.not_mem_nil), hl _ hq⟩
    rw [hn]

/-- Not every load that fails leaves processor, program and later resets as they were. -/
theorem not_kept_by_failed_load :
    ¬ ∀ w : Workbench, w.Reachable → ∀ source e w', loadSource source w = .error e w' →
      w'.cpu = w.cpu ∧ w'.program = w.program ∧
        ∀ w₁, reset w = .ok () w₁ → reset w' = .ok () w₁ := by
  intro hk
  have hl := reachable_lettered.layout_eq
  obtain ⟨words, ha, hn⟩ := assemble_idleSource 2049
  have hn' : 4096 < words.length := by omega
  have hf := loadSource_of_lt hl ha hn'
  obtain ⟨-, hp, -⟩ := hk lettered reachable_lettered _ _ _ hf
  replace hp : words = lettered.program := hp
  rw [hp, program_lettered] at hn'
  exact absurd hn' (by decide)

end X25.Workbench
