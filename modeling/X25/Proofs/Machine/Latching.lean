import X25.Proofs.Machine.Architecture
import X25.Proofs.Machine.Phase
import X25.Proofs.Machine.Session

/-! # Latching of flags

Between two phases the arithmetic unit never takes flags over: only the routines of arithmetic turn
that on, and the execute phase turns it off again, also when it fails.
-/

namespace X25

open Effect

variable {δ : Type} [MemoryDevice δ] {b : Bool}

namespace Datapath

def IsLatching (b : Bool) (d : Datapath δ) : Prop :=
  d.alu.latching = b

theorem keeps_isLatching_read (r : Register) :
    Keeps (IsLatching b : Datapath δ → Prop) (read (.register r)) := by
  intro d h
  obtain ⟨he, -⟩ | ⟨v, he, -⟩ | ⟨he, -⟩ := read_register_cases r d <;> rw [he] <;> exact h

theorem keeps_isLatching_write (r : Register) (v : Word) :
    Keeps (IsLatching b : Datapath δ → Prop) (write (.register r) v) := by
  intro d h
  obtain ⟨he, -⟩ | ⟨he, -⟩ | ⟨s, he, -⟩ | ⟨f, s, he, -⟩ := write_register_cases r v d <;>
    rw [he] <;> exact h

end Datapath

namespace MicroOp

open Datapath

theorem keeps_isLatching_run {op : MicroOp} (h : op ≠ .latchFlags) :
    Keeps (IsLatching b : Datapath δ → Prop) op.run := by
  cases op with
  | latchFlags => exact absurd rfl h
  | operate m => exact fun _ hd => hd
  | feedA r =>
    rw [run_feedA]
    exact (keeps_isLatching_read r).bind fun v _ hd => hd
  | feedB r =>
    rw [run_feedB]
    exact (keeps_isLatching_read r).bind fun v _ hd => hd
  | deliver r =>
    rw [run_deliver]
    have hm : Keeps (IsLatching b) (modify (delivered r) : Datapath.Step δ PUnit) :=
      fun _ hd => hd
    exact fun d hd => ((keeps_isLatching_write r d.alu.out).bind fun _ => hm) d hd

theorem keeps_isLatching_runAll {ops : List MicroOp} (h : latchFlags ∉ ops) :
    Keeps (IsLatching b : Datapath δ → Prop) (runAll ops) := by
  induction ops with
  | nil => exact .of_pure ()
  | cons op ops ih =>
    obtain ⟨ho, hs⟩ := not_or.mp (mt List.mem_cons.mpr h)
    rw [runAll_cons]
    exact (keeps_isLatching_run (Ne.symm ho)).bind fun _ => ih hs

theorem keeps_idle_runAll {ops : List MicroOp} (h : latchFlags ∉ ops) :
    Keeps Idle (runAll ops) :=
  keeps_isLatching_runAll h

end MicroOp

namespace Machine

variable {m : Machine}

theorem idle_of_ticks {r : EStateM.Result MachineError Machine Phase} (ht : Ticks m r)
    (h : m.datapath.Idle) : (final r).datapath.Idle := by
  cases ht with
  | fetch1 | fetch2 | decoded =>
    rw [final_ending]
    exact MicroOp.keeps_idle_runAll (by decide) _ h
  | routine =>
    rw [final_ending, final_seen]
    rfl
  | undecoded | nothing | unmapped | skipped => exact h
  | unimplemented => rfl

theorem idle_tick (h : m.datapath.Idle) : (final (tick m)).datapath.Idle :=
  idle_of_ticks (ticks_tick m) h

end Machine

namespace Cpu

theorem stable_idle : Stable fun c => c.datapath.Idle where
  risingEdge c _ h := by
    have ht := Machine.idle_tick h
    simp only [risingEdge]
    cases hm : Machine.tick c.machine <;> rw [hm] at ht <;> exact ht
  halt c h := by
    rw [halt]
    split <;> exact h
  resume c h := by
    rw [resume]
    split <;> exact h
  reset _ _ := rfl
  setEntry _ _ h := h
  setRegister _ _ _ h := h
  writeMemory a v c h := by
    rw [writeMemory]
    split <;> exact h

theorem Reachable.idle {c : Cpu} (h : Reachable c) : c.datapath.Idle := by
  refine h.of_stable stable_idle fun l c h => ?_
  rw [Cpu.ofLayout] at h
  split at h <;> cases h
  rfl

end Cpu

end X25
