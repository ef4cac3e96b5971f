import X25.Machine.Microprogram
import X25.Proofs.Effect

/-! # Transfers

What each step of a microprogram does, in one equation. A feed reads a register and recomputes the
arithmetic unit; a delivery writes a register and then leaves the result in the sink, which cannot
fail. Of the registers only the memory data register and the two constants are special.
-/

namespace X25

def Register.isConstant : Register → Bool
  | zero | one => true
  | _ => false

def Register.isMemoryRegister : Register → Bool
  | mdr | mar => true
  | _ => false

namespace Datapath

open Effect

variable {δ : Type} [MemoryDevice δ]

theorem read_of_ne_mdr {r : Register} (h : r ≠ .mdr) (d : Datapath δ) :
    read (.register r) d = .ok (d.registers.get r) d := by
  cases r <;> first | rfl | exact absurd rfl h

theorem read_mdr :
    (read (.register .mdr) : Step δ Word) =
      (do loadData; return (← get).value (.register .mdr)) := rfl

theorem read_mdr_of_some {d : Datapath δ} {v : Word}
    (h : d.memory.get? d.registers.mar = some v) :
    read (.register .mdr) d = .ok v { d with registers := d.registers.put .mdr v } := by
  have hl : loadData d = .ok () { d with registers := d.registers.put .mdr v } := by
    simp only [loadData, h]
  rw [read_mdr, bind_of_ok hl]
  rfl

theorem read_mdr_of_none {d : Datapath δ} (h : d.memory.get? d.registers.mar = none) :
    read (.register .mdr) d = .error (.address ⟨d.registers.mar⟩) d := by
  have hl : loadData d = .error (.address ⟨d.registers.mar⟩) d := by simp only [loadData, h]
  rw [read_mdr, bind_of_error hl]

theorem write_constant {r : Register} (h : r.isConstant = true) (v : Word) (d : Datapath δ) :
    write (.register r) v d = .error (.fabric (.access ⟨.register r⟩)) d := by
  cases r <;> first | rfl | cases h

theorem write_plain {r : Register} (hc : r.isConstant = false) (h : r ≠ .mdr) (v : Word)
    (d : Datapath δ) :
    write (.register r) v d = .ok () { d with registers := d.registers.put r v } := by
  cases r <;> first | rfl | exact absurd rfl h | cases hc

theorem write_mdr (v : Word) :
    (write (.register .mdr) v : Step δ Unit) =
      (do storeData v; modify (put (.register .mdr) v)) := rfl

theorem write_mdr_of_ok {d : Datapath δ} {v : Word} {s : AddressSpace δ}
    (h : AddressSpace.store d.registers.mar v d.memory = .ok () s) :
    write (.register .mdr) v d =
      .ok () { d with registers := d.registers.put .mdr v, memory := s } := by
  have hs : storeData v d = .ok () { d with memory := s } := by simp only [storeData, h]
  rw [write_mdr, bind_of_ok hs]
  rfl

theorem write_mdr_of_error {d : Datapath δ} {v : Word} {s : AddressSpace δ} {f : AddressFault}
    (h : AddressSpace.store d.registers.mar v d.memory = .error f s) :
    write (.register .mdr) v d = .error (.address f) { d with memory := s } := by
  have hs : storeData v d = .error (.address f) { d with memory := s } := by
    simp only [storeData, h]
  rw [write_mdr, bind_of_error hs]

theorem read_register_cases (r : Register) (d : Datapath δ) :
    (read (.register r) d = .ok (d.registers.get r) d ∧ r ≠ .mdr) ∨
      (∃ v, read (.register r) d = .ok v { d with registers := d.registers.put .mdr v } ∧
        r = .mdr ∧ d.memory.get? d.registers.mar = some v) ∨
      (read (.register r) d = .error (.address ⟨d.registers.mar⟩) d ∧
        r = .mdr ∧ d.memory.get? d.registers.mar = none) := by
  by_cases hr : r = .mdr
  · subst hr
    cases h : d.memory.get? d.registers.mar with
    | some v => exact .inr (.inl ⟨v, read_mdr_of_some h, rfl, rfl⟩)
    | none => exact .inr (.inr ⟨read_mdr_of_none h, rfl, rfl⟩)
  · exact .inl ⟨read_of_ne_mdr hr d, hr⟩

theorem write_register_cases (r : Register) (v : Word) (d : Datapath δ) :
    (write (.register r) v d = .error (.fabric (.access ⟨.register r⟩)) d ∧
        r.isConstant = true) ∨
      (write (.register r) v d = .ok () { d with registers := d.registers.put r v } ∧
        r.isConstant = false ∧ r ≠ .mdr) ∨
      (∃ s, write (.register r) v d =
          .ok () { d with registers := d.registers.put .mdr v, memory := s } ∧
        r = .mdr ∧ AddressSpace.store d.registers.mar v d.memory = .ok () s) ∨
      (∃ f s, write (.register r) v d = .error (.address f) { d with memory := s } ∧
        r = .mdr ∧ AddressSpace.store d.registers.mar v d.memory = .error f s) := by
  cases hc : r.isConstant with
  | true => exact .inl ⟨write_constant hc v d, rfl⟩
  | false =>
    by_cases hr : r = .mdr
    · subst hr
      cases h : AddressSpace.store d.registers.mar v d.memory with
      | ok u s => exact .inr (.inr (.inl ⟨s, write_mdr_of_ok h, rfl, rfl⟩))
      | error f s => exact .inr (.inr (.inr ⟨f, s, write_mdr_of_error h, rfl, rfl⟩))
    · exact .inr (.inl ⟨write_plain hc hr v d, rfl, hr⟩)

end Datapath

namespace MicroOp

open Effect Datapath

variable {δ : Type}

def fedA (r : Register) (v : Word) (d : Datapath δ) : Datapath δ :=
  { d with alu := d.alu.feedA v, fabric := d.fabric.record ⟨.feedA, .register r, .aluA⟩ }

def fedB (r : Register) (v : Word) (d : Datapath δ) : Datapath δ :=
  { d with alu := d.alu.feedB v, fabric := d.fabric.record ⟨.feedB, .register r, .aluB⟩ }

def delivered (r : Register) (d : Datapath δ) : Datapath δ :=
  { d with
    registers := { d.registers with void := d.alu.out }
    fabric := (d.fabric.record ⟨.writeback, .aluOut, .register r⟩).record
      ⟨.writeback, .aluOut, .void⟩ }

variable [MemoryDevice δ]

theorem commit_feedA (r : Register) :
    (commit ⟨.feedA, .register r, .aluA⟩ : Step δ Word) =
      (read (.register r) >>= fun v => modify (fedA r v) >>= fun _ => pure v) := rfl

theorem commit_feedB (r : Register) :
    (commit ⟨.feedB, .register r, .aluB⟩ : Step δ Word) =
      (read (.register r) >>= fun v => modify (fedB r v) >>= fun _ => pure v) := rfl

theorem commit_writeback (r : Register) :
    (commit ⟨.writeback, .aluOut, .register r⟩ : Step δ Word) =
      (get >>= fun d => write (.register r) d.alu.out >>= fun _ =>
        modify (fun d => { d with fabric := d.fabric.record ⟨.writeback, .aluOut, .register r⟩ })
          >>= fun _ => pure d.alu.out) := rfl

theorem run_feedA (r : Register) :
    ((feedA r).run : Step δ Unit) = (read (.register r) >>= fun v => modify (fedA r v)) := by
  have hs : (feedA r).run = discard (commit ⟨.feedA, .register r, .aluA⟩ : Step δ Word) := rfl
  simp only [hs, commit_feedA, discard_eq_bind, bind_assoc, pure_bind]
  rfl

theorem run_feedB (r : Register) :
    ((feedB r).run : Step δ Unit) = (read (.register r) >>= fun v => modify (fedB r v)) := by
  have hs : (feedB r).run = discard (commit ⟨.feedB, .register r, .aluB⟩ : Step δ Word) := rfl
  simp only [hs, commit_feedB, discard_eq_bind, bind_assoc, pure_bind]
  rfl

theorem run_deliver (r : Register) :
    ((deliver r).run : Step δ Unit) =
      (get >>= fun d => write (.register r) d.alu.out >>= fun _ => modify (delivered r)) := by
  have hs : (deliver r).run = (discard (commit ⟨.writeback, .aluOut, .register r⟩ : Step δ Word) >>=
      fun _ => releaseWriteback) := rfl
  simp only [hs, commit_writeback, discard_eq_bind, bind_assoc, pure_bind]
  rfl

theorem runAll_cons (op : MicroOp) (ops : List MicroOp) :
    (runAll (op :: ops) : Step δ Unit) = op.run >>= fun _ => runAll ops := rfl

theorem runAll_append (ops ops' : List MicroOp) :
    (runAll (ops ++ ops') : Step δ Unit) = runAll ops >>= fun _ => runAll ops' := by
  induction ops with
  | nil => rfl
  | cons op ops ih => simp only [List.cons_append, runAll_cons, ih, bind_assoc]

theorem runAll_singleton (op : MicroOp) : (runAll [op] : Step δ Unit) = op.run := by
  simp only [runAll, bind_pure_unit]

end MicroOp

end X25
