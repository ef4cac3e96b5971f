import X25.Proofs.Machine.MemoryOperand
import X25.Proofs.Machine.Settled

/-! # Selections on a bus

A selection moves one word or changes nothing: whatever refuses it is found before anything is
written. Which endpoints a bus connects, why a selection is refused and what it leaves are said
here part by part, for a datapath in any state. A selection that was resolved earlier is carried
out in the state of that later moment.
-/

namespace X25

open Effect

/-- The buses feed registers to the operands, and deliver the result to a register or the sink. -/
inductive Transfer.Wired : Transfer → Prop
  | feedA (r : Register) : Wired ⟨.feedA, .register r, .aluA⟩
  | feedB (r : Register) : Wired ⟨.feedB, .register r, .aluB⟩
  | deliver (r : Register) : Wired ⟨.writeback, .aluOut, .register r⟩
  | release : Wired ⟨.writeback, .aluOut, .void⟩

namespace Bus

variable {b : Bus} {source destination : Endpoint} {t : Transfer} {e : FabricError}

theorem wired_iff :
    (⟨b, source, destination⟩ : Transfer).Wired ↔
      b.acceptsSource source = true ∧ b.acceptsDestination destination = true := by
  constructor
  · intro h
    cases h <;> exact ⟨rfl, rfl⟩
  · rintro ⟨hs, hd⟩
    cases b <;> cases source <;> cases hs <;> cases destination <;> cases hd <;> constructor

theorem wired_of_resolve (h : b.resolve source destination = .ok t) :
    t = ⟨b, source, destination⟩ ∧ t.Wired := by
  rw [resolve] at h
  split at h
  · cases h
  split at h
  · cases h
  cases h
  exact ⟨rfl, wired_iff.mpr ⟨by simp_all, by simp_all⟩⟩

theorem not_wired_of_resolve (h : b.resolve source destination = .error e) :
    ¬ (⟨b, source, destination⟩ : Transfer).Wired ∧
      ∃ q, e = .notWired b q ∧ (q = source ∨ q = destination) := by
  rw [resolve] at h
  rw [wired_iff]
  split at h
  · next hs =>
    cases h
    exact ⟨by simp_all, source, rfl, .inl rfl⟩
  split at h
  · next hd =>
    cases h
    exact ⟨by simp_all, destination, rfl, .inr rfl⟩
  · cases h

end Bus

/-- The transfer is the last on its bus, and one more was counted. -/
structure Fabric.Counted (f : Fabric) (t : Transfer) (f' : Fabric) : Prop where
  transfers : f'.transfers = f.transfers + 1
  selection : ∀ b, f'.selection b = if t.bus = b then some t else f.selection b

theorem Fabric.counted_record (f : Fabric) (t : Transfer) : f.Counted t (f.record t) where
  transfers := by rw [record]; split <;> rfl
  selection := f.selection_record t

namespace AddressSpace

/-- A word was stored at an address: in one cell of the first region with the address. -/
structure Stored (m : AddressSpace) (a v : Word) (m' : AddressSpace) : Prop
    extends m.Updated m' a v where
  regions : ∃ before r after, m.regions = before ++ r :: after ∧
    (∀ q ∈ before, q.contains a = false) ∧ r.contains a = true ∧
    m'.regions = before ++ { r with device := r.device.put (r.offset a) v } :: after

theorem exists_putIn {rs : List Region} {a : Word} {r : Region}
    (h : rs.find? (·.contains a) = some r) (v : Word) :
    ∃ before after, rs = before ++ r :: after ∧ (∀ q ∈ before, q.contains a = false) ∧
      putIn a v rs = before ++ r.put a v :: after := by
  induction rs with
  | nil => cases h
  | cons q rs ih =>
    rw [List.find?_cons] at h
    split at h
    · next hq =>
      cases h
      refine ⟨[], rs, rfl, by simp, ?_⟩
      rw [putIn, if_pos hq]
      rfl
    · next hq =>
      obtain ⟨before, after, rfl, hb, hp⟩ := ih h
      refine ⟨q :: before, after, rfl, ?_, ?_⟩
      · rw [List.forall_mem_cons]
        exact ⟨hq, hb⟩
      · rw [putIn, if_neg (by simp [hq]), hp]
        rfl

theorem stored_put {m : AddressSpace} {a : Word} (h : m.holds a = true) (v : Word) :
    m.Stored a v (m.put a v) := by
  rw [← get?_isSome, Option.isSome_iff_exists] at h
  obtain ⟨w, h⟩ := h
  refine ⟨updated_put h v, ?_⟩
  obtain ⟨r, hr, -⟩ := Option.bind_eq_some_iff.mp h
  obtain ⟨before, after, hm, hb, hp⟩ := exists_putIn hr v
  exact ⟨before, r, after, hm, hb, contains_of_find? hr, hp⟩

end AddressSpace

namespace Datapath

/-- A word was fed from a register, and the operands are now `x` and `y`. -/
structure Fed (d : Datapath) (r : Register) (v x y : Word) (d' : Datapath) : Prop where
  word : d.architecture.operand? r = some v
  registers : d'.registers = if r = .mdr then d.registers.put .mdr v else d.registers
  alu : d'.alu = { d.alu with
    a := x
    b := y
    out := (d.alu.operation.compute x y).1
    flags := if d.alu.latching then (d.alu.operation.compute x y).2 else d.alu.flags }
  memory : d'.memory = d.memory

structure Delivered (d : Datapath) (r : Register) (d' : Datapath) : Prop where
  writable : r.isConstant = false
  registers : d'.registers = d.registers.put r d.alu.out
  alu : d'.alu = d.alu
  kept : r ≠ .mdr → d'.memory = d.memory
  stored : r = .mdr → d.memory.Stored d.registers.mar d.alu.out d'.memory

structure Released (d : Datapath) (d' : Datapath) : Prop where
  registers : d'.registers = { d.registers with void := d.alu.out }
  alu : d'.alu = d.alu
  memory : d'.memory = d.memory

/-- What the datapath is after a transfer has moved a word, but for the wiring. -/
inductive Carries (d : Datapath) : Transfer → Word → Datapath → Prop
  | feedA {r : Register} {v : Word} {d' : Datapath} (h : d.Fed r v v d.alu.b d') :
    Carries d ⟨.feedA, .register r, .aluA⟩ v d'
  | feedB {r : Register} {v : Word} {d' : Datapath} (h : d.Fed r v d.alu.a v d') :
    Carries d ⟨.feedB, .register r, .aluB⟩ v d'
  | deliver {r : Register} {d' : Datapath} (h : d.Delivered r d') :
    Carries d ⟨.writeback, .aluOut, .register r⟩ d.alu.out d'
  | release {d' : Datapath} (h : d.Released d') :
    Carries d ⟨.writeback, .aluOut, .void⟩ d.alu.out d'

/-- Why a transfer is refused. -/
inductive Refuses (d : Datapath) : Transfer → MachineError → Prop
  | unwired {t : Transfer} {q : Endpoint} (h : ¬ t.Wired) (hq : q = t.source ∨ q = t.destination) :
    Refuses d t (.fabric (.notWired t.bus q))
  | unread {t : Transfer} {r : Register} (hs : t.source = .register r)
    (h : d.architecture.operand? r = none) : Refuses d t (.address ⟨d.registers.mar⟩)
  | constant {t : Transfer} {r : Register} (hd : t.destination = .register r)
    (h : r.isConstant = true) : Refuses d t (.fabric (.access ⟨.register r⟩))
  | unstored {t : Transfer} (hd : t.destination = .register .mdr)
    (h : d.memory.holds d.registers.mar = false) : Refuses d t (.address ⟨d.registers.mar⟩)

/-- A transfer moves a word and is counted, or it is refused and changes nothing. -/
inductive Settles (d : Datapath) (t : Transfer) : EStateM.Result MachineError Datapath Word → Prop
  | carried {v : Word} {d' : Datapath} (h : d.Carries t v d')
    (hf : d.fabric.Counted t d'.fabric) : Settles d t (.ok v d')
  | refused {e : MachineError} (h : d.Refuses t e) : Settles d t (.error e d)

variable {d : Datapath} {r : Register}

theorem read_cases (d : Datapath) (r : Register) :
    (∃ v, read (.register r) d = .ok v { d with
        registers := if r = .mdr then d.registers.put .mdr v else d.registers } ∧
      d.architecture.operand? r = some v) ∨
    read (.register r) d = .error (.address ⟨d.registers.mar⟩) d ∧
      d.architecture.operand? r = none := by
  obtain ⟨he, hr⟩ | ⟨v, he, rfl, hm⟩ | ⟨he, rfl, hm⟩ := read_register_cases r d
  · refine .inl ⟨d.registers.get r, ?_, Architecture.operand?_of_ne hr⟩
    rw [he, if_neg hr]
  · exact .inl ⟨v, he, hm⟩
  · exact .inr ⟨he, hm⟩

theorem settles_feed {t : Transfer} {fed : Word → Datapath → Datapath} (hs : t.source = .register r)
    (hc : ∀ v d', d.architecture.operand? r = some v → d' = fed v { d with
        registers := if r = .mdr then d.registers.put .mdr v else d.registers } →
      d.Carries t v d' ∧ d.fabric.Counted t d'.fabric)
    (he : commit t = (read (.register r) >>= fun v => modify (fed v) >>= fun _ => pure v)) :
    d.Settles t (commit t d) := by
  rw [he]
  obtain ⟨v, hr, ho⟩ | ⟨hr, ho⟩ := d.read_cases r
  · rw [bind_of_ok hr]
    obtain ⟨h, hf⟩ := hc v _ ho rfl
    exact .carried h hf
  · rw [bind_of_error hr]
    exact .refused (.unread hs ho)

theorem settles_feedA (d : Datapath) (r : Register) :
    d.Settles ⟨.feedA, .register r, .aluA⟩ (commit ⟨.feedA, .register r, .aluA⟩ d) := by
  refine settles_feed rfl ?_ (MicroOp.commit_feedA r)
  rintro v d' ho rfl
  exact ⟨.feedA ⟨ho, rfl, rfl, rfl⟩, d.fabric.counted_record _⟩

theorem settles_feedB (d : Datapath) (r : Register) :
    d.Settles ⟨.feedB, .register r, .aluB⟩ (commit ⟨.feedB, .register r, .aluB⟩ d) := by
  refine settles_feed rfl ?_ (MicroOp.commit_feedB r)
  rintro v d' ho rfl
  exact ⟨.feedB ⟨ho, rfl, rfl, rfl⟩, d.fabric.counted_record _⟩

/-- A delivery fails before it writes: a constant has no right to be written, and the store comes
before the register. -/
theorem settles_deliver (d : Datapath) (r : Register) :
    d.Settles ⟨.writeback, .aluOut, .register r⟩
      (commit ⟨.writeback, .aluOut, .register r⟩ d) := by
  rw [MicroOp.commit_writeback, bind_get]
  by_cases hr : r = .mdr
  · subst hr
    cases hm : d.memory.holds d.registers.mar with
    | true =>
      rw [bind_of_ok (write_mdr_of_ok (AddressSpace.store_of_holds hm d.alu.out))]
      refine .carried (.deliver ?_) (d.fabric.counted_record _)
      exact ⟨rfl, rfl, rfl, fun h => absurd rfl h, fun _ => AddressSpace.stored_put hm d.alu.out⟩
    | false =>
      rw [bind_of_error (write_mdr_of_error (AddressSpace.store_of_not_holds hm d.alu.out))]
      exact .refused (.unstored rfl hm)
  · cases hc : r.isConstant with
    | true =>
      rw [bind_of_error (write_constant hc d.alu.out d)]
      exact .refused (.constant rfl hc)
    | false =>
      rw [bind_of_ok (write_plain hc hr d.alu.out d)]
      refine .carried (.deliver ?_) (d.fabric.counted_record _)
      exact ⟨hc, rfl, rfl, fun _ => rfl, fun h => absurd h hr⟩

theorem settles_commit {t : Transfer} (h : t.Wired) (d : Datapath) : d.Settles t (commit t d) := by
  cases h with
  | feedA r => exact d.settles_feedA r
  | feedB r => exact d.settles_feedB r
  | deliver r => exact d.settles_deliver r
  | release => exact .carried (.release ⟨rfl, rfl, rfl⟩) (d.fabric.counted_record _)

/-- Whatever is asked of a bus, a selection moves a word with the effect of its transfer and no
other, or it is refused and changes nothing. The same holds in any other state for a transfer that
the bus has resolved. -/
theorem select_settles (b : Bus) (source destination : Endpoint) (d : Datapath) :
    d.Settles ⟨b, source, destination⟩ (select b source destination d) ∧
      ∀ t, b.resolve source destination = .ok t → ∀ d₁ : Datapath,
        d₁.Settles ⟨b, source, destination⟩ (commit t d₁) := by
  have hc (t) (h : b.resolve source destination = .ok t) (d₁ : Datapath) :
      d₁.Settles ⟨b, source, destination⟩ (commit t d₁) := by
    obtain ⟨rfl, hw⟩ := Bus.wired_of_resolve h
    exact settles_commit hw d₁
  refine ⟨?_, hc⟩
  rw [select]
  cases h : b.resolve source destination with
  | ok t => exact hc t h d
  | error e =>
    obtain ⟨hw, q, rfl, hq⟩ := Bus.not_wired_of_resolve h
    exact .refused (.unwired hw hq)

def delivering : Datapath where
  registers := RegisterFile.initial.put .mar 20
  alu := { Alu.initial with out := 0x41 }
  memory := ⟨[⟨0, 15, .ram 16⟩, ⟨16, 31, .console 16⟩], ""⟩
  fabric := .initial

theorem select_settles_delivering :
    Bus.writeback.resolve .aluOut (.register .mdr) = .ok ⟨.writeback, .aluOut, .register .mdr⟩ ∧
      select .writeback .aluOut (.register .mdr) (ofMemory .empty : Datapath) =
        .error (.address ⟨0⟩) (ofMemory .empty) ∧
      ∃ d', commit ⟨.writeback, .aluOut, .register .mdr⟩ delivering = .ok 0x41 d' ∧
        delivering.Delivered .mdr d' ∧ d'.memory.get? 20 = some 0x41 ∧ d'.memory.output = "A" := by
  refine ⟨rfl, rfl, _, rfl, ?_⟩
  have h :=
    (select_settles .writeback .aluOut (.register .mdr) (ofMemory .empty)).2 _ rfl delivering
  cases h with
  | carried h =>
    cases h with
    | deliver h => exact ⟨h, (h.stored rfl).words 20, (h.stored rfl).output⟩

end Datapath

end X25
