import X25.Proofs.Machine.MemoryOperand

/-! # What an instruction stores

An instruction stores one word or none, and which word is told by what a program sees before it is
executed: a store writes its register, and whatever replaces the memory data register is written
too. Nothing else that the machine does changes the memory, also where a phase fails.
-/

namespace X25

open Effect

structure MemoryWrite where
  address : Word
  value : Word
  deriving DecidableEq, Repr

def AddressSpace.replay (s : AddressSpace) (ws : List MemoryWrite) : AddressSpace :=
  ws.foldl (fun s w => s.put w.address w.value) s

theorem AddressSpace.replay_append (s : AddressSpace) (ws ws' : List MemoryWrite) :
    s.replay (ws ++ ws') = (s.replay ws).replay ws' :=
  List.foldl_append

namespace Architecture

/-- All is the same but what the memory data register holds. -/
structure Reloaded (s s' : Architecture) : Prop where
  memory : s'.memory = s.memory
  registers : ∀ q, q ≠ .mdr → s'.registers q = s.registers q

variable {s s' : Architecture} {d r : Register} {a v w : Word} {m : AddressSpace}

theorem Reloaded.operand? (h : Reloaded s s') (r : Register) :
    s'.operand? r = s.operand? r := by
  rw [Architecture.operand?, Architecture.operand?, h.memory, h.registers .mar (by decide)]
  split
  · rfl
  · next hr => rw [h.registers r hr]

theorem read_cases (s : Architecture) (r : Register) :
    (∃ v s', read r s = .ok v s' ∧ s.operand? r = some v ∧ Reloaded s s') ∨
      ∃ e, read r s = .error e s ∧ s.operand? r = none := by
  cases h : s.operand? r with
  | none => exact .inr ⟨_, read_of_operand?_eq_none h, rfl⟩
  | some v =>
    refine .inl ⟨v, s.set r v, read_of_operand?_eq_some h, rfl, rfl, fun q hq => ?_⟩
    by_cases hr : r = .mdr
    · exact s.set_of_ne (hr ▸ hq) v
    · cases (operand?_of_ne hr).symm.trans h
      rw [set_registers]

theorem keeps_memory_read (r : Register) :
    Keeps (fun s : Architecture => s.memory = m) (read r) := by
  intro s h
  obtain ⟨v, s', hr, -, hs⟩ | ⟨e, hr, -⟩ := s.read_cases r
  · rw [hr]
    exact hs.memory.trans h
  · rw [hr]
    exact h

theorem keeps_memory_write (h : d ≠ .mdr) (v : Word) :
    Keeps (fun s : Architecture => s.memory = m) (write d v) := by
  intro s hs
  cases hc : d.isConstant with
  | true =>
    rw [write_constant s hc]
    exact hs
  | false =>
    rw [write_plain s hc h]
    exact hs

theorem keeps_memory_send (f : Word → Word) (r : Register) (h : d ≠ .mdr) :
    Keeps (fun s : Architecture => s.memory = m) (send f r d) :=
  (keeps_memory_read r).bind fun _ => keeps_memory_write h _

theorem memory_write_mdr (s : Architecture) (v : Word) :
    (final (write .mdr v s)).memory = s.memory.replay
      ((s.memory.get? (s.registers .mar)).map fun _ => ⟨s.registers .mar, v⟩).toList := by
  simp only [write, Register.isConstant, Bool.false_eq_true, if_false, if_true]
  cases h : s.memory.get? (s.registers .mar) with
  | some w =>
    rw [AddressSpace.holds_of_get?_eq_some h, if_pos rfl]
    rfl
  | none =>
    rw [AddressSpace.holds_of_get?_eq_none h, if_neg Bool.false_ne_true]
    rfl

/-- What a store takes from a register, once its address is in place. -/
theorem Reloaded.operand?_set_mar (h : Reloaded s s') (hw : s.memory.get? a = some w)
    (d : Register) : (s'.set .mar a).operand? d = some (s.spilled d a w) := by
  rw [Architecture.operand?, set_self, spilled]
  by_cases hd : d = .mdr
  · subst hd
    rw [if_pos rfl, if_neg (by decide), if_pos rfl]
    exact (congrArg (·.get? a) h.memory).trans hw
  · rw [if_neg hd, if_neg hd]
    by_cases ha : d = .mar
    · rw [if_pos ha, ha, set_self]
    · rw [if_neg ha, set_of_ne _ ha, h.registers d hd]

theorem memory_send_mdr (hs : Reloaded s s') (a : Word) (d : Register) :
    (final (send id d .mdr (s'.set .mar a))).memory = s.memory.replay
      ((s.memory.get? a).map fun w => ⟨a, s.spilled d a w⟩).toList := by
  have hm : (s'.set .mar a).memory = s.memory := hs.memory
  rw [send]
  obtain ⟨v, t, ht, ho, hst⟩ | ⟨e, ht, ho⟩ := (s'.set .mar a).read_cases d
  · have ha : t.registers .mar = a := by rw [hst.registers .mar (by decide), set_self]
    rw [bind_of_ok ht, memory_write_mdr, hst.memory.trans hm, ha, id]
    cases hw : s.memory.get? a with
    | none => rfl
    | some w =>
      rw [hs.operand?_set_mar hw] at ho
      cases ho
      rfl
  · rw [bind_of_error ht]
    cases hw : s.memory.get? a with
    | none => exact hm
    | some w =>
      rw [hs.operand?_set_mar hw] at ho
      cases ho

theorem send_mar_cases (s : Architecture) (r : Register) :
    (∃ a s', send id r .mar s = .ok () (s'.set .mar a) ∧ s.operand? r = some a ∧ Reloaded s s') ∨
      ∃ e, send id r .mar s = .error e s ∧ s.operand? r = none := by
  obtain ⟨a, s', h, ho, hs⟩ | ⟨e, h, ho⟩ := s.read_cases r
  · refine .inl ⟨a, s', ?_, ho, hs⟩
    rw [send, bind_of_ok h, write_plain s' rfl (by decide), id]
  · refine .inr ⟨e, ?_, ho⟩
    rw [send, bind_of_error h]

end Architecture

namespace Task

/-- The word that the task stores, if it gets as far. -/
def write? (s : Architecture) : Task → Option MemoryWrite
  | compute m d r =>
    if d = .mdr then
      (s.operand? .mdr).bind fun x =>
        (s.operand? r).map fun y => ⟨s.registers .mar, (m.compute x y).1⟩
    else none
  | load d r =>
    if d = .mdr then
      (s.operand? r).bind fun a => (s.memory.get? a).map fun v => ⟨a, v⟩
    else none
  | store d r =>
    (s.operand? r).bind fun a => (s.memory.get? a).map fun w => ⟨a, s.spilled d a w⟩
  | jump | nothing => none

open Architecture

variable {s : Architecture}

theorem memory_compute (m : Microcode) (d r : Register) :
    (final ((compute m d r).visible s)).memory =
      s.memory.replay ((compute m d r).write? s).toList := by
  by_cases hd : d = .mdr
  · subst hd
    simp only [visible, operate, write?, if_true]
    obtain ⟨x, s₁, h₁, ho₁, hs₁⟩ | ⟨e, h₁, ho₁⟩ := s.read_cases .mdr
    · rw [bind_of_ok h₁, ho₁]
      obtain ⟨y, s₂, h₂, ho₂, hs₂⟩ | ⟨e, h₂, ho₂⟩ := s₁.read_cases r
      · rw [bind_of_ok h₂, bind_modify, ← hs₁.operand?, ho₂, memory_write_mdr]
        show s₂.memory.replay ((s₂.memory.get? (s₂.registers .mar)).map _).toList = _
        have hx : s.memory.get? (s.registers .mar) = some x := ho₁
        have ha : s₂.registers .mar = s.registers .mar :=
          (hs₂.registers .mar (by decide)).trans (hs₁.registers .mar (by decide))
        rw [hs₂.memory, hs₁.memory, ha, hx]
        rfl
      · rw [bind_of_error h₂, ← hs₁.operand?, ho₂]
        exact hs₁.memory
    · rw [bind_of_error h₁, ho₁]
      rfl
  · have hk : Keeps (fun t : Architecture => t.memory = s.memory) (operate m d r) :=
      (keeps_memory_read d).bind fun _ => (keeps_memory_read r).bind fun _ =>
        Keeps.bind (x := modify _) (fun _ h => h) fun _ => keeps_memory_write hd _
    rw [write?, if_neg hd]
    exact hk s rfl

theorem memory_store (d r : Register) :
    (final ((store d r).visible s)).memory = s.memory.replay ((store d r).write? s).toList := by
  rw [visible, write?]
  obtain ⟨a, s₁, h, ho, hs⟩ | ⟨e, h, ho⟩ := s.send_mar_cases r
  · rw [bind_of_ok h, ho, memory_send_mdr hs]
    rfl
  · rw [bind_of_error h, ho]
    rfl

theorem memory_load (d r : Register) :
    (final ((load d r).visible s)).memory = s.memory.replay ((load d r).write? s).toList := by
  by_cases hd : d = .mdr
  · -- what is loaded into the memory data register is stored where it comes from
    subst hd
    exact memory_store .mdr r
  · have hk : Keeps (fun t : Architecture => t.memory = s.memory) (load d r).visible :=
      (keeps_memory_send id r (by decide)).bind fun _ => keeps_memory_send id .mdr hd
    rw [write?, if_neg hd]
    exact hk s rfl

/-- A task stores its word and nothing else, also where it fails. -/
theorem memory_visible (t : Task) (s : Architecture) :
    (final (t.visible s)).memory = s.memory.replay (t.write? s).toList := by
  cases t with
  | compute m d r => exact memory_compute m d r
  | load d r => exact memory_load d r
  | store d r => exact memory_store d r
  | jump =>
    rw [visible, s.send_plain (by decide) rfl (by decide)]
    rfl
  | nothing => rfl

end Task

def Instruction.write? (s : Architecture) (i : Instruction) : Option MemoryWrite :=
  match i.condition.evaluate s.flags with
  | .ok true => i.task?.bind (·.write? s)
  | _ => none

namespace Datapath

variable {m : AddressSpace}

theorem keeps_memory_read (r : Register) :
    Keeps (fun d : Datapath => d.memory = m) (read (.register r)) := by
  intro d h
  obtain ⟨he, -⟩ | ⟨v, he, -⟩ | ⟨he, -⟩ := read_register_cases r d <;> rw [he] <;> exact h

theorem keeps_memory_write {r : Register} (hr : r ≠ .mdr) (v : Word) :
    Keeps (fun d : Datapath => d.memory = m) (write (.register r) v) := by
  intro d h
  cases hc : r.isConstant with
  | true =>
    rw [write_constant hc]
    exact h
  | false =>
    rw [write_plain hc hr]
    exact h

end Datapath

namespace MicroOp

variable {m : AddressSpace}

theorem keeps_memory_run {op : MicroOp} (h : op ≠ deliver .mdr) :
    Keeps (fun d : Datapath => d.memory = m) op.run := by
  cases op with
  | operate | latchFlags => exact fun _ h => h
  | feedA r =>
    rw [run_feedA]
    exact (Datapath.keeps_memory_read r).bind fun _ _ h => h
  | feedB r =>
    rw [run_feedB]
    exact (Datapath.keeps_memory_read r).bind fun _ _ h => h
  | deliver r =>
    have hr : r ≠ .mdr := fun hr => h (congrArg deliver hr)
    have hd : Keeps (fun d : Datapath => d.memory = m) (modify (delivered r) : DatapathM PUnit) :=
      fun _ h => h
    rw [run_deliver]
    exact fun d h => ((Datapath.keeps_memory_write hr d.alu.out).bind fun _ => hd) d h

/-- The memory is stored to by deliveries to the memory data register alone. -/
theorem keeps_memory_runAll {ops : List MicroOp} (h : deliver .mdr ∉ ops) :
    Keeps (fun d : Datapath => d.memory = m) (runAll ops) := by
  induction ops with
  | nil => exact .of_pure ()
  | cons op ops ih =>
    rw [List.mem_cons, not_or] at h
    rw [runAll_cons]
    exact (keeps_memory_run (Ne.symm h.1)).bind fun _ => ih h.2

end MicroOp

namespace Machine

variable {m : Machine}

/-- The word that the next phase stores, if it stores one. -/
def write? (m : Machine) : Option MemoryWrite :=
  if m.control.phase = .execute then
    m.control.current.bind (·.write? m.datapath.architecture)
  else none

theorem write?_of_ne_execute (h : m.control.phase ≠ .execute) : m.write? = none :=
  if_neg h

theorem write?_of_execute {i : Instruction} (hp : m.control.phase = .execute)
    (hc : m.control.current = some i) : m.write? = i.write? m.datapath.architecture := by
  rw [write?, if_pos hp, hc, Option.bind_some]

theorem memory_of_ending {p : Phase} {k k' : Control} {ops : List MicroOp}
    (h : MicroOp.deliver .mdr ∉ ops) :
    (final (ending p k k' (MicroOp.runAll ops m.datapath))).datapath.memory =
      m.datapath.memory := by
  rw [final_ending]
  exact MicroOp.keeps_memory_runAll h m.datapath rfl

/-- A phase stores its word and nothing else, also where it fails. -/
theorem memory_of_ticks {r : EStateM.Result MachineError Machine Phase} (ht : Ticks m r)
    (hi : m.datapath.Idle) :
    (final r).datapath.memory = m.datapath.memory.replay m.write?.toList := by
  cases ht with
  | fetch1 hp =>
    rw [write?_of_ne_execute (by rw [hp]; decide)]
    exact memory_of_ending (by decide)
  | fetch2 hp =>
    rw [write?_of_ne_execute (by rw [hp]; decide)]
    exact memory_of_ending (by decide)
  | decoded hp =>
    rw [write?_of_ne_execute (by rw [hp]; decide)]
    exact memory_of_ending (by decide)
  | undecoded hp =>
    rw [write?_of_ne_execute (by rw [hp]; decide)]
    rfl
  | nothing hp hc =>
    rw [write?, hc]
    split <;> rfl
  | unmapped hp hc he | skipped hp hc he =>
    rw [write?_of_execute hp hc]
    simp only [Instruction.write?, Datapath.architecture, he]
    rfl
  | unimplemented hp hc he hr =>
    rw [Instruction.routine?_eq_map, Option.map_eq_none_iff] at hr
    rw [write?_of_execute hp hc]
    simp only [Instruction.write?, Datapath.architecture, he, hr, Option.bind_none]
    rfl
  | routine hp hc he hr =>
    rw [Instruction.routine?_eq_map] at hr
    obtain ⟨t, ht, rfl⟩ := Option.map_eq_some_iff.mp hr
    have hw : m.write? = t.write? m.datapath.architecture := by
      rw [write?_of_execute hp hc]
      simp only [Instruction.write?, Datapath.architecture, he, ht, Option.bind_some]
    have hv : (final (MicroOp.runAll t.micro m.datapath)).memory =
        (final (t.visible m.datapath.architecture)).memory := by
      rw [← t.seenAs_visible m.datapath hi, final_seen]
      rfl
    rw [final_ending, final_seen, hw]
    exact hv.trans (t.memory_visible m.datapath.architecture)

end Machine

end X25
