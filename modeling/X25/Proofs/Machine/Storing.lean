import X25.Proofs.Machine.LifeCycle
import X25.Proofs.Machine.Writes
import X25.Proofs.Memory.Loading

/-! # The memory of a session

Whatever a host asks of a processor, its memory changes by single stores alone. These are the
stores of the instructions that are executed and those that the host makes itself, and the memory
after a session is the memory before with these words stored one after the other. So what every
store keeps holds of the memory all through a session, and the memory stays arranged as its layout
says.
-/

namespace X25

open Effect

namespace AddressSpace

def consecutive (start : Word) : List Word → List MemoryWrite
  | [] => []
  | v :: vs => ⟨start, v⟩ :: consecutive (start + 1) vs

theorem replay_consecutive (s : AddressSpace) (start : Word) (vs : List Word) :
    s.replay (consecutive start vs) = s.putAll start vs := by
  induction vs generalizing s start with
  | nil => rfl
  | cons v vs ih => exact ih (s.put start v) (start + 1)

theorem replay_of_put {P : AddressSpace → Prop} (hP : ∀ s a v, P s → P (s.put a v))
    {s : AddressSpace} (h : P s) (ws : List MemoryWrite) : P (s.replay ws) := by
  induction ws generalizing s with
  | nil => exact h
  | cons w ws ih => exact ih (hP s w.address w.value h)

end AddressSpace

namespace Cpu

def write? (c : Cpu) : Option MemoryWrite :=
  if c.state = .running then c.machine.write? else none

/-- The words that a number of cycles store, up to the first cycle that fails. -/
def cycleWrites : Nat → Cpu → List MemoryWrite
  | 0, _ => []
  | n + 1, c =>
    c.write?.toList ++
      match advance c with
      | .ok _ c' => cycleWrites n c'
      | .error _ _ => []

end Cpu

def Action.writes (c : Cpu) : Action → List MemoryWrite
  | writeMemory a v => if c.memory.holds a then [⟨a, v⟩] else []
  | loadProgram program =>
    if c.layout.ramSize < program.length then []
    else (AddressSpace.consecutive c.layout.ramStart program).takeWhile fun w =>
      c.memory.holds w.address
  | a => c.cycleWrites (a.edges c)

namespace Cpu

/-- The words that a session stores, in their order. -/
def writes (c : Cpu) : List Action → List MemoryWrite
  | [] => []
  | a :: actions => a.writes c ++ (final (a.perform c)).writes actions

variable {c c' : Cpu} {a : Action}

theorem memory_advance (hi : c.datapath.Idle) :
    (final (advance c)).memory = c.memory.replay c.write?.toList := by
  have ht := Machine.memory_of_ticks (Machine.ticks_tick c.machine) hi
  by_cases hr : c.state = .running
  · rw [write?, if_pos hr, advance, if_pos hr, risingEdge]
    cases hm : Machine.tick c.machine <;> rw [hm] at ht <;> exact ht
  · rw [write?, if_neg hr, advance, if_neg hr]
    rfl

theorem memory_advances (hi : c.datapath.Idle) (n : Nat) :
    (final (advances n c)).memory = c.memory.replay (c.cycleWrites n) := by
  induction n generalizing c with
  | zero => rfl
  | succ n ih =>
    have hm := memory_advance hi
    have hi' := stable_idle.advance c hi
    rw [cycleWrites, AddressSpace.replay_append, ← hm]
    cases ha : advance c with
    | ok p c' =>
      rw [ha] at hi'
      rw [advances_succ_of_ok ha]
      exact ih hi'
    | error e c' =>
      rw [advances_succ_of_error ha]
      rfl

theorem memory_writeAll (start : Word) (vs : List Word) (c : Cpu) :
    (final (writeAll start vs c)).memory = c.memory.replay
      ((AddressSpace.consecutive start vs).takeWhile fun w => c.memory.holds w.address) := by
  induction vs generalizing c start with
  | nil => rfl
  | cons v vs ih =>
    rw [AddressSpace.consecutive]
    by_cases hs : c.memory.holds start
    · have hh (w : MemoryWrite) : (c.memory.put start v).holds w.address =
          c.memory.holds w.address := AddressSpace.holds_of_put ..
      have hm : (c.modifyMemory (·.put start v)).memory = c.memory.put start v := rfl
      rw [writeAll_of_holds hs, ih, hm]
      simp only [hh, List.takeWhile_cons, hs, if_true]
      rfl
    · rw [writeAll_of_not_holds hs, List.takeWhile_cons, if_neg hs]
      rfl

theorem memory_perform (hi : c.datapath.Idle) (a : Action) :
    (final (a.perform c)).memory = c.memory.replay (a.writes c) := by
  cases a with
  | advance | pulse | stepInstruction | run =>
    rw [final_perform_of_clocks rfl, memory_advances hi]
    rfl
  | halt =>
    show (halt c).memory = c.memory
    rw [halt]
    split <;> rfl
  | resume =>
    show (resume c).memory = c.memory
    rw [resume]
    split <;> rfl
  | reset | setEntry | setRegister => rfl
  | writeMemory a v =>
    rw [Action.perform, writeMemory, Action.writes]
    split <;> rfl
  | loadProgram program =>
    rw [Action.perform, Action.writes]
    obtain ⟨hn, hr⟩ | ⟨hn, hr⟩ := loadProgram_cases program c <;> rw [hr]
    · rw [if_pos hn]
      rfl
    · rw [if_neg (Nat.not_lt.mpr hn)]
      exact memory_writeAll _ program c

/-- The memory after a session is the memory before it, with the words of the session stored one
after the other. -/
theorem Reachable.memory_after (h : Reachable c) (actions : List Action) :
    (c.after actions).memory = c.memory.replay (c.writes actions) := by
  induction actions generalizing c with
  | nil => rfl
  | cons a actions ih =>
    rw [writes, AddressSpace.replay_append, ← memory_perform h.idle]
    exact ih (h.perform a)

theorem stable_layout (l : Layout) : Stable fun c => c.layout = l where
  risingEdge c _ h := by
    rw [risingEdge]
    split <;> exact h
  halt c h := by
    rw [halt]
    split <;> exact h
  resume c h := by
    rw [resume]
    split <;> exact h
  reset _ h := h
  setEntry _ _ h := h
  setRegister _ _ _ h := h
  writeMemory a v c h := by
    rw [writeMemory]
    split <;> exact h

theorem layout_perform (a : Action) (c : Cpu) : (final (a.perform c)).layout = c.layout :=
  (stable_layout c.layout).perform a c rfl

theorem layout_after (c : Cpu) (actions : List Action) : (c.after actions).layout = c.layout := by
  induction actions generalizing c with
  | nil => rfl
  | cons a actions ih => exact (ih _).trans (layout_perform a c)

/-- What holds of the memory of a new processor, and is kept by every store, holds in every
session. -/
theorem Reachable.memory {Q : Layout → AddressSpace → Prop} (h : Reachable c)
    (hQ : ∀ l s a v, Q l s → Q l (s.put a v)) (h₀ : ∀ l s, l.space = .ok s → Q l s) :
    Q c.layout c.memory := by
  induction h with
  | @ofLayout l c hc =>
    rw [Cpu.ofLayout] at hc
    split at hc
    · next s hs =>
      cases hc
      exact h₀ l s hs
    · cases hc
  | @perform c h a ih =>
    rw [layout_perform, memory_perform h.idle]
    exact AddressSpace.replay_of_put (hQ c.layout) ih (a.writes c)

/-- The memory is arranged as the layout says. -/
def IsArranged (c : Cpu) : Prop :=
  c.layout.space = .ok c.memory.cleared

theorem writeAll_eq (start : Word) (vs : List Word)
    (h : ∀ i < vs.length, c.memory.holds (start + .ofNat i) = true) :
    writeAll start vs c = .ok () (c.modifyMemory (·.putAll start vs)) := by
  induction vs generalizing c start with
  | nil => rfl
  | cons v vs ih =>
    have hs : c.memory.holds start = true := by
      have h₀ : c.memory.holds (start + 0) = true := h 0 (Nat.succ_pos _)
      rwa [UInt32.add_zero] at h₀
    rw [writeAll_of_holds hs, ih (start + 1) fun i hi => ?_]
    · rfl
    · have hi' := h (i + 1) (Nat.succ_lt_succ hi)
      rw [UInt32.ofNat_add, UInt32.add_comm (.ofNat i), ← UInt32.add_assoc] at hi'
      exact (AddressSpace.holds_of_put c.memory start v _).trans hi'

theorem IsArranged.loadProgram_eq (h : c.IsArranged) {program : List Word}
    (hn : program.length ≤ c.layout.ramSize) :
    loadProgram program c = .ok () (c.modifyMemory (·.putAll c.layout.ramStart program)) := by
  rw [loadProgram_of_le hn, writeAll_eq]
  intro i hi
  exact (AddressSpace.holds_iff_of_space h _).mpr
    (.inl (AddressSpace.inRam_of_lt (Nat.lt_of_lt_of_le hi hn)).2)

theorem Reachable.space_eq (h : Reachable c) : c.IsArranged := by
  refine h.memory (Q := fun l s => l.space = .ok s.cleared) ?_ ?_
  · intro l s a v hs
    rwa [AddressSpace.cleared_put]
  · intro l s hs
    rw [Layout.cleared_of_space hs]
    exact hs

/-- What a session can change in a memory is its words and what was shown. -/
theorem Reachable.regions_eq {c₁ c₂ : Cpu} (h₁ : Reachable c₁) (h₂ : Reachable c₂)
    (hl : c₁.layout = c₂.layout) (hm : ∀ a, c₁.memory.get? a = c₂.memory.get? a) :
    c₁.memory.regions = c₂.memory.regions := by
  have hs₁ : c₁.layout.space = .ok c₁.memory.cleared := h₁.space_eq
  have hs₂ : c₂.layout.space = .ok c₂.memory.cleared := h₂.space_eq
  rw [← hl] at hs₂
  have hw := AddressSpace.wellMapped_cleared.mp (Layout.space_eq_ok hs₁).1
  have ht := AddressSpace.tight_of_cleared (Layout.tight_of_space hs₁)
  exact AddressSpace.regions_eq_of_cleared hw ht (Except.ok.inj (hs₁.symm.trans hs₂)) hm

section OfExecutable

variable {e : Executable}

theorem ofExecutable_eq {s : AddressSpace} (hs : e.header.layout.space = .ok s) :
    ofExecutable e =
      if e.header.layout.ramSize < e.program.length then
        .error (.programTooLarge e.program.length e.header.layout.ramSize)
      else .ok (started (s.putAll e.header.layout.ramStart e.program) e.header.layout
        e.header.entry) := by
  rw [ofExecutable, ofLayout, hs]
  by_cases hn : e.header.layout.ramSize < e.program.length
  · have hp : loadProgram e.program (started s e.header.layout e.header.layout.ramStart) =
        .error (.programTooLarge _ _) _ := loadProgram_of_lt hn
    simp only [bind, Except.bind, hp, if_pos hn]
    rfl
  · have ha : (started s e.header.layout e.header.layout.ramStart).IsArranged :=
      hs.trans (congrArg Except.ok (Layout.cleared_of_space hs).symm)
    have hp := ha.loadProgram_eq (Nat.le_of_not_lt hn)
    simp only [bind, Except.bind, hp, if_neg hn]
    rfl

theorem memory_of_ofExecutable (h : ofExecutable e = .ok c) :
    ∃ s, e.header.layout.space = .ok s ∧ e.program.length ≤ e.header.layout.ramSize ∧
      c.memory = s.putAll e.header.layout.ramStart e.program := by
  cases hs : e.header.layout.space with
  | error f =>
    rw [ofExecutable, ofLayout, hs] at h
    cases h
  | ok s =>
    rw [ofExecutable_eq hs] at h
    split at h
    · cases h
    · next hn =>
      cases h
      exact ⟨s, rfl, Nat.le_of_not_lt hn, rfl⟩

theorem output_of_ofExecutable (h : ofExecutable e = .ok c) : c.output = "" := by
  obtain ⟨s, hs, hn, hm⟩ := memory_of_ofExecutable h
  have hq : s.MuteFrom e.header.layout.ramStart e.program.length := fun a r ha =>
    Layout.muteFrom_space hs a r (Nat.lt_of_lt_of_le ha hn)
  rw [output, hm, AddressSpace.output_putAll hq, (Layout.space_eq_ok hs).2]

theorem get?_of_ofExecutable (h : ofExecutable e = .ok c) {a v : Word}
    (hv : c.memory.get? a = some v) :
    v = e.program[(a - e.header.layout.ramStart).toNat]?.getD 0 := by
  obtain ⟨s, hs, hn, hm⟩ := memory_of_ofExecutable h
  rw [hm, AddressSpace.get?_putAll _ _ _ (Nat.le_trans hn (Layout.ramSize_le _))] at hv
  obtain ⟨w, hw, rfl⟩ := Option.map_eq_some_iff.mp hv
  rw [Layout.eq_zero_of_space hs hw]

theorem layout_of_ofExecutable (h : ofExecutable e = .ok c) : c.layout = e.header.layout := by
  obtain ⟨c₀, hl, rfl⟩ := after_of_ofExecutable h
  obtain ⟨memory, rfl⟩ := ofLayout_eq_ok hl
  exact layout_after ..

end OfExecutable

end Cpu

end X25
