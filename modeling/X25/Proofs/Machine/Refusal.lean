import X25.Proofs.Machine.Cycle

/-! # Refused results

The flags are taken over with the second operand, before the result is written. A constant refuses
the result of an operation after that, so the flags are then those of an operation that has failed.
Every other failure of the execute phase leaves the flags alone.
-/

namespace X25

open Effect

namespace Architecture

variable {s s' : Architecture} {r d : Register} {v x : Word} {e : MachineError}

variable (s) in
theorem operand?_constant (h : d.isConstant = true) : s.operand? d = some (s.registers d) := by
  apply operand?_of_ne
  rintro rfl
  cases h

theorem mar_set_operand (h : s.operand? r = some v) :
    (s.set r v).registers .mar = s.registers .mar := by
  by_cases hr : r = .mar
  · subst hr
    rw [operand?_of_ne (by decide)] at h
    cases h
    rw [set_registers]
  · exact set_of_ne s (Ne.symm hr) v

theorem write_of_operand? (hd : d.isConstant = false) (hx : s.operand? d = some x)
    (hm : s'.memory = s.memory) (ha : s'.registers .mar = s.registers .mar) (v : Word) :
    ∃ s₁, write d v s' = .ok () s₁ := by
  by_cases hr : d = .mdr
  · subst hr
    rw [operand?, if_pos rfl] at hx
    have hh : s'.memory.holds (s'.registers .mar) = true := by
      rw [hm, ha]
      exact AddressSpace.holds_of_get?_eq_some hx
    refine ⟨{ s'.set .mdr v with memory := s'.memory.put (s'.registers .mar) v }, ?_⟩
    simp only [write, Register.isConstant, hh, Bool.false_eq_true, if_false, if_true]
  · exact ⟨_, write_plain s' hd hr v⟩

theorem keeps_flags_read (f : Flags) (r : Register) :
    Keeps (fun s : Architecture => s.flags = f) (read r) := by
  intro s hs
  cases h : s.operand? r with
  | none => rwa [read_of_operand?_eq_none h]
  | some v => rwa [read_of_operand?_eq_some h]

theorem keeps_flags_write (f : Flags) (r : Register) (v : Word) :
    Keeps (fun s : Architecture => s.flags = f) (write r v) := by
  intro s hs
  rw [write]
  split
  · exact hs
  · split
    · split <;> exact hs
    · exact hs

theorem keeps_flags_send (f : Flags) (g : Word → Word) (source dest : Register) :
    Keeps (fun s : Architecture => s.flags = f) (send g source dest) :=
  (keeps_flags_read f source).bind fun _ => keeps_flags_write f dest _

end Architecture

namespace Task

open Architecture

variable {s s' : Architecture} {e : MachineError} {m : Microcode} {d r : Register}

def refused? (s : Architecture) : Task → Option Flags
  | compute m d r =>
    if d.isConstant then (s.operand? r).map fun y => (m.compute (s.registers d) y).2 else none
  | _ => none

theorem flags_of_operate_error (hd : d.isConstant = false) (h : operate m d r s = .error e s') :
    s'.flags = s.flags := by
  rw [operate] at h
  cases hx : s.operand? d with
  | none =>
    rw [bind_of_error (read_of_operand?_eq_none hx)] at h
    cases h
    rfl
  | some x =>
    rw [bind_of_ok (read_of_operand?_eq_some hx)] at h
    cases hy : (s.set d x).operand? r with
    | none =>
      rw [bind_of_error (read_of_operand?_eq_none hy)] at h
      cases h
      rfl
    | some y =>
      rw [bind_of_ok (read_of_operand?_eq_some hy), bind_modify] at h
      let t : Architecture := { (s.set d x).set r y with flags := (m.compute x y).2 }
      have ha : t.registers .mar = s.registers .mar :=
        (mar_set_operand hy).trans (mar_set_operand hx)
      have hm : t.memory = s.memory := rfl
      obtain ⟨s₁, hw⟩ := write_of_operand? hd hx hm ha (m.compute x y).1
      rw [hw] at h
      cases h

theorem operate_constant (hd : d.isConstant = true) :
    operate m d r s =
      match s.operand? r with
      | none => .error (.address ⟨s.registers .mar⟩) s
      | some y => .error (.fabric (.access ⟨.register d⟩))
          { s.set r y with flags := (m.compute (s.registers d) y).2 } := by
  have hx := read_of_operand?_eq_some (s.operand?_constant hd)
  rw [set_registers] at hx
  rw [operate, bind_of_ok hx]
  cases hy : s.operand? r with
  | none => rw [bind_of_error (read_of_operand?_eq_none hy)]
  | some y => rw [bind_of_ok (read_of_operand?_eq_some hy), bind_modify, write_constant _ hd]

theorem flags_of_visible_error {t : Task} (h : t.visible s = .error e s') :
    s'.flags = (t.refused? s).getD s.flags ∧
      ((t.refused? s).isSome → ∃ d, d.isConstant = true ∧ e = .fabric (.access ⟨.register d⟩)) := by
  have hk : Keeps (fun s₁ : Architecture => s₁.flags = s.flags) t.visible → s'.flags = s.flags :=
    fun hk => by
      have hf := hk s rfl
      rwa [h] at hf
  cases t with
  | compute m d r =>
    cases hd : d.isConstant with
    | false => exact ⟨by simp [refused?, hd, flags_of_operate_error hd h], by simp [refused?, hd]⟩
    | true =>
      rw [visible, operate_constant hd] at h
      cases hy : s.operand? r with
      | none =>
        rw [hy] at h
        cases h
        simp [refused?, hy]
      | some y =>
        rw [hy] at h
        cases h
        exact ⟨by simp [refused?, hd, hy], fun _ => ⟨d, hd, rfl⟩⟩
  | load d r =>
    have hf := hk ((keeps_flags_send _ id r .mar).bind fun _ => keeps_flags_send _ id .mdr d)
    simp [refused?, hf]
  | store d r =>
    have hf := hk ((keeps_flags_send _ id r .mar).bind fun _ => keeps_flags_send _ id d .mdr)
    simp [refused?, hf]
  | jump => simp [refused?, hk (keeps_flags_send _ id .irb .pc)]
  | nothing => cases h

end Task

def Architecture.refused? (s : Architecture) (i : Instruction) : Option Flags :=
  match i.condition.evaluate s.flags with
  | .ok true => i.task?.bind (Task.refused? s)
  | _ => none

namespace Architecture

variable {s : Architecture} {i : Instruction}

theorem refused?_of_task? (he : i.condition.evaluate s.flags = .ok true) {t : Task}
    (ht : i.task? = some t) : s.refused? i = t.refused? s := by
  rw [refused?, he, ht]
  rfl

theorem refused?_of_unmapped {e : DecodeError} (he : i.condition.evaluate s.flags = .error e) :
    s.refused? i = none := by
  rw [refused?, he]

theorem refused?_of_unimplemented (hr : i.routine? = none) : s.refused? i = none := by
  have ht : i.task? = none := by rwa [Instruction.routine?_eq_map, Option.map_eq_none_iff] at hr
  rw [refused?, ht]
  split <;> rfl

end Architecture

namespace Machine

def refused? (m : Machine) : Option Flags :=
  m.control.current.bind m.datapath.architecture.refused?

variable {m m' : Machine} {e : MachineError}

theorem refused?_of_current {i : Instruction} (hc : m.control.current = some i) :
    m.refused? = m.datapath.architecture.refused? i := by
  rw [refused?, hc, Option.bind_some]

theorem flags_of_ticks_error (hi : m.datapath.Idle) (hp : m.control.phase = .execute)
    {r : EStateM.Result MachineError Machine Phase} (ht : Ticks m r) (h : r = .error e m') :
    m'.datapath.alu.flags = m.refused?.getD m.datapath.alu.flags ∧
      (m.refused?.isSome → ∃ d, d.isConstant = true ∧ e = .fabric (.access ⟨.register d⟩)) := by
  cases ht with
  | fetch1 hp' | fetch2 hp' | undecoded hp' | decoded hp' => cases hp.symm.trans hp'
  | skipped => cases h
  | nothing _ hc =>
    cases h
    rw [refused?, hc, Option.bind_none]
    simp
  | unmapped _ hc he =>
    cases h
    rw [refused?_of_current hc, Architecture.refused?_of_unmapped he]
    simp
  | unimplemented _ hc _ hr =>
    cases h
    have hf : m.stopLatching.datapath.alu.flags = m.datapath.alu.flags := rfl
    rw [refused?_of_current hc, Architecture.refused?_of_unimplemented hr]
    simp [hf]
  | @routine i _ _ hc he hr =>
    obtain ⟨d, hs, rfl⟩ := ending_eq_error h
    obtain ⟨d', ho, rfl⟩ := seen_eq_error hs
    rw [Instruction.routine?_eq_map] at hr
    obtain ⟨t, ht, rfl⟩ := Option.map_eq_some_iff.mp hr
    have hv := t.seenAs_visible m.datapath hi
    rw [ho] at hv
    rw [refused?_of_current hc, Architecture.refused?_of_task? he ht]
    exact Task.flags_of_visible_error hv.symm

end Machine

namespace Cpu

variable {c c' : Cpu} {e : MachineError}

def refused? (c : Cpu) : Option Flags :=
  if c.state = .running then c.machine.refused? else none

/-- An execute phase that fails leaves the flags as they were, unless a constant refuses the result
of an operation; the flags are then those of that result. -/
theorem flags_of_advance_error (hc : Reachable c) (hp : c.phase = .execute)
    (h : advance c = .error e c') :
    c'.flags = c.refused?.getD c.flags ∧
      (c.refused?.isSome → ∃ d, d.isConstant = true ∧ e = .fabric (.access ⟨.register d⟩)) := by
  by_cases hr : c.state = .running
  · obtain ⟨m, ht, rfl⟩ := advance_eq_error hr h
    rw [refused?, if_pos hr]
    exact Machine.flags_of_ticks_error hc.idle hp (Machine.ticks_tick c.machine) ht
  · rw [advance, if_neg hr] at h
    cases h
    rw [refused?, if_neg hr]
    simp

def refusing : Cpu :=
  subtracted.after [.advance, .advance, .advance]

theorem reachable_refusing : Reachable refusing :=
  (((Reachable.ofExecutable (e := subtracting) rfl).after [.stepInstruction]).after
    [.advance, .advance, .advance])

theorem advance_refusing :
    ∃ e c', advance refusing = .error e c' ∧ c'.flags = ⟨false, true, false, false⟩ := by
  have hf : (final (advance refusing)).flags = ⟨false, true, false, false⟩ := by decide +kernel
  have hn : reached (advance refusing) = none := by decide +kernel
  cases h : advance refusing with
  | ok p c' => rw [h] at hn; cases hn
  | error e c' =>
    rw [h] at hf
    exact ⟨e, c', rfl, hf⟩

theorem flags_of_advance_error_refusing :
    Reachable refusing ∧ refusing.phase = .execute ∧
      refusing.refused? = some ⟨false, true, false, false⟩ ∧
      ∃ e c', advance refusing = .error e c' ∧ c'.flags = ⟨false, true, false, false⟩ ∧
        ∃ d, d.isConstant = true ∧ e = .fabric (.access ⟨.register d⟩) := by
  have hp : refusing.phase = .execute := by decide +kernel
  have hx : refusing.refused? = some ⟨false, true, false, false⟩ := by decide +kernel
  obtain ⟨e, c', h, -⟩ := advance_refusing
  obtain ⟨hf, hd⟩ := flags_of_advance_error reachable_refusing hp h
  rw [hx] at hf hd
  exact ⟨reachable_refusing, hp, hx, e, c', h, hf, hd rfl⟩

/-- Not every execute phase that fails leaves the flags as they were. -/
theorem not_flags_kept_by_error :
    ¬ ∀ c c' e, Reachable c → c.phase = .execute → advance c = .error e c' →
      c'.flags = c.flags := by
  intro hk
  obtain ⟨e, c', h, hf⟩ := advance_refusing
  have hp : refusing.phase = .execute := by decide +kernel
  have hb : refusing.flags = ⟨true, false, true, true⟩ := by decide +kernel
  have hs := hk refusing c' e reachable_refusing hp h
  rw [hf, hb] at hs
  exact absurd hs (by decide)

end Cpu

end X25
