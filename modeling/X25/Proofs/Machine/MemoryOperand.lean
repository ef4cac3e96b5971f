import X25.Proofs.Machine.Fault
import X25.Proofs.Machine.Refinement

/-! # Memory registers as operands

The memory data register is loaded when it is read and stored when it is written, at the address
that is then in the memory address register. After a fetch this is the address of the second word
of the instruction itself; a load or a store puts its own address there first. So each of the two
registers has one meaning in every place of every instruction.
-/

namespace X25

open Effect

namespace AddressSpace

/-- A word was stored at an address and shown there, and all else is the same. -/
structure Updated (m m' : AddressSpace) (a v : Word) : Prop where
  words : ∀ b, m'.get? b = if a = b then some v else m.get? b
  output : m'.output = (m.shown a v).foldl String.push m.output

variable {m m' : AddressSpace} {a v w : Word}

theorem updated_put (h : m.get? a = some w) (v : Word) : m.Updated (m.put a v) a v where
  words b := by simp only [get?_put, holds_of_get?_eq_some h, and_true]
  output := rfl

theorem Updated.get?_of_ne (h : m.Updated m' a v) {b : Word} (hb : a ≠ b) :
    m'.get? b = m.get? b := by
  rw [h.words, if_neg hb]

theorem Updated.get?_of_same (h : m.Updated m' a v) (hv : m.get? a = some v) (b : Word) :
    m'.get? b = m.get? b := by
  rw [h.words]
  split
  · next hb => rw [← hb, hv]
  · rfl

theorem Updated.output_of_console (h : m.Updated m' a v) {r : Region}
    (hr : m.regionAt? a = some r) (hs : r.device.shows = true) {ch : Char}
    (hc : Device.character? v = some ch) : m'.output = m.output.push ch := by
  have hl : m.shown a v = [ch] := by
    simp only [shown, hr, Device.shown_of_shows hs, hc, Option.toList_some]
  rw [h.output, hl]
  rfl

end AddressSpace

namespace Architecture

/-- A register was replaced by the result of an operation on it and an operand, and the flags by
those of the operation. -/
structure Computed (f s' : Architecture) (m : Microcode) (d r : Register) : Prop where
  flags : s'.flags = (m.compute (f.registers d) (f.registers r)).2
  result : s'.registers d = (m.compute (f.registers d) (f.registers r)).1
  registers : ∀ q, q ≠ d → s'.registers q = f.registers q
  kept : d ≠ .mdr → s'.memory = f.memory
  stored : d = .mdr → f.memory.Updated s'.memory (f.registers .mar)
    (m.compute (f.registers d) (f.registers r)).1

/-- A register was loaded with the word at an address. The memory data register stores the word
where it came from. -/
structure Loaded (f s' : Architecture) (d : Register) (a v : Word) : Prop where
  word : f.memory.get? a = some v
  result : s'.registers d = v
  mdr : s'.registers .mdr = v
  mar : d ≠ .mar → s'.registers .mar = a
  registers : ∀ q, q ≠ d → q ≠ .mar → q ≠ .mdr → s'.registers q = f.registers q
  kept : d ≠ .mdr → s'.memory = f.memory
  stored : d = .mdr → f.memory.Updated s'.memory a v
  words : ∀ b, s'.memory.get? b = f.memory.get? b
  echo : d = .mdr → ∀ g ch, f.memory.regionAt? a = some g → g.device.shows = true →
    Device.character? v = some ch → s'.memory.output = f.memory.output.push ch
  flags : s'.flags = f.flags

/-- What a store takes from a register: the memory registers are already those of the store. -/
def spilled (f : Architecture) (r : Register) (a w : Word) : Word :=
  if r = .mar then a else if r = .mdr then w else f.registers r

/-- A register was stored at an address that held a word. -/
structure Stored (f s' : Architecture) (r : Register) (a w : Word) : Prop where
  word : f.memory.get? a = some w
  mdr : s'.registers .mdr = f.spilled r a w
  mar : s'.registers .mar = a
  registers : ∀ q, q ≠ .mar → q ≠ .mdr → s'.registers q = f.registers q
  stored : f.memory.Updated s'.memory a (f.spilled r a w)
  flags : s'.flags = f.flags

variable {f s' : Architecture} {d r : Register} {a v w : Word}

theorem deliver_registers (d : Register) (v : Word) : (f.deliver d v).registers d = v :=
  f.set_self d v

theorem deliver_of_ne {q : Register} (h : q ≠ d) (v : Word) :
    (f.deliver d v).registers q = f.registers q :=
  f.set_of_ne h v

theorem deliver_memory (h : d ≠ .mdr) (v : Word) : (f.deliver d v).memory = f.memory :=
  if_neg h

theorem deliver_mdr_memory (v : Word) :
    (f.deliver .mdr v).memory = f.memory.put (f.registers .mar) v := rfl

theorem fetched_of_ne {s : Architecture} {q : Register} (hp : q ≠ .pc) (ha : q ≠ .ira)
    (hb : q ≠ .irb) (hm : q ≠ .mar) (hd : q ≠ .mdr) (p : WordPair) :
    (s.fetched p).registers q = s.registers q := by
  rw [fetched, set_of_ne _ hp, set_of_ne _ hb, set_of_ne _ ha, accessed_of_ne hm hd]

theorem spilled_eq (f : Architecture) (r : Register) (a w : Word) :
    (f.accessed a w).registers r = f.spilled r a w := by
  rw [spilled]
  split
  · next hr => rw [hr, accessed_mar]
  · next ha =>
    split
    · next hr => rw [hr, accessed_mdr]
    · next hd => exact accessed_of_ne ha hd a w

theorem computed_of_combine (hf : f.IsOpen) {m : Microcode} (h : f.combine m d r = .ok s') :
    f.Computed s' m d r := by
  rw [combine] at h
  split at h
  · cases h
  cases h
  exact {
    flags := rfl
    result := deliver_registers d _
    registers := fun q hq => deliver_of_ne hq _
    kept := fun hd => deliver_memory hd _
    stored := by
      rintro rfl
      rw [deliver_mdr_memory]
      exact AddressSpace.updated_put hf _ }

theorem loaded_of_fill (h : f.fill d a = .ok s') : ∃ v, f.Loaded s' d a v := by
  rw [fill] at h
  cases hm : f.memory.get? a with
  | none => rw [hm] at h; cases h
  | some v =>
    simp only [hm] at h
    split at h
    · cases h
    cases h
    have hs : d = .mdr → f.memory.Updated ((f.accessed a v).deliver d v).memory a v := by
      rintro rfl
      rw [deliver_mdr_memory, accessed_mar]
      exact AddressSpace.updated_put hm v
    have hk : d ≠ .mdr → ((f.accessed a v).deliver d v).memory = f.memory :=
      fun hd => deliver_memory hd v
    refine ⟨v, hm, deliver_registers d v, ?_, ?_, ?_, hk, hs, ?_, ?_, rfl⟩
    · by_cases hd : d = .mdr
      · rw [hd, deliver_registers]
      · rw [deliver_of_ne (Ne.symm hd), accessed_mdr]
    · intro hd
      rw [deliver_of_ne (Ne.symm hd), accessed_mar]
    · intro q hq ha hd
      rw [deliver_of_ne hq, accessed_of_ne ha hd]
    · intro b
      by_cases hd : d = .mdr
      · exact (hs hd).get?_of_same hm b
      · rw [hk hd]
    · intro hd g ch hg hsh hch
      exact (hs hd).output_of_console hg hsh hch

theorem stored_of_spill (h : f.spill r a = .ok s') : ∃ w, f.Stored s' r a w := by
  rw [spill] at h
  cases hm : f.memory.get? a with
  | none => rw [hm] at h; cases h
  | some w =>
    simp only [hm] at h
    cases h
    rw [spilled_eq]
    refine ⟨w, hm, deliver_registers .mdr _, ?_, ?_, ?_, rfl⟩
    · rw [deliver_of_ne (by decide), accessed_mar]
    · intro q ha hd
      rw [deliver_of_ne hd, accessed_of_ne ha hd]
    · rw [deliver_mdr_memory, accessed_mar]
      exact AddressSpace.updated_put hm _

end Architecture

namespace Task

/-- What is seen after the task, from what was seen before it. -/
def Done (f : Architecture) : Task → Architecture → Prop
  | compute m d r, s' => f.Computed s' m d r
  | load d r, s' => ∃ v, f.Loaded s' d (f.registers r) v
  | store d r, s' => ∃ w, f.Stored s' d (f.registers r) w
  | jump, s' => s' = f.set .pc (f.registers .irb)
  | nothing, s' => s' = f

theorem done_of_outcome {f s' : Architecture} (hf : f.IsOpen) {t : Task}
    (h : t.outcome f = .ok s') : t.Done f s' := by
  cases t with
  | compute m d r => exact Architecture.computed_of_combine hf h
  | load d r => exact Architecture.loaded_of_fill h
  | store d r => exact Architecture.stored_of_spill h
  | jump | nothing => cases h; rfl

def cell? (f : Architecture) : Task → Option Word
  | compute _ d _ => if d = .mdr then some (f.registers .mar) else none
  | store _ r => some (f.registers r)
  | _ => none

/-- The fetch and the task leave all else alone: the registers other than the target, those that
hold the instruction and the memory registers, the words other than the one replaced, and the flags
unless something is computed. -/
structure Spares (s : Architecture) (p : WordPair) (t : Task) (s' : Architecture) : Prop where
  registers : ∀ q, t.target? ≠ some q → q ≠ .pc → q ≠ .ira → q ≠ .irb → q ≠ .mar → q ≠ .mdr →
    s'.registers q = s.registers q
  words : ∀ a, t.cell? (s.fetched p) ≠ some a → s'.memory.get? a = s.memory.get? a
  flags : (∀ m d r, t ≠ compute m d r) → s'.flags = s.flags

theorem spares_of_done {s s' : Architecture} {p : WordPair} {t : Task}
    (h : t.Done (s.fetched p) s') : t.Spares s p s' := by
  cases t with
  | compute m d r =>
    refine ⟨fun q ht hp ha hb hm hd => ?_, fun a ha => ?_, fun hn => absurd rfl (hn m d r)⟩
    · have hq : q ≠ d := by rintro rfl; exact ht rfl
      rw [h.registers q hq, Architecture.fetched_of_ne hp ha hb hm hd]
    · by_cases hd : d = .mdr
      · rw [cell?, if_pos hd] at ha
        exact (h.stored hd).get?_of_ne fun hab => ha (congrArg some hab)
      · rw [h.kept hd]
        rfl
  | load d r =>
    obtain ⟨v, h⟩ := h
    refine ⟨fun q ht hp ha hb hm hd => ?_, fun a _ => h.words a, fun _ => h.flags⟩
    have hq : q ≠ d := by rintro rfl; exact ht rfl
    rw [h.registers q hq hm hd, Architecture.fetched_of_ne hp ha hb hm hd]
  | store d r =>
    obtain ⟨w, h⟩ := h
    refine ⟨fun q _ hp ha hb hm hd => ?_, fun a ha => ?_, fun _ => h.flags⟩
    · rw [h.registers q hm hd, Architecture.fetched_of_ne hp ha hb hm hd]
    · exact h.stored.get?_of_ne fun hab => ha (congrArg some hab)
  | jump =>
    obtain rfl := h
    refine ⟨fun q _ hp ha hb hm hd => ?_, fun _ _ => rfl, fun _ => rfl⟩
    rw [Architecture.set_of_ne _ hp, Architecture.fetched_of_ne hp ha hb hm hd]
  | nothing =>
    obtain rfl := h
    refine ⟨fun q _ hp ha hb hm hd => ?_, fun _ _ => rfl, fun _ => rfl⟩
    exact Architecture.fetched_of_ne hp ha hb hm hd p

end Task

namespace Cpu

variable {c c' : Cpu} {p : WordPair} {i : Instruction}

theorem Follows.of_ok {q q' : Phase} {Q : Cpu → Architecture → Prop}
    {x : Except MachineError Architecture} (h : Follows c q Q x) (ha : advance c = .ok q' c') :
    ∃ s, x = .ok s ∧ Q c' s := by
  cases x with
  | ok s =>
    obtain ⟨c₁, h₁, hq⟩ := h
    rw [ha] at h₁
    cases h₁
    exact ⟨s, rfl, hq⟩
  | error e =>
    obtain ⟨c₁, h₁⟩ := h
    rw [ha] at h₁
    cases h₁

theorem Ready.last_of_advances {s : Architecture} (h : Ready .fetch1 c s) (hf : s.fetch? = some p)
    (hd : Instruction.decode p = .ok i) (ha : advances 4 c = .ok () c') :
    ∃ c₃ q, Ready .execute c₃ (s.fetched p) ∧ c₃.control.current = some i ∧
      Cpu.advance c₃ = .ok q c' := by
  have hr : reached (advances (2 + 2) c) = some c' := by rw [ha]; rfl
  rw [reached_advances_add] at hr
  obtain ⟨c₂, h₂, hr⟩ := Option.bind_eq_some_iff.mp hr
  have hl := h.fetch
  rw [h₂, hf] at hl
  cases hl with
  | some hl =>
    obtain ⟨c₃, h₃, he, hc⟩ := hl.advance_of_decodable hd
    rw [reached_advances_add 1 1, reached_advances_one, h₃, reached_ok, Option.bind_some,
      reached_advances_one] at hr
    cases ha₃ : Cpu.advance c₃ with
    | ok q c₄ =>
      rw [ha₃] at hr
      cases hr
      exact ⟨c₃, q, s.set_loaded p ▸ he, hc, ha₃⟩
    | error e c₄ => rw [ha₃] at hr; cases hr

/-- Four cycles that succeed from a first fetch carry out the instruction there, if its condition
holds. Its operands are read when the second word of the instruction is in the memory data register
and the address of this word is in the memory address register. -/
theorem done_of_advances (hc : Reachable c) (hp : c.phase = .fetch1)
    (hf : c.architecture.fetch? = some p) (hd : Instruction.decode p = .ok i)
    (he : i.condition.evaluate c.flags = .ok true) (h : advances 4 c = .ok () c') :
    (c.architecture.fetched p).registers .mdr = p.high ∧
      (c.architecture.fetched p).registers .mar = c.pc + 1 ∧
      ∃ t, i.task? = some t ∧ t.Done (c.architecture.fetched p) c'.architecture ∧
        t.Spares c.architecture p c'.architecture := by
  refine ⟨rfl, rfl, ?_⟩
  obtain ⟨q, c₁, ha, -⟩ := advances_succ_eq_ok h
  have hr : Ready .fetch1 c c.architecture := ⟨(advance_eq_ok ha).1, hp, hc.idle, rfl⟩
  obtain ⟨c₃, q, h₃, hi, ha⟩ := hr.last_of_advances hf hd h
  have ho := Architecture.isOpen_fetched hf
  obtain ⟨s', hs, h', -⟩ := (h₃.follows_execute ho hi).of_ok ha
  have he' : i.condition.evaluate (c.architecture.fetched p).flags = .ok true := he
  rw [Architecture.outcome, he'] at hs
  cases ht : i.task? with
  | none => rw [ht] at hs; cases hs
  | some t =>
    rw [ht] at hs
    have hx : t.Done (c.architecture.fetched p) c'.architecture := by
      rw [h'.architecture]
      exact Task.done_of_outcome ho hs
    exact ⟨t, rfl, hx, Task.spares_of_done hx⟩

def echoing : Cpu :=
  small.after [.loadProgram (Instruction.immediate .load .always .mdr .zero 16).encode.toList,
    .writeMemory 16 0x41]

theorem done_of_advances_echoing :
    Reachable echoing ∧ echoing.phase = .fetch1 ∧ echoing.output = "A" ∧
      ∃ p i c', echoing.architecture.fetch? = some p ∧ Instruction.decode p = .ok i ∧
        i.condition.evaluate echoing.flags = .ok true ∧ advances 4 echoing = .ok () c' ∧
        c'.output = "AA" ∧
        (∃ v, (echoing.architecture.fetched p).Loaded c'.architecture .mdr 16 v) ∧
        (Task.load .mdr .irb).Spares echoing.architecture p c'.architecture := by
  have hs : ofLayout ⟨0, 15, 16, 31⟩ = .ok small := by decide
  have hc : Reachable echoing := (Reachable.ofLayout hs).after _
  have hp : echoing.phase = .fetch1 := by decide +kernel
  let i : Instruction := .immediate .load .always .mdr .zero 16
  have hf : echoing.architecture.fetch? = some i.encode := by decide +kernel
  have hd : Instruction.decode i.encode = .ok i := by decide +kernel
  have ho : (final (advances 4 echoing)).output = "AA" := by decide +kernel
  have hr : (reached (advances 4 echoing)).isSome = true := by decide +kernel
  cases h : advances 4 echoing with
  | error e c' => rw [h] at hr; cases hr
  | ok u c' =>
    rw [h] at ho
    obtain ⟨-, -, t, ht, hx, hn⟩ := done_of_advances hc hp hf hd rfl h
    cases ht
    exact ⟨hc, hp, by decide +kernel, _, i, c', hf, hd, rfl, rfl, ho, hx, hn⟩

end Cpu

end X25
