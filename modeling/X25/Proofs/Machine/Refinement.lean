import X25.Proofs.Isa.Codec
import X25.Proofs.Machine.Cycle

/-! # The processor carries out the instruction set

From phase to phase the processor stays in step with what a program can see. Four cycles from a
first fetch are one step of the instruction set: they succeed if and only if it has a result, and
then show that result. The operands must be no memory registers, which a fetch disturbs.
-/

namespace X25

open Effect

theorem rel_bind {α β γ δ : Type} {r : α → β → Prop} {q : γ → δ → Prop} {x : Option α}
    {y : Option β} {f : α → Option γ} {g : β → Option δ} (h : Option.Rel r x y)
    (hf : ∀ a b, y = some b → r a b → Option.Rel q (f a) (g b)) :
    Option.Rel q (x.bind f) (y.bind g) := by
  cases h with
  | some h => exact hf _ _ rfl h
  | none => exact .none

namespace Architecture

variable (s : Architecture)

theorem bind_load? :
    ((s.load? .ira s.pc).bind fun s => s.load? .irb (s.pc + 1)) = s.fetch?.map s.loaded := by
  rw [load?, fetch?]
  cases h : s.memory.get? s.pc with
  | none => rfl
  | some v =>
    show (load? _ _ _) = _
    rw [load?]
    show ((s.memory.get? (s.pc + 1)).map _) = _
    cases s.memory.get? (s.pc + 1) <;> rfl

end Architecture

namespace Cpu

/-- Takes a number of clock cycles, up to the first that fails. -/
def advances : Nat → CpuM Unit
  | 0 => pure ()
  | n + 1 => do
    discard advance
    advances n

theorem advances_add (n k : Nat) : advances (n + k) = advances n >>= fun _ => advances k := by
  induction n with
  | zero => rw [Nat.zero_add, advances, pure_bind]
  | succ n ih => rw [Nat.add_right_comm, advances, ih, advances, bind_assoc]

theorem advances_succ_eq_ok {n : Nat} {c c' : Cpu} (h : advances (n + 1) c = .ok () c') :
    ∃ q c₁, advance c = .ok q c₁ ∧ advances n c₁ = .ok () c' := by
  rw [advances, discard_eq_bind] at h
  obtain ⟨⟨⟩, c₁, h₁, h⟩ := bind_eq_ok.mp h
  obtain ⟨q, c₂, h₁, ⟨⟩⟩ := bind_eq_ok.mp h₁
  exact ⟨q, c₁, h₁, h⟩

theorem reached_advances_add (n k : Nat) (c : Cpu) :
    reached (advances (n + k) c) =
      (reached (advances n c)).bind fun c => reached (advances k c) := by
  rw [advances_add, reached_bind]

theorem reached_advances_one (c : Cpu) : reached (advances 1 c) = reached (advance c) := by
  rw [advances, reached_bind, discard_eq_bind, reached_bind]
  cases reached (advance c) <;> rfl

variable {p : Phase} {c : Cpu} {s : Architecture}

theorem Follows.rel {Q : Cpu → Architecture → Prop} {x : Except MachineError Architecture}
    (h : Follows c p Q x) : Option.Rel Q (reached (advance c)) x.toOption := by
  cases x with
  | ok s =>
    obtain ⟨c', ha, hs⟩ := h
    rw [ha]
    exact .some hs
  | error e =>
    obtain ⟨c', ha⟩ := h
    rw [ha]
    exact .none

theorem Ready.fetch1 (h : Ready .fetch1 c s) :
    Option.Rel (Ready .fetch2) (reached (Cpu.advance c)) (s.load? .ira s.pc) := by
  rw [← Architecture.toOption_fill (by decide)]
  exact h.follows_fetch1.rel

theorem Ready.fetch2 (h : Ready .fetch2 c s) :
    Option.Rel (Ready .decode) (reached (Cpu.advance c)) (s.load? .irb (s.pc + 1)) := by
  rw [← Architecture.toOption_fill (by decide)]
  exact h.follows_fetch2.rel

theorem Ready.execute (h : Ready .execute c s) (hs : s.IsOpen) {i : Instruction}
    (hc : c.control.current = some i) (hi : i.encode.high = s.registers .irb)
    (hm : i.namesMemoryRegister = false) :
    Option.Rel (Ready .fetch1) (reached (Cpu.advance c)) (s.conditionally? i) := by
  rw [← Architecture.toOption_outcome hi hm]
  exact ((h.follows_execute hs hc).imp fun _ _ => And.left).rel

theorem Ready.fetch (h : Ready .fetch1 c s) :
    Option.Rel (fun c' p => Ready .decode c' (s.loaded p)) (reached (advances 2 c)) s.fetch? := by
  have hl : Option.Rel (Ready .decode) (reached (advances 2 c)) (s.fetch?.map s.loaded) := by
    rw [reached_advances_add 1 1, reached_advances_one, ← s.bind_load?]
    refine rel_bind h.fetch1 fun c' s' _ h' => ?_
    rw [reached_advances_one]
    exact h'.fetch2
  revert hl
  generalize reached (advances 2 c) = x
  cases s.fetch? with
  | none =>
    rintro ⟨⟩
    exact .none
  | some p =>
    rintro ⟨h'⟩
    exact .some h'

theorem Ready.step (h : Ready .fetch1 c s)
    (hm : ∀ i, s.instruction? = some i → i.namesMemoryRegister = false) :
    Option.Rel (Ready .fetch1) (reached (advances 4 c)) s.step? := by
  rw [reached_advances_add 2 2]
  refine rel_bind h.fetch fun c₂ p hp h₂ => ?_
  rw [reached_advances_add 1 1, reached_advances_one]
  have hw : (⟨(s.loaded p).registers .ira, (s.loaded p).registers .irb⟩ : WordPair) = p := rfl
  have hi : s.instruction? = (Instruction.decode p).toOption := by
    rw [Architecture.instruction?, hp]
    rfl
  have hpc : (s.loaded p).set .pc ((s.loaded p).pc + 2) = s.fetched p := s.set_loaded p
  cases hd : Instruction.decode p with
  | error e =>
    obtain ⟨c₃, ha⟩ := h₂.advance_of_undecodable (hw ▸ hd)
    rw [ha]
    exact .none
  | ok i =>
    obtain ⟨c₃, hc, h₃, hcur⟩ := h₂.advance_of_decodable (hw ▸ hd)
    have hh : i.encode.high = p.high := by rw [(Instruction.encode_of_decode hd).2]
    rw [hpc] at h₃
    rw [hd] at hi
    rw [hc]
    show Option.Rel _ (reached (advances 1 c₃)) ((s.fetched p).conditionally? i)
    rw [reached_advances_one]
    exact h₃.execute (Architecture.isOpen_fetched hp) hcur hh (hm i hi)

theorem Ready.run (n : Nat) (h : Ready .fetch1 c s)
    (hm : ∀ k < n, ∀ t, Architecture.run? k s = some t → ∀ i, t.instruction? = some i →
      i.namesMemoryRegister = false) :
    Option.Rel (Ready .fetch1) (reached (advances (4 * n) c)) (Architecture.run? n s) := by
  induction n generalizing c s with
  | zero => exact .some h
  | succ n ih =>
    rw [Nat.mul_succ, Nat.add_comm, reached_advances_add, Architecture.run?]
    refine rel_bind (h.step (hm 0 (Nat.succ_pos n) s rfl)) fun c' s' hs h' => ?_
    refine ih h' fun k hk t ht => hm (k + 1) (Nat.succ_lt_succ hk) t ?_
    rw [Architecture.run?, hs]
    exact ht

/-- Four cycles for each of `n` instructions are `n` steps of the instruction set, if none of these
instructions has a memory register as an operand: the cycles succeed if and only if the steps have
a result, and the processor is then before a first fetch again and shows that result. Each of the
steps leaves all alone that is not its instruction's business. -/
theorem map_architecture_advances (hc : Reachable c) (hr : c.state = .running)
    (hp : c.phase = .fetch1) (n : Nat)
    (hm : ∀ k < n, ∀ s, Architecture.run? k c.architecture = some s →
      ∀ i, s.instruction? = some i → i.namesMemoryRegister = false) :
    (reached (advances (4 * n) c)).map architecture = Architecture.run? n c.architecture ∧
      (∀ c', advances (4 * n) c = .ok () c' → c'.state = .running ∧ c'.phase = .fetch1) ∧
      ∀ k < n, ∀ s s' p i, Architecture.run? k c.architecture = some s → s.step? = some s' →
        s.fetch? = some p → Instruction.decode p = .ok i → (s.fetched p).Framed i s' := by
  have h := Ready.run n ⟨hr, hp, hc.idle, rfl⟩ hm
  refine ⟨?_, fun c' hc' => ?_, fun _ _ _ _ _ _ _ hs => Architecture.framed_of_step? hs⟩
  · revert h
    generalize reached (advances (4 * n) c) = x, Architecture.run? n c.architecture = t
    rintro (⟨⟨-, -, -, rfl⟩⟩ | -)
    · rfl
    · rfl
  · rw [hc', reached_ok] at h
    revert h
    generalize Architecture.run? n c.architecture = t
    rintro ⟨⟨hs, hf, -, -⟩⟩
    exact ⟨hs, hf⟩

def storingProgram : List Instruction :=
  let r : Register := .gp ⟨0, by decide⟩
  [.immediate .aopi .always r .transferB 7, .immediate .store .always r .zero 8,
    .jump .jmp .always 0]

def storing : Cpu :=
  final ((Action.loadProgram (storingProgram.flatMap (·.encode.toList))).perform small)

theorem map_architecture_advances_storing :
    Reachable storing ∧ storing.state = .running ∧ storing.phase = .fetch1 ∧
      (reached (advances 12 storing)).map architecture =
        Architecture.run? 3 storing.architecture ∧
      ((Architecture.run? 3 storing.architecture).bind fun s => s.memory.get? 8) = some 7 := by
  have hs : ofLayout ⟨0, 15, 16, 31⟩ = .ok small := by decide
  have hc : Reachable storing := .perform (.ofLayout hs) _
  have hp : ∀ k < 3, ((Architecture.run? k storing.architecture).all fun s =>
      s.instruction?.all fun i => !i.namesMemoryRegister) = true := by decide
  have h := map_architecture_advances hc rfl rfl 3 fun k hk s hs i hi => by
    have hk := hp k hk
    rw [hs, Option.all_some, hi, Option.all_some] at hk
    exact Bool.not_eq_true' _ ▸ hk
  exact ⟨hc, rfl, rfl, h.1, by decide⟩

end Cpu

end X25
