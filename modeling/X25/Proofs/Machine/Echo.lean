import X25.Proofs.Machine.Phase
import X25.Proofs.Machine.Session
import X25.Proofs.Machine.Transfer

/-! # What was shown before

A machine writes to its consoles and never reads back what they have shown. So a session after some
text is the same session without it, with the text put in front of all that is shown.
-/

namespace X25

open Effect

/-- The operation is not affected by the change of the state, which stays as it is. -/
def Blind {ε σ α : Type} (change : σ → σ) (x : EStateM ε σ α) : Prop :=
  ∀ s, x (change s) = seen change (x s)

namespace Blind

variable {ε σ α β : Type} {change : σ → σ} {x : EStateM ε σ α} {f : α → EStateM ε σ β}

theorem of_pure (a : α) : Blind change (pure a : EStateM ε σ α) :=
  fun _ => rfl

theorem of_throw (e : ε) : Blind change (throw e : EStateM ε σ α) :=
  fun _ => rfl

theorem of_modify {g : σ → σ} (h : ∀ s, g (change s) = change (g s)) :
    Blind change (modify g : EStateM ε σ PUnit) := by
  intro s
  show EStateM.Result.ok _ (g (change s)) = .ok _ (change (g s))
  rw [h]

theorem bind (hx : Blind change x) (hf : ∀ a, Blind change (f a)) : Blind change (x >>= f) := by
  intro s
  have hs := hx s
  cases h : x s with
  | ok a s' =>
    rw [h] at hs
    rw [bind_of_ok h, bind_of_ok hs]
    exact hf a s'
  | error e s' =>
    rw [h] at hs
    rw [bind_of_error h, bind_of_error hs]
    rfl

theorem of_get {g : σ → EStateM ε σ α} (h : ∀ s, g (change s) (change s) = seen change (g s s)) :
    Blind change (get >>= g) :=
  h

theorem discard (hx : Blind change x) : Blind change (discard x) := by
  rw [discard_eq_bind]
  exact hx.bind fun _ => .of_pure ()

theorem map (g : α → β) (hx : Blind change x) : Blind change (g <$> x) := by
  intro s
  have hs := hx s
  show EStateM.map g x _ = seen change (EStateM.map g x s)
  simp only [EStateM.map]
  cases h : x s <;> rw [h] at hs <;> rw [hs] <;> rfl

end Blind

theorem foldl_push_append (t s : String) (text : List Char) :
    text.foldl String.push (t ++ s) = t ++ text.foldl String.push s := by
  induction text generalizing s with
  | nil => rfl
  | cons c text ih =>
    have hp : (t ++ s).push c = t ++ s.push c := by
      rw [String.push_eq_append, String.push_eq_append, String.append_assoc]
    rw [List.foldl_cons, List.foldl_cons, hp, ih]

namespace AddressSpace

variable {δ : Type}

def preceded (t : String) (s : AddressSpace δ) : AddressSpace δ :=
  { s with output := t ++ s.output }

variable [MemoryDevice δ]

theorem blind_store (t : String) (a v : Word) :
    Blind (preceded t) (store a v : EStateM AddressFault (AddressSpace δ) Unit) := by
  intro s
  simp only [store, preceded]
  cases storeIn a v s.regions with
  | ok text rs => simp only [foldl_push_append, seen_ok, preceded]
  | error f rs => simp only [foldl_push_append, seen_error, preceded]

theorem preceded_put (t : String) (s : AddressSpace) (a v : Word) :
    (s.preceded t).put a v = (s.put a v).preceded t :=
  congrArg (AddressSpace.mk _) (foldl_push_append t s.output (s.shown a v))

end AddressSpace

namespace Datapath

variable {δ : Type}

def preceded (t : String) (d : Datapath δ) : Datapath δ :=
  { d with memory := d.memory.preceded t }

variable [MemoryDevice δ] (t : String)

theorem blind_loadData : Blind (preceded t) (loadData : Step δ Unit) := by
  intro d
  have h : (d.preceded t).memory.get? (d.preceded t).registers.mar =
      d.memory.get? d.registers.mar := rfl
  simp only [loadData, h]
  cases d.memory.get? d.registers.mar <;> rfl

theorem blind_storeData (v : Word) : Blind (preceded t) (storeData v : Step δ Unit) := by
  intro d
  have h := AddressSpace.blind_store t d.registers.mar v d.memory
  have hd : AddressSpace.store (d.preceded t).registers.mar v (d.preceded t).memory =
    seen (AddressSpace.preceded t) (AddressSpace.store d.registers.mar v d.memory) := h
  simp only [storeData, hd]
  cases AddressSpace.store d.registers.mar v d.memory <;> rfl

theorem blind_read (r : Register) : Blind (preceded t) (read (.register r) : Step δ Word) := by
  by_cases hr : r = .mdr
  · subst hr
    rw [read_mdr]
    exact (blind_loadData t).bind fun _ => .of_get fun _ => rfl
  · intro d
    rw [read_of_ne_mdr hr, read_of_ne_mdr hr]
    rfl

theorem blind_write (r : Register) (v : Word) :
    Blind (preceded t) (write (.register r) v : Step δ Unit) := by
  by_cases hr : r = .mdr
  · subst hr
    rw [write_mdr]
    exact (blind_storeData t v).bind fun _ => .of_modify fun _ => rfl
  · intro d
    cases hc : r.isConstant with
    | true => rw [write_constant hc, write_constant hc]; rfl
    | false => rw [write_plain hc hr, write_plain hc hr]; rfl

end Datapath

namespace MicroOp

variable {δ : Type} [MemoryDevice δ] (t : String)

open Datapath in
theorem blind_run (op : MicroOp) : Blind (preceded t) (op.run : Step δ Unit) := by
  cases op with
  | operate m => exact .of_modify fun _ => rfl
  | latchFlags => exact .of_modify fun _ => rfl
  | feedA r =>
    rw [run_feedA]
    exact (blind_read t r).bind fun _ => .of_modify fun _ => rfl
  | feedB r =>
    rw [run_feedB]
    exact (blind_read t r).bind fun _ => .of_modify fun _ => rfl
  | deliver r =>
    rw [run_deliver]
    have hd : Blind (preceded t) (modify (delivered r) : Step δ PUnit) := .of_modify fun _ => rfl
    exact .of_get fun d => ((blind_write t r d.alu.out).bind fun _ => hd) d

theorem blind_runAll (ops : List MicroOp) :
    Blind (Datapath.preceded t) (runAll ops : Datapath.Step δ Unit) := by
  induction ops with
  | nil => exact .of_pure ()
  | cons op ops ih => exact (blind_run t op).bind fun _ => ih

end MicroOp

namespace Machine

variable {δ : Type}

def preceded (t : String) (m : Machine δ) : Machine δ :=
  { m with datapath := m.datapath.preceded t }

theorem seen_preceded_ending (t : String) (p : Phase) (c c' : Control)
    (r : EStateM.Result MachineError (Datapath δ) Unit) :
    seen (preceded t) (ending p c c' r) = ending p c c' (seen (Datapath.preceded t) r) := by
  cases r <;> rfl

theorem seen_preceded_stopLatching (t : String)
    (r : EStateM.Result MachineError (Datapath δ) Unit) :
    seen (Datapath.preceded t) (seen Datapath.stopLatching r) =
      seen Datapath.stopLatching (seen (Datapath.preceded t) r) := by
  cases r <;> rfl

variable [MemoryDevice δ] (t : String)

theorem Ticks.preceded {m : Machine δ} {r : EStateM.Result MachineError (Machine δ) Phase}
    (h : Ticks m r) : Ticks (m.preceded t) (seen (Machine.preceded t) r) := by
  have ho (ops : List MicroOp) :
      seen (Datapath.preceded t) (MicroOp.runAll ops m.datapath) =
        MicroOp.runAll ops (m.preceded t).datapath :=
    (MicroOp.blind_runAll t ops m.datapath).symm
  cases h with
  | fetch1 hp => rw [seen_preceded_ending, ho]; exact .fetch1 hp
  | fetch2 hp => rw [seen_preceded_ending, ho]; exact .fetch2 hp
  | undecoded hp hd => exact .undecoded hp hd
  | decoded hp hd => rw [seen_preceded_ending, ho]; exact .decoded hp hd
  | nothing hp hc => exact .nothing hp hc
  | unmapped hp hc he => exact .unmapped hp hc he
  | skipped hp hc he => exact .skipped hp hc he
  | unimplemented hp hc he hr => exact .unimplemented hp hc he hr
  | routine hp hc he hr =>
    rw [seen_preceded_ending, seen_preceded_stopLatching, ho]
    exact .routine hp hc he hr

theorem blind_tick : Blind (preceded t) (tick : Step δ Phase) :=
  fun m => tick_eq_of_ticks ((ticks_tick m).preceded t)

end Machine

namespace Cpu

def preceded (t : String) (c : Cpu) : Cpu :=
  { c with machine := c.machine.preceded t }

variable (t : String)

theorem blind_risingEdge : Blind (preceded t) risingEdge := by
  rintro ⟨m, state, cycles, layout, entry⟩
  have h := Machine.blind_tick t m
  simp only [risingEdge, preceded, h]
  cases Machine.tick m <;> rfl

theorem blind_advance : Blind (preceded t) advance := by
  intro c
  have hs : (c.preceded t).state = c.state := rfl
  simp only [advance, hs]
  split
  · exact blind_risingEdge t c
  · rfl

theorem blind_pulse (edge : Edge) : Blind (preceded t) (pulse edge) := by
  intro c
  have hs : (c.preceded t).state = c.state := rfl
  simp only [pulse, hs]
  split
  · cases edge with
    | rising => exact (blind_risingEdge t).map some c
    | falling => rfl
  · rfl

theorem blind_advanceToExecute (n : Nat) : Blind (preceded t) (advanceToExecute n) := by
  induction n with
  | zero => exact .of_throw _
  | succ n ih =>
    refine (blind_advance t).bind fun p => ?_
    split
    · refine .of_get fun c => ?_
      have hr : (c.preceded t).control.retired = c.control.retired := rfl
      rw [hr]
      cases c.control.retired <;> rfl
    · exact ih

theorem blind_advanceBelow (limit : Nat) : Blind (preceded t) (advanceBelow limit) := by
  intro c
  -- neither state nor count is changed, so both loops turn as often
  fun_induction advanceBelow limit c with
  | case1 c hb p c' hr ih =>
    have ha := blind_advance t c
    rw [hr, seen_ok] at ha
    exact (advanceBelow_of_ok (c := c.preceded t) hb ha).trans ih
  | case2 c hb e c' hr =>
    have ha := blind_advance t c
    rw [hr, seen_error] at ha
    exact advanceBelow_of_error (c := c.preceded t) hb ha
  | case3 c hb => exact advanceBelow_of_not (c := c.preceded t) hb

theorem blind_run (n : Nat) : Blind (preceded t) (run n) := by
  refine .of_get fun c => ?_
  exact ((blind_advanceBelow t _).bind fun _ => .of_get fun _ => rfl) c

theorem blind_writeMemory (a v : Word) : Blind (preceded t) (writeMemory a v) := by
  intro c
  have hm : (c.preceded t).memory.holds a = c.memory.holds a := rfl
  simp only [writeMemory, hm]
  split
  · refine congrArg (EStateM.Result.ok ()) ?_
    have hp := AddressSpace.preceded_put t c.memory a v
    exact congrArg (fun m => c.modifyMemory fun _ => m) hp
  · rfl

theorem blind_writeAll (start : Word) (vs : List Word) :
    Blind (preceded t) (writeAll start vs) := by
  induction vs generalizing start with
  | nil => exact .of_pure ()
  | cons v vs ih => exact (blind_writeMemory t start v).bind fun _ => ih (start + 1)

theorem blind_loadProgram (program : List Word) : Blind (preceded t) (loadProgram program) := by
  intro c
  have hl : (c.preceded t).layout = c.layout := rfl
  obtain ⟨hn, hr⟩ | ⟨hn, hr⟩ := loadProgram_cases program c
  · rw [loadProgram_of_lt (hl ▸ hn), hr]
    rfl
  · rw [loadProgram_of_le (hl ▸ hn), hr]
    exact blind_writeAll t _ program c

end Cpu

inductive Reply
  | done
  | phase (p : Phase)
  | edge (p : Option Phase)
  | retired (r : Retired)
  | cycles (n : Nat)
  deriving DecidableEq, Repr

def Action.respond : Action → CpuM Reply
  | advance => .phase <$> Cpu.advance
  | pulse edge => .edge <$> Cpu.pulse edge
  | stepInstruction => .retired <$> Cpu.stepInstruction
  | run cycles => .cycles <$> Cpu.run cycles
  | a => (fun _ => .done) <$> a.perform

namespace Cpu

/-- What a host sees of a session: the answer or the error of every action, and the processor that
it leaves. -/
def transcript (c : Cpu) : List Action → List (EStateM.Result MachineError Cpu Reply)
  | [] => []
  | a :: actions => a.respond c :: transcript (final (a.respond c)) actions

variable (t : String)

theorem blind_perform (a : Action) : Blind (preceded t) a.perform := by
  cases a with
  | advance => exact (blind_advance t).discard
  | pulse edge => exact (blind_pulse t edge).discard
  | stepInstruction => exact (blind_advanceToExecute t 4).discard
  | run n => exact (blind_run t n).discard
  | halt =>
    refine .of_modify fun c => ?_
    have hs : (c.preceded t).state = c.state := rfl
    rw [halt, halt, hs]
    split <;> rfl
  | resume =>
    refine .of_modify fun c => ?_
    have hs : (c.preceded t).state = c.state := rfl
    rw [resume, resume, hs]
    split <;> rfl
  | reset | setEntry | setRegister => exact .of_modify fun _ => rfl
  | writeMemory a v => exact blind_writeMemory t a v
  | loadProgram program => exact blind_loadProgram t program

theorem blind_respond (a : Action) : Blind (preceded t) a.respond := by
  cases a with
  | advance => exact (blind_advance t).map _
  | pulse edge => exact (blind_pulse t edge).map _
  | stepInstruction => exact (blind_advanceToExecute t 4).map _
  | run n => exact (blind_run t n).map _
  | halt | resume | reset | setEntry | setRegister | writeMemory | loadProgram =>
    exact (blind_perform t _).map _

theorem transcript_preceded (c : Cpu) (actions : List Action) :
    (c.preceded t).transcript actions = (c.transcript actions).map (seen (preceded t)) := by
  induction actions generalizing c with
  | nil => rfl
  | cons a actions ih => rw [transcript, transcript, List.map_cons, blind_respond, final_seen, ih]

end Cpu

end X25
