import X25.Clock
import X25.Proofs.Machine.Storing

/-! # The console

What a console has shown is the trace of the printable words that were stored in it, in their
order, and nothing else: whoever stores them, and whatever else is read, fetched, loaded, reset or
refused in between. Every way of clocking a processor is a session, so this holds of all of them.
-/

namespace X25

open Effect

/-- The bytes of a text, as words. -/
def Text.byteWords (t : String) : List Word :=
  t.toUTF8.data.toList.map UInt8.toUInt32

/-- The word goes to the console, and is a line feed or printable as a whole. -/
def MemoryWrite.isShown (l : Layout) (w : MemoryWrite) : Bool :=
  decide (l.consoleStart ≤ w.address ∧ w.address ≤ l.consoleEnd ∧
    (w.value = 0x0A ∨ (0x20 ≤ w.value ∧ w.value ≤ 0x7E)))

theorem Text.byteWords_push {v : Word} {ch : Char} (h : Device.character? v = some ch)
    (t : String) : byteWords (t.push ch) = byteWords t ++ [v] := by
  have hb : ∀ n < 127, String.utf8EncodeChar (Char.ofNat n) = [UInt8.ofNat n] := by decide
  have hv : v.toNat < 127 ∧ ch = Char.ofNat v.toNat := by
    unfold Device.character? at h
    split at h
    · next hp =>
      refine ⟨?_, (Option.some.inj h).symm⟩
      rcases hp with rfl | ⟨-, hp⟩
      · decide
      · exact Nat.lt_succ_of_le (UInt32.le_iff_toNat_le.mp hp)
    · cases h
  obtain ⟨hv, rfl⟩ := hv
  have hw : (UInt8.ofNat v.toNat).toUInt32 = v := by
    apply UInt32.toNat_inj.mp
    simp
    omega
  have he : [Char.ofNat v.toNat].utf8Encode = [UInt8.ofNat v.toNat].toByteArray := by
    rw [List.utf8Encode_singleton, hb v.toNat hv]
  simpa [byteWords, String.toUTF8, String.toByteArray_push, he] using hw

namespace AddressSpace

variable {s : AddressSpace} {l : Layout}

theorem shown_cleared (s : AddressSpace) (a v : Word) : s.cleared.shown a v = s.shown a v := by
  simp only [shown, regionAt?_cleared]
  cases s.regionAt? a <;> rfl

theorem shown_of_space (h : l.space = .ok s.cleared) (a v : Word) :
    s.shown a v =
      if l.consoleStart ≤ a ∧ a ≤ l.consoleEnd then (Device.character? v).toList else [] := by
  obtain ⟨hw, hs⟩ := Layout.space_eq_ok h
  have hf (r : Region) : s.cleared.regionAt? a = some r ↔
      r ∈ s.cleared.regions ∧ r.contains a = true := find?_contains_iff hw.apart
  rw [← shown_cleared]
  by_cases ha : l.consoleStart ≤ a ∧ a ≤ l.consoleEnd
  · let console : Region := ⟨l.consoleStart, l.consoleEnd, .console l.consoleSize⟩
    have hr : s.cleared.regionAt? a = some console := by
      rw [hf, hs]
      exact ⟨by simp [console], Region.contains_iff.mpr ha⟩
    simp only [shown, hr, if_pos ha]
    exact Device.shown_of_shows rfl v
  · rw [if_neg ha]
    cases hr : s.cleared.regionAt? a with
    | none => simp only [shown, hr]
    | some r =>
      obtain ⟨hm, hc⟩ := (hf r).mp hr
      rw [hs] at hm
      rcases List.mem_cons.mp hm with rfl | hm
      · simp only [shown, hr]
        rfl
      · obtain rfl := List.mem_singleton.mp hm
        exact absurd (Region.contains_iff.mp hc) ha

theorem byteWords_put (h : l.space = .ok s.cleared) (w : MemoryWrite) :
    Text.byteWords (s.put w.address w.value).output =
      Text.byteWords s.output ++ if w.isShown l then [w.value] else [] := by
  have ho : (s.put w.address w.value).output =
      (s.shown w.address w.value).foldl String.push s.output := rfl
  rw [ho, shown_of_space h]
  by_cases ha : l.consoleStart ≤ w.address ∧ w.address ≤ l.consoleEnd
  · by_cases hp : w.value = 0x0A ∨ (0x20 ≤ w.value ∧ w.value ≤ 0x7E)
    · have hc : Device.character? w.value = some (Char.ofNat w.value.toNat) := if_pos hp
      have hs : w.isShown l = true := decide_eq_true ⟨ha.1, ha.2, hp⟩
      simp [ha, hc, hs, Text.byteWords_push hc]
    · have hc : Device.character? w.value = none := if_neg hp
      have hs : w.isShown l = false := decide_eq_false fun h => hp h.2.2
      simp [hc, hs]
  · have hs : w.isShown l = false := decide_eq_false fun h => ha ⟨h.1, h.2.1⟩
    simp [ha, hs]

theorem byteWords_replay (h : l.space = .ok s.cleared) (ws : List MemoryWrite) :
    Text.byteWords (s.replay ws).output =
      Text.byteWords s.output ++ (ws.filter (·.isShown l)).map MemoryWrite.value := by
  induction ws generalizing s with
  | nil => simp [replay]
  | cons w ws ih =>
    have hs : l.space = .ok (s.put w.address w.value).cleared := by rw [cleared_put, h]
    show Text.byteWords ((s.put w.address w.value).replay ws).output = _
    rw [ih hs, byteWords_put h, List.append_assoc, List.filter_cons]
    split <;> simp

end AddressSpace

/-- The action shows nothing: it fetches or decodes, stores outside the console or nowhere, loads a
program, or is nothing that stores. -/
def Action.isSilent (c : Cpu) : Action → Bool
  | advance | pulse _ => decide (c.phase ≠ .execute)
  | stepInstruction | run _ => false
  | writeMemory a _ =>
    !(c.memory.holds a && decide (c.layout.consoleStart ≤ a ∧ a ≤ c.layout.consoleEnd))
  | halt | resume | reset | setEntry _ | setRegister .. | loadProgram _ => true

namespace Cpu

variable {c c' : Cpu} {e : Executable}

theorem Reachable.byteWords_after (h : Reachable c) (actions : List Action) :
    Text.byteWords (c.after actions).output =
      Text.byteWords c.output ++
        ((c.writes actions).filter (·.isShown c.layout)).map MemoryWrite.value := by
  have hm : (c.after actions).output = (c.memory.replay (c.writes actions)).output :=
    congrArg AddressSpace.output (h.memory_after actions)
  rw [hm, AddressSpace.byteWords_replay h.space_eq]
  rfl

theorem write?_of_ne_execute (h : c.phase ≠ .execute) : c.write? = none := by
  unfold write?
  split
  · exact Machine.write?_of_ne_execute h
  · rfl

theorem cycleWrites_one_of_ne_execute (h : c.phase ≠ .execute) : c.cycleWrites 1 = [] := by
  simp only [cycleWrites, write?_of_ne_execute h]
  split <;> rfl

theorem Reachable.output_of_writes_nil (h : Reachable c) {a : Action} (hw : a.writes c = []) :
    (final (a.perform c)).output = c.output := by
  have hm := memory_perform h.idle a
  rw [hw] at hm
  exact congrArg AddressSpace.output hm

theorem Reachable.output_loadProgram (h : Reachable c) (program : List Word) :
    (final (loadProgram program c)).output = c.output := by
  obtain ⟨-, hr⟩ | ⟨hn, -⟩ := loadProgram_cases program c
  · rw [hr]
    rfl
  · rw [IsArranged.loadProgram_eq h.space_eq hn]
    exact AddressSpace.output_putAll (AddressSpace.muteFrom_of_space h.space_eq hn)

theorem Reachable.output_of_isSilent (h : Reachable c) {a : Action} (ha : a.isSilent c = true) :
    (final (a.perform c)).output = c.output := by
  cases a with
  | advance =>
    exact h.output_of_writes_nil (cycleWrites_one_of_ne_execute (of_decide_eq_true ha))
  | pulse edge =>
    cases edge with
    | rising => exact h.output_of_writes_nil (cycleWrites_one_of_ne_execute (of_decide_eq_true ha))
    | falling => exact h.output_of_writes_nil rfl
  | stepInstruction | run => cases ha
  | halt | resume | reset | setEntry | setRegister => exact h.output_of_writes_nil rfl
  | writeMemory a v =>
    cases hh : c.memory.holds a with
    | false =>
      apply h.output_of_writes_nil
      simp [Action.writes, hh]
    | true =>
      have ha : ¬ (c.layout.consoleStart ≤ a ∧ a ≤ c.layout.consoleEnd) := by
        intro hin
        simp [Action.isSilent, hh, hin] at ha
      have hs : c.memory.shown a v = [] := by
        rw [AddressSpace.shown_of_space h.space_eq, if_neg ha]
      simp only [Action.perform, writeMemory, hh, if_true, final_ok]
      show (c.memory.put a v).output = c.memory.output
      simp [AddressSpace.put, hs]
  | loadProgram program => exact h.output_loadProgram program

/-- Whatever a host asks of a processor in whatever order, what its console has shown is, byte for
word, the trace of the words that instructions and the host have stored in the console, of those
that are a line feed or printable: and the memory is that of storing all words of the session one
after the other. Nothing is shown by fetching and decoding, by loading a program, a reset, or a
write that fails or goes elsewhere. A clock with an observer is a session too: its cycles, with the
observer's actions in between. -/
theorem console_trace (h : ofExecutable e = .ok c) (actions : List Action) :
    let c' := c.after actions
    c.output = "" ∧ c'.memory = c.memory.replay (c.writes actions) ∧
      Text.byteWords c'.output =
        ((c.writes actions).filter (·.isShown e.header.layout)).map MemoryWrite.value ∧
      (∀ a : Action, a.isSilent c' = true → (final (a.perform c')).output = c'.output) ∧
      ∀ {α : Type} (config : ClockConfig) (o : Observer α) answer budget (r : ClockRun α) x,
        o.Asks answer → r.cpu = c' → r.run config o budget = some x →
          ∃ n, (∀ s r', x = .ok s r' → s.cycles = n) ∧
            (final x).cpu = c.after (actions ++ o.session answer n c' r.notes) := by
  intro c'
  have hc := Reachable.ofExecutable h
  have ho := output_of_ofExecutable h
  have ht := hc.byteWords_after actions
  rw [ho, layout_of_ofExecutable h] at ht
  refine ⟨ho, hc.memory_after actions, ht, fun a => (hc.after actions).output_of_isSilent, ?_⟩
  intro α config o answer budget r x hobs hr hx
  obtain ⟨n, hn, hm⟩ := ClockRun.exists_session hobs hx
  refine ⟨n, fun s r' he => (hn s r' he).trans (Nat.zero_add n), ?_⟩
  rw [hm, hr, after_append]

def lettering : Executable :=
  let r : Register := .gp (Fin.last 15)
  let program : List Instruction :=
    [.immediate .aopi .always r .transferB 0x41, .immediate .store .always r .zero 20,
      .immediate .load .always .mdr .zero 20]
  ⟨.ofLayout ⟨0, 15, 16, 31⟩, program.flatMap (·.encode.toList)⟩

def letterer : Cpu :=
  small.after [.loadProgram lettering.program]

theorem console_trace_lettering :
    let actions : List Action :=
      [.run 12, .writeMemory 16 0x42, .writeMemory 16 0x141, .writeMemory 9 0x43,
        .writeMemory 99 0x44, .reset, .stepInstruction, .stepInstruction, .loadProgram [0x45]]
    let c := letterer.after actions
    ofExecutable lettering = .ok letterer ∧
      Text.byteWords c.output = [0x41, 0x41, 0x42, 0x41] ∧ (letterer.writes actions).length = 7 ∧
      ((letterer.writes actions).filter (·.isShown ⟨0, 15, 16, 31⟩)).map MemoryWrite.value =
        [0x41, 0x41, 0x42, 0x41] ∧
      (final ((Action.writeMemory 9 0x46).perform c)).output = c.output ∧
      ∃ s r, (ClockRun.ofCpu none c).run ⟨.auto 0, some 3⟩ .idle 4 = some (.ok s r) ∧
        s.cycles = 3 ∧ r.cpu = letterer.after (actions ++ .replicate 3 .advance) := by
  intro actions c
  have h : ofExecutable lettering = .ok letterer := rfl
  obtain ⟨-, -, ht, hs, hm⟩ := console_trace h actions
  have hw : ((letterer.writes actions).filter (·.isShown ⟨0, 15, 16, 31⟩)).map
      MemoryWrite.value = [0x41, 0x41, 0x42, 0x41] := by decide +kernel
  have hx : ((ClockRun.ofCpu none c).run ⟨.auto 0, some 3⟩ .idle 4).map answer =
      some (.ok ⟨3, .cycleLimit⟩) := by decide +kernel
  have hsession : Observer.idle.session (fun _ _ _ => []) 3 c () = .replicate 3 .advance := by
    decide +kernel
  have ho : Observer.idle.Asks fun _ _ _ => [] := fun _ _ _ => rfl
  have hr : (ClockRun.ofCpu none c).cpu = letterer.after actions := rfl
  obtain ⟨x, hx, ha⟩ := Option.map_eq_some_iff.mp hx
  obtain ⟨n, hn, hm⟩ := hm ⟨.auto 0, some 3⟩ .idle _ 4 (.ofCpu none c) x ho hr hx
  cases x with
  | error e r => cases ha
  | ok s r =>
    cases ha
    obtain rfl : 3 = n := hn _ _ rfl
    rw [hsession] at hm
    refine ⟨h, ht.trans hw, by decide +kernel, hw, ?_, _, r, hx, rfl, hm⟩
    exact hs (.writeMemory 9 0x46) (by decide +kernel)

end Cpu

end X25
