import X25.Command.Basic
import X25.Proofs.Assembly.Lines
import X25.Proofs.Executable
import X25.Proofs.Workbench

/-! # Sources and their executables

To run a source and to run the file that it was assembled into is the same. The words of a source
come in pairs, so they can always be saved, and what is read back from the file is the executable of
the source. It is refused if it has more words than working memory, and otherwise stands at the
start of a memory that is empty beyond. From then on, whenever a session is about to fetch the pair
of a line that is still there, the processor decodes this pair.
-/

namespace X25

open Effect

namespace Cpu

variable {c : Cpu} {s : AddressSpace} {p : WordPair} {words : List Word} {k : Nat}

/-- Two cycles fetch a pair of words. The third holds its instruction, or fails if it has none. -/
structure Decodes (c : Cpu) (p : WordPair) : Prop where
  held : ∀ i, Instruction.decode p = .ok i →
    ∃ c', advances 3 c = .ok () c' ∧ c'.control.current = some i
  refused : ∀ f, Instruction.decode p = .error f →
    ∃ c' c'', advances 2 c = .ok () c' ∧ advance c' = .error (.decode f) c''

/-- The processor is new, with a program at the start of the standard layout and zero beyond. -/
structure Holds (c : Cpu) (words : List Word) : Prop where
  running : c.state = .running
  phase : c.phase = .fetch1
  pc : c.pc = 0
  memory : ∀ a, c.memory.get? a = if a ≤ 0x10FF then some (words[a.toNat]?.getD 0) else none

/-- The next cycle fetches the first word of a pair of the program, which is still in its place. -/
structure Before (c : Cpu) (words : List Word) (k : Nat) : Prop where
  running : c.state = .running
  phase : c.phase = .fetch1
  pc : c.pc = .ofNat (2 * k)
  low : c.memory.get? (.ofNat (2 * k)) = words[2 * k]?
  high : c.memory.get? (.ofNat (2 * k + 1)) = words[2 * k + 1]?

theorem Ready.decodes {s : Architecture} (h : Ready .fetch1 c s) (hp : s.fetch? = some p) :
    c.Decodes p := by
  have hf := h.fetch
  rw [hp] at hf
  cases hc : advances 2 c with
  | error e c' =>
    rw [hc] at hf
    cases hf
  | ok u c' =>
    rw [hc] at hf
    obtain ⟨hd⟩ := hf
    have hw : (⟨(s.loaded p).registers .ira, (s.loaded p).registers .irb⟩ : WordPair) = p := rfl
    constructor
    · intro i hi
      obtain ⟨c₃, ha, -, hk⟩ := hd.advance_of_decodable (hw ▸ hi)
      refine ⟨c₃, ?_, hk⟩
      rw [advances_add 2 1, bind_of_ok hc]
      exact advances_succ_of_ok ha
    · intro f hi
      obtain ⟨c₃, ha⟩ := hd.advance_of_undecodable (hw ▸ hi)
      exact ⟨c', c₃, hc, ha⟩

theorem Before.decodes (h : c.Before words k) (hi : c.datapath.Idle)
    (hl : words[2 * k]? = some p.low) (hh : words[2 * k + 1]? = some p.high) : c.Decodes p := by
  have hr : Ready .fetch1 c c.architecture := ⟨h.running, h.phase, hi, rfl⟩
  have ha : c.pc + 1 = .ofNat (2 * k + 1) := by
    rw [h.pc, UInt32.ofNat_add]
    rfl
  apply hr.decodes
  rw [Architecture.fetch?_eq_some]
  constructor
  · exact (congrArg c.memory.get? h.pc).trans (h.low.trans hl)
  · exact (congrArg c.memory.get? ha).trans (h.high.trans hh)

theorem maps_space_standard (h : Layout.standard.space = .ok s) (a : Word) :
    s.maps a = decide (a ≤ 0x10FF) := by
  obtain ⟨-, rfl⟩ := Layout.space_eq_ok h
  rw [Bool.eq_iff_iff, AddressSpace.maps_iff, decide_eq_true_iff]
  simp [Layout.standard, UInt32.le_iff_toNat_le]
  omega

theorem exists_memory_loaded (words : List Word) :
    ∃ s, Layout.standard.space = .ok s ∧
      Workbench.loaded words = started (s.putAll 0 words) .standard 0 :=
  ⟨_, rfl, rfl⟩

theorem holds_loaded (hn : words.length ≤ 4096) : (Workbench.loaded words).Holds words where
  running := rfl
  phase := rfl
  pc := rfl
  memory a := by
    obtain ⟨s, hs, hl⟩ := exists_memory_loaded words
    rw [hl]
    show (s.putAll 0 words).get? a = _
    rw [AddressSpace.get?_putAll s 0 a (Nat.le_trans hn (by decide)), Layout.get?_of_space hs,
      maps_space_standard hs, UInt32.sub_zero]
    simp only [decide_eq_true_iff]
    split <;> rfl

theorem ofExecutable_ofProgram (words : List Word) :
    ofExecutable (.ofProgram words) =
      if 4096 < words.length then .error (.programTooLarge words.length 4096)
      else .ok (Workbench.loaded words) := by
  obtain ⟨s, hs, hl⟩ := exists_memory_loaded words
  have hr : Layout.standard.ramSize = 4096 := by decide
  have he := ofExecutable_eq (e := .ofProgram words) hs
  rw [Executable.ofProgram, Header.ofLayout, hr] at he
  rw [hl]
  exact he

/-- The processor for an assembled source decodes the words of a line wherever it finds them. -/
theorem decodes_of_assemble {source l : String} (h : Assembly.assemble source = .ok words)
    (hl : (Assembly.statementLines source)[k]? = some l) (hi : c.datapath.Idle)
    (hb : c.Before words k) :
    ∃ p, Assembly.assembleLine l = .ok (some p) ∧ words[2 * k]? = some p.low ∧
      words[2 * k + 1]? = some p.high ∧ c.Decodes p ∧
      ∀ f, Instruction.decode p = .error f → Assembly.mnemonic? l = some .words := by
  obtain ⟨p, hp, hlo, hhi⟩ := Assembly.exists_pair_of_assemble h hl
  refine ⟨p, hp, hlo, hhi, hb.decodes hi hlo hhi, ?_⟩
  intro f hf
  by_contra hm
  obtain ⟨i, hi, rfl⟩ := Assembly.isCanonical_of_assembleLine hm hp
  rw [Instruction.decode_encode hi.1] at hf
  cases hf

end Cpu

def World.said (w : World) (line : String) : World :=
  { w with output := w.output ++ (line ++ "\n") }

namespace Command

variable {α β : Type} {w w' : World} {x : CommandT (StateM World) α}
  {f : α → CommandT (StateM World) β} {a : α} {p out : Path} {bytes : List UInt8}
  {files : FileTree} {e : Executable} {name source : String} {output : Option String}
  {words : List Word}

/-- How a command ends in a world, and the world after it. -/
def runIn (w : World) (x : CommandT (StateM World) α) : Except Nat α × World :=
  x.run.run w

theorem runIn_bind_of_ok (h : runIn w x = (.ok a, w')) : runIn w (x >>= f) = runIn w' (f a) := by
  simp only [runIn, ExceptT.run_bind, StateT.run_bind] at h ⊢
  rw [h]
  rfl

theorem runIn_say (line : String) (w : World) : runIn w (say line) = (.ok (), w.said line) := rfl

theorem runIn_readFile (p : Path) (w : World) :
    runIn w (readFile p) = (.ok (w.files.read p), w) := rfl

theorem runIn_writeFile (hw : w.files.write p bytes = .ok files) :
    runIn w (monadLift (Host.writeFile p bytes : StateM World _)) =
      (.ok (.ok ()), { w with files := files }) := by
  have h : (Host.writeFile p bytes : StateM World _).run w =
      (.ok (), { w with files := files }) := by
    simp only [Host.writeFile, bind_pure_comp, StateT.run_bind, StateT.run_get, pure_bind, hw,
      StateT.run_map, StateT.run_modify, map_pure]
    rfl
  simp only [runIn, ExceptT.run_liftM, StateT.run_map, h]
  rfl

theorem runIn_readSource (hr : w.files.read p = .ok bytes) (hd : decodeText? bytes = some source) :
    runIn w (readSource p) = (.ok source, w) := by
  have h := runIn_readFile p w
  rw [hr] at h
  rw [readSource, runIn_bind_of_ok h]
  simp only [hd]
  rfl

theorem runIn_assembleSource (h : Assembly.assemble source = .ok words) (w : World) :
    runIn w (assembleSource source) = (.ok words, w) := by
  rw [assembleSource, h]
  rfl

theorem runIn_readExecutable (hr : w.files.read p = .ok bytes)
    (he : Executable.ofBytes bytes = .ok e) : runIn w (readExecutable p) = (.ok e, w) := by
  have h := runIn_readFile p w
  rw [hr] at h
  rw [readExecutable, runIn_bind_of_ok h]
  have hb : (Except.ok bytes >>= Executable.ofBytes) = .ok e := he
  simp only [hb]
  rfl

theorem runIn_writeExecutable (hs : e.save = .ok bytes)
    (hw : w.files.write p bytes = .ok files) :
    runIn w (writeExecutable p e) = (.ok (), { w with files := files }) := by
  rw [writeExecutable, hs]
  exact runIn_bind_of_ok (runIn_writeFile hw)

theorem runIn_notEmpty (e : Executable) (w : World) :
    (runIn w (do
      if e.program.isEmpty then fail "No instructions to execute"
      return e)).1 = if e.program = [] then .error 1 else .ok e := by
  cases hp : e.program <;> rfl

theorem runIn_loadProgram_source (hn : isSourceName name = true)
    (hr : w.files.read ⟨name⟩ = .ok bytes) (hd : decodeText? bytes = some source)
    (h : Assembly.assemble source = .ok words) :
    (runIn w (loadProgram name)).1 = if words = [] then .error 1 else .ok (.ofProgram words) := by
  rw [loadProgram, if_pos hn, runIn_bind_of_ok (runIn_readSource hr hd),
    runIn_bind_of_ok (runIn_assembleSource h w), runIn_bind_of_ok (runIn_say _ w), pure_bind]
  exact runIn_notEmpty (.ofProgram words) _

theorem runIn_loadProgram_file (hn : isSourceName name = false)
    (hr : w.files.read ⟨name⟩ = .ok bytes) (he : Executable.ofBytes bytes = .ok e) :
    (runIn w (loadProgram name)).1 = if e.program = [] then .error 1 else .ok e := by
  rw [loadProgram, if_neg (Bool.not_eq_true _ ▸ hn), runIn_bind_of_ok (runIn_readExecutable hr he),
    runIn_bind_of_ok (runIn_say _ w), pure_bind]
  exact runIn_notEmpty e _

theorem runIn_assemble (ho : outputPath ⟨name⟩ output = .ok out)
    (hr : w.files.read ⟨name⟩ = .ok bytes) (hd : decodeText? bytes = some source)
    (h : Assembly.assemble source = .ok words) {form : List UInt8}
    (hs : (Executable.ofProgram words).save = .ok form) (hw : w.files.write out form = .ok files) :
    (runIn w (assemble name output)).1 = .ok () ∧
      (runIn w (assemble name output)).2.files = files := by
  unfold assemble
  simp only [ho]
  -- what is said changes no file
  rw [pure_bind, runIn_bind_of_ok (runIn_say _ w),
    runIn_bind_of_ok (runIn_readSource (w := w.said _) hr hd),
    runIn_bind_of_ok (runIn_assembleSource h _), runIn_bind_of_ok (runIn_say _ _),
    runIn_bind_of_ok (runIn_writeExecutable (w := (w.said _).said _) hs hw)]
  exact ⟨rfl, rfl⟩

/-- Commands take a source and the file form of an executable for the same program: assembling the
source writes this file, and loading either gives the executable, unless it is empty. -/
structure Interchangeable (source : String) (e : Executable) : Prop where
  saved : e.save = .ok e.toBytes
  assembled : ∀ (w : World) name output out bytes files, outputPath ⟨name⟩ output = .ok out →
    w.files.read ⟨name⟩ = .ok bytes → decodeText? bytes = some source →
    w.files.write out e.toBytes = .ok files →
    (runIn w (assemble name output)).1 = .ok () ∧
      (runIn w (assemble name output)).2.files = files
  fromSource : ∀ (w : World) name bytes, isSourceName name = true →
    w.files.read ⟨name⟩ = .ok bytes → decodeText? bytes = some source →
    (runIn w (loadProgram name)).1 = if e.program = [] then .error 1 else .ok e
  fromFile : ∀ (w : World) name, isSourceName name = false →
    w.files.read ⟨name⟩ = .ok e.toBytes →
    (runIn w (loadProgram name)).1 = if e.program = [] then .error 1 else .ok e
  read : ∀ (w : World) p, w.files.read p = .ok e.toBytes →
    runIn w (readExecutable p) = (.ok e, w)

theorem interchangeable_of_assemble (h : Assembly.assemble source = .ok words) :
    Interchangeable source (.ofProgram words) := by
  have h2 : words.length % 2 = 0 := by
    rw [Assembly.length_of_assemble h]
    omega
  have hs : (Executable.ofProgram words).save = .ok (Executable.ofProgram words).toBytes :=
    if_neg (not_not.mpr h2)
  have he : Executable.ofBytes (Executable.ofProgram words).toBytes = .ok (.ofProgram words) :=
    Executable.ofBytes_eq_ok.mpr ⟨rfl, rfl, h2⟩
  constructor
  · exact hs
  · intro w name output out bytes files ho hr hd hw
    exact runIn_assemble ho hr hd h hs hw
  · intro w name bytes hn hr hd
    exact runIn_loadProgram_source hn hr hd h
  · intro w name hn hr
    exact runIn_loadProgram_file hn hr he
  · intro w p hr
    exact runIn_readExecutable hr he

/-- A source that assembles has a pair of words for each line with a statement, and commands take it
and the file form of these words for the same program. If there are more words than working memory
has, no processor is made for them. Otherwise the new processor holds them from address zero on. In
every session with it, three cycles from the first fetch of a pair that is still there hold the
instruction that the words of its line decode to; if they do not decode, the line is one of raw
words and the third cycle fails with what decoding them reports. -/
theorem source_and_file_agree (h : Assembly.assemble source = .ok words) :
    words.length = 2 * (Assembly.statementLines source).length ∧
    Interchangeable source (.ofProgram words) ∧
    (4096 < words.length →
      Cpu.ofExecutable (.ofProgram words) = .error (.programTooLarge words.length 4096)) ∧
    (words.length ≤ 4096 → ∃ c, Cpu.ofExecutable (.ofProgram words) = .ok c ∧ c.Holds words ∧
      ∀ actions k l, (Assembly.statementLines source)[k]? = some l →
        (c.after actions).Before words k →
        ∃ p, Assembly.assembleLine l = .ok (some p) ∧ words[2 * k]? = some p.low ∧
          words[2 * k + 1]? = some p.high ∧ (c.after actions).Decodes p ∧
          ∀ f, Instruction.decode p = .error f → Assembly.mnemonic? l = some .words) := by
  have hc := Cpu.ofExecutable_ofProgram words
  refine ⟨Assembly.length_of_assemble h, interchangeable_of_assemble h, ?_, ?_⟩
  · intro hn
    rw [hc, if_pos hn]
  · intro hn
    rw [if_neg (Nat.not_lt.mpr hn)] at hc
    refine ⟨_, hc, Cpu.holds_loaded hn, ?_⟩
    intro actions k l hl hb
    exact Cpu.decodes_of_assemble h hl ((Cpu.Reachable.ofExecutable hc).after actions).idle hb

/-- A number, and then two words that are no instruction. -/
def strandedSource : String :=
  "; one\nMOV GP0, 65\n\n.WORD 0xFC000000 0 ; none\n"

def strandedWords : List Word :=
  [0x24218000, 65, 0xFC000000, 0]

def strandedWorld : World :=
  ⟨[⟨.ofNames ["a.asm".toList], strandedSource.toUTF8.toList⟩], "", "", ""⟩

def stranded : Cpu :=
  (Workbench.loaded strandedWords).after [.stepInstruction]

theorem before_stranded : stranded.Before strandedWords 1 := by
  constructor <;> decide +kernel

theorem source_and_file_agree_stranded :
    let e := Executable.ofProgram strandedWords
    let w := (runIn strandedWorld (assemble "a.asm" none)).2
    Assembly.assemble strandedSource = .ok strandedWords ∧
      (runIn strandedWorld (loadProgram "a.asm")).1 = .ok e ∧
      (runIn w (loadProgram "a.x25")).1 = .ok e ∧ runIn w (readExecutable ⟨"a.x25"⟩) = (.ok e, w) ∧
      Cpu.ofExecutable e = .ok (Workbench.loaded strandedWords) ∧
      (Assembly.statementLines strandedSource)[1]? = some ".WORD 0xFC000000 0 ; none" ∧
      stranded.Before strandedWords 1 ∧
      ∃ c c', Cpu.advances 2 stranded = .ok () c ∧
        Cpu.advance c = .error (.decode (.unknownOpcode 63)) c' := by
  intro e w
  have h : Assembly.assemble strandedSource = .ok strandedWords := by decide +kernel
  have hr : strandedWorld.files.read ⟨"a.asm"⟩ = .ok strandedSource.toUTF8.toList := by
    decide +kernel
  have hd : decodeText? strandedSource.toUTF8.toList = some strandedSource := by decide +kernel
  have hw : strandedWorld.files.write ⟨"a.x25"⟩ e.toBytes =
      .ok (strandedWorld.files ++ [⟨.ofNames ["a.x25".toList], e.toBytes⟩]) := by decide +kernel
  have ho : outputPath ⟨"a.asm"⟩ none = .ok ⟨"a.x25"⟩ := by decide +kernel
  have hl : (Assembly.statementLines strandedSource)[1]? = some ".WORD 0xFC000000 0 ; none" := by
    decide +kernel
  obtain ⟨-, hi, -, hc⟩ := source_and_file_agree h
  obtain ⟨c, hc, -, hs⟩ := hc (by decide)
  obtain rfl : c = Workbench.loaded strandedWords := by
    rw [Cpu.ofExecutable_ofProgram, if_neg (by decide)] at hc
    exact (Except.ok.inj hc).symm
  have hf : w.files.read ⟨"a.x25"⟩ = .ok e.toBytes := by
    rw [(hi.assembled strandedWorld "a.asm" none _ _ _ ho hr hd hw).2]
    decide +kernel
  obtain ⟨p, -, hlo, hhi, hp, -⟩ := hs [.stepInstruction] 1 _ hl before_stranded
  obtain rfl : p = ⟨0xFC000000, 0⟩ := by
    cases p
    cases hlo
    cases hhi
    rfl
  exact ⟨h, hi.fromSource _ _ _ (by decide) hr hd, hi.fromFile w _ (by decide) hf, hi.read w _ hf,
    hc, hl, before_stranded, hp.refused _ (by decide)⟩

end Command

end X25
