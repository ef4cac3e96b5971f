import X25.Proofs.Command
import X25.Proofs.Command.FileTree

/-! # What assembling writes

Assembling writes one file, when all else went well, and at the place that its output names; every
path to another place reads as before. The output beside the source is never at the place of the
source. An output that is asked for may be: paths are told apart by their parts, so two dots are not
seen through, and a single dot at the start makes a path unequal to the same path without it.
-/

namespace X25

namespace Command

variable {α β : Type} {w w' : World} {x : CommandT (StateM World) α}
  {f : α → CommandT (StateM World) β} {code : Nat} {p out source : Path} {name : String}
  {output : Option String} {files : FileTree} {bytes : List UInt8} {e : Executable}
  {P : α → Prop} {R : α → FileTree → Prop} {S : β → FileTree → Prop}

/-! ## Commands that fail write nothing -/

/-- From these files a command either fails and leaves them, or gives an answer that is in a
relation with the files it leaves. -/
def Ends (files : FileTree) (x : CommandT (StateM World) α) (R : α → FileTree → Prop) : Prop :=
  ∀ w : World, w.files = files →
    (∃ code w', runIn w x = (.error code, w') ∧ w'.files = files) ∨
      ∃ a w', runIn w x = (.ok a, w') ∧ R a w'.files

theorem runIn_bind_of_error (h : runIn w x = (.error code, w')) :
    runIn w (x >>= f) = (.error code, w') := by
  simp only [runIn, ExceptT.run_bind, StateT.run_bind] at h ⊢
  rw [h]
  rfl

theorem runIn_writeFile_of_error {e : FileError} (h : w.files.write p bytes = .error e) :
    runIn w (monadLift (Host.writeFile p bytes : StateM World _)) = (.ok (.error e), w) := by
  have hw : (Host.writeFile p bytes : StateM World _).run w = (.error e, w) := by
    simp only [Host.writeFile, StateT.run_bind, StateT.run_get, pure_bind, h]
    rfl
  simp only [runIn, ExceptT.run_liftM, StateT.run_map, hw]
  rfl

namespace Ends

theorem bind (hx : Ends files x fun a t => t = files ∧ P a) (hf : ∀ a, P a → Ends files (f a) S) :
    Ends files (x >>= f) S := by
  intro w hw
  rcases hx w hw with ⟨code, w', hr, hs⟩ | ⟨a, w', hr, hs, ha⟩
  · exact .inl ⟨code, w', runIn_bind_of_error hr, hs⟩
  · rw [runIn_bind_of_ok hr]
    exact hf a ha w' hs

theorem bind_say (hx : Ends files x R) (line : String) :
    Ends files (x >>= fun _ => say line) fun _ t => ∃ a, R a t := by
  intro w hw
  rcases hx w hw with ⟨code, w', hr, hs⟩ | ⟨a, w', hr, ha⟩
  · exact .inl ⟨code, w', runIn_bind_of_error hr, hs⟩
  · rw [runIn_bind_of_ok hr]
    exact .inr ⟨(), w'.said line, runIn_say line w', a, ha⟩

theorem fail (reason : String) : Ends files (fail reason) R := by
  intro w hw
  exact .inl ⟨1, { w with errors := w.errors ++ ("❌ " ++ reason ++ "\n") }, rfl, hw⟩

theorem say (line : String) : Ends files (say line) fun _ t => t = files ∧ True := by
  intro w hw
  exact .inr ⟨(), w.said line, runIn_say line w, hw, trivial⟩

theorem readFile (p : Path) : Ends files (readFile p) fun r t => t = files ∧ files.read p = r := by
  intro w hw
  exact .inr ⟨w.files.read p, w, runIn_readFile p w, hw, by rw [hw]⟩

theorem readSource (p : Path) : Ends files (readSource p) fun text t =>
    t = files ∧ ∃ bytes, files.read p = .ok bytes ∧ decodeText? bytes = some text := by
  apply (readFile p).bind
  intro r hr
  cases r with
  | error e => exact .fail _
  | ok bytes =>
    simp only
    cases hd : decodeText? bytes with
    | none => exact .fail _
    | some text =>
      intro w hw
      exact .inr ⟨text, w, rfl, hw, bytes, hr, hd⟩

theorem assembleSource (text : String) : Ends files (assembleSource text) fun words t =>
    t = files ∧ Assembly.assemble text = .ok words := by
  unfold Command.assembleSource
  cases h : Assembly.assemble text with
  | error e => exact .fail _
  | ok words =>
    intro w hw
    exact .inr ⟨words, w, rfl, hw, rfl⟩

theorem writeFile_of_error {e : FileError} (h : files.write p bytes = .error e) :
    Ends files (monadLift (Host.writeFile p bytes : StateM World _)) fun r t =>
      t = files ∧ r = .error e := by
  rintro w rfl
  exact .inr ⟨.error e, w, runIn_writeFile_of_error h, rfl, rfl⟩

theorem writeExecutable (hs : e.save = .ok bytes) (p : Path) :
    Ends files (writeExecutable p e) fun _ t => files.write p bytes = .ok t := by
  cases hf : files.write p bytes with
  | error f =>
    rw [Command.writeExecutable, hs]
    apply (writeFile_of_error hf).bind
    rintro _ rfl
    exact .fail _
  | ok t =>
    rintro w rfl
    exact .inr ⟨(), { w with files := t }, runIn_writeExecutable hs hf, rfl⟩

theorem assemble (name : String) (output : Option String) :
    Ends files (assemble name output) fun _ t => ∃ out bytes text words,
      outputPath ⟨name⟩ output = .ok out ∧ files.read ⟨name⟩ = .ok bytes ∧
      decodeText? bytes = some text ∧ Assembly.assemble text = .ok words ∧
      files.write out (Executable.ofProgram words).toBytes = .ok t := by
  unfold Command.assemble
  cases ho : outputPath ⟨name⟩ output with
  | error reason =>
    simp only [ho]
    exact Ends.bind (P := fun _ => False) (.fail reason) fun _ h => h.elim
  | ok out =>
    simp only [ho, pure_bind]
    apply (Ends.say _).bind
    intro _ _
    apply (Ends.readSource _).bind
    rintro text ⟨bytes, hr, hd⟩
    apply (Ends.assembleSource text).bind
    intro words ha
    apply (Ends.say _).bind
    intro _ _
    have hs := (interchangeable_of_assemble ha).saved
    intro w hw
    refine ((Ends.writeExecutable hs out).bind_say _ w hw).imp_right ?_
    rintro ⟨_, w', hr', -, ht⟩
    exact ⟨(), w', hr', out, bytes, text, words, rfl, hr, hd, ha, ht⟩

end Ends

/-! ## Where the executable goes -/

theorem eq_of_outputPath (h : outputPath source output = .ok out) :
    out = output.elim (source.withExtension "x25") Path.mk ∧ out.sameParts source = false := by
  have he : outputPath source output =
      let o := output.elim (source.withExtension "x25") Path.mk
      if o.sameParts source then .error ("output " ++ o.text ++ " would overwrite the source")
      else .ok o := by
    cases output <;> rfl
  rw [he] at h
  dsimp only at h
  split at h
  · cases h
  · next hn =>
    cases h
    exact ⟨rfl, by simpa using hn⟩

theorem place_of_outputPath_none (h : outputPath source none = .ok out) :
    out.place ≠ source.place := by
  obtain ⟨rfl, h⟩ := eq_of_outputPath h
  exact Path.place_withExtension_ne (by decide) h

/-- Without two dots, a single dot at the start is all that an accepted output may hide behind. -/
theorem place_of_outputPath (h : outputPath source output = .ok out) (ho : out.IsDescending)
    (hs : source.IsDescending) :
    out.place = source.place ↔ out.isAbsolute = source.isAbsolute ∧ out.parts = source.parts ∧
      out.startsWithDot ≠ source.startsWithDot := by
  have hn : ¬ out.sameParts source = true := by simp [(eq_of_outputPath h).2]
  rw [Path.sameParts_iff] at hn
  rw [Path.place_eq_iff ho hs]
  tauto

/-- The source was assembled and the executable written to an output. -/
structure Assembled (source out : Path) (words : List Word) (before after : FileTree) : Prop where
  assembled : ∃ bytes text, before.read source = .ok bytes ∧ decodeText? bytes = some text ∧
    Assembly.assemble text = .ok words
  kept : ∀ q : Path, q.place ≠ out.place → ∀ contents,
    after.read q = .ok contents ↔ before.read q = .ok contents
  written : out.place ≠ .nullDevice → after.read out = .ok (Executable.ofProgram words).toBytes
  lost : out.place ≠ .nullDevice → out.place = source.place →
    after.read source = .ok (Executable.ofProgram words).toBytes

theorem assembled_of_write {text : String} {words : List Word} {t : FileTree}
    (hs : files.read source = .ok bytes) (hd : decodeText? bytes = some text)
    (ha : Assembly.assemble text = .ok words)
    (hw : files.write out (Executable.ofProgram words).toBytes = .ok t) :
    Assembled source out words files t where
  assembled := ⟨bytes, text, hs, hd, ha⟩
  kept q hq contents := FileTree.read_write_of_ne hw hq
  written hn := FileTree.read_write hw hn (FileTree.put_of_write hw).1
  lost hn hp := by
    apply FileTree.read_write hw hn
    rw [hp]
    exact (FileTree.read_eq_ok.mp hs).1

/-- An output is accepted at the place of the source only if it was asked for, and without two dots
only if one of the paths starts with a single dot. Assembling fails and leaves all files, or writes
the executable to an accepted output. Then each path to another place reads what it read before, the
output reads as the executable, and so does the source if it is at the same place. This takes for
granted that the system does not break off a write, as for want of room or rights. -/
theorem source_kept_unless_named (name : String) (output : Option String) :
    (∀ out, outputPath ⟨name⟩ output = .ok out →
      (out.place = Path.place ⟨name⟩ → output = some out.text) ∧
      (out.IsDescending → Path.IsDescending ⟨name⟩ → (out.place = Path.place ⟨name⟩ ↔
        out.isAbsolute = Path.isAbsolute ⟨name⟩ ∧ out.parts = Path.parts ⟨name⟩ ∧
          out.startsWithDot ≠ Path.startsWithDot ⟨name⟩))) ∧
    ∀ w : World, let r := runIn w (assemble name output)
      (∃ code, r.1 = .error code) ∧ r.2.files = w.files ∨
      r.1 = .ok () ∧ ∃ out words, outputPath ⟨name⟩ output = .ok out ∧
        Assembled ⟨name⟩ out words w.files r.2.files := by
  constructor
  · intro out ho
    refine ⟨fun hp => ?_, place_of_outputPath ho⟩
    cases output with
    | none => exact absurd hp (place_of_outputPath_none ho)
    | some text =>
      obtain ⟨rfl, -⟩ := eq_of_outputPath ho
      rfl
  · intro w r
    rcases Ends.assemble name output w rfl with
      ⟨code, w', hr, hf⟩ | ⟨_, w', hr, out, bytes, text, words, ho, hs, hd, ha, hw⟩
    · left
      rw [show r = (.error code, w') from hr]
      exact ⟨⟨code, rfl⟩, hf⟩
    · right
      rw [show r = (.ok (), w') from hr]
      exact ⟨rfl, out, words, ho, assembled_of_write hs hd ha hw⟩

def sourceWorld : World :=
  ⟨[⟨.ofNames ["p.asm".toList], "NOP".toUTF8.toList⟩,
    ⟨.ofNames ["a".toList, "p.x25".toList], [7]⟩], "", "", ""⟩

/-- Two dots hide that the output is the source. The output beside the source is another file. -/
theorem source_kept_unless_named_dotted :
    let named := runIn sourceWorld (assemble "a/../p.asm" (some "p.asm"))
    let beside := runIn sourceWorld (assemble "a/../p.asm" none)
    let form := (Executable.ofProgram [0, 0]).toBytes
    named.1 = .ok () ∧ named.2.files.read ⟨"a/../p.asm"⟩ = .ok form ∧
      named.2.files.read ⟨"a/p.x25"⟩ = .ok [7] ∧
      outputPath ⟨"a/../p.asm"⟩ none = .ok ⟨"a/../p.x25"⟩ ∧
      beside.1 = .ok () ∧ beside.2.files.read ⟨"p.asm"⟩ = .ok "NOP".toUTF8.toList ∧
      beside.2.files.read ⟨"a/../p.x25"⟩ = .ok form := by
  intro named beside form
  have hn : outputPath ⟨"a/../p.asm"⟩ (some "p.asm") = .ok ⟨"p.asm"⟩ := by decide +kernel
  have ho : outputPath ⟨"a/../p.asm"⟩ none = .ok ⟨"a/../p.x25"⟩ := by decide +kernel
  have hs : sourceWorld.files.read ⟨"a/../p.asm"⟩ = .ok "NOP".toUTF8.toList := by decide +kernel
  have hd : decodeText? "NOP".toUTF8.toList = some "NOP" := by decide +kernel
  have ha : Assembly.assemble "NOP" = .ok [0, 0] := by decide +kernel
  have hwords {out : Path} {words : List Word} {t : FileTree}
      (h : Assembled ⟨"a/../p.asm"⟩ out words sourceWorld.files t) : words = [0, 0] := by
    obtain ⟨bytes, text, hs', hd', ha'⟩ := h.assembled
    cases hs.symm.trans hs'
    cases hd.symm.trans hd'
    exact Except.ok.inj (ha'.symm.trans ha)
  have hnamed : named.1 = .ok () := by decide +kernel
  have hbeside : beside.1 = .ok () := by decide +kernel
  obtain ⟨-, hrun⟩ := source_kept_unless_named "a/../p.asm" (some "p.asm")
  obtain ⟨haccept, hrun'⟩ := source_kept_unless_named "a/../p.asm" none
  have hplace : Path.place ⟨"p.asm"⟩ ≠ Path.place ⟨"a/../p.x25"⟩ := fun h =>
    absurd ((haccept _ ho).1 h.symm) (by simp)
  rcases hrun sourceWorld with ⟨⟨code, he⟩, -⟩ | ⟨-, out, words, hout, h⟩
  · cases hnamed.symm.trans he
  rcases hrun' sourceWorld with ⟨⟨code, he⟩, -⟩ | ⟨-, out', words', hout', h'⟩
  · cases hbeside.symm.trans he
  cases hn.symm.trans hout
  cases ho.symm.trans hout'
  obtain rfl : words = [0, 0] := hwords h
  obtain rfl : words' = [0, 0] := hwords h'
  refine ⟨hnamed, ?_, ?_, ho, hbeside, ?_, ?_⟩
  · exact h.lost (by decide +kernel) (by decide +kernel)
  · exact (h.kept ⟨"a/p.x25"⟩ (by decide +kernel) [7]).mpr (by decide +kernel)
  · exact (h'.kept ⟨"p.asm"⟩ hplace _).mpr (by decide +kernel)
  · exact h'.written (by decide +kernel)

/-- An accepted output may be at the place of the source, which is lost then. -/
theorem not_source_kept :
    let out : Path := ⟨"./p.asm"⟩
    let source : Path := ⟨"p.asm"⟩
    outputPath source (some "./p.asm") = .ok out ∧ out.place = source.place ∧
      sourceWorld.files.read source = .ok "NOP".toUTF8.toList ∧
      (runIn sourceWorld (assemble "p.asm" (some "./p.asm"))).2.files.read source =
        .ok (Executable.ofProgram [0, 0]).toBytes ∧
      ¬ ∀ (source : Path) (output : Option String) (out : Path),
        outputPath source output = .ok out → out.place ≠ source.place := by
  intro out source
  have ho : outputPath source (some "./p.asm") = .ok out := by decide +kernel
  have hp : out.place = source.place := by decide +kernel
  exact ⟨ho, hp, by decide +kernel, by decide +kernel, fun h => h _ _ _ ho hp⟩

end Command

end X25
