import X25.Json.Machine
import X25.Proofs.Json.Text
import X25.Proofs.Json.Variation
import X25.Proofs.Machine.LifeCycle

/-! # Snapshots survive as text

The readers of the parts of a snapshot give the part back from each variation of its form that
leaves nothing out. The one exception is the object that holds the parts of an instruction under the
name of its format: no other member may come beside that one. All values in a snapshot are such that
a text carries them as they are.
-/

namespace X25

open Json

variable {grows : List String → Prop} {missing : List (List String)} {name : String}
  {x : Option Json} {medium : Medium}

theorem Flags.reads (f : Flags) : Reads grows Flags.ofJson? f.toJson f := by
  intro missing k h
  obtain ⟨ks, hk, hs, hm⟩ := h.fields (by simp)
  simp only [List.map_cons, List.map_nil] at hk
  simp only [List.forall_mem_cons] at hs hm
  obtain ⟨ho, hz, hn, hc, -⟩ := hs
  simp only [Flags.ofJson?, hk, Option.bind_eq_bind,
    Option.bind_some, ho.bind (reads_bool _), hz.bind (reads_bool _), hn.bind (reads_bool _),
    hc.bind (reads_bool _), ite_bind, hm, ite_and]
  simp

theorem Microcode.reads (m : Microcode) : Reads grows Microcode.ofJson? m.toJson m := by
  intro missing k h
  obtain ⟨ks, hk, hs, hm⟩ := h.fields (by simp)
  simp only [List.map_cons, List.map_nil] at hk
  simp only [List.forall_mem_cons] at hs hm
  obtain ⟨h1, h2, h3, h4, h5, h6, -⟩ := hs
  simp only [Microcode.ofJson?, hk, Option.bind_eq_bind,
    Option.bind_some, h1.bind (reads_bool _), h2.bind (reads_bool _), h3.bind (reads_bool _),
    h4.bind (reads_bool _), h5.bind (reads_bool _), h6.bind (reads_bool _), ite_bind, hm, ite_and]
  simp

theorem Opcode.reads (o : Opcode) : Reads grows Opcode.ofJson? o.toJson o :=
  reads_oneOf Opcode.tag o.mem_all (by decide)

theorem Condition.reads (c : Condition) : Reads grows Condition.ofJson? c.toJson c :=
  reads_oneOf Condition.tag c.mem_all (by decide)

theorem Register.reads (r : Register) : Reads grows Register.ofJson? r.toJson r :=
  reads_oneOf Register.tag r.mem_all (by decide)

theorem Phase.reads (p : Phase) : Reads grows Phase.ofJson? p.toJson p :=
  reads_oneOf Phase.tag (by cases p <;> decide) (by decide)

theorem RunState.reads (s : RunState) : Reads grows RunState.ofJson? s.toJson s :=
  reads_oneOf RunState.name (by cases s <;> decide) (by decide)

namespace Instruction

theorem reads_register (o : Opcode) (c : Condition) (d s : Register) (m : Microcode) :
    Reads grows registerOfJson? (.object [("opcode", o.toJson), ("condition", c.toJson),
      ("dest", d.toJson), ("src", s.toJson), ("alu", m.toJson)]) (register o c d s m) := by
  intro missing k h
  obtain ⟨ks, hk, hs, hm⟩ := h.fields (by simp)
  simp only [List.map_cons, List.map_nil] at hk
  simp only [List.forall_mem_cons] at hs hm
  obtain ⟨ho, hc, hd, hsrc, ha, -⟩ := hs
  simp only [registerOfJson?, hk, Option.bind_eq_bind,
    Option.bind_some, ho.bind o.reads, hc.bind c.reads, hd.bind d.reads, hsrc.bind s.reads,
    ha.bind m.reads, ite_bind, hm, ite_and]
  simp

theorem reads_immediate (o : Opcode) (c : Condition) (d : Register) (m : Microcode) (v : Word) :
    Reads grows immediateOfJson? (.object [("opcode", o.toJson), ("condition", c.toJson),
      ("dest", d.toJson), ("alu", m.toJson), ("immediate", .ofWord v)])
      (immediate o c d m v) := by
  intro missing k h
  obtain ⟨ks, hk, hs, hm⟩ := h.fields (by simp)
  simp only [List.map_cons, List.map_nil] at hk
  simp only [List.forall_mem_cons] at hs hm
  obtain ⟨ho, hc, hd, ha, hv, -⟩ := hs
  simp only [immediateOfJson?, hk, Option.bind_eq_bind,
    Option.bind_some, ho.bind o.reads, hc.bind c.reads, hd.bind d.reads, ha.bind m.reads,
    hv.bind (reads_word v), ite_bind, hm, ite_and]
  simp

theorem reads_jump (o : Opcode) (c : Condition) (t : Word) :
    Reads grows jumpOfJson? (.object [("opcode", o.toJson), ("condition", c.toJson),
      ("target", .ofWord t)]) (jump o c t) := by
  intro missing k h
  obtain ⟨ks, hk, hs, hm⟩ := h.fields (by simp)
  simp only [List.map_cons, List.map_nil] at hk
  simp only [List.forall_mem_cons] at hs hm
  obtain ⟨ho, hc, ht, -⟩ := hs
  simp only [jumpOfJson?, hk, Option.bind_eq_bind,
    Option.bind_some, ho.bind o.reads, hc.bind c.reads, ht.bind (reads_word t), ite_bind, hm,
    ite_and]
  simp

theorem reads (hg : ∀ f : Format, ¬ grows [f.tag]) (i : Instruction) :
    Reads grows (ofJson? medium) i.toJson i := by
  intro missing k h
  cases i with
  | register o c d s m =>
    rcases h.marked medium (hg .register) with ⟨sub, ks, hv, hk, rfl⟩ | ⟨hk, rfl⟩
    · have hr := reads_register o c d s m _ _ hv
      simpa [ofJson?, hk] using hr
    · simp [ofJson?, hk]
  | immediate o c d m v =>
    rcases h.marked medium (hg .immediate) with ⟨sub, ks, hv, hk, rfl⟩ | ⟨hk, rfl⟩
    · have hr := reads_immediate o c d m v _ _ hv
      simpa [ofJson?, hk, Format.tag] using hr
    · simp [ofJson?, hk]
  | jump o c t =>
    rcases h.marked medium (hg .jump) with ⟨sub, ks, hv, hk, rfl⟩ | ⟨hk, rfl⟩
    · have hr := reads_jump o c t _ _ hv
      simpa [ofJson?, hk, Format.tag] using hr
    · simp [ofJson?, hk]

theorem ofJson?_eq_none {ks : List (String × Json)} (h : ks.length ≠ 1) :
    ofJson? medium (.object ks) = none := by
  match ks with
  | [] => rfl
  | [_] => exact absurd rfl h
  | _ :: _ :: _ => simp [ofJson?, marked?]

end Instruction

namespace Retired

theorem reads (hg : ∀ f : Format, ¬ grows [f.tag]) (r : Retired) :
    Reads grows (ofJson? medium) r.toJson r := by
  intro missing k h
  obtain ⟨ks, hk, hs, hm⟩ := h.fields (by simp)
  simp only [List.map_cons, List.map_nil] at hk
  simp only [List.forall_mem_cons] at hs hm
  obtain ⟨ha, hi, he, -⟩ := hs
  simp only [ofJson?, hk, Option.bind_eq_bind,
    Option.bind_some, ha.bind (reads_word _), hi.bind (r.instruction.reads hg),
    he.bind (reads_bool _), ite_bind, hm, ite_and]
  simp

theorem option?_of_slot (medium : Medium) (hg : ∀ f : Format, ¬ grows [f.tag])
    {r : Option Retired} (h : Slot grows name (.ofOption toJson r) missing x) :
    Json.option? (ofJson? medium) x =
      if missing = [] then some r else if missing = [[name]] then some none else none := by
  cases r with
  | none =>
    cases h with
    | dropped => simp [Json.option?]
    | kept h =>
      cases h with
      | plain => rfl
  | some r => exact h.option?_object (r.reads hg)

end Retired

namespace Json

theorem sixteenWords?_ofWords (ws : Vector Word 16) :
    sixteenWords? (ofWords ws.toList) = some ws := by
  have hm := mapM_ofWord ws.toList
  have ha : ws.toList.toArray = ws.toArray := Array.toArray_toList
  simp only [sixteenWords?, ofWords, hm, Option.bind_eq_bind, Option.bind_some, ha]
  simp

theorem reads_sixteenWords (ws : Vector Word 16) :
    Reads grows sixteenWords? (ofWords ws.toList) ws :=
  reads_plain nofun (sixteenWords?_ofWords ws)

end Json

namespace Snapshot

theorem ofJson?_object {ms : List (String × Json)}
    (h : (object ms).members? memberNames = some (memberNames.map fun n => ms.lookup n)) :
    ofJson? medium (.object ms) = do
    let state ← (ms.lookup "state").bind RunState.ofJson?
    let phase ← (ms.lookup "phase").bind Phase.ofJson?
    let cycles ← (ms.lookup "cycles").bind count?
    let pc ← (ms.lookup "pc").bind word?
    let mar ← (ms.lookup "mar").bind word?
    let mdr ← (ms.lookup "mdr").bind word?
    let ira ← (ms.lookup "ira").bind word?
    let irb ← (ms.lookup "irb").bind word?
    let gp ← (ms.lookup "gp").bind sixteenWords?
    let flags ← (ms.lookup "flags").bind Flags.ofJson?
    let operation ← (ms.lookup "alu_operation").bind Microcode.ofJson?
    let latching ← (ms.lookup "flags_enabled").bind bool?
    let retired ← Json.option? (Retired.ofJson? medium) (ms.lookup "last_retired")
    return ⟨state, phase, cycles, pc, mar, mdr, ira, irb, gp, flags, operation, latching,
      retired⟩ := by
  rw [ofJson?, h]
  rfl

theorem ofJson?_of_variation (medium : Medium) (hg : ∀ f : Format, ¬ grows [f.tag])
    {s : Snapshot} {k : Json} (hc : s.cycles < UInt64.size)
    (h : Variation grows s.toJson missing k) :
    ofJson? medium k =
      if missing = [] then some s
      else if missing = [["last_retired"]] then some { s with retired := none } else none := by
  obtain ⟨⟨ks, rfl, hk, hs⟩, hw⟩ := h.record (by simp)
  -- Nothing but what is under the name of the retired instruction may be missing.
  have hlast := under_eq_self_iff "last_retired" hw
  simp only [List.forall_mem_cons] at hs
  simp only [List.forall_mem_cons, ne_eq, String.reduceEq, not_false_eq_true, forall_const,
    not_true_eq_false, IsEmpty.forall_iff, List.not_mem_nil, and_true] at hlast
  obtain ⟨hstate, hphase, hcycles, hpc, hmar, hmdr, hira, hirb, hgp, hflags, hop, hlatch, hret,
    -⟩ := hs
  have hr := Retired.option?_of_slot medium hg hret
  rw [ofJson?_object hk]
  dsimp only [Option.bind_eq_bind]
  rw [hstate.bind s.state.reads, ite_bind, hphase.bind s.phase.reads, ite_bind,
    hcycles.bind (reads_count hc), ite_bind, hpc.bind (reads_word _), ite_bind,
    hmar.bind (reads_word _), ite_bind, hmdr.bind (reads_word _), ite_bind,
    hira.bind (reads_word _), ite_bind, hirb.bind (reads_word _), ite_bind,
    hgp.bind (reads_sixteenWords _), ite_bind, hflags.bind s.flags.reads, ite_bind,
    hop.bind s.operation.reads, ite_bind, hlatch.bind (reads_bool _), ite_bind, hr]
  simp only [← ite_and]
  by_cases hl : under "last_retired" missing = missing
  · have hk := hlast.mp hl
    simp only [hk, hl, and_self, if_true]
    split
    · rfl
    · split <;> rfl
  · have hn : missing ≠ [] := by
      rintro rfl
      exact hl rfl
    have hn' : missing ≠ [["last_retired"]] := by
      rintro rfl
      exact hl under_singleton
    rw [if_neg hn, if_neg hn', if_neg]
    exact mt hlast.mpr hl

theorem ofJson?_eq_none {ms rs ks : List (String × Json)}
    (hr : ms.lookup "last_retired" = some (.object rs))
    (hi : rs.lookup "instruction" = some (.object ks)) (hn : ks.length ≠ 1) :
    ofJson? medium (.object ms) = none := by
  have hir : Retired.ofJson? medium (.object rs) = none := by
    simp only [Retired.ofJson?, members?]
    split
    · simp [hi, Instruction.ofJson?_eq_none hn]
    · rfl
  have ho : Json.option? (Retired.ofJson? medium) (some (.object rs)) = none := by
    simp [Json.option?, hir]
  by_cases hm : ∀ n ∈ memberNames, (ms.map Prod.fst).count n ≤ 1
  · rw [ofJson?_object (if_pos hm), hr, ho]
    simp only [Option.bind_eq_bind, Option.bind_none, Option.bind_fun_none]
  · rw [ofJson?, members?, if_neg hm]
    rfl

end Snapshot

/-! ## As text -/

namespace Json

theorem exact_ofNat {n : Nat} (h : n < UInt64.size) (depth : Nat) : (ofNat n).Exact depth := by
  have hs : UInt64.size = 0x10000000000000000 := rfl
  simp only [ofNat, Exact]
  omega

theorem exact_ofWord (w : Word) (depth : Nat) : (ofWord w).Exact depth :=
  exact_ofNat (w.toNat_lt.trans (by decide)) depth

theorem exactItems_ofWord (ws : List Word) (depth : Nat) : ExactItems depth (ws.map ofWord) := by
  induction ws with
  | nil => trivial
  | cons w ws ih => exact ⟨exact_ofWord w depth, ih⟩

end Json

theorem Flags.toJson_exact (f : Flags) (depth : Nat) : f.toJson.Exact (depth + 1) := by
  simp [toJson, Exact, ExactMembers]

theorem Microcode.toJson_exact (m : Microcode) (depth : Nat) : m.toJson.Exact (depth + 1) := by
  simp [toJson, Exact, ExactMembers]

theorem Instruction.toJson_exact (i : Instruction) (depth : Nat) : i.toJson.Exact (depth + 3) := by
  cases i with
  | register o c d s m =>
    have hm := m.toJson_exact depth
    simp [toJson, Opcode.toJson, Condition.toJson, Register.toJson, Exact, ExactMembers, hm]
  | immediate o c d m v =>
    have hm := m.toJson_exact depth
    simp [toJson, Opcode.toJson, Condition.toJson, Register.toJson, Exact, ExactMembers, hm,
      exact_ofWord]
  | jump o c t =>
    simp [toJson, Opcode.toJson, Condition.toJson, Exact, ExactMembers, exact_ofWord]

theorem Retired.toJson_exact (r : Retired) (depth : Nat) : r.toJson.Exact (depth + 4) := by
  have hi := r.instruction.toJson_exact depth
  simp [toJson, Exact, ExactMembers, exact_ofWord, hi]

namespace Snapshot

theorem ofOption_exact (r : Option Retired) (depth : Nat) :
    (ofOption Retired.toJson r).Exact (depth + 4) := by
  cases r with
  | none => trivial
  | some r => exact r.toJson_exact depth

theorem toJson_exact {s : Snapshot} (hc : s.cycles < UInt64.size) (depth : Nat) :
    s.toJson.Exact (depth + 5) := by
  have hcycles := exact_ofNat hc (depth + 4)
  have hgp := exactItems_ofWord s.gp.toList (depth + 3)
  have hflags := s.flags.toJson_exact (depth + 3)
  have hop := s.operation.toJson_exact (depth + 3)
  have hr := ofOption_exact s.retired depth
  simp [toJson, Exact, ExactMembers, RunState.toJson, Phase.toJson, ofWords, exact_ofWord,
    hcycles, hgp, hflags, hop, hr]

def jumped : Snapshot where
  state := .running
  phase := .fetch1
  cycles := 4
  pc := 0
  mar := 0
  mdr := 0
  ira := 0
  irb := 0
  gp := .replicate 16 0
  flags := ⟨false, false, false, false⟩
  operation := .transferA
  latching := false
  retired := some ⟨0, .jump .nop .always 0, true⟩

def jumpedMembers : List (String × Json) :=
  match jumped.toJson with
  | .object ms => ms.dropLast
  | _ => []

theorem exact_of_mem_jumpedMembers : ∀ m ∈ jumpedMembers, m.2.Exact 126 := by
  intro m hm
  have hj : jumped.toJson.Exact 127 := toJson_exact (by decide) 122
  exact exactMembers_iff.mp hj.2 m (List.dropLast_subset _ hm)

def notedJump : Json :=
  .object [("Jump", .object [("opcode", Opcode.nop.toJson), ("condition", Condition.always.toJson),
    ("target", .ofWord 0)]), ("note", .null)]

def noted : Json :=
  .object (jumpedMembers ++ [("last_retired", .object [("address", .ofWord 0),
    ("instruction", notedJump), ("executed", .bool true)])])

theorem exact_noted : noted.Exact 127 := by
  refine ⟨by decide, exactMembers_iff.mpr fun m hm => ?_⟩
  rcases List.mem_append.mp hm with hm | hm
  · exact exact_of_mem_jumpedMembers m hm
  · obtain rfl := List.mem_singleton.mp hm
    simp [notedJump, Opcode.toJson, Condition.toJson, Exact, ExactMembers, exact_ofWord]

/-- Other members may come to an object, unless it holds the parts of an instruction under the name
of its format. -/
def TakesOthers (names : List String) : Prop :=
  ∀ f : Format, names ≠ [f.tag]

theorem not_takesOthers (f : Format) : ¬ TakesOthers [f.tag] :=
  fun h => h f rfl

theorem ofJson?_write {write : Json → String} {read : String → Option Json}
    (hio : ReadsBack write read) {s : Snapshot} (hc : s.cycles < UInt64.size) :
    (read (write s.toJson)).bind (ofJson? .text) = some s := by
  have hr := ofJson?_of_variation .text not_takesOthers hc (Variation.refl s.toJson)
  rw [hio s.toJson (toJson_exact hc 122), Option.bind_some, hr, if_pos rfl]

/-- A snapshot is read back from its text, and from any text that gives its members in another
order or among others. Without its retired instruction it has none; without anything else it is
refused. So it is if the parts of the retired instruction do not stand alone under the name of its
format. -/
theorem survives_text {write : Json → String} {read : String → Option Json}
    (hio : ReadsBack write read) {s : Snapshot} (hc : s.cycles < UInt64.size) :
    (read (write s.toJson)).bind (ofJson? .text) = some s ∧
      (∀ text k missing, read text = some k → Variation TakesOthers s.toJson missing k →
        (read text).bind (ofJson? .text) =
          if missing = [] then some s
          else if missing = [["last_retired"]] then some { s with retired := none } else none) ∧
      ∀ text ms rs ks, read text = some (.object ms) →
        ms.lookup "last_retired" = some (.object rs) →
        rs.lookup "instruction" = some (.object ks) → ks.length ≠ 1 →
        (read text).bind (ofJson? .text) = none := by
  refine ⟨ofJson?_write hio hc, ?_, ?_⟩
  · intro text k missing hk h
    rw [hk, Option.bind_some, ofJson?_of_variation .text not_takesOthers hc h]
  · intro text ms rs ks hm hr hi hn
    rw [hm, Option.bind_some, ofJson?_eq_none hr hi hn]

theorem survives_text_reversed :
    jumped.cycles < UInt64.size ∧
      (ofText? jumped.toJson.compact).bind (ofJson? .text) = some jumped ∧
      (ofText? (Json.object (jumpedMembers.reverse ++ [("note", .null)])).compact).bind
          (ofJson? .text) =
        some { jumped with retired := none } ∧
      (ofText? noted.compact).bind (ofJson? .text) = none := by
  have hc : jumped.cycles < UInt64.size := by decide
  obtain ⟨hs, hvaried, hnoted⟩ := survives_text readsBack_compact hc
  have hk : Kept (Variation TakesOthers)
      (jumpedMembers ++ [("last_retired", .ofOption Retired.toJson jumped.retired)])
      [["last_retired"]] (jumpedMembers ++ []) := (Kept.refl jumpedMembers).append (.drop .nil)
  have hp : (jumpedMembers.reverse ++ [("note", Json.null)]).Perm
      (jumpedMembers ++ [] ++ [("note", .null)]) := by
    rw [List.append_nil]
    exact (List.reverse_perm jumpedMembers).append_right _
  have hv : Variation TakesOthers jumped.toJson [["last_retired"]]
      (.object (jumpedMembers.reverse ++ [("note", .null)])) := by
    refine .members hk (.inr ?_) ?_ hp
    · intro f
      simp
    · simp
  have he : (Json.object (jumpedMembers.reverse ++ [("note", .null)])).Exact 127 := by
    refine ⟨by decide, exactMembers_iff.mpr fun m hm => ?_⟩
    rcases List.mem_append.mp hm with hm | hm
    · exact exact_of_mem_jumpedMembers m (List.mem_reverse.mp hm)
    · obtain rfl := List.mem_singleton.mp hm
      trivial
  exact ⟨hc, hs, hvaried _ _ _ (readsBack_compact _ he) hv,
    hnoted _ _ _ _ (readsBack_compact _ exact_noted) rfl rfl (by decide)⟩

/-- Another member beside the parts of an instruction is not ignored. -/
theorem not_survives_others :
    Variation (fun _ => True) jumped.toJson [] noted ∧
      (ofText? noted.compact).bind (ofJson? .text) = none ∧
      ¬ ∀ (s : Snapshot) (k : Json), s.cycles < UInt64.size →
        Variation (fun _ => True) s.toJson [] k →
        (ofText? k.compact).bind (ofJson? .text) = some s := by
  have hi : Variation (fun _ => True) (Instruction.jump .nop .always 0).toJson [] notedJump :=
    .members (Kept.refl _) (.inr trivial) (by simp [Format.tag]) (.refl _)
  have hr : Variation (fun _ => True) (Retired.mk 0 (.jump .nop .always 0) true).toJson []
      (.object [("address", .ofWord 0), ("instruction", notedJump), ("executed", .bool true)]) :=
    hi.within [("address", .ofWord 0)] [("executed", .bool true)]
  have hv : Variation (fun _ => True) jumped.toJson [] noted := hr.within jumpedMembers []
  have hn : (ofText? noted.compact).bind (ofJson? .text) = none := by
    rw [readsBack_compact noted exact_noted, Option.bind_some]
    exact ofJson?_eq_none rfl rfl (by decide)
  refine ⟨hv, hn, fun h => ?_⟩
  have hj := h jumped noted (by decide) hv
  rw [hn] at hj
  cases hj

/-- All through a session of fewer than `2 ^ 64` rising edges the snapshot of the processor is read
back from its text. -/
theorem survives_session {write : Json → String} {read : String → Option Json}
    (hio : ReadsBack write read) {e : Executable} {c : Cpu} (h : Cpu.ofExecutable e = .ok c)
    {actions : List Action} (hn : Cpu.edgesOf c actions < UInt64.size) (k : Nat) :
    let s := (c.after (actions.take k)).snapshot
    (read (write s.toJson)).bind (ofJson? .text) = some s := by
  intro s
  have hc : s.cycles < UInt64.size := Cpu.cycles_after_lt h hn k
  exact ofJson?_write hio hc

end Snapshot

end X25
