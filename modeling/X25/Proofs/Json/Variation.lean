import Mathlib.Data.List.Nodup
import X25.Json.Reading

/-! # Variations of a value

A value varies in how its objects are written: the order of their members, members of other names,
and members left out. A reader of records gives the same for every variation that leaves out
nothing, and nothing for one that leaves out what it asks for.
-/

namespace X25.Json

/-- The members of an object, each with its value varied or left out. `missing` gives the way to
each field that is left out, by the names on it. -/
inductive Kept (varies : Json → List (List String) → Json → Prop) :
    List (String × Json) → List (List String) → List (String × Json) → Prop
  | nil : Kept varies [] [] []
  | keep {name : String} {j k : Json} {ms ns : List (String × Json)}
      {missing further : List (List String)} : varies j missing k → Kept varies ms further ns →
      Kept varies ((name, j) :: ms) (missing.map (name :: ·) ++ further) ((name, k) :: ns)
  | drop {name : String} {j : Json} {ms ns : List (String × Json)}
      {further : List (List String)} : Kept varies ms further ns →
      Kept varies ((name, j) :: ms) ([name] :: further) ns

/-- A value and another form of it: the members of each object are in any order, without those left
out, and among members of names that the object does not have. `grows` tells from its names to which
objects such members may come. -/
inductive Variation (grows : List String → Prop) : Json → List (List String) → Json → Prop
  | plain {j : Json} : (∀ ms, j ≠ object ms) → Variation grows j [] j
  | members {ms ns unknown ks : List (String × Json)} {missing : List (List String)} :
      Kept (Variation grows) ms missing ns →
      (unknown = [] ∨ grows (ms.map Prod.fst)) → (∀ m ∈ unknown, m.1 ∉ ms.map Prod.fst) →
      ks.Perm (ns ++ unknown) → Variation grows (object ms) missing (object ks)

def under (name : String) (missing : List (List String)) : List (List String) :=
  missing.filter fun way => way.head? == some name

/-- What a lookup finds of the member of a name, with the ways to what it lacks. -/
inductive Slot (grows : List String → Prop) (name : String) (j : Json) :
    List (List String) → Option Json → Prop
  | kept {k : Json} {missing : List (List String)} :
      Variation grows j missing k → Slot grows name j (missing.map (name :: ·)) (some k)
  | dropped : Slot grows name j [[name]] none

/-- The reader gives the value for each variation that leaves out nothing, and nothing else. -/
def Reads (grows : List String → Prop) {α : Type} (read : Json → Option α) (j : Json) (a : α) :
    Prop :=
  ∀ missing k, Variation grows j missing k → read k = if missing = [] then some a else none

variable {grows : List String → Prop} {ms ns ks unknown : List (String × Json)}
  {missing further : List (List String)} {j k : Json} {x : Option Json} {name : String}

theorem under_append : under name (missing ++ further) = under name missing ++ under name further :=
  List.filter_append _ _

theorem under_map_cons : under name (missing.map (name :: ·)) = missing.map (name :: ·) := by
  simp [under, List.filter_eq_self]

theorem under_eq_nil (h : ∀ way ∈ missing, way.head? ≠ some name) : under name missing = [] := by
  simpa [under] using h

theorem under_map_cons_of_ne {first : String} (h : first ≠ name) :
    under name (missing.map (first :: ·)) = [] := by
  apply under_eq_nil
  simpa using fun _ _ => h

theorem under_singleton : under name [[name]] = [[name]] := by
  simp [under]

theorem under_singleton_of_ne {first : String} (h : first ≠ name) : under name [[first]] = [] := by
  simpa [under] using h

theorem Kept.exists_head {varies : Json → List (List String) → Json → Prop}
    (h : Kept varies ms missing ns) :
    ∀ way ∈ missing, ∃ name ∈ ms.map Prod.fst, way.head? = some name := by
  induction h with
  | nil => simp
  | keep _ _ ih =>
    intro way hw
    rcases List.mem_append.mp hw with hw | hw
    · obtain ⟨rest, -, rfl⟩ := List.mem_map.mp hw
      exact ⟨_, List.mem_cons_self, rfl⟩
    · obtain ⟨name, hn, he⟩ := ih way hw
      exact ⟨name, List.mem_cons_of_mem _ hn, he⟩
  | drop _ ih =>
    intro way hw
    rcases List.mem_cons.mp hw with rfl | hw
    · exact ⟨_, List.mem_cons_self, rfl⟩
    · obtain ⟨name, hn, he⟩ := ih way hw
      exact ⟨name, List.mem_cons_of_mem _ hn, he⟩

theorem Kept.under_eq_nil {varies : Json → List (List String) → Json → Prop}
    (h : Kept varies ms missing ns) (hn : name ∉ ms.map Prod.fst) : under name missing = [] := by
  apply Json.under_eq_nil
  intro way hw he
  obtain ⟨m, hm, he'⟩ := h.exists_head way hw
  exact hn (Option.some.inj (he.symm.trans he') ▸ hm)

theorem Kept.mem_names {varies : Json → List (List String) → Json → Prop}
    (h : Kept varies ms missing ns) : ∀ m ∈ ns, m.1 ∈ ms.map Prod.fst := by
  induction h with
  | nil => simp
  | keep _ _ ih =>
    intro m hm
    rcases List.mem_cons.mp hm with rfl | hm
    · exact List.mem_cons_self
    · exact List.mem_cons_of_mem _ (ih m hm)
  | drop _ ih => exact fun m hm => List.mem_cons_of_mem _ (ih m hm)

theorem ne_of_mem {first : String} (h : first ∉ ms.map Prod.fst) (hm : (name, j) ∈ ms) :
    first ≠ name := by
  rintro rfl
  have hn : (first, j).1 ∈ ms.map Prod.fst := List.mem_map_of_mem hm
  exact h hn

theorem lookup_eq_none (h : ∀ m ∈ ns, m.1 ≠ name) : ns.lookup name = none := by
  rw [List.lookup_eq_none_iff]
  intro m hm
  simpa using (h m hm).symm

theorem lookup_cons_of_ne {m : String} (h : m ≠ name) :
    ((name, k) :: ns).lookup m = ns.lookup m := by
  have hb : (m == name) = false := by simpa using h
  simp only [List.lookup_cons, hb]

theorem lookup_of_mem (hn : (ns.map Prod.fst).Nodup) (hm : (name, k) ∈ ns) :
    ns.lookup name = some k := by
  induction ns with
  | nil => cases hm
  | cons m ns ih =>
    obtain ⟨first, j⟩ := m
    obtain ⟨hf, hn⟩ := List.nodup_cons.mp hn
    rcases List.mem_cons.mp hm with he | hr
    · cases he
      exact List.lookup_cons_self
    · rw [lookup_cons_of_ne (ne_of_mem hf hr).symm, ih hn hr]

theorem mem_of_lookup (h : ns.lookup name = some k) : (name, k) ∈ ns := by
  obtain ⟨l, r, rfl, -⟩ := List.lookup_eq_some_iff.mp h
  simp

theorem lookup_perm (h : ks.Perm (ns ++ unknown)) (hn : (ns.map Prod.fst).Nodup)
    (hu : ∀ m ∈ unknown, m.1 ≠ name) : ks.lookup name = ns.lookup name := by
  cases hl : ks.lookup name with
  | none =>
    rw [List.lookup_eq_none_iff] at hl
    refine (lookup_eq_none fun m hm he => ?_).symm
    exact absurd (hl m (h.mem_iff.mpr (List.mem_append_left _ hm))) (by simp [he])
  | some v =>
    rcases List.mem_append.mp (h.mem_iff.mp (mem_of_lookup hl)) with hm | hm
    · exact (lookup_of_mem hn hm).symm
    · exact absurd rfl (hu _ hm)

theorem Kept.slot (h : Kept (Variation grows) ms missing ns) (hn : (ms.map Prod.fst).Nodup)
    (hm : (name, j) ∈ ms) : Slot grows name j (under name missing) (ns.lookup name) := by
  induction h with
  | nil => cases hm
  | @keep first i k ms ns sub further hv hk ih =>
    obtain ⟨hf, hn⟩ := List.nodup_cons.mp hn
    rw [under_append]
    rcases List.mem_cons.mp hm with he | hr
    · cases he
      rw [under_map_cons, hk.under_eq_nil hf, List.append_nil, List.lookup_cons_self]
      exact .kept hv
    · have hne := ne_of_mem hf hr
      rw [under_map_cons_of_ne hne, List.nil_append, lookup_cons_of_ne hne.symm]
      exact ih hn hr
  | @drop first i ms ns further hk ih =>
    obtain ⟨hf, hn⟩ := List.nodup_cons.mp hn
    rw [← List.singleton_append, under_append]
    rcases List.mem_cons.mp hm with he | hr
    · cases he
      have hl : ns.lookup name = none := lookup_eq_none fun m hm he =>
        hf (he ▸ hk.mem_names m hm)
      rw [under_singleton, hk.under_eq_nil hf, hl]
      exact .dropped
    · rw [under_singleton_of_ne (ne_of_mem hf hr), List.nil_append]
      exact ih hn hr

theorem Kept.nodup {varies : Json → List (List String) → Json → Prop}
    (h : Kept varies ms missing ns) (hn : (ms.map Prod.fst).Nodup) : (ns.map Prod.fst).Nodup := by
  induction h with
  | nil => exact List.nodup_nil
  | @keep name _ _ _ _ _ _ _ hk ih =>
    obtain ⟨hname, hn⟩ := List.nodup_cons.mp hn
    refine List.nodup_cons.mpr ⟨fun hm => ?_, ih hn⟩
    obtain ⟨m, hm, he⟩ := List.mem_map.mp hm
    exact hname (he ▸ hk.mem_names m hm)
  | drop _ ih => exact ih (List.nodup_cons.mp hn).2

theorem count_perm (h : ks.Perm (ns ++ unknown)) (hn : (ns.map Prod.fst).Nodup)
    (hu : ∀ m ∈ unknown, m.1 ≠ name) : (ks.map Prod.fst).count name ≤ 1 := by
  have hz : (unknown.map Prod.fst).count name = 0 := by
    rw [List.count_eq_zero]
    intro hm
    obtain ⟨m, hm, he⟩ := List.mem_map.mp hm
    exact hu m hm he
  rw [(h.map Prod.fst).count_eq, List.map_append, List.count_append, hz]
  exact List.nodup_iff_count_le_one.mp hn name

/-- What a reader of records has to know of a variation: what it finds under each name, and that
nothing else can be missing. -/
theorem Variation.record (h : Variation grows (.object ms) missing k)
    (hn : (ms.map Prod.fst).Nodup) :
    (∃ ks, k = .object ks ∧
      k.members? (ms.map Prod.fst) = some (ms.map fun m => ks.lookup m.1) ∧
      ∀ m ∈ ms, Slot grows m.1 m.2 (under m.1 missing) (ks.lookup m.1)) ∧
      ∀ way ∈ missing, ∃ m ∈ ms, way.head? = some m.1 := by
  cases h with
  | plain h => exact absurd rfl (h ms)
  | @members _ ns unknown ks _ hk hg hu hp =>
    refine ⟨⟨ks, rfl, ?_, fun m hm => ?_⟩, fun way hw => ?_⟩
    · have hc : ∀ n ∈ ms.map Prod.fst, (ks.map Prod.fst).count n ≤ 1 := fun n hm =>
        count_perm hp (hk.nodup hn) fun m' hm' he => hu m' hm' (he ▸ hm)
      rw [members?, if_pos hc, List.map_map]
      rfl
    · have hl : ks.lookup m.1 = ns.lookup m.1 := lookup_perm hp (hk.nodup hn) fun m' hm' he =>
        hu m' hm' (he ▸ List.mem_map_of_mem hm)
      rw [hl]
      exact hk.slot hn hm
    · obtain ⟨name, hname, he⟩ := hk.exists_head way hw
      obtain ⟨m, hm, rfl⟩ := List.mem_map.mp hname
      exact ⟨m, hm, he⟩

theorem under_eq_self_iff (name : String) (h : ∀ way ∈ missing, ∃ m ∈ ms, way.head? = some m.1) :
    under name missing = missing ↔ ∀ m ∈ ms, m.1 ≠ name → under m.1 missing = [] := by
  constructor
  · intro hu m _ hne
    rw [← hu]
    apply under_eq_nil
    intro way hw he
    have hh : way.head? = some name := by simpa using (List.mem_filter.mp hw).2
    exact hne (Option.some.inj (he.symm.trans hh))
  · intro hu
    rw [under, List.filter_eq_self]
    intro way hw
    obtain ⟨m, hm, he⟩ := h way hw
    by_contra hne
    have hmem : way ∈ under m.1 missing := by simp [under, hw, he]
    rw [hu m hm fun hn => hne (by simp [he, hn])] at hmem
    cases hmem

theorem eq_nil_iff (h : ∀ way ∈ missing, ∃ m ∈ ms, way.head? = some m.1) :
    missing = [] ↔ ∀ m ∈ ms, under m.1 missing = [] := by
  constructor
  · rintro rfl m -
    rfl
  · intro hu
    rw [List.eq_nil_iff_forall_not_mem]
    intro way hw
    obtain ⟨m, hm, he⟩ := h way hw
    have hmem : way ∈ under m.1 missing := by simp [under, hw, he]
    rw [hu m hm] at hmem
    cases hmem

/-- A record with what a lookup finds of each of its members: nothing is missing exactly if
nothing is missing under any of the names. -/
theorem Variation.fields (h : Variation grows (.object ms) missing k)
    (hn : (ms.map Prod.fst).Nodup) :
    ∃ ks : List (String × Json),
      k.members? (ms.map Prod.fst) = some (ms.map fun m => ks.lookup m.1) ∧
      (∀ m ∈ ms, Slot grows m.1 m.2 (under m.1 missing) (ks.lookup m.1)) ∧
      (missing = [] ↔ ∀ m ∈ ms, under m.1 missing = []) := by
  obtain ⟨⟨ks, -, hk, hs⟩, hw⟩ := h.record hn
  exact ⟨ks, hk, hs, eq_nil_iff hw⟩

theorem Variation.marked {tag : String} (medium : Medium) (hg : ¬ grows [tag])
    (h : Variation grows (.object [(tag, .object ms)]) missing k) :
    (∃ sub ks, Variation grows (.object ms) sub (.object ks) ∧
      k.marked? medium = some (tag, .object ks) ∧ missing = sub.map (tag :: ·)) ∨
      k.marked? medium = none ∧ missing = [[tag]] := by
  cases h with
  | plain h => exact absurd rfl (h _)
  | members hk hu _ hp =>
    obtain rfl := hu.resolve_right hg
    rw [List.append_nil] at hp
    cases hk with
    | keep hv hk =>
      cases hk
      obtain rfl := List.perm_singleton.mp hp
      cases hv with
      | plain h => exact absurd rfl (h _)
      | members hk' hu' hn' hp' =>
        exact .inl ⟨_, _, .members hk' hu' hn' hp', rfl, List.append_nil _⟩
    | drop hk =>
      cases hk
      obtain rfl := List.perm_nil.mp hp
      exact .inr ⟨rfl, rfl⟩

theorem Variation.nil_not_mem (h : Variation grows j missing k) : [] ∉ missing := by
  cases h with
  | plain => exact List.not_mem_nil
  | members hk =>
    intro hw
    obtain ⟨name, -, he⟩ := hk.exists_head _ hw
    cases he

theorem Variation.of_kept (h : Kept (Variation grows) ms missing ns) :
    Variation grows (.object ms) missing (.object ns) :=
  .members h (.inl rfl) (fun _ hm => nomatch hm) (by simp)

mutual

theorem Variation.refl (j : Json) : Variation grows j [] j := by
  cases j with
  | null | bool | integer | decimal | string | array => exact .plain nofun
  | object ms => exact .of_kept (Kept.refl ms)

theorem Kept.refl (ms : List (String × Json)) : Kept (Variation grows) ms [] ms := by
  cases ms with
  | nil => exact .nil
  | cons m ms =>
    obtain ⟨name, j⟩ := m
    exact .keep (Variation.refl j) (Kept.refl ms)

end

theorem Kept.append {varies : Json → List (List String) → Json → Prop}
    {ms' ns' : List (String × Json)} (h : Kept varies ms missing ns)
    (h' : Kept varies ms' further ns') :
    Kept varies (ms ++ ms') (missing ++ further) (ns ++ ns') := by
  induction h with
  | nil => exact h'
  | keep hv _ ih =>
    rw [List.append_assoc]
    exact .keep hv ih
  | drop _ ih => exact .drop ih

theorem Variation.within (front back : List (String × Json)) (h : Variation grows j missing k) :
    Variation grows (.object (front ++ (name, j) :: back)) (missing.map (name :: ·))
      (.object (front ++ (name, k) :: back)) := by
  have hm : Kept (Variation grows) ((name, j) :: back) (missing.map (name :: ·) ++ [])
      ((name, k) :: back) := .keep h (Kept.refl back)
  have hk := (Kept.refl front).append hm
  rw [List.nil_append, List.append_nil] at hk
  exact .of_kept hk

/-! ## Reading -/

variable {α β : Type} {read : Json → Option α} {a : α}

theorem reads_plain (hj : ∀ ms, j ≠ object ms) (hr : read j = some a) : Reads grows read j a := by
  intro missing k h
  cases h with
  | plain => simpa using hr
  | members => exact absurd rfl (hj _)

theorem Slot.bind (h : Slot grows name j missing x) (hr : Reads grows read j a) :
    x.bind read = if missing = [] then some a else none := by
  cases h with
  | kept h => simpa using hr _ _ h
  | dropped => rfl

theorem Slot.option?_object (h : Slot grows name (.object ms) missing x)
    (hr : Reads grows read (.object ms) a) :
    option? read x =
      if missing = [] then some (some a) else if missing = [[name]] then some none else none := by
  cases h with
  | dropped => simp [option?]
  | @kept k sub hv =>
    have hn : sub.map (name :: ·) ≠ [[name]] := by
      intro he
      obtain ⟨way, rfl, hway⟩ := List.map_eq_singleton_iff.mp he
      obtain rfl := (List.cons.inj hway).2
      exact hv.nil_not_mem (List.mem_singleton_self _)
    have hk := hr _ _ hv
    cases hv with
    | plain h => exact absurd rfl (h ms)
    | members =>
      rw [option?, hk, if_neg hn]
      · simp only [List.map_eq_nil_iff]
        split <;> rfl
      · exact nofun

theorem ite_bind (p : Prop) [Decidable p] (f : α → Option β) :
    (if p then some a else none : Option α).bind f = if p then f a else none := by
  split <;> rfl

theorem reads_bool (b : Bool) : Reads grows bool? (bool b) b :=
  reads_plain (by simp) rfl

theorem natBelow?_ofNat (bound n : Nat) :
    (ofNat n).natBelow? bound = if n < bound then some n else none := rfl

theorem word?_ofWord (w : Word) : word? (ofWord w) = some w := by
  rw [word?, ofWord, natBelow?_ofNat, if_pos w.toNat_lt_size, Option.map_some, UInt32.ofNat_toNat]

theorem reads_word (w : Word) : Reads grows word? (ofWord w) w :=
  reads_plain nofun (word?_ofWord w)

theorem reads_count {n : Nat} (hn : n < UInt64.size) : Reads grows count? (ofNat n) n := by
  refine reads_plain nofun ?_
  rw [count?, natBelow?_ofNat, if_pos hn]

theorem reads_oneOf {all : List α} (tag : α → String) (ha : a ∈ all)
    (h : ∀ b ∈ all, all.find? (tag · == tag b) = some b) :
    Reads grows (oneOf? all tag) (string (tag a)) a :=
  reads_plain nofun (by simpa [oneOf?, name?] using h a ha)

theorem mapM_ofWord (ws : List Word) : (ws.map ofWord).mapM word? = some ws := by
  induction ws with
  | nil => rfl
  | cons w ws ih => simp [List.mapM_cons, word?_ofWord, ih]

end X25.Json
