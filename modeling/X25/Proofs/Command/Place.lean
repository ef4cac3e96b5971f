import X25.Command.Basic
import Mathlib.Data.List.Basic

/-! # The place that a path names

Where there are no links, a path names a place whatever the tree: a piece that is empty or a single
dot stays where it is, two dots lead to the parent, and any other piece is a name to enter. Two
paths may name one place and still be unequal as paths. A path with another ending never names the
place of the first one, unless they are equal.
-/

namespace X25

namespace Place

def follow (q : Place) (piece : List Char) : Place :=
  if piece.isEmpty || Path.isDot piece then q
  else if Path.isDotDot piece then q.parent
  else q.enter piece

theorem length_parent_le (q : Place) : q.parent.names.length ≤ q.names.length := by
  unfold parent
  split <;> simp

theorem parent_ne_enter (q : Place) (name : List Char) : q.parent ≠ q.enter name := by
  intro h
  have hl := congrArg (fun r : Place => r.names.length) h
  have hp := length_parent_le q
  simp only [enter, List.length_append, List.length_singleton] at hl
  omega

theorem enter_inj {q r : Place} {m n : List Char} : q.enter m = r.enter n ↔ q = r ∧ m = n := by
  cases q
  cases r
  simp [enter, and_assoc]

end Place

namespace Path

variable {p q : Path} {name new cs : List Char} {blanks front : List (List Char)}

def isBlank (piece : List Char) : Bool :=
  piece.isEmpty || isDot piece

def origin (p : Path) : Place :=
  if p.isAbsolute then .root else .ofNames []

/-- The place that a path names. A path that begins at the root is taken to name another place than
one that does not, since nothing tells where the working directory is. -/
def place (p : Path) : Place :=
  p.pieces.foldl Place.follow p.origin

/-- No part of the path leads upwards. -/
def IsDescending (p : Path) : Prop :=
  ∀ piece ∈ p.parts, isDotDot piece = false

theorem parts_eq (p : Path) : p.parts = p.pieces.filter (!isBlank ·) := by
  simp [parts, isBlank]

theorem follow_of_isBlank {piece : List Char} (h : isBlank piece = true) (q : Place) :
    q.follow piece = q :=
  if_pos h

theorem follow_of_isDotDot {piece : List Char} (h : isDotDot piece = true) (q : Place) :
    q.follow piece = q.parent := by
  obtain rfl : piece = ['.', '.'] := eq_of_beq h
  rfl

theorem follow_of_name {piece : List Char} (hb : isBlank piece = false)
    (hd : isDotDot piece = false) (q : Place) : q.follow piece = q.enter piece := by
  have hb' : (piece.isEmpty || isDot piece) = false := hb
  simp [Place.follow, hb', hd]

theorem foldl_follow_filter (pieces : List (List Char)) (q : Place) :
    (pieces.filter (!isBlank ·)).foldl Place.follow q = pieces.foldl Place.follow q := by
  induction pieces generalizing q with
  | nil => rfl
  | cons piece pieces ih =>
    cases h : isBlank piece with
    | true => simp [h, follow_of_isBlank h, ih]
    | false => simp [h, ih]

theorem place_eq (p : Path) : p.place = p.parts.foldl Place.follow p.origin := by
  rw [parts_eq, foldl_follow_filter, place]

theorem foldl_follow_of_names {names : List (List Char)} (hb : ∀ n ∈ names, isBlank n = false)
    (hd : ∀ n ∈ names, isDotDot n = false) (q : Place) :
    names.foldl Place.follow q = ⟨q.origin, q.names ++ names⟩ := by
  induction names generalizing q with
  | nil => simp
  | cons n names ih =>
    obtain ⟨hbn, hb⟩ := List.forall_mem_cons.mp hb
    obtain ⟨hdn, hd⟩ := List.forall_mem_cons.mp hd
    simp [follow_of_name hbn hdn, ih hb hd, Place.enter]

theorem place_of_isDescending (h : p.IsDescending) :
    p.place = ⟨if p.isAbsolute then .root else .above 0, p.parts⟩ := by
  have hb : ∀ n ∈ p.parts, isBlank n = false := by simp [parts_eq]
  rw [place_eq, foldl_follow_of_names hb h, origin]
  split <;> simp [Place.root, Place.ofNames]

/-- Among paths that do not lead upwards, those that name one place have the same parts, and may
only differ in a single dot at the start. -/
theorem place_eq_iff (hp : p.IsDescending) (hq : q.IsDescending) :
    p.place = q.place ↔ p.isAbsolute = q.isAbsolute ∧ p.parts = q.parts := by
  rw [place_of_isDescending hp, place_of_isDescending hq]
  cases p.isAbsolute <;> cases q.isAbsolute <;> simp

theorem sameParts_iff : p.sameParts q = true ↔
    p.isAbsolute = q.isAbsolute ∧ p.startsWithDot = q.startsWithDot ∧ p.parts = q.parts := by
  simp [sameParts, and_assoc]

theorem isBlank_of_getLast? (h : p.parts.getLast? = some name) : isBlank name = false := by
  have hm := List.mem_of_getLast? h
  rw [parts_eq, List.mem_filter] at hm
  simpa using hm.2

/-! ## Another ending -/

theorem splitOn_of_not_mem (h : '/' ∉ cs) : cs.splitOn '/' = [cs] :=
  List.splitOnP_eq_singleton fun c hc => by
    rw [beq_eq_false_iff_ne]
    rintro rfl
    exact h hc

theorem splitOn_append_slash (cs ds : List Char) :
    (cs ++ '/' :: ds).splitOn '/' = cs.splitOn '/' ++ ds.splitOn '/' :=
  List.splitOnP_append_cons cs ds (by simp)

theorem isAbsolute_iff (p : Path) :
    p.isAbsolute = true ↔ ∃ piece rest, p.pieces = [] :: piece :: rest := by
  unfold isAbsolute pieces
  cases p.text.toList with
  | nil => simp
  | cons c cs =>
    by_cases hc : c = '/'
    · subst hc
      have hs : ('/' :: cs).splitOn '/' = [] :: cs.splitOn '/' := splitOn_append_slash [] cs
      obtain ⟨a, as, ha⟩ := List.exists_cons_of_ne_nil (List.splitOn_ne_nil '/' cs)
      simp [hs, ha]
    · obtain ⟨a, as, ha⟩ := List.exists_cons_of_ne_nil (List.splitOnP_ne_nil (· == '/') cs)
      simp [List.splitOn, List.splitOnP_cons_eq_if_modifyHead, hc, ha]

theorem isAbsolute_and_startsWithDot_congr (hp : p.pieces = front ++ name :: blanks)
    (hq : q.pieces = front ++ [new]) (hn : isBlank name = false) (hm : isBlank new = false) :
    q.isAbsolute = p.isAbsolute ∧ q.startsWithDot = p.startsWithDot := by
  rw [Bool.eq_iff_iff, isAbsolute_iff, isAbsolute_iff, startsWithDot, startsWithDot, hp, hq]
  simp only [isBlank, Bool.or_eq_false_iff, List.isEmpty_eq_false_iff] at hn hm
  cases front with
  | nil => simp [hn, hm]
  | cons piece front => cases front <;> simp

theorem dropTrailing_ne (cs ds : List Char) :
    dropTrailing cs ≠ '/' :: ds ∧ dropTrailing cs ≠ '.' :: '/' :: ds := by
  induction cs using dropTrailing.induct with
  | case1 cs ih => rwa [dropTrailing]
  | case2 cs ih => rwa [dropTrailing]
  | case3 cs h₁ h₂ =>
    rw [dropTrailing]
    · exact ⟨fun h => h₁ _ h, fun h => h₂ _ h⟩
    · exact h₁
    · exact h₂

theorem isBlank_of_dropTrailing {l d : List Char} (h : dropTrailing cs = l ++ '/' :: d) :
    isBlank l.reverse = false := by
  obtain ⟨h₁, h₂⟩ := dropTrailing_ne cs d
  rw [h] at h₁ h₂
  rw [isBlank, isDot, Bool.or_eq_false_iff, List.isEmpty_eq_false_iff, beq_eq_false_iff_ne]
  constructor
  · intro hn
    rw [List.reverse_eq_nil_iff.mp hn] at h₁
    exact h₁ rfl
  · intro hn
    rw [List.reverse_eq_iff.mp hn] at h₂
    exact h₂ rfl

theorem exists_splitOn_dropTrailing (cs : List Char) :
    ∃ blanks : List (List Char), (∀ b ∈ blanks, isBlank b = true) ∧
      cs.reverse.splitOn '/' = (dropTrailing cs).reverse.splitOn '/' ++ blanks := by
  induction cs using dropTrailing.induct with
  | case1 cs ih =>
    obtain ⟨blanks, hb, hs⟩ := ih
    refine ⟨blanks ++ [[]], ?_, ?_⟩
    · exact List.forall_mem_append.mpr ⟨hb, List.forall_mem_singleton.mpr rfl⟩
    · rw [dropTrailing, List.reverse_cons, splitOn_append_slash, hs, List.append_assoc]
      rfl
  | case2 cs ih =>
    obtain ⟨blanks, hb, hs⟩ := ih
    have hr : ('.' :: '/' :: cs).reverse = cs.reverse ++ '/' :: ['.'] := by simp
    refine ⟨blanks ++ [['.']], ?_, ?_⟩
    · exact List.forall_mem_append.mpr ⟨hb, List.forall_mem_singleton.mpr rfl⟩
    · rw [dropTrailing, hr, splitOn_append_slash, hs, List.append_assoc]
      rfl
  | case3 cs h₁ h₂ =>
    refine ⟨[], by simp, ?_⟩
    rw [dropTrailing, List.append_nil]
    · exact h₁
    · exact h₂

/-- The text of a path before its file name, and the pieces in it. Whatever replaces the name is the
last piece then. -/
theorem exists_front (h : p.parts.getLast? = some name) :
    ∃ front blanks : List (List Char), p.pieces = front ++ name :: blanks ∧
      (∀ b ∈ blanks, isBlank b = true) ∧ '/' ∉ name ∧
      ∀ new, '/' ∉ new →
        (((dropTrailing p.text.toList.reverse).drop name.length).reverse ++ new).splitOn '/' =
          front ++ [new] := by
  obtain ⟨blanks, hb, hs⟩ := exists_splitOn_dropTrailing p.text.toList.reverse
  rw [List.reverse_reverse] at hs
  have hf : blanks.filter (!isBlank ·) = [] := by simpa using hb
  generalize ht : dropTrailing p.text.toList.reverse = r at hs ⊢
  by_cases hr : '/' ∈ r
  · obtain ⟨l, d, rfl, hl⟩ := List.eq_append_cons_of_mem hr
    have hrev : (l ++ '/' :: d).reverse = d.reverse ++ '/' :: l.reverse := by simp
    have hl' : '/' ∉ l.reverse := by simpa using hl
    rw [hrev, splitOn_append_slash, splitOn_of_not_mem hl'] at hs
    have hne : isBlank l.reverse = false := isBlank_of_dropTrailing ht
    obtain rfl : l.reverse = name := by
      have hp : p.parts.getLast? = some l.reverse := by
        rw [parts_eq, pieces, hs]
        simp [List.filter_append, hf, hne]
      exact Option.some.inj (hp.symm.trans h)
    refine ⟨d.reverse.splitOn '/', blanks, by simpa [pieces] using hs, hb, hl', fun new hn => ?_⟩
    have hnew : ((l ++ '/' :: d).drop l.reverse.length).reverse ++ new =
        d.reverse ++ '/' :: new := by simp
    rw [hnew, splitOn_append_slash, splitOn_of_not_mem hn]
  · have hr' : '/' ∉ r.reverse := by simpa using hr
    rw [splitOn_of_not_mem hr'] at hs
    obtain rfl : r.reverse = name := by
      rw [parts_eq, pieces, hs, List.filter_append, hf, List.append_nil, List.filter_cons] at h
      split at h
      · exact Option.some.inj h
      · cases h
    refine ⟨[], blanks, by simpa [pieces] using hs, hb, hr', fun new hn => ?_⟩
    simp [splitOn_of_not_mem hn]

theorem mem_of_mem_stem {c : Char} (h : c ∈ stem name) : c ∈ name := by
  unfold stem at h
  split at h
  · dsimp only at h
    split at h
    · exact h
    · rw [List.mem_reverse] at h
      exact List.mem_reverse.mp ((List.dropWhile_suffix _).subset (List.mem_of_mem_tail h))
  · exact h

theorem stem_ne_nil (h : name ≠ []) : stem name ≠ [] := by
  unfold stem
  split
  · dsimp only
    split
    · exact h
    · next hb => simpa using hb
  · exact h

/-- Another ending replaces the last part of the path, by two dots or by another name. -/
theorem exists_last_withExtension {ending : String} (hs : '/' ∉ ending.toList)
    (h : p.parts.getLast? = some name) (hd : isDotDot name = false) :
    ∃ front blanks new, p.pieces = front ++ name :: blanks ∧ (∀ b ∈ blanks, isBlank b = true) ∧
      (p.withExtension ending).pieces = front ++ [new] ∧ isBlank new = false := by
  obtain ⟨front, blanks, hp, hb, hn, hq⟩ := exists_front h
  have hne : name ≠ [] := by
    rintro rfl
    cases isBlank_of_getLast? h
  have hnew : '/' ∉ stem name ++ '.' :: ending.toList := by
    simp only [List.mem_append, List.mem_cons, not_or]
    exact ⟨fun hm => hn (mem_of_mem_stem hm), by decide, hs⟩
  by_cases hc : ((dropTrailing p.text.toList.reverse).length == p.text.length && isDot (stem name))
  · refine ⟨front, blanks, ['.', '.'], hp, hb, ?_, rfl⟩
    simpa [pieces, withExtension, h, hd, hc] using hq ['.', '.'] (by decide)
  · refine ⟨front, blanks, stem name ++ '.' :: ending.toList, hp, hb, ?_, ?_⟩
    · simpa [pieces, withExtension, h, hd, hc] using hq _ hnew
    · obtain ⟨c, cs, hcs⟩ := List.exists_cons_of_ne_nil (stem_ne_nil hne)
      simp [isBlank, isDot, hcs]

theorem place_withExtension_ne {ending : String} (hs : '/' ∉ ending.toList)
    (h : (p.withExtension ending).sameParts p = false) :
    (p.withExtension ending).place ≠ p.place := by
  have hsame : p.withExtension ending ≠ p := by
    intro hp
    rw [hp, ← Bool.not_eq_true] at h
    exact h (sameParts_iff.mpr ⟨rfl, rfl, rfl⟩)
  cases hl : p.parts.getLast? with
  | none => exact absurd (by simp [withExtension, hl]) hsame
  | some name =>
    cases hd : isDotDot name with
    | true => exact absurd (by simp [withExtension, hl, hd]) hsame
    | false =>
      have hn := isBlank_of_getLast? hl
      obtain ⟨front, blanks, new, hp, hb, hq, hm⟩ := exists_last_withExtension hs hl hd
      obtain ⟨ha, hdot⟩ := isAbsolute_and_startsWithDot_congr hp hq hn hm
      have hpp : p.parts = front.filter (!isBlank ·) ++ [name] := by
        rw [parts_eq, hp]
        simpa [hn] using hb
      have hqp : (p.withExtension ending).parts = front.filter (!isBlank ·) ++ [new] := by
        rw [parts_eq, hq]
        simp [hm]
      have ho : (p.withExtension ending).origin = p.origin := by rw [origin, origin, ha]
      rw [place_eq, place_eq, hpp, hqp, ho, List.foldl_append, List.foldl_append]
      simp only [List.foldl_cons, List.foldl_nil, follow_of_name hn hd]
      cases hdd : isDotDot new with
      | true =>
        rw [follow_of_isDotDot hdd]
        exact Place.parent_ne_enter _ _
      | false =>
        rw [follow_of_name hm hdd]
        intro he
        obtain ⟨-, rfl⟩ := Place.enter_inj.mp he
        rw [← Bool.not_eq_true] at h
        exact h (sameParts_iff.mpr ⟨ha, hdot, hqp.trans hpp.symm⟩)

end Path

end X25
