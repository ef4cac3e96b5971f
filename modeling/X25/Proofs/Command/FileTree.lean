import X25.Proofs.Command.Place
import X25.Proofs.Isa.Codec

/-! # What a written file leaves as it was

A walk along a path ends at the place that the path names, and passes only directories. So a file
can be written only where the directories above it exist, and no other place becomes a directory or
stops being one. Every path to another place then reads what it read before.
-/

namespace X25

namespace Place

variable {p q : Place} {name : List Char}

theorem contains_iff :
    p.contains q = true ↔ p.origin = q.origin ∧ p.names <+: q.names ∧ p.names ≠ q.names := by
  simp [contains, and_assoc]

theorem not_contains_of_isEmpty (h : q.names = []) : p.contains q = false := by
  rw [← Bool.not_eq_true, contains_iff, h]
  rintro ⟨-, hp, hn⟩
  exact hn (List.prefix_nil.mp hp)

theorem contains_of_parent (h : p.contains q.parent = true) : p.contains q = true := by
  unfold parent at h
  split at h
  · rw [not_contains_of_isEmpty rfl] at h
    cases h
  · next hne =>
    obtain ⟨ho, hp, hn⟩ := contains_iff.mp h
    refine contains_iff.mpr ⟨ho, hp.trans (List.dropLast_prefix _), fun he => ?_⟩
    have hl := hp.length_le
    have hpos : 0 < q.names.length := by simpa [List.length_pos_iff] using hne
    simp only [he, List.length_dropLast] at hl
    omega

theorem contains_enter (h : p.contains (q.enter name) = true) : p = q ∨ p.contains q = true := by
  obtain ⟨ho, hp, hn⟩ := contains_iff.mp h
  rcases List.prefix_concat_iff.mp hp with he | hp
  · exact absurd he hn
  · by_cases he : p.names = q.names
    · left
      cases p
      cases q
      cases ho
      cases he
      rfl
    · exact .inr (contains_iff.mpr ⟨ho, hp, he⟩)

end Place

namespace FileTree

variable {t t' : FileTree} {p q : Path} {place place' : Place} {pieces : List (List Char)}
  {bytes : List UInt8}

theorem checkDirectory_eq_ok {u : Unit} :
    t.checkDirectory place = .ok u ↔ t.isDirectory place = true := by
  unfold checkDirectory
  cases t.isDirectory place <;> cases (t.find? place).isSome <;> simp

theorem walk_cons_eq_ok {piece : List Char} :
    t.walk place (piece :: pieces) = .ok place' ↔
      t.isDirectory place = true ∧
      (Path.isBlank piece = false → Path.isDotDot piece = false →
        (String.ofList piece).utf8ByteSize ≤ nameLimit) ∧
      t.walk (place.follow piece) pieces = .ok place' := by
  simp only [walk, exceptBind_eq_ok, checkDirectory_eq_ok, exists_const, and_congr_right_iff]
  intro _
  unfold Place.follow Path.isBlank
  cases piece.isEmpty || Path.isDot piece with
  | true => simp
  | false =>
    cases Path.isDotDot piece with
    | true => simp
    | false =>
      by_cases hn : (String.ofList piece).utf8ByteSize ≤ nameLimit
      · simp [hn, Nat.not_lt.mpr hn]
      · simp [hn, Nat.not_le.mp hn, throw, throwThe, MonadExceptOf.throw]

/-- A walk ends where the pieces lead. -/
theorem eq_of_walk (h : t.walk place pieces = .ok place') :
    place' = pieces.foldl Place.follow place := by
  induction pieces generalizing place with
  | nil =>
    cases h
    rfl
  | cons piece pieces ih => exact ih (walk_cons_eq_ok.mp h).2.2

theorem isDirectory_of_walk (h : t.walk place pieces = .ok place')
    (hd : ∀ d : Place, d.contains place = true → t.isDirectory d = true) :
    ∀ d : Place, d.contains place' = true → t.isDirectory d = true := by
  induction pieces generalizing place with
  | nil =>
    cases h
    exact hd
  | cons piece pieces ih =>
    obtain ⟨hp, -, hw⟩ := walk_cons_eq_ok.mp h
    refine ih hw fun d hc => ?_
    unfold Place.follow at hc
    split at hc
    · exact hd d hc
    split at hc
    · exact hd d (Place.contains_of_parent hc)
    · rcases Place.contains_enter hc with rfl | hc
      · exact hp
      · exact hd d hc

/-- Trees with the same directories have the same walks. -/
theorem walk_congr (h : ∀ d, t'.isDirectory d = t.isDirectory d) :
    t'.walk place pieces = .ok place' ↔ t.walk place pieces = .ok place' := by
  induction pieces generalizing place with
  | nil => rfl
  | cons piece pieces ih => rw [walk_cons_eq_ok, walk_cons_eq_ok, h, ih]

theorem eq_of_start (h : start p = .ok place) : place = p.origin := by
  unfold start at h
  split at h
  · cases h
  split at h
  · cases h
  · cases h
    rfl

theorem locate_eq_ok : t.locate p = .ok place ↔
    start p = .ok p.origin ∧ t.walk p.origin p.pieces = .ok place := by
  rw [locate, exceptBind_eq_ok]
  constructor
  · rintro ⟨q, hs, hw⟩
    obtain rfl := eq_of_start hs
    exact ⟨hs, hw⟩
  · rintro ⟨hs, hw⟩
    exact ⟨_, hs, hw⟩

theorem eq_of_locate (h : t.locate p = .ok place) : place = p.place :=
  eq_of_walk (locate_eq_ok.mp h).2

theorem isDirectory_of_locate (h : t.locate p = .ok place) :
    ∀ d : Place, d.contains place = true → t.isDirectory d = true := by
  refine isDirectory_of_walk (locate_eq_ok.mp h).2 fun d hc => ?_
  have hn : p.origin.names = [] := by
    unfold Path.origin
    split <;> rfl
  rw [Place.not_contains_of_isEmpty hn] at hc
  cases hc

theorem locate_congr (h : ∀ d, t'.isDirectory d = t.isDirectory d) :
    t'.locate p = .ok place ↔ t.locate p = .ok place := by
  rw [locate_eq_ok, locate_eq_ok, walk_congr h]

theorem read_eq_ok : t.read p = .ok bytes ↔
    t.locate p = .ok p.place ∧ t.isDirectory p.place = false ∧ t.find? p.place = some bytes := by
  rw [read, exceptBind_eq_ok]
  constructor
  · rintro ⟨place, hl, h⟩
    obtain rfl := eq_of_locate hl
    cases hd : t.isDirectory p.place with
    | true =>
      simp only [hd] at h
      cases h
    | false =>
      cases hf : t.find? p.place with
      | none =>
        simp only [hd, hf] at h
        cases h
      | some b =>
        simp only [hd, hf] at h
        cases h
        exact ⟨hl, rfl, rfl⟩
  · rintro ⟨hl, hd, hf⟩
    exact ⟨_, hl, by simp only [hd, hf]; rfl⟩

theorem put_of_write (h : t.write p bytes = .ok t') :
    t.locate p = .ok p.place ∧ t.isDirectory p.place = false ∧ t' = t.put p.place bytes := by
  unfold write at h
  split at h
  · obtain ⟨q, -, h⟩ := exceptBind_eq_ok.mp h
    obtain ⟨u, -, h⟩ := exceptBind_eq_ok.mp h
    cases h
  · obtain ⟨place, hl, h⟩ := exceptBind_eq_ok.mp h
    obtain rfl := eq_of_locate hl
    split at h
    · cases h
    · next hd =>
      cases h
      exact ⟨hl, by simpa using hd, rfl⟩

/-! ## A file with new contents -/

theorem isDirectory_put (h : ∀ d : Place, d.contains place = true → t.isDirectory d = true)
    (d : Place) : (t.put place bytes).isDirectory d = t.isDirectory d := by
  unfold put
  split
  · rfl
  · cases hc : d.contains place with
    | true =>
      rw [h d hc]
      simp [isDirectory, hc]
    | false =>
      -- a file that stood there before is not below the directory either
      have hf : ∀ f : File, (f.place != place && d.contains f.place) = d.contains f.place := by
        intro f
        by_cases hp : f.place = place
        · simp [hp, hc]
        · simp [hp]
      simp [isDirectory, hc, hf, List.any_filter]

theorem find?_put_of_ne (h : place' ≠ place) :
    (t.put place bytes).find? place' = t.find? place' := by
  unfold put
  split
  · rfl
  · have hf : (fun f : File => !decide (f.place = place) && decide (f.place = place')) =
        fun f => f.place == place' := by
      funext f
      by_cases hp : f.place = place' <;> simp [hp, h]
    simp [find?, List.find?_append, List.find?_filter, hf, h.symm]

theorem find?_put_self (h : place ≠ .nullDevice) :
    (t.put place bytes).find? place = some bytes := by
  have hf : List.find? (fun f => f.place == place) (List.filter (fun f => f.place != place) t) =
      none := by simp
  simp [find?, put, if_neg h, List.find?_append, hf]

theorem isDirectory_write (h : t.write p bytes = .ok t') (d : Place) :
    t'.isDirectory d = t.isDirectory d := by
  obtain ⟨hl, -, rfl⟩ := put_of_write h
  exact isDirectory_put (isDirectory_of_locate hl) d

/-- Whatever is written, a path to another place reads what it read before. -/
theorem read_write_of_ne (h : t.write p bytes = .ok t') (hq : q.place ≠ p.place)
    {contents : List UInt8} : t'.read q = .ok contents ↔ t.read q = .ok contents := by
  have hd := isDirectory_write h
  obtain ⟨-, -, rfl⟩ := put_of_write h
  rw [read_eq_ok, read_eq_ok, locate_congr hd, hd, find?_put_of_ne hq]

/-- Each path to the place that can be walked reads what was written. -/
theorem read_write (h : t.write p bytes = .ok t') (hn : p.place ≠ .nullDevice)
    (hq : t.locate q = .ok p.place) : t'.read q = .ok bytes := by
  have hd := isDirectory_write h
  have he := eq_of_locate hq
  obtain ⟨-, hp, rfl⟩ := put_of_write h
  rw [read_eq_ok, ← he, locate_congr hd, hd]
  exact ⟨hq, hp, find?_put_self hn⟩

end FileTree

end X25
