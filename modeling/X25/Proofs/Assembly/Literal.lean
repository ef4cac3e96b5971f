import Mathlib.Data.List.Forall2
import Mathlib.Data.Nat.Digits.Defs
import X25.Proofs.Assembly.Printer

/-! # The grammar of literals

A literal is one digit or more, binary after `0b`, hexadecimal after `0x` and else decimal, perhaps
with a minus sign before it. Reading accepts exactly the literals whose number the sign allows, so
every way to write a word is read back as this word.
-/

namespace X25

namespace Numeral

variable {base n m d : Nat} {c : Char} {cs : List Char}

def IsDigit (base : Nat) (c : Char) (d : Nat) : Prop :=
  d < base ∧ (c = d.digitChar ∨ c = d.digitChar.toUpper)

/-- One digit or more, the first of the highest place, that make the number `n`. -/
def IsNumeral (base : Nat) (cs : List Char) (n : Nat) : Prop :=
  cs ≠ [] ∧ ∃ ds, List.Forall₂ (IsDigit base) cs ds ∧ Nat.ofDigits base ds.reverse = n

theorem digitValue?_eq_some_iff : digitValue? c = some d ↔ IsDigit 16 c d := by
  constructor
  · intro h
    -- the characters with a value end at `f`, so there are few to look at
    have hs : ∀ k < 103, ∀ e ∈ digitValue? (Char.ofNat k),
        e < 16 ∧ (Char.ofNat k = e.digitChar ∨ Char.ofNat k = e.digitChar.toUpper) := by
      decide +kernel
    have hc := (toNat_of_digitValue? (Option.isSome_of_eq_some h)).2
    rw [← Char.ofNat_toNat c] at h ⊢
    exact hs c.toNat (by omega) d h
  · rintro ⟨hd, hc⟩
    have hs : ∀ e < 16, digitValue? e.digitChar = some e ∧
        digitValue? e.digitChar.toUpper = some e := by
      decide +kernel
    rcases hc with rfl | rfl
    · exact (hs d hd).1
    · exact (hs d hd).2

theorem digit?_eq_some_iff (hb : base ≤ 16) : digit? base c = some d ↔ IsDigit base c d := by
  simp only [digit?, Option.filter_eq_some_iff, digitValue?_eq_some_iff, IsDigit, decide_eq_true_eq]
  constructor
  · rintro ⟨⟨-, hc⟩, hd⟩
    exact ⟨hd, hc⟩
  · rintro ⟨hd, hc⟩
    exact ⟨⟨by omega, hc⟩, hd⟩

/-- Reading goes on from the number already read, which moves up by one place for each digit. -/
theorem readFrom?_eq_some_iff (hb : base ≤ 16) : readFrom? base n cs = some m ↔
    ∃ ds, List.Forall₂ (IsDigit base) cs ds ∧
      Nat.ofDigits base ds.reverse + base ^ cs.length * n = m := by
  induction cs generalizing n with
  | nil => simp
  | cons c cs ih =>
    have hv : ∀ d ds, List.Forall₂ (IsDigit base) cs ds →
        Nat.ofDigits base ds.reverse + base ^ cs.length * (n * base + d) =
          Nat.ofDigits base (d :: ds).reverse + base ^ (cs.length + 1) * n := by
      intro d ds hd
      rw [List.reverse_cons, Nat.ofDigits_append, Nat.ofDigits_singleton, List.length_reverse,
        ← hd.length_eq]
      ring
    simp only [readFrom?_cons, Option.bind_eq_some_iff, digit?_eq_some_iff hb, ih,
      List.forall₂_cons_left_iff, List.length_cons]
    constructor
    · rintro ⟨d, hc, ds, hd, rfl⟩
      exact ⟨d :: ds, ⟨d, ds, hc, hd, rfl⟩, (hv d ds hd).symm⟩
    · rintro ⟨-, ⟨d, ds, hc, hd, rfl⟩, rfl⟩
      exact ⟨d, hc, ds, hd, hv d ds hd⟩

theorem read?_eq_some_iff (hb : base ≤ 16) : read? base cs = some n ↔ IsNumeral base cs n := by
  rw [read?, IsNumeral]
  split
  · next h => simp [List.isEmpty_iff.mp h]
  · next h =>
    have hn : cs ≠ [] := fun he => h (List.isEmpty_iff.mpr he)
    simp [hn, readFrom?_eq_some_iff hb]

end Numeral

namespace Literal

open Numeral

variable {n m : Nat} {cs : List Char} {t : String} {v : Word}

/-- The part of a literal after the sign: the mark of its base and its digits. -/
inductive IsMagnitude : List Char → Nat → Prop
  | binary {mark : Char} {cs : List Char} {n : Nat} : mark = 'b' ∨ mark = 'B' →
      IsNumeral 2 cs n → IsMagnitude ('0' :: mark :: cs) n
  | hexadecimal {mark : Char} {cs : List Char} {n : Nat} : mark = 'x' ∨ mark = 'X' →
      IsNumeral 16 cs n → IsMagnitude ('0' :: mark :: cs) n
  | decimal {cs : List Char} {n : Nat} : IsNumeral 10 cs n → IsMagnitude cs n

/-- No mark is a decimal digit, so decimal digits are read as such. -/
theorem magnitude?_of_decimal (h : Numeral.read? 10 cs = some n) : magnitude? cs = some n := by
  unfold magnitude?
  split
  case h_5 => exact h
  all_goals cases h

theorem magnitude?_eq_some_iff : magnitude? cs = some n ↔ IsMagnitude cs n := by
  constructor
  · intro h
    unfold magnitude? at h
    split at h
    · exact .binary (.inl rfl) ((Numeral.read?_eq_some_iff (by decide)).mp h)
    · exact .binary (.inr rfl) ((Numeral.read?_eq_some_iff (by decide)).mp h)
    · exact .hexadecimal (.inl rfl) ((Numeral.read?_eq_some_iff (by decide)).mp h)
    · exact .hexadecimal (.inr rfl) ((Numeral.read?_eq_some_iff (by decide)).mp h)
    · exact .decimal ((Numeral.read?_eq_some_iff (by decide)).mp h)
  · intro h
    cases h with
    | binary hm h =>
      rcases hm with rfl | rfl <;> exact (Numeral.read?_eq_some_iff (by decide)).mpr h
    | hexadecimal hm h =>
      rcases hm with rfl | rfl <;> exact (Numeral.read?_eq_some_iff (by decide)).mpr h
    | decimal h => exact magnitude?_of_decimal ((Numeral.read?_eq_some_iff (by decide)).mpr h)

theorem IsMagnitude.unique (h : IsMagnitude cs n) (h' : IsMagnitude cs m) : n = m := by
  rw [← magnitude?_eq_some_iff] at h h'
  exact Option.some.inj (h.symm.trans h')

theorem not_isMagnitude_sign : ¬ IsMagnitude ('-' :: cs) n := by
  rw [← magnitude?_eq_some_iff]
  rintro ⟨⟩

theorem positive?_eq_some_iff : positive? n = some v ↔ n ≤ 2 ^ 32 - 1 ∧ v.toNat = n := by
  have hs : UInt32.size = 2 ^ 32 := rfl
  rw [positive?]
  split
  · next h =>
    rw [Option.some.injEq, ← UInt32.toNat_inj, UInt32.toNat_ofNat_of_lt' h]
    constructor
    · intro he
      exact ⟨by omega, he.symm⟩
    · exact fun he => he.2.symm
  · next h => simp; omega

theorem negative?_eq_some_iff :
    negative? n = some v ↔ n ≤ 2 ^ 31 ∧ v.toNat = (2 ^ 32 - n) % 2 ^ 32 := by
  rw [negative?]
  split
  · next h =>
    have hn : (UInt32.ofNat n).toNat = n :=
      UInt32.toNat_ofNat_of_lt' (by show n < 2 ^ 32; omega)
    rw [Option.some.injEq, ← UInt32.toNat_inj, UInt32.toNat_neg, hn]
    constructor
    · exact fun he => ⟨h, he.symm⟩
    · exact fun he => he.2.symm
  · next h => simp; omega

theorem readList?_eq_some_iff : readList? cs = some v ↔
    (∃ n, IsMagnitude cs n ∧ n ≤ 2 ^ 32 - 1 ∧ v.toNat = n) ∨
      ∃ ds n, cs = '-' :: ds ∧ IsMagnitude ds n ∧ n ≤ 2 ^ 31 ∧
        v.toNat = (2 ^ 32 - n) % 2 ^ 32 := by
  unfold readList?
  split
  · next ds =>
    simp [Option.bind_eq_some_iff, magnitude?_eq_some_iff, negative?_eq_some_iff,
      not_isMagnitude_sign]
  · next hs =>
    simp only [Option.bind_eq_some_iff, magnitude?_eq_some_iff, positive?_eq_some_iff]
    refine ⟨.inl, ?_⟩
    rintro (h | ⟨ds, n, rfl, -⟩)
    · exact h
    · exact absurd rfl (hs ds)

theorem read?_eq_none (h : IsMagnitude cs n) (hn : 2 ^ 32 ≤ n) :
    read? (.ofList cs) = none ∧ read? (.ofList ('-' :: cs)) = none := by
  simp only [read?, String.toList_ofList, Option.eq_none_iff_forall_ne_some, ne_eq,
    readList?_eq_some_iff]
  constructor
  · rintro v (⟨m, hm, hle, -⟩ | ⟨ds, m, rfl, -⟩)
    · have he : n = m := h.unique hm
      omega
    · exact not_isMagnitude_sign h
  · rintro v (⟨m, hm, -⟩ | ⟨ds, m, hc, hm, hle, -⟩)
    · exact not_isMagnitude_sign hm
    · obtain ⟨-, rfl⟩ := List.cons.inj hc
      have he : n = m := h.unique hm
      omega

theorem isMagnitude_digits (width n : Nat) : IsMagnitude (digits 10 width n) n :=
  .decimal ((Numeral.read?_eq_some_iff (by decide)).mp
    (Numeral.read?_digits (by decide) (by decide) width n))

theorem read?_decimal (width : Nat) (v : Word) :
    read? (.ofList (digits 10 width v.toNat)) = some v := by
  have hv := v.toNat_lt
  rw [read?, String.toList_ofList, readList?_eq_some_iff]
  exact .inl ⟨v.toNat, isMagnitude_digits width _, by omega, rfl⟩

theorem read?_negated (width : Nat) (hn : n ≤ 2 ^ 31) :
    ∃ v, read? ("-" ++ .ofList (digits 10 width n)) = some v ∧
      v.toNat = (2 ^ 32 - n) % 2 ^ 32 := by
  have hv : (UInt32.ofNat (2 ^ 32 - n)).toNat = (2 ^ 32 - n) % 2 ^ 32 :=
    UInt32.toNat_ofNat'
  refine ⟨.ofNat (2 ^ 32 - n), ?_, hv⟩
  rw [read?, readList?_eq_some_iff]
  exact .inr ⟨_, n, by simp, isMagnitude_digits width n, hn, hv⟩

/-- A text is read exactly if it is a literal, to its number or with a sign to the two's complement
of this: at most `2 ^ 32 - 1` without the sign and `2 ^ 31` with it. A number that is too large, for
a word or for more bits than that, is refused. So each word is read back from its decimal,
hexadecimal and binary digits, whatever zeros stand before them, and a number up to `2 ^ 31` is
negated by a sign before its digits. -/
theorem literal_grammar :
    (∀ t v, read? t = some v ↔
      (∃ n, IsMagnitude t.toList n ∧ n ≤ 2 ^ 32 - 1 ∧ v.toNat = n) ∨
        ∃ cs n, t.toList = '-' :: cs ∧ IsMagnitude cs n ∧ n ≤ 2 ^ 31 ∧
          v.toNat = (2 ^ 32 - n) % 2 ^ 32) ∧
    (∀ cs n, IsMagnitude cs n → 2 ^ 32 ≤ n →
      read? (.ofList cs) = none ∧ read? (.ofList ('-' :: cs)) = none) ∧
    (∀ width v, read? (.ofList (digits 10 width v.toNat)) = some v ∧
      read? (hexMarked width v.toNat) = some v ∧ read? (binaryMarked width v.toNat) = some v) ∧
    ∀ width, ∀ n ≤ 2 ^ 31, ∃ v, read? ("-" ++ .ofList (digits 10 width n)) = some v ∧
      v.toNat = (2 ^ 32 - n) % 2 ^ 32 := by
  refine ⟨fun t v => readList?_eq_some_iff, fun cs n => read?_eq_none, fun width v => ?_,
    fun width n => read?_negated width⟩
  exact ⟨read?_decimal width v, read?_hexMarked width v, read?_binaryMarked width v⟩

/-- The least signed word in capital hexadecimal, and a number of more than 64 bits that would be
five if its high bits were dropped. -/
theorem literal_grammar_least :
    let cs := "0X080000000".toList
    let ds := "18446744073709551621".toList
    (IsMagnitude cs (2 ^ 31) ∧ read? (.ofList ('-' :: cs)) = some 0x80000000) ∧
      (IsMagnitude ds (2 ^ 64 + 5) ∧ 2 ^ 32 ≤ 2 ^ 64 + 5 ∧
        read? (.ofList ds) = none ∧ read? (.ofList ('-' :: ds)) = none) ∧
      2147483648 ≤ 2 ^ 31 ∧ ∃ v, read? ("-" ++ .ofList (digits 10 12 2147483648)) = some v ∧
        v.toNat = (2 ^ 32 - 2147483648) % 2 ^ 32 := by
  intro cs ds
  obtain ⟨hr, hl, -, hn⟩ := literal_grammar
  have hc : IsMagnitude cs (2 ^ 31) := magnitude?_eq_some_iff.mp (by decide +kernel)
  have hd : IsMagnitude ds (2 ^ 64 + 5) := magnitude?_eq_some_iff.mp (by decide +kernel)
  refine ⟨⟨hc, ?_⟩, ⟨hd, by decide, hl ds _ hd (by decide)⟩, by decide, hn 12 _ (by decide)⟩
  exact (hr _ _).mpr (.inr ⟨cs, 2 ^ 31, String.toList_ofList, hc, by decide, by decide⟩)

end Literal

end X25
