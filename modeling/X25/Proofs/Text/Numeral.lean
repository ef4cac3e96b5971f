import Mathlib.Data.Nat.Basic
import X25.Text.Numeral

/-! # Reading what was written

A number written in a base up to sixteen is read back from its digits, whatever zeros stand before
them.
-/

namespace X25.Numeral

variable {base : Nat}

theorem digit?_digitChar {d : Nat} (hd : d < base) (hb : base ≤ 16) :
    digit? base d.digitChar = some d := by
  have hv : ∀ e < 16, digitValue? e.digitChar = some e := by decide
  rw [digit?, hv d (Nat.lt_of_lt_of_le hd hb), Option.filter_some, if_pos (decide_eq_true hd)]

theorem readFrom?_toDigits (h : 1 < base) (hb : base ≤ 16) (n : Nat) :
    readFrom? base 0 (Nat.toDigits base n) = some n := by
  induction n using Nat.strongRecOn with
  | ind n ih =>
    rw [Nat.toDigits_eq_if h]
    split
    · next hn =>
      rw [readFrom?_cons, digit?_digitChar hn hb, Option.bind_some, readFrom?_nil, Nat.zero_mul,
        Nat.zero_add]
    · next hn =>
      have hd : n % base < base := Nat.mod_lt n (Nat.lt_of_succ_lt h)
      have hlt : n / base < n := Nat.div_lt_self (by omega) h
      rw [readFrom?_append, ih _ hlt, Option.bind_some, readFrom?_cons, digit?_digitChar hd hb,
        Option.bind_some, readFrom?_nil, Nat.mul_comm, Nat.div_add_mod]

theorem readFrom?_replicate_zero (h : 0 < base) (k : Nat) (cs : List Char) :
    readFrom? base 0 (List.replicate k '0' ++ cs) = readFrom? base 0 cs := by
  induction k with
  | zero => rfl
  | succ k ih =>
    have hz : digit? base '0' = some 0 := by
      rw [digit?]
      exact if_pos (decide_eq_true h)
    rw [List.replicate_succ, List.cons_append, readFrom?_cons, hz, Option.bind_some, Nat.zero_mul,
      Nat.zero_add, ih]

theorem read?_digits (h : 1 < base) (hb : base ≤ 16) (width n : Nat) :
    read? base (digits base width n) = some n := by
  have hne : (digits base width n).isEmpty = false := by
    rw [digits, List.leftpad, List.isEmpty_eq_false_iff]
    exact List.append_ne_nil_of_right_ne_nil _ Nat.toDigits_ne_nil
  rw [read?, hne, digits, List.leftpad, readFrom?_replicate_zero (Nat.lt_of_succ_lt h),
    readFrom?_toDigits h hb]
  rfl

theorem digit?_isSome_of_readFrom? {n m : Nat} {cs : List Char}
    (h : readFrom? base n cs = some m) : ∀ c ∈ cs, (digit? base c).isSome = true := by
  induction cs generalizing n with
  | nil => exact fun c hc => absurd hc List.not_mem_nil
  | cons c cs ih =>
    rw [readFrom?_cons, Option.bind_eq_some_iff] at h
    obtain ⟨d, hd, h⟩ := h
    intro c' hc'
    obtain rfl | hc' := List.mem_cons.mp hc'
    · rw [hd]
      rfl
    · exact ih h c' hc'

theorem digitValue?_isSome_of_mem_digits (h : 1 < base) (hb : base ≤ 16) {width n : Nat}
    {c : Char} (hc : c ∈ digits base width n) : (digitValue? c).isSome = true := by
  have hr := read?_digits h hb width n
  rw [read?] at hr
  split at hr
  · cases hr
  · have hd := digit?_isSome_of_readFrom? hr c hc
    rw [digit?] at hd
    cases hv : digitValue? c with
    | none => rw [hv] at hd; cases hd
    | some d => rfl

end X25.Numeral
