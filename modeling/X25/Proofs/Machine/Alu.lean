import X25.Machine.Alu

/-! # Operations of the arithmetic unit

Every pattern either adds its two inputs or joins their bits. The sum that is not yet cut to a word
tells both what an adding operation gives and whether it overflows. From it the integer meaning of
each operation in the table follows; an operation on the second operand is one on the first with the
inputs exchanged.
-/

namespace X25

namespace Microcode

theorem compute_transferA (x y : Word) : (transferA.compute x y).1 = x := by
  have hm : transferA = ⟨false, false, true, true, false, false⟩ := rfl
  simp [hm, compute, input, combine]

theorem compute_transferB (x y : Word) : (transferB.compute x y).1 = y := by
  have hm : transferB = ⟨true, true, false, false, false, false⟩ := rfl
  simp [hm, compute, input, combine]

theorem compute_incrementA (x y : Word) : (incrementA.compute x y).1 = x + 1 := by
  have hm : incrementA = ⟨false, true, true, true, true, true⟩ := rfl
  have hn : ~~~(~~~x + -1) = x + 1 := by
    rw [UInt32.not_eq_neg_sub, UInt32.not_eq_neg_sub]
    grind
  simp [hm, compute, input, combine, hn]

section Numbers

def flipped (complement : Bool) (n : Nat) : Nat :=
  if complement then UInt32.size - 1 - n else n

/-- The number that an input stands for after it was replaced by zero and complemented, or not. -/
def inputValue (zero complement : Bool) (w : Word) : Nat :=
  flipped complement (if zero then 0 else w.toNat)

def sum (m : Microcode) (x y : Word) : Nat :=
  inputValue m.zx m.nx x + inputValue m.zy m.ny y

theorem toNat_flip (complement : Bool) (w : Word) :
    (if complement then ~~~w else w).toNat = flipped complement w.toNat := by
  cases complement with
  | true => exact UInt32.toNat_not w
  | false => rfl

theorem toNat_input (zero complement : Bool) (w : Word) :
    (input zero complement w).toNat = inputValue zero complement w := by
  rw [input, toNat_flip, inputValue]
  cases zero <;> rfl

variable {m : Microcode}

theorem toNat_compute_of_adds (hf : m.f = true) (x y : Word) :
    (m.compute x y).1.toNat = flipped m.no (m.sum x y % UInt32.size) := by
  simp only [compute, toNat_flip, combine, hf, if_true, UInt32.toNat_add, toNat_input, sum]

theorem overflow_iff_of_adds (hf : m.f = true) (x y : Word) :
    (m.compute x y).2.overflow = true ↔ UInt32.size ≤ m.sum x y := by
  simp only [compute, overflows, hf, Bool.true_and, decide_eq_true_eq, toNat_input, sum]

theorem overflow_of_joins (hf : m.f = false) (x y : Word) :
    (m.compute x y).2.overflow = false := by
  simp only [compute, overflows, hf, Bool.false_and]

end Numbers

/-- The output is the number modulo the size of a word, and the operation overflows exactly under
the condition. -/
structure Computes (m : Microcode) (x y : Word) (value : Int) (overflow : Prop) : Prop where
  output : ((m.compute x y).1.toNat : Int) = value % UInt32.size
  overflow : (m.compute x y).2.overflow = true ↔ overflow

section Meaning

variable {m : Microcode} {x y : Word} {k : Nat} {value : Int} {p : Prop}

theorem computes_of_sum (hf : m.f = true) (hn : m.no = false) (hs : m.sum x y = k)
    (hv : (k : Int) % UInt32.size = value % UInt32.size) (hp : UInt32.size ≤ k ↔ p) :
    Computes m x y value p := by
  constructor
  · rw [toNat_compute_of_adds hf, hn, hs, ← hv]
    rfl
  · rw [overflow_iff_of_adds hf, hs, hp]

theorem computes_of_complemented_sum (hf : m.f = true) (hn : m.no = true) (hs : m.sum x y = k)
    (hv : (UInt32.size : Int) - 1 - k % UInt32.size = value % UInt32.size)
    (hp : UInt32.size ≤ k ↔ p) : Computes m x y value p := by
  constructor
  · rw [toNat_compute_of_adds hf, hn, hs, ← hv]
    simp only [flipped, if_true, UInt32.size]
    omega
  · rw [overflow_iff_of_adds hf, hs, hp]

theorem computes_of_joins (hf : m.f = false) {w : Word} (h : (m.compute x y).1 = w) :
    Computes m x y w.toNat False := by
  constructor
  · rw [h, Int.emod_eq_of_lt (Int.natCast_nonneg _) (Int.ofNat_lt.mpr w.toNat_lt)]
  · rw [overflow_of_joins hf]
    exact iff_of_false Bool.false_ne_true id

variable (x y)

theorem computes_addition :
    Computes addition x y (x.toNat + y.toNat) ((UInt32.size : Int) ≤ x.toNat + y.toNat) :=
  have hs : addition.sum x y = x.toNat + y.toNat := rfl
  computes_of_sum rfl rfl hs rfl (by simp only [UInt32.size]; omega)

theorem computes_subtractB :
    Computes subtractB x y (x.toNat - y.toNat) ((x.toNat : Int) < y.toNat) := by
  have hx := x.toNat_lt
  have hy := y.toNat_lt
  have hs : subtractB.sum x y = UInt32.size - 1 - x.toNat + y.toNat := rfl
  refine computes_of_complemented_sum rfl rfl hs ?_ ?_ <;> simp only [UInt32.size] <;> omega

theorem computes_negateA : Computes negateA x y (-x.toNat) ((x.toNat : Int) ≠ 0) := by
  have hx := x.toNat_lt
  have hs : negateA.sum x y = x.toNat + (UInt32.size - 1) := rfl
  refine computes_of_complemented_sum rfl rfl hs ?_ ?_ <;> simp only [UInt32.size] <;> omega

theorem computes_incrementA :
    Computes incrementA x y (x.toNat + 1) ((x.toNat : Int) ≠ UInt32.size - 1) := by
  have hx := x.toNat_lt
  have hs : incrementA.sum x y = UInt32.size - 1 - x.toNat + (UInt32.size - 1) := rfl
  refine computes_of_complemented_sum rfl rfl hs ?_ ?_ <;> simp only [UInt32.size] <;> omega

theorem computes_decrementA : Computes decrementA x y (x.toNat - 1) ((x.toNat : Int) ≠ 0) := by
  have hx := x.toNat_lt
  have hs : decrementA.sum x y = x.toNat + (UInt32.size - 1) := rfl
  refine computes_of_sum rfl rfl hs ?_ ?_ <;> simp only [UInt32.size] <;> omega

theorem computes_transferA : Computes transferA x y x.toNat False :=
  computes_of_joins rfl (compute_transferA x y)

theorem computes_conjunction : Computes conjunction x y (x &&& y).toNat False :=
  computes_of_joins rfl rfl

theorem computes_disjunction : Computes disjunction x y (x ||| y).toNat False := by
  refine computes_of_joins rfl (UInt32.toBitVec_inj.mp ?_)
  show ~~~(~~~x.toBitVec &&& ~~~y.toBitVec) = x.toBitVec ||| y.toBitVec
  rw [BitVec.not_and, BitVec.not_not, BitVec.not_not]

theorem computes_complementA : Computes complementA x y (~~~x).toNat False := by
  refine computes_of_joins rfl ?_
  show ~~~(x &&& ~~~0) = ~~~x
  simp

end Meaning

section Patterns

theorem zero_iff (m : Microcode) (x y : Word) :
    (m.compute x y).2.zero = true ↔ (m.compute x y).1 = 0 :=
  beq_iff_eq

theorem negative_iff (m : Microcode) (x y : Word) :
    (m.compute x y).2.negative = true ↔ (m.compute x y).1.toNat.testBit 31 = true := by
  have h (w : Word) : (w >>> 31 == 1) = w.toNat.testBit 31 := by
    have hw := w.toNat_lt
    have hs : (w >>> 31).toNat = w.toNat / 2147483648 := by
      rw [UInt32.toNat_shiftRight, Nat.shiftRight_eq_div_pow]
      rfl
    rw [Nat.testBit_eq_decide_div_mod_eq, Bool.eq_iff_iff, beq_iff_eq, decide_eq_true_eq,
      ← UInt32.toNat_inj, hs]
    show w.toNat / 2147483648 = 1 ↔ w.toNat / 2147483648 % 2 = 1
    omega
  rw [← h]
  rfl

def swap (m : Microcode) : Microcode :=
  ⟨m.zy, m.ny, m.zx, m.nx, m.f, m.no⟩

theorem compute_swap (m : Microcode) (x y : Word) : m.swap.compute y x = m.compute x y := by
  have ha (x y : Word) : m.swap.combine y x = m.combine x y := by
    simp only [combine, swap, UInt32.add_comm, UInt32.and_comm]
  have ho (x y : Word) : m.swap.overflows y x = m.overflows x y := by
    simp only [overflows, swap, Nat.add_comm]
  simp only [compute, ha, ho]
  rfl

theorem Computes.swap {m : Microcode} {x y : Word} {value : Int} {p : Prop}
    (h : Computes m x y value p) : Computes m.swap y x value p := by
  constructor
  · rw [compute_swap, h.output]
  · rw [compute_swap, h.overflow]

end Patterns

/-- Each operation of the table gives what its name says, modulo the size of a word. An addition or
subtraction overflows where the exact result is no word, a negation or decrement for all but zero,
an increment for all but the highest word, and the others never. Under every pattern the other flags
tell of the output and the overflow, and operands can be exchanged together with what is done to
them. -/
theorem integer_meaning (x y : Word) :
    let a : Int := x.toNat
    let b : Int := y.toNat
    (Computes transferA x y a False ∧ Computes transferB x y b False ∧
      Computes addition x y (a + b) (UInt32.size ≤ a + b) ∧
      Computes subtractB x y (a - b) (a < b) ∧ Computes subtractA x y (b - a) (b < a) ∧
      Computes negateA x y (-a) (a ≠ 0) ∧ Computes negateB x y (-b) (b ≠ 0) ∧
      Computes incrementA x y (a + 1) (a ≠ UInt32.size - 1) ∧
      Computes incrementB x y (b + 1) (b ≠ UInt32.size - 1) ∧
      Computes decrementA x y (a - 1) (a ≠ 0) ∧ Computes decrementB x y (b - 1) (b ≠ 0) ∧
      Computes conjunction x y (x &&& y).toNat False ∧
      Computes disjunction x y (x ||| y).toNat False ∧
      Computes complementA x y (~~~x).toNat False ∧
      Computes complementB x y (~~~y).toNat False) ∧
    ∀ m : Microcode,
      let r := m.compute x y
      (r.2.zero = true ↔ r.1 = 0) ∧ (r.2.negative = true ↔ r.1.toNat.testBit 31 = true) ∧
        r.2.carry = r.2.overflow ∧ (m.f = false → r.2.overflow = false) ∧
        m.swap.compute y x = r := by
  intro a b
  exact ⟨⟨computes_transferA x y, (computes_transferA y x).swap, computes_addition x y,
    computes_subtractB x y, (computes_subtractB y x).swap, computes_negateA x y,
    (computes_negateA y x).swap, computes_incrementA x y, (computes_incrementA y x).swap,
    computes_decrementA x y, (computes_decrementA y x).swap, computes_conjunction x y,
    computes_disjunction x y, computes_complementA x y, (computes_complementA y x).swap⟩,
    fun m => ⟨m.zero_iff x y, m.negative_iff x y, rfl, fun hf => overflow_of_joins hf x y,
      m.compute_swap x y⟩⟩

theorem integer_meaning_borrowing :
    ((subtractB.compute 3 10).1.toNat : Int) = (3 - 10) % UInt32.size ∧
      (subtractB.compute 3 10).2.overflow = true ∧ (subtractB.compute 3 10).2.carry = true ∧
      subtractA.compute 10 3 = subtractB.compute 3 10 ∧
      conjunction.f = false ∧ (conjunction.compute 3 10).2.overflow = false := by
  obtain ⟨⟨-, -, -, hs, -⟩, hm⟩ := integer_meaning 3 10
  have ho : (subtractB.compute 3 10).2.overflow = true := hs.overflow.mpr (by decide)
  obtain ⟨-, -, hc, -, hx⟩ := hm subtractB
  obtain ⟨-, -, -, hj, -⟩ := hm conjunction
  exact ⟨hs.output, ho, hc.trans ho, hx, rfl, hj rfl⟩

end Microcode

namespace Alu

variable {u : Alu} {f : Word → Word}

theorem out_feedA (h : ∀ x y, (u.operation.compute x y).1 = f x) (v : Word) :
    (u.feedA v).out = f v :=
  h v u.b

theorem out_feedB (h : ∀ x y, (u.operation.compute x y).1 = f y) (v : Word) :
    (u.feedB v).out = f v :=
  h u.a v

theorem flags_feedA (h : u.latching = false) (v : Word) : (u.feedA v).flags = u.flags := by
  simp [feedA, recompute, h]

theorem flags_feedB (h : u.latching = false) (v : Word) : (u.feedB v).flags = u.flags := by
  simp [feedB, recompute, h]

end Alu

end X25
