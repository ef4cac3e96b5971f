import X25.Proofs.Assembly.Source
import X25.Proofs.Debugger.Session

/-! # The disassembly window

A window is a run of rows, two addresses apart, from where it starts to the first pair of words that
is not all in memory or to the last address. While the program counter is in working memory and not
at its end, the window starts at or before it and reaches it. A window that starts where working
memory does is moved up by one address if the program counter needs it; only in a memory of the
topmost address alone does this leave the addresses, and then there is no window. Nor is there one
of more rows than room can be asked for.
-/

namespace X25

namespace Word

theorem toNat_max (a b : Word) : (max a b).toNat = max a.toNat b.toNat := by
  show (if a ≤ b then b else a).toNat = _
  split
  · next h => exact (Nat.max_eq_right (UInt32.le_iff_toNat_le.mp h)).symm
  · next h =>
    have hl := UInt32.lt_iff_toNat_lt.mp (UInt32.not_le.mp h)
    exact (Nat.max_eq_left (Nat.le_of_lt hl)).symm

theorem toNat_saturating_sub (a b : Word) :
    (if b ≤ a then a - b else 0).toNat = a.toNat - b.toNat := by
  split
  · next h => exact UInt32.toNat_sub_of_le a b h
  · next h =>
    have hl := UInt32.lt_iff_toNat_lt.mp (UInt32.not_le.mp h)
    exact (Nat.sub_eq_zero_of_le (Nat.le_of_lt hl)).symm

theorem addChecked_eq_ok {a b c : Word} : a.addChecked b = .ok c ↔ c.toNat = a.toNat + b.toNat := by
  have hc : c.toNat < 2 ^ 32 := c.toNat_lt
  unfold addChecked UInt32.size
  split
  · next h =>
    rw [Except.ok.injEq, ← UInt32.toNat_inj, UInt32.toNat_add, Nat.mod_eq_of_lt h, eq_comm]
  · next h =>
    refine iff_of_false nofun fun he => ?_
    rw [he] at hc
    exact h hc

theorem addChecked_eq_error {a b : Word} {p : Panic} :
    a.addChecked b = .error p ↔ p = .overflow ∧ UInt32.size ≤ a.toNat + b.toNat := by
  unfold addChecked
  split
  · next h => exact iff_of_false nofun fun he => Nat.not_lt.mpr he.2 h
  · next h => rw [Except.error.injEq, and_iff_left (Nat.not_lt.mp h), eq_comm]

/-- The last bits of two words are the same if the words are both even or both odd. -/
theorem xor_and_one_eq_zero (a b : Word) : (a ^^^ b) &&& 1 = 0 ↔ (a.toNat + b.toNat) % 2 = 0 := by
  rw [← UInt32.toNat_inj, UInt32.toNat_and, UInt32.toNat_xor, UInt32.toNat_one, Nat.and_one_is_mod,
    Nat.xor_mod_two_eq, UInt32.toNat_zero]

end Word

namespace AddressSpace

variable {s : AddressSpace} {a : Word} {p : WordPair}

/-- The words at an address and at the next, which after the last address is the first. -/
def pair? (s : AddressSpace) (a : Word) : Option WordPair := do
  return ⟨← s.get? a, ← s.get? (a + 1)⟩

theorem pair?_eq_some :
    s.pair? a = some p ↔ s.get? a = some p.low ∧ s.get? (a + 1) = some p.high := by
  obtain ⟨low, high⟩ := p
  unfold pair?
  cases s.get? a <;> cases s.get? (a + 1) <;> simp

theorem exists_pair? (h : s.holds a = true) (h' : s.holds (a + 1) = true) :
    ∃ p, s.pair? a = some p := by
  rw [← get?_isSome] at h h'
  obtain ⟨low, hl⟩ := Option.isSome_iff_exists.mp h
  obtain ⟨high, hh⟩ := Option.isSome_iff_exists.mp h'
  exact ⟨⟨low, high⟩, pair?_eq_some.mpr ⟨hl, hh⟩⟩

end AddressSpace

/-- The row shows the words at its address, and whether the program counter is there. -/
structure DisassemblyRow.Shows (r : DisassemblyRow) (c : Cpu) : Prop where
  text : ∃ p, c.memory.pair? r.address = some p ∧ r.text = Assembly.pairText p
  isCurrent : r.isCurrent = true ↔ r.address = c.pc

namespace Debugger

section Rows

variable {c : Cpu} {a : Word} {p : WordPair} {n i : Nat} {r : DisassemblyRow}

def rowOf (c : Cpu) (a : Word) (p : WordPair) : DisassemblyRow :=
  ⟨a, Assembly.pairText p, a == c.pc⟩

theorem rowsFrom_of_pair (h : c.memory.pair? a = some p) (n : Nat) :
    rowsFrom c (n + 1) a =
      rowOf c a p :: if a.toNat + 2 < UInt32.size then rowsFrom c n (a + 2) else [] := by
  obtain ⟨hl, hh⟩ := AddressSpace.pair?_eq_some.mp h
  simp only [rowsFrom, hl, hh, rowOf]

theorem rowsFrom_of_none (h : c.memory.pair? a = none) (n : Nat) : rowsFrom c (n + 1) a = [] := by
  rw [rowsFrom]
  split
  · next hl hh =>
    have hp := AddressSpace.pair?_eq_some (p := ⟨_, _⟩).mpr ⟨hl, hh⟩
    rw [h] at hp
    cases hp
  · rfl

theorem length_rowsFrom_le (c : Cpu) (n : Nat) (a : Word) : (rowsFrom c n a).length ≤ n := by
  induction n generalizing a with
  | zero => exact Nat.le_refl 0
  | succ n ih =>
    cases hp : c.memory.pair? a with
    | none => simp [rowsFrom_of_none hp]
    | some p =>
      rw [rowsFrom_of_pair hp, List.length_cons]
      split
      · exact Nat.succ_le_succ (ih (a + 2))
      · simp

theorem toNat_add_two (h : a.toNat + 2 < UInt32.size) : (a + 2).toNat = a.toNat + 2 := by
  rw [UInt32.toNat_add]
  exact Nat.mod_eq_of_lt h

/-- Every row is two addresses after the one before, without going round. -/
theorem shows_of_getElem? (h : (rowsFrom c n a)[i]? = some r) :
    r.address.toNat = a.toNat + 2 * i ∧ r.Shows c := by
  induction n generalizing a i with
  | zero => cases h
  | succ n ih =>
    cases hp : c.memory.pair? a with
    | none =>
      rw [rowsFrom_of_none hp] at h
      cases h
    | some p =>
      rw [rowsFrom_of_pair hp] at h
      cases i with
      | zero =>
        cases h
        exact ⟨rfl, ⟨p, hp, rfl⟩, beq_iff_eq⟩
      | succ i =>
        rw [List.getElem?_cons_succ] at h
        split at h
        · next ha =>
          obtain ⟨hr, hs⟩ := ih h
          refine ⟨?_, hs⟩
          rw [hr, toNat_add_two ha]
          omega
        · cases h

theorem exists_getElem? (hi : i < n) (ha : a.toNat + 2 * i < UInt32.size)
    (hp : ∀ b : Word, a.toNat ≤ b.toNat → b.toNat ≤ a.toNat + 2 * i →
      ∃ p, c.memory.pair? b = some p) :
    ∃ r, (rowsFrom c n a)[i]? = some r := by
  induction n generalizing a i with
  | zero => cases hi
  | succ n ih =>
    obtain ⟨p, h⟩ := hp a (Nat.le_refl _) (Nat.le_add_right _ _)
    rw [rowsFrom_of_pair h]
    cases i with
    | zero => exact ⟨_, rfl⟩
    | succ i =>
      have ha₂ : a.toNat + 2 < UInt32.size := by omega
      have hn := toNat_add_two ha₂
      rw [List.getElem?_cons_succ, if_pos ha₂]
      apply ih (Nat.lt_of_succ_lt_succ hi) (by omega)
      intro b hb hb'
      exact hp b (by omega) (by omega)

end Rows

section Start

variable {d : Debugger} {rows : Nat} {a : Word}

/-- Where the window would start if there were an address after the last. -/
def exactStart (d : Debugger) (rows : Nat) : Nat :=
  let start := max (d.cpu.pc.toNat - rows % UInt32.size / 2 * 2) d.cpu.layout.ramStart.toNat
  start + (start + d.cpu.pc.toNat) % 2

theorem toNat_back (rows : Nat) :
    (UInt32.ofNat rows / 2 * 2).toNat = rows % UInt32.size / 2 * 2 := by
  have hs : rows % UInt32.size < UInt32.size := Nat.mod_lt _ (by decide)
  rw [UInt32.toNat_mul, UInt32.toNat_div, UInt32.toNat_ofNat']
  show rows % UInt32.size / 2 * 2 % UInt32.size = _
  exact Nat.mod_eq_of_lt (by omega)

/-- The start is one checked sum; a start that needs no parity step has zero added. -/
theorem exists_windowStart_eq (d : Debugger) (rows : Nat) :
    ∃ start step : Word, d.windowStart rows = start.addChecked step ∧
      start.toNat + step.toNat = d.exactStart rows := by
  unfold windowStart exactStart
  dsimp only
  rw [← toNat_back, ← Word.toNat_saturating_sub, ← Word.toNat_max]
  generalize max _ d.cpu.layout.ramStart = start
  simp only [Word.xor_and_one_eq_zero]
  split
  · next h =>
    refine ⟨start, 0, ?_, by rw [h]; rfl⟩
    exact (Word.addChecked_eq_ok.mpr rfl).symm
  · next h =>
    have hone : (start.toNat + d.cpu.pc.toNat) % 2 = 1 := by omega
    exact ⟨start, 1, rfl, by rw [hone]; rfl⟩

theorem windowStart_eq_ok : d.windowStart rows = .ok a ↔ a.toNat = d.exactStart rows := by
  obtain ⟨start, step, h, hn⟩ := exists_windowStart_eq d rows
  rw [h, ← hn]
  exact Word.addChecked_eq_ok

theorem windowStart_eq_error {p : Panic} :
    d.windowStart rows = .error p ↔ p = .overflow ∧ UInt32.size ≤ d.exactStart rows := by
  obtain ⟨start, step, h, hn⟩ := exists_windowStart_eq d rows
  rw [h, ← hn]
  exact Word.addChecked_eq_error

theorem ramStart_le_exactStart (d : Debugger) (rows : Nat) :
    d.cpu.layout.ramStart.toNat ≤ d.exactStart rows := by
  unfold exactStart
  dsimp only
  omega

theorem exactStart_add_pc (d : Debugger) (rows : Nat) :
    (d.exactStart rows + d.cpu.pc.toNat) % 2 = 0 := by
  unfold exactStart
  dsimp only
  omega

theorem exactStart_le_pc (h : d.cpu.layout.ramStart ≤ d.cpu.pc) (rows : Nat) :
    d.exactStart rows ≤ d.cpu.pc.toNat ∧
      d.cpu.pc.toNat ≤ d.exactStart rows + 2 * (rows % UInt32.size / 2) := by
  have hn := UInt32.le_iff_toNat_le.mp h
  unfold exactStart
  dsimp only
  omega

/-- Working memory starts at the last address, which the program counter needs to be moved up. -/
def IsTopmost (d : Debugger) : Prop :=
  d.cpu.layout.ramStart = 0xFFFFFFFF ∧ d.cpu.pc.toNat % 2 = 0

theorem exactStart_lt_or_isTopmost (d : Debugger) (rows : Nat) :
    d.exactStart rows < UInt32.size ∧ ¬ d.IsTopmost ∨
      d.exactStart rows = UInt32.size ∧ d.IsTopmost := by
  have hp : d.cpu.pc.toNat < 2 ^ 32 := d.cpu.pc.toNat_lt
  have hr : d.cpu.layout.ramStart.toNat < 2 ^ 32 := d.cpu.layout.ramStart.toNat_lt
  have hm : d.cpu.layout.ramStart = 0xFFFFFFFF ↔ d.cpu.layout.ramStart.toNat = 2 ^ 32 - 1 := by
    rw [← UInt32.toNat_inj]
    rfl
  unfold IsTopmost exactStart UInt32.size
  rw [hm]
  dsimp only
  omega

end Start

section Window

variable {d : Debugger} {rows i : Nat} {r : DisassemblyRow} {l : List DisassemblyRow} {a : Word}

theorem window_of_start (h : d.windowStart rows = .ok a) :
    d.window rows =
      if rowCapacity < rows then .error .capacity else .ok (rowsFrom d.cpu rows a) := by
  unfold window
  rw [h]
  dsimp only [bind, Except.bind]
  split <;> rfl

theorem window_eq_ok :
    d.window rows = .ok l ↔
      rows ≤ rowCapacity ∧ ∃ a : Word, a.toNat = d.exactStart rows ∧ rowsFrom d.cpu rows a = l := by
  cases hs : d.windowStart rows with
  | error p =>
    obtain ⟨-, hx⟩ := windowStart_eq_error.mp hs
    refine iff_of_false ?_ ?_
    · unfold window
      rw [hs]
      nofun
    · rintro ⟨-, a, ha, -⟩
      exact absurd a.toNat_lt (Nat.not_lt.mpr (ha ▸ hx))
  | ok a =>
    have ha := windowStart_eq_ok.mp hs
    have hu : ∀ b : Word, b.toNat = d.exactStart rows ↔ b = a := by
      intro b
      rw [← ha, UInt32.toNat_inj]
    rw [window_of_start hs]
    simp only [hu, exists_eq_left]
    split
    · next hc => exact iff_of_false nofun fun h => Nat.not_le.mpr hc h.1
    · next hc => rw [Except.ok.injEq, and_iff_right (Nat.not_lt.mp hc)]

theorem window_of_isTopmost (h : d.IsTopmost) (rows : Nat) :
    d.windowStart rows = .error .overflow ∧ d.window rows = .error .overflow := by
  rcases exactStart_lt_or_isTopmost d rows with ⟨-, hx⟩ | ⟨hz, -⟩
  · exact absurd h hx
  · have hs : d.windowStart rows = .error .overflow :=
      windowStart_eq_error.mpr ⟨rfl, Nat.le_of_eq hz.symm⟩
    refine ⟨hs, ?_⟩
    unfold window
    rw [hs]
    rfl

theorem window_of_not_isTopmost (h : ¬ d.IsTopmost) (rows : Nat) :
    ∃ a : Word, a.toNat = d.exactStart rows ∧ d.windowStart rows = .ok a ∧
      d.window rows =
        if rowCapacity < rows then .error .capacity else .ok (rowsFrom d.cpu rows a) := by
  rcases exactStart_lt_or_isTopmost d rows with ⟨hlt, -⟩ | ⟨-, hx⟩
  · have ha := UInt32.toNat_ofNat_of_lt' hlt
    have hs := windowStart_eq_ok.mpr ha
    exact ⟨_, ha, hs, window_of_start hs⟩
  · exact absurd hx h

theorem shows_of_window (hw : d.window rows = .ok l) (h : l[i]? = some r) :
    r.address.toNat = d.exactStart rows + 2 * i ∧ r.Shows d.cpu := by
  obtain ⟨-, a, ha, rfl⟩ := window_eq_ok.mp hw
  rw [← ha]
  exact shows_of_getElem? h

theorem address_of_window (hw : d.window rows = .ok l) (h : l[i]? = some r) :
    r.address.toNat = d.exactStart rows + 2 * i ∧ d.cpu.layout.ramStart ≤ r.address ∧
      r.address.toNat % 2 = d.cpu.pc.toNat % 2 := by
  obtain ⟨ha, -⟩ := shows_of_window hw h
  have hs := ramStart_le_exactStart d rows
  have he := exactStart_add_pc d rows
  refine ⟨ha, UInt32.le_iff_toNat_le.mpr ?_, ?_⟩
  · omega
  · omega

theorem exists_pair?_of_inRam {c : Cpu} (hc : c.IsArranged) {a : Word}
    (hs : c.layout.ramStart ≤ a) (he : a < c.layout.ramEnd) : ∃ p, c.memory.pair? a = some p := by
  have hh := AddressSpace.holds_iff_of_space hc
  have hn := UInt32.le_iff_toNat_le.mp hs
  have hl := UInt32.lt_iff_toNat_lt.mp he
  have hx := c.layout.ramEnd.toNat_lt
  have ha : (a + 1).toNat = a.toNat + 1 := by
    rw [UInt32.toNat_add, UInt32.toNat_one]
    omega
  apply AddressSpace.exists_pair?
  · exact (hh a).mpr (.inl ⟨hs, UInt32.le_of_lt he⟩)
  · refine (hh (a + 1)).mpr (.inl ⟨UInt32.le_iff_toNat_le.mpr ?_, UInt32.le_iff_toNat_le.mpr ?_⟩)
    · omega
    · omega

theorem exists_current (hc : d.cpu.IsArranged) (hs : d.cpu.layout.ramStart ≤ d.cpu.pc)
    (he : d.cpu.pc < d.cpu.layout.ramEnd) (hn : 1 ≤ rows) (hw : d.window rows = .ok l) :
    ∃ i ≤ rows / 2, ∃ r, l[i]? = some r ∧ r.address = d.cpu.pc := by
  obtain ⟨-, a, ha, rfl⟩ := window_eq_ok.mp hw
  obtain ⟨hle, hge⟩ := exactStart_le_pc hs rows
  have hev := exactStart_add_pc d rows
  have hrs := ramStart_le_exactStart d rows
  have hp : d.cpu.pc.toNat < UInt32.size := d.cpu.pc.toNat_lt
  have hm : rows % UInt32.size ≤ rows := Nat.mod_le rows UInt32.size
  -- the row of the program counter
  obtain ⟨i, hi⟩ : ∃ i, d.cpu.pc.toNat = d.exactStart rows + 2 * i :=
    ⟨(d.cpu.pc.toNat - d.exactStart rows) / 2, by omega⟩
  obtain ⟨r, hr⟩ : ∃ r, (rowsFrom d.cpu rows a)[i]? = some r := by
    apply exists_getElem? (by omega) (by omega)
    intro b hb hb'
    apply exists_pair?_of_inRam hc
    · exact UInt32.le_iff_toNat_le.mpr (by omega)
    · refine UInt32.lt_of_le_of_lt (UInt32.le_iff_toNat_le.mpr ?_) he
      omega
  refine ⟨i, by omega, r, hr, ?_⟩
  rw [← UInt32.toNat_inj, (shows_of_getElem? hr).1, ha, hi]

theorem eq_of_isCurrent {j : Nat} {r' : DisassemblyRow} (hw : d.window rows = .ok l)
    (hr : l[i]? = some r) (hp : r.address = d.cpu.pc) (hr' : l[j]? = some r')
    (hc : r'.isCurrent = true) : j = i := by
  obtain ⟨ha, -⟩ := shows_of_window hw hr
  obtain ⟨ha', hs⟩ := shows_of_window hw hr'
  have he : r.address.toNat = r'.address.toNat := by rw [hp, hs.isCurrent.mp hc]
  omega

/-- While the program counter is in working memory and not at its last address, a window breaks off
if it has more rows than room can be asked for. Every smaller window with at least one row has a row
for the program counter, in its first half, which alone is marked. The rows are two addresses apart,
all in step with the program counter and none before working memory, and the text of each assembles
to the two words that are there. -/
theorem window_contains_current (h : d.Reachable) (hs : d.cpu.layout.ramStart ≤ d.cpu.pc)
    (he : d.cpu.pc < d.cpu.layout.ramEnd) (hn : 1 ≤ rows) :
    (rowCapacity < rows → d.window rows = .error .capacity) ∧
    (rows ≤ rowCapacity →
      ∃ l, d.window rows = .ok l ∧ 1 ≤ l.length ∧ l.length ≤ rows ∧
      (∀ i r r', l[i]? = some r → l[i + 1]? = some r' →
        r'.address.toNat = r.address.toNat + 2) ∧
      (∀ r ∈ l, d.cpu.layout.ramStart ≤ r.address ∧
        r.address.toNat % 2 = d.cpu.pc.toNat % 2 ∧
        ∃ low high, d.cpu.readMemory r.address = .ok low ∧
          d.cpu.readMemory (r.address + 1) = .ok high ∧
          Assembly.assemble r.text = .ok [low, high]) ∧
      ∃ i ≤ rows / 2, ∃ r, l[i]? = some r ∧ r.isCurrent = true ∧ r.address = d.cpu.pc ∧
        ∀ j r', l[j]? = some r' → r'.isCurrent = true → j = i) := by
  have ht : ¬ d.IsTopmost := by
    rintro ⟨hx, -⟩
    rw [hx] at hs
    have hl := UInt32.lt_iff_toNat_lt.mp (UInt32.lt_of_le_of_lt hs he)
    exact absurd hl (Nat.not_lt.mpr (Nat.le_of_lt_succ d.cpu.layout.ramEnd.toNat_lt))
  obtain ⟨a, -, -, hw⟩ := window_of_not_isTopmost ht rows
  refine ⟨fun hc => by rw [hw, if_pos hc], fun hc => ?_⟩
  rw [if_neg (Nat.not_lt.mpr hc)] at hw
  obtain ⟨i, hi, r, hr, hp⟩ := exists_current h.isArranged hs he hn hw
  refine ⟨_, hw, ?_, length_rowsFrom_le d.cpu rows a, ?_, ?_, i, hi, r, hr, ?_, hp, ?_⟩
  · obtain ⟨hl, -⟩ := List.getElem?_eq_some_iff.mp hr
    exact Nat.lt_of_le_of_lt (Nat.zero_le i) hl
  · intro j r₁ r₂ h₁ h₂
    rw [(shows_of_window hw h₁).1, (shows_of_window hw h₂).1]
    omega
  · intro r₁ hr₁
    obtain ⟨j, hj⟩ := List.mem_iff_getElem?.mp hr₁
    obtain ⟨-, hge, hev⟩ := address_of_window hw hj
    obtain ⟨p, hpair, htext⟩ := (shows_of_window hw hj).2.text
    obtain ⟨hlow, hhigh⟩ := AddressSpace.pair?_eq_some.mp hpair
    refine ⟨hge, hev, p.low, p.high, AddressSpace.read_of_get? hlow,
      AddressSpace.read_of_get? hhigh, ?_⟩
    rw [htext, Assembly.assemble_pairText]
    rfl
  · exact (shows_of_window hw hr).2.isCurrent.mpr hp
  · intro j r' hr' hc'
    exact eq_of_isCurrent hw hr hp hr' hc'

/-- Working memory has an odd number of words up to the last address, and the program counter is at
an even address. The window is cut off at both ends. -/
theorem window_contains_current_uppermost :
    let l : Layout := ⟨0xFFFFFFF7, 0xFFFFFFFF, 0, 3⟩
    let e : Executable := ⟨⟨Header.currentVersion, l, 0xFFFFFFFA⟩, [7, 0x24218000, 65]⟩
    let memory : AddressSpace := ⟨[l.ramRegion, l.consoleRegion], ""⟩
    let c := Cpu.started (memory.putAll l.ramStart e.program) l 0xFFFFFFFA
    let d : Debugger := ⟨c, e, [], false, false, greeting, 0⟩
    d.Reachable ∧ l.ramStart ≤ d.cpu.pc ∧ d.cpu.pc < l.ramEnd ∧ 40 ≤ rowCapacity ∧
      ∃ rows, d.window 40 = .ok rows ∧
        rows.map (·.address) = [0xFFFFFFF8, 0xFFFFFFFA, 0xFFFFFFFC, 0xFFFFFFFE] ∧
        (∃ low high, d.cpu.readMemory 0xFFFFFFF8 = .ok low ∧
          d.cpu.readMemory 0xFFFFFFF9 = .ok high ∧
          Assembly.assemble "MOV GP0, 0x41" = .ok [low, high]) ∧
        ∃ i ≤ 20, ∃ r, rows[i]? = some r ∧ r.isCurrent = true ∧ r.address = 0xFFFFFFFA := by
  intro l e memory c d
  have hd : d.Reachable := .ofExecutable (e := e) (by decide +kernel)
  have hs : l.ramStart ≤ d.cpu.pc := by decide +kernel
  have he : d.cpu.pc < l.ramEnd := by decide +kernel
  have hc : 40 ≤ rowCapacity := by decide
  obtain ⟨-, hw⟩ := window_contains_current hd hs he (by decide : 1 ≤ 40)
  obtain ⟨rows, hw, -, -, -, hrows, i, hi, r, hr, hcur, hp, -⟩ := hw hc
  have hrs : d.window 40 = .ok
      [⟨0xFFFFFFF8, "MOV GP0, 0x41", false⟩, ⟨0xFFFFFFFA, "NOP", true⟩, ⟨0xFFFFFFFC, "NOP", false⟩,
        ⟨0xFFFFFFFE, "NOP", false⟩] := by decide +kernel
  cases hw.symm.trans hrs
  obtain ⟨-, -, htext⟩ := hrows _ (List.mem_cons_self ..)
  exact ⟨hd, hs, he, hc, _, hrs, by decide, htext, i, hi, r, hr, hcur, hp⟩

def smallest : Debugger :=
  let l : Layout := ⟨0, 3, 8, 8⟩
  ⟨Cpu.started ⟨[l.ramRegion, l.consoleRegion], ""⟩ l 0, ⟨⟨Header.currentVersion, l, 0⟩, []⟩,
    [], false, false, greeting, 0⟩

/-- A window may break off though the program counter is in working memory. -/
theorem not_window_contains_current :
    ofExecutable smallest.executable = .ok smallest ∧
      (smallest.window 3).toOption.map (·.map (·.address)) = some [0, 2] ∧
      0x4000000000000000 < UInt64.size ∧ smallest.window 0x4000000000000000 = .error .capacity ∧
      ¬ ∀ (d : Debugger) (rows : Nat), d.Reachable → d.cpu.layout.ramStart ≤ d.cpu.pc →
        d.cpu.pc < d.cpu.layout.ramEnd → 1 ≤ rows → rows < UInt64.size →
        ∃ l, d.window rows = .ok l := by
  have hd : ofExecutable smallest.executable = .ok smallest := by decide +kernel
  have hw : smallest.window 0x4000000000000000 = .error .capacity := by decide +kernel
  refine ⟨hd, by decide +kernel, by decide, hw, fun h => ?_⟩
  obtain ⟨l, hl⟩ := h smallest 0x4000000000000000 (.ofExecutable hd) (by decide) (by decide)
    (by decide) (by decide)
  cases hw.symm.trans hl

/-- Whatever the layout, the program counter and the number of rows, the arithmetic of a window
leaves the addresses if and only if working memory starts at the last address and the program
counter is even, and then by one: there is no window. Otherwise there is one, unless it has more
rows than room can be asked for. Each row has the address that exact arithmetic gives, not before
working memory and in step with the program counter. -/
theorem window_address_arithmetic (d : Debugger) (rows : Nat) :
    (d.exactStart rows < UInt32.size ↔ ¬ d.IsTopmost) ∧
    (d.IsTopmost →
      d.exactStart rows = UInt32.size ∧ d.windowStart rows = .error .overflow ∧
        d.window rows = .error .overflow) ∧
    (¬ d.IsTopmost →
      (∃ a : Word, d.windowStart rows = .ok a ∧ a.toNat = d.exactStart rows) ∧
      (rowCapacity < rows → d.window rows = .error .capacity) ∧
      (rows ≤ rowCapacity → ∃ l, d.window rows = .ok l)) ∧
    ∀ l, d.window rows = .ok l → ∀ i r, l[i]? = some r →
      r.address.toNat = d.exactStart rows + 2 * i ∧ d.cpu.layout.ramStart ≤ r.address ∧
        r.address.toNat % 2 = d.cpu.pc.toNat % 2 := by
  have hx := exactStart_lt_or_isTopmost d rows
  refine ⟨?_, fun ht => ?_, fun ht => ?_, fun l hw i r => address_of_window hw⟩
  · rcases hx with ⟨hlt, ht⟩ | ⟨hz, ht⟩
    · exact iff_of_true hlt ht
    · exact iff_of_false (by omega) (not_not.mpr ht)
  · obtain ⟨hs, hw⟩ := window_of_isTopmost ht rows
    rcases hx with ⟨-, hn⟩ | ⟨hz, -⟩
    · exact absurd ht hn
    · exact ⟨hz, hs, hw⟩
  · obtain ⟨a, ha, hs, hw⟩ := window_of_not_isTopmost ht rows
    refine ⟨⟨a, hs, ha⟩, fun hc => by rw [hw, if_pos hc], fun hc => ?_⟩
    exact ⟨_, by rw [hw, if_neg (Nat.not_lt.mpr hc)]⟩

def topmostLayout : Layout :=
  ⟨0xFFFFFFFF, 0xFFFFFFFF, 0, 15⟩

def topmost (entry : Word) : Debugger :=
  let l := topmostLayout
  ⟨Cpu.started ⟨[l.ramRegion, l.consoleRegion], ""⟩ l entry,
    ⟨⟨Header.currentVersion, l, entry⟩, []⟩, [], false, false, greeting, 0⟩

/-- At the last address the second word of the row is at the first address; an even program counter
has no window. -/
theorem window_address_arithmetic_topmost :
    ¬ (topmost 0xFFFFFFFF).IsTopmost ∧ (topmost 0xFFFFFFFF).exactStart 9 < UInt32.size ∧
      (topmost 0xFFFFFFFF).window 9 = .ok [⟨0xFFFFFFFF, "NOP", true⟩] ∧
      (topmost 4).IsTopmost ∧ (topmost 4).exactStart 9 = UInt32.size ∧
      (topmost 4).window 9 = .error .overflow := by
  have ho : ¬ (topmost 0xFFFFFFFF).IsTopmost := by
    rintro ⟨-, h⟩
    exact absurd h (by decide +kernel)
  have ht : (topmost 4).IsTopmost := ⟨by decide +kernel, by decide +kernel⟩
  obtain ⟨hodd, -, -, -⟩ := window_address_arithmetic (topmost 0xFFFFFFFF) 9
  obtain ⟨-, heven, -, -⟩ := window_address_arithmetic (topmost 4) 9
  obtain ⟨hz, -, hw⟩ := heven ht
  exact ⟨ho, hodd.mpr ho, by decide +kernel, ht, hz, hw⟩

/-- The arithmetic of a window may leave the addresses. -/
theorem not_window_from_ramStart :
    ofExecutable (topmost 0).executable = .ok (topmost 0) ∧
      (topmost 0).exactStart 1 = UInt32.size ∧ (topmost 0).window 1 = .error .overflow ∧
      ¬ ∀ (e : Executable) (d : Debugger) (rows : Nat), ofExecutable e = .ok d →
        d.window rows ≠ .error .overflow := by
  have hd : ofExecutable (topmost 0).executable = .ok (topmost 0) := by decide +kernel
  have hw : (topmost 0).window 1 = .error .overflow := by decide +kernel
  exact ⟨hd, by decide +kernel, hw, fun h => h _ _ 1 hd hw⟩

end Window

end Debugger

end X25
