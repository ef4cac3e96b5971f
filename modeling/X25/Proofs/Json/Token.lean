import Mathlib.Data.List.Forall2
import Mathlib.Data.List.TakeWhile
import X25.Json.Text
import X25.Proofs.Text.Numeral

/-! # Cutting a text into tokens

A number or word ends only where a character follows that cannot belong to it, so what a text is cut
into is told together with what may follow it. Quoted texts and whole numbers are cut into one token
each.
-/

namespace X25.Json

/-- What follows cannot belong to a word or number that ends here. -/
def Ends (rest : List Char) : Prop :=
  ∀ c ∈ rest.head?, isWordChar c = false

/-- The characters are cut into these tokens, if what follows them is as it should be. -/
def Cuts (follows : List Char → Prop) (cs : List Char) (ts : List Token) : Prop :=
  ∀ rest, follows rest → scan? .between (cs ++ rest) = (scan? .between rest).map (ts ++ ·)

variable {P Q : List Char → Prop} {c : Char} {cs ds sep : List Char} {ts us : List Token} {j : Json}

theorem ends_cons : Ends (c :: cs) ↔ isWordChar c = false := by
  simp [Ends]

theorem scan?_cons (mode : Mode) (c : Char) (cs : List Char) :
    scan? mode (c :: cs) =
      (scanChar? mode c).bind fun p => (scan? p.2 cs).map (p.1 ++ ·) := by
  cases mode <;> simp only [scan?, Option.map_eq_bind, Option.bind_eq_bind] <;> rfl

theorem scan?_of_quiet {mode next : Mode} (h : scanChar? mode c = some ([], next))
    (cs : List Char) : scan? mode (c :: cs) = scan? next cs := by
  rw [scan?_cons, h, Option.bind_some]
  cases scan? next cs <;> rfl

theorem Cuts.nil : Cuts P [] [] := by
  intro rest _
  simp

theorem Cuts.append (h : Cuts P cs ts) (h' : Cuts Q ds us) (hf : ∀ rest, Q rest → P (ds ++ rest)) :
    Cuts Q (cs ++ ds) (ts ++ us) := by
  intro rest hr
  rw [List.append_assoc, h _ (hf rest hr), h' rest hr, Option.map_map]
  simp [Function.comp_def]

/-- A character that is a token, or a blank, does not depend on what follows. -/
theorem Cuts.cons (ts : List Token) (hc : start? c = some (ts, .between)) (h : Cuts P cs us) :
    Cuts P (c :: cs) (ts ++ us) := by
  intro rest hr
  rw [List.cons_append, scan?_cons, scanChar?, hc, Option.bind_some, h rest hr, Option.map_map]
  simp [Function.comp_def]

theorem Cuts.intercalate {xs : List (List Char)} {tss : List (List Token)}
    (hs : Cuts (fun _ => True) sep us) (he : ∀ rest, Ends (sep ++ rest))
    (h : List.Forall₂ (Cuts Ends) xs tss) :
    Cuts Ends (List.intercalate sep xs) (List.intercalate us tss) := by
  induction h with
  | nil => exact .nil
  | @cons x t xs tss hx hxs ih =>
    cases hxs with
    | nil => simpa using hx
    | cons hy hys =>
      rw [List.intercalate_cons_cons, List.intercalate_cons_cons]
      exact (hx.append hs fun rest _ => he rest).append ih fun _ _ => trivial

theorem isWordChar_of_isBlank (h : isBlank c = true) : isWordChar c = false := by
  simp only [isBlank, Bool.or_eq_true, beq_iff_eq] at h
  rcases h with ((rfl | rfl) | rfl) | rfl <;> rfl

theorem start?_of_isBlank (h : isBlank c = true) : start? c = some ([], .between) := by
  simp [start?, h, isWordChar_of_isBlank h]

theorem Cuts.blanks (hb : ∀ c ∈ ds, isBlank c = true) (h : Cuts P cs ts) :
    Cuts P (ds ++ cs) ts := by
  induction ds with
  | nil => exact h
  | cons c ds ih =>
    have hc := start?_of_isBlank (hb c List.mem_cons_self)
    exact .cons [] hc (ih fun d hd => hb d (List.mem_cons_of_mem c hd))

theorem ends_blanks (hb : ∀ c ∈ ds, isBlank c = true) (h : Ends cs) : Ends (ds ++ cs) := by
  cases ds with
  | nil => exact h
  | cons c ds => exact ends_cons.mpr (isWordChar_of_isBlank (hb c List.mem_cons_self))

/-! ## Words -/

theorem scan?_word (hcs : ∀ c ∈ cs, isWordChar c = true) (ds rest : List Char) :
    scan? (.word ds) (cs ++ rest) = scan? (.word (ds ++ cs)) rest := by
  induction cs generalizing ds with
  | nil => simp
  | cons c cs ih =>
    have hc := hcs c List.mem_cons_self
    rw [List.cons_append, scan?_cons, scanChar?, if_pos hc, Option.bind_some,
      ih fun d hd => hcs d (List.mem_cons_of_mem c hd)]
    simp

theorem cuts_atom (hne : cs ≠ []) (hcs : ∀ c ∈ cs, isWordChar c = true) (hj : atom? cs = some j) :
    Cuts Ends cs [.atom j] := by
  intro rest hr
  obtain ⟨c, cs, rfl⟩ := List.exists_cons_of_ne_nil hne
  have hc := hcs c List.mem_cons_self
  rw [List.cons_append, scan?_cons, scanChar?, start?, if_pos hc, Option.bind_some,
    scan?_word fun d hd => hcs d (List.mem_cons_of_mem c hd), List.singleton_append]
  cases rest with
  | nil => simp [scan?, hj]
  | cons d rest =>
    have hd : isWordChar d = false := ends_cons.mp hr
    simp only [scan?_cons, scanChar?, hd, hj, Bool.false_eq_true, if_false]
    cases start? d <;> simp [Option.map_map, Function.comp_def]

/-! ## Quoted texts -/

theorem digits_unit : ∀ n < 32, Numeral.digits 16 4 n =
    ['0', '0', (n / 16).digitChar, (n % 16).digitChar] := by
  decide

theorem scan?_unit {n : Nat} (hn : n < 32) (ps : List Piece) (rest : List Char) :
    scan? (.unit ps 0 3) (Numeral.digits 16 4 n ++ rest) =
      scan? (.quoted (ps ++ [.unit n])) rest := by
  have hz : Numeral.digit? 16 '0' = some 0 := by decide
  have hh : Numeral.digit? 16 (n / 16).digitChar = some (n / 16) :=
    Numeral.digit?_digitChar (by omega) (by decide)
  have hl : Numeral.digit? 16 (n % 16).digitChar = some (n % 16) :=
    Numeral.digit?_digitChar (by omega) (by decide)
  have hd : n / 16 * 16 + n % 16 = n := by omega
  have h3 : scanChar? (.unit ps 0 3) '0' = some ([], .unit ps 0 2) := by simp [scanChar?, hz]
  have h2 : scanChar? (.unit ps 0 2) '0' = some ([], .unit ps 0 1) := by simp [scanChar?, hz]
  have h1 : scanChar? (.unit ps 0 1) (n / 16).digitChar = some ([], .unit ps (n / 16) 0) := by
    simp [scanChar?, hh]
  have h0 : scanChar? (.unit ps (n / 16) 0) (n % 16).digitChar =
      some ([], .quoted (ps ++ [.unit n])) := by simp [scanChar?, hl, hd]
  simp only [digits_unit n hn, List.cons_append, List.nil_append, scan?_of_quiet h3,
    scan?_of_quiet h2, scan?_of_quiet h1, scan?_of_quiet h0]

theorem exists_piece_of_escape {e : Char} (he : e ≠ 'u') (hc : escapes.lookup e = some c)
    (ps : List Piece) (rest : List Char) :
    ∃ p, (∀ qs, characters? (p :: qs) = (characters? qs).map (c :: ·)) ∧
      scan? (.quoted ps) ('\\' :: e :: rest) = scan? (.quoted (ps ++ [p])) rest := by
  have hb : scanChar? (.quoted ps) '\\' = some ([], .escape ps) := rfl
  have hs : scanChar? (.escape ps) e = some ([], .quoted (ps ++ [.char c])) := by
    simp [scanChar?, he, hc]
  exact ⟨.char c, fun _ => rfl, by rw [scan?_of_quiet hb, scan?_of_quiet hs]⟩

theorem exists_piece_of_unit (hc : c.toNat < 32) (ps : List Piece) (rest : List Char) :
    ∃ p, (∀ qs, characters? (p :: qs) = (characters? qs).map (c :: ·)) ∧
      scan? (.quoted ps) ('\\' :: 'u' :: (Numeral.digits 16 4 c.toNat ++ rest)) =
        scan? (.quoted (ps ++ [p])) rest := by
  refine ⟨.unit c.toNat, fun qs => ?_, ?_⟩
  · have hf : isFirstHalf c.toNat = false := by
      simp only [isFirstHalf, Bool.and_eq_false_iff, decide_eq_false_iff_not]
      omega
    have hs : isSecondHalf c.toNat = false := by
      simp only [isSecondHalf, Bool.and_eq_false_iff, decide_eq_false_iff_not]
      omega
    rw [characters?.eq_def]
    simp [hf, hs]
  · have hb : scanChar? (.quoted ps) '\\' = some ([], .escape ps) := rfl
    have hu : scanChar? (.escape ps) 'u' = some ([], .unit ps 0 3) := rfl
    rw [scan?_of_quiet hb, scan?_of_quiet hu, scan?_unit hc]

theorem exists_piece (c : Char) (ps : List Piece) (rest : List Char) :
    ∃ p, (∀ qs, characters? (p :: qs) = (characters? qs).map (c :: ·)) ∧
      scan? (.quoted ps) (escape c ++ rest) = scan? (.quoted (ps ++ [p])) rest := by
  unfold escape
  split_ifs with hq hb hn hr ht h8 h12 hlow
  · subst hq
    exact exists_piece_of_escape (by decide) rfl ps rest
  · subst hb
    exact exists_piece_of_escape (by decide) rfl ps rest
  · subst hn
    exact exists_piece_of_escape (by decide) rfl ps rest
  · subst hr
    exact exists_piece_of_escape (by decide) rfl ps rest
  · subst ht
    exact exists_piece_of_escape (by decide) rfl ps rest
  · obtain rfl : c = Char.ofNat 8 := by rw [← h8, Char.ofNat_toNat]
    exact exists_piece_of_escape (by decide) rfl ps rest
  · obtain rfl : c = Char.ofNat 12 := by rw [← h12, Char.ofNat_toNat]
    exact exists_piece_of_escape (by decide) rfl ps rest
  · exact exists_piece_of_unit hlow ps rest
  · have hs : scanChar? (.quoted ps) c = some ([], .quoted (ps ++ [.char c])) := by
      simp [scanChar?, hq, hb, hlow]
    exact ⟨.char c, fun _ => rfl, scan?_of_quiet hs rest⟩

theorem exists_pieces (cs : List Char) (ps : List Piece) (rest : List Char) :
    ∃ qs, characters? qs = some cs ∧
      scan? (.quoted ps) (cs.flatMap escape ++ rest) = scan? (.quoted (ps ++ qs)) rest := by
  induction cs generalizing ps with
  | nil => exact ⟨[], rfl, by simp⟩
  | cons c cs ih =>
    obtain ⟨p, hp, hs⟩ := exists_piece c ps (cs.flatMap escape ++ rest)
    obtain ⟨qs, hq, hs'⟩ := ih (ps ++ [p])
    refine ⟨p :: qs, by rw [hp, hq, Option.map_some], ?_⟩
    rw [List.flatMap_cons, List.append_assoc, hs, hs']
    simp

theorem cuts_quote (s : String) : Cuts P (quote s).toList [.text s] := by
  intro rest _
  obtain ⟨qs, hq, hs⟩ := exists_pieces s.toList [] ('"' :: rest)
  have ht : (quote s).toList ++ rest = '"' :: (s.toList.flatMap escape ++ '"' :: rest) := by
    simp [quote]
  have hstart : scanChar? .between '"' = some ([], .quoted []) := rfl
  rw [ht, scan?_of_quiet hstart, hs]
  simp [scan?_cons, scanChar?, hq]

/-! ## Numbers -/

theorem digits_one (n : Nat) : Numeral.digits 10 1 n = Nat.toDigits 10 n := by
  have hp := Nat.length_toDigits_pos (b := 10) (n := n)
  rw [Numeral.digits, List.leftpad, Nat.sub_eq_zero_of_le hp]
  rfl

theorem exists_toDigits {n : Nat} (hn : n ≠ 0) : ∃ c cs, Nat.toDigits 10 n = c :: cs ∧ c ≠ '0' := by
  induction n using Nat.strongRecOn with
  | ind n ih =>
    by_cases h : n < 10
    · have hd : ∀ d < 10, d ≠ 0 → d.digitChar ≠ '0' := by decide
      exact ⟨n.digitChar, [], Nat.toDigits_of_lt_base h, hd n h hn⟩
    · obtain ⟨c, cs, hc, hz⟩ := ih (n / 10) (by omega) (by omega)
      rw [Nat.toDigits_of_base_le (by decide) (Nat.not_lt.mp h), hc]
      exact ⟨c, _, rfl, hz⟩

theorem isWhole_toDigits (n : Nat) : isWhole (Nat.toDigits 10 n) = true := by
  by_cases hn : n = 0
  · subst hn
    rfl
  · obtain ⟨c, cs, hc, hz⟩ := exists_toDigits hn
    rw [hc]
    cases cs with
    | nil => rfl
    | cons d ds => simpa [isWhole] using hz

theorem isDigit_of_mem (n : Nat) : ∀ c ∈ Nat.toDigits 10 n, c.isDigit = true :=
  fun _ hc => Nat.isDigit_of_mem_toDigits (by decide) (by decide) hc

theorem isWordChar_of_isDigit (h : c.isDigit = true) : isWordChar c = true := by
  simp [isWordChar, Char.isAlphanum, h]

theorem unsigned?_toDigits (negative : Bool) {n : Nat} (h : negative = true → n ≠ 0) :
    unsigned? negative (Nat.toDigits 10 n) =
      some (integer (if negative then -n else n)) := by
  have htake : (Nat.toDigits 10 n).takeWhile Char.isDigit = Nat.toDigits 10 n :=
    List.takeWhile_eq_self_iff.mpr (isDigit_of_mem n)
  have hdrop : (Nat.toDigits 10 n).dropWhile Char.isDigit = [] :=
    List.dropWhile_eq_nil_iff.mpr (isDigit_of_mem n)
  have hread : Numeral.read? 10 (Nat.toDigits 10 n) = some n := by
    rw [← digits_one]
    exact Numeral.read?_digits (by decide) (by decide) 1 n
  have hsign : negative = false ∨ ¬ n = 0 := by
    cases negative with
    | false => exact .inl rfl
    | true => exact .inr (h rfl)
  simp [unsigned?, htake, hdrop, fraction?, exponent?, hread, isWhole_toDigits, hsign]

theorem number?_toDigits (n : Nat) : number? (Nat.toDigits 10 n) = some (integer n) := by
  have hu := unsigned?_toDigits false (n := n) (by simp)
  unfold number?
  split
  · next cs hc =>
    have hd : '-' ∈ Nat.toDigits 10 n := by
      rw [hc]
      exact List.mem_cons_self
    exact absurd (isDigit_of_mem n _ hd) (by decide)
  · simpa using hu

theorem atom?_of_head (h : c.isDigit = true ∨ c = '-') : atom? (c :: cs) = number? (c :: cs) := by
  have hc : c ≠ 'n' ∧ c ≠ 't' ∧ c ≠ 'f' := by
    refine ⟨?_, ?_, ?_⟩ <;> rintro rfl <;> exact absurd h (by decide)
  simp [atom?, hc]

theorem atom?_toDigits (n : Nat) : atom? (Nat.toDigits 10 n) = some (integer n) := by
  obtain ⟨c, cs, hc⟩ := List.exists_cons_of_ne_nil (Nat.toDigits_ne_nil (n := n) (b := 10))
  have hd : c.isDigit = true := isDigit_of_mem n c (hc ▸ List.mem_cons_self)
  rw [hc, atom?_of_head (.inl hd), ← hc, number?_toDigits]

theorem cuts_integer (n : Int) : Cuts Ends (Numeral.signed n).toList [.atom (integer n)] := by
  cases n with
  | ofNat n =>
    have ht : (Numeral.signed (.ofNat n)).toList = Nat.toDigits 10 n := by
      simp [Numeral.signed, Numeral.decimal, digits_one]
    rw [ht]
    exact cuts_atom Nat.toDigits_ne_nil (fun c hc => isWordChar_of_isDigit (isDigit_of_mem n c hc))
      (atom?_toDigits n)
  | negSucc n =>
    have ht : (Numeral.signed (.negSucc n)).toList = '-' :: Nat.toDigits 10 (n + 1) := by
      simp [Numeral.signed, Numeral.decimal, digits_one]
    have hn : atom? ('-' :: Nat.toDigits 10 (n + 1)) = some (integer (.negSucc n)) := by
      rw [atom?_of_head (.inr rfl)]
      exact unsigned?_toDigits true (by simp)
    rw [ht]
    refine cuts_atom (List.cons_ne_nil _ _) (fun c hc => ?_) hn
    obtain rfl | hc := List.mem_cons.mp hc
    · rfl
    · exact isWordChar_of_isDigit (isDigit_of_mem _ c hc)

end X25.Json
