import X25.Proofs.Assembly.Canonical
import X25.Proofs.Assembly.Listing

/-! # The lines of an assembled source

A source that assembles gives two words for each line that has anything but a comment, in the order
of the lines. So the words come in pairs, and each pair is what its line stands for on its own.
-/

namespace X25.Assembly

open Statement

/-- Something other than blanks and commas stands in the line before any comment. -/
def hasStatement (line : List Char) : Bool :=
  (line.takeWhile (· != ';')).any fun c => !isSeparator c

def statementLines (source : String) : List String :=
  ((Text.lines source.toList).filter hasStatement).map String.ofList

variable {n k : Nat} {cs : List Char} {ls : List (List Char)} {pairs : List WordPair}
  {words : List Word} {source l : String} {p : WordPair}

theorem pieces_eq_nil_iff : pieces cs = [] ↔ cs.any (fun c => !isSeparator c) = false := by
  induction cs with
  | nil => simp [pieces_nil]
  | cons c cs ih =>
    by_cases hc : isSeparator c = true
    · have hp := pieces_append_cons hc [] cs
      rw [List.nil_append, pieces_nil, List.nil_append] at hp
      simp [hp, ih, hc]
    · obtain ⟨p, ps, hp⟩ := List.exists_cons_of_ne_nil (List.splitOnP_ne_nil isSeparator cs)
      simp [pieces, List.splitOnP_cons_eq_if_modifyHead, hp, hc]

theorem tokens_eq_nil_iff : tokens cs = [] ↔ hasStatement cs = false := by
  rw [tokens_eq_pieces, pieces_eq_nil_iff, hasStatement]

theorem assembleNumbered_of_blank (h : hasStatement cs = false) (n : Nat) :
    assembleNumbered n cs = .ok none := by
  simp only [assembleNumbered, ofLine, tokens_eq_nil_iff.mpr h]
  rfl

theorem assembleNumbered_of_hasStatement (h : hasStatement cs = true) {p? : Option WordPair}
    (ho : assembleNumbered n cs = .ok p?) :
    ∃ p, p? = some p ∧ assembleLine (String.ofList cs) = .ok (some p) := by
  unfold assembleNumbered at ho
  cases hs : ofLine cs with
  | error e => rw [hs] at ho; cases ho
  | ok s? =>
    rw [hs] at ho
    cases ho
    cases s? with
    | some s => exact ⟨s.words, rfl, assembleLine_eq_ok.mpr ⟨s, by simpa using hs, rfl⟩⟩
    | none =>
      rw [tokens_eq_nil_iff.mp (ofLine_eq_ok_none.mp hs)] at h
      cases h

theorem map_assembleLine_of_assembleLines (h : assembleLines n ls = .ok pairs) :
    ((ls.filter hasStatement).map String.ofList).map assembleLine =
      pairs.map fun p => .ok (some p) := by
  induction ls generalizing n pairs with
  | nil =>
    cases h
    rfl
  | cons cs ls ih =>
    obtain ⟨p?, hp, h⟩ := exceptBind_eq_ok.mp h
    obtain ⟨ps, hs, h⟩ := exceptBind_eq_ok.mp h
    cases h
    cases ht : hasStatement cs with
    | false =>
      rw [assembleNumbered_of_blank ht] at hp
      cases hp
      simpa [ht] using ih hs
    | true =>
      obtain ⟨p, rfl, ha⟩ := assembleNumbered_of_hasStatement ht hp
      simpa [ht, ha] using ih hs

theorem assemble_eq_ok (h : assemble source = .ok words) :
    ∃ pairs : List WordPair, words = pairs.flatMap WordPair.toList ∧
      (statementLines source).map assembleLine = pairs.map fun p => .ok (some p) := by
  obtain ⟨pairs, hp, h⟩ := exceptBind_eq_ok.mp h
  cases h
  exact ⟨pairs, rfl, map_assembleLine_of_assembleLines hp⟩

theorem length_flatMap_toList (pairs : List WordPair) :
    (pairs.flatMap WordPair.toList).length = 2 * pairs.length := by
  induction pairs with
  | nil => rfl
  | cons p pairs ih =>
    simp [WordPair.toList, ih]
    omega

theorem getElem?_flatMap_toList (pairs : List WordPair) (k : Nat) :
    (pairs.flatMap WordPair.toList)[2 * k]? = pairs[k]?.map WordPair.low ∧
      (pairs.flatMap WordPair.toList)[2 * k + 1]? = pairs[k]?.map WordPair.high := by
  induction pairs generalizing k with
  | nil => simp
  | cons p pairs ih =>
    cases k with
    | zero => simp [WordPair.toList]
    | succ k =>
      have h := ih k
      simpa [WordPair.toList, Nat.mul_succ] using h

/-- The words of a line stand at twice the number of lines with statements before it. -/
theorem exists_pair_of_assemble (h : assemble source = .ok words)
    (hl : (statementLines source)[k]? = some l) :
    ∃ p, assembleLine l = .ok (some p) ∧ words[2 * k]? = some p.low ∧
      words[2 * k + 1]? = some p.high := by
  obtain ⟨pairs, rfl, hp⟩ := assemble_eq_ok h
  obtain ⟨hlo, hhi⟩ := getElem?_flatMap_toList pairs k
  have hk := congrArg (·[k]?) hp
  simp only [List.getElem?_map, hl] at hk
  cases hg : pairs[k]? with
  | none =>
    rw [hg] at hk
    cases hk
  | some p =>
    rw [hg] at hk hlo hhi
    exact ⟨p, Option.some.inj hk, hlo, hhi⟩

theorem length_of_assemble (h : assemble source = .ok words) :
    words.length = 2 * (statementLines source).length := by
  obtain ⟨pairs, rfl, hp⟩ := assemble_eq_ok h
  have hn := congrArg List.length hp
  rw [List.length_map, List.length_map] at hn
  rw [length_flatMap_toList, hn]

end X25.Assembly
