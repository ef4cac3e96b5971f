import X25.Assembly.Listing
import X25.Proofs.Assembly.Printer
import X25.Proofs.Text.Lines

/-! # Listings read as source

Every line of a listing stands for the pair of words it shows, whatever is in its comment, and the
title and the last line of an odd program stand for nothing. So the listing of a program assembles
to the program without a last word that has no partner.
-/

namespace X25.Assembly

open Statement

variable {n : Nat} {cs : List Char} {ls : List (List Char)} {p : WordPair}

theorem assembleNumbered_of_ofLine {s : Option Statement} (h : ofLine cs = .ok s) (n : Nat) :
    assembleNumbered n cs = .ok (s.map Statement.words) := by
  rw [assembleNumbered, h]

theorem assembleLines_cons_of_none (h : ofLine cs = .ok none) (n : Nat) (ls : List (List Char)) :
    assembleLines n (cs :: ls) = assembleLines (n + 1) ls := by
  rw [assembleLines, assembleNumbered_of_ofLine h]
  show (assembleLines (n + 1) ls >>= fun ps => pure ([] ++ ps)) = _
  cases assembleLines (n + 1) ls <;> rfl

theorem assembleLines_cons_of_ok {ps : List WordPair} (h : assembleNumbered n cs = .ok (some p))
    (hs : assembleLines (n + 1) ls = .ok ps) : assembleLines n (cs :: ls) = .ok (p :: ps) := by
  rw [assembleLines, h, hs]
  rfl

theorem assembleLines_replicate (h : ∀ n, assembleNumbered n cs = .ok (some p)) (k n : Nat) :
    assembleLines n (List.replicate k cs) = .ok (List.replicate k p) := by
  induction k generalizing n with
  | zero => rfl
  | succ k ih =>
    rw [List.replicate_succ, List.replicate_succ]
    exact assembleLines_cons_of_ok (h n) (ih (n + 1))

theorem assembleNumbered_comment (n k : Nat) (p : WordPair) (rest : List Char) :
    assembleNumbered n ((pairText p).toList ++ List.replicate k ' ' ++ ';' :: rest) =
      .ok (some p) := by
  obtain ⟨s, hs, rfl⟩ := words_ofLine_pairText p
  have hl : ofLine ((pairText s.words).toList ++ List.replicate k ' ' ++ ';' :: rest) =
      .ok (some s) := by
    rw [ofLine, tokens_append_comment]
    exact hs
  rw [assembleNumbered_of_ofLine hl]
  rfl

theorem ofLine_comment (rest : List Char) : ofLine (';' :: rest) = .ok none := by
  rw [ofLine, tokens_eq_nil_of_comment]
  rfl

def comment (address : Nat) (p : WordPair) : List Char :=
  ' ' :: (Numeral.hex 4 address).toList ++ ':' :: ' ' :: (Numeral.hex 8 p.low.toNat).toList ++
    ' ' :: (Numeral.hex 8 p.high.toNat).toList

theorem feed_not_mem_hex (width n : Nat) : '\n' ∉ (Numeral.hex width n).toList := by
  rw [Numeral.hex, String.toList_ofList]
  intro h
  have hd := Numeral.digitValue?_isSome_of_mem_digits (by decide) (by decide) h
  exact absurd hd (by decide)

theorem feed_not_mem_comment (address : Nat) (p : WordPair) : '\n' ∉ comment address p := by
  simp [comment, feed_not_mem_hex]

def column (p : WordPair) : List Char :=
  (pairText p).toList ++ List.replicate (32 - (pairText p).toList.length) ' '

theorem feed_not_mem_column (p : WordPair) : '\n' ∉ column p := by
  simp [column, feed_not_mem_pairText]

theorem toList_listingLine (address : Nat) (p : WordPair) :
    (listingLine address p).toList = column p ++ ';' :: comment address p ++ ['\n'] := by
  simp [listingLine, padRight, List.rightpad, comment, column]

theorem assembleLine_listingLine (address : Nat) (p : WordPair) :
    assembleLine (listingLine address p) = .ok (some p) := by
  rw [assembleLine, toList_listingLine, List.append_assoc, List.cons_append]
  exact assembleNumbered_comment 1 _ p _

theorem lines_listingLine (address : Nat) (p : WordPair) (rest : List Char) :
    ∃ c, Text.lines ((listingLine address p).toList ++ rest) =
      (column p ++ ';' :: c) :: Text.lines rest := by
  have hn : '\n' ∉ column p ++ ';' :: comment address p := by
    simp [feed_not_mem_column, feed_not_mem_comment]
  have hs : ';' ≠ '\r' := by decide
  obtain ⟨c, hc⟩ := Text.dropReturn_append_cons hs (column p) (comment address p)
  refine ⟨c, ?_⟩
  rw [toList_listingLine, List.append_assoc, List.singleton_append, Text.lines_append_feed hn, hc]

theorem assembleLines_comment {rest : List Char} (h : '\n' ∉ rest) (n : Nat)
    (more : List Char) :
    assembleLines n (Text.lines (';' :: rest ++ '\n' :: more)) =
      assembleLines (n + 1) (Text.lines more) := by
  have hn : '\n' ∉ ';' :: rest := by simp [h]
  have hs : ';' ≠ '\r' := by decide
  obtain ⟨c, hc⟩ := Text.dropReturn_append_cons hs [] rest
  rw [List.nil_append] at hc
  rw [Text.lines_append_feed hn, hc]
  exact assembleLines_cons_of_none (ofLine_comment c) n _

theorem assembleLines_listingLines (address n : Nat) (program : List Word) :
    assembleLines n (Text.lines (String.join (listingLines address program)).toList) =
      .ok (WordPair.ofList program) := by
  fun_induction listingLines address program generalizing n with
  | case1 address low high rest ih =>
    rw [String.join_cons, String.toList_append]
    obtain ⟨c, hl⟩ := lines_listingLine address ⟨low, high⟩
      (String.join (listingLines (address + 2) rest)).toList
    rw [hl]
    exact assembleLines_cons_of_ok (assembleNumbered_comment n _ _ c) (ih (n + 1))
  | case2 address last =>
    let rest : List Char := " trailing word 0x".toList ++ (Numeral.hex 8 last.toNat).toList
    have hr : '\n' ∉ rest := by
      simp [rest, feed_not_mem_hex]
    have ht : (String.join ["; trailing word " ++ Numeral.hexMarked 8 last.toNat ++ "\n"]).toList =
        ';' :: rest ++ '\n' :: [] := by
      simp [rest, Numeral.hexMarked]
    rw [ht, assembleLines_comment hr, Text.lines_nil]
    rfl
  | case3 address =>
    have hn : (String.join []).toList = [] := rfl
    rw [hn, Text.lines_nil]
    rfl

theorem assembleLines_listing (program : List Word) :
    assembleLines 1 (Text.lines (listing program).toList) = .ok (WordPair.ofList program) := by
  have ht : (listing program).toList = ';' :: " x25-32 disassembly".toList ++ '\n' ::
      (';' :: " -----------------".toList ++ '\n' :: ([] ++ '\n' ::
        (String.join (listingLines 0 program)).toList)) := by
    rw [listing, String.toList_append]
    rfl
  have hb : ofLine [] = .ok none := by
    rw [ofLine, tokens_eq_pieces, List.takeWhile_nil, pieces_nil]
    rfl
  rw [ht, assembleLines_comment (by decide), assembleLines_comment (by decide),
    Text.lines_append_feed (by decide)]
  show assembleLines 3 ([] :: Text.lines (String.join (listingLines 0 program)).toList) = _
  rw [assembleLines_cons_of_none hb]
  exact assembleLines_listingLines 0 4 program

theorem flatMap_toList_ofList (ws : List Word) :
    (WordPair.ofList ws).flatMap WordPair.toList =
      if ws.length % 2 = 0 then ws else ws.dropLast := by
  fun_induction WordPair.ofList ws with
  | case1 low high rest ih =>
    have hl : (low :: high :: rest).length % 2 = rest.length % 2 := by
      rw [List.length_cons, List.length_cons]
      omega
    rw [List.flatMap_cons, ih, hl, WordPair.toList]
    split
    · rfl
    · next h =>
      have hne : rest ≠ [] := by
        rintro rfl
        exact h rfl
      rw [List.dropLast_cons_of_ne_nil (List.cons_ne_nil high rest),
        List.dropLast_cons_of_ne_nil hne]
      rfl
  | case2 ws h =>
    cases ws with
    | nil => rfl
    | cons low rest =>
      cases rest with
      | nil => rfl
      | cons high rest => exact absurd rfl (h low high rest)

/-- A listing assembles to its program, without a last word that has no partner, and each of its
lines assembles to the pair of words that it shows. -/
theorem assemble_listing (program : List Word) :
    assemble (listing program) =
        .ok (if program.length % 2 = 0 then program else program.dropLast) ∧
      ∀ address p, assembleLine (listingLine address p) = .ok (some p) := by
  refine ⟨?_, assembleLine_listingLine⟩
  rw [assemble, assemblePairs, assembleLines_listing, ← flatMap_toList_ofList]
  rfl

end X25.Assembly
