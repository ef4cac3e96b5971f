import X25.Proofs.Json.Token

/-! # Printed values are read back

Between the characters and the value stand the tokens. The compact form of a value is cut into the
tokens of the value, which build it again, and so is the indented form.
-/

namespace X25.Json

variable {P : List Char → Prop} {cs : List Char} {ts : List Token} {j : Json}

/-! ## From tokens to the value -/

mutual

def tokens : Json → List Token
  | null => [.atom null]
  | bool b => [.atom (bool b)]
  | integer n => [.atom (integer n)]
  | decimal n places => [.atom (decimal n places)]
  | string s => [.text s]
  | array items => .openArray :: (List.intercalate [.comma] (itemTokens items) ++ [.closeArray])
  | object members =>
    .openObject :: (List.intercalate [.comma] (memberTokens members) ++ [.closeObject])

def itemTokens : List Json → List (List Token)
  | [] => []
  | j :: js => j.tokens :: itemTokens js

def memberTokens : List (String × Json) → List (List Token)
  | [] => []
  | (name, j) :: ms => (.text name :: .colon :: j.tokens) :: memberTokens ms

end

theorem intercalate_cons {α : Type} (sep x : List α) (xs : List (List α)) :
    List.intercalate sep (x :: xs) = x ++ xs.flatMap (sep ++ ·) := by
  induction xs generalizing x with
  | nil => simp
  | cons y ys ih =>
    rw [List.intercalate_cons_cons, ih, List.flatMap_cons, List.append_assoc, List.append_assoc]

theorem foldlM_tokens_firstItem (j : Json) (outer : List Frame) :
    j.tokens.foldlM take? (.firstItem outer) =
      j.tokens.foldlM take? (.value (.array [] :: outer)) := by
  cases j <;> rfl

mutual

theorem foldlM_tokens (j : Json) (outer : List Frame) :
    j.tokens.foldlM take? (.value outer) = some (complete j outer) := by
  cases j with
  | null | bool | integer | decimal | string => rfl
  | array items =>
    cases items with
    | nil => rfl
    | cons j js =>
      have hj := foldlM_tokens j (.array [] :: outer)
      have hjs := foldlM_itemTokens js [j] outer
      simp only [tokens, itemTokens, intercalate_cons, List.foldlM_cons, List.foldlM_append,
        take?, begin?, Option.bind_eq_bind, Option.bind_some, foldlM_tokens_firstItem, hj, complete,
        List.nil_append, hjs, List.foldlM_nil]
      rfl
  | object members =>
    cases members with
    | nil => rfl
    | cons m ms =>
      obtain ⟨name, j⟩ := m
      have hj := foldlM_tokens j (.object [] name :: outer)
      have hms := foldlM_memberTokens ms [(name, j)] outer
      simp only [tokens, memberTokens, intercalate_cons, List.foldlM_cons, List.foldlM_append,
        take?, begin?, Option.bind_eq_bind, Option.bind_some, hj, complete, List.nil_append, hms,
        List.foldlM_nil]
      rfl

theorem foldlM_itemTokens (js done : List Json) (outer : List Frame) :
    ((itemTokens js).flatMap ([Token.comma] ++ ·)).foldlM take? (.afterItem done outer) =
      some (.afterItem (done ++ js) outer) := by
  cases js with
  | nil => simp [itemTokens]
  | cons j js =>
    have hj := foldlM_tokens j (.array done :: outer)
    have hjs := foldlM_itemTokens js (done ++ [j]) outer
    simp only [itemTokens, List.flatMap_cons, List.cons_append, List.nil_append, List.foldlM_cons,
      List.foldlM_append, take?, Option.bind_eq_bind, Option.bind_some, hj, complete]
    simpa using hjs

theorem foldlM_memberTokens (ms done : List (String × Json)) (outer : List Frame) :
    ((memberTokens ms).flatMap ([Token.comma] ++ ·)).foldlM take? (.afterMember done outer) =
      some (.afterMember (done ++ ms) outer) := by
  cases ms with
  | nil => simp [memberTokens]
  | cons m ms =>
    obtain ⟨name, j⟩ := m
    have hj := foldlM_tokens j (.object done name :: outer)
    have hms := foldlM_memberTokens ms (done ++ [(name, j)]) outer
    simp only [memberTokens, List.flatMap_cons, List.cons_append, List.nil_append,
      List.foldlM_cons, List.foldlM_append, take?, Option.bind_eq_bind, Option.bind_some, hj,
      complete]
    simpa using hms

end

theorem build?_tokens (j : Json) : build? j.tokens = some j := by
  rw [build?, foldlM_tokens]
  rfl

/-! ## Whole values -/

mutual

/-- Whether a text gives the value back as it is: the numbers are integers of 64 bits, and no more
than so many brackets are around one another. -/
def Exact : Nat → Json → Prop
  | _, null => True
  | _, bool _ => True
  | _, integer n => -0x8000000000000000 ≤ n ∧ n < 0x10000000000000000
  | _, decimal _ _ => False
  | _, string _ => True
  | depth, array items => 0 < depth ∧ ExactItems (depth - 1) items
  | depth, object members => 0 < depth ∧ ExactMembers (depth - 1) members

def ExactItems : Nat → List Json → Prop
  | _, [] => True
  | depth, j :: js => j.Exact depth ∧ ExactItems depth js

def ExactMembers : Nat → List (String × Json) → Prop
  | _, [] => True
  | depth, (_, j) :: ms => j.Exact depth ∧ ExactMembers depth ms

end

theorem exactMembers_iff {depth : Nat} {ms : List (String × Json)} :
    ExactMembers depth ms ↔ ∀ m ∈ ms, m.2.Exact depth := by
  induction ms with
  | nil => simp [ExactMembers]
  | cons m ms ih => simp [ExactMembers, ih]

theorem cuts_bracketed (left right : Char) (before after : List Char) {t u : Token}
    {xs : List (List Char)} {tss : List (List Token)}
    (hl : start? left = some ([t], .between)) (hr : start? right = some ([u], .between))
    (hw : isWordChar right = false) (hb : ∀ c ∈ before, isBlank c = true)
    (ha : ∀ c ∈ after, isBlank c = true) (h : List.Forall₂ (Cuts Ends) xs tss) :
    Cuts P (left :: (before ++ (List.intercalate (',' :: before) xs ++ (after ++ [right]))))
      (t :: (List.intercalate [.comma] tss ++ [u])) := by
  have hcomma : Cuts (fun _ => True) (',' :: before) [.comma] := by
    have hn := (Cuts.nil (P := fun _ => True)).blanks hb
    rw [List.append_nil] at hn
    exact .cons [.comma] rfl hn
  have hright : Cuts P (after ++ [right]) [u] := .blanks ha (.cons [u] hr .nil)
  have hitems := Cuts.intercalate hcomma (fun _ => ends_cons.mpr rfl) h
  refine .cons [t] hl (.blanks hb (hitems.append hright fun rest _ => ?_))
  rw [List.append_assoc]
  exact ends_blanks ha (ends_cons.mpr hw)

theorem cuts_member (name : String) (before : List Char) (hb : ∀ c ∈ before, isBlank c = true)
    (h : Cuts Ends cs ts) :
    Cuts Ends ((quote name).toList ++ ':' :: (before ++ cs)) (.text name :: .colon :: ts) := by
  have hc : Cuts Ends (':' :: (before ++ cs)) (.colon :: ts) :=
    .cons [.colon] rfl (h.blanks hb)
  exact (cuts_quote (P := fun _ => True) name).append hc fun _ _ => trivial

/-! ### The compact form -/

mutual

theorem cuts_compact {depth : Nat} (j : Json) (h : j.Exact depth) :
    Cuts Ends j.compact.toList j.tokens := by
  cases j with
  | null =>
    have hn : Cuts Ends ['n', 'u', 'l', 'l'] [.atom null] :=
      cuts_atom (List.cons_ne_nil _ _) (List.all_eq_true.mp rfl) rfl
    exact hn
  | bool b =>
    have ht : Cuts Ends ['t', 'r', 'u', 'e'] [.atom (bool true)] :=
      cuts_atom (List.cons_ne_nil _ _) (List.all_eq_true.mp rfl) rfl
    have hf : Cuts Ends ['f', 'a', 'l', 's', 'e'] [.atom (bool false)] :=
      cuts_atom (List.cons_ne_nil _ _) (List.all_eq_true.mp rfl) rfl
    cases b with
    | false => exact hf
    | true => exact ht
  | integer n => exact cuts_integer n
  | decimal n places => exact absurd h (by simp [Exact])
  | string s => exact cuts_quote s
  | array items =>
    have hi := cuts_bracketed (P := Ends) '[' ']' [] [] rfl rfl rfl (by simp) (by simp)
      (forall₂_compactItems items h.2)
    simpa [compact, tokens, String.toList_intercalate] using hi
  | object members =>
    have hm := cuts_bracketed (P := Ends) '\x7b' '\x7d' [] [] rfl rfl rfl (by simp) (by simp)
      (forall₂_compactMembers members h.2)
    simpa [compact, tokens, String.toList_intercalate] using hm

theorem forall₂_compactItems {depth : Nat} (js : List Json) (h : ExactItems depth js) :
    List.Forall₂ (Cuts Ends) ((compactItems js).map String.toList) (itemTokens js) := by
  cases js with
  | nil => exact .nil
  | cons j js => exact .cons (cuts_compact j h.1) (forall₂_compactItems js h.2)

theorem forall₂_compactMembers {depth : Nat} (ms : List (String × Json))
    (h : ExactMembers depth ms) :
    List.Forall₂ (Cuts Ends) ((compactMembers ms).map String.toList) (memberTokens ms) := by
  cases ms with
  | nil => exact .nil
  | cons m ms =>
    obtain ⟨name, j⟩ := m
    refine .cons ?_ (forall₂_compactMembers ms h.2)
    have hm := cuts_member name [] (by simp) (cuts_compact j h.1)
    simpa using hm

end

/-! ### The indented form -/

theorem isBlank_of_mem_lineBreak (depth : Nat) :
    ∀ c ∈ (lineBreak depth).toList, isBlank c = true := by
  intro c hc
  simp only [lineBreak, String.toList_append, String.toList_ofList, List.mem_append] at hc
  rcases hc with hc | hc
  · obtain rfl : c = '\n' := by simpa using hc
    rfl
  · rw [List.eq_of_mem_replicate hc]
    rfl

theorem cuts_indentedBlock (left right : Char) (depth : Nat) {t u : Token} {items : List String}
    {tss : List (List Token)} (hl : start? left = some ([t], .between))
    (hr : start? right = some ([u], .between)) (hw : isWordChar right = false)
    (h : List.Forall₂ (Cuts Ends) (items.map String.toList) tss) :
    Cuts P (indentedBlock (.ofList [left]) (.ofList [right]) depth items).toList
      (t :: (List.intercalate [.comma] tss ++ [u])) := by
  cases items with
  | nil =>
    have hb := cuts_bracketed (P := P) left right [] [] hl hr hw (by simp) (by simp) h
    simpa [indentedBlock] using hb
  | cons item items =>
    have hb := cuts_bracketed (P := P) left right _ _ hl hr hw
      (isBlank_of_mem_lineBreak (depth + 1)) (isBlank_of_mem_lineBreak depth) h
    simpa [indentedBlock, String.toList_intercalate] using hb

mutual

theorem cuts_indented {depth : Nat} (margin : Nat) (j : Json) (h : j.Exact depth) :
    Cuts Ends (j.indented margin).toList j.tokens := by
  cases j with
  | null | bool | integer | decimal | string =>
    simpa only [indented] using cuts_compact _ h
  | array items =>
    have hi := cuts_indentedBlock (P := Ends) '[' ']' margin rfl rfl rfl
      (forall₂_indentedItems (margin + 1) items h.2)
    simpa only [indented, tokens] using hi
  | object members =>
    have hm := cuts_indentedBlock (P := Ends) '\x7b' '\x7d' margin rfl rfl rfl
      (forall₂_indentedMembers (margin + 1) members h.2)
    simpa only [indented, tokens] using hm

theorem forall₂_indentedItems {depth : Nat} (margin : Nat) (js : List Json)
    (h : ExactItems depth js) :
    List.Forall₂ (Cuts Ends) ((indentedItems margin js).map String.toList) (itemTokens js) := by
  cases js with
  | nil => exact .nil
  | cons j js => exact .cons (cuts_indented margin j h.1) (forall₂_indentedItems margin js h.2)

theorem forall₂_indentedMembers {depth : Nat} (margin : Nat) (ms : List (String × Json))
    (h : ExactMembers depth ms) :
    List.Forall₂ (Cuts Ends) ((indentedMembers margin ms).map String.toList) (memberTokens ms) := by
  cases ms with
  | nil => exact .nil
  | cons m ms =>
    obtain ⟨name, j⟩ := m
    refine .cons ?_ (forall₂_indentedMembers margin ms h.2)
    have hm := cuts_member name [' '] (List.forall_mem_singleton.mpr rfl)
      (cuts_indented margin j h.1)
    simpa using hm

end

/-- A way to write values as text and a way to read them which belong together. -/
def ReadsBack (write : Json → String) (read : String → Option Json) : Prop :=
  ∀ j : Json, j.Exact 127 → read (write j) = some j

theorem ofText?_of_cuts {t : String} (h : Cuts Ends t.toList j.tokens) : ofText? t = some j := by
  have hs : scan? .between t.toList = some j.tokens := by
    simpa [scan?] using h [] (by simp [Ends])
  rw [ofText?, hs, Option.bind_some, build?_tokens]

theorem readsBack_compact : ReadsBack compact ofText? :=
  fun j hj => ofText?_of_cuts (cuts_compact j hj)

theorem readsBack_indented (margin : Nat) : ReadsBack (indented margin) ofText? :=
  fun j hj => ofText?_of_cuts (cuts_indented margin j hj)

end X25.Json
