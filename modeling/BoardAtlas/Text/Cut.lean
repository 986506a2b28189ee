/-!
# Cutting texts

* `cut?`: the pieces before and after the first separator;
* `pieces`, `pieces_eq_splitOn`: all pieces between separators;
* `joined`: texts with a separator between them;
* `replaceAll`: every occurrence of a piece, from the left.
-/

namespace BoardAtlas.Text

/-- The characters before and after the first separator, if there is one. -/
def cut? (sep : Char) : List Char → Option (List Char × List Char)
  | [] => none
  | c :: cs => if c = sep then some ([], cs) else (cut? sep cs).map fun (a, b) => (c :: a, b)

/-- The texts before and after the first separator, if there is one. -/
def cutText? (sep : Char) (s : String) : Option (String × String) :=
  (cut? sep s.toList).map fun (a, b) => (String.ofList a, String.ofList b)

/-- A cut loses nothing but the separator, and the first piece is free of it. -/
theorem cut?_eq_some_iff {sep : Char} {cs a b : List Char} :
    cut? sep cs = some (a, b) ↔ cs = a ++ sep :: b ∧ sep ∉ a := by
  induction cs generalizing a with
  | nil => simp [cut?]
  | cons c cs ih =>
    by_cases h : c = sep
    · subst h
      cases a with
      | nil => simp [cut?, eq_comm]
      | cons x a =>
        simp only [cut?, if_true, Option.some.injEq, Prod.mk.injEq, List.nil_eq, reduceCtorEq,
          false_and, List.cons_append, List.cons.injEq, List.mem_cons, not_or, false_iff]
        rintro ⟨⟨rfl, _⟩, hne, _⟩
        exact hne rfl
    · cases a with
      | nil => simp [cut?, h]
      | cons x a =>
        simp only [cut?, h, if_false, Option.map_eq_some_iff, Prod.exists, Prod.mk.injEq,
          List.cons.injEq, List.cons_append, List.mem_cons, not_or]
        constructor
        · rintro ⟨a', b', hcut, ⟨rfl, rfl⟩, rfl⟩
          obtain ⟨rfl, hm⟩ := ih.1 hcut
          exact ⟨⟨rfl, rfl⟩, fun e => h e.symm, hm⟩
        · rintro ⟨⟨rfl, hcs⟩, _, hm⟩
          exact ⟨a, b, ih.2 ⟨hcs, hm⟩, ⟨rfl, rfl⟩, rfl⟩

/-- The pieces between separators; a text without one is its only piece. -/
def pieces (sep : Char) : List Char → List (List Char)
  | [] => [[]]
  | c :: cs =>
    if c = sep then [] :: pieces sep cs
    else match pieces sep cs with
      | [] => [[c]]
      | p :: ps => (c :: p) :: ps

theorem pieces_eq_splitOn (sep : Char) (cs : List Char) : pieces sep cs = cs.splitOn sep := by
  induction cs with
  | nil => rfl
  | cons c cs ih =>
    rw [List.splitOn_cons_eq_if_modifyHead, pieces, ih]
    cases h : cs.splitOn sep with
    | nil => exact absurd h (List.splitOn_ne_nil sep cs)
    | cons p ps => simp

/-- The texts between separators. -/
def piecesOf (sep : Char) (s : String) : List String := (pieces sep s.toList).map String.ofList

theorem piecesOf_ne_nil (sep : Char) (s : String) : piecesOf sep s ≠ [] := by
  rw [piecesOf, pieces_eq_splitOn, ne_eq, List.map_eq_nil_iff]
  exact List.splitOn_ne_nil sep s.toList

/-- The pieces of a text with a separator in it are those in front of the separator and those behind it. -/
theorem piecesOf_separated (sep : Char) (s t : String) :
    piecesOf sep (s ++ String.singleton sep ++ t) = piecesOf sep s ++ piecesOf sep t := by
  have hlist : (s ++ String.singleton sep ++ t).toList = s.toList ++ sep :: t.toList := by simp
  rw [piecesOf, hlist, pieces_eq_splitOn, List.splitOn_append_cons_self, List.map_append,
    ← pieces_eq_splitOn, ← pieces_eq_splitOn]
  rfl

theorem piecesOf_of_not_mem {sep : Char} {s : String} (h : sep ∉ s.toList) : piecesOf sep s = [s] := by
  rw [piecesOf, pieces_eq_splitOn, List.splitOn_eq_singleton h, List.map_singleton, String.ofList_toList]

/-- The texts with a separator between neighbours. -/
def joined (sep : String) (texts : List String) : String := String.intercalate sep texts

/-- Every occurrence of a non-empty `piece`, found from the left, written as `new`; the counter says how
many characters of an occurrence are still to be dropped. -/
def replaceFrom (piece new : List Char) : Nat → List Char → List Char
  | _, [] => []
  | n + 1, _ :: cs => replaceFrom piece new n cs
  | 0, c :: cs =>
    if piece ≠ [] ∧ piece.isPrefixOf (c :: cs) then
      new ++ replaceFrom piece new (piece.length - 1) cs
    else c :: replaceFrom piece new 0 cs

/-- Every occurrence of a non-empty `piece`, found from the left, written as `new`. -/
def replaceAll (piece new cs : List Char) : List Char := replaceFrom piece new 0 cs

end BoardAtlas.Text
