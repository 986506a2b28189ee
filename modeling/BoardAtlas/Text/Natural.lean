/-!
# Natural order of texts

Texts are cut into runs of digits and runs of other characters. Digit runs compare by the number they
write, so that `D2` comes before `D10`; of two spellings of one number the shorter comes first.

* `Run`, `runs`: the runs of a text;
* `compareRuns`, **`naturalCompare`**: the order;
* `naturalSort`, `naturalSortBy`: stable sorting by it.
-/

namespace BoardAtlas.Text

/-- A run of digits or of other characters. -/
inductive Run where
  | digits (cs : List Char)
  | other (cs : List Char)
  deriving DecidableEq, Repr

/-- The run of one character. -/
def Run.single (c : Char) : Run := if c.isDigit then .digits [c] else .other [c]

/-- The runs of a text whose first character and the rest are given. -/
def runs : List Char → List Run
  | [] => []
  | c :: cs =>
    match runs cs, c.isDigit with
    | .digits ds :: rest, true => .digits (c :: ds) :: rest
    | .other os :: rest, false => .other (c :: os) :: rest
    | rest, _ => Run.single c :: rest

/-- The order of characters, one after the other; an end comes first. -/
def compareChars : List Char → List Char → Ordering
  | [], [] => .eq
  | [], _ :: _ => .lt
  | _ :: _, [] => .gt
  | a :: as, b :: bs => (compare a.toNat b.toNat).then (compareChars as bs)

/-- The order of digit runs: without leading zeros the longer is greater, then digit by digit, and equal
numbers by the number of zeros. -/
def compareDigits (as bs : List Char) : Ordering :=
  let as' := as.dropWhile (· = '0')
  let bs' := bs.dropWhile (· = '0')
  ((compare as'.length bs'.length).then (compareChars as' bs')).then (compare as.length bs.length)

/-- The order of runs; digits come before other characters. -/
def Run.compare : Run → Run → Ordering
  | .digits as, .digits bs => compareDigits as bs
  | .other as, .other bs => compareChars as bs
  | .digits _, .other _ => .lt
  | .other _, .digits _ => .gt

/-- The order of lists of runs: the first difference decides, an end comes first. -/
def compareRuns : List Run → List Run → Ordering
  | [], [] => .eq
  | [], _ :: _ => .lt
  | _ :: _, [] => .gt
  | r :: rs, s :: ss => (r.compare s).then (compareRuns rs ss)

/-- **The natural order of texts.** -/
def naturalCompare (a b : String) : Ordering := compareRuns (runs a.toList) (runs b.toList)

/-- Stable sorting by the natural order of a key. -/
def naturalSortBy {α : Type} (key : α → String) (items : List α) : List α :=
  items.mergeSort fun a b => naturalCompare (key a) (key b) != .gt

/-- Stable sorting by the natural order. -/
def naturalSort (items : List String) : List String := naturalSortBy id items

end BoardAtlas.Text
