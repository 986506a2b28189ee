import BoardAtlas.Role.Map
import BoardAtlas.Number.Reading
import BoardAtlas.Text.Blank
import BoardAtlas.Text.Cut

/-!
# Showing roles

* `splitIndexed?`, `splitIndexed?_eq_some_iff`: the index and the signal of a token such as `1_RX`;
* `volts?`: a voltage such as `3V3`;
* `FormatRule.apply`: the text of one token;
* **`formatTokens`**: the texts of a role value, less the hidden ones.
-/

namespace BoardAtlas

/-- The index and the signal of a token: digits, an underscore and at least one more character. -/
def splitIndexed? (token : String) : Option (String × String) :=
  match Text.cut? '_' token.toList with
  | some (index, signal) =>
    if index ≠ [] ∧ signal ≠ [] ∧ index.all Char.isDigit then
      some (String.ofList index, String.ofList signal)
    else none
  | none => none

/-- A voltage: a whole number of volts, or the decimals after the `V`. -/
def volts? (token : String) : Option String :=
  match readNumber? (Text.trim token.toList) with
  | none => none
  | some x =>
    if x.isFinite then
      if (Binary64.integer? x).isSome then some (formatNumber x ++ "V")
      else some (String.ofList (Text.replaceAll ['.'] ['V'] (formatNumber x).toList))
    else none

/-- Every character is a digit, and there is one. -/
def isNumeral (s : String) : Bool := s ≠ "" && s.toList.all Char.isDigit

theorem isNumeral_iff {s : String} : isNumeral s = true ↔ s.toList ≠ [] ∧ ∀ c ∈ s.toList, c.isDigit = true := by
  simp [isNumeral]

/-- An indexed token is its index, an underscore and its signal, and there is one way to cut it. -/
theorem splitIndexed?_eq_some_iff {token index signal : String} : splitIndexed? token = some (index, signal) ↔
    token = index ++ "_" ++ signal ∧ isNumeral index = true ∧ signal ≠ "" := by
  rw [isNumeral_iff]
  constructor
  · intro h
    unfold splitIndexed? at h
    split at h
    · next cs ds hcut =>
      split at h
      · next hparts =>
        obtain ⟨hindex, hsignal, hdigits⟩ := hparts
        cases h
        have htoken : token.toList = cs ++ '_' :: ds := (Text.cut?_eq_some_iff.1 hcut).1
        refine ⟨String.toList_inj.1 ?_, ?_, ?_⟩
        · simp [htoken]
        · rw [String.toList_ofList]
          exact ⟨hindex, List.all_eq_true.1 hdigits⟩
        · simpa using hsignal
      · cases h
    · cases h
  · rintro ⟨rfl, ⟨hindex, hdigits⟩, hsignal⟩
    have hunderscore : '_' ∉ index.toList := fun hmem => absurd (hdigits _ hmem) (by decide)
    have hcut : Text.cut? '_' (index ++ "_" ++ signal).toList = some (index.toList, signal.toList) :=
      Text.cut?_eq_some_iff.2 ⟨by simp, hunderscore⟩
    have hparts : index.toList ≠ [] ∧ signal.toList ≠ [] ∧ index.toList.all Char.isDigit = true :=
      ⟨hindex, by simpa using hsignal, List.all_eq_true.2 hdigits⟩
    rw [splitIndexed?, hcut]
    simp only [if_pos hparts, String.ofList_toList]

/-- The text of one token, in the long or the short form. -/
def FormatRule.apply (name : String) (long : Bool) (token : String) : FormatRule → String
  | indexSwap =>
    match splitIndexed? token with
    | some (index, signal) =>
      if long then name ++ index ++ "_" ++ signal else signal ++ index
    | none => if long then name ++ "_" ++ token else token
  | nameIndex =>
    if isNumeral token then if long then name ++ "_" ++ token else name ++ token else token
  | swd => if "SW".toList.isPrefixOf token.toList then token else "SW" ++ token
  | power => (volts? token).getD token
  | verbatim => token

/-- A token of an indexed bus is hidden by its signal. -/
def FormatRule.hidesSignal (hidden : List String) (token : String) : FormatRule → Bool
  | indexSwap => match splitIndexed? token with
    | some (_, signal) => hidden.contains signal
    | none => false
  | _ => false

/-- **The texts of a role value.** The hidden names are names of roles, of signals or whole texts. -/
def formatTokens (role : RoleType) (rule : FormatRule) (value : RoleValue) (long : Bool)
    (hidden : List String) : List String :=
  if hidden.contains role.name then []
  else
    let shown := value.tokens.filter fun token => !rule.hidesSignal hidden token
    (shown.map fun token => rule.apply role.name long token).filter fun s => !hidden.contains s

end BoardAtlas
