import BoardAtlas.Role.Registry
import Mathlib.Data.List.Basic

/-!
# Hidden names

Names can hide a token in three ways: by its role, by its signal on an indexed bus, or by the text that it is shown as.
Whatever the rule, a value is shown as the texts of its tokens that are not hidden, so that more names leave fewer
texts and never change one.

* `HidesToken`, `HidesToken.mono`: what hides a token;
* `formatTokens_of_mem`, `formatTokens_eq_map_filter`: the texts of a value, token by token;
* **`formatTokens_hidden`**: what hiding does to the texts of a value.
-/

namespace BoardAtlas

/-- What hides a token. -/
inductive HidesToken (role : RoleType) (rule : FormatRule) (long : Bool) (hidden : List String) (token : String) : Prop
  /-- The role is hidden with all its tokens. -/
  | role (h : role.name ∈ hidden)
  /-- The signal of an indexed bus is hidden, before the token gets its text. -/
  | signal {index signal : String} (hrule : rule = .indexSwap) (hsplit : splitIndexed? token = some (index, signal))
      (h : signal ∈ hidden)
  /-- The text of the token is hidden. -/
  | text (h : rule.apply role.name long token ∈ hidden)

variable {role : RoleType} {rule : FormatRule} {long : Bool} {hidden more : List String} {token : String}

theorem hidesSignal_eq_true_iff : rule.hidesSignal hidden token = true ↔
    rule = .indexSwap ∧ ∃ index signal, splitIndexed? token = some (index, signal) ∧ signal ∈ hidden := by
  cases rule with
  | indexSwap =>
    rw [FormatRule.hidesSignal]
    cases splitIndexed? token with
    | none => simp
    | some parts =>
      obtain ⟨index, signal⟩ := parts
      simp
  | _ => simp [FormatRule.hidesSignal]

theorem hidesToken_iff : HidesToken role rule long hidden token ↔
    role.name ∈ hidden ∨ rule.hidesSignal hidden token = true ∨ rule.apply role.name long token ∈ hidden := by
  rw [hidesSignal_eq_true_iff]
  constructor
  · rintro (h | ⟨hrule, hsplit, h⟩ | h)
    · exact .inl h
    · exact .inr (.inl ⟨hrule, _, _, hsplit, h⟩)
    · exact .inr (.inr h)
  · rintro (h | ⟨hrule, index, signal, hsplit, h⟩ | h)
    · exact .role h
    · exact .signal hrule hsplit h
    · exact .text h

instance : Decidable (HidesToken role rule long hidden token) := decidable_of_iff _ hidesToken_iff.symm

theorem HidesToken.mono (hsub : hidden ⊆ more) (h : HidesToken role rule long hidden token) :
    HidesToken role rule long more token := by
  cases h with
  | role h => exact .role (hsub h)
  | signal hrule hsplit h => exact .signal hrule hsplit (hsub h)
  | text h => exact .text (hsub h)

theorem not_hidesToken_nil : ¬ HidesToken role rule long [] token := by
  rintro (h | ⟨-, -, h⟩ | h) <;> cases h

theorem formatTokens_of_mem (h : role.name ∈ hidden) (value : RoleValue) :
    formatTokens role rule value long hidden = [] := by
  rw [formatTokens, if_pos (List.contains_iff_mem.2 h)]

/-- **A value is shown as the texts of its tokens that are not hidden.** -/
theorem formatTokens_eq_map_filter (role : RoleType) (rule : FormatRule) (value : RoleValue) (long : Bool)
    (hidden : List String) :
    formatTokens role rule value long hidden =
      (value.tokens.filter fun token => ¬ HidesToken role rule long hidden token).map fun token =>
        rule.apply role.name long token := by
  by_cases hrole : role.name ∈ hidden
  · -- Every token is hidden with its role.
    have hall : ∀ token ∈ value.tokens, ¬ (decide (¬ HidesToken role rule long hidden token)) = true := by
      intro token _
      simpa using HidesToken.role hrole
    rw [formatTokens_of_mem hrole, List.filter_eq_nil_iff.2 hall, List.map_nil]
  · rw [formatTokens, if_neg (by simpa using hrole)]
    dsimp only
    rw [List.filter_map, List.filter_filter]
    refine congrArg (List.map _) (List.filter_congr fun token _ => ?_)
    rw [Bool.eq_iff_iff]
    simp [hidesToken_iff, hrole, and_comm]

/-- **Hiding only removes texts.** A value is shown as the texts of its tokens less those hidden by their role, their
signal or their text: with more names the texts are some of those from before, in the same order, and only the set of
names matters. -/
theorem formatTokens_hidden (role : RoleType) (rule : FormatRule) (value : RoleValue) (long : Bool) :
    (∀ hidden, formatTokens role rule value long hidden =
      (value.tokens.filter fun token => ¬ HidesToken role rule long hidden token).map fun token =>
        rule.apply role.name long token) ∧
    formatTokens role rule value long [] = value.tokens.map (fun token => rule.apply role.name long token) ∧
    (∀ hidden more, hidden ⊆ more →
      (formatTokens role rule value long more).Sublist (formatTokens role rule value long hidden)) ∧
    (∀ hidden, ∀ text ∈ formatTokens role rule value long hidden, text ∉ hidden) ∧
    (∀ hidden names, (∀ name, name ∈ hidden ↔ name ∈ names) →
      formatTokens role rule value long hidden = formatTokens role rule value long names) ∧
    ∀ hidden, role.name ∈ hidden → formatTokens role rule value long hidden = [] := by
  have hshown (hidden : List String) := formatTokens_eq_map_filter role rule value long hidden
  have hsub (hidden more : List String) (h : hidden ⊆ more) :
      (formatTokens role rule value long more).Sublist (formatTokens role rule value long hidden) := by
    rw [hshown, hshown]
    refine (List.monotone_filter_right _ fun token ht => ?_).map _
    rw [decide_eq_true_iff] at ht ⊢
    exact mt (HidesToken.mono h) ht
  refine ⟨hshown, ?none, hsub, ?text, ?set, fun hidden h => formatTokens_of_mem h value⟩
  case none =>
    rw [hshown, List.filter_eq_self.2 fun token _ => decide_eq_true not_hidesToken_nil]
  case text =>
    intro hidden text htext hmem
    rw [hshown] at htext
    obtain ⟨token, htoken, rfl⟩ := List.mem_map.1 htext
    exact of_decide_eq_true (List.mem_filter.1 htoken).2 (.text hmem)
  case set =>
    -- Each of the two lists of names has all names of the other.
    intro hidden names h
    exact (hsub names hidden fun name => (h name).2).antisymm (hsub hidden names fun name => (h name).1)

theorem formatTokens_hidden_serialPin :
    let value : RoleValue := .list ["0_TX", "0_CTS", "1_RX"]
    formatTokens .uart .indexSwap value false ["CTS"] = ["TX0", "RX1"] ∧
      ["CTS"] ⊆ ["TX0", "CTS", "CTS"] ∧
      (formatTokens .uart .indexSwap value false ["TX0", "CTS", "CTS"]).Sublist ["TX0", "RX1"] ∧
      "TX0" ∉ formatTokens .uart .indexSwap value false ["TX0", "CTS", "CTS"] ∧
      formatTokens .uart .indexSwap value false ["TX0", "CTS", "CTS"] =
        formatTokens .uart .indexSwap value false ["CTS", "TX0"] ∧
      formatTokens .uart .indexSwap value false ["UART"] = [] := by
  intro value
  obtain ⟨-, -, hsub, htext, hset, hrole⟩ := formatTokens_hidden .uart .indexSwap value false
  have hshown : formatTokens .uart .indexSwap value false ["CTS"] = ["TX0", "RX1"] := by decide +kernel
  have hmore : ["CTS"] ⊆ ["TX0", "CTS", "CTS"] := by decide
  refine ⟨hshown, hmore, hshown ▸ hsub _ _ hmore, fun h => htext _ _ h (by decide), hset _ _ fun name => ?_,
    hrole _ (by decide)⟩
  simp [or_comm]

end BoardAtlas
