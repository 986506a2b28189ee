import Mathlib.Algebra.BigOperators.Group.List.Basic
import Mathlib.Algebra.Ring.Int.Defs
import BoardAtlas.Formula.Reader

/-!
# Brackets of formulas

A formula closes every bracket that it opens, and each of its commas stands between arguments, so that a bracket is open
in front of it. Both are counts of characters: what a token adds to the count is what its step adds to the stack.

* `IsMark`, `openBrackets`: brackets and commas, and how many brackets characters leave open;
* `Passes`, `readNumber?_passes`: parts of a text without marks;
* `token?_word`, `tokensWithin?_openBrackets`, `tokensWithin?_comma`: the characters of tokens;
* `depth`, `State.step_depth`, `foldlM_step_depth`: the open brackets of the stack, after a token and after all;
* **`read?_openBrackets`**, **`read?_openBrackets_comma`**: a whole formula, and a formula up to a comma;
* `Calculator.Bracketed`, **`Expr.bracketed_calculator`**: the same of any calculator, and of this one;
* `evaluateText_eq_error`, `openBrackets_of_evaluateText`: the texts that such a calculator gives a value.
-/

namespace BoardAtlas.Formula

/-! ## Characters -/

/-- A bracket or a comma. -/
def IsMark (c : Char) : Prop := c = '(' ∨ c = ')' ∨ c = ','

theorem not_isMark_of {p : Char → Bool} (hp : p '(' = false ∧ p ')' = false ∧ p ',' = false)
    {c : Char} (h : p c = true) : ¬ IsMark c := by
  obtain ⟨hopen, hclose, hcomma⟩ := hp
  rintro (rfl | rfl | rfl) <;> simp_all

theorem not_isMark_of_isDigit {c : Char} (h : c.isDigit = true) : ¬ IsMark c :=
  not_isMark_of (by decide) h

/-- What a character adds to the number of open brackets. -/
def rise (c : Char) : Int := if c = '(' then 1 else if c = ')' then -1 else 0

/-- How many more brackets are opened than closed. -/
def openBrackets (cs : List Char) : Int := (cs.map rise).sum

@[simp] theorem openBrackets_nil : openBrackets [] = 0 := rfl

@[simp] theorem openBrackets_cons (c : Char) (cs : List Char) :
    openBrackets (c :: cs) = rise c + openBrackets cs := by
  simp [openBrackets]

@[simp] theorem openBrackets_append (cs ds : List Char) :
    openBrackets (cs ++ ds) = openBrackets cs + openBrackets ds := by
  simp [openBrackets]

@[simp] theorem openBrackets_reverse (cs : List Char) : openBrackets cs.reverse = openBrackets cs := by
  simp [openBrackets]

theorem rise_of_not_isMark {c : Char} (h : ¬ IsMark c) : rise c = 0 := by
  have hopen : c ≠ '(' := fun he => h (.inl he)
  have hclose : c ≠ ')' := fun he => h (.inr (.inl he))
  rw [rise, if_neg hopen, if_neg hclose]

theorem openBrackets_eq_zero {cs : List Char} (h : ∀ c ∈ cs, ¬ IsMark c) : openBrackets cs = 0 := by
  induction cs with
  | nil => rfl
  | cons c cs ih =>
    obtain ⟨hc, hcs⟩ := List.forall_mem_cons.1 h
    rw [openBrackets_cons, rise_of_not_isMark hc, ih hcs, add_zero]

/-! ## Parts without marks -/

/-- From the first text on to its end part no mark is passed. -/
def Passes (cs rest : List Char) : Prop := ∃ word, cs = word ++ rest ∧ ∀ c ∈ word, ¬ IsMark c

theorem Passes.refl (cs : List Char) : Passes cs cs := ⟨[], rfl, by simp⟩

theorem Passes.cons {c : Char} (h : ¬ IsMark c) (cs : List Char) : Passes (c :: cs) cs :=
  ⟨[c], rfl, by simpa using h⟩

theorem Passes.trans {a b c : List Char} (hab : Passes a b) (hbc : Passes b c) : Passes a c := by
  obtain ⟨u, rfl, hu⟩ := hab
  obtain ⟨v, rfl, hv⟩ := hbc
  exact ⟨u ++ v, (List.append_assoc u v c).symm, List.forall_mem_append.2 ⟨hu, hv⟩⟩

theorem Passes.not_isMark {cs : List Char} (h : Passes cs []) : ∀ c ∈ cs, ¬ IsMark c := by
  obtain ⟨word, rfl, hword⟩ := h
  rwa [List.append_nil]

theorem Passes.openBrackets {cs rest : List Char} (h : Passes cs rest) :
    ∃ word, cs = word ++ rest ∧ openBrackets word = 0 ∧ ',' ∉ word := by
  obtain ⟨word, heq, hword⟩ := h
  exact ⟨word, heq, openBrackets_eq_zero hword, fun hc => hword _ hc (.inr (.inr rfl))⟩

theorem Passes.of_not_isMark {cs : List Char} (h : ∀ c ∈ cs, ¬ IsMark c) : Passes cs [] :=
  ⟨cs, (List.append_nil cs).symm, h⟩

theorem passes_dropWhile {p : Char → Bool} (hp : ∀ c, p c = true → ¬ IsMark c) (cs : List Char) :
    Passes cs (cs.dropWhile p) :=
  ⟨cs.takeWhile p, List.takeWhile_append_dropWhile.symm,
    fun c hc => hp c (List.all_eq_true.1 List.all_takeWhile c hc)⟩

theorem openBrackets_dropWhile {p : Char → Bool} (hp : ∀ c, p c = true → ¬ IsMark c) (cs : List Char) :
    openBrackets (cs.dropWhile p) = openBrackets cs := by
  obtain ⟨word, heq, hword, -⟩ := (passes_dropWhile hp cs).openBrackets
  conv_rhs => rw [heq, openBrackets_append, hword, zero_add]

/-! ### Numbers -/

theorem digitsOf_passes (cs : List Char) : Passes cs (digitsOf cs).2 :=
  passes_dropWhile (fun _ => not_isMark_of_isDigit) cs

theorem signOf_passes (cs : List Char) : Passes cs (signOf cs).2 := by
  unfold signOf
  split
  · exact .cons (by simp [IsMark]) _
  · exact .cons (by simp [IsMark]) _
  · exact .refl _

theorem mantissa_passes (cs : List Char) : Passes cs (mantissa cs).2.2 := by
  have hwhole := digitsOf_passes cs
  unfold mantissa
  simp only
  split
  · next more hrest =>
    rw [hrest] at hwhole
    exact hwhole.trans ((Passes.cons (by simp [IsMark]) more).trans (digitsOf_passes more))
  · exact hwhole

theorem number?_passes {cs rest : List Char} {x : Float} (h : number? cs = some (x, rest)) :
    Passes cs rest := by
  have hmantissa := mantissa_passes cs
  unfold number? at h
  simp only at h
  split at h
  · next c more htail =>
    split at h
    · next he =>
      split at h
      · cases h
      · cases h
        rw [htail] at hmantissa
        have hletter : ¬ IsMark c := by rcases he with rfl | rfl <;> simp [IsMark]
        exact hmantissa.trans ((Passes.cons hletter more).trans
          ((signOf_passes more).trans (digitsOf_passes _)))
    · cases h
      exact hmantissa
  · next htail =>
    cases h
    rwa [htail] at hmantissa

theorem readExponent?_passes {cs : List Char} {n : Int} (h : readExponent? cs = some n) :
    Passes cs [] := by
  unfold readExponent? at h
  split at h
  · exact .refl _
  · next e cs =>
    simp only at h
    split at h
    · next he =>
      split at h
      · next hdigits =>
        have hletter : ¬ IsMark e := by rcases he with rfl | rfl <;> simp [IsMark]
        exact (Passes.cons hletter cs).trans ((signOf_passes cs).trans (.of_not_isMark fun c hc =>
          not_isMark_of_isDigit (List.all_eq_true.1 hdigits.2 c hc)))
      · cases h
    · cases h

theorem readDecimal?_passes {negative : Bool} {cs : List Char} {x : Float}
    (h : readDecimal? negative cs = some x) : Passes cs [] := by
  have hwhole := digitsOf_passes cs
  unfold readDecimal? at h
  simp only at h
  split at h
  · next more hrest =>
    rw [hrest] at hwhole
    have hpoint := hwhole.trans ((Passes.cons (by simp [IsMark]) more).trans (digitsOf_passes more))
    split at h
    · cases h
    · obtain ⟨n, hexponent, -⟩ := Option.map_eq_some_iff.1 h
      exact hpoint.trans (readExponent?_passes hexponent)
  · split at h
    · cases h
    · obtain ⟨n, hexponent, -⟩ := Option.map_eq_some_iff.1 h
      exact hwhole.trans (readExponent?_passes hexponent)

theorem not_isMark_of_toLower {cs : List Char} {word : String} (h : String.ofList (cs.map Char.toLower) = word)
    (hword : ∀ c ∈ word.toList, ¬ IsMark c) : ∀ c ∈ cs, ¬ IsMark c := by
  intro c hc hmark
  have hlower : c.toLower = c := by rcases hmark with rfl | rfl | rfl <;> decide
  have hmem : c.toLower ∈ word.toList := by
    rw [← h, String.toList_ofList]
    exact List.mem_map_of_mem hc
  rw [hlower] at hmem
  exact hword c hmem hmark

/-- **A plain number has no marks.** -/
theorem readNumber?_passes {cs : List Char} {x : Float} (h : readNumber? cs = some x) : Passes cs [] := by
  refine (signOf_passes cs).trans ?_
  unfold readNumber? at h
  simp only at h
  split at h
  · next hinf =>
    apply Passes.of_not_isMark
    rcases hinf with hinf | hinf
    · exact not_isMark_of_toLower hinf (by simp [IsMark])
    · exact not_isMark_of_toLower hinf (by simp [IsMark])
  · split at h
    · next hnan => exact .of_not_isMark (not_isMark_of_toLower hnan (by simp [IsMark]))
    · exact readDecimal?_passes h

/-! ## Tokens -/

/-- What a token adds to the number of open brackets. -/
def Token.rise : Token → Int
  | .call _ | .opening => 1
  | .closing => -1
  | _ => 0

theorem operator?_rise {c : Char} {t : Token} (h : operator? c = some t) : Formula.rise c = t.rise := by
  unfold operator? at h
  split at h <;> cases h <;> rfl

/-- **The characters of a token** open as many brackets as the token; a comma is a token of its own. -/
theorem token?_word {cs rest : List Char} {t : Token} (h : token? cs = some (t, rest)) :
    ∃ word, cs = word ++ rest ∧ openBrackets word = t.rise ∧ (',' ∈ word → word = [',']) := by
  unfold token? at h
  split at h
  · cases h
  · next c cs =>
    split at h
    · -- a number
      obtain ⟨⟨x, tail⟩, hnumber, heq⟩ := Option.map_eq_some_iff.1 h
      cases heq
      obtain ⟨word, heq, hopen, hcomma⟩ := (number?_passes hnumber).openBrackets
      exact ⟨word, heq, hopen, fun hc => absurd hc hcomma⟩
    · split at h
      · next hstart =>
        have hname : Passes (c :: cs) (cs.dropWhile isNamePart) :=
          (Passes.cons (not_isMark_of (by decide) hstart) cs).trans
            (passes_dropWhile (fun _ => not_isMark_of (by decide)) cs)
        simp only at h
        split at h
        · -- a call, whose bracket is the last of its characters
          next more hbracket =>
          cases h
          have hspace := passes_dropWhile (fun _ => not_isMark_of (p := isSpace) (by decide))
            (cs.dropWhile isNamePart)
          rw [hbracket] at hspace
          obtain ⟨word, heq, hopen, hcomma⟩ := (hname.trans hspace).openBrackets
          refine ⟨word ++ ['('], by rw [heq, List.append_assoc]; rfl, ?_, ?_⟩
          · rw [openBrackets_append, hopen]
            rfl
          · intro hc
            simp [hcomma] at hc
        · cases h
          obtain ⟨word, heq, hopen, hcomma⟩ := hname.openBrackets
          exact ⟨word, heq, hopen, fun hc => absurd hc hcomma⟩
      · -- a single character
        obtain ⟨t, hoperator, heq⟩ := Option.map_eq_some_iff.1 h
        cases heq
        refine ⟨[c], rfl, ?_, ?_⟩
        · rw [openBrackets_cons, operator?_rise hoperator, openBrackets_nil, add_zero]
        · intro hc
          rw [List.mem_singleton.1 hc]

theorem front_of_word {front back word rest : List Char} (hne : front ≠ [])
    (heq : front ++ ',' :: back = word ++ rest) (hcomma : ',' ∈ word → word = [',']) :
    ∃ more, front = word ++ more ∧ rest = more ++ ',' :: back := by
  rcases List.append_eq_append_iff.1 heq with ⟨more, hword, hback⟩ | ⟨more, hfront, hrest⟩
  · cases more with
    | nil => exact ⟨[], by rw [hword, List.append_nil, List.append_nil], hback.symm⟩
    | cons c more =>
      obtain ⟨rfl, -⟩ := List.cons.inj hback
      -- such a word has the comma in it and more
      have hsingle : front ++ ',' :: more = [','] := hword ▸ hcomma (by simp [hword])
      cases front with
      | nil => exact absurd rfl hne
      | cons c front => simp at hsingle
  · exact ⟨more, hfront, hrest⟩

section Tokens

variable {n : Nat} {cs : List Char} {ts : List Token}

theorem tokensWithin?_cons {c : Char} (h : tokensWithin? (n + 1) (c :: cs) = some ts) :
    ∃ word rest us vs, c :: cs = word ++ rest ∧ tokensWithin? n rest = some vs ∧ ts = us ++ vs ∧
      openBrackets word = (us.map Token.rise).sum ∧ (',' ∈ word → word = [',']) := by
  rw [tokensWithin?] at h
  split at h
  · next hspace =>
    have hblank : ¬ IsMark c := not_isMark_of (by decide) hspace
    have hopen : openBrackets [c] = 0 := openBrackets_eq_zero (by simpa using hblank)
    exact ⟨[c], cs, [], ts, rfl, h, rfl, hopen, fun hc => by rw [List.mem_singleton.1 hc]⟩
  · obtain ⟨⟨t, rest⟩, htoken, hrest⟩ := Option.bind_eq_some_iff.1 h
    obtain ⟨vs, hvs, rfl⟩ := Option.map_eq_some_iff.1 hrest
    obtain ⟨word, heq, hopen, hcomma⟩ := token?_word htoken
    exact ⟨word, rest, [t], vs, heq, hvs, rfl, by simpa using hopen, hcomma⟩

/-- The tokens of a text open as many brackets as its characters. -/
theorem tokensWithin?_openBrackets (h : tokensWithin? n cs = some ts) :
    openBrackets cs = (ts.map Token.rise).sum := by
  induction n generalizing cs ts with
  | zero =>
    cases cs with
    | nil => cases h; rfl
    | cons c cs => cases h
  | succ n ih =>
    cases cs with
    | nil => cases h; rfl
    | cons c cs =>
      obtain ⟨word, rest, us, vs, heq, hvs, rfl, hopen, -⟩ := tokensWithin?_cons h
      rw [heq, openBrackets_append, hopen, ih hvs, List.map_append, List.sum_append]

/-- **The tokens in front of a comma** open as many brackets as the characters in front of it. -/
theorem tokensWithin?_comma {front back : List Char} (h : tokensWithin? n (front ++ ',' :: back) = some ts) :
    ∃ us vs, ts = us ++ .comma :: vs ∧ openBrackets front = (us.map Token.rise).sum := by
  induction n generalizing front ts with
  | zero => cases front <;> cases h
  | succ n ih =>
    cases front with
    | nil =>
      obtain ⟨vs, -, rfl⟩ := Option.map_eq_some_iff.1 h
      exact ⟨[], vs, rfl, rfl⟩
    | cons c front =>
      obtain ⟨word, rest, us, vs, heq, hvs, rfl, hopen, hcomma⟩ := tokensWithin?_cons h
      obtain ⟨more, hfront, rfl⟩ := front_of_word (List.cons_ne_nil c front) heq hcomma
      obtain ⟨us', vs, rfl, hmore⟩ := ih hvs
      refine ⟨us ++ us', vs, (List.append_assoc us us' _).symm, ?_⟩
      rw [hfront, openBrackets_append, hopen, hmore, List.map_append, List.sum_append]

end Tokens

/-! ## The stack -/

/-- The open brackets that wait on the stack. -/
def depth (waiting : List Waiting) : Nat := waiting.countP fun w => w.strength = 0

@[simp] theorem depth_nil : depth [] = 0 := rfl

section Depth

variable (ws : List Waiting)

@[simp] theorem depth_sign (negative : Bool) : depth (.sign negative :: ws) = depth ws :=
  List.countP_cons_of_neg Bool.false_ne_true

@[simp] theorem depth_binary (op : Expr.Op) : depth (.binary op :: ws) = depth ws := by
  apply List.countP_cons_of_neg
  cases op <;> exact Bool.false_ne_true

@[simp] theorem depth_bracket : depth (.bracket :: ws) = depth ws + 1 := List.countP_cons_of_pos rfl

@[simp] theorem depth_call (function : String) (arguments : List Expr) :
    depth (.call function arguments :: ws) = depth ws + 1 :=
  List.countP_cons_of_pos rfl

end Depth

theorem reduce_depth {level : Nat} {ws ws' : List Waiting} {es es' : List Expr}
    (h : reduce level ws es = some (ws', es')) : depth ws' = depth ws := by
  induction ws generalizing es with
  | nil => cases h; rfl
  | cons w ws ih =>
    rw [reduce] at h
    split at h
    · next hstrength =>
      obtain ⟨fs, -, hrest⟩ := Option.bind_eq_some_iff.1 h
      rw [ih hrest, depth, depth, List.countP_cons_of_neg (by simpa using hstrength.1)]
    · cases h
      rfl

section Steps

variable {s s' : State} {t : Token}

theorem State.operand_depth (h : s.operand t = some s') :
    (depth s'.waiting : Int) = depth s.waiting + t.rise ∧ t ≠ .comma := by
  unfold State.operand at h
  split at h <;> cases h <;> simp [Token.rise]

theorem State.operator_depth (h : s.operator t = some s') :
    (depth s'.waiting : Int) = depth s.waiting + t.rise ∧ (t = .comma → 0 < depth s.waiting) := by
  cases t with
  | op op =>
    obtain ⟨⟨ws, es⟩, hreduce, rfl⟩ := Option.map_eq_some_iff.1 h
    rw [← reduce_depth hreduce]
    simp [Token.rise]
  | closing =>
    obtain ⟨⟨ws, es⟩, hreduce, hclose⟩ := Option.bind_eq_some_iff.1 h
    rw [← reduce_depth hreduce]
    split at hclose
    all_goals cases hclose
    all_goals next heq => cases heq; simp [Token.rise]
  | comma =>
    obtain ⟨⟨ws, es⟩, hreduce, hnext⟩ := Option.bind_eq_some_iff.1 h
    rw [← reduce_depth hreduce]
    split at hnext
    · next heq => cases heq; cases hnext; simp [Token.rise]
    · cases hnext
  | num _ | name _ | call _ | opening => cases h

/-- **One token** adds to the open brackets of the stack what it adds to those of the text. -/
theorem State.step_depth (h : s.step t = some s') :
    (depth s'.waiting : Int) = depth s.waiting + t.rise ∧ (t = .comma → 0 < depth s.waiting) := by
  unfold State.step at h
  split at h
  · obtain ⟨hdepth, hcomma⟩ := State.operand_depth h
    exact ⟨hdepth, fun ht => absurd ht hcomma⟩
  · exact State.operator_depth h

/-- **All tokens**, by induction on them. -/
theorem foldlM_step_depth {ts : List Token} (h : ts.foldlM State.step s = some s') :
    (depth s'.waiting : Int) = depth s.waiting + (ts.map Token.rise).sum := by
  induction ts generalizing s with
  | nil => cases h; simp
  | cons t ts ih =>
    obtain ⟨s₁, hstep, hrest⟩ := Option.bind_eq_some_iff.1 h
    rw [ih hrest, (State.step_depth hstep).1, List.map_cons, List.sum_cons, add_assoc]

theorem State.result?_depth {e : Expr} (h : s.result? = some e) : depth s.waiting = 0 := by
  unfold State.result? at h
  split at h
  · cases h
  · split at h
    · next hreduce => rw [← reduce_depth hreduce]; rfl
    · cases h

end Steps

/-! ## Formulas -/

/-- **A formula closes every bracket that it opens.** -/
theorem read?_openBrackets {cs : List Char} {e : Expr} (h : Expr.read? cs = some e) : openBrackets cs = 0 := by
  obtain ⟨s, hrun, hresult⟩ := Option.bind_eq_some_iff.1 h
  obtain ⟨ts, htokens, hsteps⟩ := Option.bind_eq_some_iff.1 hrun
  have hdepth := foldlM_step_depth hsteps
  rw [State.result?_depth hresult] at hdepth
  rw [tokensWithin?_openBrackets htokens]
  simpa [State.start] using hdepth.symm

/-- **Each comma of a formula stands within a bracket** that is opened in front of it and not closed there. -/
theorem read?_openBrackets_comma {front back : List Char} {e : Expr}
    (h : Expr.read? (front ++ ',' :: back) = some e) : 0 < openBrackets front := by
  obtain ⟨s, hrun, -⟩ := Option.bind_eq_some_iff.1 h
  obtain ⟨ts, htokens, hsteps⟩ := Option.bind_eq_some_iff.1 hrun
  obtain ⟨us, vs, rfl, hopen⟩ := tokensWithin?_comma htokens
  rw [List.foldlM_append] at hsteps
  obtain ⟨s₁, hfront, hcomma⟩ := Option.bind_eq_some_iff.1 hsteps
  obtain ⟨s₂, hstep, -⟩ := Option.bind_eq_some_iff.1 hcomma
  have hpos := (State.step_depth hstep).2 rfl
  have hdepth := foldlM_step_depth hfront
  rw [hopen]
  change (depth s₁.waiting : Int) = 0 + _ at hdepth
  omega

end BoardAtlas.Formula

namespace BoardAtlas

open Formula

/-! ## Calculators -/

/-- The formulas of a calculator close every bracket that they open, and have commas within brackets only. -/
structure Calculator.Bracketed [Calculator] : Prop where
  balanced : ∀ {text v}, evaluate? text = some v → openBrackets text.toList = 0
  comma : ∀ {text v front back}, evaluate? text = some v → text.toList = front ++ ',' :: back →
    0 < openBrackets front

theorem Expr.bracketed_calculator : @Calculator.Bracketed Expr.calculator := by
  refine @Calculator.Bracketed.mk Expr.calculator (fun h => ?_) fun h htext => ?_
  · obtain ⟨e, he, -⟩ := Option.map_eq_some_iff.1 h
    exact read?_openBrackets he
  · obtain ⟨e, he, -⟩ := Option.map_eq_some_iff.1 h
    rw [htext] at he
    exact read?_openBrackets_comma he

end BoardAtlas

namespace BoardAtlas.Formula

/-! ## Texts -/

theorem openBrackets_withZeros (afterDigit : Bool) (cs : List Char) :
    openBrackets (withZeros afterDigit cs) = openBrackets cs := by
  induction cs generalizing afterDigit with
  | nil => rfl
  | cons c cs ih =>
    have hzero : rise '0' = 0 := rfl
    rw [withZeros]
    split <;> simp [ih, hzero]

theorem withZeros_append (afterDigit : Bool) (cs ds : List Char) :
    ∃ b, withZeros afterDigit (cs ++ ds) = withZeros afterDigit cs ++ withZeros b ds := by
  induction cs generalizing afterDigit with
  | nil => exact ⟨afterDigit, rfl⟩
  | cons c cs ih =>
    obtain ⟨b, hb⟩ := ih c.isDigit
    refine ⟨b, ?_⟩
    rw [List.cons_append, withZeros, withZeros, hb]
    split <;> rfl

theorem not_isMark_of_isBlank {c : Char} (h : Text.isBlank c = true) : ¬ IsMark c :=
  not_isMark_of (by decide) h

theorem openBrackets_trim (cs : List Char) : openBrackets (Text.trim cs) = openBrackets cs := by
  rw [Text.trim, openBrackets_reverse, openBrackets_dropWhile fun _ => not_isMark_of_isBlank,
    openBrackets_reverse, openBrackets_dropWhile fun _ => not_isMark_of_isBlank]

theorem dropWhile_isBlank_comma (front back : List Char) :
    (front ++ ',' :: back).dropWhile Text.isBlank = front.dropWhile Text.isBlank ++ ',' :: back := by
  induction front with
  | nil => rfl
  | cons c front ih =>
    rw [List.cons_append, List.dropWhile_cons, List.dropWhile_cons, ih]
    split <;> rfl

theorem trim_comma (front back : List Char) :
    ∃ rest, Text.trim (front ++ ',' :: back) = front.dropWhile Text.isBlank ++ ',' :: rest := by
  refine ⟨(back.reverse.dropWhile Text.isBlank).reverse, ?_⟩
  rw [Text.trim, dropWhile_isBlank_comma, List.reverse_append, List.reverse_cons, List.append_assoc,
    List.singleton_append, dropWhile_isBlank_comma]
  simp

section Texts

variable [Calculator] {key text : String}

/-- A text that opens more or fewer brackets than it closes is no formula. -/
theorem evaluateText_eq_error (hc : Calculator.Bracketed) (h : openBrackets text.toList ≠ 0) :
    evaluateText key text = .error (.invalidFormula key text) := by
  have hnumber : readNumber? (Text.trim text.toList) = none := by
    by_contra hsome
    obtain ⟨x, hx⟩ := Option.ne_none_iff_exists'.1 hsome
    apply h
    rw [← openBrackets_trim, openBrackets_eq_zero (readNumber?_passes hx).not_isMark]
  have hformula :
      Calculator.evaluate? (String.ofList (withZeros false (Text.trim text.toList))) = none := by
    by_contra hsome
    obtain ⟨v, hv⟩ := Option.ne_none_iff_exists'.1 hsome
    have hbalanced := hc.balanced hv
    rw [String.toList_ofList, openBrackets_withZeros, openBrackets_trim] at hbalanced
    exact h hbalanced
  rw [evaluateText]
  simp only [hnumber, hformula]

/-- In front of each comma of a numeric field more brackets are opened than closed. -/
theorem openBrackets_of_evaluateText (hc : Calculator.Bracketed) {front back : List Char}
    (h : evaluateText key text ≠ .error (.invalidFormula key text))
    (htext : text.toList = front ++ ',' :: back) : 0 < openBrackets front := by
  obtain ⟨rest, htrim⟩ := trim_comma front back
  rw [evaluateText, htext, htrim] at h
  split at h
  · next x hnumber =>
    exact absurd (.inr (.inr rfl)) ((readNumber?_passes hnumber).not_isMark ',' (by simp))
  · split at h
    · exact absurd rfl h
    · next v hformula =>
      obtain ⟨b, happend⟩ := withZeros_append false (front.dropWhile Text.isBlank) (',' :: rest)
      have hopen := hc.comma hformula (by rw [String.toList_ofList, happend]; rfl)
      rwa [openBrackets_withZeros, openBrackets_dropWhile fun _ => not_isMark_of_isBlank] at hopen

end Texts

end BoardAtlas.Formula
