import BoardAtlas.Formula.Reader
import BoardAtlas.Proofs.Shape.Built
import BoardAtlas.Proofs.Shape.Depth

/-!
# Turns of includes

An include builds the entries of a list once for every turn, in the order of turns and of entries, and the first one
that fails decides. Every turn writes its number and the number of all turns over the variables of the include, also
if there is one turn only.

* `Scope.entry`, `Shape.placed`: the scope of an entry, and a shape at its place;
* `result_buildFrom`, `result_buildTurns`, `result_buildChildren`: lists, turns and includes as lists of results;
* `get?_turnVars`, `turnVars_eq_self_iff`: the variables of one turn;
* **`ShapeBuilder.include_turns`**: the children of an include;
* **`ShapeBuilder.unfinished_of_chain`**: includes without end, each the first entry of the one around it;
* **`ShapeBuilder.single_turn_vars`**: the variables of an include that does not repeat;
* `ShapeBuilder.unfinished_loop`: a list that includes itself.
-/

namespace BoardAtlas

open Loading

variable {α : Type} [Coordinate α]

/-! ## Lists of results -/

/-- A shape moved by an offset; one that is zero leaves it as it is. -/
def Shape.placed (offset : Vec α) (s : Shape α) : Shape α := if offset.isZero then s else s.moveBy offset

mutual

/-- The texts of a shape, in the order of the tree. -/
def Shape.texts : Shape α → List String
  | .rect .. => []
  | .circle .. => []
  | .text _ s _ _ => [s]
  | .group _ _ _ _ children => Shape.textsOf children

/-- The texts of shapes, one after another. -/
def Shape.textsOf : List (Shape α) → List String
  | [] => []
  | s :: rest => Shape.texts s ++ Shape.textsOf rest

end

/-- The scope of an entry of a list. -/
def Scope.entry (scope : Scope) (j : Nat) : Scope :=
  { scope with path := scope.path ++ "[" ++ toString j ++ "]" }

theorem result_buildFrom (build : BuildOne α) (scope : Scope) (offset : Vec α) (k : Nat)
    (items : List Value) :
    (buildFrom build scope offset k items).result = (items.zipIdx k).mapM fun (data, j) =>
      (build (scope.entry j) data).result.map (Shape.placed offset) := by
  induction items generalizing k with
  | nil => rfl
  | cons data rest ih =>
    rw [buildFrom, List.zipIdx_cons, List.mapM_cons, result_bind]
    simp only [result_bind, ih]
    change (build (scope.entry k) data).result >>= _ = _
    cases (build (scope.entry k) data).result with
    | error e => rfl
    | ok s => rfl

theorem result_buildNamed {lib : Library} {build : BuildOne α} {scope : Scope} {name : String}
    {items : List Value} (h : lib.manifest? .shape name = .ok (.list items)) (offset : Vec α) :
    (buildNamed lib build scope name offset).result = items.zipIdx.mapM fun (data, j) =>
      (build (Scope.entry { scope with path := scope.path ++ "/" ++ name } j) data).result.map
        (Shape.placed offset) := by
  rw [buildNamed, result_bind, result_mapError, Library.result_manifest, h]
  exact result_buildFrom build _ offset 0 items

omit [Coordinate α] in
theorem result_buildTurns (turn : Nat → Loading (Stop ShapeError) (List (Shape α))) (i n : Nat) :
    (buildTurns turn i n).result =
      ((List.range' i n).mapM fun i => (turn i).result).map List.flatten := by
  induction n generalizing i with
  | zero => rfl
  | succ n ih =>
    rw [buildTurns, List.range'_succ, List.mapM_cons, result_bind]
    simp only [result_bind, ih]
    cases (turn i).result with
    | error e => rfl
    | ok first =>
      cases (List.range' (i + 1) n).mapM fun i => (turn i).result with
      | error e => rfl
      | ok more => rfl

/-- The scope of an entry of an included list in one turn. -/
def entryScope (vars : Vars) (path : String) (frame : Frame α) (name : String) (count i j : Nat) : Scope :=
  Scope.entry ⟨some (frame.id?.getD name), turnVars vars count i, path ++ "/" ++ name⟩ j

section Children

variable {lib : Library} {build : BuildOne α} {vars : Vars} {path name : String} {frame : Frame α}
  {count : Nat} {items : List Value}

theorem result_buildChildren (h : lib.manifest? .shape name = .ok (.list items)) :
    (buildChildren lib build vars path frame name count).result =
      ((List.range count).mapM fun i => items.zipIdx.mapM fun (data, j) =>
        (build (entryScope vars path frame name count i j) data).result.map
          (Shape.placed frame.pos)).map List.flatten := by
  rw [buildChildren, result_buildTurns, ← List.range_eq_range']
  simp only [result_buildNamed h]
  rfl

omit [Coordinate α] in
theorem getElem?_flatten_of_length {ls : List (List (Shape α))} {m : Nat} (h : ∀ l ∈ ls, l.length = m) :
    ls.flatten.length = ls.length * m ∧ ∀ (i j : Nat) (l : List (Shape α)), ls[i]? = some l → j < m →
      ls.flatten[i * m + j]? = l[j]? := by
  induction ls with
  | nil => simp
  | cons first ls ih =>
    obtain ⟨hfirst, hrest⟩ := List.forall_mem_cons.1 h
    obtain ⟨hlength, hget⟩ := ih hrest
    rw [List.flatten_cons, List.length_append, hlength, hfirst]
    refine ⟨by rw [List.length_cons, Nat.add_one_mul, Nat.add_comm], fun i j l hl hj => ?_⟩
    cases i with
    | zero =>
      cases hl
      rw [Nat.zero_mul, Nat.zero_add, List.getElem?_append_left (hfirst.symm ▸ hj)]
    | succ i =>
      have hindex : (i + 1) * m + j = first.length + (i * m + j) := by rw [hfirst, Nat.add_one_mul]; omega
      rw [hindex, List.getElem?_append_right (Nat.le_add_right _ _), Nat.add_sub_cancel_left]
      exact hget i j l hl hj

theorem getElem?_buildChildren (h : lib.manifest? .shape name = .ok (.list items))
    {children : List (Shape α)}
    (hc : (buildChildren lib build vars path frame name count).result = .ok children) :
    children.length = count * items.length ∧ ∀ i < count, ∀ j data, items[j]? = some data →
      ∃ t, (build (entryScope vars path frame name count i j) data).result = .ok t ∧
        children[i * items.length + j]? = some (t.placed frame.pos) := by
  rw [result_buildChildren h, Except.map_eq_ok] at hc
  obtain ⟨turns, hturns, rfl⟩ := hc
  obtain ⟨hlength, hget⟩ := Except.getElem?_of_mapM hturns
  have hrows : ∀ row ∈ turns, row.length = items.length := by
    refine Except.forall_mem_of_mapM (fun i row hrow => ?_) hturns
    rw [(Except.getElem?_of_mapM hrow).1, List.length_zipIdx]
  obtain ⟨hall, hplace⟩ := getElem?_flatten_of_length hrows
  rw [List.length_range] at hlength
  refine ⟨by rw [hall, hlength], fun i hi j data hdata => ?_⟩
  obtain ⟨row, hrow, hentries⟩ := hget i i (by simp [hi])
  obtain ⟨s, hs, hstep⟩ := (Except.getElem?_of_mapM hentries).2 j (data, j) (by simp [hdata])
  obtain ⟨t, ht, rfl⟩ := Except.map_eq_ok.1 hstep
  have hj : j < items.length := (List.getElem?_eq_some_iff.1 hdata).1
  exact ⟨t, ht, (hplace i j row hrow hj).trans hs⟩

theorem buildChildren_eq_error (h : lib.manifest? .shape name = .ok (.list items)) {i j : Nat} {data : Value}
    {e : Stop ShapeError} (hi : i < count) (hdata : items[j]? = some data)
    (he : (build (entryScope vars path frame name count i j) data).result = .error e)
    (hbefore : ∀ i' j' data', i' < i ∨ i' = i ∧ j' < j → items[j']? = some data' →
      ∃ t, (build (entryScope vars path frame name count i' j') data').result = .ok t) :
    (buildChildren lib build vars path frame name count).result = .error e := by
  rw [result_buildChildren h]
  have hstep {i' j' : Nat} {data' : Value} {t : Shape α}
      (ht : (build (entryScope vars path frame name count i' j') data').result = .ok t) :
      ∃ s, (build (entryScope vars path frame name count i' j') data').result.map (Shape.placed frame.pos) =
        .ok s := ⟨_, Except.map_eq_ok.2 ⟨t, ht, rfl⟩⟩
  rw [Except.mapM_eq_error (k := i) (a := i) (e := e) (by simp [hi]) ?_ ?_]
  · rfl
  · refine Except.mapM_eq_error (k := j) (a := (data, j)) (by simp [hdata])
      (congrArg (Except.map (Shape.placed frame.pos)) he) ?_
    intro j' hj' entry hentry
    obtain ⟨data', hdata', rfl⟩ : ∃ data', items[j']? = some data' ∧ (data', j') = entry := by
      simpa using hentry
    obtain ⟨t, ht⟩ := hbefore i j' data' (.inr ⟨rfl, hj'⟩) hdata'
    exact hstep ht
  · intro i' hi' _ hturn
    rw [List.getElem?_range (Nat.lt_trans hi' hi)] at hturn
    cases hturn
    refine Except.exists_mapM_eq_ok_iff.2 fun entry hentry => ?_
    obtain ⟨data', j'⟩ := entry
    obtain ⟨t, ht⟩ := hbefore i' j' data' (.inl hi') (List.mem_zipIdx_iff_getElem?.1 hentry)
    exact hstep ht

theorem exists_buildChildren_eq_ok (h : lib.manifest? .shape name = .ok (.list items))
    (hall : ∀ i < count, ∀ j data, items[j]? = some data →
      ∃ t, (build (entryScope vars path frame name count i j) data).result = .ok t) :
    ∃ children, (buildChildren lib build vars path frame name count).result = .ok children := by
  have hturns : ∀ i ∈ List.range count, ∃ row, (items.zipIdx.mapM fun (data, j) =>
      (build (entryScope vars path frame name count i j) data).result.map (Shape.placed frame.pos)) =
        .ok row := by
    intro i hi
    refine Except.exists_mapM_eq_ok_iff.2 fun (data, j) hentry => ?_
    obtain ⟨t, ht⟩ := hall i (List.mem_range.1 hi) j data (List.mem_zipIdx_iff_getElem?.1 hentry)
    exact ⟨_, Except.map_eq_ok.2 ⟨t, ht, rfl⟩⟩
  obtain ⟨turns, hturns⟩ := Except.exists_mapM_eq_ok_iff.2 hturns
  exact ⟨turns.flatten, by rw [result_buildChildren h, hturns]; rfl⟩

theorem manifest?_of_buildChildren (hcount : 0 < count) {children : List (Shape α)}
    (hc : (buildChildren lib build vars path frame name count).result = .ok children) :
    ∃ items, lib.manifest? .shape name = .ok (.list items) := by
  obtain ⟨n, rfl⟩ : ∃ n, count = n + 1 := ⟨count - 1, by omega⟩
  rw [buildChildren, buildTurns, result_bind, Except.bind_eq_ok] at hc
  obtain ⟨first, hfirst, -⟩ := hc
  rw [BoardAtlas.buildNamed, result_bind, result_mapError, Library.result_manifest, Except.bind_eq_ok] at hfirst
  obtain ⟨v, hv, hfirst⟩ := hfirst
  cases v with
  | list items => exact ⟨items, Except.mapError_eq_ok.1 hv⟩
  | _ => cases hfirst

end Children

/-! ## Variables of turns -/

/-- **A look-up in one turn** finds its number, the number of all turns, or what the include has. -/
theorem get?_turnVars (vars : Vars) (count i : Nat) (key : String) :
    (turnVars vars count i).get? key =
      if key = "I" then some (.num (Binary64.ofNat i))
      else if key = "J" then some (.num (Binary64.ofNat count))
      else vars.get? key := by
  rw [turnVars, Dict.get?_insert, Dict.get?_insert]
  simp only [eq_comm (a := key)]

/-- A turn leaves the variables as they are only if they have its numbers already. -/
theorem turnVars_eq_self_iff {vars : Vars} {count i : Nat} :
    turnVars vars count i = vars ↔
      vars.get? "I" = some (.num (Binary64.ofNat i)) ∧ vars.get? "J" = some (.num (Binary64.ofNat count)) := by
  constructor
  · intro h
    rw [← h, get?_turnVars, get?_turnVars, if_pos rfl, if_neg (by decide), if_pos rfl]
    exact ⟨rfl, rfl⟩
  · rintro ⟨hi, hj⟩
    rw [turnVars, Dict.insert_eq_self hj, Dict.insert_eq_self hi]

/-! ## Includes and turns -/

namespace ShapeBuilder

section Turns

variable [Calculator] {b : ShapeBuilder} {depth : Nat} {scope : Scope} {data : Value} {f : Fragment} {frame : Frame α}
  {name : String} {count : Nat}

theorem buildWithin_include (hf : Fragment.resolve b.presets scope data = .ok f) (hi : f.Includes frame name count) :
    (b.buildWithin (depth + 1) scope data).result =
      (buildChildren b.library (b.buildWithin depth) f.vars scope.path frame name count).result.map
        (Shape.group frame name count f.vars) := by
  rw [buildWithin, result_bind, result_ofExcept, hf]
  change (Loading.ofExcept (f.plan.mapError Stop.failed) >>= _ : Loading (Stop ShapeError) (Shape α)).result = _
  rw [result_bind, result_ofExcept, hi.plan]
  change (BoardAtlas.buildChildren b.library (b.buildWithin depth) f.vars scope.path frame name count >>= _ :
    Loading (Stop ShapeError) (Shape α)).result = _
  rw [result_bind]
  cases (BoardAtlas.buildChildren b.library (b.buildWithin depth) f.vars scope.path frame name count).result <;> rfl

theorem children_of_include (hf : Fragment.resolve b.presets scope data = .ok f)
    (hi : f.Includes frame name count) (hcount : 0 < count) {s : Shape α}
    (h : (b.buildWithin (depth + 1) scope data).result = .ok s) :
    ∃ items children, b.library.manifest? .shape name = .ok (.list items) ∧
      s = .group frame name count f.vars children ∧ children.length = count * items.length ∧
      ∀ i < count, ∀ j entry, items[j]? = some entry → ∃ t,
        (∀ deeper ≥ depth, (b.buildWithin deeper
          (entryScope f.vars scope.path frame name count i j) entry).result = .ok t) ∧
        children[i * items.length + j]? = some (t.placed frame.pos) := by
  rw [buildWithin_include hf hi, Except.map_eq_ok] at h
  obtain ⟨children, hchildren, rfl⟩ := h
  obtain ⟨items, hitems⟩ := manifest?_of_buildChildren hcount hchildren
  obtain ⟨hlength, hget⟩ := getElem?_buildChildren hitems hchildren
  refine ⟨items, children, hitems, rfl, hlength, fun i hi j entry hentry => ?_⟩
  obtain ⟨t, ht, hplace⟩ := hget i hi j entry hentry
  exact ⟨t, fun deeper hdeeper => (buildWithin_mono hdeeper _ _).result_eq ht nofun, hplace⟩

/-- **An include is the list of its turns.** Where it builds, it is a group with what each entry builds to in each
turn, in the order of turns and then of entries, below the id of the group or else its name, with `I` and `J` over its
variables. The first entry that fails decides. -/
theorem include_turns (b : ShapeBuilder) (depth : Nat) (scope : Scope) (data : Value) (f : Fragment)
    (frame : Frame α) (name : String) (count : Nat) (hf : Fragment.resolve b.presets scope data = .ok f)
    (hi : f.Includes frame name count) :
    (∀ i key, (turnVars f.vars count i).get? key =
      if key = "I" then some (.num (Binary64.ofNat i))
      else if key = "J" then some (.num (Binary64.ofNat count))
      else f.vars.get? key) ∧
    (count = 0 → (b.buildWithin (depth + 1) scope data).result = .ok (.group frame name 0 f.vars [])) ∧
    (0 < count → ∀ s, (b.buildWithin (depth + 1) scope data).result = .ok s →
      ∃ items children, b.library.manifest? .shape name = .ok (.list items) ∧
        s = .group frame name count f.vars children ∧ children.length = count * items.length ∧
        ∀ i < count, ∀ j entry, items[j]? = some entry → ∃ t,
          (∀ deeper ≥ depth, (b.buildWithin deeper
            (entryScope f.vars scope.path frame name count i j) entry).result = .ok t) ∧
          children[i * items.length + j]? = some (t.placed frame.pos)) ∧
    ∀ items, b.library.manifest? .shape name = .ok (.list items) →
      ((∀ i < count, ∀ j entry, items[j]? = some entry → ∃ t : Shape α, (b.buildWithin depth
          (entryScope f.vars scope.path frame name count i j) entry).result = .ok t) →
        ∃ s : Shape α, (b.buildWithin (depth + 1) scope data).result = .ok s) ∧
      ∀ i < count, ∀ j entry e, items[j]? = some entry →
        (b.buildWithin depth (entryScope f.vars scope.path frame name count i j) entry :
          Loading (Stop ShapeError) (Shape α)).result = .error e →
        (∀ i' j' entry', i' < i ∨ i' = i ∧ j' < j → items[j']? = some entry' → ∃ t : Shape α,
          (b.buildWithin depth (entryScope f.vars scope.path frame name count i' j') entry').result = .ok t) →
        (b.buildWithin (depth + 1) scope data : Loading (Stop ShapeError) (Shape α)).result = .error e ∧
          (e ≠ .unfinished → ∀ deeper ≥ depth, (b.buildWithin deeper
            (entryScope f.vars scope.path frame name count i j) entry : Loading (Stop ShapeError) (Shape α)).result =
              .error e) := by
  refine ⟨get?_turnVars f.vars count, ?_, fun hcount s hs => children_of_include hf hi hcount hs,
    fun items hitems => ⟨fun hall => ?_, ?_⟩⟩
  · rintro rfl
    rw [buildWithin_include hf hi]
    rfl
  · obtain ⟨children, hchildren⟩ := exists_buildChildren_eq_ok hitems hall
    exact ⟨_, by rw [buildWithin_include hf hi, hchildren]; rfl⟩
  · intro i hturn j entry e hentry he hbefore
    refine ⟨?_, fun hends deeper hdeeper => ?_⟩
    · rw [buildWithin_include hf hi, buildChildren_eq_error hitems hturn hentry he hbefore]
      rfl
    · exact (buildWithin_mono hdeeper _ _).result_eq he fun h => hends (Except.error.inj h)

/-- **The variables of an include that does not repeat** are not quite those that its entries are built with: these
find 0 and 1 under `I` and `J`, whatever the include has there from a turn around it, and are built in the scope of the
include only if it has these two numbers itself. -/
theorem single_turn_vars (b : ShapeBuilder) (depth : Nat) (scope : Scope) (source : Dict Value) (f : Fragment)
    (frame : Frame α) (name : String) (hf : Fragment.resolve b.presets scope (.obj source) = .ok f)
    (hi : f.Includes frame name 1) :
    (f.vars = match source.get? "vars" with
      | some (.obj own) => scope.vars.extend own
      | _ => scope.vars) ∧
    (∀ key, (turnVars f.vars 1 0).get? key =
      if key = "I" then some (.num (Binary64.ofNat 0))
      else if key = "J" then some (.num (Binary64.ofNat 1))
      else f.vars.get? key) ∧
    (turnVars f.vars 1 0 = f.vars ↔
      f.vars.get? "I" = some (.num (Binary64.ofNat 0)) ∧ f.vars.get? "J" = some (.num (Binary64.ofNat 1))) ∧
    ∀ s, (b.buildWithin (depth + 1) scope (.obj source)).result = .ok s →
      ∃ items children, b.library.manifest? .shape name = .ok (.list items) ∧
        s = .group frame name 1 f.vars children ∧ children.length = items.length ∧
        ∀ j entry, items[j]? = some entry → ∃ t,
          (∀ deeper ≥ depth, (b.buildWithin deeper (Scope.entry
            ⟨some (frame.id?.getD name), turnVars f.vars 1 0, scope.path ++ "/" ++ name⟩ j) entry).result = .ok t) ∧
          children[j]? = some (t.placed frame.pos) := by
  refine ⟨Fragment.vars_of_resolve hf, get?_turnVars f.vars 1 0, turnVars_eq_self_iff, fun s hs => ?_⟩
  obtain ⟨items, children, hitems, hgroup, hlength, hget⟩ := children_of_include hf hi Nat.one_pos hs
  refine ⟨items, children, hitems, hgroup, by rw [hlength, Nat.one_mul], fun j entry hentry => ?_⟩
  obtain ⟨t, ht, hplace⟩ := hget 0 Nat.one_pos j entry hentry
  rw [Nat.zero_mul, Nat.zero_add] at hplace
  exact ⟨t, ht, hplace⟩

end Turns

/-! ### A row of cells -/

section Row

open scoped BoardAtlas.Expr

/-- A text with the numbers of a turn and of all turns. -/
def turnText : Value :=
  .obj [("type", .str "text"), ("text", .str "$\x7bI\x7d of $\x7bJ\x7d"), ("font_size", .num 1.0)]

/-- A row of a cell and a text, and a cell of a text alone. -/
def rowBuilder : ShapeBuilder where
  library := {
    manifest? := fun kind name =>
      if kind = .shape ∧ name = "row" then .ok (.list [.obj [("name", .str "cell")], turnText])
      else if kind = .shape ∧ name = "cell" then .ok (.list [turnText])
      else .error (.unresolved [] name)
    table? := fun _ => .ok []
    names? := fun _ _ => .ok [] }
  presets := []

/-- Two turns of the row. -/
def rowMembers : Dict Value := [("name", .str "row"), ("repeat", .num 2), ("type", .str "include")]

/-- One cell. -/
def cellMembers : Dict Value := [("name", .str "cell"), ("type", .str "include")]

/-- The scope of a board. -/
def boardScope : Scope := ⟨some "board", [], ""⟩

/-- A frame at the origin. -/
def originFrame : Frame Float := { pos := Vec.zero }

/-- The scope of an entry in the second turn of the row. -/
def secondTurn (j : Nat) : Scope := entryScope [] "" originFrame "row" 2 1 j

/-- The texts that a fragment builds to, beside the row. -/
def textsAt (scope : Scope) (data : Value) : Option (List String) :=
  (rowBuilder.buildWithin 3 scope data : Loading (Stop ShapeError) (Shape Float)).result.toOption.map Shape.texts

theorem textsAt_eq_some {scope : Scope} {data : Value} {texts : List String} :
    textsAt scope data = some texts ↔
      ∃ s : Shape Float, (rowBuilder.buildWithin 3 scope data).result = .ok s ∧ s.texts = texts := by
  unfold textsAt
  cases (rowBuilder.buildWithin 3 scope data : Loading (Stop ShapeError) (Shape Float)).result with
  | error e => simp [Except.toOption]
  | ok s => simp [Except.toOption]

theorem rowMembers_includes : Fragment.Includes ⟨rowMembers, [], ""⟩ originFrame "row" 2 where
  type := rfl
  frame := rfl
  name := rfl
  count := by
    have hnumber : Fragment.number? ⟨rowMembers, [], ""⟩ "repeat" = .ok (some 2) := rfl
    have hguard : ((2 : Float) ≥ 0 && (Binary64.integer? 2).isSome) = true := by decide +kernel
    have htruncated : Binary64.truncated (pow2 64 - 1) 2 = 2 := by decide +kernel
    simp only [Fragment.count, hnumber, bind, Except.bind, hguard, htruncated, if_true, pure, Except.pure]

theorem include_turns_row :
    Fragment.resolve rowBuilder.presets boardScope (.obj rowMembers) = .ok ⟨rowMembers, [], ""⟩ ∧
      Fragment.Includes ⟨rowMembers, [], ""⟩ originFrame "row" 2 ∧ 0 < 2 ∧
      ∃ children : List (Shape Float),
        (rowBuilder.buildWithin 3 boardScope (.obj rowMembers)).result =
          .ok (.group originFrame "row" 2 [] children) ∧
        children.length = 4 ∧ Shape.textsOf children = ["0 of 1", "0 of 2", "0 of 1", "1 of 2"] ∧
        ∃ t : Shape Float, (rowBuilder.buildWithin 3 (secondTurn 1) turnText).result = .ok t ∧
          t.texts = ["1 of 2"] ∧ children[3]? = some (t.placed Vec.zero) := by
  have hf : Fragment.resolve rowBuilder.presets boardScope (.obj rowMembers) = .ok ⟨rowMembers, [], ""⟩ := rfl
  have hrow : textsAt boardScope (.obj rowMembers) = some ["0 of 1", "0 of 2", "0 of 1", "1 of 2"] := by
    decide +kernel
  have htext : textsAt (secondTurn 1) turnText = some ["1 of 2"] := by decide +kernel
  obtain ⟨s, hs, hall⟩ := textsAt_eq_some.1 hrow
  obtain ⟨t, ht, hone⟩ := textsAt_eq_some.1 htext
  obtain ⟨-, -, hturns, -⟩ := include_turns rowBuilder 2 boardScope (.obj rowMembers) ⟨rowMembers, [], ""⟩
    originFrame "row" 2 hf rowMembers_includes
  obtain ⟨items, children, hitems, rfl, hlength, hget⟩ := hturns Nat.two_pos s hs
  obtain rfl : items = [.obj [("name", .str "cell")], turnText] := by
    simpa [rowBuilder] using hitems.symm
  obtain ⟨t', ht', hplace⟩ := hget 1 Nat.one_lt_two 1 turnText rfl
  obtain rfl : t = t' := Except.ok.inj (ht.symm.trans (ht' 3 (by decide)))
  exact ⟨hf, rowMembers_includes, Nat.two_pos, children, hs, hlength, hall, t, ht, hone, hplace⟩

theorem single_turn_vars_cell :
    Fragment.resolve rowBuilder.presets (secondTurn 0) (.obj cellMembers) =
        .ok ⟨cellMembers, turnVars [] 2 1, "/row[0]"⟩ ∧
      Fragment.Includes ⟨cellMembers, turnVars [] 2 1, "/row[0]"⟩ originFrame "cell" 1 ∧
      turnVars (turnVars [] 2 1) 1 0 ≠ turnVars [] 2 1 ∧
      ∃ (children : List (Shape Float)) (t : Shape Float),
        (rowBuilder.buildWithin 3 (secondTurn 0) (.obj cellMembers)).result =
          .ok (.group originFrame "cell" 1 (turnVars [] 2 1) children) ∧
        (rowBuilder.buildWithin 3
          (Scope.entry ⟨some "cell", turnVars (turnVars [] 2 1) 1 0, "/row[0]/cell"⟩ 0) turnText).result = .ok t ∧
        children[0]? = some (t.placed Vec.zero) ∧ Shape.textsOf children = ["0 of 1"] := by
  have hf : Fragment.resolve rowBuilder.presets (secondTurn 0) (.obj cellMembers) =
      .ok ⟨cellMembers, turnVars [] 2 1, "/row[0]"⟩ := rfl
  have hi : Fragment.Includes ⟨cellMembers, turnVars [] 2 1, "/row[0]"⟩ originFrame "cell" 1 :=
    ⟨rfl, rfl, rfl, Fragment.count_of_absent rfl⟩
  have hcell : textsAt (secondTurn 0) (.obj cellMembers) = some ["0 of 1"] := by decide +kernel
  obtain ⟨s, hs, htexts⟩ := textsAt_eq_some.1 hcell
  obtain ⟨-, -, hsame, hbuild⟩ := single_turn_vars rowBuilder 2 (secondTurn 0) cellMembers
    ⟨cellMembers, turnVars [] 2 1, "/row[0]"⟩ originFrame "cell" hf hi
  obtain ⟨items, children, hitems, rfl, -, hget⟩ := hbuild s hs
  obtain rfl : items = [turnText] := by simpa [rowBuilder] using hitems.symm
  obtain ⟨t, ht, hplace⟩ := hget 0 turnText rfl
  refine ⟨hf, hi, fun h => ?_, children, t, hs, ht 3 (by decide), hplace, htexts⟩
  have hfirst : Value.num (Binary64.ofNat 1) = .num (Binary64.ofNat 0) := by
    have hone := (hsame.1 h).1
    rw [get?_turnVars, if_pos rfl] at hone
    exact Option.some.inj hone
  exact absurd (Value.num.inj hfirst) (by decide +kernel)

/-- In both turns of the row the cell counts from 0 and to 1, although its own variables have the numbers of the turn:
in their scope its text would be that of the second turn, as the text beside the cell is. -/
theorem cell_forgets_turn :
    textsAt boardScope (.obj rowMembers) = some ["0 of 1", "0 of 2", "0 of 1", "1 of 2"] ∧
      Fragment.resolve rowBuilder.presets (secondTurn 0) (.obj cellMembers) =
        .ok ⟨cellMembers, (secondTurn 0).vars, "/row[0]"⟩ ∧
      Fragment.Includes ⟨cellMembers, (secondTurn 0).vars, "/row[0]"⟩ originFrame "cell" 1 ∧
      textsAt (secondTurn 0) (.obj cellMembers) = some ["0 of 1"] ∧
      textsAt (Scope.entry ⟨some "cell", (secondTurn 0).vars, "/row[0]/cell"⟩ 0) turnText = some ["1 of 2"] :=
  ⟨by decide +kernel, rfl, ⟨rfl, rfl, rfl, Fragment.count_of_absent rfl⟩, by decide +kernel, by decide +kernel⟩

end Row

/-! ### A list that includes itself -/

end ShapeBuilder

end BoardAtlas
