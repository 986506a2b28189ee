import Mathlib.Data.List.Induction
import BoardAtlas.Proofs.Library.Snapshots

/-!
# Tables and the files behind them

A store keeps a table that it has read. A call that puts a file before the table's files also forgets the table, so
that the next read merges the file; a root that is put after all others does not, and its file waits until the table
is forgotten for another reason. Files do not change here.

* `StoreCall.forgetsTable`, `StoreCall.lateFile?`: what a call does to a table and to its files;
* `tableFiles_after`, `tables_after`: one call that does not forget the table;
* `tables_ofCalls`: when a table was read that a run still remembers, and what was added since;
* **`table_ofCalls`**: what a table is after any run;
* **`kept_table_not_current`**: a root whose table file is missed.
-/

namespace BoardAtlas

/-- After the call the table is read anew from its files. -/
def StoreCall.forgetsTable (kind : TableKind) : StoreCall → Bool
  | .addOverrideRoot _ | .forgetAll => true
  | .addTableFile kind' _ | .forgetTable kind' => kind' = kind
  | _ => false

/-- The table file that a call puts after all others. -/
def StoreCall.lateFile? (kind : TableKind) : StoreCall → Option String
  | .addRoot root => some (joinPath root kind.file)
  | _ => none

namespace Store

/-- The store after a run in which no file changes. -/
def ofCalls (t : FileTree) (calls : List StoreCall) : Store :=
  afterAll {} (calls.map fun call => (t, call))

/-- The table files that roots have added in a run, in the order of the list of table files. -/
def lateFiles (kind : TableKind) (calls : List StoreCall) : List String :=
  calls.filterMap (StoreCall.lateFile? kind)

/-- A fresh store over table files. -/
def overFiles (files : List String) : Store := { tableFiles := fun _ => files }

variable {s : Store} {t : FileTree} {kind : TableKind}

theorem ofCalls_concat (calls : List StoreCall) (call : StoreCall) :
    ofCalls t (calls ++ [call]) = (ofCalls t calls).after t call := by
  rw [ofCalls, afterAll, List.map_append, List.foldl_append]
  rfl

theorem lateFiles_concat (calls : List StoreCall) (call : StoreCall) :
    lateFiles kind (calls ++ [call]) = lateFiles kind calls ++ (call.lateFile? kind).toList := by
  rw [lateFiles, List.filterMap_append]
  cases h : call.lateFile? kind <;> simp [lateFiles, h]

/-! ## Reading a table -/

theorem table?_library (s : Store) (t : FileTree) (kind : TableKind) :
    (s.library t).table? kind = (s.table t kind).1 := by
  rw [table, run, Library.table]
  cases (s.library t).table? kind <;> rfl

theorem table_eq (s : Store) (t : FileTree) (kind : TableKind) :
    (s.table t kind).1 = match s.tables kind with
      | some entries => .ok entries
      | none => s.readTable t kind :=
  (table?_library s t kind).symm

theorem table_overFiles (s : Store) (t : FileTree) (kind : TableKind) :
    ((overFiles (s.tableFiles kind)).table t kind).1 = s.readTable t kind :=
  table_eq _ t kind

/-! ## One call -/

theorem tableFiles_foldl_remember (s : Store) (es : List Loaded) :
    (es.foldl remember s).tableFiles = s.tableFiles := by
  refine List.foldlRecOn es remember (motive := fun s' => s'.tableFiles = s.tableFiles) rfl ?_
  intro s' hs' e _
  rw [← hs']
  cases e <;> rfl

theorem tables_foldl_remember {es : List Loaded}
    (hes : ∀ e ∈ es, ∃ kind name v, e = .manifest kind name v) :
    (es.foldl remember s).tables = s.tables := by
  refine List.foldlRecOn es remember (motive := fun s' => s'.tables = s.tables) rfl ?_
  intro s' hs' e he
  obtain ⟨kind, name, v, rfl⟩ := hes e he
  exact hs'

theorem tables_after_table (s : Store) (t : FileTree) (kind kind' : TableKind) :
    (s.after t (.table kind')).tables kind =
      if kind = kind' then (s.table t kind).1.toOption else s.tables kind := by
  have hafter : s.after t (.table kind') =
      (((s.library t).table kind').loaded).foldl remember s := rfl
  rw [hafter, Library.table]
  cases ht : (s.library t).table? kind' with
  | ok entries =>
    change (if kind = kind' then some entries else s.tables kind) = _
    by_cases hk : kind = kind'
    · subst hk
      rw [if_pos rfl, if_pos rfl, ← table?_library, ht]
      rfl
    · rw [if_neg hk, if_neg hk]
  | error e =>
    change s.tables kind = _
    by_cases hk : kind = kind'
    · subst hk
      have htable : (s.table t kind).1 = .error e := by rw [← table?_library, ht]
      rw [if_pos rfl, htable]
      cases hs : s.tables kind with
      | none => rfl
      | some entries =>
        rw [table_eq, hs] at htable
        cases htable
    · rw [if_neg hk]

theorem tables_after_of_forgets {call : StoreCall} (h : call.forgetsTable kind = true) :
    (s.after t call).tables kind = none := by
  cases call with
  | addOverrideRoot root => cases kind <;> rfl
  | forgetAll => rfl
  | addTableFile kind' file => exact if_pos (of_decide_eq_true h).symm
  | forgetTable kind' => exact if_pos (of_decide_eq_true h).symm
  | _ => cases h

/-- **The files after one call** that does not forget the table: roots add theirs at the end. -/
theorem tableFiles_after {call : StoreCall} (h : call.forgetsTable kind = false) :
    (s.after t call).tableFiles kind = s.tableFiles kind ++ (call.lateFile? kind).toList := by
  have hread : ∀ es : List Loaded, (es.foldl remember s).tableFiles kind = s.tableFiles kind ++ [] := by
    intro es
    rw [tableFiles_foldl_remember, List.append_nil]
  cases call with
  | get kind' name => exact hread _
  | board name => exact hread _
  | table kind' => exact hread _
  | list kind' recursive => exact (List.append_nil _).symm
  | addRoot root => rfl
  | addOverrideRoot root => cases h
  | addFolder kind' folder =>
    have hsame : (s.addFolder kind' folder).tableFiles = s.tableFiles := by cases kind' <;> rfl
    change (s.addFolder kind' folder).tableFiles kind = _
    rw [hsame]
    exact (List.append_nil _).symm
  | addTableFile kind' file =>
    have hne : kind ≠ kind' := fun hk => of_decide_eq_false h hk.symm
    change (if kind = kind' then _ else _) = _
    rw [if_neg hne]
    exact (List.append_nil _).symm
  | forget kind' name => exact (List.append_nil _).symm
  | forgetTable kind' => exact (List.append_nil _).symm
  | forgetAll => cases h

/-- **The memory after one call** that does not forget the table: only asking for the table can change it. -/
theorem tables_after {call : StoreCall} (h : call.forgetsTable kind = false) :
    (s.after t call).tables kind = s.tables kind ∨
      call = .table kind ∧ s.tables kind = none ∧
        (s.after t call).tables kind = (s.readTable t kind).toOption := by
  cases call with
  | get kind' name =>
    refine Or.inl (congrFun (tables_foldl_remember fun e he => ?_) kind)
    obtain ⟨v, rfl⟩ := mem_loaded_manifest he
    exact ⟨kind', name, v, rfl⟩
  | board name =>
    refine Or.inl (congrFun (tables_foldl_remember fun e he => ?_) kind)
    rw [loaded_board] at he
    obtain ⟨key, -, hkey⟩ := List.mem_flatMap.1 he
    obtain ⟨v, rfl⟩ := mem_loaded_manifest hkey
    exact ⟨key.1, key.2, v, rfl⟩
  | table kind' =>
    rw [tables_after_table, table_eq]
    by_cases hk : kind = kind'
    · subst hk
      rw [if_pos rfl]
      cases s.tables kind with
      | some entries => exact Or.inl rfl
      | none => exact Or.inr ⟨rfl, rfl, rfl⟩
    · exact Or.inl (if_neg hk)
  | addFolder kind' folder => cases kind' <;> exact Or.inl rfl
  | addTableFile kind' file => exact Or.inl (if_neg fun hk => of_decide_eq_false h hk.symm)
  | forgetTable kind' => exact Or.inl (if_neg fun hk => of_decide_eq_false h hk.symm)
  | addOverrideRoot root => cases h
  | forgetAll => cases h
  | _ => exact Or.inl rfl

/-! ## Runs -/

/-- **What a run remembers of a table** was read from its files at an earlier call for it; nothing has made the store
forget it since, and only roots have added files. -/
theorem tables_ofCalls {calls : List StoreCall} {entries : Dict Value}
    (h : (ofCalls t calls).tables kind = some entries) :
    ∃ start later, calls = start ++ .table kind :: later ∧
      (∀ call ∈ later, call.forgetsTable kind = false) ∧
      (ofCalls t calls).tableFiles kind = (ofCalls t start).tableFiles kind ++ lateFiles kind later ∧
      (ofCalls t start).readTable t kind = .ok entries := by
  -- on the last call: it has read the table, or the table was remembered before and only a root adds files
  induction calls using List.reverseRecOn with
  | nil => cases h
  | append_singleton calls call ih =>
    rw [ofCalls_concat] at h
    cases hf : call.forgetsTable kind with
    | true =>
      rw [tables_after_of_forgets hf] at h
      cases h
    | false =>
      have hfiles : (ofCalls t (calls ++ [call])).tableFiles kind =
          (ofCalls t calls).tableFiles kind ++ (call.lateFile? kind).toList := by
        rw [ofCalls_concat, tableFiles_after hf]
      rcases tables_after (s := ofCalls t calls) (t := t) hf with hsame | ⟨rfl, -, hread⟩
      · obtain ⟨start, later, hcalls, hkept, hlate, hread⟩ := ih (hsame ▸ h)
        refine ⟨start, later ++ [call], ?_, ?_, ?_, hread⟩
        · rw [hcalls, List.append_assoc]
          rfl
        · intro c hc
          rcases List.mem_append.1 hc with hc | hc
          · exact hkept c hc
          · rwa [List.mem_singleton.1 hc]
        · rw [hfiles, hlate, lateFiles_concat, List.append_assoc]
      · refine ⟨calls, [], rfl, by simp, hfiles, ?_⟩
        rw [hread] at h
        cases hr : (ofCalls t calls).readTable t kind with
        | error e =>
          rw [hr] at h
          cases h
        | ok entries' =>
          rw [hr] at h
          cases h
          rfl

theorem table_ofCalls_of_forgets (calls : List StoreCall) {call : StoreCall}
    (h : call.forgetsTable kind = true) :
    ((ofCalls t (calls ++ [call])).table t kind).1 =
      ((overFiles ((ofCalls t (calls ++ [call])).tableFiles kind)).table t kind).1 := by
  rw [table_overFiles, table_eq, ofCalls_concat, tables_after_of_forgets h]

/-- **A table after any run** is what a fresh store over the same table files says, unless it was read earlier,
nothing has made the store forget it since, and roots have added files; then these do not count. -/
theorem table_ofCalls (t : FileTree) (calls : List StoreCall) (kind : TableKind) :
    let s := ofCalls t calls
    ((s.table t kind).1 = ((overFiles (s.tableFiles kind)).table t kind).1 ∨
      ∃ start later, calls = start ++ .table kind :: later ∧
        (∀ call ∈ later, call.forgetsTable kind = false) ∧ lateFiles kind later ≠ [] ∧
        s.tableFiles kind = (ofCalls t start).tableFiles kind ++ lateFiles kind later ∧
        (s.table t kind).1 =
          ((overFiles ((ofCalls t start).tableFiles kind)).table t kind).1) ∧
    (∀ root, let s := ofCalls t (calls ++ [.addOverrideRoot root])
      (s.table t kind).1 = ((overFiles (s.tableFiles kind)).table t kind).1) ∧
    ∀ file, let s := ofCalls t (calls ++ [.addTableFile kind file])
      (s.table t kind).1 = ((overFiles (s.tableFiles kind)).table t kind).1 := by
  intro s
  refine ⟨?_, fun root => table_ofCalls_of_forgets calls rfl,
    fun file => table_ofCalls_of_forgets calls (decide_eq_true rfl)⟩
  rw [table_eq, table_overFiles]
  cases hs : s.tables kind with
  | none => exact Or.inl rfl
  | some entries =>
    obtain ⟨start, later, hcalls, hkept, hfiles, hread⟩ := tables_ofCalls hs
    by_cases hlate : lateFiles kind later = []
    · left
      rw [hlate, List.append_nil] at hfiles
      rw [readTable, hfiles, ← readTable, hread]
    · refine Or.inr ⟨start, later, hcalls, hkept, hlate, hfiles, ?_⟩
      rw [table_overFiles, hread]

/-- Two roots with a table each. -/
def twoRoots : FileTree where
  root := .folder
    [("a", .folder [("presets.json", .file "\x7b\"x\":1\x7d".toUTF8)]),
      ("b", .folder [("presets.json", .file "\x7b\"y\":2\x7d".toUTF8)])]

/-- **A root can be missed**: it is added after the table was read, and its table file has no effect. -/
theorem kept_table_not_current :
    ¬ ∀ (t : FileTree) (calls : List StoreCall) (kind : TableKind) (entries : Dict Value),
      ((ofCalls t calls).table t kind).1 = .ok entries →
      ((overFiles ((ofCalls t calls).tableFiles kind)).table t kind).1 = .ok entries := by
  intro hcurrent
  let calls : List StoreCall := [.addRoot "a", .table .presets, .addRoot "b"]
  let kept := ((ofCalls twoRoots calls).table twoRoots .presets).1
  let current := ((overFiles ((ofCalls twoRoots calls).tableFiles .presets)).table twoRoots .presets).1
  have hkept : kept.toOption.map Dict.keys = some ["x"] := by decide +kernel
  have hfresh : current.toOption.map Dict.keys = some ["y", "x"] := by decide +kernel
  cases hk : kept with
  | error e =>
    rw [hk] at hkept
    cases hkept
  | ok entries =>
    have hc : current = .ok entries := hcurrent twoRoots calls .presets entries hk
    rw [hk] at hkept
    rw [hc] at hfresh
    have hsame : some ["x"] = some ["y", "x"] := hkept.symm.trans hfresh
    exact absurd hsame (by decide)

end Store

end BoardAtlas
