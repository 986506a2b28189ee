import BoardAtlas.Proofs.Library.Memory

/-!
# Calls of a store

A run of a store is a list of calls, each with the files as they are then: between two calls any file may have
been written or removed.

* `StoreCall`, `Store.get`, `Store.board`, `Store.table`: the calls and their answers;
* `Store.after`, **`Store.afterAll`**: the store after a call and after a run;
* `readFirst`, `readManifest_eq`: what is read for a manifest that is not remembered;
* `remembered?_forget` and the like: what the calls do to the memory.
-/

namespace BoardAtlas

/-- What is asked of a store. -/
inductive StoreCall where
  | get (kind : ManifestKind) (name : String)
  | board (name : String)
  | list (kind : ManifestKind) (recursive : Bool)
  | table (kind : TableKind)
  | addRoot (root : String)
  | addOverrideRoot (root : String)
  | addFolder (kind : ManifestKind) (folder : String)
  | addTableFile (kind : TableKind) (file : String)
  | forget (kind : ManifestKind) (name : String)
  | forgetTable (kind : TableKind)
  | forgetAll

namespace Store

/-! ## Answers -/

/-- Reads a manifest. -/
def get (s : Store) (t : FileTree) (kind : ManifestKind) (name : String) :
    Except ManifestError Value × Store := s.run t fun lib => lib.manifest kind name

/-- Reads a board manifest and merges it over its bases. -/
def board (s : Store) (t : FileTree) (name : String) : Except ManifestError Value × Store :=
  s.run t fun lib => lib.board name

/-- Reads a table. -/
def table (s : Store) (t : FileTree) (kind : TableKind) : Except ManifestError (Dict Value) × Store :=
  s.run t fun lib => lib.table kind

/-- The store after a call, whether the call fails or not. -/
def after (s : Store) (t : FileTree) : StoreCall → Store
  | .get kind name => (s.get t kind name).2
  | .board name => (s.board t name).2
  | .list _ _ => s
  | .table kind => (s.table t kind).2
  | .addRoot root => s.addRoot root
  | .addOverrideRoot root => s.addOverrideRoot root
  | .addFolder kind folder => s.addFolder kind folder
  | .addTableFile kind file => s.addTableFile kind file
  | .forget kind name => s.forget kind name
  | .forgetTable kind => s.forgetTable kind
  | .forgetAll => s.forgetAll

/-- **The store after a run**, each call with the files as they are then. -/
def afterAll (s : Store) (calls : List (FileTree × StoreCall)) : Store :=
  calls.foldl (fun s call => s.after call.1 call.2) s

/-- Reads a manifest from the first of the folders that holds its file. -/
def readFirst (t : FileTree) (kind : ManifestKind) (name : String) :
    List String → Except ManifestError Value
  | [] => .error (.notFound kind name)
  | folder :: rest =>
    let path := joinPath folder (name ++ ".json")
    if t.isFile path then readValue t path else readFirst t kind name rest

theorem readManifest_eq (s : Store) (t : FileTree) (kind : ManifestKind) (name : String) :
    s.readManifest t kind name = readFirst t kind name (s.folders kind) := by
  rw [readManifest, find?]
  induction s.folders kind with
  | nil => rfl
  | cons folder rest ih =>
    rw [List.map_cons, readFirst]
    by_cases h : t.isFile (joinPath folder (name ++ ".json")) = true
    · rw [List.find?_cons_of_pos h, if_pos h]
    · rw [List.find?_cons_of_neg h, if_neg h]
      exact ih

theorem manifest?_library (s : Store) (t : FileTree) (kind : ManifestKind) (name : String) :
    (s.library t).manifest? kind name = (s.get t kind name).1 :=
  ((s.library t).result_manifest kind name).symm

theorem get_eq (s : Store) (t : FileTree) (kind : ManifestKind) (name : String) :
    (s.get t kind name).1 = match s.remembered? kind name with
      | some v => .ok v
      | none => readFirst t kind name (s.folders kind) := by
  rw [← readManifest_eq, ← manifest?_library]
  rfl

/-! ## Memory -/

section Memory

variable (s : Store) (t : FileTree) (kind kind' : ManifestKind) (name name' : String)

theorem remembered?_forget : (s.forget kind' name').remembered? kind name =
    if (kind', name') = (kind, name) then none else s.remembered? kind name := by
  have hfilter : ∀ entries : List ((ManifestKind × String) × Value),
      (entries.filter fun e => e.1 != (kind', name')).lookup (kind, name) =
        if (kind', name') = (kind, name) then none else entries.lookup (kind, name) := by
    intro entries
    induction entries with
    | nil => simp
    | cons e rest ih =>
      obtain ⟨key, v⟩ := e
      rw [List.filter_cons, List.lookup_cons]
      by_cases he : key = (kind', name')
      · subst he
        rw [if_neg (by simp), ih]
        by_cases hk : (kind', name') = (kind, name)
        · rw [if_pos hk, if_pos hk]
        · rw [if_neg hk, if_neg hk, beq_eq_false_iff_ne.2 (Ne.symm hk)]
      · rw [if_pos (by simpa using he), List.lookup_cons, ih]
        by_cases hk : (kind, name) = key
        · have hne : (kind', name') ≠ (kind, name) := fun h => he (hk.symm.trans h.symm)
          rw [beq_iff_eq.2 hk, if_neg hne, if_neg hne]
        · rw [beq_eq_false_iff_ne.2 hk]
  exact hfilter s.manifests

theorem remembered?_addFolder (folder : String) :
    (s.addFolder kind' folder).remembered? kind name = s.remembered? kind name := by
  cases kind' <;> rfl

theorem remembered?_table (table : TableKind) :
    (s.table t table).2.remembered? kind name = s.remembered? kind name := by
  rw [Store.table, run, Library.table]
  cases (s.library t).table? table <;> rfl

theorem folders_foldl_remember (es : List Loaded) : (es.foldl remember s).folders = s.folders := by
  refine List.foldlRecOn es remember (motive := fun s' => s'.folders = s.folders) rfl ?_
  intro s' hs' e _
  rw [← hs']
  cases e <;> (funext kind; cases kind <;> rfl)

end Memory

end Store

end BoardAtlas
