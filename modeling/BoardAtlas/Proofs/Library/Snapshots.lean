import BoardAtlas.Proofs.Library.Calls
import BoardAtlas.Proofs.Result

/-!
# Snapshots of manifests

What a store says about a manifest is decided by what has happened to that manifest alone: a get gives the
latest value that was read since the manifest was last forgotten, and reads the file only if there is none. The
rule is stated on histories, which know no memory, and every run of a store follows it.

* `StoreEvent`, `History.latest?`: what has happened, and what counts of it;
* `History.get`, `History.board`, `historyOf`: the rule, and the history of a run;
* `Follows`, `follows_board`: a computation over the library follows the rule;
* `Agrees.after`, `Agrees.afterAll`: one call, and a run;
* `asked`, `loaded_board`, `after_board`: a board is no more than gets of what it asks for;
* **`get_snapshot`**: what any run leaves for a get.
-/

namespace BoardAtlas

/-! ## The rule -/

/-- What happens to manifests. -/
inductive StoreEvent where
  | loaded (kind : ManifestKind) (name : String) (v : Value)
  | forgotten (kind : ManifestKind) (name : String)
  | allForgotten

/-- What has happened, the latest first. -/
abbrev History : Type := List StoreEvent

namespace History

/-- The value of the latest load of a manifest since it was forgotten. -/
def latest? (kind : ManifestKind) (name : String) : History → Option Value
  | [] => none
  | .loaded kind' name' v :: before =>
    if (kind', name') = (kind, name) then some v else latest? kind name before
  | .forgotten kind' name' :: before =>
    if (kind', name') = (kind, name) then none else latest? kind name before
  | .allForgotten :: _ => none

variable (t : FileTree) (folders : ManifestKind → List String)

/-- **A get**: the latest load counts. If there is none the file is read, and a success is a load. -/
def get (kind : ManifestKind) (name : String) : EStateM ManifestError History Value := fun h =>
  match h.latest? kind name with
  | some v => .ok v h
  | none =>
    match Store.readFirst t kind name (folders kind) with
    | .ok v => .ok v (.loaded kind name v :: h)
    | .error e => .error e h

/-- A board is a get of its manifest and one of each base; merging them leaves no trace. -/
def board (name : String) : EStateM ManifestError History Value := do
  let manifest ← get t folders .board name
  inherit (get t folders .boardBase) name manifest

/-- The history that a computation leaves. -/
def left {α : Type} : EStateM.Result ManifestError History α → History
  | .ok _ h => h
  | .error _ h => h

/-- The history after a call. -/
def after (h : History) : StoreCall → History
  | .get kind name => left (get t folders kind name h)
  | .board name => left (board t folders name h)
  | .forget kind name => .forgotten kind name :: h
  | .forgetAll => .allForgotten :: h
  | _ => h

end History

/-- The history of a run that a store starts, after what has happened before. -/
def historyOf : Store → History → List (FileTree × StoreCall) → History
  | _, h, [] => h
  | s, h, (t, call) :: rest => historyOf (s.after t call) (h.after t s.folders call) rest

namespace Store

open Loading

/-! ## Following the rule -/

/-- A store remembers for every manifest the latest load. -/
def Agrees (s : Store) (h : History) : Prop :=
  ∀ kind name, s.remembered? kind name = h.latest? kind name

/-- A result together with the state it leaves. -/
def leaving {ε σ α : Type} : Except ε α → σ → EStateM.Result ε σ α
  | .ok a, u => .ok a u
  | .error e, u => .error e u

/-- On every store with this library that agrees with a history, the computation has the result of the rule,
and what is remembered of it agrees with the history that the rule leaves. -/
structure Follows {α : Type} (t : FileTree) (lib : Library) (folders : ManifestKind → List String)
    (x : Loading ManifestError α) (y : EStateM ManifestError History α) : Prop where
  faithful : x.Faithful lib
  agrees : ∀ (s : Store) (h : History), s.library t = lib → s.folders = folders → s.Agrees h →
    ∃ h', y h = leaving x.result h' ∧ (x.loaded.foldl remember s).Agrees h'

section Follows

variable {α β : Type} {t : FileTree} {lib : Library} {folders : ManifestKind → List String}

theorem follows_ofExcept (x : Except ManifestError α) :
    Follows t lib folders (MonadExcept.ofExcept x) (MonadExcept.ofExcept x) where
  faithful := faithful_monadOfExcept x
  agrees s h _ _ hs := by
    refine ⟨h, ?_, ?_⟩
    · cases x <;> rfl
    · cases x <;> exact hs

theorem follows_pure (a : α) : Follows t lib folders (pure a) (pure a) :=
  follows_ofExcept (.ok a)

theorem Follows.bind {x : Loading ManifestError α} {y : EStateM ManifestError History α}
    {f : α → Loading ManifestError β} {g : α → EStateM ManifestError History β}
    (hx : Follows t lib folders x y) (hf : ∀ a, Follows t lib folders (f a) (g a)) :
    Follows t lib folders (x >>= f) (y >>= g) where
  faithful := hx.faithful.bind fun a => (hf a).faithful
  agrees s h hlib hfolders hs := by
    obtain ⟨h', hy, hs'⟩ := hx.agrees s h hlib hfolders hs
    have hbind : (y >>= g) h = EStateM.bind y g h := rfl
    rw [hbind, EStateM.bind, hy]
    cases hr : x.result with
    | error e =>
      rw [bind_of_error hr]
      exact ⟨h', rfl, hs'⟩
    | ok a =>
      have hlib' : (x.loaded.foldl remember s).library t = lib := by
        rw [library_foldl_remember (by rw [hlib]; exact hx.faithful), hlib]
      have hfolders' : (x.loaded.foldl remember s).folders = folders := by
        rw [folders_foldl_remember, hfolders]
      obtain ⟨h'', hg, hs''⟩ := (hf a).agrees _ h' hlib' hfolders' hs'
      rw [bind_of_ok hr]
      exact ⟨h'', hg, by rwa [List.foldl_append]⟩

theorem follows_manifest (kind : ManifestKind) (name : String) :
    Follows t lib folders (lib.manifest kind name) (History.get t folders kind name) where
  faithful := lib.faithful_manifest kind name
  agrees s h hlib hfolders hs := by
    have hmanifest : lib.manifest? kind name = match h.latest? kind name with
        | some v => .ok v
        | none => readFirst t kind name (folders kind) := by
      rw [← hlib, ← hs kind name, ← hfolders, ← readManifest_eq]
      rfl
    rw [History.get, Library.manifest, hmanifest]
    cases hl : h.latest? kind name with
    | some v =>
      refine ⟨h, rfl, fun kind' name' => ?_⟩
      change (s.remember (.manifest kind name v)).remembered? kind' name' = _
      rw [remembered?_remember]
      split
      · next hk =>
        cases hk
        exact hl.symm
      · exact hs kind' name'
    | none =>
      cases hr : readFirst t kind name (folders kind) with
      | error e => exact ⟨h, rfl, hs⟩
      | ok v =>
        refine ⟨.loaded kind name v :: h, rfl, fun kind' name' => ?_⟩
        change (s.remember (.manifest kind name v)).remembered? kind' name' = _
        rw [remembered?_remember, History.latest?, hs kind' name']
        simp only [eq_comm]

theorem follows_mergeBases {load : String → Loading ManifestError Value}
    {load' : String → EStateM ManifestError History Value}
    (hload : ∀ base, Follows t lib folders (load base) (load' base)) (merged : Value)
    (bases : List String) :
    Follows t lib folders (mergeBases load merged bases) (mergeBases load' merged bases) := by
  induction bases generalizing merged with
  | nil => exact follows_pure merged
  | cons base rest ih =>
    rw [mergeBases, mergeBases]
    exact (hload base).bind fun layer => (follows_ofExcept _).bind ih

/-- A board follows the rule for it, whether it can be merged or not. -/
theorem follows_board (name : String) :
    Follows t lib folders (lib.board name) (History.board t folders name) := by
  rw [Library.board, History.board]
  refine (follows_manifest .board name).bind fun manifest => ?_
  rw [inherit, inherit]
  refine (follows_ofExcept _).bind fun bases => ?_
  split
  · exact follows_pure manifest
  · exact (follows_mergeBases (follows_manifest .boardBase) (.obj []) bases).bind fun merged =>
      follows_ofExcept _

theorem Follows.run {x : Library → Loading ManifestError α}
    {y : EStateM ManifestError History α} {s : Store} {h : History}
    (hx : Follows t (s.library t) s.folders (x (s.library t)) y) (hs : s.Agrees h) :
    y h = leaving (s.run t x).1 (History.left (y h)) ∧
      (s.run t x).2.Agrees (History.left (y h)) := by
  obtain ⟨h', hy, hs'⟩ := hx.agrees s h rfl rfl hs
  have hleft : History.left (y h) = h' := by
    rw [hy]
    cases (x (s.library t)).result <;> rfl
  rw [hleft]
  exact ⟨hy, hs'⟩

end Follows

/-! ## Runs -/

variable {s : Store} {h : History}

theorem Agrees.get (hs : s.Agrees h) (t : FileTree) (kind : ManifestKind) (name : String) :
    History.get t s.folders kind name h =
        leaving (s.get t kind name).1 (h.after t s.folders (.get kind name)) ∧
      (s.after t (.get kind name)).Agrees (h.after t s.folders (.get kind name)) :=
  (follows_manifest kind name).run hs

theorem Agrees.board (hs : s.Agrees h) (t : FileTree) (name : String) :
    History.board t s.folders name h =
        leaving (s.board t name).1 (h.after t s.folders (.board name)) ∧
      (s.after t (.board name)).Agrees (h.after t s.folders (.board name)) :=
  (follows_board name).run hs

/-- **After one more call** a store still remembers for every manifest the latest load. -/
theorem Agrees.after (hs : s.Agrees h) (t : FileTree) (call : StoreCall) :
    (s.after t call).Agrees (h.after t s.folders call) := by
  cases call with
  | get kind name => exact (hs.get t kind name).2
  | board name => exact (hs.board t name).2
  | list kind recursive => exact hs
  | table kind =>
    exact fun kind' name' => (remembered?_table s t kind' name' kind).trans (hs kind' name')
  | addRoot root => exact hs
  | addOverrideRoot root => exact hs
  | addFolder kind folder =>
    exact fun kind' name' => (remembered?_addFolder s kind' kind name' folder).trans (hs kind' name')
  | addTableFile kind file => exact hs
  | forget kind name =>
    intro kind' name'
    change (s.forget kind name).remembered? kind' name' = _
    rw [remembered?_forget, History.after, History.latest?, hs kind' name']
  | forgetTable kind => exact hs
  | forgetAll => exact fun _ _ => rfl

theorem Agrees.afterAll (hs : s.Agrees h) (calls : List (FileTree × StoreCall)) :
    (s.afterAll calls).Agrees (historyOf s h calls) := by
  induction calls generalizing s h with
  | nil => exact hs
  | cons call rest ih => exact ih (hs.after call.1 call.2)

/-! ## What a board reads -/

section Reads

variable {α β : Type} {lib : Library} {e : Loaded}

/-- The bases asked for when they are merged in order over a value: none after the first that cannot be read or
merged. -/
def askedBases (load : String → Except ManifestError Value) : Value → List String → List String
  | _, [] => []
  | merged, base :: rest =>
    base :: match load base >>= fun layer => merged.merged? (withoutBases layer) with
      | .ok merged => askedBases load merged rest
      | .error _ => []

/-- The manifests that a board asks for: its own, and the bases that it declares. -/
def asked (lib : Library) (board : String) : List (ManifestKind × String) :=
  (.board, board) :: match lib.manifest? .board board >>= declaredBases board with
    | .ok bases => (askedBases (lib.manifest? .boardBase) (.obj []) bases).map fun base => (.boardBase, base)
    | .error _ => []

theorem loaded_bind (x : Loading ManifestError α) (f : α → Loading ManifestError β) :
    (x >>= f).loaded = x.loaded ++ match x.result with
      | .ok a => (f a).loaded
      | .error _ => [] := by
  cases hr : x.result with
  | error e => rw [bind_of_error hr, List.append_nil]
  | ok a => rw [bind_of_ok hr]

theorem loaded_monadOfExcept (x : Except ManifestError α) :
    (MonadExcept.ofExcept x : Loading ManifestError α).loaded = [] := by
  cases x <;> rfl

theorem mem_loaded_manifest {kind : ManifestKind} {name : String}
    (he : e ∈ (lib.manifest kind name).loaded) : ∃ v, e = .manifest kind name v := by
  rw [Library.manifest] at he
  cases hv : lib.manifest? kind name with
  | error _ =>
    rw [hv] at he
    cases he
  | ok v =>
    rw [hv] at he
    exact ⟨v, List.mem_singleton.1 he⟩

theorem loaded_mergeBases (load : String → Loading ManifestError Value) (merged : Value)
    (bases : List String) :
    (mergeBases load merged bases).loaded =
      (askedBases (fun base => (load base).result) merged bases).flatMap fun base => (load base).loaded := by
  induction bases generalizing merged with
  | nil => rfl
  | cons base rest ih =>
    rw [mergeBases, askedBases, List.flatMap_cons, loaded_bind]
    congr 1
    cases (load base).result with
    | error e => rfl
    | ok layer =>
      simp only [bind, Except.bind]
      cases merged.merged? (withoutBases layer) with
      | error e => rfl
      | ok m => exact ih m

/-- **What a board reads**, whether it can be merged or not: all that it asks for and that can be read. -/
theorem loaded_board (board : String) :
    (lib.board board).loaded =
      (asked lib board).flatMap fun key => (lib.manifest key.1 key.2).loaded := by
  rw [Library.board, asked, List.flatMap_cons, loaded_bind, Library.result_manifest]
  congr 1
  cases lib.manifest? .board board with
  | error e => rfl
  | ok manifest =>
    change (inherit (lib.manifest .boardBase) board manifest).loaded =
      List.flatMap _ (match declaredBases board manifest with
        | .ok bases => _
        | .error _ => [])
    rw [inherit]
    cases declaredBases board manifest with
    | error e => rfl
    | ok bases =>
      cases bases with
      | nil => rfl
      | cons base rest =>
        change (mergeBases (lib.manifest .boardBase) (.obj []) (base :: rest) >>= fun merged =>
          MonadExcept.ofExcept (merged.merged? manifest)).loaded = _
        rw [loaded_bind, loaded_mergeBases, List.flatMap_map]
        simp only [Library.result_manifest]
        -- the board itself is merged over its bases without a look at a file
        convert List.append_nil _ using 2
        split
        · exact loaded_monadOfExcept _
        · rfl

end Reads

/-! ## Gets -/

theorem get_of_error {t : FileTree} {kind : ManifestKind} {name : String} {e : ManifestError}
    (he : (s.get t kind name).1 = .error e) : (s.get t kind name).2 = s := by
  rw [← manifest?_library] at he
  rw [Store.get, run, Library.manifest, he]
  rfl

theorem remembered?_of_get_error {t : FileTree} {kind : ManifestKind} {name : String}
    {e : ManifestError} (he : (s.get t kind name).1 = .error e) :
    s.remembered? kind name = none := by
  rw [get_eq] at he
  cases hr : s.remembered? kind name with
  | none => rfl
  | some v =>
    rw [hr] at he
    cases he

theorem remembered?_get (t : FileTree) (kind kind' : ManifestKind) (name name' : String) :
    (s.get t kind' name').2.remembered? kind name =
      if (kind, name) = (kind', name') then (s.get t kind name).1.toOption
      else s.remembered? kind name := by
  cases hg : (s.get t kind' name').1 with
  | error e =>
    rw [get_of_error hg]
    split
    · next hk =>
      cases hk
      rw [hg, remembered?_of_get_error hg]
      rfl
    · rfl
  | ok v =>
    have hv := hg
    rw [← manifest?_library] at hv
    rw [Store.get, run, Library.manifest, hv]
    change (s.remember (.manifest kind' name' v)).remembered? kind name = _
    rw [remembered?_remember]
    split
    · next hk =>
      cases hk
      rw [hg]
      rfl
    · rfl

theorem library_get (t : FileTree) (kind : ManifestKind) (name : String) :
    (s.get t kind name).2.library t = s.library t :=
  library_run ((s.library t).faithful_manifest kind name)

theorem afterAll_gets (s : Store) (t : FileTree) (keys : List (ManifestKind × String)) :
    s.afterAll (keys.map fun key => (t, .get key.1 key.2)) =
      (keys.flatMap fun key => ((s.library t).manifest key.1 key.2).loaded).foldl remember s := by
  induction keys generalizing s with
  | nil => rfl
  | cons key rest ih =>
    rw [List.map_cons, afterAll, List.foldl_cons, List.flatMap_cons, List.foldl_append]
    change (s.get t key.1 key.2).2.afterAll _ = _
    rw [ih, library_get]
    rfl

theorem remembered?_gets (s : Store) (t : FileTree) (keys : List (ManifestKind × String))
    (kind : ManifestKind) (name : String) :
    (s.afterAll (keys.map fun key => (t, .get key.1 key.2))).remembered? kind name =
      if (kind, name) ∈ keys then (s.get t kind name).1.toOption else s.remembered? kind name := by
  induction keys generalizing s with
  | nil => rfl
  | cons key rest ih =>
    rw [List.map_cons, afterAll, List.foldl_cons]
    change ((s.get t key.1 key.2).2.afterAll _).remembered? kind name = _
    rw [ih, ← manifest?_library, library_get, manifest?_library, remembered?_get]
    by_cases hrest : (kind, name) ∈ rest
    · rw [if_pos hrest, if_pos (List.mem_cons_of_mem _ hrest)]
    · rw [if_neg hrest]
      exact if_congr (by rw [List.mem_cons, or_iff_left hrest]) rfl rfl

/-- A board leaves the store that gets of all it asks for leave. -/
theorem after_board (s : Store) (t : FileTree) (board : String) :
    s.after t (.board board) =
      s.afterAll ((asked (s.library t) board).map fun key => (t, .get key.1 key.2)) := by
  rw [afterAll_gets, ← loaded_board]
  rfl

theorem get_after_board (s : Store) (t : FileTree) (board : String) (t' : FileTree)
    (kind : ManifestKind) (name : String) :
    ((s.after t (.board board)).get t' kind name).1 =
      match (s.get t kind name).1 with
      | .ok v => if (kind, name) ∈ asked (s.library t) board then .ok v else (s.get t' kind name).1
      | .error _ => (s.get t' kind name).1 := by
  have hfolders : (s.after t (.board board)).folders = s.folders := folders_foldl_remember s _
  have hleft : (s.after t (.board board)).remembered? kind name =
      if (kind, name) ∈ asked (s.library t) board then (s.get t kind name).1.toOption
      else s.remembered? kind name := by
    rw [after_board]
    exact remembered?_gets s t _ kind name
  rw [get_eq (s.after t (.board board)), hleft, hfolders, get_eq s t']
  by_cases hasked : (kind, name) ∈ asked (s.library t) board
  · rw [if_pos hasked]
    cases hg : (s.get t kind name).1 with
    | ok v =>
      simp only [if_pos hasked]
      rfl
    | error e =>
      -- what cannot be read now was not remembered either
      rw [remembered?_of_get_error hg]
      rfl
  · rw [if_neg hasked]
    cases (s.get t kind name).1 with
    | ok v => simp only [if_neg hasked]
    | error e => rfl

/-! ## Snapshots -/

/-- **The memory of a store is a snapshot of each manifest.** After any run a get gives the latest value that was
loaded since the manifest was forgotten, else that of the first folder that holds the file. A board, whether it can be
merged or not, leaves what gets leave of its manifest and of its bases up to the first that cannot be read or merged.
-/
theorem get_snapshot (calls : List (FileTree × StoreCall)) (t : FileTree) (kind : ManifestKind)
    (name : String) :
    let s := afterAll {} calls
    (s.get t kind name).1 = (match (historyOf {} [] calls).latest? kind name with
      | some v => .ok v
      | none => readFirst t kind name (s.folders kind)) ∧
    (s.get t kind name).2.remembered? kind name = (s.get t kind name).1.toOption ∧
    (∀ t' kind' name' e, (s.get t' kind' name').1 = .error e → s.after t' (.get kind' name') = s) ∧
    (∀ t' kind' recursive, s.after t' (.list kind' recursive) = s) ∧
    (∀ t' kind' name', (kind', name') ≠ (kind, name) →
      ((s.after t' (.forget kind' name')).get t kind name).1 = (s.get t kind name).1) ∧
    ∀ t' board,
      s.after t' (.board board) =
        s.afterAll ((asked (s.library t') board).map fun key => (t', .get key.1 key.2)) ∧
      ((s.after t' (.board board)).get t kind name).1 =
        (match (s.get t' kind name).1 with
        | .ok v => if (kind, name) ∈ asked (s.library t') board then .ok v else (s.get t kind name).1
        | .error _ => (s.get t kind name).1) ∧
      (s.remembered? kind name ≠ none →
        ((s.after t' (.board board)).get t kind name).1 = (s.get t kind name).1) := by
  intro s
  have hs : s.Agrees (historyOf {} [] calls) := Agrees.afterAll (fun _ _ => rfl) calls
  refine ⟨?_, ?_, ?_, fun _ _ _ => rfl, ?_, ?_⟩
  · have hanswer := get_eq s t kind name
    rewrite [hs kind name] at hanswer
    exact hanswer
  · rw [remembered?_get, if_pos rfl]
  · exact fun t' kind' name' e he => get_of_error he
  · intro t' kind' name' hne
    have hfolders : (s.after t' (.forget kind' name')).folders kind = s.folders kind := by
      cases kind <;> rfl
    rw [get_eq, get_eq, hfolders]
    change (match (s.forget kind' name').remembered? kind name with
      | some v => _
      | none => _) = _
    rewrite [remembered?_forget, if_neg hne]
    rfl
  · intro t' board
    refine ⟨after_board s t' board, get_after_board s t' board t kind name, fun hr => ?_⟩
    obtain ⟨v, hv⟩ := Option.ne_none_iff_exists'.1 hr
    rw [get_after_board, get_eq s t, get_eq s t', hv]
    exact ite_self _

/-- One shape in one root. -/
def padTree : FileTree where
  root := .folder [("r", .folder [("shapes", .folder [("pad.json", .file "[]".toUTF8)])])]

/-- The shape is read while its file is there. -/
def padCalls : List (FileTree × StoreCall) := [(padTree, .addRoot "r"), (padTree, .get .shape "pad")]

/-- No files at all. -/
def bareTree : FileTree := {}

theorem get_snapshot_pad :
    ((afterAll {} padCalls).get bareTree .shape "pad").1.toOption.map Value.compact = some "[]" ∧
      ((afterAll {} (padCalls ++ [(bareTree, .forget .shape "pad")])).get bareTree .shape
        "pad").1.toOption.map Value.compact = none := by
  have hkept := (get_snapshot padCalls bareTree .shape "pad").1
  have hforgotten :=
    (get_snapshot (padCalls ++ [(bareTree, .forget .shape "pad")]) bareTree .shape "pad").1
  rw [hkept, hforgotten]
  refine ⟨?_, ?_⟩
  · decide +kernel
  · decide +kernel

/-- A board whose number stands over a text in its base, and the board with another number. -/
def clashTree (number : String) : FileTree where
  root := .folder [("r", .folder [("boards", .folder [
    ("b.json", .file ("\x7b\"_base\":\"x\",\"v\":".toUTF8 ++ number.toUTF8 ++ "\x7d".toUTF8)),
    ("_base", .folder [("x.json", .file "\x7b\"v\":\"s\"\x7d".toUTF8)])])])]

/-- A board that cannot be merged is remembered: a later get gives it and not the file as it is by then. -/
theorem get_after_clash :
    let s := afterAll {} [(clashTree "1", .addRoot "r")]
    let answer := fun s : Store => (s.get (clashTree "2") .board "b").1.toOption.map Value.compact
    (s.board (clashTree "1") "b").1.isOk = false ∧
      answer (s.after (clashTree "1") (.board "b")) = some "\x7b\"_base\":\"x\",\"v\":1\x7d" ∧
      answer s = some "\x7b\"_base\":\"x\",\"v\":2\x7d" := by
  refine ⟨?_, ?_, ?_⟩
  · decide +kernel
  · decide +kernel
  · decide +kernel

end Store

end BoardAtlas
