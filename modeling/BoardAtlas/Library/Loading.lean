import BoardAtlas.Manifest.Inherit

/-!
# Loading manifests

While files do not change, what can be read from them is a function: a `Library`. A computation over a
library gives its result and, whether it fails or not, the manifests and tables that it read, so that
they can be remembered. A computation that need not end is followed to a depth; if that is not enough, it has no
result, which is no failure.

* `Library`: everything that can be read;
* `Loaded`, `Loading`: what has been read, and a result with it;
* `Stop`, `Ends`: why there is no value, and results that no greater depth can change;
* `Library.manifest`, `Library.table`: reading one thing;
* `Library.board`: a board manifest over its bases.
-/

namespace BoardAtlas

/-- Everything that can be read while files do not change. -/
structure Library where
  manifest? : ManifestKind → String → Except ManifestError Value
  table? : TableKind → Except ManifestError (Dict Value)
  names? : ManifestKind → Bool → Except ManifestError (List String)

/-- Something that has been read. -/
inductive Loaded where
  | manifest (kind : ManifestKind) (name : String) (value : Value)
  | table (kind : TableKind) (entries : Dict Value)

/-- Why there is no value. -/
inductive Stop (ε : Type) where
  | failed (e : ε)
  /-- The computation goes on below the depth to which it was followed. -/
  | unfinished

/-- The same with failures reported otherwise. -/
def Stop.map {ε ε' : Type} (f : ε → ε') : Stop ε → Stop ε'
  | failed e => failed (f e)
  | unfinished => unfinished

/-- There is a value or a failure. -/
def Ends {ε α : Type} (result : Except (Stop ε) α) : Prop := result ≠ .error .unfinished

/-- A result, and what was read on the way to it. -/
structure Loading (ε α : Type) where
  loaded : List Loaded
  result : Except ε α

namespace Loading

variable {ε ε' α β : Type}

/-- A result for which nothing is read. -/
def ofExcept (x : Except ε α) : Loading ε α := ⟨[], x⟩

/-- Goes on with a result, if there is one. -/
def andThen (x : Loading ε α) (f : α → Loading ε β) : Loading ε β :=
  match x.result with
  | .ok a =>
    let y := f a
    ⟨x.loaded ++ y.loaded, y.result⟩
  | .error e => ⟨x.loaded, .error e⟩

/-- Goes on after an error. -/
def orRecover (x : Loading ε α) (f : ε → Loading ε α) : Loading ε α :=
  match x.result with
  | .ok _ => x
  | .error e =>
    let y := f e
    ⟨x.loaded ++ y.loaded, y.result⟩

/-- The same with errors reported otherwise. -/
def mapError (f : ε → ε') (x : Loading ε α) : Loading ε' α := ⟨x.loaded, x.result.mapError f⟩

/-- The result as a value, so that a failure does not stop what follows. -/
def attempt (x : Loading (Stop ε) α) : Loading (Stop ε') (Except ε α) where
  loaded := x.loaded
  result := match x.result with
    | .ok a => .ok (.ok a)
    | .error (.failed e) => .ok (.error e)
    | .error .unfinished => .error .unfinished

instance : Monad (Loading ε) where
  pure a := ofExcept (.ok a)
  bind := andThen

instance : MonadExceptOf ε (Loading ε) where
  throw e := ofExcept (.error e)
  tryCatch := orRecover

/-- The result of going on depends on results alone. -/
@[simp] theorem result_bind (x : Loading ε α) (f : α → Loading ε β) :
    (x >>= f).result = x.result >>= fun a => (f a).result := by
  change (x.andThen f).result = _
  unfold andThen
  cases x.result <;> rfl

@[simp] theorem result_pure (a : α) : (pure a : Loading ε α).result = .ok a := rfl

@[simp] theorem result_ofExcept (x : Except ε α) : (ofExcept x).result = x := rfl

@[simp] theorem result_mapError (f : ε → ε') (x : Loading ε α) :
    (x.mapError f).result = x.result.mapError f := rfl

theorem result_attempt {x : Loading (Stop ε) α} {v : Except ε α} (h : x.result = v.mapError .failed) :
    (x.attempt : Loading (Stop ε') (Except ε α)).result = .ok v := by
  rw [attempt, h]
  cases v <;> rfl

theorem result_attempt_of_unfinished {x : Loading (Stop ε) α} (h : x.result = .error .unfinished) :
    (x.attempt : Loading (Stop ε') (Except ε α)).result = .error .unfinished := by
  rw [attempt, h]

end Loading

namespace Library

/-- Reads a manifest. -/
def manifest (lib : Library) (kind : ManifestKind) (name : String) : Loading ManifestError Value :=
  match lib.manifest? kind name with
  | .ok v => ⟨[.manifest kind name v], .ok v⟩
  | .error e => ⟨[], .error e⟩

/-- Reads a table. -/
def table (lib : Library) (kind : TableKind) : Loading ManifestError (Dict Value) :=
  match lib.table? kind with
  | .ok d => ⟨[.table kind d], .ok d⟩
  | .error e => ⟨[], .error e⟩

@[simp] theorem result_manifest (lib : Library) (kind : ManifestKind) (name : String) :
    (lib.manifest kind name).result = lib.manifest? kind name := by
  unfold manifest
  cases lib.manifest? kind name <;> rfl

/-- A board manifest merged over its bases. -/
def board (lib : Library) (name : String) : Loading ManifestError Value := do
  let manifest ← lib.manifest .board name
  inherit (lib.manifest .boardBase) name manifest

end Library

end BoardAtlas
