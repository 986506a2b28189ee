import BoardAtlas.Proofs.Library.Paths

/-!
# Written files

A write puts a file into a folder that is there, and nothing else changes: folders stay folders, so that paths lead
where they led before, and whether a file can be written does not depend on the files that are written before it.

* `Found`, `Node.found`: what is found at a place, without what is below it;
* **`Node.found_put`**: a file put into a folder changes what is found at one place;
* `FileTree.SameFolders`, `FileTree.SameFolders.resolve_iff`: trees with the same folders have the same paths;
* `FileTree.write_eq_ok_iff`, `FileTree.canWrite`: what can be written;
* `FileTree.Written`: one write after the other, with `Written.sameFolders`, **`Written.readText_iff`** and
  **`Written.readText_of_split`** about what can be read then.
-/

namespace BoardAtlas

/-! ## Places -/

/-- What is found at a place. -/
inductive Found where
  | nothing
  | file (content : ByteArray)
  | folder

namespace Node

/-- What is found below the names. -/
def found (n : Node) (names : List String) : Found :=
  match n.at? names with
  | none => .nothing
  | some (.file content) => .file content
  | some (.folder _) => .folder

variable {n : Node} {names : List String}

theorem found_folder (entries : List (String × Node)) (name : String) (rest : List String) :
    (Node.folder entries).found (name :: rest) =
      ((Dict.get? entries name).map fun n => n.found rest).getD .nothing := by
  rw [found, at?_folder]
  cases Dict.get? entries name <;> rfl

theorem found_eq_folder_iff : n.found names = .folder ↔ ∃ entries, n.at? names = some (.folder entries) := by
  rw [found]
  split <;> simp_all

theorem eq_folder_of_found (h : n.found names = .folder) : ∃ entries, n = .folder entries := by
  cases n with
  | folder entries => exact ⟨entries, rfl⟩
  | file content => cases names <;> cases h

theorem found_cons_of_ne_folder (h : n.found [] ≠ .folder) (name : String) (rest : List String) :
    n.found (name :: rest) = .nothing := by
  cases n with
  | file content => rfl
  | folder entries => exact absurd rfl h

theorem found_dropLast (hne : names ≠ []) (h : n.found names ≠ .nothing) : n.found names.dropLast = .folder := by
  rw [← List.dropLast_append_getLast hne, found, at?_append] at h
  rw [found]
  cases hlead : n.at? names.dropLast with
  | none => simp [hlead] at h
  | some m =>
    cases m with
    | folder entries => rfl
    | file content => simp [hlead, at?_file] at h

/-- **A file put into a folder**, in a place where no folder is, changes what is found at this place only. -/
theorem found_put {root : Node} (content : ByteArray) (hparent : root.found names.dropLast = .folder)
    (hfree : root.found names ≠ .folder) (other : List String) :
    (put (.file content) names root).found other = if other = names then .file content else root.found other := by
  induction names generalizing root other with
  | nil => exact absurd hparent hfree
  | cons name rest ih =>
    obtain ⟨entries, rfl⟩ := eq_folder_of_found hparent
    cases other with
    | nil => rfl
    | cons step below =>
      rw [put, found_folder, found_folder, Dict.get?_insert]
      by_cases hstep : name = step
      · subst hstep
        rw [if_pos rfl, Option.map_some, Option.getD_some]
        simp only [List.cons.injEq, true_and]
        cases rest with
        | nil =>
          cases below with
          | nil => rfl
          | cons step below =>
            rw [if_neg (List.cons_ne_nil step below)]
            rw [found_folder] at hfree
            cases hget : Dict.get? entries name with
            | none => rfl
            | some child =>
              rw [hget] at hfree
              exact (found_cons_of_ne_folder hfree step below).symm
        | cons next more =>
          rw [List.dropLast_cons_of_ne_nil (List.cons_ne_nil next more), found_folder] at hparent
          rw [found_folder] at hfree
          cases hget : Dict.get? entries name with
          | none => simp [hget] at hparent
          | some child =>
            rw [hget] at hparent hfree
            exact ih hparent hfree below
      · rw [if_neg hstep, if_neg]
        rintro ⟨⟩
        exact hstep rfl

end Node

/-! ## Trees with the same folders -/

namespace FileTree

theorem fromUTF8?_toUTF8 (s : String) : String.fromUTF8? s.toUTF8 = some s := by
  simp only [String.fromUTF8?, String.toUTF8_eq_toByteArray, dif_pos s.isValidUTF8]
  rfl

variable {t t' t'' : FileTree} {path other : String} {names : List String} {content : ByteArray}

theorem readText_eq_ok_iff {s : String} : t.readText path = .ok s ↔
    ∃ names content, t.resolve path = .ok names ∧ t.root.found names = .file content ∧
      String.fromUTF8? content = some s := by
  rw [readText, Except.bind_eq_ok]
  constructor
  · rintro ⟨n, hn, hs⟩
    obtain ⟨names, hnames, hat⟩ := locate_eq_ok_iff.1 hn
    cases n with
    | folder entries => cases hs
    | file content =>
      refine ⟨names, content, hnames, by rw [Node.found, hat], ?_⟩
      cases htext : String.fromUTF8? content with
      | none => simp [htext, throw, throwThe, MonadExceptOf.throw] at hs
      | some s' => simpa [htext, pure, Except.pure] using hs
  · rintro ⟨names, content, hnames, hfound, hs⟩
    rw [Node.found] at hfound
    split at hfound
    · cases hfound
    · next content' hat =>
      cases hfound
      refine ⟨_, locate_eq_ok_iff.2 ⟨names, hnames, hat⟩, ?_⟩
      simp [hs, pure, Except.pure]
    · cases hfound

/-- Relative paths start in the same place, and folders are in the same places. -/
structure SameFolders (t t' : FileTree) : Prop where
  here : t'.here = t.here
  found_iff : ∀ names, t'.root.found names = .folder ↔ t.root.found names = .folder

namespace SameFolders

theorem refl (t : FileTree) : SameFolders t t := ⟨rfl, fun _ => Iff.rfl⟩

theorem symm (h : SameFolders t t') : SameFolders t' t := ⟨h.here.symm, fun names => (h.found_iff names).symm⟩

theorem trans (h : SameFolders t t') (h' : SameFolders t' t'') : SameFolders t t'' :=
  ⟨h'.here.trans h.here, fun names => (h'.found_iff names).trans (h.found_iff names)⟩

theorem follow_eq_ok (h : SameFolders t t') {steps names names' : List String}
    (hfollow : follow t.root names steps = .ok names') : follow t'.root names steps = .ok names' := by
  induction steps generalizing names with
  | nil => exact hfollow
  | cons step steps ih =>
    rw [follow] at hfollow
    split at hfollow
    · next entries hat =>
      obtain ⟨entries', hat'⟩ := Node.found_eq_folder_iff.1
        ((h.found_iff _).2 (Node.found_eq_folder_iff.2 ⟨entries, hat⟩))
      rw [follow, hat']
      dsimp only
      split at hfollow
      · next hstay =>
        rw [if_pos hstay]
        exact ih hfollow
      · next hstay =>
        rw [if_neg hstay]
        split at hfollow
        · next hback =>
          rw [if_pos hback]
          exact ih hfollow
        · next hback =>
          rw [if_neg hback]
          split at hfollow
          · cases hfollow
          · next hshort =>
            rw [if_neg hshort]
            exact ih hfollow
    · cases hfollow
    · cases hfollow

theorem resolve_eq_ok (h : SameFolders t t') (hresolve : t.resolve path = .ok names) :
    t'.resolve path = .ok names := by
  obtain ⟨hfault, hne, hfollow⟩ := resolve_eq_ok_iff.1 hresolve
  have hstart : t'.start path = t.start path := by rw [start, start, h.here]
  exact resolve_eq_ok_iff.2 ⟨hfault, hne, hstart ▸ h.follow_eq_ok hfollow⟩

theorem resolve_iff (h : SameFolders t t') : t'.resolve path = .ok names ↔ t.resolve path = .ok names :=
  ⟨h.symm.resolve_eq_ok, h.resolve_eq_ok⟩

end SameFolders

/-! ## Writing a file -/

theorem found_root_of_resolve (h : t.resolve path = .ok names) : t.root.found [] = .folder := by
  obtain ⟨-, -, hfollow⟩ := resolve_eq_ok_iff.1 h
  obtain ⟨step, rest, hsteps⟩ := List.exists_cons_of_ne_nil (Text.piecesOf_ne_nil '/' path)
  rw [steps, hsteps, follow] at hfollow
  split at hfollow
  · next entries hat =>
    obtain ⟨entries', hroot⟩ := Node.eq_folder_of_found (Node.found_eq_folder_iff.2 ⟨entries, hat⟩)
    rw [hroot]
    rfl
  · cases hfollow
  · cases hfollow

theorem write_eq_ok_iff : t.write path content = .ok t' ↔
    ∃ names, t.resolve path = .ok names ∧ t.root.found names.dropLast = .folder ∧ t.root.found names ≠ .folder ∧
      t' = { t with root := Node.put (.file content) names t.root } := by
  rw [write, Except.bind_eq_ok]
  refine exists_congr fun names => and_congr_right fun hresolve => ?_
  cases hat : t.root.at? names with
  | none =>
    have hfound : t.root.found names = .nothing := by rw [Node.found, hat]
    rw [hfound]
    cases hparent : t.root.at? names.dropLast with
    | none => simp [Node.found, hparent, throw, throwThe, MonadExceptOf.throw, bind, Except.bind]
    | some m =>
      cases m with
      | file content => simp [Node.found, hparent, throw, throwThe, MonadExceptOf.throw, bind, Except.bind]
      | folder entries => simp [Node.found, hparent, pure, Except.pure, eq_comm]
  | some m =>
    cases m with
    | folder entries =>
      have hfound : t.root.found names = .folder := by rw [Node.found, hat]
      simp [hfound, throw, throwThe, MonadExceptOf.throw, bind, Except.bind]
    | file old =>
      have hfound : t.root.found names = .file old := by rw [Node.found, hat]
      have hne : names ≠ [] := by
        rintro rfl
        rw [found_root_of_resolve hresolve] at hfound
        cases hfound
      have hparent : t.root.found names.dropLast = .folder :=
        Node.found_dropLast hne (by simp [hfound])
      simp [hfound, hparent, pure, Except.pure, eq_comm]

theorem found_write (h : t.write path content = .ok t') : SameFolders t t' ∧
    ∃ names, t.resolve path = .ok names ∧
      ∀ other, t'.root.found other = if other = names then .file content else t.root.found other := by
  obtain ⟨names, hresolve, hparent, hfree, rfl⟩ := write_eq_ok_iff.1 h
  have hput := Node.found_put content hparent hfree
  refine ⟨⟨rfl, fun other => ?_⟩, names, hresolve, hput⟩
  change (Node.put (.file content) names t.root).found other = .folder ↔ _
  rw [hput]
  split
  · next he => simp [he, hfree]
  · rfl

/-- A file can be written at the path. -/
def canWrite (t : FileTree) (path : String) : Bool := (t.write path .empty).toOption.isSome

theorem canWrite_iff : t.canWrite path = true ↔
    ∃ names, t.resolve path = .ok names ∧ t.root.found names.dropLast = .folder ∧ t.root.found names ≠ .folder := by
  rw [canWrite, Option.isSome_iff_exists]
  simp only [Except.toOption_eq_some, write_eq_ok_iff]
  exact ⟨fun ⟨_, names, hresolve, hparent, hfree, _⟩ => ⟨names, hresolve, hparent, hfree⟩,
    fun ⟨names, hresolve, hparent, hfree⟩ => ⟨_, names, hresolve, hparent, hfree, rfl⟩⟩

theorem exists_write_iff (content : ByteArray) : (∃ t', t.write path content = .ok t') ↔ t.canWrite path = true := by
  rw [canWrite_iff]
  simp only [write_eq_ok_iff]
  exact ⟨fun ⟨_, names, hresolve, hparent, hfree, _⟩ => ⟨names, hresolve, hparent, hfree⟩,
    fun ⟨names, hresolve, hparent, hfree⟩ => ⟨_, names, hresolve, hparent, hfree, rfl⟩⟩

theorem SameFolders.canWrite_eq (h : SameFolders t t') (path : String) : t'.canWrite path = t.canWrite path := by
  rw [Bool.eq_iff_iff, canWrite_iff, canWrite_iff]
  simp only [h.resolve_iff, h.found_iff, ne_eq]

/-! ## Writing one file after the other -/

/-- The tree after files have been written one after the other. -/
inductive Written : FileTree → List (String × ByteArray) → FileTree → Prop
  | nil (t : FileTree) : Written t [] t
  | cons {t t' t'' : FileTree} {path : String} {content : ByteArray} {files : List (String × ByteArray)} :
    t.write path content = .ok t' → Written t' files t'' → Written t ((path, content) :: files) t''

namespace Written

variable {files : List (String × ByteArray)}

theorem sameFolders (h : Written t files t') : SameFolders t t' := by
  induction h with
  | nil t => exact .refl t
  | cons hwrite _ ih => exact (found_write hwrite).1.trans ih

theorem found_of_forall (h : Written t files t') (hother : ∀ file ∈ files, t.resolve file.1 ≠ .ok names) :
    t'.root.found names = t.root.found names := by
  induction h with
  | nil t => rfl
  | cons hwrite _ ih =>
    obtain ⟨hsame, place, hplace, hfound⟩ := found_write hwrite
    obtain ⟨hfirst, hrest⟩ := List.forall_mem_cons.1 hother
    have hne : names ≠ place := by
      rintro rfl
      exact hfirst hplace
    rw [ih fun file hfile he => hrest file hfile (hsame.resolve_iff.1 he), hfound, if_neg hne]

theorem readText_iff {s : String} (h : Written t files t')
    (hother : ∀ file ∈ files, t.resolve file.1 ≠ t.resolve path) :
    t'.readText path = .ok s ↔ t.readText path = .ok s := by
  rw [readText_eq_ok_iff, readText_eq_ok_iff]
  refine exists_congr fun names => exists_congr fun content => ?_
  rw [h.sameFolders.resolve_iff]
  refine and_congr_right fun hresolve => ?_
  rw [h.found_of_forall fun file hfile he => hother file hfile (he.trans hresolve.symm)]

theorem exists_of_append {before after : List (String × ByteArray)} (h : Written t (before ++ after) t'') :
    ∃ t', Written t before t' ∧ Written t' after t'' := by
  induction before generalizing t with
  | nil => exact ⟨t, .nil t, h⟩
  | cons file before ih =>
    cases h with
    | cons hwrite hrest =>
      obtain ⟨t', hbefore, hafter⟩ := ih hrest
      exact ⟨t', .cons hwrite hbefore, hafter⟩

/-- A text that is written can be read, unless a later file is written to the same place. -/
theorem readText_of_split {before after : List (String × ByteArray)} {s : String}
    (h : Written t (before ++ (path, s.toUTF8) :: after) t'')
    (hother : ∀ file ∈ after, t.resolve file.1 ≠ t.resolve path) : t''.readText path = .ok s := by
  obtain ⟨t', hbefore, hrest⟩ := h.exists_of_append
  cases hrest with
  | @cons _ next _ _ _ _ hwrite hafter =>
    obtain ⟨hsame, place, hplace, hfound⟩ := found_write hwrite
    have hpath : t.resolve path = .ok place := hbefore.sameFolders.resolve_iff.1 hplace
    have hnext : SameFolders t next := hbefore.sameFolders.trans hsame
    rw [hafter.readText_iff, readText_eq_ok_iff]
    · exact ⟨place, s.toUTF8, hnext.resolve_eq_ok hpath, by rw [hfound, if_pos rfl], fromUTF8?_toUTF8 s⟩
    · intro file hfile he
      rw [hnext.resolve_eq_ok hpath] at he
      exact hother file hfile ((hnext.resolve_iff.1 he).trans hpath.symm)

end Written

end FileTree

end BoardAtlas
