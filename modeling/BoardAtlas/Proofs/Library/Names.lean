import BoardAtlas.Proofs.Ascending
import BoardAtlas.Proofs.Library.Calls
import BoardAtlas.Proofs.Library.Paths

/-!
# Listed names

A listing walks down the folders that are searched, a get makes a path of the name. On a tree whose names can stand in
a path both come by the same files, as long as the path of the file is not refused. The walk goes by the entries it
reads, so at the limit of paths it still shows names that no path leads to.

* `mem_nameOfEntry`, `mem_namesIn`: the names of one entry;
* `Meets`, `meets_nil_iff`, `meets_cons_iff`, **`mem_namesBelow`**: the names of a folder, by induction on its tree;
* `Shows`, `mem_list`, `list_flat`: the names of a kind;
* `Shows.isFile`, `Shows.exists_find?`, `get_ne_notFound`: where a get looks for them;
* **`list_shows`**: what is listed, and what a get finds of it;
* `staying`, `list_staying`, `get_staying`: a folder whose path reaches the limit.
-/

namespace BoardAtlas

namespace Store

variable {skipBases recursive : Bool} {path lead name x : String} {n : Node}

/-! ## Names in a folder -/

theorem mem_nameOfEntry :
    x ∈ nameOfEntry lead name ↔ ∃ stem, name = stem ++ ".json" ∧ x = lead ++ stem := by
  rw [nameOfEntry]
  by_cases hend : name.endsWith ".json" = true
  · obtain ⟨stem, rfl⟩ := endsWith_iff.1 hend
    have hstem : ((stem ++ ".json").dropEnd ".json".length).toString = stem := by
      refine String.toList_inj.1 ?_
      change ((stem ++ ".json").dropEnd ".json".length).copy.toList = _
      rw [String.toList_copy_dropEnd, String.toList_append, List.length_append, ← String.length_toList,
        Nat.add_sub_cancel, List.take_left]
    rw [if_pos hend, hstem, List.mem_singleton]
    constructor
    · exact fun hx => ⟨stem, rfl, hx⟩
    · rintro ⟨stem', he, rfl⟩
      rw [String.append_left_inj] at he
      rw [he]
  · rw [if_neg hend]
    refine iff_of_false List.not_mem_nil ?_
    rintro ⟨stem, rfl, _⟩
    exact hend (endsWith_iff.2 ⟨stem, rfl⟩)

/-- The node at a path is not seen to be a folder: it is a file, or its path is refused. -/
def SeenAsFile (path : String) (n : Node) : Prop := pathFault? path = none → ∃ content, n = .file content

theorem mem_namesIn : x ∈ namesIn skipBases recursive path lead name n ↔
    SeenAsFile path n ∧ (∃ stem, name = stem ++ ".json" ∧ x = lead ++ stem) ∨
    ∃ entries, n = .folder entries ∧ pathFault? path = none ∧ recursive = true ∧
      (skipBases = true → lead = "" → name ≠ baseFolder) ∧
      x ∈ namesBelow skipBases recursive path (lead ++ name ++ "/") entries := by
  cases n with
  | file content =>
    rw [namesIn, mem_nameOfEntry]
    simp [SeenAsFile]
  | folder entries =>
    rw [namesIn]
    cases hfault : pathFault? path with
    | some fault =>
      rw [if_pos Option.isSome_some, mem_nameOfEntry]
      simp [SeenAsFile, hfault]
    | none =>
      have hfolder : ¬ SeenAsFile path (.folder entries) := fun h => by
        obtain ⟨content, he⟩ := h hfault
        cases he
      have hdown : (recursive && !(skipBases && lead == "" && name == baseFolder)) = true ↔
          recursive = true ∧ (skipBases = true → lead = "" → name ≠ baseFolder) := by
        simp [imp_iff_not_or, or_assoc]
      rw [if_neg (by simp)]
      by_cases h : recursive = true ∧ (skipBases = true → lead = "" → name ≠ baseFolder)
      · rw [if_pos (hdown.2 h)]
        refine ⟨fun hx => Or.inr ⟨entries, rfl, rfl, h.1, h.2, hx⟩, ?_⟩
        rintro (⟨hseen, _⟩ | ⟨_, ⟨⟩, _, _, _, hx⟩)
        · exact absurd hseen hfolder
        · exact hx
      · rw [if_neg (mt hdown.1 h)]
        refine iff_of_false List.not_mem_nil ?_
        rintro (⟨hseen, _⟩ | ⟨_, _, _, hrec, hbase, _⟩)
        · exact hfolder hseen
        · exact h ⟨hrec, hbase⟩

theorem mem_namesBelow_iff_exists {entries : List (String × Node)} :
    x ∈ namesBelow skipBases recursive path lead entries ↔
      ∃ e ∈ entries, x ∈ namesIn skipBases recursive (joinPath path e.1) lead e.1 e.2 := by
  induction entries with
  | nil => simp [namesBelow]
  | cons e rest ih =>
    obtain ⟨name, n⟩ := e
    rw [namesBelow, List.mem_append, ih, List.exists_mem_cons_iff]

/-- A listing comes by the entry `stem.json` behind the folders `below`: their path is not refused, the entry is not
seen to be a folder, and the way does not begin with the folder of base manifests where those are left out. -/
structure Meets (skipBases recursive : Bool) (path lead : String) (n : Node) (below : List String) (stem : String) :
    Prop where
  entry : ∃ m, n.at? (below ++ [stem ++ ".json"]) = some m ∧
    SeenAsFile (pathBelow path (below ++ [stem ++ ".json"])) m
  way : pathFault? (pathBelow path below) = none
  depth : recursive = true ∨ below = []
  base : skipBases = true → lead = "" → below.head? ≠ some baseFolder

section Meets

variable {entries : List (String × Node)} {stem : String} {below : List String}

theorem meets_nil_iff (hpath : pathFault? path = none) :
    Meets skipBases recursive path lead (.folder entries) [] stem ↔
      ∃ n, Dict.get? entries (stem ++ ".json") = some n ∧ SeenAsFile (joinPath path (stem ++ ".json")) n := by
  constructor
  · intro h
    obtain ⟨m, hm, hseen⟩ := h.entry
    rw [List.nil_append, Node.at?_folder] at hm
    obtain ⟨n, hget, hn⟩ := Option.bind_eq_some_iff.1 hm
    rw [Node.at?_nil] at hn
    cases hn
    exact ⟨_, hget, hseen⟩
  · rintro ⟨n, hget, hseen⟩
    refine ⟨⟨n, ?_, hseen⟩, hpath, Or.inr rfl, fun _ _ => by simp⟩
    rw [List.nil_append, Node.at?_folder, hget, Option.bind_some, Node.at?_nil]

theorem meets_cons_iff (hsound : (Node.folder entries).Sound) :
    Meets skipBases recursive path lead (.folder entries) (name :: below) stem ↔
      ∃ es, Dict.get? entries name = some (.folder es) ∧ pathFault? (joinPath path name) = none ∧
        recursive = true ∧ (skipBases = true → lead = "" → name ≠ baseFolder) ∧
        Meets skipBases recursive (joinPath path name) (lead ++ name ++ "/") (.folder es) below stem := by
  constructor
  · intro h
    obtain ⟨m, hm, hseen⟩ := h.entry
    rw [List.cons_append, Node.at?_folder] at hm
    obtain ⟨n, hget, hn⟩ := Option.bind_eq_some_iff.1 hm
    have hplain := ((hsound.child (Dict.mem_of_get? hget)).at? hn).2
    obtain ⟨first, rest, hsplit⟩ := List.exists_cons_of_ne_nil
      (List.append_ne_nil_of_right_ne_nil below (List.cons_ne_nil (stem ++ ".json") []))
    obtain ⟨es, _, rfl, _, _⟩ := Node.at?_eq_some_cons (hsplit ▸ hn)
    have hrec : recursive = true := h.depth.resolve_right (List.cons_ne_nil name below)
    refine ⟨es, hget, ?_, hrec, by simpa using h.base, ⟨m, hn, hseen⟩, h.way, Or.inl hrec, fun _ hlead => ?_⟩
    · exact pathFault?_of_pathBelow (fun name hname => hplain name (List.mem_append_left _ hname)) h.way
    · simp at hlead
  · rintro ⟨es, hget, _, hrec, hbase, h⟩
    obtain ⟨m, hm, hseen⟩ := h.entry
    refine ⟨⟨m, ?_, hseen⟩, h.way, Or.inl hrec, by simpa using hbase⟩
    rw [List.cons_append, Node.at?_folder, hget, Option.bind_some, hm]

end Meets

/-- **The names below a folder**, by induction on its tree. -/
theorem mem_namesBelow (hsound : n.Sound) {entries : List (String × Node)} (hn : n = .folder entries)
    (hpath : pathFault? path = none) :
    x ∈ namesBelow skipBases recursive path lead entries ↔
      ∃ below stem, x = lead ++ Text.joined "/" (below ++ [stem]) ∧
        Meets skipBases recursive path lead n below stem := by
  induction hsound generalizing path lead entries with
  | file => cases hn
  | folder entries hdistinct hnames hchildren ih =>
    cases hn
    have hsound : (Node.folder entries).Sound := .folder entries hdistinct hnames hchildren
    have hdeeper (name : String) (below : List String) (stem : String) :
        lead ++ Text.joined "/" (name :: below ++ [stem]) =
          lead ++ name ++ "/" ++ Text.joined "/" (below ++ [stem]) := by
      simp only [joined_cons_concat, String.append_assoc]
    rw [mem_namesBelow_iff_exists]
    constructor
    · rintro ⟨⟨name, n⟩, hmem, hx⟩
      have hget := Dict.get?_of_mem hdistinct hmem
      rcases mem_namesIn.1 hx with ⟨hseen, stem, rfl, rfl⟩ | ⟨es, rfl, hfault, hrec, hbase, hx⟩
      · exact ⟨[], stem, rfl, (meets_nil_iff hpath).2 ⟨n, hget, hseen⟩⟩
      · obtain ⟨below, stem, rfl, hmeets⟩ := (ih _ hmem rfl hfault).1 hx
        exact ⟨name :: below, stem, (hdeeper name below stem).symm,
          (meets_cons_iff hsound).2 ⟨es, hget, hfault, hrec, hbase, hmeets⟩⟩
    · rintro ⟨below, stem, rfl, hmeets⟩
      cases below with
      | nil =>
        obtain ⟨n, hget, hseen⟩ := (meets_nil_iff hpath).1 hmeets
        exact ⟨_, Dict.mem_of_get? hget, mem_namesIn.2 (Or.inl ⟨hseen, stem, rfl, rfl⟩)⟩
      | cons name below =>
        obtain ⟨es, hget, hfault, hrec, hbase, hmeets⟩ := (meets_cons_iff hsound).1 hmeets
        have hmem := Dict.mem_of_get? hget
        have hx := (ih _ hmem rfl hfault).2 ⟨below, stem, hdeeper name below stem, hmeets⟩
        exact ⟨_, hmem, mem_namesIn.2 (Or.inr ⟨es, rfl, hfault, hrec, hbase, hx⟩)⟩

/-! ## Names of a kind -/

/-- A searched folder shows the manifest `stem` behind the folders `below`: going down from the folder there is an
entry `stem.json` that is not seen to be a folder, behind a path that is not refused; base manifests stay hidden
among boards. -/
structure Shows (t : FileTree) (kind : ManifestKind) (folder : String) (below : List String) (stem : String) :
    Prop where
  entry : ∃ entries m, t.entries folder = .ok entries ∧
    (Node.folder entries).at? (below ++ [stem ++ ".json"]) = some m ∧
    SeenAsFile (pathBelow folder (below ++ [stem ++ ".json"])) m
  way : pathFault? (pathBelow folder below) = none
  base : kind = .board → below.head? ≠ some baseFolder

variable {s : Store} {t : FileTree} {kind : ManifestKind} {folder stem : String} {below names : List String}

theorem shows_and_iff {entries : List (String × Node)} (h : t.entries folder = .ok entries) :
    Shows t kind folder below stem ∧ (recursive = true ∨ below = []) ↔
      Meets (kind == .board) recursive folder "" (.folder entries) below stem := by
  constructor
  · rintro ⟨hshows, hdepth⟩
    obtain ⟨entries', m, hentries, hm, hseen⟩ := hshows.entry
    rw [h] at hentries
    cases hentries
    exact ⟨⟨m, hm, hseen⟩, hshows.way, hdepth, fun hkind _ => hshows.base (eq_of_beq hkind)⟩
  · intro hmeets
    obtain ⟨m, hm, hseen⟩ := hmeets.entry
    exact ⟨⟨⟨entries, m, h, hm, hseen⟩, hmeets.way, fun hkind => hmeets.base (beq_iff_eq.2 hkind) rfl⟩,
      hmeets.depth⟩

theorem sound_of_entries (hsound : t.root.Sound) {entries : List (String × Node)}
    (h : t.entries folder = .ok entries) : (Node.folder entries).Sound := by
  obtain ⟨_, _, hat⟩ := FileTree.locate_eq_ok_iff.1 (FileTree.entries_eq_ok_iff.1 h)
  exact (hsound.at? hat).1

theorem mem_namesOfFolder (hsound : t.root.Sound) (h : namesOfFolder t kind recursive folder = .ok names) :
    x ∈ names ↔ ∃ below stem, x = Text.joined "/" (below ++ [stem]) ∧
      Shows t kind folder below stem ∧ (recursive = true ∨ below = []) := by
  rw [namesOfFolder] at h
  cases hentries : t.entries folder with
  | ok entries =>
    rw [hentries] at h
    cases h
    obtain ⟨_, hresolve, _⟩ := FileTree.locate_eq_ok_iff.1 (FileTree.entries_eq_ok_iff.1 hentries)
    rw [mem_namesBelow (sound_of_entries hsound hentries) rfl (FileTree.resolve_eq_ok_iff.1 hresolve).1]
    simp only [shows_and_iff hentries, String.empty_append]
  | error fault =>
    rw [hentries] at h
    have hnone : names = [] := by
      cases fault <;> cases h
      rfl
    subst hnone
    refine iff_of_false List.not_mem_nil ?_
    rintro ⟨below, stem, _, hshows, _⟩
    obtain ⟨_, _, he, _⟩ := hshows.entry
    rw [hentries] at he
    cases he

theorem list_eq_ok_iff : s.list t kind recursive = .ok names ↔
    ∃ lists, (s.folders kind).mapM (namesOfFolder t kind recursive) = .ok lists ∧
      names = Listing.ascendingTexts lists.flatten := by
  rw [list, Except.bind_eq_ok]
  refine exists_congr fun lists => and_congr_right fun _ => ?_
  simp [pure, Except.pure, eq_comm]

theorem mem_list (hsound : t.root.Sound) (h : s.list t kind recursive = .ok names) :
    x ∈ names ↔ ∃ folder ∈ s.folders kind, ∃ below stem, x = Text.joined "/" (below ++ [stem]) ∧
      Shows t kind folder below stem ∧ (recursive = true ∨ below = []) := by
  obtain ⟨lists, hlists, rfl⟩ := list_eq_ok_iff.1 h
  rw [Listing.mem_ascendingTexts, Except.mem_flatten_of_mapM hlists]
  refine exists_congr fun folder => and_congr_right fun hfolder => ?_
  constructor
  · rintro ⟨own, hown, hx⟩
    exact (mem_namesOfFolder hsound hown).1 hx
  · intro hx
    obtain ⟨own, hown⟩ := Except.exists_mapM_eq_ok_iff.1 ⟨lists, hlists⟩ folder hfolder
    exact ⟨own, hown, (mem_namesOfFolder hsound hown).2 hx⟩

theorem pairwise_list (h : s.list t kind recursive = .ok names) : names.Pairwise (· < ·) := by
  obtain ⟨lists, _, rfl⟩ := list_eq_ok_iff.1 h
  exact Listing.pairwise_ascendingTexts _

theorem exists_list_eq_ok (h : s.list t kind true = .ok names) : ∃ names', s.list t kind false = .ok names' := by
  obtain ⟨lists, hlists, _⟩ := list_eq_ok_iff.1 h
  have hflat : ∃ lists', (s.folders kind).mapM (namesOfFolder t kind false) = .ok lists' := by
    refine Except.exists_mapM_eq_ok_iff.2 fun folder hfolder => ?_
    obtain ⟨own, hown⟩ := Except.exists_mapM_eq_ok_iff.1 ⟨lists, hlists⟩ folder hfolder
    rw [namesOfFolder] at hown ⊢
    cases hentries : t.entries folder with
    | ok entries => exact ⟨_, rfl⟩
    | error fault =>
      rw [hentries] at hown
      cases fault <;> cases hown
      exact ⟨_, rfl⟩
  obtain ⟨lists', hlists'⟩ := hflat
  exact ⟨_, list_eq_ok_iff.2 ⟨lists', hlists', rfl⟩⟩

theorem Shows.plain (hsound : t.root.Sound) (h : Shows t kind folder below stem) :
    ∀ name ∈ below ++ [stem ++ ".json"], PlainName name := by
  obtain ⟨entries, m, hentries, hm, _⟩ := h.entry
  exact ((sound_of_entries hsound hentries).at? hm).2

theorem Shows.slash_mem_iff (hsound : t.root.Sound) (h : Shows t kind folder below stem) :
    '/' ∈ (Text.joined "/" (below ++ [stem])).toList ↔ below ≠ [] := by
  cases below with
  | nil =>
    have hplain := (h.plain hsound _ List.mem_cons_self).noSlash
    rw [String.toList_append, List.mem_append, not_or] at hplain
    simpa [Text.joined] using hplain.1
  | cons name below =>
    rw [joined_cons_concat]
    simp

theorem list_flat (hsound : t.root.Sound) (h : s.list t kind true = .ok names) :
    s.list t kind false = .ok (names.filter fun name => '/' ∉ name.toList) := by
  obtain ⟨flat, hflat⟩ := exists_list_eq_ok h
  rw [hflat]
  refine congrArg _ (List.Pairwise.eq_of_mem_iff (pairwise_list hflat) ((pairwise_list h).filter _) fun x => ?_)
  rw [List.mem_filter, mem_list hsound hflat, mem_list hsound h]
  simp only [decide_eq_true_eq, true_or, and_true, Bool.false_eq_true, false_or]
  constructor
  · rintro ⟨folder, hfolder, below, stem, rfl, hshows, rfl⟩
    exact ⟨⟨folder, hfolder, [], stem, rfl, hshows⟩, fun hslash => (hshows.slash_mem_iff hsound).1 hslash rfl⟩
  · rintro ⟨⟨folder, hfolder, below, stem, rfl, hshows⟩, hslash⟩
    exact ⟨folder, hfolder, below, stem, rfl, hshows, not_not.1 (mt (hshows.slash_mem_iff hsound).2 hslash)⟩

/-! ## Reading what is listed -/

theorem joined_concat_append (below : List String) (stem tail : String) :
    Text.joined "/" (below ++ [stem ++ tail]) = Text.joined "/" (below ++ [stem]) ++ tail := by
  induction below with
  | nil => simp [Text.joined]
  | cons name below ih => simp only [joined_cons_concat, ih, String.append_assoc]

/-- What a folder shows with a path that is not refused is a file where a manifest of this name is looked for. -/
theorem Shows.isFile (hsound : t.root.Sound) (h : Shows t kind folder below stem)
    (hfault : pathFault? (pathBelow folder (below ++ [stem ++ ".json"])) = none) :
    t.isFile (joinPath folder (Text.joined "/" (below ++ [stem]) ++ ".json")) = true := by
  obtain ⟨entries, m, hentries, hm, hseen⟩ := h.entry
  obtain ⟨content, rfl⟩ := hseen hfault
  have hlocate := FileTree.entries_eq_ok_iff.1 hentries
  obtain ⟨_, hresolve, _⟩ := FileTree.locate_eq_ok_iff.1 hlocate
  have hfolder : folder ≠ "" := (FileTree.resolve_eq_ok_iff.1 hresolve).2.1
  rw [← joined_concat_append, ← pathBelow_eq_joinPath hfolder (h.plain hsound), FileTree.isFile_iff]
  exact ⟨content, FileTree.locate_pathBelow (sound_of_entries hsound hentries) hlocate hm hfault⟩

theorem readValue_ne_notFound (t : FileTree) (path : String) (k : ManifestKind) (n : String) :
    readValue t path ≠ .error (.notFound k n) := by
  rw [readValue]
  cases t.readText path with
  | error fault => simp [Except.mapError, bind, Except.bind]
  | ok text =>
    cases hjson : Json.read text with
    | error cause => simp [Except.mapError, bind, Except.bind, hjson]
    | ok json => simp [Except.mapError, bind, Except.bind, hjson, pure, Except.pure]

theorem get_ne_notFound {file : String} (h : s.find? t kind name = some file) (k : ManifestKind) (n : String) :
    (s.get t kind name).1 ≠ .error (.notFound k n) := by
  rw [get_eq, ← readManifest_eq, readManifest, h]
  cases s.remembered? kind name with
  | some v => simp
  | none => exact readValue_ne_notFound t file k n

/-- What a folder shows is found by a get, as long as its path is not refused. -/
theorem Shows.exists_find? (hsound : t.root.Sound) (hfolder : folder ∈ s.folders kind)
    (h : Shows t kind folder below stem)
    (hfault : pathFault? (pathBelow folder (below ++ [stem ++ ".json"])) = none) :
    ∃ file, s.find? t kind (Text.joined "/" (below ++ [stem])) = some file ∧ t.isFile file = true := by
  have hsome : (s.find? t kind (Text.joined "/" (below ++ [stem]))).isSome = true := by
    rw [find?, List.find?_isSome]
    exact ⟨_, List.mem_map.2 ⟨folder, hfolder, rfl⟩, h.isFile hsound hfault⟩
  obtain ⟨file, hfind⟩ := Option.isSome_iff_exists.1 hsome
  exact ⟨file, hfind, List.find?_some hfind⟩

/-- **Listing and reading agree.** A list holds each name once, and just those that some folder shows; without the
folders below it holds the names without a slash. Every name that is shown with a path that is not refused has a file
that a get finds, and so is not missing. -/
theorem list_shows (hsound : t.root.Sound) (h : s.list t kind true = .ok names) :
    names.Pairwise (· < ·) ∧
    (∀ name, name ∈ names ↔ ∃ folder ∈ s.folders kind, ∃ below stem,
      name = Text.joined "/" (below ++ [stem]) ∧ Shows t kind folder below stem) ∧
    s.list t kind false = .ok (names.filter fun name => '/' ∉ name.toList) ∧
    ∀ folder ∈ s.folders kind, ∀ below stem, Shows t kind folder below stem →
      pathFault? (pathBelow folder (below ++ [stem ++ ".json"])) = none →
      (∃ file, s.find? t kind (Text.joined "/" (below ++ [stem])) = some file ∧ t.isFile file = true) ∧
      ∀ k n, (s.get t kind (Text.joined "/" (below ++ [stem]))).1 ≠ .error (.notFound k n) := by
  refine ⟨pairwise_list h, fun name => ?_, list_flat hsound h, ?_⟩
  · rw [mem_list hsound h]
    simp
  · intro folder hfolder below stem hshows hfault
    obtain ⟨file, hfind, hfile⟩ := hshows.exists_find? hsound hfolder hfault
    exact ⟨⟨file, hfind, hfile⟩, get_ne_notFound hfind⟩

/-- Shapes: a file, a folder with a file, and a folder with a name as of a file. -/
def shapeEntries : List (String × Node) :=
  [("abcdefghij.json", .file ⟨#[]⟩), ("klmnopqrst", .folder [("x.json", .file ⟨#[]⟩)]),
    ("uvwxyz.json", .folder [("y.json", .file ⟨#[]⟩)])]

/-- A resource root with these shapes. -/
def shapesTree : FileTree := { root := .folder [("res", .folder [("shapes", .folder shapeEntries)])] }

theorem sound_shapesTree : shapesTree.root.Sound := by
  have single {name : String} {n : Node} (hname : PlainName name) (hn : n.Sound) : (Node.folder [(name, n)]).Sound :=
    .folder _ (List.nodup_singleton name) (by simpa using hname) (by simpa using hn)
  refine single (by decide) (single (by decide) (.folder _ (show List.Nodup _ by decide) ?_ ?_))
  · simp only [shapeEntries, List.forall_mem_cons]
    decide
  · simp only [shapeEntries, List.forall_mem_cons, List.not_mem_nil, false_imp_iff, implies_true, and_true]
    exact ⟨.file _, single (by decide) (.file _), single (by decide) (.file _)⟩

theorem list_shows_shapesTree :
    (ofRoots ["res"]).list shapesTree .shape true = .ok ["abcdefghij", "klmnopqrst/x", "uvwxyz.json/y"] ∧
      (ofRoots ["res"]).list shapesTree .shape false = .ok ["abcdefghij"] := by
  have h : (ofRoots ["res"]).list shapesTree .shape true = .ok ["abcdefghij", "klmnopqrst/x", "uvwxyz.json/y"] := by
    refine list_eq_ok_iff.2 ⟨[["abcdefghij", "klmnopqrst/x", "uvwxyz.json/y"]], by decide +kernel, ?_⟩
    exact (Listing.ascendingTexts_of_pairwise (by decide)).symm
  exact ⟨h, (list_shows sound_shapesTree h).2.2.1⟩

/-! ### Paths at the limit -/

/-- A path with steps in front of it that stay where they are. -/
def staying : Nat → String → String
  | 0, path => path
  | n + 1, path => "./" ++ staying n path

theorem staying_append (n : Nat) (path rest : String) : staying n path ++ rest = staying n (path ++ rest) := by
  induction n with
  | zero => rfl
  | succ n ih => rw [staying, staying, String.append_assoc, ih]

theorem utf8ByteSize_staying (n : Nat) (path : String) :
    (staying n path).utf8ByteSize = 2 * n + path.utf8ByteSize := by
  induction n with
  | zero => simp [staying]
  | succ n ih =>
    have hsize : ("./" : String).utf8ByteSize = 2 := by decide
    rw [staying, String.utf8ByteSize_append, ih, hsize]
    omega

theorem staying_ne_empty (n : Nat) {path : String} (h : path ≠ "") : staying n path ≠ "" := by
  cases n with
  | zero => exact h
  | succ n => simp [staying]

theorem joinPath_staying (n : Nat) (front : String) {last name : String} (hlast : PlainName last)
    (hname : PlainName name) :
    joinPath (staying n (front ++ last)) name = staying n (front ++ last ++ "/" ++ name) := by
  have hne : staying n (front ++ last) ≠ "" := staying_ne_empty n (by simp [hlast.nonempty])
  have hend : ¬ (staying n (front ++ last)).endsWith "/" = true := by
    rw [← staying_append]
    exact hlast.not_endsWith_append _
  rw [joinPath_of_relative hne hname.not_startsWith, if_neg hend, staying_append, staying_append]

theorem pathFault?_staying (n : Nat) {path : String} (hzero : '\x00' ∉ path.toList) :
    pathFault? (staying n path) = none ↔ 2 * n + path.utf8ByteSize ≤ pathLimit := by
  have hmem : '\x00' ∉ (staying n path).toList := by
    induction n with
    | zero => exact hzero
    | succ n ih => simp [staying, ih]
  rw [pathFault?_eq_none_iff, utf8ByteSize_staying, and_iff_right hmem]

theorem follow_staying {root : Node} {entries : List (String × Node)} {names : List String}
    (h : root.at? names.reverse = some (.folder entries)) (n : Nat) (path : String) :
    FileTree.follow root names (FileTree.steps (staying n path)) =
      FileTree.follow root names (FileTree.steps path) := by
  induction n with
  | zero => rfl
  | succ n ih =>
    have hsteps : FileTree.steps (staying (n + 1) path) = ["."] ++ FileTree.steps (staying n path) :=
      Text.piecesOf_separated '/' "." (staying n path)
    have hstay : FileTree.follow root names ["."] = .ok names := by simp [FileTree.follow, h]
    rw [hsteps, FileTree.follow_append, hstay]
    exact ih

section Far

variable {n : Nat}

theorem entries_staying (hn : 2 * n + 10 ≤ pathLimit) :
    shapesTree.entries (staying n "res/shapes") = .ok shapeEntries := by
  have hstart : shapesTree.start (staying n "res/shapes") = [] := ite_self []
  refine FileTree.entries_eq_ok_iff.2 (FileTree.locate_eq_ok_iff.2 ⟨["res", "shapes"], ?_, rfl⟩)
  refine FileTree.resolve_eq_ok_iff.2
    ⟨(pathFault?_staying n (by decide)).2 hn, staying_ne_empty n (by decide), ?_⟩
  have hroot : shapesTree.root.at? [].reverse =
      some (.folder [("res", .folder [("shapes", .folder shapeEntries)])]) := rfl
  rw [hstart, List.reverse_nil, follow_staying hroot]
  decide

theorem isSome_pathFault?_staying {name : String} (hname : PlainName name) (hzero : '\x00' ∉ name.toList)
    (hn : pathLimit < 2 * n + 11 + name.utf8ByteSize) :
    (pathFault? (joinPath (staying n "res/shapes") name)).isSome = true := by
  have hshapes : PlainName "shapes" := by decide
  have hjoin : joinPath (staying n "res/shapes") name = staying n ("res/" ++ "shapes" ++ "/" ++ name) :=
    joinPath_staying n "res/" hshapes hname
  have hsize : ("res/" ++ "shapes" ++ "/" : String).utf8ByteSize = 11 := by decide
  have hlead : '\x00' ∉ ("res/" ++ "shapes" ++ "/" : String).toList := by decide
  rw [Option.isSome_iff_ne_none, hjoin, ne_eq, pathFault?_staying, String.utf8ByteSize_append, hsize]
  · omega
  · rw [String.toList_append, List.mem_append]
    exact fun hmem => hmem.elim hlead hzero

theorem folders_staying : (ofRoots [staying n "res"]).folders .shape = [staying n "res/shapes"] := by
  have hres : PlainName "res" := by decide
  have hshapes : PlainName "shapes" := by decide
  exact congrArg (fun folder => [folder]) (joinPath_staying n "" hres hshapes)

/-- Where the folder of shapes has a path within the limit and its entries have none, they all count as files. -/
theorem list_staying (hn : 2 * n + 10 ≤ pathLimit) (hfar : pathLimit < 2 * n + 21) :
    (ofRoots [staying n "res"]).list shapesTree .shape true = .ok ["abcdefghij", "uvwxyz"] := by
  have hfolder : (pathFault? (joinPath (staying n "res/shapes") "klmnopqrst")).isSome = true :=
    isSome_pathFault?_staying (by decide) (by decide) hfar
  have hnamed : (pathFault? (joinPath (staying n "res/shapes") "uvwxyz.json")).isSome = true :=
    isSome_pathFault?_staying (by decide) (by decide) (Nat.lt_succ_of_lt hfar)
  refine list_eq_ok_iff.2 ⟨[["abcdefghij", "uvwxyz"]], ?_, (Listing.ascendingTexts_of_pairwise (by decide)).symm⟩
  rw [folders_staying, Except.mapM_eq_ok_iff, List.forall₂_cons]
  refine ⟨?_, .nil⟩
  rw [namesOfFolder, entries_staying hn]
  simp only [shapeEntries, namesBelow, namesIn, hfolder, hnamed, if_true]
  decide +kernel

theorem get_staying (hfar : pathLimit < 2 * n + 21) :
    ((ofRoots [staying n "res"]).get shapesTree .shape "abcdefghij").1 = .error (.notFound .shape "abcdefghij") := by
  have hmissing : shapesTree.isFile (joinPath (staying n "res/shapes") ("abcdefghij" ++ ".json")) = false := by
    refine Bool.eq_false_iff.2 fun hfile => ?_
    obtain ⟨_, hlocate⟩ := FileTree.isFile_iff.1 hfile
    obtain ⟨_, hresolve, _⟩ := FileTree.locate_eq_ok_iff.1 hlocate
    have hfault : (pathFault? (joinPath (staying n "res/shapes") ("abcdefghij" ++ ".json"))).isSome = true :=
      isSome_pathFault?_staying (by decide) (by decide) (Nat.lt_add_right 5 hfar)
    rw [(FileTree.resolve_eq_ok_iff.1 hresolve).1] at hfault
    cases hfault
  rw [get_eq, folders_staying, readFirst, hmissing]
  rfl

end Far

/-- With a path of 4090 bytes to the folder of shapes, a listing shows what no get finds, and shows no file behind a
folder. -/
theorem list_beyond_pathLimit :
    shapesTree.root.Sound ∧ (ofRoots [staying 2040 "res"]).folders .shape = [staying 2040 "res/shapes"] ∧
      shapesTree.entries (staying 2040 "res/shapes") = .ok shapeEntries ∧
      (Node.folder shapeEntries).at? ["klmnopqrst", "x.json"] = some (.file ⟨#[]⟩) ∧
      (ofRoots [staying 2040 "res"]).list shapesTree .shape true = .ok ["abcdefghij", "uvwxyz"] ∧
      ((ofRoots [staying 2040 "res"]).get shapesTree .shape "abcdefghij").1 =
        .error (.notFound .shape "abcdefghij") :=
  ⟨sound_shapesTree, folders_staying, entries_staying (by decide), rfl, list_staying (by decide) (by decide),
    get_staying (by decide)⟩

end Store

end BoardAtlas
