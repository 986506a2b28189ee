import BoardAtlas.Library.FileTree
import BoardAtlas.Proofs.Result

/-!
# Paths below a folder

In a tree whose names can stand in a path, going down from a folder by names and following the path that is made
of these names lead to the same place, as long as the path is not refused.

* `PlainName`, `Node.Sound`: names that a folder can have, and trees of them;
* `joinPath_of_relative`, `joinPath_joinPath`: a path below a path, and one below both;
* `FileTree.follow_append`, `FileTree.locate_joinPath`: one step of a path more;
* `pathBelow`, `pathBelow_eq_joinPath`: the path below a folder that takes some names;
* **`FileTree.locate_pathBelow`**: what is found there.
-/

namespace BoardAtlas

/-! ## Beginnings and ends of texts -/

theorem startsWith_iff {s lead : String} : s.startsWith lead = true ↔ ∃ rest, s = lead ++ rest := by
  rw [String.startsWith_string_iff]
  constructor
  · rintro ⟨cs, h⟩
    exact ⟨String.ofList cs, String.toList_inj.1 (by rw [String.toList_append, String.toList_ofList, h])⟩
  · rintro ⟨rest, rfl⟩
    exact ⟨rest.toList, String.toList_append.symm⟩

theorem endsWith_iff {s tail : String} : s.endsWith tail = true ↔ ∃ front, s = front ++ tail := by
  rw [← String.endsWith_toSlice, String.Slice.endsWith_string_iff, String.copy_toSlice]
  constructor
  · rintro ⟨cs, h⟩
    exact ⟨String.ofList cs, String.toList_inj.1 (by rw [String.toList_append, String.toList_ofList, h])⟩
  · rintro ⟨front, rfl⟩
    exact ⟨front.toList, String.toList_append.symm⟩

theorem startsWith_slash_append {s : String} (h : s ≠ "") (rest : String) :
    (s ++ rest).startsWith "/" = s.startsWith "/" := by
  rw [Bool.eq_iff_iff, String.startsWith_string_iff, String.startsWith_string_iff, String.toList_append]
  cases hs : s.toList with
  | nil => exact absurd (String.toList_inj.1 hs) h
  | cons c cs => simp [List.cons_prefix_cons]

theorem joined_cons_concat (name : String) (names : List String) (last : String) :
    Text.joined "/" (name :: names ++ [last]) = name ++ "/" ++ Text.joined "/" (names ++ [last]) := by
  rw [Text.joined, Text.joined, List.cons_append, String.intercalate_cons_of_ne_nil (by simp)]

/-! ## Names -/

/-- A name that a folder can have an entry under. -/
structure PlainName (name : String) : Prop where
  nonempty : name ≠ ""
  ne_here : name ≠ "."
  ne_back : name ≠ ".."
  noSlash : '/' ∉ name.toList
  short : name.utf8ByteSize ≤ nameLimit

instance : DecidablePred PlainName := fun name =>
  decidable_of_iff (name ≠ "" ∧ name ≠ "." ∧ name ≠ ".." ∧ '/' ∉ name.toList ∧ name.utf8ByteSize ≤ nameLimit)
    ⟨fun ⟨hempty, hhere, hback, hslash, hshort⟩ => ⟨hempty, hhere, hback, hslash, hshort⟩,
      fun ⟨hempty, hhere, hback, hslash, hshort⟩ => ⟨hempty, hhere, hback, hslash, hshort⟩⟩

namespace PlainName

variable {name : String} (h : PlainName name)

include h

theorem toList_ne_nil : name.toList ≠ [] := fun hnil => h.nonempty (String.toList_inj.1 hnil)

theorem not_startsWith_append (rest : String) : ¬ (name ++ rest).startsWith "/" = true := by
  rw [startsWith_iff]
  rintro ⟨rest', he⟩
  have hfirst := congrArg (fun s => s.toList.head?) he
  simp only [String.toList_append, List.head?_append_of_ne_nil _ h.toList_ne_nil] at hfirst
  exact h.noSlash (List.mem_of_mem_head? hfirst)

theorem not_startsWith : ¬ name.startsWith "/" = true := by
  simpa only [String.append_empty] using h.not_startsWith_append ""

theorem not_endsWith_append (front : String) : ¬ (front ++ name).endsWith "/" = true := by
  rw [endsWith_iff]
  rintro ⟨front', he⟩
  have hlast := congrArg (fun s => s.toList.getLast?) he
  simp only [String.toList_append, List.getLast?_append_of_ne_nil _ h.toList_ne_nil] at hlast
  rw [List.getLast?_append_of_ne_nil _ (by decide)] at hlast
  exact h.noSlash (List.mem_of_getLast? hlast)

theorem piecesOf_eq : Text.piecesOf '/' name = [name] := Text.piecesOf_of_not_mem h.noSlash

end PlainName

/-- A tree in which the names of a folder are all different and can stand in a path. -/
inductive Node.Sound : Node → Prop where
  | file (content : ByteArray) : Sound (.file content)
  | folder (entries : List (String × Node)) : Dict.Distinct entries → (∀ e ∈ entries, PlainName e.1) →
      (∀ e ∈ entries, Sound e.2) → Sound (.folder entries)

namespace Node

theorem at?_nil (n : Node) : n.at? [] = some n := by cases n <;> rfl

theorem at?_folder (entries : List (String × Node)) (name : String) (rest : List String) :
    (Node.folder entries).at? (name :: rest) = (Dict.get? entries name).bind fun n => n.at? rest := rfl

theorem at?_file (content : ByteArray) (name : String) (rest : List String) :
    (Node.file content).at? (name :: rest) = none := rfl

theorem at?_append (n : Node) (names more : List String) :
    n.at? (names ++ more) = (n.at? names).bind fun m => m.at? more := by
  induction names generalizing n with
  | nil => rw [List.nil_append, at?_nil, Option.bind_some]
  | cons name names ih =>
    cases n with
    | file content => rfl
    | folder entries =>
      rw [List.cons_append, at?_folder, at?_folder, Option.bind_assoc]
      exact congrArg _ (funext ih)

theorem at?_eq_some_cons {n m : Node} {name : String} {rest : List String}
    (h : n.at? (name :: rest) = some m) :
    ∃ entries child, n = .folder entries ∧ Dict.get? entries name = some child ∧ child.at? rest = some m := by
  cases n with
  | file => cases h
  | folder entries =>
    obtain ⟨child, hchild, hm⟩ := Option.bind_eq_some_iff.1 h
    exact ⟨entries, child, rfl, hchild, hm⟩

namespace Sound

variable {n m : Node} {entries : List (String × Node)}

theorem plainName (h : (Node.folder entries).Sound) {name : String}
    (hmem : (name, m) ∈ entries) : PlainName name := by
  cases h with
  | folder _ _ hnames _ => exact hnames _ hmem

theorem child (h : (Node.folder entries).Sound) {name : String} (hmem : (name, m) ∈ entries) : m.Sound := by
  cases h with
  | folder _ _ _ hall => exact hall _ hmem

theorem at? (h : n.Sound) {names : List String} (hm : n.at? names = some m) :
    m.Sound ∧ ∀ name ∈ names, PlainName name := by
  induction names generalizing n with
  | nil =>
    rw [at?_nil] at hm
    cases hm
    exact ⟨h, by simp⟩
  | cons name names ih =>
    obtain ⟨entries, child, rfl, hget, hchild⟩ := at?_eq_some_cons hm
    have hmem := Dict.mem_of_get? hget
    obtain ⟨hsound, hnames⟩ := ih (h.child hmem) hchild
    exact ⟨hsound, List.forall_mem_cons.2 ⟨h.plainName hmem, hnames⟩⟩

end Sound

end Node

/-! ## Paths below paths -/

theorem joinPath_of_relative {folder path : String} (hfolder : folder ≠ "") (hpath : ¬ path.startsWith "/" = true) :
    joinPath folder path = if folder.endsWith "/" then folder ++ path else folder ++ "/" ++ path := by
  have hne : (folder == "") = false := beq_eq_false_iff_ne.2 hfolder
  rw [joinPath, if_neg (by simp [hne, hpath])]

theorem joinPath_ne_empty {folder path : String} (hfolder : folder ≠ "") (hpath : ¬ path.startsWith "/" = true) :
    joinPath folder path ≠ "" := by
  rw [joinPath_of_relative hfolder hpath]
  split <;> simp [hfolder]

theorem exists_joinPath_eq (folder : String) {path : String} (hpath : ¬ path.startsWith "/" = true) :
    ∃ rest, joinPath folder path = folder ++ rest := by
  by_cases hfolder : folder = ""
  · subst hfolder
    exact ⟨path, by simp [joinPath]⟩
  · rw [joinPath_of_relative hfolder hpath]
    split
    · exact ⟨path, rfl⟩
    · exact ⟨"/" ++ path, String.append_assoc⟩

theorem joinPath_joinPath {folder name path : String} (hfolder : folder ≠ "") (hname : PlainName name)
    (hpath : ¬ path.startsWith "/" = true) :
    joinPath (joinPath folder name) path = joinPath folder (name ++ "/" ++ path) := by
  have hdeep : ¬ (name ++ "/" ++ path).startsWith "/" = true := by
    rw [String.append_assoc]
    exact hname.not_startsWith_append _
  have hend : ¬ (joinPath folder name).endsWith "/" = true := by
    rw [joinPath_of_relative hfolder hname.not_startsWith]
    split
    · exact hname.not_endsWith_append folder
    · exact hname.not_endsWith_append (folder ++ "/")
  rw [joinPath_of_relative (joinPath_ne_empty hfolder hname.not_startsWith) hpath, if_neg hend,
    joinPath_of_relative hfolder hname.not_startsWith, joinPath_of_relative hfolder hdeep]
  split <;> simp only [String.append_assoc]

theorem pathFault?_eq_none_iff {path : String} :
    pathFault? path = none ↔ '\x00' ∉ path.toList ∧ path.utf8ByteSize ≤ pathLimit := by
  rw [pathFault?]
  by_cases hzero : path.toList.contains '\x00' = true
  · rw [if_pos hzero]
    simpa using fun h => absurd (List.contains_iff_mem.1 hzero) h
  · rw [if_neg hzero]
    have hmem : '\x00' ∉ path.toList := fun h => hzero (List.contains_iff_mem.2 h)
    split
    · next hlong => simp [Nat.not_le.2 hlong]
    · next hlong => simp [hmem, Nat.le_of_not_lt hlong]

theorem pathFault?_of_joinPath {folder path : String} (hpath : ¬ path.startsWith "/" = true)
    (h : pathFault? (joinPath folder path) = none) : pathFault? folder = none := by
  obtain ⟨rest, he⟩ := exists_joinPath_eq folder hpath
  rw [he, pathFault?_eq_none_iff, String.toList_append, String.utf8ByteSize_append] at h
  exact pathFault?_eq_none_iff.2
    ⟨fun hmem => h.1 (List.mem_append_left _ hmem), Nat.le_trans (Nat.le_add_right _ _) h.2⟩

/-- The path that takes names from a folder, one after the other. -/
def pathBelow (folder : String) (names : List String) : String := names.foldl joinPath folder

theorem pathFault?_of_pathBelow {folder : String} {names : List String} (hnames : ∀ name ∈ names, PlainName name)
    (h : pathFault? (pathBelow folder names) = none) : pathFault? folder = none := by
  induction names generalizing folder with
  | nil => exact h
  | cons name names ih =>
    obtain ⟨hname, hnames⟩ := List.forall_mem_cons.1 hnames
    exact pathFault?_of_joinPath hname.not_startsWith (ih hnames h)

theorem joined_not_startsWith {names : List String} (hne : names ≠ []) (h : ∀ name ∈ names, PlainName name) :
    ¬ (Text.joined "/" names).startsWith "/" = true := by
  obtain ⟨name, rest, rfl⟩ := List.exists_cons_of_ne_nil hne
  have hname : PlainName name := h name List.mem_cons_self
  cases rest with
  | nil => simpa only [Text.joined, String.intercalate_singleton] using hname.not_startsWith
  | cons next rest =>
    rw [Text.joined, String.intercalate_cons_cons, String.append_assoc]
    exact hname.not_startsWith_append _

theorem pathBelow_eq_joinPath {folder : String} (hfolder : folder ≠ "") {names : List String} {last : String}
    (hnames : ∀ name ∈ names ++ [last], PlainName name) :
    pathBelow folder (names ++ [last]) = joinPath folder (Text.joined "/" (names ++ [last])) := by
  induction names generalizing folder with
  | nil => rfl
  | cons name names ih =>
    obtain ⟨hname, hrest⟩ := List.forall_mem_cons.1 hnames
    have hjoined : ¬ (Text.joined "/" (names ++ [last])).startsWith "/" = true :=
      joined_not_startsWith (by simp) hrest
    calc pathBelow folder (name :: names ++ [last])
        = pathBelow (joinPath folder name) (names ++ [last]) := rfl
      _ = joinPath (joinPath folder name) (Text.joined "/" (names ++ [last])) :=
        ih (joinPath_ne_empty hfolder hname.not_startsWith) hrest
      _ = joinPath folder (name ++ "/" ++ Text.joined "/" (names ++ [last])) :=
        joinPath_joinPath hfolder hname hjoined
      _ = joinPath folder (Text.joined "/" (name :: names ++ [last])) := by rw [joined_cons_concat]

/-! ## Following a path -/

namespace FileTree

variable {t : FileTree} {root : Node}

theorem follow_append (root : Node) (names steps more : List String) :
    follow root names (steps ++ more) = follow root names steps >>= fun names' => follow root names' more := by
  induction steps generalizing names with
  | nil => rfl
  | cons step steps ih =>
    rw [List.cons_append, follow, follow]
    split
    · split
      · exact ih names
      · split
        · exact ih names.tail
        · split
          · rfl
          · exact ih (step :: names)
    · rfl
    · rfl

theorem follow_name {names : List String} {entries : List (String × Node)} {name : String} (hname : PlainName name)
    (h : root.at? names.reverse = some (.folder entries)) : follow root names [name] = .ok (name :: names) := by
  have hstay : ¬ (name = "" ∨ name = ".") := fun hor => hor.elim hname.nonempty hname.ne_here
  rw [follow, h]
  simp only [if_neg hstay, if_neg hname.ne_back, if_neg (Nat.not_lt.2 hname.short)]
  rfl

theorem locate_eq_ok_iff {path : String} {n : Node} :
    t.locate path = .ok n ↔ ∃ names, t.resolve path = .ok names ∧ t.root.at? names = some n := by
  rw [locate, Except.bind_eq_ok]
  refine exists_congr fun names => and_congr_right fun _ => ?_
  cases t.root.at? names with
  | none => simp [throw, throwThe, MonadExceptOf.throw]
  | some m => simp [pure, Except.pure]

theorem entries_eq_ok_iff {path : String} {entries : List (String × Node)} :
    t.entries path = .ok entries ↔ t.locate path = .ok (.folder entries) := by
  rw [FileTree.entries, Except.bind_eq_ok]
  constructor
  · rintro ⟨n, hn, he⟩
    cases n with
    | file => cases he
    | folder es =>
      cases he
      exact hn
  · exact fun h => ⟨_, h, rfl⟩

theorem isFile_iff {path : String} : t.isFile path = true ↔ ∃ content, t.locate path = .ok (.file content) := by
  rw [isFile]
  constructor
  · intro h
    split at h
    · exact ⟨_, ‹_›⟩
    · cases h
  · rintro ⟨content, h⟩
    rw [h]

theorem follow_empty {names names' : List String} (h : follow root names [""] = .ok names') : names' = names := by
  rw [follow] at h
  split at h
  · cases h
    rfl
  · cases h
  · cases h

theorem resolve_eq_ok_iff {path : String} {names : List String} :
    t.resolve path = .ok names ↔ pathFault? path = none ∧ path ≠ "" ∧
      follow t.root (t.start path).reverse (steps path) = .ok names.reverse := by
  rw [resolve]
  cases hfault : pathFault? path with
  | some fault => simp
  | none =>
    by_cases hempty : path = ""
    · simp [hempty]
    · change (if path = "" then _ else _) = _ ↔ _
      rw [if_neg hempty, Except.map_eq_ok]
      constructor
      · rintro ⟨names', h, rfl⟩
        exact ⟨rfl, hempty, by rw [h, List.reverse_reverse]⟩
      · exact fun h => ⟨names.reverse, h.2.2, List.reverse_reverse names⟩

theorem follow_steps_joinPath {folder name : String} {names names' : List String} (hfolder : folder ≠ "")
    (hname : PlainName name) (h : follow root names (steps folder) = .ok names') :
    follow root names (steps (joinPath folder name)) = follow root names' [name] := by
  rw [joinPath_of_relative hfolder hname.not_startsWith]
  split
  · next hend =>
    obtain ⟨front, rfl⟩ := endsWith_iff.1 hend
    have hsteps : steps (front ++ "/") = steps front ++ [""] := by
      have hpieces := Text.piecesOf_separated '/' front ""
      rwa [String.append_empty] at hpieces
    rw [hsteps, follow_append, Except.bind_eq_ok] at h
    obtain ⟨names'', hfront, hstay⟩ := h
    rw [follow_empty hstay]
    have hmore : steps (front ++ "/" ++ name) = steps front ++ [name] :=
      (Text.piecesOf_separated '/' front name).trans (congrArg _ hname.piecesOf_eq)
    rw [hmore, follow_append, hfront]
    rfl
  · have hmore : steps (folder ++ "/" ++ name) = steps folder ++ [name] :=
      (Text.piecesOf_separated '/' folder name).trans (congrArg _ hname.piecesOf_eq)
    rw [hmore, follow_append, h]
    rfl

theorem resolve_joinPath {folder name : String} {names : List String} {entries : List (String × Node)}
    (hfolder : t.resolve folder = .ok names) (hentries : t.root.at? names = some (.folder entries))
    (hname : PlainName name) (hfault : pathFault? (joinPath folder name) = none) :
    t.resolve (joinPath folder name) = .ok (names ++ [name]) := by
  obtain ⟨_, hne, hfollow⟩ := resolve_eq_ok_iff.1 hfolder
  have hstart : t.start (joinPath folder name) = t.start folder := by
    obtain ⟨rest, he⟩ := exists_joinPath_eq folder hname.not_startsWith
    rw [start, start, he, startsWith_slash_append hne]
  refine resolve_eq_ok_iff.2 ⟨hfault, joinPath_ne_empty hne hname.not_startsWith, ?_⟩
  rw [hstart, follow_steps_joinPath hne hname hfollow, List.reverse_concat]
  exact follow_name hname (by rwa [List.reverse_reverse])

theorem locate_joinPath {folder name : String} {entries : List (String × Node)} {n : Node}
    (hfolder : t.locate folder = .ok (.folder entries)) (hget : Dict.get? entries name = some n)
    (hname : PlainName name) (hfault : pathFault? (joinPath folder name) = none) :
    t.locate (joinPath folder name) = .ok n := by
  obtain ⟨names, hresolve, hentries⟩ := locate_eq_ok_iff.1 hfolder
  refine locate_eq_ok_iff.2 ⟨names ++ [name], resolve_joinPath hresolve hentries hname hfault, ?_⟩
  rw [Node.at?_append, hentries, Option.bind_some, Node.at?_folder, hget, Option.bind_some, Node.at?_nil]

/-- **Going down** by names and following the path that takes them lead to the same node. -/
theorem locate_pathBelow {folder : String} {n m : Node} {names : List String} (hsound : n.Sound)
    (hfolder : t.locate folder = .ok n) (hm : n.at? names = some m)
    (hfault : pathFault? (pathBelow folder names) = none) : t.locate (pathBelow folder names) = .ok m := by
  induction names generalizing folder n with
  | nil =>
    rw [Node.at?_nil] at hm
    cases hm
    exact hfolder
  | cons name names ih =>
    obtain ⟨hname, hnames⟩ := List.forall_mem_cons.1 (hsound.at? hm).2
    obtain ⟨entries, child, rfl, hget, hchild⟩ := Node.at?_eq_some_cons hm
    have hnext : pathFault? (joinPath folder name) = none := pathFault?_of_pathBelow hnames hfault
    exact ih (hsound.child (Dict.mem_of_get? hget)) (locate_joinPath hfolder hget hname hnext) hchild hfault

end FileTree

end BoardAtlas
