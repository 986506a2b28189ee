import BoardAtlas.Proofs.Ascending
import BoardAtlas.Proofs.Board.FlashMap

/-!
# Layouts written out

The regions of a layout are written in columns, with as many digits as the largest of their numbers needs. What is
written is a layout again, and has the same regions.

* `length_hexText`, `hexDigits_le_mostDigits`: the width of a column;
* `readExtent?_written`: an entry written with any number of digits;
* `written`, `ofEntry_written`, `mapM_ofEntry_written`: a layout of regions as they are written;
* `map_name_of_mapM`: regions are in the order of their layout;
* **`ofLayout_written`**: the columns of a layout, and the layout read back from them.
-/

namespace BoardAtlas

/-! ## Columns -/

theorem length_hexText (n width : Nat) : (hexText n width).length = 2 + max width (hexDigits n).length := by
  have hprefix : "0x".length = 2 := rfl
  rw [hexText, String.length_append, hprefix, String.length_ofList, List.length_append, List.length_replicate]
  omega

theorem plus_notMem_hexText (n width : Nat) : '+' ∉ (hexText n width).toList := by
  have htext : (hexText n width).toList = '0' :: 'x' ::
      (List.replicate (width - (hexDigits n).length) '0' ++ hexDigits n) := by
    simp [hexText]
  rw [htext]
  simp only [List.mem_cons, List.mem_append, not_or]
  refine ⟨by decide, by decide, fun h => ?_, fun h => ?_⟩
  · exact absurd (List.eq_of_mem_replicate h) (by decide)
  · exact absurd (isHexDigit_of_mem_hexDigits h) (by decide)

namespace FlashRegion

theorem hexDigits_le_mostDigits {ns : List Nat} {n : Nat} (h : n ∈ ns) : (hexDigits n).length ≤ mostDigits ns :=
  (Listing.foldl_max_bounds (f := fun n => (hexDigits n).length) ns 0).2 n h

/-! ## Entries -/

theorem readExtent?_written {offset length : Nat} (h : offset + length < pow2 64) (width width' : Nat) :
    readExtent? (hexText offset width ++ "+" ++ hexText length width') = some (offset, length) := by
  have hcut : Text.cut? '+' (hexText offset width ++ "+" ++ hexText length width').toList =
      some ((hexText offset width).toList, (hexText length width').toList) := by
    rw [Text.cut?_eq_some_iff]
    exact ⟨by simp, plus_notMem_hexText offset width⟩
  have hoffset : readAddress? (hexText offset width).toList = some offset := readAddress?_hexText (by omega) width
  have hlength : readAddress? (hexText length width').toList = some length := readAddress?_hexText (by omega) width'
  rw [readExtent?, hcut]
  simp only [Option.bind_eq_bind, Option.bind_some, hoffset, hlength, if_pos h]

theorem ofEntry_eq_ok_iff {board name : String} {titles : Dict Value} {entry : Value} {r : FlashRegion} :
    ofEntry board titles name entry = .ok r ↔ ∃ offset length, entry.text?.bind readExtent? = some (offset, length) ∧
      r = ⟨name, offset, length, (titleOf titles name).1, (titleOf titles name).2, 0, 0⟩ := by
  unfold ofEntry
  cases entry.text?.bind readExtent? with
  | none => simp
  | some extent =>
    obtain ⟨offset, length⟩ := extent
    constructor
    · rintro ⟨⟩
      exact ⟨offset, length, rfl, rfl⟩
    · rintro ⟨_, _, ⟨⟩, rfl⟩
      rfl

/-- The layout of regions, as they are written. -/
def written (regions : List FlashRegion) : Dict Value :=
  regions.map fun r => (r.name, .str (r.startText ++ "+" ++ r.lengthText))

/-- An entry has its region back, its numbers written with any digits. -/
theorem ofEntry_written {board name : String} {titles : Dict Value} {entry : Value} {r : FlashRegion}
    (h : ofEntry board titles name entry = .ok r) (offsetDigits lengthDigits : Nat) :
    ofEntry board titles r.name (.str (hexText r.offset offsetDigits ++ "+" ++ hexText r.length lengthDigits)) =
      .ok r := by
  have hread := readExtent?_written (lt_of_ofEntry h) offsetDigits lengthDigits
  obtain ⟨offset, length, -, rfl⟩ := ofEntry_eq_ok_iff.1 h
  refine ofEntry_eq_ok_iff.2 ⟨offset, length, ?_, rfl⟩
  rw [Value.text?, Option.bind_some]
  exact hread

theorem mapM_ofEntry_written {board : String} {layout titles : Dict Value} {entries : List FlashRegion}
    (h : layout.mapM (fun (name, entry) => ofEntry board titles name entry) = .ok entries) :
    (written (alignDigits entries)).mapM (fun (name, entry) => ofEntry board titles name entry) = .ok entries := by
  rw [written, alignDigits, List.map_map, Except.mapM_eq_ok_iff, List.forall₂_map_left_iff, List.forall₂_same]
  refine Except.forall_mem_of_mapM (fun member r hr => ?_) h
  exact ofEntry_written hr _ _

theorem map_name_of_mapM {board : String} {layout titles : Dict Value} {entries : List FlashRegion}
    (h : layout.mapM (fun (name, entry) => ofEntry board titles name entry) = .ok entries) :
    entries.map name = layout.keys := by
  rw [Except.mapM_eq_ok_iff] at h
  induction h with
  | nil => rfl
  | cons hone _ ih =>
    obtain ⟨offset, length, -, rfl⟩ := ofEntry_eq_ok_iff.1 hone
    exact congrArg _ ih

/-! ## Layouts -/

/-- **A layout written out.** All first addresses of its regions are written with one number of characters, and so are
all their lengths. Where a region ends is written exactly, also behind the largest first address. The layout of what
is written has the same names in the same order, and it has the same regions. -/
theorem ofLayout_written {board : String} {layout titles : Dict Value} {regions : List FlashRegion}
    (h : ofLayout board layout titles = .ok regions) :
    (∃ n, ∀ r ∈ regions, r.startText.length = n) ∧
      (∃ n, ∀ r ∈ regions, r.lengthText.length = n) ∧
      (∀ r ∈ regions, readAddress? r.stopText.toList = some (r.offset + r.length)) ∧
      (written regions).keys = layout.keys ∧
      ofLayout board (written regions) titles = .ok regions := by
  have hlt := lt_of_ofLayout h
  rw [ofLayout, Except.map_eq_ok] at h
  obtain ⟨entries, hentries, rfl⟩ := h
  refine ⟨⟨2 + mostDigits (entries.map offset), ?starts⟩, ⟨2 + mostDigits (entries.map length), ?lengths⟩,
    fun r hr => ?stops, ?names, ?again⟩
  case starts =>
    refine List.forall_mem_map.2 fun r hr => ?_
    rw [startText, length_hexText, Nat.max_eq_left (hexDigits_le_mostDigits (List.mem_map_of_mem hr))]
  case lengths =>
    refine List.forall_mem_map.2 fun r hr => ?_
    rw [lengthText, length_hexText, Nat.max_eq_left (hexDigits_le_mostDigits (List.mem_map_of_mem hr))]
  case stops =>
    have hstop : r.stop = r.offset + r.length := by
      have := hlt r hr
      rw [stop]
      omega
    rw [stopText, hstop]
    exact readAddress?_hexText (hlt r hr) r.offsetDigits
  case names =>
    have hkeys : (written (alignDigits entries)).keys = entries.map name := by
      rw [written, alignDigits, List.map_map, Dict.keys, List.map_map]
      rfl
    rw [hkeys, map_name_of_mapM hentries]
  case again =>
    rw [ofLayout, mapM_ofEntry_written hentries]
    rfl

/-- Regions of different sizes, the last of them up to the end of 64 bits. -/
def farLayout : Dict Value := [("boot", .str " 0X0 + +ff"), ("kvs", .str "ABC+0"), ("end", .str "fffffffffffffff0+f")]

/-- The title of one of the regions. -/
def farTitles : Dict Value := [("kvs", .obj [("title", .str "Key-value store"), ("read_only", .bool true)])]

/-- The regions of the layout. -/
def farRegions : List FlashRegion :=
  [⟨"boot", 0, 255, unknownRegion, false, 16, 2⟩, ⟨"kvs", 0xABC, 0, "Key-value store", true, 16, 2⟩,
    ⟨"end", 0xFFFFFFFFFFFFFFF0, 15, unknownRegion, false, 16, 2⟩]

theorem ofLayout_written_farLayout :
    ofLayout "test" farLayout farTitles = .ok farRegions ∧
      (written farRegions).get? "boot" = some (.str "0x0000000000000000+0xFF") ∧
      ofLayout "test" (written farRegions) farTitles = .ok farRegions :=
  have h : ofLayout "test" farLayout farTitles = .ok farRegions := rfl
  ⟨h, rfl, (ofLayout_written h).2.2.2.2⟩

end FlashRegion

end BoardAtlas
