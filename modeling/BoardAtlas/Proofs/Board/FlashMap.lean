import BoardAtlas.Board.Docs
import BoardAtlas.Proofs.Number.Hexadecimal
import BoardAtlas.Proofs.Result
import Mathlib.Tactic.ByContra

/-!
# The map of the flash memory

The map lists regions by their first addresses, and before a region the gap from the end of the one listed
before it. That end is the only one it keeps: where regions lie inside others, a gap may begin too early.

* `FlashRegion.Covers`, `FlashSpan.Covers`, `FlashSpan.range`, `FlashRow.range?`: addresses;
* `FlashRegion.lt_of_ofLayout`: regions of a layout end within 64 bits;
* `stopOf`, `mem_spansFrom`, `exists_gap`: where gaps are;
* **`FlashMap.gaps_ofBoard`**: every address outside all regions is in a gap, and when a gap runs into a region;
* `TilesFrom`, `tilesFrom_spansFrom`, **`FlashMap.tiles_ofBoard`**: disjoint regions and the gaps between them lie
  side by side.
-/

namespace BoardAtlas

/-! ## Addresses -/

/-- The address is in the region. -/
def FlashRegion.Covers (r : FlashRegion) (a : Nat) : Prop := r.offset ≤ a ∧ a < r.stop

instance (r : FlashRegion) (a : Nat) : Decidable (r.Covers a) :=
  inferInstanceAs (Decidable (_ ∧ _))

namespace FlashSpan

/-- The first address after the range, as far as 64 bits go. -/
def stop (s : FlashSpan) : Nat := min (s.offset + s.length) (pow2 64 - 1)

/-- The first address of a range and the first one after it. -/
def range (s : FlashSpan) : Nat × Nat := (s.offset, s.stop)

/-- The address is in the range. -/
def Covers (s : FlashSpan) (a : Nat) : Prop := s.offset ≤ a ∧ a < s.stop

instance (s : FlashSpan) (a : Nat) : Decidable (s.Covers a) :=
  inferInstanceAs (Decidable (_ ∧ _))

end FlashSpan

/-- The range that a row says, read back from its two addresses. -/
def FlashRow.range? (r : FlashRow) : Option (Nat × Nat) := do
  let start ← FlashRegion.readAddress? r.start.toList
  let stop ← FlashRegion.readAddress? r.stop.toList
  pure (start, stop)

theorem stop_lt (n : Nat) : min n (pow2 64 - 1) < pow2 64 := by
  have := pow2_pos 64
  omega

theorem FlashSpan.range?_row {s : FlashSpan} (h : s.offset < pow2 64) :
    s.row.range? = some s.range := by
  have hstart := FlashRegion.readAddress?_hexText h s.digits
  have hstop := FlashRegion.readAddress?_hexText (stop_lt (s.offset + s.length)) s.digits
  rw [FlashRow.range?]
  simp only [FlashSpan.row, hstart, hstop]
  rfl

/-! ## Layouts -/

namespace FlashRegion

theorem readExtent?_lt {s : String} {offset length : Nat}
    (h : readExtent? s = some (offset, length)) : offset + length < pow2 64 := by
  simp only [readExtent?, Option.bind_eq_bind, Option.bind_eq_some_iff] at h
  obtain ⟨_, -, _, -, _, -, h⟩ := h
  split at h
  · next hlt =>
    cases h
    exact hlt
  · cases h

theorem lt_of_ofEntry {board name : String} {titles : Dict Value} {entry : Value} {r : FlashRegion}
    (h : ofEntry board titles name entry = .ok r) : r.offset + r.length < pow2 64 := by
  unfold ofEntry at h
  split at h
  · next offset length he =>
    obtain ⟨s, -, hs⟩ := Option.bind_eq_some_iff.1 he
    cases h
    exact readExtent?_lt hs
  · cases h

/-- **The regions of a layout end within 64 bits.** -/
theorem lt_of_ofLayout {board : String} {layout titles : Dict Value} {regions : List FlashRegion}
    (h : ofLayout board layout titles = .ok regions) :
    ∀ r ∈ regions, r.offset + r.length < pow2 64 := by
  rw [ofLayout, Except.map_eq_ok] at h
  obtain ⟨entries, hentries, rfl⟩ := h
  have hall := Except.forall_mem_of_mapM (P := fun r => r.offset + r.length < pow2 64)
    (fun entry r hr => lt_of_ofEntry hr) hentries
  intro r hr
  obtain ⟨entry, hentry, rfl⟩ := List.mem_map.1 hr
  exact hall entry hentry

end FlashRegion

/-! ## Gaps -/

/-- The regions by their first addresses. -/
def FlashRegion.inOrder (regions : List FlashRegion) : List FlashRegion :=
  regions.mergeSort fun r s => r.offset ≤ s.offset

namespace FlashRegion

theorem perm_inOrder (regions : List FlashRegion) : (inOrder regions).Perm regions :=
  List.mergeSort_perm _ _

theorem mem_inOrder {regions : List FlashRegion} {r : FlashRegion} :
    r ∈ inOrder regions ↔ r ∈ regions :=
  (perm_inOrder regions).mem_iff

theorem pairwise_inOrder (regions : List FlashRegion) :
    (inOrder regions).Pairwise fun r s => r.offset ≤ s.offset := by
  have h : (inOrder regions).Pairwise fun r s => decide (r.offset ≤ s.offset) = true := by
    refine List.pairwise_mergeSort ?_ ?_ regions
    · intro r s t hrs hst
      simp only [decide_eq_true_eq] at *
      omega
    · intro r s
      simp only [Bool.or_eq_true, decide_eq_true_eq]
      omega
  exact h.imp fun hrs => of_decide_eq_true hrs

end FlashRegion

namespace FlashSpan

/-- Where the last of some regions ends; without one it is the given address. -/
def stopOf : Nat → List FlashRegion → Nat
  | address, [] => address
  | _, r :: rest => stopOf r.stop rest

theorem stopOf_concat (address : Nat) (lead : List FlashRegion) (r : FlashRegion) :
    stopOf address (lead ++ [r]) = r.stop := by
  induction lead generalizing address with
  | nil => rfl
  | cons q lead ih => exact ih q.stop

theorem mem_gapBefore {address : Nat} {r : FlashRegion} {s : FlashSpan} :
    s ∈ gapBefore address r ↔
      address < r.offset ∧ s = ⟨gapName, true, address, r.offset - address, r.offsetDigits⟩ := by
  unfold gapBefore
  split <;> simp [*]

theorem mem_spansFrom {address : Nat} {regions : List FlashRegion} {s : FlashSpan} :
    s ∈ spansFrom address regions ↔ ∃ lead r rest, regions = lead ++ r :: rest ∧
      (s ∈ gapBefore (stopOf address lead) r ∨ s = ofRegion r) := by
  induction regions generalizing address with
  | nil => simp [spansFrom]
  | cons q tail ih =>
    rw [spansFrom, List.mem_append, List.mem_cons, ih]
    constructor
    · rintro (h | h | ⟨lead, r, rest, rfl, h⟩)
      · exact ⟨[], q, tail, rfl, .inl h⟩
      · exact ⟨[], q, tail, rfl, .inr h⟩
      · exact ⟨q :: lead, r, rest, rfl, h⟩
    · rintro ⟨lead, r, rest, hsplit, h⟩
      cases lead with
      | nil =>
        cases hsplit
        exact h.imp_right .inl
      | cons p lead =>
        cases hsplit
        exact .inr (.inr ⟨lead, r, rest, rfl, h⟩)

theorem exists_gap_iff {address a : Nat} {regions : List FlashRegion}
    (hlt : ∀ r ∈ regions, r.offset < pow2 64) :
    (∃ s ∈ spansFrom address regions, s.reserved = true ∧ s.Covers a) ↔
      ∃ lead r rest, regions = lead ++ r :: rest ∧ stopOf address lead ≤ a ∧ a < r.offset := by
  constructor
  · rintro ⟨s, hs, hreserved, hstart, hstop⟩
    obtain ⟨lead, r, rest, hsplit, hs | rfl⟩ := mem_spansFrom.1 hs
    · obtain ⟨hgap, rfl⟩ := mem_gapBefore.1 hs
      refine ⟨lead, r, rest, hsplit, hstart, ?_⟩
      simp only [stop] at hstop hstart
      omega
    · cases hreserved
  · rintro ⟨lead, r, rest, rfl, hstart, hstop⟩
    have hr := hlt r (by simp)
    refine ⟨⟨gapName, true, stopOf address lead, r.offset - stopOf address lead, r.offsetDigits⟩,
      mem_spansFrom.2 ⟨lead, r, rest, rfl, .inl (mem_gapBefore.2 ⟨by omega, rfl⟩)⟩, rfl, hstart, ?_⟩
    simp only [stop]
    omega

/-- An address outside all regions is in the gap before the first region that begins after it. -/
theorem exists_gap {address a : Nat} {regions : List FlashRegion} (ha : address ≤ a)
    (hlt : ∀ r ∈ regions, r.offset < pow2 64) (hout : ∀ r ∈ regions, ¬ r.Covers a)
    (hbelow : ∃ r ∈ regions, a < r.offset) :
    ∃ s ∈ spansFrom address regions, s.reserved = true ∧ s.Covers a := by
  rw [exists_gap_iff hlt]
  clear hlt
  induction regions generalizing address with
  | nil => simp at hbelow
  | cons r rest ih =>
    by_cases hr : a < r.offset
    · exact ⟨[], r, rest, rfl, ha, hr⟩
    · obtain ⟨hcov, hrest⟩ := List.forall_mem_cons.1 hout
      have hstop : r.stop ≤ a := by
        by_contra h
        exact hcov ⟨by omega, by omega⟩
      have hlater : ∃ q ∈ rest, a < q.offset := by
        obtain ⟨q, hq, hlt⟩ := hbelow
        rcases List.mem_cons.1 hq with rfl | hq
        · exact absurd hlt hr
        · exact ⟨q, hq, hlt⟩
      obtain ⟨lead, q, tail, rfl, h⟩ := ih hstop hrest hlater
      exact ⟨r :: lead, q, tail, rfl, h⟩

/-- **No gap runs into a region** exactly when, wherever there is a gap, nothing listed before it reaches
further than the region right before it. -/
theorem gaps_disjoint_iff {regions : List FlashRegion} (hlt : ∀ r ∈ regions, r.offset < pow2 64)
    (hsorted : regions.Pairwise fun r s => r.offset ≤ s.offset) :
    (∀ s ∈ spansFrom 0 regions, s.reserved = true → ∀ a, s.Covers a →
        ∀ r ∈ regions, ¬ r.Covers a) ↔
      ∀ lead q r rest, regions = lead ++ q :: r :: rest → q.stop < r.offset →
        ∀ p ∈ lead, p.stop ≤ q.stop := by
  constructor
  · intro h lead q r rest hsplit hgap p hp
    by_contra hreach
    have hmem : ∀ x, x ∈ lead ∨ x = q ∨ x = r → x ∈ regions := by
      rintro x (hx | rfl | rfl) <;> simp [*]
    have hq := hlt q (hmem q (by simp))
    have hqstop : q.offset ≤ q.stop := by
      unfold FlashRegion.stop
      omega
    have hpq : p.offset ≤ q.offset := by
      rw [hsplit] at hsorted
      exact (List.pairwise_append.1 hsorted).2.2 p hp q List.mem_cons_self
    -- The gap begins where `q` ends, which is still inside `p`.
    have hgapAt : ∃ s ∈ spansFrom 0 regions, s.reserved = true ∧ s.Covers q.stop := by
      refine (exists_gap_iff hlt).2 ⟨lead ++ [q], r, rest, by simp [hsplit], ?_, hgap⟩
      exact Nat.le_of_eq (stopOf_concat 0 lead q)
    obtain ⟨s, hs, hreserved, hcov⟩ := hgapAt
    exact h s hs hreserved q.stop hcov p (hmem p (.inl hp)) ⟨by omega, by omega⟩
  · intro h s hs hreserved a hcov x hx hxa
    obtain ⟨hstart, hstop⟩ := hxa
    obtain ⟨lead, r, rest, hsplit, hle, hr⟩ := (exists_gap_iff hlt).1 ⟨s, hs, hreserved, hcov⟩
    -- A region that reaches the gap is listed before it.
    have hlead : x ∈ lead := by
      rw [hsplit] at hsorted hx
      obtain ⟨-, hback, -⟩ := List.pairwise_append.1 hsorted
      rcases List.mem_append.1 hx with hx | hx
      · exact hx
      · rcases List.mem_cons.1 hx with rfl | hx
        · omega
        · have := (List.pairwise_cons.1 hback).1 x hx
          omega
    rcases List.eq_nil_or_concat lead with rfl | ⟨front, q, rfl⟩
    · cases hlead
    · rw [List.concat_eq_append] at hsplit hle hlead
      rw [stopOf_concat] at hle
      have hfront := h front q r rest (by simp [hsplit]) (by omega)
      rcases List.mem_append.1 hlead with hx | hx
      · have := hfront x hx
        omega
      · rw [List.mem_singleton.1 hx] at hstop
        omega

end FlashSpan

theorem FlashSpan.ofLayout_eq (regions : List FlashRegion) :
    ofLayout regions = spansFrom 0 (FlashRegion.inOrder regions) := rfl

theorem FlashRegion.forall_mem_inOrder {regions : List FlashRegion} {P : FlashRegion → Prop} :
    (∀ r ∈ inOrder regions, P r) ↔ ∀ r ∈ regions, P r := by
  simp only [mem_inOrder]

theorem FlashMap.map_range?_rows {b : Board}
    (h : ∀ s ∈ FlashSpan.ofLayout b.flash, s.offset < pow2 64) :
    (FlashMap.ofBoard b).rows.map FlashRow.range? =
      (FlashSpan.ofLayout b.flash).map fun s => some s.range := by
  change ((FlashSpan.ofLayout b.flash).map FlashSpan.row).map _ = _
  rw [List.map_map]
  exact List.map_congr_left fun s hs => FlashSpan.range?_row (h s hs)

theorem FlashSpan.offset_lt_of_mem {regions : List FlashRegion}
    (hlt : ∀ r ∈ regions, r.offset < pow2 64) {s : FlashSpan} (hs : s ∈ ofLayout regions) :
    s.offset < pow2 64 := by
  rw [ofLayout_eq] at hs
  obtain ⟨lead, r, rest, hsplit, hs⟩ := mem_spansFrom.1 hs
  have hmem : r ∈ FlashRegion.inOrder regions := by simp [hsplit]
  have hr := hlt r (FlashRegion.mem_inOrder.1 hmem)
  rcases hs with hs | rfl
  · obtain ⟨hgap, rfl⟩ := mem_gapBefore.1 hs
    change stopOf 0 lead < pow2 64
    omega
  · exact hr

/-- **The gaps of a map.** For regions that a layout may have, every address below the last first address
that lies in no region is in a gap. No gap runs into a region exactly when, wherever there is a gap, no region
listed before it reaches further than the one right before it. -/
theorem FlashMap.gaps_ofBoard (b : Board) (board : String) (layout titles : Dict Value)
    (hb : FlashRegion.ofLayout board layout titles = .ok b.flash) :
    (FlashMap.ofBoard b).rows.map FlashRow.range? =
        (FlashSpan.ofLayout b.flash).map (fun s => some s.range) ∧
      (∀ a, (∀ r ∈ b.flash, ¬ r.Covers a) → (∃ r ∈ b.flash, a < r.offset) →
        ∃ s ∈ FlashSpan.ofLayout b.flash, s.reserved = true ∧ s.Covers a) ∧
      ((∀ s ∈ FlashSpan.ofLayout b.flash, s.reserved = true → ∀ a, s.Covers a →
          ∀ r ∈ b.flash, ¬ r.Covers a) ↔
        ∀ lead q r rest, FlashRegion.inOrder b.flash = lead ++ q :: r :: rest →
          q.stop < r.offset → ∀ p ∈ lead, p.stop ≤ q.stop) := by
  have hlt : ∀ r ∈ b.flash, r.offset < pow2 64 := by
    intro r hr
    have := FlashRegion.lt_of_ofLayout hb r hr
    omega
  have hlt' := FlashRegion.forall_mem_inOrder.2 hlt
  refine ⟨map_range?_rows fun s hs => FlashSpan.offset_lt_of_mem hlt hs, ?_, ?_⟩
  · intro a hout hbelow
    refine FlashSpan.exists_gap (Nat.zero_le a) hlt' (FlashRegion.forall_mem_inOrder.2 hout) ?_
    obtain ⟨r, hr, hra⟩ := hbelow
    exact ⟨r, FlashRegion.mem_inOrder.2 hr, hra⟩
  · have h := FlashSpan.gaps_disjoint_iff hlt' (FlashRegion.pairwise_inOrder b.flash)
    simp only [FlashRegion.mem_inOrder] at h
    exact h

/-- A board that is nothing but its flash memory. -/
def flashBoard (regions : List FlashRegion) : Board where
  id := "test"
  manifest := "test"
  name := "Test"
  vendor := "V"
  url := none
  connectivity := []
  frameworks := []
  build := {}
  upload := {}
  debug := {}
  doc := {}
  flash := regions
  pcb := none

/-- A small region inside a large one, and a third one behind them. -/
def nestedLayout : Dict Value :=
  [("app", .str "0x0+0x100"), ("boot", .str "0x10+0x10"), ("data", .str "0x200+0x10")]

/-- The regions of the layout. -/
def nestedRegions : List FlashRegion :=
  [⟨"app", 0, 256, unknownRegion, false, 3, 3⟩, ⟨"boot", 16, 16, unknownRegion, false, 3, 3⟩,
    ⟨"data", 512, 16, unknownRegion, false, 3, 3⟩]

theorem inOrder_nestedRegions : FlashRegion.inOrder nestedRegions = nestedRegions := by
  simp [FlashRegion.inOrder, nestedRegions, List.mergeSort]

theorem FlashMap.gaps_ofBoard_nestedRegions :
    FlashRegion.ofLayout "test" nestedLayout [] = .ok (flashBoard nestedRegions).flash ∧
      ¬ ∀ s ∈ FlashSpan.ofLayout nestedRegions, s.reserved = true → ∀ a, s.Covers a →
        ∀ r ∈ nestedRegions, ¬ r.Covers a := by
  have hb : FlashRegion.ofLayout "test" nestedLayout [] = .ok (flashBoard nestedRegions).flash := rfl
  refine ⟨hb, fun h => ?_⟩
  have hreach := (gaps_ofBoard (flashBoard nestedRegions) "test" nestedLayout [] hb).2.2.1 h
    [⟨"app", 0, 256, unknownRegion, false, 3, 3⟩] _ _ [] inOrder_nestedRegions (by decide)
  exact absurd hreach (by decide)

/-- The gap behind the small region begins inside the large one. -/
theorem nested_gap_covers_region :
    FlashRegion.ofLayout "test" nestedLayout [] = .ok nestedRegions ∧
      ∃ s ∈ FlashSpan.ofLayout nestedRegions, s.reserved = true ∧
        ∃ a, s.Covers a ∧ ∃ r ∈ nestedRegions, r.Covers a := by
  refine ⟨rfl, ⟨FlashSpan.gapName, true, 32, 480, 3⟩, ?_, rfl, 128, by decide +kernel,
    ⟨"app", 0, 256, unknownRegion, false, 3, 3⟩, by decide, by decide +kernel⟩
  rw [FlashSpan.ofLayout_eq, inOrder_nestedRegions]
  decide

/-! ## Disjoint regions -/

/-- Ranges that lie side by side from one address to another. -/
def TilesFrom : Nat → List (Nat × Nat) → Nat → Prop
  | start, [], stop => start = stop
  | start, (first, last) :: rest, stop => first = start ∧ TilesFrom last rest stop

theorem tilesFrom_append {start stop : Nat} {xs ys : List (Nat × Nat)} :
    TilesFrom start (xs ++ ys) stop ↔
      ∃ middle, TilesFrom start xs middle ∧ TilesFrom middle ys stop := by
  induction xs generalizing start with
  | nil => simp [TilesFrom]
  | cons x xs ih =>
    obtain ⟨first, last⟩ := x
    simp only [List.cons_append, TilesFrom, ih]
    constructor
    · rintro ⟨hfirst, middle, hxs, hys⟩
      exact ⟨middle, ⟨hfirst, hxs⟩, hys⟩
    · rintro ⟨middle, ⟨hfirst, hxs⟩, hys⟩
      exact ⟨hfirst, middle, hxs, hys⟩

namespace FlashSpan

theorem tilesFrom_gapBefore {address : Nat} {r : FlashRegion} (h : address ≤ r.offset)
    (hr : r.offset < r.stop) : TilesFrom address ((gapBefore address r).map range) r.offset := by
  have hbound : r.stop ≤ pow2 64 - 1 := Nat.min_le_right _ _
  unfold gapBefore
  split
  · refine ⟨rfl, ?_⟩
    change min (address + (r.offset - address)) (pow2 64 - 1) = r.offset
    omega
  · simp only [List.map_nil, TilesFrom]
    omega

theorem tilesFrom_spansFrom {address : Nat} {regions : List FlashRegion}
    (hstart : ∀ r ∈ regions, address ≤ r.offset) (hne : ∀ r ∈ regions, r.offset < r.stop)
    (hapart : regions.Pairwise fun r s => r.stop ≤ s.offset) :
    TilesFrom address ((spansFrom address regions).map range) (stopOf address regions) := by
  induction regions generalizing address with
  | nil => exact rfl
  | cons r rest ih =>
    obtain ⟨hr, -⟩ := List.forall_mem_cons.1 hstart
    obtain ⟨hrne, hrestne⟩ := List.forall_mem_cons.1 hne
    obtain ⟨hbehind, hrest⟩ := List.pairwise_cons.1 hapart
    rw [spansFrom, List.map_append, tilesFrom_append]
    exact ⟨r.offset, tilesFrom_gapBefore hr hrne, rfl, ih hbehind hrestne hrest⟩

theorem le_stopOf {address : Nat} {regions : List FlashRegion}
    (hstart : ∀ r ∈ regions, address ≤ r.offset) (hne : ∀ r ∈ regions, r.offset < r.stop)
    (hapart : regions.Pairwise fun r s => r.stop ≤ s.offset) :
    address ≤ stopOf address regions ∧ ∀ r ∈ regions, r.stop ≤ stopOf address regions := by
  induction regions generalizing address with
  | nil => exact ⟨Nat.le_refl address, by simp⟩
  | cons r rest ih =>
    obtain ⟨hr, -⟩ := List.forall_mem_cons.1 hstart
    obtain ⟨hrne, hrestne⟩ := List.forall_mem_cons.1 hne
    obtain ⟨hbehind, hrest⟩ := List.pairwise_cons.1 hapart
    obtain ⟨hle, hall⟩ := ih hbehind hrestne hrest
    change address ≤ stopOf r.stop rest ∧ ∀ q ∈ r :: rest, q.stop ≤ stopOf r.stop rest
    exact ⟨by omega, List.forall_mem_cons.2 ⟨hle, hall⟩⟩

theorem exists_stop_eq_stopOf (address : Nat) {regions : List FlashRegion} (h : regions ≠ []) :
    ∃ r ∈ regions, r.stop = stopOf address regions := by
  rcases List.eq_nil_or_concat regions with rfl | ⟨lead, r, rfl⟩
  · exact absurd rfl h
  · rw [List.concat_eq_append, stopOf_concat]
    exact ⟨r, by simp, rfl⟩

theorem filter_spansFrom (address : Nat) (regions : List FlashRegion) :
    ((spansFrom address regions).filter fun s => !s.reserved) = regions.map ofRegion := by
  induction regions generalizing address with
  | nil => rfl
  | cons r rest ih =>
    have hgap : ((gapBefore address r).filter fun s => !s.reserved) = [] := by
      unfold gapBefore
      split <;> rfl
    rw [spansFrom, List.filter_append, hgap, List.nil_append, List.filter_cons, ih]
    rfl

end FlashSpan

theorem FlashRegion.stop_le_offset {r s : FlashRegion} (hs : ∃ a, s.Covers a)
    (hd : ∀ a, ¬ (r.Covers a ∧ s.Covers a)) (h : r.offset ≤ s.offset) : r.stop ≤ s.offset := by
  obtain ⟨a, hstart, hstop⟩ := hs
  by_contra hlt
  exact hd s.offset ⟨⟨h, by omega⟩, Nat.le_refl _, by omega⟩

/-- **Disjoint regions and the gaps between them lie side by side.** The rows of their map cover the addresses from 0
to the largest end without a break. Apart from the gaps, none of which is empty, they are the regions by their first
addresses. -/
theorem FlashMap.tiles_ofBoard (b : Board) (hne : ∀ r ∈ b.flash, ∃ a, r.Covers a)
    (hd : b.flash.Pairwise fun r s => ∀ a, ¬ (r.Covers a ∧ s.Covers a)) :
    (FlashMap.ofBoard b).rows.map FlashRow.range? =
        (FlashSpan.ofLayout b.flash).map (fun s => some s.range) ∧
      (∃ stop, TilesFrom 0 ((FlashSpan.ofLayout b.flash).map FlashSpan.range) stop ∧
        (∀ r ∈ b.flash, r.stop ≤ stop) ∧ (b.flash ≠ [] → ∃ r ∈ b.flash, r.stop = stop)) ∧
      (∃ regions : List FlashRegion, regions.Perm b.flash ∧ regions.Pairwise (fun r s => r.offset < s.offset) ∧
        ((FlashSpan.ofLayout b.flash).filter fun s => !s.reserved) =
          regions.map FlashSpan.ofRegion) ∧
      ∀ s ∈ FlashSpan.ofLayout b.flash, s.reserved = true →
        s.name = FlashSpan.gapName ∧ s.offset < s.stop := by
  have hfit : ∀ r ∈ FlashRegion.inOrder b.flash, r.offset < r.stop := by
    intro r hr
    obtain ⟨a, hstart, hstop⟩ := hne r (FlashRegion.mem_inOrder.1 hr)
    omega
  have hlt : ∀ r ∈ b.flash, r.offset < pow2 64 := by
    intro r hr
    have hr := hfit r (FlashRegion.mem_inOrder.2 hr)
    have : r.stop < pow2 64 := stop_lt _
    omega
  have hdisjoint : (FlashRegion.inOrder b.flash).Pairwise fun r s =>
      ∀ a, ¬ (r.Covers a ∧ s.Covers a) := by
    refine (FlashRegion.perm_inOrder b.flash).symm.pairwise hd ?_
    exact fun {r s} h a hcov => h a hcov.symm
  have hapart : (FlashRegion.inOrder b.flash).Pairwise fun r s => r.stop ≤ s.offset := by
    refine (hdisjoint.and (FlashRegion.pairwise_inOrder b.flash)).imp_of_mem ?_
    intro r s _ hs h
    exact FlashRegion.stop_le_offset (hne s (FlashRegion.mem_inOrder.1 hs)) h.1 h.2
  have hstart : ∀ r ∈ FlashRegion.inOrder b.flash, 0 ≤ r.offset := fun r _ => Nat.zero_le _
  refine ⟨map_range?_rows fun s hs => FlashSpan.offset_lt_of_mem hlt hs, ?tiles, ?regions, ?gaps⟩
  case tiles =>
    refine ⟨FlashSpan.stopOf 0 (FlashRegion.inOrder b.flash),
      FlashSpan.tilesFrom_spansFrom hstart hfit hapart, ?_, fun hnil => ?_⟩
    · exact FlashRegion.forall_mem_inOrder.1 (FlashSpan.le_stopOf hstart hfit hapart).2
    · have hnil' : FlashRegion.inOrder b.flash ≠ [] := by
        intro he
        exact hnil ((he ▸ FlashRegion.perm_inOrder b.flash).symm.eq_nil)
      obtain ⟨r, hr, hstop⟩ := FlashSpan.exists_stop_eq_stopOf 0 hnil'
      exact ⟨r, FlashRegion.mem_inOrder.1 hr, hstop⟩
  case regions =>
    refine ⟨FlashRegion.inOrder b.flash, FlashRegion.perm_inOrder b.flash, ?_,
      FlashSpan.filter_spansFrom 0 _⟩
    refine hapart.imp_of_mem fun {r s} hr _ h => ?_
    have := hfit r hr
    omega
  case gaps =>
    intro s hs hreserved
    rw [FlashSpan.ofLayout_eq] at hs
    obtain ⟨lead, r, rest, hsplit, hs | rfl⟩ := FlashSpan.mem_spansFrom.1 hs
    · obtain ⟨hgap, rfl⟩ := FlashSpan.mem_gapBefore.1 hs
      have hr := hlt r (FlashRegion.mem_inOrder.1 (by simp [hsplit]))
      refine ⟨rfl, ?_⟩
      simp only [FlashSpan.stop]
      omega
    · cases hreserved

/-- Two regions with a gap between them, the later one written first. -/
def twoRegions : List FlashRegion :=
  [⟨"data", 512, 16, unknownRegion, false, 3, 3⟩, ⟨"app", 0, 256, unknownRegion, false, 3, 3⟩]

theorem FlashMap.tiles_ofBoard_twoRegions :
    (∀ r ∈ (flashBoard twoRegions).flash, ∃ a, r.Covers a) ∧
      (flashBoard twoRegions).flash.Pairwise (fun r s => ∀ a, ¬ (r.Covers a ∧ s.Covers a)) ∧
      ∃ stop, TilesFrom 0 ((FlashSpan.ofLayout twoRegions).map FlashSpan.range) stop := by
  have hne : ∀ r ∈ (flashBoard twoRegions).flash, ∃ a, r.Covers a := by
    change ∀ r ∈ twoRegions, ∃ a, r.Covers a
    exact List.forall_mem_cons.2 ⟨⟨512, by decide +kernel⟩,
      List.forall_mem_cons.2 ⟨⟨0, by decide +kernel⟩, by simp⟩⟩
  have hd : (flashBoard twoRegions).flash.Pairwise fun r s => ∀ a, ¬ (r.Covers a ∧ s.Covers a) := by
    refine List.pairwise_pair.2 ?_
    rintro a ⟨⟨hstart, -⟩, -, hstop⟩
    have hle : a < 256 := Nat.lt_of_lt_of_le hstop (Nat.min_le_left _ _)
    change 512 ≤ a at hstart
    omega
  obtain ⟨stop, htiles, -⟩ := (tiles_ofBoard (flashBoard twoRegions) hne hd).2.1
  exact ⟨hne, hd, stop, htiles⟩

end BoardAtlas
