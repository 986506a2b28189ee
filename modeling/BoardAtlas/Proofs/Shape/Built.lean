import BoardAtlas.Proofs.Result
import BoardAtlas.Shape.Builder

/-!
# What is made of fragments

A fragment becomes a shape of its own, or a group of what a list holds.

* `Fragment.vars_of_resolve`: the variables of a resolved fragment;
* `Fragment.frame_ids`, **`Fragment.plan_eq_shape`**: what a plan takes from its fragment;
* `Fragment.Includes`, **`Fragment.Includes.of_plan`**: what a group is planned of.
-/

namespace BoardAtlas.Fragment

/-! ## Resolved fragments -/

theorem get?_withType (source : Dict Value) {key : String} (hkey : key ≠ "type") :
    (withType source).get? key = source.get? key := by
  unfold withType
  split
  · rw [Dict.get?_insert, if_neg hkey.symm]
  · rfl

/-- The variables of a fragment: those of its scope with its own written over them. -/
theorem vars_of_resolve {presets : PresetTable} {scope : Scope} {source : Dict Value} {f : Fragment}
    (h : resolve presets scope (.obj source) = .ok f) :
    f.vars = match source.get? "vars" with
      | some (.obj own) => scope.vars.extend own
      | _ => scope.vars := by
  have hsource : (withId scope.id? (withType source)).get? "vars" = source.get? "vars" := by
    have hvars : (withType source).get? "vars" = source.get? "vars" := get?_withType source (by decide)
    rw [← hvars]
    unfold withId
    split
    · rw [Dict.get?_insert, if_neg (by decide), Dict.get?_insert, if_neg (by decide)]
    · rw [Dict.get?_insert, if_neg (by decide)]
    · rfl
  simp only [resolve, Except.bind_eq_ok] at h
  obtain ⟨vars, hvars, data, -, h⟩ := h
  split at h
  case h_2 => cases h
  case h_1 =>
    cases h
    rw [varsOf, hsource] at hvars
    split at hvars
    · next hnone =>
      cases hvars
      rw [hnone]
    · next own hown =>
      cases hvars
      rw [hown]
    · cases hvars

/-! ## Plans -/

variable [Calculator] {α : Type} [Coordinate α] {f : Fragment} {frame : Frame α} {s : Shape α}

theorem frame_ids (h : f.frame = .ok frame) :
    frame.id? = f.text? "id" ∧ frame.baseId? = f.text? "base_id" := by
  simp only [Fragment.frame, Except.bind_eq_ok] at h
  obtain ⟨_, -, _, -, _, -, h⟩ := h
  cases h
  exact ⟨rfl, rfl⟩

theorem rect_eq_ok (h : f.rect frame = .ok s) : s.frame = frame ∧ s.asGroup? = none := by
  simp only [rect, Except.bind_eq_ok] at h
  obtain ⟨_, -, _, -, _, -, _, -, _, -, _, -, h⟩ := h
  cases h
  exact ⟨rfl, rfl⟩

theorem circle_eq_ok (h : f.circle frame = .ok s) : s.frame = frame ∧ s.asGroup? = none := by
  simp only [circle, Except.bind_eq_ok] at h
  obtain ⟨_, -, _, -, _, -, h⟩ := h
  cases h
  exact ⟨rfl, rfl⟩

theorem text_eq_ok (h : f.text frame = .ok s) : s.frame = frame ∧ s.asGroup? = none := by
  simp only [text, Except.bind_eq_ok] at h
  obtain ⟨_, -, _, -, _, -, _, -, h⟩ := h
  cases h
  exact ⟨rfl, rfl⟩

omit [Coordinate α] in
theorem inclusion_eq_ok {p : Plan α} (h : f.inclusion frame = .ok p) :
    ∃ name count, p = .group frame name count := by
  rw [inclusion] at h
  split at h
  · cases h
  · next name _ =>
    obtain ⟨count, -, h⟩ := Except.bind_eq_ok.1 h
    cases h
    exact ⟨name, count, rfl⟩

/-- **A finished shape has the frame of its fragment** and no children. -/
theorem plan_eq_shape (h : f.plan = .ok (.shape s)) :
    f.frame = .ok s.frame ∧ s.asGroup? = none := by
  rw [plan, Except.bind_eq_ok] at h
  obtain ⟨frame, hframe, h⟩ := h
  have hs : s.frame = frame ∧ s.asGroup? = none := by
    split at h
    · cases h
    · obtain ⟨_, hrect, he⟩ := Except.map_eq_ok.1 h
      cases he
      exact rect_eq_ok hrect
    · obtain ⟨_, hcircle, he⟩ := Except.map_eq_ok.1 h
      cases he
      exact circle_eq_ok hcircle
    · obtain ⟨_, htext, he⟩ := Except.map_eq_ok.1 h
      cases he
      exact text_eq_ok htext
    · obtain ⟨_, _, he⟩ := inclusion_eq_ok h
      cases he
    · cases h
  rw [hs.1]
  exact ⟨hframe, hs.2⟩

/-- The fragment includes a named list, so many times. -/
structure Includes (f : Fragment) (frame : Frame α) (name : String) (count : Nat) : Prop where
  type : f.data.get? "type" = some (.str "include")
  frame : f.frame = .ok frame
  name : f.text? "name" = some name
  count : f.count = .ok count

theorem Includes.plan {f : Fragment} {frame : Frame α} {name : String} {count : Nat}
    (h : f.Includes frame name count) : f.plan = .ok (.group frame name count) := by
  rw [Fragment.plan, h.frame, h.type]
  change f.inclusion frame = _
  rw [inclusion, h.name]
  simp only [h.count]
  rfl

theorem Includes.of_plan {f : Fragment} {frame : Frame α} {name : String} {count : Nat}
    (h : f.plan = .ok (.group frame name count)) : f.Includes frame name count := by
  rw [Fragment.plan, Except.bind_eq_ok] at h
  obtain ⟨frame', hframe, h⟩ := h
  split at h
  case h_5 htype =>
    rw [inclusion] at h
    split at h
    · cases h
    · next name' hname =>
      obtain ⟨count', hcount, h⟩ := Except.bind_eq_ok.1 h
      cases h
      exact ⟨htype, hframe, hname, hcount⟩
  case h_1 | h_6 => cases h
  case h_2 | h_3 | h_4 =>
    obtain ⟨_, -, h⟩ := Except.map_eq_ok.1 h
    cases h

theorem count_of_absent {f : Fragment} (h : f.field? "repeat" = none) : f.count = .ok 1 := by
  rw [count, number?, h]
  rfl

end BoardAtlas.Fragment
