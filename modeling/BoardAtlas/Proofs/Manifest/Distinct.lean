import BoardAtlas.Manifest.Value

/-!
# Values without repeated keys

An object keeps one value for a key, but a list of members could name a key twice. The trees that stand for
manifests are those in which this never happens.

* `Value.Distinct`: in every object of the tree the keys all differ;
* `distinctItems_iff`, `distinctMembers_iff`, `Distinct.of_get?`: the property part by part.
-/

namespace BoardAtlas.Value

mutual

/-- In every object of the tree the keys all differ. -/
def Distinct : Value → Prop
  | .list items => DistinctItems items
  | .obj fields => Dict.Distinct fields ∧ DistinctMembers fields
  | _ => True

/-- In every object of the items the keys all differ. -/
def DistinctItems : List Value → Prop
  | [] => True
  | v :: rest => Distinct v ∧ DistinctItems rest

/-- In every object of the members' values the keys all differ. -/
def DistinctMembers : List (String × Value) → Prop
  | [] => True
  | (_, v) :: rest => Distinct v ∧ DistinctMembers rest

end

theorem distinctItems_iff {items : List Value} : DistinctItems items ↔ ∀ v ∈ items, v.Distinct := by
  induction items with
  | nil => simp [DistinctItems]
  | cons v rest ih => simp [DistinctItems, ih]

theorem distinctMembers_iff {fields : List (String × Value)} :
    DistinctMembers fields ↔ ∀ e ∈ fields, e.2.Distinct := by
  induction fields with
  | nil => simp [DistinctMembers]
  | cons e rest ih =>
    obtain ⟨k, v⟩ := e
    simp only [DistinctMembers, ih, List.forall_mem_cons]

theorem distinct_list_iff {items : List Value} :
    (Value.list items).Distinct ↔ ∀ v ∈ items, v.Distinct := by
  rw [Distinct, distinctItems_iff]

theorem distinct_obj_iff {fields : Dict Value} :
    (Value.obj fields).Distinct ↔ Dict.Distinct fields ∧ ∀ e ∈ fields, e.2.Distinct := by
  rw [Distinct, distinctMembers_iff]

/-- What is found in a tree without repeated keys has none either. -/
theorem Distinct.of_get? {fields : Dict Value} {key : String} {w : Value}
    (h : (Value.obj fields).Distinct) (hw : Dict.get? fields key = some w) : w.Distinct :=
  (distinct_obj_iff.1 h).2 _ (Dict.mem_of_get? hw)

end BoardAtlas.Value
