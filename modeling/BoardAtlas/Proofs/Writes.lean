import Mathlib.Data.List.Induction
import BoardAtlas.Dict
import BoardAtlas.Listing

/-!
# Dictionaries made of writes

A dictionary to which entries are written one after the other has their keys in the order of first writing, and under
every key what was written last.

* `Dict.keys_extend`, **`Dict.keys_ofList`**: the keys after a list of writes;
* `Dict.length_ofList_eq_iff`: as many keys as writes;
* `Dict.Layered`: a dictionary over layers; `Dict.layered_extend`, `Dict.layered_foldl_extend`: writing over it;
* **`Dict.layered_ofList_flatten`**: lists of writes one after the other.
-/

namespace BoardAtlas

namespace Listing

variable {α : Type} {β : Type} [BEq β] (key : α → β)

theorem firstsAfter_sublist (seen : List β) (xs : List α) : (firstsAfter key seen xs).Sublist xs := by
  induction xs generalizing seen with
  | nil => exact List.Sublist.slnil
  | cons x rest ih =>
    rw [firstsAfter]
    split
    · exact (ih seen).cons x
    · exact (ih (key x :: seen)).cons_cons x

end Listing

namespace Dict

variable {α : Type}

theorem extend_concat (d e : Dict α) (k : String) (v : α) : d.extend (e ++ [(k, v)]) = (d.extend e).insert k v := by
  rw [extend, List.foldl_append]
  rfl

/-- **The keys after a list of writes**: those that were there, and new ones as they are first written. -/
theorem keys_extend {d : Dict α} (hd : d.Distinct) (e : Dict α) :
    (d.extend e).keys = Listing.firsts (d.keys ++ e.keys) := by
  induction e using List.reverseRecOn with
  | nil =>
    have hkeys : (d.keys.map id).Nodup := by rwa [List.map_id]
    change d.keys = Listing.firsts (d.keys ++ [])
    rw [List.append_nil, Listing.firsts, Listing.firstsBy_of_nodup hkeys]
  | append_singleton e x ih =>
    obtain ⟨k, v⟩ := x
    have hmem : k ∈ Listing.firsts (d.keys ++ keys e) ↔ k ∈ (d.keys ++ keys e).map id := by
      rw [← Listing.mem_map_firstsBy, List.map_id]
      rfl
    have hconcat : d.keys ++ keys (e ++ [(k, v)]) = d.keys ++ keys e ++ [k] := by simp [keys]
    rw [extend_concat, keys_insert, ih, hconcat]
    split
    · next hk => exact (Listing.firstsBy_concat_of_mem (hmem.1 hk)).symm
    · next hk => exact (Listing.firstsBy_concat_of_not_mem fun hm => hk (hmem.2 hm)).symm

theorem keys_ofList (entries : List (String × α)) : (ofList entries).keys = Listing.firsts (keys entries) := by
  have hd : Distinct ([] : Dict α) := List.nodup_nil
  exact keys_extend hd entries

/-- **There are as many keys as writes** exactly when no key is written twice. -/
theorem length_ofList_eq_iff (entries : List (String × α)) :
    (ofList entries).length = entries.length ↔ (keys entries).Nodup := by
  constructor
  · intro hlength
    have hkeys : (Listing.firsts (keys entries)).length = (keys entries).length := by
      rw [← keys_ofList, keys, keys, List.length_map, List.length_map, hlength]
    have hall : Listing.firsts (keys entries) = keys entries :=
      (Listing.firstsAfter_sublist id [] _).eq_of_length hkeys
    have hnodup := Listing.nodup_map_firstsBy id (keys entries)
    rw [List.map_id] at hnodup
    exact hall ▸ hnodup
  · intro hnodup
    rw [ofList_eq_self hnodup]

/-! ## Layers -/

/-- **A dictionary over layers**: under every key it has what the first layer with the key has. -/
def Layered (layers : List (Dict α)) (d : Dict α) : Prop := ∀ key, d.get? key = layers.findSome? (Dict.get? · key)

theorem layered_singleton (d : Dict α) : Layered [d] d := by
  intro key
  cases h : d.get? key <;> simp [h]

/-- Writing the layers of one dictionary over those of another one. -/
theorem layered_extend {above below : List (Dict α)} {top d : Dict α} (ht : Layered above top)
    (hd : Layered below d) (hdistinct : top.Distinct) : Layered (above ++ below) (d.extend top) := by
  intro key
  rw [get?_extend _ _ _ hdistinct, ht key, hd key, List.findSome?_append]

/-- Dictionaries written one after the other are layers, the last one on top. -/
theorem layered_foldl_extend {β : Type} {f : β → Dict α} {layers : List (Dict α)} {d : Dict α}
    (h : Layered layers d) (tops : List β) (ht : ∀ b ∈ tops, (f b).Distinct) :
    Layered ((tops.map f).reverse ++ layers) (tops.foldl (fun d b => d.extend (f b)) d) := by
  induction tops generalizing layers d with
  | nil => exact h
  | cons b rest ih =>
    obtain ⟨hb, hrest⟩ := List.forall_mem_cons.1 ht
    rw [List.foldl_cons, List.map_cons, List.reverse_cons, List.append_assoc, List.singleton_append]
    exact ih (layered_extend (layered_singleton (f b)) h hb) hrest

theorem foldl_extend (d : Dict α) (layers : List (Dict α)) : layers.foldl extend d = d.extend layers.flatten :=
  List.foldl_flatten.symm

/-- **Under a key** is what the last of the lists with the key has there. -/
theorem layered_ofList_flatten {layers : List (Dict α)} (h : ∀ d ∈ layers, d.Distinct) :
    Layered layers.reverse (ofList layers.flatten) := by
  have hnone : Layered [] ([] : Dict α) := fun _ => rfl
  have hall := layered_foldl_extend (f := id) hnone layers h
  rw [List.map_id, List.append_nil] at hall
  rwa [ofList, ← foldl_extend]

end Dict

end BoardAtlas
