import Kagni.Lib.Dict
import Mathlib.Data.Finmap

/-!
# Dictionaries as finite maps

A dictionary keeps its keys in the order of insertion. As a finite map it forgets the order: two dictionaries that answer every
lookup alike are the same map, and what is computed from the pairs in any order is computed from the map.
-/

namespace Lib

namespace Dict

variable {κ ν : Type} [DecidableEq κ]

/-- The pairs of a dictionary, as an association list. -/
def toAList (d : Dict κ ν) : AList fun _ : κ => ν :=
  ⟨d.entries.map fun p => ⟨p.1, p.2⟩, by
    unfold List.NodupKeys List.keys
    rw [List.map_map]
    exact d.nodup⟩

/-- A dictionary without its order. -/
def toFinmap (d : Dict κ ν) : Finmap fun _ : κ => ν := d.toAList.toFinmap

@[simp] theorem lookup_toFinmap (d : Dict κ ν) (k : κ) : d.toFinmap.lookup k = d.get k := by
  unfold toFinmap toAList get
  rw [Finmap.lookup_toFinmap, AList.lookup]
  dsimp only
  induction d.entries with
  | nil => rfl
  | cons p l ih =>
    rw [List.map_cons, lookup]
    by_cases h : k = p.1
    · subst h
      rw [if_pos rfl, List.dlookup_cons_eq]
    · rw [if_neg h, List.dlookup_cons_ne _ _ h, ih]

omit [DecidableEq κ] in
/-- The pairs of the map are those of the dictionary. -/
theorem entries_toFinmap (d : Dict κ ν) :
    d.toFinmap.entries = ↑(d.entries.map fun p => (⟨p.1, p.2⟩ : Sigma fun _ : κ => ν)) := rfl

@[simp] theorem mem_toFinmap (d : Dict κ ν) (k : κ) : k ∈ d.toFinmap ↔ k ∈ d.keys := by
  rw [← Finmap.lookup_isSome, lookup_toFinmap, Option.isSome_iff_exists, mem_keys_iff]

theorem keys_toFinmap (d : Dict κ ν) : d.toFinmap.keys = d.keys.toFinset := by
  ext k
  rw [Finmap.mem_keys, mem_toFinmap, List.mem_toFinset]

/-- There are as many pairs as keys. -/
theorem card_keys_toFinmap (d : Dict κ ν) : d.toFinmap.keys.card = d.size := by
  rw [keys_toFinmap, List.toFinset_card_of_nodup (show d.keys.Nodup from d.nodup), keys, List.length_map]
  rfl

omit [DecidableEq κ] in
/-- Dictionaries with the same pairs in the same order are the same. -/
theorem ext_entries {d d' : Dict κ ν} (h : d.entries = d'.entries) : d = d' := by
  cases d
  cases d'
  cases h
  rfl

end Dict

end Lib
