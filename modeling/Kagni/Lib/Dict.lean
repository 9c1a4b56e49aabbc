import Mathlib.Data.List.Nodup
import Mathlib.Data.List.Dedup

/-!
# Insertion-ordered dictionaries and sets

A dictionary keeps its pairs in the order their keys were first inserted: setting a key that is there keeps its place, deleting
and setting it again puts it last. A set keeps its elements in the same way. Both carry the proof that no key occurs twice, so a
dictionary or a set with a double key cannot be built.
-/

namespace Lib

/-- A dictionary: pairs in insertion order, no key twice. -/
structure Dict (κ ν : Type) where
  entries : List (κ × ν)
  nodup : (entries.map Prod.fst).Nodup

namespace Dict

variable {κ ν μ : Type} [DecidableEq κ]

/-- The value of a key in a list of pairs. -/
def lookup (k : κ) : List (κ × ν) → Option ν
  | [] => none
  | (k', v) :: rest => if k = k' then some v else lookup k rest

/-- Overwrite the value of `k` where it is, or add the pair at the end. -/
def assign (k : κ) (v : ν) : List (κ × ν) → List (κ × ν)
  | [] => [(k, v)]
  | (k', v') :: rest => if k = k' then (k', v) :: rest else (k', v') :: assign k v rest

theorem mem_keys_assign (k : κ) (v : ν) (l : List (κ × ν)) (x : κ) :
    x ∈ (assign k v l).map Prod.fst ↔ x = k ∨ x ∈ l.map Prod.fst := by
  induction l with
  | nil => simp [assign]
  | cons p l ih =>
    obtain ⟨k', v'⟩ := p
    by_cases h : k = k'
    · subst h
      simp [assign]
    · simp only [assign, if_neg h, List.map_cons, List.mem_cons, ih]
      tauto

theorem nodup_assign (k : κ) (v : ν) (l : List (κ × ν)) (h : (l.map Prod.fst).Nodup) :
    ((assign k v l).map Prod.fst).Nodup := by
  induction l with
  | nil => simp [assign]
  | cons p l ih =>
    obtain ⟨k', v'⟩ := p
    simp only [List.map_cons, List.nodup_cons] at h
    by_cases hk : k = k'
    · simpa [assign, hk] using h
    · simp only [assign, if_neg hk, List.map_cons, List.nodup_cons]
      exact ⟨fun hm => ((mem_keys_assign k v l k').1 hm).elim (fun e => hk e.symm) h.1, ih h.2⟩

/-- The empty dictionary. -/
def empty : Dict κ ν := ⟨[], List.nodup_nil⟩

instance : EmptyCollection (Dict κ ν) := ⟨empty⟩

instance : Inhabited (Dict κ ν) := ⟨empty⟩

/-- `d.get(k)`. -/
def get (d : Dict κ ν) (k : κ) : Option ν := lookup k d.entries

/-- `d[k] = v`. -/
def set (d : Dict κ ν) (k : κ) (v : ν) : Dict κ ν := ⟨assign k v d.entries, nodup_assign k v d.entries d.nodup⟩

/-- The pairs that satisfy `p`. -/
def filter (d : Dict κ ν) (p : κ × ν → Bool) : Dict κ ν :=
  ⟨d.entries.filter p, (List.filter_sublist.map Prod.fst).nodup d.nodup⟩

/-- `del d[k]` for a key that may be missing. -/
def erase (d : Dict κ ν) (k : κ) : Dict κ ν := d.filter fun p => !decide (p.1 = k)

/-- The keys in insertion order. -/
def keys (d : Dict κ ν) : List κ := d.entries.map Prod.fst

/-- `len(d)`. -/
def size (d : Dict κ ν) : Nat := d.entries.length

/-- `k in d`. -/
def contains (d : Dict κ ν) (k : κ) : Bool := (d.get k).isSome

/-- Change every value, keep the keys and their order. -/
def mapValues (f : κ → ν → μ) (d : Dict κ ν) : Dict κ μ :=
  ⟨d.entries.map fun p => (p.1, f p.1 p.2), by
    rw [List.map_map]
    exact d.nodup⟩

@[simp] theorem get_empty (k : κ) : (∅ : Dict κ ν).get k = none := rfl

theorem lookup_assign (k k' : κ) (v : ν) (l : List (κ × ν)) :
    lookup k' (assign k v l) = if k' = k then some v else lookup k' l := by
  induction l with
  | nil => simp [assign, lookup]
  | cons p l ih =>
    obtain ⟨k'', v''⟩ := p
    by_cases h : k = k''
    · subst h
      by_cases h' : k' = k <;> simp [assign, lookup, h']
    · by_cases h' : k' = k''
      · subst h'
        simp [assign, lookup, h, Ne.symm h]
      · simp [assign, lookup, h, h', ih]

@[simp] theorem get_set (d : Dict κ ν) (k k' : κ) (v : ν) :
    (d.set k v).get k' = if k' = k then some v else d.get k' := lookup_assign k k' v d.entries

theorem get_set_self (d : Dict κ ν) (k : κ) (v : ν) : (d.set k v).get k = some v := by simp

theorem lookup_filter {p : κ × ν → Bool} (k : κ) (l : List (κ × ν)) (h : (l.map Prod.fst).Nodup) :
    lookup k (l.filter p) = (lookup k l).bind fun v => if p (k, v) then some v else none := by
  induction l with
  | nil => rfl
  | cons q l ih =>
    obtain ⟨k', v'⟩ := q
    simp only [List.map_cons, List.nodup_cons] at h
    by_cases hk : k = k'
    · subst hk
      by_cases hp : p (k, v')
      · simp [lookup, hp]
      · have hl : lookup k l = none := by
          have hn := h.1
          clear ih h hp
          induction l with
          | nil => rfl
          | cons q l ih =>
            simp only [List.map_cons, List.mem_cons, not_or] at hn
            simp [lookup, hn.1, ih hn.2]
        simp [lookup, hp, ih h.2, hl]
    · by_cases hp : p (k', v') <;> simp [lookup, hp, hk, ih h.2]

theorem get_filter (d : Dict κ ν) (p : κ × ν → Bool) (k : κ) :
    (d.filter p).get k = (d.get k).bind fun v => if p (k, v) then some v else none :=
  lookup_filter k d.entries d.nodup

@[simp] theorem get_erase (d : Dict κ ν) (k k' : κ) : (d.erase k).get k' = if k' = k then none else d.get k' := by
  rw [erase, get_filter]
  by_cases h : k' = k
  · cases hd : d.get k' <;> simp [h]
  · cases hd : d.get k' <;> simp [h]

theorem get_eq_some_iff (d : Dict κ ν) (k : κ) (v : ν) : d.get k = some v ↔ (k, v) ∈ d.entries := by
  obtain ⟨l, hl⟩ := d
  change lookup k l = some v ↔ (k, v) ∈ l
  induction l with
  | nil => simp [lookup]
  | cons p l ih =>
    obtain ⟨k', v'⟩ := p
    simp only [List.map_cons, List.nodup_cons] at hl
    by_cases h : k = k'
    · subst h
      have hn : (k, v) ∉ l := fun hm => hl.1 (List.mem_map.2 ⟨(k, v), hm, rfl⟩)
      simp [lookup, hn, eq_comm]
    · simp [lookup, h, ih hl.2]

theorem get_eq_none_iff (d : Dict κ ν) (k : κ) : d.get k = none ↔ k ∉ d.keys := by
  constructor
  · intro h hm
    obtain ⟨⟨k', v⟩, hp, rfl⟩ := List.mem_map.1 hm
    rw [(d.get_eq_some_iff k' v).2 hp] at h
    cases h
  · intro h
    cases hg : d.get k with
    | none => rfl
    | some v => exact absurd (List.mem_map.2 ⟨(k, v), (d.get_eq_some_iff k v).1 hg, rfl⟩) h

/-- There is nothing to erase under a key that is missing. -/
theorem erase_of_get {d : Dict κ ν} {k : κ} (h : d.get k = none) : d.erase k = d := by
  have hall : ∀ p ∈ d.entries, (!decide (p.1 = k)) = true := fun p hp => by
    have hne : p.1 ≠ k := fun heq => (get_eq_none_iff d k).1 h (heq ▸ List.mem_map_of_mem hp)
    simp [hne]
  obtain ⟨entries, nodup⟩ := d
  simp only [erase, filter, List.filter_eq_self.2 hall]

theorem mem_keys_iff (d : Dict κ ν) (k : κ) : k ∈ d.keys ↔ ∃ v, d.get k = some v := by
  rw [← Option.ne_none_iff_exists', ne_eq, get_eq_none_iff, not_not]

@[simp] theorem get_mapValues (f : κ → ν → μ) (d : Dict κ ν) (k : κ) :
    (d.mapValues f).get k = (d.get k).map (f k) := by
  obtain ⟨l, hl⟩ := d
  change lookup k (l.map _) = (lookup k l).map (f k)
  clear hl
  induction l with
  | nil => rfl
  | cons p l ih =>
    obtain ⟨k', v'⟩ := p
    by_cases h : k = k'
    · subst h
      simp [lookup]
    · simp [lookup, h, ih]

theorem contains_eq_true_iff (d : Dict κ ν) (k : κ) : d.contains k = true ↔ k ∈ d.keys := by
  rw [contains, Option.isSome_iff_exists, mem_keys_iff]

/-- Setting a key to the value it has changes nothing. -/
theorem set_of_get {d : Dict κ ν} {k : κ} {v : ν} (h : d.get k = some v) : d.set k v = d := by
  obtain ⟨l, hl⟩ := d
  change lookup k l = some v at h
  have : assign k v l = l := by
    clear hl
    induction l with
    | nil => simp [lookup] at h
    | cons p l ih =>
      obtain ⟨k', v'⟩ := p
      by_cases hk : k = k'
      · subst hk
        simp only [lookup, if_true, Option.some.injEq] at h
        simp [assign, h]
      · simp only [lookup, if_neg hk] at h
        simp [assign, hk, ih h]
  simp [set, this]

/-- A value of a dictionary after `set` is the new one or an old one. -/
theorem mem_entries_set {d : Dict κ ν} {k : κ} {v : ν} {p : κ × ν} (h : p ∈ (d.set k v).entries) :
    p = (k, v) ∨ p ∈ d.entries := by
  obtain ⟨k', v'⟩ := p
  rw [← get_eq_some_iff, get_set] at h
  split at h
  · rename_i hk
    left
    rw [hk, Option.some.inj h]
  · right
    exact (get_eq_some_iff _ _ _).1 h

theorem assign_of_not_mem {k : κ} {v : ν} {l : List (κ × ν)} (h : k ∉ l.map Prod.fst) : assign k v l = l ++ [(k, v)] := by
  induction l with
  | nil => rfl
  | cons p l ih =>
    simp only [List.map_cons, List.mem_cons, not_or] at h
    simp [assign, h.1, ih h.2]

theorem length_assign (k : κ) (v : ν) (l : List (κ × ν)) :
    (assign k v l).length = l.length + if (lookup k l).isSome then 0 else 1 := by
  induction l with
  | nil => rfl
  | cons p l ih =>
    obtain ⟨k', v'⟩ := p
    by_cases h : k = k'
    · simp [assign, lookup, h]
    · simp only [assign, lookup, if_neg h, List.length_cons, ih]
      omega

/-- Setting a key adds a pair, unless the key is there. -/
theorem size_set (d : Dict κ ν) (k : κ) (v : ν) : (d.set k v).size = d.size + if d.contains k then 0 else 1 :=
  length_assign k v d.entries

/-- Deleting a key that is there removes one pair. -/
theorem size_erase {d : Dict κ ν} {k : κ} (h : d.contains k = true) : (d.erase k).size + 1 = d.size := by
  have hk : k ∈ d.keys := (d.contains_eq_true_iff k).1 h
  have hkeys : (d.erase k).keys = d.keys.erase k := by
    have hnodup : d.keys.Nodup := d.nodup
    rw [hnodup.erase_eq_filter, keys, keys, erase, filter, List.filter_map]
    refine congrArg (List.map Prod.fst) (List.filter_congr fun p _ => ?_)
    rw [Function.comp_apply, bne, beq_eq_decide]
  have hlen := congrArg List.length hkeys
  rw [List.length_erase_of_mem hk, keys, keys, List.length_map, List.length_map] at hlen
  have hpos : 0 < d.keys.length := List.length_pos_of_mem hk
  rw [keys, List.length_map] at hpos
  unfold size
  omega

/-- A dictionary built pair by pair. -/
def ofList (l : List (κ × ν)) : Dict κ ν := l.foldl (fun d p => d.set p.1 p.2) ∅

theorem foldl_set_entries (l : List (κ × ν)) (d : Dict κ ν) (h : ((d.entries ++ l).map Prod.fst).Nodup) :
    (l.foldl (fun d p => d.set p.1 p.2) d).entries = d.entries ++ l := by
  induction l generalizing d with
  | nil => simp
  | cons p l ih =>
    have hp : p.1 ∉ d.entries.map Prod.fst := by
      intro hm
      rw [List.map_append, List.nodup_append] at h
      exact h.2.2 p.1 hm p.1 (by simp) rfl
    have hset : (d.set p.1 p.2).entries = d.entries ++ [p] := assign_of_not_mem hp
    rw [List.foldl_cons, ih, hset, List.append_assoc, List.singleton_append]
    rwa [hset, List.append_assoc, List.singleton_append]

/-- Reading back the pairs of a dictionary gives the dictionary. -/
theorem ofList_entries (d : Dict κ ν) : ofList d.entries = d := by
  have h := foldl_set_entries d.entries ∅ d.nodup
  obtain ⟨l, hl⟩ := d
  rw [Dict.mk.injEq]
  exact h

/-- A loop whose step stores what `f` makes of each pair, unless it makes nothing of it. -/
theorem get_foldl_set (f : ν → Option μ) (step : Dict κ μ → κ × ν → Dict κ μ)
    (hstep : ∀ d p, step d p = (f p.2).elim d (d.set p.1)) (l : List (κ × ν)) (h : (l.map Prod.fst).Nodup) (d : Dict κ μ)
    (k : κ) : (l.foldl step d).get k = ((lookup k l).bind f).or (d.get k) := by
  induction l generalizing d with
  | nil => rfl
  | cons p l ih =>
    obtain ⟨hp, hl⟩ := List.nodup_cons.1 h
    rw [List.foldl_cons, ih hl, lookup, hstep]
    by_cases hk : k = p.1
    · subst hk
      have hnone : lookup p.1 l = none := by
        have := get_eq_none_iff ⟨l, hl⟩ p.1
        exact this.2 hp
      rw [if_pos rfl, hnone]
      cases hf : f p.2 with
      | none => simp [hf]
      | some v => simp [hf]
    · rw [if_neg hk]
      cases f p.2 with
      | none => rfl
      | some v => rw [Option.elim_some, get_set, if_neg hk]

/-- A loop whose step decides what is under the key of each pair, and under no other key. -/
theorem get_foldl_step {step : Dict κ μ → κ × ν → Dict κ μ} {g : ν → Option μ}
    (hstep : ∀ d p k, (step d p).get k = if k = p.1 then g p.2 else d.get k) (l : List (κ × ν)) (h : (l.map Prod.fst).Nodup)
    (d : Dict κ μ) (k : κ) : (l.foldl step d).get k = ((lookup k l).map g).getD (d.get k) := by
  induction l generalizing d with
  | nil => rfl
  | cons p l ih =>
    obtain ⟨hp, hl⟩ := List.nodup_cons.1 h
    rw [List.foldl_cons, ih hl, lookup, hstep]
    by_cases hk : k = p.1
    · subst hk
      have hnone : lookup p.1 l = none := (get_eq_none_iff ⟨l, hl⟩ p.1).2 hp
      rw [if_pos rfl, if_pos rfl, hnone]
      rfl
    · rw [if_neg hk, if_neg hk]

theorem get_ofList_of_mem {l : List (κ × ν)} {k : κ} (h : k ∈ l.map Prod.fst) : (ofList l).get k ≠ none := by
  have hmem : ∀ (l : List (κ × ν)) (d : Dict κ ν), k ∈ l.map Prod.fst ∨ d.get k ≠ none →
      (l.foldl (fun d p => d.set p.1 p.2) d).get k ≠ none := by
    intro l
    induction l with
    | nil =>
      intro d h
      simpa using h
    | cons p l ih =>
      intro d h
      rw [List.foldl_cons]
      refine ih _ ?_
      by_cases hk : k = p.1
      · exact .inr (by simp [hk])
      · simpa [hk] using h
  exact hmem l ∅ (.inl h)

end Dict

/-- A set: elements in insertion order, none twice. -/
structure OrdSet (α : Type) where
  elems : List α
  nodup : elems.Nodup
  deriving DecidableEq

namespace OrdSet

variable {α : Type}

/-- The empty set. -/
def empty : OrdSet α := ⟨[], List.nodup_nil⟩

instance : EmptyCollection (OrdSet α) := ⟨empty⟩

instance : Inhabited (OrdSet α) := ⟨empty⟩

instance : Membership α (OrdSet α) := ⟨fun s a => a ∈ s.elems⟩

theorem mem_def (a : α) (s : OrdSet α) : a ∈ s ↔ a ∈ s.elems := Iff.rfl

/-- The elements that satisfy `p`. -/
def filter (s : OrdSet α) (p : α → Bool) : OrdSet α := ⟨s.elems.filter p, s.nodup.filter p⟩

/-- `len(s)`. -/
def card (s : OrdSet α) : Nat := s.elems.length

@[simp] theorem not_mem_empty (a : α) : a ∉ (∅ : OrdSet α) := List.not_mem_nil

@[simp] theorem mem_filter (s : OrdSet α) (p : α → Bool) (a : α) : a ∈ s.filter p ↔ a ∈ s ∧ p a = true :=
  List.mem_filter

variable [DecidableEq α]

instance (a : α) (s : OrdSet α) : Decidable (a ∈ s) := inferInstanceAs (Decidable (a ∈ s.elems))

/-- `s.discard(a)`. -/
def erase (s : OrdSet α) (a : α) : OrdSet α := s.filter fun x => !decide (x = a)

/-- `s.add(a)`. -/
def insert (s : OrdSet α) (a : α) : OrdSet α :=
  if h : a ∈ s.elems then s
  else ⟨s.elems ++ [a], by
    rw [List.nodup_append]
    refine ⟨s.nodup, by simp, fun x hx y hy => ?_⟩
    rw [List.mem_singleton.1 hy]
    exact fun e => h (e ▸ hx)⟩

/-- `s.update(xs)`. -/
def insertAll (s : OrdSet α) (xs : List α) : OrdSet α := xs.foldl insert s

/-- `set(xs)`. -/
def ofList (xs : List α) : OrdSet α := insertAll ∅ xs

/-- `s - t`. -/
def diff (s t : OrdSet α) : OrdSet α := s.filter fun x => !decide (x ∈ t)

/-- `s & t`. -/
def inter (s t : OrdSet α) : OrdSet α := s.filter fun x => decide (x ∈ t)

/-- `s | t`. -/
def union (s t : OrdSet α) : OrdSet α := s.insertAll t.elems

@[simp] theorem mem_erase (s : OrdSet α) (a b : α) : b ∈ s.erase a ↔ b ∈ s ∧ b ≠ a := by
  simp [erase]

@[simp] theorem mem_insert (s : OrdSet α) (a b : α) : b ∈ s.insert a ↔ b = a ∨ b ∈ s := by
  unfold insert
  split
  · rename_i h
    refine ⟨Or.inr, fun hb => hb.elim (fun e => ?_) id⟩
    rw [e]
    exact h
  · simp [mem_def, or_comm]

@[simp] theorem mem_insertAll (s : OrdSet α) (xs : List α) (b : α) : b ∈ s.insertAll xs ↔ b ∈ xs ∨ b ∈ s := by
  unfold insertAll
  induction xs generalizing s with
  | nil => simp
  | cons x xs ih =>
    rw [List.foldl_cons, ih, mem_insert, List.mem_cons]
    tauto

@[simp] theorem mem_ofList (xs : List α) (b : α) : b ∈ ofList xs ↔ b ∈ xs := by simp [ofList]

@[simp] theorem mem_diff (s t : OrdSet α) (a : α) : a ∈ s.diff t ↔ a ∈ s ∧ a ∉ t := by simp [diff]

@[simp] theorem mem_inter (s t : OrdSet α) (a : α) : a ∈ s.inter t ↔ a ∈ s ∧ a ∈ t := by simp [inter]

@[simp] theorem mem_union (s t : OrdSet α) (a : α) : a ∈ s.union t ↔ a ∈ t ∨ a ∈ s := by
  rw [union, mem_insertAll]
  rfl

/-- Discarding takes at most one element. -/
theorem card_erase_le (s : OrdSet α) (a : α) : s.card ≤ (s.erase a).card + 1 := by
  have hlen : s.elems.length - 1 ≤ (s.elems.erase a).length := List.le_length_erase
  have hfilter : (s.erase a).elems = s.elems.erase a := by
    rw [s.nodup.erase_eq_filter]
    exact List.filter_congr fun x _ => by simp [bne, BEq.beq]
  unfold card
  rw [hfilter]
  omega

end OrdSet

end Lib
