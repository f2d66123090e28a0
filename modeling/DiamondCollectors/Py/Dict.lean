/-
DiamondCollectors/Py/Dict.lean

Python dicts as the collectors use them: built from `{}` by `d[k] = v`, read
by `d[k]`, `k in d` and `d.keys()`.  A `Dict` is its items in insertion order
and carries the distinctness of its keys, so that no dict with a repeated key
can be built.  Assigning to a present key replaces its value in place.

`keys()` and `items()` go through the items in insertion order.  Python 2 goes
through a dict in the order of its hash table, which the model does not fix:
a statement that lists the effects of a loop over `keys()` lists them in
insertion order, and one about which names such a loop publishes, with which
values and how often, holds in every order.
-/
import Mathlib.Data.List.Nodup

namespace Diamond

variable {κ ν : Type}

/-- A dict: its items in insertion order, with distinct keys. -/
structure Dict (κ ν : Type) where
  items : List (κ × ν)
  nodup : (items.map Prod.fst).Nodup

namespace Dict

/-- `{}` -/
def empty : Dict κ ν := ⟨[], List.nodup_nil⟩

/-- `d.keys()` -/
def keys (d : Dict κ ν) : List κ := d.items.map Prod.fst

@[simp] theorem keys_empty : (empty : Dict κ ν).keys = [] := rfl

theorem lookup_cons_pair {inst : BEq κ} [LawfulBEq κ] [DecidableEq κ] (a k : κ) (b : ν)
    (l : List (κ × ν)) : ((a, b) :: l).lookup k = if k = a then some b else l.lookup k := by
  by_cases h : k = a
  · simp [List.lookup_cons, h]
  · have hb : (k == a) = false := by simpa using h
    simp [List.lookup_cons, hb, h]

theorem lookup_map_snd {ν' : Type} {inst : BEq κ} [LawfulBEq κ] [DecidableEq κ] (f : ν → ν')
    (k : κ) (l : List (κ × ν)) : (l.map fun p => (p.1, f p.2)).lookup k = (l.lookup k).map f := by
  induction l with
  | nil => rfl
  | cons p l ih =>
    obtain ⟨a, b⟩ := p
    rw [List.map_cons, lookup_cons_pair, lookup_cons_pair]
    split <;> simp [ih]

variable [DecidableEq κ]

/-- `d[k]`, `none` where Python raises `KeyError`. -/
def get? (d : Dict κ ν) (k : κ) : Option ν := d.items.lookup k

/-- `k in d` -/
def contains (d : Dict κ ν) (k : κ) : Bool := k ∈ d.keys

/-- Replacing the value of key `k` leaves the keys as they were. -/
theorem map_replace_keys (items : List (κ × ν)) (k : κ) (v : ν) :
    (items.map fun p => if p.1 = k then (k, v) else p).map Prod.fst = items.map Prod.fst := by
  induction items with
  | nil => rfl
  | cons p ps ih => by_cases h : p.1 = k <;> simp [h, ih]

/-- `d[k] = v`: a present key keeps its place, a new one goes last. -/
def set (d : Dict κ ν) (k : κ) (v : ν) : Dict κ ν :=
  if h : k ∈ d.keys then
    ⟨d.items.map fun p => if p.1 = k then (k, v) else p, by
      rw [map_replace_keys]; exact d.nodup⟩
  else
    ⟨d.items ++ [(k, v)], by
      rw [List.map_append, List.nodup_append]
      exact ⟨d.nodup, List.nodup_singleton _, by simpa [keys] using h⟩⟩

@[simp] theorem get?_empty (k : κ) : (empty : Dict κ ν).get? k = none := rfl

theorem contains_eq (d : Dict κ ν) (k : κ) : d.contains k = decide (k ∈ d.keys) := rfl

theorem keys_set (d : Dict κ ν) (k : κ) (v : ν) :
    (d.set k v).keys = if k ∈ d.keys then d.keys else d.keys ++ [k] := by
  unfold set
  split
  · exact map_replace_keys d.items k v
  · simp [keys]

@[simp] theorem mem_keys_set (d : Dict κ ν) (k k' : κ) (v : ν) :
    k' ∈ (d.set k v).keys ↔ k' = k ∨ k' ∈ d.keys := by
  rw [keys_set]
  split
  · next h => exact ⟨Or.inr, fun h' => h'.elim (· ▸ h) id⟩
  · simp [or_comm]

theorem get?_eq_some_iff (d : Dict κ ν) (k : κ) (v : ν) :
    d.get? k = some v ↔ (k, v) ∈ d.items := by
  have key : ∀ items : List (κ × ν), (items.map Prod.fst).Nodup →
      (items.lookup k = some v ↔ (k, v) ∈ items) := by
    intro items hn
    induction items with
    | nil => simp
    | cons p ps ih =>
      obtain ⟨a, b⟩ := p
      simp only [List.map_cons, List.nodup_cons, List.mem_map] at hn
      by_cases hk : k = a
      · subst hk
        have : (k, v) ∉ ps := fun h => hn.1 ⟨(k, v), h, rfl⟩
        simp [List.lookup_cons, this, eq_comm]
      · have hb : (k == a) = false := by simpa using hk
        simp [List.lookup_cons, hb, hk, ih hn.2]
  exact key d.items d.nodup

/-- Replacing the pairs of key `k` by `(k, v)`: `k` finds `v` where it found
something, and every other key finds what it found before. -/
theorem lookup_map_replace (items : List (κ × ν)) (k k' : κ) (v : ν) :
    (items.map fun p => if p.1 = k then (k, v) else p).lookup k' =
      if k' = k then (items.lookup k).map fun _ => v else items.lookup k' := by
  induction items with
  | nil => split <;> rfl
  | cons p ps ih =>
    obtain ⟨a, b⟩ := p
    by_cases ha : a = k
    · subst ha
      by_cases h : k' = a <;> simp [lookup_cons_pair, h, ih]
    · by_cases h : k' = a
      · subst h; simp [lookup_cons_pair, ha, ih]
      · split at ih <;> simp_all [lookup_cons_pair]

theorem get?_set (d : Dict κ ν) (k k' : κ) (v : ν) :
    (d.set k v).get? k' = if k' = k then some v else d.get? k' := by
  unfold set get?
  split
  · next h =>
    -- a present key: its pair is replaced in place
    obtain ⟨p, hp, rfl⟩ := List.mem_map.1 h
    have hk : (d.items.lookup p.1).isSome := List.lookup_isSome_iff.2 ⟨p, hp, by simp⟩
    obtain ⟨w, hw⟩ := Option.isSome_iff_exists.1 hk
    rw [lookup_map_replace, hw]
    rfl
  · next h =>
    -- a new key: its pair goes last
    have hk : d.items.lookup k = none := List.lookup_eq_none_iff.2 fun p hp =>
      bne_iff_ne.2 fun e => h (e ▸ List.mem_map_of_mem Prod.fst hp)
    rw [List.lookup_append, lookup_cons_pair]
    split
    · next e => subst e; simp [hk]
    · simp

@[simp] theorem get?_set_self (d : Dict κ ν) (k : κ) (v : ν) : (d.set k v).get? k = some v := by
  rw [get?_set, if_pos rfl]

@[simp] theorem get?_set_ne (d : Dict κ ν) {k k' : κ} (v : ν) (h : k' ≠ k) :
    (d.set k v).get? k' = d.get? k' := by
  rw [get?_set, if_neg h]

theorem get?_isSome_iff (d : Dict κ ν) (k : κ) : (d.get? k).isSome ↔ k ∈ d.keys := by
  simp only [Option.isSome_iff_exists, get?_eq_some_iff, keys, List.mem_map]
  constructor
  · rintro ⟨v, hv⟩; exact ⟨(k, v), hv, rfl⟩
  · rintro ⟨⟨a, b⟩, hp, rfl⟩; exact ⟨b, hp⟩

/-- `for k, v in ps: d[k] = v` -/
def setAll (d : Dict κ ν) (ps : List (κ × ν)) : Dict κ ν := ps.foldl (fun d p => d.set p.1 p.2) d

/-- `dict(ps)`: the dict of a list of pairs; a repeated key keeps its first
place and its last value. -/
def ofList (ps : List (κ × ν)) : Dict κ ν := empty.setAll ps

@[simp] theorem mem_keys_setAll (d : Dict κ ν) (ps : List (κ × ν)) (k : κ) :
    k ∈ (d.setAll ps).keys ↔ k ∈ ps.map Prod.fst ∨ k ∈ d.keys := by
  induction ps generalizing d with
  | nil => simp [setAll]
  | cons p ps ih =>
    simp only [setAll, List.foldl_cons] at ih ⊢
    rw [ih, mem_keys_set]
    simp only [List.map_cons, List.mem_cons]
    tauto

/-- After `d[k] = v` for each pair in turn, a key has the value of its last pair. -/
theorem get?_setAll (d : Dict κ ν) (ps : List (κ × ν)) (k : κ) :
    (d.setAll ps).get? k = (ps.reverse.lookup k).or (d.get? k) := by
  induction ps generalizing d with
  | nil => rfl
  | cons p ps ih =>
    simp only [setAll, List.foldl_cons] at ih ⊢
    obtain ⟨a, b⟩ := p
    rw [ih, get?_set, List.reverse_cons, List.lookup_append, lookup_cons_pair]
    by_cases h : k = a <;> simp [h, Option.or_assoc]

theorem get?_ofList (ps : List (κ × ν)) (k : κ) : (ofList ps).get? k = ps.reverse.lookup k := by
  simp [ofList, get?_setAll]

/-- The value `dict(ps)` has for a key is the value of one of the pairs. -/
theorem mem_of_get?_ofList {ps : List (κ × ν)} {k : κ} {v : ν} (h : (ofList ps).get? k = some v) :
    (k, v) ∈ ps := by
  rw [get?_ofList] at h
  obtain ⟨l₁, l₂, hps, -⟩ := List.lookup_eq_some_iff.mp h
  exact List.mem_reverse.mp (hps ▸ List.mem_append_right _ (List.mem_cons_self _ _))

/-- A pair of `dict(ps)` is a pair of `ps`. -/
theorem mem_items_ofList {ps : List (κ × ν)} {q : κ × ν} (h : q ∈ (ofList ps).items) : q ∈ ps :=
  mem_of_get?_ofList ((get?_eq_some_iff _ q.1 q.2).mpr h)

theorem mem_keys_ofList (ps : List (κ × ν)) (k : κ) :
    k ∈ (ofList ps).keys ↔ k ∈ ps.map Prod.fst := by
  simp [ofList]

end Dict

end Diamond
