import Mathlib.Data.List.Nodup

namespace Livelock.Lib

/-- A dictionary that remembers insertion order. Updating a key keeps its
place; a key that is removed and inserted again goes to the end. -/
structure Dict (κ ν : Type) where
  items : List (κ × ν)
  nodup : (items.map Prod.fst).Nodup

namespace Dict

variable {κ ν : Type} [DecidableEq κ]

def lookup (k : κ) : List (κ × ν) → Option ν
  | [] => none
  | (k', v) :: rest => if k' = k then some v else lookup k rest

def insert (k : κ) (v : ν) : List (κ × ν) → List (κ × ν)
  | [] => [(k, v)]
  | (k', v') :: rest => if k' = k then (k, v) :: rest else (k', v') :: insert k v rest

def remove (k : κ) (xs : List (κ × ν)) : List (κ × ν) :=
  xs.filter (fun p => decide (p.1 ≠ k))

theorem mem_insert (k : κ) (v : ν) (xs : List (κ × ν)) (j : κ) :
    j ∈ (insert k v xs).map Prod.fst ↔ j = k ∨ j ∈ xs.map Prod.fst := by
  induction xs with
  | nil => simp [insert]
  | cons p rest ih =>
    by_cases h : p.1 = k
    · simp [insert, h]
    · rw [insert, if_neg h, List.map_cons, List.mem_cons, ih, List.map_cons, List.mem_cons]
      tauto

theorem insert_nodup (k : κ) (v : ν) {xs : List (κ × ν)} (h : (xs.map Prod.fst).Nodup) :
    ((insert k v xs).map Prod.fst).Nodup := by
  induction xs with
  | nil => simp [insert]
  | cons p rest ih =>
    obtain ⟨hp, hrest⟩ := List.nodup_cons.mp h
    by_cases hk : p.1 = k
    · rw [insert, if_pos hk, List.map_cons, ← hk]
      exact h
    · rw [insert, if_neg hk, List.map_cons]
      refine List.nodup_cons.mpr ⟨?_, ih hrest⟩
      rw [mem_insert]
      exact fun hm => hm.elim hk hp

theorem lookup_insert (k j : κ) (v : ν) (xs : List (κ × ν)) :
    lookup j (insert k v xs) = if j = k then some v else lookup j xs := by
  induction xs with
  | nil => simp [insert, lookup, eq_comm]
  | cons p rest ih =>
    by_cases hk : p.1 = k
    · rw [insert, if_pos hk]
      by_cases hj : j = k
      · simp [lookup, hj]
      · simp [lookup, hk, Ne.symm hj, hj]
    · rw [insert, if_neg hk]
      by_cases hpj : p.1 = j
      · have hj : j ≠ k := fun he => hk (hpj.trans he)
        simp [lookup, hpj, hj]
      · simp [lookup, hpj, ih]

theorem lookup_remove (k j : κ) (xs : List (κ × ν)) :
    lookup j (remove k xs) = if j = k then none else lookup j xs := by
  induction xs with
  | nil => simp [remove, lookup]
  | cons p rest ih =>
    unfold remove at ih ⊢
    by_cases hk : p.1 = k
    · rw [List.filter_cons_of_neg (by simp [hk]), ih]
      by_cases hj : j = k
      · simp [hj]
      · simp [lookup, hk, Ne.symm hj, hj]
    · rw [List.filter_cons_of_pos (by simp [hk])]
      by_cases hpj : p.1 = j
      · have hj : j ≠ k := fun he => hk (hpj.trans he)
        simp [lookup, hpj, hj]
      · rw [lookup, if_neg hpj, lookup, if_neg hpj, ih]

theorem mem_iff_lookup (k : κ) (v : ν) {xs : List (κ × ν)} (h : (xs.map Prod.fst).Nodup) :
    (k, v) ∈ xs ↔ lookup k xs = some v := by
  induction xs with
  | nil => simp [lookup]
  | cons p rest ih =>
    obtain ⟨hp, hrest⟩ := List.nodup_cons.mp h
    by_cases hk : p.1 = k
    · have hnot : (k, v) ∉ rest := fun hm => hp (hk ▸ List.mem_map_of_mem (f := Prod.fst) hm)
      simp only [List.mem_cons, hnot, or_false, lookup, if_pos hk, Option.some.injEq]
      constructor
      · rintro rfl; rfl
      · intro hv; exact Prod.ext hk.symm hv.symm
    · have hne : (k, v) ≠ p := fun he => hk (congrArg Prod.fst he).symm
      simp [lookup, hk, hne, ih hrest]

def empty : Dict κ ν := ⟨[], List.nodup_nil⟩

def get? (d : Dict κ ν) (k : κ) : Option ν := lookup k d.items

def keys (d : Dict κ ν) : List κ := d.items.map Prod.fst

def set (d : Dict κ ν) (k : κ) (v : ν) : Dict κ ν :=
  ⟨insert k v d.items, insert_nodup k v d.nodup⟩

def erase (d : Dict κ ν) (k : κ) : Dict κ ν :=
  ⟨remove k d.items, d.nodup.sublist (List.Sublist.map _ List.filter_sublist)⟩

@[simp] theorem get?_empty (k : κ) : (empty : Dict κ ν).get? k = none := rfl

theorem get?_set (d : Dict κ ν) (k j : κ) (v : ν) :
    (d.set k v).get? j = if j = k then some v else d.get? j := lookup_insert k j v d.items

theorem get?_erase (d : Dict κ ν) (k j : κ) :
    (d.erase k).get? j = if j = k then none else d.get? j := lookup_remove k j d.items

@[simp] theorem get?_set_self (d : Dict κ ν) (k : κ) (v : ν) : (d.set k v).get? k = some v := by
  rw [get?_set, if_pos rfl]

@[simp] theorem get?_erase_self (d : Dict κ ν) (k : κ) : (d.erase k).get? k = none := by
  rw [get?_erase, if_pos rfl]

theorem insert_new (k : κ) (v : ν) {xs : List (κ × ν)} (h : lookup k xs = none) :
    insert k v xs = xs ++ [(k, v)] := by
  induction xs with
  | nil => rfl
  | cons p rest ih =>
    by_cases hk : p.1 = k
    · simp [lookup, hk] at h
    · rw [lookup, if_neg hk] at h
      rw [insert, if_neg hk, ih h, List.cons_append]

theorem keys_set_new (d : Dict κ ν) {k : κ} (v : ν) (h : d.get? k = none) :
    (d.set k v).keys = d.keys ++ [k] := by
  have hitems : (d.set k v).items = d.items ++ [(k, v)] := insert_new k v h
  rw [keys, hitems, List.map_append, keys]
  rfl

theorem keys_erase (d : Dict κ ν) (k : κ) :
    (d.erase k).keys = d.keys.filter fun j => decide (j ≠ k) := by
  have hitems : (d.erase k).items = d.items.filter fun p => decide (p.1 ≠ k) := rfl
  rw [keys, hitems, keys, List.filter_map]
  rfl

theorem erase_of_none (d : Dict κ ν) {k : κ} (h : d.get? k = none) : d.erase k = d := by
  obtain ⟨xs, hx⟩ := d
  have hkeep : remove k xs = xs := by
    refine List.filter_eq_self.mpr fun p hp => decide_eq_true fun hk => ?_
    have hsome : lookup k xs = some p.2 := (mem_iff_lookup k p.2 hx).mp (hk ▸ hp)
    cases h.symm.trans hsome
  simp only [erase, hkeep]

theorem insert_same (k : κ) (v : ν) {xs : List (κ × ν)} (h : lookup k xs = some v) :
    insert k v xs = xs := by
  induction xs with
  | nil => cases h
  | cons p rest ih =>
    by_cases hk : p.1 = k
    · rw [lookup, if_pos hk, Option.some.injEq] at h
      rw [insert, if_pos hk, ← hk, ← h]
    · rw [lookup, if_neg hk] at h
      rw [insert, if_neg hk, ih h]

theorem set_same (d : Dict κ ν) {k : κ} {v : ν} (h : d.get? k = some v) : d.set k v = d := by
  obtain ⟨xs, hx⟩ := d
  have hkeep : insert k v xs = xs := insert_same k v h
  simp only [set, hkeep]

theorem insert_insert (k : κ) (v v' : ν) (xs : List (κ × ν)) :
    insert k v' (insert k v xs) = insert k v' xs := by
  induction xs with
  | nil => simp [insert]
  | cons p rest ih =>
    by_cases hk : p.1 = k
    · simp [insert, hk]
    · simp [insert, hk, ih]

theorem set_set (d : Dict κ ν) (k : κ) (v v' : ν) : (d.set k v).set k v' = d.set k v' := by
  obtain ⟨xs, hx⟩ := d
  simp only [set, insert_insert]

theorem remove_insert (k : κ) (v : ν) (xs : List (κ × ν)) : remove k (insert k v xs) = remove k xs := by
  unfold remove
  induction xs with
  | nil => simp [insert]
  | cons p rest ih =>
    by_cases hk : p.1 = k
    · simp [insert, hk]
    · simpa [insert, hk] using ih

theorem erase_set (d : Dict κ ν) (k : κ) (v : ν) : (d.set k v).erase k = d.erase k := by
  obtain ⟨xs, hx⟩ := d
  simp only [set, erase, remove_insert]

theorem mem_items (d : Dict κ ν) (k : κ) (v : ν) : (k, v) ∈ d.items ↔ d.get? k = some v :=
  mem_iff_lookup k v d.nodup

theorem mem_keys (d : Dict κ ν) (k : κ) : k ∈ d.keys ↔ ∃ v, d.get? k = some v := by
  simp [keys, ← mem_items]

def filterMap (d : Dict κ ν) (f : κ → ν → Option ν) : Dict κ ν where
  items := d.items.filterMap fun p => (f p.1 p.2).map fun v => (p.1, v)
  nodup := by
    have hkeys : ((d.items.filterMap fun p => (f p.1 p.2).map fun v => (p.1, v)).map Prod.fst).Sublist
        (d.items.map Prod.fst) := by
      induction d.items with
      | nil => exact .refl _
      | cons p rest ih =>
        cases hf : f p.1 p.2 with
        | none => simpa [List.filterMap_cons, hf] using ih.cons p.1
        | some v => simpa [List.filterMap_cons, hf] using ih.cons_cons p.1
    exact d.nodup.sublist hkeys

omit [DecidableEq κ] in
theorem ext_items {d e : Dict κ ν} (h : d.items = e.items) : d = e := by
  cases d
  cases e
  simpa using h

theorem filterMap_congr (d : Dict κ ν) {f g : κ → ν → Option ν}
    (h : ∀ k v, d.get? k = some v → f k v = g k v) : d.filterMap f = d.filterMap g := by
  apply ext_items
  refine List.filterMap_congr fun p hp => ?_
  rw [h p.1 p.2 ((d.mem_items p.1 p.2).mp hp)]

theorem filterMap_some (d : Dict κ ν) {f : κ → ν → Option ν}
    (h : ∀ k v, d.get? k = some v → f k v = some v) : d.filterMap f = d := by
  rw [d.filterMap_congr h]
  apply ext_items
  simp [filterMap]

omit [DecidableEq κ] in
theorem filterMap_filterMap (d : Dict κ ν) (f g : κ → ν → Option ν) :
    (d.filterMap f).filterMap g = d.filterMap fun k v => (f k v).bind (g k) := by
  apply ext_items
  simp only [filterMap, List.filterMap_filterMap]
  refine List.filterMap_congr fun p _ => ?_
  cases f p.1 p.2 <;> simp

theorem get?_filterMap (d : Dict κ ν) (f : κ → ν → Option ν) (k : κ) :
    (d.filterMap f).get? k = (d.get? k).bind (f k) := by
  apply Option.ext
  intro v
  rw [← mem_items, filterMap, List.mem_filterMap, Option.bind_eq_some_iff]
  constructor
  · rintro ⟨⟨j, w⟩, hm, hw⟩
    obtain ⟨u, hu, he⟩ := Option.map_eq_some_iff.mp hw
    obtain ⟨rfl, rfl⟩ := Prod.mk.inj he
    exact ⟨w, (d.mem_items j w).mp hm, hu⟩
  · rintro ⟨w, hw, hv⟩
    exact ⟨(k, w), (d.mem_items k w).mpr hw, by simp [hv]⟩

theorem erase_eq_filterMap (d : Dict κ ν) (k : κ) :
    d.erase k = d.filterMap fun j v => if j = k then none else some v := by
  apply ext_items
  simp only [erase, remove, filterMap, ← List.filterMap_eq_filter]
  refine List.filterMap_congr fun p _ => ?_
  by_cases hp : p.1 = k <;> simp [Option.guard, hp]

theorem set_eq_filterMap (d : Dict κ ν) {k : κ} {v : ν} (w : ν) (h : d.get? k = some v) :
    d.set k w = d.filterMap fun j u => if j = k then some w else some u := by
  apply ext_items
  have hins : ∀ xs : List (κ × ν), lookup k xs = some v → (xs.map Prod.fst).Nodup →
      insert k w xs = xs.filterMap fun p => (if p.1 = k then some w else some p.2).map
        fun u => (p.1, u) := by
    intro xs
    induction xs with
    | nil => exact fun hl => by cases hl
    | cons p rest ih =>
      intro hl hn
      obtain ⟨hp, hrest⟩ := List.nodup_cons.mp hn
      by_cases hk : p.1 = k
      · have hkeep : ∀ q ∈ rest, ((if q.1 = k then some w else some q.2).map fun u => (q.1, u)) =
            some q := by
          intro q hq
          have hne : q.1 ≠ k := fun he => hp (hk ▸ he ▸ List.mem_map_of_mem hq)
          simp [hne]
        rw [insert, if_pos hk, List.filterMap_cons, List.filterMap_congr hkeep]
        simp [hk]
      · rw [lookup, if_neg hk] at hl
        rw [insert, if_neg hk, ih hl hrest, List.filterMap_cons]
        simp [hk]
  exact hins d.items h d.nodup

end Dict

end Livelock.Lib
