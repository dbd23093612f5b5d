import Mathlib

/-! Insertion-ordered dictionaries. Assigning to a present key keeps its
position, assigning to a new key appends it; keys are distinct by construction. -/

structure Dict (Key Value : Type*) where
  items : List (Key × Value)
  nodup : (items.map Prod.fst).Nodup

namespace Dict

variable {Key Value : Type*} [DecidableEq Key]

def empty : Dict Key Value := ⟨[], List.nodup_nil⟩

def get? (d : Dict Key Value) (k : Key) : Option Value := d.items.lookup k

/-- `d.get(k, default)`. -/
def getD (d : Dict Key Value) (k : Key) (default : Value) : Value := (d.get? k).getD default

def keys (d : Dict Key Value) : List Key := d.items.map Prod.fst

theorem lookup_eq_none_iff {items : List (Key × Value)} {k : Key} :
    items.lookup k = none ↔ k ∉ items.map Prod.fst := by
  induction items with
  | nil => simp
  | cons entry tail ih =>
      obtain ⟨key, value⟩ := entry
      by_cases h : k = key
      · subst h
        simp
      · simp [List.lookup_cons, beq_eq_false_iff_ne.mpr h, h, ih]

theorem lookup_eq_some_iff {items : List (Key × Value)} {k : Key} {v : Value}
    (hUnique : (items.map Prod.fst).Nodup) : items.lookup k = some v ↔ (k, v) ∈ items := by
  induction items with
  | nil => simp
  | cons entry tail ih =>
      obtain ⟨key, value⟩ := entry
      rw [List.map_cons, List.nodup_cons] at hUnique
      by_cases h : k = key
      · subst h
        have hTail : ∀ w, (k, w) ∉ tail := fun w hw => hUnique.1 (List.mem_map.mpr ⟨(k, w), hw, rfl⟩)
        simp [hTail, eq_comm]
      · simp [List.lookup_cons, beq_eq_false_iff_ne.mpr h, h, ih hUnique.2]

theorem get?_eq_some_iff {d : Dict Key Value} {k : Key} {v : Value} :
    d.get? k = some v ↔ (k, v) ∈ d.items := lookup_eq_some_iff d.nodup

theorem get?_eq_none_iff {d : Dict Key Value} {k : Key} : d.get? k = none ↔ k ∉ d.keys :=
  lookup_eq_none_iff

theorem mem_keys_iff {d : Dict Key Value} {k : Key} : k ∈ d.keys ↔ ∃ v, d.get? k = some v := by
  rw [← not_iff_not, ← get?_eq_none_iff, Option.eq_none_iff_forall_ne_some, not_exists]

/-- Replace the value at a present key, or append a new entry. -/
def assign (k : Key) (v : Value) : List (Key × Value) → List (Key × Value)
  | [] => [(k, v)]
  | (key, value) :: tail => if key = k then (k, v) :: tail else (key, value) :: assign k v tail

theorem assign_of_not_mem {k : Key} {v : Value} {entries : List (Key × Value)} (h : k ∉ entries.map Prod.fst) :
    assign k v entries = entries ++ [(k, v)] := by
  induction entries with
  | nil => rfl
  | cons entry tail ih =>
      rw [List.map_cons, List.mem_cons, not_or] at h
      rw [assign, if_neg (Ne.symm h.1), ih h.2]
      rfl

theorem map_fst_assign (k : Key) (v : Value) (items : List (Key × Value)) :
    (assign k v items).map Prod.fst =
      if k ∈ items.map Prod.fst then items.map Prod.fst else items.map Prod.fst ++ [k] := by
  induction items with
  | nil => simp [assign]
  | cons entry tail ih =>
      obtain ⟨key, value⟩ := entry
      by_cases h : key = k
      · subst h
        simp [assign]
      · simp only [assign, if_neg h, List.map_cons, ih, List.mem_cons, Ne.symm h, false_or]
        split <;> simp

theorem nodup_assign (k : Key) (v : Value) {items : List (Key × Value)}
    (h : (items.map Prod.fst).Nodup) : ((assign k v items).map Prod.fst).Nodup := by
  rw [map_fst_assign]
  split
  · exact h
  · next hk => exact List.nodup_append.mpr ⟨h, List.nodup_singleton k, by
      intro a ha b hb
      rw [List.mem_singleton.mp hb]
      exact fun he => hk (he ▸ ha)⟩

theorem lookup_assign (k key : Key) (v : Value) (items : List (Key × Value)) :
    (assign k v items).lookup key = if key = k then some v else items.lookup key := by
  induction items with
  | nil =>
      by_cases h : key = k
      · simp [assign, h]
      · simp [assign, List.lookup_cons, beq_eq_false_iff_ne.mpr h, h]
  | cons entry tail ih =>
      obtain ⟨first, value⟩ := entry
      by_cases hFirst : first = k
      · subst hFirst
        by_cases h : key = first
        · simp [assign, h]
        · simp [assign, List.lookup_cons, beq_eq_false_iff_ne.mpr h, h]
      · by_cases h : key = first
        · subst h
          simp [assign, hFirst]
        · simp only [assign, if_neg hFirst, List.lookup_cons, beq_eq_false_iff_ne.mpr h, ih]

/-- `d[k] = v`. -/
def set (d : Dict Key Value) (k : Key) (v : Value) : Dict Key Value :=
  ⟨assign k v d.items, nodup_assign k v d.nodup⟩

theorem get?_set (d : Dict Key Value) (k key : Key) (v : Value) :
    (d.set k v).get? key = if key = k then some v else d.get? key := lookup_assign ..

theorem mem_keys_set {d : Dict Key Value} {k key : Key} {v : Value} :
    key ∈ (d.set k v).keys ↔ key = k ∨ key ∈ d.keys := by
  simp only [mem_keys_iff, get?_set]
  by_cases h : key = k <;> simp [h]

/-- `d.pop(k, None)`. -/
def pop (d : Dict Key Value) (k : Key) : Dict Key Value :=
  ⟨d.items.filter (·.1 ≠ k), d.nodup.sublist (List.filter_sublist.map Prod.fst)⟩

theorem get?_pop (d : Dict Key Value) (k key : Key) :
    (d.pop k).get? key = if key = k then none else d.get? key := by
  by_cases h : key = k
  · rw [if_pos h, get?_eq_none_iff]
    simp [pop, keys, h]
  · rw [if_neg h]
    apply Option.ext
    intro v
    rw [get?_eq_some_iff, get?_eq_some_iff]
    simp [pop, h]

theorem get?_foldl_pop (popped : List Key) (d : Dict Key Value) (k : Key) :
    (popped.foldl pop d).get? k = if k ∈ popped then none else d.get? k := by
  induction popped generalizing d with
  | nil => rfl
  | cons first rest ih =>
      rw [List.foldl_cons, ih, get?_pop]
      by_cases hFirst : k = first
      · simp [hFirst]
      · simp [hFirst]

/-- Apply a function to every value, keeping the order of the keys. -/
def map {Other : Type*} (f : Value → Other) (d : Dict Key Value) : Dict Key Other :=
  ⟨d.items.map fun e => (e.1, f e.2), by
    have h := d.nodup
    rwa [List.map_map, show (Prod.fst ∘ fun e : Key × Value => (e.1, f e.2)) = Prod.fst from rfl]⟩

theorem get?_map {Other : Type*} (f : Value → Other) (d : Dict Key Value) (k : Key) :
    (d.map f).get? k = (d.get? k).map f := by
  refine Option.ext fun x => ?_
  rw [get?_eq_some_iff, Option.map_eq_some_iff]
  simp only [map, List.mem_map, Prod.mk.injEq, Prod.exists]
  constructor
  · rintro ⟨key, value, hMem, rfl, rfl⟩
    exact ⟨value, get?_eq_some_iff.mpr hMem, rfl⟩
  · rintro ⟨value, hGet, rfl⟩
    exact ⟨k, value, get?_eq_some_iff.mp hGet, rfl, rfl⟩

/-- `{k: v for k, v in d.items() if keep(k)}`. -/
def filterKeys (keep : Key → Bool) (d : Dict Key Value) : Dict Key Value :=
  ⟨d.items.filter fun e => keep e.1, d.nodup.sublist (List.filter_sublist.map Prod.fst)⟩

theorem get?_filterKeys (keep : Key → Bool) (d : Dict Key Value) (k : Key) :
    (d.filterKeys keep).get? k = if keep k then d.get? k else none := by
  refine Option.ext fun x => ?_
  rw [get?_eq_some_iff]
  simp only [filterKeys, List.mem_filter, ← get?_eq_some_iff]
  cases keep k <;> simp

omit [DecidableEq Key] in
theorem keys_filterKeys (keep : Key → Bool) (d : Dict Key Value) :
    (d.filterKeys keep).keys = d.keys.filter keep := by
  simp only [keys, filterKeys, List.filter_map]
  rfl

omit [DecidableEq Key] in
theorem keys_map {Other : Type*} (f : Value → Other) (d : Dict Key Value) : (d.map f).keys = d.keys := by
  simp only [keys, map, List.map_map]
  rfl

/-- `{k: v for …}`: later entries overwrite earlier ones. -/
def ofList (entries : List (Key × Value)) : Dict Key Value :=
  entries.foldl (fun d e => d.set e.1 e.2) empty

@[simp] theorem get?_empty (k : Key) : (empty : Dict Key Value).get? k = none := rfl

/-- Look up a key in a dictionary built from entries with distinct keys. -/
theorem get?_foldl_set (entries : List (Key × Value)) (d : Dict Key Value) (k : Key)
    (hUnique : (entries.map Prod.fst).Nodup) :
    (entries.foldl (fun d e => d.set e.1 e.2) d).get? k =
      (entries.lookup k).or (d.get? k) := by
  induction entries generalizing d with
  | nil => simp
  | cons entry tail ih =>
      obtain ⟨key, value⟩ := entry
      rw [List.map_cons, List.nodup_cons] at hUnique
      rw [List.foldl_cons, ih _ hUnique.2, get?_set]
      by_cases h : k = key
      · subst h
        rw [lookup_eq_none_iff.mpr hUnique.1]
        simp
      · simp [List.lookup_cons, beq_eq_false_iff_ne.mpr h, h]

theorem get?_ofList {entries : List (Key × Value)} (hUnique : (entries.map Prod.fst).Nodup)
    (k : Key) : (ofList entries).get? k = entries.lookup k := by
  rw [ofList, get?_foldl_set _ _ _ hUnique, get?_empty, Option.or_none]

/-- An entry of a dictionary built from entries with distinct keys. -/
theorem get?_ofList_eq_some_iff {entries : List (Key × Value)}
    (hUnique : (entries.map Prod.fst).Nodup) {k : Key} {v : Value} :
    (ofList entries).get? k = some v ↔ (k, v) ∈ entries := by
  rw [get?_ofList hUnique, lookup_eq_some_iff hUnique]

theorem mem_of_get?_foldl_set {entries : List (Key × Value)} {d : Dict Key Value} {k : Key} {v : Value}
    (h : (entries.foldl (fun d e => d.set e.1 e.2) d).get? k = some v) :
    (k, v) ∈ entries ∨ d.get? k = some v := by
  induction entries generalizing d with
  | nil => exact Or.inr h
  | cons entry tail ih =>
      rcases ih h with hTail | hSet
      · exact Or.inl (List.mem_cons_of_mem _ hTail)
      · rw [get?_set] at hSet
        split at hSet
        · next hKey =>
            cases hSet
            exact Or.inl (hKey ▸ List.mem_cons_self)
        · exact Or.inr hSet

theorem mem_keys_foldl_set {entries : List (Key × Value)} {d : Dict Key Value} {k : Key} :
    k ∈ (entries.foldl (fun d e => d.set e.1 e.2) d).keys ↔ k ∈ d.keys ∨ k ∈ entries.map Prod.fst := by
  induction entries generalizing d with
  | nil => simp
  | cons entry tail ih =>
      rw [List.foldl_cons, ih, mem_keys_set, List.map_cons, List.mem_cons]
      tauto

theorem mem_keys_ofList {entries : List (Key × Value)} {k : Key} :
    k ∈ (ofList entries).keys ↔ k ∈ entries.map Prod.fst := by
  rw [ofList, mem_keys_foldl_set]
  simp [keys, empty]

/-- A dictionary built from one value holds that value or nothing. -/
theorem getD_ofList_const (keys : List Key) (v : Value) (k : Key) :
    (ofList (keys.map (·, v))).getD k v = v := by
  have hFold (d : Dict Key Value) (h : d.getD k v = v) :
      ((keys.map (·, v)).foldl (fun d e => d.set e.1 e.2) d).getD k v = v := by
    induction keys generalizing d with
    | nil => exact h
    | cons key tail ih =>
        rw [List.map_cons, List.foldl_cons]
        apply ih
        rw [getD, get?_set]
        split
        · rfl
        · exact h
  exact hFold empty rfl

section GroupBy
variable {Item : Type*} (key : Item → Key)

/-- `d.setdefault(key(x), []).append(x)` for every item in order. -/
def groupBy (items : List Item) : Dict Key (List Item) :=
  items.foldl (fun d x => d.set (key x) (d.getD (key x) [] ++ [x])) empty

theorem groupBy_append_singleton (items : List Item) (x : Item) :
    groupBy key (items ++ [x]) =
      (groupBy key items).set (key x) ((groupBy key items).getD (key x) [] ++ [x]) := by
  rw [groupBy, List.foldl_append]
  rfl

/-- A group holds exactly the items with its key, in order; an empty group is absent. -/
theorem get?_groupBy (items : List Item) (k : Key) :
    (groupBy key items).get? k =
      if items.filter (key · = k) = [] then none else some (items.filter (key · = k)) := by
  induction items using List.reverseRecOn with
  | nil => rfl
  | append_singleton items x ih =>
      rw [groupBy_append_singleton, get?_set, List.filter_append]
      by_cases h : k = key x
      · subst h
        have hGroup : (groupBy key items).getD (key x) [] = items.filter (key · = key x) := by
          rw [getD, ih]
          split
          · next hNil => rw [hNil]; rfl
          · rfl
        simp [hGroup]
      · simp [ih, h, Ne.symm h]

theorem mem_groupBy_items {items : List Item} {k : Key} {group : List Item} :
    (k, group) ∈ (groupBy key items).items ↔ group = items.filter (key · = k) ∧ group ≠ [] := by
  rw [← get?_eq_some_iff, get?_groupBy]
  split
  · next h => simp [h]
  · next h =>
      constructor
      · intro he
        obtain rfl := Option.some.inj he
        exact ⟨rfl, h⟩
      · rintro ⟨rfl, _⟩
        rfl

/-- Items with different keys make groups of one. -/
theorem groupBy_items_of_nodup {items : List Item} (h : (items.map key).Nodup) :
    (groupBy key items).items = items.map fun x => (key x, [x]) := by
  induction items using List.reverseRecOn with
  | nil => rfl
  | append_singleton items x ih =>
      rw [List.map_append, List.nodup_append] at h
      have hFresh : key x ∉ items.map key := fun hIn => h.2.2 _ hIn _ List.mem_cons_self rfl
      have hItems := ih h.1
      have hKeys : key x ∉ (groupBy key items).items.map Prod.fst := by
        rw [hItems, List.map_map]
        exact hFresh
      have hNone : (groupBy key items).getD (key x) [] = [] := by
        rw [getD, get?_eq_none_iff.mpr hKeys]
        rfl
      rw [groupBy_append_singleton, hNone]
      change assign (key x) [x] (groupBy key items).items = _
      rw [assign_of_not_mem hKeys, hItems, List.map_append]
      rfl

/-- Extending one group adds its new item to the items of all groups. -/
theorem flatMap_assign_perm (k : Key) (x : Item) (entries : List (Key × List Item)) :
    ((assign k ((entries.lookup k).getD [] ++ [x]) entries).flatMap (·.2)).Perm
      (entries.flatMap (·.2) ++ [x]) := by
  induction entries with
  | nil => simp [assign]
  | cons entry tail ih =>
      obtain ⟨key, group⟩ := entry
      by_cases h : key = k
      · subst h
        simp only [assign, if_true, List.lookup_cons, beq_self_eq_true, Option.getD_some,
          List.flatMap_cons, List.append_assoc]
        exact List.Perm.append_left group List.perm_append_comm
      · simp only [assign, if_neg h, List.lookup_cons, beq_eq_false_iff_ne.mpr (Ne.symm h),
          List.flatMap_cons, List.append_assoc]
        exact List.Perm.append_left group ih

/-- The groups together hold every item once. -/
theorem flatMap_groupBy_perm (items : List Item) :
    ((groupBy key items).items.flatMap (·.2)).Perm items := by
  induction items using List.reverseRecOn with
  | nil => exact List.Perm.nil
  | append_singleton items x ih =>
      rw [groupBy_append_singleton]
      exact (flatMap_assign_perm (key x) x (groupBy key items).items).trans (ih.append_right [x])

end GroupBy

section Nested
variable {Key₂ : Type*} [DecidableEq Key₂]

/-- `d.get(k, {}).get(k', default)`. -/
def getD₂ (d : Dict Key (Dict Key₂ Value)) (k : Key) (k' : Key₂) (default : Value) : Value :=
  (d.getD k empty).getD k' default

/-- `d.setdefault(k, {})[k'] = v`. -/
def set₂ (d : Dict Key (Dict Key₂ Value)) (k : Key) (k' : Key₂) (v : Value) : Dict Key (Dict Key₂ Value) :=
  d.set k ((d.getD k empty).set k' v)

theorem getD₂_set₂ (d : Dict Key (Dict Key₂ Value)) (k u : Key) (k' u' : Key₂) (v default : Value) :
    (d.set₂ k k' v).getD₂ u u' default = if u = k ∧ u' = k' then v else d.getD₂ u u' default := by
  by_cases h : u = k
  · subst h
    by_cases h' : u' = k' <;> simp [getD₂, set₂, getD, get?_set, h']
  · simp [getD₂, set₂, getD, get?_set, h]

end Nested

section Tally
variable {M : Type*} [AddCommMonoid M]

/-- `d[k] = d.get(k, 0) + x` for every entry in order. -/
def tally (d : Dict Key M) (entries : List (Key × M)) : Dict Key M :=
  entries.foldl (fun d e => d.set e.1 (d.getD e.1 0 + e.2)) d

/-- A tally holds the sum of the entries of each key. -/
theorem getD_tally (d : Dict Key M) (entries : List (Key × M)) (k : Key) :
    (d.tally entries).getD k 0 = d.getD k 0 + ((entries.filter (·.1 = k)).map (·.2)).sum := by
  induction entries generalizing d with
  | nil => simp [tally]
  | cons entry tail ih =>
      have hStep : d.tally (entry :: tail) =
          (d.set entry.1 (d.getD entry.1 0 + entry.2)).tally tail := rfl
      rw [hStep, ih]
      by_cases h : entry.1 = k
      · subst h
        simp [getD, get?_set, add_assoc]
      · simp [getD, get?_set, h, Ne.symm h]

theorem mem_keys_tally {d : Dict Key M} {entries : List (Key × M)} {k : Key} :
    k ∈ (d.tally entries).keys ↔ k ∈ d.keys ∨ k ∈ entries.map Prod.fst := by
  induction entries generalizing d with
  | nil => simp [tally]
  | cons entry tail ih =>
      have hStep : d.tally (entry :: tail) =
          (d.set entry.1 (d.getD entry.1 0 + entry.2)).tally tail := rfl
      rw [hStep, ih, mem_keys_set, List.map_cons, List.mem_cons]
      tauto

end Tally

/-- The values, as what is found at the keys. -/
theorem map_snd_items (d : Dict Key Value) (default : Value) :
    d.items.map Prod.snd = d.keys.map fun k => d.getD k default := by
  rw [keys, List.map_map]
  refine List.map_congr_left fun entry hEntry => ?_
  rw [Function.comp_apply, getD, get?_eq_some_iff.mpr hEntry, Option.getD_some]

end Dict
