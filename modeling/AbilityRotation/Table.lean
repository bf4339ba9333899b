/-!
Finite maps from names to values that remember the order of insertion.

A new name goes to the end; a value for a name that is present takes the place of the old value,
and the name keeps its position.
* `get?_insert`: what is looked up after an insertion.
* `insert_insert`: of two insertions under one name the second counts.
* `map_fst_insertEntry`: an insertion appends its name, or changes no name at all.
* `get?_map`: the images of values are under the same names.
* `entries_foldl_insert`: entries under new names are appended; `ofList_entries`: so a map is the
  map of the list of its entries.
-/

namespace AbilityRotation

/-- The entries after the insertion of a value under a name. -/
def insertEntry {α : Type} (entries : List (String × α)) (key : String) (value : α) :
    List (String × α) :=
  match entries with
  | [] => [(key, value)]
  | (k, v) :: rest =>
      if k = key then (k, value) :: rest else (k, v) :: insertEntry rest key value

/-- An insertion appends its name, or changes no name at all. -/
theorem map_fst_insertEntry {α : Type} (entries : List (String × α)) (key : String) (value : α) :
    (insertEntry entries key value).map Prod.fst =
      if key ∈ entries.map Prod.fst then entries.map Prod.fst
      else entries.map Prod.fst ++ [key] := by
  induction entries with
  | nil => simp [insertEntry]
  | cons e rest ih =>
      obtain ⟨k, v⟩ := e
      rw [insertEntry]
      by_cases h : k = key
      · simp [h]
      · rw [if_neg h, List.map_cons, ih]
        have hne : key ≠ k := fun e => h e.symm
        by_cases hm : key ∈ rest.map Prod.fst
        · rw [if_pos hm, if_pos (by simp [hm])]; rfl
        · rw [if_neg hm, if_neg (by simpa [hne] using hm)]; rfl

/-- A finite map from names to values in the order of insertion. -/
structure Table (α : Type) where
  /-- The entries, each name once. -/
  entries : List (String × α)
  /-- No name occurs twice. -/
  nodup : (entries.map Prod.fst).Nodup
  deriving DecidableEq

namespace Table

variable {α : Type}

/-- The map without entries. -/
def empty : Table α := ⟨[], by simp⟩

instance : Inhabited (Table α) := ⟨empty⟩

/-- The value under a name. -/
def get? (t : Table α) (key : String) : Option α :=
  t.entries.lookup key

/-- Whether there is a value under the name. -/
def contains (t : Table α) (key : String) : Bool :=
  (t.get? key).isSome

/-- The names in the order of insertion. -/
def keys (t : Table α) : List String :=
  t.entries.map Prod.fst

/-- The values in the order of insertion. -/
def values (t : Table α) : List α :=
  t.entries.map Prod.snd

/-- The number of entries. -/
def size (t : Table α) : Nat :=
  t.entries.length

/-- The map with a value under a name, in the old position if the name is present. -/
def insert (t : Table α) (key : String) (value : α) : Table α where
  entries := insertEntry t.entries key value
  nodup := by
    rw [map_fst_insertEntry]
    split
    · exact t.nodup
    · next h =>
        rw [List.nodup_append]
        exact ⟨t.nodup, by simp, by
          intro a ha b hb hab
          rw [List.mem_singleton] at hb
          exact h (hb ▸ hab ▸ ha)⟩

/-- The map of a list of entries; of two entries with one name the later value counts. -/
def ofList (entries : List (String × α)) : Table α :=
  entries.foldl (fun t e => t.insert e.1 e.2) empty

/-- The map with every value replaced by its image. -/
def map {β : Type} (f : α → β) (t : Table α) : Table β where
  entries := t.entries.map fun e => (e.1, f e.2)
  nodup := by
    have h : (t.entries.map fun e => (e.1, f e.2)).map Prod.fst = t.entries.map Prod.fst := by
      simp
    exact h ▸ t.nodup

/-- The image of a value is under the name of the value. -/
@[simp] theorem get?_map {β : Type} (f : α → β) (t : Table α) (name : String) :
    (t.map f).get? name = (t.get? name).map f := by
  simp only [get?, map]
  induction t.entries with
  | nil => rfl
  | cons e rest ih =>
      rw [List.map_cons, List.lookup_cons, List.lookup_cons]
      by_cases h : name = e.1
      · simp [h]
      · simpa [beq_eq_false_iff_ne.mpr h] using ih

/-- What is looked up in the entries after an insertion. -/
theorem lookup_insertEntry (entries : List (String × α)) (key name : String) (value : α) :
    (insertEntry entries key value).lookup name =
      if name = key then some value else entries.lookup name := by
  induction entries with
  | nil =>
      by_cases h : name = key
      · simp [insertEntry, h]
      · simp [insertEntry, List.lookup_cons, beq_eq_false_iff_ne.mpr h, h]
  | cons e rest ih =>
      obtain ⟨k, v⟩ := e
      rw [insertEntry]
      by_cases h : k = key
      · by_cases hn : name = key
        · simp [h, hn]
        · simp [h, List.lookup_cons, beq_eq_false_iff_ne.mpr hn, hn]
      · rw [if_neg h, List.lookup_cons, ih, List.lookup_cons]
        by_cases hn : name = k
        · subst hn; simp [h]
        · simp [beq_eq_false_iff_ne.mpr hn]

/-- What is looked up after an insertion. -/
theorem get?_insert (t : Table α) (key name : String) (value : α) :
    (t.insert key value).get? name = if name = key then some value else t.get? name :=
  lookup_insertEntry t.entries key name value

/-- A value that is inserted twice counts as it was last. -/
theorem insertEntry_insertEntry (entries : List (String × α)) (key : String) (value value' : α) :
    insertEntry (insertEntry entries key value) key value' = insertEntry entries key value' := by
  induction entries with
  | nil => simp [insertEntry]
  | cons e rest ih =>
      obtain ⟨k, v⟩ := e
      by_cases h : k = key <;> simp [insertEntry, h, ih]

/-- Of two insertions under one name the second counts. -/
@[simp] theorem insert_insert (t : Table α) (key : String) (value value' : α) :
    (t.insert key value).insert key value' = t.insert key value' := by
  simp only [insert, insertEntry_insertEntry]

/-- Nothing is in the map without entries. -/
@[simp] theorem get?_empty (name : String) : (empty : Table α).get? name = none := rfl

/-- What is looked up is one of the entries. -/
theorem mem_entries_of_get? {t : Table α} {key : String} {value : α}
    (h : t.get? key = some value) : (key, value) ∈ t.entries := by
  obtain ⟨before, after, heq, -⟩ := List.lookup_eq_some_iff.mp h
  rw [heq]
  exact List.mem_append_right _ List.mem_cons_self

/-- A new name goes to the end. -/
theorem insertEntry_of_not_mem {entries : List (String × α)} {key : String} (value : α)
    (h : key ∉ entries.map Prod.fst) :
    insertEntry entries key value = entries ++ [(key, value)] := by
  induction entries with
  | nil => rfl
  | cons e rest ih =>
      obtain ⟨k, v⟩ := e
      rw [List.map_cons, List.mem_cons, not_or] at h
      rw [insertEntry, if_neg (Ne.symm h.1), ih h.2, List.cons_append]

/-- After an insertion, an entry is the inserted one or was there before. -/
theorem mem_of_mem_insertEntry {entries : List (String × α)} {key : String} {value : α}
    {e : String × α} (h : e ∈ insertEntry entries key value) : e = (key, value) ∨ e ∈ entries := by
  induction entries with
  | nil => exact .inl (List.mem_singleton.mp h)
  | cons e' rest ih =>
      obtain ⟨k, v⟩ := e'
      rw [insertEntry] at h
      split at h
      · next hk =>
          rcases List.mem_cons.mp h with rfl | h
          · exact .inl (by rw [hk])
          · exact .inr (List.mem_cons_of_mem _ h)
      · rcases List.mem_cons.mp h with rfl | h
        · exact .inr List.mem_cons_self
        · exact (ih h).imp_right (List.mem_cons_of_mem _)

/-- Entries under new names are appended in order. -/
theorem entries_foldl_insert (es : List (String × α)) (t : Table α)
    (h : ((t.entries ++ es).map Prod.fst).Nodup) :
    (es.foldl (fun t e => t.insert e.1 e.2) t).entries = t.entries ++ es := by
  induction es generalizing t with
  | nil => exact (List.append_nil _).symm
  | cons e es ih =>
      have hfresh : e.1 ∉ t.entries.map Prod.fst := by
        intro hmem
        rw [List.map_append, List.nodup_append] at h
        exact h.2.2 _ hmem _ (by simp) rfl
      have hentries : (t.insert e.1 e.2).entries = t.entries ++ [e] :=
        insertEntry_of_not_mem e.2 hfresh
      rw [List.foldl_cons, ih, hentries, List.append_assoc, List.singleton_append]
      rwa [hentries, List.append_assoc, List.singleton_append]

/-- A map is given by its entries. -/
theorem eq_of_entries_eq {t t' : Table α} (h : t.entries = t'.entries) : t = t' := by
  cases t
  cases t'
  cases h
  rfl

/-- A map is the map of the list of its entries. -/
@[simp] theorem ofList_entries (t : Table α) : ofList t.entries = t :=
  eq_of_entries_eq (entries_foldl_insert t.entries empty t.nodup)

/-- What holds of the entries of a map and of those of a list holds of all of them together. -/
theorem forall_entries_foldl_insert {P : String × α → Prop} {es : List (String × α)} {t : Table α}
    (ht : ∀ e ∈ t.entries, P e) (hes : ∀ e ∈ es, P e) :
    ∀ e ∈ (es.foldl (fun t e => t.insert e.1 e.2) t).entries, P e := by
  induction es generalizing t with
  | nil => exact ht
  | cons e es ih =>
      rw [List.forall_mem_cons] at hes
      refine ih (fun e' he' => ?_) hes.2
      rcases mem_of_mem_insertEntry he' with rfl | he'
      · exact hes.1
      · exact ht e' he'

end Table

end AbilityRotation
