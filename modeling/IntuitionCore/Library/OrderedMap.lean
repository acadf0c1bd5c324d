import Mathlib.Data.List.Induction
import Mathlib.Data.List.Nodup

/-!
# Maps that keep the order of their keys

A map whose keys are listed in the order in which they were first set. Setting a
key that is there replaces its value and leaves its place.
-/

/-- A map from keys to values, as the list of its entries. -/
structure OrderedMap (κ ν : Type) where
  entries : List (κ × ν) := []
  /-- No key has two entries. -/
  nodup : (entries.map Prod.fst).Nodup := by simp

namespace OrderedMap

variable {κ ν ρ : Type} [DecidableEq κ]

/-- The keys, in order. -/
def keys (m : OrderedMap κ ν) : List κ := m.entries.map Prod.fst

/-- The values, in the order of their keys. -/
def values (m : OrderedMap κ ν) : List ν := m.entries.map Prod.snd

/-- The value of a key. -/
def get? (m : OrderedMap κ ν) (k : κ) : Option ν := m.entries.lookup k

/-- The entries after a key was set. -/
def setEntries (es : List (κ × ν)) (k : κ) (v : ν) : List (κ × ν) :=
  if k ∈ es.map Prod.fst then es.map fun e => if e.1 = k then (k, v) else e else es ++ [(k, v)]

theorem keys_setEntries (es : List (κ × ν)) (k : κ) (v : ν) :
    (setEntries es k v).map Prod.fst
      = if k ∈ es.map Prod.fst then es.map Prod.fst else es.map Prod.fst ++ [k] := by
  unfold setEntries
  split
  · rw [List.map_map]
    refine List.map_congr_left fun e _ => ?_
    show (if e.1 = k then (k, v) else e).1 = e.1
    split
    · next heq => exact heq.symm
    · rfl
  · rw [List.map_append]
    rfl

/-- Set the value of a key. -/
def set (m : OrderedMap κ ν) (k : κ) (v : ν) : OrderedMap κ ν where
  entries := setEntries m.entries k v
  nodup := by
    rw [keys_setEntries]
    split
    · exact m.nodup
    · next hk => exact List.nodup_append.mpr ⟨m.nodup, List.nodup_singleton k, by grind⟩

/-- Entries are set one after the other. -/
def ofList (es : List (κ × ν)) : OrderedMap κ ν := es.foldl (fun m e => m.set e.1 e.2) {}

/-- Rows are set under their keys, one after the other. -/
def index (key : ρ → κ) (rows : List ρ) : OrderedMap κ ρ := ofList (rows.map fun r => (key r, r))

variable {m : OrderedMap κ ν} {k k' : κ} {v v' : ν}

@[simp] theorem get?_empty (k : κ) : ({} : OrderedMap κ ν).get? k = none := rfl

theorem keys_set (m : OrderedMap κ ν) (k : κ) (v : ν) :
    (m.set k v).keys = if k ∈ m.keys then m.keys else m.keys ++ [k] :=
  keys_setEntries m.entries k v

/-- An entry is what its key is looked up to. -/
theorem mem_entries : (k, v) ∈ m.entries ↔ m.get? k = some v := by
  obtain ⟨es, hnodup⟩ := m
  show (k, v) ∈ es ↔ es.lookup k = some v
  induction es with
  | nil => simp
  | cons e es ih =>
    obtain ⟨k₁, v₁⟩ := e
    rw [List.map_cons, List.nodup_cons] at hnodup
    rw [List.mem_cons, List.lookup_cons]
    by_cases hk : k = k₁
    · subst hk
      have hnot : (k, v) ∉ es := fun hmem => hnodup.1 (List.mem_map.mpr ⟨_, hmem, rfl⟩)
      simp [hnot, eq_comm]
    · rw [beq_false_of_ne hk, ← ih hnodup.2]
      simp [hk]

theorem mem_keys : k ∈ m.keys ↔ ∃ v, m.get? k = some v := by
  unfold keys
  rw [List.mem_map]
  constructor
  · rintro ⟨⟨_, v⟩, hmem, rfl⟩
    exact ⟨v, mem_entries.mp hmem⟩
  · rintro ⟨v, hv⟩
    exact ⟨(k, v), mem_entries.mpr hv, rfl⟩

theorem get?_eq_none : m.get? k = none ↔ k ∉ m.keys := by
  rw [mem_keys, Option.eq_none_iff_forall_ne_some, not_exists]

theorem mem_values : v ∈ m.values ↔ ∃ k, m.get? k = some v := by
  unfold values
  rw [List.mem_map]
  constructor
  · rintro ⟨⟨k, _⟩, hmem, rfl⟩
    exact ⟨k, mem_entries.mp hmem⟩
  · rintro ⟨k, hk⟩
    exact ⟨(k, v), mem_entries.mpr hk, rfl⟩

theorem mem_setEntries {es : List (κ × ν)} :
    (k', v') ∈ setEntries es k v
      ↔ if k' = k then v' = v else (k', v') ∈ es := by
  unfold setEntries
  split
  · next hk =>
    obtain ⟨e, hmem, heq⟩ := List.mem_map.mp hk
    rw [List.mem_map]
    constructor
    · rintro ⟨e', hmem', heq'⟩
      split at heq'
      · cases heq'
        rw [if_pos rfl]
      · next hne =>
        cases heq'
        rwa [if_neg hne]
    · intro h
      split at h
      · next hkk => exact ⟨e, hmem, by rw [if_pos heq, hkk, h]⟩
      · next hkk => exact ⟨(k', v'), h, if_neg hkk⟩
  · next hk =>
    rw [List.mem_append, List.mem_singleton, Prod.mk.injEq]
    split
    · next hkk =>
      subst hkk
      have hnot : (k', v') ∉ es := fun hmem => hk (List.mem_map.mpr ⟨_, hmem, rfl⟩)
      simp [hnot]
    · next hkk => simp [hkk]

/-- **One key is set.** -/
theorem get?_set (m : OrderedMap κ ν) (k k' : κ) (v : ν) :
    (m.set k v).get? k' = if k' = k then some v else m.get? k' := by
  refine Option.ext fun v' => ?_
  rw [← mem_entries]
  refine mem_setEntries.trans ?_
  split
  · rw [Option.some_inj, eq_comm]
  · exact mem_entries

/-! ## Rows under their keys -/

theorem ofList_append (es : List (κ × ν)) (k : κ) (v : ν) :
    ofList (es ++ [(k, v)]) = (ofList es).set k v := by
  unfold ofList
  rw [List.foldl_append]
  rfl

/-- A key is there if it was set. -/
theorem mem_keys_ofList {es : List (κ × ν)} : k ∈ (ofList es).keys ↔ k ∈ es.map Prod.fst := by
  induction es using List.reverseRecOn with
  | nil => rfl
  | append_singleton es e ih =>
    rw [ofList_append, keys_set, List.map_append, List.mem_append, ← ih]
    split
    · next he =>
      refine ⟨.inl, fun h => h.elim id fun hk => ?_⟩
      rwa [List.mem_singleton.mp hk]
    · exact List.mem_append

/-- What is found was set. -/
theorem mem_of_get?_ofList {es : List (κ × ν)} (h : (ofList es).get? k = some v) :
    (k, v) ∈ es := by
  induction es using List.reverseRecOn with
  | nil => cases h
  | append_singleton es e ih =>
    rw [ofList_append, get?_set] at h
    split at h
    · next hk => exact List.mem_append_right _ (List.mem_singleton.mpr (by grind))
    · exact List.mem_append_left _ (ih h)

/-- **Entries with different keys are all found.** -/
theorem get?_ofList {es : List (κ × ν)} (h : (es.map Prod.fst).Nodup) :
    (ofList es).get? k = some v ↔ (k, v) ∈ es := by
  induction es using List.reverseRecOn with
  | nil => simp [ofList]
  | append_singleton es e ih =>
    rw [List.map_append, List.nodup_append] at h
    rw [ofList_append, get?_set, List.mem_append, List.mem_singleton, Prod.ext_iff]
    split
    · next hk =>
      subst hk
      have hnot : (e.1, v) ∉ es := fun hmem =>
        h.2.2 _ (List.mem_map.mpr ⟨_, hmem, rfl⟩) _ (List.mem_singleton.mpr rfl) rfl
      simp [hnot, eq_comm]
    · next hk =>
      rw [ih h.1]
      simp [hk]

theorem index_append (key : ρ → κ) (rows rows' : List ρ) :
    index key (rows ++ rows') = rows'.foldl (fun m r => m.set (key r) r) (index key rows) := by
  unfold index ofList
  rw [List.map_append, List.foldl_append, List.foldl_map]

theorem get?_index {key : ρ → κ} {rows : List ρ} (h : (rows.map key).Nodup) {r : ρ} :
    (index key rows).get? k = some r ↔ r ∈ rows ∧ key r = k := by
  unfold index
  have hkeys : ((rows.map fun r => (key r, r)).map Prod.fst).Nodup := by
    rwa [List.map_map]
  rw [get?_ofList hkeys, List.mem_map]
  constructor
  · rintro ⟨r', hmem, heq⟩
    cases heq
    exact ⟨hmem, rfl⟩
  · rintro ⟨hmem, rfl⟩
    exact ⟨r, hmem, rfl⟩

/-- **Rows of which no two have one key** are all values. -/
theorem mem_values_index {key : ρ → κ} {rows : List ρ}
    (h : ∀ r ∈ rows, ∀ r' ∈ rows, key r = key r' → r = r') {r : ρ} :
    r ∈ (index key rows).values ↔ r ∈ rows := by
  have hfound : ∀ {k r}, (index key rows).get? k = some r → r ∈ rows ∧ key r = k := by
    intro k r hr
    obtain ⟨r', hmem, heq⟩ := List.mem_map.mp (mem_of_get?_ofList hr)
    cases heq
    exact ⟨hmem, rfl⟩
  rw [mem_values]
  constructor
  · rintro ⟨k, hk⟩
    exact (hfound hk).1
  · intro hr
    have hkey : key r ∈ (index key rows).keys := by
      unfold index
      rw [mem_keys_ofList, List.map_map]
      exact List.mem_map_of_mem hr
    obtain ⟨r', hr'⟩ := mem_keys.mp hkey
    obtain ⟨hmem, heq⟩ := hfound hr'
    rw [h r hr r' hmem heq.symm]
    exact ⟨_, hr'⟩

theorem mem_keys_index {key : ρ → κ} {rows : List ρ} :
    k ∈ (index key rows).keys ↔ ∃ r ∈ rows, key r = k := by
  unfold index
  rw [mem_keys_ofList, List.map_map, List.mem_map]
  rfl

end OrderedMap
