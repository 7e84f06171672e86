import Mathlib.Logic.Function.Basic

/-!
# Core — string-keyed maps

The `HashMap<String, _>`s of the storage layer and the unversioned trees of the tree store, as
association lists with one binding per key. Reads go through `Map.get`; `get_insert_self`,
`get_insert_ne` and `get_erase` are the facts later proofs use, so no proof unfolds the list.
-/

namespace BonsaiDb

/-- A map from strings, as an association list. -/
abbrev Map (α : Type) := List (String × α)

namespace Map

variable {α : Type}

/-- The value bound to `key`. -/
def get : Map α → String → Option α
  | [], _ => none
  | (k, v) :: m, key => if k = key then some v else get m key

/-- The map without `key`. -/
def erase : Map α → String → Map α
  | [], _ => []
  | (k, v) :: m, key => if k = key then erase m key else (k, v) :: erase m key

/-- The map with `key` bound to `value`, replacing any earlier binding. -/
def insert (m : Map α) (key : String) (value : α) : Map α :=
  (key, value) :: m.erase key

@[simp] theorem get_nil (key : String) : get ([] : Map α) key = none := rfl

theorem get_erase (m : Map α) (key key' : String) :
    (m.erase key).get key' = if key = key' then none else m.get key' := by
  induction m with
  | nil => simp [erase, get]
  | cons p m ih =>
    obtain ⟨k, v⟩ := p
    by_cases hk : k = key
    · simp only [erase, hk, if_true, ih, get]
      split_ifs <;> simp_all
    · simp only [erase, hk, if_false, get, ih]
      split_ifs <;> simp_all

@[simp] theorem get_erase_self (m : Map α) (key : String) : (m.erase key).get key = none := by
  simp [get_erase]

@[simp] theorem get_erase_ne (m : Map α) {key key' : String} (h : key ≠ key') :
    (m.erase key).get key' = m.get key' := by
  simp [get_erase, h]

@[simp] theorem get_insert_self (m : Map α) (key : String) (value : α) :
    (m.insert key value).get key = some value := by
  simp [insert, get]

@[simp] theorem get_insert_ne (m : Map α) {key key' : String} (value : α) (h : key ≠ key') :
    (m.insert key value).get key' = m.get key' := by
  simp [insert, get, h]

/-! A scan over every binding, as `ExpirationLoader` makes, sees the list itself: -/

theorem mem_of_get_eq_some : ∀ {m : Map α} {key : String} {v : α}, m.get key = some v →
    (key, v) ∈ m
  | [], _, _, h => by cases h
  | (k, w) :: m, key, v, h => by
    unfold get at h
    split at h
    · cases h; subst k; exact List.mem_cons_self _ _
    · exact List.mem_cons_of_mem _ (mem_of_get_eq_some h)

theorem mem_erase {m : Map α} {key k : String} {v : α} :
    (k, v) ∈ m.erase key ↔ (k, v) ∈ m ∧ k ≠ key := by
  induction m with
  | nil => simp [erase]
  | cons p m ih =>
    obtain ⟨k', v'⟩ := p
    by_cases hk : k' = key
    · subst hk
      simp only [erase, if_true, ih, List.mem_cons, Prod.mk.injEq]
      constructor
      · exact fun ⟨h, hne⟩ => ⟨.inr h, hne⟩
      · rintro ⟨⟨rfl, -⟩ | h, hne⟩
        · exact absurd rfl hne
        · exact ⟨h, hne⟩
    · simp only [erase, hk, if_false, List.mem_cons, Prod.mk.injEq, ih]
      constructor
      · rintro (⟨rfl, rfl⟩ | ⟨h, hne⟩)
        · exact ⟨.inl ⟨rfl, rfl⟩, hk⟩
        · exact ⟨.inr h, hne⟩
      · rintro ⟨⟨rfl, rfl⟩ | h, hne⟩
        · exact .inl ⟨rfl, rfl⟩
        · exact .inr ⟨h, hne⟩

theorem mem_insert {m : Map α} {key k : String} {v value : α} :
    (k, v) ∈ m.insert key value ↔ k = key ∧ v = value ∨ (k, v) ∈ m ∧ k ≠ key := by
  rw [insert, List.mem_cons, Prod.mk.injEq, mem_erase]

/-! A map built by `insert` and `erase` binds each key once, and then its list is its bindings: -/

theorem get_eq_some_of_mem : ∀ {m : Map α} {key : String} {v : α},
    (m.map Prod.fst).Nodup → (key, v) ∈ m → m.get key = some v
  | [], _, _, _, h => absurd h (List.not_mem_nil _)
  | (k, w) :: m, key, v, hd, h => by
    rw [List.map_cons, List.nodup_cons] at hd
    rcases List.mem_cons.mp h with heq | h
    · cases heq
      simp [get]
    · have hk : k ≠ key := fun hk => hd.1 (List.mem_map.mpr ⟨_, h, hk.symm⟩)
      simp only [get, if_neg hk]
      exact get_eq_some_of_mem hd.2 h

theorem nodup_keys_erase {m : Map α} (hd : (m.map Prod.fst).Nodup) (key : String) :
    ((m.erase key).map Prod.fst).Nodup := by
  induction m with
  | nil => exact List.nodup_nil
  | cons p m ih =>
    obtain ⟨k, v⟩ := p
    rw [List.map_cons, List.nodup_cons] at hd
    unfold erase
    split_ifs
    · exact ih hd.2
    · rw [List.map_cons, List.nodup_cons]
      refine ⟨fun h => hd.1 ?_, ih hd.2⟩
      obtain ⟨⟨k', v'⟩, hmem, hk⟩ := List.mem_map.mp h
      exact List.mem_map.mpr ⟨_, (mem_erase.mp hmem).1, hk⟩

theorem nodup_keys_insert {m : Map α} (hd : (m.map Prod.fst).Nodup) (key : String) (value : α) :
    ((m.insert key value).map Prod.fst).Nodup := by
  rw [insert, List.map_cons, List.nodup_cons]
  refine ⟨fun h => ?_, nodup_keys_erase hd key⟩
  obtain ⟨⟨k, v⟩, hmem, hk⟩ := List.mem_map.mp h
  exact (mem_erase.mp hmem).2 hk

end Map

end BonsaiDb
