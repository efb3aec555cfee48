import Mathlib.Data.List.Perm.Basic

/-!
# Fulcrum.HeightMap

`std::map<unsigned, T>` as the controller uses it for `ppBlocks`: entries sorted by
strictly increasing key, so `begin()` is the entry with the least key.  The order is a
field of `HeightMap`, so a map out of order cannot be built.

The operations are `m[k] = v` (`insert`, which overwrites an entry with the same key),
`begin()` (`front?`) and `erase(begin())` (`eraseFront`).  The lemmas give the entries and
the keys of an inserted map, and that the keys of a map are distinct and that none is
below the key of `begin()`.
-/

namespace Fulcrum

section

variable {α : Type} {k : Nat} {v : α} {l : List (Nat × α)} {e : Nat × α}

/-- Insert `(k, v)` into a list sorted by key, replacing an entry with key `k`. -/
def insertSorted (k : Nat) (v : α) : List (Nat × α) → List (Nat × α)
  | [] => [(k, v)]
  | (k', v') :: rest =>
    if k < k' then (k, v) :: (k', v') :: rest
    else if k = k' then (k, v) :: rest
    else (k', v') :: insertSorted k v rest

theorem mem_insertSorted_self : (k, v) ∈ insertSorted k v l := by
  induction l with
  | nil => exact List.mem_singleton_self _
  | cons p rest ih =>
    unfold insertSorted
    split
    · exact List.mem_cons_self _ _
    · split
      · exact List.mem_cons_self _ _
      · exact List.mem_cons_of_mem _ ih

theorem mem_of_mem_insertSorted (h : e ∈ insertSorted k v l) : e = (k, v) ∨ e ∈ l := by
  induction l with
  | nil => exact .inl (List.mem_singleton.1 h)
  | cons p rest ih =>
    unfold insertSorted at h
    split at h
    · exact (List.mem_cons.1 h).imp id id
    · split at h
      · exact (List.mem_cons.1 h).imp id (List.mem_cons_of_mem _)
      · rcases List.mem_cons.1 h with h | h
        · exact .inr (h ▸ List.mem_cons_self _ _)
        · exact (ih h).imp id (List.mem_cons_of_mem _)

theorem mem_insertSorted_of_mem (h : e ∈ l) (hk : e.1 ≠ k) : e ∈ insertSorted k v l := by
  induction l with
  | nil => cases h
  | cons p rest ih =>
    unfold insertSorted
    rcases List.mem_cons.1 h with rfl | h
    · split
      · exact List.mem_cons_of_mem _ (List.mem_cons_self _ _)
      · split
        · exact absurd ‹_ = _›.symm hk
        · exact List.mem_cons_self _ _
    · split
      · exact List.mem_cons_of_mem _ (List.mem_cons_of_mem _ h)
      · split
        · exact List.mem_cons_of_mem _ h
        · exact List.mem_cons_of_mem _ (ih h)

/-- In a list sorted by strictly increasing key, an entry is determined by its key. -/
theorem eq_of_key_eq_of_sorted (hs : l.Pairwise (fun a b => a.1 < b.1)) {a b : Nat × α}
    (ha : a ∈ l) (hb : b ∈ l) (hk : a.1 = b.1) : a = b := by
  induction l with
  | nil => cases ha
  | cons p rest ih =>
    obtain ⟨hp, hrest⟩ := List.pairwise_cons.1 hs
    rcases List.mem_cons.1 ha with rfl | ha'
    · rcases List.mem_cons.1 hb with rfl | hb'
      · rfl
      · exact absurd (hp b hb') (by omega)
    · rcases List.mem_cons.1 hb with rfl | hb'
      · exact absurd (hp a ha') (by omega)
      · exact ih hrest ha' hb'

/-- Inserting keeps a list sorted by strictly increasing key. -/
theorem insertSorted_sorted (h : l.Pairwise (fun a b => a.1 < b.1)) :
    (insertSorted k v l).Pairwise (fun a b => a.1 < b.1) := by
  induction l with
  | nil => exact List.pairwise_singleton _ _
  | cons p rest ih =>
    obtain ⟨hp, hrest⟩ := List.pairwise_cons.1 h
    unfold insertSorted
    split
    · refine List.Pairwise.cons (fun b hb => ?_) h
      rcases List.mem_cons.1 hb with rfl | hb
      · assumption
      · exact Nat.lt_trans ‹_› (hp b hb)
    · split
      · subst k; exact List.Pairwise.cons hp hrest
      · refine List.Pairwise.cons (fun b hb => ?_) (ih hrest)
        rcases mem_of_mem_insertSorted hb with rfl | hb
        · show p.1 < k; omega
        · exact hp b hb

end

/-- `std::map<unsigned, α>`: entries by strictly increasing key. -/
structure HeightMap (α : Type) where
  entries : List (Nat × α)
  sorted : entries.Pairwise (fun a b => a.1 < b.1)

namespace HeightMap

variable {α : Type}

/-- The empty map. -/
def empty : HeightMap α := ⟨[], .nil⟩

/-- The keys, in order. -/
def keys (m : HeightMap α) : List Nat := m.entries.map (·.1)

/-- `m[k] = v`. -/
def insert (m : HeightMap α) (k : Nat) (v : α) : HeightMap α :=
  ⟨insertSorted k v m.entries, insertSorted_sorted m.sorted⟩

/-- `begin()`, or `none` at `end()`. -/
def front? (m : HeightMap α) : Option (Nat × α) := m.entries.head?

/-- `erase(begin())`. -/
def eraseFront (m : HeightMap α) : HeightMap α :=
  ⟨m.entries.tail, m.sorted.sublist (List.tail_sublist _)⟩

/-- `size()`. -/
def size (m : HeightMap α) : Nat := m.entries.length

section

variable {m : HeightMap α} {k k' : Nat} {v : α} {e : Nat × α}

@[simp] theorem keys_empty : (empty : HeightMap α).keys = [] := rfl

theorem keys_nodup (m : HeightMap α) : m.keys.Nodup :=
  List.Pairwise.imp Nat.ne_of_lt (List.pairwise_map.2 m.sorted)

theorem mem_keys : k ∈ m.keys ↔ ∃ v, (k, v) ∈ m.entries := by
  simp [keys]

theorem mem_insert : e ∈ (m.insert k v).entries ↔ e = (k, v) ∨ (e ∈ m.entries ∧ e.1 ≠ k) := by
  constructor
  · intro h
    rcases mem_of_mem_insertSorted h with h' | h'
    · exact .inl h'
    · exact (em (e.1 = k)).elim
        (fun hk => .inl (eq_of_key_eq_of_sorted (m.insert k v).sorted h mem_insertSorted_self hk))
        (fun hk => .inr ⟨h', hk⟩)
  · rintro (rfl | ⟨h, hk⟩)
    · exact mem_insertSorted_self
    · exact mem_insertSorted_of_mem h hk

theorem mem_keys_insert : k' ∈ (m.insert k v).keys ↔ k' = k ∨ k' ∈ m.keys := by
  simp only [mem_keys, mem_insert, Prod.mk.injEq]
  constructor
  · rintro ⟨w, ⟨rfl, -⟩ | ⟨h, -⟩⟩
    · exact .inl rfl
    · exact .inr ⟨w, h⟩
  · rintro (rfl | ⟨w, h⟩)
    · exact ⟨v, .inl ⟨rfl, rfl⟩⟩
    · by_cases hk : k' = k
      · exact ⟨v, .inl ⟨hk, rfl⟩⟩
      · exact ⟨w, .inr ⟨h, hk⟩⟩

/-- Inserting a new key adds it to the keys, up to order. -/
theorem keys_insert_perm (h : k ∉ m.keys) : (m.insert k v).keys.Perm (k :: m.keys) :=
  (List.perm_ext_iff_of_nodup (keys_nodup _) (List.nodup_cons.2 ⟨h, keys_nodup m⟩)).2
    fun _ => by rw [mem_keys_insert, List.mem_cons]

/-- Overwriting a key keeps the keys, up to order. -/
theorem keys_insert_perm_of_mem (h : k ∈ m.keys) : (m.insert k v).keys.Perm m.keys :=
  (List.perm_ext_iff_of_nodup (keys_nodup _) (keys_nodup m)).2
    fun _ => by rw [mem_keys_insert]; exact ⟨fun h' => h'.elim (· ▸ h) id, .inr⟩

/-- The front entry's key is the least key. -/
theorem front_le (h : m.front? = some (k, v)) (hk : k' ∈ m.keys) : k ≤ k' := by
  obtain ⟨l, hl⟩ : ∃ l, m.entries = (k, v) :: l := by
    cases he : m.entries with
    | nil => simp [front?, he] at h
    | cons p l => simp only [front?, he, List.head?_cons, Option.some.injEq] at h; exact ⟨l, h ▸ rfl⟩
  have hs := m.sorted
  rw [hl] at hs
  simp only [keys, hl, List.map_cons, List.mem_cons, List.mem_map] at hk
  rcases hk with rfl | ⟨b, hb, rfl⟩
  · exact Nat.le_refl _
  · exact Nat.le_of_lt (List.rel_of_pairwise_cons hs hb)

theorem entries_eraseFront_of_front (h : m.front? = some e) : m.entries = e :: m.eraseFront.entries := by
  cases he : m.entries with
  | nil => simp [front?, he] at h
  | cons p l => simp_all [front?, eraseFront]

theorem keys_eraseFront_of_front (h : m.front? = some e) : m.keys = e.1 :: m.eraseFront.keys := by
  simp only [keys, entries_eraseFront_of_front h, List.map_cons]

theorem mem_of_front (h : m.front? = some e) : e ∈ m.entries :=
  List.mem_of_mem_head? h

theorem mem_of_mem_eraseFront (h : e ∈ m.eraseFront.entries) : e ∈ m.entries :=
  List.mem_of_mem_tail h

theorem front?_eq_none : m.front? = none ↔ m.keys = [] := by
  simp [front?, keys]

theorem size_eraseFront_of_front (h : m.front? = some e) : m.size = m.eraseFront.size + 1 := by
  simp only [size, entries_eraseFront_of_front h, List.length_cons]

/-- The first key is the front entry's. -/
theorem keys_head? : m.keys.head? = m.front?.map (·.1) := by
  simp only [keys, front?, List.head?_map]

/-- A key no greater than any other key is the first. -/
theorem keys_head?_of_le (hk : k ∈ m.keys) (hle : ∀ k' ∈ m.keys, k ≤ k') :
    m.keys.head? = some k := by
  rcases hf : m.front? with _ | ⟨k0, v0⟩
  · rw [front?_eq_none.1 hf] at hk
    cases hk
  · have h1 := front_le hf hk
    have h2 := hle k0 (mem_keys.2 ⟨v0, mem_of_front hf⟩)
    rw [keys_head?, hf, Option.map_some', Nat.le_antisymm h1 h2]

end

end HeightMap

end Fulcrum
