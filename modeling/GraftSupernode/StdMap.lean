/-
# Maps in the order of their keys

`std::map`: a list of entries with the keys in order, so that no key is there twice.  What is in a
map is `find`; each operation has the equation that says what it does to it.
-/
import Mathlib.Data.List.Basic
import Mathlib.Data.List.Nodup
import Mathlib.Order.Lattice

/-- A map from `κ` to `β`. -/
structure StdMap (κ β : Type*) [LinearOrder κ] where
  entries : List (κ × β)
  sorted : entries.Pairwise fun e f => e.1 < f.1

namespace StdMap

variable {κ β : Type*} [LinearOrder κ] {m : StdMap κ β} {k a : κ} {v : β}

/-- The map without entries. -/
def empty : StdMap κ β := ⟨[], List.Pairwise.nil⟩

/-- What is stored under a key. -/
def find (m : StdMap κ β) (k : κ) : Option β := (m.entries.find? fun e => e.1 = k).map Prod.snd

/-- An entry is put where its key belongs, unless the key is there. -/
def insertEntry (k : κ) (v : β) : List (κ × β) → List (κ × β)
  | [] => [(k, v)]
  | e :: l => if k < e.1 then (k, v) :: e :: l else if k = e.1 then e :: l else e :: insertEntry k v l

/-- An entry is added when no entry has its key. -/
theorem mem_insertEntry {l : List (κ × β)} (h : l.Pairwise fun e f => e.1 < f.1) {e : κ × β} :
    e ∈ insertEntry k v l ↔ e ∈ l ∨ e = (k, v) ∧ ∀ f ∈ l, f.1 ≠ k := by
  induction l with
  | nil => simp [insertEntry]
  | cons f l ih =>
    obtain ⟨hfirst, hrest⟩ := List.pairwise_cons.mp h
    rw [insertEntry]
    split
    · rename_i hlt
      -- all the keys are behind this one
      have hne : ∀ g ∈ f :: l, g.1 ≠ k := by
        intro g hg
        rcases List.mem_cons.mp hg with rfl | hg
        · exact hlt.ne'
        · exact (hlt.trans (hfirst g hg)).ne'
      rw [List.mem_cons, and_iff_left hne, or_comm]
    · split
      · rename_i heq
        simp [heq]
      · rename_i hne
        rw [List.mem_cons, List.mem_cons, List.forall_mem_cons, ih hrest, or_assoc,
          and_iff_right (Ne.symm hne)]

/-- An entry behind all the others is put at the end. -/
theorem insertEntry_last {l : List (κ × β)} (h : ∀ e ∈ l, e.1 < k) :
    insertEntry k v l = l ++ [(k, v)] := by
  induction l with
  | nil => rfl
  | cons e l ih =>
    obtain ⟨hlt, hrest⟩ := List.forall_mem_cons.mp h
    rw [insertEntry, if_neg hlt.not_gt, if_neg hlt.ne', ih hrest]
    rfl

/-- The entries stay in the order of their keys. -/
theorem sorted_insertEntry {l : List (κ × β)} (h : l.Pairwise fun e f => e.1 < f.1) (k : κ)
    (v : β) : (insertEntry k v l).Pairwise fun e f => e.1 < f.1 := by
  induction l with
  | nil => exact List.pairwise_singleton _ _
  | cons f l ih =>
    obtain ⟨hfirst, hrest⟩ := List.pairwise_cons.mp h
    rw [insertEntry]
    split
    · rename_i hlt
      refine List.pairwise_cons.mpr ⟨fun e he => ?_, h⟩
      rcases List.mem_cons.mp he with rfl | he
      · exact hlt
      · exact hlt.trans (hfirst e he)
    · split
      · exact h
      · rename_i hlt hne
        refine List.pairwise_cons.mpr ⟨fun e he => ?_, ih hrest⟩
        rcases (mem_insertEntry hrest).mp he with he | ⟨rfl, -⟩
        · exact hfirst e he
        · exact lt_of_le_of_ne (not_lt.mp hlt) (Ne.symm hne)

/-- `emplace` -/
def emplace (m : StdMap κ β) (k : κ) (v : β) : StdMap κ β :=
  ⟨insertEntry k v m.entries, sorted_insertEntry m.sorted k v⟩

/-- `erase` -/
def erase (m : StdMap κ β) (k : κ) : StdMap κ β :=
  ⟨m.entries.filter fun e => e.1 ≠ k, m.sorted.filter _⟩

/-- The keys of a map. -/
def keys (m : StdMap κ β) : List κ := m.entries.map Prod.fst

/-- The keys of a map are different. -/
theorem nodup_keys (m : StdMap κ β) : m.keys.Nodup := by
  rw [keys, List.Nodup, List.pairwise_map]
  exact m.sorted.imp fun h => h.ne

/-- The keys are in order. -/
theorem sorted_keys (m : StdMap κ β) : m.keys.Pairwise (· < ·) := List.pairwise_map.mpr m.sorted

/-- What is found is an entry. -/
theorem find_eq_some_iff : m.find k = some v ↔ (k, v) ∈ m.entries := by
  constructor
  · intro h
    obtain ⟨e, he, rfl⟩ := Option.map_eq_some_iff.mp h
    have hkey : e.1 = k := by simpa using List.find?_some he
    rw [← hkey]
    exact List.mem_of_find?_eq_some he
  · intro h
    obtain ⟨e, he⟩ : ∃ e, m.entries.find? (fun e => e.1 = k) = some e := by
      rw [← Option.isSome_iff_exists, List.find?_isSome]
      exact ⟨(k, v), h, by simp⟩
    have hkey : e.1 = k := by simpa using List.find?_some he
    have hmem : e ∈ m.entries := List.mem_of_find?_eq_some he
    -- two entries with one key are the same
    have heq : e = (k, v) := List.inj_on_of_nodup_map m.nodup_keys hmem h hkey
    rw [find, he, heq]
    rfl

/-- Nothing is found when no entry has the key. -/
theorem find_eq_none : m.find k = none ↔ ∀ e ∈ m.entries, e.1 ≠ k := by
  rw [find, Option.map_eq_none_iff, List.find?_eq_none]
  constructor
  · exact fun h e he hkey => h e he (decide_eq_true hkey)
  · exact fun h e he hkey => h e he (of_decide_eq_true hkey)

/-- Nothing is found under what is no key. -/
theorem find_eq_none_iff : m.find k = none ↔ k ∉ m.keys := by
  rw [find_eq_none, keys, List.mem_map]
  constructor
  · rintro hnone ⟨e, he, hkey⟩
    exact hnone e he hkey
  · intro hnone e he hkey
    exact hnone ⟨e, he, hkey⟩

/-- Something is found under each key. -/
theorem isSome_find_iff : (m.find k).isSome ↔ k ∈ m.keys := by
  rw [← not_iff_not, ← find_eq_none_iff, Bool.not_eq_true, Option.isSome_eq_false_iff,
    Option.isNone_iff_eq_none]

/-- Something is found under keys only. -/
theorem mem_keys_of_find (h : m.find k = some v) : k ∈ m.keys :=
  isSome_find_iff.mp (by rw [h]; rfl)

/-- Nothing is found in an empty map. -/
@[simp] theorem find_empty (k : κ) : (empty : StdMap κ β).find k = none := rfl

/-- An empty map has no keys. -/
@[simp] theorem keys_empty : (empty : StdMap κ β).keys = [] := rfl

/-- An erased key is not found, and the others are as before. -/
theorem find_erase (m : StdMap κ β) (k a : κ) :
    (m.erase k).find a = if a = k then none else m.find a := by
  ext v
  rw [find_eq_some_iff, erase, List.mem_filter]
  split
  · rename_i ha
    simp [ha]
  · rename_i ha
    rw [find_eq_some_iff]
    simp [ha]

/-- The keys after `erase` are the others. -/
theorem mem_keys_erase : a ∈ (m.erase k).keys ↔ a ∈ m.keys ∧ a ≠ k := by
  rw [← isSome_find_iff, find_erase, ← isSome_find_iff]
  split
  · rename_i ha
    simp [ha]
  · rename_i ha
    simp [ha]

/-- An entry that is there stays, and no other one comes. -/
theorem find_emplace (m : StdMap κ β) (k : κ) (v : β) (a : κ) :
    (m.emplace k v).find a = if a = k then some ((m.find k).getD v) else m.find a := by
  have hmem : ∀ w, (m.emplace k v).find a = some w ↔
      m.find a = some w ∨ (a = k ∧ w = v) ∧ m.find k = none := by
    intro w
    rw [find_eq_some_iff, emplace, mem_insertEntry m.sorted, find_eq_some_iff, Prod.mk.injEq,
      find_eq_none]
  ext w
  rw [hmem]
  split
  · rename_i ha
    subst ha
    cases m.find a with
    | none => simp [eq_comm]
    | some w' => simp
  · rename_i ha
    simp [ha]

/-- The keys after `emplace` are those before, and this one. -/
theorem mem_keys_emplace : a ∈ (m.emplace k v).keys ↔ a = k ∨ a ∈ m.keys := by
  rw [← isSome_find_iff, find_emplace, ← isSome_find_iff]
  split
  · rename_i ha
    simp [ha]
  · rename_i ha
    simp [ha]

/-- Keys that are erased one after the other are not found, and the others are as before. -/
theorem find_foldl_erase (list : List κ) (m : StdMap κ β) (a : κ) :
    (list.foldl erase m).find a = if a ∈ list then none else m.find a := by
  induction list generalizing m with
  | nil => simp
  | cons k list ih =>
    rw [List.foldl_cons, ih, find_erase]
    by_cases ha : a = k <;> simp [ha]

/-- The keys that are left are those that have not been erased. -/
theorem mem_keys_foldl_erase {list : List κ} :
    a ∈ (list.foldl erase m).keys ↔ a ∈ m.keys ∧ a ∉ list := by
  rw [← isSome_find_iff, find_foldl_erase, ← isSome_find_iff]
  split
  · rename_i ha
    simp [ha]
  · rename_i ha
    simp [ha]

/-- Maps with the same keys have them in the same order. -/
theorem keys_eq_of_mem_iff {γ : Type*} {m' : StdMap κ γ} (h : ∀ a, a ∈ m.keys ↔ a ∈ m'.keys) :
    m.keys = m'.keys := by
  have hperm := (List.perm_ext_iff_of_nodup m.nodup_keys m'.nodup_keys).mpr h
  exact hperm.eq_of_pairwise (fun a b _ _ hab hba => absurd hab hba.asymm) m.sorted_keys
    m'.sorted_keys

end StdMap
