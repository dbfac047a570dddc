import ReaderWriter.Registry
import Mathlib.Algebra.Ring.Nat

/-!
# Counting and mapping in registries

The entries that have a property are those filed under other keys, and the one
filed under a given key if it has it. So the count after a key was filed or
erased differs from the count before by what happened under that key alone.

A map of the values, key by key, commutes with filing and erasing.
-/

namespace ReaderWriter.Registry

variable {κ ν : Type} [DecidableEq κ]

/-- One if a value is there and has the property, zero otherwise. -/
def weight (p : ν → Bool) (v? : Option ν) : Nat :=
  (v?.any p).toNat

@[simp] theorem weight_none (p : ν → Bool) : weight p none = 0 := rfl

@[simp] theorem weight_some (p : ν → Bool) (v : ν) : weight p (some v) = (p v).toNat := rfl

private theorem countP_eq_of_notMem {es : List (κ × ν)} {k : κ} (p : ν → Bool)
    (h : k ∉ es.map Prod.fst) :
    (es.filter fun e => e.1 ≠ k).countP (fun e => p e.2) = es.countP fun e => p e.2 := by
  rw [List.filter_eq_self.mpr]
  intro e he
  have hne : e.1 ≠ k := fun heq => h (heq ▸ List.mem_map_of_mem he)
  simpa using hne

private theorem countP_eq_countP_filter_add {es : List (κ × ν)} (p : ν → Bool) (k : κ)
    (h : (es.map Prod.fst).Nodup) :
    es.countP (fun e => p e.2) = (es.filter fun e => e.1 ≠ k).countP (fun e => p e.2) +
      weight p ((es.find? fun e => e.1 = k).map Prod.snd) := by
  induction es with
  | nil => rfl
  | cons e es ih =>
      obtain ⟨hnot, hrest⟩ := List.nodup_cons.mp h
      by_cases he : e.1 = k
      · subst he
        have hcount := countP_eq_of_notMem p hnot
        simp only [ne_eq, decide_not] at hcount
        cases hp : p e.2 with
        | true => simp [hcount, hp]
        | false => simp [hcount, hp]
      · have hcount := ih hrest
        simp only [ne_eq, decide_not] at hcount
        simp [List.countP_cons, he, hcount]
        omega

theorem count_eq_count_erase_add (r : Registry κ ν) (p : ν → Bool) (k : κ) :
    r.count p = (r.erase k).count p + weight p (r.get? k) :=
  countP_eq_countP_filter_add p k r.distinct

theorem count_insert (r : Registry κ ν) (p : ν → Bool) (k : κ) (v : ν) :
    (r.insert k v).count p = (r.erase k).count p + (p v).toNat := by
  simp only [count, insert, List.countP_cons]
  cases p v <;> rfl

private theorem find?_of_mem {es : List (κ × ν)} {e : κ × ν} (h : (es.map Prod.fst).Nodup)
    (he : e ∈ es) : (es.find? fun e' => e'.1 = e.1) = some e := by
  induction es with
  | nil => cases he
  | cons e' es ih =>
      obtain ⟨hnot, hrest⟩ := List.nodup_cons.mp h
      rcases List.mem_cons.mp he with rfl | hmem
      · simp
      · have hne : e'.1 ≠ e.1 := fun heq => hnot (heq ▸ List.mem_map_of_mem hmem)
        simp [hne, ih hrest hmem]

theorem get?_of_mem {r : Registry κ ν} {e : κ × ν} (he : e ∈ r.entries) :
    r.get? e.1 = some e.2 := by
  rw [get?, find?_of_mem r.distinct he]
  rfl

theorem mem_of_get? {r : Registry κ ν} {k : κ} {v : ν} (h : r.get? k = some v) :
    (k, v) ∈ r.entries := by
  obtain ⟨e, he, rfl⟩ := Option.map_eq_some_iff.mp h
  have hk := List.find?_some he
  rw [← of_decide_eq_true hk]
  exact List.mem_of_find?_eq_some he

theorem count_eq_zero {r : Registry κ ν} {p : ν → Bool}
    (h : ∀ k v, r.get? k = some v → p v = false) : r.count p = 0 := by
  refine List.countP_eq_zero.mpr fun e he hp => ?_
  rw [h e.1 e.2 (get?_of_mem he)] at hp
  cases hp

theorem any_eq_false {r : Registry κ ν} {p : κ → ν → Bool}
    (h : ∀ k v, r.get? k = some v → p k v = false) : r.any p = false := by
  refine List.any_eq_false.mpr fun e he hp => ?_
  rw [h e.1 e.2 (get?_of_mem he)] at hp
  cases hp

theorem of_any_eq_false {r : Registry κ ν} {p : κ → ν → Bool} (h : r.any p = false) {k : κ} {v : ν}
    (hget : r.get? k = some v) : p k v = false :=
  Bool.not_eq_true _ ▸ List.any_eq_false.mp h (k, v) (mem_of_get? hget)

omit [DecidableEq κ] in
theorem count_mono (r : Registry κ ν) {p q : ν → Bool} (h : ∀ v, p v = true → q v = true) :
    r.count p ≤ r.count q :=
  List.countP_mono_left fun e _ => h e.2

/-- There is nothing to erase under a key where nothing is filed. -/
theorem erase_eq_self {r : Registry κ ν} {k : κ} (h : r.get? k = none) : r.erase k = r := by
  have hentries : (r.entries.filter fun e => e.1 ≠ k) = r.entries := by
    refine List.filter_eq_self.mpr fun e he => ?_
    have hne : e.1 ≠ k := by
      rintro rfl
      rw [get?_of_mem he] at h
      cases h
    simpa using hne
  obtain ⟨entries, distinct⟩ := r
  simpa [erase] using hentries

/-- Distinct keys whose values have a property are at most as many as it counts. -/
theorem length_le_count {p : ν → Bool} {ks : List κ} (hk : ks.Nodup) {r : Registry κ ν}
    (h : ∀ k ∈ ks, ∃ v, r.get? k = some v ∧ p v = true) : ks.length ≤ r.count p := by
  induction ks generalizing r with
  | nil => exact Nat.zero_le _
  | cons k ks ih =>
      obtain ⟨hnot, hrest⟩ := List.nodup_cons.mp hk
      obtain ⟨v, hv, hp⟩ := h k List.mem_cons_self
      have herase : ks.length ≤ (r.erase k).count p := by
        refine ih hrest fun k' hk' => ?_
        have hne : k' ≠ k := fun heq => hnot (heq ▸ hk')
        rw [get?_erase_of_ne r hne]
        exact h k' (List.mem_cons_of_mem _ hk')
      have hsplit := r.count_eq_count_erase_add p k
      rw [hv, weight_some, hp, Bool.toNat_true] at hsplit
      rw [List.length_cons]
      omega

/-- A registry that has all entries with a property counts them. -/
theorem count_le_of_get? {r r' : Registry κ ν} {p : ν → Bool}
    (h : ∀ k v, p v = true → r.get? k = some v → r'.get? k = some v) : r.count p ≤ r'.count p := by
  have hlength : r.count p = ((r.entries.filter fun e => p e.2).map Prod.fst).length := by
    rw [List.length_map, count, List.countP_eq_length_filter]
  rw [hlength]
  apply length_le_count (r.distinct.sublist (List.filter_sublist.map _))
  intro k hk
  obtain ⟨e, he, rfl⟩ := List.mem_map.mp hk
  obtain ⟨hmem, hp⟩ := List.mem_filter.mp he
  exact ⟨e.2, h e.1 e.2 hp (get?_of_mem hmem), hp⟩

/-- Registries that have the same entries with a property count the same. -/
theorem count_congr_of_get? {r r' : Registry κ ν} {p : ν → Bool}
    (h : ∀ k v, p v = true → (r'.get? k = some v ↔ r.get? k = some v)) :
    r'.count p = r.count p :=
  Nat.le_antisymm (count_le_of_get? fun k v hp => (h k v hp).mp)
    (count_le_of_get? fun k v hp => (h k v hp).mpr)

/-! ## Mapping -/

omit [DecidableEq κ] in
theorem eq_of_entries {r r' : Registry κ ν} (h : r.entries = r'.entries) : r = r' := by
  obtain ⟨entries, distinct⟩ := r
  obtain rfl : entries = r'.entries := h
  rfl

omit [DecidableEq κ] in
private theorem map_fst_map (es : List (κ × ν)) (f : κ → ν → ν) :
    (es.map fun e => (e.1, f e.1 e.2)).map Prod.fst = es.map Prod.fst := by
  rw [List.map_map]
  rfl

omit [DecidableEq κ] in
/-- The registry with every value mapped in view of its key. -/
def map (f : κ → ν → ν) (r : Registry κ ν) : Registry κ ν where
  entries := r.entries.map fun e => (e.1, f e.1 e.2)
  distinct := map_fst_map r.entries f ▸ r.distinct

variable (f : κ → ν → ν)

@[simp] theorem get?_map (r : Registry κ ν) (k : κ) : (r.map f).get? k = (r.get? k).map (f k) := by
  have hfind : ∀ es : List (κ × ν),
      ((es.map fun e => (e.1, f e.1 e.2)).find? fun e => e.1 = k).map Prod.snd =
        ((es.find? fun e => e.1 = k).map Prod.snd).map (f k) := by
    intro es
    induction es with
    | nil => rfl
    | cons e es ih =>
        by_cases he : e.1 = k
        · simp [he]
        · simpa [he] using ih
  exact hfind r.entries

theorem erase_map (r : Registry κ ν) (k : κ) : (r.map f).erase k = (r.erase k).map f := by
  apply eq_of_entries
  simp only [erase, map, List.filter_map]
  rfl

theorem insert_map (r : Registry κ ν) (k : κ) (v : ν) :
    (r.map f).insert k (f k v) = (r.insert k v).map f := by
  apply eq_of_entries
  have herase := congrArg entries (r.erase_map f k)
  simp only [insert, herase]
  rfl

@[simp] theorem contains_map (r : Registry κ ν) (k : κ) :
    (r.map f).contains k = r.contains k := by
  rw [contains, get?_map, Option.isSome_map, contains]

end ReaderWriter.Registry
