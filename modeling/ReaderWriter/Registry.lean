/-!
# Registries

A registry files values under distinct keys. Scripts keep three of them: the
objects they made, the calls that are stopped and the guards that are alive.

Keys are distinct by construction, so counting the entries with a property
counts the keys that have it, and erasing a key removes it altogether.
-/

namespace ReaderWriter

/-- Values filed under distinct keys, the latest entry first. -/
structure Registry (κ ν : Type) where
  entries : List (κ × ν)
  distinct : (entries.map Prod.fst).Nodup

namespace Registry

variable {κ ν : Type}

/-- The registry without entries. -/
def empty : Registry κ ν := ⟨[], List.nodup_nil⟩

/-- Some entry has the property. -/
def any (r : Registry κ ν) (p : κ → ν → Bool) : Bool :=
  r.entries.any fun e => p e.1 e.2

/-- The number of entries whose value has the property. -/
def count (r : Registry κ ν) (p : ν → Bool) : Nat :=
  r.entries.countP fun e => p e.2

@[simp] theorem count_empty (p : ν → Bool) : (empty : Registry κ ν).count p = 0 := rfl

variable [DecidableEq κ]

/-- The value filed under a key. -/
def get? (r : Registry κ ν) (k : κ) : Option ν :=
  (r.entries.find? fun e => e.1 = k).map Prod.snd

/-- Some value is filed under the key. -/
def contains (r : Registry κ ν) (k : κ) : Bool :=
  (r.get? k).isSome

private theorem map_fst_filter_sublist (es : List (κ × ν)) (k : κ) :
    ((es.filter fun e => e.1 ≠ k).map Prod.fst).Sublist (es.map Prod.fst) :=
  List.filter_sublist.map _

/-- Forgets what is filed under a key. -/
def erase (r : Registry κ ν) (k : κ) : Registry κ ν where
  entries := r.entries.filter fun e => e.1 ≠ k
  distinct := r.distinct.sublist (map_fst_filter_sublist r.entries k)

/-- Files a value under a key, in place of what was there. -/
def insert (r : Registry κ ν) (k : κ) (v : ν) : Registry κ ν where
  entries := (k, v) :: (r.erase k).entries
  distinct := by
    refine List.nodup_cons.mpr ⟨?_, (r.erase k).distinct⟩
    simp [erase]

@[simp] theorem get?_empty (k : κ) : (empty : Registry κ ν).get? k = none := rfl

@[simp] theorem get?_insert_self (r : Registry κ ν) (k : κ) (v : ν) :
    (r.insert k v).get? k = some v := by
  simp [get?, insert]

theorem get?_erase_of_ne (r : Registry κ ν) {k k' : κ} (h : k' ≠ k) :
    (r.erase k).get? k' = r.get? k' := by
  simp only [get?, erase, List.find?_filter]
  congr 2
  funext e
  by_cases he : e.1 = k'
  · simp [he, h]
  · simp [he]

@[simp] theorem get?_erase_self (r : Registry κ ν) (k : κ) : (r.erase k).get? k = none := by
  simp [get?, erase, List.find?_filter]

theorem get?_insert_of_ne (r : Registry κ ν) {k k' : κ} (v : ν) (h : k' ≠ k) :
    (r.insert k v).get? k' = r.get? k' := by
  rw [← get?_erase_of_ne r h]
  simp [get?, insert, Ne.symm h]

end Registry

end ReaderWriter
