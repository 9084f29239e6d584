/-!
Finite maps that remember the order in which their keys came in. Replacing a value keeps the
position of its key, erasing a key and putting it back moves it to the end.

Main statements: what `get?` and `keys` answer after `insert`, `insertIfNew` and `erase`
(`get?_insert`, `get?_erase`, `keys_insert`, `keys_erase`), and `mem_keys_iff`, that the listed
keys are those with a value.
-/

namespace Startup

/-! ## Lists of pairs -/

namespace Assoc

variable {κ ν : Type} [DecidableEq κ]

/-- The value of the first pair with key `k`. -/
def find? (k : κ) : List (κ × ν) → Option ν
  | [] => none
  | (k', v) :: r => if k' = k then some v else find? k r

/-- Replace the value at `k`, or put a new pair at the end. -/
def put (k : κ) (v : ν) : List (κ × ν) → List (κ × ν)
  | [] => [(k, v)]
  | (k', v') :: r => if k' = k then (k, v) :: r else (k', v') :: put k v r

/-- Drop every pair with key `k`. -/
def drop (k : κ) (l : List (κ × ν)) : List (κ × ν) := l.filter (fun p => !decide (p.1 = k))

theorem find?_put (k k' : κ) (v : ν) (l : List (κ × ν)) :
    find? k' (put k v l) = if k = k' then some v else find? k' l := by
  induction l with
  | nil => simp [put, find?]
  | cons p r ih =>
    obtain ⟨q, w⟩ := p
    by_cases h : q = k
    · subst h
      by_cases h' : q = k' <;> simp [put, find?, h']
    · by_cases h' : q = k'
      · subst h'
        have : ¬ k = q := fun e => h e.symm
        simp [put, find?, h, this]
      · simp [put, find?, h, h', ih]

theorem map_fst_put (k : κ) (v : ν) (l : List (κ × ν)) :
    (put k v l).map Prod.fst =
      if k ∈ l.map Prod.fst then l.map Prod.fst else l.map Prod.fst ++ [k] := by
  induction l with
  | nil => simp [put]
  | cons p r ih =>
    obtain ⟨q, w⟩ := p
    by_cases h : q = k
    · simp [put, h]
    · have h' : ¬ k = q := fun e => h e.symm
      simp only [put, h, if_false, List.map_cons, ih, List.mem_cons, h', false_or]
      split <;> simp

theorem find?_drop (k k' : κ) (l : List (κ × ν)) :
    find? k' (drop k l) = if k = k' then none else find? k' l := by
  induction l with
  | nil => simp [drop, find?]
  | cons p r ih =>
    obtain ⟨q, w⟩ := p
    simp only [drop] at ih
    by_cases h : q = k
    · subst h
      by_cases h' : q = k' <;> simp_all [drop, find?]
    · by_cases h' : q = k'
      · subst h'
        have : ¬ k = q := fun e => h e.symm
        simp [drop, find?, h, this]
      · simp [drop, find?, h, h', ih]

/-- To put a value where it is already changes nothing. -/
theorem put_of_find? {k : κ} {v : ν} {l : List (κ × ν)} (h : find? k l = some v) :
    put k v l = l := by
  induction l with
  | nil => cases h
  | cons p r ih =>
    obtain ⟨q, w⟩ := p
    by_cases hk : q = k
    · subst hk
      simpa [find?, put, eq_comm] using h
    · rw [find?, if_neg hk] at h
      rw [put, if_neg hk, ih h]

/-- A new key stands at the end. -/
theorem put_of_not_mem {k : κ} {v : ν} {l : List (κ × ν)} (h : k ∉ l.map Prod.fst) :
    put k v l = l ++ [(k, v)] := by
  induction l with
  | nil => rfl
  | cons p r ih =>
    obtain ⟨q, w⟩ := p
    simp only [List.map_cons, List.mem_cons, not_or] at h
    rw [put, if_neg (Ne.symm h.1), ih h.2, List.cons_append]

theorem put_put (k : κ) (v v' : ν) (l : List (κ × ν)) : put k v' (put k v l) = put k v' l := by
  induction l with
  | nil => simp [put]
  | cons p r ih =>
    obtain ⟨q, w⟩ := p
    by_cases hk : q = k <;> simp [put, hk, ih]

theorem drop_of_find? {k : κ} {l : List (κ × ν)} (h : find? k l = none) : drop k l = l := by
  induction l with
  | nil => rfl
  | cons p r ih =>
    obtain ⟨q, w⟩ := p
    by_cases hk : q = k
    · simp [find?, hk] at h
    · rw [find?, if_neg hk] at h
      have hrest := ih h
      simp only [drop] at hrest ⊢
      rw [List.filter_cons_of_pos (by simpa using hk), hrest]

theorem drop_put (k : κ) (v : ν) (l : List (κ × ν)) : drop k (put k v l) = drop k l := by
  induction l with
  | nil => simp [put, drop]
  | cons p r ih =>
    obtain ⟨q, w⟩ := p
    simp only [drop] at ih
    by_cases hk : q = k <;> simp [put, drop, hk, ih]

theorem map_fst_drop (k : κ) (l : List (κ × ν)) :
    (drop k l).map Prod.fst = (l.map Prod.fst).filter (fun q => !decide (q = k)) := by
  simp [drop, List.filter_map, Function.comp_def]

theorem find?_isSome (k : κ) (l : List (κ × ν)) :
    (find? k l).isSome = true ↔ k ∈ l.map Prod.fst := by
  induction l with
  | nil => simp [find?]
  | cons p r ih =>
    obtain ⟨q, w⟩ := p
    by_cases h : q = k
    · simp [find?, h]
    · have h' : ¬ k = q := fun e => h e.symm
      simp only [find?, h, if_false, ih, List.map_cons, List.mem_cons, h', false_or]

/-- Where no key stands twice, every pair is found. -/
theorem find?_eq_some_iff {k : κ} {v : ν} {l : List (κ × ν)} (h : (l.map Prod.fst).Nodup) :
    find? k l = some v ↔ (k, v) ∈ l := by
  induction l with
  | nil => simp [find?]
  | cons p r ih =>
    obtain ⟨q, w⟩ := p
    obtain ⟨hq, hr⟩ := List.nodup_cons.1 h
    by_cases hk : q = k
    · subst hk
      have hnone : (q, v) ∉ r := fun hmem => hq (List.mem_map.2 ⟨(q, v), hmem, rfl⟩)
      simp [find?, hnone, eq_comm]
    · simp [find?, hk, ih hr, Ne.symm hk]

theorem nodup_put (k : κ) (v : ν) {l : List (κ × ν)} (h : (l.map Prod.fst).Nodup) :
    ((put k v l).map Prod.fst).Nodup := by
  rw [map_fst_put]
  split
  · exact h
  · rename_i hk
    rw [List.nodup_append]
    refine ⟨h, by simp, ?_⟩
    intro a ha b hb
    simp only [List.mem_singleton] at hb
    subst hb
    exact fun e => hk (e ▸ ha)

theorem nodup_drop (k : κ) {l : List (κ × ν)} (h : (l.map Prod.fst).Nodup) :
    ((drop k l).map Prod.fst).Nodup := by
  rw [map_fst_drop]
  exact h.filter _

end Assoc

/-! ## The map -/

/-- A finite map with its keys in the order of their first insertion. -/
structure OrderedMap (κ ν : Type) where
  entries : List (κ × ν)
  nodup : (entries.map Prod.fst).Nodup

namespace OrderedMap

variable {κ ν : Type} [DecidableEq κ]

protected def empty : OrderedMap κ ν := ⟨[], List.nodup_nil⟩

instance : Inhabited (OrderedMap κ ν) := ⟨OrderedMap.empty⟩

instance : EmptyCollection (OrderedMap κ ν) := ⟨OrderedMap.empty⟩

def get? (m : OrderedMap κ ν) (k : κ) : Option ν := Assoc.find? k m.entries

def contains (m : OrderedMap κ ν) (k : κ) : Bool := (m.get? k).isSome

def keys (m : OrderedMap κ ν) : List κ := m.entries.map Prod.fst

def values (m : OrderedMap κ ν) : List ν := m.entries.map Prod.snd

def size (m : OrderedMap κ ν) : Nat := m.entries.length

def insert (m : OrderedMap κ ν) (k : κ) (v : ν) : OrderedMap κ ν :=
  ⟨Assoc.put k v m.entries, Assoc.nodup_put k v m.nodup⟩

def erase (m : OrderedMap κ ν) (k : κ) : OrderedMap κ ν :=
  ⟨Assoc.drop k m.entries, Assoc.nodup_drop k m.nodup⟩

/-- Put a value only where there is none yet. -/
def insertIfNew (m : OrderedMap κ ν) (k : κ) (v : ν) : OrderedMap κ ν :=
  if m.contains k then m else m.insert k v

@[simp] theorem get?_empty (k : κ) : (∅ : OrderedMap κ ν).get? k = none := rfl

omit [DecidableEq κ] in
@[simp] theorem keys_empty : (∅ : OrderedMap κ ν).keys = [] := rfl

theorem get?_insert (m : OrderedMap κ ν) (k k' : κ) (v : ν) :
    (m.insert k v).get? k' = if k = k' then some v else m.get? k' :=
  Assoc.find?_put k k' v m.entries

theorem get?_erase (m : OrderedMap κ ν) (k k' : κ) :
    (m.erase k).get? k' = if k = k' then none else m.get? k' :=
  Assoc.find?_drop k k' m.entries

theorem keys_insert (m : OrderedMap κ ν) (k : κ) (v : ν) :
    (m.insert k v).keys = if k ∈ m.keys then m.keys else m.keys ++ [k] :=
  Assoc.map_fst_put k v m.entries

theorem keys_erase (m : OrderedMap κ ν) (k : κ) :
    (m.erase k).keys = m.keys.filter (fun q => !decide (q = k)) :=
  Assoc.map_fst_drop k m.entries

/-- To erase a key that has no value changes nothing. -/
theorem erase_of_none {m : OrderedMap κ ν} {k : κ} (h : m.get? k = none) : m.erase k = m := by
  obtain ⟨entries, hnodup⟩ := m
  simp only [erase, mk.injEq]
  exact Assoc.drop_of_find? h

theorem erase_insert (m : OrderedMap κ ν) (k : κ) (v : ν) : (m.insert k v).erase k = m.erase k := by
  simp only [erase, insert, mk.injEq]
  exact Assoc.drop_put k v m.entries

theorem contains_of_some {m : OrderedMap κ ν} {k : κ} {v : ν} (h : m.get? k = some v) :
    m.contains k = true := by
  rw [contains, h]
  rfl

/-- The listed keys are those with a value. -/
theorem mem_keys_iff (m : OrderedMap κ ν) (k : κ) : k ∈ m.keys ↔ (m.get? k).isSome = true :=
  (Assoc.find?_isSome k m.entries).symm

theorem entries_insert {m : OrderedMap κ ν} {k : κ} (h : k ∉ m.keys) (v : ν) :
    (m.insert k v).entries = m.entries ++ [(k, v)] :=
  Assoc.put_of_not_mem h

theorem insertIfNew_of_mem {m : OrderedMap κ ν} {k : κ} (h : k ∈ m.keys) (v : ν) :
    m.insertIfNew k v = m :=
  if_pos ((m.mem_keys_iff k).1 h)

theorem insertIfNew_of_not_mem {m : OrderedMap κ ν} {k : κ} (h : k ∉ m.keys) (v : ν) :
    m.insertIfNew k v = m.insert k v :=
  if_neg fun hk => h ((m.mem_keys_iff k).2 hk)

theorem keys_insertIfNew (m : OrderedMap κ ν) (k : κ) (v : ν) :
    (m.insertIfNew k v).keys = if k ∈ m.keys then m.keys else m.keys ++ [k] := by
  by_cases h : k ∈ m.keys
  · rw [insertIfNew_of_mem h, if_pos h]
  · rw [insertIfNew_of_not_mem h, keys_insert]

theorem get?_insertIfNew (m : OrderedMap κ ν) (k k' : κ) (v : ν) :
    (m.insertIfNew k v).get? k' = (m.get? k').or (if k = k' then some v else none) := by
  by_cases h : k ∈ m.keys
  · obtain ⟨v', hv'⟩ := Option.isSome_iff_exists.1 ((m.mem_keys_iff k).1 h)
    rw [insertIfNew_of_mem h]
    by_cases hk : k = k'
    · rw [← hk, hv', Option.some_or]
    · rw [if_neg hk, Option.or_none]
  · rw [insertIfNew_of_not_mem h, get?_insert]
    by_cases hk : k = k'
    · have hnone : m.get? k' = none := by
        rw [← hk, ← Option.not_isSome_iff_eq_none, ← mem_keys_iff]
        exact h
      rw [if_pos hk, hnone, Option.none_or, if_pos hk]
    · rw [if_neg hk, if_neg hk, Option.or_none]

theorem mem_entries_iff {m : OrderedMap κ ν} {k : κ} {v : ν} :
    (k, v) ∈ m.entries ↔ m.get? k = some v :=
  (Assoc.find?_eq_some_iff m.nodup).symm

/-- The keys of the pairs that qualify. -/
theorem mem_keys_filter {m : OrderedMap κ ν} {p : κ × ν → Bool} {k : κ} :
    k ∈ (m.entries.filter p).map Prod.fst ↔ ∃ v, m.get? k = some v ∧ p (k, v) = true := by
  constructor
  · intro hk
    obtain ⟨⟨k', v⟩, hentry, rfl⟩ := List.mem_map.1 hk
    obtain ⟨hentry, hp⟩ := List.mem_filter.1 hentry
    exact ⟨v, mem_entries_iff.1 hentry, hp⟩
  · rintro ⟨v, hv, hp⟩
    exact List.mem_map.2 ⟨(k, v), List.mem_filter.2 ⟨mem_entries_iff.2 hv, hp⟩, rfl⟩

omit [DecidableEq κ] in
theorem keys_nodup (m : OrderedMap κ ν) : m.keys.Nodup := m.nodup

end OrderedMap

end Startup
