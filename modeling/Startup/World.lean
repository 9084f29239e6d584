import Startup.Journal.Event
import Startup.Registry.Basic

/-!
All objects that can change, side by side: registries, contexts with their listeners, the state
of the two interceptors that the library installs, and what the host remembers. Each is found by
its identity. Identities are handed out once.

Main statements: `Table.get_set`, and `World.get_setRegistry` for registries.
-/

namespace Startup

/-! ## Tables -/

/-- Values by identity; what was never set is the default. -/
structure Table (α : Type) where
  entries : List (ObjectId × α) := []

namespace Table

variable {α : Type} [Inhabited α]

instance : Inhabited (Table α) := ⟨{}⟩

def get (t : Table α) (i : ObjectId) : α := (Assoc.find? i t.entries).getD default

def set (t : Table α) (i : ObjectId) (a : α) : Table α := ⟨Assoc.put i a t.entries⟩

theorem get_set (t : Table α) (i j : ObjectId) (a : α) :
    (t.set i a).get j = if i = j then a else t.get j := by
  simp only [get, set, Assoc.find?_put]
  split <;> rfl

omit [Inhabited α] in
theorem set_set (t : Table α) (i : ObjectId) (a b : α) : (t.set i a).set i b = t.set i b := by
  simp only [set, Assoc.put_put]

omit [Inhabited α] in
theorem set_of_find? {t : Table α} {i : ObjectId} {a : α} (h : Assoc.find? i t.entries = some a) :
    t.set i a = t := by
  rw [set, Assoc.put_of_find? h]

end Table

/-! ## The world -/

/-- Notices components that are created before `target` interceptors are installed. -/
structure Checker where
  target : Nat
  bypassed : List ComponentName := []
  deriving Inhabited

/-- Registers listeners with a context; for each component in creation it keeps whether it is a
singleton. -/
structure Detector where
  context : ObjectId
  singletons : OrderedMap ComponentName Bool := ∅
  deriving Inhabited

/-- The listeners of a container, by the names of their components. -/
abbrev Context (H : Host) := OrderedMap ComponentName (Listener H)

structure World (H : Host) (σ : Type) where
  /-- The identity that the next object gets. -/
  next : ObjectId := 0
  registries : Table (Registry H) := {}
  contexts : Table (Context H) := {}
  checkers : Table Checker := {}
  detectors : Table Detector := {}
  /-- What the host remembers. -/
  memory : σ

namespace World

variable {H : Host} {σ : Type}

def setRegistry (w : World H σ) (r : ObjectId) (s : Registry H) : World H σ :=
  { w with registries := w.registries.set r s }

theorem get_setRegistry (w : World H σ) (r r' : ObjectId) (s : Registry H) :
    (w.setRegistry r s).registries.get r' = if r = r' then s else w.registries.get r' :=
  Table.get_set _ _ _ _

@[simp] theorem get_setRegistry_self (w : World H σ) (r : ObjectId) (s : Registry H) :
    (w.setRegistry r s).registries.get r = s := by
  rw [get_setRegistry, if_pos rfl]

theorem setRegistry_setRegistry (w : World H σ) (r : ObjectId) (s s' : Registry H) :
    (w.setRegistry r s).setRegistry r s' = w.setRegistry r s' := by
  rw [setRegistry, setRegistry, setRegistry, Table.set_set]

/-- The world stays the same just when the registry in it does. -/
theorem setRegistry_eq_self_iff {w : World H σ} {r : ObjectId} {s s' : Registry H}
    (hs : Assoc.find? r w.registries.entries = some s) : w.setRegistry r s' = w ↔ s' = s := by
  have hget : w.registries.get r = s := by rw [Table.get, hs, Option.getD_some]
  constructor
  · intro h
    rw [← hget, ← h, get_setRegistry_self]
  · rintro rfl
    rw [setRegistry, Table.set_of_find? hs]

end World

end Startup
