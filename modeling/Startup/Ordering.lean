import Startup.Registry.Creation

/-!
The order among extensions. A list is sorted by the comparator that the registry prefers, or by
tier. The sort is stable: extensions that compare equal keep their order.

The components found by a query are divided by the tiers that their definitions declare. Those of
the priority tier are created at once; of the others only the names are kept, so that they are
created when their tier's turn comes and all that earlier tiers did has its effect on them.

Main statements: `sortBy_perm`, `sortBy_pairwise` and `sublist_sortBy`, by which `sortBy` is the
stable sort for every comparator that is a total preorder.
-/

namespace Startup

namespace Comparator

variable {H : Host}

def standard : Comparator H := fun a b => a.tier.compare b.tier

/-- `a` may stand before `b`. -/
def le (c : Comparator H) (a b : Extension H) : Bool := (c a b).isLE

/-- A comparator that orders all extensions, up to ties. -/
structure IsTotalPreorder (c : Comparator H) : Prop where
  trans : ∀ x y z, c.le x y = true → c.le y z = true → c.le x z = true
  total : ∀ x y, (c.le x y || c.le y x) = true

theorem standard_isTotalPreorder : (standard : Comparator H).IsTotalPreorder where
  trans _ _ _ := OrderTier.le_trans
  total _ _ := OrderTier.le_total _ _

/-- Put an extension into a sorted list, before the first one that it may stand before. -/
def place (c : Comparator H) (e : Extension H) : List (Extension H) → List (Extension H)
  | [] => [e]
  | x :: rest => if c.le e x then e :: x :: rest else x :: c.place e rest

/-- The stable sort, by insertion. -/
def sortBy (c : Comparator H) : List (Extension H) → List (Extension H)
  | [] => []
  | e :: rest => c.place e (c.sortBy rest)

theorem place_perm (c : Comparator H) (e : Extension H) (l : List (Extension H)) :
    (c.place e l).Perm (e :: l) := by
  induction l with
  | nil => exact .refl _
  | cons x rest ih =>
    unfold place
    split
    · exact .refl _
    · exact (ih.cons x).trans (.swap e x rest)

theorem sortBy_perm (c : Comparator H) (l : List (Extension H)) : (c.sortBy l).Perm l := by
  induction l with
  | nil => exact .refl _
  | cons e rest ih => exact (c.place_perm e _).trans (ih.cons e)

theorem place_pairwise {c : Comparator H} (h : c.IsTotalPreorder) (e : Extension H)
    {l : List (Extension H)} (hl : l.Pairwise (fun a b => c.le a b = true)) :
    (c.place e l).Pairwise (fun a b => c.le a b = true) := by
  induction l with
  | nil => exact List.pairwise_singleton ..
  | cons x rest ih =>
    obtain ⟨hx, hrest⟩ := List.pairwise_cons.1 hl
    unfold place
    split
    · rename_i hle
      refine List.pairwise_cons.2 ⟨fun y hy => ?_, hl⟩
      rcases List.mem_cons.1 hy with rfl | hy
      · exact hle
      · exact h.trans e x y hle (hx y hy)
    · rename_i hle
      refine List.pairwise_cons.2 ⟨fun y hy => ?_, ih hrest⟩
      rcases List.mem_cons.1 ((c.place_perm e rest).mem_iff.1 hy) with rfl | hy
      · simpa [hle] using h.total x y
      · exact hx y hy

theorem sortBy_pairwise {c : Comparator H} (h : c.IsTotalPreorder) (l : List (Extension H)) :
    (c.sortBy l).Pairwise (fun a b => c.le a b = true) := by
  induction l with
  | nil => exact .nil
  | cons e rest ih => exact place_pairwise h e ih

theorem sublist_place (c : Comparator H) (e : Extension H) (l : List (Extension H)) :
    l.Sublist (c.place e l) := by
  induction l with
  | nil => exact List.nil_sublist _
  | cons x rest ih =>
    unfold place
    split
    · exact List.sublist_cons_self ..
    · exact ih.cons_cons x

/-- What an extension may stand before comes after it. -/
theorem cons_sublist_place {c : Comparator H} {e : Extension H} {k l : List (Extension H)}
    (hk : k.Sublist l) (he : ∀ x ∈ k, c.le e x = true) : (e :: k).Sublist (c.place e l) := by
  induction l generalizing k with
  | nil =>
    rw [List.sublist_nil.1 hk]
    exact .refl _
  | cons x rest ih =>
    unfold place
    split
    · exact hk.cons_cons e
    · rename_i hle
      cases hk with
      | cons _ hk => exact (ih hk he).cons x
      | cons_cons _ _ => exact absurd (he x List.mem_cons_self) hle

theorem sublist_sortBy {c : Comparator H} {l k : List (Extension H)}
    (hk : k.Pairwise (fun a b => c.le a b = true)) (hs : k.Sublist l) :
    k.Sublist (c.sortBy l) := by
  induction l generalizing k with
  | nil => exact hs
  | cons e rest ih =>
    cases hs with
    | cons _ hs => exact (ih hk hs).trans (c.sublist_place e _)
    | cons_cons _ hs =>
      obtain ⟨he, hk⟩ := List.pairwise_cons.1 hk
      exact cons_sublist_place (ih hk hs) he

end Comparator

/-- Sort extensions as the registry prefers. One or none need no comparison. -/
def View.sort {H : Host} {σ : Type} (v : View) (l : List (Extension H)) :
    Run H σ (List (Extension H)) := do
  if l.length ≤ 1 then
    return l
  else
    match ← v.comparator? with
    | some c =>
      Run.record (.comparing v)
      return c.sortBy l
    | none => return Comparator.standard.sortBy l

/-! ## Division by tier -/

structure Tiers (H : Host) where
  priority : List (Extension H) := []
  ordered : List ComponentName := []
  unordered : List ComponentName := []

open Attempt (always)

namespace View

variable {H : Host} {σ : Type} (call : Call H σ)

/-- Divide names by tier, leaving out those to skip. -/
def divide (v : View) (c : Capability) (skip : ComponentName → Bool) :
    List ComponentName → Attempt H σ DependencyError (Tiers H)
  | [] => pure {}
  | n :: rest =>
    if skip n then v.divide c skip rest
    else do
      if ← always (v.isMatch n .priorityOrdered) then
        let e ← v.fetch call n c
        let t ← v.divide c skip rest
        return { t with priority := e :: t.priority }
      else if ← always (v.isMatch n .ordered) then
        let t ← v.divide c skip rest
        return { t with ordered := n :: t.ordered }
      else
        let t ← v.divide c skip rest
        return { t with unordered := n :: t.unordered }

end View

end Startup
