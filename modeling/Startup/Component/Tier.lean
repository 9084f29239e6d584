/-!
Capabilities of extensions and their ordering tiers. A registry answers by capability which
components to look at, without creating any of them. Some capabilities bring another one along:
`Capability.implies` is that relation.

An extension is in the priority tier, in the ordered tier or in neither. Within a tier the smaller
order value comes first; whoever has none counts as having the largest.

Main statements: `compare_swap` and `le_trans`, by which `OrderTier.le` is a total preorder, and
`le_iff`, which says it in words.
-/

namespace Startup

inductive Capability where
  /-- May add, change and remove definitions. -/
  | definitionMutator
  /-- May adjust the container once the definitions are settled. -/
  | factoryMutator
  /-- Wraps every creation of a component. -/
  | lifecycleInterceptor
  /-- Also sees the definition of every component that is created. -/
  | mergeAwareInterceptor
  /-- Declared to belong to the priority tier. -/
  | priorityOrdered
  /-- Declared to belong to the ordered tier. -/
  | ordered
  deriving DecidableEq, Repr, Inhabited

namespace Capability

def all : List Capability :=
  [definitionMutator, factoryMutator, lifecycleInterceptor, mergeAwareInterceptor,
    priorityOrdered, ordered]

def name : Capability → String
  | definitionMutator => "DefinitionMutator"
  | factoryMutator => "FactoryMutator"
  | lifecycleInterceptor => "LifecycleInterceptor"
  | mergeAwareInterceptor => "MergeAwareInterceptor"
  | priorityOrdered => "PriorityOrdered"
  | ordered => "Ordered"

/-- Whoever has the first capability also has the second. -/
def implies (a b : Capability) : Bool :=
  a = b || match a, b with
    | definitionMutator, factoryMutator => true
    | mergeAwareInterceptor, lifecycleInterceptor => true
    | priorityOrdered, ordered => true
    | _, _ => false

theorem mem_all (c : Capability) : c ∈ all := by
  cases c <;> decide

end Capability

inductive OrderTier where
  | priority (order : Int32)
  | ordered (order : Int32)
  | unordered
  deriving DecidableEq, Repr, Inhabited

namespace OrderTier

/-- The order value of those that have none. -/
def lowestPrecedence : Int32 := Int32.maxValue

def order? : OrderTier → Option Int32
  | priority n | ordered n => some n
  | unordered => none

/-- The order value that takes part in comparisons. -/
def effectiveOrder (t : OrderTier) : Int32 := t.order?.getD lowestPrecedence

def isPriority : OrderTier → Bool
  | priority _ => true
  | _ => false

/-- The capability by which a definition declares the tier. -/
def capability? : OrderTier → Option Capability
  | priority _ => some .priorityOrdered
  | ordered _ => some .ordered
  | unordered => none

/-- The priority tier comes before all else, then the smaller order value. -/
def compare (a b : OrderTier) : Ordering :=
  (Ord.compare b.isPriority a.isPriority).then
    (Ord.compare a.effectiveOrder.toInt b.effectiveOrder.toInt)

/-- `a` may stand before `b`. -/
def le (a b : OrderTier) : Bool := (a.compare b).isLE

theorem compare_swap (a b : OrderTier) : (a.compare b).swap = b.compare a := by
  rw [compare, Ordering.swap_then, compare, Std.OrientedOrd.eq_swap (a := b.isPriority),
    Std.OrientedOrd.eq_swap (a := a.effectiveOrder.toInt)]
  simp

theorem le_iff (a b : OrderTier) :
    a.le b = true ↔ (a.isPriority = true ∧ b.isPriority = false) ∨
      (a.isPriority = b.isPriority ∧ a.effectiveOrder.toInt ≤ b.effectiveOrder.toInt) := by
  unfold le compare
  cases a.isPriority <;> cases b.isPriority <;>
    simp [Ord.compare, Ordering.then, compareOfLessAndEq] <;> (repeat' split) <;> simp_all <;>
    omega

theorem le_total (a b : OrderTier) : (a.le b || b.le a) = true := by
  rw [Bool.or_eq_true, le_iff, le_iff]
  cases a.isPriority <;> cases b.isPriority <;> simp <;> omega

theorem le_trans {a b c : OrderTier} (h : a.le b = true) (h' : b.le c = true) :
    a.le c = true := by
  rw [le_iff] at *
  grind

end OrderTier

end Startup
