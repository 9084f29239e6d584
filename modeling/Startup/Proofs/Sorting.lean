import Mathlib.Data.List.Basic
import Startup.Scenario.Basic

/-!
Sorting by tier. A tier has a rank: one integer, so chosen that all priority tiers come before all
others and that the effective order values decide within each of these two groups. To compare tiers
is to compare their ranks. These are integers without a bound, so the smallest and the largest order
value need no care.

A stable sort is more than a sorted permutation: what compares equal stays in the order in which it
stood. There is only one list of which all this is true.

Main statement: `sort_by_tier`, that where no comparator is preferred, extensions are sorted stably
by their tiers.
-/

namespace Startup

variable {H : Host} {σ : Type}

/-! ## Ranks -/

namespace OrderTier

/-- The place of a tier among all tiers. Order values have 32 bits, so the last priority tier comes
before the first other one. -/
def rank (t : OrderTier) : Int := t.effectiveOrder.toInt + if t.isPriority then 0 else 4294967296

/-- Whoever may stand before another one has no greater rank. -/
theorem le_iff_rank_le (a b : OrderTier) : a.le b = true ↔ a.rank ≤ b.rank := by
  have ha := a.effectiveOrder.toInt_lt
  have ha' := a.effectiveOrder.le_toInt
  have hb := b.effectiveOrder.toInt_lt
  have hb' := b.effectiveOrder.le_toInt
  rw [le_iff, rank, rank]
  cases a.isPriority <;> cases b.isPriority <;> simp <;> omega

/-- To compare tiers is to compare their ranks. -/
theorem compare_eq_rank (a b : OrderTier) : a.compare b = Ord.compare a.rank b.rank := by
  have hab := le_iff_rank_le a b
  have hba := le_iff_rank_le b a
  rw [le] at hab
  rw [le, ← compare_swap] at hba
  cases h : a.compare b with
  | lt =>
    simp only [h, Ordering.swap_lt, Ordering.isLE_gt, Bool.false_eq_true, false_iff] at hba
    exact (Int.compare_eq_lt.2 (by omega)).symm
  | eq =>
    simp only [h, Ordering.swap_eq, Ordering.isLE_eq, true_iff] at hab hba
    exact (Int.compare_eq_eq.2 (by omega)).symm
  | gt =>
    simp only [h, Ordering.isLE_gt, Bool.false_eq_true, false_iff] at hab
    exact (Int.compare_eq_gt.2 (by omega)).symm

/-- Within the priority tier, and outside of it, the effective order values decide. -/
theorem effectiveOrder_le {a b : OrderTier} (hrank : a.rank ≤ b.rank)
    (hsame : a.isPriority = b.isPriority) : a.effectiveOrder ≤ b.effectiveOrder := by
  rw [rank, rank, hsame] at hrank
  rw [Int32.le_iff_toInt_le]
  omega

/-- What comes before a priority tier is one. -/
theorem isPriority_of_rank_le {a b : OrderTier} (hrank : a.rank ≤ b.rank)
    (hb : b.isPriority = true) : a.isPriority = true := by
  have hle := (le_iff a b).1 ((le_iff_rank_le a b).2 hrank)
  rcases hle with ⟨ha, -⟩ | ⟨hsame, -⟩
  · exact ha
  · rw [hsame, hb]

end OrderTier

/-! ## Stable sorts -/

namespace Comparator

/-- Neither of the two has to stand before the other. -/
def tied (c : Comparator H) (a b : Extension H) : Bool := c.le a b && c.le b a

/-- `s` is the list `l` in the order of a comparator, where extensions that are tied with each other
stand as they stood in `l`. -/
structure Sorts (c : Comparator H) (l s : List (Extension H)) : Prop where
  perm : s.Perm l
  sorted : s.Pairwise fun a b => c.le a b = true
  stable : ∀ x, s.filter (c.tied x) = l.filter (c.tied x)

namespace IsTotalPreorder

variable {c : Comparator H} {l s s' : List (Extension H)} (h : c.IsTotalPreorder)
include h

theorem refl (x : Extension H) : c.le x x = true := by
  simpa using h.total x x

theorem tied_self (x : Extension H) : c.tied x x = true := by
  simp [tied, h.refl x]

/-- Extensions that are tied with a third one may stand in any order. -/
theorem le_of_tied {x a b : Extension H} (ha : c.tied x a = true) (hb : c.tied x b = true) :
    c.le a b = true := by
  simp only [tied, Bool.and_eq_true] at ha hb
  exact h.trans a x b ha.2 hb.1

theorem pairwise_filter_tied (x : Extension H) (l : List (Extension H)) :
    (l.filter (c.tied x)).Pairwise fun a b => c.le a b = true := by
  apply List.pairwise_of_forall_mem_list
  intro a ha b hb
  exact h.le_of_tied (List.mem_filter.1 ha).2 (List.mem_filter.1 hb).2

/-- A permutation that is sorted, and keeps what was sorted already. -/
theorem sorts_of_sublist (hperm : s.Perm l) (hs : s.Pairwise fun a b => c.le a b = true)
    (hkeeps : ∀ k : List (Extension H), (k.Pairwise fun a b => c.le a b = true) → k.Sublist l →
      k.Sublist s) : c.Sorts l s where
  perm := hperm
  sorted := hs
  stable x := by
    have hkept := hkeeps _ (h.pairwise_filter_tied x l) List.filter_sublist
    have hclass : (l.filter (c.tied x)).Sublist (s.filter (c.tied x)) := by
      simpa using hkept.filter (c.tied x)
    have hlength := (hperm.filter (c.tied x)).length_eq
    exact (hclass.eq_of_length hlength.symm).symm

theorem sorts_sortBy (l : List (Extension H)) : c.Sorts l (c.sortBy l) :=
  h.sorts_of_sublist (c.sortBy_perm l) (sortBy_pairwise h l) fun _ => sublist_sortBy

/-- A sorted list is determined by its members and by the order of those that are tied. -/
theorem eq_of_sorted (hperm : s.Perm s') (hs : s.Pairwise fun a b => c.le a b = true)
    (hs' : s'.Pairwise fun a b => c.le a b = true)
    (hties : ∀ x, s.filter (c.tied x) = s'.filter (c.tied x)) : s = s' := by
  induction s generalizing s' with
  | nil => exact hperm.symm.eq_nil.symm
  | cons a s ih =>
    cases s' with
    | nil => exact hperm.eq_nil
    | cons b s' =>
      obtain ⟨ha, hs⟩ := List.pairwise_cons.1 hs
      obtain ⟨hb, hrest'⟩ := List.pairwise_cons.1 hs'
      -- either head may stand before the other, so they are tied, and each is the first of its tie
      have hab : c.le a b = true := by
        rcases List.mem_cons.1 (hperm.symm.subset List.mem_cons_self) with rfl | hmem
        · exact h.refl b
        · exact ha b hmem
      have hba : c.le b a = true := by
        rcases List.mem_cons.1 (hperm.subset List.mem_cons_self) with rfl | hmem
        · exact h.refl a
        · exact hb a hmem
      have htied : c.tied a b = true := by simp [tied, hab, hba]
      have hheads := hties a
      rw [List.filter_cons_of_pos (h.tied_self a), List.filter_cons_of_pos htied] at hheads
      obtain ⟨heq, -⟩ := List.cons.inj hheads
      subst heq
      have hrest : ∀ x, s.filter (c.tied x) = s'.filter (c.tied x) := by
        intro x
        have hx := hties x
        by_cases hxa : c.tied x a = true
        · simpa [List.filter_cons_of_pos hxa] using hx
        · simpa [List.filter_cons_of_neg hxa] using hx
      rw [ih hperm.cons_inv hs hrest' hrest]

theorem sorts_unique (hs : c.Sorts l s) (hs' : c.Sorts l s') : s = s' := by
  have hperm := hs.perm.trans hs'.perm.symm
  exact h.eq_of_sorted hperm hs.sorted hs'.sorted fun x => (hs.stable x).trans (hs'.stable x).symm

/-- Any other stable sort gives the same list. -/
theorem sortBy_eq_mergeSort (l : List (Extension H)) : c.sortBy l = l.mergeSort c.le :=
  h.sorts_unique (h.sorts_sortBy l) <| h.sorts_of_sublist (List.mergeSort_perm l c.le)
    (List.pairwise_mergeSort h.trans h.total l) fun _ => List.sublist_mergeSort h.trans h.total

end IsTotalPreorder

/-! ## The standard comparator -/

theorem standard_eq_rank (a b : Extension H) :
    standard a b = Ord.compare a.tier.rank b.tier.rank :=
  OrderTier.compare_eq_rank a.tier b.tier

theorem standard_swap (a b : Extension H) : (standard a b).swap = standard b a :=
  OrderTier.compare_swap a.tier b.tier

/-- Before, after and equal are transitive, each for itself. -/
theorem standard_trans {a b c : Extension H} {o : Ordering} (hab : standard a b = o)
    (hbc : standard b c = o) : standard a c = o := by
  rw [standard_eq_rank] at *
  cases o with
  | lt =>
    rw [Int.compare_eq_lt] at *
    omega
  | eq =>
    rw [Int.compare_eq_eq] at *
    omega
  | gt =>
    rw [Int.compare_eq_gt] at *
    omega

/-- Ties are between extensions that compare equal. -/
theorem tied_standard (a b : Extension H) :
    standard.tied a b = decide (standard a b = .eq) := by
  rw [tied, le, le, ← standard_swap a b]
  cases standard a b <;> rfl

end Comparator

/-! ## The order of tiers -/

/-- The extensions of the priority tier stand first. Among them, and among those that follow, the
effective order values do not decrease. -/
structure InTierOrder (s : List (Extension H)) : Prop where
  apart : s = s.filter (fun e => e.tier.isPriority) ++ s.filter (fun e => !e.tier.isPriority)
  priority : (s.filter fun e => e.tier.isPriority).Pairwise fun a b =>
    a.tier.effectiveOrder ≤ b.tier.effectiveOrder
  others : (s.filter fun e => !e.tier.isPriority).Pairwise fun a b =>
    a.tier.effectiveOrder ≤ b.tier.effectiveOrder

/-- If whatever comes before a member that has a property has it too, the members that have it stand
first. -/
theorem eq_filter_append_filter {α : Type} {p : α → Bool} {s : List α}
    (h : s.Pairwise fun a b => p b = true → p a = true) :
    s = s.filter p ++ s.filter fun a => !p a := by
  induction s with
  | nil => rfl
  | cons a s ih =>
    obtain ⟨ha, hs⟩ := List.pairwise_cons.1 h
    cases hp : p a with
    | true =>
      rw [List.filter_cons_of_pos hp, List.filter_cons_of_neg (by simp [hp]), List.cons_append,
        ← ih hs]
    | false =>
      have hnone : s.filter p = [] := by
        rw [List.filter_eq_nil_iff]
        intro b hb hpb
        have hpa := ha b hb hpb
        simp [hp] at hpa
      have hall := ih hs
      rw [hnone, List.nil_append] at hall
      rw [List.filter_cons_of_neg (by simp [hp]), hnone, List.filter_cons_of_pos (by simp [hp]),
        List.nil_append, ← hall]

theorem inTierOrder_of_sorted {s : List (Extension H)}
    (h : s.Pairwise fun a b => Comparator.standard.le a b = true) : InTierOrder s := by
  have hranks : s.Pairwise fun a b => a.tier.rank ≤ b.tier.rank :=
    h.imp fun {a b} hab => (OrderTier.le_iff_rank_le a.tier b.tier).1 hab
  have hgroup (p : Extension H → Bool)
      (hp : ∀ a b, p a = true → p b = true → a.tier.isPriority = b.tier.isPriority) :
      (s.filter p).Pairwise fun a b => a.tier.effectiveOrder ≤ b.tier.effectiveOrder := by
    apply (hranks.filter p).imp_of_mem
    intro a b ha hb hab
    exact OrderTier.effectiveOrder_le hab
      (hp a b (List.mem_filter.1 ha).2 (List.mem_filter.1 hb).2)
  constructor
  · exact eq_filter_append_filter (hranks.imp OrderTier.isPriority_of_rank_le)
  · exact hgroup _ fun a b ha hb => by rw [ha, hb]
  · exact hgroup _ fun a b ha hb => by simp_all

/-! ## Sorting -/

/-- Where no comparator is preferred, the standard one sorts. That a list of one extension or none
is left alone makes no difference. -/
theorem View.sort_standard {v : View} {l : List (Extension H)} {w : World H σ}
    (hnone : (v.comparator? : Run H σ _) w = some (none, w, [])) :
    v.sort l w = some (Comparator.standard.sortBy l, w, []) := by
  unfold View.sort
  by_cases hshort : l.length ≤ 1
  · rw [if_pos hshort]
    match l, hshort with
    | [], _ => rfl
    | [e], _ => rfl
  · rw [if_neg hshort, Run.bind_eq_some]
    exact ⟨none, w, [], [], hnone, rfl, rfl⟩

/-- The standard comparator is a total preorder: it is the comparison of ranks, which are integers;
swapped arguments swap the answer, and each of the three answers is transitive. An extension without
a tier counts as having the largest order value there is. Where the registry prefers no comparator,
sorting answers with the stable sort by the standard one, and with nothing else: the priority tier
stands first, effective order values do not decrease within it nor after it, and extensions that
compare equal stand as they stood. -/
theorem sort_by_tier (v : View) (l : List (Extension H)) (w : World H σ)
    (hnone : (v.comparator? : Run H σ _) w = some (none, w, [])) :
    (∀ a b : Extension H, Comparator.standard a b = Ord.compare a.tier.rank b.tier.rank) ∧
    (∀ a b : Extension H, (Comparator.standard a b).swap = Comparator.standard b a) ∧
    (∀ (a b c : Extension H) (o : Ordering), Comparator.standard a b = o →
      Comparator.standard b c = o → Comparator.standard a c = o) ∧
    (∀ n : Int32, n ≤ OrderTier.unordered.effectiveOrder) ∧
    ∃ s, v.sort l w = some (s, w, []) ∧
      Comparator.standard.Sorts l s ∧ (∀ s', Comparator.standard.Sorts l s' → s' = s) ∧
      InTierOrder s ∧
      ∀ x, s.filter (fun e => decide (Comparator.standard x e = .eq)) =
        l.filter fun e => decide (Comparator.standard x e = .eq) := by
  have hpreorder : (Comparator.standard : Comparator H).IsTotalPreorder :=
    Comparator.standard_isTotalPreorder
  have hsorts := hpreorder.sorts_sortBy l
  refine ⟨Comparator.standard_eq_rank, Comparator.standard_swap,
    fun a b c o => Comparator.standard_trans, ?_, ?_⟩
  · intro n
    have hn := n.toInt_lt
    rw [Int32.le_iff_toInt_le]
    show n.toInt ≤ 2 ^ 31 - 1
    omega
  · refine ⟨_, View.sort_standard hnone, hsorts, ?_, inTierOrder_of_sorted hsorts.sorted, ?_⟩
    · intro s' hs'
      exact hpreorder.sorts_unique hs' hsorts
    · intro x
      have hstable := hsorts.stable x
      have hties : Comparator.standard.tied x = fun e => decide (Comparator.standard x e = .eq) :=
        funext (Comparator.tied_standard x)
      rwa [hties] at hstable

/-! ### Six extensions of all tiers -/

namespace Scenario

/-- An extension of a tier that has no views. -/
def tiered (id : ObjectId) (name : String) (tier : OrderTier) : Extension Scripted :=
  { id, name, tier, views := {}, body := .code .minimal }

/-- Extreme order values, two extensions without a tier, and one that compares equal to them. -/
def mixedTiers : List (Extension Scripted) :=
  [tiered 2 "plain" .unordered, tiered 3 "largest" (.ordered Int32.maxValue),
    tiered 4 "late" (.priority Int32.maxValue), tiered 5 "smallest" (.ordered Int32.minValue),
    tiered 6 "early" (.priority Int32.minValue), tiered 7 "other" .unordered]

/-- Priority comes before the smallest other order value, and those without a tier stay around the
one that has the largest order value. -/
theorem mixedTiers_sorted :
    ∃ s, (View.direct Setup.base).sort mixedTiers (Setup.world {}) =
        some (s, Setup.world {}, []) ∧ InTierOrder s ∧
      s.map (·.name) = ["early", "late", "smallest", "plain", "largest", "other"] := by
  have hnone : ((View.direct Setup.base).comparator? : Run Scripted Memory _) (Setup.world {}) =
      some (none, Setup.world {}, []) := rfl
  obtain ⟨-, -, -, -, s, hsort, -, -, horder, -⟩ :=
    sort_by_tier (View.direct Setup.base) mixedTiers (Setup.world {}) hnone
  have hstandard : Comparator.standard.sortBy mixedTiers = s := by
    rw [View.sort_standard hnone] at hsort
    exact congrArg Prod.fst (Option.some.inj hsort)
  refine ⟨s, hsort, horder, ?_⟩
  rw [← hstandard]
  decide +kernel

end Scenario

end Startup
