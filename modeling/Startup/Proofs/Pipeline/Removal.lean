import Startup.Proofs.Pipeline.Rounds
import Startup.Proofs.Pipeline.Sources

/-!
Extensions that are removed or replaced while a run of the pipeline is under way.

A tier is fetched as a whole before its first callback. A tier of definition mutators is asked for
when its turn comes, so what was removed by then is not executed; but a callback that removes
another member of its own tier comes too late. The factory mutators are asked for only once, before
their first tier; a factory callback that removes one of a later tier makes the run fail when that
tier is fetched.

Main statement: `removal_tolerated`. While factories and interceptors change no definition and
instances are what their definitions declare, a run whose callbacks succeed executes what was
supplied and what it has fetched, and can fail in two ways only: with a factory mutator that was
removed after they were asked for, or because it began inside of the creation of an extension.
-/

namespace Startup

variable {H : Host} {σ : Type}

/-! ## What is asked for at each fetch -/

/-- The run has asked for the factory mutators, right after `early`. -/
def Journal.Asked (v : View) (early past : Journal H) : Prop :=
  ∃ mid, past = early ++ .fact (.querying v .factoryMutator true false) :: mid

/-- A factory mutator that was listed right after `early`, in a later tier than the first. -/
def Journal.Later (v : View) (s : Registry H) (early : Journal H) (n : ComponentName) : Prop :=
  n ∈ (s.through v.registry early).namesFor .factoryMutator true ∧
    (s.through v.registry early).tierOf n ≠ .priority

/-- The run has asked for the factory mutators, and these of the later tiers are still to come. -/
def Journal.Waiting (v : View) (s : Registry H) (early : Journal H) (names : List ComponentName)
    (past : Journal H) : Prop :=
  Asked v early past ∧ ∀ n ∈ names, Later v s early n

namespace Fetching

variable {v : View} {s : Registry H}

/-- The factory mutator was listed when the run asked for them, in a later tier than the first, and
has been revised since then, so that it is not offered any more. -/
def Lapsed (v : View) (s : Registry H) (f : Fetching H) : Prop :=
  f.capability = .factoryMutator ∧ (f.now v.registry s).offers f.name .factoryMutator = false ∧
    ∃ early mid, f.before = early ++ .fact (.querying v .factoryMutator true false) :: mid ∧
      Journal.Later v s early f.name ∧ ¬ Unrevised v.registry f.name (Journal.moments mid)

/-- What a run fetches is offered, or is a factory mutator that was listed earlier; and the fetch
fails only in the middle of its own creation, or for what is not offered. -/
structure Expected (v : View) (s : Registry H) (f : Fetching H) : Prop where
  asked : (f.now v.registry s).offers f.name f.capability = true ∨ f.Lapsed v s
  fails (y : DependencyError) (hy : f.answer = .error y) :
    f.Circular v.registry s y ∨ f.Gone v.registry s y

end Fetching

namespace Pipeline

open Stage (Walks Lasting)
open Journal (Asked Later Waiting)

variable {call : Call H σ} {v : View} {s : Registry H}

/-! ## The definition tiers -/

theorem lasting_true : Lasting (fun _ : Journal H => True) := fun _ _ _ => trivial

/-- All of some names are offered at the moment. -/
def AllOffered (v : View) (s : Registry H) (c : Capability) (names : List ComponentName)
    (past : Journal H) : Prop :=
  ∀ n ∈ names, (s.through v.registry past).offers n c = true

/-- One fetch, after which what was offered before is offered still. -/
theorem fetch_walks (hc : Closed call (fun {α} (x : Run H σ α) => Tracks v.registry x))
    (n : ComponentName) (c : Capability) {pre : Journal H → Prop} {B : Journal H → Prop}
    (hasked : ∀ w : World H σ, ∀ past, w.Stands v.registry s past → pre past →
      (s.through v.registry past).offers n c = true ∨
        ∀ x body, Fetching.Lapsed v s ⟨past, n, c, x, body⟩)
    (hpost : ∀ past j, pre past →
      (s.through v.registry past).Retains (s.through v.registry (past ++ j)) →
      B (past ++ j)) :
    Walks v s (Fetching.Expected v s) (Stage.attempt (v.fetch call n c)) pre fun _ => B where
  tracks i := hc.stage_attempt (hc.fetch v n c) i
  fetches {i i' w w' a past j} h hw hp hsound := by
    rw [Stage.on_attempt] at h
    obtain ⟨x, w₁, j₁, j₂, hfetch, hend, rfl⟩ := Run.bind_eq_some.1 h
    cases hend
    rw [List.append_nil] at hsound ⊢
    have hretains := View.fetch_retains hc hfetch hsound
    obtain ⟨body, rfl, hfails⟩ := View.fetch_fails hfetch hw hsound
    have hw' := (hc.fetch v n c).stands hfetch hw
    rw [hw.registry, hw'.registry] at hretains
    refine ⟨fun f hf => ?_, fun b _ => hpost past _ hp hretains⟩
    obtain rfl := List.mem_singleton.1 hf
    exact ⟨(hasked w past hw hp).imp id fun hlapsed => hlapsed x body, hfails⟩

/-- Looks that leave no trace. -/
theorem silent_walks {α : Type} {x : Stage H σ α} {P : Fetching H → Prop} {pre : Journal H → Prop}
    (hx : ∀ i, Tracks v.registry (x.on i))
    (h : ∀ i w p, x.on i w = some p → p.2.2 = []) : Walks v s P x pre fun _ => pre :=
  .of_unfetched hx fun i w a i' w' past j hrun _ hp => by
    obtain rfl : j = [] := h i w _ hrun
    exact ⟨.nil, fun _ _ => (List.append_nil past).symm ▸ hp⟩

theorem collect_walks (hc : Closed call (fun {α} (x : Run H σ α) => Tracks v.registry x))
    {wanted : ComponentName → Stage H σ Bool}
    (hwanted : ∀ n i, Tracks v.registry ((wanted n).on i))
    (hsilent : ∀ n i w p, (wanted n).on i w = some p → p.2.2 = []) (names : List ComponentName) :
    Walks v s (Fetching.Expected v s) (collect call v wanted names)
      (AllOffered v s .definitionMutator names) fun _ _ => True := by
  induction names with
  | nil => exact (Walks.pure []).mono (fun _ _ => trivial) fun _ _ _ => trivial
  | cons n rest ih =>
    refine .bind (silent_walks (hwanted n) (hsilent n)) fun answer => ?_
    split
    · refine .bind (M := fun _ => AllOffered v s .definitionMutator rest)
        (fetch_walks hc n _ (fun w past _ hp => .inl (hp n List.mem_cons_self))
          fun past j hp hretains k hk => hretains.offers (hp k (List.mem_cons_of_mem n hk)))
        fun e => ?_
      exact .bind (.edit _) fun _ => .bind ih fun es => .mono (.pure _) (fun _ => id) fun _ _ => id
    · exact ih.mono (fun past hp k hk => hp k (List.mem_cons_of_mem n hk)) fun _ _ => id

/-- The names that a query lists are offered. -/
theorem names_walks (c : Capability) {P : Fetching H → Prop} {pre : Journal H → Prop} :
    Walks v s P (Stage.always (v.names c true false) : Stage H σ _) pre
      fun names past => AllOffered v s c names past ∧ ∃ early,
        past = early ++ [.fact (.querying v c true false)] ∧
        names = (s.through v.registry early).namesFor c true := by
  have htracks : Tracks v.registry (v.names c true false : Run H σ _) :=
    (Tracks.record (by trivial)).bind fun _ => (Tracks.ask _).bind fun _ => Tracks.pure _
  refine .of_unfetched (fun i => ?_) fun i w a i' w' past j h hw _ => ?_
  · rw [Stage.on_always]
    exact htracks.bind fun _ => Tracks.pure _
  · rw [Stage.on_always] at h
    obtain ⟨names, w₁, j₁, j₂, h₁, h₂, rfl⟩ := Run.bind_eq_some.1 h
    have hw' := htracks.stands h₁ hw
    cases h₁
    cases h₂
    refine ⟨.fact _, fun b hb => ?_⟩
    cases hb
    refine ⟨fun n hn => ?_, past, rfl, ?_⟩
    · rw [List.append_nil, ← hw'.registry]
      exact Registry.offers_of_listed hn
    · rw [← hw.registry]

theorem collectNow_walks (hc : Closed call (fun {α} (x : Run H σ α) => Tracks v.registry x))
    {wanted : ComponentName → Stage H σ Bool}
    (hwanted : ∀ n i, Tracks v.registry ((wanted n).on i))
    (hsilent : ∀ n i w p, (wanted n).on i w = some p → p.2.2 = []) {pre : Journal H → Prop} :
    Walks v s (Fetching.Expected v s) (collectNow call v wanted) pre fun _ _ => True :=
  .bind (names_walks .definitionMutator) fun names =>
    (collect_walks hc hwanted hsilent names).mono (fun _ hp => hp.1) fun _ _ => id

theorem isMatch_silent (n : ComponentName) (c : Capability) (i : Invocation) (w : World H σ)
    (p : (Except ExtensionError Bool × Invocation) × World H σ × Journal H)
    (h : (Stage.always (v.isMatch n c) : Stage H σ Bool).on i w = some p) : p.2.2 = [] := by
  cases h
  rfl

theorem isProcessed_silent (n : ComponentName) (i : Invocation) (w : World H σ)
    (p : (Except ExtensionError Bool × Invocation) × World H σ × Journal H)
    (h : (isNew n : Stage H σ Bool).on i w = some p) : p.2.2 = [] := by
  cases h
  rfl

theorem isOrdered_silent (n : ComponentName) (i : Invocation) (w : World H σ)
    (p : (Except ExtensionError Bool × Invocation) × World H σ × Journal H)
    (h : (isOrdered v n : Stage H σ Bool).on i w = some p) : p.2.2 = [] := by
  rw [isOrdered, Stage.on_bind, Stage.on_isProcessed, pure_bind] at h
  cases hprocessed : decide (n ∈ i.processed) with
  | true =>
    rw [hprocessed] at h
    cases h
    rfl
  | false =>
    rw [hprocessed] at h
    exact isMatch_silent n .ordered i w p h

/-- The tiers of definition mutators fetch what is registered when their turn comes. -/
theorem mutateDefinitions_walks
    (hc : Closed call (fun {α} (x : Run H σ α) => Tracks v.registry x)) (depth : Nat)
    (supplied : List (Extension H)) :
    Walks v s (Fetching.Expected v s) (mutateDefinitions call v depth supplied)
      (fun _ => True) fun _ _ => True := by
  have hround :
      Walks v s (Fetching.Expected v s) (round call v) (fun _ => True) fun _ _ => True := by
    refine .bind (.edit _) fun _ => ?_
    refine .bind (collectNow_walks hc (hc.isNew) isProcessed_silent) fun found => ?_
    split
    · exact .pure none
    · refine .bind .get fun _ => .bind (.record lasting_true trivial) fun _ => ?_
      exact .bind (.runTier lasting_true hc found) fun _ => .pure _
  have hrounds (k : Nat) :
      Walks v s (Fetching.Expected v s) (fixedPoint call v k) (fun _ => True) fun _ _ => True := by
    induction k with
    | zero =>
      exact .of_unfetched (fun i => hc.stage_always Tracks.exceeded i)
        fun i w a i' w' past j h _ _ => by cases h
    | succ k ih =>
      refine .bind hround fun tier => ?_
      cases tier with
      | none => exact .pure []
      | some tier => exact .bind ih fun _ => .pure _
  refine .bind ?_ fun p => .bind (hrounds depth) fun _ => .pure _
  refine .bind (.enter lasting_true _) fun _ => ?_
  refine .bind (.separate lasting_true hc supplied) fun _ => ?_
  refine .bind (.enter lasting_true _) fun _ => ?_
  refine .bind (collectNow_walks hc (hc.isPriority v) fun n => isMatch_silent n _) fun found => ?_
  refine .bind (.runTier lasting_true hc found) fun _ => .bind (.enter lasting_true _) fun _ => ?_
  refine .bind (collectNow_walks hc (hc.isOrdered v) isOrdered_silent) fun found => ?_
  refine .bind (.runTier lasting_true hc found) fun _ => .bind (.enter lasting_true _) fun _ => ?_
  exact .pure _

/-! ## The factory tiers -/

theorem lasting_waiting (early : Journal H) (names : List ComponentName) :
    Lasting (Waiting v s early names) := by
  rintro past j ⟨⟨mid, rfl⟩, hnames⟩
  exact ⟨⟨mid ++ j, by simp⟩, hnames⟩

/-- A name that waits is offered still, or was revised meanwhile. -/
theorem waiting_asked {early past : Journal H} {names : List ComponentName} {n : ComponentName}
    {w : World H σ} (hw : w.Stands v.registry s past) (h : Waiting v s early names past)
    (hn : n ∈ names) :
    (s.through v.registry past).offers n .factoryMutator = true ∨
      ∀ x body, Fetching.Lapsed v s ⟨past, n, .factoryMutator, x, body⟩ := by
  obtain ⟨⟨mid, rfl⟩, hnames⟩ := h
  obtain ⟨hlisted, htier⟩ := hnames n hn
  by_cases hrevised : Unrevised v.registry n (Journal.moments mid)
  · refine .inl (hw.offers ?_ (Registry.offers_of_listed hlisted))
    exact List.forall_mem_cons.2 ⟨id, hrevised⟩
  · cases hoffers : (s.through v.registry
        (early ++ .fact (.querying v .factoryMutator true false) :: mid)).offers n
          .factoryMutator with
    | true => exact .inl rfl
    | false => exact .inr fun x body => ⟨rfl, hoffers, early, mid, rfl, ⟨hlisted, htier⟩, hrevised⟩

theorem fetchAll_walks (hc : Closed call (fun {α} (x : Run H σ α) => Tracks v.registry x))
    {early : Journal H} {all names : List ComponentName} (hnames : ∀ n ∈ names, n ∈ all) :
    Walks v s (Fetching.Expected v s) (Stage.attempt (v.fetchAll call .factoryMutator names))
      (Waiting v s early all) fun _ => Waiting v s early all := by
  induction names with
  | nil => exact .pure []
  | cons n rest ih =>
    obtain ⟨hn, hrest⟩ := List.forall_mem_cons.1 hnames
    simp only [View.fetchAll, Stage.attempt_bind, Stage.attempt_pure]
    refine .bind (fetch_walks hc n _ (fun w past hw hp => waiting_asked hw hp hn)
      fun past j hp _ => lasting_waiting early all past j hp) fun e => ?_
    exact .bind (ih hrest) fun es => .pure _

theorem runFactoryTier_walks
    (hc : Closed call (fun {α} (x : Run H σ α) => Tracks v.registry x)) {early : Journal H}
    {all names : List ComponentName} (hnames : ∀ n ∈ names, n ∈ all) :
    Walks v s (Fetching.Expected v s) (runFactoryTier call v names)
      (Waiting v s early all) fun _ => Waiting v s early all :=
  .bind (fetchAll_walks hc hnames) fun tier => .bind (.sort (lasting_waiting early all) hc tier)
    fun sorted => .callFactories (lasting_waiting early all) hc sorted

/-- Names that were listed right after `early`, and nothing was changed since. -/
def Fresh (v : View) (s : Registry H) (early : Journal H) (names : List ComponentName)
    (past : Journal H) : Prop :=
  Asked v early past ∧ (s.through v.registry early).Retains (s.through v.registry past) ∧
    ∀ n ∈ names, n ∈ (s.through v.registry early).namesFor .factoryMutator true

theorem isMatch_walks (n : ComponentName) (c : Capability) {P : Fetching H → Prop}
    {pre : Journal H → Prop} :
    Walks v s P (Stage.always (v.isMatch n c) : Stage H σ _) pre
      fun b past => b = (s.through v.registry past).isMatch n c ∧ pre past := by
  have htracks : Tracks v.registry (v.isMatch n c : Run H σ _) :=
    (Tracks.ask _).bind fun _ => Tracks.pure _
  refine .of_unfetched (fun i => ?_) fun i w a i' w' past j h hw hp => ?_
  · rw [Stage.on_always]
    exact htracks.bind fun _ => Tracks.pure _
  · cases h
    refine ⟨.nil, fun b hb => ?_⟩
    cases hb
    refine ⟨?_, (List.append_nil past).symm ▸ hp⟩
    show (w.registries.get v.registry).isMatch n c = (s.through v.registry (past ++ [])).isMatch n c
    rw [List.append_nil, hw.registry]

/-- The names that are not fetched at once are those that wait. -/
theorem divide_walks (hc : Closed call (fun {α} (x : Run H σ α) => Tracks v.registry x))
    {early : Journal H} (skip : ComponentName → Bool) (names : List ComponentName) :
    Walks v s (Fetching.Expected v s)
      (Stage.attempt (v.divide call .factoryMutator skip names)) (Fresh v s early names)
      fun t => Waiting v s early (t.ordered ++ t.unordered) := by
  have hkeeps {past : Journal H} {n : ComponentName} {rest : List ComponentName}
      (h : Fresh v s early (n :: rest) past) : Fresh v s early rest past :=
    ⟨h.1, h.2.1, (List.forall_mem_cons.1 h.2.2).2⟩
  induction names with
  | nil => exact .done _ fun past hp => ⟨hp.1, fun _ hn => absurd hn List.not_mem_nil⟩
  | cons n rest ih =>
    unfold View.divide
    split
    · exact ih.mono (fun _ => hkeeps) fun _ _ => id
    simp only [Stage.attempt_bind, Stage.attempt_always]
    refine .bind (isMatch_walks n .priorityOrdered) fun first => ?_
    cases first with
    | true =>
      simp only [if_true, Stage.attempt_bind, Stage.attempt_pure]
      refine .bind (fetch_walks (B := Fresh v s early rest) hc n _ ?_ ?_) fun e => ?_
      · rintro w past hw ⟨-, -, hretains, hlisted⟩
        have hn := hlisted n List.mem_cons_self
        exact .inl (hretains.offers (Registry.offers_of_listed hn))
      · rintro past j ⟨-, ⟨mid, rfl⟩, hretains, hlisted⟩ hlater
        exact ⟨⟨mid ++ j, by simp⟩, hretains.trans hlater, (List.forall_mem_cons.1 hlisted).2⟩
      · exact .bind ih fun t => .done _ fun _ => id
    | false =>
      -- the tier is read off the registry now, which declares what it did when names were listed
      have hlater : ∀ past, false = (s.through v.registry past).isMatch n .priorityOrdered ∧
          Fresh v s early (n :: rest) past → Later v s early n ∧ Fresh v s early rest past := by
        rintro past ⟨hnow, hp⟩
        have hn := hp.2.2 n List.mem_cons_self
        rw [hp.2.1.isMatch hn] at hnow
        refine ⟨⟨hn, ?_⟩, hkeeps hp⟩
        rw [Registry.tierOf, ← hnow]
        simp only [Bool.false_eq_true, if_false]
        split <;> simp
      simp only [Bool.false_eq_true, if_false, Stage.attempt_bind, Stage.attempt_always]
      refine .mono (.bind (isMatch_walks n .ordered) fun second => ?_) hlater fun _ _ => id
      have hrest (b : Bool) := (ih.frame (Later v s early n)).mono
        (fun past (hp : b = (s.through v.registry past).isMatch n .ordered ∧
          Later v s early n ∧ Fresh v s early rest past) => hp.2) fun _ _ => id
      cases second with
      | true =>
        simp only [if_true, Stage.attempt_bind, Stage.attempt_pure]
        refine .bind (hrest _) fun t => .done _ ?_
        rintro past ⟨hn, hasked, hnames⟩
        exact ⟨hasked, List.forall_mem_cons.2 ⟨hn, hnames⟩⟩
      | false =>
        simp only [Bool.false_eq_true, if_false, Stage.attempt_bind, Stage.attempt_pure]
        refine .bind (hrest _) fun t => .done _ ?_
        rintro past ⟨hn, hasked, hnames⟩
        refine ⟨hasked, fun k hk => ?_⟩
        rcases List.mem_append.1 hk with hordered | hunordered
        · exact hnames k (List.mem_append_left _ hordered)
        · rcases List.mem_cons.1 hunordered with rfl | hunordered
          · exact hn
          · exact hnames k (List.mem_append_right _ hunordered)

/-- The factory mutators are asked for once, and fetched tier by tier. -/
theorem mutateFactory_walks
    (hc : Closed call (fun {α} (x : Run H σ α) => Tracks v.registry x)) :
    Walks v s (Fetching.Expected v s) (mutateFactory call v) (fun _ => True) fun _ _ => True := by
  refine .bind (.enter lasting_true _) fun _ => .bind (names_walks .factoryMutator) fun names => ?_
  refine .mono (A := fun past => ∃ early, Fresh v s early names past)
    (.exists_pre fun early => ?_) ?_ (B := fun _ _ => True) fun _ _ _ => trivial
  · refine .bind .get fun i => .bind (divide_walks hc _ names) fun tiers => ?_
    refine .mono (B := fun _ => Waiting v s early (tiers.ordered ++ tiers.unordered)) ?_
      (fun _ => id) fun _ _ _ => trivial
    have hlasting := lasting_waiting (v := v) (s := s) early (tiers.ordered ++ tiers.unordered)
    refine .bind (.record hlasting trivial) fun _ => .bind (.sort hlasting hc _) fun sorted => ?_
    refine .bind (.callFactories hlasting hc sorted) fun _ => ?_
    refine .bind (runFactoryTier_walks hc fun n => List.mem_append_left _) fun _ => ?_
    exact runFactoryTier_walks hc fun n => List.mem_append_right _
  · rintro past ⟨hoffered, early, rfl, rfl⟩
    have hsame : s.through v.registry (early ++ [.fact (.querying v .factoryMutator true false)]) =
        s.through v.registry early := by
      rw [Registry.through, Journal.moments_append, Ledger.after_append]
      rfl
    exact ⟨early, ⟨[], rfl⟩, hsame ▸ .refl, fun _ => id⟩

/-- All fetches of a run are as expected. -/
theorem steps_walks (hc : Closed call (fun {α} (x : Run H σ α) => Tracks v.registry x))
    (depth : Nat) (supplied : List (Extension H)) :
    Walks v s (Fetching.Expected v s) (steps call v depth supplied) (fun _ => True)
      fun _ _ => True := by
  have hclear : Walks v s (Fetching.Expected v s) (Stage.always v.clearCache : Stage H σ Unit)
      (fun _ => True) fun _ _ => True :=
    .always lasting_true (Tracks.clearCache v) fun w a w' j h => by
      rw [View.clearCache_run] at h
      cases h
      exact .append (.fact _) (.fact _)
  unfold steps
  split
  · refine .bind (mutateDefinitions_walks hc depth supplied) fun p => ?_
    refine .bind (.enter lasting_true _) fun _ => ?_
    refine .bind (.callFactories lasting_true hc _) fun _ => ?_
    refine .bind (.callFactories lasting_true hc _) fun _ => ?_
    exact .bind (mutateFactory_walks hc) fun _ => hclear
  · refine .bind (.edit _) fun _ => .bind (.record lasting_true trivial) fun _ => ?_
    refine .bind (.enter lasting_true _) fun _ => ?_
    refine .bind (.callFactories lasting_true hc _) fun _ => ?_
    exact .bind (mutateFactory_walks hc) fun _ => hclear

theorem finish_walks (r : Except ExtensionError Unit) :
    Walks v s (Fetching.Expected v s) (finish r : Stage H σ Unit) (fun _ => True)
      fun _ _ => True := by
  cases r with
  | ok _ =>
    refine .bind (.enter lasting_true _) fun _ => .bind .get fun _ => ?_
    exact .record lasting_true trivial
  | error e =>
    refine .bind .get fun _ => .bind (.enter lasting_true _) fun _ => ?_
    exact .record lasting_true trivial

/-! ## A whole run -/

/-- What a run does with extensions that come and go while it is under way, if it began with
registry `s`. -/
structure Tolerated (v : View) (s : Registry H) (supplied : List (Extension H))
    (result : Except ExtensionError Unit) (body : Journal H) : Prop where
  /-- Whatever is executed was supplied, or was fetched before. -/
  sources (past later : Journal H) (x : Event H) (hbody : body = past ++ x :: later)
    (p : MutationPhase) (e : Extension H) (f? : Option Failure)
    (hx : x.deed? = some (.called p e f?)) :
    e ∈ supplied ∨ ∃ f ∈ Journal.fetchings [] past, f.answer = .ok e
  /-- Whatever is fetched is registered with the capability at that moment, or it is a factory
  mutator of a later tier that was listed before the first one and revised since then. -/
  asked : ∀ f ∈ Journal.fetchings [] body,
    (f.now v.registry s).offers f.name f.capability = true ∨ f.Lapsed v s
  /-- A run that succeeds has executed all that it fetched. -/
  executes (hok : result = .ok ()) : ∀ f ∈ Journal.fetchings [] body, ∃ p e,
    f.answer = .ok e ∧ f.capability = p.capability ∧ .called p e none ∈ Journal.deeds body
  /-- A run fails only when it fetches a factory mutator that is not offered any more, or an
  extension in the middle of whose creation it began. -/
  ends : result = .ok () ∨ ∃ f ∈ Journal.fetchings [] body, ∃ y,
    f.answer = .error y ∧ result = .error (.dependency y) ∧
      (f.Circular v.registry s y ∨ f.Lapsed v s ∧ f.Gone v.registry s y)

theorem invoke_expected (hc : Closed call (fun {α} (x : Run H σ α) => Tracks v.registry x))
    {depth : Nat} {supplied : List (Extension H)} {w w' : World H σ}
    {result : Except ExtensionError Unit} {report : Report} {scope : Scope H} {body : Journal H}
    (h : invoke call v depth supplied w = some ((result, report), w', [.scope scope body]))
    (hsound : ∀ f ∈ Journal.fetchings [] body,
      f.Sound v.registry (w.registries.get v.registry)) :
    ∀ f ∈ Journal.fetchings [] body, f.Expected v (w.registries.get v.registry) := by
  obtain ⟨i, w₁, j₁, i', j₂, hsteps, hfinish, -, hj⟩ := invoke_parts h
  obtain ⟨-, rfl⟩ := Event.scope.inj (List.cons.inj hj).1
  have hstart := World.Stands.start v.registry w
  have hstarted : w.Stands v.registry (w.registries.get v.registry)
      ([] ++ [.fact (.pipelineStarted supplied.length)]) :=
    (Tracks.record (f := .pipelineStarted supplied.length) trivial).stands rfl hstart
  rw [← List.singleton_append, Journal.forall_fetchings_append,
    Journal.forall_fetchings_append] at hsound ⊢
  obtain ⟨hnone, hsound₁, hsound₂⟩ := hsound
  have hfirst := steps_walks (s := w.registries.get v.registry) hc depth supplied
  refine ⟨fun f hf => absurd hf List.not_mem_nil,
    (hfirst.fetches hsteps hstarted trivial hsound₁).1, ?_⟩
  exact ((finish_walks result).fetches hfinish ((hfirst.tracks {}).stands hsteps hstarted) trivial
    hsound₂).1

/-- A run in which all callbacks succeed fails only by a fetch. -/
theorem invoke_unfetched {depth : Nat} {supplied : List (Extension H)} {w w' : World H σ}
    {x : ExtensionError} {report : Report} {scope : Scope H} {body : Journal H}
    (h : invoke call v depth supplied w = some ((.error x, report), w', [.scope scope body]))
    (hsucceeds : body.Succeeds) :
    ∃ f ∈ Journal.fetchings [] body, ∃ y, f.answer = .error y ∧ x = .dependency y := by
  obtain ⟨d, hmem, herror⟩ := invoke_failed h
  obtain ⟨p, e, failure, rfl, -⟩ | ⟨n, c, y, rfl, rfl⟩ := Deed.error?_eq_some.1 herror
  · cases hsucceeds.deed hmem
  · obtain ⟨f, hf, -, -, hanswer⟩ := Journal.mem_fetchings_of_deed [] hmem
    exact ⟨f, hf, y, hanswer, rfl⟩

/-- Of a run in which no callback fails, no factory or interceptor that it calls for a fetch
changes a definition, and each fetched instance supports what its definition declares. It executes
what was supplied and what it has fetched, and whatever it fetches is registered at that moment; so
what was removed before its tier was fetched is not executed. An exception are factory mutators of
the later tiers, which were listed before the first one. The run succeeds, unless one of these is
not offered any more when it is fetched, or an extension is fetched in the middle of its own
creation, in which the run began. And it comes to an end if its callbacks do and the definition
mutators that its rounds can find have names in a finite set.

Of callbacks it is required that the journal tells what they do to the registry, as those of every
behaviour do (`Tracks.behaviour`). -/
theorem removal_tolerated (call : Call H σ) (v : View) (hcall : ∀ cb, Tracks v.registry (call cb))
    (supplied : List (Extension H)) (w : World H σ) :
    (∀ depth result report w' scope (body : Journal H),
      invoke call v depth supplied w = some ((result, report), w', [.scope scope body]) →
      body.Succeeds → (∀ f ∈ Journal.fetchings [] body, f.body.Stable v.registry) →
      (∀ f ∈ Journal.fetchings [] body,
        f.honest v.registry (w.registries.get v.registry) = true) →
      Tolerated v (w.registries.get v.registry) supplied result body) ∧
    ∀ S, ListedIn call v supplied w S → (∀ cb w₁, (call cb w₁).isSome = true) →
      (invoke call v (S.card + 1) supplied w).isSome = true := by
  refine ⟨fun depth result report w' scope body h hsucceeds hstable hhonest => ?_,
    fun S hS htotal => invoke_total htotal hS⟩
  have hexpected := invoke_expected (Tracks.closed hcall) h
    fun f hf => ⟨hsucceeds.fetching hf, hstable f hf, hhonest f hf⟩
  refine ⟨fun past later x hbody p e f? hx => invoke_sources h hbody hx,
    fun f hf => (hexpected f hf).asked, ?_, ?_⟩
  · rintro rfl f hf
    obtain ⟨body', hbody, hconduct⟩ := invoke_conduct h
    obtain ⟨-, rfl⟩ := Event.scope.inj (List.cons.inj hbody).1
    obtain ⟨b, hb, hsettled⟩ := hconduct.settled
    have hdeed := Journal.deed_of_mem_fetchings hf
    rw [← hb] at hdeed ⊢
    obtain ⟨p, e, hanswer, hcapability, hcalled⟩ := hsettled.executes hdeed
    exact ⟨p, e, hanswer, hcapability, hcalled⟩
  · cases result with
    | ok _ => exact .inl rfl
    | error x =>
      obtain ⟨f, hf, y, hanswer, rfl⟩ := invoke_unfetched h hsucceeds
      refine .inr ⟨f, hf, y, hanswer, rfl, ?_⟩
      rcases (hexpected f hf).fails y hanswer with hcircular | hgone
      · exact .inl hcircular
      · refine .inr ⟨(hexpected f hf).asked.resolve_left ?_, hgone⟩
        rw [hgone.1]
        simp

end Pipeline

/-! ## Callbacks that end -/

theorem Tracks.completed {r : ObjectId} {call : Call H σ} (hcall : ∀ cb, Tracks r (call cb))
    (answer : (cb : Callback H) → cb.Answer) (cb : Callback H) :
    Tracks r (call.completed answer cb) := by
  intro l w a w' j h hl
  unfold Call.completed at h
  cases hended : call cb w with
  | none =>
    rw [hended] at h
    cases h
    exact Ledger.Leads.nil hl
  | some p =>
    rw [hended] at h
    exact hcall cb l w a w' j (hended.trans h) hl

/-! ## Extensions that remove others -/

namespace Scenario

theorem patient_tracks (r : ObjectId) (cb : Callback Scripted) : Tracks r (patient cb) :=
  Tracks.completed (Tracks.behaviour behaviour 3).call unanswered cb

/-- A factory mutator with a callback of its own. -/
def factorySpec (name : String) (tier : OrderTier) (factory : List Step) : DefinitionSpec :=
  .mk name .extension [.factoryMutator] tier .application .singleton false [] []
    (.extension name tier { factoryMutator := true } false [] factory [] [] [] [])

/-- What is seen of a run: the text of its error, its report, and what is registered after it. -/
structure Sight where
  text? : Option String := none
  report : Report
  left : List String
  deriving DecidableEq

/-- The run that begins in a world, if no callback of it failed, its fetches left definitions alone
and instances are what they are declared to be. -/
def seen? (w : World Scripted Memory) : Option Sight :=
  match Pipeline.invoke patient (.direct Setup.base) 3 [] w with
  | some ((result, report), w', [.scope _ body]) =>
    if Journal.Succeeds body ∧
        (∀ f ∈ Journal.fetchings [] body, Journal.Stable Setup.base f.body) ∧
        ∀ f ∈ Journal.fetchings [] body,
          f.honest Setup.base (w.registries.get Setup.base) = true then
      some
        { text? := (Pipeline.error? result).map (·.message)
          report
          left := (w'.registries.get Setup.base).definitions.keys.map (·.text) }
    else none
  | _ => none

/-- The run that begins in a world is seen so, and is one that `removal_tolerated` speaks of. -/
structure Shows (w : World Scripted Memory) (x : Sight) (result : Except ExtensionError Unit)
    (body : Journal Scripted) : Prop where
  run : ∃ w' scope, Pipeline.invoke patient (.direct Setup.base) 3 [] w =
      some ((result, x.report), w', [.scope scope body]) ∧
    x.left = (w'.registries.get Setup.base).definitions.keys.map (·.text)
  succeeds : body.Succeeds
  stable : ∀ f ∈ Journal.fetchings [] body, f.body.Stable Setup.base
  honest : ∀ f ∈ Journal.fetchings [] body,
    f.honest Setup.base (w.registries.get Setup.base) = true
  text : (Pipeline.error? result).map (·.message) = x.text?

theorem exists_shows {w : World Scripted Memory} {x : Sight} (h : seen? w = some x) :
    ∃ result body, Shows w x result body := by
  unfold seen? at h
  split at h
  · rename_i result report w' scope body hrun
    split at h
    · rename_i hall
      cases h
      exact ⟨result, body, ⟨w', scope, hrun, rfl⟩, hall.1, hall.2.1, hall.2.2, rfl⟩
    · cases h
  · cases h

theorem exists_shows_ok {w : World Scripted Memory} {report : Report} {left : List String}
    (h : seen? w = some { report, left }) : ∃ body, Shows w { report, left } (.ok ()) body := by
  obtain ⟨result, body, hshows⟩ := exists_shows h
  cases result with
  | error x => cases hshows.text
  | ok _ => exact ⟨body, hshows⟩

def removing (name : String) : List Step := [.mk {} (.perform .quiet (.remove name))]

/-- A definition mutator that removes another one in its callback. -/
def removerSpec (tier : OrderTier) : DefinitionSpec :=
  extensionSpec "first" .definitionMutator tier { definitionMutator := true } (removing "second")

def removedSpec (tier : OrderTier) : DefinitionSpec :=
  extensionSpec "second" .definitionMutator tier { definitionMutator := true } []

/-- A definition mutator of the first tier removes one of the second. -/
def removingWorld : World Scripted Memory :=
  (Setup.world {}).setRegistry Setup.base
    ((({} : Registry Scripted).define (removerSpec (.priority 1)).toDefinition).define
      (removedSpec (.ordered 1)).toDefinition)

def removingNames : Finset ComponentName := {⟨"first"⟩, ⟨"second"⟩}

theorem removingNames_listed :
    Pipeline.ListedIn patient (.direct Setup.base) [] removingWorld removingNames :=
  .of_rehearsal (k := 3) (by decide +kernel)

def removingSight : Sight where
  report := { definitionCalls := ["first"], factoryCalls := ["first"], rounds := 1, phase := .done }
  left := ["first"]

theorem removingWorld_seen : seen? removingWorld = some removingSight := by decide +kernel

/-- What is removed before its tier is fetched is not executed. -/
theorem removingWorld_tolerated :
    (∃ body, Shows removingWorld removingSight (.ok ()) body ∧
      Pipeline.Tolerated (.direct Setup.base) (removingWorld.registries.get Setup.base) []
        (.ok ()) body) ∧
    (Pipeline.invoke patient (.direct Setup.base) 3 [] removingWorld).isSome = true := by
  obtain ⟨htolerated, htotal⟩ := Pipeline.removal_tolerated patient (.direct Setup.base)
    (patient_tracks Setup.base) [] removingWorld
  refine ⟨?_, htotal removingNames removingNames_listed (Call.completed_isSome _ _)⟩
  obtain ⟨body, hshows⟩ := exists_shows_ok removingWorld_seen
  obtain ⟨w', scope, hrun, -⟩ := hshows.run
  exact ⟨body, hshows,
    htolerated _ _ _ _ _ _ hrun hshows.succeeds hshows.stable hshows.honest⟩

/-- A definition mutator removes one that comes after it in the same tier. -/
def siblingWorld : World Scripted Memory :=
  (Setup.world {}).setRegistry Setup.base
    ((({} : Registry Scripted).define (removerSpec (.priority 1)).toDefinition).define
      (removedSpec (.priority 2)).toDefinition)

/-- A factory mutator of the first tier removes one of the second. -/
def lapsingWorld : World Scripted Memory :=
  (Setup.world {}).setRegistry Setup.base
    ((({} : Registry Scripted).define
      (factorySpec "first" (.priority 1) (removing "second")).toDefinition).define
        (factorySpec "second" (.ordered 1) []).toDefinition)

/-- A definition mutator that is being created while the run begins. -/
def creatingWorld : World Scripted Memory :=
  (Setup.world {}).setRegistry Setup.base
    ((({} : Registry Scripted).define (extensionSpec "first" .definitionMutator (.priority 1)
      { definitionMutator := true } []).toDefinition).beginCreation ⟨"first"⟩)

/-- A run in a world fails with a text, although all callbacks succeed, its fetches leave
definitions alone and instances are what they are declared to be. -/
def FailsWith (w : World Scripted Memory) (text : String) : Prop :=
  ∃ x e body, x.text? = some text ∧ Shows w x (.error e) body

theorem failsWith_of_seen {w : World Scripted Memory} {text : String}
    (h : (seen? w).bind (·.text?) = some text) : FailsWith w text := by
  obtain ⟨x, hx, htext⟩ := Option.bind_eq_some_iff.1 h
  obtain ⟨result, body, hshows⟩ := exists_shows hx
  cases result with
  | ok _ => cases hshows.text.trans htext
  | error e => exact ⟨x, e, body, htext, hshows⟩

/-- The three ways in which a removal is not tolerated, or a run fails without one. A mutator that
another one of its tier has removed is executed although it is not registered any more; a run fails
if it has removed a factory mutator of a later tier; and it fails if it fetches an extension in the
middle of whose creation it began. -/
theorem removal_not_tolerated :
    (∃ report body, Shows siblingWorld { report, left := ["first"] } (.ok ()) body ∧
      report.definitionCalls = ["first", "second"]) ∧
    FailsWith lapsingWorld "组件未注册: second" ∧
    FailsWith creatingWorld "循环依赖检测到: first -> first" := by
  refine ⟨?_, failsWith_of_seen (by decide +kernel), failsWith_of_seen (by decide +kernel)⟩
  have hseen : seen? siblingWorld = some
      { report := { definitionCalls := ["first", "second"], factoryCalls := ["first", "second"]
                    rounds := 1, phase := .done }
        left := ["first"] } := by
    decide +kernel
  obtain ⟨body, hshows⟩ := exists_shows_ok hseen
  exact ⟨_, body, hshows, rfl⟩

end Scenario

end Startup
