import Startup.Proofs.Interceptor.Detection
import Startup.Proofs.Interceptor.Early

/-!
What a detector decides by. It is shown a definition when a creation begins, and asked about the
instance at the end; in between it keeps a mark under the name of the component. There is one mark
for each name, whatever the number of creations: marks of earlier creations may be left over, and
other creations come and go while the component is made.

Main statement: `detector_decides`. None of that matters: in every creation the detector offers the
listener of the instance just if the definition that the creation began with is that of a
singleton.
-/

namespace Startup

variable {H : Host} {σ : Type}

/-! ## Marks of components in creation -/

namespace Marks

variable {r id : ObjectId} {n : ComponentName}

/-- A callback in the creation of a component touches the mark by its call at most, and not by what
it does. -/
theorem after_call {cb : Callback H} {a : cb.Answer} {inner : Journal H} {φ : Marks} {l : Ledger H}
    {around : Option (Scope H)} (hlaw : l.Lawful r (Event.moments (.scope (.call cb a) inner)))
    (hserves : Event.serves r id around (.scope (.call cb a) inner) = true)
    (hn : n ∈ l.registry.inCreation) :
    φ.after id (Event.moments (.scope (.call cb a) inner)) n =
      φ.next id (.opens (.call cb a)) n := by
  have hmoments : Event.moments (.scope (.call cb a) inner) =
      Journal.moments [.scope (.call cb a) inner] := (List.append_nil _).symm
  rw [hmoments, after_scope]
  rw [Event.moments, Ledger.Lawful, Ledger.lawful_append] at hlaw
  exact frame inner hlaw.2.1 (Journal.serves_scope.1 hserves).2 nofun hn

theorem next_merged (φ : Marks) (e : Extension H) (d : Definition H) (n : ComponentName)
    (a : Except Failure Unit) : φ.next id (.opens (.call (.merged e d n) a)) =
      if e.isDetector id then Function.update φ n (some d.isSingleton) else φ := rfl

theorem next_asked (φ : Marks) (e : Extension H) (v : View) (i : Instance H) (n : ComponentName)
    (a : Except Failure (Instance H)) : φ.next id (.opens (.call (.after e v i n) a)) =
      if e.isDetector id ∧ i.listener?.isSome ∧ φ n = some false then Function.update φ n none
      else φ := rfl

/-- The mark of `n` says what `d` does: that it is a singleton, or anything else. -/
def Agrees (φ : Marks) (n : ComponentName) (d : Definition H) : Prop :=
  φ n = some true ↔ d.isSingleton = true

end Marks

/-! ## The turns of a creation -/

namespace Creation

variable {r id : ObjectId} {n : ComponentName} {d : Definition H} {φ : Marks} {l : Ledger H}
  {around : Option (Scope H)}

/-- A turn in the creation of `n` leaves a mark that agrees with the definition, if it agreed before
or if it is the turn in which the detector is shown the definition. -/
theorem Turn.Leaves.agrees {t : Turn H} {i : Option (Instance H)} {entry : Event H}
    {a : Except Failure (Option (Instance H))} (h : t.Leaves r n d i entry a)
    (hlaw : l.Lawful r entry.moments) (hserves : entry.serves r id around = true)
    (hn : n ∈ l.registry.inCreation)
    (hφ : φ.Agrees n d ∨ ∃ e : Extension H, e.isDetector id = true ∧ t = .merged e) :
    (φ.after id entry.moments).Agrees n d := by
  unfold Marks.Agrees
  cases h with
  | merged e i a inner =>
    rw [Marks.after_call hlaw hserves hn, Marks.next_merged]
    split
    · simp
    · rename_i he
      rcases hφ with hφ | ⟨e', he', ht⟩
      · exact hφ
      · cases ht
        exact absurd he' he
  | create a inner | before e i a inner =>
    rw [Marks.after_call hlaw hserves hn]
    rcases hφ with hφ | ⟨e', -, ht⟩
    · exact hφ
    · cases ht
  | after e i a inner =>
    rw [Marks.after_call hlaw hserves hn, Marks.next_asked]
    rcases hφ with hφ | ⟨e', -, ht⟩
    · split
      · -- the mark is taken away, but it was not that of a singleton
        rename_i herased
        rw [Function.update_self]
        rw [Marks.Agrees, herased.2.2] at hφ
        simpa using hφ
      · exact hφ
    · cases ht

/-- So do several turns, all of which succeed. -/
theorem Performed.agrees {ts : List (Turn H)} {i i' : Option (Instance H)} {j : Journal H}
    (h : Performed r n d ts i j (.ok i')) (hlaw : l.Lawful r (Journal.moments j))
    (hserves : Journal.serves r id around j = true) (hn : n ∈ l.registry.inCreation)
    (hφ : φ.Agrees n d ∨ ∃ e : Extension H, e.isDetector id = true ∧ .merged e ∈ ts) :
    (φ.after id (Journal.moments j)).Agrees n d := by
  induction ts generalizing i j φ l with
  | nil =>
    cases h
    rcases hφ with hφ | ⟨e, -, hmem⟩
    · exact hφ
    · cases hmem
  | cons t ts ih =>
    cases h with
    | @next _ _ _ _ entry j _ ht hts =>
      rw [Journal.serves, Bool.and_eq_true] at hserves
      rw [Journal.moments, Ledger.lawful_append] at hlaw
      have hstack := Ledger.inCreation_event entry l hlaw.1
      rw [Journal.moments, Marks.after_append]
      refine ih hts hlaw.2 hserves.2 (hstack ▸ hn) ?_
      rcases hφ with hφ | ⟨e, he, hmem⟩
      · exact .inl (ht.agrees hlaw.1 hserves.1 hn (.inl hφ))
      · rcases List.mem_cons.1 hmem with rfl | hlater
        · exact .inl (ht.agrees hlaw.1 hserves.1 hn (.inr ⟨e, he, rfl⟩))
        · exact .inr ⟨e, he, hlater⟩

/-- An entry of a creation is that of a turn; the turns before it succeeded. -/
theorem Performed.split_entry {ts : List (Turn H)} {i : Option (Instance H)}
    {made rest : Journal H} {entry : Event H}
    {result : Except DependencyError (Option (Instance H))}
    (h : Performed r n d ts i (made ++ entry :: rest) result) :
    ∃ done t later given a, ts = done ++ t :: later ∧ Performed r n d done i made (.ok given) ∧
      t.Leaves r n d given entry a := by
  induction made generalizing ts i with
  | nil =>
    cases h with
    | next ht => exact ⟨[], _, _, _, _, rfl, .done i, ht⟩
    | failed ht => exact ⟨[], _, _, _, _, rfl, .done i, ht⟩
  | cons x made ih =>
    rw [List.cons_append] at h
    generalize htail : made ++ entry :: rest = tail at h
    cases h with
    | failed => simp at htail
    | next ht hts =>
      subst htail
      obtain ⟨done, t, later, given, a, rfl, hdone, hleaves⟩ := ih hts
      exact ⟨_ :: done, t, later, given, a, rfl, .next ht hdone, hleaves⟩

/-- Whoever is asked at the end of a creation has been shown the definition before, if it cares. -/
theorem merged_before_after {chain : List (Extension H)} {e : Extension H}
    {done later : List (Turn H)} (h : turns chain = done ++ .after e :: later) :
    e ∈ chain ∧ (e.views.mergeAware = true → .merged e ∈ done) := by
  have he : e ∈ chain := (after_mem_turns_iff.1 (by simp [h])).1
  refine ⟨he, fun haware => ?_⟩
  have hshown : Turn.merged e ∈ (chain.filter (·.views.mergeAware)).map .merged :=
    List.mem_map_of_mem (List.mem_filter.2 ⟨he, haware⟩)
  rw [turns] at h
  rcases List.append_eq_append_iff.1 h with ⟨more, hdone, -⟩ | ⟨more, hmerged, hrest⟩
  · rw [hdone]
    exact List.mem_append_left _ hshown
  · -- the turns of the announcement end before the factory is called
    cases more with
    | nil => cases hrest
    | cons t more =>
      obtain ⟨rfl, -⟩ := List.cons.inj hrest
      have hin : Turn.after e ∈ (chain.filter (·.views.mergeAware)).map .merged := by
        simp [hmerged]
      obtain ⟨x, -, hx⟩ := List.mem_map.1 hin
      cases hx

end Creation

/-! ## Runs -/

/-- A detector that is there when a run begins, of whatever kind the run is: with creations within
creations, failures, and definitions that come and go. The detector serves registry `r` alone, and
cares for definitions if it is an interceptor. Then each call in which a creation asks it about the
instance is about the component that is created. The mark that the detector finds is that of the
definition with which this creation began, whatever has become of the definition and whatever
marks were left over. It hands the instance on, and it offers its listener to its context, under the
name of the component, if the definition is that of a singleton; otherwise, and to other contexts or
under other names, it offers nothing. -/
theorem detector_decides {α : Type} (b : Behaviour H σ) (depth : Nat) (x : Program H σ α)
    (r id : ObjectId) {w w' : World H σ} {a : α} {j : Journal H} (hknown : id < w.next)
    (hrun : b.run depth x w = some (a, w', j)) (hserves : Journal.serves r id none j = true)
    (haware : ∀ e ∈ (w.registries.get r).interceptors ++ installs r (Journal.moments j),
      e.isDetector id = true → e.views.mergeAware = true) :
    let ledger := fun past => (Ledger.of (w.registries.get r)).after r past
    ∀ past n d outer chain result body,
      Journal.Occurs (.scope (.creation r n d outer chain result) body) past j →
        (ledger past).registry.merged.get? n = some d ∧
        ∀ made e v i m answer inner rest,
          body = made ++ .scope (.call (.after e v i m) answer) inner :: rest →
            e.isDetector id = true →
              m = n ∧ answer = .ok i ∧
              ((w.marks id).after id (past ++ .opens (.creation r n d outer chain result) ::
                Journal.moments made)).Agrees n d ∧
              (∀ y ∈ inner, ∃ f, y = .fact f) ∧
              ∀ c k, offered c k (Journal.moments inner) =
                if d.isSingleton = true ∧ (w.detectors.get id).context = c ∧ n = k then
                  i.listener?.toList
                else [] := by
  intro ledger past n d outer chain result body hoccurs
  obtain ⟨hlaw, -, htells⟩ := Ledger.of_run b depth x r hrun
  obtain ⟨hpast, hentry⟩ := hlaw.at_entry hoccurs
  obtain ⟨hmerged, -, -, -, rfl⟩ := hentry.1 rfl
  refine ⟨hmerged, ?_⟩
  rintro made e v i m answer inner rest rfl he
  -- the call is a turn of the creation, and the turns before it succeeded
  obtain ⟨done, t, later, given, a', hplan, hdone, hleaves⟩ :=
    (htells past _ _ hoccurs rfl).split_entry
  obtain ⟨rfl, rfl⟩ : t = .after e ∧ m = n := by
    cases hleaves
    exact ⟨rfl, rfl⟩
  obtain ⟨hmem, hshown⟩ := Creation.merged_before_after hplan
  have hmergeAware : e.views.mergeAware = true := by
    refine haware e (List.mem_append.2 ?_) he
    exact (hpast.mem_chain hmem).imp_right fun hin => hoccurs.installs_subset r hin
  -- one of them was that in which the detector was shown the definition
  rw [Event.moments, Ledger.Lawful, Journal.moments_append, List.append_assoc,
    Ledger.lawful_append] at hentry
  have hbody := (Journal.serves_append.1 (hoccurs.serves hserves)).1
  have hin : m ∈ ((ledger past).next r (.opens (.creation r m d outer
      (ledger past).registry.interceptors result))).registry.inCreation := by
    rw [(Ledger.step hentry.1).inCreation_opens, Scope.creates?, if_pos rfl]
    exact List.mem_append_right _ List.mem_cons_self
  have hagrees := hdone.agrees (φ := (w.marks id).after id past) hentry.2.1 hbody hin
    (.inr ⟨e, he, hshown hmergeAware⟩)
  have hcall : Journal.Occurs (.scope (.call (.after e v i m) answer) inner)
      (past ++ .opens (.creation r m d outer (ledger past).registry.interceptors result) ::
        Journal.moments made) j :=
    hoccurs.trans (.between made rest)
  have hmark : ((w.marks id).after id (past ++ .opens (.creation r m d outer
      (ledger past).registry.interceptors result) :: Journal.moments made)).Agrees m d := by
    rw [Marks.after_append]
    exact hagrees
  have hheard := ((Heeds.program (c := 0) b depth x w a w' j hrun).hears hknown).heard
  obtain ⟨hanswer, hfacts, hoffers⟩ := hheard _ e v i m answer inner hcall he
  refine ⟨rfl, hanswer, hmark, hfacts, fun c k => ?_⟩
  rw [hoffers c k]
  exact if_congr (and_congr_left' hmark) rfl rfl

/-! ### A definition that is replaced while its component is created -/

namespace Scenario

/-- A component that listens, with a script for its factory. -/
def listening (lifetime : Lifetime) (create : List Step) : DefinitionSpec :=
  .mk "n" .plain [] .unordered .application lifetime false [] create (.listener "n" [])

/-- A registry with a detector. -/
def detectedWorld : World Scripted Memory := worldAfter [.installDetector]

/-- Create a component whose factory makes a singleton of it, twice. -/
def redefineInCreation : Program Scripted Memory (Except DependencyError (Instance Scripted)) := do
  let redefine := Step.mk {} (.perform .quiet (.register (listening .singleton [])))
  let _ ← Program.request (.register Setup.base (listening .transient [redefine]).toDefinition)
  let _ ← Program.request (.resolve (.direct Setup.base) ⟨"n"⟩)
  Program.request (.resolve (.direct Setup.base) ⟨"n"⟩)

/-- The first creation began with the old definition and offers nothing, the second one offers its
listener. -/
theorem redefineInCreation_decided :
    ∃ p, behaviour.run 3 redefineInCreation detectedWorld = some p ∧
      (offered Setup.context ⟨"n"⟩ (Journal.moments p.2.2)).length = 1 ∧
      ∀ past n d outer chain result body,
        Journal.Occurs (.scope (.creation Setup.base n d outer chain result) body) past p.2.2 →
          ∀ made e v i m answer inner rest,
            body = made ++ .scope (.call (.after e v i m) answer) inner :: rest →
              e.isDetector 2 = true → m = n ∧ ∀ k, offered Setup.context k (Journal.moments inner) =
                if d.isSingleton = true ∧ n = k then i.listener?.toList else [] := by
  have hevaluated : (behaviour.run 3 redefineInCreation detectedWorld).map (fun p =>
      ((offered Setup.context ⟨"n"⟩ (Journal.moments p.2.2)).length,
        Journal.serves Setup.base 2 none p.2.2,
        ((detectedWorld.registries.get Setup.base).interceptors ++
          installs Setup.base (Journal.moments p.2.2)).all
            fun e => !e.isDetector 2 || e.views.mergeAware)) = some (1, true, true) := by
    decide +kernel
  have hworld : 2 < detectedWorld.next ∧
      (detectedWorld.detectors.get 2).context = Setup.context := by
    decide +kernel
  obtain ⟨⟨a, w', j⟩, hrun, heq⟩ := Option.map_eq_some_iff.1 hevaluated
  simp only [Prod.mk.injEq] at heq
  obtain ⟨hoffers, hserves, haware⟩ := heq
  refine ⟨(a, w', j), hrun, hoffers, fun past n d outer chain result body hoccurs => ?_⟩
  have hdecides := (detector_decides behaviour 3 redefineInCreation Setup.base 2 hworld.1 hrun
    hserves (fun e he hdetector => ?_) past n d outer chain result body hoccurs).2
  · intro made e v i m answer inner rest hbody he
    obtain ⟨hm, -, -, -, hall⟩ := hdecides made e v i m answer inner rest hbody he
    refine ⟨hm, fun k => ?_⟩
    rw [hall Setup.context k, hworld.2]
    simp only [true_and]
  · simpa [hdetector] using List.all_eq_true.1 haware e he

end Scenario

end Startup
