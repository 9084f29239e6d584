import Startup.Proofs.Registry.Resolution
import Startup.Proofs.Registry.Wiring

/-!
The stack of creations. A registry lists the components that are being created, and refuses to
create one of them again. It puts a name at the end of the list when its creation begins, and drops
it, wherever it stands, when the creation ends; what callbacks do in between is anybody's guess.

Main statement: `creation_stack`. At every moment of a run the list is that of the creations in
which the moment lies, outermost first, and no name is in it twice; every activity leaves it as it
found it; and to ask for a component that is not there yet is refused as circular just when its name
is in the list.
-/

namespace Startup

variable {H : Host} {σ : Type}

/-! ## Where a moment lies -/

/-- The component that is created in a scope, if it is the scope of a creation in registry `r`. -/
def Scope.creates? (r : ObjectId) : Scope H → Option ComponentName
  | .creation r' n .. => if r' = r then some n else none
  | _ => none

/-- A scope that does not concern a registry creates nothing in it. -/
theorem Scope.creates?_elsewhere {r : ObjectId} {s : Scope H}
    (h : (Moment.opens s).IsElsewhere r ∨ (Moment.closes s).IsElsewhere r) :
    s.creates? r = none := by
  cases s with
  | creation => exact if_neg (h.elim id id)
  | _ => rfl

/-- After its first moments `past`, a journal stands inside of these scopes, outermost first. -/
inductive Journal.Inside : List (Scope H) → List (Moment H) → List (Event H) → Prop
  | start (j : List (Event H)) : Inside [] [] j
  | enter {ss : List (Scope H)} {past : List (Moment H)} {body : List (Event H)} (s : Scope H)
      (rest : List (Event H)) (h : Inside ss past body) :
      Inside (s :: ss) (.opens s :: past) (.scope s body :: rest)
  | later {ss : List (Scope H)} {past : List (Moment H)} {rest : List (Event H)} (e : Event H)
      (h : Inside ss past rest) : Inside ss (e.moments ++ past) (e :: rest)

namespace Journal

theorem Inside.after (e : Event H) (rest : List (Event H)) :
    Inside [] e.moments (e :: rest) := by
  have h := Inside.later e (.start rest)
  rwa [List.append_nil] at h

mutual

theorem inside_event (e : Event H) (rest : List (Event H)) (past future : List (Moment H))
    (h : e.moments = past ++ future) : ∃ ss, Inside ss past (e :: rest) := by
  cases e with
  | fact f =>
    rcases List.append_eq_singleton_iff.1 h.symm with ⟨rfl, -⟩ | ⟨rfl, -⟩
    · exact ⟨[], .start _⟩
    · exact ⟨[], .after (.fact f) rest⟩
  | scope s body =>
    rw [Event.moments] at h
    rcases List.cons_eq_append_iff.1 h with ⟨rfl, -⟩ | ⟨inner, rfl, hbody⟩
    · exact ⟨[], .start _⟩
    · rcases List.append_eq_append_iff.1 hbody with ⟨last, rfl, hlast⟩ | ⟨more, hmore, -⟩
      · rcases List.append_eq_singleton_iff.1 hlast.symm with ⟨rfl, -⟩ | ⟨rfl, -⟩
        · obtain ⟨ss, hss⟩ := inside_journal body (moments body) [] (List.append_nil _).symm
          rw [List.append_nil]
          exact ⟨s :: ss, .enter s rest hss⟩
        · exact ⟨[], .after (.scope s body) rest⟩
      · obtain ⟨ss, hss⟩ := inside_journal body inner more hmore
        exact ⟨s :: ss, .enter s rest hss⟩

theorem inside_journal (j : List (Event H)) (past future : List (Moment H))
    (h : moments j = past ++ future) : ∃ ss, Inside ss past j := by
  cases j with
  | nil =>
    obtain ⟨rfl, -⟩ := List.append_eq_nil_iff.1 h.symm
    exact ⟨[], .start []⟩
  | cons e rest =>
    rcases List.append_eq_append_iff.1 h with ⟨later, rfl, hrest⟩ | ⟨more, hmore, -⟩
    · obtain ⟨ss, hss⟩ := inside_journal rest later future hrest
      exact ⟨ss, .later e hss⟩
    · exact inside_event e rest past more hmore

end

end Journal

/-! ## The stack moves with the scopes -/

namespace Ledger

variable {r : ObjectId} {l : Ledger H}

/-- A fact leaves the stack alone. -/
theorem Step.inCreation_fact {f : Fact H} {t : Registry H} (h : l.Step r (.fact f) t) :
    t.inCreation = l.registry.inCreation := by
  cases h <;> rfl

/-- Where a scope opens, the name of its creation is put at the end. -/
theorem Step.inCreation_opens {s : Scope H} {t : Registry H} (h : l.Step r (.opens s) t) :
    t.inCreation = l.registry.inCreation ++ (s.creates? r).toList := by
  cases h with
  | resolution =>
    rw [Registry.inCreation_prepare]
    exact (List.append_nil _).symm
  | begun => simp [Scope.creates?, Registry.beginCreation]
  | elsewhere hm => simp [Scope.creates?_elsewhere (.inl hm)]

/-- Where a scope closes, the name of its creation is dropped. -/
theorem Step.inCreation_closes {s : Scope H} {t : Registry H} (h : l.Step r (.closes s) t) :
    t.inCreation =
      match s.creates? r with
      | some n => l.registry.inCreation.filter (fun m => !decide (m = n))
      | none => l.registry.inCreation := by
  cases h with
  | ended => rw [Registry.inCreation_conclude, Scope.creates?, if_pos rfl]
  | elsewhere hm => rw [Scope.creates?_elsewhere (.inr hm)]

/-- No creation begins for a name that is on the stack. -/
theorem Allows.creates_new {s : Scope H} (h : l.Allows r (.opens s)) {n : ComponentName}
    (hn : s.creates? r = some n) : n ∉ l.registry.inCreation := by
  cases s with
  | creation r' k d outer chain result =>
    simp only [Scope.creates?] at hn
    split at hn <;> rename_i hr
    · cases hn
      exact (h hr).2.2.1
    · cases hn
  | _ => cases hn

mutual

theorem inCreation_event (e : Event H) (l : Ledger H) (h : l.Lawful r e.moments) :
    (l.after r e.moments).registry.inCreation = l.registry.inCreation := by
  cases e with
  | fact f => exact (step h.1).inCreation_fact
  | scope s body =>
    rw [Event.moments, Lawful, lawful_append] at h
    obtain ⟨hopens, hbody, hcloses, -⟩ := h
    have hsame := inCreation_journal body (l.next r (.opens s)) hbody
    rw [(step hopens).inCreation_opens] at hsame
    rw [Event.moments, after_cons, after_append, after_single, (step hcloses).inCreation_closes,
      hsame]
    cases hs : s.creates? r with
    | none => exact List.append_nil _
    | some n =>
      -- the name was new when it was put in, so that nothing else is dropped with it
      have hnew := hopens.creates_new hs
      exact Registry.filter_snoc hnew

theorem inCreation_journal (j : List (Event H)) (l : Ledger H)
    (h : l.Lawful r (Journal.moments j)) :
    (l.after r (Journal.moments j)).registry.inCreation = l.registry.inCreation := by
  cases j with
  | nil => rfl
  | cons e rest =>
    rw [Journal.moments, lawful_append] at h
    rw [Journal.moments, after_append, inCreation_journal rest _ h.2, inCreation_event e l h.1]

end

/-- The stack consists of the creations in which the moment lies. -/
theorem Lawful.inCreation_inside {ss : List (Scope H)} {past : List (Moment H)} {j : Journal H}
    (hinside : Journal.Inside ss past j) (hlaw : l.Lawful r (Journal.moments j)) :
    (l.after r past).registry.inCreation =
        l.registry.inCreation ++ ss.filterMap (Scope.creates? r) ∧
      (l.registry.inCreation.Nodup → (l.after r past).registry.inCreation.Nodup) := by
  induction hinside generalizing l with
  | start j => exact ⟨(List.append_nil _).symm, id⟩
  | enter s rest _ ih =>
    rw [Journal.moments, Event.moments, List.cons_append, Lawful, List.append_assoc,
      lawful_append] at hlaw
    obtain ⟨hopens, hbody, -⟩ := hlaw
    obtain ⟨hstack, hnodup⟩ := ih hbody
    rw [(step hopens).inCreation_opens] at hstack hnodup
    rw [after_cons]
    cases hs : s.creates? r with
    | none =>
      rw [hs, Option.toList_none, List.append_nil] at hstack hnodup
      rw [List.filterMap_cons_none hs]
      exact ⟨hstack, hnodup⟩
    | some n =>
      rw [hs, Option.toList_some] at hstack hnodup
      rw [List.filterMap_cons_some hs, hstack, List.append_assoc]
      refine ⟨rfl, fun hold => ?_⟩
      have hnew := hopens.creates_new hs
      have hpushed : (l.registry.inCreation ++ [n]).Nodup := by
        rw [List.nodup_append]
        refine ⟨hold, by simp, fun a ha b hb => ?_⟩
        rw [List.mem_singleton.1 hb]
        rintro rfl
        exact hnew ha
      have hall := hnodup hpushed
      rw [hstack, List.append_assoc] at hall
      exact hall
  | later e _ ih =>
    rw [Journal.moments, lawful_append] at hlaw
    obtain ⟨he, hrest⟩ := hlaw
    have hsame := inCreation_event e l he
    rw [after_append]
    rw [← hsame]
    exact ih hrest

/-! ## Refusals -/

variable {v : View} {n : ComponentName} {d : Definition H}
  {answer : Except DependencyError (Instance H)} {body : Journal H}

/-- A component that is being created is refused, with the cycle that leads back to it. -/
theorem Resolves.refused (h : l.Resolves r v n answer body)
    (hnone : l.registry.singletons.get? n = none)
    (hd : l.registry.definitions.get? n = some d) (hin : n ∈ l.registry.inCreation) :
    answer = .error (.circular (Creation.cycleText (l.registry.inCreation ++ [n]))) := by
  cases h with
  | found hi ha =>
    rw [hnone] at hi
    cases hi
  | unknown _ hlook ha => exact absurd hlook (Registry.lookup_ne_none hd)
  | circular _ _ _ ha => exact ha
  | created _ _ hnew _ ha => exact absurd hin hnew

/-- Nothing else is refused as circular: what a creation fails with is blamed on one of its
turns. -/
theorem Resolves.mem_of_circular {text : String} (h : l.Resolves r v n answer body)
    (ha : answer = .error (.circular text)) : n ∈ l.registry.inCreation := by
  cases h with
  | found _ hanswer | unknown _ _ hanswer =>
    rw [hanswer] at ha
    cases ha
  | circular _ _ hin _ => exact hin
  | created _ _ _ hturns hanswer =>
    have hresult := Registry.conclude_eq_error.1 (hanswer.symm.trans ha)
    rw [hresult] at hturns
    obtain ⟨_, t, _, _, _, _, f, _, _, _, _, hblame⟩ := hturns.split_of_error
    exact absurd hblame.symm (t.blame_ne_circular f text)

end Ledger

/-! ## Runs -/

/-- The stack of any registry in any run, if nothing is being created before it. Every moment lies
in some scopes, and the stack is that of the creations among them, outermost first, with no name
twice. Every activity leaves it as it found it, failed or not, and so does the run. A registered
component without a singleton is refused as circular just when it is on the stack, and then the
error names the stack and the component. -/
theorem creation_stack {α : Type} (b : Behaviour H σ) (depth : Nat) (x : Program H σ α)
    (r : ObjectId) {w w' : World H σ} {a : α} {j : Journal H}
    (hidle : (w.registries.get r).inCreation = []) (hrun : b.run depth x w = some (a, w', j)) :
    let ledger := fun past => (Ledger.of (w.registries.get r)).after r past
    (ledger (Journal.moments j)).registry = w'.registries.get r ∧
      (∀ past future, Journal.moments j = past ++ future → ∃ ss, Journal.Inside ss past j) ∧
      (∀ ss past, Journal.Inside ss past j →
        (ledger past).registry.inCreation = ss.filterMap (Scope.creates? r) ∧
          (ledger past).registry.inCreation.Nodup) ∧
      (∀ e past, Journal.Occurs e past j →
        (ledger (past ++ e.moments)).registry.inCreation = (ledger past).registry.inCreation) ∧
      (w'.registries.get r).inCreation = [] ∧
      ∀ past v n d answer body, Journal.Occurs (.scope (.resolution v n answer) body) past j →
        v.registry = r → (ledger past).registry.singletons.get? n = none →
          (ledger past).registry.definitions.get? n = some d →
            ((∃ text, answer = .error (.circular text)) ↔
              n ∈ (ledger past).registry.inCreation) ∧
            (n ∈ (ledger past).registry.inCreation → answer = .error (.circular
              (Creation.cycleText ((ledger past).registry.inCreation ++ [n])))) := by
  intro ledger
  obtain ⟨hlaw, hregistry, htells⟩ := Ledger.of_run b depth x r hrun
  refine ⟨hregistry, fun past future => Journal.inside_journal j past future,
    fun ss past hinside => ?_, fun e past hoccurs => ?_, ?_, ?_⟩
  · obtain ⟨hstack, hnodup⟩ := hlaw.inCreation_inside hinside
    have hstart : (Ledger.of (w.registries.get r)).registry.inCreation = [] := hidle
    rw [hstart, List.nil_append] at hstack
    rw [hstart] at hnodup
    exact ⟨hstack, hnodup List.nodup_nil⟩
  · simp only [ledger, Ledger.after_append]
    exact Ledger.inCreation_event e _ (hlaw.at_entry hoccurs).2
  · rw [← hregistry, Ledger.inCreation_journal j _ hlaw]
    exact hidle
  · intro past v n d answer body hoccurs hv hnone hd
    have hresolved := htells past _ _ hoccurs hv
    refine ⟨⟨?_, fun hin => ⟨_, hresolved.refused hnone hd hin⟩⟩, hresolved.refused hnone hd⟩
    rintro ⟨text, htext⟩
    exact hresolved.mem_of_circular htext

/-! ### Components that depend on each other -/

namespace Scenario

/-- Resolve one of two components that depend on each other. -/
def resolveMutual : Program Scripted Memory (Except DependencyError (Instance Scripted)) := do
  let _ ← Program.request (.register Setup.base (wired .singleton "a" ["b"]).toDefinition)
  let _ ← Program.request (.register Setup.base (wired .singleton "b" ["a"]).toDefinition)
  Program.request (.resolve (.direct Setup.base) ⟨"a"⟩)

/-- The resolution fails, and the stack is empty again. -/
theorem resolveMutual_stack :
    ∃ p, behaviour.run 3 resolveMutual (Setup.world {}) = some p ∧ p.1.isOk = false ∧
      (p.2.1.registries.get Setup.base).inCreation = [] ∧
      ∀ ss past, Journal.Inside ss past p.2.2 →
        ((Ledger.of ((Setup.world {}).registries.get Setup.base)).after Setup.base
            past).registry.inCreation = ss.filterMap (Scope.creates? Setup.base) ∧
          ((Ledger.of ((Setup.world {}).registries.get Setup.base)).after Setup.base
            past).registry.inCreation.Nodup := by
  have hfailed : (behaviour.run 3 resolveMutual (Setup.world {})).map (fun p => p.1.isOk) =
      some false := by
    decide +kernel
  obtain ⟨⟨a, w', j⟩, hrun, hanswer⟩ := Option.map_eq_some_iff.1 hfailed
  obtain ⟨-, -, hstack, -, hidle, -⟩ :=
    creation_stack behaviour 3 resolveMutual Setup.base rfl hrun
  exact ⟨(a, w', j), hrun, hanswer, hidle, hstack⟩

end Scenario

end Startup
