import Startup.Proofs.Pipeline.Deeds
import Startup.Proofs.Registry.Resolution
import Startup.Proofs.Registry.Singletons

/-!
What is noted inside of callbacks and what outside of them. To fetch a component the library does
nothing to a registry itself but to keep what was created: definitions are changed and interceptors
installed by callbacks only. What a registration notes outside of them is about its own doing.

Main statement: `View.divide_delegates`, that of many fetches every fact is noted inside of a
callback.
-/

namespace Startup

variable {H : Host} {σ : Type}

/-! ## Inside of callbacks -/

def Scope.isCall : Scope H → Bool
  | .call .. => true
  | _ => false

mutual

def Event.called : Event H → List (Moment H)
  | .fact _ => []
  | .scope s body => if s.isCall then Journal.moments body else Journal.called body

/-- The moments of a journal that lie inside of a callback. -/
def Journal.called : List (Event H) → List (Moment H)
  | [] => []
  | e :: rest => e.called ++ Journal.called rest

end

/-- All facts are noted inside of callbacks. -/
def Journal.Delegates (j : Journal H) : Prop :=
  ∀ f, .fact f ∈ Journal.moments j → .fact f ∈ Journal.called j

/-- A note of a registration about what it does itself. -/
def Fact.IsNote : Fact H → Prop
  | .querying .. | .registrationStarted .. | .comparing _ | .tierInstalled .. | .relocating _
  | .installing .. | .installed .. | .notInterceptor _ | .registrationDone _ => True
  | _ => False

/-- There are nothing but such notes. -/
def Journal.Notes (j : Journal H) : Prop := ∀ e ∈ j, ∃ f : Fact H, e = .fact f ∧ f.IsNote

namespace Journal

variable {j k : Journal H}

theorem called_append (j k : Journal H) : called (j ++ k) = called j ++ called k := by
  induction j with
  | nil => rfl
  | cons e rest ih =>
    rw [List.cons_append, called, called, ih, List.append_assoc]

theorem called_scope {s : Scope H} (hs : s.isCall = false) (j : Journal H) :
    called [.scope s j] = called j := by
  simp [called, Event.called, hs]

theorem Delegates.nil : Delegates ([] : Journal H) := fun _ h => h

theorem Delegates.append (hj : Delegates j) (hk : Delegates k) : Delegates (j ++ k) := by
  intro f hf
  rw [moments_append] at hf
  rw [called_append]
  rcases List.mem_append.1 hf with h | h
  · exact List.mem_append_left _ (hj f h)
  · exact List.mem_append_right _ (hk f h)

theorem mem_moments_scope {f : Fact H} {s : Scope H} :
    .fact f ∈ moments [.scope s j] ↔ .fact f ∈ moments j := by
  rw [moments_scope]
  simp

theorem Delegates.scope {s : Scope H} (hs : s.isCall = false) (hj : Delegates j) :
    Delegates [.scope s j] := by
  intro f hf
  rw [called_scope hs]
  exact hj f (mem_moments_scope.1 hf)

theorem Delegates.call (cb : Callback H) (a : cb.Answer) (j : Journal H) :
    Delegates [.scope (.call cb a) j] := by
  intro f hf
  have hbody := mem_moments_scope.1 hf
  simpa [called, Event.called, Scope.isCall] using hbody

theorem Notes.nil : Notes ([] : Journal H) := fun _ h => absurd h List.not_mem_nil

theorem Notes.append (hj : Notes j) (hk : Notes k) : Notes (j ++ k) := by
  intro e he
  exact (List.mem_append.1 he).elim (hj e) (hk e)

theorem Notes.cons {f : Fact H} (hf : f.IsNote) (hj : Notes j) : Notes (.fact f :: j) :=
  List.forall_mem_cons.2 ⟨⟨f, rfl, hf⟩, hj⟩

theorem Notes.deeds (hj : Notes j) : deeds j = [] := by
  apply List.filterMap_eq_nil_iff.2
  intro e he
  obtain ⟨f, rfl, hf⟩ := hj e he
  cases f <;> first | rfl | exact hf.elim

theorem Notes.moments (hj : Notes j) : ∀ m ∈ moments j, ∃ f : Fact H, m = .fact f ∧ f.IsNote := by
  induction j with
  | nil => exact fun _ hm => absurd hm List.not_mem_nil
  | cons e rest ih =>
    obtain ⟨⟨f, rfl, hf⟩, hrest⟩ := List.forall_mem_cons.1 hj
    intro m hm
    rcases List.mem_append.1 hm with h | h
    · exact ⟨f, List.mem_singleton.1 h, hf⟩
    · exact ih hrest m h

theorem Notes.unrevised (hj : Notes j) (r : ObjectId) (n : ComponentName) :
    Unrevised r n (Journal.moments j) := by
  intro m hm
  obtain ⟨f, rfl, hf⟩ := hj.moments m hm
  cases f <;> first | exact id | exact hf.elim

end Journal

/-! ## Fetches delegate -/

/-- All that a finished run notes is noted inside of callbacks. -/
def Run.Delegates {α : Type} (x : Run H σ α) : Prop :=
  ∀ w a w' j, x w = some (a, w', j) → Journal.Delegates j

section Fetches

variable {call : Call H σ} {w w' : World H σ} {j : Journal H}

theorem Creation.Performed.delegates {r : ObjectId} {n : ComponentName} {d : Definition H}
    {ts : List (Turn H)} {i : Option (Instance H)}
    {result : Except DependencyError (Option (Instance H))}
    (h : Performed r n d ts i j result) : Journal.Delegates j := by
  have hturn {t : Turn H} {i : Option (Instance H)} {entry : Event H}
      {a : Except Failure (Option (Instance H))} (ht : t.Leaves r n d i entry a) :
      Journal.Delegates [entry] := by
    cases ht <;> exact .call _ _ _
  induction h with
  | done => exact .nil
  | next ht _ ih => exact (hturn ht).append ih
  | failed ht => exact hturn ht

theorem View.resolve_delegates (v : View) (n : ComponentName) :
    Run.Delegates (v.resolve call n).run := by
  intro w a w' j h
  obtain ⟨i, -, rfl, rfl, rfl⟩ | ⟨-, ⟨-, rfl, rfl, rfl⟩ | ⟨d, j', -, hcreate, rfl⟩⟩ :=
    View.resolve_eq_some call h
  · exact .scope rfl .nil
  · exact .scope rfl .nil
  · refine .scope rfl ?_
    obtain ⟨-, -, rfl, rfl⟩ | ⟨-, result, w₁, j₁, hbuild, -, -, rfl⟩ :=
      Creation.create_eq_some call hcreate
    · exact .nil
    · exact .scope rfl (Creation.build_performed hbuild).delegates

theorem Attempt.delegates_bind {ε α β : Type} {x : Attempt H σ ε α} {f : α → Attempt H σ ε β}
    (hx : Run.Delegates x.run) (hf : ∀ a, Run.Delegates (f a).run) :
    Run.Delegates (x >>= f).run := by
  intro w a w' j h
  obtain ⟨e, -, hfirst⟩ | ⟨b, w₁, j₁, j₂, hfirst, hrest, rfl⟩ := Attempt.bind_eq_some h
  · exact hx w _ w' j hfirst
  · exact (hx w _ w₁ j₁ hfirst).append (hf b w₁ a w' j₂ hrest)

theorem Attempt.delegates_pure {ε α : Type} (x : Except ε α) :
    Run.Delegates (Attempt.of (pure x) : Attempt H σ ε α).run := by
  intro w a w' j h
  cases h
  exact .nil

theorem View.fetch_delegates (v : View) (n : ComponentName) (c : Capability) :
    Run.Delegates (v.fetch call n c).run := by
  intro w a w' j h
  obtain ⟨j', hbody, rfl⟩ := Run.within_eq_some.1 h
  refine .scope rfl (Attempt.delegates_bind (View.resolve_delegates v n) (fun i => ?_) w a w' j'
    hbody)
  split
  · split
    · exact Attempt.delegates_pure (.ok _)
    · exact Attempt.delegates_pure (.error _)
  · exact Attempt.delegates_pure (.error _)

theorem View.fetchAll_delegates (v : View) (c : Capability) (names : List ComponentName) :
    Run.Delegates (v.fetchAll call c names).run := by
  induction names with
  | nil => exact Attempt.delegates_pure (.ok _)
  | cons n rest ih =>
    refine Attempt.delegates_bind (View.fetch_delegates v n c) fun e => ?_
    exact Attempt.delegates_bind ih fun es => Attempt.delegates_pure (.ok _)

theorem View.divide_delegates (v : View) (c : Capability) (skip : ComponentName → Bool)
    (names : List ComponentName) : Run.Delegates (v.divide call c skip names).run := by
  have hmatch (n : ComponentName) (c : Capability) :
      Run.Delegates (Attempt.always (v.isMatch n c) : Attempt H σ DependencyError Bool).run := by
    intro w a w' j h
    cases h
    exact .nil
  induction names with
  | nil => exact Attempt.delegates_pure (.ok _)
  | cons n rest ih =>
    unfold View.divide
    split
    · exact ih
    · refine Attempt.delegates_bind (hmatch n _) fun first => ?_
      split
      · refine Attempt.delegates_bind (View.fetch_delegates v n c) fun e => ?_
        exact Attempt.delegates_bind ih fun t => Attempt.delegates_pure (.ok _)
      · refine Attempt.delegates_bind (hmatch n _) fun second => ?_
        split
        · exact Attempt.delegates_bind ih fun t => Attempt.delegates_pure (.ok _)
        · exact Attempt.delegates_bind ih fun t => Attempt.delegates_pure (.ok _)

end Fetches

end Startup
