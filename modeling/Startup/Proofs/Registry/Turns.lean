import Startup.Registry.Creation

/-!
The calls of one creation. A creation calls in turn the interceptors that are to see the
definition, the factory, and every interceptor twice, before and after initialization. The chain
of its turns is fixed when it begins; the instance is handed from one turn to the next, and the
first failure ends the creation.

Main statement: `Creation.build_performed`, that a finished creation performed the turns of its
chain and left nothing but their entries.
-/

namespace Startup

variable {H : Host} {σ : Type}

/-! ## Attempts taken apart -/

/-- A finished sequence of attempts is a failure of the first, or two finished attempts. -/
theorem Attempt.bind_eq_some {ε α β : Type} {x : Attempt H σ ε α} {f : α → Attempt H σ ε β}
    {w w' : World H σ} {b : Except ε β} {j : Journal H}
    (h : (x >>= f).run w = some (b, w', j)) :
    (∃ e, b = .error e ∧ x.run w = some (.error e, w', j)) ∨
      ∃ a w₁ j₁ j₂, x.run w = some (.ok a, w₁, j₁) ∧ (f a).run w₁ = some (b, w', j₂) ∧
        j = j₁ ++ j₂ := by
  rw [Attempt.run_bind] at h
  obtain ⟨a, w₁, j₁, j₂, hx, hf, rfl⟩ := Run.bind_eq_some.1 h
  cases a with
  | error e =>
    obtain ⟨rfl, rfl, rfl⟩ := Run.pure_eq_some.1 hf
    rw [List.append_nil]
    exact .inl ⟨e, rfl, hx⟩
  | ok a => exact .inr ⟨a, w₁, j₁, j₂, hx, hf, rfl⟩

namespace Creation

/-! ## Turns -/

/-- A call that a creation makes. -/
inductive Turn (H : Host) where
  /-- Show the definition to an interceptor. -/
  | merged (e : Extension H)
  /-- Let the factory make the instance. -/
  | create
  | before (e : Extension H)
  | after (e : Extension H)

/-- The turns of a creation that begins with a chain, in order. -/
def turns (chain : List (Extension H)) : List (Turn H) :=
  (chain.filter (·.views.mergeAware)).map .merged ++
    .create :: ((chain.filter (·.views.interceptor)).map .before ++
      (chain.filter (·.views.interceptor)).map .after)

/-- It is the interceptors of the chain that are asked at the end. -/
theorem after_mem_turns_iff {chain : List (Extension H)} {e : Extension H} :
    .after e ∈ turns chain ↔ e ∈ chain ∧ e.views.interceptor = true := by
  simp [turns]

/-- Where all members of the chain are interceptors, none is left out. -/
theorem turns_of_interceptors {chain : List (Extension H)}
    (h : ∀ e ∈ chain, e.views.interceptor = true) :
    turns chain = (chain.filter (·.views.mergeAware)).map .merged ++
      .create :: (chain.map .before ++ chain.map .after) := by
  rw [turns, List.filter_eq_self.2 h]

/-- The error of a creation of `n` whose turn failed. -/
def Turn.blame (n : ComponentName) : Turn H → Failure → DependencyError
  | .merged e | .before e | .after e => interceptorFailed n e
  | .create => .creationFailed n.text

/-- The entry of a turn in the creation of `n` from `d`. The turn is given the instance at hand,
which is none before the factory's turn, and its outcome is the instance that is handed on, or a
failure. -/
inductive Turn.Leaves (r : ObjectId) (n : ComponentName) (d : Definition H) :
    Turn H → Option (Instance H) → Event H → Except Failure (Option (Instance H)) → Prop
  | merged (e : Extension H) (i : Option (Instance H)) (a : Except Failure Unit)
      (inner : Journal H) :
      Leaves r n d (.merged e) i (.scope (.call (.merged e d n) a) inner) (a.map fun _ => i)
  | create (a : Except Failure (Instance H)) (inner : Journal H) :
      Leaves r n d .create none (.scope (.call (.create d (.direct r)) a) inner) (a.map some)
  | before (e : Extension H) (i : Instance H) (a : Except Failure (Instance H))
      (inner : Journal H) :
      Leaves r n d (.before e) (some i) (.scope (.call (.before e (.direct r) i n) a) inner)
        (a.map some)
  | after (e : Extension H) (i : Instance H) (a : Except Failure (Instance H))
      (inner : Journal H) :
      Leaves r n d (.after e) (some i) (.scope (.call (.after e (.direct r) i n) a) inner)
        (a.map some)

/-- The entries of some turns, one after the other. Each turn is given what the turn before it
handed on; the first one that fails is the last one. -/
inductive Performed (r : ObjectId) (n : ComponentName) (d : Definition H) :
    List (Turn H) → Option (Instance H) → Journal H →
      Except DependencyError (Option (Instance H)) → Prop
  | done (i : Option (Instance H)) : Performed r n d [] i [] (.ok i)
  | next {t : Turn H} {ts : List (Turn H)} {i i' : Option (Instance H)} {entry : Event H}
      {j : Journal H} {result : Except DependencyError (Option (Instance H))}
      (ht : t.Leaves r n d i entry (.ok i')) (hts : Performed r n d ts i' j result) :
      Performed r n d (t :: ts) i (entry :: j) result
  | failed {t : Turn H} {ts : List (Turn H)} {i : Option (Instance H)} {entry : Event H}
      {f : Failure} (ht : t.Leaves r n d i entry (.error f)) :
      Performed r n d (t :: ts) i [entry] (.error (t.blame n f))

variable {r : ObjectId} {n : ComponentName} {d : Definition H}

theorem Performed.append {ts ts' : List (Turn H)} {i i' : Option (Instance H)}
    {j j' : Journal H} {result : Except DependencyError (Option (Instance H))}
    (h : Performed r n d ts i j (.ok i')) (h' : Performed r n d ts' i' j' result) :
    Performed r n d (ts ++ ts') i (j ++ j') result := by
  induction ts generalizing i j with
  | nil =>
    cases h
    exact h'
  | cons t ts ih =>
    cases h with
    | next ht hts => exact .next ht (ih hts)

/-- What comes after a failure plays no part. -/
theorem Performed.append_error {ts : List (Turn H)} {i : Option (Instance H)} {j : Journal H}
    {e : DependencyError} (h : Performed r n d ts i j (.error e)) (ts' : List (Turn H)) :
    Performed r n d (ts ++ ts') i j (.error e) := by
  induction ts generalizing i j with
  | nil => cases h
  | cons t ts ih =>
    cases h with
    | next ht hts => exact .next ht (ih hts)
    | failed ht => exact .failed ht

/-- Of a sequence of turns the first part failed, or both parts were performed. -/
theorem Performed.of_append {ts ts' : List (Turn H)} {i : Option (Instance H)} {j : Journal H}
    {result : Except DependencyError (Option (Instance H))}
    (h : Performed r n d (ts ++ ts') i j result) :
    (∃ e, result = .error e ∧ Performed r n d ts i j (.error e)) ∨
      ∃ i' j₁ j₂, j = j₁ ++ j₂ ∧ Performed r n d ts i j₁ (.ok i') ∧
        Performed r n d ts' i' j₂ result := by
  induction ts generalizing i j with
  | nil => exact .inr ⟨i, [], j, rfl, .done i, h⟩
  | cons t ts ih =>
    cases h with
    | next ht hts =>
      rcases ih hts with ⟨e, rfl, hfailed⟩ | ⟨i', j₁, j₂, rfl, hfirst, hsecond⟩
      · exact .inl ⟨e, rfl, .next ht hfailed⟩
      · exact .inr ⟨i', _ :: j₁, j₂, rfl, .next ht hfirst, hsecond⟩
    | failed ht => exact .inl ⟨_, rfl, .failed ht⟩

/-- After a success there is an entry for each turn. -/
theorem Performed.length_of_ok {ts : List (Turn H)} {i i' : Option (Instance H)} {j : Journal H}
    (h : Performed r n d ts i j (.ok i')) : j.length = ts.length := by
  induction ts generalizing i j with
  | nil =>
    cases h
    rfl
  | cons t ts ih =>
    cases h with
    | next ht hts => rw [List.length_cons, List.length_cons, ih hts]

/-- A failure is that of the turn that was made last. -/
theorem Performed.split_of_error {ts : List (Turn H)} {i : Option (Instance H)} {j : Journal H}
    {e : DependencyError} (h : Performed r n d ts i j (.error e)) :
    ∃ done t rest i' made entry f, ts = done ++ t :: rest ∧ j = made ++ [entry] ∧
      Performed r n d done i made (.ok i') ∧ t.Leaves r n d i' entry (.error f) ∧
      e = t.blame n f := by
  induction ts generalizing i j with
  | nil => cases h
  | cons t ts ih =>
    cases h with
    | next ht hts =>
      obtain ⟨done, t', rest, i', made, entry, f, rfl, rfl, hdone, ht', he⟩ := ih hts
      exact ⟨t :: done, t', rest, i', _ :: made, entry, f, rfl, rfl, .next ht hdone, ht', he⟩
    | failed ht => exact ⟨[], t, ts, i, [], _, _, rfl, rfl, .done i, ht, rfl⟩

/-- No turn is blamed for a dependency cycle as such. -/
theorem Turn.blame_ne_circular (t : Turn H) (f : Failure) (text : String) :
    t.blame n f ≠ .circular text := by
  cases t <;> exact nofun

/-! ## Creations perform their turns -/

variable {call : Call H σ} {w w' : World H σ} {j : Journal H}

/-- A call for a creation fails with the error that is blamed on it. -/
theorem ask_eq_some {α : Type} {blame : Failure → DependencyError}
    {x : Run H σ (Except Failure α)} {a : Except DependencyError α}
    (h : (ask blame x).run w = some (a, w', j)) :
    ∃ b, x w = some (b, w', j) ∧ a = b.mapError blame := by
  have hmap : (x >>= fun b => pure (b.mapError blame)) w = some (a, w', j) := by
    rw [bind_pure_comp]
    exact h
  obtain ⟨b, w₁, j₁, j₂, hx, hpure, rfl⟩ := Run.bind_eq_some.1 hmap
  obtain ⟨rfl, rfl, rfl⟩ := Run.pure_eq_some.1 hpure
  rw [List.append_nil]
  exact ⟨b, hx, rfl⟩

/-- One turn and what follows it. The answer of the call says which instance is handed on. -/
theorem ask_performed {α β : Type} {ts : List (Turn H)} {i : Option (Instance H)}
    {x : Run H σ (Except Failure α)} {f : α → Attempt H σ DependencyError β}
    {last : β → Option (Instance H)} {a : Except DependencyError β} (t : Turn H)
    (hand : α → Option (Instance H))
    (hx : ∀ b w w' j, x w = some (b, w', j) →
      ∃ entry, j = [entry] ∧ t.Leaves r n d i entry (b.map hand))
    (hf : ∀ k w₁ j', (f k).run w₁ = some (a, w', j') →
      Performed r n d ts (hand k) j' (a.map last))
    (h : (ask (t.blame n) x >>= f).run w = some (a, w', j)) :
    Performed r n d (t :: ts) i j (a.map last) := by
  obtain ⟨e, rfl, hask⟩ | ⟨k, w₁, j₁, j₂, hask, hrest, rfl⟩ := Attempt.bind_eq_some h
  all_goals
    obtain ⟨b, hcall, hb⟩ := ask_eq_some hask
    obtain ⟨entry, rfl, hentry⟩ := hx b _ _ _ hcall
    cases b
    all_goals cases hb
  · exact .failed hentry
  · exact .next hentry (hf k w₁ j₂ hrest)

theorem announce_performed {chain : List (Extension H)} {a : Except DependencyError Unit}
    (h : (announce call n d chain).run w = some (a, w', j)) :
    Performed r n d ((chain.filter (·.views.mergeAware)).map .merged) none j
      (a.map fun _ => none) := by
  induction chain generalizing w j with
  | nil =>
    obtain ⟨rfl, rfl, rfl⟩ := Run.pure_eq_some.1 h
    exact .done none
  | cons e rest ih =>
    unfold announce at h
    by_cases he : e.views.mergeAware = true
    · simp only [List.filter_cons, he, if_true, List.map_cons] at h ⊢
      refine ask_performed (.merged e) (fun _ => none) (fun b _ _ _ hcall => ?_)
        (fun _ _ _ => ih) h
      obtain ⟨inner, -, rfl⟩ := Run.within_eq_some.1 hcall
      exact ⟨_, rfl, .merged e none b inner⟩
    · simp only [List.filter_cons, he] at h ⊢
      exact ih h

/-- The instance is handed along the interceptors of a chain, which all have the same turn. -/
theorem handed_performed {turn : Extension H → Turn H}
    {x : Extension H → Instance H → Run H σ (Except Failure (Instance H))}
    {hand : List (Extension H) → Instance H → Attempt H σ DependencyError (Instance H)}
    (hnil : ∀ i, hand [] i = pure i)
    (hcons : ∀ e rest i, hand (e :: rest) i =
      if e.views.interceptor then ask ((turn e).blame n) (x e i) >>= hand rest else hand rest i)
    (hx : ∀ e i b w w' j, x e i w = some (b, w', j) →
      ∃ entry, j = [entry] ∧ (turn e).Leaves r n d (some i) entry (b.map some))
    {chain : List (Extension H)} {i : Instance H} {a : Except DependencyError (Instance H)}
    (h : (hand chain i).run w = some (a, w', j)) :
    Performed r n d ((chain.filter (·.views.interceptor)).map turn) (some i) j
      (a.map some) := by
  induction chain generalizing i w j with
  | nil =>
    rw [hnil] at h
    obtain ⟨rfl, rfl, rfl⟩ := Run.pure_eq_some.1 h
    exact .done (some i)
  | cons e rest ih =>
    rw [hcons] at h
    by_cases he : e.views.interceptor = true
    · simp only [List.filter_cons, he, if_true, List.map_cons] at h ⊢
      exact ask_performed (turn e) some (hx e i) (fun _ _ _ => ih) h
    · simp only [List.filter_cons, he] at h ⊢
      exact ih h

theorem before_performed {chain : List (Extension H)} {i : Instance H}
    {a : Except DependencyError (Instance H)}
    (h : (before call (.direct r) n chain i).run w = some (a, w', j)) :
    Performed r n d ((chain.filter (·.views.interceptor)).map .before) (some i) j
      (a.map some) := by
  refine handed_performed (fun _ => rfl) (fun _ _ _ => rfl) (fun e i b _ _ _ hcall => ?_) h
  obtain ⟨inner, -, rfl⟩ := Run.within_eq_some.1 hcall
  exact ⟨_, rfl, .before e i b inner⟩

theorem after_performed {chain : List (Extension H)} {i : Instance H}
    {a : Except DependencyError (Instance H)}
    (h : (after call (.direct r) n chain i).run w = some (a, w', j)) :
    Performed r n d ((chain.filter (·.views.interceptor)).map .after) (some i) j
      (a.map some) := by
  refine handed_performed (fun _ => rfl) (fun _ _ _ => rfl) (fun e i b _ _ _ hcall => ?_) h
  obtain ⟨inner, -, rfl⟩ := Run.within_eq_some.1 hcall
  exact ⟨_, rfl, .after e i b inner⟩

/-- A finished creation performed the turns of the chain that it began with. -/
theorem build_performed {chain : List (Extension H)} {a : Except DependencyError (Instance H)}
    (h : (build call (.direct r) n d chain).run w = some (a, w', j)) :
    Performed r n d (turns chain) none j (a.map some) := by
  unfold build at h
  unfold turns
  obtain ⟨e, rfl, hannounce⟩ | ⟨_, w₁, j₁, j₂, hannounce, hcreate, rfl⟩ :=
    Attempt.bind_eq_some h
  · exact (announce_performed hannounce).append_error _
  · refine (announce_performed hannounce).append ?_
    refine ask_performed .create some (fun b _ _ _ hcall => ?_) (fun raw w₂ j' hrest => ?_)
      hcreate
    · obtain ⟨inner, -, rfl⟩ := Run.within_eq_some.1 hcall
      exact ⟨_, rfl, .create b inner⟩
    · obtain ⟨e, rfl, hbefore⟩ | ⟨i, w₃, j₃, j₄, hbefore, hafter, rfl⟩ :=
        Attempt.bind_eq_some hrest
      · exact (before_performed hbefore).append_error _
      · exact (before_performed hbefore).append (after_performed hafter)

end Creation

end Startup
