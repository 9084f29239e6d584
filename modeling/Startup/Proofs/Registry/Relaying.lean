import Startup.Proofs.Registry.Coherent
import Startup.Proofs.Registry.Wiring
import Startup.Proofs.Settles

/-!
Failures within failures. A failure is nested: it may wrap another one, and show it with a text of
its own in front or without one. At the innermost place there is a failure in somebody's own words,
the origin of it all.

Failures are nested where they are passed on. A factory that resolves a component and cannot get it
fails with the error that it is given, and so does the factory that needs its component in turn.
Each creation on the way puts its name in front.

Main statements: `Failure.Nests.keeps`, that the origin can be found again in the chain of causes
and in the text; `FailsAlong.resolve`, for a chain of factories of any length.
-/

namespace Startup

variable {H : Host} {σ : Type}

/-! ## Nested failures -/

namespace Failure

/-- What a failure is seen from outside: an error in its own words, a wrapper of another one, or a
transparent wrapper, which shows what is inside of it as if it were not there. -/
inductive Layer where
  | root
  | wraps (inner : Failure)
  | shows (inner : Failure)

def layer : Failure → Layer
  | plain _ | misuse _ => .root
  | dependency (.creationFailed _ source) => .wraps source
  | dependency (.interceptorFailed _ _ source) => .wraps source
  | dependency _ => .root
  | extension (.callback _ _ source) => .wraps source
  | extension (.dependency e) => .shows (dependency e)
  | config (.fileUnreadable reason) => .wraps (plain reason)
  | config (.malformed source) => .wraps source
  | config _ => .root
  | infrastructure (.config e) => .wraps (config e)
  | infrastructure (.extension e) => .shows (extension e)
  | infrastructure (.dependency e) => .wraps (dependency e)
  | infrastructure (.bootstrapFailed _) => .root

/-- A failure `f` that consists of `origin` and of `count` wrappers around it, those that are
transparent not counted. -/
inductive Nests (origin : Failure) : Nat → Failure → Prop
  | root (h : origin.layer = .root) : Nests origin 0 origin
  | wraps {count : Nat} {f inner : Failure} (h : f.layer = .wraps inner)
      (hinner : Nests origin count inner) : Nests origin (count + 1) f
  | shows {count : Nat} {f inner : Failure} (h : f.layer = .shows inner)
      (hinner : Nests origin count inner) : Nests origin count f

/-- The text of `f` ends with that of `g`. -/
def EndsWith (f g : Failure) : Prop := ∃ before, f.message = before ++ g.message

variable {f g : Failure}

theorem EndsWith.refl (f : Failure) : f.EndsWith f := ⟨"", by rw [String.empty_append]⟩

theorem EndsWith.trans {k : Failure} (h : f.EndsWith g) (h' : g.EndsWith k) : f.EndsWith k := by
  obtain ⟨before, hf⟩ := h
  obtain ⟨before', hg⟩ := h'
  exact ⟨before ++ before', by rw [hf, hg, String.append_assoc]⟩

/-! ### One layer -/

theorem causes_of_root (h : f.layer = .root) : f.causes = [] := by
  cases f with
  | plain | misuse => rfl
  | dependency e => cases e <;> first | rfl | cases h
  | extension e => cases e <;> cases h
  | config e => cases e <;> first | rfl | cases h
  | infrastructure e => cases e <;> first | rfl | cases h

theorem causes_of_wraps (h : f.layer = .wraps g) : f.causes = g :: g.causes := by
  unfold layer at h
  split at h <;> cases h <;> rfl

theorem causes_of_shows (h : f.layer = .shows g) : f.causes = g.causes := by
  unfold layer at h
  split at h <;> cases h <;> rfl

theorem message_of_wraps (h : f.layer = .wraps g) : f.EndsWith g := by
  unfold layer at h
  split at h <;> cases h <;> exact ⟨_, rfl⟩

theorem message_of_shows (h : f.layer = .shows g) : f.message = g.message := by
  unfold layer at h
  split at h <;> cases h <;> rfl

theorem lt_of_wraps (h : f.layer = .wraps g) : sizeOf g < sizeOf f := by
  unfold layer at h
  split at h <;> cases h <;> simp <;> omega

theorem lt_of_shows (h : f.layer = .shows g) : sizeOf g < sizeOf f := by
  unfold layer at h
  split at h <;> cases h <;> simp

/-! ### All layers -/

/-- Every failure has an origin. -/
theorem exists_nests (f : Failure) : ∃ (origin : Failure) (count : Nat), origin.Nests count f := by
  cases h : f.layer with
  | root => exact ⟨f, 0, .root h⟩
  | wraps g =>
    have hlt := lt_of_wraps h
    obtain ⟨origin, count, hg⟩ := exists_nests g
    exact ⟨origin, count + 1, .wraps h hg⟩
  | shows g =>
    have hlt := lt_of_shows h
    obtain ⟨origin, count, hg⟩ := exists_nests g
    exact ⟨origin, count, .shows h hg⟩
termination_by sizeOf f

variable {origin : Failure} {count : Nat}

theorem Nests.length_causes (h : origin.Nests count f) : f.causes.length = count := by
  induction h with
  | root h => rw [causes_of_root h, List.length_nil]
  | wraps h _ ih => rw [causes_of_wraps h, List.length_cons, ih]
  | shows h _ ih => rw [causes_of_shows h, ih]

theorem Nests.message_last (h : origin.Nests count f) :
    (f.causes.getLastD f).message = origin.message := by
  induction h with
  | root h => rw [causes_of_root h, List.getLastD_nil]
  | wraps h _ ih => rw [causes_of_wraps h, List.getLastD_cons, ih]
  | @shows _ f inner h _ ih =>
    rw [causes_of_shows h, ← ih]
    cases inner.causes with
    | nil => exact message_of_shows h
    | cons g rest => rw [List.getLastD_cons, List.getLastD_cons]

theorem Nests.endsWith (h : origin.Nests count f) : f.EndsWith origin := by
  induction h with
  | root => exact .refl origin
  | wraps h _ ih => exact (message_of_wraps h).trans ih
  | shows h _ ih =>
    obtain ⟨before, hinner⟩ := ih
    exact ⟨before, (message_of_shows h).trans hinner⟩

/-- Each link leads to the next one, and its text is the end of the whole text. -/
theorem Nests.link {outer inner : List Failure} (h : origin.Nests count f)
    (hf : f.causes = outer ++ g :: inner) : g.causes = inner ∧ f.EndsWith g := by
  induction h generalizing outer with
  | root h =>
    rw [causes_of_root h] at hf
    simp at hf
  | wraps h _ ih =>
    rw [causes_of_wraps h] at hf
    cases outer with
    | nil =>
      obtain ⟨rfl, hrest⟩ := List.cons.inj hf
      exact ⟨hrest, message_of_wraps h⟩
    | cons k outer =>
      obtain ⟨-, hrest⟩ := List.cons.inj hf
      obtain ⟨hg, hends⟩ := ih hrest
      exact ⟨hg, (message_of_wraps h).trans hends⟩
  | shows h _ ih =>
    rw [causes_of_shows h] at hf
    obtain ⟨hg, before, hinner⟩ := ih hf
    exact ⟨hg, before, (message_of_shows h).trans hinner⟩

/-- Between the last link and the origin there are only transparent wrappers. -/
theorem Nests.last (h : origin.Nests count f) : origin.Nests 0 (f.causes.getLastD f) := by
  induction h with
  | root h =>
    rw [causes_of_root h, List.getLastD_nil]
    exact .root h
  | wraps h _ ih =>
    rw [causes_of_wraps h, List.getLastD_cons]
    exact ih
  | @shows _ f inner h _ ih =>
    rw [causes_of_shows h]
    cases hinner : inner.causes with
    | nil =>
      rw [hinner] at ih
      exact .shows h ih
    | cons g rest =>
      rw [hinner, List.getLastD_cons] at ih
      rw [List.getLastD_cons]
      exact ih

/-- How the origin is kept in `f`, which nests it in `count` wrappers. -/
structure Keeps (f origin : Failure) (count : Nat) : Prop where
  /-- A wrapper that is not transparent is one link in the chain of causes. -/
  length_causes : f.causes.length = count
  /-- Each link leads to the next one, and its text is the end of the whole text. -/
  link : ∀ outer g inner, f.causes = outer ++ g :: inner → g.causes = inner ∧ f.EndsWith g
  /-- The last link, or the failure itself if there is none, is the origin, or shows it as it is. -/
  last : origin.Nests 0 (f.causes.getLastD f)
  message_last : (f.causes.getLastD f).message = origin.message
  endsWith : f.EndsWith (f.causes.getLastD f)

theorem Nests.keeps (h : origin.Nests count f) : f.Keeps origin count where
  length_causes := h.length_causes
  link _ _ _ hf := h.link hf
  last := h.last
  message_last := h.message_last
  endsWith := by
    obtain ⟨before, hf⟩ := h.endsWith
    exact ⟨before, by rw [hf, h.message_last]⟩

end Failure

/-! ## Programs that fail -/

/-- A program that answers `a`, whatever the host does before. -/
inductive Program.Gives {α : Type} (a : α) : Program H σ α → Prop
  | done : Gives a (.pure a)
  | aside {q : Request H σ} {next : q.Answer → Program H σ α} (hq : q.IsAside)
      (hnext : ∀ x, Gives a (next x)) : Gives a (.ask q next)

/-- A program that resolves `n` in registry `r`, and fails with the error of that if it does. -/
inductive Program.Relays (r : ObjectId) (n : ComponentName) {α : Type} :
    Program H σ (Except Failure α) → Prop
  | aside {q : Request H σ} {next : q.Answer → Program H σ (Except Failure α)} (hq : q.IsAside)
      (hnext : ∀ x, Relays r n (next x)) : Relays r n (.ask q next)
  | resolve {v : View}
      {next : Except DependencyError (Instance H) → Program H σ (Except Failure α)}
      (hv : v.registry = r)
      (herror : ∀ e, (next (.error e)).Gives (Except.error (.dependency e))) :
      Relays r n (.ask (.resolve v n) next)

/-- A program that resolves one name after the other relays the error of the first one. -/
theorem Program.Wires.relays {r : ObjectId} {α : Type} {n : ComponentName}
    {names : List ComponentName} {x : Program H σ (Except Failure α)}
    (hx : x.Wires r (n :: names)) : x.Relays r n := by
  generalize hall : n :: names = all at hx
  induction hx with
  | done => cases hall
  | aside hq _ ih => exact .aside hq fun x => ih x hall
  | resolve hv _ herror =>
    cases hall
    refine .resolve hv fun e => ?_
    rw [herror]
    exact .done

section Programs

variable {α : Type} {b : Behaviour H σ} {k : Nat} {w : World H σ}

theorem Program.Gives.settles {a : α} {x : Program H σ α} (hx : x.Gives a) :
    Settles k (fun depth => b.run depth x) w fun a' _ => a' = a := by
  induction hx generalizing w with
  | done => exact Settles.pure rfl
  | aside hq _ ih => exact (Settles.aside hq w).ask fun x _ _ => ih x

theorem Program.Relays.settles {r : ObjectId} {n : ComponentName} {e : DependencyError}
    {x : Program H σ (Except Failure α)} (hx : x.Relays r n)
    (hresolve : ∀ (v : View) (w' : World H σ), v.registry = r → w'.registries = w.registries →
      Settles k (fun depth => (v.resolve (b.call depth) n).run) w' fun a _ => a = .error e) :
    Settles k (fun depth => b.run depth x) w fun a _ => a = .error (.dependency e) := by
  induction hx generalizing w with
  | aside hq _ ih =>
    refine (Settles.aside hq w).ask fun x w' hw' => ih x fun v w'' hv hw'' => ?_
    exact hresolve v w'' hv (hw''.trans hw')
  | @resolve v next hv herror =>
    refine (hresolve v w hv rfl).ask fun a w' ha => ?_
    rw [ha]
    exact (herror e).settles

end Programs

/-! ## Creations that fail -/

section Creation

variable {call : Call H σ} {b : Behaviour H σ} {k : Nat} {w : World H σ} {n : ComponentName}
  {d : Definition H} {chain : List (Extension H)}

/-- Where no interceptor asks to be shown definitions, none is. -/
theorem Creation.announce_unshown (hchain : ∀ e ∈ chain, e.views.mergeAware = false) :
    announce call n d chain = pure () := by
  induction chain with
  | nil => rfl
  | cons e rest ih =>
    obtain ⟨he, hrest⟩ := List.forall_mem_cons.1 hchain
    rw [announce, ih hrest, he]
    rfl

/-- A component whose factory fails is not shown to any interceptor. -/
theorem Settles.build_failed (v : View) {f : Failure}
    (hchain : ∀ e ∈ chain, e.views.mergeAware = false)
    (h : Settles k (fun depth => b.call depth (.create d v)) w fun a _ => a = .error f) :
    Settles k (fun depth => (Creation.build (b.call depth) v n d chain).run) w
      fun a _ => a = .error (.creationFailed n.text f) := by
  have hask : Settles k (fun depth => (Creation.ask (.creationFailed n.text)
      (Callback.perform (b.call depth) (.create d v))).run) w
        fun a _ => a = .error (.creationFailed n.text f) := by
    refine Settles.map (h.within.mono fun a w' ha => ?_)
    rw [ha]
    rfl
  simp only [Creation.build, Creation.announce_unshown hchain, pure_bind, Attempt.run_bind]
  refine hask.bind fun a w' ha => ?_
  rw [ha]
  exact Settles.pure rfl

end Creation

/-! ## Chains -/

/-- The error of a failure `f` that arose in the creation of the last of some components, each of
which was created for the one before. -/
def Failure.inCreations (f : Failure) : List ComponentName → Failure
  | [] => f
  | n :: rest => .dependency (.creationFailed n.text (f.inCreations rest))

namespace Failure

variable {f : Failure} {names : List ComponentName}

theorem nests_inCreations (hf : f.layer = .root) :
    f.Nests names.length (f.inCreations names) := by
  induction names with
  | nil => exact .root hf
  | cons n rest ih => exact .wraps rfl ih

/-- A failure in somebody's own words is the last of the causes itself. -/
theorem getLast?_causes_inCreations (hf : f.layer = .root) (n : ComponentName) :
    (f.inCreations (n :: names)).causes.getLast? = some f := by
  induction names generalizing n with
  | nil =>
    rw [causes_of_wraps (f := f.inCreations [n]) (g := f) rfl, causes_of_root hf]
    rfl
  | cons m rest ih =>
    rw [causes_of_wraps (f := f.inCreations (n :: m :: rest)) rfl, List.getLast?_cons, ih m]
    rfl

end Failure

/-- From `n` on the factories of the definitions pass a failure `f` on: each one needs the next
component in the list and relays its error, and that of the last one fails with `f`. -/
inductive FailsAlong (b : Behaviour H σ) (r : ObjectId)
    (definitions : OrderedMap ComponentName (Definition H)) (f : Failure) :
    ComponentName → List ComponentName → Prop
  | last {n : ComponentName} {d : Definition H} (hd : definitions.get? n = some d)
      (hfails : Program.Gives (Except.error f) (b (.create d (.direct r)))) :
      FailsAlong b r definitions f n []
  | relay {n m : ComponentName} {rest : List ComponentName} {d : Definition H}
      (hd : definitions.get? n = some d)
      (hrelays : Program.Relays r m (b (.create d (.direct r))))
      (hrest : FailsAlong b r definitions f m rest) :
      FailsAlong b r definitions f n (m :: rest)

/-- A registry that will have to create these components, without anyone being shown the
definitions. (A registry that was empty once is coherent at every moment since:
`Registry.Coherent.of_run`.) -/
structure Registry.Ready (definitions : OrderedMap ComponentName (Definition H))
    (names : List ComponentName) (s : Registry H) : Prop where
  definitions_eq : s.definitions = definitions
  coherent : s.Coherent
  unshown : ∀ e ∈ s.interceptors, e.views.mergeAware = false
  uncached : ∀ n ∈ names, s.singletons.get? n = none
  idle : ∀ n ∈ names, n ∉ s.inCreation

section Chains

variable {b : Behaviour H σ} {r : ObjectId} {k : Nat} {w : World H σ} {n : ComponentName}
  {rest : List ComponentName} {definitions : OrderedMap ComponentName (Definition H)}
  {s : Registry H} {f : Failure}

/-- The creation of the first component has begun. -/
theorem Registry.Ready.begin (h : s.Ready definitions (n :: rest)) (hn : n ∉ rest) :
    ((s.lookup n).2.beginCreation n).Ready definitions rest where
  definitions_eq := by
    rw [lookup_eq]
    exact h.definitions_eq
  coherent := h.coherent.after_lookup n
  unshown := by
    rw [lookup_eq]
    exact h.unshown
  uncached m hm := by
    rw [lookup_eq]
    exact h.uncached m (List.mem_cons_of_mem n hm)
  idle m hm := by
    rw [lookup_eq]
    show m ∉ s.inCreation ++ [n]
    rw [List.mem_append, List.mem_singleton]
    rintro (hold | rfl)
    · exact h.idle m (List.mem_cons_of_mem n hm) hold
    · exact hn hm

/-- One component of a chain: if its factory fails, so does its creation. -/
theorem resolve_failed {v : View} {d : Definition H} (hv : v.registry = r)
    (hw : (w.registries.get r).Ready definitions (n :: rest)) (hn : n ∉ rest)
    (hd : definitions.get? n = some d)
    (hfactory : ∀ w' : World H σ, (w'.registries.get r).Ready definitions rest →
      Settles k (fun depth => b.run depth (b (.create d (.direct r)))) w'
        fun a _ => a = .error f) :
    Settles (k + 1) (fun depth => (v.resolve (b.call depth) n).run) w
      fun a _ => a = .error (.creationFailed n.text f) := by
  subst hv
  have hnone := hw.uncached n List.mem_cons_self
  have hlook : ((w.registries.get v.registry).lookup n).1 = some d := by
    rw [hw.coherent.lookup, hw.definitions_eq, hd]
  have hbegin := hw.begin hn
  refine Settles.resolve rfl (fun i hi => ?_) (fun _ hunknown => ?_) fun d' _ hd' => ?_
  · rw [hnone] at hi
    cases hi
  · rw [hlook] at hunknown
    cases hunknown
  · obtain rfl := Option.some.inj (hlook.symm.trans hd')
    have hidle : n ∉ ((w.setRegistry v.registry
        ((w.registries.get v.registry).lookup n).2).registries.get v.registry).inCreation := by
      rw [World.get_setRegistry_self, Registry.lookup_eq]
      exact hw.idle n List.mem_cons_self
    refine Settles.create hidle ?_
    rw [World.get_setRegistry_self]
    refine (Settles.build_failed (f := f) _ ?_ (Settles.call (hfactory _ ?_))).mono ?_
    · exact hbegin.unshown
    · rw [World.get_setRegistry_self]
      exact hbegin
    · rintro a w' rfl
      rfl

/-- A resolution at the head of a chain fails with what the last factory fails with, and names all
components on the way. -/
theorem FailsAlong.resolve (h : FailsAlong b r definitions f n rest)
    (hnodup : (n :: rest).Nodup) {v : View} (hv : v.registry = r)
    (hw : (w.registries.get r).Ready definitions (n :: rest)) :
    Settles (rest.length + 1) (fun depth => (v.resolve (b.call depth) n).run) w
      fun a _ => a = .error (.creationFailed n.text (f.inCreations rest)) := by
  induction h generalizing v w with
  | last hd hfails =>
    exact resolve_failed hv hw (List.nodup_cons.1 hnodup).1 hd fun w' _ => hfails.settles
  | @relay n m rest d hd hrelays _ ih =>
    obtain ⟨hn, hrest⟩ := List.nodup_cons.1 hnodup
    refine resolve_failed hv hw hn hd fun w' hw' => ?_
    refine hrelays.settles fun u w'' hu hw'' => ih hrest hu ?_
    rw [hw'']
    exact hw'

end Chains

namespace Scenario

/-- A component whose factory fails. -/
def failing (name text : String) : DefinitionSpec :=
  .mk name .plain [] .unordered .application .singleton false [] [.mk {} (.fail text)] (.plain name)

theorem failing_gives (r : ObjectId) (name text : String) :
    Program.Gives (Except.error (.plain text))
      (behaviour (.create (failing name text).toDefinition (.direct r))) :=
  .aside trivial fun _ => .done

end Scenario

end Startup
