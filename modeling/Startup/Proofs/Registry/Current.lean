import Startup.Proofs.Registry.Coherent
import Startup.Proofs.Registry.Resolution

/-!
Where a creation gets its definition from. A component is created for nobody but a resolution of its
name, and the definition that is used is looked up when the resolution begins, perhaps in the cache.
As the cache holds nothing but what is registered, it is the one that is registered at that moment.

Main statement: `Journal.current_of_run`.
-/

namespace Startup

variable {H : Host} {σ : Type}

/-! ## Creations and their resolutions -/

/-- Every creation stands directly in the entry of a resolution of its own name. -/
def Journal.Prompted (j : Journal H) : Prop :=
  ∀ past r n d outer chain result body,
    Occurs (.scope (.creation r n d outer chain result) body) past j →
      ∃ before v answer, past = before ++ [.opens (.resolution v n answer)] ∧ v.registry = r

namespace Journal.Prompted

variable {j k : Journal H}

theorem of_facts (h : ∀ e ∈ j, ∃ f, e = .fact f) : Prompted j := by
  intro past r n d outer chain result body hoccurs
  obtain ⟨f, hf⟩ := hoccurs.of_facts h
  cases hf

theorem append (hj : Prompted j) (hk : Prompted k) : Prompted (j ++ k) := by
  intro past r n d outer chain result body hoccurs
  rcases hoccurs.of_append with hfirst | ⟨past', rfl, hsecond⟩
  · exact hj past r n d outer chain result body hfirst
  · obtain ⟨before, v, answer, rfl, hv⟩ := hk past' r n d outer chain result body hsecond
    exact ⟨_, v, answer, (List.append_assoc ..).symm, hv⟩

theorem scope {s : Scope H} (hs : ∀ r n d outer chain result,
    s ≠ .creation r n d outer chain result) (hj : Prompted j) : Prompted [.scope s j] := by
  intro past r n d outer chain result body hoccurs
  rcases hoccurs.of_scope with ⟨heq, -⟩ | ⟨past', rfl, hinside⟩
  · cases heq
    exact absurd rfl (hs r n d outer chain result)
  · obtain ⟨before, v, answer, rfl, hv⟩ := hj past' r n d outer chain result body hinside
    exact ⟨.opens s :: before, v, answer, rfl, hv⟩

/-- A creation as it stands in the entry of its resolution. -/
theorem created {v : View} {n : ComponentName} {d : Definition H} {outer : List ComponentName}
    {chain : List (Extension H)} {a result : Except DependencyError (Instance H)}
    (hj : Prompted j) : Prompted
      [.scope (.resolution v n a) [.scope (.creation v.registry n d outer chain result) j]] := by
  intro past r n' d' outer' chain' result' body hoccurs
  rcases hoccurs.of_scope with ⟨heq, -⟩ | ⟨past', rfl, hcreation⟩
  · cases heq
  · rcases hcreation.of_scope with ⟨heq, rfl⟩ | ⟨past'', rfl, hinside⟩
    · cases heq
      exact ⟨[], v, a, rfl, rfl⟩
    · obtain ⟨before, v', answer, rfl, hv⟩ := hj past'' r n' d' outer' chain' result' body hinside
      exact ⟨_ :: _ :: before, v', answer, rfl, hv⟩

end Journal.Prompted

/-- A run creates nothing that was not asked for. -/
def Run.Prompts {α : Type} (x : Run H σ α) : Prop :=
  ∀ w a w' j, x w = some (a, w', j) → Journal.Prompted j

namespace Run.Prompts

open Journal (Prompted)

variable {α β : Type}

theorem of_records {x : Run H σ α} (h : x.Records) : Prompts x :=
  fun w a w' j hrun => .of_facts (h w a w' j hrun)

theorem bind {x : Run H σ α} {f : α → Run H σ β} (hx : Prompts x) (hf : ∀ a, Prompts (f a)) :
    Prompts (x >>= f) := by
  intro w b w₂ j h
  obtain ⟨a, w₁, j₁, j₂, h₁, h₂, rfl⟩ := Run.bind_eq_some.1 h
  exact (hx w a w₁ j₁ h₁).append (hf a w₁ b w₂ j₂ h₂)

theorem within {s : α → Scope H} {x : Run H σ α} (hs : ∀ a, (s a).IsAside) (hx : Prompts x) :
    Prompts (Run.within s x) := by
  intro w a w' j h
  obtain ⟨j', h', rfl⟩ := Run.within_eq_some.1 h
  refine .scope (fun r n d outer chain result heq => ?_) (hx w a w' j' h')
  have haside := hs a
  rw [heq] at haside
  exact haside

theorem resolve {call : Call H σ} (v : View) (n : ComponentName)
    (hbuild : ∀ d chain, Prompts (Creation.build call (.direct v.registry) n d chain).run) :
    Prompts (v.resolve call n).run := by
  intro w a w' j h
  have hempty : Prompted [.scope (.resolution v n a) []] :=
    .scope (fun _ _ _ _ _ _ => nofun) (.of_facts nofun)
  obtain ⟨i, -, rfl, rfl, rfl⟩ | ⟨-, ⟨-, rfl, rfl, rfl⟩ | ⟨d, j', -, hcreate, rfl⟩⟩ :=
    View.resolve_eq_some call h
  · exact hempty
  · exact hempty
  · obtain ⟨-, rfl, rfl, rfl⟩ | ⟨-, result, w₁, j₁, hbuilt, rfl, rfl, rfl⟩ :=
      Creation.create_eq_some call hcreate
    · exact hempty
    · exact .created (hbuild _ _ _ _ _ _ hbuilt)

theorem coarse : Coarse (fun {α} (x : Run H σ α) => Prompts x) where
  pure a := of_records (.pure a)
  bind := bind
  ask f := of_records (.ask f)
  fresh := of_records .fresh
  change f _ := of_records (.change f)
  record f _ := of_records (.record f)
  within _ _ hs hx := within hs hx

theorem closed {call : Call H σ} (hcall : ∀ cb, Prompts (call cb)) :
    Closed call (fun {α} (x : Run H σ α) => Prompts x) :=
  coarse.closed (fun r d => of_records (Registry.register_edits r d).records)
    (fun r n => of_records (Registry.remove_edits r n).records)
    (fun r n i => of_records (Registry.registerInstance_edits r n i).records)
    (fun v e => of_records (v.install_edits e).records)
    (fun v => of_records v.clearCache_edits.records) (fun v n h => resolve v n h) hcall

/-- Programs create nothing that was not asked for. -/
theorem program (b : Behaviour H σ) (depth : Nat) (x : Program H σ α) :
    Prompts (b.run depth x) :=
  (b.closed (fun _ => of_records .exceeded) (fun _ => closed) depth).program
    (fun _ => of_records .exceeded) depth x

end Run.Prompts

/-! ## The definition of a creation -/

/-- Every creation for registry `r` is that of a resolution, and it is from the definition that was
registered when the resolution began: it is shown to the interceptors of the chain that care, and
its factory makes the instance. -/
def Journal.Current (r : ObjectId) (s : Registry H) (j : Journal H) : Prop :=
  ∀ past n d outer chain result body,
    Occurs (.scope (.creation r n d outer chain result) body) past j →
      ∃ before v answer, past = before ++ [.opens (.resolution v n answer)] ∧ v.registry = r ∧
        ((Ledger.of s).after r before).registry.definitions.get? n = some d ∧
        Creation.Performed r n d (Creation.turns chain) none body (result.map some)

/-- No creation is from a definition that is only remembered. -/
theorem Journal.current_of_run {α : Type} (b : Behaviour H σ) (depth : Nat) (x : Program H σ α)
    (r : ObjectId) {w w' : World H σ} {a : α} {j : Journal H}
    (hcoherent : (w.registries.get r).Coherent) (hrun : b.run depth x w = some (a, w', j)) :
    Journal.Current r (w.registries.get r) j := by
  intro past n d outer chain result body hoccurs
  obtain ⟨hlaw, -, htells⟩ := Ledger.of_run b depth x r hrun
  obtain ⟨before, v, answer, rfl, hv⟩ :=
    Run.Prompts.program b depth x w a w' j hrun past r n d outer chain result body hoccurs
  refine ⟨before, v, answer, rfl, hv, ?_, htells _ _ body hoccurs rfl⟩
  obtain ⟨hpast, hentry⟩ := hlaw.at_entry hoccurs
  have hremembered := (hentry.1 rfl).1
  have hregistered := (Registry.Coherent.after hcoherent hpast) n d hremembered
  rwa [Ledger.after_append, Ledger.after_single, Ledger.next_resolution, if_pos hv,
    Registry.definitions_prepare] at hregistered

end Startup
