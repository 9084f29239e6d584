import Startup.Proofs.Registry.Singletons

/-!
The definitions of a registry, and their order, as the image of a history. What is registered under
a name is what was put in there last, unless it was taken out since. The names stand in the order in
which they came in, where a name that was taken out and put back came in when it was put back.

Main statement: `definitions_follow_history`, for every moment of a run that began with an empty
registry, in whatever callback that moment falls. On the way, `Parts.of_after`: a list of names and
a function from names to definitions that are kept in step by every change are the names and the
values of one map; and `Registry.register_ends` and `Registry.remove_ends`, what an operation has
done when it answers.
-/

namespace Startup

variable {H : Host} {σ : Type}

/-! ## What a history says of a name -/

/-- A definition of `n` is put in. -/
def Moment.Defines (r : ObjectId) (n : ComponentName) : Moment H → Prop
  | .fact (.defined r' d _) => r' = r ∧ d.name = n
  | _ => False

/-- The definition of `n` is taken out. -/
def Moment.Undefines (r : ObjectId) (n : ComponentName) : Moment H → Prop
  | .fact (.removed r' k) => r' = r ∧ k = n
  | _ => False

theorem Moment.Defines.revises {r : ObjectId} {n : ComponentName} {m : Moment H}
    (h : m.Defines r n) : m.Revises r n := by
  unfold Defines at h
  split at h
  · exact h
  · exact h.elim

theorem Moment.Undefines.revises {r : ObjectId} {n : ComponentName} {m : Moment H}
    (h : m.Undefines r n) : m.Revises r n := by
  unfold Undefines at h
  split at h
  · exact h
  · exact h.elim

/-- `d` was put in under `n` and since then nothing changed there. -/
def Latest (r : ObjectId) (past : List (Moment H)) (n : ComponentName) (d : Definition H) : Prop :=
  ∃ before overrides since, past = before ++ .fact (.defined r d overrides) :: since ∧
    d.name = n ∧ Unrevised r n since

/-- Every definition that was put in under `n` was taken out later. -/
def Gone (r : ObjectId) (n : ComponentName) (past : List (Moment H)) : Prop :=
  ∀ before m since, past = before ++ m :: since → m.Defines r n → ∃ x ∈ since, x.Undefines r n

/-- The name `n` came in right after `before`, for the first time since it was gone, and has not
been taken out since. -/
def Entered (r : ObjectId) (past : List (Moment H)) (n : ComponentName)
    (before : List (Moment H)) : Prop :=
  Gone r n before ∧ ∃ m since, past = before ++ m :: since ∧ m.Defines r n ∧
    ∀ x ∈ since, ¬ x.Undefines r n

section Snoc

variable {r : ObjectId} {past before : List (Moment H)} {n : ComponentName} {m : Moment H}

/-- A moment of a longer history is the last one, or it was there before. -/
theorem split_snoc {α : Type} {l before since : List α} {x m : α}
    (h : l ++ [m] = before ++ x :: since) :
    (l = before ∧ m = x ∧ since = []) ∨ ∃ rest, since = rest ++ [m] ∧ l = before ++ x :: rest := by
  rcases since.eq_nil_or_concat with rfl | ⟨rest, y, rfl⟩
  · obtain ⟨rfl, hx⟩ := List.append_inj' h rfl
    exact .inl ⟨rfl, by simpa using hx, rfl⟩
  · rw [List.concat_eq_append] at h ⊢
    rw [← List.cons_append, ← List.append_assoc] at h
    obtain ⟨rfl, hy⟩ := List.append_inj' h rfl
    exact .inr ⟨rest, by simpa using hy.symm, rfl⟩

theorem Latest.snoc {d : Definition H} (h : Latest r past n d) (hm : ¬ m.Revises r n) :
    Latest r (past ++ [m]) n d := by
  obtain ⟨before, overrides, since, rfl, hn, hsince⟩ := h
  exact ⟨before, overrides, since ++ [m], by simp, hn, unrevised_snoc.2 ⟨hsince, hm⟩⟩

theorem Gone.nil : Gone r n ([] : List (Moment H)) := by
  intro before m since h
  simp at h

theorem Gone.snoc (h : Gone r n past) (hm : ¬ m.Defines r n) : Gone r n (past ++ [m]) := by
  intro before x since hsplit hx
  obtain ⟨-, rfl, -⟩ | ⟨rest, rfl, hpast⟩ := split_snoc hsplit
  · exact absurd hx hm
  · obtain ⟨y, hy, hundefines⟩ := h before x rest hpast hx
    exact ⟨y, List.mem_append_left _ hy, hundefines⟩

/-- Once it is taken out, a name is gone. -/
theorem gone_of_undefines (hm : m.Undefines r n) : Gone r n (past ++ [m]) := by
  intro before x since hsplit hx
  obtain ⟨-, rfl, -⟩ | ⟨rest, rfl, -⟩ := split_snoc hsplit
  · exfalso
    unfold Moment.Defines at hx
    split at hx
    · exact hm
    · exact hx
  · exact ⟨m, by simp, hm⟩

theorem Entered.snoc (h : Entered r past n before) (hm : ¬ m.Undefines r n) :
    Entered r (past ++ [m]) n before := by
  obtain ⟨hgone, x, since, rfl, hx, hsince⟩ := h
  refine ⟨hgone, x, since ++ [m], by simp, hx, ?_⟩
  exact List.forall_mem_append.2 ⟨hsince, by simpa using hm⟩

/-- A name that is gone comes in at the end. -/
theorem entered_of_defines (h : Gone r n past) (hm : m.Defines r n) :
    Entered r (past ++ [m]) n past :=
  ⟨h, m, [], rfl, hm, by simp⟩

theorem Entered.of_snoc (h : Entered r (past ++ [m]) n before) :
    Entered r past n before ∨ before = past ∧ Gone r n past := by
  obtain ⟨hgone, x, since, hsplit, hx, hsince⟩ := h
  obtain ⟨rfl, -, -⟩ | ⟨rest, rfl, hpast⟩ := split_snoc hsplit
  · exact .inr ⟨rfl, hgone⟩
  · exact .inl ⟨hgone, x, rest, hpast, hx, fun y hy => hsince y (List.mem_append_left _ hy)⟩

/-- A name that came in and was not taken out is not gone. -/
theorem Entered.not_gone (h : Entered r past n before) : ¬ Gone r n past := by
  intro hgone
  obtain ⟨-, m, since, hsplit, hm, hsince⟩ := h
  obtain ⟨x, hx, hundefines⟩ := hgone before m since hsplit hm
  exact hsince x hx hundefines

theorem Entered.length_lt (h : Entered r past n before) : before.length < past.length := by
  obtain ⟨-, m, since, rfl, -⟩ := h
  simp

end Snoc

/-! ## Definitions of a ledger -/

namespace Ledger

variable {r : ObjectId} {l : Ledger H}

/-- The three ways in which a moment treats the definitions. -/
theorem Step.definitions {m : Moment H} {s : Registry H} (h : l.Step r m s) :
    (∃ d, m = .fact (.defined r d (l.registry.definitions.contains d.name)) ∧
      d.name.isBlank = false ∧ s.definitions = l.registry.definitions.insert d.name d) ∨
    (∃ n, m = .fact (.removed r n) ∧ l.registry.definitions.contains n = true ∧
      s.definitions = l.registry.definitions.erase n) ∨
    ((∀ n, ¬ m.Revises r n) ∧ s.definitions = l.registry.definitions) := by
  cases h with
  | defined d hname => exact .inl ⟨d, rfl, hname, rfl⟩
  | removed n hn => exact .inr (.inl ⟨n, rfl, hn, rfl⟩)
  | kept | installed | cleared | begun => exact .inr (.inr ⟨fun _ => id, rfl⟩)
  | resolution => exact .inr (.inr ⟨fun _ => id, Registry.definitions_prepare⟩)
  | ended => exact .inr (.inr ⟨fun _ => id, Registry.definitions_conclude _ _⟩)
  | elsewhere hm =>
    refine .inr (.inr ⟨fun n hn => ?_, rfl⟩)
    obtain ⟨d, overrides, rfl, -⟩ | rfl := hn.eq
    · exact hm rfl
    · exact hm rfl

/-- The order and the values of definitions, in terms of what has happened. -/
structure Shelved (r : ObjectId) (past : List (Moment H))
    (m : OrderedMap ComponentName (Definition H)) : Prop where
  /-- A name that is not listed is gone. -/
  gone : ∀ n, n ∉ m.keys → Gone r n past
  entered : ∀ n ∈ m.keys, ∃ before, Entered r past n before
  /-- Of two names the first one came in earlier. -/
  order : m.keys.Pairwise fun a b => ∀ p q, Entered r past a p → Entered r past b q →
    p.length < q.length
  latest : ∀ n d, m.get? n = some d → Latest r past n d
  names : ∀ n ∈ m.keys, n.isBlank = false

variable {past : List (Moment H)} {m : OrderedMap ComponentName (Definition H)} {x : Moment H}

theorem shelved_empty : Shelved r ([] : List (Moment H)) ∅ where
  gone _ _ := Gone.nil
  entered n hn := by simp at hn
  order := List.Pairwise.nil
  latest n d hd := by simp at hd
  names n hn := by simp at hn

/-- A name that stood there before came in where it did. -/
theorem Shelved.of_snoc {n : ComponentName} {before : List (Moment H)} (h : Shelved r past m)
    (hn : n ∈ m.keys) (hentered : Entered r (past ++ [x]) n before) : Entered r past n before := by
  obtain hold | ⟨-, hgone⟩ := hentered.of_snoc
  · exact hold
  · obtain ⟨p, hp⟩ := h.entered n hn
    exact absurd hgone hp.not_gone

/-- Names that stay keep their order. -/
theorem Shelved.order_snoc {keys : List ComponentName} (h : Shelved r past m)
    (hkeys : keys.Sublist m.keys) :
    keys.Pairwise fun a b => ∀ p q, Entered r (past ++ [x]) a p → Entered r (past ++ [x]) b q →
      p.length < q.length := by
  have hpairs := List.Pairwise.and_mem.1 (h.order.sublist hkeys)
  refine hpairs.imp fun {a b} hab p q hp hq => ?_
  obtain ⟨ha, hb, hlt⟩ := hab
  exact hlt p q (h.of_snoc (hkeys.subset ha) hp) (h.of_snoc (hkeys.subset hb) hq)

theorem Shelved.same (h : Shelved r past m) (hx : ∀ n, ¬ x.Revises r n) :
    Shelved r (past ++ [x]) m where
  gone n hn := (h.gone n hn).snoc fun hd => hx n hd.revises
  entered n hn := by
    obtain ⟨before, hbefore⟩ := h.entered n hn
    exact ⟨before, hbefore.snoc fun hu => hx n hu.revises⟩
  order := h.order_snoc (List.Sublist.refl _)
  latest n d hd := (h.latest n d hd).snoc (hx n)
  names := h.names

theorem Shelved.insert (h : Shelved r past m) (d : Definition H) (overrides : Bool)
    (hname : d.name.isBlank = false) :
    Shelved r (past ++ [.fact (.defined r d overrides)]) (m.insert d.name d) := by
  have hkeys := m.keys_insert d.name d
  have hmem (n : ComponentName) : n ∈ (m.insert d.name d).keys ↔ n ∈ m.keys ∨ n = d.name := by
    rw [hkeys]
    split
    · refine ⟨.inl, ?_⟩
      rintro (hn | rfl)
      · exact hn
      · assumption
    · simp
  have hdefines : Moment.Defines r d.name (.fact (.defined r d overrides)) := ⟨rfl, rfl⟩
  have hstays (n : ComponentName) : ¬ Moment.Undefines r n (.fact (.defined r d overrides)) := id
  refine ⟨fun n hn => ?_, fun n hn => ?_, ?_, fun n d' hd => ?_, fun n hn => ?_⟩
  · rw [hmem, not_or] at hn
    exact (h.gone n hn.1).snoc fun hd => hn.2 hd.2.symm
  · by_cases hold : n ∈ m.keys
    · obtain ⟨before, hbefore⟩ := h.entered n hold
      exact ⟨before, hbefore.snoc (hstays n)⟩
    · obtain rfl := ((hmem n).1 hn).resolve_left hold
      exact ⟨past, entered_of_defines (h.gone _ hold) hdefines⟩
  · rw [hkeys]
    split
    · exact h.order_snoc (List.Sublist.refl _)
    · rename_i hnew
      refine List.pairwise_append.2 ⟨h.order_snoc (List.Sublist.refl _), by simp, ?_⟩
      intro a ha b hb p q hp hq
      obtain rfl := List.mem_singleton.1 hb
      -- the new name comes in now, the others were there before
      obtain hold | ⟨rfl, -⟩ := hq.of_snoc
      · exact absurd (h.gone _ hnew) hold.not_gone
      · exact (h.of_snoc ha hp).length_lt
  · rw [OrderedMap.get?_insert] at hd
    split at hd
    · cases hd
      exact ⟨past, overrides, [], rfl, ‹_›, List.forall_mem_nil _⟩
    · exact (h.latest n d' hd).snoc fun hr => absurd hr.2 ‹_›
  · obtain hold | rfl := (hmem n).1 hn
    · exact h.names n hold
    · exact hname

theorem Shelved.erase (h : Shelved r past m) (n : ComponentName) :
    Shelved r (past ++ [.fact (.removed r n)]) (m.erase n) := by
  have hmem (k : ComponentName) : k ∈ (m.erase n).keys ↔ k ∈ m.keys ∧ k ≠ n := by
    rw [m.keys_erase]
    simp
  refine ⟨fun k hk => ?_, fun k hk => ?_, ?_, fun k d hd => ?_, fun k hk => ?_⟩
  · by_cases hkn : k = n
    · exact gone_of_undefines ⟨rfl, hkn.symm⟩
    · exact (h.gone k fun hold => hk ((hmem k).2 ⟨hold, hkn⟩)).snoc id
  · obtain ⟨hold, hkn⟩ := (hmem k).1 hk
    obtain ⟨before, hbefore⟩ := h.entered k hold
    exact ⟨before, hbefore.snoc fun hu => hkn hu.2.symm⟩
  · rw [m.keys_erase]
    exact h.order_snoc List.filter_sublist
  · rw [OrderedMap.get?_erase] at hd
    split at hd
    · cases hd
    · exact (h.latest k d hd).snoc fun hr => absurd hr.2 ‹_›
  · exact h.names k ((hmem k).1 hk).1

/-- Every moment that may come keeps the definitions in the order and with the values that the
history says. -/
theorem Shelved.next (h : Shelved r past l.registry.definitions) (hx : l.Allows r x) :
    Shelved r (past ++ [x]) (l.next r x).registry.definitions := by
  obtain ⟨d, rfl, hname, heq⟩ | ⟨n, rfl, -, heq⟩ | ⟨hsame, heq⟩ := (step hx).definitions
  · rw [heq]
    exact h.insert d _ hname
  · rw [heq]
    exact h.erase n
  · rw [heq]
    exact h.same hsame

theorem Shelved.after {ms : List (Moment H)} (h : Shelved r past l.registry.definitions)
    (hlaw : l.Lawful r ms) : Shelved r (past ++ ms) (l.after r ms).registry.definitions := by
  induction ms generalizing l past with
  | nil => simpa [Ledger.after] using h
  | cons m ms ih =>
    have hrest := ih (h.next hlaw.1) hlaw.2
    rw [List.append_assoc] at hrest
    exact hrest

/-- What is put in last is what is registered. -/
theorem get?_of_latest {n : ComponentName} {d : Definition H} (h : Latest r past n d) :
    (l.after r past).registry.definitions.get? n = some d := by
  obtain ⟨before, overrides, since, rfl, hn, hsince⟩ := h
  rw [after_append, after_cons, get?_after hsince]
  simp [Ledger.next, Registry.define, OrderedMap.get?_insert, hn]

end Ledger

/-! ## A list of names and a function, kept in step -/

/-- The names of all definitions, and beside them the definition of each name. -/
structure Parts (H : Host) where
  order : List ComponentName := []
  find : ComponentName → Option (Definition H) := fun _ => none

namespace Parts

/-- A name that is new goes to the end of the list. -/
def define (p : Parts H) (d : Definition H) : Parts H where
  order := if (p.find d.name).isSome then p.order else p.order ++ [d.name]
  find := Function.update p.find d.name (some d)

def undefine (p : Parts H) (n : ComponentName) : Parts H where
  order := p.order.filter fun k => !decide (k = n)
  find := Function.update p.find n none

def next (r : ObjectId) (p : Parts H) : Moment H → Parts H
  | .fact (.defined r' d _) => if r' = r then p.define d else p
  | .fact (.removed r' n) => if r' = r then p.undefine n else p
  | _ => p

/-- The two parts after some moments. -/
def after (r : ObjectId) (p : Parts H) (ms : List (Moment H)) : Parts H := ms.foldl (next r) p

/-- A map taken apart. -/
def of (m : OrderedMap ComponentName (Definition H)) : Parts H := ⟨m.keys, m.get?⟩

theorem of_insert (m : OrderedMap ComponentName (Definition H)) (d : Definition H) :
    of (m.insert d.name d) = (of m).define d := by
  simp only [of, define, mk.injEq]
  constructor
  · rw [OrderedMap.keys_insert]
    exact if_congr (m.mem_keys_iff d.name) rfl rfl
  · funext k
    rw [OrderedMap.get?_insert, Function.update_apply]
    simp [eq_comm]

theorem of_erase (m : OrderedMap ComponentName (Definition H)) (n : ComponentName) :
    of (m.erase n) = (of m).undefine n := by
  simp only [of, undefine, mk.injEq]
  constructor
  · exact m.keys_erase n
  · funext k
    rw [OrderedMap.get?_erase, Function.update_apply]
    simp [eq_comm]

theorem next_of_not_revises {r : ObjectId} {p : Parts H} {x : Moment H}
    (hx : ∀ n, ¬ x.Revises r n) : p.next r x = p := by
  unfold next
  split
  · exact if_neg fun hr => hx _ ⟨hr, rfl⟩
  · exact if_neg fun hr => hx _ ⟨hr, rfl⟩
  · rfl

/-- The two parts, changed in step, are always those of the map. -/
theorem of_after {r : ObjectId} {l : Ledger H} {ms : List (Moment H)} (hlaw : l.Lawful r ms) :
    of (l.after r ms).registry.definitions = (of l.registry.definitions).after r ms := by
  induction ms generalizing l with
  | nil => rfl
  | cons x ms ih =>
    have hnext : of (l.next r x).registry.definitions = (of l.registry.definitions).next r x := by
      obtain ⟨d, rfl, -, heq⟩ | ⟨n, rfl, -, heq⟩ | ⟨hsame, heq⟩ := (Ledger.step hlaw.1).definitions
      · rw [heq, of_insert, next, if_pos rfl]
      · rw [heq, of_erase, next, if_pos rfl]
      · rw [heq, next_of_not_revises hsame]
    rw [Ledger.after_cons, ih hlaw.2, hnext]
    rfl

end Parts

/-! ## Programs on an empty registry -/

/-- What a history says of the definitions `m` of registry `r`. -/
structure Chronicle (r : ObjectId) (past : List (Moment H))
    (m : OrderedMap ComponentName (Definition H)) : Prop where
  nodup : m.keys.Nodup
  listed : ∀ n, n ∈ m.keys ↔ (m.get? n).isSome = true
  count : m.size = m.keys.length
  latest : ∀ n d, m.get? n = some d ↔ Latest r past n d
  named : ∀ n d, m.get? n = some d → d.name = n
  names : ∀ n ∈ m.keys, n.isBlank = false
  entered : ∀ n, n ∈ m.keys ↔ ∃ before, Entered r past n before
  order : m.keys.Pairwise fun a b => ∀ p q, Entered r past a p → Entered r past b q →
    p.length < q.length
  parts : Parts.of m = ({} : Parts H).after r past

theorem chronicle_after {r : ObjectId} {c : Option (Comparator H)} {past : List (Moment H)}
    (hlaw : (Ledger.start c).Lawful r past) :
    Chronicle r past ((Ledger.start c).after r past).registry.definitions := by
  have hstart : Ledger.Shelved r [] (Ledger.start c : Ledger H).registry.definitions :=
    Ledger.shelved_empty
  have h : Ledger.Shelved r past ((Ledger.start c).after r past).registry.definitions :=
    hstart.after hlaw
  have hlatest (n : ComponentName) (d : Definition H) :
      ((Ledger.start c).after r past).registry.definitions.get? n = some d ↔
        Latest r past n d :=
    ⟨h.latest n d, Ledger.get?_of_latest⟩
  refine
    { nodup := OrderedMap.keys_nodup _
      listed := OrderedMap.mem_keys_iff _
      count := (List.length_map _).symm
      latest := hlatest
      named := fun n d hd => ?_
      names := h.names
      entered := fun n => ⟨h.entered n, ?_⟩
      order := h.order
      parts := Parts.of_after hlaw }
  · obtain ⟨-, -, -, -, hn, -⟩ := (hlatest n d).1 hd
    exact hn
  · rintro ⟨before, hbefore⟩
    by_contra hn
    exact hbefore.not_gone (h.gone n hn)

/-- How one moment changes the definitions: from `m` to `m'`. A definition that overrides another
leaves all names where they are, a new one comes last, and a name that is taken out leaves the
others in their order. -/
structure Rearranges (r : ObjectId) (x : Moment H)
    (m m' : OrderedMap ComponentName (Definition H)) : Prop where
  defined : ∀ d overrides, x = .fact (.defined r d overrides) →
    (overrides = true ↔ d.name ∈ m.keys) ∧
      m'.keys = if overrides then m.keys else m.keys ++ [d.name]
  removed : ∀ n, x = .fact (.removed r n) →
    n ∈ m.keys ∧ m'.keys = m.keys.filter fun k => !decide (k = n)
  same : (∀ n, ¬ x.Revises r n) → m' = m

theorem Ledger.Step.rearranges {r : ObjectId} {l : Ledger H} {x : Moment H} {s : Registry H}
    (h : l.Step r x s) : Rearranges r x l.registry.definitions s.definitions := by
  have hcontains (n : ComponentName) :
      l.registry.definitions.contains n = true ↔ n ∈ l.registry.definitions.keys :=
    (OrderedMap.mem_keys_iff _ n).symm
  obtain ⟨d, rfl, -, heq⟩ | ⟨n, rfl, hn, heq⟩ | ⟨hsame, heq⟩ := h.definitions
  · refine ⟨?_, fun _ hx => (by cases hx), fun hx => absurd ⟨rfl, rfl⟩ (hx d.name)⟩
    rintro d' overrides hx
    cases hx
    refine ⟨hcontains d.name, ?_⟩
    rw [heq, OrderedMap.keys_insert]
    exact if_congr (hcontains d.name).symm rfl rfl
  · refine ⟨fun _ _ hx => (by cases hx), ?_, fun hx => absurd ⟨rfl, rfl⟩ (hx n)⟩
    rintro n' hx
    cases hx
    exact ⟨(hcontains n).1 hn, by rw [heq, OrderedMap.keys_erase]⟩
  · refine ⟨?_, ?_, fun _ => heq⟩
    · rintro d overrides rfl
      exact absurd ⟨rfl, rfl⟩ (hsame d.name)
    · rintro n rfl
      exact absurd ⟨rfl, rfl⟩ (hsame n)

/-! ## Operations on definitions -/

/-- What has happened when `d` was put into registry `r`, from world `u` to world `u'`: the registry
has it under its name and nothing else under any other, the name stands where it stood or else at
the end, and the history tells of it. -/
structure Registered (r : ObjectId) (d : Definition H) (u u' : World H σ) (k : Journal H) :
    Prop where
  valid : d.name.isBlank = false
  found : (u'.registries.get r).definitions.get? d.name = some d
  others : ∀ n, n ≠ d.name →
    (u'.registries.get r).definitions.get? n = (u.registries.get r).definitions.get? n
  keys : (u'.registries.get r).definitions.keys =
    if d.name ∈ (u.registries.get r).definitions.keys then (u.registries.get r).definitions.keys
    else (u.registries.get r).definitions.keys ++ [d.name]
  noted : k = [.fact (.defined r d ((u.registries.get r).definitions.contains d.name))]

/-- What has happened when `d` was taken out of registry `r`: it was there under the name, now
nothing is, all else stays in its order, and the history tells of it. -/
structure Unregistered (r : ObjectId) (n : ComponentName) (d : Definition H) (u u' : World H σ)
    (k : Journal H) : Prop where
  old : (u.registries.get r).definitions.get? n = some d
  gone : (u'.registries.get r).definitions.get? n = none
  others : ∀ m, m ≠ n →
    (u'.registries.get r).definitions.get? m = (u.registries.get r).definitions.get? m
  keys : (u'.registries.get r).definitions.keys =
    (u.registries.get r).definitions.keys.filter fun m => !decide (m = n)
  noted : k = [.fact (.removed r n)]

namespace Registry

variable (r : ObjectId) (u : World H σ)

/-- A definition is put in unless its name is blank, and then nothing happens. -/
theorem register_ends (d : Definition H) : ∃ a u' k, register r d u = some (a, u', k) ∧
    (a = .ok () ∧ Registered r d u u' k ∨
      (∃ e, a = .error e) ∧ d.name.isBlank = true ∧ u' = u ∧ k = []) := by
  rw [register_run]
  cases hblank : d.name.isBlank with
  | true => exact ⟨_, _, _, rfl, .inr ⟨⟨_, rfl⟩, rfl, rfl, rfl⟩⟩
  | false =>
    refine ⟨_, _, _, rfl, .inl ⟨rfl, hblank, ?_, fun n hn => ?_, ?_, rfl⟩⟩
    · rw [World.get_setRegistry_self, define, OrderedMap.get?_insert, if_pos rfl]
    · rw [World.get_setRegistry_self, define, OrderedMap.get?_insert, if_neg hn.symm]
    · rw [World.get_setRegistry_self, define, OrderedMap.keys_insert]

/-- A definition is taken out unless there is none, and then nothing happens. -/
theorem remove_ends (n : ComponentName) : ∃ a u' k, remove r n u = some (a, u', k) ∧
    ((∃ d, a = .ok d ∧ Unregistered r n d u u' k) ∨
      (∃ e, a = .error e) ∧ (u.registries.get r).definitions.get? n = none ∧ u' = u ∧ k = []) := by
  rw [remove_run]
  cases hold : (u.registries.get r).definitions.get? n with
  | none => exact ⟨_, _, _, rfl, .inr ⟨⟨_, rfl⟩, rfl, rfl, rfl⟩⟩
  | some d =>
    refine ⟨_, _, _, rfl, .inl ⟨d, rfl, hold, ?_, fun m hm => ?_, ?_, rfl⟩⟩
    · rw [World.get_setRegistry_self, undefine, OrderedMap.get?_erase, if_pos rfl]
    · rw [World.get_setRegistry_self, undefine, OrderedMap.get?_erase, if_neg hm.symm]
    · rw [World.get_setRegistry_self, undefine, OrderedMap.keys_erase]

end Registry

/-- The definitions of a registry that was empty when a program began, at any moment of its run,
and what the next moment makes of them. Whenever a definition is put in or taken out, the answer
tells which: if it is a success the registry has changed as it says and the history has got a moment
for it, and if it is a failure the world is as it was. -/
theorem definitions_follow_history {α : Type} (b : Behaviour H σ) (depth : Nat)
    (x : Program H σ α) (r : ObjectId) (c : Option (Comparator H)) {w w' : World H σ} {a : α}
    {j : Journal H} (hempty : w.registries.get r = { comparator? := c })
    (hrun : b.run depth x w = some (a, w', j)) :
    ((Ledger.start c).after r (Journal.moments j)).registry = w'.registries.get r ∧
    (∀ past future, Journal.moments j = past ++ future →
      let m := ((Ledger.start c).after r past).registry.definitions
      Chronicle r past m ∧
      ∀ y rest, future = y :: rest →
        Rearranges r y m ((Ledger.start c).after r (past ++ [y])).registry.definitions) ∧
    ∀ u : World H σ,
      (∀ d, ∃ a u' k, Registry.register r d u = some (a, u', k) ∧
        (a = .ok () ∧ Registered r d u u' k ∨
          (∃ e, a = .error e) ∧ d.name.isBlank = true ∧ u' = u ∧ k = [])) ∧
      ∀ n, ∃ a u' k, Registry.remove r n u = some (a, u', k) ∧
        ((∃ d, a = .ok d ∧ Unregistered r n d u u' k) ∨
          (∃ e, a = .error e) ∧ (u.registries.get r).definitions.get? n = none ∧ u' = u ∧
            k = []) := by
  obtain ⟨hlaw, hregistry, -⟩ :=
    Tracks.program b depth x (Ledger.start c) w a w' j hrun (by rw [hempty]; rfl)
  refine ⟨hregistry, fun past future hsplit => ?_,
    fun u => ⟨Registry.register_ends r u, Registry.remove_ends r u⟩⟩
  rw [hsplit] at hlaw
  refine ⟨chronicle_after (Ledger.lawful_append.1 hlaw).1, ?_⟩
  rintro y rest rfl
  rw [Ledger.after_append, Ledger.after_single]
  exact (Ledger.step hlaw.next_allowed).rearranges

/-! ### A name that is put in, overridden, taken out and put back -/

namespace Scenario

/-- A component that is an object, and the steps of its factory. -/
def plain (name : String) (create : List Step) : DefinitionSpec :=
  .mk name .plain [] .unordered .application .singleton false [] create (.plain name)

/-- The second definition of `a` registers `c` while the component is created. -/
def rearrange : Program Scripted Memory Unit := do
  let _ ← Program.request (.register Setup.base (plain "a" []).toDefinition)
  let _ ← Program.request (.register Setup.base (plain "b" []).toDefinition)
  let registering := [Step.mk {} (.perform .quiet (.register (plain "c" [])))]
  let _ ← Program.request (.register Setup.base (plain "a" registering).toDefinition)
  let _ ← Program.request (.resolve (.direct Setup.base) ⟨"a"⟩)
  let _ ← Program.request (.remove Setup.base ⟨"a"⟩)
  let _ ← Program.request (.register Setup.base (plain "a" []).toDefinition)
  let _ ← Program.request (.register Setup.base (plain "b" []).toDefinition)
  let _ ← Program.request (.register Setup.base (plain "\t\u00A0" []).toDefinition)
  return ()

/-- The name that was taken out stands last, the one that was overridden stands where it stood, and
this is what the history of the run says. After it, a definition can be put in, and one that is not
there cannot be taken out. -/
theorem rearrange_chronicled :
    ∃ p, behaviour.run 3 rearrange (Setup.world {}) = some p ∧
      (p.2.1.registries.get Setup.base).definitions.keys.map (·.text) = ["b", "c", "a"] ∧
      Chronicle Setup.base (Journal.moments p.2.2)
        (p.2.1.registries.get Setup.base).definitions ∧
      (∃ u k, Registry.register Setup.base (plain "d" []).toDefinition p.2.1 = some (.ok (), u, k) ∧
        Registered Setup.base (plain "d" []).toDefinition p.2.1 u k) ∧
      ∃ e, Registry.remove Setup.base ⟨"d"⟩ p.2.1 = some (.error e, p.2.1, []) := by
  have hkeys : (behaviour.run 3 rearrange (Setup.world {})).map (fun p =>
      (p.2.1.registries.get Setup.base).definitions.keys.map (·.text)) =
        some ["b", "c", "a"] := by
    decide +kernel
  obtain ⟨⟨a, w', j⟩, hrun, hnames⟩ := Option.map_eq_some_iff.1 hkeys
  obtain ⟨hregistry, hhistory, hoperations⟩ :=
    definitions_follow_history behaviour 3 rearrange Setup.base none rfl hrun
  obtain ⟨hchronicle, -⟩ := hhistory (Journal.moments j) [] (List.append_nil _).symm
  rw [hregistry] at hchronicle
  obtain ⟨hregister, hremove⟩ := hoperations w'
  refine ⟨(a, w', j), hrun, hnames, hchronicle, ?_, ?_⟩
  · obtain ⟨b, u, k, hop, ⟨rfl, hregistered⟩ | ⟨-, hblank, -⟩⟩ :=
      hregister (plain "d" []).toDefinition
    · exact ⟨u, k, hop, hregistered⟩
    · cases hblank
  · have hmissing : (⟨"d"⟩ : ComponentName) ∉ (w'.registries.get Setup.base).definitions.keys :=
      fun hmem => by
        have htext := List.mem_map_of_mem (f := ComponentName.text) hmem
        rw [hnames] at htext
        simp at htext
    obtain ⟨b, u, k, hop, ⟨d, -, hgone⟩ | ⟨⟨e, rfl⟩, -, rfl, rfl⟩⟩ := hremove ⟨"d"⟩
    · exact absurd ((OrderedMap.mem_keys_iff _ _).2 (by rw [hgone.old]; rfl)) hmissing
    · exact ⟨e, hop⟩

end Scenario

end Startup
