import Startup.Builder

/-!
Programs: what a callback does. A program looks at the world, asks for operations of the library,
and goes on with the answers; it can do nothing else. It may ask for whatever the library offers,
so callbacks may register and remove definitions, create components and run pipelines while the
library is in the middle of any of these.

Main statements: `Program` is a lawful monad, and `run_bind`, that to run a sequence is to run its
parts one after the other.
-/

namespace Startup

/-! ## Requests -/

inductive Request (H : Host) (σ : Type) : Type 1 where
  /-- Look at the world, without a trace. -/
  | look {α : Type} (f : World H σ → α)
  /-- Change what the host remembers. -/
  | remember (f : σ → σ)
  | note (x : H.Note)
  | fresh
  -- Registry
  | names (v : View) (c : Capability) (all eager : Bool)
  | register (r : ObjectId) (d : Definition H)
  | remove (r : ObjectId) (n : ComponentName)
  | registerInstance (r : ObjectId) (n : ComponentName) (i : Instance H)
  | install (v : View) (e : Extension H)
  | installAll (v : View) (es : List (Extension H))
  | clearCache (v : View)
  | resolve (v : View) (n : ComponentName)
  | fetch (v : View) (n : ComponentName) (c : Capability)
  | preinstantiate (v : View)
  -- Callbacks
  | perform (cb : Callback H)
  -- Interceptors and listeners
  | newChecker (target : Nat)
  | newDetector (context : ObjectId)
  | addListener (context : ObjectId) (n : ComponentName) (l : Listener H)
  | publish (context : ObjectId) (e : ContainerEvent)
  -- Pipelines and containers
  | invoke (v : View) (supplied : List (Extension H))
  | registerInterceptors (v : View) (context : ObjectId)
  | start (v : View) (supplied : List (Extension H))
  | build (v? : Option View) (steps : List (BuildStep H))
  | close (c : Container H)

namespace Request

variable {H : Host} {σ : Type}

def Answer : Request H σ → Type
  | @look _ _ α _ => α
  | remember _ | note _ => Unit
  | fresh => ObjectId
  | names .. => List ComponentName
  | register .. | registerInstance .. => Except DependencyError Unit
  | remove .. => Except DependencyError (Definition H)
  | install .. | installAll .. | clearCache _ => Unit
  | resolve .. => Except DependencyError (Instance H)
  | fetch .. => Except DependencyError (Extension H)
  | preinstantiate _ => Except DependencyError Unit
  | perform cb => cb.Answer
  | newChecker _ | newDetector _ => Extension H
  | addListener .. | publish .. => Unit
  | invoke .. => Except ExtensionError Unit × Report
  | registerInterceptors .. => Except ExtensionError (Registration H)
  | start .. | build .. => Except InfrastructureError (Container H)
  | close _ => Unit

def run (call : Call H σ) (depth : Nat) : (r : Request H σ) → Run H σ r.Answer
  | look f => Run.ask f
  | remember f => Run.change fun w => { w with memory := f w.memory }
  | note x => Run.record (.note x)
  | fresh => Run.fresh
  | names v c all eager => v.names c all eager
  | register r d => Registry.register r d
  | remove r n => Registry.remove r n
  | registerInstance r n i => Registry.registerInstance r n i
  | install v e => v.install e
  | installAll v es => v.installAll es
  | clearCache v => v.clearCache
  | resolve v n => (v.resolve call n).run
  | fetch v n c => (v.fetch call n c).run
  | preinstantiate v => (v.preinstantiate call).run
  | perform cb => Callback.perform call cb
  | newChecker target => Checker.create target
  | newDetector context => Detector.create context
  | addListener context n l => Context.addListener context n l
  | publish context e => Context.publish call context e
  | invoke v supplied => Pipeline.invoke call v depth supplied
  | registerInterceptors v context => (v.registerInterceptors call context).run
  | start v supplied => (Container.start call v depth {} supplied).run
  | build v? steps => (Builder.build call depth v? steps).run
  | close c => c.close call

end Request

/-! ## Programs -/

inductive Program (H : Host) (σ α : Type) : Type 1 where
  | pure (a : α)
  | ask (r : Request H σ) (next : r.Answer → Program H σ α)

namespace Program

variable {H : Host} {σ α β : Type}

protected def bind (f : α → Program H σ β) : Program H σ α → Program H σ β
  | pure a => f a
  | ask r next => ask r fun x => (next x).bind f

instance : Monad (Program H σ) where
  pure := pure
  bind x f := x.bind f

/-- Ask for one thing, and answer with what comes back. -/
def request (r : Request H σ) : Program H σ r.Answer := ask r pure

theorem bind_def (x : Program H σ α) (f : α → Program H σ β) : x >>= f = x.bind f := rfl

theorem pure_def (a : α) : (Pure.pure a : Program H σ α) = pure a := rfl

theorem bind_pure (x : Program H σ α) : x.bind pure = x := by
  induction x with
  | pure a => rfl
  | ask r next ih => simp [Program.bind, ih]

theorem bind_assoc {γ : Type} (x : Program H σ α) (f : α → Program H σ β)
    (g : β → Program H σ γ) : (x.bind f).bind g = x.bind fun a => (f a).bind g := by
  induction x with
  | pure a => rfl
  | ask r next ih => simp [Program.bind, ih]

instance : LawfulMonad (Program H σ) :=
  LawfulMonad.mk' (Program H σ) (fun x => bind_pure x) (fun _ _ => rfl)
    (fun x f g => bind_assoc x f g)

/-- Run a program: do one after the other what it asks for. -/
def run (call : Call H σ) (depth : Nat) : Program H σ α → Run H σ α
  | pure a => Pure.pure a
  | ask r next => do
    let x ← r.run call depth
    (next x).run call depth

theorem run_bind (call : Call H σ) (depth : Nat) (x : Program H σ α)
    (f : α → Program H σ β) :
    (x >>= f).run call depth = x.run call depth >>= fun a => (f a).run call depth := by
  rw [bind_def]
  induction x with
  | pure a => simp [Program.bind, run]
  | ask r next ih => simp [Program.bind, run, ih]

end Program

/-! ## Behaviour -/

/-- What the callbacks of a host do: a program for each. -/
abbrev Behaviour (H : Host) (σ : Type) := (cb : Callback H) → Program H σ cb.Answer

namespace Behaviour

variable {H : Host} {σ α : Type}

/-- Answer callbacks, which may make others in turn, at most `depth` within each other. -/
def call (b : Behaviour H σ) : Nat → Call H σ
  | 0, _ => Run.exceeded
  | depth + 1, cb => (b cb).run (b.call depth) depth

def run (b : Behaviour H σ) (depth : Nat) (x : Program H σ α) : Run H σ α :=
  x.run (b.call depth) depth

end Behaviour

end Startup
