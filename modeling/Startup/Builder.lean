import Startup.Container

/-!
Building a container step by step: its registry, the extensions that are supplied to it, and its
configuration. A later step overrides an earlier one; extensions add up.

A log writer serves the whole process and can be set up once. The journal is one already, so a
container that asks for its own cannot be built.
-/

namespace Startup

open Attempt (always)

inductive BuildStep (H : Host) where
  | extension (e : Extension H)
  | config (c : StartConfig)
  /-- A configuration to be read from a text. -/
  | document (text : String)
  | configFile (f : ConfigFile)
  | preinstantiate (b : Bool)
  | announce (b : Bool)
  | logging (c : LogConfig)

structure Builder (H : Host) where
  extensions : List (Extension H) := []
  settings : StartSettings := {}
  logging? : Option LogConfig := none

namespace Builder

variable {H : Host} {σ : Type}

/-- Follow a configuration. Without a section on logging, what was said about it stays. -/
def configure (b : Builder H) (c : StartConfig) : Except InfrastructureError (Builder H) :=
  match c.logging? with
  | none => .ok { b with settings := c.settings }
  | some s =>
    match s.toConfig with
    | .ok l => .ok { b with settings := c.settings, logging? := some l }
    | .error e => .error (.config e)

def step (b : Builder H) : BuildStep H → Attempt H σ InfrastructureError (Builder H)
  | .extension e => do
    always (Run.record (.extensionAdded e))
    return { b with extensions := b.extensions ++ [e] }
  | .config c => Attempt.of (pure (b.configure c))
  | .document text =>
    match StartConfig.ofText text with
    | .ok c => Attempt.of (pure (b.configure c))
    | .error e => throw (.config e)
  | .configFile f => do
    always (Run.record (.configLoading f.path))
    if !f.isMissing then
      always (Run.record (.configReading f.path))
    match f.read with
    | .ok c => Attempt.of (pure (b.configure c))
    | .error e => throw (.config e)
  | .preinstantiate x => return { b with settings := { b.settings with preinstantiate := x } }
  | .announce x => return { b with settings := { b.settings with announce := x } }
  | .logging c => return { b with logging? := some c }

def steps (b : Builder H) : List (BuildStep H) → Attempt H σ InfrastructureError (Builder H)
  | [] => pure b
  | s :: rest => do
    let b' ← b.step s
    b'.steps rest

def secondLogWriter : InfrastructureError :=
  .bootstrapFailed "日志初始化失败: a global default trace dispatcher has already been set"

/-- The registry to start on: the given one, or a new one. -/
def viewOf : Option View → Run H σ View
  | some v => pure v
  | none => do
    let r ← Run.fresh
    return .direct r

def build (call : Call H σ) (depth : Nat) (v? : Option View) (l : List (BuildStep H)) :
    Attempt H σ InfrastructureError (Container H) := do
  let b ← steps {} l
  if b.logging?.isSome then
    throw secondLogWriter
  else
    let v ← always (viewOf v?)
    Container.start call v depth b.settings b.extensions

end Builder

end Startup
