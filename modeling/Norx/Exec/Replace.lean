import Norx.Elf.Interpreter
import Norx.Process.Table
import Norx.UserRuntime.Prepare

/-!
# Replacing a Program

The transaction of `exec.rs`: a new program is prepared and started, the
descriptors its owner marked are closed, and the old program is ended. What can
fail before the end is undone, and the old program is returned.

The old program is part of the state, so that a failed replacement returns it as
the state's last one. The new one is passed along. Its space is not among those
of a world until the replacement is done.

## Main definitions

* `NativeRuntime.start`, `exit`: Starting and ending a program.
* `State`, `ExecRequest`, `ResultInfo`, `Error`: What the replacement works on,
  and returns.
-/

namespace Norx

namespace UserRuntime

open Fallible Space

def NativeRuntime.start (runtime : NativeRuntime) : Except Error NativeRuntime :=
  if runtime.started = true ∨ runtime.exited = true then .error .invalidState
  else .ok { runtime with started := true }

/-- A program with what it shares with the others. -/
structure Running where
  frames : Memory.Held
  hardware : Hardware
  runtime : NativeRuntime

namespace Running

def env (r : Running) : Env :=
  { frames := r.frames, hardware := r.hardware, space := r.runtime.addressSpace }

def setEnv (r : Running) (e : Env) : Running :=
  { frames := e.frames, hardware := e.hardware,
    runtime := { r.runtime with addressSpace := e.space } }

end Running

/-- `NativeRuntime::exit`. Its status goes into the log only. -/
def exit (target : Machine) : Fallible Running Error Unit := do
  if (← read (·.runtime.started)) = false ∨ (← read (·.runtime.exited)) = true then
    fail .invalidState
  within Running.env Running.setEnv (onSpace (destroy target))
  modify (fun r => { r with runtime := { r.runtime with exited := true } })

end UserRuntime

namespace Exec

open Fallible UserRuntime

inductive Error where
  | elf (error : Elf.Error)
  | runtime (error : UserRuntime.Error)
  | process (error : Process.Error)
  deriving DecidableEq, Repr

structure ResultInfo where
  registers : Elf.InitialRegisters
  closedFds : Nat
  interpreter : Option (List UInt8)
  deriving DecidableEq, Repr

structure ExecRequest where
  owner : Process.ProcessId
  image : List UInt8
  machine : Machine
  loadBias : Nat
  aslr : Space.AslrHook
  arguments : List (List UInt8)
  environment : List (List UInt8)
  requestedInterpreter : Option (List UInt8)

/-- What the replacement works on. -/
structure State where
  frames : Memory.Held
  hardware : Hardware
  processes : Process.ProcessTable
  old : NativeRuntime

/-- A program that returns, rolls back with an error, or panics. -/
abbrev ExecM := Fallible State (Stop Error)

/-- One of the parsers' results. -/
def parsed {α : Type} (x : Checked Elf.Error α) : ExecM α :=
  lift fun _ => x.mapError fun
    | .error error => .error (.elf error)
    | .panic => .panic

/-- The new program, without its image. -/
def prepareNext (target : Machine) (request : ExecRequest) (plan : Elf.LoadPlan) :
    ExecM NativeRuntime :=
  mapError (fun error => .error (.runtime error))
    (within (fun s : State => { frames := s.frames, hardware := s.hardware, spaces := [] })
      (fun s w => { s with frames := w.frames, hardware := w.hardware })
      (prepare target request.owner plan request.aslr request.arguments request.environment))

/-- End the new program, whatever comes of it. -/
def abandon (target : Machine) (next : NativeRuntime) : ExecM Unit :=
  modify fun s =>
    let r := (exit target { frames := s.frames, hardware := s.hardware, runtime := next }).2
    { s with frames := r.frames, hardware := r.hardware }

/-- End the old program. -/
def exitOld (target : Machine) : Fallible State UserRuntime.Error Unit :=
  within (fun s : State => { frames := s.frames, hardware := s.hardware, runtime := s.old })
    (fun s r => { s with frames := r.frames, hardware := r.hardware, old := r.runtime })
    (exit target)

def closeDescriptors (owner : Process.ProcessId) : Fallible State Process.Error Nat :=
  within (fun s : State => s.processes) (fun s t => { s with processes := t })
    (Process.closeOnExec owner)

/-- A step after which the new program has to be ended if it fails. -/
def orAbandon {α : Type} {ε : Type} (target : Machine) (next : NativeRuntime) (f : ε → Error)
    (x : Fallible State ε α) : ExecM α := do
  match (← act fun s => x s) with
  | .ok a => return a
  | .error error =>
    abandon target next
    fail (.error (f error))

/-- `replace`. It commits to the new program, or rolls back to the old one. -/
def replace (target : Machine) (request : ExecRequest) : ExecM (NativeRuntime × ResultInfo) := do
  let plan ← parsed (Elf.parse target request.image request.machine request.loadBias)
  let interpreter ← parsed (Elf.selectInterpreter request.image request.requestedInterpreter)
  let next ← prepareNext target request plan
  let next ← mapError (fun error => .error (.runtime error)) (lift fun _ => next.start)
  let closedFds ← orAbandon target next .process (closeDescriptors request.owner)
  orAbandon target next .runtime (exitOld target)
  return (next, { registers := next.registers, closedFds, interpreter })

end Exec

end Norx
