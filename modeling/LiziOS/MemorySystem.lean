import LiziOS.Boot
import LiziOS.Library.Transition

namespace LiziOS.Memory

/-- The calls that change the memory system, as a thread makes them. -/
inductive Call where
  | mallocKernelPages (count : U32)
  | mallocUserPages (count : U32)
  | getAPage (vaddr : U32)
  | processExecute (filename : U32) (name : List U8)
  | threadStart (name : List U8) (prio function funcArg : U32)

/-- One call: the thread that makes it and the ready list as scheduling has left it. -/
structure Act where
  caller : U32
  ready : List U32
  call : Call

def Call.run : Call → M Unit
  | .mallocKernelPages count => do let _ ← Memory.mallocKernelPages count
  | .mallocUserPages count => do let _ ← Memory.mallocUserPages count
  | .getAPage vaddr => do let _ ← Memory.getAPage .userPool vaddr
  | .processExecute filename name => Memory.processExecute filename name
  | .threadStart name prio function funcArg => do let _ ← Memory.threadStart name prio function funcArg

/-- The switch to the caller: what `schedule` does for the next thread, and the change of stack. -/
def switchTo (next : U32) : M Unit := do
  processActivate next
  modify fun s => { s with runningThread := next }

/-- The state in which the caller makes its call, and the state in which the call ends. -/
def Act.run (a : Act) : M Unit := do
  modify fun s => { s with threadReadyList := a.ready }
  switchTo a.caller
  a.call.run

def step (s : Machine) (a : Act) : Option (Except Fault Machine) :=
  if a.caller ∈ s.threadAllList ∧ a.ready ⊆ s.threadAllList then
    match a.run s with
    | .ok _ t => some (.ok t)
    | .error fault _ => some (.error fault)
  else none

def system (allMem gdtBase : U32) : Transition.System Machine Act Fault where
  start s := Booted s allMem gdtBase
  step := step

end LiziOS.Memory
