import Flyos.Mm.Clone
import Flyos.Mm.HeapClient
import Flyos.Task.Sched

/-!
# Forking

`task_fork` of `kernel/task/task.c` with the calls it makes: `kmalloc` of the record,
`vmm_clone_pml4_deep` of the address space, `kmalloc` of the kernel stack.  The scheduler
model has the same function with the answers of the first two as arguments
(`Flyos.taskFork`); here they are computed, and the third is too.

The record is kept in `task` and `record`, by its address; its `name`, which nothing
reads, is left out.  The words that a new task starts with are stored on its stack.
-/

namespace Flyos

/-- `sizeof(task_t)`. -/
abbrev taskSize : Nat := 120

/-- The fields of `task_t` that the scheduler model leaves out. -/
structure TaskRecord where
  rsp : Nat
  stackBase : Nat
  stackSize : Nat
  kernelStackTop : Nat
  savedUserRsp : Nat
  pml4Phys : Nat
  stdinNode : Nat
  stdoutNode : Nat
  stdinPos : Nat
  stdoutPos : Nat

/-- What `task_fork` works on. -/
structure Kernel where
  heap : HeapState
  vmm : Vmm
  sched : Sched
  record : Nat → TaskRecord
  savedUserRsp : Nat
  syscallUserRcx : Nat

/-- Words stored one below the other, as `*--sp = w` does. -/
def pushAll (m : ByteMemory) (sp : Nat) : List Nat → Nat × ByteMemory
  | [] => (sp, m)
  | w :: ws => pushAll (m.store (sp - 8) 8 w) (sp - 8) ws

/-- `task_fork` from the allocation of the stack on. -/
def Kernel.forkWith (entry child childPml4 : Nat) (k : Kernel) : Option (Int × Kernel) :=
  (kmalloc k.heap.mem taskStackSize).map fun r =>
    let parent := k.record k.sched.current
    let stackBase := r.1
    let kernelStackTop := (stackBase + taskStackSize) % 2 ^ 64
    let top := kernelStackTop / 16 * 16
    let pushed := pushAll r.2 top
      [entry, 0x202, 0, 0, 0, 0, k.savedUserRsp, k.syscallUserRcx]
    (int32 k.sched.nextId, { k with
      heap := k.heap.returned stackBase pushed.2
      sched := Flyos.taskFork k.sched child true
      record := Function.update k.record child
        { rsp := pushed.1
          stackBase
          stackSize := taskStackSize
          kernelStackTop
          savedUserRsp := k.savedUserRsp
          pml4Phys := childPml4
          stdinNode := parent.stdinNode
          stdoutNode := parent.stdoutNode
          stdinPos := parent.stdinPos
          stdoutPos := parent.stdoutPos } })

/-- `task_fork`: the result, and the state it leaves.  `entry` is the address of
`fork_child_entry`. -/
def Kernel.taskFork (fb : FbInfo) (entry : Nat) (k : Kernel) : Option (Int × Kernel) :=
  (kmalloc k.heap.mem taskSize).bind fun r =>
    let child := r.1
    let k := { k with heap := k.heap.returned child r.2 }
    if child = 0 then some (-1, k)
    else
      let parentPml4 := k.vmm.root
      let c := vmmClonePml4Deep fb k.vmm parentPml4
      let childPml4 := c.1
      let k := { k with vmm := c.2 }
      if childPml4 = 0 then
        (heapExec k.heap (.kfree child)).map fun heap => (-1, { k with heap })
      else k.forkWith entry child childPml4

end Flyos
