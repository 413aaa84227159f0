import Flyos.Arch.SyscallEntry

/-!
# The machine of a program

What a program outside the kernel can know of the machine.  It runs, it is interrupted, and it
makes system calls; for each the entry code of `isr.S` and `syscall_entry.S` saves and restores what
it has to, on stacks and in variables that the program does not see.

`UserStep` is the machine without all that: a system call is one step, from the registers with the
number and the arguments to the registers with the result, and an interrupt concerns the devices
only.  `MachineStep` is the machine with the code, which runs instruction by instruction and which
an interrupt may come into wherever the flags let it.  Every run of the second is a run of the
first, and it does not get stuck in the entry code (`machine_refines`).

No interrupt comes into the entry code as long as interrupts are off in it.  `syscall` turns them
off; that `syscall_dispatch` leaves them off is an assumption (`KernelOk.masked`), which a `SYS_READ`
that waits for the keyboard does not meet.
-/

namespace Flyos

open X86 (Reg State Instr Words)

variable {K : Type*}

/-! ## What the kernel does for a program -/

/-- What comes of a system call: the result, the instruction pointer and the stack pointer that
`SYS_EXEC` asks for, or zeros, and the memory and the devices. -/
structure Answer (K : Type*) where
  rax : UInt64
  rip : UInt64
  rsp : UInt64
  mem : ByteMemory
  env : Devices K

/-- The same answer, as far as a program sees it. -/
structure Answer.Same (user : Set Nat) (r r' : Answer K) : Prop where
  rax : r'.rax = r.rax
  rip : r'.rip = r.rip
  rsp : r'.rsp = r.rsp
  mem : ∀ x ∈ user, r'.mem x = r.mem x
  env : r'.env = r.env

/-- The system calls, by number and three arguments: they read the program's memory and the state
of the kernel.  One that does not return has no answer. -/
structure Services (K : Type*) (user : Set Nat) where
  answer : UInt64 → UInt64 → UInt64 → UInt64 → ByteMemory → Devices K → Option (Answer K)
  seen : ∀ {nr a1 a2 a3 m m' env r}, answer nr a1 a2 a3 m env = some r →
    (∀ x ∈ user, m' x = m x) → ∃ r', answer nr a1 a2 a3 m' env = some r' ∧ r.Same user r'

/-- `f` is `syscall_dispatch` for these services: called on the stack below `top`, it returns with
the answer if there is one, and it leaves the variables of the entry code to it. -/
def Dispatches (vars : SyscallVars) (top : UInt64) {user : Set Nat} (services : Services K user)
    (f : CFunction K) : Prop :=
  ∀ v : State (Devices K), (v.reg .rsp).toNat + 120 = top.toNat →
    X86.wordAt v.mem vars.userReturnRip = 0 → X86.wordAt v.mem vars.userReturnRsp = 0 →
      match services.answer (v.reg .rdi) (v.reg .rsi) (v.reg .rdx) (v.reg .rcx) v.mem v.env with
      | none => f v = none
      | some r => ∃ t, f v = some t ∧ Returned top v t ∧ t.reg .rax = r.rax ∧
          X86.wordAt t.mem vars.userReturnRip = r.rip ∧
          X86.wordAt t.mem vars.userReturnRsp = r.rsp ∧
          X86.wordAt t.mem vars.savedUserRsp = X86.wordAt v.mem vars.savedUserRsp ∧
          X86.wordAt t.mem vars.kernelRsp = X86.wordAt v.mem vars.kernelRsp ∧
          (∀ x ∈ user, t.mem x = r.mem x) ∧ t.env = r.env

/-- The parts of the linked kernel that a system call meets. -/
structure SyscallImage (K : Type*) extends InterruptImage K where
  vars : SyscallVars
  entryAt : UInt64
  dispatchAt : UInt64
  entry : codeAt entryAt = some (syscallEntry vars dispatchAt)

/-- The machine makes a system call. -/
def SyscallImage.systemCall (image : SyscallImage K) (next : UInt64) (s : State (Devices K)) :
    Option (State (Devices K)) :=
  takeSyscall (syscallMsrs image.entryAt) image.codeAt image.call next s

/-- Between two system calls the variables hold the top of the kernel stack, and nothing that
`SYS_EXEC` asks for. -/
structure EntryReady (vars : SyscallVars) (top : UInt64) (m : ByteMemory) : Prop where
  kernel : X86.wordAt m vars.kernelRsp = top
  rip : X86.wordAt m vars.userReturnRip = 0
  rsp : X86.wordAt m vars.userReturnRsp = 0

/-- The bytes of the variables. -/
def SyscallVars.bytes (vars : SyscallVars) : Set Nat :=
  {x | vars.bss.toNat ≤ x ∧ x < vars.bss.toNat + 40}

/-- The variables as long as their bytes are the same. -/
theorem EntryReady.congr {vars : SyscallVars} {top : UInt64} {m m' : ByteMemory}
    (ready : EntryReady vars top m) (same : ∀ x ∈ vars.bytes, m' x = m x) :
    EntryReady vars top m' := by
  have kernelAt := vars.toNat_kernel
  have ripAt := vars.toNat_rip
  have rspAt := vars.toNat_rsp
  have word : ∀ var : UInt64, vars.bss.toNat ≤ var.toNat → var.toNat + 8 ≤ vars.bss.toNat + 40 →
      X86.wordAt m' var = X86.wordAt m var :=
    fun var low high => X86.wordAt_congr fun x _ below => same x ⟨by omega, by omega⟩
  refine ⟨?_, ?_, ?_⟩
  · rw [word _ (by omega) (by omega), ready.kernel]
  · rw [word _ (by omega) (by omega), ready.rip]
  · rw [word _ (by omega) (by omega), ready.rsp]

/-! ## One system call -/

/-- **A system call** is answered with all registers of the program but `rax`, `rcx` and `r11` as
they were, or as `SYS_EXEC` asks. -/
theorem systemCall_spec (image : SyscallImage K) {user : Set Nat} (services : Services K user)
    {top : UInt64} (apart : StackApart image.vars top)
    (outside : ∀ x ∈ user, (x + 120 < top.toNat ∨ top.toNat ≤ x) ∧ x ∉ image.vars.bytes)
    (dispatches : Dispatches image.vars top services (image.call image.dispatchAt))
    {s : State (Devices K)} (ready : EntryReady image.vars top s.mem) (next : UInt64) :
    match services.answer (s.reg .rax) (s.reg .rdi) (s.reg .rsi) (s.reg .rdx) s.mem s.env with
    | none => image.systemCall next s = none
    | some r => ∃ mem, image.systemCall next s = some (userAfter s next r.rax r.rip r.rsp mem r.env) ∧
        (∀ x ∈ user, mem x = r.mem x) ∧ EntryReady image.vars top mem := by
  have kernelAt := image.vars.toNat_kernel
  have savedAt := image.vars.toNat_saved
  have ripAt := image.vars.toNat_rip
  have rspAt := image.vars.toNat_rsp
  obtain ⟨v, called, up⟩ := dispatched next (syscallMsrs image.entryAt) image.dispatchAt
    ready.kernel apart
  have depth := called.rsp
  have userKept : ∀ x ∈ user, v.mem x = s.mem x := by
    intro x mem
    obtain ⟨off, notVar⟩ := outside x mem
    have far : ¬ (image.vars.bss.toNat ≤ x ∧ x < image.vars.bss.toNat + 40) := notVar
    exact called.others x (by omega) (by omega) (by omega)
  have varKept : ∀ var : UInt64, image.vars.bss.toNat + 8 ≤ var.toNat →
      var.toNat + 8 ≤ image.vars.bss.toNat + 32 →
        X86.wordAt v.mem var = X86.wordAt s.mem var := by
    intro var low high
    obtain ⟨room, side⟩ := apart
    exact X86.wordAt_congr fun x _ _ => called.others x (by omega) (by omega) (by omega)
  have rip : X86.wordAt v.mem image.vars.userReturnRip = 0 := by
    rw [varKept _ (by omega) (by omega), ready.rip]
  have rsp : X86.wordAt v.mem image.vars.userReturnRsp = 0 := by
    rw [varKept _ (by omega) (by omega), ready.rsp]
  have code : image.systemCall next s = (image.call image.dispatchAt v).bind fun t =>
      (X86.exec image.call 0 (syscallLeave image.vars) t).map
        (·.sysretq (syscallMsrs image.entryAt)) := by
    have lstar : (syscallMsrs image.entryAt).lstar = image.entryAt := rfl
    rw [SyscallImage.systemCall, takeSyscall, lstar, image.entry, Option.bind_some,
      X86.exec_of_toCall up, Option.map_bind]
    rfl
  have contract := dispatches v depth rip rsp
  rw [called.nr, called.a1, called.a2, called.a3, called.env] at contract
  cases answered : services.answer (s.reg .rax) (s.reg .rdi) (s.reg .rsi) (s.reg .rdx) s.mem s.env
    with
  | none =>
      have unanswered : services.answer (s.reg .rax) (s.reg .rdi) (s.reg .rsi) (s.reg .rdx) v.mem
          s.env = none := by
        refine Option.eq_none_iff_forall_ne_some.mpr fun r some => ?_
        obtain ⟨r', there, -⟩ := services.seen some fun x mem => (userKept x mem).symm
        rw [answered] at there
        cases there
      rw [unanswered] at contract
      change image.systemCall next s = none
      rw [code, contract]
      rfl
  | some r =>
      obtain ⟨r', there, same⟩ := services.seen answered userKept
      rw [there] at contract
      obtain ⟨t, ran, returned, rax, newRip, newRsp, saved, kernel, userMem, env⟩ := contract
      have tRsp : t.reg .rsp = v.reg .rsp := returned.regs .rsp (by decide)
      have here : (t.reg .rsp).toNat + 120 = top.toNat := by rw [tRsp, depth]
      have words : Words t.mem (t.reg .rsp).toNat (syscallWords s next) := by
        rw [tRsp]
        have length : (syscallWords s next).length = 15 := rfl
        refine called.words.congr fun x low high => returned.stack x low ?_
        rw [length] at high
        omega
      have left := syscallLeave_spec image.entryAt image.call apart here words
        (saved.trans called.saved)
      have leftMem : LeftMem image.vars top t.mem
          (leaveMem image.vars t.mem (t.reg .rsp) (t.reg .rax)) := leaveMem_left apart here
      refine ⟨leaveMem image.vars t.mem (t.reg .rsp) (t.reg .rax), ?_, fun x mem => ?_, ?_, ?_, ?_⟩
      · rw [code, ran, Option.bind_some, left, rax, newRip, newRsp, env, same.rax, same.rip,
          same.rsp, same.env]
      · obtain ⟨off, notVar⟩ := outside x mem
        have far : ¬ (image.vars.bss.toNat ≤ x ∧ x < image.vars.bss.toNat + 40) := notVar
        rw [leftMem.others x off (by omega), userMem x mem, same.mem x mem]
      · rw [leftMem.kernel, kernel, varKept _ (by omega) (by omega), ready.kernel]
      · exact leftMem.rip
      · exact leftMem.rsp

/-- The program goes on outside the kernel. -/
theorem userAfter_level (s : State K) (next rax rip rsp : UInt64) (mem : ByteMemory) (env : K) :
    (userAfter s next rax rip rsp mem env).level = 3 := by
  have level : (0x23 : UInt16) &&& 3 = 3 := by decide
  exact level

/-! ## The interrupt flag in the entry code -/

section Flag

variable {call : UInt64 → State K → Option (State K)} {s t : State K}

/-- `SFMASK` keeps interrupts out of the entry code. -/
theorem syscall_masked (s : State K) (entryAt next : UInt64) :
    (s.syscall (syscallMsrs entryAt) next).rflags &&& interruptFlag = 0 := by
  have mask : ~~~(0x200 ||| 0x400 ||| 0x800 ||| 0x40000 : UInt64) &&& interruptFlag = 0 := by decide
  change s.rflags &&& ~~~(0x200 ||| 0x400 ||| 0x800 ||| 0x40000 : UInt64) &&& interruptFlag = 0
  rw [UInt64.and_assoc, mask, UInt64.and_zero]

/-- An instruction that leaves the interrupt flag alone, or calls `dispatch`. -/
def Quiet (dispatch : UInt64) : Instr → Prop
  | .popf => False
  | .call f => f = dispatch
  | _ => True

/-- The entry code has no others. -/
theorem syscallEntry_quiet (vars : SyscallVars) (dispatch : UInt64) :
    ∀ i ∈ syscallEntry vars dispatch, Quiet dispatch i := by
  simp [syscallEntry, syscallLeave, takeReturn, syscallSaved, syscallRestored, Quiet]

/-- **Interrupts stay off** over an instruction, if they stay off over the call. -/
theorem execOne_masked {dispatch : UInt64} {n n' : Nat} {i : Instr}
    (dispatched : ∀ {v t : State K}, v.rflags &&& interruptFlag = 0 → call dispatch v = some t →
      t.rflags &&& interruptFlag = 0)
    (quiet : Quiet dispatch i) (off : s.rflags &&& interruptFlag = 0)
    (ran : X86.execOne call n i s = some (t, n')) : t.rflags &&& interruptFlag = 0 := by
  cases n with
  | succ n =>
      cases ran
      exact off
  | zero =>
      have kept : i ≠ .popf → some (i.step s, 0) = some (t, n') →
          t.rflags &&& interruptFlag = 0 := by
        intro notPopf same
        obtain ⟨rfl, -⟩ := Prod.mk.inj (Option.some.inj same)
        rw [X86.step_flag notPopf (by decide)]
        exact off
      cases i
      case popf => exact quiet.elim
      case call f =>
        obtain ⟨v, returned, same⟩ := Option.map_eq_some_iff.mp ran
        cases same
        rw [show f = dispatch from quiet] at returned
        exact dispatched off returned
      case jz =>
        cases ran
        exact off
      all_goals exact kept nofun ran

end Flag

/-! ## The two machines -/

/-- A program with its system calls: `calls s next` says that a `syscall` instruction comes next,
and the one behind it at `next`. -/
structure CallingProgram (K : Type*) (user : Set Nat) extends UserProgram K user where
  calls : State K → UInt64 → Prop
  callsSeen : ∀ {s t next}, calls s next → SameView user s t → calls t next

/-- Where the machine is: in the program, or in the entry code, with what is left of it.  The first
`skip` of those instructions are left out. -/
inductive Place where
  | program
  | entry (skip : Nat) (code : List Instr)

section Machines

variable {user : Set Nat}

/-- **The machine with the entry code**, which runs instruction by instruction; the function that it
calls is one step.  An interrupt comes wherever the flags let it, in the entry code too. -/
inductive MachineStep (image : SyscallImage K) (rsp0 : UInt64)
    (program : CallingProgram (Devices K) user) :
    State (Devices K) × Place → State (Devices K) × Place → Prop
  | run {s t : State (Devices K)} (next : program.step s t) :
      MachineStep image rsp0 program (s, .program) (t, .program)
  | irq {s t : State (Devices K)} {place : Place} {n : Nat} (line : n < 16)
      (enabled : s.rflags &&& interruptFlag ≠ 0)
      (taken : image.take rsp0 n s = some t) : MachineStep image rsp0 program (s, place) (t, place)
  | enter {s : State (Devices K)} {next : UInt64} {code : List Instr} (calls : program.calls s next)
      (there : image.codeAt (syscallMsrs image.entryAt).lstar = some code) :
      MachineStep image rsp0 program (s, .program)
        (s.syscall (syscallMsrs image.entryAt) next, .entry 0 code)
  | instr {s t : State (Devices K)} {n n' : Nat} {i : Instr} {code : List Instr}
      (ran : X86.execOne image.call n i s = some (t, n')) :
      MachineStep image rsp0 program (s, .entry n (i :: code)) (t, .entry n' code)
  | leave {s : State (Devices K)} {n : Nat} :
      MachineStep image rsp0 program (s, .entry n [])
        (s.sysretq (syscallMsrs image.entryAt), .program)

/-- **The machine of the program**: system calls are single steps, and interrupts concern the
devices. -/
inductive UserStep (services : Services K user) (effect : Nat → Regs → Devices K → Devices K)
    (program : CallingProgram (Devices K) user) : State (Devices K) → State (Devices K) → Prop
  | run {s t : State (Devices K)} (next : program.step s t) :
      UserStep services effect program s t
  | irq {s : State (Devices K)} {n : Nat} (line : n < 16)
      (enabled : s.rflags &&& interruptFlag ≠ 0) :
      UserStep services effect program s
        { s with env := effect n (.of s (UInt64.ofNat (32 + n)) 0) (s.env.eoi n) }
  | call {s : State (Devices K)} {next : UInt64} {r : Answer K} (calls : program.calls s next)
      (answered : services.answer (s.reg .rax) (s.reg .rdi) (s.reg .rsi) (s.reg .rdx) s.mem s.env =
        some r) :
      UserStep services effect program s (userAfter s next r.rax r.rip r.rsp r.mem r.env)

/-- The assumptions on the linked kernel: where its stacks and variables lie, and that the functions
that the entry code calls keep to the calling convention.  `masked` says that `syscall_dispatch`
returns with interrupts off, as it is called; `SYS_READ` from the keyboard, which turns them on and
does not turn them off again, is left out by it. -/
structure KernelOk (image : SyscallImage K) (rsp0 top : UInt64) (services : Services K user)
    (effect : Nat → Regs → Devices K → Devices K) : Prop where
  frame : 176 ≤ (rsp0 &&& ~~~15).toNat
  frameApart : ∀ x ∈ user ∪ image.vars.bytes,
    x < (rsp0 &&& ~~~15).toNat - 176 ∨ (rsp0 &&& ~~~15).toNat ≤ x
  stack : StackApart image.vars top
  userApart : ∀ x ∈ user, (x + 120 < top.toNat ∨ top.toNat ≤ x) ∧ x ∉ image.vars.bytes
  serves : ∀ n < 16, Serves (rsp0 &&& ~~~15) (user ∪ image.vars.bytes)
    (image.handler n) (effect n)
  dispatches : Dispatches image.vars top services (image.call image.dispatchAt)
  masked : ∀ {v t : State (Devices K)}, v.rflags &&& interruptFlag = 0 →
    image.call image.dispatchAt v = some t → t.rflags &&& interruptFlag = 0

/-- The two machines are in step: the program sees the same, and so do the devices. -/
structure InStep (user : Set Nat) (image : SyscallImage K) (top : UInt64) (u s : State (Devices K)) : Prop where
  view : SameView user u s
  env : s.env = u.env
  level : s.level = 3
  ready : EntryReady image.vars top s.mem

/-- **In the entry code** the machine is on its way to what the whole of the code does for a call
from `s₀`, with interrupts off. -/
structure OnItsWay (image : SyscallImage K) (s₀ : State (Devices K)) (next : UInt64) (skip : Nat)
    (code : List Instr) (s : State (Devices K)) : Prop where
  rest : X86.exec image.call skip code s =
    X86.exec image.call 0 (syscallEntry image.vars image.dispatchAt)
      (s₀.syscall (syscallMsrs image.entryAt) next)
  quiet : ∀ i ∈ code, Quiet image.dispatchAt i
  masked : s.rflags &&& interruptFlag = 0

/-- The two machines are in step, wherever the machine with the entry code is.  In that code the
other machine still stands before the call. -/
def InStepAt (user : Set Nat) (image : SyscallImage K) (top : UInt64)
    (program : CallingProgram (Devices K) user) (u : State (Devices K)) :
    State (Devices K) × Place → Prop
  | (s, .program) => InStep user image top u s
  | (s, .entry skip code) => ∃ s₀ next, InStep user image top u s₀ ∧ program.calls s₀ next ∧
      OnItsWay image s₀ next skip code s

variable {image : SyscallImage K} {rsp0 top : UInt64} {services : Services K user}
  {effect : Nat → Regs → Devices K → Devices K} {program : CallingProgram (Devices K) user}
  {s t u : State (Devices K)} {a b : State (Devices K) × Place}

/-- What an interrupted program is told to the handler is what the program sees. -/
theorem Regs.of_sameView {K : Type*} {s t : State K} (same : SameView user s t)
    (intNo err : UInt64) : Regs.of t intNo err = Regs.of s intNo err := by
  rw [Regs.of, Regs.of, same.reg, same.rip, same.rflags, same.cs, same.ss]

/-- **A whole system call** is a step of the program's machine. -/
theorem InStep.call (ok : KernelOk image rsp0 top services effect)
    (inStep : InStep user image top u s) {next : UInt64} (calls : program.calls s next)
    (called : image.systemCall next s = some t) :
    ∃ u', UserStep services effect program u u' ∧ InStep user image top u' t := by
  obtain ⟨view, env, -, ready⟩ := inStep
  have answer := systemCall_spec image services ok.stack ok.userApart ok.dispatches ready next
  cases answered : services.answer (s.reg .rax) (s.reg .rdi) (s.reg .rsi) (s.reg .rdx) s.mem
      s.env with
  | none =>
      rw [answered] at answer
      rw [show image.systemCall next s = none from answer] at called
      cases called
  | some r =>
      rw [answered] at answer
      obtain ⟨mem, there, userMem, ready'⟩ := answer
      rw [there, Option.some.injEq] at called
      subst called
      obtain ⟨r', there', same⟩ := services.seen answered fun x inside =>
        (view.mem x inside).symm
      rw [view.reg, env] at there'
      refine ⟨_, .call (program.callsSeen calls view.symm) there', ⟨?_, ?_, ?_, rfl, rfl, ?_⟩,
        same.env.symm, userAfter_level .., ready'⟩
      · change afterCall s next r.rax r.rip r.rsp = afterCall u next r'.rax r'.rip r'.rsp
        rw [same.rax, same.rip, same.rsp]
        funext q
        cases q <;> simp only [afterCall, view.reg, view.rflags]
      · change (if r.rip = 0 then next else r.rip) = if r'.rip = 0 then next else r'.rip
        rw [same.rip]
      · change s.rflags &&& 0x3C7FD7 ||| 2 = u.rflags &&& 0x3C7FD7 ||| 2
        rw [view.rflags]
      · intro x inside
        exact (userMem x inside).trans (same.mem x inside).symm

/-- **An interrupt of the program** is one on the program's machine. -/
theorem InStep.irq (ok : KernelOk image rsp0 top services effect)
    (inStep : InStep user image top u s) {n : Nat} (line : n < 16)
    (enabled : s.rflags &&& interruptFlag ≠ 0) (taken : image.take rsp0 n s = some t) :
    ∃ u', UserStep services effect program u u' ∧ InStep user image top u' t := by
  obtain ⟨view, env, level, ready⟩ := inStep
  have base := frameBase_user level rsp0
  obtain ⟨mem, there, kept⟩ := take_spec image.toInterruptImage line rsp0
    (by rw [base]; exact ok.frame) (by rw [base]; exact ok.frameApart)
    (by rw [base]; exact ok.serves n line)
  rw [there, Option.some.injEq] at taken
  subst taken
  refine ⟨_, .irq line (by rw [← view.rflags]; exact enabled), ⟨view.reg, view.rip, view.rflags,
    view.cs, view.ss, fun x inside => ?_⟩, ?_, level, ready.congr fun x var => kept x (.inr var)⟩
  · exact (kept x (.inl inside)).trans (view.mem x inside)
  · rw [Regs.of_sameView view, env]

/-- A `syscall` instruction starts the entry code. -/
theorem onItsWay_enter (s : State (Devices K)) (next : UInt64) {code : List Instr}
    (there : image.codeAt (syscallMsrs image.entryAt).lstar = some code) :
    OnItsWay image s next 0 code (s.syscall (syscallMsrs image.entryAt) next) := by
  obtain rfl := Option.some.inj (image.entry.symm.trans there)
  exact ⟨rfl, syscallEntry_quiet _ _, syscall_masked ..⟩

/-- An instruction leads on. -/
theorem OnItsWay.instr (ok : KernelOk image rsp0 top services effect)
    {s₀ : State (Devices K)} {next : UInt64} {n n' : Nat} {i : Instr} {code : List Instr}
    (way : OnItsWay image s₀ next n (i :: code) s)
    (ran : X86.execOne image.call n i s = some (t, n')) :
    OnItsWay image s₀ next n' code t := by
  obtain ⟨rest, quiet, off⟩ := way
  refine ⟨?_, fun j mem => quiet j (List.mem_cons_of_mem i mem),
    execOne_masked ok.masked (quiet i List.mem_cons_self) off ran⟩
  rw [← rest, X86.exec_cons, ran]
  rfl

/-- The whole of the entry code has run for the call. -/
theorem OnItsWay.done {s₀ : State (Devices K)} {next : UInt64} {n : Nat}
    (way : OnItsWay image s₀ next n [] s) :
    image.systemCall next s₀ = some (s.sysretq (syscallMsrs image.entryAt)) := by
  have rest := way.rest
  have nothing : X86.exec image.call n [] s = some s := by
    cases n <;> rfl
  rw [nothing] at rest
  rw [SyscallImage.systemCall, takeSyscall,
    show (syscallMsrs image.entryAt).lstar = image.entryAt from rfl, image.entry, Option.bind_some,
    ← rest]
  rfl

/-- **One step** of the machine is one of the program's, or none. -/
theorem MachineStep.refines (ok : KernelOk image rsp0 top services effect)
    (inStep : InStepAt user image top program u a) (step : MachineStep image rsp0 program a b) :
    ∃ u', Relation.ReflTransGen (UserStep services effect program) u u' ∧
      InStepAt user image top program u' b := by
  cases step with
  | run next =>
      obtain ⟨view, env, level, ready⟩ := inStep
      obtain ⟨u', ran, same⟩ := program.seen next view.symm
      refine ⟨u', .single (.run ran), same.symm, ?_, program.level next level,
        ready.congr fun x var => ?_⟩
      · rw [program.env next, program.env ran, env]
      · exact program.outside next x fun inside => (ok.userApart x inside).2 var
  | @irq s t place n line enabled taken =>
      cases place with
      | program =>
          obtain ⟨u', one, inStep'⟩ := InStep.irq ok inStep line enabled taken
          exact ⟨u', .single one, inStep'⟩
      | entry skip code =>
          obtain ⟨s₀, next, -, -, way⟩ := inStep
          exact absurd way.masked enabled
  | @enter s next code calls there =>
      exact ⟨u, .refl, s, next, inStep, calls, onItsWay_enter s next there⟩
  | instr ran =>
      obtain ⟨s₀, next, before, calls, way⟩ := inStep
      exact ⟨u, .refl, s₀, next, before, calls, way.instr ok ran⟩
  | leave =>
      obtain ⟨s₀, next, before, calls, way⟩ := inStep
      obtain ⟨u', one, inStep'⟩ := before.call ok calls way.done
      exact ⟨u', .single one, inStep'⟩

/-- Code that runs to its end does so instruction by instruction. -/
theorem runs_to_end {n : Nat} {code : List Instr} (ran : X86.exec image.call n code s = some t) :
    ∃ n', Relation.ReflTransGen (MachineStep image rsp0 program) (s, .entry n code)
      (t, .entry n' []) := by
  induction code generalizing n s with
  | nil =>
      have same : s = t := by
        cases n <;> exact Option.some.inj ran
      subst same
      exact ⟨n, .refl⟩
  | cons i code ih =>
      rw [X86.exec_cons] at ran
      obtain ⟨⟨v, m⟩, one, rest⟩ := Option.bind_eq_some_iff.mp ran
      obtain ⟨n', steps⟩ := ih rest
      exact ⟨n', steps.head (.instr one)⟩

/-- **A system call that is answered** comes back to the program, instruction by instruction. -/
theorem call_returns {next : UInt64} (calls : program.calls s next)
    (called : image.systemCall next s = some t) :
    Relation.ReflTransGen (MachineStep image rsp0 program) (s, .program) (t, .program) := by
  have there : image.codeAt (syscallMsrs image.entryAt).lstar =
      some (syscallEntry image.vars image.dispatchAt) := image.entry
  rw [SyscallImage.systemCall, takeSyscall, there, Option.bind_some] at called
  obtain ⟨v, ran, rfl⟩ := Option.map_eq_some_iff.mp called
  obtain ⟨n, steps⟩ : ∃ n, Relation.ReflTransGen (MachineStep image rsp0 program)
      (_, .entry _ _) (v, .entry n []) := runs_to_end ran
  exact .head (.enter calls there) (steps.tail .leave)

/-- **The machine of the program.**  Every run of the machine with the entry code is a run of the
program's machine; whenever the program runs, it sees the same on both, and the devices are the
same.  The entry code runs with interrupts off, all the way from `syscall` to `sysretq`: the
statement rests on `KernelOk.masked` for this, and it is why no frame of an interrupt comes to lie
on the stack of the program.  Wherever the program is, a system call with an answer gets it, and an
interrupt is served. -/
theorem machine_refines (image : SyscallImage K) (rsp0 top : UInt64) (services : Services K user)
    (effect : Nat → Regs → Devices K → Devices K) (program : CallingProgram (Devices K) user)
    (ok : KernelOk image rsp0 top services effect) (outside : s.level = 3)
    (ready : EntryReady image.vars top s.mem) {place : Place}
    (ran : Relation.ReflTransGen (MachineStep image rsp0 program) (s, .program) (t, place)) :
    (∃ t', Relation.ReflTransGen (UserStep services effect program) s t' ∧
      (place = .program → SameView user t' t ∧ t.env = t'.env)) ∧
      (place ≠ .program → t.rflags &&& interruptFlag = 0) ∧
      (place = .program → (∀ next r, program.calls t next →
        services.answer (t.reg .rax) (t.reg .rdi) (t.reg .rsi) (t.reg .rdx) t.mem t.env = some r →
          ∃ t', image.systemCall next t = some t' ∧
            Relation.ReflTransGen (MachineStep image rsp0 program) (t, place) (t', .program)) ∧
        ∀ n < 16, ∃ t', image.take rsp0 n t = some t') := by
  have all : ∀ {b}, Relation.ReflTransGen (MachineStep image rsp0 program) (s, .program) b →
      ∃ t', Relation.ReflTransGen (UserStep services effect program) s t' ∧
        InStepAt user image top program t' b := by
    intro b ran
    induction ran with
    | refl => exact ⟨s, .refl, ⟨rfl, rfl, rfl, rfl, rfl, fun _ _ => rfl⟩, rfl, outside, ready⟩
    | tail _ step ih =>
        obtain ⟨t', alone, inStep⟩ := ih
        obtain ⟨u, next, inStep'⟩ := step.refines ok inStep
        exact ⟨u, alone.trans next, inStep'⟩
  obtain ⟨t', alone, inStep⟩ := all ran
  cases place with
  | entry skip code =>
      obtain ⟨s₀, next, -, -, way⟩ := inStep
      exact ⟨⟨t', alone, nofun⟩, fun _ => way.masked, nofun⟩
  | program =>
      obtain ⟨view, env, level, ready'⟩ := inStep
      refine ⟨⟨t', alone, fun _ => ⟨view, env⟩⟩, fun differ => absurd rfl differ,
        fun _ => ⟨fun next r calls answered => ?_, fun n line => ?_⟩⟩
      · have answer := systemCall_spec image services ok.stack ok.userApart ok.dispatches ready' next
        rw [answered] at answer
        obtain ⟨mem, there, -⟩ := answer
        exact ⟨_, there, call_returns calls there⟩
      · have base := frameBase_user level rsp0
        obtain ⟨mem, there, -⟩ := take_spec image.toInterruptImage line rsp0
          (by rw [base]; exact ok.frame) (by rw [base]; exact ok.frameApart)
          (by rw [base]; exact ok.serves n line)
        exact ⟨_, there⟩

end Machines

/-- Where the variables lie in the kernel of the witness. -/
def succVars : SyscallVars := ⟨0x3000, by decide⟩

/-- A system call that adds one to its first argument. -/
def succServices : Services Nat {x | x < 256} where
  answer := fun _ a1 _ _ m env => some ⟨a1 + 1, 0, 0, m, env⟩
  seen := by
    intro nr a1 a2 a3 m m' env r answered same
    obtain rfl := Option.some.inj answered
    exact ⟨_, rfl, rfl, rfl, rfl, same, rfl⟩

/-- The code of the kernel of the witness. -/
def succCode (a : UInt64) : Option (List Instr) :=
  if a = 0x2000 then some (syscallEntry succVars 0x200) else some (irqStub 0x100 a.toNat)

/-- Its functions of C. -/
def succCall (f : UInt64) : CFunction Nat :=
  if f = 0x200 then fun v => some (v.set .rax (v.reg .rsi + 1))
  else irqHandler tickHandlers fun s => s.set .rax 5

/-- The code for the interrupts. -/
theorem succCode_irq : ∀ n < 16, succCode (UInt64.ofNat n) = some (irqStub 0x100 n) := by
  intro n line
  have toNat : (UInt64.ofNat n).toNat = n := by
    rw [UInt64.toNat_ofNat', Nat.mod_eq_of_lt (by omega)]
  have differ : UInt64.ofNat n ≠ 0x2000 := by
    intro same
    rw [same] at toNat
    change 0x2000 = n at toNat
    omega
  rw [succCode, if_neg differ, toNat]

/-- The code for system calls. -/
theorem succCode_entry : succCode 0x2000 = some (syscallEntry succVars 0x200) := if_pos rfl

/-- The function for interrupts. -/
theorem succCall_irq : succCall 0x100 = irqHandler tickHandlers fun s => s.set .rax 5 := by
  rw [succCall, if_neg (by decide)]

/-- The function for system calls. -/
theorem succCall_dispatch : succCall 0x200 = fun v => some (v.set .rax (v.reg .rsi + 1)) :=
  if_pos rfl

/-- A kernel with that system call, which counts the interrupts of line 0. -/
def succImage : SyscallImage Nat where
  isrTable := tickImage.isrTable
  irqTable := UInt64.ofNat
  codeAt := succCode
  irqHandlerAt := 0x100
  call := succCall
  handlers := tickHandlers
  clobber := fun s => s.set .rax 5
  irqs := succCode_irq
  calls := succCall_irq
  vars := succVars
  entryAt := 0x2000
  dispatchAt := 0x200
  entry := succCode_entry

/-- The program of the witness makes a system call whenever it likes. -/
def succProgram : CallingProgram (Devices Nat) {x | x < 256} where
  toUserProgram := countProgram
  calls := fun s next => next = s.rip + 2
  callsSeen := by
    intro s t next calls same
    rw [same.rip]
    exact calls

/-- Where it starts, with the top of the kernel stack in its variable. -/
def succStart : State (Devices Nat) :=
  { countStart with mem := X86.storeAt (fun _ => 0) 0x3008 0x5000 }

/-- The kernel of the witness keeps to the calling convention. -/
theorem succImage_ok : KernelOk succImage 4096 0x5000 succServices tickEffect := by
  have base : ((4096 : UInt64) &&& ~~~15).toNat = 4096 := by decide
  have top : (0x5000 : UInt64).toNat = 20480 := by decide
  have bss : succImage.vars.bss.toNat = 12288 := by decide
  have far : ∀ x ∈ succImage.vars.bytes, 12288 ≤ x := by
    intro x inside
    have low := inside.1
    rwa [bss] at low
  refine ⟨?_, ?_, ?_, ?_, fun n _ => tickImage_serves _ n _, ?_, ?_⟩
  · rw [base]
    decide
  · intro x inside
    rw [base]
    cases inside with
    | inl low =>
        change x < 256 at low
        omega
    | inr var =>
        have high := far x var
        omega
  · rw [StackApart, top, bss]
    omega
  · intro x low
    change x < 256 at low
    rw [top]
    refine ⟨by omega, fun var => ?_⟩
    have high := far x var
    omega
  · intro v _ rip rsp
    refine ⟨v.set .rax (v.reg .rsi + 1), ?_, ⟨fun r mem => State.set_reg_of_ne ?_, fun _ _ _ => rfl⟩,
      State.set_reg_self, rip, rsp, rfl, rfl, fun _ _ => rfl, rfl⟩
    · exact congrFun succCall_dispatch v
    · rintro rfl
      revert mem
      decide
  · intro v t off returned
    obtain rfl := Option.some.inj ((congrFun succCall_dispatch v).symm.trans returned)
    exact off

/-- The program is interrupted and then makes a system call. -/
theorem machine_refines_succ :
    ∃ s t, MachineStep succImage 4096 succProgram (succStart, .program) (s, .program) ∧
      Relation.ReflTransGen (MachineStep succImage 4096 succProgram) (s, .program) (t, .program) ∧
      ∃ t', Relation.ReflTransGen (UserStep succServices tickEffect succProgram) succStart t' ∧
        SameView {x | x < 256} t' t ∧ t.env = t'.env := by
  have ready : EntryReady succImage.vars 0x5000 succStart.mem := by
    have zero : ∀ p : UInt64, X86.wordAt (fun _ => 0) p = 0 := by
      intro p
      rw [X86.wordAt, ByteMemory.load_of_zero fun _ _ => rfl]
      rfl
    refine ⟨X86.wordAt_storeAt .., ?_, ?_⟩
    · exact (X86.wordAt_storeAt_of_disjoint (by decide)).trans (zero _)
    · exact (X86.wordAt_storeAt_of_disjoint (by decide)).trans (zero _)
  obtain ⟨-, -, taken⟩ := machine_refines succImage 4096 0x5000 succServices tickEffect succProgram
    succImage_ok (by decide) ready .refl
  obtain ⟨s, there⟩ := (taken rfl).2 0 (by decide)
  have first : MachineStep succImage 4096 succProgram (succStart, .program) (s, .program) :=
    .irq (by decide) (by decide) there
  obtain ⟨-, -, answered⟩ := machine_refines succImage 4096 0x5000 succServices tickEffect
    succProgram succImage_ok (by decide) ready (.single first)
  obtain ⟨t, called, second⟩ := (answered rfl).1 (s.rip + 2) _ rfl rfl
  obtain ⟨⟨t', alone, sees⟩, -⟩ := machine_refines succImage 4096 0x5000 succServices tickEffect
    succProgram succImage_ok (by decide) ready (second.head first)
  exact ⟨s, t, first, second, t', alone, sees rfl⟩

end Flyos
