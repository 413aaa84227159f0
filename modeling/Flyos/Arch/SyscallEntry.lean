import Flyos.Arch.Interrupts

/-!
# System calls

`syscall_init` of `kernel/arch/syscall.c` and `syscall_entry.S`: how a program gets to
`syscall_dispatch`, and how it comes back.

The code has no stack of its own at first, and goes through variables.  The stack pointer of the
program waits in `saved_user_rsp`; `SYS_EXEC` leaves a new instruction pointer and a new stack
pointer in `user_return_rip` and `user_return_rsp`, which the code takes once.

`dispatched` says what `syscall_dispatch` is called with, and `syscallLeave_spec` what becomes of
the program when it has returned: of its registers only `rax`, `rcx` and `r11` are not as they were.
-/

namespace Flyos

open X86 (Reg State Instr Words Pushed SyscallMsrs)

/-! ## The entry code -/

/-- What `syscall_init` writes to the model-specific registers. -/
def syscallMsrs (syscallEntryAt : UInt64) : SyscallMsrs where
  star := (0x08 : UInt64) <<< 32 ||| (0x10 : UInt64) <<< 48
  lstar := syscallEntryAt
  fmask := 0x200 ||| 0x400 ||| 0x800 ||| 0x40000

/-- The variables of `syscall_entry.S`, which lie one behind the other. -/
structure SyscallVars where
  bss : UInt64
  fits : bss.toNat + 40 ≤ 2 ^ 64

namespace SyscallVars

variable (vars : SyscallVars)

/-- `saved_user_rsp`. -/
def savedUserRsp : UInt64 := vars.bss

/-- `kernel_rsp`. -/
def kernelRsp : UInt64 := vars.bss + 8

/-- `user_return_rip`. -/
def userReturnRip : UInt64 := vars.bss + 16

/-- `user_return_rsp`. -/
def userReturnRsp : UInt64 := vars.bss + 24

/-- `syscall_user_rcx`. -/
def syscallUserRcx : UInt64 := vars.bss + 32

end SyscallVars

/-- What `syscall_entry` pushes. -/
def syscallSaved : List Reg :=
  [.rcx, .r11, .rax, .rdi, .rsi, .rdx, .r8, .r9, .r10, .rbx, .rbp, .r12, .r13, .r14, .r15]

/-- What it pops. -/
def syscallRestored : List Reg :=
  [.r15, .r14, .r13, .r12, .rbp, .rbx, .r10, .r9, .r8, .rdx, .rsi, .rdi, .rax, .r11, .rcx]

/-- Code that takes a value from a variable of `SYS_EXEC`, unless it is zero. -/
def takeReturn (var : UInt64) (put : Instr) : List Instr :=
  [.loadVar var .rax, .test .rax, .jz 2, put, .storeImm 0 var]

/-- `syscall_entry` behind the call. -/
def syscallLeave (vars : SyscallVars) : List Instr :=
  .store .rax 96 .rsp ::
    (takeReturn vars.userReturnRip (.store .rax 112 .rsp) ++
      (takeReturn vars.userReturnRsp (.storeVar .rax vars.savedUserRsp) ++
        (syscallRestored.map .pop ++ [.loadVar vars.savedUserRsp .rsp])))

/-- `syscall_entry`, up to `sysretq`. -/
def syscallEntry (vars : SyscallVars) (dispatch : UInt64) : List Instr :=
  .storeVar .rsp vars.savedUserRsp :: .loadVar vars.kernelRsp .rsp ::
    (syscallSaved.map .push ++
      (.storeVar .rcx vars.syscallUserRcx ::
        .load 96 .rsp .rdi :: .load 88 .rsp .rsi :: .load 80 .rsp .rdx :: .load 72 .rsp .rcx ::
          .call dispatch :: syscallLeave vars))

/-- The machine runs a `syscall` instruction, with the next one at `next`. -/
def takeSyscall {K : Type*} (msrs : SyscallMsrs) (codeAt : UInt64 → Option (List Instr))
    (call : UInt64 → State K → Option (State K)) (next : UInt64) (s : State K) :
    Option (State K) :=
  (codeAt msrs.lstar).bind fun code =>
    (X86.exec call 0 code (s.syscall msrs next)).map (·.sysretq msrs)

/-! ## The variables -/

section Vars

variable (vars : SyscallVars)

/-- The variables are where the assembler puts them. -/
theorem SyscallVars.toNat_add (off : UInt64) (inside : off.toNat ≤ 32) :
    (vars.bss + off).toNat = vars.bss.toNat + off.toNat := by
  have fits := vars.fits
  rw [UInt64.toNat_add, Nat.mod_eq_of_lt (by omega)]

theorem SyscallVars.toNat_saved : vars.savedUserRsp.toNat = vars.bss.toNat := rfl

theorem SyscallVars.toNat_kernel : vars.kernelRsp.toNat = vars.bss.toNat + 8 :=
  vars.toNat_add 8 (by decide)

theorem SyscallVars.toNat_rip : vars.userReturnRip.toNat = vars.bss.toNat + 16 :=
  vars.toNat_add 16 (by decide)

theorem SyscallVars.toNat_rsp : vars.userReturnRsp.toNat = vars.bss.toNat + 24 :=
  vars.toNat_add 24 (by decide)

theorem SyscallVars.toNat_rcx : vars.syscallUserRcx.toNat = vars.bss.toNat + 32 :=
  vars.toNat_add 32 (by decide)

end Vars

/-! ## Into the kernel -/

variable {K : Type*} {s t u v : State K} {vars : SyscallVars} {top next : UInt64}

/-- What lies on the kernel stack during a system call, from the top. -/
def syscallWords (s : State K) (next : UInt64) : List UInt64 :=
  [s.reg .r15, s.reg .r14, s.reg .r13, s.reg .r12, s.reg .rbp, s.reg .rbx, s.reg .r10, s.reg .r9,
    s.reg .r8, s.reg .rdx, s.reg .rsi, s.reg .rdi, s.reg .rax, s.rflags, next]

/-- The state in which `syscall_entry` calls `syscall_dispatch` for a program in `s`. -/
structure Dispatched (vars : SyscallVars) (s : State K) (next top : UInt64) (v : State K) :
    Prop where
  rsp : (v.reg .rsp).toNat + 120 = top.toNat
  nr : v.reg .rdi = s.reg .rax
  a1 : v.reg .rsi = s.reg .rdi
  a2 : v.reg .rdx = s.reg .rsi
  a3 : v.reg .rcx = s.reg .rdx
  words : Words v.mem (v.reg .rsp).toNat (syscallWords s next)
  saved : X86.wordAt v.mem vars.savedUserRsp = s.reg .rsp
  userRcx : X86.wordAt v.mem vars.syscallUserRcx = next
  others : ∀ x, x < (v.reg .rsp).toNat ∨ top.toNat ≤ x →
    x < vars.bss.toNat ∨ vars.bss.toNat + 8 ≤ x →
      x < vars.bss.toNat + 32 ∨ vars.bss.toNat + 40 ≤ x → v.mem x = s.mem x
  env : v.env = s.env

/-- The kernel stack below `top` holds a system call, and lies apart from the variables. -/
def StackApart (vars : SyscallVars) (top : UInt64) : Prop :=
  120 ≤ top.toNat ∧ (top.toNat ≤ vars.bss.toNat ∨ vars.bss.toNat + 40 + 120 ≤ top.toNat)

section Into

/-- The stack pointer of the program goes to its variable, and the kernel's is loaded. -/
def onKernelStack (vars : SyscallVars) (s : State K) : State K :=
  Instr.step (Instr.step s (.storeVar .rsp vars.savedUserRsp)) (.loadVar vars.kernelRsp .rsp)

theorem onKernelStack_reg {r : Reg} (differ : r ≠ .rsp) :
    (onKernelStack vars s).reg r = s.reg r := State.set_reg_of_ne differ

/-- The stack that is loaded. -/
theorem onKernelStack_rsp (kernel : X86.wordAt s.mem vars.kernelRsp = top) :
    (onKernelStack vars s).reg .rsp = top := by
  have savedAt := vars.toNat_saved
  have kernelAt := vars.toNat_kernel
  rw [← kernel]
  refine State.set_reg_self.trans (X86.wordAt_storeAt_of_disjoint ?_)
  omega

/-- The state of `syscall_entry` when the registers of a program in `s` are on the stack. -/
structure RegistersSaved (vars : SyscallVars) (s : State K) (next top : UInt64) (u : State K) :
    Prop where
  rsp : (u.reg .rsp).toNat + 120 = top.toNat
  rcx : u.reg .rcx = next
  words : Words u.mem (u.reg .rsp).toNat (syscallWords s next)
  others : ∀ x, x < (u.reg .rsp).toNat ∨ top.toNat ≤ x →
    u.mem x = X86.storeAt s.mem vars.savedUserRsp (s.reg .rsp) x
  env : u.env = s.env

/-- **The registers go on the stack.** -/
theorem registersSaved (next : UInt64) (msrs : SyscallMsrs)
    (kernel : X86.wordAt s.mem vars.kernelRsp = top) (room : 120 ≤ top.toNat) :
    RegistersSaved vars s next top ((onKernelStack vars (s.syscall msrs next)).pushes
      (syscallSaved.map (onKernelStack vars (s.syscall msrs next)).reg)) := by
  have wRsp : (onKernelStack vars (s.syscall msrs next)).reg .rsp = top := onKernelStack_rsp kernel
  have same : syscallSaved.map (onKernelStack vars (s.syscall msrs next)).reg =
      (syscallWords s next).reverse := by
    have kept : syscallSaved.map (onKernelStack vars (s.syscall msrs next)).reg =
        syscallSaved.map (s.syscall msrs next).reg := by
      refine List.map_congr_left fun r mem => onKernelStack_reg ?_
      rintro rfl
      revert mem
      decide
    rw [kept]
    rfl
  have pushed := X86.pushes_spec (s := onKernelStack vars (s.syscall msrs next))
    (syscallSaved.map (onKernelStack vars (s.syscall msrs next)).reg) (by
      rw [wRsp]
      exact room)
  have env := X86.pushes_env (onKernelStack vars (s.syscall msrs next))
    (syscallSaved.map (onKernelStack vars (s.syscall msrs next)).reg)
  obtain ⟨rsp, words, others, regs⟩ := pushed
  rw [wRsp] at rsp others
  refine ⟨rsp, (regs .rcx (by decide)).trans (onKernelStack_reg (by decide)), ?_, others, env⟩
  rw [same, List.reverse_reverse] at words
  rwa [same]

/-- The instruction pointer goes to its variable, and the arguments are read from the stack. -/
def withArguments (vars : SyscallVars) (u : State K) : State K :=
  let v := { u with mem := X86.storeAt u.mem vars.syscallUserRcx (u.reg .rcx) }
  (((v.set .rdi (X86.wordAt v.mem (u.reg .rsp + 96))).set .rsi
    (X86.wordAt v.mem (u.reg .rsp + 88))).set .rdx (X86.wordAt v.mem (u.reg .rsp + 80))).set .rcx
      (X86.wordAt v.mem (u.reg .rsp + 72))

/-- **The arguments are where C looks for them.** -/
theorem RegistersSaved.withArguments (saved : RegistersSaved vars s next top u)
    (apart : StackApart vars top) : Dispatched vars s next top (withArguments vars u) := by
  have savedAt := vars.toNat_saved
  have rcxAt := vars.toNat_rcx
  obtain ⟨room, side⟩ := apart
  obtain ⟨depth, rcx, uWords, others, env⟩ := saved
  have length : (syscallWords s next).length = 15 := rfl
  rw [Flyos.withArguments, rcx]
  generalize mem : X86.storeAt u.mem vars.syscallUserRcx next = m
  have mWords : Words m (u.reg .rsp).toNat (syscallWords s next) := by
    refine uWords.congr fun x low high => ?_
    rw [length] at high
    rw [← mem]
    exact X86.storeAt_of_notMem u.mem (by omega)
  have get := fun i off value index here => wordAt_of_words (w := value) mWords i off index
    here (by
      have below := UInt64.toNat_lt top
      rw [length]
      omega)
  dsimp only
  generalize loaded : ((({ u with mem := m }.set .rdi (X86.wordAt m (u.reg .rsp + 96))).set .rsi
    (X86.wordAt m (u.reg .rsp + 88))).set .rdx (X86.wordAt m (u.reg .rsp + 80))).set .rcx
      (X86.wordAt m (u.reg .rsp + 72)) = v
  have vMem : v.mem = m := by
    rw [← loaded]
    rfl
  have vRsp : v.reg .rsp = u.reg .rsp := by
    rw [← loaded]
    iterate 4 rw [State.set_reg_of_ne (by decide)]
  refine ⟨?_, ?_, ?_, ?_, ?_, ?_, ?_, ?_, ?_, ?_⟩
  · rw [vRsp, depth]
  · rw [← get 12 96 _ rfl rfl, ← loaded]
    iterate 3 rw [State.set_reg_of_ne (by decide)]
    exact State.set_reg_self
  · rw [← get 11 88 _ rfl rfl, ← loaded]
    iterate 2 rw [State.set_reg_of_ne (by decide)]
    exact State.set_reg_self
  · rw [← get 10 80 _ rfl rfl, ← loaded, State.set_reg_of_ne (by decide)]
    exact State.set_reg_self
  · rw [← get 9 72 _ rfl rfl, ← loaded]
    exact State.set_reg_self
  · rw [vMem, vRsp]
    exact mWords
  · rw [← X86.wordAt_storeAt s.mem vars.savedUserRsp (s.reg .rsp), vMem]
    refine X86.wordAt_congr fun x low high => ?_
    rw [← mem, X86.storeAt_of_notMem u.mem (by omega)]
    exact others x (by omega)
  · rw [vMem, ← mem, X86.wordAt_storeAt]
  · intro x outside notSaved notRcx
    rw [vRsp] at outside
    rw [vMem, ← mem, X86.storeAt_of_notMem u.mem (by omega), others x outside]
    exact X86.storeAt_of_notMem s.mem (by omega)
  · rw [← env, ← loaded]
    rfl

end Into

/-- **Up to the call**, with the arguments in the registers where C looks for them.  Nothing is
asked of the program's stack pointer: only the kernel's stack is written to, and two variables. -/
theorem dispatched (next : UInt64) (msrs : SyscallMsrs) (dispatch : UInt64)
    (kernel : X86.wordAt s.mem vars.kernelRsp = top) (apart : StackApart vars top) :
    ∃ v, Dispatched vars s next top v ∧
      X86.toCall 0 (syscallEntry vars dispatch) (s.syscall msrs next) =
        some (dispatch, v, syscallLeave vars) := by
  have saved := registersSaved next msrs kernel apart.1
  have code : X86.toCall 0 (syscallEntry vars dispatch) (s.syscall msrs next) =
      X86.toCall 0 (syscallSaved.map .push ++
        (.storeVar .rcx vars.syscallUserRcx ::
          .load 96 .rsp .rdi :: .load 88 .rsp .rsi :: .load 80 .rsp .rdx :: .load 72 .rsp .rcx ::
            .call dispatch :: syscallLeave vars)) (onKernelStack vars (s.syscall msrs next)) := by
    rw [syscallEntry, X86.toCall_plain rfl, X86.toCall_plain rfl]
    rfl
  rw [X86.toCall_push (by decide)] at code
  generalize (onKernelStack vars (s.syscall msrs next)).pushes
    (syscallSaved.map (onKernelStack vars (s.syscall msrs next)).reg) = u at saved code
  refine ⟨withArguments vars u, saved.withArguments apart, ?_⟩
  rw [code]
  iterate 5 rw [X86.toCall_plain rfl]
  rw [X86.step_load, X86.step_load, X86.step_load, X86.step_load, X86.step_storeVar]
  simp only [State.set_mem, State.set_reg_of_ne (show Reg.rsp ≠ .rdi by decide),
    State.set_reg_of_ne (show Reg.rsp ≠ .rsi by decide),
    State.set_reg_of_ne (show Reg.rsp ≠ .rdx by decide)]
  rfl

/-! ## Back to the program -/

/-- Memory when a value other than zero has been taken from a variable. -/
def takenMem (m : ByteMemory) (var dest : UInt64) : ByteMemory :=
  if X86.wordAt m var = 0 then m
  else X86.storeAt (X86.storeAt m dest (X86.wordAt m var)) var 0

/-- Only the variable and the place where its value goes change. -/
theorem takenMem_of_notMem {m : ByteMemory} {var dest : UInt64} {x : Nat}
    (notVar : x < var.toNat ∨ var.toNat + 8 ≤ x) (notDest : x < dest.toNat ∨ dest.toNat + 8 ≤ x) :
    takenMem m var dest x = m x := by
  rw [takenMem]
  split
  · rfl
  · rw [X86.storeAt_of_notMem _ notVar, X86.storeAt_of_notMem _ notDest]

/-- The variable is zero then. -/
theorem takenMem_var (m : ByteMemory) (var dest : UInt64) :
    X86.wordAt (takenMem m var dest) var = 0 := by
  rw [takenMem]
  split
  case isTrue zero => exact zero
  case isFalse => exact X86.wordAt_storeAt ..

/-- The value is where it goes. -/
theorem takenMem_dest {m : ByteMemory} {var dest : UInt64}
    (apart : dest.toNat + 8 ≤ var.toNat ∨ var.toNat + 8 ≤ dest.toNat) :
    X86.wordAt (takenMem m var dest) dest =
      if X86.wordAt m var = 0 then X86.wordAt m dest else X86.wordAt m var := by
  rw [takenMem]
  split
  · rfl
  · rw [X86.wordAt_storeAt_of_disjoint apart, X86.wordAt_storeAt]

/-- **A value is taken** from a variable of `SYS_EXEC`. -/
theorem exec_takeReturn (call : UInt64 → State K → Option (State K)) (var dest : UInt64)
    (put : Instr) (code : List Instr) (plain : put.plain = true)
    (puts : ∀ l : State K, l.reg .rsp = t.reg .rsp →
      put.step l = { l with mem := X86.storeAt l.mem dest (l.reg .rax) }) :
    ∃ t', X86.exec call 0 (takeReturn var put ++ code) t = X86.exec call 0 code t' ∧
      t'.reg .rsp = t.reg .rsp ∧ t'.env = t.env ∧ t'.mem = takenMem t.mem var dest := by
  generalize loaded : ((t.set .rax (X86.wordAt t.mem var)).setZero (X86.wordAt t.mem var)) = l
  have rsp : l.reg .rsp = t.reg .rsp := by
    rw [← loaded, X86.setZero_reg, State.set_reg_of_ne (by decide)]
  have rax : l.reg .rax = X86.wordAt t.mem var := by
    rw [← loaded, X86.setZero_reg, State.set_reg_self]
  have mem : l.mem = t.mem := by
    rw [← loaded, X86.setZero_mem, State.set_mem]
  have env : l.env = t.env := by
    rw [← loaded, X86.setZero_env, State.set_env]
  have upTo : X86.exec call 0 (takeReturn var put ++ code) t =
      X86.exec call (if X86.wordAt t.mem var = 0 then 2 else 0)
        (put :: .storeImm 0 var :: code) l := by
    rw [takeReturn, List.cons_append, X86.exec_plain rfl, List.cons_append, List.cons_append,
      X86.exec_test_jz, X86.step_loadVar, State.set_reg_self, loaded]
    rfl
  rw [upTo, takenMem]
  by_cases zero : X86.wordAt t.mem var = 0
  · rw [if_pos zero, if_pos zero]
    exact ⟨l, rfl, rsp, env, mem⟩
  · rw [if_neg zero, if_neg zero, X86.exec_plain plain, X86.exec_plain rfl, puts l rsp, rax, mem,
      X86.step_storeImm]
    exact ⟨_, rfl, rsp, env, rfl⟩

/-- The registers of a program after a system call that returns `rax`; `rip` and `rsp` are what
`SYS_EXEC` asks for, or zero. -/
def afterCall (s : State K) (next rax rip rsp : UInt64) : Reg → UInt64
  | .rax => rax
  | .rcx => if rip = 0 then next else rip
  | .r11 => s.rflags
  | .rsp => if rsp = 0 then s.reg .rsp else rsp
  | r => s.reg r

/-- The program after a system call. -/
def userAfter (s : State K) (next rax rip rsp : UInt64) (mem : ByteMemory) (env : K) : State K where
  reg := afterCall s next rax rip rsp
  rip := if rip = 0 then next else rip
  rflags := s.rflags &&& 0x3C7FD7 ||| 2
  cs := 0x23
  ss := 0x1B
  mem := mem
  env := env

/-- What the code behind the call leaves of memory. -/
structure LeftMem (vars : SyscallVars) (top : UInt64) (m m' : ByteMemory) : Prop where
  others : ∀ x, x + 120 < top.toNat ∨ top.toNat ≤ x →
    x < vars.bss.toNat ∨ vars.bss.toNat + 40 ≤ x → m' x = m x
  kernel : X86.wordAt m' vars.kernelRsp = X86.wordAt m vars.kernelRsp
  rip : X86.wordAt m' vars.userReturnRip = 0
  rsp : X86.wordAt m' vars.userReturnRsp = 0

/-- Memory when the code behind the call has stored the result and what `SYS_EXEC` asks for, on a
stack whose top is `p`. -/
def leaveMem (vars : SyscallVars) (m : ByteMemory) (p rax : UInt64) : ByteMemory :=
  takenMem (takenMem (X86.storeAt m (p + 96) rax) vars.userReturnRip (p + 112))
    vars.userReturnRsp vars.savedUserRsp

section Leave

variable {m : ByteMemory} {p rax : UInt64}

/-- The places of `rax` and of the instruction pointer on the stack. -/
theorem leave_places (here : p.toNat + 120 = top.toNat) :
    (p + 96).toNat = p.toNat + 96 ∧ (p + 112).toNat = p.toNat + 112 := by
  have below := UInt64.toNat_lt top
  rw [UInt64.toNat_add, UInt64.toNat_add, show (96 : UInt64).toNat = 96 from rfl,
    show (112 : UInt64).toNat = 112 from rfl]
  omega

/-- The result is not stored over a variable. -/
theorem leave_result (rax : UInt64) {var : UInt64} (apart : StackApart vars top)
    (here : p.toNat + 120 = top.toNat) (low : vars.bss.toNat ≤ var.toNat)
    (high : var.toNat + 8 ≤ vars.bss.toNat + 40) :
    X86.wordAt (X86.storeAt m (p + 96) rax) var = X86.wordAt m var := by
  obtain ⟨first, -⟩ := leave_places here
  obtain ⟨room, side⟩ := apart
  generalize p + 96 = raxAt at first ⊢
  exact X86.wordAt_storeAt_of_disjoint (by omega)

/-- The instruction pointer is not stored over a variable, and only its own is cleared. -/
theorem leave_rip (rax var : UInt64) (apart : StackApart vars top)
    (here : p.toNat + 120 = top.toNat) (low : vars.bss.toNat ≤ var.toNat)
    (high : var.toNat + 8 ≤ vars.bss.toNat + 40)
    (other : var.toNat + 8 ≤ vars.userReturnRip.toNat ∨ vars.userReturnRip.toNat + 8 ≤ var.toNat) :
    X86.wordAt (takenMem (X86.storeAt m (p + 96) rax) vars.userReturnRip (p + 112)) var =
      X86.wordAt m var := by
  rw [← leave_result (m := m) rax apart here low high]
  obtain ⟨-, last⟩ := leave_places here
  obtain ⟨room, side⟩ := apart
  generalize X86.storeAt m (p + 96) rax = m'
  generalize p + 112 = rcxAt at last ⊢
  exact X86.wordAt_congr fun x _ _ => takenMem_of_notMem (by omega) (by omega)

/-- The words that the code behind the call pops. -/
theorem leave_words (rax : UInt64) (apart : StackApart vars top) (here : p.toNat + 120 = top.toNat)
    (words : Words m p.toNat (syscallWords s next)) :
    Words (leaveMem vars m p rax) p.toNat
      (((syscallWords s next).set 12 rax).set 14
        (if X86.wordAt m vars.userReturnRip = 0 then next
          else X86.wordAt m vars.userReturnRip)) := by
  have savedAt := vars.toNat_saved
  have ripAt := vars.toNat_rip
  have rspAt := vars.toNat_rsp
  have below := UInt64.toNat_lt top
  have same : X86.wordAt (X86.storeAt m (p + 96) rax) vars.userReturnRip =
      X86.wordAt m vars.userReturnRip := leave_result rax apart here (by omega) (by omega)
  obtain ⟨room, side⟩ := apart
  have count : (syscallWords s next).length = 15 := rfl
  have fits : p.toNat + 8 * (syscallWords s next).length ≤ 2 ^ 64 := by
    rw [count]
    omega
  have one := words.store (v := rax) (i := 12) (by rw [count]; decide) fits
  have two : Words (takenMem (X86.storeAt m (p + 96) rax) vars.userReturnRip (p + 112)) p.toNat
      (((syscallWords s next).set 12 rax).set 14
        (if X86.wordAt m vars.userReturnRip = 0 then next
          else X86.wordAt m vars.userReturnRip)) := by
    rw [takenMem, same]
    by_cases zero : X86.wordAt m vars.userReturnRip = 0
    · rw [if_pos zero, if_pos zero]
      exact one
    · rw [if_neg zero, if_neg zero]
      have put := one.store (v := X86.wordAt m vars.userReturnRip) (i := 14)
        (by rw [List.length_set, count]; decide) (by rw [List.length_set]; exact fits)
      refine put.congr fun x low high => X86.storeAt_of_notMem _ ?_
      rw [List.length_set, List.length_set, count] at high
      omega
  refine two.congr fun x low high => ?_
  rw [List.length_set, List.length_set, count] at high
  exact takenMem_of_notMem (by omega) (by omega)

/-- The stack pointer with which the program goes on. -/
theorem leave_saved (rax : UInt64) (apart : StackApart vars top) (here : p.toNat + 120 = top.toNat) :
    X86.wordAt (leaveMem vars m p rax) vars.savedUserRsp =
      if X86.wordAt m vars.userReturnRsp = 0 then X86.wordAt m vars.savedUserRsp
        else X86.wordAt m vars.userReturnRsp := by
  have savedAt := vars.toNat_saved
  have ripAt := vars.toNat_rip
  have rspAt := vars.toNat_rsp
  rw [leaveMem, takenMem_dest (by omega), leave_rip rax _ apart here (by omega) (by omega) (by omega),
    leave_rip rax _ apart here (by omega) (by omega) (by omega)]

/-- What the code behind the call leaves. -/
theorem leaveMem_left (apart : StackApart vars top) (here : p.toNat + 120 = top.toNat) :
    LeftMem vars top m (leaveMem vars m p rax) := by
  have savedAt := vars.toNat_saved
  have kernelAt := vars.toNat_kernel
  have ripAt := vars.toNat_rip
  have rspAt := vars.toNat_rsp
  have kept : ∀ var : UInt64, vars.savedUserRsp.toNat + 8 ≤ var.toNat →
      var.toNat + 8 ≤ vars.userReturnRsp.toNat →
        X86.wordAt (leaveMem vars m p rax) var =
          X86.wordAt (takenMem (X86.storeAt m (p + 96) rax) vars.userReturnRip (p + 112)) var :=
    fun var low high => X86.wordAt_congr fun x _ _ => takenMem_of_notMem (by omega) (by omega)
  have kernel := leave_rip (m := m) rax vars.kernelRsp apart here (by omega)
    (by omega) (by omega)
  obtain ⟨room, side⟩ := apart
  refine ⟨fun x outside notVar => ?_, ?_, ?_, takenMem_var ..⟩
  · obtain ⟨first, last⟩ := leave_places here
    rw [leaveMem]
    generalize p + 96 = raxAt at first ⊢
    generalize p + 112 = rcxAt at last ⊢
    rw [takenMem_of_notMem (by omega) (by omega), takenMem_of_notMem (by omega) (by omega)]
    exact X86.storeAt_of_notMem m (by omega)
  · rw [kept _ (by omega) (by omega), kernel]
  · rw [kept _ (by omega) (by omega)]
    exact takenMem_var ..

end Leave

/-- The code behind the call, up to `sysretq`. -/
theorem exec_syscallLeave (call : UInt64 → State K → Option (State K))
    (apart : StackApart vars top) (here : (t.reg .rsp).toNat + 120 = top.toNat)
    (words : Words t.mem (t.reg .rsp).toNat (syscallWords s next))
    (saved : X86.wordAt t.mem vars.savedUserRsp = s.reg .rsp) :
    ∃ f, X86.exec call 0 (syscallLeave vars) t = some f ∧
      f.reg = afterCall s next (t.reg .rax) (X86.wordAt t.mem vars.userReturnRip)
        (X86.wordAt t.mem vars.userReturnRsp) ∧
      f.mem = leaveMem vars t.mem (t.reg .rsp) (t.reg .rax) ∧ f.env = t.env := by
  have below := UInt64.toNat_lt top
  have left := leave_words (t.reg .rax) apart here words
  have newRsp := leave_saved (m := t.mem) (t.reg .rax) apart here
  rw [saved] at newRsp
  obtain ⟨t₂, exec₂, rsp₂, env₂, mem₂⟩ := exec_takeReturn
    (t := { t with mem := X86.storeAt t.mem (t.reg .rsp + 96) (t.reg .rax) }) call
    vars.userReturnRip (t.reg .rsp + 112) (.store .rax 112 .rsp)
    (takeReturn vars.userReturnRsp (.storeVar .rax vars.savedUserRsp) ++
      (syscallRestored.map .pop ++ [.loadVar vars.savedUserRsp .rsp])) rfl (by
        intro l rsp
        rw [X86.step_store, rsp])
  obtain ⟨t₃, exec₃, rsp₃, env₃, mem₃⟩ := exec_takeReturn (t := t₂) call
    vars.userReturnRsp vars.savedUserRsp (.storeVar .rax vars.savedUserRsp)
    (syscallRestored.map .pop ++ [.loadVar vars.savedUserRsp .rsp]) rfl
      fun l _ => X86.step_storeVar ..
  rw [mem₂] at mem₃
  change t₃.mem = leaveMem vars t.mem (t.reg .rsp) (t.reg .rax) at mem₃
  have popRsp : t₃.reg .rsp = t.reg .rsp := rsp₃.trans rsp₂
  rw [← mem₃, ← popRsp] at left
  have count : (syscallWords s next).length = 15 := rfl
  have popped := X86.pops_spec syscallRestored (by decide) (by decide) left
    (by rw [List.length_set, List.length_set, count]; rfl)
    (by rw [popRsp, List.length_set, List.length_set, count]; omega)
  generalize reached : t₃.pops syscallRestored = w at popped
  have wMem : w.mem = leaveMem vars t.mem (t.reg .rsp) (t.reg .rax) := by rw [popped.rest, mem₃]
  have wEnv : w.env = t.env := by rw [popped.rest, env₃, env₂]
  have code : X86.exec call 0 (syscallLeave vars) t =
      some (w.set .rsp (X86.wordAt w.mem vars.savedUserRsp)) := by
    rw [syscallLeave, X86.exec_plain rfl, X86.step_store, exec₂, exec₃, X86.exec_pop,
      reached, X86.exec_plain rfl, X86.step_loadVar]
    rfl
  refine ⟨_, code, ?_, by rw [State.set_mem, wMem], by rw [State.set_env, wEnv]⟩
  funext r
  by_cases stack : r = .rsp
  · subst stack
    rw [State.set_reg_self, wMem, newRsp]
    rfl
  · have mem : r ∈ syscallRestored := by
      cases r
      case rsp => exact absurd rfl stack
      all_goals decide
    rw [State.set_reg_of_ne stack]
    exact List.map_inj_left.mp popped.values r mem

/-- **Behind the call**: the program goes on with its registers, the result in `rax`. -/
theorem syscallLeave_spec (syscallEntryAt : UInt64)
    (call : UInt64 → State K → Option (State K)) (apart : StackApart vars top)
    (here : (t.reg .rsp).toNat + 120 = top.toNat)
    (words : Words t.mem (t.reg .rsp).toNat (syscallWords s next))
    (saved : X86.wordAt t.mem vars.savedUserRsp = s.reg .rsp) :
    (X86.exec call 0 (syscallLeave vars) t).map (·.sysretq (syscallMsrs syscallEntryAt)) =
      some (userAfter s next (t.reg .rax) (X86.wordAt t.mem vars.userReturnRip)
        (X86.wordAt t.mem vars.userReturnRsp)
        (leaveMem vars t.mem (t.reg .rsp) (t.reg .rax)) t.env) := by
  obtain ⟨f, ran, reg, mem, env⟩ := exec_syscallLeave call apart here words saved
  have cs : ((syscallMsrs syscallEntryAt).star >>> 48).toUInt16 + 16 ||| 3 = 0x23 := by
    change ((((0x08 : UInt64) <<< 32 ||| (0x10 : UInt64) <<< 48) >>> 48).toUInt16 + 16 ||| 3) = 0x23
    decide
  have ss : ((syscallMsrs syscallEntryAt).star >>> 48).toUInt16 + 8 ||| 3 = 0x1B := by
    change ((((0x08 : UInt64) <<< 32 ||| (0x10 : UInt64) <<< 48) >>> 48).toUInt16 + 8 ||| 3) = 0x1B
    decide
  rw [ran, Option.map_some, State.sysretq, userAfter, reg, mem, env, cs, ss]
  rfl

end Flyos
