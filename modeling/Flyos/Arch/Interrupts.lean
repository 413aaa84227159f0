import Flyos.Arch.Idt
import Mathlib.Logic.Relation

/-!
# Interrupts go unnoticed

What `isr_common` and `irq_common` do around the function they call.  The function finds a
`struct regs` that says what was interrupted (`Entered.regsAt`), and when it has returned as the
calling convention asks (`Returned`), the code behind the call goes back to the interrupted program
as it was (`trapCommon_leave`).

The processor pushes an error code for some exceptions, and `isr.S` makes up for the others by
pushing a zero; it leaves out two of those with a code (`isrErrVectors_iff`).

A program outside the kernel may be interrupted
between any two of its steps, and again and again; what it sees of the machine is what it would see
if it ran alone, and each interrupt has been served once, in order (`interrupts_unnoticed`).
-/

namespace Flyos

open X86 (Reg State Instr Gate Words Pushed)

variable {K : Type*} {s t u v : State K} {base : UInt64} {num err : UInt64}

/-! ## Into the function -/

/-- What lies on the stack when the function is called, from the top. -/
def trapWords (s : State K) (num err : UInt64) : List UInt64 :=
  restoreRegs.map s.reg ++ ([num, err] ++ s.returnWords)

/-- The state in which `isr_common` and `irq_common` call their function, for an interrupt of `s`
that has taken the stack from `base` on. -/
structure Entered (s : State K) (base num err : UInt64) (v : State K) : Prop where
  rsp : (v.reg .rsp).toNat + 176 = base.toNat
  rdi : v.reg .rdi = v.reg .rsp
  words : Words v.mem (v.reg .rsp).toNat (trapWords s num err)
  others : ∀ x, x < (v.reg .rsp).toNat ∨ base.toNat ≤ x → v.mem x = s.mem x
  regs : ∀ r, r ≠ .rsp → r ≠ .rdi → v.reg r = s.reg r

/-- The registers come off the stack in the order opposite to that in which they went on. -/
theorem saveRegs_reverse : saveRegs.reverse = restoreRegs := rfl

/-- **Up to the call.** -/
theorem trapCommon_enter (function : UInt64)
    (pushed : Pushed (s.set .rsp base) (s.returnWords.reverse ++ [err, num]) u)
    (room : 176 ≤ base.toNat) :
    ∃ v, Entered s base num err v ∧ v.env = u.env ∧
      X86.toCall 0 (trapCommon function) u =
        some (function, v, restoreRegs.map .pop ++ [.add 16 .rsp]) := by
  have depth : (u.reg .rsp).toNat + 56 = base.toNat := by
    have down := pushed.rsp
    rwa [State.set_reg_self] at down
  have same : saveRegs.map u.reg = saveRegs.map s.reg := by
    refine List.map_congr_left fun r mem => ?_
    have differ : r ≠ .rsp := by
      rintro rfl
      revert mem
      decide
    rw [pushed.regs r differ, State.set_reg_of_ne differ]
  have saved := X86.pushes_spec (s := u) (saveRegs.map s.reg) (by
    change 120 ≤ _
    omega)
  have all := pushed.trans rfl rfl saved
  generalize reached : u.pushes (saveRegs.map s.reg) = w at all
  have env : w.env = u.env := by
    rw [← reached, X86.pushes_env]
  have top : (w.reg .rsp).toNat + 176 = base.toNat := by
    have down := all.rsp
    rwa [State.set_reg_self] at down
  refine ⟨w.set .rdi (w.reg .rsp), ⟨?_, ?_, ?_, ?_, ?_⟩, env, ?_⟩
  · rwa [State.set_reg_of_ne (by decide)]
  · rw [State.set_reg_self, State.set_reg_of_ne (by decide)]
  · rw [State.set_reg_of_ne (by decide)]
    have words := all.words
    rw [List.reverse_append, List.reverse_append, List.reverse_reverse, ← List.map_reverse,
      saveRegs_reverse] at words
    exact words
  · rw [State.set_reg_of_ne (by decide)]
    have others := all.others
    rw [State.set_reg_self] at others
    exact others
  · intro r notRsp notRdi
    rw [State.set_reg_of_ne notRdi, all.regs r notRsp, State.set_reg_of_ne notRsp]
  · rw [trapCommon, X86.toCall_push (by decide), same, reached]
    rfl

/-- **Up to the call**, with what the stub pushes after the processor. -/
theorem stub_enter (gate : Gate) (rsp0 num err function : UInt64) (code : Option UInt64)
    (ws : List UInt64) (both : code.toList ++ ws = [err, num])
    (room : 176 ≤ (s.frameBase rsp0).toNat) :
    ∃ v, Entered s (s.frameBase rsp0) num err v ∧ v.env = s.env ∧
      X86.toCall 0 (ws.map .pushImm ++ trapCommon function) (s.deliver gate rsp0 code) =
        some (function, v, restoreRegs.map .pop ++ [.add 16 .rsp]) := by
  have two : code.toList.length + ws.length = 2 := by
    rw [← List.length_append, both]
    rfl
  obtain ⟨pushed, env⟩ := X86.deliver_spec (s := s) gate rsp0 code (by omega)
  have depth : ((s.deliver gate rsp0 code).reg .rsp).toNat + 8 * (5 + code.toList.length) =
      (s.frameBase rsp0).toNat := by
    have down := pushed.rsp
    rwa [State.set_reg_self, List.length_append, List.length_reverse,
      show s.returnWords.length = 5 from rfl] at down
  have more := pushed.more ws (by omega)
  rw [List.append_assoc, both] at more
  obtain ⟨v, entered, same, up⟩ := trapCommon_enter function more room
  refine ⟨v, entered, ?_, ?_⟩
  · rw [same, X86.pushes_env, env]
  · rw [← up, X86.toCall_pushImm]

/-- A word of those on the stack. -/
theorem wordAt_of_words {m : ByteMemory} {p w : UInt64} {ws : List UInt64}
    (words : Words m p.toNat ws) (i : Nat) (off : UInt64) (index : off = UInt64.ofNat (8 * i))
    (here : ws[i]? = some w) (fits : p.toNat + 8 * ws.length ≤ 2 ^ 64) :
    X86.wordAt m (p + off) = w := by
  subst index
  obtain ⟨inside, rfl⟩ := List.getElem?_eq_some_iff.mp here
  have apart : ws = ws.take i ++ ws[i] :: ws.drop (i + 1) := by
    rw [← List.drop_eq_getElem_cons inside, List.take_append_drop]
  rw [apart, X86.words_append, List.length_take_of_le (le_of_lt inside)] at words
  have address : (p + UInt64.ofNat (8 * i)).toNat = p.toNat + 8 * i := by
    rw [UInt64.toNat_add, UInt64.toNat_ofNat', Nat.mod_eq_of_lt (by omega),
      Nat.mod_eq_of_lt (by omega)]
  have here : Words m (p + UInt64.ofNat (8 * i)).toNat (ws[i] :: ws.drop (i + 1)) := by
    rw [address]
    exact words.2
  exact here.wordAt

/-- **The function finds the registers** of the program that was interrupted. -/
theorem Entered.regsAt (entered : Entered s base num err v) :
    Flyos.regsAt v.mem (v.reg .rdi) = Regs.of s num err := by
  have below := UInt64.toNat_lt base
  have top := entered.rsp
  have fits : (v.reg .rsp).toNat + 8 * (trapWords s num err).length ≤ 2 ^ 64 := by
    have length : (trapWords s num err).length = 22 := rfl
    rw [length]
    omega
  have get := fun i off w index here =>
    wordAt_of_words (w := w) entered.words i off index here fits
  have first : X86.wordAt v.mem (v.reg .rsp) = s.reg .r15 := by
    have zero := get 0 0 _ rfl rfl
    rwa [UInt64.add_zero] at zero
  rw [entered.rdi, Flyos.regsAt, Regs.of, Regs.mk.injEq]
  exact ⟨first, get 1 _ _ rfl rfl, get 2 _ _ rfl rfl, get 3 _ _ rfl rfl, get 4 _ _ rfl rfl,
    get 5 _ _ rfl rfl, get 6 _ _ rfl rfl, get 7 _ _ rfl rfl, get 8 _ _ rfl rfl, get 9 _ _ rfl rfl,
    get 10 _ _ rfl rfl, get 11 _ _ rfl rfl, get 12 _ _ rfl rfl, get 13 _ _ rfl rfl,
    get 14 _ _ rfl rfl, get 15 _ _ rfl rfl, get 16 _ _ rfl rfl, get 17 _ _ rfl rfl,
    get 18 _ _ rfl rfl, get 19 _ _ rfl rfl, get 20 _ _ rfl rfl, get 21 _ _ rfl rfl⟩

/-! ## Back to the program -/

/-- The registers that a function of C gives back. -/
def calleeSaved : List Reg := [.rbx, .rbp, .rsp, .r12, .r13, .r14, .r15]

/-- A function called in `v` has returned as the calling convention asks, and the stack of its
caller, up to `base`, is as it was. -/
structure Returned (base : UInt64) (v t : State K) : Prop where
  regs : ∀ r ∈ calleeSaved, t.reg r = v.reg r
  stack : ∀ x, (v.reg .rsp).toNat ≤ x → x < base.toNat → t.mem x = v.mem x

/-- **Behind the call**: the interrupted program goes on, with the memory and the devices as the
function has left them. -/
theorem trapCommon_leave (call : UInt64 → State K → Option (State K))
    (entered : Entered s base num err v) (returned : Returned base v t) :
    (X86.exec call 0 (restoreRegs.map .pop ++ [.add 16 .rsp]) t).map State.iretq =
      some { s with mem := t.mem, env := t.env } := by
  have below := UInt64.toNat_lt base
  have top := entered.rsp
  have rsp : t.reg .rsp = v.reg .rsp := returned.regs .rsp (by decide)
  have words : Words t.mem (t.reg .rsp).toNat (trapWords s num err) := by
    rw [rsp]
    have length : (trapWords s num err).length = 22 := rfl
    refine entered.words.congr fun x low high => returned.stack x low ?_
    rw [length] at high
    omega
  obtain ⟨values, rest⟩ := X86.words_append.mp words
  have length : (restoreRegs.map s.reg).length = 15 := rfl
  have popped := X86.pops_spec (s := t) restoreRegs (by decide) (by decide) values rfl (by
    rw [length, rsp]
    omega)
  rw [X86.exec_pop]
  generalize t.pops restoreRegs = w at popped
  have up : (w.reg .rsp + 16).toNat = (t.reg .rsp).toNat + 136 := by
    rw [UInt64.toNat_add, popped.rsp, show (16 : UInt64).toNat = 16 from rfl, length, rsp]
    omega
  have regs : ∀ r, r ≠ .rsp → w.reg r = s.reg r := by
    intro r differ
    have mem : r ∈ restoreRegs := by
      cases r
      case rsp => exact absurd rfl differ
      all_goals decide
    exact List.map_inj_left.mp popped.values r mem
  have mem : w.mem = t.mem := by rw [popped.rest]
  have env : w.env = t.env := by rw [popped.rest]
  have step : X86.exec call 0 [.add 16 .rsp] w = some (Instr.step w (.add 16 .rsp)) := rfl
  rw [step, Option.map_some]
  generalize target : (Instr.step w (.add 16 .rsp) : State K) = x
  have xMem : x.mem = t.mem := by rw [← target, X86.step_add_mem, mem]
  have xEnv : x.env = t.env := by rw [← target, X86.step_add_env, env]
  have xReg : x.reg = (w.set .rsp (w.reg .rsp + 16)).reg := by
    rw [← target, X86.step_add_reg]
  have xRsp : (x.reg .rsp).toNat = (t.reg .rsp).toNat + 136 := by
    rw [xReg, State.set_reg_self, up]
  rw [X86.iretq_spec (s := s) (t := x), xMem, xEnv]
  · rw [xMem, xRsp]
    have behind := (X86.words_append.mp rest).2
    rwa [length, show [num, err].length = 2 from rfl, Nat.add_assoc] at behind
  · rw [xRsp, rsp]
    omega
  · intro r differ
    rw [xReg, State.set_reg_of_ne differ]
    exact regs r differ

/-! ## Exceptions -/

/-- The vectors for which the processor pushes an error code. -/
def errorCodeVectors : List Nat := [8, 10, 11, 12, 13, 14, 17, 21, 29, 30]

/-- The `struct regs` with which the code for an exception calls its function. -/
def exceptionRegs (exceptionHandler : UInt64) (n : Nat) (gate : Gate) (rsp0 err : UInt64)
    (s : State K) : Option Regs :=
  (X86.toCall 0 (isrStub exceptionHandler n)
    (s.deliver gate rsp0 (if n ∈ errorCodeVectors then some err else none))).map
      fun (_, v, _) => regsAt v.mem (v.reg .rdi)

/-- The vectors that `isr.S` has wrong. -/
theorem isrErrVectors_iff (n : Nat) (notControl : n ≠ 21) (notVmm : n ≠ 29) :
    n ∈ isrErrVectors ↔ n ∈ errorCodeVectors := by
  simp only [isrErrVectors, errorCodeVectors, List.mem_cons, List.not_mem_nil, or_false]
  omega

/-- **What `exception_handler` is told**, for every vector that `isr.S` has right. -/
theorem exceptionRegs_right (exceptionHandler : UInt64) {n : Nat} (gate : Gate) (rsp0 err : UInt64)
    (notControl : n ≠ 21) (notVmm : n ≠ 29) (room : 176 ≤ (s.frameBase rsp0).toNat) :
    exceptionRegs exceptionHandler n gate rsp0 err s =
      some (.of s (UInt64.ofNat n) (if n ∈ errorCodeVectors then err else 0)) := by
  rw [exceptionRegs, isrStub]
  by_cases pushes : n ∈ errorCodeVectors
  · rw [if_pos pushes, if_pos pushes, if_pos ((isrErrVectors_iff n notControl notVmm).mpr pushes)]
    obtain ⟨v, entered, -, up⟩ := stub_enter (s := s) gate rsp0 (UInt64.ofNat n) err
      exceptionHandler (some err) [UInt64.ofNat n] rfl room
    rw [stubErr]
    change (X86.toCall 0 (([UInt64.ofNat n].map .pushImm) ++ _) _).map _ = _
    rw [up, Option.map_some]
    exact congrArg some entered.regsAt
  · rw [if_neg pushes, if_neg pushes, if_neg (mt (isrErrVectors_iff n notControl notVmm).mp pushes)]
    obtain ⟨v, entered, -, up⟩ := stub_enter (s := s) gate rsp0 (UInt64.ofNat n) 0
      exceptionHandler none [0, UInt64.ofNat n] rfl room
    rw [stubNoErr]
    change (X86.toCall 0 (([0, UInt64.ofNat n].map .pushImm) ++ _) _).map _ = _
    rw [up, Option.map_some]
    exact congrArg some entered.regsAt

/-- A page fault of a program. -/
theorem exceptionRegs_right_fault :
    exceptionRegs 0x200 14 ⟨0x100, 0x08⟩ 4096 6
        (⟨fun _ => 0, 0x1000, 0x202, 0x23, 0x1B, fun _ => 0, ()⟩ : State Unit) =
      some (.of ⟨fun _ => 0, 0x1000, 0x202, 0x23, 0x1B, fun _ => 0, ()⟩ (UInt64.ofNat 14)
        (if 14 ∈ errorCodeVectors then 6 else 0)) :=
  exceptionRegs_right 0x200 ⟨0x100, 0x08⟩ 4096 6 (by decide) (by decide) (by
    rw [State.frameBase]
    decide)

/-! ## One interrupt of a device -/

/-- The parts of the linked kernel that an interrupt meets. -/
structure InterruptImage (K : Type*) where
  isrTable : Nat → UInt64
  irqTable : Nat → UInt64
  codeAt : UInt64 → Option (List Instr)
  irqHandlerAt : UInt64
  call : UInt64 → CFunction K
  handlers : Nat → Option (CFunction K)
  clobber : State (Devices K) → State (Devices K)
  irqs : ∀ n < 16, codeAt (irqTable n) = some (irqStub irqHandlerAt n)
  calls : call irqHandlerAt = irqHandler handlers clobber

/-- The machine takes the interrupt of line `n`. -/
def InterruptImage.take (image : InterruptImage K) (rsp0 : UInt64) (n : Nat)
    (s : State (Devices K)) : Option (State (Devices K)) :=
  takeIrq (idtInit image.isrTable image.irqTable) image.codeAt rsp0 image.call n s

/-- What runs for line `n` when its interrupt has been acknowledged. -/
def InterruptImage.handler (image : InterruptImage K) (n : Nat) : CFunction K :=
  (image.handlers n).getD fun s => some (image.clobber s)

/-- What `pic_send_eoi` writes, the last byte first. -/
def eoiPorts (n : Nat) : List (UInt16 × UInt8) :=
  if 8 ≤ n then [(0x20, 0x20), (0xA0, 0x20)] else [(0x20, 0x20)]

/-- The devices after `pic_send_eoi`. -/
def Devices.eoi (n : Nat) (env : Devices K) : Devices K :=
  { env with ports := eoiPorts n ++ env.ports }

/-- `pic_send_eoi` reaches the second controller for the lines that hang on it, and touches nothing
but ports. -/
theorem picSendEoi_eq (n : Nat) (s : State (Devices K)) :
    picSendEoi n s = { s with env := s.env.eoi n } := by
  rw [picSendEoi, Devices.eoi, eoiPorts]
  by_cases second : 8 ≤ n
  · rw [if_pos second, if_pos (by omega)]
    rfl
  · rw [if_neg second, if_neg (by omega)]
    rfl

/-- The line is found again in `int_no`. -/
theorem irq_of_vector {n : Nat} (line : n < 16) :
    int32 (UInt64.ofNat (32 + n) - 32).toNat = n := by
  have le : (32 : UInt64) ≤ UInt64.ofNat (32 + n) := by
    rw [UInt64.le_iff_toNat_le, UInt64.toNat_ofNat', Nat.mod_eq_of_lt (by omega)]
    exact Nat.le_add_right 32 n
  have toNat : (UInt64.ofNat (32 + n) - 32).toNat = n := by
    rw [UInt64.toNat_sub_of_le _ _ le, UInt64.toNat_ofNat', Nat.mod_eq_of_lt (by omega),
      show (32 : UInt64).toNat = 32 from rfl]
    omega
  rw [toNat]
  exact int32_of_range (by omega) (by omega)

/-- **`irq_handler`** acknowledges the interrupt and then serves it, with the registers of the
interrupted program. -/
theorem irqHandler_eq (image : InterruptImage K) {n : Nat} (line : n < 16)
    {s v : State (Devices K)} (entered : Entered s base (UInt64.ofNat (32 + n)) 0 v) :
    irqHandler image.handlers image.clobber v =
      image.handler n { v with env := v.env.eoi n } := by
  have irq : int32 ((regsAt v.mem (v.reg .rdi)).intNo - 32).toNat = n := by
    rw [entered.regsAt]
    exact irq_of_vector line
  rw [irqHandler, irq, if_neg (by omega), Int.toNat_natCast, picSendEoi_eq,
    InterruptImage.handler]
  cases image.handlers n <;> rfl

/-- A function serves interrupts on the stack below `base`: called with the registers of a program,
it does with them and with the devices what `effect` says, and returns without having written to
the program's memory. -/
def Serves (base : UInt64) (user : Set Nat) (f : CFunction K)
    (effect : Regs → Devices K → Devices K) : Prop :=
  ∀ v : State (Devices K), (v.reg .rsp).toNat + 176 = base.toNat → v.reg .rdi = v.reg .rsp →
    ∃ t, f v = some t ∧ Returned base v t ∧ t.env = effect (regsAt v.mem (v.reg .rdi)) v.env ∧
      ∀ x ∈ user, t.mem x = v.mem x

/-- **An interrupt of a device**: it is acknowledged and served once, and the interrupted program
goes on with all its registers and flags, and with its memory. -/
theorem take_spec (image : InterruptImage K) {n : Nat} (line : n < 16) (rsp0 : UInt64)
    {user : Set Nat} {effect : Regs → Devices K → Devices K} {s : State (Devices K)}
    (room : 176 ≤ (s.frameBase rsp0).toNat)
    (apart : ∀ x ∈ user, x < (s.frameBase rsp0).toNat - 176 ∨ (s.frameBase rsp0).toNat ≤ x)
    (serves : Serves (s.frameBase rsp0) user (image.handler n) effect) :
    ∃ mem, image.take rsp0 n s = some { s with
        mem := mem
        env := effect (Regs.of s (UInt64.ofNat (32 + n)) 0) (s.env.eoi n) } ∧
      ∀ x ∈ user, mem x = s.mem x := by
  obtain ⟨v, entered, env, up⟩ := stub_enter (s := s) ⟨image.irqTable n, 0x08⟩ rsp0
    (UInt64.ofNat (32 + n)) 0 image.irqHandlerAt none [0, UInt64.ofNat (32 + n)] rfl room
  obtain ⟨t, served, returned, effects, kept⟩ := serves { v with env := v.env.eoi n }
    entered.rsp entered.rdi
  refine ⟨t.mem, ?_, fun x mem => ?_⟩
  · have gate : (idtInit image.isrTable image.irqTable (32 + n)).gate? =
        some ⟨image.irqTable n, 0x08⟩ := by
      rw [idtInit_gate, if_neg (by omega), if_pos (by omega), Nat.add_sub_cancel_left]
    have code : irqStub image.irqHandlerAt n =
        [0, UInt64.ofNat (32 + n)].map .pushImm ++ trapCommon image.irqHandlerAt := rfl
    rw [InterruptImage.take, takeIrq, gate, Option.bind_some, image.irqs n line, Option.bind_some,
      code, X86.exec_of_toCall up, image.calls, irqHandler_eq image line entered, served,
      Option.bind_some, trapCommon_leave image.call entered ⟨returned.regs, returned.stack⟩,
      effects]
    change some { s with mem := t.mem, env := effect (regsAt v.mem (v.reg .rdi)) (v.env.eoi n) } = _
    rw [entered.regsAt, env]
  · have outside := apart x mem
    have top := entered.rsp
    rw [kept x mem]
    exact entered.others x (by omega)

/-! ## A program that is interrupted -/

/-- What a program sees of the machine: the registers, and the memory that it may use. -/
structure SameView (user : Set Nat) (s t : State K) : Prop where
  reg : t.reg = s.reg
  rip : t.rip = s.rip
  rflags : t.rflags = s.rflags
  cs : t.cs = s.cs
  ss : t.ss = s.ss
  mem : ∀ x ∈ user, t.mem x = s.mem x

theorem SameView.symm {user : Set Nat} (same : SameView user s t) : SameView user t s :=
  ⟨same.reg.symm, same.rip.symm, same.rflags.symm, same.cs.symm, same.ss.symm,
    fun x mem => (same.mem x mem).symm⟩

/-- A program outside the kernel.  What it does depends on what it sees, and leaves it outside the
kernel and the devices alone. -/
structure UserProgram (K : Type*) (user : Set Nat) where
  step : State K → State K → Prop
  seen : ∀ {s s' t}, step s s' → SameView user s t → ∃ t', step t t' ∧ SameView user s' t'
  outside : ∀ {s s'}, step s s' → ∀ x ∉ user, s'.mem x = s.mem x
  level : ∀ {s s'}, step s s' → s.level = 3 → s'.level = 3
  env : ∀ {s s'}, step s s' → s'.env = s.env

/-- The flag that lets interrupts through. -/
def interruptFlag : UInt64 := 0x200

/-- A run of the machine: the program makes a step, or a device interrupts.  The list says which
lines have interrupted, and with which registers of the program. -/
inductive Interrupted {user : Set Nat} (image : InterruptImage K) (rsp0 : UInt64)
    (program : UserProgram (Devices K) user) (s : State (Devices K)) :
    List (Nat × Regs) → State (Devices K) → Prop
  | refl : Interrupted image rsp0 program s [] s
  | step {log : List (Nat × Regs)} {t t' : State (Devices K)}
      (ran : Interrupted image rsp0 program s log t) (next : program.step t t') :
      Interrupted image rsp0 program s log t'
  | irq {log : List (Nat × Regs)} {t t' : State (Devices K)} {n : Nat}
      (ran : Interrupted image rsp0 program s log t) (line : n < 16)
      (enabled : t.rflags &&& interruptFlag ≠ 0) (taken : image.take rsp0 n t = some t') :
      Interrupted image rsp0 program s (log ++ [(n, .of t (UInt64.ofNat (32 + n)) 0)]) t'

/-- The devices after interrupts that are served one after the other. -/
def servedAll (effect : Nat → Regs → Devices K → Devices K) (log : List (Nat × Regs))
    (env : Devices K) : Devices K :=
  log.foldl (fun env (n, regs) => effect n regs (env.eoi n)) env

/-- One more interrupt. -/
theorem servedAll_concat (effect : Nat → Regs → Devices K → Devices K) (log : List (Nat × Regs))
    (n : Nat) (regs : Regs) (env : Devices K) :
    servedAll effect (log ++ [(n, regs)]) env =
      effect n regs ((servedAll effect log env).eoi n) := by
  rw [servedAll, List.foldl_append]
  rfl

/-- Where the stack of an interrupt starts for a program outside the kernel. -/
theorem frameBase_user {s : State K} (outside : s.level = 3) (rsp0 : UInt64) :
    s.frameBase rsp0 = rsp0 &&& ~~~15 := by
  rw [State.frameBase, if_pos outside]

/-- **Interrupts go unnoticed.**  However often and wherever a program is interrupted, there is a
run of the program alone after which it sees the same; the devices have been served once for each
interrupt, in order; and the next interrupt will be served too. -/
theorem interrupts_unnoticed {user : Set Nat} (image : InterruptImage K) (rsp0 : UInt64)
    (program : UserProgram (Devices K) user) (effect : Nat → Regs → Devices K → Devices K)
    (room : 176 ≤ (rsp0 &&& ~~~15).toNat)
    (apart : ∀ x ∈ user, x < (rsp0 &&& ~~~15).toNat - 176 ∨ (rsp0 &&& ~~~15).toNat ≤ x)
    (serves : ∀ n < 16, Serves (rsp0 &&& ~~~15) user (image.handler n) (effect n))
    {s t : State (Devices K)} (outside : s.level = 3) {log : List (Nat × Regs)}
    (ran : Interrupted image rsp0 program s log t) :
    (∃ t', Relation.ReflTransGen program.step s t' ∧ SameView user t' t) ∧
      t.env = servedAll effect log s.env ∧
      ∀ n < 16, ∃ next, image.take rsp0 n t = some next := by
  suffices all : (∃ t', Relation.ReflTransGen program.step s t' ∧ SameView user t' t) ∧
      t.level = 3 ∧ t.env = servedAll effect log s.env by
    obtain ⟨alone, level, env⟩ := all
    refine ⟨alone, env, fun n line => ?_⟩
    rw [← frameBase_user level] at room apart serves
    obtain ⟨mem, taken, -⟩ := take_spec image line rsp0 room apart (serves n line)
    exact ⟨_, taken⟩
  induction ran with
  | refl => exact ⟨⟨s, .refl, rfl, rfl, rfl, rfl, rfl, fun _ _ => rfl⟩, outside, rfl⟩
  | step _ next ih =>
      obtain ⟨⟨t', alone, same⟩, level, env⟩ := ih
      obtain ⟨u, stepped, sameThen⟩ := program.seen next same.symm
      refine ⟨⟨u, alone.tail stepped, sameThen.symm⟩, program.level next level, ?_⟩
      rw [program.env next, env]
  | @irq log t next n _ line _ taken ih =>
      obtain ⟨⟨t', alone, same⟩, level, env⟩ := ih
      have base := frameBase_user level rsp0
      rw [← base] at room apart serves
      obtain ⟨mem, there, kept⟩ := take_spec image line rsp0 room apart (serves n line)
      rw [there, Option.some.injEq] at taken
      subst taken
      refine ⟨⟨t', alone, ?_⟩, level, ?_⟩
      · exact ⟨same.reg, same.rip, same.rflags, same.cs, same.ss,
          fun x inside => (kept x inside).trans (same.mem x inside)⟩
      · rw [servedAll_concat, ← env]

/-- A handler for line 0 that counts, and clobbers a register. -/
def tickHandlers : Nat → Option (CFunction Nat) :=
  irqRegister (fun _ => none) 0 fun s =>
    some { s.set .rax 7 with env := { s.env with rest := s.env.rest + 1 } }

/-- A kernel that counts the interrupts of line 0. -/
def tickImage : InterruptImage Nat where
  isrTable := fun _ => 0
  irqTable := UInt64.ofNat
  codeAt := fun a => some (irqStub 0x100 a.toNat)
  irqHandlerAt := 0x100
  call := fun _ => irqHandler tickHandlers fun s => s.set .rax 5
  handlers := tickHandlers
  clobber := fun s => s.set .rax 5
  irqs := by
    intro n line
    rw [UInt64.toNat_ofNat', Nat.mod_eq_of_lt (by omega)]
  calls := rfl

/-- A program that counts in a register. -/
def countProgram : UserProgram (Devices Nat) {x | x < 256} where
  step := fun s t => t = s.set .rbx (s.reg .rbx + 1)
  seen := by
    rintro s s' t rfl same
    refine ⟨_, rfl, ?_, same.rip, same.rflags, same.cs, same.ss, same.mem⟩
    change Function.update t.reg _ _ = Function.update s.reg _ _
    rw [same.reg]
  outside := by
    rintro s s' rfl x _
    rfl
  level := by
    rintro s s' rfl level
    exact level
  env := by
    rintro s s' rfl
    rfl

/-- Where it starts. -/
def countStart : State (Devices Nat) :=
  ⟨fun _ => 0, 0x1000, 0x202, 0x23, 0x1B, fun _ => 0, ⟨[], 0⟩⟩

/-- What the interrupts of that kernel do. -/
def tickEffect (n : Nat) (_ : Regs) (env : Devices Nat) : Devices Nat :=
  if n = 0 then { env with rest := env.rest + 1 } else env

/-- The functions of that kernel serve interrupts. -/
theorem tickImage_serves (base : UInt64) (n : Nat) (user : Set Nat) :
    Serves base user (tickImage.handler n) (tickEffect n) := by
  intro v _ _
  have kept : ∀ (value : UInt64), ∀ r ∈ calleeSaved, (v.set .rax value).reg r = v.reg r := by
    intro value r mem
    refine State.set_reg_of_ne ?_
    rintro rfl
    revert mem
    decide
  rw [InterruptImage.handler, tickEffect]
  by_cases first : n = 0
  · subst first
    exact ⟨_, rfl, ⟨kept 7, fun _ _ _ => rfl⟩, rfl, fun _ _ => rfl⟩
  · refine ⟨v.set .rax 5, ?_, ⟨kept 5, fun _ _ _ => rfl⟩, ?_, fun _ _ => rfl⟩
    · have none : tickHandlers n = none := by
        rw [tickHandlers, irqRegister, if_pos (by decide)]
        exact Function.update_of_ne first ..
      change ((tickHandlers n).getD _ : CFunction Nat) v = _
      rw [none]
      rfl
    · rw [if_neg first]
      rfl

/-- The program counts once and is interrupted then. -/
theorem interrupts_unnoticed_count :
    ∃ log t, log.length = 1 ∧ Interrupted tickImage 4096 countProgram countStart log t ∧
      (∃ t', Relation.ReflTransGen countProgram.step countStart t' ∧
        SameView {x | x < 256} t' t) ∧
      t.env = ⟨[(0x20, 0x20)], 1⟩ := by
  have base : ((4096 : UInt64) &&& ~~~15).toNat = 4096 := by decide
  have room : 176 ≤ ((4096 : UInt64) &&& ~~~15).toNat := by
    rw [base]
    decide
  have apart : ∀ x ∈ {x | x < 256}, x < ((4096 : UInt64) &&& ~~~15).toNat - 176 ∨
      ((4096 : UInt64) &&& ~~~15).toNat ≤ x := by
    intro x low
    change x < 256 at low
    rw [base]
    omega
  have serves := fun (n : Nat) (_ : n < 16) =>
    tickImage_serves ((4096 : UInt64) &&& ~~~15) n {x | x < 256}
  have first : Interrupted tickImage 4096 countProgram countStart [] _ := .step .refl rfl
  obtain ⟨-, -, taken⟩ := interrupts_unnoticed tickImage 4096 countProgram tickEffect room apart
    serves (by decide) first
  obtain ⟨t, there⟩ := taken 0 (by decide)
  have ran := Interrupted.irq first (by decide) (by decide) there
  obtain ⟨alone, env, -⟩ := interrupts_unnoticed tickImage 4096 countProgram tickEffect room apart
    serves (by decide) ran
  exact ⟨_, t, rfl, ran, alone, env⟩

end Flyos
