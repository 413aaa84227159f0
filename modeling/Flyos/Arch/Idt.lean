import Flyos.Lib.CInt
import Flyos.Lib.X86
import Mathlib.Data.List.Range

/-!
# Interrupts

`kernel/arch/idt.c`, `isr.S`, `irq.c` and `pic_send_eoi` of `pic.c`: the interrupt descriptor
table, the code that the processor finds through it, and the functions of C that this code calls.

`struct regs` is what `isr_common` and `irq_common` leave on the stack; `regsAt` reads it as C does.
The compiler lets a C function clobber what the calling convention allows; `clobber` stands for
that in the functions that are written out here.
-/

namespace Flyos

open X86 (Reg State Instr Gate)

/-! ## The descriptor table -/

/-- `struct idt_entry`. -/
structure IdtEntry where
  offsetLow : UInt16
  selector : UInt16
  ist : UInt8
  typeAttr : UInt8
  offsetMid : UInt16
  offsetHigh : UInt32
  zero : UInt32

/-- An entry of zeros. -/
def IdtEntry.empty : IdtEntry := ⟨0, 0, 0, 0, 0, 0, 0⟩

/-- What `idt_set_gate` stores. -/
def IdtEntry.of (handler : UInt64) : IdtEntry where
  offsetLow := (handler &&& 0xFFFF).toUInt16
  selector := 0x08
  ist := 0
  typeAttr := 0x8E
  offsetMid := ((handler >>> 16) &&& 0xFFFF).toUInt16
  offsetHigh := ((handler >>> 32) &&& 0xFFFFFFFF).toUInt32
  zero := 0

/-- `idt_set_gate`. -/
def idtSetGate (idt : Nat → IdtEntry) (n : Nat) (handler : UInt64) : Nat → IdtEntry :=
  Function.update idt n (.of handler)

/-- The table that `idt_init` builds of `isr_table` and `irq_table`. -/
def idtInit (isrTable irqTable : Nat → UInt64) : Nat → IdtEntry :=
  let idt : Nat → IdtEntry := fun _ => .empty
  let idt := (List.range 32).foldl (fun idt i => idtSetGate idt i (isrTable i)) idt
  (List.range 16).foldl (fun idt i => idtSetGate idt (32 + i) (irqTable i)) idt

/-- What the processor makes of an entry: it must be present and a 64-bit interrupt gate. -/
def IdtEntry.gate? (e : IdtEntry) : Option Gate :=
  if e.typeAttr &&& 0x9F = 0x8E then
    some ⟨e.offsetLow.toUInt64 ||| e.offsetMid.toUInt64 <<< 16 ||| e.offsetHigh.toUInt64 <<< 32,
      e.selector⟩
  else none

/-! ## The entry code -/

/-- `SAVE_REGS`. -/
def saveRegs : List Reg :=
  [.rax, .rbx, .rcx, .rdx, .rsi, .rdi, .rbp, .r8, .r9, .r10, .r11, .r12, .r13, .r14, .r15]

/-- `RESTORE_REGS`. -/
def restoreRegs : List Reg :=
  [.r15, .r14, .r13, .r12, .r11, .r10, .r9, .r8, .rbp, .rdi, .rsi, .rdx, .rcx, .rbx, .rax]

/-- `isr_common` and `irq_common`, up to `iretq`, with the function they call. -/
def trapCommon (function : UInt64) : List Instr :=
  saveRegs.map .push ++
    ([.mov .rsp .rdi, .call function] ++ (restoreRegs.map .pop ++ [.add 16 .rsp]))

/-- `ISR_NOERR`, and `IRQ` with the vector for the number. -/
def stubNoErr (num function : UInt64) : List Instr :=
  [.pushImm 0, .pushImm num] ++ trapCommon function

/-- `ISR_ERR`. -/
def stubErr (num function : UInt64) : List Instr := [.pushImm num] ++ trapCommon function

/-- The vectors for which `isr.S` has `ISR_ERR`. -/
def isrErrVectors : List Nat := [8, 10, 11, 12, 13, 14, 17, 30]

/-- `isr0` to `isr31`. -/
def isrStub (exceptionHandler : UInt64) (n : Nat) : List Instr :=
  if n ∈ isrErrVectors then stubErr (UInt64.ofNat n) exceptionHandler
  else stubNoErr (UInt64.ofNat n) exceptionHandler

/-- `irq0` to `irq15`. -/
def irqStub (irqHandler : UInt64) (n : Nat) : List Instr :=
  stubNoErr (UInt64.ofNat (32 + n)) irqHandler

/-! ## What C sees -/

/-- `struct regs`. -/
structure Regs where
  r15 : UInt64
  r14 : UInt64
  r13 : UInt64
  r12 : UInt64
  r11 : UInt64
  r10 : UInt64
  r9 : UInt64
  r8 : UInt64
  rbp : UInt64
  rdi : UInt64
  rsi : UInt64
  rdx : UInt64
  rcx : UInt64
  rbx : UInt64
  rax : UInt64
  intNo : UInt64
  errCode : UInt64
  rip : UInt64
  cs : UInt64
  rflags : UInt64
  rsp : UInt64
  ss : UInt64

/-- `*r` for a pointer to `struct regs`. -/
def regsAt (m : ByteMemory) (r : UInt64) : Regs where
  r15 := X86.wordAt m r
  r14 := X86.wordAt m (r + 8)
  r13 := X86.wordAt m (r + 16)
  r12 := X86.wordAt m (r + 24)
  r11 := X86.wordAt m (r + 32)
  r10 := X86.wordAt m (r + 40)
  r9 := X86.wordAt m (r + 48)
  r8 := X86.wordAt m (r + 56)
  rbp := X86.wordAt m (r + 64)
  rdi := X86.wordAt m (r + 72)
  rsi := X86.wordAt m (r + 80)
  rdx := X86.wordAt m (r + 88)
  rcx := X86.wordAt m (r + 96)
  rbx := X86.wordAt m (r + 104)
  rax := X86.wordAt m (r + 112)
  intNo := X86.wordAt m (r + 120)
  errCode := X86.wordAt m (r + 128)
  rip := X86.wordAt m (r + 136)
  cs := X86.wordAt m (r + 144)
  rflags := X86.wordAt m (r + 152)
  rsp := X86.wordAt m (r + 160)
  ss := X86.wordAt m (r + 168)

/-- The registers of an interrupted program. -/
def Regs.of {K : Type*} (s : State K) (intNo errCode : UInt64) : Regs where
  r15 := s.reg .r15
  r14 := s.reg .r14
  r13 := s.reg .r13
  r12 := s.reg .r12
  r11 := s.reg .r11
  r10 := s.reg .r10
  r9 := s.reg .r9
  r8 := s.reg .r8
  rbp := s.reg .rbp
  rdi := s.reg .rdi
  rsi := s.reg .rsi
  rdx := s.reg .rdx
  rcx := s.reg .rcx
  rbx := s.reg .rbx
  rax := s.reg .rax
  intNo := intNo
  errCode := errCode
  rip := s.rip
  cs := s.cs.toUInt64
  rflags := s.rflags
  rsp := s.reg .rsp
  ss := s.ss.toUInt64

/-! ## The interrupts of devices -/

/-- The bytes written to ports, the last one first, and the rest of the kernel. -/
structure Devices (K : Type*) where
  ports : List (UInt16 × UInt8)
  rest : K

/-- A function of C, by what it does to the machine; one that does not return gives nothing. -/
abbrev CFunction (K : Type*) := State (Devices K) → Option (State (Devices K))

variable {K : Type*}

/-- `outb`. -/
def outb (port : UInt16) (val : UInt8) (s : State (Devices K)) : State (Devices K) :=
  { s with env := { s.env with ports := (port, val) :: s.env.ports } }

/-- `pic_send_eoi`. -/
def picSendEoi (irq : Int) (s : State (Devices K)) : State (Devices K) :=
  outb 0x20 0x20 (if 8 ≤ irq then outb 0xA0 0x20 s else s)

/-- `irq_register`. -/
def irqRegister (handlers : Nat → Option (CFunction K)) (irq : Int) (handler : CFunction K) :
    Nat → Option (CFunction K) :=
  if 0 ≤ irq ∧ irq < 16 then Function.update handlers irq.toNat (some handler) else handlers

/-- `irq_handler`, with what is registered. -/
def irqHandler (handlers : Nat → Option (CFunction K))
    (clobber : State (Devices K) → State (Devices K)) : CFunction K := fun s =>
  let irq := int32 ((regsAt s.mem (s.reg .rdi)).intNo - 32).toNat
  if irq < 0 ∨ 16 ≤ irq then some (clobber s)
  else
    let s := picSendEoi irq s
    match handlers irq.toNat with
    | some handler => handler s
    | none => some (clobber s)

/-- The machine takes the interrupt of line `n`: it delivers it through the table, and runs the
code there, which calls `irq_handler`. -/
def takeIrq (idt : Nat → IdtEntry) (codeAt : UInt64 → Option (List Instr)) (rsp0 : UInt64)
    (call : UInt64 → CFunction K) (n : Nat) (s : State (Devices K)) : Option (State (Devices K)) :=
  (idt (32 + n)).gate?.bind fun gate =>
    (codeAt gate.offset).bind fun code =>
      (X86.exec call 0 code (s.deliver gate rsp0 none)).map State.iretq

/-! ## The table -/

/-- The three parts of an address make it up. -/
theorem offset_parts (h : UInt64) :
    (h &&& 0xFFFF).toUInt16.toUInt64 ||| ((h >>> 16) &&& 0xFFFF).toUInt16.toUInt64 <<< 16 |||
      ((h >>> 32) &&& 0xFFFFFFFF).toUInt32.toUInt64 <<< 32 = h := by
  have range := UInt64.toNat_lt h
  have low : (h &&& 0xFFFF).toUInt16.toUInt64.toNat = h.toNat % 2 ^ 16 := by
    rw [UInt16.toNat_toUInt64, UInt64.toNat_toUInt16, UInt64.toNat_and,
      show (0xFFFF : UInt64).toNat = 2 ^ 16 - 1 from rfl, Nat.and_two_pow_sub_one_eq_mod,
      Nat.mod_mod]
  have mid : (((h >>> 16) &&& 0xFFFF).toUInt16.toUInt64 <<< 16).toNat =
      2 ^ 16 * (h.toNat / 2 ^ 16 % 2 ^ 16) := by
    rw [UInt64.toNat_shiftLeft, UInt16.toNat_toUInt64, UInt64.toNat_toUInt16, UInt64.toNat_and,
      UInt64.toNat_shiftRight, show (0xFFFF : UInt64).toNat = 2 ^ 16 - 1 from rfl,
      Nat.and_two_pow_sub_one_eq_mod, show (16 : UInt64).toNat % 64 = 16 from rfl,
      Nat.shiftRight_eq_div_pow, Nat.shiftLeft_eq]
    omega
  have high : (((h >>> 32) &&& 0xFFFFFFFF).toUInt32.toUInt64 <<< 32).toNat =
      2 ^ 32 * (h.toNat / 2 ^ 32) := by
    rw [UInt64.toNat_shiftLeft, UInt32.toNat_toUInt64, UInt64.toNat_toUInt32, UInt64.toNat_and,
      UInt64.toNat_shiftRight, show (0xFFFFFFFF : UInt64).toNat = 2 ^ 32 - 1 from rfl,
      Nat.and_two_pow_sub_one_eq_mod, show (32 : UInt64).toNat % 64 = 32 from rfl,
      Nat.shiftRight_eq_div_pow, Nat.shiftLeft_eq]
    omega
  apply UInt64.toNat_inj.mp
  rw [UInt64.toNat_or, UInt64.toNat_or, low, mid, high, Nat.or_comm (_ % _),
    ← Nat.two_pow_add_eq_or_of_lt (by omega), Nat.or_comm,
    ← Nat.two_pow_add_eq_or_of_lt (by omega)]
  omega

/-- What `idt_set_gate` stores is a gate to the handler, in the code segment of the kernel. -/
theorem gate?_of (handler : UInt64) : (IdtEntry.of handler).gate? = some ⟨handler, 0x08⟩ := by
  have kind : (0x8E : UInt8) &&& 0x9F = 0x8E := by decide
  rw [IdtEntry.gate?, IdtEntry.of, if_pos kind, offset_parts]

/-- Gates set one behind the other. -/
theorem foldl_idtSetGate (idt : Nat → IdtEntry) (table : Nat → UInt64) (base k n : Nat) :
    (List.range k).foldl (fun idt i => idtSetGate idt (base + i) (table i)) idt n =
      if base ≤ n ∧ n < base + k then .of (table (n - base)) else idt n := by
  induction k with
  | zero =>
      rw [if_neg (by omega)]
      rfl
  | succ k ih =>
      rw [List.range_succ, List.foldl_append, List.foldl_cons, List.foldl_nil, idtSetGate]
      by_cases here : n = base + k
      · subst here
        rw [Function.update_self, if_pos (by omega), Nat.add_sub_cancel_left]
      · rw [Function.update_of_ne here, ih]
        by_cases inside : base ≤ n ∧ n < base + k
        · rw [if_pos inside, if_pos (by omega)]
        · rw [if_neg inside, if_neg (by omega)]

/-- **The table**: an interrupt gate for every exception and every device, and nothing else. -/
theorem idtInit_gate (isrTable irqTable : Nat → UInt64) (n : Nat) :
    (idtInit isrTable irqTable n).gate? =
      if n < 32 then some ⟨isrTable n, 0x08⟩
      else if n < 48 then some ⟨irqTable (n - 32), 0x08⟩ else none := by
  have first : (List.range 32).foldl (fun idt i => idtSetGate idt i (isrTable i))
      (fun _ => IdtEntry.empty) n = if n < 32 then .of (isrTable n) else .empty := by
    have all := foldl_idtSetGate (fun _ => IdtEntry.empty) isrTable 0 32 n
    simpa using all
  rw [idtInit, foldl_idtSetGate, first]
  by_cases exception : n < 32
  · rw [if_neg (by omega), if_pos exception, if_pos exception, gate?_of]
  by_cases device : n < 48
  · rw [if_pos (by omega), if_neg exception, if_pos device, gate?_of]
  · rw [if_neg (by omega), if_neg exception, if_neg exception, if_neg device]
    rfl

end Flyos
