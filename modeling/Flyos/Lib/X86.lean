import Flyos.Lib.ByteMemory
import Mathlib.Data.List.Nodup
import Mathlib.Logic.Function.Basic

/-!
# A processor with a stack

The part of a 64-bit x86 processor that entry code uses: the general registers, the flags, two
segment registers, the instruction pointer and a memory of bytes, beside an environment that
instructions do not see.  `exec` runs code that jumps forward only; what it calls is a parameter,
and `toCall` says in which state it calls first.
The ends of such code are functions on states, `ret`, `iretq` and `sysretq`, and so are its
beginnings, `deliver` for an interrupt and `syscall`.

The stack is reasoned about by the words that lie on it (`Words`).  `pushes_spec` and `pops_spec`
say what a row of `push` and a row of `pop` do, `iretq_spec` what an interrupt return finds.

Of the status flags `add`, `and` and `test` set the zero flag; no code here reads the others.  An
access lies within the `2 ^ 64` bytes; the rules ask for the room.
-/

namespace X86

/-- The general registers. -/
inductive Reg where
  | rax | rbx | rcx | rdx | rsi | rdi | rbp | rsp
  | r8 | r9 | r10 | r11 | r12 | r13 | r14 | r15
  deriving DecidableEq

/-- The processor, its memory, and an environment. -/
structure State (K : Type*) where
  reg : Reg → UInt64
  rip : UInt64
  rflags : UInt64
  cs : UInt16
  ss : UInt16
  mem : ByteMemory
  env : K

/-- The instructions of entry code.  `jz n` leaves out the next `n` instructions. -/
inductive Instr where
  | push (r : Reg)
  | pushImm (n : UInt64)
  | pop (r : Reg)
  | pushf
  | popf
  | mov (src dst : Reg)
  | movImm (n : UInt64) (dst : Reg)
  | load (off : UInt64) (base dst : Reg)
  | store (src : Reg) (off : UInt64) (base : Reg)
  | loadVar (var : UInt64) (dst : Reg)
  | storeVar (src : Reg) (var : UInt64)
  | storeImm (n var : UInt64)
  | add (n : UInt64) (dst : Reg)
  | and (n : UInt64) (dst : Reg)
  | test (r : Reg)
  | jz (n : Nat)
  | call (f : UInt64)

/-- The word at an address. -/
def wordAt (m : ByteMemory) (a : UInt64) : UInt64 := UInt64.ofNat (m.load a.toNat 8)

/-- The memory with a word stored at an address. -/
def storeAt (m : ByteMemory) (a v : UInt64) : ByteMemory := m.store a.toNat 8 v.toNat

variable {K : Type*}

namespace State

variable (s : State K)

/-- Set a register. -/
def set (r : Reg) (v : UInt64) : State K := { s with reg := Function.update s.reg r v }

/-- Push a word. -/
def push (v : UInt64) : State K :=
  { s.set .rsp (s.reg .rsp - 8) with mem := storeAt s.mem (s.reg .rsp - 8) v }

/-- The word `i` words above the top of the stack. -/
def peek (i : UInt64) : UInt64 := wordAt s.mem (s.reg .rsp + 8 * i)

/-- Pop a word into a register. -/
def pop (r : Reg) : State K := (s.set .rsp (s.reg .rsp + 8)).set r (s.peek 0)

/-- Push words, the first one first. -/
def pushes (vs : List UInt64) : State K := vs.foldl push s

/-- Pop words into registers, the first one first. -/
def pops (rs : List Reg) : State K := rs.foldl pop s

/-- The bit of the zero flag. -/
def zeroFlag : UInt64 := 0x40

/-- The zero flag says whether a result is zero. -/
def setZero (result : UInt64) : State K :=
  { s with rflags := if result = 0 then s.rflags ||| zeroFlag else s.rflags &&& ~~~zeroFlag }

end State

/-- What an instruction does that neither jumps nor calls. -/
def Instr.step (s : State K) : Instr → State K
  | .push r => s.push (s.reg r)
  | .pushImm n => s.push n
  | .pop r => s.pop r
  | .pushf => s.push s.rflags
  | .popf => { s.set .rsp (s.reg .rsp + 8) with rflags := s.peek 0 }
  | .mov src dst => s.set dst (s.reg src)
  | .movImm n dst => s.set dst n
  | .load off base dst => s.set dst (wordAt s.mem (s.reg base + off))
  | .store src off base => { s with mem := storeAt s.mem (s.reg base + off) (s.reg src) }
  | .loadVar var dst => s.set dst (wordAt s.mem var)
  | .storeVar src var => { s with mem := storeAt s.mem var (s.reg src) }
  | .storeImm n var => { s with mem := storeAt s.mem var n }
  | .add n dst => (s.set dst (s.reg dst + n)).setZero (s.reg dst + n)
  | .and n dst => (s.set dst (s.reg dst &&& n)).setZero (s.reg dst &&& n)
  | .test r => s.setZero (s.reg r)
  | .jz _ => s
  | .call _ => s

/-- An instruction that neither jumps nor calls. -/
def Instr.plain : Instr → Bool
  | .jz _ => false
  | .call _ => false
  | _ => true

/-- **Run code**, leaving out its first instructions as a jump says; `call` is what the functions
do that it calls. -/
def exec (call : UInt64 → State K → Option (State K)) : Nat → List Instr → State K →
    Option (State K)
  | _, [], s => some s
  | n + 1, _ :: code, s => exec call n code s
  | 0, i :: code, s =>
      match i with
      | .jz n => exec call (if s.rflags &&& State.zeroFlag = 0 then 0 else n) code s
      | .call f => (call f s).bind fun s => exec call 0 code s
      | i => exec call 0 code (i.step s)

/-- The first instruction of code, or that it is left out: the state after it, and how many of the
next ones are left out. -/
def execOne (call : UInt64 → State K → Option (State K)) : Nat → Instr → State K →
    Option (State K × Nat)
  | n + 1, _, s => some (s, n)
  | 0, .jz n, s => some (s, if s.rflags &&& State.zeroFlag = 0 then 0 else n)
  | 0, .call f, s => (call f s).map fun s => (s, 0)
  | 0, i, s => some (i.step s, 0)

/-- Code up to its first call: the function, the state in which it is called, and the code behind
the call. -/
def toCall : Nat → List Instr → State K → Option (UInt64 × State K × List Instr)
  | _, [], _ => none
  | n + 1, _ :: code, s => toCall n code s
  | 0, i :: code, s =>
      match i with
      | .jz n => toCall (if s.rflags &&& State.zeroFlag = 0 then 0 else n) code s
      | .call f => some (f, s, code)
      | i => toCall 0 code (i.step s)

namespace State

variable (s : State K)

/-- `ret`. -/
def ret : State K := { s.set .rsp (s.reg .rsp + 8) with rip := s.peek 0 }

/-- `iretq`. -/
def iretq : State K :=
  { s.set .rsp (s.peek 3) with
    rip := s.peek 0
    cs := (s.peek 1).toUInt16
    rflags := s.peek 2
    ss := (s.peek 4).toUInt16 }

/-- The privilege level. -/
def level : UInt16 := s.cs &&& 3

end State

/-- What a gate of the interrupt descriptor table says. -/
structure Gate where
  offset : UInt64
  selector : UInt16

/-- The flags that an interrupt gate clears: TF, IF, NT and RF. -/
def gateMask : UInt64 := 0x14300

/-- Where the stack of an interrupt starts: at `rsp0` of the task state segment if the level
changes, and else below what is there. -/
def State.frameBase (s : State K) (rsp0 : UInt64) : UInt64 :=
  (if s.level = 3 then rsp0 else s.reg .rsp) &&& ~~~15

/-- What `iretq` takes from the stack, from the top. -/
def State.returnWords (s : State K) : List UInt64 :=
  [s.rip, s.cs.toUInt64, s.rflags, s.reg .rsp, s.ss.toUInt64]

/-- **An interrupt** through an interrupt gate to level 0, with the error code if there is one. -/
def State.deliver (s : State K) (gate : Gate) (rsp0 : UInt64) (err : Option UInt64) : State K :=
  { (s.set .rsp (s.frameBase rsp0)).pushes (s.returnWords.reverse ++ err.toList) with
    rip := gate.offset
    rflags := s.rflags &&& ~~~gateMask
    cs := gate.selector
    ss := if s.level = 3 then 0 else s.ss }

/-- What the model-specific registers say about system calls. -/
structure SyscallMsrs where
  star : UInt64
  lstar : UInt64
  fmask : UInt64

/-- **`syscall`**, with the next instruction at `next`. -/
def State.syscall (s : State K) (msrs : SyscallMsrs) (next : UInt64) : State K :=
  { (s.set .rcx next).set .r11 s.rflags with
    rip := msrs.lstar
    rflags := s.rflags &&& ~~~msrs.fmask
    cs := (msrs.star >>> 32).toUInt16 &&& 0xFFFC
    ss := (msrs.star >>> 32).toUInt16 + 8 }

/-- `sysretq` to 64-bit code. -/
def State.sysretq (s : State K) (msrs : SyscallMsrs) : State K :=
  { s with
    rip := s.reg .rcx
    rflags := s.reg .r11 &&& 0x3C7FD7 ||| 2
    cs := (msrs.star >>> 48).toUInt16 + 16 ||| 3
    ss := (msrs.star >>> 48).toUInt16 + 8 ||| 3 }

/-! ## Words on the stack -/

/-- From an address on, memory holds the words. -/
def Words (m : ByteMemory) : Nat → List UInt64 → Prop
  | _, [] => True
  | a, w :: ws => m.load a 8 = w.toNat ∧ Words m (a + 8) ws

variable {m m' : ByteMemory} {a : Nat} {ws vs : List UInt64} {w : UInt64}

/-- Only the bytes of the words matter. -/
theorem Words.congr (words : Words m a ws)
    (same : ∀ x, a ≤ x → x < a + 8 * ws.length → m' x = m x) : Words m' a ws := by
  induction ws generalizing a with
  | nil => trivial
  | cons w ws ih =>
      rw [List.length_cons] at same
      refine ⟨?_, ih words.2 fun x low high => same x (by omega) (by omega)⟩
      rw [← words.1]
      exact ByteMemory.load_congr fun x low high => same x low (by omega)

/-- Words behind words. -/
theorem words_append :
    Words m a (vs ++ ws) ↔ Words m a vs ∧ Words m (a + 8 * vs.length) ws := by
  induction vs generalizing a with
  | nil => simp [Words]
  | cons v vs ih =>
      rw [List.cons_append, Words, ih, Words, List.length_cons, and_assoc,
        show a + 8 + 8 * vs.length = a + 8 * (vs.length + 1) by omega]

/-- The word at an address. -/
theorem Words.wordAt {p : UInt64} (words : Words m p.toNat (w :: ws)) : wordAt m p = w := by
  rw [X86.wordAt, words.1, UInt64.ofNat_toNat]

/-- A word that is stored is there. -/
theorem load_storeAt (m : ByteMemory) (p v : UInt64) : (storeAt m p v).load p.toNat 8 = v.toNat :=
  ByteMemory.load_store_same m _ (UInt64.toNat_lt v)

/-- The other bytes stay. -/
theorem storeAt_of_notMem (m : ByteMemory) {p v : UInt64} {x : Nat}
    (out : x < p.toNat ∨ p.toNat + 8 ≤ x) : storeAt m p v x = m x :=
  ByteMemory.store_of_notMem _ _ out

/-- The word that is stored is read again. -/
@[simp] theorem wordAt_storeAt (m : ByteMemory) (p v : UInt64) : wordAt (storeAt m p v) p = v := by
  rw [wordAt, load_storeAt, UInt64.ofNat_toNat]

/-- Only its bytes make a word. -/
theorem wordAt_congr {p : UInt64}
    (same : ∀ x, p.toNat ≤ x → x < p.toNat + 8 → m' x = m x) : wordAt m' p = wordAt m p := by
  rw [wordAt, wordAt, ByteMemory.load_congr same]

/-- Words elsewhere stay. -/
theorem wordAt_storeAt_of_disjoint {p q v : UInt64}
    (apart : p.toNat + 8 ≤ q.toNat ∨ q.toNat + 8 ≤ p.toNat) :
    wordAt (storeAt m q v) p = wordAt m p := by
  refine wordAt_congr fun x low high => storeAt_of_notMem m ?_
  omega

/-- Storing over one of the words. -/
theorem Words.store {p v : UInt64} {i : Nat} (words : Words m p.toNat ws) (inside : i < ws.length)
    (fits : p.toNat + 8 * ws.length ≤ 2 ^ 64) :
    Words (storeAt m (p + UInt64.ofNat (8 * i)) v) p.toNat (ws.set i v) := by
  have address : (p + UInt64.ofNat (8 * i)).toNat = p.toNat + 8 * i := by
    rw [UInt64.toNat_add, UInt64.toNat_ofNat', Nat.mod_eq_of_lt (by omega),
      Nat.mod_eq_of_lt (by omega)]
  have count : (ws.take i).length = i := List.length_take_of_le (le_of_lt inside)
  have apart : ws = ws.take i ++ ws[i] :: ws.drop (i + 1) := by
    rw [← List.drop_eq_getElem_cons inside, List.take_append_drop]
  rw [apart, words_append, count] at words
  obtain ⟨first, -, last⟩ := words
  rw [List.set_eq_take_append_cons_drop, if_pos inside, words_append, count]
  refine ⟨first.congr fun x low high => storeAt_of_notMem m ?_, ?_, ?_⟩
  · rw [count] at high
    omega
  · rw [← address]
    exact load_storeAt ..
  · exact last.congr fun x low high => storeAt_of_notMem m (by omega)

/-- The stack pointer goes down by a word. -/
theorem toNat_sub_eight {p : UInt64} (room : 8 ≤ p.toNat) : (p - 8).toNat = p.toNat - 8 := by
  have le : (8 : UInt64) ≤ p := UInt64.le_iff_toNat_le.mpr room
  exact UInt64.toNat_sub_of_le _ _ le

/-- And up by some. -/
theorem toNat_add_words {p i : UInt64} (room : p.toNat + 8 * i.toNat < 2 ^ 64) :
    (p + 8 * i).toNat = p.toNat + 8 * i.toNat := by
  rw [UInt64.toNat_add, UInt64.toNat_mul, show (8 : UInt64).toNat = 8 from rfl]
  omega

namespace State

variable {s : State K} {r q : Reg} {v : UInt64}

@[simp] theorem set_reg_self : (s.set r v).reg r = v := Function.update_self ..

theorem set_reg_of_ne (differ : q ≠ r) : (s.set r v).reg q = s.reg q :=
  Function.update_of_ne differ ..

@[simp] theorem set_mem : (s.set r v).mem = s.mem := rfl
@[simp] theorem set_rflags : (s.set r v).rflags = s.rflags := rfl
@[simp] theorem set_cs : (s.set r v).cs = s.cs := rfl
@[simp] theorem set_ss : (s.set r v).ss = s.ss := rfl
@[simp] theorem set_rip : (s.set r v).rip = s.rip := rfl
@[simp] theorem set_env : (s.set r v).env = s.env := rfl

end State

section Add

variable (s : State K) (n : UInt64) (r : Reg)

@[simp] theorem step_add_reg : (Instr.step s (.add n r)).reg = (s.set r (s.reg r + n)).reg := rfl
@[simp] theorem step_add_mem : (Instr.step s (.add n r)).mem = s.mem := rfl
@[simp] theorem step_add_env : (Instr.step s (.add n r)).env = s.env := rfl

end Add

@[simp] theorem setZero_reg (s : State K) (v : UInt64) : (s.setZero v).reg = s.reg := rfl
@[simp] theorem setZero_mem (s : State K) (v : UInt64) : (s.setZero v).mem = s.mem := rfl
@[simp] theorem setZero_env (s : State K) (v : UInt64) : (s.setZero v).env = s.env := rfl

theorem step_load (s : State K) (off : UInt64) (base dst : Reg) :
    Instr.step s (.load off base dst) = s.set dst (wordAt s.mem (s.reg base + off)) := rfl

theorem step_loadVar (s : State K) (var : UInt64) (dst : Reg) :
    Instr.step s (.loadVar var dst) = s.set dst (wordAt s.mem var) := rfl

theorem step_storeImm (s : State K) (n var : UInt64) :
    Instr.step s (.storeImm n var) = { s with mem := storeAt s.mem var n } := rfl

theorem step_store (s : State K) (src : Reg) (off : UInt64) (base : Reg) :
    Instr.step s (.store src off base) =
      { s with mem := storeAt s.mem (s.reg base + off) (s.reg src) } := rfl

theorem step_storeVar (s : State K) (src : Reg) (var : UInt64) :
    Instr.step s (.storeVar src var) = { s with mem := storeAt s.mem var (s.reg src) } := rfl

/-- Registers and memory after words have been pushed: they lie on the stack, and nothing else has
changed. -/
structure Pushed (s : State K) (vs : List UInt64) (t : State K) : Prop where
  rsp : (t.reg .rsp).toNat + 8 * vs.length = (s.reg .rsp).toNat
  words : Words t.mem (t.reg .rsp).toNat vs.reverse
  others : ∀ x, x < (t.reg .rsp).toNat ∨ (s.reg .rsp).toNat ≤ x → t.mem x = s.mem x
  regs : ∀ r, r ≠ .rsp → t.reg r = s.reg r

/-- Pushing changes nothing but registers and memory. -/
theorem pushes_rest (s : State K) (vs : List UInt64) :
    s.pushes vs = { s with reg := (s.pushes vs).reg, mem := (s.pushes vs).mem } := by
  induction vs generalizing s with
  | nil => rfl
  | cons v vs ih => exact ih (s.push v)

theorem pushes_env (s : State K) (vs : List UInt64) : (s.pushes vs).env = s.env := by
  rw [pushes_rest]

/-- More words are pushed. -/
theorem Pushed.trans {s t t' u : State K} (first : Pushed s vs t) (reg : t'.reg = t.reg)
    (mem : t'.mem = t.mem) (second : Pushed t' ws u) : Pushed s (vs ++ ws) u := by
  obtain ⟨rsp, words, others, regs⟩ := first
  obtain ⟨rsp', words', others', regs'⟩ := second
  rw [reg] at rsp' others' regs'
  rw [mem] at others'
  have length : (vs ++ ws).length = vs.length + ws.length := List.length_append
  refine ⟨by omega, ?_, fun x out => ?_, fun r differ => (regs' r differ).trans (regs r differ)⟩
  · rw [List.reverse_append, words_append, List.length_reverse, rsp']
    refine ⟨words', words.congr fun x low _ => others' x (.inr low)⟩
  · rw [others' x (by omega), others x (by omega)]

/-- **Pushing words.** -/
theorem pushes_spec {s : State K} (vs : List UInt64) (room : 8 * vs.length ≤ (s.reg .rsp).toNat) :
    Pushed s vs (s.pushes vs) := by
  induction vs generalizing s with
  | nil => exact ⟨rfl, trivial, fun _ _ => rfl, fun _ _ => rfl⟩
  | cons v vs ih =>
      rw [List.length_cons] at room
      have down : ((s.push v).reg .rsp).toNat = (s.reg .rsp).toNat - 8 := by
        rw [State.push]
        exact (congrArg UInt64.toNat State.set_reg_self).trans (toNat_sub_eight (by omega))
      have one : Pushed s [v] (s.push v) := by
        refine ⟨?_, ⟨?_, trivial⟩, fun x out => ?_, fun r differ => State.set_reg_of_ne differ⟩
        · rw [down, List.length_singleton]
          omega
        · rw [down, ← toNat_sub_eight (by omega)]
          exact load_storeAt ..
        · refine storeAt_of_notMem _ ?_
          rw [toNat_sub_eight (by omega)]
          omega
      exact one.trans rfl rfl (ih (by omega))

/-- What is pushed then. -/
theorem Pushed.more {s t : State K} (pushed : Pushed s vs t) (ws : List UInt64)
    (room : 8 * ws.length ≤ (t.reg .rsp).toNat) : Pushed s (vs ++ ws) (t.pushes ws) :=
  pushed.trans rfl rfl (pushes_spec ws room)

/-- A state after words have been popped into registers: nothing else has changed. -/
structure Popped (s : State K) (rs : List Reg) (ws : List UInt64) (t : State K) : Prop where
  rsp : (t.reg .rsp).toNat = (s.reg .rsp).toNat + 8 * ws.length
  values : rs.map t.reg = ws
  regs : ∀ r, r ∉ rs → r ≠ .rsp → t.reg r = s.reg r
  rest : t = { s with reg := t.reg }

/-- **Popping words.** -/
theorem pops_spec {s : State K} (rs : List Reg) (nodup : rs.Nodup) (other : .rsp ∉ rs)
    (words : Words s.mem (s.reg .rsp).toNat ws) (length : ws.length = rs.length)
    (room : (s.reg .rsp).toNat + 8 * ws.length < 2 ^ 64) : Popped s rs ws (s.pops rs) := by
  induction rs generalizing s ws with
  | nil =>
      obtain rfl := List.length_eq_zero_iff.mp length
      exact ⟨rfl, rfl, fun _ _ _ => rfl, rfl⟩
  | cons r rs ih =>
      cases ws with
      | nil => cases length
      | cons w ws =>
          rw [List.nodup_cons] at nodup
          rw [List.mem_cons, not_or] at other
          rw [List.length_cons] at room
          have top : s.peek 0 = w := by
            have here : Words s.mem (s.reg .rsp + 8 * 0).toNat (w :: ws) := by
              rw [show s.reg .rsp + 8 * 0 = s.reg .rsp by simp]
              exact words
            exact here.wordAt
          have up : ((s.pop r).reg .rsp).toNat = (s.reg .rsp).toNat + 8 := by
            rw [State.pop, State.set_reg_of_ne other.1, State.set_reg_self, UInt64.toNat_add,
              show (8 : UInt64).toNat = 8 from rfl]
            omega
          obtain ⟨rsp, values, regs, rest⟩ := ih (s := s.pop r) nodup.2 other.2
            (by rw [up]; exact words.2) (Nat.succ.inj length) (by rw [up]; omega)
          have here : ((s.pop r).pops rs).reg r = w := by
            rw [regs r nodup.1 (Ne.symm other.1), State.pop, State.set_reg_self, top]
          refine ⟨?_, ?_, fun q out differ => ?_, rest⟩
          · rw [List.length_cons]
            change ((s.pop r).pops rs |>.reg .rsp).toNat = _
            omega
          · change ((s.pop r).pops rs).reg r :: rs.map ((s.pop r).pops rs).reg = _
            rw [here, values]
          · rw [List.mem_cons, not_or] at out
            refine (regs q out.2 differ).trans ?_
            rw [State.pop, State.set_reg_of_ne out.1, State.set_reg_of_ne differ]

/-- A word on the stack. -/
theorem Words.peek {s : State K} {i : UInt64} (vs : List UInt64)
    (words : Words s.mem (s.reg .rsp).toNat (vs ++ w :: ws)) (index : i.toNat = vs.length)
    (room : (s.reg .rsp).toNat + 8 * i.toNat < 2 ^ 64) : s.peek i = w := by
  have here : Words s.mem (s.reg .rsp + 8 * i).toNat (w :: ws) := by
    rw [toNat_add_words room, index]
    exact (words_append.mp words).2
  exact here.wordAt

/-! ## Interrupts -/

/-- **`iretq` goes back** to the state whose words it finds. -/
theorem iretq_spec {s t : State K} (words : Words t.mem (t.reg .rsp).toNat s.returnWords)
    (room : (t.reg .rsp).toNat + 40 ≤ 2 ^ 64) (regs : ∀ r, r ≠ .rsp → t.reg r = s.reg r) :
    t.iretq = { s with mem := t.mem, env := t.env } := by
  have rip : t.peek 0 = s.rip := words.peek [] rfl (by
    change (t.reg .rsp).toNat + 8 * 0 < 2 ^ 64
    omega)
  have cs : t.peek 1 = s.cs.toUInt64 := words.peek [s.rip] rfl (by
    change (t.reg .rsp).toNat + 8 * 1 < 2 ^ 64
    omega)
  have rflags : t.peek 2 = s.rflags := words.peek [s.rip, s.cs.toUInt64] rfl (by
    change (t.reg .rsp).toNat + 8 * 2 < 2 ^ 64
    omega)
  have rsp : t.peek 3 = s.reg .rsp := words.peek [s.rip, s.cs.toUInt64, s.rflags] rfl (by
    change (t.reg .rsp).toNat + 8 * 3 < 2 ^ 64
    omega)
  have ss : t.peek 4 = s.ss.toUInt64 :=
    words.peek [s.rip, s.cs.toUInt64, s.rflags, s.reg .rsp] rfl (by
      change (t.reg .rsp).toNat + 8 * 4 < 2 ^ 64
      omega)
  have all : (t.set .rsp (s.reg .rsp)).reg = s.reg := by
    funext r
    by_cases top : r = .rsp
    · subst top
      exact State.set_reg_self
    · rw [State.set_reg_of_ne top]
      exact regs r top
  obtain ⟨reg, rip', rflags', cs', ss', mem, env⟩ := s
  rw [State.iretq, rip, cs, rflags, rsp, ss, UInt16.toUInt16_toUInt64, UInt16.toUInt16_toUInt64,
    all]
  rfl

/-- Only registers and memory hold what has been pushed. -/
theorem Pushed.of_eq {s t t' : State K} (pushed : Pushed s vs t) (reg : t'.reg = t.reg)
    (mem : t'.mem = t.mem) : Pushed s vs t' := by
  obtain ⟨rsp, words, others, regs⟩ := pushed
  rw [← reg] at rsp words others regs
  rw [← mem] at words others
  exact ⟨rsp, words, others, regs⟩

/-- **What an interrupt leaves**: the words of the interrupted state and the error code on the
stack, and the registers as they were. -/
theorem deliver_spec {s : State K} (gate : Gate) (rsp0 : UInt64) (err : Option UInt64)
    (room : 8 * (5 + err.toList.length) ≤ (s.frameBase rsp0).toNat) :
    Pushed (s.set .rsp (s.frameBase rsp0)) (s.returnWords.reverse ++ err.toList)
      (s.deliver gate rsp0 err) ∧ (s.deliver gate rsp0 err).env = s.env := by
  have length : (s.returnWords.reverse ++ err.toList).length = 5 + err.toList.length := by
    rw [List.length_append, List.length_reverse]
    rfl
  rw [State.deliver]
  generalize s.frameBase rsp0 = base at room ⊢
  generalize s.returnWords.reverse ++ err.toList = ws at length ⊢
  have pushed := pushes_spec (s := s.set .rsp base) ws (by
    rw [length, State.set_reg_self]
    exact room)
  refine ⟨pushed.of_eq rfl rfl, ?_⟩
  rw [pushes_rest]
  rfl

/-! ## Code -/

section Code

variable {call : UInt64 → State K → Option (State K)} {s t : State K} {rs : List Reg}
  {code rest : List Instr} {f : UInt64}

/-- **Code with a call** goes on behind the call where the function has returned. -/
theorem exec_of_toCall {n : Nat} (up : toCall n code s = some (f, t, rest)) :
    exec call n code s = (call f t).bind fun t => exec call 0 rest t := by
  induction code generalizing n s with
  | nil => cases n <;> cases up
  | cons i code ih =>
      cases n with
      | succ n => exact ih up
      | zero =>
          cases i
          case call => cases up; rfl
          all_goals exact ih up

/-- **Code runs instruction by instruction.** -/
theorem exec_cons (n : Nat) (i : Instr) :
    exec call n (i :: code) s = (execOne call n i s).bind fun (t, n) => exec call n code t := by
  cases n with
  | succ n => rfl
  | zero =>
      cases i
      case call f =>
        change (call f s).bind _ = ((call f s).map _).bind _
        cases call f s <;> rfl
      all_goals rfl

/-- A plain instruction. -/
theorem exec_plain {i : Instr} (plain : i.plain = true) :
    exec call 0 (i :: code) s = exec call 0 code (i.step s) := by
  cases i
  case jz => cases plain
  case call => cases plain
  all_goals rfl

/-- A plain instruction on the way to a call. -/
theorem toCall_plain {i : Instr} (plain : i.plain = true) :
    toCall 0 (i :: code) s = toCall 0 code (i.step s) := by
  cases i
  case jz => cases plain
  case call => cases plain
  all_goals rfl

/-- After a push the registers to push are the same. -/
theorem map_push_reg {v : UInt64} (other : .rsp ∉ rs) :
    rs.map (s.push v).reg = rs.map s.reg := by
  refine List.map_congr_left fun q mem => ?_
  exact State.set_reg_of_ne fun eq => other (eq ▸ mem)

/-- A row of `push`, on the way to a call. -/
theorem toCall_push (other : .rsp ∉ rs) :
    toCall 0 (rs.map .push ++ code) s = toCall 0 code (s.pushes (rs.map s.reg)) := by
  induction rs generalizing s with
  | nil => rfl
  | cons r rs ih =>
      rw [List.mem_cons, not_or] at other
      change toCall 0 (rs.map .push ++ code) (s.push (s.reg r)) = _
      rw [ih other.2, map_push_reg other.2]
      rfl

/-- A row of `push` of numbers. -/
theorem toCall_pushImm {vs : List UInt64} :
    toCall 0 (vs.map .pushImm ++ code) s = toCall 0 code (s.pushes vs) := by
  induction vs generalizing s with
  | nil => rfl
  | cons v vs ih =>
      change toCall 0 (vs.map .pushImm ++ code) (s.push v) = _
      rw [ih]
      rfl

/-- A row of `pop`. -/
theorem exec_pop : exec call 0 (rs.map .pop ++ code) s = exec call 0 code (s.pops rs) := by
  induction rs generalizing s with
  | nil => rfl
  | cons r rs ih =>
      change exec call 0 (rs.map .pop ++ code) (s.pop r) = _
      rw [ih]
      rfl

/-- A flag that has been set. -/
theorem or_and_cancel (x m : UInt64) : (x ||| m) &&& m = m := by
  apply UInt64.toBitVec_inj.mp
  ext i
  simpa using Or.inr

/-- A mask is applied to each side. -/
theorem or_and_distrib (x y m : UInt64) : (x ||| y) &&& m = x &&& m ||| y &&& m := by
  apply UInt64.toBitVec_inj.mp
  ext i
  simp [Bool.and_or_distrib_right]

/-- Plain instructions but `popf` leave the flags alone that say nothing about results. -/
theorem step_flag {i : Instr} {m : UInt64} (notPopf : i ≠ .popf) (other : State.zeroFlag &&& m = 0) :
    (i.step s).rflags &&& m = s.rflags &&& m := by
  have zero : ∀ v, (s.setZero v).rflags &&& m = s.rflags &&& m := by
    intro v
    have or : (s.rflags ||| State.zeroFlag) &&& m = s.rflags &&& m := by
      rw [or_and_distrib, other, UInt64.or_zero]
    rw [State.setZero]
    split
    · exact or
    · have not : ~~~State.zeroFlag &&& m = m := by
        have all : (State.zeroFlag ||| ~~~State.zeroFlag) &&& m = m := by
          rw [UInt64.or_not_self, UInt64.neg_one_and]
        rwa [or_and_distrib, other, UInt64.zero_or] at all
      rw [UInt64.and_assoc, not]
  cases i
  case popf => exact absurd rfl notPopf
  case add n r => exact zero _
  case and n r => exact zero _
  case test r => exact zero _
  all_goals rfl

/-- A test for zero with a jump. -/
theorem exec_test_jz {r : Reg} {n : Nat} :
    exec call 0 (.test r :: .jz n :: code) s =
      exec call (if s.reg r = 0 then n else 0) code (s.setZero (s.reg r)) := by
  have set : (s.setZero (s.reg r)).rflags &&& State.zeroFlag = 0 ↔ s.reg r ≠ 0 := by
    rw [State.setZero]
    by_cases zero : s.reg r = 0
    · rw [if_pos zero, or_and_cancel]
      simp [zero, State.zeroFlag]
    · rw [if_neg zero, UInt64.and_assoc, UInt64.not_and_self, UInt64.and_zero]
      simp [zero]
  change exec call (if (s.setZero (s.reg r)).rflags &&& State.zeroFlag = 0 then 0 else n) code _ = _
  by_cases zero : s.reg r = 0
  · rw [if_pos zero, if_neg (mt set.mp (not_not_intro zero))]
    rfl
  · rw [if_neg zero, if_pos (set.mpr zero)]
    rfl

end Code

end X86
