import Flyos.Lib.CInt
import Mathlib.Data.List.Basic

/-!
# Formatted printing

`serial_vprintf` of `kernel/drivers/serial.c` and `printf` of `user/lib/stdio.c`, with
`print_uint` and `print_int`.  The two scan a format in the same way; they differ in how a
string is put out, which is a parameter of the model: the output is the list of the writes.

The pointer `p` into the format is the list of the characters from it on, without the final
0; so `*p` is 0 where the list is empty, and there `p++` leaves the string.  That, and a byte
behind the buffer of `print_uint`, are the two `PrintTrap`s.

The arguments are the 64-bit slots that `va_arg` takes one after the other, each with the
type the conversion asks for; `cstr` is the memory, as the characters at an address.
-/

namespace Flyos

/-- A string: no character of it is 0. -/
structure CText where
  chars : List UInt8
  noNul : 0 ∉ chars

/-- Why a call gives no result: a read behind the format, a write behind `buf`. -/
inductive PrintTrap
  | outside
  | buffer
  deriving DecidableEq

/-- Formatted printing, up to how a string is put out. -/
structure Printer where
  putString : List UInt8 → List (List UInt8)
  cstr : UInt64 → CText

/-- A character put out. -/
def putChar (c : UInt8) : List (List UInt8) := [[c]]

/-- `serial_write`: one character after the other. -/
def serialPrinter (cstr : UInt64 → CText) : Printer where
  putString := List.map fun c => [c]
  cstr := cstr

/-- `raw_puts`: the string in one `sys_write`. -/
def userPrinter (cstr : UInt64 → CText) : Printer where
  putString := fun s => [s]
  cstr := cstr

/-! ## Numbers -/

/-- `sizeof buf`. -/
abbrev printBufSize : Nat := 32

/-- `buf[i++] = c`. -/
def bufPut (buf : List UInt8) (c : UInt8) : Except PrintTrap (List UInt8) :=
  if buf.length < printBufSize then .ok (buf ++ [c]) else .error .buffer

/-- `digits[i]`. -/
def digitChar (i : Nat) : UInt8 := UInt8.ofNat (if i < 10 then 0x30 + i else 0x61 + (i - 10))

/-- The loop over the digits of `v`, the last one first. -/
def digitLoop (base v : Nat) (buf : List UInt8) : Except PrintTrap (List UInt8) :=
  if 2 ≤ base ∧ 0 < v then
    (bufPut buf (digitChar (v % base))).bind fun buf => digitLoop base (v / base) buf
  else .ok buf
termination_by v
decreasing_by exact Nat.div_lt_self (by omega) (by omega)

/-- The loop that pads, `n` times. -/
def padLoop (pad : UInt8) : Nat → List UInt8 → Except PrintTrap (List UInt8)
  | 0, buf => .ok buf
  | n + 1, buf => (bufPut buf pad).bind (padLoop pad n)

/-- `print_uint`. -/
def printUint (v base : Nat) (width : Int) (pad : UInt8) : Except PrintTrap (List (List UInt8)) :=
  (if v = 0 then bufPut [] 0x30 else digitLoop base v []).bind fun buf =>
    (padLoop pad (width - buf.length).toNat buf).map fun buf => buf.reverse.flatMap putChar

/-- `print_int`. -/
def printInt (v : Int) (width : Int) (pad : UInt8) : Except PrintTrap (List (List UInt8)) :=
  if v < 0 then
    (printUint v.natAbs 10 (if 0 < width then width - 1 else 0) pad).map (putChar 0x2D ++ ·)
  else printUint v.toNat 10 width pad

/-! ## The format -/

/-- `*p`. -/
def deref : List UInt8 → UInt8
  | [] => 0
  | c :: _ => c

/-- A conversion: the flag, the width, `is_long`, and `*p` behind them. -/
structure PrintSpec where
  pad : UInt8
  width : Int
  isLong : Bool
  letter : UInt8

/-- `if (*p == '0') { pad = '0'; p++; }`. -/
def scanPad : List UInt8 → UInt8 × List UInt8
  | 0x30 :: p => (0x30, p)
  | p => (0x20, p)

/-- `*p >= '0' && *p <= '9'`. -/
abbrev IsDigit (c : UInt8) : Prop := 0x30 ≤ c ∧ c ≤ 0x39

/-- The loop over the digits of the width. -/
def scanWidth (width : Int) : List UInt8 → Int × List UInt8
  | [] => (width, [])
  | c :: p =>
      if IsDigit c then scanWidth (int32 (width * 10 + (c.toNat - 0x30))) p else (width, c :: p)

/-- `if (*p == 'l') { is_long = 1; p++; if (*p == 'l') p++; }`. -/
def scanLong : List UInt8 → Bool × List UInt8
  | 0x6C :: 0x6C :: p => (true, p)
  | 0x6C :: p => (true, p)
  | p => (false, p)

/-- What stands between `%` and the letter, and `p` at the letter. -/
def scanSpec (p : List UInt8) : PrintSpec × List UInt8 :=
  let flag := scanPad p
  let width := scanWidth 0 flag.2
  let long := scanLong width.2
  (⟨flag.1, width.1, long.1, deref long.2⟩, long.2)

/-- The value of an unsigned argument. -/
def unsignedArg (isLong : Bool) (arg : UInt64) : Nat :=
  if isLong then arg.toNat else arg.toNat % 2 ^ 32

/-- The value of a signed argument. -/
def signedArg (isLong : Bool) (arg : UInt64) : Int :=
  if isLong then Int.bmod arg.toNat (2 ^ 64) else int32 arg.toNat

/-- A conversion takes an argument. -/
def PrintSpec.takes (spec : PrintSpec) : Bool :=
  spec.letter ∈ [0x63, 0x73, 0x64, 0x69, 0x75, 0x78, 0x70]

/-- The cases of the `switch`, with the argument if one is taken. -/
def convert (out : Printer) (spec : PrintSpec) (arg : UInt64) :
    Except PrintTrap (List (List UInt8)) :=
  if spec.letter = 0x63 then .ok (putChar (UInt8.ofNat arg.toNat))
  else if spec.letter = 0x73 then
    -- the null pointer prints as a string of its own
    .ok (out.putString
      (if arg = 0 then [0x28, 0x6E, 0x75, 0x6C, 0x6C, 0x29] else (out.cstr arg).chars))
  else if spec.letter = 0x64 ∨ spec.letter = 0x69 then
    printInt (signedArg spec.isLong arg) spec.width spec.pad
  else if spec.letter = 0x75 then printUint (unsignedArg spec.isLong arg) 10 spec.width spec.pad
  else if spec.letter = 0x78 then printUint (unsignedArg spec.isLong arg) 16 spec.width spec.pad
  else if spec.letter = 0x70 then
    (printUint arg.toNat 16 16 0x30).map (out.putString [0x30, 0x78] ++ ·)
  else if spec.letter = 0x25 then .ok (putChar 0x25)
  else .ok (putChar 0x25 ++ if spec.letter = 0 then [] else putChar spec.letter)

theorem length_scanPad (p : List UInt8) : (scanPad p).2.length ≤ p.length := by
  unfold scanPad
  split
  · exact Nat.le_succ _
  · exact Nat.le_refl _

theorem length_scanWidth (p : List UInt8) (width : Int) :
    (scanWidth width p).2.length ≤ p.length := by
  induction p generalizing width with
  | nil => exact Nat.le_refl _
  | cons c p ih =>
      rw [scanWidth]
      split
      · exact Nat.le_succ_of_le (ih _)
      · exact Nat.le_refl _

theorem length_scanLong (p : List UInt8) : (scanLong p).2.length ≤ p.length := by
  unfold scanLong
  split
  · exact Nat.le_add_right _ 2
  · exact Nat.le_succ _
  · exact Nat.le_refl _

/-- The scan does not go back. -/
theorem length_scanSpec (p : List UInt8) : (scanSpec p).2.length ≤ p.length :=
  Nat.le_trans (length_scanLong _) (Nat.le_trans (length_scanWidth _ 0) (length_scanPad p))

/-- The loop over the format at `p`, with `taken` arguments taken: the writes. -/
def vprintfLoop (out : Printer) (args : Nat → UInt64) (taken : Nat) :
    List UInt8 → Except PrintTrap (List (List UInt8))
  | [] => .ok []
  | c :: p =>
      if c ≠ 0x25 then (vprintfLoop out args taken p).map (putChar c ++ ·)
      else
        (convert out (scanSpec p).1 (args taken)).bind fun written =>
          -- the `p++` of the loop, from the letter of the conversion
          if (scanSpec p).2 = [] then .error .outside
          else
            (vprintfLoop out args (taken + if (scanSpec p).1.takes then 1 else 0)
              (scanSpec p).2.tail).map (written ++ ·)
termination_by p => p.length
decreasing_by
  · exact Nat.lt_succ_self _
  · have short := length_scanSpec p
    rw [List.length_tail, List.length_cons]
    omega

/-- `serial_vprintf`. -/
def serialVprintf (cstr : UInt64 → CText) (fmt : CText) (args : Nat → UInt64) :
    Except PrintTrap (List (List UInt8)) :=
  vprintfLoop (serialPrinter cstr) args 0 fmt.chars

/-- `printf` of a user program. -/
def userPrintf (cstr : UInt64 → CText) (fmt : CText) (args : Nat → UInt64) :
    Except PrintTrap (List (List UInt8)) :=
  vprintfLoop (userPrinter cstr) args 0 fmt.chars

end Flyos
