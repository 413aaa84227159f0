import Mathlib.Data.List.Basic
import Mathlib.Logic.Function.Basic

/-!
# Reading a line

`readline` of `user/lib/stdio.c`, on the characters that `getchar` gives one after the other.  A
character is signed, so those from 128 on are negative.  A write outside of the `max` bytes of
the buffer fails.  `readline_edits` says that the line is what was typed, with what was erased
taken out.
-/

namespace Flyos

/-- Where `readline` does not return. -/
inductive LineStop
  | outside
  | waiting
  deriving DecidableEq

/-- The buffer, `len`, and what was echoed. -/
structure LineState where
  buf : Nat → UInt8
  len : Nat
  echo : List UInt8

/-- What `readline` returns, with the buffer, the echo and the characters left. -/
structure LineResult where
  len : Nat
  buf : Nat → UInt8
  echo : List UInt8
  rest : List UInt8

/-- The value of a `char`. -/
def charValue (c : UInt8) : Int := if c < 128 then c.toNat else c.toNat - 256

/-- `buf[i] = c`, in a buffer of `max` bytes. -/
def putLineByte (max : Int) (i : Nat) (c : UInt8) (buf : Nat → UInt8) : Except LineStop (Nat → UInt8) :=
  if (i : Int) < max then .ok (Function.update buf i c) else .error .outside

/-- The character ends the line. -/
def lineEnd (c : UInt8) : Bool := c == 13 || c == 10

/-- The character erases. -/
def erases (c : UInt8) : Bool := c == 8 || c == 127

/-- A character that does not end the line. -/
def lineChar (max : Int) (s : LineState) (c : UInt8) : Except LineStop LineState :=
  if erases c then
    if 0 < s.len then .ok { s with len := s.len - 1, echo := s.echo ++ [8, 32, 8] } else .ok s
  else if charValue c < 32 ∨ 126 < charValue c then .ok s
  else if max - 1 ≤ s.len then .ok s
  else do
    let buf ← putLineByte max s.len c s.buf
    .ok { buf := buf, len := s.len + 1, echo := s.echo ++ [c] }

/-- The loop of `readline`. -/
def readlineLoop (max : Int) : List UInt8 → LineState → Except LineStop LineResult
  | [], _ => .error .waiting
  | c :: input, s =>
      if lineEnd c then do
        let buf ← putLineByte max s.len 0 s.buf
        .ok ⟨s.len, buf, s.echo ++ [10], input⟩
      else do
        let s ← lineChar max s c
        readlineLoop max input s

/-- `readline`. -/
def readline (buf : Nat → UInt8) (max : Int) (input : List UInt8) : Except LineStop LineResult :=
  readlineLoop max input ⟨buf, 0, []⟩

/-! ## The line -/

/-- A character that can be printed. -/
def printable (c : UInt8) : Bool := 32 ≤ c && c ≤ 126

/-- What a character does to a line of at most `room` characters. -/
def editLine (room : Nat) (line : List UInt8) (c : UInt8) : List UInt8 :=
  if printable c then if line.length < room then line ++ [c] else line
  else if erases c then line.dropLast
  else line

/-- The line that is typed. -/
def typedLine (room : Nat) (input : List UInt8) : List UInt8 :=
  (input.takeWhile fun c => !lineEnd c).foldl (editLine room) []

/-- The buffer holds a line. -/
structure HoldsLine (max : Int) (before : Nat → UInt8) (s : LineState) (typed : List UInt8) :
    Prop where
  len : s.len = typed.length
  fits : (typed.length : Int) ≤ max - 1
  there : ∀ i (inside : i < typed.length), s.buf i = typed[i]
  behind : ∀ i : Nat, max ≤ i → s.buf i = before i
  printed : ∀ c ∈ typed, printable c = true

variable {max : Int} {before : Nat → UInt8} {s : LineState} {line : List UInt8} {c : UInt8}

/-- The characters that are not ignored by their value. -/
theorem printable_iff (c : UInt8) :
    printable c = true ↔ ¬ (charValue c < 32 ∨ 126 < charValue c) := by
  unfold printable charValue
  rw [Bool.and_eq_true, decide_eq_true_iff, decide_eq_true_iff, UInt8.le_iff_toNat_le,
    UInt8.le_iff_toNat_le]
  show 32 ≤ c.toNat ∧ c.toNat ≤ 126 ↔ _
  have byte := c.toNat_lt
  by_cases low : c < 128
  · rw [if_pos low]
    omega
  · have high : ¬ c.toNat < 128 := low
    rw [if_neg low]
    omega

/-- A character that erases cannot be printed. -/
theorem not_printable_of_erases (erase : erases c = true) : printable c = false := by
  unfold erases at erase
  rcases Bool.or_eq_true_iff.mp erase with back | delete
  · rw [eq_of_beq back]
    rfl
  · rw [eq_of_beq delete]
    rfl

/-- The last character erased, if there is one. -/
theorem HoldsLine.erase (holds : HoldsLine max before s line) (echo : List UInt8) :
    HoldsLine max before { s with len := s.len - 1, echo := echo } line.dropLast where
  len := by
    rw [List.length_dropLast]
    exact congrArg (· - 1) holds.len
  fits := by
    have fits := holds.fits
    rw [List.length_dropLast]
    omega
  there i inside := by
    rw [List.length_dropLast] at inside
    rw [List.getElem_dropLast]
    exact holds.there i (by omega)
  behind := holds.behind
  printed c mem := holds.printed c ((List.dropLast_sublist line).subset mem)

/-- A character appended. -/
theorem HoldsLine.append (holds : HoldsLine max before s line) (room : (s.len : Int) < max - 1)
    (print : printable c = true) (echo : List UInt8) :
    HoldsLine max before ⟨Function.update s.buf s.len c, s.len + 1, echo⟩ (line ++ [c]) where
  len := by
    rw [List.length_append, ← holds.len]
    rfl
  fits := by
    rw [List.length_append, ← holds.len, List.length_singleton]
    omega
  there i inside := by
    dsimp only
    rw [List.length_append, List.length_singleton] at inside
    have len := holds.len
    rw [Function.update_apply]
    by_cases last : i = s.len
    · rw [if_pos last, List.getElem_append_right (by omega), List.getElem_singleton]
    · rw [if_neg last, List.getElem_append_left (by omega)]
      exact holds.there i _
  behind i outside := by
    rw [← holds.behind i outside]
    exact Function.update_of_ne (by omega) ..
  printed d mem := by
    rcases List.mem_append.mp mem with mem | mem
    · exact holds.printed d mem
    · rw [List.mem_singleton.mp mem]
      exact print

/-- **One character**: the buffer holds the edited line. -/
theorem lineChar_spec (holds : HoldsLine max before s line) (c : UInt8) :
    ∃ t, lineChar max s c = .ok t ∧
      HoldsLine max before t (editLine (max - 1).toNat line c) := by
  have len := holds.len
  have fits := holds.fits
  unfold lineChar
  by_cases erase : erases c = true
  · have edited : editLine (max - 1).toNat line c = line.dropLast := by
      rw [editLine, not_printable_of_erases erase, if_neg Bool.false_ne_true, if_pos erase]
    rw [if_pos erase, edited]
    split
    · exact ⟨_, rfl, holds.erase _⟩
    · have empty : line = [] := List.eq_nil_of_length_eq_zero (by omega)
      rw [empty] at holds ⊢
      exact ⟨s, rfl, holds⟩
  rw [if_neg erase]
  by_cases print : printable c = true
  · rw [if_neg ((printable_iff c).mp print), editLine, if_pos print]
    by_cases full : max - 1 ≤ s.len
    · rw [if_pos full, if_neg (by omega)]
      exact ⟨s, rfl, holds⟩
    · have inside : (s.len : Int) < max := by omega
      rw [if_neg full, if_pos (by omega), putLineByte, if_pos inside]
      exact ⟨_, rfl, holds.append (by omega) print _⟩
  · have ignored := not_not.mp (mt (printable_iff c).mpr print)
    rw [if_pos ignored, editLine, if_neg print, if_neg erase]
    exact ⟨s, rfl, holds⟩

/-- **The loop**: the line is edited up to the first line end, and closed there. -/
theorem readlineLoop_spec {input : List UInt8} (holds : HoldsLine max before s line)
    (ends : ∃ c ∈ input, lineEnd c = true) :
    ∃ r t, readlineLoop max input s = .ok r ∧
      HoldsLine max before t
        ((input.takeWhile fun c => !lineEnd c).foldl (editLine (max - 1).toNat) line) ∧
      r.len = t.len ∧ r.buf = Function.update t.buf t.len 0 ∧
      r.rest = (input.dropWhile fun c => !lineEnd c).tail := by
  induction input generalizing s line with
  | nil =>
      obtain ⟨c, mem, -⟩ := ends
      cases mem
  | cons c input ih =>
      unfold readlineLoop
      by_cases last : lineEnd c = true
      · have inside : (s.len : Int) < max := by
          have fits := holds.fits
          have len := holds.len
          omega
        have stops : ¬ (!lineEnd c) = true := by rw [last]; exact Bool.false_ne_true
        rw [if_pos last, putLineByte, if_pos inside,
          List.takeWhile_cons_of_neg (p := fun c => !lineEnd c) stops,
          List.dropWhile_cons_of_neg (p := fun c => !lineEnd c) stops]
        exact ⟨_, s, rfl, holds, rfl, rfl, rfl⟩
      · have goes : (!lineEnd c) = true := by rw [(Bool.not_eq_true _).mp last]; rfl
        obtain ⟨t, one, after⟩ := lineChar_spec holds c
        have later : ∃ c ∈ input, lineEnd c = true := by
          obtain ⟨d, mem, ends⟩ := ends
          rcases List.mem_cons.mp mem with rfl | mem
          · exact absurd ends last
          · exact ⟨d, mem, ends⟩
        rw [if_neg last, one, List.takeWhile_cons_of_pos (p := fun c => !lineEnd c) goes,
          List.dropWhile_cons_of_pos (p := fun c => !lineEnd c) goes]
        exact ih after later

/-- **Line editing**: where the input has a line end, `readline` returns, having written only the
buffer, with the line that was typed, its length and the closing 0.  The loop invariant says that
the buffer holds the line typed so far, backspaces taken into account, and that there is room for
the 0 (`HoldsLine`); the function returns at the first line end, and leaves the rest of the
input. -/
theorem readline_edits (buf : Nat → UInt8) (max : Int) (input : List UInt8) (some : 1 ≤ max)
    (ends : ∃ c ∈ input, lineEnd c = true) :
    ∃ r, readline buf max input = .ok r ∧
      r.len = (typedLine (max - 1).toNat input).length ∧ (r.len : Int) ≤ max - 1 ∧
      (∀ i (inside : i < (typedLine (max - 1).toNat input).length),
        r.buf i = (typedLine (max - 1).toNat input)[i]) ∧
      (∀ c ∈ typedLine (max - 1).toNat input, 32 ≤ c ∧ c ≤ 126) ∧
      r.buf r.len = 0 ∧ (∀ i : Nat, max ≤ i → r.buf i = buf i) ∧
      r.rest = (input.dropWhile fun c => !lineEnd c).tail := by
  have start : HoldsLine max buf ⟨buf, 0, []⟩ [] :=
    ⟨rfl, by simpa using some, fun _ inside => absurd inside (Nat.not_lt_zero _), fun _ _ => rfl,
      fun _ mem => absurd mem List.not_mem_nil⟩
  obtain ⟨r, t, run, holds, len, closed, rest⟩ := readlineLoop_spec start ends
  have line := holds.len
  have fits := holds.fits
  refine ⟨r, run, len.trans line, ?_, fun i inside => ?_, fun c mem => ?_, ?_, fun i outside => ?_,
    rest⟩
  · rw [len, line]
    exact fits
  · rw [closed, Function.update_of_ne (by rw [line]; exact Nat.ne_of_lt inside)]
    exact holds.there i inside
  · have printed := holds.printed c mem
    unfold printable at printed
    rw [Bool.and_eq_true, decide_eq_true_iff, decide_eq_true_iff] at printed
    exact printed
  · rw [closed, len, Function.update_self]
  · rw [closed, Function.update_of_ne (by omega)]
    exact holds.behind i outside

/-- A character erased, one ignored and one too many, in a buffer of seven bytes. -/
def smallInput : List UInt8 := [97, 98, 120, 127, 9, 99, 100, 101, 102, 103, 13, 104]

/-- Six characters stay. -/
theorem readline_edits_small : ∃ r, readline (fun _ => 0xFF) 7 smallInput = .ok r ∧
    r.len = 6 ∧ r.buf 2 = 99 ∧ r.buf 5 = 102 ∧ r.buf 6 = 0 ∧ r.rest = [104] := by
  obtain ⟨r, run, len, -, there, -, closed, -, rest⟩ := readline_edits (fun _ => 0xFF) 7 smallInput
    (by decide) ⟨13, by decide, rfl⟩
  have line : typedLine ((7 : Int) - 1).toNat smallInput = [97, 98, 99, 100, 101, 102] := by decide
  simp only [line] at len there
  have six : r.len = 6 := len
  rw [six] at closed
  exact ⟨r, run, six, there 2 (by decide), there 5 (by decide), closed, rest⟩

end Flyos
