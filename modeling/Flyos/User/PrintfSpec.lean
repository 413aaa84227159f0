import Flyos.User.Printf
import Mathlib.Data.Nat.Digits.Lemmas

/-!
# When formatted printing stays in bounds

A format is a list of pieces: characters, conversions, and at its end possibly a conversion
that the end cuts off (`printPieces`).  `print_uint` fits its buffer as long as the width does
(`printUint_ok_iff`), for a 64-bit number has at most 20 digits.  So a call stays in bounds
exactly if its format is not cut off and the width of every number fits
(`printing_safe_iff`).
-/

namespace Flyos

/-! ## Numbers -/

variable {base v : Nat} {buf : List UInt8} {pad : UInt8} {width : Int}

/-- The digits of a number, the last one first. -/
def digitChars (base v : Nat) : List UInt8 := (Nat.digits base v).map digitChar

/-- What `print_uint` has in `buf` before it pads. -/
def numberChars (base v : Nat) : List UInt8 := if v = 0 then [0x30] else digitChars base v

/-- The loop over the digits, with room for them. -/
theorem digitLoop_eq (two : 2 ≤ base) (fits : buf.length + (Nat.digits base v).length ≤ 32) :
    digitLoop base v buf = .ok (buf ++ digitChars base v) := by
  fun_induction digitLoop base v buf with
  | case1 v buf more ih =>
      rw [Nat.digits_def' two more.2, List.length_cons] at fits
      have room : buf.length < printBufSize := by
        unfold printBufSize
        omega
      rw [bufPut, if_pos room]
      dsimp only [Except.bind]
      rw [ih _ (by rw [List.length_append, List.length_singleton]; omega), digitChars, digitChars,
        Nat.digits_def' two more.2, List.map_cons, List.append_assoc, List.singleton_append]
  | case2 v buf none =>
      obtain rfl : v = 0 := by omega
      rw [digitChars, Nat.digits_zero, List.map_nil, List.append_nil]

/-- A padded buffer, or one byte too many. -/
theorem padLoop_eq (n : Nat) (inside : buf.length ≤ 32) :
    padLoop pad n buf =
      if buf.length + n ≤ 32 then .ok (buf ++ List.replicate n pad) else .error .buffer := by
  induction n generalizing buf with
  | zero => rw [padLoop, Nat.add_zero, if_pos inside, List.replicate_zero, List.append_nil]
  | succ n ih =>
      rw [padLoop, bufPut]
      unfold printBufSize
      by_cases room : buf.length < 32
      · rw [if_pos room]
        dsimp only [Except.bind]
        rw [ih (by rw [List.length_append, List.length_singleton]; omega), List.length_append,
          List.length_singleton, List.replicate_succ, List.append_assoc, List.singleton_append,
          Nat.add_assoc, Nat.add_comm 1 n]
      · rw [if_neg room, if_neg (by omega)]
        rfl

/-- A 64-bit number has at most 20 digits. -/
theorem length_digits_le (small : v < 2 ^ 64) (ten : 10 ≤ base) :
    (Nat.digits base v).length ≤ 20 := by
  rw [Nat.digits_length_le_iff (by omega)]
  calc v < 2 ^ 64 := small
    _ ≤ 10 ^ 20 := by decide
    _ ≤ base ^ 20 := Nat.pow_le_pow_left ten 20

/-- What is in `buf` fits. -/
theorem length_numberChars_le (small : v < 2 ^ 64) (ten : 10 ≤ base) :
    (numberChars base v).length ≤ 20 := by
  unfold numberChars
  split
  · exact Nat.le_add_left 1 19
  · rw [digitChars, List.length_map]
    exact length_digits_le small ten

/-- **`print_uint`**: the padded number, or one byte too many. -/
theorem printUint_eq (small : v < 2 ^ 64) (ten : 10 ≤ base) :
    printUint v base width pad =
      if width ≤ 32 then
        .ok ((numberChars base v ++
          List.replicate (width - (numberChars base v).length).toNat pad).reverse.flatMap putChar)
      else .error .buffer := by
  have number : (if v = 0 then bufPut [] 0x30 else digitLoop base v []) =
      .ok (numberChars base v) := by
    unfold numberChars
    split
    · rfl
    · rw [digitLoop_eq (by omega), List.nil_append]
      have short := length_digits_le small ten
      rw [List.length_nil]
      omega
  have short := length_numberChars_le small ten
  rw [printUint, number]
  dsimp only [Except.bind]
  rw [padLoop_eq _ (by omega)]
  by_cases fits : width ≤ 32
  · rw [if_pos (by omega), if_pos fits]
    rfl
  · rw [if_neg (by omega), if_neg fits]
    rfl

/-- `print_uint` stays in its buffer exactly if the width fits. -/
theorem printUint_ok_iff (small : v < 2 ^ 64) (ten : 10 ≤ base) :
    (∃ written, printUint v base width pad = .ok written) ↔ width ≤ 32 := by
  rw [printUint_eq small ten]
  split
  · rename_i fits
    exact iff_of_true ⟨_, rfl⟩ fits
  · rename_i beyond
    exact iff_of_false (fun ⟨_, ok⟩ => by cases ok) beyond

/-- A mapped result. -/
theorem exists_map_ok {α β : Type} {e : Except PrintTrap α} {f : α → β} :
    (∃ b, e.map f = .ok b) ↔ ∃ a, e = .ok a := by
  cases e with
  | error trap => exact iff_of_false (fun ⟨_, ok⟩ => by cases ok) fun ⟨_, ok⟩ => by cases ok
  | ok a => exact iff_of_true ⟨f a, rfl⟩ ⟨a, rfl⟩

/-- `print_int` has a byte more for a negative number, whose sign is not in the buffer. -/
theorem printInt_ok_iff {v : Int} (low : -2 ^ 63 ≤ v) (high : v < 2 ^ 63) :
    (∃ written, printInt v width pad = .ok written) ↔ width ≤ 32 ∨ width ≤ 33 ∧ v < 0 := by
  unfold printInt
  split
  · rw [exists_map_ok, printUint_ok_iff (by omega) (Nat.le_refl 10)]
    split <;> omega
  · rw [printUint_ok_iff (by omega) (Nat.le_refl 10)]
    omega

/-! ## Conversions -/

/-- **A conversion fits**: the width of a number is at most 32, or 33 for a negative one. -/
def PrintSpec.Fits (spec : PrintSpec) (arg : UInt64) : Prop :=
  (spec.letter = 0x64 ∨ spec.letter = 0x69 →
    spec.width ≤ 32 ∨ spec.width ≤ 33 ∧ signedArg spec.isLong arg < 0) ∧
  (spec.letter = 0x75 ∨ spec.letter = 0x78 → spec.width ≤ 32)

theorem signedArg_range (isLong : Bool) (arg : UInt64) :
    -2 ^ 63 ≤ signedArg isLong arg ∧ signedArg isLong arg < 2 ^ 63 := by
  unfold signedArg
  split
  · exact ⟨Int.le_bmod (by decide), Int.bmod_lt (by decide)⟩
  · have range := int32_range arg.toNat
    omega

theorem unsignedArg_lt (isLong : Bool) (arg : UInt64) : unsignedArg isLong arg < 2 ^ 64 := by
  have small := arg.toNat_lt
  unfold unsignedArg
  split <;> omega

/-- **A conversion stays in bounds exactly if it fits.** -/
theorem convert_ok_iff (out : Printer) (spec : PrintSpec) (arg : UInt64) :
    (∃ written, convert out spec arg = .ok written) ↔ spec.Fits arg := by
  have fits_other : (spec.letter ≠ 0x64 ∧ spec.letter ≠ 0x69 ∧ spec.letter ≠ 0x75 ∧
      spec.letter ≠ 0x78) → spec.Fits arg := by
    refine fun other => ⟨fun signed => ?_, fun unsigned => ?_⟩
    · exact absurd signed (not_or.mpr ⟨other.1, other.2.1⟩)
    · exact absurd unsigned (not_or.mpr other.2.2)
  have always : ∀ {written : List (List UInt8)}, (spec.letter ≠ 0x64 ∧ spec.letter ≠ 0x69 ∧
      spec.letter ≠ 0x75 ∧ spec.letter ≠ 0x78) →
      ((∃ w, (.ok written : Except PrintTrap _) = .ok w) ↔ spec.Fits arg) :=
    fun other => iff_of_true ⟨_, rfl⟩ (fits_other other)
  have range := signedArg_range spec.isLong arg
  unfold convert
  by_cases c : spec.letter = 0x63
  · rw [if_pos c]
    exact always (by rw [c]; decide)
  rw [if_neg c]
  by_cases s : spec.letter = 0x73
  · rw [if_pos s]
    exact always (by rw [s]; decide)
  rw [if_neg s]
  by_cases signed : spec.letter = 0x64 ∨ spec.letter = 0x69
  · rw [if_pos signed, printInt_ok_iff range.1 range.2]
    refine ⟨fun fits => ⟨fun _ => fits, fun unsigned => ?_⟩, fun fits => fits.1 signed⟩
    rcases signed with signed | signed <;> rw [signed] at unsigned <;>
      exact absurd unsigned (by decide)
  rw [if_neg signed]
  have fits_iff : spec.letter = 0x75 ∨ spec.letter = 0x78 → (spec.width ≤ 32 ↔ spec.Fits arg) :=
    fun unsigned => ⟨fun fits => ⟨fun other => absurd other signed, fun _ => fits⟩,
      fun fits => fits.2 unsigned⟩
  by_cases u : spec.letter = 0x75
  · rw [if_pos u, printUint_ok_iff (unsignedArg_lt _ _) (by decide), fits_iff (.inl u)]
  rw [if_neg u]
  by_cases x : spec.letter = 0x78
  · rw [if_pos x, printUint_ok_iff (unsignedArg_lt _ _) (by decide), fits_iff (.inr x)]
  have other : spec.letter ≠ 0x64 ∧ spec.letter ≠ 0x69 ∧ spec.letter ≠ 0x75 ∧ spec.letter ≠ 0x78 :=
    ⟨fun d => signed (.inl d), fun i => signed (.inr i), u, x⟩
  rw [if_neg x]
  by_cases p : spec.letter = 0x70
  · rw [if_pos p, exists_map_ok, printUint_ok_iff arg.toNat_lt (by decide)]
    exact iff_of_true (by decide) (fits_other other)
  rw [if_neg p]
  split
  · exact always other
  · exact always other

/-! ## Formats -/

/-- A piece of a format: a character, a conversion, or one that the end of the format cuts off. -/
inductive PrintPiece
  | char (c : UInt8)
  | conv (spec : PrintSpec)
  | cut

/-- The pieces of a format. -/
def printPieces : List UInt8 → List PrintPiece
  | [] => []
  | c :: p =>
      if c ≠ 0x25 then .char c :: printPieces p
      else if (scanSpec p).2 = [] then [.cut]
      else .conv (scanSpec p).1 :: printPieces (scanSpec p).2.tail
termination_by p => p.length
decreasing_by
  · exact Nat.lt_succ_self _
  · have short := length_scanSpec p
    rw [List.length_tail, List.length_cons]
    omega

/-- The number of arguments a piece takes. -/
def PrintPiece.taken : PrintPiece → Nat
  | .conv spec => if spec.takes then 1 else 0
  | _ => 0

/-- A piece stays in bounds, with the next argument. -/
def PrintPiece.Safe (arg : UInt64) : PrintPiece → Prop
  | .char _ => True
  | .conv spec => spec.Fits arg
  | .cut => False

/-- **Every piece stays in bounds**: none is cut off, and the numbers fit. -/
def PiecesSafe (args : Nat → UInt64) (taken : Nat) (pieces : List PrintPiece) : Prop :=
  ∀ (i : Nat) (piece : PrintPiece), pieces[i]? = some piece →
    piece.Safe (args (taken + ((pieces.take i).map PrintPiece.taken).sum))

theorem piecesSafe_cons {args : Nat → UInt64} {taken : Nat} {piece : PrintPiece}
    {pieces : List PrintPiece} : PiecesSafe args taken (piece :: pieces) ↔
      piece.Safe (args taken) ∧ PiecesSafe args (taken + piece.taken) pieces := by
  constructor
  · intro safe
    refine ⟨safe 0 piece rfl, fun i other there => ?_⟩
    have here := safe (i + 1) other there
    rwa [List.take_succ_cons, List.map_cons, List.sum_cons, ← Nat.add_assoc] at here
  · rintro ⟨first, rest⟩ i other there
    cases i with
    | zero =>
        obtain rfl := Option.some.inj there
        exact first
    | succ i =>
        rw [List.take_succ_cons, List.map_cons, List.sum_cons, ← Nat.add_assoc]
        exact rest i other there

/-- A computation after one that gave a result. -/
theorem ok_bind {ε α β : Type} (a : α) (f : α → Except ε β) : Except.bind (.ok a) f = f a := rfl

/-- Of two computations in a row both give a result. -/
theorem exists_bind_ok {α β : Type} {e : Except PrintTrap α} {f : α → Except PrintTrap β}
    {P : Prop} (second : ∀ a, e = .ok a → ((∃ b, f a = .ok b) ↔ P)) :
    (∃ b, e.bind f = .ok b) ↔ (∃ a, e = .ok a) ∧ P := by
  cases e with
  | error trap =>
      refine iff_of_false (fun ⟨_, ok⟩ => by cases ok) ?_
      rintro ⟨⟨_, ok⟩, -⟩
      cases ok
  | ok a =>
      rw [ok_bind, second a rfl]
      exact ⟨fun holds => ⟨⟨a, rfl⟩, holds⟩, And.right⟩

/-- **The loop stays in bounds exactly if every piece does.** -/
theorem vprintfLoop_ok_iff (out : Printer) (args : Nat → UInt64) (taken : Nat) (p : List UInt8) :
    (∃ written, vprintfLoop out args taken p = .ok written) ↔
      PiecesSafe args taken (printPieces p) := by
  fun_induction printPieces p generalizing taken with
  | case1 =>
      rw [vprintfLoop]
      exact iff_of_true ⟨_, rfl⟩ fun i piece none => by cases none
  | case2 c p plain ih =>
      rw [vprintfLoop, if_pos plain, exists_map_ok, ih, piecesSafe_cons]
      exact ⟨fun rest => ⟨trivial, rest⟩, And.right⟩
  | case3 c p percent last =>
      rw [vprintfLoop, if_neg percent, piecesSafe_cons]
      refine iff_of_false (fun result => ?_) fun safe => safe.1
      have both := (exists_bind_ok (P := False) fun written _ => ?_).mp result
      · exact both.2
      · rw [if_pos last]
        refine iff_of_false ?_ id
        rintro ⟨_, ⟨⟩⟩
  | case4 c p percent more ih =>
      rw [vprintfLoop, if_neg percent, piecesSafe_cons]
      rw [exists_bind_ok fun written _ => by rw [if_neg more, exists_map_ok, ih],
        convert_ok_iff]
      rfl

/-- **When formatted printing stays in bounds**: `serial_vprintf` and `printf` read the format up
to its final 0 only, and `print_uint` writes inside its buffer only, exactly if the format does
not end within a conversion and the width of every number is at most 32, or 33 where it is
negative.  The two printers are one loop over the pieces of the format, with different ways to
put a character.  A format that ends within a conversion takes the loop past its 0, and a number
is padded to its width in an array of 32 bytes, a minus sign taken off before. -/
theorem printing_safe_iff (cstr : UInt64 → CText) (fmt : CText) (args : Nat → UInt64) :
    ((∃ written, serialVprintf cstr fmt args = .ok written) ↔
      PiecesSafe args 0 (printPieces fmt.chars)) ∧
    ((∃ written, userPrintf cstr fmt args = .ok written) ↔
      PiecesSafe args 0 (printPieces fmt.chars)) :=
  ⟨vprintfLoop_ok_iff _ args 0 fmt.chars, vprintfLoop_ok_iff _ args 0 fmt.chars⟩

/-- The string `%`. -/
def percentFormat : CText := ⟨[0x25], by decide⟩

/-- The string `%33u`. -/
def wideFormat : CText := ⟨[0x25, 0x33, 0x33, 0x75], by decide⟩

/-- **A format that ends with `%` is read behind its end**, and a width of 33 overruns the buffer. -/
theorem printing_not_safe :
    (¬ ∀ cstr fmt args, ∃ written, serialVprintf cstr fmt args = .ok written) ∧
    (¬ ∀ cstr fmt args, ∃ written, userPrintf cstr fmt args = .ok written) ∧
    ∃ cstr args, serialVprintf cstr percentFormat args = .error .outside ∧
      userPrintf cstr percentFormat args = .error .outside ∧
      serialVprintf cstr wideFormat args = .error .buffer ∧
      userPrintf cstr wideFormat args = .error .buffer := by
  have cut : ∀ out args, vprintfLoop out args 0 percentFormat.chars = .error .outside := by
    intro out args
    rw [percentFormat, vprintfLoop]
    rfl
  have wide : ∀ out args, vprintfLoop out args 0 wideFormat.chars = .error .buffer := by
    intro out args
    have fails : convert out ⟨0x20, 33, false, 0x75⟩ (args 0) = .error .buffer := by
      show printUint (unsignedArg false (args 0)) 10 33 0x20 = _
      rw [printUint_eq (unsignedArg_lt _ _) (Nat.le_refl 10), if_neg (by decide)]
    rw [wideFormat, vprintfLoop, if_neg (by decide),
      show (scanSpec [0x33, 0x33, 0x75]).1 = ⟨0x20, 33, false, 0x75⟩ from rfl, fails]
    rfl
  refine ⟨fun all => ?_, fun all => ?_, fun _ => ⟨[], by decide⟩, fun _ => 0, cut _ _, cut _ _,
    wide _ _, wide _ _⟩
  · obtain ⟨written, ok⟩ := all (fun _ => ⟨[], by decide⟩) percentFormat fun _ => 0
    cases (cut _ _).symm.trans ok
  · obtain ⟨written, ok⟩ := all (fun _ => ⟨[], by decide⟩) percentFormat fun _ => 0
    cases (cut _ _).symm.trans ok

end Flyos
