import Flyos.User.PrintfSpec
import Mathlib.Data.List.TakeWhile

/-!
# The calculator

`user/calc.c`: one round of `_start`, from an input line to what it prints.  A line is what
`readline` leaves in `line[64]`, at most 63 printable characters.

An `idiv` faults where the divisor is 0 or the quotient does not fit, and the kernel's
`exception_handler` stops the machine; that is a trap here.  The operands are computed with
wrapping, so the fault is met by more lines than the one it is written in
(`calcRight_iff`).
-/

namespace Flyos

/-- An input line. -/
structure CalcLine where
  chars : List UInt8
  short : chars.length ≤ 63
  printable : ∀ c ∈ chars, 32 ≤ c ∧ c ≤ 126

/-- Why a round gives no result: a division faults, or the printing goes out of bounds. -/
inductive CalcTrap
  | divide
  | print (trap : PrintTrap)
  deriving DecidableEq

/-- What a round does: run the shell, or write and go on. -/
inductive CalcRound
  | quit
  | wrote (written : List (List UInt8))

/-! ## The program -/

/-- The loop of `atoi_`. -/
def atoiLoop (n : Int) : List UInt8 → Int
  | [] => n
  | c :: s => if IsDigit c then atoiLoop (int32 (n * 10 + (c.toNat - 0x30))) s else n

/-- `atoi_`: nothing where `ok` is 0. -/
def atoi (s : List UInt8) : Option Int :=
  let neg := deref s = 0x2D
  let s := if neg then s.tail else s
  if IsDigit (deref s) then
    let n := atoiLoop 0 s
    some (if neg then int32 (-n) else n)
  else none

/-- The split of a line: `a_str`, the operator and `b_str`, or nothing where there is no
operator. -/
def calcSplit (line : List UInt8) : Option (List UInt8 × UInt8 × List UInt8) :=
  let p := line.dropWhile (· = 0x20)
  let aStr := p.takeWhile (· ≠ 0x20)
  let p := ((p.dropWhile (· ≠ 0x20)).tail).dropWhile (· = 0x20)
  match p with
  | [] => none
  | op :: p => some (aStr, op, p.dropWhile (· = 0x20))

/-- `a / b`, an `idiv`. -/
def idiv (a b : Int) : Except CalcTrap Int :=
  if b = 0 ∨ a = -2 ^ 31 ∧ b = -1 then .error .divide else .ok (a.tdiv b)

/-- The characters of a message. -/
def ascii (s : String) : List UInt8 := s.toList.map fun c => UInt8.ofNat c.toNat

/-- An `int` as an argument. -/
def intArg (x : Int) : UInt64 := UInt64.ofNat (x % 2 ^ 32).toNat

/-- `"%d %c %d = %d\n"`. -/
def resultFormat : CText :=
  ⟨[0x25, 0x64, 0x20, 0x25, 0x63, 0x20, 0x25, 0x64, 0x20, 0x3D, 0x20, 0x25, 0x64, 0x0A], by decide⟩

/-- The arguments of the `printf`. -/
def resultArgs (a : Int) (op : UInt8) (b r : Int) : Nat → UInt64
  | 0 => intArg a
  | 1 => UInt64.ofNat op.toNat
  | 2 => intArg b
  | _ => intArg r

/-- The `switch` over the operator: the result, or a message. -/
def calcOp (op : UInt8) (a b : Int) : Except CalcTrap (Int ⊕ List UInt8) :=
  if op = 0x2B then .ok (.inl (int32 (a + b)))
  else if op = 0x2D then .ok (.inl (int32 (a - b)))
  else if op = 0x2A then .ok (.inl (int32 (a * b)))
  else if op = 0x2F then
    if b = 0 then .ok (.inr (ascii "divide by zero\n")) else (idiv a b).map .inl
  else .ok (.inr (ascii "unknown op\n"))

/-- What is printed for the result, or the message. -/
def calcPrint (cstr : UInt64 → CText) (a : Int) (op : UInt8) (b : Int) :
    Int ⊕ List UInt8 → Except CalcTrap CalcRound
  | .inr message => .ok (.wrote [message])
  | .inl r => ((userPrintf cstr resultFormat (resultArgs a op b r)).mapError .print).map .wrote

/-- One round of `_start`. -/
def calcLine (cstr : UInt64 → CText) (line : List UInt8) : Except CalcTrap CalcRound :=
  if line = [] then .ok (.wrote [])
  else if line = [0x71] then .ok .quit
  else
    match calcSplit line with
    | none => .ok (.wrote [ascii "syntax error\n"])
    | some (aStr, op, bStr) =>
        match atoi aStr, atoi bStr with
        | some a, some b => (calcOp op a b).bind (calcPrint cstr a op b)
        | _, _ => .ok (.wrote [ascii "invalid number\n"])

/-! ## What a line asks -/

/-- The value of the digits a string starts with. -/
def digitsValue (s : List UInt8) : Int :=
  (s.takeWhile fun c => IsDigit c).foldl (fun n c => n * 10 + (c.toNat - 0x30)) 0

/-- The number a string starts with. -/
def numberOf (s : List UInt8) : Option Int :=
  if deref s = 0x2D then
    if IsDigit (deref s.tail) then some (-digitsValue s.tail) else none
  else if IsDigit (deref s) then some (digitsValue s) else none

/-- **What a line asks**: behind any number of spaces an operand without spaces, then spaces, the
operator, any number of spaces, and the other operand. -/
def Asks (line : List UInt8) (a : Int) (op : UInt8) (b : Int) : Prop :=
  ∃ i j k aStr bStr, line = List.replicate i 0x20 ++ (aStr ++ 0x20 :: (List.replicate j 0x20 ++
      op :: (List.replicate k 0x20 ++ bStr))) ∧
    0x20 ∉ aStr ∧ op ≠ 0x20 ∧ numberOf aStr = some a ∧ numberOf bStr = some b

/-- The result in the integers. -/
def Results (a : Int) (op : UInt8) (b r : Int) : Prop :=
  op = 0x2B ∧ r = a + b ∨ op = 0x2D ∧ r = a - b ∨ op = 0x2A ∧ r = a * b ∨
    op = 0x2F ∧ b ≠ 0 ∧ r = a.tdiv b

/-- A number in decimal. -/
def decimal (x : Int) : List UInt8 :=
  (if x < 0 then [0x2D] else []) ++ (numberChars 10 x.natAbs).reverse

/-- The line that is printed for a result. -/
def resultLine (a : Int) (op : UInt8) (b r : Int) : List UInt8 :=
  decimal a ++ [0x20, op, 0x20] ++ decimal b ++ [0x20, 0x3D, 0x20] ++ decimal r ++ [0x0A]

/-- **The calculator is right** about a line: it does not fault, and where the operands and the
result fit in 32 bits, it prints the result. -/
def CalcRight (cstr : UInt64 → CText) (line : List UInt8) : Prop :=
  (∃ round, calcLine cstr line = .ok round) ∧
    ∀ a op b r, Asks line a op b → Results a op b r → IsInt a → IsInt b → IsInt r →
      ∃ written, calcLine cstr line = .ok (.wrote written) ∧
        written.flatten = resultLine a op b r

/-- A line asks for a division that faults: as 32-bit numbers, the smallest one by -1. -/
def DividesOver (line : List UInt8) : Prop :=
  ∃ a b, Asks line a 0x2F b ∧ int32 a = -2 ^ 31 ∧ int32 b = -1

/-! ## The numbers -/

/-- The loop wraps at the end what the digits say. -/
theorem atoiLoop_eq (s : List UInt8) (n : Int) : atoiLoop (int32 n) s =
    int32 ((s.takeWhile fun c => IsDigit c).foldl (fun n c => n * 10 + (c.toNat - 0x30)) n) := by
  induction s generalizing n with
  | nil => rfl
  | cons c s ih =>
      rw [atoiLoop, List.takeWhile_cons]
      by_cases digit : IsDigit c
      · rw [if_pos digit, if_pos (decide_eq_true digit), List.foldl_cons, int32_digit, ih]
      · rw [if_neg digit, if_neg (by simpa using digit)]
        rfl

/-- **`atoi_` gives the number of a string, wrapped.** -/
theorem atoi_eq (s : List UInt8) : atoi s = (numberOf s).map int32 := by
  have loop : ∀ t : List UInt8, atoiLoop 0 t = int32 (digitsValue t) := fun t => atoiLoop_eq t 0
  unfold atoi numberOf
  dsimp only
  by_cases neg : deref s = 0x2D
  · rw [if_pos neg, if_pos neg, if_pos neg]
    split
    · rw [loop, int32_neg]
      rfl
    · rfl
  · rw [if_neg neg, if_neg neg, if_neg neg]
    split
    · rw [loop]
      rfl
    · rfl

/-- A string with a number is not empty and does not start with a space. -/
theorem deref_of_number {s : List UInt8} {x : Int} (number : numberOf s = some x) :
    ∃ c t, s = c :: t ∧ c ≠ 0x20 := by
  cases s with
  | nil => cases number
  | cons c t =>
      refine ⟨c, t, rfl, ?_⟩
      rintro rfl
      have none : numberOf (0x20 :: t) = none := rfl
      rw [none] at number
      cases number

/-! ## The split -/

/-- Spaces in front are skipped. -/
theorem dropWhile_spaces (k : Nat) {p : List UInt8} (stop : p = [] ∨ ∃ c t, p = c :: t ∧ c ≠ 0x20) :
    (List.replicate k 0x20 ++ p).dropWhile (· = (0x20 : UInt8)) = p := by
  induction k with
  | zero =>
      rcases stop with rfl | ⟨c, t, rfl, other⟩
      · rfl
      · rw [List.replicate_zero, List.nil_append, List.dropWhile_cons_of_neg (by simpa using other)]
  | succ k ih =>
      rw [List.replicate_succ, List.cons_append, List.dropWhile_cons_of_pos (by decide), ih]

/-- A list is spaces and then none. -/
theorem spaces_dropWhile (p : List UInt8) : ∃ k,
    p = List.replicate k 0x20 ++ p.dropWhile (· = (0x20 : UInt8)) := by
  induction p with
  | nil => exact ⟨0, rfl⟩
  | cons c p ih =>
      by_cases space : c = 0x20
      · obtain ⟨k, eq⟩ := ih
        refine ⟨k + 1, ?_⟩
        rw [List.dropWhile_cons_of_pos (by simpa using space), List.replicate_succ, List.cons_append,
          ← eq, space]
      · refine ⟨0, ?_⟩
        rw [List.dropWhile_cons_of_neg (by simpa using space)]
        rfl

/-- What is left behind spaces does not start with one. -/
theorem dropWhile_head_ne {p : List UInt8} {c : UInt8} {t : List UInt8}
    (eq : p.dropWhile (· = (0x20 : UInt8)) = c :: t) : c ≠ 0x20 := by
  have stops := List.head?_dropWhile_not (fun x : UInt8 => decide (x = 0x20)) p
  rw [eq] at stops
  simpa using stops

/-- **The split of a line that asks something.** -/
theorem calcSplit_of_spaces {i j k : Nat} {aStr bStr : List UInt8} {op : UInt8} {a b : Int}
    (noSpace : 0x20 ∉ aStr) (operator : op ≠ 0x20) (first : numberOf aStr = some a)
    (second : numberOf bStr = some b) :
    calcSplit (List.replicate i 0x20 ++ (aStr ++ 0x20 :: (List.replicate j 0x20 ++
      op :: (List.replicate k 0x20 ++ bStr)))) = some (aStr, op, bStr) := by
  obtain ⟨c, t, rfl, other⟩ := deref_of_number first
  have plain : ∀ x ∈ c :: t, decide (x ≠ 0x20) = true := by
    intro x mem
    rw [decide_eq_true_iff]
    rintro rfl
    exact noSpace mem
  have lead := dropWhile_spaces i (p := c :: t ++ 0x20 :: (List.replicate j 0x20 ++
    op :: (List.replicate k 0x20 ++ bStr))) (.inr ⟨c, _, rfl, other⟩)
  rw [calcSplit, lead, List.takeWhile_append_of_pos plain,
    List.dropWhile_append_of_pos plain, List.takeWhile_cons_of_neg (by decide),
    List.dropWhile_cons_of_neg (by decide), List.append_nil, List.tail_cons,
    dropWhile_spaces j (.inr ⟨op, _, rfl, operator⟩)]
  show some (c :: t, op, (List.replicate k 0x20 ++ bStr).dropWhile (· = 0x20)) = _
  rw [dropWhile_spaces k (.inr (deref_of_number second))]

/-- **A line that splits into two numbers asks something.** -/
theorem asks_of_calcSplit {line aStr bStr : List UInt8} {op : UInt8} {a b : Int}
    (split : calcSplit line = some (aStr, op, bStr)) (first : numberOf aStr = some a)
    (second : numberOf bStr = some b) : Asks line a op b := by
  unfold calcSplit at split
  dsimp only at split
  obtain ⟨i, lead⟩ := spaces_dropWhile line
  generalize line.dropWhile (fun x => decide (x = 0x20)) = p at split lead
  obtain ⟨j, middle⟩ := spaces_dropWhile (p.dropWhile fun x => decide (x ≠ 0x20)).tail
  cases rest : (p.dropWhile fun x => decide (x ≠ 0x20)).tail.dropWhile fun x => decide (x = 0x20) with
  | nil =>
      rw [rest] at split
      cases split
  | cons op' q =>
      rw [rest] at split middle
      obtain ⟨rfl, rfl, rfl⟩ : p.takeWhile (fun x => decide (x ≠ 0x20)) = aStr ∧ op' = op ∧
          q.dropWhile (fun x => decide (x = 0x20)) = bStr := by
        simpa using split
      obtain ⟨k, last⟩ := spaces_dropWhile q
      have whole := List.takeWhile_append_dropWhile (p := fun x => decide (x ≠ 0x20)) (l := p)
      have stops := List.head?_dropWhile_not (fun x : UInt8 => decide (x ≠ 0x20)) p
      cases behind : p.dropWhile fun x => decide (x ≠ 0x20) with
      | nil =>
          rw [behind, List.tail_nil, List.dropWhile_nil] at rest
          cases rest
      | cons space tail =>
          rw [behind] at stops whole middle
          obtain rfl : space = 0x20 := by simpa using stops
          refine ⟨i, j, k, _, _, ?_, ?_, dropWhile_head_ne rest, first, second⟩
          · rw [← last, ← middle, List.tail_cons, whole]
            exact lead
          · intro mem
            have plain := List.mem_takeWhile_imp mem
            simp at plain

/-! ## The printing -/

/-- The writes of single characters, put together. -/
theorem flatten_flatMap_putChar (l : List UInt8) : (l.flatMap putChar).flatten = l := by
  induction l with
  | nil => rfl
  | cons c l ih => rw [List.flatMap_cons, List.flatten_append, ih, putChar]; rfl

/-- A number printed without a width. -/
theorem printInt_eq {x : Int} (low : -2 ^ 63 ≤ x) (high : x < 2 ^ 63) :
    ∃ written, printInt x 0 0x20 = .ok written ∧ written.flatten = decimal x := by
  have unsigned : ∀ v : Nat, v < 2 ^ 64 → printUint v 10 0 0x20 =
      .ok ((numberChars 10 v).reverse.flatMap putChar) := by
    intro v small
    have none : (0 - ((numberChars 10 v).length : Int)).toNat = 0 := by omega
    rw [printUint_eq small (Nat.le_refl 10), if_pos (by decide), none, List.replicate_zero,
      List.append_nil]
  unfold printInt decimal
  by_cases neg : x < 0
  · rw [if_pos neg, if_pos neg, if_neg (Int.lt_irrefl 0), unsigned _ (by omega)]
    refine ⟨_, rfl, ?_⟩
    rw [List.flatten_append, flatten_flatMap_putChar]
    rfl
  · rw [if_neg neg, if_neg neg, unsigned _ (by omega), show x.toNat = x.natAbs by omega]
    exact ⟨_, rfl, flatten_flatMap_putChar _⟩

/-- An `int` is read back. -/
theorem signedArg_intArg {x : Int} (fits : IsInt x) : signedArg false (intArg x) = x := by
  obtain ⟨low, high⟩ := fits
  have positive : 0 ≤ x % 2 ^ 32 := Int.emod_nonneg x (by decide)
  have small : x % 2 ^ 32 < 2 ^ 32 := Int.emod_lt_of_pos x (by decide)
  have value : ((intArg x).toNat : Int) = x % 2 ^ 32 := by
    rw [intArg, UInt64.toNat_ofNat', Nat.mod_eq_of_lt (by omega)]
    omega
  have wraps : int32 (x % 2 ^ 32) = int32 x := Int.emod_bmod (n := 2 ^ 32) x
  rw [signedArg, if_neg Bool.false_ne_true, value, wraps]
  exact int32_of_range low high

variable {out : Printer} {args : Nat → UInt64} {taken : Nat} {p : List UInt8}
  {written rest : List (List UInt8)}

/-- A character of the format. -/
theorem vprintfLoop_char {c : UInt8} (plain : c ≠ 0x25)
    (behind : vprintfLoop out args taken p = .ok rest) :
    vprintfLoop out args taken (c :: p) = .ok (putChar c ++ rest) := by
  rw [vprintfLoop, if_pos plain, behind]
  rfl

/-- The letter stands right behind the `%`. -/
theorem scanSpec_letter {c : UInt8} (letter : 0x63 = c ∨ 0x64 = c) (p : List UInt8) :
    scanSpec (c :: p) = (⟨0x20, 0, false, c⟩, c :: p) := by
  rcases letter with rfl | rfl
  · have width : scanWidth 0 (0x63 :: p) = (0, 0x63 :: p) := by rw [scanWidth, if_neg (by decide)]
    rw [scanSpec, show scanPad (0x63 :: p) = (0x20, 0x63 :: p) from rfl, width]
    rfl
  · have width : scanWidth 0 (0x64 :: p) = (0, 0x64 :: p) := by rw [scanWidth, if_neg (by decide)]
    rw [scanSpec, show scanPad (0x64 :: p) = (0x20, 0x64 :: p) from rfl, width]
    rfl

/-- `%c` and `%d`. -/
theorem vprintfLoop_letter {c : UInt8} (letter : 0x63 = c ∨ 0x64 = c)
    (here : convert out ⟨0x20, 0, false, c⟩ (args taken) = .ok written)
    (behind : vprintfLoop out args (taken + 1) p = .ok rest) :
    vprintfLoop out args taken (0x25 :: c :: p) = .ok (written ++ rest) := by
  have takes : (⟨0x20, 0, false, c⟩ : PrintSpec).takes = true := by
    rcases letter with rfl | rfl <;> decide
  rw [vprintfLoop, if_neg (by decide), scanSpec_letter letter, here]
  simp only [Except.bind, reduceCtorEq, if_false, takes, if_true, List.tail_cons, behind]
  rfl

/-- `%d`. -/
theorem vprintfLoop_d (here : printInt (signedArg false (args taken)) 0 0x20 = .ok written)
    (behind : vprintfLoop out args (taken + 1) p = .ok rest) :
    vprintfLoop out args taken (0x25 :: 0x64 :: p) = .ok (written ++ rest) := by
  refine vprintfLoop_letter (.inr rfl) ?_ behind
  rw [convert, if_neg (by decide), if_neg (by decide), if_pos (.inl rfl), here]

/-- `%c`. -/
theorem vprintfLoop_c {c : UInt8} (here : UInt8.ofNat (args taken).toNat = c)
    (behind : vprintfLoop out args (taken + 1) p = .ok rest) :
    vprintfLoop out args taken (0x25 :: 0x63 :: p) = .ok (putChar c ++ rest) := by
  refine vprintfLoop_letter (.inl rfl) ?_ behind
  rw [convert, if_pos rfl, here]

/-- **The `printf` of a result prints it.** -/
theorem userPrintf_result (cstr : UInt64 → CText) {a b r : Int} (op : UInt8) (first : IsInt a)
    (second : IsInt b) (result : IsInt r) :
    ∃ written, userPrintf cstr resultFormat (resultArgs a op b r) = .ok written ∧
      written.flatten = resultLine a op b r := by
  have print : ∀ x : Int, IsInt x → ∃ written,
      printInt (signedArg false (intArg x)) 0 0x20 = .ok written ∧ written.flatten = decimal x := by
    intro x fits
    rw [signedArg_intArg fits]
    unfold IsInt at fits
    exact printInt_eq (by omega) (by omega)
  obtain ⟨as, printA, flatA⟩ := print a first
  obtain ⟨bs, printB, flatB⟩ := print b second
  obtain ⟨rs, printR, flatR⟩ := print r result
  have char : UInt8.ofNat (UInt64.ofNat op.toNat).toNat = op := by
    have small := op.toNat_lt
    rw [UInt64.toNat_ofNat', Nat.mod_eq_of_lt (by omega), UInt8.ofNat_toNat]
  have end_ : vprintfLoop (userPrinter cstr) (resultArgs a op b r) 4 [] = .ok [] := by
    rw [vprintfLoop]
  have equals : vprintfLoop (userPrinter cstr) (resultArgs a op b r) 3
      [0x20, 0x3D, 0x20, 0x25, 0x64, 0x0A] = .ok _ :=
    vprintfLoop_char (by decide) (vprintfLoop_char (by decide) (vprintfLoop_char (by decide)
      (vprintfLoop_d printR (vprintfLoop_char (by decide) end_))))
  refine ⟨_, vprintfLoop_d printA (vprintfLoop_char (by decide) (vprintfLoop_c char
    (vprintfLoop_char (by decide) (vprintfLoop_d printB equals)))), ?_⟩
  simp only [List.flatten_append, flatA, flatB, flatR, putChar, resultLine]
  simp

/-! ## The round -/

/-- A quotient that does not overflow is an `int`. -/
theorem isInt_tdiv {a b : Int} (first : IsInt a) (noOverflow : ¬ (a = -2 ^ 31 ∧ b = -1)) :
    IsInt (a.tdiv b) := by
  obtain ⟨low, high⟩ := first
  have small := Int.natAbs_tdiv_le_natAbs a b
  have parts := Int.mul_tdiv_add_tmod a b
  have sign : 2 ^ 31 ≤ a.tdiv b → a = -2 ^ 31 ∧ b = -1 := by
    intro large
    have top : a.tdiv b = 2 ^ 31 := by omega
    obtain rfl : a = -2 ^ 31 := by omega
    rw [top] at parts
    have nonpos : 0 ≤ (2 ^ 31 : Int).tmod b := Int.tmod_nonneg b (by decide)
    rw [Int.neg_tmod] at parts
    have nonzero : b ≠ 0 := by
      rintro rfl
      rw [Int.tdiv_zero] at top
      exact absurd top (by decide)
    refine ⟨rfl, ?_⟩
    rcases Int.lt_or_gt_of_ne nonzero with negative | positive
    · omega
    · have below := Int.tmod_lt_of_pos (2 ^ 31) positive
      omega
  constructor
  · omega
  · by_contra large
    exact noOverflow (sign (by omega))

/-- **The `switch`**: it faults, or there is a message, or the result is an `int`. -/
theorem calcOp_cases (op : UInt8) {a b : Int} (first : IsInt a) :
    (op = 0x2F ∧ a = -2 ^ 31 ∧ b = -1 ∧ calcOp op a b = .error .divide) ∨
      (¬ (op = 0x2F ∧ a = -2 ^ 31 ∧ b = -1) ∧
        ((∃ message, calcOp op a b = .ok (.inr message)) ∨
          ∃ r, calcOp op a b = .ok (.inl r) ∧ IsInt r)) := by
  unfold calcOp
  by_cases add : op = 0x2B
  · rw [if_pos add, add]
    exact .inr ⟨fun overflows => absurd overflows.1 (by decide), .inr ⟨_, rfl, int32_range _⟩⟩
  rw [if_neg add]
  by_cases sub : op = 0x2D
  · rw [if_pos sub, sub]
    exact .inr ⟨fun overflows => absurd overflows.1 (by decide), .inr ⟨_, rfl, int32_range _⟩⟩
  rw [if_neg sub]
  by_cases mul : op = 0x2A
  · rw [if_pos mul, mul]
    exact .inr ⟨fun overflows => absurd overflows.1 (by decide), .inr ⟨_, rfl, int32_range _⟩⟩
  rw [if_neg mul]
  by_cases div : op = 0x2F
  · rw [if_pos div, div]
    by_cases zero : b = 0
    · rw [if_pos zero]
      exact .inr ⟨fun overflows => absurd (zero.symm.trans overflows.2.2) (by decide), .inl ⟨_, rfl⟩⟩
    · rw [if_neg zero, idiv]
      by_cases overflows : a = -2 ^ 31 ∧ b = -1
      · rw [if_pos (.inr overflows)]
        exact .inl ⟨rfl, overflows.1, overflows.2, rfl⟩
      · rw [if_neg (not_or.mpr ⟨zero, overflows⟩)]
        exact .inr ⟨fun all => overflows all.2, .inr ⟨_, rfl, isInt_tdiv first overflows⟩⟩
  · rw [if_neg div]
    exact .inr ⟨fun overflows => div overflows.1, .inl ⟨_, rfl⟩⟩

/-- What is printed for a result. -/
theorem calcPrint_result {cstr : UInt64 → CText} {a b r : Int} {op : UInt8}
    {written : List (List UInt8)}
    (printed : userPrintf cstr resultFormat (resultArgs a op b r) = .ok written) :
    (Except.ok (.inl r) : Except CalcTrap (Int ⊕ List UInt8)).bind (calcPrint cstr a op b) =
      .ok (.wrote written) := by
  rw [ok_bind, calcPrint, printed]
  rfl

/-- The round of a line that asks something. -/
theorem calcLine_of_asks (cstr : UInt64 → CText) {line : List UInt8} {a b : Int} {op : UInt8}
    (asks : Asks line a op b) : calcLine cstr line =
      (calcOp op (int32 a) (int32 b)).bind (calcPrint cstr (int32 a) op (int32 b)) := by
  obtain ⟨i, j, k, aStr, bStr, rfl, noSpace, operator, first, second⟩ := asks
  obtain ⟨c, t, rfl, -⟩ := deref_of_number first
  have long : ∀ short : List UInt8, short.length ≤ 1 → List.replicate i 0x20 ++ (c :: t ++ 0x20 ::
      (List.replicate j 0x20 ++ op :: (List.replicate k 0x20 ++ bStr))) ≠ short := by
    rintro short small rfl
    simp only [List.length_append, List.length_cons] at small
    omega
  rw [calcLine, if_neg (long [] (by decide)), if_neg (long [0x71] (by decide)),
    calcSplit_of_spaces noSpace operator first second]
  dsimp only
  rw [atoi_eq, atoi_eq, first, second]
  rfl

/-- **When a round faults**: exactly if the line asks for the division that does. -/
theorem calcLine_ok_iff (cstr : UInt64 → CText) (line : List UInt8) :
    (∃ round, calcLine cstr line = .ok round) ↔ ¬ DividesOver line := by
  constructor
  · rintro ⟨round, ok⟩ ⟨a, b, asks, low, minus⟩
    rw [calcLine_of_asks cstr asks] at ok
    rcases calcOp_cases 0x2F (int32_range a) (b := int32 b) with ⟨-, -, -, fault⟩ | ⟨fine, -⟩
    · rw [fault] at ok
      cases ok
    · exact fine ⟨rfl, low, minus⟩
  · intro fine
    rw [calcLine]
    split
    · exact ⟨_, rfl⟩
    split
    · exact ⟨_, rfl⟩
    split
    · exact ⟨_, rfl⟩
    · rename_i aStr op bStr parts
      rw [atoi_eq, atoi_eq]
      cases first : numberOf aStr with
      | none => exact ⟨_, rfl⟩
      | some a =>
          cases second : numberOf bStr with
          | none => exact ⟨_, rfl⟩
          | some b =>
              dsimp only [Option.map_some]
              rcases calcOp_cases op (int32_range a) (b := int32 b) with
                ⟨rfl, low, minus, -⟩ | ⟨-, ⟨message, told⟩ | ⟨r, result, fits⟩⟩
              · exact absurd ⟨a, b, asks_of_calcSplit parts first second, low, minus⟩ fine
              · rw [told]
                exact ⟨_, rfl⟩
              · obtain ⟨written, printed, -⟩ :=
                  userPrintf_result cstr op (int32_range a) (int32_range b) fits
                rw [result, calcPrint_result printed]
                exact ⟨_, rfl⟩

/-- The `switch` gives the result in the integers, where that fits. -/
theorem calcOp_of_results {a b r : Int} {op : UInt8} (results : Results a op b r)
    (fits : IsInt r) : calcOp op a b = .ok (.inl r) := by
  have wraps : int32 r = r := int32_of_range fits.1 fits.2
  rcases results with ⟨rfl, rfl⟩ | ⟨rfl, rfl⟩ | ⟨rfl, rfl⟩ | ⟨rfl, nonzero, rfl⟩
  · rw [calcOp, if_pos rfl, wraps]
  · rw [calcOp, if_neg (by decide), if_pos rfl, wraps]
  · rw [calcOp, if_neg (by decide), if_neg (by decide), if_pos rfl, wraps]
  · have noOverflow : ¬ (b = 0 ∨ a = -2 ^ 31 ∧ b = -1) := by
      rintro (zero | ⟨rfl, rfl⟩)
      · exact nonzero zero
      · exact absurd fits.2 (by decide)
    rw [calcOp, if_neg (by decide), if_neg (by decide), if_neg (by decide), if_pos rfl,
      if_neg nonzero, idiv, if_neg noOverflow]
    rfl

/-- **When the calculator is right**: exactly about the lines that do not ask, as 32-bit numbers,
for the smallest one divided by -1.  The numbers are read with wrapping to 32 bits, the divisor 0
is answered before it is used, and everything else is computed with wrapping and printed by
`printf`; so `idiv` faults on that one quotient only. -/
theorem calcRight_iff (cstr : UInt64 → CText) (line : CalcLine) :
    CalcRight cstr line.chars ↔ ¬ DividesOver line.chars := by
  rw [CalcRight, calcLine_ok_iff]
  refine and_iff_left fun a op b r asks results first second fits => ?_
  obtain ⟨written, printed, flat⟩ := userPrintf_result cstr op first second fits
  refine ⟨written, ?_, flat⟩
  rw [calcLine_of_asks cstr asks, int32_of_range first.1 first.2, int32_of_range second.1 second.2,
    calcOp_of_results results fits, calcPrint_result printed]

/-- The line `2147483648 / -1`. -/
def overLine : CalcLine where
  chars := [0x32, 0x31, 0x34, 0x37, 0x34, 0x38, 0x33, 0x36, 0x34, 0x38, 0x20, 0x2F, 0x20, 0x2D, 0x31]
  short := by decide
  printable := by simp

/-- **The division faults.** -/
theorem calc_not_right : ¬ CalcRight (fun _ => ⟨[], by decide⟩) overLine.chars := by
  intro right
  refine (calcLine_ok_iff _ _).mp right.1 ⟨2147483648, -1, ⟨0, 0, 1, [0x32, 0x31, 0x34, 0x37, 0x34, 0x38, 0x33, 0x36, 0x34, 0x38],
    [0x2D, 0x31], rfl, by decide, by decide, by decide, by decide⟩, by decide, by decide⟩

end Flyos
