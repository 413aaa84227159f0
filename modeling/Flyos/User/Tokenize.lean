import Flyos.Lib.ByteMemory
import Flyos.Lib.Counting
import Flyos.Lib.Slots
import Flyos.Lib.Words

/-!
# The words of a command line

`tokenize` of `user/init.c`.  It ends each word of the line with a 0 in place, and puts where the
words start into `argv`.  Pointers are addresses of a memory; an access behind `last`, which is
the end of the line, fails.
-/

namespace Flyos

/-- What goes wrong in `tokenize`. -/
inductive TokFault
  | outside

/-- `*p`. -/
def charAt (last : Nat) (m : ByteMemory) (p : Nat) : Except TokFault UInt8 :=
  if p ≤ last then .ok (m p) else .error .outside

/-- `while (f(*p)) p++`. -/
def skipChars (f : UInt8 → Bool) (last : Nat) (m : ByteMemory) (p : Nat) : Except TokFault Nat :=
  if last < p then .error .outside
  else if f (m p) then skipChars f last m (p + 1)
  else .ok p
termination_by last + 1 - p

/-- `*p == ' '`. -/
def blankChar (c : UInt8) : Bool := c == 32

/-- `*p && *p != ' '`. -/
def wordChar (c : UInt8) : Bool := c != 0 && c != 32

/-- `if (*p) *p++ = 0`. -/
def endWord (last : Nat) (m : ByteMemory) (p : Nat) : Except TokFault (ByteMemory × Nat) := do
  let c ← charAt last m p
  if c ≠ 0 then .ok (Function.update m p 0, p + 1) else .ok (m, p)

/-- The line and `argv` afterwards, and `argc`. -/
structure TokResult where
  mem : ByteMemory
  argv : Nat → Nat
  argc : Nat

/-- The loop of `tokenize`, with room for so many words more. -/
def tokenLoop (last : Nat) : Nat → ByteMemory → Nat → (Nat → Nat) → Nat → Except TokFault TokResult
  | 0, m, p, argv, argc => do
      let _ ← charAt last m p
      .ok ⟨m, argv, argc⟩
  | room + 1, m, p, argv, argc => do
      let c ← charAt last m p
      if c = 0 then .ok ⟨m, argv, argc⟩
      else
        let p ← skipChars blankChar last m p
        let c ← charAt last m p
        if c = 0 then .ok ⟨m, argv, argc⟩
        else
          let argv := Function.update argv argc p
          let p ← skipChars wordChar last m p
          let (m, p) ← endWord last m p
          tokenLoop last room m p argv (argc + 1)

/-- `tokenize`, for a line that ends at `last`. -/
def tokenize (last : Nat) (m : ByteMemory) (line : Nat) (argv : Nat → Nat) (max : Int) :
    Except TokFault TokResult :=
  tokenLoop last max.toNat m line argv 0

/-! ## The line -/

/-- The characters of a text from an address on, and the 0 behind them. -/
structure TextAt (m : ByteMemory) (p : Nat) (text : List UInt8) : Prop where
  chars : ∀ i (inside : i < text.length), m (p + i) = text[i]
  ends : m (p + text.length) = 0
  proper : ∀ c ∈ text, c ≠ 0

variable {m m' : ByteMemory} {p last line : Nat} {text xs ys : List UInt8} {f : UInt8 → Bool}

/-- What is left of a text. -/
theorem TextAt.drop (at_ : TextAt m p (xs ++ ys)) : TextAt m (p + xs.length) ys where
  chars i inside := by
    have there := at_.chars (xs.length + i) (by rw [List.length_append]; omega)
    rw [Nat.add_assoc, there, List.getElem_append_right (Nat.le_add_right ..)]
    simp only [Nat.add_sub_cancel_left]
  ends := by
    have ends := at_.ends
    rwa [List.length_append, ← Nat.add_assoc] at ends
  proper c mem := at_.proper c (List.mem_append_right _ mem)

/-- A text behind its first character. -/
theorem TextAt.tail {c : UInt8} (at_ : TextAt m p (c :: text)) : TextAt m (p + 1) text := by
  have split : TextAt m p ([c] ++ text) := at_
  exact split.drop

/-- A text elsewhere stays. -/
theorem TextAt.congr (at_ : TextAt m p text) (same : ∀ x, p ≤ x → x ≤ p + text.length → m' x = m x) :
    TextAt m' p text where
  chars i inside := (same _ (by omega) (by omega)).trans (at_.chars i inside)
  ends := (same _ (by omega) (by omega)).trans at_.ends
  proper := at_.proper

/-- The first character of a text, or the 0. -/
theorem TextAt.head (at_ : TextAt m p text) : m p = text.headD 0 := by
  cases text with
  | nil => exact at_.ends
  | cons c text => exact at_.chars 0 (Nat.zero_lt_succ _)

/-- A text that starts with the 0 is empty. -/
theorem TextAt.empty (at_ : TextAt m p text) (atEnd : text.headD 0 = 0) : text = [] := by
  cases text with
  | nil => rfl
  | cons c text => exact absurd atEnd (at_.proper c List.mem_cons_self)

/-- **A loop over characters** passes those that it is for. -/
theorem skipChars_spec (at_ : TextAt m p text) (here : last = p + text.length)
    (stops : f 0 = false) :
    ∃ xs rest, text = xs ++ rest ∧ skipChars f last m p = .ok (p + xs.length) ∧
      (∀ c ∈ xs, f c = true) ∧ ∀ c tail, rest = c :: tail → f c = false := by
  induction text generalizing p with
  | nil =>
      refine ⟨[], [], rfl, ?_, fun _ mem => absurd mem List.not_mem_nil,
        fun _ _ same => by cases same⟩
      rw [skipChars, if_neg (by simp only [List.length_nil] at here; omega), at_.head]
      exact if_neg (by rw [List.headD_nil, stops]; exact Bool.false_ne_true)
  | cons c text ih =>
      rw [skipChars, if_neg (by omega), at_.head, List.headD_cons]
      cases kind : f c with
      | false =>
          refine ⟨[], c :: text, rfl, if_neg Bool.false_ne_true,
            fun _ mem => absurd mem List.not_mem_nil, fun d tail same => ?_⟩
          rw [← (List.cons.inj same).1, kind]
      | true =>
          obtain ⟨xs, rest, rfl, run, all, next⟩ := ih at_.tail
            (by rw [here, List.length_cons]; omega)
          refine ⟨c :: xs, rest, rfl, ?_, fun d mem => ?_, next⟩
          · rw [if_pos rfl, run, List.length_cons, Nat.add_assoc, Nat.add_comm 1]
          · rcases List.mem_cons.mp mem with rfl | mem
            · exact kind
            · exact all d mem

/-- A character inside of the line, or the 0 at its end. -/
theorem charAt_spec (at_ : TextAt m p text) (here : last = p + text.length) :
    charAt last m p = .ok (text.headD 0) := by
  rw [charAt, if_pos (by omega), at_.head]

/-- Only blanks and the 0 are not part of a word. -/
theorem wordChar_eq {c : UInt8} (proper : c ≠ 0) : wordChar c = !blankChar c := by
  unfold wordChar blankChar
  rw [bne_iff_ne.mpr proper, Bool.true_and]
  rfl

/-- **The end of a word**: a 0 stands there, and the line goes on behind it. -/
theorem endWord_spec (at_ : TextAt m p text) (here : last = p + text.length)
    (blank : ∀ c rest, text = c :: rest → blankChar c = true) :
    ∃ m' p' rest, endWord last m p = .ok (m', p') ∧ TextAt m' p' rest ∧ last = p' + rest.length ∧
      (p < p' ∨ p = p' ∧ rest = []) ∧ (∀ x, x ≠ p → m' x = m x) ∧ m' p = 0 ∧
      ∀ a, wordsFrom blankChar p (some a) text = (a, p) :: wordsFrom blankChar p' none rest := by
  unfold endWord
  rw [charAt_spec at_ here]
  cases text with
  | nil => exact ⟨m, p, [], rfl, at_, here, .inr ⟨rfl, rfl⟩, fun _ _ => rfl, at_.ends, fun _ => rfl⟩
  | cons c rest =>
      have proper := at_.proper c List.mem_cons_self
      have behind := at_.tail
      have other (x : Nat) (ne : x ≠ p) : Function.update m p 0 x = m x :=
        Function.update_of_ne ne 0 m
      refine ⟨Function.update m p 0, p + 1, rest, if_pos proper, ?_, ?_, .inl (Nat.lt_succ_self p),
        other, Function.update_self .., fun a => ?_⟩
      · exact behind.congr fun x low _ => other x (by omega)
      · rw [here, List.length_cons]
        omega
      · rw [wordsFrom, if_pos (blank c rest rfl)]

/-- What the loop does: it puts the next words into `argv`, as many as there is room for, and ends
each of them, which is all that it changes in the line. -/
structure Tokenized (last room : Nat) (m : ByteMemory) (p : Nat) (text : List UInt8)
    (argv : Nat → Nat) (argc : Nat) (r : TokResult) : Prop where
  count : r.argc = argc + min room (wordsFrom blankChar p none text).length
  found : slots r.argv r.argc =
    slots argv argc ++ ((wordsFrom blankChar p none text).take room).map Prod.fst
  kept : ∀ i, i < argc ∨ argc + room ≤ i → r.argv i = argv i
  words : ∀ w ∈ (wordsFrom blankChar p none text).take room,
    (∀ x, w.1 ≤ x → x < w.2 → r.mem x = m x) ∧ r.mem w.2 = 0
  frame : ∀ x, x < p ∨ last < x → r.mem x = m x
  ends : r.mem last = 0

/-- Where no word is left, or no room, nothing happens. -/
theorem tokenized_none {room argc : Nat} {argv : Nat → Nat} (at_ : TextAt m p text)
    (here : last = p + text.length)
    (none_ : (wordsFrom blankChar p none text).take room = []) :
    Tokenized last room m p text argv argc ⟨m, argv, argc⟩ where
  count := by
    have length := congrArg List.length none_
    rw [List.length_take, List.length_nil] at length
    rw [length]
    rfl
  found := by
    rw [none_, List.map_nil, List.append_nil]
  kept _ _ := rfl
  words w mem := by
    rw [none_] at mem
    cases mem
  frame _ _ := rfl
  ends := by
    rw [here]
    exact at_.ends

/-- **One word, and then the others.** -/
theorem Tokenized.cons {p₁ p₂ p' room argc : Nat} {argv : Nat → Nat} {rest : List UInt8}
    {r : TokResult}
    (split : wordsFrom blankChar p none text = (p₁, p₂) :: wordsFrom blankChar p' none rest)
    (low : p ≤ p₁) (some_ : p₁ < p₂) (next : p₂ < p' ∨ p₂ = p' ∧ rest = [])
    (here : last = p' + rest.length) (other : ∀ x, x ≠ p₂ → m' x = m x) (zero : m' p₂ = 0)
    (after : Tokenized last room m' p' rest (Function.update argv argc p₁) (argc + 1) r) :
    Tokenized last (room + 1) m p text argv argc r where
  count := by
    rw [after.count, split, List.length_cons]
    omega
  found := by
    rw [after.found, slots_push, split, List.take_succ_cons, List.map_cons, List.append_assoc]
    rfl
  kept i outside := by
    rw [after.kept i (by omega), Function.update_of_ne (by omega)]
  words w mem := by
    rw [split, List.take_succ_cons] at mem
    rcases List.mem_cons.mp mem with rfl | mem
    · refine ⟨fun x _ high => ?_, ?_⟩
      · dsimp only at high
        rw [after.frame x (by omega), other x (by omega)]
      · rcases next with next | ⟨same, none_⟩
        · exact (after.frame p₂ (.inl next)).trans zero
        · rw [none_, List.length_nil] at here
          rw [same, ← here.trans (Nat.add_zero p')]
          exact after.ends
    · obtain ⟨kept, ended⟩ := after.words w mem
      refine ⟨fun x from_ high => ?_, ended⟩
      have behind := le_of_mem_wordsFrom.1 (List.mem_of_mem_take mem)
      rcases next with next | ⟨-, none_⟩
      · rw [kept x from_ high, other x (by omega)]
      · rw [none_] at mem
        cases List.mem_of_mem_take mem
  frame x outside := by
    rw [after.frame x (by omega), other x (by omega)]
  ends := after.ends

/-- **The loop of `tokenize`.** -/
theorem tokenLoop_spec (room argc : Nat) (argv : Nat → Nat) (at_ : TextAt m p text)
    (here : last = p + text.length) :
    ∃ r, tokenLoop last room m p argv argc = .ok r ∧ Tokenized last room m p text argv argc r := by
  induction room generalizing m p text argv argc with
  | zero =>
      rw [tokenLoop, charAt_spec at_ here]
      exact ⟨_, rfl, tokenized_none at_ here List.take_zero⟩
  | succ room ih =>
      obtain ⟨blanks, rest, rfl, skipped, allBlank, noBlank⟩ :=
        skipChars_spec (f := blankChar) at_ here rfl
      have passed := wordsFrom_separators p rest allBlank
      have at₁ := at_.drop
      have here₁ : last = p + blanks.length + rest.length := by
        rw [here, List.length_append, Nat.add_assoc]
      unfold tokenLoop
      by_cases atEnd : (blanks ++ rest).headD 0 = 0
      · refine ⟨⟨m, argv, argc⟩, ?_, tokenized_none at_ here ?_⟩
        · exact (bind_of_ok (charAt_spec at_ here) _).trans (if_pos atEnd)
        · rw [at_.empty atEnd]
          rfl
      cases rest with
      | nil =>
          refine ⟨⟨m, argv, argc⟩, ?_, tokenized_none at_ here ?_⟩
          · refine (bind_of_ok (charAt_spec at_ here) _).trans ((if_neg atEnd).trans ?_)
            refine (bind_of_ok skipped _).trans ?_
            exact (bind_of_ok (charAt_spec at₁ here₁) _).trans (if_pos rfl)
          · rw [passed]
            rfl
      | cons c rest =>
          have proper : c ≠ 0 := at₁.proper c List.mem_cons_self
          have isWord : wordChar c = true := by
            rw [wordChar_eq proper, noBlank c rest rfl]
            rfl
          obtain ⟨word, tail, split, skippedWord, allWord, noWord⟩ :=
            skipChars_spec (f := wordChar) at₁ here₁ rfl
          have some_ : word ≠ [] := by
            rintro rfl
            rw [noWord c rest split.symm] at isWord
            cases isWord
          have atC := charAt_spec at₁ here₁
          rw [split] at at₁ here₁ passed
          have free (d : UInt8) (mem : d ∈ word) : blankChar d = false := by
            have both := allWord d mem
            rw [wordChar_eq (at₁.proper d (List.mem_append_left _ mem))] at both
            exact Bool.not_eq_true' _ |>.mp both
          have found := wordsFrom_word (p + blanks.length) tail some_ free
          have at₂ := at₁.drop
          have here₂ : last = p + blanks.length + word.length + tail.length := by
            rw [here₁, List.length_append, Nat.add_assoc, Nat.add_assoc, Nat.add_assoc]
          obtain ⟨m', p', left, ended, at₃, here₃, next, other, zero, words⟩ :=
            endWord_spec at₂ here₂ fun d rest' same => by
              have notWord := noWord d rest' same
              rw [wordChar_eq (at₂.proper d (same ▸ List.mem_cons_self))] at notWord
              exact Bool.not_eq_false' _ |>.mp notWord
          obtain ⟨r, run, after⟩ :=
            ih (argc + 1) (Function.update argv argc (p + blanks.length)) at₃ here₃
          have length := List.length_pos_iff.mpr some_
          refine ⟨r, ?_, after.cons ?_ (by omega) (by omega) next here₃ other zero⟩
          · refine (bind_of_ok (charAt_spec at_ here) _).trans ((if_neg atEnd).trans ?_)
            refine (bind_of_ok skipped _).trans ?_
            refine (bind_of_ok atC _).trans ((if_neg proper).trans ?_)
            refine (bind_of_ok skippedWord _).trans ?_
            exact (bind_of_ok ended _).trans run
          · rw [split, passed, found, words]

/-- **Tokenising a line**: of the words of the line, in order, the first `max` are found; `argv`
has where they start, each is ended by a 0 behind it with its characters as they were, and
nothing outside of the line has changed or been looked at.  The words are defined apart from the
loop, and that they are the maximal runs without blanks is part of the statement; the loop
invariant says which words have been found at each character (`tokenLoop_spec`). -/
theorem tokenize_words (m : ByteMemory) (line : Nat) (text : List UInt8) (argv : Nat → Nat)
    (max : Int) (at_ : TextAt m line text) :
    (∀ i j, (i, j) ∈ wordsOf blankChar text ↔ IsWord blankChar text i j) ∧
      ((wordsOf blankChar text).Pairwise fun v w => v.2 < w.1) ∧
      ∃ r, tokenize (line + text.length) m line argv max = .ok r ∧
        r.argc = min max.toNat (wordsOf blankChar text).length ∧
        slots r.argv r.argc = ((wordsOf blankChar text).take max.toNat).map (line + ·.1) ∧
        (∀ w ∈ (wordsOf blankChar text).take max.toNat,
          (∀ i, w.1 ≤ i → i < w.2 → r.mem (line + i) = m (line + i)) ∧ r.mem (line + w.2) = 0) ∧
        (∀ x, x < line ∨ line + text.length < x → r.mem x = m x) ∧
        ∀ i, max.toNat ≤ i → r.argv i = argv i := by
  refine ⟨fun i j => mem_wordsOf, wordsOf_pairwise _ _, ?_⟩
  obtain ⟨r, run, tokens⟩ := tokenLoop_spec max.toNat 0 argv at_ rfl
  have shift := wordsFrom_shift blankChar line 0 none text
  have found := tokens.found
  have words := tokens.words
  have count := tokens.count
  rw [Option.map_none, Nat.add_zero, ← wordsOf] at shift
  rw [shift] at found words count
  refine ⟨r, run, ?_, ?_, fun w mem => ?_, tokens.frame, fun i outside => tokens.kept i (.inr ?_)⟩
  · rw [count, List.length_map, Nat.zero_add]
  · rw [found, ← List.map_take, List.map_map]
    rfl
  · rw [← List.map_take] at words
    obtain ⟨kept, ended⟩ := words _ (List.mem_map_of_mem mem)
    exact ⟨fun i low high => kept _ (Nat.add_le_add_left low line) (Nat.add_lt_add_left high line),
      ended⟩
  · omega

/-- A line of three words between blanks, at 100. -/
def smallLine (x : Nat) : UInt8 := [32, 97, 98, 32, 32, 99, 32, 100].getD (x - 100) 0

/-- With room for two of them, the third stays as it was. -/
theorem tokenize_words_small : ∃ r, tokenize 108 smallLine 100 (fun _ => 0) 2 = .ok r ∧
    r.argc = 2 ∧ r.argv 0 = 101 ∧ r.argv 1 = 105 ∧ r.mem 101 = 97 ∧ r.mem 103 = 0 ∧
      r.mem 106 = 0 := by
  have at_ : TextAt smallLine 100 [32, 97, 98, 32, 32, 99, 32, 100] :=
    ⟨by decide, by decide, by simp⟩
  obtain ⟨-, -, r, run, argc, argv, words, -, -⟩ := tokenize_words smallLine 100 _ (fun _ => 0) 2 at_
  have two : (wordsOf blankChar [32, 97, 98, 32, 32, 99, 32, 100]).take (2 : Int).toNat =
      [(1, 3), (5, 6)] := by decide
  have count : r.argc = 2 := argc
  rw [two] at argv words
  rw [count] at argv
  obtain ⟨first, second⟩ := List.cons.inj argv
  have second := (List.cons.inj second).1
  exact ⟨r, run, count, first, second, (words (1, 3) (by decide)).1 1 (by decide) (by decide),
    (words (1, 3) (by decide)).2, (words (5, 6) (by decide)).2⟩

end Flyos
