import Flyos.Drivers.Dns
import Mathlib.Logic.Function.Iterate

/-!
# Reading a reply

`e1000_dns_parse_reply` moves a position through the buffer, by lengths that the buffer gives
it.  Where it goes is written down without traps first (`labelsEnd`, `questionEnd`, `nameEnd`,
`replyStop`); the position only grows, so the parser does that unless the last position is
more than an `int` holds (`parseReply_eq`).  Every byte is looked at behind a check but the four
of the address: `replySafe_iff` says when they are inside.
-/

namespace Flyos

/-! ## Where the parser goes -/

/-- `(dns[pos] << 8) | dns[pos + 1]` where both are inside. -/
def wordAt (dns : List UInt8) (pos : Nat) : Nat :=
  (dns.getD pos 0).toNat * 2 ^ 8 + (dns.getD (pos + 1) 0).toNat

/-- Where the loop over labels ends. -/
def labelsEnd (dns : List UInt8) (question : Bool) (pos : Nat) : Nat :=
  if pos < dns.length then
    if dns.getD pos 0 = 0 then pos
    else if question ∧ IsPointer (dns.getD pos 0) then pos + 2
    else labelsEnd dns question (pos + (1 + (dns.getD pos 0).toNat))
  else pos
termination_by dns.length - pos

/-- Behind a zero byte. -/
def zeroEnd (dns : List UInt8) (pos : Nat) : Nat :=
  if pos < dns.length ∧ dns.getD pos 0 = 0 then pos + 1 else pos

/-- Behind a question. -/
def questionEnd (dns : List UInt8) (pos : Nat) : Nat := zeroEnd dns (labelsEnd dns true pos) + 4

/-- Behind the name of an answer. -/
def nameEnd (dns : List UInt8) (pos : Nat) : Nat :=
  if IsPointer (dns.getD pos 0) then pos + 2
  else if labelsEnd dns false pos < dns.length then labelsEnd dns false pos + 1
  else labelsEnd dns false pos

/-- Where the loop over `n` answers ends, and where the address is, if it finds one. -/
def answersStop (dns : List UInt8) : Nat → Nat → Nat × Option Nat
  | 0, pos => (pos, none)
  | n + 1, pos =>
      if pos < dns.length then
        if dns.length < nameEnd dns pos + 10 then (nameEnd dns pos + 10, none)
        else if wordAt dns (nameEnd dns pos) = 1 ∧ wordAt dns (nameEnd dns pos + 8) = 4 then
          (nameEnd dns pos + 10, some (nameEnd dns pos + 10))
        else answersStop dns n (nameEnd dns pos + 10 + wordAt dns (nameEnd dns pos + 8))
      else (pos, none)

/-- Where the parser stops in a reply, and where the address is, if it finds one. -/
def replyStop (dns : List UInt8) : Nat × Option Nat :=
  answersStop dns (wordAt dns 6) ((questionEnd dns)^[wordAt dns 4] 12)

/-- **A header that is accepted**: of a reply to the query, without an error. -/
def AcceptedHeader (dns : List UInt8) : Prop :=
  12 ≤ dns.length ∧ wordAt dns 0 = 0xABCD ∧ wordAt dns 2 &&& 0x8000 ≠ 0 ∧ wordAt dns 2 &&& 0x000F = 0

instance (dns : List UInt8) : Decidable (AcceptedHeader dns) :=
  inferInstanceAs (Decidable (_ ∧ _ ∧ _ ∧ _))

/-- **A safe run of the parser**: it ends, reads only inside of the buffer, and the address comes
from there. -/
def ReplySafe (dns : List UInt8) : Prop :=
  ∃ r rounds, (∀ fuel, rounds < fuel → e1000DnsParseReply fuel dns = .ok r) ∧
    ∀ ip, r = some ip → ∃ p, p + 4 ≤ dns.length ∧ ip = (dns.drop p).take 4

variable {α β : Type} {dns : List UInt8} {question : Bool} {pos n a b fuel : Nat}

/-! ## The position grows -/

theorem le_labelsEnd (dns : List UInt8) (question : Bool) (pos : Nat) :
    pos ≤ labelsEnd dns question pos := by
  fun_induction labelsEnd dns question pos with
  | case1 pos inside zero => exact Nat.le_refl _
  | case2 pos inside other pointer => exact Nat.le_add_right ..
  | case3 pos inside other label ih => omega
  | case4 pos behind => exact Nat.le_refl _

theorem le_zeroEnd (dns : List UInt8) (pos : Nat) : pos ≤ zeroEnd dns pos := by
  rw [zeroEnd]
  split <;> omega

theorem le_nameEnd (dns : List UInt8) (pos : Nat) : pos ≤ nameEnd dns pos := by
  have labels := le_labelsEnd dns false pos
  rw [nameEnd]
  split
  · omega
  · split <;> omega

theorem le_questionEnds (dns : List UInt8) (n pos : Nat) : pos ≤ (questionEnd dns)^[n] pos := by
  induction n generalizing pos with
  | zero => exact Nat.le_refl _
  | succ n ih =>
      have labels := le_labelsEnd dns true pos
      have zero := le_zeroEnd dns (labelsEnd dns true pos)
      have rest := ih (questionEnd dns pos)
      rw [Function.iterate_succ_apply]
      rw [questionEnd] at rest ⊢
      omega

theorem le_answersStop (dns : List UInt8) (n pos : Nat) : pos ≤ (answersStop dns n pos).1 := by
  induction n generalizing pos with
  | zero => exact Nat.le_refl _
  | succ n ih =>
      have name := le_nameEnd dns pos
      rw [answersStop]
      split
      · split
        · show pos ≤ nameEnd dns pos + 10
          omega
        · split
          · show pos ≤ nameEnd dns pos + 10
            omega
          · have rest := ih (nameEnd dns pos + 10 + wordAt dns (nameEnd dns pos + 8))
            omega
      · exact Nat.le_refl _

/-! ## As far as an `int` counts -/

/-- A result, if the last position `n` can be counted. -/
def within (n : Nat) (x : Except DnsTrap α) : Except DnsTrap α :=
  if n < 2 ^ 31 then x else .error .overflow

theorem within_of_lt {x : Except DnsTrap α} (small : n < 2 ^ 31) : within n x = x := if_pos small

theorem advance_within (pos n : Nat) : advance pos n = within (pos + n) (.ok (pos + n)) := rfl

/-- One step and the rest. -/
theorem within_bind {v : α} {f : α → Except DnsTrap β} {x : Except DnsTrap β} (le : a ≤ b)
    (next : a < 2 ^ 31 → f v = within b x) : (within a (.ok v)).bind f = within b x := by
  by_cases small : a < 2 ^ 31
  · rw [within_of_lt small]
    exact next small
  · rw [within, within, if_neg small, if_neg (by omega)]
    rfl

theorem dnsByte_inside (inside : pos < dns.length) : dnsByte dns pos = .ok (dns.getD pos 0) := by
  rw [dnsByte, List.getElem?_eq_getElem inside, List.getD_eq_getElem?_getD,
    List.getElem?_eq_getElem inside]
  rfl

theorem dnsByte_outside (outside : dns.length ≤ pos) : dnsByte dns pos = .error .outside := by
  rw [dnsByte, List.getElem?_eq_none outside]

/-- What fails behind any byte fails, whether the byte is inside or not. -/
theorem dnsByte_bind_outside {f : UInt8 → Except DnsTrap α} (behind : ∀ b, f b = .error .outside) :
    (dnsByte dns pos).bind f = .error .outside := by
  by_cases inside : pos < dns.length
  · rw [dnsByte_inside inside]
    exact behind _
  · rw [dnsByte_outside (Nat.not_lt.mp inside)]
    rfl

theorem dnsWord_inside (inside : pos + 1 < dns.length) : dnsWord dns pos = .ok (wordAt dns pos) := by
  rw [dnsWord, dnsByte_inside (by omega), dnsByte_inside inside]
  rfl

/-! ## The parser -/

/-- The loop over labels. -/
theorem skipLabels_eq (enough : dns.length - pos < fuel) (small : pos < 2 ^ 31) :
    skipLabels dns question fuel pos =
      within (labelsEnd dns question pos) (.ok (labelsEnd dns question pos)) := by
  induction fuel generalizing pos with
  | zero => exact absurd enough (Nat.not_lt_zero _)
  | succ fuel ih =>
      rw [skipLabels, labelsEnd]
      by_cases inside : pos < dns.length
      · rw [if_pos inside, if_pos inside, dnsByte_inside inside]
        show (if dns.getD pos 0 = 0 then _ else _) = _
        by_cases zero : dns.getD pos 0 = 0
        · rw [if_pos zero, if_pos zero, within_of_lt small]
        rw [if_neg zero, if_neg zero]
        by_cases pointer : question ∧ IsPointer (dns.getD pos 0)
        · rw [if_pos pointer, if_pos pointer]
          rfl
        · rw [if_neg pointer, if_neg pointer, advance_within]
          exact within_bind (le_labelsEnd ..) fun small => ih (by omega) small
      · rw [if_neg inside, if_neg inside, within_of_lt small]

theorem skipZero_eq (small : pos < 2 ^ 31) :
    skipZero dns pos = within (zeroEnd dns pos) (.ok (zeroEnd dns pos)) := by
  rw [skipZero, zeroEnd]
  by_cases inside : pos < dns.length
  · rw [if_pos inside, dnsByte_inside inside]
    show (if dns.getD pos 0 = 0 then _ else _) = _
    by_cases zero : dns.getD pos 0 = 0
    · rw [if_pos zero, if_pos ⟨inside, zero⟩]
      rfl
    · rw [if_neg zero, if_neg fun both => zero both.2, within_of_lt small]
  · rw [if_neg inside, if_neg fun both => inside both.1, within_of_lt small]

/-- The loop over the questions. -/
theorem skipQuestions_eq (enough : dns.length < fuel) (small : pos < 2 ^ 31) :
    skipQuestions dns fuel n pos =
      within ((questionEnd dns)^[n] pos) (.ok ((questionEnd dns)^[n] pos)) := by
  induction n generalizing pos with
  | zero => exact (within_of_lt small).symm
  | succ n ih =>
      have rest := le_questionEnds dns n (questionEnd dns pos)
      have zero := le_zeroEnd dns (labelsEnd dns true pos)
      have whole : questionEnd dns pos = zeroEnd dns (labelsEnd dns true pos) + 4 := rfl
      rw [skipQuestions, skipLabels_eq (by omega) small, Function.iterate_succ_apply]
      refine within_bind (by omega) fun small => ?_
      rw [skipZero_eq small]
      refine within_bind (by omega) fun small => ?_
      rw [advance_within]
      exact within_bind rest fun small => ih small

/-- The name of an answer. -/
theorem skipName_eq (enough : dns.length < fuel) (inside : pos < dns.length) (small : pos < 2 ^ 31) :
    skipName dns fuel pos = within (nameEnd dns pos) (.ok (nameEnd dns pos)) := by
  rw [skipName, dnsByte_inside inside, nameEnd]
  show (if IsPointer (dns.getD pos 0) then _ else _) = _
  by_cases pointer : IsPointer (dns.getD pos 0)
  · rw [if_pos pointer, if_pos pointer]
    rfl
  rw [if_neg pointer, if_neg pointer, skipLabels_eq (by omega) small]
  by_cases more : labelsEnd dns false pos < dns.length
  · rw [if_pos more]
    refine within_bind (Nat.le_succ _) fun small => ?_
    rw [if_pos more]
    rfl
  · rw [if_neg more]
    refine within_bind (Nat.le_refl _) fun small => ?_
    rw [if_neg more, within_of_lt small]

/-- The loop over the answers. -/
theorem readAnswers_eq (enough : dns.length < fuel) (small : pos < 2 ^ 31) :
    readAnswers dns fuel n pos = within (answersStop dns n pos).1
      (match (answersStop dns n pos).2 with
        | none => .ok none
        | some p => (readAddress dns p).map some) := by
  induction n generalizing pos with
  | zero => exact (within_of_lt small).symm
  | succ n ih =>
      rw [readAnswers, answersStop]
      by_cases inside : pos < dns.length
      · rw [if_pos inside, if_pos inside, skipName_eq enough inside small]
        by_cases cut : dns.length < nameEnd dns pos + 10
        · rw [if_pos cut]
          refine within_bind (Nat.le_add_right _ 10) fun small => ?_
          rw [advance_within]
          refine within_bind (Nat.le_refl _) fun small => ?_
          rw [if_pos cut, within_of_lt small]
        have words : dnsWord dns (nameEnd dns pos) = .ok (wordAt dns (nameEnd dns pos)) ∧
            dnsWord dns (nameEnd dns pos + 8) = .ok (wordAt dns (nameEnd dns pos + 8)) :=
          ⟨dnsWord_inside (by omega), dnsWord_inside (by omega)⟩
        rw [if_neg cut]
        by_cases address : wordAt dns (nameEnd dns pos) = 1 ∧ wordAt dns (nameEnd dns pos + 8) = 4
        · rw [if_pos address]
          refine within_bind (Nat.le_add_right _ 10) fun small => ?_
          rw [advance_within]
          refine within_bind (Nat.le_refl _) fun small => ?_
          rw [if_neg cut, words.1, words.2]
          show (if wordAt dns (nameEnd dns pos) = 1 ∧ wordAt dns (nameEnd dns pos + 8) = 4 then _ else _) = _
          rw [if_pos address, within_of_lt small]
        · rw [if_neg address]
          have rest := le_answersStop dns n
            (nameEnd dns pos + 10 + wordAt dns (nameEnd dns pos + 8))
          refine within_bind (by omega) fun small => ?_
          rw [advance_within]
          refine within_bind (by omega) fun small => ?_
          rw [if_neg cut, words.1, words.2]
          show (if wordAt dns (nameEnd dns pos) = 1 ∧ wordAt dns (nameEnd dns pos + 8) = 4 then _ else _) = _
          rw [if_neg address, advance_within]
          exact within_bind rest fun small => ih small
      · rw [if_neg inside, if_neg inside, within_of_lt small]

/-- **What `e1000_dns_parse_reply` does.** -/
theorem parseReply_eq (enough : dns.length < fuel) : e1000DnsParseReply fuel dns =
    if AcceptedHeader dns then
      within (replyStop dns).1 (match (replyStop dns).2 with
        | none => .ok none
        | some p => (readAddress dns p).map some)
    else .ok none := by
  rw [e1000DnsParseReply]
  by_cases short : dns.length < 12
  · rw [if_pos short, if_neg fun header => absurd header.1 (by omega)]
  have words : ∀ p, p + 1 < 12 → dnsWord dns p = .ok (wordAt dns p) := fun p inside =>
    dnsWord_inside (by omega)
  rw [if_neg short, words 0 (by decide)]
  show (if wordAt dns 0 ≠ 0xABCD then _ else _) = _
  by_cases id : wordAt dns 0 ≠ 0xABCD
  · rw [if_pos id, if_neg fun header => id header.2.1]
  rw [if_neg id, words 2 (by decide), words 4 (by decide), words 6 (by decide)]
  show (if wordAt dns 2 &&& 0x8000 = 0 then _ else if wordAt dns 2 &&& 0x000F ≠ 0 then _ else _) = _
  by_cases query : wordAt dns 2 &&& 0x8000 = 0
  · rw [if_pos query, if_neg fun header => header.2.2.1 query]
  by_cases failed : wordAt dns 2 &&& 0x000F ≠ 0
  · rw [if_neg query, if_pos failed, if_neg fun header => failed header.2.2.2]
  rw [if_neg query, if_neg failed, if_pos ⟨by omega, not_not.mp id, query, not_not.mp failed⟩,
    skipQuestions_eq enough (by decide)]
  exact within_bind (le_answersStop ..) fun small => readAnswers_eq enough small

/-! ## Safety -/

/-- Four bytes that are inside. -/
theorem take_four (inside : pos + 4 ≤ dns.length) : (dns.drop pos).take 4 =
    [dns.getD pos 0, dns.getD (pos + 1) 0, dns.getD (pos + 2) 0, dns.getD (pos + 3) 0] := by
  have shift : ∀ k, dns.getD (pos + k) 0 = (dns.drop pos).getD k 0 := fun k => by
    rw [List.getD_eq_getElem?_getD, List.getD_eq_getElem?_getD, List.getElem?_drop]
  rw [shift 1, shift 2, shift 3, show dns.getD pos 0 = (dns.drop pos).getD 0 0 from shift 0]
  match rest : dns.drop pos with
  | a :: b :: c :: d :: _ => rfl
  | [] | [_] | [_, _] | [_, _, _] =>
      have length := congrArg List.length rest
      rw [List.length_drop] at length
      simp only [List.length_cons, List.length_nil] at length
      omega

/-- The four bytes of the address, if they are inside. -/
theorem readAddress_eq (dns : List UInt8) (pos : Nat) : readAddress dns pos =
    if pos + 4 ≤ dns.length then .ok ((dns.drop pos).take 4) else .error .outside := by
  rw [readAddress]
  by_cases inside : pos + 4 ≤ dns.length
  · rw [if_pos inside, take_four inside, dnsByte_inside (by omega), dnsByte_inside (by omega),
      dnsByte_inside (by omega), dnsByte_inside (by omega)]
    rfl
  · rw [if_neg inside]
    refine dnsByte_bind_outside fun a => dnsByte_bind_outside fun b =>
      dnsByte_bind_outside fun c => ?_
    rw [dnsByte_outside (by omega)]
    rfl

/-- Every long enough run ends alike, so it is safe if one is. -/
theorem replySafe_of_run {x : Except DnsTrap (Option (List UInt8))}
    (run : ∀ fuel, dns.length < fuel → e1000DnsParseReply fuel dns = x) : ReplySafe dns ↔
      ∃ r, x = .ok r ∧ ∀ ip, r = some ip → ∃ p, p + 4 ≤ dns.length ∧ ip = (dns.drop p).take 4 := by
  constructor
  · rintro ⟨r, rounds, ran, safe⟩
    have same := (run (rounds + dns.length + 1) (by omega)).symm.trans
      (ran (rounds + dns.length + 1) (by omega))
    exact ⟨r, same, safe⟩
  · rintro ⟨r, rfl, safe⟩
    exact ⟨r, dns.length, run, safe⟩

/-- **When the parser is safe**: when the header is refused, or the position can be counted to
the end and the four bytes of the address it stops at are inside of the buffer.  The parser is a
walk to a position and a read of four bytes there (`parseReply_eq`); `replyStop` is that walk
with a natural number for the `int` in which the position is kept, and it never traps. -/
theorem replySafe_iff (dns : List UInt8) : ReplySafe dns ↔ (AcceptedHeader dns →
    (replyStop dns).1 < 2 ^ 31 ∧ ∀ p, (replyStop dns).2 = some p → p + 4 ≤ dns.length) := by
  rw [replySafe_of_run fun fuel enough => parseReply_eq enough]
  by_cases header : AcceptedHeader dns
  · rw [if_pos header, forall_prop_of_true header, within]
    by_cases small : (replyStop dns).1 < 2 ^ 31
    · rw [if_pos small, and_iff_right small]
      cases found : (replyStop dns).2 with
      | none => exact iff_of_true ⟨none, rfl, nofun⟩ nofun
      | some p =>
          dsimp only
          rw [readAddress_eq]
          by_cases inside : p + 4 ≤ dns.length
          · rw [if_pos inside]
            refine iff_of_true ⟨_, rfl, fun ip same => ⟨p, inside, ?_⟩⟩ fun q same => ?_
            · exact (Option.some.inj same).symm
            · exact Option.some.inj same ▸ inside
          · rw [if_neg inside]
            exact iff_of_false (fun ⟨r, ran, _⟩ => by cases ran) fun all => inside (all p rfl)
    · rw [if_neg small]
      exact iff_of_false (fun ⟨r, ran, _⟩ => by cases ran) fun both => small both.1
  · rw [if_neg header]
    exact iff_of_true ⟨none, rfl, nofun⟩ fun accepted => absurd accepted header

/-- A reply whose only record is cut off behind its length. -/
def cutReply : List UInt8 :=
  [0xAB, 0xCD, 0x81, 0x80, 0, 0, 0, 1, 0, 0, 0, 0] ++ [0, 0, 1, 0, 1, 0, 0, 0, 60, 0, 4]

/-- **The address of a record that is cut off is read past the end of the buffer.** -/
theorem cutReply_unsafe : ¬ ReplySafe cutReply := by
  rintro ⟨r, rounds, ran, -⟩
  have long := ran (rounds + cutReply.length + 1) (by omega)
  rw [parseReply_eq (by omega), if_pos (by decide)] at long
  have stop : replyStop cutReply = (23, some 23) := by decide +kernel
  rw [stop, within_of_lt (by decide)] at long
  dsimp only at long
  rw [readAddress_eq, if_neg (by decide)] at long
  cases long

end Flyos
