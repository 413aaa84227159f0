import Flyos.Drivers.DnsNames
import Flyos.Drivers.DnsReply
import Flyos.Lib.Reading

/-!
# Replies on the wire

Well-formed replies, with names in every encoding, and what `e1000_dns_parse_reply` finds in them.
It skips the names of the two sections with two loops, and each of them misses one encoding:
behind a pointer at the end of a question's name a zero byte is skipped as well, and in an answer
a pointer behind labels passes for a label.  Where neither happens the first address is found
(`findsFirst_of_namesRead`).
-/

namespace Flyos

/-! ## Messages -/

/-- Two bytes, the high one first. -/
def be16 (v : Nat) : List UInt8 := [UInt8.ofNat (v / 2 ^ 8), UInt8.ofNat v]

/-- **A name on the wire**: labels, and behind them a zero byte or the two bytes of a pointer. -/
structure WireName where
  labels : List (List UInt8)
  pointer : Option (UInt8 × UInt8)
  valid : ∀ l ∈ labels, ValidLabel l
  marked : ∀ p, pointer = some p → IsPointer p.1

/-- What ends a name. -/
def WireName.ending (n : WireName) : List UInt8 :=
  match n.pointer with
  | none => [0]
  | some p => [p.1, p.2]

def WireName.bytes (n : WireName) : List UInt8 := wireLabels n.labels ++ n.ending

/-- A question. -/
structure DnsQuestion where
  name : WireName
  type : Nat
  cls : Nat
  sized : type < 2 ^ 16

def DnsQuestion.bytes (q : DnsQuestion) : List UInt8 := q.name.bytes ++ (be16 q.type ++ be16 q.cls)

/-- A resource record. -/
structure DnsRecord where
  name : WireName
  type : Nat
  cls : Nat
  ttl : Nat
  data : List UInt8
  sized : type < 2 ^ 16 ∧ data.length < 2 ^ 16

/-- What stands between the name and the data of a record. -/
def DnsRecord.fields (r : DnsRecord) : List UInt8 :=
  be16 r.type ++ be16 r.cls ++ be16 (r.ttl / 2 ^ 16) ++ be16 r.ttl ++ be16 r.data.length

def DnsRecord.bytes (r : DnsRecord) : List UInt8 := r.name.bytes ++ (r.fields ++ r.data)

/-- A record of type A with an address of four bytes. -/
def DnsRecord.IsAddress (r : DnsRecord) : Prop := r.type = 1 ∧ r.data.length = 4

instance : DecidablePred DnsRecord.IsAddress := fun r =>
  inferInstanceAs (Decidable (r.type = 1 ∧ r.data.length = 4))

/-- **A well-formed reply** to the query, without an error; `rest` is what follows the answers. -/
structure DnsReply where
  flags : Nat
  questions : List DnsQuestion
  answers : List DnsRecord
  nscount : Nat
  arcount : Nat
  rest : List UInt8
  reply : flags &&& 0x8000 ≠ 0
  noError : flags &&& 0x000F = 0
  sized : flags < 2 ^ 16 ∧ questions.length < 2 ^ 16 ∧ answers.length < 2 ^ 16

/-- The header. -/
def DnsReply.header (m : DnsReply) : List UInt8 :=
  be16 0xABCD ++ be16 m.flags ++ be16 m.questions.length ++ be16 m.answers.length ++
    be16 m.nscount ++ be16 m.arcount

def DnsReply.bytes (m : DnsReply) : List UInt8 :=
  m.header ++ (m.questions.flatMap DnsQuestion.bytes ++ (m.answers.flatMap DnsRecord.bytes ++ m.rest))

/-- The first address in the answers. -/
def firstAddress (answers : List DnsRecord) : Option (List UInt8) :=
  (answers.find? fun r => decide r.IsAddress).map DnsRecord.data

/-- **The parser finds the first address**, or nothing where there is none. -/
def FindsFirst (m : DnsReply) : Prop :=
  ∃ rounds, ∀ fuel, rounds < fuel → e1000DnsParseReply fuel m.bytes = .ok (firstAddress m.answers)

/-! ## The condition -/

/-- A question that is skipped: its name ends in a zero byte, or no zero byte is behind it. -/
def DnsQuestion.Skipped (q : DnsQuestion) : Prop := q.name.pointer = none ∨ 2 ^ 8 ≤ q.type

/-- A name in an answer that is skipped: labels only, or a pointer only. -/
def WireName.Skipped (n : WireName) : Prop := n.pointer = none ∨ n.labels = []

/-- The names of the answers up to the first address are skipped. -/
def NamesRead : List DnsRecord → Prop
  | [] => True
  | r :: rs => r.name.Skipped ∧ (r.IsAddress ∨ NamesRead rs)

variable {dns rest : List UInt8} {labels : List (List UInt8)} {question : Bool} {pos v : Nat}

/-! ## Words and names in a buffer -/

theorem wordAt_be16 (here : dns.drop pos = be16 v ++ rest) (small : v < 2 ^ 16) :
    wordAt dns pos = v := by
  have low := getD_of_drop here 1 0
  have high : dns.getD pos 0 = UInt8.ofNat (v / 2 ^ 8) := getD_of_drop here 0 0
  have low' : dns.getD (pos + 1) 0 = UInt8.ofNat v := low
  rw [wordAt, high, low', UInt8.toNat_ofNat', UInt8.toNat_ofNat']
  omega

/-- The length of a valid label is neither zero nor marked as a pointer. -/
theorem ValidLabel.length_byte {l : List UInt8} (valid : ValidLabel l) :
    UInt8.ofNat l.length ≠ 0 ∧ ¬ IsPointer (UInt8.ofNat l.length) ∧
      (UInt8.ofNat l.length).toNat = l.length := by
  have all : ∀ n < 64, 1 ≤ n → UInt8.ofNat n ≠ 0 ∧ ¬ IsPointer (UInt8.ofNat n) ∧
      (UInt8.ofNat n).toNat = n := by
    decide
  exact all l.length (Nat.lt_succ_of_le valid.2) valid.1

/-- The loop goes over valid labels. -/
theorem labelsEnd_labels (valid : ∀ l ∈ labels, ValidLabel l)
    (here : dns.drop pos = wireLabels labels ++ rest) :
    labelsEnd dns question pos = labelsEnd dns question (pos + (wireLabels labels).length) := by
  induction labels generalizing pos with
  | nil => rfl
  | cons l ls ih =>
      obtain ⟨nonzero, plain, size⟩ := (valid l List.mem_cons_self).length_byte
      rw [wireLabels_cons, List.append_assoc, List.cons_append] at here
      have inside := length_of_drop here (List.cons_ne_nil _ _)
      have first : dns.getD pos 0 = UInt8.ofNat l.length := getD_of_drop here 0 0
      rw [List.length_cons] at inside
      rw [labelsEnd, if_pos (by omega), first, if_neg nonzero, if_neg fun both => plain both.2, size]
      have behind : dns.drop (pos + (1 + l.length)) = wireLabels ls ++ rest := by
        rw [Nat.add_comm 1]
        exact drop_of_drop (show dns.drop pos = (UInt8.ofNat l.length :: l) ++ _ from here)
      rw [ih (fun x mem => valid x (List.mem_cons_of_mem _ mem)) behind, wireLabels_cons,
        List.length_append, List.length_cons, Nat.add_assoc, Nat.add_comm 1]

/-- It ends at a zero byte. -/
theorem labelsEnd_zero (here : dns.drop pos = 0 :: rest) : labelsEnd dns question pos = pos := by
  have first : dns.getD pos 0 = 0 := getD_of_drop here 0 0
  rw [labelsEnd, first]
  split <;> rfl

/-- In a question it ends behind a pointer. -/
theorem labelsEnd_pointer {p : UInt8} (marked : IsPointer p) (here : dns.drop pos = p :: rest) :
    labelsEnd dns true pos = pos + 2 := by
  have inside := length_of_drop here (List.cons_ne_nil _ _)
  have first : dns.getD pos 0 = p := getD_of_drop here 0 0
  have nonzero : p ≠ 0 := by
    rintro rfl
    exact absurd marked (by decide)
  rw [List.length_cons] at inside
  rw [labelsEnd, if_pos (by omega), first, if_neg nonzero, if_pos ⟨rfl, marked⟩]

/-- Behind a zero byte. -/
theorem zeroEnd_zero (here : dns.drop pos = 0 :: rest) : zeroEnd dns pos = pos + 1 := by
  have inside := length_of_drop here (List.cons_ne_nil _ _)
  have first : dns.getD pos 0 = 0 := getD_of_drop here 0 0
  rw [List.length_cons] at inside
  rw [zeroEnd, if_pos ⟨by omega, first⟩]

/-! ## The questions -/

/-- **A question is skipped whole.** -/
theorem questionEnd_eq {q : DnsQuestion} (skipped : q.Skipped) (here : dns.drop pos = q.bytes ++ rest) :
    questionEnd dns pos = pos + q.bytes.length := by
  have sized := q.sized
  rw [DnsQuestion.bytes, WireName.bytes, List.append_assoc, List.append_assoc] at here
  have labels := @labelsEnd_labels _ _ _ true _ q.name.valid here
  have ended := drop_of_drop here
  have length : pos + q.bytes.length =
      pos + (wireLabels q.name.labels).length + q.name.ending.length + 4 := by
    rw [DnsQuestion.bytes, WireName.bytes, List.length_append, List.length_append]
    show pos + (_ + _ + 4) = _
    omega
  rw [questionEnd, labels, length]
  generalize pos + (wireLabels q.name.labels).length = e at ended ⊢
  rw [WireName.ending] at ended ⊢
  cases pointer : q.name.pointer with
  | none =>
      rw [pointer] at ended
      rw [labelsEnd_zero ended, zeroEnd_zero ended]
      rfl
  | some p =>
      rw [pointer] at ended
      -- the type behind the pointer does not begin with a zero byte
      have large : 2 ^ 8 ≤ q.type := skipped.resolve_left (by rw [pointer]; rintro ⟨⟩)
      have behind := drop_of_drop (show dns.drop e = [p.1, p.2] ++ _ from ended)
      have first : dns.getD (e + 2) 0 = UInt8.ofNat (q.type / 2 ^ 8) := getD_of_drop behind 0 0
      have nonzero : UInt8.ofNat (q.type / 2 ^ 8) ≠ 0 := by
        intro zero
        have nat := congrArg UInt8.toNat zero
        rw [UInt8.toNat_ofNat'] at nat
        change q.type / 2 ^ 8 % 2 ^ 8 = 0 at nat
        omega
      rw [labelsEnd_pointer (q.name.marked p pointer) ended, zeroEnd, first,
        if_neg fun both => nonzero both.2]
      rfl

/-- The questions are skipped. -/
theorem questionsEnd_eq {questions : List DnsQuestion} (skipped : ∀ q ∈ questions, q.Skipped)
    (here : dns.drop pos = questions.flatMap DnsQuestion.bytes ++ rest) :
    (questionEnd dns)^[questions.length] pos = pos + (questions.flatMap DnsQuestion.bytes).length := by
  induction questions generalizing pos with
  | nil => rfl
  | cons q qs ih =>
      rw [List.flatMap_cons, List.append_assoc] at here
      rw [List.length_cons, Function.iterate_succ_apply,
        questionEnd_eq (skipped q List.mem_cons_self) here,
        ih (fun x mem => skipped x (List.mem_cons_of_mem _ mem)) (drop_of_drop here),
        List.flatMap_cons, List.length_append, Nat.add_assoc]

/-! ## The answers -/

/-- **The name of an answer is skipped whole.** -/
theorem nameEnd_eq {n : WireName} (skipped : n.Skipped) (here : dns.drop pos = n.bytes ++ rest) :
    nameEnd dns pos = pos + n.bytes.length := by
  rw [WireName.bytes, WireName.ending] at here ⊢
  cases pointer : n.pointer with
  | some p =>
      have empty : n.labels = [] := skipped.resolve_left (by rw [pointer]; rintro ⟨⟩)
      rw [pointer, empty] at here
      have first : dns.getD pos 0 = p.1 := getD_of_drop here 0 0
      rw [nameEnd, first, if_pos (n.marked p pointer), empty]
      rfl
  | none =>
      rw [pointer, List.append_assoc] at here
      have ended := drop_of_drop here
      have inside := length_of_drop ended (List.cons_ne_nil _ _)
      have plain : ¬ IsPointer (dns.getD pos 0) := by
        cases labels : n.labels with
        | nil =>
            rw [labels] at here
            rw [show dns.getD pos 0 = 0 from getD_of_drop here 0 0]
            decide
        | cons l ls =>
            rw [labels] at here
            rw [show dns.getD pos 0 = UInt8.ofNat l.length from getD_of_drop here 0 0]
            exact (n.valid l (by rw [labels]; exact List.mem_cons_self)).length_byte.2.1
      rw [List.singleton_append, List.length_cons] at inside
      rw [nameEnd, if_neg plain, labelsEnd_labels n.valid here, labelsEnd_zero ended,
        if_pos (by omega), List.length_append, ← Nat.add_assoc]
      rfl

/-- The type and the length of the data behind the name. -/
theorem wordAt_fields {r : DnsRecord} (here : dns.drop pos = r.fields ++ rest) :
    wordAt dns pos = r.type ∧ wordAt dns (pos + 8) = r.data.length := by
  have type : dns.drop pos = be16 r.type ++ (be16 r.cls ++ be16 (r.ttl / 2 ^ 16) ++ be16 r.ttl ++
      be16 r.data.length ++ rest) := here
  have front : r.fields ++ rest =
      (be16 r.type ++ be16 r.cls ++ be16 (r.ttl / 2 ^ 16) ++ be16 r.ttl) ++
        (be16 r.data.length ++ rest) := by
    rw [DnsRecord.fields, List.append_assoc]
  rw [front] at here
  exact ⟨wordAt_be16 type r.sized.1, wordAt_be16 (drop_of_drop here) r.sized.2⟩

/-- **The loop over the answers stops at the first address.** -/
theorem answersStop_eq {answers : List DnsRecord} (read : NamesRead answers)
    (here : dns.drop pos = answers.flatMap DnsRecord.bytes ++ rest) (inside : pos ≤ dns.length) :
    (answersStop dns answers.length pos).1 ≤ dns.length ∧
      match (answersStop dns answers.length pos).2 with
      | none => firstAddress answers = none
      | some p => p + 4 ≤ dns.length ∧ firstAddress answers = some ((dns.drop p).take 4) := by
  induction answers generalizing pos with
  | nil => exact ⟨inside, rfl⟩
  | cons r rs ih =>
      obtain ⟨skipped, later⟩ := read
      rw [List.flatMap_cons, DnsRecord.bytes, List.append_assoc, List.append_assoc, List.append_assoc]
        at here
      have name := nameEnd_eq skipped here
      have fields := drop_of_drop here
      have data := drop_of_drop fields
      have ten : r.fields.length = 10 := rfl
      have some_ : r.fields ++ (r.data ++ (rs.flatMap DnsRecord.bytes ++ rest)) ≠ [] :=
        List.cons_ne_nil _ _
      have length := length_of_drop fields some_
      rw [List.length_append, List.length_append, ten] at length
      obtain ⟨type, size⟩ := wordAt_fields fields
      rw [ten] at data
      have positive : 0 < r.name.bytes.length := by
        rw [WireName.bytes, List.length_append, WireName.ending]
        split <;> simp
      rw [List.length_cons, answersStop, name, if_pos (by omega), if_neg (by omega), type, size]
      generalize pos + r.name.bytes.length = e at data length ⊢
      rw [firstAddress, List.find?_cons]
      by_cases address : r.IsAddress
      · rw [if_pos (show r.type = 1 ∧ r.data.length = 4 from address), decide_eq_true address]
        refine ⟨by show e + 10 ≤ dns.length; omega, ?_, ?_⟩
        · have four := address.2
          omega
        · rw [data, List.take_left' address.2]
          rfl
      · rw [if_neg (show ¬ (r.type = 1 ∧ r.data.length = 4) from address), decide_eq_false address]
        exact ih (later.resolve_left address) (drop_of_drop data) (by omega)

/-! ## The reply -/

/-- The words of the header. -/
theorem wordAt_header (m : DnsReply) : wordAt m.bytes 0 = 0xABCD ∧ wordAt m.bytes 2 = m.flags ∧
    wordAt m.bytes 4 = m.questions.length ∧ wordAt m.bytes 6 = m.answers.length := by
  obtain ⟨flags, questions, answers⟩ := m.sized
  have at0 : m.bytes.drop 0 = be16 0xABCD ++ _ := rfl
  have at2 : m.bytes.drop 2 = be16 m.flags ++ _ := rfl
  have at4 : m.bytes.drop 4 = be16 m.questions.length ++ _ := rfl
  have at6 : m.bytes.drop 6 = be16 m.answers.length ++ _ := rfl
  exact ⟨wordAt_be16 at0 (by decide), wordAt_be16 at2 flags, wordAt_be16 at4 questions,
    wordAt_be16 at6 answers⟩

/-- **The parser finds the first address** in every well-formed reply that an `int` can count, if
its names are skipped: no question's name ends in a pointer with a zero byte behind it, and no
name of an answer, up to the first address, has labels and a pointer.  The two conditions are
about how the parser moves over the names; given them it stands at the beginning of every record
in turn, by induction on the lists of questions and answers. -/
theorem findsFirst_of_namesRead (m : DnsReply) (counted : m.bytes.length < 2 ^ 31)
    (questions : ∀ q ∈ m.questions, q.Skipped) (answers : NamesRead m.answers) : FindsFirst m := by
  obtain ⟨id, flags, qdcount, ancount⟩ := wordAt_header m
  have header : m.header.length = 12 := rfl
  have accepted : AcceptedHeader m.bytes := by
    refine ⟨?_, id, flags ▸ m.reply, flags ▸ m.noError⟩
    rw [DnsReply.bytes, List.length_append, header]
    exact Nat.le_add_right ..
  have behind : m.bytes.drop 12 = m.questions.flatMap DnsQuestion.bytes ++ _ := rfl
  have answered := drop_of_drop behind
  have inside : 12 + (m.questions.flatMap DnsQuestion.bytes).length ≤ m.bytes.length := by
    rw [DnsReply.bytes, List.length_append, List.length_append, header]
    omega
  have stop := answersStop_eq answers answered inside
  rw [← questionsEnd_eq questions behind, ← ancount, ← qdcount] at stop
  change (replyStop m.bytes).1 ≤ _ ∧ (match (replyStop m.bytes).2 with | none => _ | some p => _) at stop
  refine ⟨m.bytes.length, fun fuel enough => ?_⟩
  rw [parseReply_eq enough, if_pos accepted, within_of_lt (by omega)]
  obtain ⟨-, found⟩ := stop
  cases stopped : (replyStop m.bytes).2 with
  | none =>
      rw [stopped] at found
      exact congrArg Except.ok found.symm
  | some p =>
      rw [stopped] at found
      obtain ⟨fits, same⟩ := found
      dsimp only
      rw [readAddress_eq, if_pos fits, same]
      rfl

/-! ## Two questions and an answer -/

/-- The name `a`. -/
def plainName : WireName := ⟨[[0x61]], none, by decide, nofun⟩

/-- A pointer to the first question. -/
def pointerName : WireName := ⟨[], some (0xC0, 12), by decide, by rintro p ⟨⟩; decide⟩

/-- The name `b.a`, with a pointer to the first question. -/
def mixedName : WireName := ⟨[[0x62]], some (0xC0, 12), by decide, by rintro p ⟨⟩; decide⟩

/-- A reply with the questions `a` and `q`, and the address 1.2.3.4 of the name `n`. -/
def shortReply (q n : WireName) : DnsReply where
  flags := 0x8180
  questions := [⟨plainName, 1, 1, by decide⟩, ⟨q, 1, 1, by decide⟩]
  answers := [⟨n, 1, 1, 60, [1, 2, 3, 4], by decide⟩]
  nscount := 0
  arcount := 0
  rest := []
  reply := by decide
  noError := by decide
  sized := ⟨by decide, (by decide : 2 < 2 ^ 16), (by decide : 1 < 2 ^ 16)⟩

/-- Where only the answer has a pointer, the address is found. -/
theorem findsFirst_plain : FindsFirst (shortReply plainName pointerName) :=
  findsFirst_of_namesRead _ (by decide)
    (by
      intro q mem
      rcases List.mem_cons.mp mem with rfl | mem
      · exact .inl rfl
      · rw [List.mem_singleton.mp mem]
        exact .inl rfl)
    ⟨.inr rfl, .inl (by decide)⟩

/-- A reply in which the parser finds nothing. -/
theorem not_findsFirst {m : DnsReply} (accepted : AcceptedHeader m.bytes) {e : Nat}
    (stop : replyStop m.bytes = (e, none)) (small : e < 2 ^ 31) (address : firstAddress m.answers ≠ none) :
    ¬ FindsFirst m := by
  rintro ⟨rounds, found⟩
  have long := found (rounds + m.bytes.length + 1) (by omega)
  rw [parseReply_eq (by omega), if_pos accepted, stop, within_of_lt small] at long
  exact address (Except.ok.inj long).symm

/-- **A question that ends in a pointer, or an answer with labels and a pointer, hides the
address.** -/
theorem findsFirst_fails : ¬ FindsFirst (shortReply pointerName pointerName) ∧
    ¬ FindsFirst (shortReply plainName mixedName) := by
  constructor
  · have stop : replyStop (shortReply pointerName pointerName).bytes = (53, none) := by
      decide +kernel
    exact not_findsFirst (by decide) stop (by decide) (by decide)
  · have stop : replyStop (shortReply plainName mixedName).bytes = (231, none) := by
      decide +kernel
    exact not_findsFirst (by decide) stop (by decide) (by decide)

end Flyos
