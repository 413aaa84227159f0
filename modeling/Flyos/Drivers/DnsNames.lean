import Flyos.Drivers.Dns
import Mathlib.Data.List.TakeWhile

/-!
# Encoding a host name

A name on the wire is a row of labels of 1 to 63 bytes, each behind its length, and a zero byte.
`dns_encode_name` writes whatever stands between the dots, also where nothing does, and
`e1000_dns_query` passes it a buffer without its size.  `dnsNameSound_iff` says for which host
names the query stays inside of its buffer and the name on the wire is the one that was
asked for.
-/

namespace Flyos

/-! ## Names on the wire -/

/-- A label that can be encoded. -/
def ValidLabel (l : List UInt8) : Prop := 1 ≤ l.length ∧ l.length ≤ 63

instance : DecidablePred ValidLabel := fun l =>
  inferInstanceAs (Decidable (1 ≤ l.length ∧ l.length ≤ 63))

/-- Labels on the wire, each behind its length. -/
def wireLabels (labels : List (List UInt8)) : List UInt8 :=
  labels.flatMap fun l => UInt8.ofNat l.length :: l

/-- Labels joined by dots. -/
def joinDots (labels : List (List UInt8)) : List UInt8 := [0x2E].intercalate labels

/-- The name without a trailing dot. -/
def withoutDot (name : List UInt8) : List UInt8 :=
  if name.getLast? = some 0x2E then name.dropLast else name

/-- **What `dns_encode_name` is to do**, with room for as many bytes as an `int` counts: refuse
the name, or write valid labels and one zero byte behind them, which read as the name. -/
def NameEncodes (name : List UInt8) : Prop :=
  ∃ r, dnsEncodeName (2 ^ 31 - 1) name = .ok r ∧ ∀ out, r = some out →
    ∃ labels, (∀ l ∈ labels, ValidLabel l) ∧ out = wireLabels labels ++ [0] ∧
      joinDots labels = withoutDot name

/-- **What `e1000_dns_query` is to do**: reject the name, or build a message inside of its
buffer. -/
def QueryFits (name : List UInt8) : Prop :=
  ∃ r, e1000DnsQuery name = .ok r ∧ ∀ m, r = some m → m.length ≤ queryRoom

/-! ## What is written -/

/-- What stands between the dots of `p`, a final dot left out. -/
def splitLabels : Nat → List UInt8 → List (List UInt8)
  | 0, _ => []
  | fuel + 1, p =>
      if p = [] then []
      else p.takeWhile (· ≠ 0x2E) :: splitLabels fuel ((p.dropWhile (· ≠ 0x2E)).drop 1)

/-- The labels of a host name. -/
def hostLabels (name : List UInt8) : List (List UInt8) := splitLabels (name.length + 1) name

/-- What is written of a label. -/
def writtenLabel (l : List UInt8) : List UInt8 :=
  UInt8.ofInt (labelLength l) :: l.take (labelLength l).toNat

/-- A label that is not refused. -/
def Accepted (l : List UInt8) : Prop := labelLength l ≤ 63

instance : DecidablePred Accepted := fun l => inferInstanceAs (Decidable (labelLength l ≤ 63))

/-- The labels in front of the first one that is refused. -/
def acceptedLabels (name : List UInt8) : List (List UInt8) :=
  (hostLabels name).takeWhile fun l => decide (Accepted l)

/-- The condition: where no label is refused, that all are valid and the message has at most 256
bytes; where one is, that those in front of it fit. -/
def HostFits (name : List UInt8) : Prop :=
  if ∀ l ∈ hostLabels name, Accepted l then
    (∀ l ∈ hostLabels name, ValidLabel l) ∧ 12 + ((wireLabels (hostLabels name)).length + 1) + 4 ≤ 256
  else 12 + ((acceptedLabels name).flatMap writtenLabel).length ≤ 256

variable {room fuel : Nat} {p out src l name : List UInt8} {labels labels' : List (List UInt8)}

/-! ## Lengths -/

theorem labelLength_eq (small : l.length < 2 ^ 31) : labelLength l = l.length :=
  Int.bmod_eq_of_le (by omega) (by omega)

/-- The length of a label as an `int` is at most its length. -/
theorem labelLength_le (l : List UInt8) : labelLength l ≤ l.length := by
  by_cases small : l.length < 2 ^ 31
  · exact Int.le_of_eq (labelLength_eq small)
  · have lt : labelLength l < (((2 ^ 32 : Nat) : Int) + 1) / 2 := Int.bmod_lt (by decide)
    omega

theorem length_writtenLabel (l : List UInt8) :
    (writtenLabel l).length = (labelLength l).toNat + 1 := by
  have le := labelLength_le l
  rw [writtenLabel, List.length_cons, List.length_take_of_le (by omega)]

/-- Of a label that is short enough all is written. -/
theorem writtenLabel_eq (small : l.length ≤ 63) : writtenLabel l = UInt8.ofNat l.length :: l := by
  have byte : ((l.length : Int) % 2 ^ 8).toNat = l.length := by omega
  rw [writtenLabel, labelLength_eq (by omega), Int.toNat_natCast, List.take_length, UInt8.ofInt, byte]

theorem flatMap_writtenLabel (small : ∀ l ∈ labels, l.length ≤ 63) :
    labels.flatMap writtenLabel = wireLabels labels := by
  rw [wireLabels, List.flatMap_def, List.flatMap_def]
  exact congrArg List.flatten (List.map_congr_left fun l mem => writtenLabel_eq (small l mem))

/-! ## Writing into the buffer -/

/-- The bytes are written if there is room for them. -/
theorem putBytes_eq (fits : out.length ≤ room) (src : List UInt8) : putBytes room out src =
    if out.length + src.length ≤ room then .ok (out ++ src) else .error .outside := by
  induction src generalizing out with
  | nil =>
      rw [putBytes, List.append_nil, if_pos (by simpa using fits)]
  | cons b src ih =>
      rw [putBytes, putByte]
      by_cases more : out.length < room
      · rw [if_pos more]
        show putBytes room (out ++ [b]) src = _
        have length : (out ++ [b]).length = out.length + 1 := by simp
        rw [ih (by omega), length, List.length_cons, List.append_assoc, Nat.add_assoc,
          Nat.add_comm 1]
        rfl
      · rw [if_neg more, if_neg (by rw [List.length_cons]; omega)]
        rfl

/-- A byte and then others. -/
theorem putBytes_cons (b : UInt8) (f : List UInt8 → Except DnsTrap (Option (List UInt8))) :
    ((putByte room out b).bind fun out => (putBytes room out src).bind f) =
      (putBytes room out (b :: src)).bind f := by
  rw [putBytes]
  cases putByte room out b <;> rfl

/-- One label. -/
theorem putLabel_eq (fits : out.length ≤ room) (f : List UInt8 → Except DnsTrap (Option (List UInt8))) :
    ((putByte room out (UInt8.ofInt (labelLength l))).bind fun out =>
      (putBytes room out (l.take (labelLength l).toNat)).bind f) =
      if out.length + (writtenLabel l).length ≤ room then f (out ++ writtenLabel l)
      else .error .outside := by
  rw [putBytes_cons, ← writtenLabel, putBytes_eq fits]
  split <;> rfl

/-- The loop, label by label. -/
def encodeLabels (room : Nat) : List (List UInt8) → List UInt8 →
    Except DnsTrap (Option (List UInt8))
  | [], out => (putByte room out 0).map some
  | l :: ls, out =>
      if Accepted l then
        if out.length + (writtenLabel l).length ≤ room then encodeLabels room ls (out ++ writtenLabel l)
        else .error .outside
      else .ok none

/-- What is behind a label is shorter. -/
theorem length_behind_lt (some_ : p ≠ []) : ((p.dropWhile (· ≠ 0x2E)).drop 1).length < p.length := by
  have le := (List.dropWhile_suffix (p := fun c : UInt8 => decide (c ≠ 0x2E)) (l := p)).length_le
  have positive := List.length_pos_of_ne_nil some_
  rw [List.length_drop]
  omega

/-- **The loop of `dns_encode_name`** goes from label to label. -/
theorem encodeLoop_eq (enough : p.length < fuel) (fits : out.length ≤ room) :
    encodeLoop room fuel p out = encodeLabels room (splitLabels fuel p) out := by
  induction fuel generalizing p out with
  | zero => exact absurd enough (Nat.not_lt_zero _)
  | succ fuel ih =>
      rw [encodeLoop, splitLabels]
      by_cases ended : p = []
      · rw [if_pos ended, if_pos ended]
        rfl
      rw [if_neg ended, if_neg ended, encodeLabels]
      dsimp only
      by_cases accepted : Accepted (p.takeWhile (· ≠ 0x2E))
      · rw [if_neg (Int.not_lt.mpr accepted), if_pos accepted, putLabel_eq fits]
        by_cases more : out.length + (writtenLabel (p.takeWhile (· ≠ 0x2E))).length ≤ room
        · rw [if_pos more, if_pos more]
          have shorter := length_behind_lt ended
          exact ih (by omega) (by rw [List.length_append]; exact more)
        · rw [if_neg more, if_neg more]
      · rw [if_pos (Int.not_le.mp accepted), if_neg accepted]

/-- **Where no label is refused** the labels and a zero byte are written, if there is room. -/
theorem encodeLabels_accepted (accepted : ∀ l ∈ labels, Accepted l) :
    encodeLabels room labels out =
      if out.length + (labels.flatMap writtenLabel).length + 1 ≤ room then
        .ok (some (out ++ labels.flatMap writtenLabel ++ [0]))
      else .error .outside := by
  induction labels generalizing out with
  | nil =>
      rw [encodeLabels, putByte, List.flatMap_nil, List.append_nil, List.length_nil, Nat.add_zero]
      by_cases more : out.length < room
      · rw [if_pos more, if_pos (Nat.succ_le_of_lt more)]
        rfl
      · rw [if_neg more, if_neg (by omega)]
        rfl
  | cons l ls ih =>
      rw [encodeLabels, if_pos (accepted l List.mem_cons_self), List.flatMap_cons, List.length_append]
      by_cases more : out.length + (writtenLabel l).length ≤ room
      · rw [if_pos more, ih fun l mem => accepted l (List.mem_cons_of_mem _ mem),
          List.length_append, List.append_assoc out, Nat.add_assoc out.length]
      · rw [if_neg more, if_neg (by omega)]

/-- **Where a label is refused** those in front of it are written, if there is room. -/
theorem encodeLabels_refused (refused : ¬ ∀ l ∈ labels, Accepted l) (fits : out.length ≤ room) :
    encodeLabels room labels out =
      if out.length +
          ((labels.takeWhile fun l => decide (Accepted l)).flatMap writtenLabel).length ≤ room then
        .ok none
      else .error .outside := by
  induction labels generalizing out with
  | nil => exact absurd (fun l mem => absurd mem List.not_mem_nil) refused
  | cons l ls ih =>
      rw [encodeLabels]
      by_cases accepted : Accepted l
      · rw [if_pos accepted, List.takeWhile_cons_of_pos (p := fun l => decide (Accepted l))
          (decide_eq_true accepted), List.flatMap_cons, List.length_append]
        have later : ¬ ∀ l ∈ ls, Accepted l := fun all => refused fun l' mem => by
          rcases List.mem_cons.mp mem with rfl | mem
          · exact accepted
          · exact all l' mem
        by_cases more : out.length + (writtenLabel l).length ≤ room
        · rw [if_pos more, ih later (by rw [List.length_append]; exact more), List.length_append,
            Nat.add_assoc]
        · rw [if_neg more, if_neg (by omega)]
      · rw [if_neg accepted, List.takeWhile_cons_of_neg (p := fun l => decide (Accepted l))
          (fun accepted' => accepted (of_decide_eq_true accepted')), List.flatMap_nil, List.length_nil,
          Nat.add_zero, if_pos fits]

/-! ## The labels of a host name -/

/-- Where a name is cut: at the first dot, or not at all. -/
theorem cut_at_dot (p : List UInt8) : 0x2E ∉ p.takeWhile (· ≠ 0x2E) ∧
    ((p.takeWhile (· ≠ 0x2E) = p ∧ (p.dropWhile (· ≠ 0x2E)).drop 1 = []) ∨
      p.takeWhile (· ≠ 0x2E) ++ 0x2E :: (p.dropWhile (· ≠ 0x2E)).drop 1 = p) := by
  induction p with
  | nil => exact ⟨List.not_mem_nil, .inl ⟨rfl, rfl⟩⟩
  | cons c p ih =>
      by_cases dot : c = 0x2E
      · subst dot
        exact ⟨List.not_mem_nil, .inr rfl⟩
      · have goes_on : decide (c ≠ 0x2E) = true := decide_eq_true dot
        rw [List.takeWhile_cons_of_pos (p := fun c => decide (c ≠ 0x2E)) goes_on,
          List.dropWhile_cons_of_pos (p := fun c => decide (c ≠ 0x2E)) goes_on]
        refine ⟨fun mem => ?_, ?_⟩
        · rcases List.mem_cons.mp mem with eq | mem
          · exact dot eq.symm
          · exact ih.1 mem
        · rcases ih.2 with ⟨whole, ended⟩ | cut
          · exact .inl ⟨by rw [whole], ended⟩
          · exact .inr (by rw [List.cons_append, cut])

/-- Only the end of a name counts. -/
theorem withoutDot_append (front : List UInt8) (some_ : p ≠ []) :
    withoutDot (front ++ p) = front ++ withoutDot p := by
  rw [withoutDot, withoutDot, List.getLast?_append_of_ne_nil front some_,
    List.dropLast_append_of_ne_nil some_]
  split <;> rfl

/-- **The labels joined by dots** are the name without a trailing dot. -/
theorem joinDots_splitLabels (enough : p.length < fuel) : joinDots (splitLabels fuel p) = withoutDot p := by
  induction fuel generalizing p with
  | zero => exact absurd enough (Nat.not_lt_zero _)
  | succ fuel ih =>
      rw [splitLabels]
      by_cases ended : p = []
      · rw [if_pos ended, ended]
        rfl
      rw [if_neg ended]
      have shorter := length_behind_lt ended
      have rest := ih (p := (p.dropWhile (· ≠ 0x2E)).drop 1) (by omega)
      obtain ⟨noDot, cut⟩ := cut_at_dot p
      generalize p.takeWhile (· ≠ 0x2E) = first at noDot cut ⊢
      generalize (p.dropWhile (· ≠ 0x2E)).drop 1 = behind at rest cut shorter ⊢
      rcases cut with ⟨rfl, rfl⟩ | rfl
      · -- without a dot the name is one label
        have last : first.getLast? ≠ some 0x2E := fun last => noDot (List.mem_of_getLast? last)
        have none : splitLabels fuel ([] : List UInt8) = [] := by cases fuel <;> rfl
        rw [none, withoutDot, if_neg last]
        exact List.intercalate_singleton
      · cases behind with
        | nil =>
            have none : splitLabels fuel ([] : List UInt8) = [] := by cases fuel <;> rfl
            rw [none, withoutDot, List.getLast?_concat, if_pos rfl, List.dropLast_concat]
            exact List.intercalate_singleton
        | cons c q =>
            have some_ : splitLabels fuel (c :: q) ≠ [] := by
              obtain ⟨fuel, rfl⟩ := Nat.exists_eq_succ_of_ne_zero
                (show fuel ≠ 0 by rintro rfl; simp at enough)
              rw [splitLabels, if_neg (List.cons_ne_nil c q)]
              exact List.cons_ne_nil _ _
            rw [joinDots, List.intercalate_cons_of_ne_nil some_, ← joinDots, rest,
              List.append_cons first 0x2E (c :: q), withoutDot_append _ (List.cons_ne_nil c q)]

/-- The labels of a host name, joined by dots, are the name. -/
theorem joinDots_hostLabels (name : List UInt8) : joinDots (hostLabels name) = withoutDot name :=
  joinDots_splitLabels (Nat.lt_succ_self _)

/-! ## Reading labels back -/

@[simp] theorem wireLabels_nil : wireLabels [] = [] := rfl

@[simp] theorem wireLabels_cons (l : List UInt8) (labels : List (List UInt8)) :
    wireLabels (l :: labels) = UInt8.ofNat l.length :: l ++ wireLabels labels := rfl

/-- A length that fits in a byte can be read back. -/
theorem ofNat_length_inj {l l' : List UInt8} (small : l.length ≤ 63) (small' : l'.length ≤ 63)
    (same : UInt8.ofNat l.length = UInt8.ofNat l'.length) : l.length = l'.length := by
  have nat := congrArg UInt8.toNat same
  rw [UInt8.toNat_ofNat', UInt8.toNat_ofNat'] at nat
  omega

/-- **Labels are read back** from the wire, if one of the two readings has valid labels only. -/
theorem wireLabels_inj (small : ∀ l ∈ labels, l.length ≤ 63) (valid : ∀ l ∈ labels', ValidLabel l)
    (same : wireLabels labels ++ [0] = wireLabels labels' ++ [0]) : labels = labels' := by
  induction labels generalizing labels' with
  | nil =>
      cases labels' with
      | nil => rfl
      | cons l' ls' =>
          have length := congrArg List.length same
          simp at length
  | cons l ls ih =>
      cases labels' with
      | nil =>
          have length := congrArg List.length same
          simp at length
      | cons l' ls' =>
          rw [wireLabels_cons, wireLabels_cons, List.cons_append, List.cons_append, List.cons_append,
            List.cons_append, List.append_assoc, List.append_assoc] at same
          obtain ⟨first, rest⟩ := List.cons.inj same
          have sized := ofNat_length_inj (small l List.mem_cons_self)
            (valid l' List.mem_cons_self).2 first
          obtain ⟨rfl, behind⟩ := List.append_inj rest sized
          rw [ih (fun x mem => small x (List.mem_cons_of_mem _ mem))
            (fun x mem => valid x (List.mem_cons_of_mem _ mem)) behind]

/-- On the wire labels take one byte more than joined by dots. -/
theorem length_joinDots (some_ : labels ≠ []) :
    (joinDots labels).length + 1 = (wireLabels labels).length := by
  induction labels with
  | nil => exact absurd rfl some_
  | cons l ls ih =>
      rw [wireLabels_cons, List.length_append, List.length_cons, joinDots]
      by_cases last : ls = []
      · subst last
        rw [List.intercalate_singleton]
        rfl
      · have rest := ih last
        rw [joinDots] at rest
        rw [List.intercalate_cons_of_ne_nil last, List.length_append, List.length_append,
          List.length_singleton]
        omega

/-- What is written is no longer than the labels, and as long only where each is written whole. -/
theorem length_flatMap_writtenLabel (labels : List (List UInt8)) :
    (labels.flatMap writtenLabel).length ≤ (wireLabels labels).length ∧
      ((labels.flatMap writtenLabel).length = (wireLabels labels).length →
        ∀ l ∈ labels, (labelLength l).toNat = l.length) := by
  induction labels with
  | nil => exact ⟨Nat.zero_le _, fun _ l mem => absurd mem List.not_mem_nil⟩
  | cons l ls ih =>
      have le : (labelLength l).toNat ≤ l.length := Int.toNat_le.mpr (labelLength_le l)
      rw [List.flatMap_cons, wireLabels_cons, List.length_append, List.length_append,
        List.length_cons, length_writtenLabel]
      refine ⟨Nat.add_le_add (Nat.succ_le_succ le) ih.1, fun same => ?_⟩
      generalize whole : (labelLength l).toNat = n at same le
      have both : n = l.length ∧ (ls.flatMap writtenLabel).length = (wireLabels ls).length := by
        have rest := ih.1
        omega
      intro x mem
      rcases List.mem_cons.mp mem with rfl | mem
      · exact whole.trans both.1
      · exact ih.2 both.2 x mem

/-- **What was written reads as the name** only where all labels are valid. -/
theorem valid_of_reads (accepted : ∀ l ∈ labels, Accepted l) (valid : ∀ l ∈ labels', ValidLabel l)
    (same : labels.flatMap writtenLabel ++ [0] = wireLabels labels' ++ [0])
    (reads : joinDots labels' = joinDots labels) : ∀ l ∈ labels, ValidLabel l := by
  by_cases none : labels = []
  · rw [none]
    exact fun l mem => absurd mem List.not_mem_nil
  have bytes := List.append_cancel_right same
  have length := congrArg List.length bytes
  have some_ : labels' ≠ [] := by
    rintro rfl
    obtain ⟨l, ls, rfl⟩ := List.exists_cons_of_ne_nil none
    have first := length_writtenLabel l
    rw [List.flatMap_cons, List.length_append, wireLabels_nil, List.length_nil] at length
    omega
  have joined := congrArg List.length reads
  have whole := length_joinDots none
  have whole' := length_joinDots some_
  have short : ∀ l ∈ labels, l.length ≤ 63 := fun l mem => by
    have all := (length_flatMap_writtenLabel labels).2 (by omega) l mem
    have le : labelLength l ≤ 63 := accepted l mem
    omega
  rw [flatMap_writtenLabel short] at same
  rw [wireLabels_inj short valid same]
  exact valid

/-! ## The two functions -/

/-- `dns_encode_name`, by the labels of the name. -/
theorem dnsEncodeName_eq (room : Nat) (name : List UInt8) :
    dnsEncodeName room name = encodeLabels room (hostLabels name) [] :=
  encodeLoop_eq (Nat.lt_succ_self _) (Nat.zero_le _)

/-- Where no label is refused, the encoding is sound when all labels are valid and its length
can be counted. -/
theorem nameEncodes_accepted (accepted : ∀ l ∈ hostLabels name, Accepted l) :
    NameEncodes name ↔ (∀ l ∈ hostLabels name, ValidLabel l) ∧
      (wireLabels (hostLabels name)).length + 1 ≤ 2 ^ 31 - 1 := by
  have run := dnsEncodeName_eq (2 ^ 31 - 1) name
  rw [encodeLabels_accepted accepted, List.length_nil, Nat.zero_add, List.nil_append] at run
  constructor
  · rintro ⟨r, ran, sound⟩
    rw [run] at ran
    by_cases fits : ((hostLabels name).flatMap writtenLabel).length + 1 ≤ 2 ^ 31 - 1
    · rw [if_pos fits] at ran
      cases ran
      obtain ⟨labels, valid, same, reads⟩ := sound _ rfl
      have all := valid_of_reads accepted valid same (by rw [reads, joinDots_hostLabels])
      rw [flatMap_writtenLabel fun l mem => (all l mem).2] at fits
      exact ⟨all, fits⟩
    · rw [if_neg fits] at ran
      cases ran
  · rintro ⟨valid, fits⟩
    rw [flatMap_writtenLabel fun l mem => (valid l mem).2, if_pos fits] at run
    refine ⟨_, run, fun out written => ?_⟩
    cases written
    exact ⟨_, valid, rfl, joinDots_hostLabels name⟩

/-- Where a label is refused, it is sound when the labels in front can be counted. -/
theorem nameEncodes_refused (refused : ¬ ∀ l ∈ hostLabels name, Accepted l)
    (fits : ((acceptedLabels name).flatMap writtenLabel).length ≤ 2 ^ 31 - 1) : NameEncodes name := by
  refine ⟨none, ?_, nofun⟩
  rw [dnsEncodeName_eq, encodeLabels_refused refused (Nat.zero_le _), List.length_nil, Nat.zero_add]
  exact if_pos fits

/-- The query builds a message of the name that was encoded. -/
theorem e1000DnsQuery_eq {encoded : List UInt8}
    (ran : dnsEncodeName (queryRoom - 12) name = .ok (some encoded))
    (fits : 12 + encoded.length ≤ queryRoom) :
    e1000DnsQuery name = if 12 + encoded.length + 4 ≤ queryRoom then
      .ok (some (queryHeader ++ encoded ++ queryType)) else .error .outside := by
  have header : (queryHeader ++ encoded).length = 12 + encoded.length := List.length_append
  have stored := putBytes_eq (header ▸ fits) queryType
  rw [header] at stored
  rw [e1000DnsQuery, ran]
  show (putBytes queryRoom (queryHeader ++ encoded) queryType).map some = _
  rw [stored]
  show Except.map some (if 12 + encoded.length + 4 ≤ queryRoom then _ else _) = _
  split <;> rfl

/-- Where no label is refused, the query fits when the name and what is around it do. -/
theorem queryFits_accepted (accepted : ∀ l ∈ hostLabels name, Accepted l) : QueryFits name ↔
    12 + (((hostLabels name).flatMap writtenLabel).length + 1) + 4 ≤ 256 := by
  have size : queryRoom = 256 := rfl
  have run := dnsEncodeName_eq (queryRoom - 12) name
  rw [encodeLabels_accepted accepted, List.length_nil, Nat.zero_add, List.nil_append] at run
  generalize (hostLabels name).flatMap writtenLabel = written at run ⊢
  have length : (written ++ [0]).length = written.length + 1 := List.length_append
  by_cases fits : written.length + 1 ≤ queryRoom - 12
  · rw [if_pos fits] at run
    have sent := e1000DnsQuery_eq run (by omega)
    rw [length] at sent
    by_cases room : 12 + (written.length + 1) + 4 ≤ queryRoom
    · rw [if_pos room] at sent
      refine iff_of_true ⟨_, sent, fun m built => ?_⟩ (by omega)
      cases built
      rw [List.length_append, List.length_append, length]
      exact room
    · rw [if_neg room] at sent
      refine iff_of_false (fun ⟨r, ran, _⟩ => ?_) (by omega)
      rw [sent] at ran
      cases ran
  · rw [if_neg fits] at run
    refine iff_of_false (fun ⟨r, ran, _⟩ => ?_) (by omega)
    rw [e1000DnsQuery, run] at ran
    cases ran

/-- Where a label is refused, the query fits when the labels in front do. -/
theorem queryFits_refused (refused : ¬ ∀ l ∈ hostLabels name, Accepted l) : QueryFits name ↔
    12 + ((acceptedLabels name).flatMap writtenLabel).length ≤ 256 := by
  have size : queryRoom = 256 := rfl
  have run := dnsEncodeName_eq (queryRoom - 12) name
  rw [encodeLabels_refused refused (Nat.zero_le _), List.length_nil, Nat.zero_add,
    ← acceptedLabels] at run
  rw [QueryFits, e1000DnsQuery, run]
  by_cases fits : ((acceptedLabels name).flatMap writtenLabel).length ≤ queryRoom - 12
  · rw [if_pos fits]
    exact iff_of_true ⟨none, rfl, nofun⟩ (by omega)
  · rw [if_neg fits]
    exact iff_of_false (fun ⟨r, ran, _⟩ => by cases ran) (by omega)

/-- **For which host names** the query stays inside of its buffer, and the name that is encoded
is the one that was asked for.  The encoder checks the length of each label by itself and never
that of the whole name; `HostFits` tells names with a label that is refused, in front of which
labels have been written already, from the others. -/
theorem dnsNameSound_iff (name : List UInt8) :
    QueryFits name ∧ NameEncodes name ↔ HostFits name := by
  rw [HostFits]
  by_cases accepted : ∀ l ∈ hostLabels name, Accepted l
  · rw [if_pos accepted, nameEncodes_accepted accepted, queryFits_accepted accepted]
    constructor
    · rintro ⟨fits, valid, -⟩
      rw [flatMap_writtenLabel fun l mem => (valid l mem).2] at fits
      exact ⟨valid, fits⟩
    · rintro ⟨valid, fits⟩
      rw [flatMap_writtenLabel fun l mem => (valid l mem).2]
      exact ⟨fits, valid, by omega⟩
  · rw [if_neg accepted, queryFits_refused accepted]
    exact ⟨fun both => both.1, fun fits => ⟨fits, nameEncodes_refused accepted (by omega)⟩⟩

/-- A name of five labels of 60 characters. -/
def longName : List UInt8 := (List.replicate 5 (List.replicate 60 0x61 ++ [0x2E])).flatten

/-- **`a..b` is encoded as another name**, and a long name is written past the end of the
buffer. -/
theorem dnsName_unsound : ¬ NameEncodes [0x61, 0x2E, 0x2E, 0x62] ∧ ¬ QueryFits longName := by
  constructor
  · intro sound
    have valid := ((nameEncodes_accepted (by decide)).mp sound).1
    exact absurd (valid [] (by decide)) (by decide)
  · intro fits
    exact absurd ((queryFits_accepted (by decide +kernel)).mp fits) (by decide +kernel)

end Flyos
