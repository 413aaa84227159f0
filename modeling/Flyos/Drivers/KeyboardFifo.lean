import Flyos.Drivers.Keyboard
import Flyos.Lib.Ring
import Flyos.Lib.Runs
import Mathlib.Algebra.Group.Nat.Defs

/-!
# The keyboard buffer

`keyboard_handler` runs in an interrupt, to its end.  `keyboard_getchar_nonblock` does not:
the loop of `SYS_READ` calls it behind a `sti`, so an interrupt, and with the timer's another
task, can come between any two of its accesses to `kbd_head`, `kbd_tail` and `kbd_buf`.  The
call is taken apart at these accesses; `GetcharPc` says where a reader stands.

Next to the driver the system keeps what it is to be compared with: the characters pushed
while fewer than 255 were pending, and what each call returned, with whether a character was
pending at its first access.
-/

namespace Flyos

/-- Where a reader stands in `keyboard_getchar_nonblock`: outside, or before one of its
accesses, with what it has read. -/
inductive GetcharPc
  | idle
  | compare (head : Nat)
  | index
  | fetch (tail : Nat)
  | advance (c : UInt8)
  | store (c : UInt8) (tail : Nat)

/-- `(int)c` of a `char`. -/
def charToInt (c : UInt8) : Int := Int.bmod c.toNat (2 ^ 8)

/-- A call that returned: its result, and whether a character was pending when it began. -/
structure GetcharCall where
  result : Int
  pending : Bool

/-- The driver, where each reader stands, and what happened so far. -/
structure KbdSystem where
  kbd : Keyboard
  pc : Nat → GetcharPc
  pending : Nat → Bool
  accepted : List UInt8
  calls : List GetcharCall

namespace KbdSystem

/-- The system at the start. -/
def start : KbdSystem where
  kbd := .start
  pc := fun _ => .idle
  pending := fun _ => false
  accepted := []
  calls := []

variable (s : KbdSystem)

/-- The characters that were delivered, in order. -/
def delivered : List Int := (s.calls.map GetcharCall.result).filter (· ≠ -1)

/-- The number of characters that were accepted and not delivered. -/
def waiting : Nat := s.accepted.length - s.delivered.length

/-- A character is pushed: accepted if fewer than 255 were pending. -/
def accept (action : KeyAction) : List UInt8 :=
  match action with
  | .push c => if s.waiting < 255 then s.accepted ++ [c] else s.accepted
  | _ => s.accepted

/-- An interrupt. -/
def interrupt (e : KeyEvent) : KbdSystem :=
  { s with
    kbd := keyboardHandler s.kbd e
    accepted := s.accept (keyAction s.kbd.shiftPressed e) }

/-- Reader `r` goes on. -/
def goTo (r : Nat) (pc : GetcharPc) : KbdSystem := { s with pc := Function.update s.pc r pc }

/-- The call of reader `r` returns. -/
def return_ (r : Nat) (result : Int) : KbdSystem :=
  { s.goTo r .idle with calls := s.calls ++ [⟨result, s.pending r⟩] }

/-- **The next access of reader `r`.** -/
def read (r : Nat) : KbdSystem :=
  match s.pc r with
  | .idle =>
      { s.goTo r (.compare s.kbd.kbdHead) with
        pending := Function.update s.pending r (decide (0 < s.waiting)) }
  | .compare head => if head = s.kbd.kbdTail then s.return_ r (-1) else s.goTo r .index
  | .index => s.goTo r (.fetch s.kbd.kbdTail)
  | .fetch tail => s.goTo r (.advance (s.kbd.kbdBuf tail))
  | .advance c => s.goTo r (.store c s.kbd.kbdTail)
  | .store c tail =>
      { s with kbd := { s.kbd with kbdTail := (tail + 1) % kbdBufSize } }.return_ r (charToInt c)

end KbdSystem

/-- An interrupt of the keyboard, or a step of a reader. -/
inductive KbdEvent
  | interrupt (e : KeyEvent)
  | read (r : Nat)

/-- What an event does. -/
def KbdSystem.next (s : KbdSystem) : KbdEvent → KbdSystem
  | .interrupt e => s.interrupt e
  | .read r => s.read r

/-- A step of the system. -/
def KbdStep (s : KbdSystem) (event : KbdEvent) (t : KbdSystem) : Prop := t = s.next event

/-- **A first-in-first-out buffer**: the characters delivered are the first of those accepted,
-1 is returned exactly by the calls that found none pending, and the indices are in range. -/
structure KbdFifo (s : KbdSystem) : Prop where
  order : s.delivered <+: s.accepted.map charToInt
  empty : ∀ call ∈ s.calls, call.result = -1 ↔ call.pending = false
  head : s.kbd.kbdHead < 256
  tail : s.kbd.kbdTail < 256

/-- A reader begins a call only while no reader is in the middle of one. -/
def OneReader (s : KbdSystem) : KbdEvent → Prop
  | .interrupt _ => True
  | .read r => s.pc r = .idle → ∀ q, s.pc q = .idle

/-! ## The characters that are pushed -/

/-- The entries of the key map and their shifted forms are in the range of ASCII. -/
theorem keymap_ascii (scancode : UInt8) :
    keymap scancode < 128 ∧ shifted (keymap scancode) < 128 :=
  forall_byte (P := fun code => keymap code < 128 ∧ shifted (keymap code) < 128)
    (by decide +kernel) scancode

/-- The handler pushes characters of ASCII. -/
theorem push_ascii {flag : Bool} {e : KeyEvent} {c : UInt8} (push : keyAction flag e = .push c) :
    c < 128 := by
  have entry := keymap_ascii e.scancode
  rcases keyAction_eq flag e with ⟨-, other⟩ | ⟨-, other⟩ | ⟨-, -, other | ⟨-, -, -, other⟩⟩
  · cases push.symm.trans other
  · cases push.symm.trans other
  · cases push.symm.trans other
  · obtain rfl := KeyAction.push.inj (push.symm.trans other)
    cases flag with
    | true => exact entry.2
    | false => exact entry.1

/-- The value of such a character. -/
theorem charToInt_eq {c : UInt8} (small : c.toNat < 128) : charToInt c = c.toNat := by
  unfold charToInt
  exact Int.bmod_eq_of_le (by omega) (by omega)

/-- Such a character is not -1. -/
theorem charToInt_ne {c : UInt8} (ascii : c < 128) : charToInt c ≠ -1 := by
  have value := charToInt_eq (by simpa using UInt8.lt_iff_toNat_lt.mp ascii)
  omega

/-! ## The queue in the ring -/

/-- What a reader knows of the queue in the middle of a call. -/
def GetcharPc.Knows (tail : Nat) (queue : List UInt8) (pending : Bool) : GetcharPc → Prop
  | .idle => True
  | .compare head => head = tail ↔ pending = false
  | .index => pending = true
  | .fetch i => pending = true ∧ i = tail
  | .advance c => pending = true ∧ queue.head? = some c
  | .store c i => pending = true ∧ queue.head? = some c ∧ i = tail

/-- **The invariant**, with the characters that are pending. -/
structure KbdInv (s : KbdSystem) (queue : List UInt8) : Prop where
  order : s.accepted.map charToInt = s.delivered ++ queue.map charToInt
  ascii : ∀ c ∈ queue, c < 128
  empty : ∀ call ∈ s.calls, call.result = -1 ↔ call.pending = false
  short : queue.length ≤ 255
  tail : s.kbd.kbdTail < 256
  head : s.kbd.kbdHead = (s.kbd.kbdTail + queue.length) % 256
  slots : RingHolds 256 s.kbd.kbdTail (fun i c => s.kbd.kbdBuf i = c) queue
  one : ∀ q r, s.pc q ≠ .idle → s.pc r ≠ .idle → q = r
  known : ∀ r, s.pc r ≠ .idle → (s.pc r).Knows s.kbd.kbdTail queue (s.pending r)
  full : ∀ r, s.pc r ≠ .idle → s.pending r = true → queue ≠ []

variable {s t : KbdSystem} {queue : List UInt8}

/-- The invariant gives the property. -/
theorem KbdInv.fifo (inv : KbdInv s queue) : KbdFifo s where
  order := ⟨queue.map charToInt, inv.order.symm⟩
  empty := inv.empty
  head := by
    rw [inv.head]
    exact Nat.mod_lt _ (by decide)
  tail := inv.tail

/-- The number of characters that are pending. -/
theorem KbdInv.waiting (inv : KbdInv s queue) : s.waiting = queue.length := by
  have lengths := congrArg List.length inv.order
  rw [List.length_append, List.length_map, List.length_map] at lengths
  rw [KbdSystem.waiting]
  omega

/-- The start. -/
theorem kbdInv_start : KbdInv .start [] where
  order := rfl
  ascii := fun _ none => by cases none
  empty := fun _ none => by cases none
  short := Nat.zero_le _
  tail := by decide
  head := rfl
  slots := .nil
  one := fun _ _ busy => absurd rfl busy
  known := fun _ busy => absurd rfl busy
  full := fun _ busy => absurd rfl busy

/-- What a reader knows stays when a character is pushed. -/
theorem GetcharPc.Knows.concat {pc : GetcharPc} {tail : Nat} {pending : Bool}
    (known : pc.Knows tail queue pending) (c : UInt8) : pc.Knows tail (queue ++ [c]) pending := by
  cases pc with
  | advance d => exact ⟨known.1, by rw [List.head?_append, known.2]; rfl⟩
  | store d i => exact ⟨known.1, by rw [List.head?_append, known.2.1]; rfl, known.2.2⟩
  | _ => exact known

/-- The invariant depends on the driver's indices and buffer only. -/
theorem KbdInv.setShift (inv : KbdInv s queue) (pressed : Bool) :
    KbdInv { s with kbd := { s.kbd with shiftPressed := pressed } } queue :=
  ⟨inv.order, inv.ascii, inv.empty, inv.short, inv.tail, inv.head, inv.slots, inv.one, inv.known,
    inv.full⟩

/-- **`kbd_push` keeps the queue**: the character is behind it, or dropped if 255 are pending. -/
theorem KbdInv.push (inv : KbdInv s queue) {c : UInt8} (ascii : c < 128) :
    ∃ queue', KbdInv { s with
      kbd := kbdPush s.kbd c
      accepted := s.accept (.push c) } queue' := by
  have short := inv.short
  have low := inv.tail
  have next : (s.kbd.kbdHead + 1) % 256 = s.kbd.kbdTail ↔ queue.length = 255 := by
    rw [inv.head]
    omega
  rw [KbdSystem.accept, inv.waiting, kbdPush]
  dsimp only [kbdBufSize]
  by_cases all : queue.length = 255
  · rw [if_pos (next.mpr all), if_neg (by omega)]
    exact ⟨queue, inv⟩
  rw [if_neg (next.not.mpr all), if_pos (by omega)]
  have slots : RingHolds 256 s.kbd.kbdTail
      (fun i d => Function.update s.kbd.kbdBuf s.kbd.kbdHead c i = d) (queue ++ [c]) := by
    refine (inv.slots.congr fun i inside d there => ?_).concat ?_
    · have apart : (s.kbd.kbdTail + i) % 256 ≠ s.kbd.kbdHead := by
        rw [inv.head]
        exact ring_ne inside (by omega)
      rw [Function.update_of_ne apart]
      exact there
    · rw [inv.head, Function.update_self]
  refine ⟨queue ++ [c], ?_, ?_, inv.empty, ?_, low, ?_, slots, inv.one,
    fun r busy => (inv.known r busy).concat c, fun _ _ _ => by simp⟩
  · show (s.accepted ++ [c]).map charToInt = s.delivered ++ (queue ++ [c]).map charToInt
    rw [List.map_append, List.map_append, inv.order, List.append_assoc]
  · intro d mem
    rcases List.mem_append.mp mem with mem | mem
    · exact inv.ascii d mem
    · rw [List.mem_singleton.mp mem]
      exact ascii
  · rw [List.length_append, List.length_singleton]
    omega
  · show (s.kbd.kbdHead + 1) % 256 = (s.kbd.kbdTail + (queue ++ [c]).length) % 256
    rw [inv.head, List.length_append, List.length_singleton]
    omega

/-- **An interrupt keeps the invariant.** -/
theorem KbdInv.interrupt (inv : KbdInv s queue) (e : KeyEvent) :
    ∃ queue', KbdInv (s.interrupt e) queue' := by
  rw [KbdSystem.interrupt, keyboardHandler]
  cases action : keyAction s.kbd.shiftPressed e with
  | nothing => exact ⟨queue, inv⟩
  | shift pressed => exact ⟨queue, inv.setShift pressed⟩
  | push c => exact inv.push (push_ascii action)

/-! ## The steps of a reader -/

/-- A reader that is alone goes on. -/
theorem KbdInv.goTo (inv : KbdInv s queue) {r : Nat} (alone : ∀ q, s.pc q ≠ .idle → q = r)
    {pc : GetcharPc} {pending : Bool} (knows : pc.Knows s.kbd.kbdTail queue pending)
    (full : pending = true → queue ≠ []) :
    KbdInv { s.goTo r pc with pending := Function.update s.pending r pending } queue := by
  have busy : ∀ q, Function.update s.pc r pc q ≠ .idle → q = r := by
    intro q busy
    by_contra other
    rw [Function.update_of_ne other] at busy
    exact other (alone q busy)
  refine ⟨inv.order, inv.ascii, inv.empty, inv.short, inv.tail, inv.head, inv.slots,
    fun q q' one two => (busy q one).trans (busy q' two).symm, fun q running => ?_,
    fun q running seen => ?_⟩
  · obtain rfl := busy q running
    show (Function.update s.pc q pc q).Knows s.kbd.kbdTail queue (Function.update s.pending q pending q)
    rw [Function.update_self, Function.update_self]
    exact knows
  · obtain rfl := busy q running
    refine full ?_
    rw [← seen]
    exact (Function.update_self (f := s.pending) q pending).symm

/-- A reader that is in the middle of a call goes on. -/
theorem KbdInv.next (inv : KbdInv s queue) {r : Nat} (busy : s.pc r ≠ .idle) {pc : GetcharPc}
    (knows : pc.Knows s.kbd.kbdTail queue (s.pending r)) : KbdInv (s.goTo r pc) queue := by
  have inv' := inv.goTo (fun q other => inv.one q r other busy) knows (inv.full r busy)
  rwa [Function.update_eq_self] at inv'

/-- After a return every reader is outside. -/
theorem KbdInv.outside (inv : KbdInv s queue) {r : Nat} (busy : s.pc r ≠ .idle) (q : Nat) :
    (s.goTo r .idle).pc q = .idle := by
  show Function.update s.pc r .idle q = .idle
  by_cases same : q = r
  · rw [same, Function.update_self]
  · rw [Function.update_of_ne same]
    by_contra other
    exact same (inv.one q r other busy)

/-- A call that returns a character delivers it. -/
theorem KbdSystem.delivered_return (s : KbdSystem) (r : Nat) (result : Int) :
    (s.return_ r result).delivered =
      if result ≠ -1 then s.delivered ++ [result] else s.delivered := by
  have calls : (s.return_ r result).calls = s.calls ++ [⟨result, s.pending r⟩] := rfl
  rw [delivered, calls, List.map_append, List.filter_append, ← delivered]
  by_cases char : result = -1
  · simp [char]
  · simp [char]

/-- **A call that returns -1**: none was pending when it began. -/
theorem KbdInv.returnEmpty (inv : KbdInv s queue) {r : Nat} (busy : s.pc r ≠ .idle)
    (none : s.pending r = false) : KbdInv (s.return_ r (-1)) queue := by
  have outside := inv.outside busy
  refine ⟨?_, inv.ascii, ?_, inv.short, inv.tail, inv.head, inv.slots,
    fun q _ running => absurd (outside q) running, fun q running => absurd (outside q) running,
    fun q running => absurd (outside q) running⟩
  · rw [KbdSystem.delivered_return, if_neg (not_not_intro rfl)]
    exact inv.order
  · intro call mem
    rcases List.mem_append.mp mem with mem | mem
    · exact inv.empty call mem
    · rw [List.mem_singleton.mp mem]
      exact iff_of_true rfl none

/-- **A call that returns a character**: the first one that is pending. -/
theorem KbdInv.returnChar {c : UInt8} (inv : KbdInv s (c :: queue)) {r : Nat}
    (busy : s.pc r ≠ .idle) (pending : s.pending r = true) :
    KbdInv ({ s with kbd := { s.kbd with kbdTail := (s.kbd.kbdTail + 1) % kbdBufSize } }.return_ r
      (charToInt c)) queue := by
  have outside := inv.outside busy
  have char := charToInt_ne (inv.ascii c List.mem_cons_self)
  have short := inv.short
  have low := inv.tail
  rw [List.length_cons] at short
  refine ⟨?_, fun d mem => inv.ascii d (List.mem_cons_of_mem c mem), ?_, by omega,
    Nat.mod_lt _ (by decide), ?_, inv.slots.tail, fun q _ running => absurd (outside q) running,
    fun q running => absurd (outside q) running, fun q running => absurd (outside q) running⟩
  · rw [KbdSystem.delivered_return, if_pos char, List.append_assoc]
    exact inv.order
  · intro call mem
    rcases List.mem_append.mp mem with mem | mem
    · exact inv.empty call mem
    · rw [List.mem_singleton.mp mem]
      dsimp only
      rw [pending]
      exact iff_of_false char (by decide)
  · show s.kbd.kbdHead = ((s.kbd.kbdTail + 1) % 256 + queue.length) % 256
    rw [inv.head, List.length_cons]
    omega

/-- **A step of a reader keeps the invariant**, if calls do not overlap. -/
theorem KbdInv.read (inv : KbdInv s queue) {r : Nat} (one : OneReader s (.read r)) :
    ∃ queue', KbdInv (s.read r) queue' := by
  have short := inv.short
  have low := inv.tail
  unfold KbdSystem.read
  cases at_ : s.pc r with
  | idle =>
      refine ⟨queue, inv.goTo (fun q running => absurd (one at_ q) running) ?_ ?_⟩
      · show s.kbd.kbdHead = s.kbd.kbdTail ↔ _
        rw [decide_eq_false_iff_not, inv.waiting, inv.head]
        omega
      · rw [decide_eq_true_iff, inv.waiting]
        exact List.ne_nil_of_length_pos
  | compare head =>
      have busy : s.pc r ≠ .idle := by rw [at_]; exact GetcharPc.noConfusion
      have known := inv.known r busy
      rw [at_] at known
      dsimp only
      by_cases empty : head = s.kbd.kbdTail
      · rw [if_pos empty]
        exact ⟨queue, inv.returnEmpty busy (known.mp empty)⟩
      · rw [if_neg empty]
        exact ⟨queue, inv.next busy (Bool.not_eq_false _ |>.mp (known.not.mp empty))⟩
  | index =>
      have busy : s.pc r ≠ .idle := by rw [at_]; exact GetcharPc.noConfusion
      have known := inv.known r busy
      rw [at_] at known
      exact ⟨queue, inv.next busy ⟨known, rfl⟩⟩
  | fetch tail =>
      have busy : s.pc r ≠ .idle := by rw [at_]; exact GetcharPc.noConfusion
      have known := inv.known r busy
      rw [at_] at known
      obtain ⟨pending, rfl⟩ := known
      obtain ⟨c, queue, rfl⟩ := List.exists_cons_of_ne_nil (inv.full r busy pending)
      have first := inv.slots.head
      rw [Nat.mod_eq_of_lt low] at first
      exact ⟨c :: queue, inv.next busy ⟨pending, congrArg some first.symm⟩⟩
  | advance c =>
      have busy : s.pc r ≠ .idle := by rw [at_]; exact GetcharPc.noConfusion
      have known := inv.known r busy
      rw [at_] at known
      exact ⟨queue, inv.next busy ⟨known.1, known.2, rfl⟩⟩
  | store c tail =>
      have busy : s.pc r ≠ .idle := by rw [at_]; exact GetcharPc.noConfusion
      have known := inv.known r busy
      rw [at_] at known
      obtain ⟨pending, first, rfl⟩ := known
      obtain ⟨queue, rfl⟩ := List.head?_eq_some_iff.mp first
      exact ⟨queue, inv.returnChar busy pending⟩

/-- **The buffer is first in, first out** in every run in which no reader begins a call while
another one is in the middle of one.  Interrupts come at any point.  Head and tail are read and
written in single steps, and the queue between them is the invariant (`KbdInv`).  Two readers at
once are possible: `SYS_EXIT` drains the buffer while another task is in `SYS_READ`. -/
theorem kbd_fifo {events : List KbdEvent}
    (run : Run (Guarded OneReader KbdStep) .start events s) : KbdFifo s := by
  obtain ⟨queue, inv⟩ : ∃ queue, KbdInv s queue := by
    refine run.invariant (fun s => ∃ queue, KbdInv s queue) ?_ ⟨[], kbdInv_start⟩
    rintro s event t ⟨queue, inv⟩ ⟨one, rfl⟩
    cases event with
    | interrupt e => exact inv.interrupt e
    | read r => exact inv.read one
  exact inv.fifo

/-- The key of `a`, and a call that is interrupted by the key of `b` after its first access. -/
def typedEvents : List KbdEvent :=
  [.interrupt ⟨0, 0x1E⟩, .read 0, .interrupt ⟨0, 0x30⟩, .read 0, .read 0, .read 0, .read 0, .read 0]

/-- The call returns `a`, and `b` is pending. -/
theorem kbd_fifo_typed : KbdFifo (typedEvents.foldl KbdSystem.next .start) := by
  refine kbd_fifo (?_ : Run (Guarded OneReader KbdStep) .start typedEvents _)
  have busy : ∀ {t : KbdSystem}, t.pc 0 ≠ .idle → OneReader t (.read 0) :=
    fun running outside => absurd outside running
  refine .cons ⟨trivial, rfl⟩ (.cons ⟨fun _ _ => rfl, rfl⟩ (.cons ⟨trivial, rfl⟩ ?_))
  refine .cons ⟨busy GetcharPc.noConfusion, rfl⟩ (.cons ⟨busy GetcharPc.noConfusion, rfl⟩ ?_)
  refine .cons ⟨busy GetcharPc.noConfusion, rfl⟩ (.cons ⟨busy GetcharPc.noConfusion, rfl⟩ ?_)
  exact .cons ⟨busy GetcharPc.noConfusion, rfl⟩ (.nil _)

/-- Every list of events is a run. -/
theorem kbd_run (events : List KbdEvent) (s : KbdSystem) :
    Run KbdStep s events (events.foldl KbdSystem.next s) := by
  induction events generalizing s with
  | nil => exact .nil s
  | cons event events ih => exact .cons rfl (ih (s.next event))

/-- The key of `a`; a reader fetches the character, another one makes a whole call, and the first
one goes on. -/
def racingEvents : List KbdEvent :=
  [.interrupt ⟨0, 0x1E⟩, .read 0, .read 0, .read 0, .read 0] ++
    [.read 1, .read 1, .read 1, .read 1, .read 1, .read 1] ++ [.read 0, .read 0]

/-- **Two readers get the same character.** -/
theorem kbd_not_fifo : ¬ ∀ events s, Run KbdStep .start events s → KbdFifo s := by
  intro fifo
  have order := (fifo racingEvents _ (kbd_run _ _)).order
  have twice : (racingEvents.foldl KbdSystem.next .start).delivered = [0x61, 0x61] := by decide
  have once : (racingEvents.foldl KbdSystem.next .start).accepted = [0x61] := by decide
  rw [twice, once] at order
  exact absurd order.length_le (by decide)

end Flyos
