import Flyos.Lib.Since
import Mathlib.Logic.Function.Basic

/-!
# The keyboard driver

`kernel/drivers/keyboard.c`: the key map, the interrupt handler and the buffer it fills.  An
interrupt is the pair of bytes the handler reads, the status and the scan code; characters
are bytes.

The driver keeps one flag for two shift keys.  `KeyHeld` is what a history of scan codes says
about one key, and `shiftExact_iff` says for which histories the flag agrees with it.
-/

namespace Flyos

/-- `KBD_BUF_SIZE`. -/
abbrev kbdBufSize : Nat := 256

/-- The entries of `keymap` that are given, row by row. -/
def keymapRows : List UInt8 :=
  -- 0, escape and the digits
  [0, 27, 0x31, 0x32, 0x33, 0x34, 0x35, 0x36, 0x37, 0x38, 0x39, 0x30, 0x2D, 0x3D, 8] ++
  -- from the tab key to the return key
  [9, 0x71, 0x77, 0x65, 0x72, 0x74, 0x79, 0x75, 0x69, 0x6F, 0x70, 0x5B, 0x5D, 10] ++
  [0, 0x61, 0x73, 0x64, 0x66, 0x67, 0x68, 0x6A, 0x6B, 0x6C, 0x3B, 0x27, 0x60] ++
  [0, 0x5C, 0x7A, 0x78, 0x63, 0x76, 0x62, 0x6E, 0x6D, 0x2C, 0x2E, 0x2F] ++
  [0, 0x2A, 0, 0x20]

/-- `keymap[scancode]`. -/
def keymap (scancode : UInt8) : UInt8 := keymapRows.getD scancode.toNat 0

/-- The cases of the `switch` over a character typed with shift. -/
def shiftCases : List (UInt8 × UInt8) :=
  [(0x31, 0x21), (0x32, 0x40), (0x33, 0x23), (0x34, 0x24), (0x35, 0x25), (0x36, 0x5E),
    (0x37, 0x26), (0x38, 0x2A), (0x39, 0x28), (0x30, 0x29), (0x2D, 0x5F), (0x3D, 0x2B),
    (0x5B, 0x7B), (0x5D, 0x7D), (0x5C, 0x7C), (0x3B, 0x3A), (0x27, 0x22), (0x2C, 0x3C),
    (0x2E, 0x3E), (0x2F, 0x3F), (0x60, 0x7E)]

/-- A character with shift. -/
def shifted (c : UInt8) : UInt8 :=
  if 0x61 ≤ c ∧ c ≤ 0x7A then c - 0x61 + 0x41 else (shiftCases.lookup c).getD c

/-- The variables of the driver. -/
structure Keyboard where
  shiftPressed : Bool
  kbdBuf : Nat → UInt8
  kbdHead : Nat
  kbdTail : Nat

/-- The driver at the start. -/
def Keyboard.start : Keyboard where
  shiftPressed := false
  kbdBuf := fun _ => 0
  kbdHead := 0
  kbdTail := 0

/-- `kbd_push`. -/
def kbdPush (k : Keyboard) (c : UInt8) : Keyboard :=
  let next := (k.kbdHead + 1) % kbdBufSize
  if next = k.kbdTail then k
  else { k with kbdBuf := Function.update k.kbdBuf k.kbdHead c, kbdHead := next }

/-- An interrupt: the bytes at `KBD_STATUS` and at `KBD_DATA`. -/
structure KeyEvent where
  status : UInt8
  scancode : UInt8

/-- What `keyboard_handler` does with an interrupt. -/
inductive KeyAction
  | nothing
  | shift (pressed : Bool)
  | push (c : UInt8)

/-- The branches of `keyboard_handler`, with the value of `shift_pressed`. -/
def keyAction (shiftPressed : Bool) (e : KeyEvent) : KeyAction :=
  if e.status &&& 0x20 ≠ 0 then .nothing
  else if e.scancode &&& 0x80 ≠ 0 then
    let released := e.scancode &&& 0x7F
    if released = 0x2A ∨ released = 0x36 then .shift false else .nothing
  else if e.scancode = 0x2A ∨ e.scancode = 0x36 then .shift true
  else if e.scancode < 128 then
    let c := keymap e.scancode
    if c ≠ 0 then .push (if shiftPressed then shifted c else c) else .nothing
  else .nothing

/-- `keyboard_handler`. -/
def keyboardHandler (k : Keyboard) (e : KeyEvent) : Keyboard :=
  match keyAction k.shiftPressed e with
  | .nothing => k
  | .shift pressed => { k with shiftPressed := pressed }
  | .push c => kbdPush k c

@[simp] theorem kbdPush_shiftPressed (k : Keyboard) (c : UInt8) :
    (kbdPush k c).shiftPressed = k.shiftPressed := by
  unfold kbdPush
  dsimp only
  split <;> rfl

/-! ## The keys that are held -/

/-- The interrupt is one of the keyboard, and its scan code is `code`. -/
def KeyEvent.Is (e : KeyEvent) (code : UInt8) : Prop := e.status &&& 0x20 = 0 ∧ e.scancode = code

instance (e : KeyEvent) (code : UInt8) : Decidable (e.Is code) :=
  inferInstanceAs (Decidable (_ ∧ _))

/-- **A key is held**: it was pressed and has not been released since.  The code of the release
has the top bit set. -/
def KeyHeld (key : UInt8) : List KeyEvent → Prop := Since (·.Is key) (·.Is (key ||| 0x80))

/-- A shift key is held. -/
def ShiftHeld (events : List KeyEvent) : Prop := KeyHeld 0x2A events ∨ KeyHeld 0x36 events

/-- The press of a shift key. -/
def KeyEvent.PressesShift (e : KeyEvent) : Prop := e.Is 0x2A ∨ e.Is 0x36

/-- The release of a shift key. -/
def KeyEvent.ReleasesShift (e : KeyEvent) : Prop := e.Is 0xAA ∨ e.Is 0xB6

/-- The driver after the interrupts. -/
def keyboardAfter (events : List KeyEvent) : Keyboard :=
  events.foldl keyboardHandler .start

/-- **Shift is applied exactly while a shift key is held**: the character of a key is the shifted
form of its entry in the key map if a shift key is held, and the entry itself otherwise. -/
def ShiftExact (events : List KeyEvent) : Prop :=
  ∀ before e after, events = before ++ e :: after → ∀ c,
    keyAction (keyboardAfter before).shiftPressed e = .push c →
      (ShiftHeld before → c = shifted (keymap e.scancode)) ∧
        (¬ ShiftHeld before → c = keymap e.scancode)

/-- The press of a key whose character has another shifted form. -/
def KeyEvent.Shifts (e : KeyEvent) : Prop :=
  e.status &&& 0x20 = 0 ∧ e.scancode < 128 ∧ ¬ e.PressesShift ∧ keymap e.scancode ≠ 0 ∧
    shifted (keymap e.scancode) ≠ keymap e.scancode

/-- **A shift key was released while the other one was held**, and none was pressed since. -/
def ReleasedBeside (events : List KeyEvent) : Prop :=
  ShiftHeld events ∧ Since KeyEvent.ReleasesShift KeyEvent.PressesShift events

/-! ## The flag -/

/-- What holds of the 256 bytes holds of every byte. -/
theorem forall_byte {P : UInt8 → Prop} (all : ∀ n < 256, P (UInt8.ofNat n)) (b : UInt8) : P b := by
  have here := all b.toNat b.toNat_lt
  rwa [UInt8.ofNat_toNat] at here

/-- The code of a release. -/
theorem released_iff (code : UInt8) : code &&& 0x80 ≠ 0 ∧
    (code &&& 0x7F = 0x2A ∨ code &&& 0x7F = 0x36) ↔ code = 0xAA ∨ code = 0xB6 :=
  forall_byte (P := fun code => code &&& 0x80 ≠ 0 ∧
    (code &&& 0x7F = 0x2A ∨ code &&& 0x7F = 0x36) ↔ code = 0xAA ∨ code = 0xB6)
    (by decide +kernel) code

/-- The code of a press. -/
theorem pressed_iff (code : UInt8) : code &&& 0x80 = 0 ↔ code < 128 :=
  forall_byte (P := fun code => code &&& 0x80 = 0 ↔ code < 128) (by decide +kernel) code

/-- **What the handler does with an interrupt**: presses and releases of the shift keys set and
clear the flag, presses of keys with an entry in the key map push a character. -/
theorem keyAction_eq (flag : Bool) (e : KeyEvent) :
    (e.PressesShift ∧ keyAction flag e = .shift true) ∨
    (e.ReleasesShift ∧ keyAction flag e = .shift false) ∨
    (¬ e.PressesShift ∧ ¬ e.ReleasesShift ∧ (keyAction flag e = .nothing ∨
      e.status &&& 0x20 = 0 ∧ e.scancode < 128 ∧ keymap e.scancode ≠ 0 ∧
        keyAction flag e =
          .push (if flag then shifted (keymap e.scancode) else keymap e.scancode))) := by
  have released := released_iff e.scancode
  have pressed := pressed_iff e.scancode
  unfold KeyEvent.PressesShift KeyEvent.ReleasesShift KeyEvent.Is
  by_cases mouse : e.status &&& 0x20 = 0
  swap
  · right; right
    exact ⟨fun h => h.elim (fun h => mouse h.1) fun h => mouse h.1,
      fun h => h.elim (fun h => mouse h.1) fun h => mouse h.1, .inl (if_pos mouse)⟩
  rw [keyAction, if_neg (not_not_intro mouse)]
  by_cases top : e.scancode &&& 0x80 = 0
  · have low := pressed.mp top
    rw [if_neg (not_not_intro top)]
    have notReleased : ¬ (e.scancode = 0xAA ∨ e.scancode = 0xB6) :=
      fun code => (released.mpr code).1 top
    by_cases press : e.scancode = 0x2A ∨ e.scancode = 0x36
    · left
      rw [if_pos press]
      exact ⟨press.imp (fun code => ⟨mouse, code⟩) fun code => ⟨mouse, code⟩, rfl⟩
    · right; right
      rw [if_neg press, if_pos low]
      refine ⟨fun h => press (h.imp And.right And.right),
        fun h => notReleased (h.imp And.right And.right), ?_⟩
      dsimp only
      by_cases entry : keymap e.scancode ≠ 0
      · rw [if_pos entry]
        exact .inr ⟨mouse, low, entry, rfl⟩
      · rw [if_neg entry]
        exact .inl rfl
  · right
    rw [if_pos top]
    dsimp only
    by_cases release : e.scancode &&& 0x7F = 0x2A ∨ e.scancode &&& 0x7F = 0x36
    · left
      rw [if_pos release]
      exact ⟨(released.mp ⟨top, release⟩).imp (fun code => ⟨mouse, code⟩) fun code => ⟨mouse, code⟩,
        rfl⟩
    · right
      rw [if_neg release]
      refine ⟨fun h => ?_, fun h => release (released.mpr (h.imp And.right And.right)).2, .inl rfl⟩
      rcases h with ⟨-, code⟩ | ⟨-, code⟩
      · exact top (by rw [code]; decide)
      · exact top (by rw [code]; decide)

/-- A press is no release. -/
theorem KeyEvent.PressesShift.not_releases {e : KeyEvent} (presses : e.PressesShift) :
    ¬ e.ReleasesShift := by
  rintro (⟨-, release⟩ | ⟨-, release⟩) <;> rcases presses with ⟨-, press⟩ | ⟨-, press⟩ <;>
    exact absurd (press.symm.trans release) (by decide)

/-- **What the flag says**: a shift key was pressed, and none released since. -/
theorem shiftPressed_keyboardAfter (events : List KeyEvent) :
    (keyboardAfter events).shiftPressed = true ↔
      Since KeyEvent.PressesShift KeyEvent.ReleasesShift events := by
  induction events using List.reverseRecOn with
  | nil => exact iff_of_false Bool.false_ne_true Since.nil
  | append_singleton events e ih =>
      rw [Since.append_singleton, keyboardAfter, List.foldl_append, List.foldl_cons, List.foldl_nil,
        ← keyboardAfter, keyboardHandler]
      rcases keyAction_eq (keyboardAfter events).shiftPressed e with
        ⟨presses, action⟩ | ⟨releases, action⟩ | ⟨presses, releases, action⟩
      · rw [action]
        exact iff_of_true rfl (.inl presses)
      · rw [action]
        refine iff_of_false Bool.false_ne_true ?_
        rintro (presses | ⟨-, not⟩)
        · exact presses.not_releases releases
        · exact not releases
      · have same : Since KeyEvent.PressesShift KeyEvent.ReleasesShift events ↔
            e.PressesShift ∨ Since KeyEvent.PressesShift KeyEvent.ReleasesShift events ∧
              ¬ e.ReleasesShift :=
          ⟨fun since => .inr ⟨since, releases⟩,
            fun now => (now.resolve_left presses).1⟩
        rcases action with action | ⟨-, -, -, action⟩
        · rw [action]
          exact ih.trans same
        · rw [action]
          dsimp only
          rw [kbdPush_shiftPressed]
          exact ih.trans same

/-- Where the flag is set a shift key is held. -/
theorem shiftHeld_of_flag {events : List KeyEvent}
    (flag : (keyboardAfter events).shiftPressed = true) : ShiftHeld events := by
  rcases Since.or.mp ((shiftPressed_keyboardAfter events).mp flag) with left | right
  · exact .inl (left.mono (fun _ => id) fun _ => .inl)
  · exact .inr (right.mono (fun _ => id) fun _ => .inr)

/-- **Where the flag is wrong**: a shift key is held and the flag is not set, exactly if one was
released beside the other. -/
theorem releasedBeside_iff (events : List KeyEvent) :
    ReleasedBeside events ↔ ShiftHeld events ∧ (keyboardAfter events).shiftPressed = false := by
  rw [ReleasedBeside, ← Bool.not_eq_true, shiftPressed_keyboardAfter]
  refine and_congr_right fun held => ⟨fun released pressed => ?_, fun not => ?_⟩
  · exact pressed.exclusive (fun _ presses => presses.not_releases) released
  · have press : Since KeyEvent.PressesShift (fun _ => False) events := by
      rcases held with left | right
      · exact left.mono (fun _ => .inl) fun _ => False.elim
      · exact right.mono (fun _ => .inr) fun _ => False.elim
    exact press.last.resolve_left not

/-- **When shift is exact**: exactly if no key whose character has another shifted form is
pressed after a shift key was released while the other one was held.  The driver has one flag for
two keys, so a release clears it while the other key is held; flag and keys differ in exactly the
states that `ReleasedBeside` describes, and it matters only for keys with a shifted character. -/
theorem shiftExact_iff (events : List KeyEvent) :
    ShiftExact events ↔
      ∀ before e after, events = before ++ e :: after → e.Shifts → ¬ ReleasedBeside before := by
  constructor
  · rintro exact before e after eq ⟨mouse, low, presses, entry, other⟩ beside
    obtain ⟨held, flag⟩ := (releasedBeside_iff before).mp beside
    rcases keyAction_eq (keyboardAfter before).shiftPressed e with
      ⟨press, -⟩ | ⟨release, -⟩ | ⟨-, -, action⟩
    · exact presses press
    · rcases release with ⟨-, code⟩ | ⟨-, code⟩ <;> rw [code] at low <;> exact absurd low (by decide)
    · rcases action with action | ⟨-, -, -, action⟩
      · have pushed : keyAction (keyboardAfter before).shiftPressed e = .push (keymap e.scancode) := by
          rw [flag, keyAction, if_neg (not_not_intro mouse),
            if_neg (not_not_intro ((pressed_iff _).mpr low)),
            if_neg fun code => presses (code.imp (fun code => ⟨mouse, code⟩) fun code => ⟨mouse, code⟩),
            if_pos low]
          exact if_pos entry
        rw [pushed] at action
        cases action
      · rw [flag] at action
        have typed := (exact before e after eq _ (by rw [flag]; exact action)).1 held
        exact other typed.symm
  · intro apart before e after eq c action
    rcases keyAction_eq (keyboardAfter before).shiftPressed e with
      ⟨-, other⟩ | ⟨-, other⟩ | ⟨presses, -, other | ⟨mouse, low, entry, other⟩⟩
    · rw [action] at other
      cases other
    · rw [action] at other
      cases other
    · rw [action] at other
      cases other
    · rw [action] at other
      obtain rfl := KeyAction.push.inj other
      cases flag : (keyboardAfter before).shiftPressed with
      | true => exact ⟨fun _ => rfl, fun not => absurd (shiftHeld_of_flag flag) not⟩
      | false =>
          refine ⟨fun held => ?_, fun _ => rfl⟩
          by_contra differs
          exact apart before e after eq ⟨mouse, low, presses, entry, fun same => differs same.symm⟩
            ((releasedBeside_iff before).mpr ⟨held, flag⟩)

/-- Both shift keys pressed, the left one released, and then the key of `a`. -/
def overlappingShifts : List KeyEvent := [⟨0, 0x2A⟩, ⟨0, 0x36⟩, ⟨0, 0xAA⟩, ⟨0, 0x1E⟩]

/-- **The right shift key is held, and the character is `a`.** -/
theorem shift_not_exact : ¬ ShiftExact overlappingShifts := by
  intro exact
  have held : ShiftHeld [⟨0, 0x2A⟩, ⟨0, 0x36⟩, ⟨0, 0xAA⟩] :=
    .inr ⟨[⟨0, 0x2A⟩], ⟨0, 0x36⟩, [⟨0, 0xAA⟩], rfl, by decide, by decide⟩
  have typed := (exact [⟨0, 0x2A⟩, ⟨0, 0x36⟩, ⟨0, 0xAA⟩] ⟨0, 0x1E⟩ [] rfl 0x61 rfl).1 held
  exact absurd typed (by decide)

end Flyos
