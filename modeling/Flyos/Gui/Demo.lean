import Flyos.Gui.GuiSpec

/-!
# The windows of the kernel

The callbacks of `kernel/main.c` and `kernel/gui/term_window.c`, which leave the windows where
they are (`kernelCallbacks_keepPlaces`), and the two windows that `main.c` opens.
-/

namespace Flyos

/-- The callbacks of the kernel. -/
inductive KernelHandler
  | demoDraw
  | demoClick
  | demoClose
  | termOnDraw
  | termOnMove

/-- What these callbacks read and write: the terminal, whose screen is the one of the windows, and
`counter_value`. -/
structure KernelState where
  term : Term
  counterValue : Int

/-- The desktop of the kernel. -/
abbrev KernelDesktop : Type := Desktop KernelHandler KernelState

/-- A call of the terminal.  One that fails does nothing here; none does in a region that
`fb_term.c` made. -/
def onTerm (f : Term → Except TermFault Term) (d : KernelDesktop) : KernelDesktop :=
  match f (d.rest.term.onScreen fun _ => d.screen) with
  | .ok t => { d with screen := t.screen, rest := { d.rest with term := t } }
  | .error _ => d

/-- The characters of a text. -/
def chars (text : String) : List UInt8 := text.toList.map fun c => c.toNat.toUInt8

/-- `counter_value` in decimal; there are no digits for a negative one. -/
def counterText (n : Int) : List UInt8 :=
  if n < 0 then [] else (Nat.toDigits 10 n.toNat).map fun c => c.toNat.toUInt8

/-- The place of the button of the counter. -/
def buttonRect (win : Window KernelHandler) : Int32 × Int32 :=
  (win.x + 30, win.y + winTitleH + winBorder + 40)

/-- `button_hit`. -/
def buttonHit (win : Window KernelHandler) (mx my : Int32) : Bool :=
  let b := buttonRect win
  decide (b.1 ≤ mx) && decide (mx < b.1 + 180) && decide (b.2 ≤ my) && decide (my < b.2 + 48)

/-- `demo_draw`. -/
def demoDraw (font : UInt8 → Nat → UInt8) (p : WinPtr) (d : KernelDesktop) : KernelDesktop :=
  let win := d.store p
  let b := buttonRect win
  let ty := b.2 + 48 + 40
  d.draw fun fb m =>
    let m := fillRect b.1 b.2 180 48 (fbRgb fb 50 160 80) fb m
    let m := fbTermDrawTextAt font (b.1 + 20).toInt (b.2 + 16).toInt (fbRgb fb 255 255 255)
      (fbRgb fb 50 160 80) fb (chars "Click me!") m
    let m := fbTermDrawTextAt font b.1.toInt ty.toInt (fbRgb fb 200 200 200) win.bgColor fb
      (chars "Count:") m
    fbTermDrawTextAt font (b.1 + 48).toInt ty.toInt (fbRgb fb 255 220 60) win.bgColor fb
      (counterText d.rest.counterValue) m

/-- `demo_click`. -/
def demoClick (p : WinPtr) (mx my : Int32) (d : KernelDesktop) : KernelDesktop :=
  if buttonHit (d.store p) mx my then
    { d with rest := { d.rest with counterValue := int32 (d.rest.counterValue + 1) } }
  else d

/-- `term_update_region`. -/
def termUpdateRegion (p : WinPtr) (d : KernelDesktop) : KernelDesktop :=
  let win := d.store p
  onTerm (fbTermSetRegion (win.x + winBorder).toInt (win.y + winBorder + winTitleH).toInt
    (win.w - 2 * winBorder).toInt (win.h - 2 * winBorder - winTitleH).toInt) d

/-- What the callbacks do; a handler is called only from the fields that it is put into. -/
def kernelCallbacks (font : UInt8 → Nat → UInt8) : Callbacks KernelHandler KernelState where
  call h p d :=
    match h with
    | .demoDraw => demoDraw font p d
    | .termOnDraw => onTerm (fbTermRedraw font) d
    | .termOnMove => termUpdateRegion p d
    | .demoClick | .demoClose => d
  click h p mx my d :=
    match h with
    | .demoClick => demoClick p mx my d
    | _ => d

theorem samePlaces_onTerm (f : Term → Except TermFault Term) (d : KernelDesktop) :
    SamePlaces d (onTerm f d) := by
  unfold onTerm
  split <;> exact .refl d

/-- **The callbacks of the kernel leave the windows where they are.** -/
theorem kernelCallbacks_keepPlaces (font : UInt8 → Nat → UInt8) :
    (kernelCallbacks font).KeepPlaces where
  call h p d := by
    cases h with
    | demoDraw => exact .refl d
    | demoClick => exact .refl d
    | demoClose => exact .refl d
    | termOnDraw => exact samePlaces_onTerm _ d
    | termOnMove => exact samePlaces_onTerm _ d
  click h p mx my d := by
    cases h with
    | demoClick =>
        show SamePlaces d (demoClick p mx my d)
        unfold demoClick
        split <;> exact .refl d
    | demoDraw => exact .refl d
    | demoClose => exact .refl d
    | termOnDraw => exact .refl d
    | termOnMove => exact .refl d

/-- The windows of `main.c`: the terminal at 1, the counter at 2. -/
def kernelWindow (p : WinPtr) : Window KernelHandler :=
  if p = 1 then
    { x := 50, y := 50, w := 700, h := 500, title := chars "Terminal", bgColor := 0x0A0A28,
      titleBg := 0x4664C8, titleFg := 0xFFFFFF, borderColor := 0x14141E, visible := true,
      focused := true, onDraw := some .termOnDraw, onClick := none, onClose := none,
      onMove := some .termOnMove }
  else
    { x := 800, y := 100, w := 420, h := 300, title := chars "Counter Demo", bgColor := 0x282837,
      titleBg := 0x4664C8, titleFg := 0xFFFFFF, borderColor := 0x14141E, visible := true,
      focused := false, onDraw := some .demoDraw, onClick := some .demoClick,
      onClose := some .demoClose, onMove := none }

/-- The gui before `gui_init`. -/
def kernelGui : Gui KernelHandler KernelState :=
  ⟨fun _ => 0, 0, 0, none, none, 0, 0, ⟨kernelWindow, smallScreen, ⟨.powerOn smallScreen, 0⟩⟩⟩

/-- Both windows are added, and the terminal is dragged by its title. -/
def kernelEvents : List GuiOp :=
  [.add 1, .add 2, .mouse 100 60 1, .mouse 200 160 1, .mouse 200 160 0]

/-- What holds of the windows holds of these, and drags keep their offset. -/
theorem window_manager_kernel :
    let cb := kernelCallbacks fun _ _ => 0
    let L := GuiLog.after (fun _ _ => 0) cb kernelGui kernelEvents
    cb.KeepPlaces ∧ GuiInv cb L ∧ PressRaises (fun _ _ => 0) cb L.gui ∧
      DragFollows (fun _ _ => 0) cb L :=
  ⟨kernelCallbacks_keepPlaces _, window_manager _ _ kernelGui (by decide)⟩

end Flyos
