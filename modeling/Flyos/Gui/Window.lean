import Flyos.Drivers.Terminal
import Mathlib.Logic.Function.Basic

/-!
# Windows

`kernel/gui/window.c`.  Windows are referred to by pointers.  A callback is referred to by a
name of type `H`, and what it does is a parameter (`Callbacks`): it may change the windows, the
screen and whatever else there is, of type `κ`, but it has no way to the variables of the gui.
-/

namespace Flyos

/-- A `window_t*` that is not null. -/
abbrev WinPtr : Type := Nat

/-- `WIN_TITLE_H`. -/
abbrev winTitleH : Int32 := 24

/-- `WIN_BORDER`. -/
abbrev winBorder : Int32 := 2

/-- `WIN_CLOSE_SIZE`. -/
abbrev winCloseSize : Int32 := 14

/-- `window_t`. -/
structure Window (H : Type) where
  x : Int32
  y : Int32
  w : Int32
  h : Int32
  title : List UInt8
  bgColor : UInt32
  titleBg : UInt32
  titleFg : UInt32
  borderColor : UInt32
  visible : Bool
  focused : Bool
  onDraw : Option H
  onClick : Option H
  onClose : Option H
  onMove : Option H

/-- The windows, the screen, and the state of the callbacks. -/
structure Desktop (H κ : Type) where
  store : WinPtr → Window H
  screen : Screen
  rest : κ

/-- What the callbacks do. -/
structure Callbacks (H κ : Type) where
  call : H → WinPtr → Desktop H κ → Desktop H κ
  click : H → WinPtr → Int32 → Int32 → Desktop H κ → Desktop H κ

variable {H κ : Type}

namespace Desktop

/-- Drawn on the screen. -/
def draw (f : FbMode → ByteMemory → ByteMemory) (d : Desktop H κ) : Desktop H κ :=
  { d with screen := { d.screen with mem := f d.screen.fb d.screen.mem } }

/-- A call of the mouse cursor. -/
def onScreen (f : Screen → Screen) (d : Desktop H κ) : Desktop H κ :=
  { d with screen := f d.screen }

/-- A window changed. -/
def setWindow (p : WinPtr) (f : Window H → Window H) (d : Desktop H κ) : Desktop H κ :=
  { d with store := Function.update d.store p (f (d.store p)) }

/-- `focused` set. -/
def setFocused (p : WinPtr) (focused : Bool) (d : Desktop H κ) : Desktop H κ :=
  d.setWindow p fun win => { win with focused := focused }

/-- A window moved. -/
def moveTo (p : WinPtr) (x y : Int32) (d : Desktop H κ) : Desktop H κ :=
  d.setWindow p fun win => { win with x := x, y := y }

end Desktop

namespace Callbacks

variable (cb : Callbacks H κ)

/-- A callback, if there is one. -/
def callIf (h : Option H) (p : WinPtr) (d : Desktop H κ) : Desktop H κ :=
  match h with
  | none => d
  | some h => cb.call h p d

/-- `on_click`, if there is one. -/
def clickIf (h : Option H) (p : WinPtr) (mx my : Int32) (d : Desktop H κ) : Desktop H κ :=
  match h with
  | none => d
  | some h => cb.click h p mx my d

end Callbacks

/-- `close_btn_rect`. -/
def closeBtnRect (win : Window H) : Int32 × Int32 :=
  (win.x + win.w - winBorder - winCloseSize - 4,
    win.y + winBorder + (winTitleH - winCloseSize) / 2)

/-- `window_close_hit`. -/
def windowCloseHit (win : Window H) (px py : Int32) : Bool :=
  let b := closeBtnRect win
  win.onClose.isSome && decide (b.1 ≤ px) && decide (px < b.1 + winCloseSize) &&
    decide (b.2 ≤ py) && decide (py < b.2 + winCloseSize)

/-- `window_hit`. -/
def windowHit (win : Window H) (px py : Int32) : Bool :=
  decide (win.x ≤ px) && decide (px < win.x + win.w) &&
    decide (win.y ≤ py) && decide (py < win.y + win.h)

/-- A rectangle of `int`s. -/
def fillRect (x y w h : Int32) (color : UInt32) (fb : FbMode) (m : ByteMemory) : ByteMemory :=
  fbFillRect fb x.toInt y.toInt w.toInt h.toInt color m

/-- `draw_close_button`. -/
def drawCloseButton (win : Window H) (fb : FbMode) (m : ByteMemory) : ByteMemory :=
  if win.onClose.isNone then m
  else
    let b := closeBtnRect win
    let m := fillRect b.1 b.2 winCloseSize winCloseSize (fbRgb fb 200 60 60) fb m
    let white := fbRgb fb 255 255 255
    (List.range' 2 10).foldl (fun m i =>
      let i := Int32.ofNat i
      let m := fbPutpixel fb (b.1 + i).toInt (b.2 + i).toInt white m
      fbPutpixel fb (b.1 + winCloseSize - 1 - i).toInt (b.2 + i).toInt white m) m

/-- `window_draw`. -/
def windowDraw (font : UInt8 → Nat → UInt8) (cb : Callbacks H κ) (p : WinPtr)
    (d : Desktop H κ) : Desktop H κ :=
  let win := d.store p
  if win.visible then
    let titleBg := if win.focused then win.titleBg else (win.titleBg >>> 1) &&& 0x7F7F7F7F
    let cy := win.y + winBorder + winTitleH
    let ch := win.h - 2 * winBorder - winTitleH
    let d := d.draw (fillRect win.x win.y win.w win.h win.borderColor)
    let d := d.draw (fillRect (win.x + winBorder) (win.y + winBorder) (win.w - 2 * winBorder)
      winTitleH titleBg)
    let d := d.draw fun fb => fbTermDrawTextAt font (win.x + 8).toInt (win.y + 4).toInt
      win.titleFg titleBg fb win.title
    let d := d.draw (drawCloseButton win)
    let d := d.draw (fillRect (win.x + winBorder) cy (win.w - 2 * winBorder) ch win.bgColor)
    cb.callIf win.onDraw p d
  else d

end Flyos
