import Flyos.Gui.Window
import Flyos.Lib.Slots

/-!
# The window manager

`kernel/gui/gui.c`.  Where the pointer is and which buttons are down comes with the event.
-/

namespace Flyos

/-- `MAX_WINDOWS`. -/
abbrev maxWindows : Nat := 8

/-- The variables of `gui.c`, and what its callbacks see. -/
structure Gui (H κ : Type) where
  windows : Nat → WinPtr
  windowCount : Nat
  lastButtons : UInt8
  focus : Option WinPtr
  dragWin : Option WinPtr
  dragOffX : Int32
  dragOffY : Int32
  desktop : Desktop H κ

variable {H κ : Type}

/-- `gui_init`. -/
def guiInit (g : Gui H κ) : Gui H κ :=
  { g with windowCount := 0, lastButtons := 0, focus := none, dragWin := none }

/-- `gui_add_window`. -/
def guiAddWindow (win : WinPtr) (g : Gui H κ) : Gui H κ :=
  if maxWindows ≤ g.windowCount then g
  else { g with
    windows := Function.update g.windows g.windowCount win
    windowCount := g.windowCount + 1 }

/-- `focus->focused = …`, unless `focus` is null. -/
def markFocus (focused : Bool) (g : Gui H κ) : Gui H κ :=
  match g.focus with
  | none => g
  | some p => { g with desktop := g.desktop.setFocused p focused }

/-- The slot of a window given up. -/
def takeOut (idx : Nat) (g : Gui H κ) : Gui H κ :=
  { g with windows := closeGap g.windows idx g.windowCount, windowCount := g.windowCount - 1 }

/-- The focus of a window that is removed goes to the last window. -/
def passFocus (win : WinPtr) (g : Gui H κ) : Gui H κ :=
  if g.focus = some win then
    markFocus true { g with
      focus := if 0 < g.windowCount then some (g.windows (g.windowCount - 1)) else none }
  else g

/-- A window that is removed is not dragged. -/
def dropDrag (win : WinPtr) (g : Gui H κ) : Gui H κ :=
  if g.dragWin = some win then { g with dragWin := none } else g

/-- `gui_remove_window`. -/
def guiRemoveWindow (win : WinPtr) (g : Gui H κ) : Gui H κ :=
  match slotOf g.windows g.windowCount win with
  | none => g
  | some idx => dropDrag win (passFocus win (takeOut idx g))

/-- `bring_to_front`. -/
def bringToFront (win : WinPtr) (g : Gui H κ) : Gui H κ :=
  if g.windowCount = 0 then g
  else if win = g.windows (g.windowCount - 1) then g
  else
    match slotOf g.windows g.windowCount win with
    | none => g
    | some idx =>
        { g with windows :=
            Function.update (closeGap g.windows idx g.windowCount) (g.windowCount - 1) win }

/-- `gui_top_window_at`. -/
def guiTopWindowAt (g : Gui H κ) (x y : Int32) : Option WinPtr :=
  (slots g.windows g.windowCount).reverse.find? fun p =>
    (g.desktop.store p).visible && windowHit (g.desktop.store p) x y

/-- `in_title_bar`. -/
def inTitleBar (win : Window H) (x y : Int32) : Bool :=
  decide (win.x ≤ x) && decide (x < win.x + win.w) &&
    decide (win.y ≤ y) && decide (y < win.y + winBorder + winTitleH)

section Code

variable (font : UInt8 → Nat → UInt8) (cb : Callbacks H κ)

/-- One turn of `gui_redraw`. -/
def redrawWindow (focus : Option WinPtr) (d : Desktop H κ) (p : WinPtr) : Desktop H κ :=
  if (d.store p).visible then windowDraw font cb p (d.setFocused p (focus = some p)) else d

/-- `gui_redraw`. -/
def guiRedraw (g : Gui H κ) : Gui H κ :=
  let d := g.desktop.onScreen fbCursorHide
  let d := d.draw fun fb => fbClear fb (fbRgb fb 20 20 40)
  let d := (slots g.windows g.windowCount).foldl (redrawWindow font cb g.focus) d
  { g with desktop := d.onScreen fbCursorShow }

/-- The left button is down. -/
def leftDown (buttons : UInt8) : Bool := buttons &&& 0x01 != 0

/-- A press on the button that closes a window. -/
def closeWindow (p : WinPtr) (g : Gui H κ) : Gui H κ :=
  let g := { g with desktop := cb.callIf (g.desktop.store p).onClose p g.desktop }
  guiRedraw font cb (guiRemoveWindow p g)

/-- A press on a window puts it in front and in focus. -/
def raiseWindow (p : WinPtr) (g : Gui H κ) : Gui H κ :=
  let g := markFocus false (bringToFront p g)
  markFocus true { g with focus := some p }

/-- A press on its title starts a drag. -/
def startDrag (p : WinPtr) (mx my : Int32) (g : Gui H κ) : Gui H κ :=
  let win := g.desktop.store p
  if inTitleBar win mx my then
    { g with dragWin := some p, dragOffX := mx - win.x, dragOffY := my - win.y }
  else g

/-- A press elsewhere in a window. -/
def pressWindow (p : WinPtr) (mx my : Int32) (g : Gui H κ) : Gui H κ :=
  let g := startDrag p mx my (raiseWindow p g)
  let g := { g with desktop := cb.clickIf (g.desktop.store p).onClick p mx my g.desktop }
  guiRedraw font cb g

/-- A move of the pointer while a window is dragged. -/
def dragTo (p : WinPtr) (mx my : Int32) (g : Gui H κ) : Gui H κ :=
  let nx := mx - g.dragOffX
  let ny := my - g.dragOffY
  if nx ≠ (g.desktop.store p).x ∨ ny ≠ (g.desktop.store p).y then
    let d := g.desktop.moveTo p nx ny
    guiRedraw font cb { g with desktop := cb.callIf (d.store p).onMove p d }
  else g

/-- `gui_on_mouse`, without the last line. -/
def onMouse (mx my : Int32) (b : UInt8) (g : Gui H κ) : Gui H κ :=
  if leftDown b && !leftDown g.lastButtons then
    match guiTopWindowAt g mx my with
    | none => g
    | some p =>
        if windowCloseHit (g.desktop.store p) mx my then closeWindow font cb p g
        else pressWindow font cb p mx my g
  else if !leftDown b && leftDown g.lastButtons then { g with dragWin := none }
  else
    match leftDown b, g.dragWin with
    | true, some p => dragTo font cb p mx my g
    | _, _ => g

/-- `gui_on_mouse`. -/
def guiOnMouse (mx my : Int32) (b : UInt8) (g : Gui H κ) : Gui H κ :=
  { onMouse font cb mx my b g with lastButtons := b }

end Code

end Flyos
