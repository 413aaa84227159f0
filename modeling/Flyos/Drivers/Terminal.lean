import Flyos.Drivers.Framebuffer
import Flyos.Lib.Counting

/-!
# The terminal

`kernel/drivers/fb_term.c`: the text of a region of the screen, kept in `screen_buf` and drawn
with `fb_putpixel`.  The font is a parameter.  An access to `screen_buf` outside of its rows and
columns fails.
-/

namespace Flyos

/-- What goes wrong in the terminal. -/
inductive TermFault
  | outside

/-- `MAX_COLS`. -/
abbrev maxCols : Nat := 160

/-- `MAX_ROWS`. -/
abbrev maxRows : Nat := 64

/-- `CHAR_W`. -/
abbrev charW : Nat := 8

/-- `CHAR_H`. -/
abbrev charH : Nat := 16

/-- The character `'\b'`. -/
abbrev charBackspace : UInt8 := 8

/-- The character `'\t'`. -/
abbrev charTab : UInt8 := 9

/-- The character `'\n'`. -/
abbrev charNewline : UInt8 := 10

/-- The character `'\r'`. -/
abbrev charReturn : UInt8 := 13

/-- The character `' '`. -/
abbrev charSpace : UInt8 := 32

/-- The variables of `fb_term.c`, and the screen with the mouse cursor. -/
structure Term where
  screen : Screen
  regionX : Int
  regionY : Int
  regionW : Int
  regionH : Int
  cols : Int
  rows : Int
  cursorX : Int
  cursorY : Int
  fgColor : UInt32
  bgColor : UInt32
  screenBuf : Nat → Nat → UInt8

namespace Term

/-- A cell of `screen_buf` is there. -/
def InBuf (r c : Int) : Prop := 0 ≤ r ∧ r < maxRows ∧ 0 ≤ c ∧ c < maxCols

instance (r c : Int) : Decidable (InBuf r c) := by
  unfold InBuf
  infer_instance

/-- `screen_buf[r][c]`. -/
def cell (r c : Int) (t : Term) : Except TermFault UInt8 :=
  if InBuf r c then .ok (t.screenBuf r.toNat c.toNat) else .error .outside

/-- `screen_buf[r][c] = v`. -/
def setCell (r c : Int) (v : UInt8) (t : Term) : Except TermFault Term :=
  if InBuf r c then
    .ok { t with screenBuf := fun i j => if i = r.toNat ∧ j = c.toNat then v else t.screenBuf i j }
  else .error .outside

/-- The cursor of the terminal. -/
def setCursor (x y : Int) (t : Term) : Term := { t with cursorX := x, cursorY := y }

/-- The other cells and variables stay. -/
def onScreen (f : Screen → Screen) (t : Term) : Term := { t with screen := f t.screen }

end Term

section Code

variable (font : UInt8 → Nat → UInt8)

/-- The loops that draw a glyph. -/
def drawGlyph (glyph : Nat → UInt8) (px py : Int) (fg bg : UInt32) (fb : FbMode)
    (m : ByteMemory) : ByteMemory :=
  let color (p : Nat × Nat) : UInt32 :=
    if glyph p.1 &&& (0x80 >>> p.2.toUInt8) ≠ 0 then fg else bg
  (cellsOf charH charW).foldl
    (fun m p => fbPutpixel fb (int32 (px + p.2)) (int32 (py + p.1)) (color p) m) m

/-- `draw_char_at`. -/
def drawCharAt (c : UInt8) (col row : Int) (t : Term) : Term :=
  let px := int32 (t.regionX + col * charW)
  let py := int32 (t.regionY + row * charH)
  t.onScreen fun s => { s with mem := drawGlyph (font c) px py t.fgColor t.bgColor s.fb s.mem }

/-- `fb_term_draw_text_at`. -/
def fbTermDrawTextAt (x y : Int) (fg bg : UInt32) (fb : FbMode) :
    List UInt8 → ByteMemory → ByteMemory
  | [], m => m
  | c :: text, m =>
      fbTermDrawTextAt (int32 (x + charW)) y fg bg fb text (drawGlyph (font c) x y fg bg fb m)

/-- `fb_term_redraw`. -/
def fbTermRedraw (t : Term) : Except TermFault Term :=
  countUp t.rows (fun r => countUp t.cols fun c t => do
    let v ← t.cell r c
    .ok (drawCharAt font v c r t)) t

/-- The loops that blank the cells of the region. -/
def blankCells (t : Term) : Except TermFault Term :=
  countUp t.rows (fun r => countUp t.cols fun c => Term.setCell r c charSpace) t

/-- `fb_term_set_region`. -/
def fbTermSetRegion (x y w h : Int) (t : Term) : Except TermFault Term :=
  let t := { t with regionX := x, regionY := y, regionW := w, regionH := h }
  let newCols := min (w.tdiv charW) maxCols
  let newRows := min (h.tdiv charH) maxRows
  if newCols ≠ t.cols ∨ newRows ≠ t.rows then do
    let t ← blankCells { t with cols := newCols, rows := newRows }
    .ok (t.setCursor 0 0)
  else .ok t

/-- `fb_term_clear`. -/
def fbTermClear (t : Term) : Except TermFault Term := do
  let t ← blankCells t
  .ok ((t.setCursor 0 0).onScreen fun s => { s with
    mem := fbFillRect s.fb t.regionX t.regionY t.regionW t.regionH t.bgColor s.mem })

/-- `fb_term_set_color`. -/
def fbTermSetColor (fg bg : UInt32) (t : Term) : Term := { t with fgColor := fg, bgColor := bg }

/-- `fb_term_init`. -/
def fbTermInit (t : Term) : Except TermFault Term := do
  let fb := t.screen.fb
  let t := { t with
    fgColor := fbRgb fb 220 220 220
    bgColor := fbRgb fb 10 10 40
    regionX := 0
    regionY := 0
    regionW := int32 fb.width.toNat
    regionH := int32 fb.height.toNat
    cols := min (int32 (fb.width / 8).toNat) maxCols
    rows := min (int32 (fb.height / 16).toNat) maxRows }
  let t ← countUp maxRows (fun r => countUp maxCols fun c => Term.setCell r c charSpace) t
  .ok (t.setCursor 0 0)

/-- The end of `fb_term_putc`: a cursor below the last row moves everything up by a line. -/
def scrollUp (t : Term) : Except TermFault Term :=
  if t.rows ≤ t.cursorY then do
    let t ← countUp (t.rows - 1) (fun r => countUp t.cols fun c t => do
      let v ← t.cell (r + 1) c
      t.setCell r c v) t
    let t ← countUp t.cols (fun c t => t.setCell (t.rows - 1) c charSpace) t
    let t ← fbTermRedraw font t
    .ok (t.setCursor t.cursorX (t.rows - 1))
  else .ok t

/-- A character in the cell at the cursor, if there is such a cell. -/
def putCell (c : UInt8) (t : Term) : Except TermFault Term :=
  if t.cursorY < t.rows ∧ t.cursorX < t.cols then do
    let t ← t.setCell t.cursorY t.cursorX c
    .ok (drawCharAt font c t.cursorX t.cursorY t)
  else .ok t

/-- `cursor_x++`, with the wrap at the last column. -/
def stepRight (t : Term) : Term :=
  let x := int32 (t.cursorX + 1)
  if t.cols ≤ x then t.setCursor 0 (int32 (t.cursorY + 1)) else t.setCursor x t.cursorY

/-- The previous cell of the line blanked, if there is one. -/
def stepBack (t : Term) : Except TermFault Term :=
  if 0 < t.cursorX then putCell font charSpace (t.setCursor (t.cursorX - 1) t.cursorY) else .ok t

/-- `fb_term_putc`. -/
def fbTermPutc (c : UInt8) (t : Term) : Except TermFault Term := do
  let t := t.onScreen fbCursorHide
  if c = charNewline then
    let t ← scrollUp font (t.setCursor 0 (int32 (t.cursorY + 1)))
    .ok (t.onScreen fbCursorShow)
  else if c = charReturn then
    let t ← scrollUp font (t.setCursor 0 t.cursorY)
    .ok (t.onScreen fbCursorShow)
  else if c = charBackspace then
    let t ← stepBack font t
    .ok (t.onScreen fbCursorShow)
  else if c = charTab then
    let t ← countUp (4 - t.cursorX.tmod 4) (fun _ => fbTermPutc charSpace) t
    .ok (t.onScreen fbCursorShow)
  else
    let t ← putCell font c t
    let t ← scrollUp font (stepRight t)
    .ok (t.onScreen fbCursorShow)
termination_by if c = charTab then 1 else 0
decreasing_by
  rw [if_neg (by decide), if_pos ‹c = charTab›]
  exact Nat.zero_lt_one

end Code

/-! ## Calls -/

/-- The calls of the terminal, and those of drawing and of the mouse cursor, which share the
screen with it. -/
inductive TermOp
  | init
  | setRegion (x y w h : Int)
  | clear
  | setColor (fg bg : UInt32)
  | redraw
  | putc (c : UInt8)
  | draw (op : ScreenOp)

/-- What a call does. -/
def TermOp.call (font : UInt8 → Nat → UInt8) (t : Term) : TermOp → Except TermFault Term
  | .init => fbTermInit t
  | .setRegion x y w h => fbTermSetRegion x y w h t
  | .clear => fbTermClear t
  | .setColor fg bg => .ok (fbTermSetColor fg bg t)
  | .redraw => fbTermRedraw font t
  | .putc c => fbTermPutc font c t
  | .draw op => .ok (t.onScreen fun s => s.call op)

/-- Calls one after the other. -/
def TermOp.calls (font : UInt8 → Nat → UInt8) (ops : List TermOp) (t : Term) :
    Except TermFault Term :=
  ops.foldlM (TermOp.call font) t

/-- The variables before the first call. -/
def Term.powerOn (s : Screen) : Term := ⟨s, 0, 0, 0, 0, 0, 0, 0, 0, 0, 0, fun _ _ => 0⟩

end Flyos
