import Flyos.Fs.Ramfs

/-!
# The image of the RAM file system

`ramfs_serialize` writes the tree below the root into a byte buffer and
`ramfs_deserialize` adds the nodes of such an image to the tree.  Both recurse over
directories; `serNode`, `serKids` and `deserNode`, `deserKids` are the two C
recursions with the loop over a directory as a function of its own.

The output buffer is the list of bytes stored so far, its length being `pos`; a store
past `max` is undefined (`emit`), as is a read past the end of the input.
-/

namespace Flyos

variable {H : Type*} (A : Allocator H)

/-- The magic in front of an image. -/
def magic : List UInt8 := [70, 76, 89, 79, 83, 70, 83, 50]

/-- A value as four bytes, lowest first. -/
def le32 (n : Nat) : List UInt8 :=
  [UInt8.ofNat n, UInt8.ofNat (n / 2 ^ 8), UInt8.ofNat (n / 2 ^ 16), UInt8.ofNat (n / 2 ^ 24)]

/-- The value of four bytes, lowest first. -/
def ofLe32 (b : List UInt8) : Nat :=
  b.foldr (fun x acc => x.toNat + 2 ^ 8 * acc) 0

/-! ## Writing -/

/-- Store `bs` at `pos` in a buffer of `max` bytes. -/
def emit (out : List UInt8) (max : Nat) (bs : List UInt8) : Option (List UInt8) :=
  if out.length + bs.length ≤ max then some (out ++ bs) else none

/-- `(uint8_t)n->type`. -/
def NodeType.byte : NodeType → UInt8
  | .file => 0
  | .dir => 1

/-- The bytes `n->data[0..n->size)`. -/
def fileData (s : Ramfs H) (n : Node) : Option (List UInt8) :=
  if n.size = 0 then some []
  else (s.bufs n.data).bind fun b => if n.size ≤ b.length then some (b.take n.size) else none

mutual

/-- `ser_node`; `some none` is the result 0. -/
def serNode (s : Ramfs H) : Nat → Nat → List UInt8 → Nat → Option (Option (List UInt8))
  | 0, _, _, _ => none
  | fuel + 1, n, out, max =>
      (s.nodes n).bind fun n =>
        let name := n.name.take 255
        if max < out.length + 2 + name.length + 4 then some none
        else (emit out max (n.type.byte :: UInt8.ofNat name.length :: name)).bind fun out =>
          if n.type = .file then
            (emit out max (le32 n.size)).bind fun out =>
              if max < (out.length + n.size) % 2 ^ 64 then some none
              else (fileData s n).bind fun data => (emit out max data).map some
          else (serKids s fuel n.children out max).bind fun r =>
            match r with
            | none => some none
            | some out =>
                if max < out.length + 2 then some none else (emit out max [0xFF, 0]).map some

/-- The loop over the children in `ser_node` and `ramfs_serialize`. -/
def serKids (s : Ramfs H) : Nat → Nat → List UInt8 → Nat → Option (Option (List UInt8))
  | 0, _, _, _ => none
  | fuel + 1, c, out, max =>
      if c = 0 then some (some out)
      else (serNode s fuel c out max).bind fun r =>
        match r with
        | none => some none
        | some out => (s.nodes c).bind fun n => serKids s fuel n.next out max

end

/-- `ramfs_serialize` into a buffer that holds `old`; `some none` is the result 0. -/
def ramfsSerialize (s : Ramfs H) (old : List UInt8) (max : Nat) : Option (Option (List UInt8)) :=
  if max < 16 then some none
  else (emit [] max (magic ++ (old.drop 8).take 4)).bind fun out =>
    (s.nodes s.root).bind fun r => (serKids s (2 * max + 3) r.children out max).map fun r =>
      r.map fun out => overlay out 8 (le32 out.length)

/-! ## Reading -/

/-- Whether the end marker of a directory stands at `pos`. -/
def atEnd (input : List UInt8) (pos : Nat) : Option Bool :=
  (input[pos]?).bind fun a => (input[pos + 1]?).map fun b => a == 0xFF && b == 0

/-- `len` bytes at `pos`. -/
def slice (input : List UInt8) (pos len : Nat) : Option (List UInt8) :=
  if pos + len ≤ input.length then some ((input.drop pos).take len) else none

/-- The string in a buffer: the bytes up to the first NUL. -/
def cString (b : List UInt8) : CString := b.takeWhile (· ≠ 0)

mutual

/-- `deser_node`: the position after the node, 0 on failure. -/
def deserNode (input : List UInt8) (len : Nat) :
    Nat → Ramfs H → Nat → Nat → Option (Nat × Ramfs H)
  | 0, _, _, _ => none
  | fuel + 1, s, parent, pos =>
      if len < pos + 2 then some (0, s)
      else (input[pos]?).bind fun type => (input[pos + 1]?).bind fun nlen =>
        let pos := pos + 2
        if type = 0xFF then some (pos, s)
        else if len < pos + nlen.toNat then some (0, s)
        else (slice input pos (min nlen.toNat (ramfsNameMax - 1))).bind fun name =>
          let pos := pos + nlen.toNat
          if type = NodeType.file.byte then
            if len < pos + 4 then some (0, s)
            else (slice input pos 4).bind fun sz =>
              let sz := ofLe32 sz
              let pos := pos + 4
              if len < pos + sz then some (0, s)
              else (ramfsCreateFile A s parent (cString name)).bind fun r =>
                if r.1 = 0 then some (0, r.2)
                else (slice input pos sz).bind fun data =>
                  -- the result of ramfs_write is not looked at
                  (ramfsWrite A r.2 r.1 data 0).map fun w => (pos + sz, w.2)
          else if type = NodeType.dir.byte then
            (ramfsMkdir A s parent (cString name)).bind fun r =>
              if r.1 = 0 then some (0, r.2)
              else deserKids input len fuel r.2 r.1 pos
          else some (0, s)

/-- The loop of `deser_node` over the contents of directory `d`. -/
def deserKids (input : List UInt8) (len : Nat) :
    Nat → Ramfs H → Nat → Nat → Option (Nat × Ramfs H)
  | 0, _, _, _ => none
  | fuel + 1, s, d, pos =>
      if len < pos + 2 then some (0, s)
      else (atEnd input pos).bind fun done =>
        if done then some (pos + 2, s)
        else (deserNode input len fuel s d pos).bind fun r =>
          if r.1 = 0 ∨ r.1 ≤ pos then some (0, r.2) else deserKids input len fuel r.2 d r.1

end

/-- The loop of `ramfs_deserialize`. -/
def deserTop (input : List UInt8) (total : Nat) :
    Nat → Ramfs H → Nat → Option (Int × Ramfs H)
  | 0, _, _ => none
  | fuel + 1, s, pos =>
      if total < pos + 2 then some (0, s)
      else (atEnd input pos).bind fun done =>
        if done then some (0, s)
        else (deserNode A input total fuel s s.root pos).bind fun r =>
          if r.1 = 0 ∨ r.1 ≤ pos then some (-1, r.2) else deserTop input total fuel r.2 r.1

/-- `ramfs_deserialize` of the bytes `input`. -/
def ramfsDeserialize (s : Ramfs H) (input : List UInt8) : Option (Int × Ramfs H) :=
  if input.length < 16 then some (-1, s)
  else if input.take 8 ≠ magic then some (-1, s)
  else
    let total := min (ofLe32 ((input.drop 8).take 4)) input.length
    deserTop A input total (2 * total + 3) s 12

end Flyos
