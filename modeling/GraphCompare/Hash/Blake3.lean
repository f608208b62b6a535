/-!
# The BLAKE3 hash function

The hash of a list of bytes, with an output of any length. The input is cut into chunks of 1024
bytes and a chunk into blocks of 64; the chunks are the leaves of a binary tree, and every node of
the tree is one last call of the compression function that has not been made yet (`Pending`). An
inner node makes the calls of its two children and puts their results side by side into its own
block. The root makes its call with a counter, once for every 64 bytes of output.

Joining neighbours level by level gives the tree of the definition, in which a left subtree is full
and as large as possible: a node that is left over at the end of a level moves up unchanged.
-/

namespace GraphCompare.Blake3

/-- A row of 32-bit words. -/
abbrev Words (n : Nat) := Vector UInt32 n

/-- The chaining value every chunk starts from. -/
def initial : Words 8 :=
  #v[0x6A09E667, 0xBB67AE85, 0x3C6EF372, 0xA54FF53A, 0x510E527F, 0x9B05688C, 0x1F83D9AB, 0x5BE0CD19]

/-- The order in which a round takes the words of the block of the round before it. -/
def schedule : Vector (Fin 16) 16 :=
  #v[2, 6, 3, 10, 7, 0, 4, 13, 1, 11, 12, 5, 9, 14, 15, 8]

/-- The first block of a chunk. -/
def chunkStart : UInt32 := 1
/-- The last block of a chunk. -/
def chunkEnd : UInt32 := 2
/-- An inner node of the tree. -/
def parentFlag : UInt32 := 4
/-- The top of the tree. -/
def rootFlag : UInt32 := 8

/-- Turns a word to the right. -/
def turn (w : UInt32) (n : UInt32) : UInt32 := (w >>> n) ||| (w <<< (32 - n))

/-- Mixes two words of the block into four words of the state. -/
def mix (v : Words 16) (a b c d : Fin 16) (x y : UInt32) : Words 16 :=
  let va := v[a] + v[b] + x
  let vd := turn (v[d] ^^^ va) 16
  let vc := v[c] + vd
  let vb := turn (v[b] ^^^ vc) 12
  let va := va + vb + y
  let vd := turn (vd ^^^ va) 8
  let vc := vc + vd
  let vb := turn (vb ^^^ vc) 7
  (((v.set a va).set b vb).set c vc).set d vd

/-- Mixes the whole block into the columns and then the diagonals of the state. -/
def round (v m : Words 16) : Words 16 :=
  let v := mix v 0 4 8 12 m[0] m[1]
  let v := mix v 1 5 9 13 m[2] m[3]
  let v := mix v 2 6 10 14 m[4] m[5]
  let v := mix v 3 7 11 15 m[6] m[7]
  let v := mix v 0 5 10 15 m[8] m[9]
  let v := mix v 1 6 11 12 m[10] m[11]
  let v := mix v 2 7 8 13 m[12] m[13]
  mix v 3 4 9 14 m[14] m[15]

/-- Makes a number of rounds, the words of the block in a new order for each. -/
def rounds : Nat → Words 16 → Words 16 → Words 16
  | 0, v, _ => v
  | n + 1, v, m => rounds n (round v m) (schedule.map fun i => m[i])

/-- A call of the compression function. -/
structure Pending where
  chaining : Words 8
  block : Words 16
  counter : UInt64
  /-- How many bytes of the block are input. -/
  length : UInt32
  flags : UInt32

/-- The sixteen words that a call gives. -/
def Pending.compress (p : Pending) : Words 16 :=
  let start : Words 16 := p.chaining ++ #v[initial[0], initial[1], initial[2], initial[3],
    p.counter.toUInt32, (p.counter >>> 32).toUInt32, p.length, p.flags]
  let v := rounds 7 start p.block
  (Vector.ofFn fun i : Fin 8 => v[i] ^^^ v[i.val + 8]) ++
    (Vector.ofFn fun i : Fin 8 => v[i.val + 8] ^^^ p.chaining[i])

/-- The chaining value that a call gives. -/
def Pending.chainingValue (p : Pending) : Words 8 :=
  let out := p.compress
  Vector.ofFn fun i : Fin 8 => out[i.val]

/-- The bytes of a list in groups of a size; the last group may be smaller. -/
def groups (size : Nat) (bytes : List UInt8) : List (List UInt8) :=
  if bytes = [] ∨ size = 0 then []
  else bytes.take size :: groups size (bytes.drop size)
termination_by bytes.length
decreasing_by
  rename_i h
  have : 0 < bytes.length := List.length_pos_iff.2 fun e => h (.inl e)
  simp only [List.length_drop]
  omega

/-- The word at a place of a block, its low byte first; bytes past the end are zero. -/
def wordAt (bytes : List UInt8) (i : Nat) : UInt32 :=
  ((bytes.drop (4 * i)).take 4).foldr (fun b w => (w <<< 8) ||| b.toUInt32) 0

/-- The sixteen words of a block. -/
def blockWords (bytes : List UInt8) : Words 16 := Vector.ofFn fun i => wordAt bytes i

/-- The last call of a chunk, after the calls of the blocks before its last. -/
def chunk (index : UInt64) (chaining : Words 8) (flags : UInt32) : List (List UInt8) → Pending
  | [] => ⟨chaining, blockWords [], index, 0, flags ||| chunkEnd⟩
  | [last] => ⟨chaining, blockWords last, index, .ofNat last.length, flags ||| chunkEnd⟩
  | block :: rest =>
    let call : Pending := ⟨chaining, blockWords block, index, .ofNat block.length, flags⟩
    chunk index call.chainingValue 0 rest

/-- The chunks of an input, one of no bytes where there is no input. -/
def chunks (bytes : List UInt8) : List Pending :=
  let parts := if bytes = [] then [[]] else groups 1024 bytes
  parts.zipIdx.map fun (part, i) => chunk (.ofNat i) initial chunkStart (groups 64 part)

/-- The node above two nodes. -/
def parent (left right : Pending) : Pending :=
  ⟨initial, left.chainingValue ++ right.chainingValue, 0, 64, parentFlag⟩

/-- One level of the tree above another: neighbours in pairs, a node without neighbour as it is. -/
def join : List Pending → List Pending
  | left :: right :: rest => parent left right :: join rest
  | rest => rest

theorem length_join_le : ∀ l : List Pending, (join l).length ≤ l.length
  | [] | [_] => Nat.le_refl _
  | _ :: _ :: rest => by
    have := length_join_le rest
    simp only [join, List.length_cons]
    omega

/-- The top of the tree over a nonempty row of nodes. -/
def top (first : Pending) (rest : List Pending) : Pending :=
  match rest with
  | [] => first
  | second :: rest => top (parent first second) (join rest)
termination_by rest.length
decreasing_by
  have := length_join_le rest
  simp only [List.length_cons]
  omega

/-- The bytes of a word, the low byte first. -/
def wordBytes (w : UInt32) : List UInt8 :=
  [w.toUInt8, (w >>> 8).toUInt8, (w >>> 16).toUInt8, (w >>> 24).toUInt8]

/-- The 64 bytes of output at a place. -/
def outputBlock (root : Pending) (i : Nat) : List UInt8 :=
  ({ root with counter := .ofNat i, flags := root.flags ||| rootFlag }).compress.toList.flatMap
    wordBytes

/-- The first bytes of the hash of an input. -/
def hash (bytes : List UInt8) (size : Nat) : List UInt8 :=
  match chunks bytes with
  | [] => []
  | first :: rest =>
    let root := top first rest
    ((List.range ((size + 63) / 64)).flatMap (outputBlock root)).take size

end GraphCompare.Blake3
