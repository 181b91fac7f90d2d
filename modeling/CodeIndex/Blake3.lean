import CodeIndex.Text.Utf8

namespace CodeIndex.Blake3

abbrev Block := Vector UInt32 16
abbrev Chain := Vector UInt32 8

def initial : Chain :=
  #v[0x6A09E667, 0xBB67AE85, 0x3C6EF372, 0xA54FF53A,
     0x510E527F, 0x9B05688C, 0x1F83D9AB, 0x5BE0CD19]

def chunkStart : UInt32 := 1
def chunkEnd : UInt32 := 2
def parentFlag : UInt32 := 4
def rootFlag : UInt32 := 8

def rotateRight (x : UInt32) (n : UInt32) : UInt32 := (x >>> n) ||| (x <<< (32 - n))

/-- Mixes two message words into four words of the state. -/
def mix (a b c d : Fin 16) (x y : UInt32) (v : Block) : Block :=
  let va := v[a] + v[b] + x
  let vd := rotateRight (v[d] ^^^ va) 16
  let vc := v[c] + vd
  let vb := rotateRight (v[b] ^^^ vc) 12
  let va := va + vb + y
  let vd := rotateRight (vd ^^^ va) 8
  let vc := vc + vd
  let vb := rotateRight (vb ^^^ vc) 7
  (((v.set a va).set b vb).set c vc).set d vd

def round (m : Block) (v : Block) : Block :=
  let v := mix 0 4 8 12 m[0] m[1] v
  let v := mix 1 5 9 13 m[2] m[3] v
  let v := mix 2 6 10 14 m[4] m[5] v
  let v := mix 3 7 11 15 m[6] m[7] v
  let v := mix 0 5 10 15 m[8] m[9] v
  let v := mix 1 6 11 12 m[10] m[11] v
  let v := mix 2 7 8 13 m[12] m[13] v
  mix 3 4 9 14 m[14] m[15] v

def permute (m : Block) : Block :=
  #v[m[2], m[6], m[3], m[10], m[7], m[0], m[4], m[13],
     m[1], m[11], m[12], m[5], m[9], m[14], m[15], m[8]]

def rounds : Nat → Block → Block → Block
  | 0, _, v => v
  | n + 1, m, v => rounds n (permute m) (round m v)

/-- One compression, waiting to be run as an inner node or as the root. -/
structure Node where
  chain : Chain
  block : Block
  counter : UInt64
  length : UInt32
  flags : UInt32

def Node.compress (n : Node) (flags : UInt32) : Chain :=
  let start : Block :=
    #v[n.chain[0], n.chain[1], n.chain[2], n.chain[3],
       n.chain[4], n.chain[5], n.chain[6], n.chain[7],
       initial[0], initial[1], initial[2], initial[3],
       n.counter.toUInt32, (n.counter >>> 32).toUInt32, n.length, flags]
  let v := rounds 7 n.block start
  Vector.ofFn fun i : Fin 8 => v[i.val] ^^^ v[i.val + 8]

def Node.chaining (n : Node) : Chain := n.compress n.flags

def Node.root (n : Node) : Chain := n.compress (n.flags ||| rootFlag)

def word (bs : Bytes) : UInt32 :=
  (bs.take 4).foldr (fun b w => w <<< 8 ||| b.toUInt32) 0

/-- Sixteen little-endian words, padded with zero bytes. -/
def blockOf (bs : Bytes) : Block := Vector.ofFn fun i : Fin 16 => word (bs.drop (4 * i.val))

/-- The blocks of a chunk from the one that starts here; `flags` is the start flag until it is
spent. The last block is not compressed yet. -/
def chunkFrom (counter : UInt64) (flags : UInt32) (chain : Chain) (bs : Bytes) : Node :=
  if bs.length ≤ 64 then
    ⟨chain, blockOf bs, counter, bs.length.toUInt32, flags ||| chunkEnd⟩
  else
    let first : Node := ⟨chain, blockOf (bs.take 64), counter, 64, flags⟩
    chunkFrom counter 0 first.chaining (bs.drop 64)
termination_by bs.length
decreasing_by simp; omega

def chunk (counter : UInt64) (bs : Bytes) : Node := chunkFrom counter chunkStart initial bs

def parent (left right : Node) : Node :=
  ⟨initial, left.chaining ++ right.chaining, 0, 64, parentFlag⟩

/-- The chunks of the input; an empty input has one empty chunk. -/
def leaves (counter : UInt64) (bs : Bytes) : List Node :=
  if bs.length ≤ 1024 then [chunk counter bs]
  else chunk counter (bs.take 1024) :: leaves (counter + 1) (bs.drop 1024)
termination_by bs.length
decreasing_by simp; omega

/-- Joins neighbours; an odd last node moves up unchanged. -/
def level : List Node → List Node
  | l :: r :: ns => parent l r :: level ns
  | ns => ns

theorem length_level (ns : List Node) : (level ns).length = (ns.length + 1) / 2 := by
  fun_induction level ns with
  | case1 l r ns ih => simp [ih]; omega
  | case2 ns h =>
    match ns, h with
    | [], _ => rfl
    | [_], _ => simp
    | _ :: _ :: _, h => exact absurd rfl (h _ _ _)

def top (first : Node) (rest : List Node) : Node :=
  match rest with
  | [] => first
  | second :: rest => top (parent first second) (level rest)
termination_by rest.length
decreasing_by simp [length_level]; omega

def wordBytes (w : UInt32) : Bytes :=
  [w.toUInt8, (w >>> 8).toUInt8, (w >>> 16).toUInt8, (w >>> 24).toUInt8]

/-- Chunks of 1024 bytes are the leaves of a binary tree whose left subtrees are complete; its root
gives the digest. -/
def digest (bs : Bytes) : Bytes :=
  match leaves 0 bs with
  | [] => []
  | first :: rest => (top first rest).root.toList.flatMap wordBytes

def hexDigit (n : Nat) : Char :=
  if n < 10 then Char.ofNat (48 + n) else Char.ofNat (87 + n)

def hex (bs : Bytes) : String :=
  String.ofList (bs.flatMap fun b => [hexDigit (b.toNat / 16), hexDigit (b.toNat % 16)])

end Blake3

/-- The content hash of bytes: their BLAKE3 digest in lower-case hexadecimal. -/
def hashBytes (bs : Bytes) : String := Blake3.hex (Blake3.digest bs)

def hashText (t : Text) : String := hashBytes (Utf8.encode t)

end CodeIndex
