/-!
# The Keccak sponge

The state of the sponge is a square of five by five lanes of sixty-four bits, held row by row.
`permute` is the permutation of twenty-four rounds, and `absorb` feeds a message to it block by
block. What is squeezed is always four lanes, so a digest has thirty-two bytes whatever the
permutation does; `squeeze_length` records this.
-/

namespace Interaction

namespace Keccak

/-- Twenty-five lanes; the lane in column `x` of row `y` stands at `x + 5 * y`. -/
abbrev State := Vector UInt64 25

def State.zero : State :=
  Vector.replicate 25 0

/-- The lane in column `x` of row `y`, both counted modulo five. -/
def lane (s : State) (x y : Nat) : UInt64 :=
  s[x % 5 + 5 * (y % 5)]

def rotate (w : UInt64) (n : Nat) : UInt64 :=
  if n % 64 = 0 then w
  else (w <<< (n % 64).toUInt64) ||| (w >>> (64 - n % 64).toUInt64)

def parity (s : State) (x : Nat) : UInt64 :=
  lane s x 0 ^^^ lane s x 1 ^^^ lane s x 2 ^^^ lane s x 3 ^^^ lane s x 4

/-- Adds to each lane the parities of the two columns beside its own. -/
def theta (s : State) : State :=
  let parities : Vector UInt64 5 := Vector.ofFn fun x => parity s x
  let mixed : Vector UInt64 5 := Vector.ofFn fun x =>
    parities[(x.val + 4) % 5] ^^^ rotate parities[(x.val + 1) % 5] 1
  Vector.ofFn fun i => s[i] ^^^ mixed[i.val % 5]

def offsets : Vector Nat 25 :=
  #v[0, 1, 62, 28, 27, 36, 44, 6, 55, 20, 3, 10, 43, 25, 39, 41, 45, 15, 21, 8, 18, 2, 61, 56, 14]

/-- Rotates every lane and moves it to its new place. -/
def rhoPi (s : State) : State :=
  Vector.ofFn fun i =>
    let x := i.val % 5
    let y := i.val / 5
    let j := (x + 3 * y) % 5 + 5 * x
    rotate (s.get ⟨j, by omega⟩) (offsets.get ⟨j, by omega⟩)

/-- Combines each lane with the two to its right. -/
def chi (s : State) : State :=
  Vector.ofFn fun i =>
    let x := i.val % 5
    let y := i.val / 5
    lane s x y ^^^ (~~~(lane s (x + 1) y) &&& lane s (x + 2) y)

def roundConstants : List UInt64 :=
  [0x0000000000000001, 0x0000000000008082, 0x800000000000808A, 0x8000000080008000,
    0x000000000000808B, 0x0000000080000001, 0x8000000080008081, 0x8000000000008009,
    0x000000000000008A, 0x0000000000000088, 0x0000000080008009, 0x000000008000000A,
    0x000000008000808B, 0x800000000000008B, 0x8000000000008089, 0x8000000000008003,
    0x8000000000008002, 0x8000000000000080, 0x000000000000800A, 0x800000008000000A,
    0x8000000080008081, 0x8000000000008080, 0x0000000080000001, 0x8000000080008008]

def round (s : State) (constant : UInt64) : State :=
  let t := chi (rhoPi (theta s))
  t.set 0 (t[0] ^^^ constant)

def permute (s : State) : State :=
  roundConstants.foldl round s

/-- How many bytes one block holds: the state less two digests. -/
def rate : Nat := 136

/-- The message filled up to a whole number of blocks: the suffix bits `01`, then a one, zeros, and
a last one. -/
def pad (message : List UInt8) : List UInt8 :=
  let missing := rate - message.length % rate
  if missing = 1 then message ++ [0x86]
  else message ++ 0x06 :: List.replicate (missing - 2) 0 ++ [0x80]

/-- The lane whose lowest byte comes first. -/
def laneOfBytes (bytes : List UInt8) : UInt64 :=
  bytes.foldr (fun b w => (w <<< 8) ||| b.toUInt64) 0

def addBlock (s : State) (block : List UInt8) : State :=
  let bytes := block.toArray
  Vector.ofFn fun i =>
    if i.val * 8 < rate then s[i] ^^^ laneOfBytes (bytes.extract (i.val * 8) (i.val * 8 + 8)).toList
    else s[i]

/-- Feeds `count` blocks to the state. -/
def absorb (s : State) : Nat → List UInt8 → State
  | 0, _ => s
  | count + 1, bytes =>
    absorb (permute (addBlock s (bytes.take rate))) count (bytes.drop rate)

/-- The bytes of a lane, the lowest first. -/
def bytesOfLane (w : UInt64) : List UInt8 :=
  (List.range 8).map fun i => (w >>> (8 * i).toUInt64).toUInt8

/-- The first four lanes of the state as bytes. -/
def squeeze (s : State) : List UInt8 :=
  bytesOfLane s[0] ++ bytesOfLane s[1] ++ bytesOfLane s[2] ++ bytesOfLane s[3]

theorem squeeze_length (s : State) : (squeeze s).length = 32 := by
  simp [squeeze, bytesOfLane]

/-- The SHA3-256 digest of a message. -/
def sha3 (message : List UInt8) : List UInt8 :=
  let padded := pad message
  squeeze (absorb State.zero (padded.length / rate) padded)

theorem sha3_length (message : List UInt8) : (sha3 message).length = 32 :=
  squeeze_length _

end Keccak

end Interaction
