import Envelope.Kdf.Blake2b

/-!
# Argon2

The memory-hard password hash in its three variants and two versions. The
memory is a matrix of blocks with one row per lane; it is filled pass by pass,
a quarter of every lane at a time.
-/

namespace Envelope.Kdf.Argon2

/-- How a block chooses the block that it is mixed with: by the data of its
predecessor, by its position alone, or by position during the first half of
the first pass and by data afterwards. -/
inductive Variant
  | dependent
  | independent
  | hybrid
deriving DecidableEq, Repr

/-- The number of a variant in the hashed parameters. -/
def Variant.code : Variant → Nat
  | .dependent => 0
  | .independent => 1
  | .hybrid => 2

structure Cost where
  variant : Variant
  /-- Memory in KiB. -/
  memory : Nat
  passes : Nat
  lanes : Nat
  /-- 16 or 19; from 19 on, later passes keep what earlier ones wrote. -/
  version : Nat
deriving DecidableEq, Repr

/-- The number of blocks in a quarter of a lane. -/
def Cost.segment (c : Cost) : Nat :=
  c.memory / (4 * c.lanes)

/-- The number of blocks in a lane. -/
def Cost.columns (c : Cost) : Nat :=
  4 * c.segment

/-! ## Blocks -/

/-- A block of 1024 bytes. -/
abbrev Block := Vector UInt64 128

namespace Block

def zero : Block := Vector.replicate 128 0

def xor (x y : Block) : Block :=
  Vector.zipWith (· ^^^ ·) x y

def ofBytes (bs : Bytes) : Block :=
  let words := ((Bytes.chunks 8 bs).map fun w => UInt64.ofNat (Bytes.toNat w)).toArray
  Vector.ofFn fun i => words.getD i 0

def toBytes (x : Block) : Bytes :=
  x.toList.flatMap Bytes.ofUInt64

/-- The sum of two words and twice the product of their low halves. -/
def blend (x y : UInt64) : UInt64 :=
  x + y + 2 * (x &&& 0xffffffff) * (y &&& 0xffffffff)

def mix (v : Block) (a b c d : Fin 128) : Block :=
  let va := blend v[a] v[b]
  let vd := Blake2b.turn (v[d] ^^^ va) 32
  let vc := blend v[c] vd
  let vb := Blake2b.turn (v[b] ^^^ vc) 24
  let va := blend va vb
  let vd := Blake2b.turn (vd ^^^ va) 16
  let vc := blend vc vd
  let vb := Blake2b.turn (vb ^^^ vc) 63
  (((v.set a va).set b vb).set c vc).set d vd

/-- Mixes sixteen words, number `i` of which stands at `place i`. -/
def permute (v : Block) (place : Nat → Fin 128) : Block :=
  let v := mix v (place 0) (place 4) (place 8) (place 12)
  let v := mix v (place 1) (place 5) (place 9) (place 13)
  let v := mix v (place 2) (place 6) (place 10) (place 14)
  let v := mix v (place 3) (place 7) (place 11) (place 15)
  let v := mix v (place 0) (place 5) (place 10) (place 15)
  let v := mix v (place 1) (place 6) (place 11) (place 12)
  let v := mix v (place 2) (place 7) (place 8) (place 13)
  mix v (place 3) (place 4) (place 9) (place 14)

/-- The places of row `k`: sixteen words in a row. -/
def row (k : Fin 8) (i : Nat) : Fin 128 :=
  ⟨16 * k + i % 16, by omega⟩

/-- The places of column `k`: a pair of words from every row. -/
def column (k : Fin 8) (i : Nat) : Fin 128 :=
  ⟨2 * k + 16 * (i / 2 % 8) + i % 2, by omega⟩

def compress (x y : Block) : Block :=
  let r := xor x y
  let z := (List.finRange 8).foldl (fun z k => permute z (row k)) r
  let z := (List.finRange 8).foldl (fun z k => permute z (column k)) z
  xor z r

end Block

/-! ## Filling the memory -/

/-- A place in the order of filling. -/
structure Position where
  pass : Nat
  slice : Nat
  lane : Nat
  /-- The place inside the segment. -/
  index : Nat

/-- Whether the block is chosen by position alone. -/
def Cost.byPosition (c : Cost) (p : Position) : Bool :=
  match c.variant with
  | .dependent => false
  | .independent => true
  | .hybrid => p.pass = 0 && p.slice < 2

/-- The 128 choices with number `counter` of a segment that is filled by
position. -/
def Cost.choices (c : Cost) (p : Position) (counter : Nat) : Block :=
  let input := [p.pass, p.lane, p.slice, c.columns * c.lanes, c.passes, c.variant.code, counter + 1]
  let input := (input.map UInt64.ofNat).toArray
  let block := Vector.ofFn fun i : Fin 128 => input.getD i 0
  Block.compress .zero (Block.compress .zero block)

/-- The number of blocks that may be chosen, counted from the oldest. -/
def Cost.reach (c : Cost) (p : Position) (sameLane : Bool) : Nat :=
  let finished := if p.pass = 0 then p.slice * c.segment else c.columns - c.segment
  if sameLane then finished + p.index - 1
  else if p.index = 0 then finished - 1
  else finished

/-- Where the block stands that a choice word names. -/
def Cost.target (c : Cost) (p : Position) (choice : UInt64) : Nat :=
  let low := choice.toNat % UInt32.size
  let high := choice.toNat / UInt32.size
  let lane := if p.pass = 0 ∧ p.slice = 0 then p.lane else high % c.lanes
  let reach := c.reach p (lane = p.lane)
  let back := reach * (low * low / UInt32.size) / UInt32.size
  let start := if p.pass = 0 ∨ p.slice = 3 then 0 else (p.slice + 1) * c.segment
  lane * c.columns + (start + (reach - 1 - back)) % c.columns

def Cost.fillBlock (c : Cost) (p : Position) (choices : Array Block) (memory : Array Block) :
    Array Block :=
  let column := p.slice * c.segment + p.index
  let here := p.lane * c.columns + column
  let before := p.lane * c.columns + (if column = 0 then c.columns - 1 else column - 1)
  let previous := memory.getD before .zero
  let choice :=
    if c.byPosition p then (choices.getD (p.index / 128) .zero).toArray.getD (p.index % 128) 0
    else previous[0]
  let block := Block.compress previous (memory.getD (c.target p choice) .zero)
  let block :=
    if p.pass > 0 ∧ c.version ≥ 19 then Block.xor (memory.getD here .zero) block else block
  memory.setIfInBounds here block

/-- Fills one segment of one lane. The first two blocks of a lane are there
from the start. -/
def Cost.fillSegment (c : Cost) (pass slice lane : Nat) (memory : Array Block) : Array Block :=
  let start : Position := ⟨pass, slice, lane, 0⟩
  let choices :=
    if c.byPosition start then
      ((List.range ((c.segment + 127) / 128)).map (c.choices start)).toArray
    else #[]
  let skipped := if pass = 0 ∧ slice = 0 then 2 else 0
  ((List.range c.segment).drop skipped).foldl
    (fun memory index => c.fillBlock { start with index } choices memory) memory

/-- Fills the memory, pass by pass, slice by slice and lane by lane. -/
def Cost.fill (c : Cost) (memory : Array Block) : Array Block :=
  (List.range c.passes).foldl (fun memory pass =>
    (List.range 4).foldl (fun memory slice =>
      (List.range c.lanes).foldl (fun memory lane =>
        c.fillSegment pass slice lane memory) memory) memory) memory

/-! ## The hash -/

/-- The digest of all parameters, with `size` the length of the final hash. -/
def Cost.seed (c : Cost) (size : Nat) (password salt : Bytes) : Bytes :=
  Blake2b.hash 64 <|
    ([c.lanes, size, c.memory, c.passes, c.version, c.variant.code].flatMap (Bytes.ofNat 4))
      ++ Bytes.ofNat 4 password.length ++ password
      ++ Bytes.ofNat 4 salt.length ++ salt
      ++ Bytes.ofNat 4 0 ++ Bytes.ofNat 4 0

/-- The memory at the start: two blocks in every lane. -/
def Cost.start (c : Cost) (seed : Bytes) : Array Block :=
  let first (lane column : Nat) :=
    Block.ofBytes (Blake2b.longHash 1024 (seed ++ Bytes.ofNat 4 column ++ Bytes.ofNat 4 lane))
  (List.range c.lanes).foldl (fun memory lane =>
    (memory.setIfInBounds (lane * c.columns) (first lane 0)).setIfInBounds
      (lane * c.columns + 1) (first lane 1))
    (Array.replicate (c.lanes * c.columns) .zero)

/-- The hash of `size` bytes of a password. -/
def Cost.hash (c : Cost) (size : Nat) (password salt : Bytes) : Bytes :=
  let memory := c.fill (c.start (c.seed size password salt))
  let last := (List.range c.lanes).foldl (fun acc lane =>
    Block.xor acc (memory.getD (lane * c.columns + c.columns - 1) .zero)) .zero
  Blake2b.longHash size last.toBytes

theorem Cost.length_hash (c : Cost) {size : Nat} (password salt : Bytes) (h : size ≤ 64) :
    (c.hash size password salt).length = size :=
  Blake2b.length_longHash _ h

end Envelope.Kdf.Argon2
