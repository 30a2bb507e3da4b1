/-!
# A reproducible stream of random numbers

The stream is the ChaCha cipher with twelve rounds under a key that a small generator expands from
the seed. The same seed gives the same numbers everywhere.
-/

namespace Formicary

/-- A word turned to the left. -/
def rotateLeft (x : UInt32) (places : UInt32) : UInt32 :=
  (x <<< places) ||| (x >>> (32 - places))

/-- A word turned to the right by at most 31 places. -/
def rotateRight (x : UInt32) (places : UInt32) : UInt32 :=
  (x >>> places) ||| (x <<< (32 - places))

/-- One state of the key generator after another. -/
def nextSeed (state : UInt64) : UInt64 :=
  state * 6364136223846793005 + 11634580027462260723

/-- The word that a state of the key generator gives. -/
def seedWord (state : UInt64) : UInt32 :=
  rotateRight (((state >>> 18) ^^^ state) >>> 27).toUInt32 (state >>> 59).toUInt32

/-- The next `count` words of the key generator. -/
def seedWords : (count : Nat) → UInt64 → List UInt32
  | 0, _ => []
  | count + 1, state =>
    let state := nextSeed state
    seedWord state :: seedWords count state

/-- The sixteen words of the cipher's state. -/
abbrev Block := Vector UInt32 16

namespace Block

/-- One quarter round on four words. -/
def quarter (s : Block) (i j k l : Fin 16) : Block :=
  let a := s[i] + s[j]
  let d := rotateLeft (s[l] ^^^ a) 16
  let c := s[k] + d
  let b := rotateLeft (s[j] ^^^ c) 12
  let a := a + b
  let d := rotateLeft (d ^^^ a) 8
  let c := c + d
  let b := rotateLeft (b ^^^ c) 7
  (((s.set i a).set j b).set k c).set l d

/-- Two rounds: one on columns and one on diagonals. -/
def doubleRound (s : Block) : Block :=
  let s := (((s.quarter 0 4 8 12).quarter 1 5 9 13).quarter 2 6 10 14).quarter 3 7 11 15
  (((s.quarter 0 5 10 15).quarter 1 6 11 12).quarter 2 7 8 13).quarter 3 4 9 14

/-- The state after twelve rounds, added to the state before them. -/
def scramble (s : Block) : Block :=
  Vector.zipWith (· + ·) (Nat.repeat doubleRound 6 s) s

/-- The state for a key and the number of a block. -/
def start (key : List UInt32) (number : UInt64) : Block :=
  let key i := key.getD i 0
  #v[0x61707865, 0x3320646e, 0x79622d32, 0x6b206574,
    key 0, key 1, key 2, key 3, key 4, key 5, key 6, key 7,
    number.toUInt32, (number >>> 32).toUInt32, 0, 0]

end Block

/-- Pairs of words as numbers of 64 bits, the low word first. -/
def pairWords : List UInt32 → List UInt64
  | low :: high :: rest => (low.toUInt64 ||| (high.toUInt64 <<< 32)) :: pairWords rest
  | _ => []

/-- A stream of numbers of 64 bits. -/
structure RandomStream where
  key : List UInt32
  /-- The number of the next block. -/
  next : UInt64
  /-- What is left of the block before it. -/
  ready : List UInt64

namespace RandomStream

/-- The stream of a seed. -/
def ofSeed (seed : UInt64) : RandomStream :=
  ⟨seedWords 8 seed, 0, []⟩

/-- Draws a number. -/
def draw (s : RandomStream) : UInt64 × RandomStream :=
  match s.ready with
  | n :: ready => (n, { s with ready })
  | [] =>
    match pairWords (Block.start s.key s.next).scramble.toList with
    | n :: ready => (n, { s with next := s.next + 1, ready })
    | [] => (0, s)

end RandomStream

end Formicary
