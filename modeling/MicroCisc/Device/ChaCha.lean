import MicroCisc.Device.SerialLine

namespace MicroCisc.ChaCha

abbrev Block := Vector UInt32 16

def rotateLeft (word count : UInt32) : UInt32 :=
  word <<< count ||| word >>> (32 - count)

def quarterRound (block : Block) (a b c d : Fin 16) : Block :=
  let block := block.set a (block[a] + block[b])
  let block := block.set d (rotateLeft (block[d] ^^^ block[a]) 16)
  let block := block.set c (block[c] + block[d])
  let block := block.set b (rotateLeft (block[b] ^^^ block[c]) 12)
  let block := block.set a (block[a] + block[b])
  let block := block.set d (rotateLeft (block[d] ^^^ block[a]) 8)
  let block := block.set c (block[c] + block[d])
  block.set b (rotateLeft (block[b] ^^^ block[c]) 7)

def doubleRound (block : Block) : Block :=
  let block := quarterRound block 0 4 8 12
  let block := quarterRound block 1 5 9 13
  let block := quarterRound block 2 6 10 14
  let block := quarterRound block 3 7 11 15
  let block := quarterRound block 0 5 10 15
  let block := quarterRound block 1 6 11 12
  let block := quarterRound block 2 7 8 13
  quarterRound block 3 4 9 14

-- A block of output, after twelve rounds.
def output (key : Vector UInt32 8) (count : UInt64) : Block :=
  let constants : Vector UInt32 4 := #v[0x61707865, 0x3320646e, 0x79622d32, 0x6b206574]
  let start : Block := constants ++ key ++ #v[count.toUInt32, (count >>> 32).toUInt32, 0, 0]
  (Nat.repeat doubleRound 6 start).zipWith (· + ·) start

-- One word of a key, and the state of the permuted generator that spreads a seed over the key.
def keyWord (state : UInt64) : UInt32 × UInt64 :=
  let state := state * 6364136223846793005 + 11634580027462260723
  let word : UInt32 := (((state >>> 18) ^^^ state) >>> 27).toUInt32
  let turn : UInt32 := (state >>> 59).toUInt32
  (rotateLeft word (32 - turn), state)

def keyWords : Nat → UInt64 → List UInt32
  | 0, _ => []
  | n + 1, state =>
      let (word, state) := keyWord state
      word :: keyWords n state

def key (seed : UInt64) : Vector UInt32 8 :=
  Vector.ofFn fun i => (keyWords 8 seed).getD i 0

instance generator : Generator where
  byte seed place := (output (key seed) (.ofNat (place / 16)))[place % 16].toUInt8

end MicroCisc.ChaCha
