/-!
# The keystream of a seed

Plans are drawn from a reproducible stream of 32-bit words: the ChaCha stream
cipher with twelve rounds, under a key that a small linear congruential
generator expands from a 64-bit seed. The stream is its blocks laid end to
end, sixteen words each, and block `n` depends on the key and `n` alone, so
the first words of the stream do not depend on how many are drawn.
-/

namespace ReaderWriter.Keystream

/-- Sixteen words. -/
abbrev Block := Vector UInt32 16

/-- Moves the bits of a word to the left, those that fall out coming in again. -/
def rotateLeft (x : UInt32) (n : UInt32) : UInt32 :=
  (x <<< n) ||| (x >>> (32 - n))

/-- Moves the bits of a word to the right, those that fall out coming in again. -/
def rotateRight (x : UInt32) (n : UInt32) : UInt32 :=
  (x >>> n) ||| (x <<< (32 - n))

/-- One step of the generator that expands seeds. -/
def advance (state : UInt64) : UInt64 :=
  state * 6364136223846793005 + 11634580027462260723

/-- The word that a state of the generator yields. -/
def extract (state : UInt64) : UInt32 :=
  rotateRight (((state >>> 18) ^^^ state) >>> 27).toUInt32 (state >>> 59).toUInt32

/-- The next `count` words of the generator. -/
def expand (state : UInt64) : Nat → List UInt32
  | 0 => []
  | count + 1 => extract (advance state) :: expand (advance state) count

/-- The block that a key and a counter start from. -/
def start (key : List UInt32) (counter : UInt64) : Block :=
  let k := fun i => key.getD i 0
  #v[0x61707865, 0x3320646e, 0x79622d32, 0x6b206574,
     k 0, k 1, k 2, k 3, k 4, k 5, k 6, k 7,
     counter.toUInt32, (counter >>> 32).toUInt32, 0, 0]

/-- Adds word `j` to word `i`, and turns word `k`, after taking word `i` into
it, by `n` bits. -/
def mix (b : Block) (i j k : Fin 16) (n : UInt32) : Block :=
  let b := b.set i (b[i] + b[j])
  b.set k (rotateLeft (b[k] ^^^ b[i]) n)

/-- Mixes four words of a block with one another. -/
def quarterRound (b : Block) (i j k l : Fin 16) : Block :=
  mix (mix (mix (mix b i j l 16) k l j 12) i j l 8) k l j 7

/-- Mixes the columns of a block, then its diagonals. -/
def doubleRound (b : Block) : Block :=
  let b := quarterRound b 0 4 8 12
  let b := quarterRound b 1 5 9 13
  let b := quarterRound b 2 6 10 14
  let b := quarterRound b 3 7 11 15
  let b := quarterRound b 0 5 10 15
  let b := quarterRound b 1 6 11 12
  let b := quarterRound b 2 7 8 13
  quarterRound b 3 4 9 14

/-- A block of the stream: twelve rounds of mixing, then the start added. -/
def block (key : List UInt32) (counter : UInt64) : Block :=
  let first := start key counter
  let mixed := Nat.repeat doubleRound 6 first
  first.zipWith (· + ·) mixed

/-- The blocks number `n` and after, `count` of them, laid end to end. -/
def blocksFrom (key : List UInt32) (n : Nat) : Nat → List UInt32
  | 0 => []
  | count + 1 => (block key n.toUInt64).toList ++ blocksFrom key (n + 1) count

/-- The first `count` words of the stream of a seed. -/
def words (seed : UInt64) (count : Nat) : List UInt32 :=
  (blocksFrom (expand seed 8) 0 ((count + 15) / 16)).take count

@[simp] theorem length_blocksFrom (key : List UInt32) (n count : Nat) :
    (blocksFrom key n count).length = 16 * count := by
  induction count generalizing n with
  | zero => rfl
  | succ count ih => simp only [blocksFrom, List.length_append, Vector.length_toList, ih]; omega

@[simp] theorem length_words (seed : UInt64) (count : Nat) :
    (words seed count).length = count := by
  simp only [words, List.length_take, length_blocksFrom]
  omega

end ReaderWriter.Keystream
