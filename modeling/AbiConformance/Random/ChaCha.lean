import AbiConformance.Random.Source

namespace AbiConformance

namespace ChaCha

abbrev Block := Vector UInt32 16

abbrev Key := Vector UInt32 8

def rotateLeft (x n : UInt32) : UInt32 := (x <<< n) ||| (x >>> (32 - n))

def rotateRight (x n : UInt32) : UInt32 := (x >>> n) ||| (x <<< (32 - n))

def mix (s : Block) (i j k : Fin 16) (n : UInt32) : Block :=
  let s := s.set i (s[i] + s[j])
  s.set k (rotateLeft (s[k] ^^^ s[i]) n)

def quarterRound (s : Block) (a b c d : Fin 16) : Block :=
  let s := mix s a b d 16
  let s := mix s c d b 12
  let s := mix s a b d 8
  mix s c d b 7

def columnRound (s : Block) : Block :=
  let s := quarterRound s 0 4 8 12
  let s := quarterRound s 1 5 9 13
  let s := quarterRound s 2 6 10 14
  quarterRound s 3 7 11 15

def diagonalRound (s : Block) : Block :=
  let s := quarterRound s 0 5 10 15
  let s := quarterRound s 1 6 11 12
  let s := quarterRound s 2 7 8 13
  quarterRound s 3 4 9 14

def rounds : Nat → Block → Block
  | 0, s => s
  | n + 1, s => rounds n (diagonalRound (columnRound s))

def doubleRounds : Nat := 4

def start (key : Key) (counter : Nat) : Block := #v[
  0x61707865, 0x3320646e, 0x79622d32, 0x6b206574,
  key[0], key[1], key[2], key[3], key[4], key[5], key[6], key[7],
  UInt32.ofNat counter, UInt32.ofNat (counter / 2 ^ 32), 0, 0]

def block (key : Key) (counter : Nat) : Block :=
  let s := start key counter
  (rounds doubleRounds s).zipWith (· + ·) s

def word (key : Key) (i : Nat) : UInt32 :=
  (block key (i / 16)).get ⟨i % 16, Nat.mod_lt i (by decide)⟩

def stretch (state : UInt64) : UInt32 × UInt64 :=
  let next := state * 6364136223846793005 + 11634580027462260723
  let x := (((next >>> 18) ^^^ next) >>> 27).toUInt32
  (rotateRight x (next >>> 59).toUInt32, next)

def stretchTimes : Nat → UInt64 → List UInt32
  | 0, _ => []
  | n + 1, state => (stretch state).1 :: stretchTimes n (stretch state).2

@[simp] theorem length_stretchTimes (n : Nat) (state : UInt64) :
    (stretchTimes n state).length = n := by
  induction n generalizing state with
  | zero => rfl
  | succ n ih => simp [stretchTimes, ih]

def keyOfSeed (seed : UInt64) : Key := ⟨(stretchTimes 8 seed).toArray, by simp⟩

end ChaCha

structure Generator where
  key : ChaCha.Key
  counter : Nat
  pending : List UInt32

namespace Generator

def ofSeed (seed : UInt64) : Generator := ⟨ChaCha.keyOfSeed seed, 0, []⟩

def nextWord : StateM Generator UInt32 := fun g =>
  match g.pending with
  | w :: rest => (w, { g with pending := rest })
  | [] =>
    let b := ChaCha.block g.key g.counter
    (b[0], ⟨g.key, g.counter + 1, b.toList.tail⟩)

def nextPair : StateM Generator UInt64 := do
  let low ← nextWord
  let high ← nextWord
  return low.toUInt64 ||| high.toUInt64 <<< 32

def source : WordSource Generator := ⟨ofSeed, nextWord, nextPair⟩

end Generator

end AbiConformance
