import AbiConformance.Power

namespace AbiConformance

structure WordSource (γ : Type) where
  ofSeed : UInt64 → γ
  nextWord : StateM γ UInt32
  nextPair : StateM γ UInt64

/-- `At i g` says that `g` is a state in which the first `i` words of the seed are handed out. -/
structure WordSource.Streams {γ : Type} (G : WordSource γ) (seed : UInt64) (word : Nat → UInt32)
    (At : Nat → γ → Prop) : Prop where
  start : At 0 (G.ofSeed seed)
  nextWord : ∀ {i g}, At i g →
    (G.nextWord.run g).1 = word i ∧ At (i + 1) (G.nextWord.run g).2
  nextPair : ∀ {i g}, At i g →
    (G.nextPair.run g).1 = (word i).toUInt64 ||| (word (i + 1)).toUInt64 <<< 32 ∧
      At (i + 2) (G.nextPair.run g).2

end AbiConformance
