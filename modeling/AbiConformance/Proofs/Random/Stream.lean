import AbiConformance.Random.ChaCha

namespace AbiConformance

namespace ChaCha

theorem get_eq_getElem (b : Block) {j : Nat} (hj : j < 16) : b.get ⟨j, hj⟩ = b[j] := rfl

theorem word_eq_getElem (key : Key) (k : Nat) {j : Nat} (hj : j < 16) :
    word key (16 * k + j) = (block key k)[j] := by
  have hdiv : (16 * k + j) / 16 = k := by omega
  have hmod : (16 * k + j) % 16 = j := by omega
  simp only [word, hdiv, hmod, get_eq_getElem]

theorem toList_block (key : Key) (k : Nat) :
    (block key k).toList = (List.range' (16 * k) 16).map (word key) := by
  apply List.ext_getElem
  · simp
  · intro j hj _
    simp only [Vector.length_toList] at hj
    simp [word_eq_getElem key k hj]

end ChaCha

namespace Generator

open ChaCha

def position (key : Key) (i : Nat) : Generator where
  key := key
  counter := (i + 15) / 16
  pending := (List.range' i (16 * ((i + 15) / 16) - i)).map (word key)

theorem ofSeed_eq (seed : UInt64) : ofSeed seed = position (keyOfSeed seed) 0 := rfl

theorem position_block (key : Key) (k : Nat) : position key (16 * k) = ⟨key, k, []⟩ := by
  have hcounter : (16 * k + 15) / 16 = k := by omega
  simp [position, hcounter]

theorem position_pending (key : Key) (k : Nat) {j : Nat} (hj : j < 16) :
    position key (16 * k + j + 1) =
      ⟨key, k + 1, (List.range' (16 * k + j + 1) (15 - j)).map (word key)⟩ := by
  have hcounter : (16 * k + j + 1 + 15) / 16 = k + 1 := by omega
  have hleft : 16 * (k + 1) - (16 * k + j + 1) = 15 - j := by omega
  simp only [position, hcounter, hleft]

theorem run_nextWord_of_block (key : Key) (k : Nat) : nextWord.run ⟨key, k, []⟩ =
    (word key (16 * k), ⟨key, k + 1, (block key k).toList.tail⟩) := by
  have hfirst := word_eq_getElem key k (Nat.zero_lt_succ 15)
  rw [Nat.add_zero] at hfirst
  rw [hfirst]
  rfl

theorem run_nextWord_of_pending (key : Key) (k : Nat) (w : UInt32) (rest : List UInt32) :
    nextWord.run ⟨key, k, w :: rest⟩ = (w, ⟨key, k, rest⟩) := rfl

theorem run_nextWord (key : Key) (i : Nat) :
    nextWord.run (position key i) = (word key i, position key (i + 1)) := by
  obtain ⟨k, j, hj, rfl⟩ : ∃ k j, j < 16 ∧ i = 16 * k + j := ⟨i / 16, i % 16, by omega, by omega⟩
  rw [position_pending key k hj]
  -- The first word of a block has the block computed, and the others are pending by then.
  cases j with
  | zero =>
    have hblock := toList_block key k
    rw [List.range'_succ, List.map_cons] at hblock
    simp only [Nat.add_zero, Nat.sub_zero, position_block, run_nextWord_of_block, hblock,
      List.tail_cons]
  | succ j =>
    have hleft : 15 - j = 15 - (j + 1) + 1 := by omega
    rw [← Nat.add_assoc, position_pending key k (Nat.lt_of_succ_lt hj), hleft, List.range'_succ,
      List.map_cons, run_nextWord_of_pending]

theorem run_nextPair (key : Key) (i : Nat) : nextPair.run (position key i) =
    ((word key i).toUInt64 ||| (word key (i + 1)).toUInt64 <<< 32, position key (i + 2)) := by
  have hpair : nextPair.run (position key i) =
      ((nextWord.run (position key i)).1.toUInt64 |||
          (nextWord.run (nextWord.run (position key i)).2).1.toUInt64 <<< 32,
        (nextWord.run (nextWord.run (position key i)).2).2) := rfl
  rw [hpair, run_nextWord, run_nextWord]

theorem streams (seed : UInt64) : source.Streams seed (word (keyOfSeed seed))
    fun i g => g = position (keyOfSeed seed) i where
  start := ofSeed_eq seed
  nextWord := by
    rintro i _ rfl
    simp only [source, run_nextWord, and_self]
  nextPair := by
    rintro i _ rfl
    simp only [source, run_nextPair, and_self]

end Generator

end AbiConformance
