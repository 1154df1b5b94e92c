import AbiConformance.Proofs.Call.Assignment
import AbiConformance.Proofs.Ieee.Exact
import AbiConformance.Proofs.Sum.Counted
import AbiConformance.Proofs.Sum.Integers

namespace AbiConformance

open Integral LittleEndian Memory

namespace IntegerType

def SumsWords (t : IntegerType) (m : Memory) (data : Pointer) (count : t.element.Count)
    (words : List Nat) : Prop :=
  ∃ (xs : List t.Carrier) (x : t.Carrier), xs.map Scalar.toWord = words ∧
    (Call.sumArray t.element data count).run m = (t.element.value x, m) ∧
    Represents x (exactSum xs)

variable {t u : IntegerType} {m : Memory} {data p : Pointer} {xs : List t.Carrier}

theorem run_sumArray_of_words {count : t.element.Count} (hd : data.isNull = false)
    (h : xs.map Scalar.toWord = m.words data.addr (Scalar.width t.Carrier) (elementCount count)) :
    ∃ x, (Call.sumArray t.element data count).run m = (t.element.value x, m) ∧
      Represents x (exactSum xs) :=
  ⟨sum xs, Call.run_sumArray_of_words hd h, represents_sum xs⟩

theorem sumsWords {count : t.element.Count} {n : Nat} (hd : data.isNull = false)
    (hn : toInt count = n) :
    t.SumsWords m data count (m.words data.addr (Scalar.width t.Carrier) n) := by
  rw [← elementCount_eq hn]
  obtain ⟨ys, hys⟩ := exists_words t.Carrier m data.addr (elementCount count)
  obtain ⟨y, hrun, hy⟩ := run_sumArray_of_words hd hys
  exact ⟨ys, y, hys, hrun, hy⟩

theorem sumsWords_split {count : u.element.Count} {k o n : Nat}
    (hwords : m.words data.addr (Scalar.width t.Carrier) xs.length = xs.map Scalar.toWord)
    (hwidth : Scalar.width t.Carrier = k * Scalar.width u.Carrier) (hle : o + n ≤ xs.length * k)
    (hp : p.isNull = false) (haddr : p.addr = data.addr + o * Scalar.width u.Carrier)
    (hn : toInt count = n) :
    u.SumsWords m p count
      ((((xs.map Scalar.toWord).flatMap (split (Scalar.width u.Carrier) k)).drop o).take n) := by
  have hsums := sumsWords (m := m) hp hn
  rwa [haddr, ← words_window m data.addr _ hle, words_split, ← hwidth, hwords] at hsums

theorem sumsWords_join {count : u.element.Count} {k o n : Nat}
    (hwords : m.words data.addr (Scalar.width t.Carrier) xs.length = xs.map Scalar.toWord)
    (hwidth : Scalar.width u.Carrier = k * Scalar.width t.Carrier) (hle : o + n * k ≤ xs.length)
    (hp : p.isNull = false) (haddr : p.addr = data.addr + o * Scalar.width t.Carrier)
    (hn : toInt count = n) :
    u.SumsWords m p count ((List.range n).map fun i =>
      join (Scalar.width t.Carrier) (((xs.map Scalar.toWord).drop (o + i * k)).take k)) := by
  have hsums := sumsWords (m := m) hp hn
  rwa [haddr, hwidth, words_join m data.addr _ hle, hwords] at hsums

end IntegerType

theorem assigned_words_and_their_sums :
    (∀ (m : Memory) (ws : List Assignment) (i : Nat), (Assignment.run m ws).byte i =
      ((Assignment.lastCovering ws i).map (·.byteAt i)).getD (m.byte i)) ∧
    (∀ (x : Int32) (z : Binary64), z = Binary64.ofInt x.toInt ↔
      z.toRat? = some (x.toInt : ℚ) ∧ z ≠ Binary64.negZero) ∧
    ∀ (t : IntegerType) (m : Memory) (data : Pointer) (xs : List t.Carrier) (ws : List Assignment),
      data.isNull = false → data.addr + xs.length * Scalar.width t.Carrier ≤ addressSpace →
      ws.Perm (Assignment.fill t.element data xs) →
      let m' := Assignment.run m ws
      (∀ count : t.element.Count, toInt count = xs.length → ∃ x,
        (Call.sumArray t.element data count).run m' = (t.element.value x, m') ∧
          Represents x (exactSum xs)) ∧
      ∀ (u : IntegerType) (p : Pointer) (count : u.element.Count) (k o n : Nat),
        p.isNull = false → toInt count = n →
        (Scalar.width t.Carrier = k * Scalar.width u.Carrier → o + n ≤ xs.length * k →
          p.addr = data.addr + o * Scalar.width u.Carrier → u.SumsWords m' p count
            ((((xs.map Scalar.toWord).flatMap (split (Scalar.width u.Carrier) k)).drop o).take n)) ∧
        (Scalar.width u.Carrier = k * Scalar.width t.Carrier → o + n * k ≤ xs.length →
          p.addr = data.addr + o * Scalar.width t.Carrier →
          u.SumsWords m' p count ((List.range n).map fun i =>
            join (Scalar.width t.Carrier) (((xs.map Scalar.toWord).drop (o + i * k)).take k))) := by
  refine ⟨Assignment.byte_run, ?_, ?_⟩
  · intro x z
    have hsmall : x.toInt.natAbs < 2 ^ 53 := by
      have hlow := x.le_toInt
      have hhigh := x.toInt_lt
      omega
    exact Binary64.eq_ofInt_iff hsmall
  · intro t m data xs ws hdata hfits hperm m'
    have hwords : m'.words data.addr (Scalar.width t.Carrier) xs.length = xs.map Scalar.toWord :=
      Assignment.words_run_fill hfits hperm
    refine ⟨?_, fun u p count k o n hp hn => ⟨fun hwidth hle haddr => ?_,
      fun hwidth hle haddr => ?_⟩⟩
    · intro count hcount
      rw [← elementCount_eq hcount] at hwords
      exact IntegerType.run_sumArray_of_words hdata hwords.symm
    · exact IntegerType.sumsWords_split hwords hwidth hle hp haddr hn
    · exact IntegerType.sumsWords_join hwords hwidth hle hp haddr hn

def overlapping : List Assignment := [.converted (.ofAddr 64) 1, .plain .int8 (.ofAddr 70) (-1)]

def shorts : List Int16 := [300, -2, 7]

theorem assigned_words_and_their_sums_shorts :
    let m := Assignment.run Memory.empty overlapping
    let ws := (Assignment.fill .int16 (.ofAddr 64) shorts).reverse
    let m' := Assignment.run m ws
    m.byte 70 = 0xFF ∧ m.byte 71 = 0x3F ∧ m.byte 72 = 0 ∧
      (Binary64.ofInt (1 : Int32).toInt).toRat? = some 1 ∧
      ws.Perm (Assignment.fill .int16 (.ofAddr 64) shorts) ∧
      (Call.sumArray .int16 (.ofAddr 64) 3).run m' = (.int16 305, m') ∧
      (Call.sumArray .int8 (.ofAddr 64) 6).run m' = (.int8 49, m') ∧
      (Call.sumArray .int32 (.ofAddr 66) 1).run m' = (.int32 524286, m') := by
  intro m ws m'
  obtain ⟨hbytes, hexact, hsums⟩ := assigned_words_and_their_sums
  have hperm : ws.Perm (Assignment.fill .int16 (.ofAddr 64) shorts) := List.reverse_perm _
  obtain ⟨hsame, hother⟩ := hsums .int16 m (.ofAddr 64) shorts ws rfl (by decide) hperm
  obtain ⟨x, hrun, hx⟩ := hsame 3 rfl
  obtain ⟨ys, y, hys, hrunBytes, hy⟩ :=
    (hother .int8 (.ofAddr 64) 6 2 0 6 rfl rfl).1 rfl (by decide) rfl
  obtain ⟨zs, z, hzs, hrunWide, hz⟩ :=
    (hother .int32 (.ofAddr 66) 1 2 1 1 rfl rfl).2 rfl (by decide) rfl
  have hbytesRead : ys = ([44, 1, -2, -1, 7, 0] : List Int8) :=
    eq_of_map_toWord (hys.trans (by decide))
  have hwideRead : zs = ([524286] : List Int32) := eq_of_map_toWord (hzs.trans (by decide))
  subst hbytesRead hwideRead
  have hsum : (305 : Int16) = x := (hx _).mpr rfl
  have hsumBytes : (49 : Int8) = y := (hy _).mpr rfl
  have hsumWide : (524286 : Int32) = z := (hz _).mpr rfl
  subst hsum hsumBytes hsumWide
  refine ⟨(hbytes _ _ 70).trans (by decide), (hbytes _ _ 71).trans (by decide),
    (hbytes _ _ 72).trans (by decide), ?_, hperm, hrun, hrunBytes, hrunWide⟩
  exact_mod_cast ((hexact 1 _).mp rfl).1

end AbiConformance
