import AbiConformance.Proofs.Sum.Integers

namespace AbiConformance

open Integral Wrapping

section Width

variable {α : Type} [Accumulator α] {xs ys xs' ys' : List α}

def pairSums (xs ys : List α) : List α :=
  List.ofFn fun i : Fin (min xs.length ys.length) =>
    Accumulator.add (xs.get (i.castLE (Nat.min_le_left ..)))
      (ys.get (i.castLE (Nat.min_le_right ..)))

theorem pairSums_eq_zipWith (xs ys : List α) :
    pairSums xs ys = List.zipWith Accumulator.add xs ys := by
  apply List.ext_getElem
  · simp [pairSums]
  · intro i _ _
    simp [pairSums]

theorem sumPairs_eq_sum (xs ys : List α) : sumPairs xs ys = sum (pairSums xs ys) := by
  rw [pairSums_eq_zipWith]
  exact (List.zipWith_foldl_eq_zip_foldl ..).symm

theorem sumPairs_congr (hlength : min xs'.length ys'.length = min xs.length ys.length)
    (hxs : xs'.take (min xs.length ys.length) = xs.take (min xs.length ys.length))
    (hys : ys'.take (min xs.length ys.length) = ys.take (min xs.length ys.length)) :
    sumPairs xs' ys' = sumPairs xs ys := by
  have hzip : xs'.zip ys' = xs.zip ys := by
    calc xs'.zip ys'
        = (xs'.take (min xs'.length ys'.length)).zip (ys'.take (min xs'.length ys'.length)) :=
          List.zip_eq_zip_take_min
      _ = (xs.take (min xs.length ys.length)).zip (ys.take (min xs.length ys.length)) := by
          rw [hlength, hxs, hys]
      _ = xs.zip ys := List.zip_eq_zip_take_min.symm
  rw [sumPairs, hzip, sumPairs]

theorem foldl_sum (xs ys : List α) : ys.foldl Accumulator.add (sum xs) = sum (xs ++ ys) :=
  (sumFrom_append Accumulator.zero xs ys).symm

end Width

section Residue

variable {α : Type} [Accumulator α] [Integral α] [Wrapping α]

theorem exactSum_append {α : Type} [Integral α] (xs ys : List α) :
    exactSum (xs ++ ys) = exactSum xs + exactSum ys := by
  simp only [exactSum_eq_sum_map, List.map_append, List.sum_append]

theorem Represents.add {x y : α} {m n : Int} (hx : Represents x m) (hy : Represents y n) :
    Represents (Accumulator.add x y) (m + n) :=
  represents_of_modEq ((toInt_add_modEq x y).trans (hx.modEq.add hy.modEq))

theorem sum_append (xs ys : List α) : sum (xs ++ ys) = Accumulator.add (sum xs) (sum ys) := by
  have hparts := (represents_sum xs).add (represents_sum ys)
  rw [← exactSum_append] at hparts
  exact (represents_sum (xs ++ ys)).eq hparts

theorem exactSum_zipWith_modEq {xs ys : List α} (h : xs.length = ys.length) :
    exactSum (List.zipWith Accumulator.add xs ys) ≡ exactSum xs + exactSum ys
      [ZMOD 2 ^ bits α] := by
  induction xs generalizing ys with
  | nil =>
    obtain rfl : ys = [] := List.length_eq_zero_iff.mp h.symm
    rfl
  | cons x xs ih =>
    cases ys with
    | nil => cases h
    | cons y ys =>
      simp only [List.zipWith_cons_cons, exactSum_cons]
      calc toInt (Accumulator.add x y) + exactSum (List.zipWith Accumulator.add xs ys)
          ≡ (toInt x + toInt y) + (exactSum xs + exactSum ys) [ZMOD 2 ^ bits α] :=
            (toInt_add_modEq x y).add (ih (Nat.succ.inj h))
        _ = toInt x + exactSum xs + (toInt y + exactSum ys) := add_add_add_comm ..

theorem represents_sumPairs (xs ys : List α) :
    Represents (sumPairs xs ys) (exactSum (xs.take (min xs.length ys.length)) +
      exactSum (ys.take (min xs.length ys.length))) := by
  apply represents_of_modEq
  rw [sumPairs_eq_sum, pairSums_eq_zipWith, List.zipWith_eq_zipWith_take_min]
  apply (toInt_sum_modEq _).trans
  apply exactSum_zipWith_modEq
  simp

theorem sumPairs_eq_add (xs ys : List α) :
    sumPairs xs ys = Accumulator.add (sum (xs.take (min xs.length ys.length)))
      (sum (ys.take (min xs.length ys.length))) :=
  (represents_sumPairs xs ys).eq ((represents_sum _).add (represents_sum _))

theorem sumPairs_comm (xs ys : List α) : sumPairs xs ys = sumPairs ys xs := by
  have hswapped := represents_sumPairs ys xs
  rw [Nat.min_comm, Int.add_comm] at hswapped
  exact (represents_sumPairs xs ys).eq hswapped

end Residue

theorem pair_sums_and_sums_in_parts :
    (∀ (e : ElementType) (xs ys : List e.Carrier),
      let shorter := min xs.length ys.length
      sumPairs xs ys = sum (pairSums xs ys) ∧
        (∀ xs' ys' : List e.Carrier, min xs'.length ys'.length = shorter →
          xs'.take shorter = xs.take shorter → ys'.take shorter = ys.take shorter →
          sumPairs xs' ys' = sumPairs xs ys) ∧
        ys.foldl Accumulator.add (sum xs) = sum (xs ++ ys)) ∧
    ∀ (t : IntegerType) (xs ys : List t.Carrier),
      let shorter := min xs.length ys.length
      sumPairs xs ys = Accumulator.add (sum (xs.take shorter)) (sum (ys.take shorter)) ∧
        sumPairs xs ys = sumPairs ys xs ∧
        sum (xs ++ ys) = Accumulator.add (sum xs) (sum ys) := by
  constructor
  · intro e xs ys shorter
    exact ⟨sumPairs_eq_sum xs ys, fun xs' ys' => sumPairs_congr, foldl_sum xs ys⟩
  · intro t xs ys shorter
    exact ⟨sumPairs_eq_add xs ys, sumPairs_comm xs ys, sum_append xs ys⟩

theorem pair_sums_and_sums_in_parts_uneven :
    let xs : List Int8 := [100, 100, 7]
    let ys : List Int8 := [100, -1]
    sumPairs ([100, 100] : List Int8) [100, -1, 9, 9] = sumPairs xs ys ∧
      sumPairs xs ys = Accumulator.add (sum [100, 100]) (sum ys) ∧ sumPairs xs ys = 43 := by
  intro xs ys
  obtain ⟨-, hbeyond, -⟩ := pair_sums_and_sums_in_parts.1 .int8 xs ys
  obtain ⟨hadd, -, -⟩ := pair_sums_and_sums_in_parts.2 .int8 xs ys
  exact ⟨hbeyond [100, 100] [100, -1, 9, 9] rfl rfl rfl, hadd, rfl⟩

end AbiConformance
