import AbiConformance.Proofs.Call.Footprint
import AbiConformance.Proofs.Memory.Words

namespace AbiConformance

open Integral Memory

namespace Memory

variable {α : Type} [Scalar α]

theorem pairReads_subset {left right : Pointer} {n : Nat} :
    pairReads left right n ⊆ left.span (n * 8) ++ right.span (n * 8) := by
  unfold pairReads
  split
  · exact List.nil_subset _
  · exact List.Subset.refl _

theorem not_contains_span_of_absent {p : Pointer} {n width i : Nat}
    (h : n = 0 ∨ p.isNull = true) : ¬(p.span (n * width)).Contains i := by
  cases hp : p.isNull with
  | true => simp [hp]
  | false =>
    have hn : n = 0 := h.resolve_right (Bool.eq_false_iff.mp hp)
    rw [Pointer.span_of_not_null hp, hn, Region.not_contains_singleton]
    omega

theorem not_contains_pairReads_of_absent {left right : Pointer} {n i : Nat}
    (h : n = 0 ∨ left.isNull = true ∨ right.isNull = true) :
    ¬(pairReads left right n).Contains i := by
  unfold pairReads
  split
  · exact Region.not_contains_nil i
  · rename_i hboth
    rw [Bool.or_eq_true] at hboth
    have hn : n = 0 := h.resolve_right hboth
    rw [Region.contains_append, not_or]
    exact ⟨not_contains_span_of_absent (.inl hn), not_contains_span_of_absent (.inl hn)⟩

theorem slice_of_absent {m : Memory} {p : Pointer} {n : Nat} (h : n = 0 ∨ p.isNull = true) :
    m.slice α p n = [] := by
  rcases h with rfl | hp
  · exact slice_zero m p
  · exact if_pos hp

theorem slice_eq_of_words {m : Memory} {p : Pointer} {n : Nat} {xs : List α}
    (hp : p.isNull = false) (h : xs.map Scalar.toWord = m.words p.addr (Scalar.width α) n) :
    m.slice α p n = xs := by
  rw [slice_of_not_null hp, loadArray_eq_of_words h]

theorem exists_words (α : Type) [Scalar α] (m : Memory) (a n : Nat) :
    ∃ xs : List α, xs.map Scalar.toWord = m.words a (Scalar.width α) n :=
  ⟨_, map_toWord_loadArray m a n⟩

end Memory

namespace Call

theorem run_sumArray_of_words {e : ElementType} {m : Memory} {data : Pointer} {count : e.Count}
    {xs : List e.Carrier} (hd : data.isNull = false)
    (h : xs.map Scalar.toWord = m.words data.addr (Scalar.width e.Carrier) (elementCount count)) :
    (Call.sumArray e data count).run m = (e.value (sum xs), m) := by
  simp only [run, slice_eq_of_words hd h]

theorem run_sumArray_of_absent {e : ElementType} {data : Pointer} {count : e.Count}
    (h : toInt count ≤ 0 ∨ data.isNull = true) (m : Memory) :
    (Call.sumArray e data count).run m = (e.value Accumulator.zero, m) := by
  simp only [run, slice_of_absent (h.imp_left elementCount_eq_zero_iff.mpr)]
  rfl

theorem run_sumArrayPair_of_words {m : Memory} {left right : Pointer} {count : Int32}
    {xs ys : List Binary64} (hl : left.isNull = false) (hr : right.isNull = false)
    (hxs : xs.map Scalar.toWord = m.words left.addr 8 (elementCount count))
    (hys : ys.map Scalar.toWord = m.words right.addr 8 (elementCount count)) :
    (Call.sumArrayPair left right count).run m = (.binary64 (sumPairs xs ys), m) := by
  simp only [run, slice_eq_of_words hl hxs, slice_eq_of_words hr hys]

theorem run_sumArrayPair_of_absent {left right : Pointer} {count : Int32}
    (h : count.toInt ≤ 0 ∨ left.isNull = true ∨ right.isNull = true) (m : Memory) :
    (Call.sumArrayPair left right count).run m = (.binary64 Binary64.zero, m) := by
  have hempty : (m.slice Binary64 left (elementCount count)).zip
      (m.slice Binary64 right (elementCount count)) = [] := by
    rw [List.zip_eq_nil_iff]
    rcases h with hcount | hl | hr
    · exact .inl (slice_of_absent (.inl (elementCount_eq_zero_iff.mpr hcount)))
    · exact .inl (slice_of_absent (.inr hl))
    · exact .inr (slice_of_absent (.inr hr))
  simp only [run, sumPairs, hempty]
  rfl

end Call

theorem counted_sums_fold_their_words :
    (∀ (e : ElementType) (data : Pointer) (count : e.Count),
      let call := Call.sumArray e data count
      let width := Scalar.width e.Carrier
      (toInt count ≤ 0 ∨ data.isNull = true → ∀ m, call.run m = (e.value Accumulator.zero, m) ∧
        ∀ i, ¬(call.reads m).Contains i) ∧
      (data.isNull = false → ∀ (m : Memory) (n : Nat), toInt count = n →
        ∃ xs : List e.Carrier, xs.map Scalar.toWord = m.words data.addr width n ∧
          call.run m = (e.value (xs.foldl Accumulator.add Accumulator.zero), m)) ∧
      ∀ m m', Agree (data.span (elementCount count * width)) m m' →
        (call.run m).1 = (call.run m').1) ∧
    ∀ (left right : Pointer) (count : Int32),
      let call := Call.sumArrayPair left right count
      (count.toInt ≤ 0 ∨ left.isNull = true ∨ right.isNull = true →
        ∀ m, call.run m = (.binary64 Binary64.zero, m) ∧ ∀ i, ¬(call.reads m).Contains i) ∧
      (left.isNull = false → right.isNull = false → ∀ (m : Memory) (n : Nat), count.toInt = n →
        ∃ xs ys : List Binary64, xs.map Scalar.toWord = m.words left.addr 8 n ∧
          ys.map Scalar.toWord = m.words right.addr 8 n ∧
          call.run m = (.binary64
            ((xs.zip ys).foldl (fun total pair => total + (pair.1 + pair.2)) Binary64.zero), m)) ∧
      ∀ m m',
        Agree (left.span (elementCount count * 8) ++ right.span (elementCount count * 8)) m m' →
          (call.run m).1 = (call.run m').1 := by
  refine ⟨fun e data count => ⟨?_, ?_, ?_⟩, fun left right count => ⟨?_, ?_, ?_⟩⟩
  · intro habsent m
    have hnone := habsent.imp_left elementCount_eq_zero_iff.mpr
    exact ⟨Call.run_sumArray_of_absent habsent m, fun i => not_contains_span_of_absent hnone⟩
  · intro hdata m n hcount
    have hn : elementCount count = n := elementCount_eq hcount
    obtain ⟨xs, hxs⟩ := exists_words e.Carrier m data.addr n
    exact ⟨xs, hxs, Call.run_sumArray_of_words hdata (hn ▸ hxs)⟩
  · intro m m' hagree
    exact Call.run_value_congr hagree
  · intro habsent m
    have hnone := habsent.imp_left (elementCount_eq_zero_iff (ν := Int32)).mpr
    exact ⟨Call.run_sumArrayPair_of_absent habsent m, fun i =>
      not_contains_pairReads_of_absent hnone⟩
  · intro hleft hright m n hcount
    have hn : elementCount count = n := elementCount_eq hcount
    obtain ⟨xs, hxs⟩ := exists_words Binary64 m left.addr n
    obtain ⟨ys, hys⟩ := exists_words Binary64 m right.addr n
    exact ⟨xs, ys, hxs, hys, Call.run_sumArrayPair_of_words hleft hright (hn ▸ hxs) (hn ▸ hys)⟩
  · intro m m' hagree
    apply Call.run_value_congr
    apply hagree.mono
    exact pairReads_subset

def flanked (before after : Int64) : Memory :=
  ((Memory.empty.store 64 Binary64.one).store 56 before).store 72 after

theorem agree_flanked {a n : Nat} (ha : 64 ≤ a) (hn : a + n ≤ 72) (x y x' y' : Int64) :
    Agree [⟨a, n⟩] (flanked x y) (flanked x' y') := by
  intro i hi
  rw [Region.contains_singleton] at hi
  have hbefore : i < 56 ∨ 56 + Scalar.width Int64 ≤ i := Or.inr (by simp; omega)
  have hafter : i < 72 ∨ 72 + Scalar.width Int64 ≤ i := Or.inl (by omega)
  simp only [flanked, byte_store_of_not_mem hbefore, byte_store_of_not_mem hafter]

theorem counted_sums_fold_their_words_flanked :
    let m := flanked (-1) 5
    let m' := flanked 3 (-1)
    let double : Pointer := .ofAddr 64
    let inside : Pointer := .ofAddr 66
    (Call.sumArray .int16 inside 3).run m = (.int16 16368, m) ∧
      ((Call.sumArray .int16 inside 3).run m').1 = .int16 16368 ∧
      (Call.sumArray .int16 inside (-3)).run m = (.int16 0, m) ∧
      (Call.sumArray .binary32 .null 3).run m = (.binary32 Binary32.zero, m) ∧
      (Call.sumArrayPair double double 1).run m =
        (.binary64 (Binary64.zero + (Binary64.one + Binary64.one)), m) ∧
      ((Call.sumArrayPair double double 1).run m).1 =
        ((Call.sumArrayPair double double 1).run m').1 ∧
      (Call.sumArrayPair double .null 1).run m = (.binary64 Binary64.zero, m) := by
  intro m m' double inside
  obtain ⟨harray, hpair⟩ := counted_sums_fold_their_words
  have hinside : Agree [⟨66, 6⟩] m m' := agree_flanked (by decide) (by decide) _ _ _ _
  have hdouble : Agree ([⟨64, 8⟩] ++ [⟨64, 8⟩]) m m' := by
    apply (agree_flanked (a := 64) (n := 8) (by decide) (by decide) _ _ _ _).mono
    simp
  obtain ⟨xs, hxs, hsum⟩ := (harray .int16 inside 3).2.1 rfl m 3 rfl
  obtain ⟨ys, zs, hys, hzs, hpairSum⟩ := (hpair double double 1).2.1 rfl rfl m 1 rfl
  have hwords : xs = ([0, 0, 16368] : List Int16) := eq_of_map_toWord (hxs.trans (by decide))
  have hleft : ys = [Binary64.one] := eq_of_map_toWord (hys.trans (by decide))
  have hright : zs = [Binary64.one] := eq_of_map_toWord (hzs.trans (by decide))
  subst hwords hleft hright
  have hagrees : ((Call.sumArray .int16 inside 3).run m).1 =
      ((Call.sumArray .int16 inside 3).run m').1 := (harray .int16 inside 3).2.2 m m' hinside
  refine ⟨hsum, ?_, ?_, ?_, hpairSum, (hpair double double 1).2.2 m m' hdouble, ?_⟩
  · rw [← hagrees, hsum]
    rfl
  · exact ((harray .int16 inside (-3)).1 (.inl (by decide)) m).1
  · exact ((harray .binary32 .null 3).1 (.inr rfl) m).1
  · exact ((hpair double .null 1).1 (.inr (.inr rfl)) m).1

end AbiConformance
