import AbiConformance.Text
import Mathlib.Logic.Function.Iterate

namespace AbiConformance

def shiftLive (cells : List UInt8) : List UInt8 :=
  shiftToUpper (cells.takeWhile (· != 0)) ++ cells.dropWhile (· != 0)

def passed (k : Nat) (b : UInt8) : Nat :=
  if b.toNat % 32 = 0 then min k (b.toNat / 32) else k

def settle : Nat → List UInt8 → List UInt8
  | _, [] => []
  | k, b :: cells => (b - .ofNat (32 * passed k b)) :: settle (passed k b) cells

def stops (cells : List UInt8) : List Nat :=
  (cells.filter fun b => b.toNat % 32 = 0).map fun b => b.toNat / 32

def firstStop (cells : List UInt8) : Option Nat := (stops cells).min?

theorem shiftLive_zero (cells : List UInt8) : shiftLive (0 :: cells) = 0 :: cells := by
  simp [shiftLive, shiftToUpper]

theorem shiftLive_cons {b : UInt8} (cells : List UInt8) (h : b ≠ 0) :
    shiftLive (b :: cells) = (b - 32) :: shiftLive cells := by
  simp [shiftLive, shiftToUpper, upperCaseOffset, h]

theorem passed_zero (b : UInt8) : passed 0 b = 0 := by
  simp [passed]

theorem settle_zero (cells : List UInt8) : settle 0 cells = cells := by
  induction cells with
  | nil => rfl
  | cons b cells ih => simp [settle, passed_zero, ih]

theorem passed_succ {b : UInt8} (k : Nat) (h : b ≠ 0) :
    passed (k + 1) b = passed k (b - 32) + 1 := by
  have hpos : b.toNat ≠ 0 := fun hz => h (UInt8.toNat_inj.mp hz)
  have hlt := b.toNat_lt
  have hsub : (b - 32).toNat = (b.toNat + 224) % 256 := by
    rw [UInt8.toNat_sub, Nat.add_comm]
    rfl
  simp only [passed, hsub]
  split <;> split <;> omega

theorem sub_ofNat_succ (b : UInt8) (t : Nat) :
    b - .ofNat (32 * (t + 1)) = b - 32 - .ofNat (32 * t) := by
  have hsplit : UInt8.ofNat (32 * (t + 1)) = 32 + UInt8.ofNat (32 * t) := by
    rw [Nat.mul_succ, Nat.add_comm, UInt8.ofNat_add]
    rfl
  rw [hsplit]
  grind

theorem settle_succ (k : Nat) (cells : List UInt8) :
    settle (k + 1) cells = settle k (shiftLive cells) := by
  induction cells generalizing k with
  | nil => rfl
  | cons b cells ih =>
    -- a zero lets no shift past it, and any other byte moves once before the cells behind it
    by_cases hb : b = 0
    · subst hb
      rw [shiftLive_zero, settle, settle]
      simp [passed]
    · rw [shiftLive_cons cells hb, settle, settle, passed_succ k hb, ih, sub_ofNat_succ]

theorem shiftLive_iterate (k : Nat) (cells : List UInt8) :
    shiftLive^[k] cells = settle k cells := by
  induction k generalizing cells with
  | zero => exact (settle_zero cells).symm
  | succ k ih => rw [Function.iterate_succ_apply, ih, settle_succ]

theorem foldl_passed (k : Nat) (cells : List UInt8) :
    cells.foldl passed k = min k ((firstStop cells).getD k) := by
  have hfold : cells.foldl passed k = (stops cells).foldl min k := by
    induction cells generalizing k with
    | nil => rfl
    | cons b cells ih =>
      by_cases hb : b.toNat % 32 = 0
      · simp [stops, passed, hb, ih]
      · simp [stops, passed, hb, ih]
  rw [hfold, List.foldl_min, firstStop]

theorem getElem?_settle {i : Nat} {cells : List UInt8} (k : Nat) (h : i < cells.length) :
    (settle k cells)[i]? =
      some (cells[i] - .ofNat (32 * min k ((firstStop (cells.take (i + 1))).getD k))) := by
  rw [← foldl_passed]
  induction cells generalizing k i with
  | nil => simp at h
  | cons b cells ih =>
    cases i with
    | zero => simp [settle]
    | succ i => simp [settle, ih (passed k b) (Nat.lt_of_succ_lt_succ h)]

theorem settle_eq_map {k : Nat} {cells : List UInt8} (h : ∀ t ∈ stops cells, k ≤ t) :
    settle k cells = cells.map (· - .ofNat (32 * k)) := by
  induction cells with
  | nil => rfl
  | cons b cells ih =>
    have hpassed : passed k b = k := by
      unfold passed
      split
      · rename_i hb
        exact Nat.min_eq_left (h _ (by simp [stops, hb]))
      · rfl
    have hrest : ∀ t ∈ stops cells, k ≤ t := by
      intro t ht
      apply h
      by_cases hb : b.toNat % 32 = 0
      · simp only [stops, hb, decide_true, List.filter_cons_of_pos, List.map_cons]
        exact List.mem_cons_of_mem _ ht
      · simpa [stops, hb] using ht
    rw [settle, hpassed, ih hrest, List.map_cons]

theorem shiftToUpper_iterate (k : Nat) (cells : List UInt8) :
    shiftToUpper^[k] cells = cells.map (· - .ofNat (32 * k)) := by
  induction k with
  | zero => simp
  | succ k ih =>
    rw [Function.iterate_succ_apply', ih, shiftToUpper, List.map_map]
    apply List.map_congr_left
    intro b _
    have hsub := sub_ofNat_succ b k
    simp only [Function.comp_apply, upperCaseOffset]
    grind

theorem settle_eq_shiftToUpper_iterate {k : Nat} {cells : List UInt8}
    (h : ∀ t, firstStop cells = some t → k ≤ t) : settle k cells = shiftToUpper^[k] cells := by
  rw [shiftToUpper_iterate]
  apply settle_eq_map
  intro t ht
  cases hmin : firstStop cells with
  | none =>
    rw [firstStop, List.min?_eq_none_iff] at hmin
    simp [hmin] at ht
  | some u => exact Nat.le_trans (h u hmin) ((List.le_min?_iff hmin).mp (Nat.le_refl u) t ht)

theorem sub_passed_eq_zero {b : UInt8} {k : Nat} (hb : b.toNat % 32 = 0) (hk : b.toNat / 32 ≤ k) :
    b - .ofNat (32 * passed k b) = 0 := by
  have hwhole : 32 * (b.toNat / 32) = b.toNat := by omega
  rw [passed, if_pos hb, Nat.min_eq_right hk, hwhole, UInt8.ofNat_toNat, UInt8.sub_self]

theorem passed_eq_of_ne_zero {b : UInt8} {k : Nat} (h : b - .ofNat (32 * passed k b) ≠ 0) :
    passed k b = k := by
  by_cases hb : b.toNat % 32 = 0
  · have hk : k < b.toNat / 32 := Nat.lt_of_not_le fun hle => h (sub_passed_eq_zero hb hle)
    rw [passed, if_pos hb, Nat.min_eq_left (Nat.le_of_lt hk)]
  · rw [passed, if_neg hb]

theorem length_takeWhile_settle_le {j k : Nat} {cells : List UInt8} (hj : j < cells.length)
    (hstop : cells[j].toNat % 32 = 0) (hk : cells[j].toNat / 32 ≤ k) :
    ((settle k cells).takeWhile (· != 0)).length ≤ j := by
  induction cells generalizing k j with
  | nil => simp at hj
  | cons b cells ih =>
    rw [settle, List.takeWhile_cons]
    by_cases hzero : b - .ofNat (32 * passed k b) = 0
    · simp only [hzero, bne_self_eq_false, Bool.false_eq_true, if_false, List.length_nil,
        Nat.zero_le]
    · cases j with
      | zero => exact absurd (sub_passed_eq_zero hstop hk) hzero
      | succ j =>
        have hrest := ih (Nat.lt_of_succ_lt_succ hj) hstop hk
        -- a byte that is not zero yet has let all `k` shifts past it
        rw [if_pos (bne_iff_ne.mpr hzero), passed_eq_of_ne_zero hzero, List.length_cons]
        exact Nat.succ_le_succ hrest

end AbiConformance
