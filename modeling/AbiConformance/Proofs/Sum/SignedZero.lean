import AbiConformance.Call.Basic
import AbiConformance.Proofs.Ieee.SignedZero

namespace AbiConformance

class SignedZero (α : Type) [Accumulator α] where
  negZero : α
  zero_ne_negZero : (Accumulator.zero : α) ≠ negZero
  add_eq_negZero_iff : ∀ x y : α, Accumulator.add x y = negZero ↔ x = negZero ∧ y = negZero

open SignedZero

instance : SignedZero Binary32 where
  negZero := Binary32.negZero
  zero_ne_negZero := by decide
  add_eq_negZero_iff _ _ := Patterned.add_eq_negZero_iff

instance : SignedZero Binary64 where
  negZero := Binary64.negZero
  zero_ne_negZero := by decide
  add_eq_negZero_iff _ _ := Patterned.add_eq_negZero_iff

inductive FloatType where
  | binary32
  | binary64
  deriving DecidableEq

namespace FloatType

abbrev element : FloatType → ElementType
  | binary32 => .binary32
  | binary64 => .binary64

abbrev Carrier (t : FloatType) : Type := t.element.Carrier

abbrev Wide (t : FloatType) : Type := t.element.Wide

instance instSignedZeroCarrier : (t : FloatType) → SignedZero t.Carrier
  | binary32 => inferInstanceAs (SignedZero Binary32)
  | binary64 => inferInstanceAs (SignedZero Binary64)

instance instSignedZeroWide : (t : FloatType) → SignedZero t.Wide
  | binary32 => inferInstanceAs (SignedZero Binary32)
  | binary64 => inferInstanceAs (SignedZero Binary64)

end FloatType

section Total

variable {α : Type} [Accumulator α] [SignedZero α]

theorem add_ne_negZero {total : α} (h : total ≠ negZero) (x : α) :
    Accumulator.add total x ≠ negZero :=
  fun hsum => h ((add_eq_negZero_iff total x).mp hsum).1

theorem foldl_ne_negZero {γ : Type} {step : α → γ → α}
    (hstep : ∀ total x, total ≠ negZero → step total x ≠ negZero) {start : α}
    (h : start ≠ negZero) (xs : List γ) : xs.foldl step start ≠ negZero :=
  List.foldlRecOn (motive := (· ≠ negZero)) xs step h fun total htotal x _ => hstep total x htotal

theorem sumFrom_ne_negZero {start : α} (h : start ≠ negZero) (xs : List α) :
    sumFrom start xs ≠ negZero :=
  foldl_ne_negZero (fun _ x htotal => add_ne_negZero htotal x) h xs

theorem sum_ne_negZero (xs : List α) : sum xs ≠ negZero := sumFrom_ne_negZero zero_ne_negZero xs

theorem sumPairs_ne_negZero (xs ys : List α) : sumPairs xs ys ≠ negZero :=
  foldl_ne_negZero (fun _ _ htotal => add_ne_negZero htotal _) zero_ne_negZero _

end Total

section Wide

variable {α β ν : Type} [Accumulator β] [SignedZero β] [Widening α β] [MatrixView ν α]

theorem sumWideFrom_ne_negZero {start : β} (h : start ≠ negZero) (xs : List α) :
    sumWideFrom start xs ≠ negZero :=
  foldl_ne_negZero (fun _ _ htotal => add_ne_negZero htotal _) h xs

theorem foldlM_row_ne_negZero {mode : Overflow} {view : ν} (rs : List Nat) {start : β}
    (h : start ≠ negZero) :
    rs.foldlM (fun total r => (MatrixView.row mode view r).map (sumWideFrom total)) start ≠
      some negZero := by
  induction rs generalizing start with
  | nil => exact fun hsum => h (Option.some.inj hsum)
  | cons r rs ih =>
    rw [List.foldlM_cons]
    cases MatrixView.row mode view r with
    | none =>
      intro hsum
      cases hsum
    | some xs => exact ih (sumWideFrom_ne_negZero h xs)

theorem visitRows_ne_negZero (mode : Overflow) (view : ν) :
    (visitRows mode view : Option β) ≠ some negZero :=
  foldlM_row_ne_negZero _ zero_ne_negZero

theorem sumMatrix_ne_negZero (view : ν) : (sumMatrix view : β) ≠ negZero := by
  have hvisit := visitRows_ne_negZero (β := β) .checked view
  rw [sumMatrix]
  cases hsum : (visitRows .checked view : Option β) with
  | none => exact zero_ne_negZero
  | some total => exact fun h => hvisit (hsum.trans (congrArg some h))

variable [Scalar α]

theorem Memory.sumContiguous_ne_negZero (m : Memory) (s : Shape) (data : Pointer) :
    m.sumContiguous α s data ≠ (negZero : β) := by
  unfold Memory.sumContiguous
  split
  · exact zero_ne_negZero
  split
  · exact zero_ne_negZero
  · exact sumMatrix_ne_negZero _

theorem Memory.sumIndirect_ne_negZero (m : Memory) (s : Shape) (table : Pointer) :
    m.sumIndirect α s table ≠ (negZero : β) := by
  unfold Memory.sumIndirect
  split
  · exact zero_ne_negZero
  split
  · exact zero_ne_negZero
  · exact sumMatrix_ne_negZero _

end Wide

theorem NumericRecord.total_ne_negZero (r : NumericRecord) : r.total ≠ Binary64.negZero :=
  sum_ne_negZero _

theorem LinkedRecord.total_ne_negZero (m : Memory) (r : LinkedRecord) :
    LinkedRecord.total m r ≠ Binary64.negZero := by
  unfold LinkedRecord.total
  split
  · exact r.data.total_ne_negZero
  · exact add_ne_negZero r.data.total_ne_negZero _

theorem float_totals_ne_negZero :
    (∀ t : FloatType,
      (∀ x y : t.Carrier, Accumulator.add x y = negZero ↔ x = negZero ∧ y = negZero) ∧
        (∀ xs : List t.Carrier, sum xs ≠ negZero) ∧
        (∀ xs ys : List t.Carrier, sumPairs xs ys ≠ negZero) ∧
        (∀ (ν : Type) [MatrixView ν t.Carrier] (view : ν),
          (sumMatrix view : t.Wide) ≠ negZero ∧
            ∀ mode, (visitRows mode view : Option t.Wide) ≠ some negZero) ∧
        ∀ m : Memory,
          (∀ data count, ∃ x, x ≠ negZero ∧
            (Call.sumArray t.element data count).run m = (t.element.value x, m)) ∧
          (∀ rows cols data, ∃ x, x ≠ negZero ∧
            (Call.sumMatrix t.element rows cols data).run m = (t.element.wideValue x, m)) ∧
          ∀ rows cols table, ∃ x, x ≠ negZero ∧
            (Call.sumMatrixRows t.element rows cols table).run m = (t.element.wideValue x, m)) ∧
      (∀ r : NumericRecord, r.total ≠ Binary64.negZero) ∧
      ∀ m : Memory,
        (∀ left right count, ∃ x, x ≠ Binary64.negZero ∧
          (Call.sumArrayPair left right count).run m = (.binary64 x, m)) ∧
        (∀ record, ∃ x, x ≠ Binary64.negZero ∧
          (Call.total record).run m = (.binary64 x, m)) ∧
        ∀ record, ∃ x, x ≠ Binary64.negZero ∧
          ((Call.mutateLinked record).run m).1 = .binary64 x := by
  refine ⟨fun t => ⟨add_eq_negZero_iff, sum_ne_negZero, sumPairs_ne_negZero,
    fun ν _ view => ⟨sumMatrix_ne_negZero view, fun mode => visitRows_ne_negZero mode view⟩,
    fun m => ⟨?_, ?_, ?_⟩⟩, NumericRecord.total_ne_negZero,
    fun m => ⟨?_, ?_, ?_⟩⟩
  · exact fun data count => ⟨_, sum_ne_negZero _, rfl⟩
  · exact fun rows cols data => ⟨_, m.sumContiguous_ne_negZero _ data, rfl⟩
  · exact fun rows cols table => ⟨_, m.sumIndirect_ne_negZero _ table, rfl⟩
  · exact fun left right count => ⟨_, sumPairs_ne_negZero _ _, rfl⟩
  · exact fun record => ⟨_, NumericRecord.total_ne_negZero _, rfl⟩
  · exact fun record => ⟨_, LinkedRecord.total_ne_negZero m _, rfl⟩

end AbiConformance
