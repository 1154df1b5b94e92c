import AbiConformance.Ieee.Binary32

namespace AbiConformance

class Accumulator (α : Type) where
  zero : α
  add : α → α → α

class Widening (α : Type) (β : outParam Type) where
  widen : α → β

class Integral (α : Type) where
  toInt : α → Int

instance : Accumulator Int8 := ⟨0, (· + ·)⟩
instance : Accumulator Int16 := ⟨0, (· + ·)⟩
instance : Accumulator Int32 := ⟨0, (· + ·)⟩
instance : Accumulator Int64 := ⟨0, (· + ·)⟩
instance : Accumulator Binary32 := ⟨Binary32.zero, (· + ·)⟩
instance : Accumulator Binary64 := ⟨Binary64.zero, (· + ·)⟩

instance : Widening Int8 Int32 := ⟨Int8.toInt32⟩
instance : Widening Int16 Int32 := ⟨Int16.toInt32⟩
instance : Widening Int32 Int32 := ⟨id⟩
instance : Widening Int64 Int64 := ⟨id⟩
instance : Widening Binary32 Binary32 := ⟨id⟩
instance : Widening Binary64 Binary64 := ⟨id⟩

instance : Integral Int8 := ⟨Int8.toInt⟩
instance : Integral Int16 := ⟨Int16.toInt⟩
instance : Integral Int32 := ⟨Int32.toInt⟩
instance : Integral Int64 := ⟨Int64.toInt⟩
instance : Integral UInt64 := ⟨fun n => n.toNat⟩
instance : Integral Int := ⟨id⟩

section Width

variable {α : Type} [Accumulator α]

def sumFrom (start : α) (xs : List α) : α := xs.foldl Accumulator.add start

def sum (xs : List α) : α := sumFrom Accumulator.zero xs

def sumPairs (xs ys : List α) : α :=
  (xs.zip ys).foldl
    (fun total pair => Accumulator.add total (Accumulator.add pair.1 pair.2)) Accumulator.zero

@[simp] theorem sumFrom_nil (start : α) : sumFrom start [] = start := rfl

theorem sumFrom_append (start : α) (xs ys : List α) :
    sumFrom start (xs ++ ys) = sumFrom (sumFrom start xs) ys :=
  List.foldl_append

end Width

section Wide

variable {α β : Type} [Accumulator β] [Widening α β]

def sumWideFrom (start : β) (xs : List α) : β :=
  xs.foldl (fun total x => Accumulator.add total (Widening.widen x)) start

def sumWide (xs : List α) : β := sumWideFrom Accumulator.zero xs

@[simp] theorem sumWideFrom_nil (start : β) : sumWideFrom start ([] : List α) = start := rfl

theorem sumWideFrom_append (start : β) (xs ys : List α) :
    sumWideFrom start (xs ++ ys) = sumWideFrom (sumWideFrom start xs) ys :=
  List.foldl_append

end Wide

def exactSum {α : Type} [Integral α] (xs : List α) : Int :=
  xs.foldl (fun total x => total + Integral.toInt x) 0

end AbiConformance
