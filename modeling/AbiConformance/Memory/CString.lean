import AbiConformance.Memory.Basic

namespace AbiConformance.Memory

def HoldsString (m : Memory) (a : Nat) (bs : List UInt8) : Prop :=
  m.read a bs.length = bs ∧ (∀ b ∈ bs, b ≠ 0) ∧ m.byte (a + bs.length) = 0

def scan (m : Memory) (a : Nat) : Nat → List UInt8
  | 0 => []
  | fuel + 1 => if m.byte a = 0 then [] else m.byte a :: scan m (a + 1) fuel

def stringFrom (m : Memory) (a : Nat) : List UInt8 := m.scan a (addressSpace - a)

def stringAt (m : Memory) (p : Pointer) : List UInt8 :=
  if p.isNull then [] else m.stringFrom p.addr

theorem scan_eq {m : Memory} {a fuel : Nat} {bs : List UInt8} (h : m.HoldsString a bs)
    (hf : bs.length < fuel) : m.scan a fuel = bs := by
  induction fuel generalizing a bs with
  | zero => omega
  | succ fuel ih =>
    obtain ⟨hr, hz, ht⟩ := h
    cases bs with
    | nil =>
      simp only [List.length_nil, Nat.add_zero] at ht
      simp [scan, ht]
    | cons b bs =>
      have hb : m.byte a = b := by
        have h0 := congrArg (·[0]?) hr
        simpa [read] using h0
      have hne : b ≠ 0 := hz b (by simp)
      have hrest : m.HoldsString (a + 1) bs := by
        refine ⟨?_, fun c hc => hz c (by simp [hc]), ?_⟩
        · apply List.ext_getElem (by simp)
          intro i _ hi
          have hi' := congrArg (·[i + 1]?) hr
          simp only [List.length_cons, List.getElem?_cons_succ, List.getElem?_eq_getElem hi] at hi'
          rw [List.getElem?_eq_getElem (by simpa using hi), getElem_read] at hi'
          rw [getElem_read, ← Option.some.inj hi']
          congr 1
          omega
        · rw [← ht, List.length_cons]
          congr 1
          omega
      simp only [List.length_cons] at hf
      simp only [scan, hb, hne, if_false, ih hrest (by omega)]

theorem stringFrom_eq {m : Memory} {a : Nat} {bs : List UInt8} (h : m.HoldsString a bs)
    (ha : a + bs.length < addressSpace) : m.stringFrom a = bs :=
  scan_eq h (by omega)

end AbiConformance.Memory
