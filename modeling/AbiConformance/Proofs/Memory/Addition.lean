import AbiConformance.Proofs.Memory.Region
import Mathlib.Tactic.Positivity
import Mathlib.Tactic.Zify
import Mathlib.Tactic.Ring
import Mathlib.Tactic.Linarith

namespace AbiConformance

def Span.Compatible (x y : Span) : Prop :=
  x.addr + x.size = y.addr + y.size ∨ x.addr + x.size ≤ y.addr ∨ y.addr + y.size ≤ x.addr

theorem Span.Compatible.symm {x y : Span} (h : x.Compatible y) : y.Compatible x := by
  simp only [Span.Compatible] at h ⊢
  omega

namespace Memory

open LittleEndian

def addWord (m : Memory) (a width : Nat) (k : Int) : Memory :=
  m.write a (encode width ((decode (m.read a width) + k) % 256 ^ width).toNat)

theorem encode_toNat_emod_decode (width : Nat) (k : Int) :
    (decode (encode width (k % 256 ^ width).toNat) : Int) = k % 256 ^ width := by
  have hpos : (0 : Int) < 256 ^ width := by positivity
  have hnonneg := Int.emod_nonneg k hpos.ne'
  have hlt := Int.emod_lt_of_pos k hpos
  have hnat : (k % 256 ^ width).toNat < 256 ^ width := by
    zify
    rwa [Int.toNat_of_nonneg hnonneg]
  rw [decode_encode_of_lt hnat, Int.toNat_of_nonneg hnonneg]

theorem write_read (m : Memory) (a n : Nat) : m.write a (m.read a n) = m := by
  apply Memory.ext
  funext i
  rw [byte_write]
  split
  · rename_i h
    rw [getElem_read]
    congr 1
    omega
  · rfl

theorem write_write (m : Memory) (a : Nat) {bs cs : List UInt8} (h : bs.length = cs.length) :
    (m.write a bs).write a cs = m.write a cs := by
  apply Memory.ext
  funext i
  by_cases hi : a ≤ i ∧ i - a < cs.length
  · rw [byte_write, dif_pos hi, byte_write, dif_pos hi]
  · rw [byte_write_of_not_mem (by omega), byte_write_of_not_mem (by omega),
      byte_write_of_not_mem (by omega)]

theorem write_comm (m : Memory) {a b : Nat} {bs cs : List UInt8}
    (h : a + bs.length ≤ b ∨ b + cs.length ≤ a) :
    (m.write a bs).write b cs = (m.write b cs).write a bs := by
  apply Memory.ext
  funext i
  by_cases hb : b ≤ i ∧ i - b < cs.length
  · rw [byte_write, dif_pos hb, byte_write_of_not_mem (by omega), byte_write, dif_pos hb]
  · have hskip : (m.write b cs).byte i = m.byte i := byte_write_of_not_mem (by omega)
    rw [byte_write_of_not_mem (by omega), byte_write, byte_write, hskip]

theorem read_addWord_of_disjoint {m : Memory} {a b width n : Nat} {k : Int}
    (h : b + n ≤ a ∨ a + width ≤ b) : (m.addWord a width k).read b n = m.read b n :=
  read_write_of_disjoint (by simpa using h)

theorem decode_addWord (m : Memory) (a width : Nat) (k : Int) :
    (decode ((m.addWord a width k).read a width) : Int) =
      (decode (m.read a width) + k) % 256 ^ width := by
  have hread := m.read_write a (encode width ((decode (m.read a width) + k) % 256 ^ width).toNat)
  rw [length_encode] at hread
  rw [addWord, hread, encode_toNat_emod_decode]

theorem addWord_addWord (m : Memory) (a width : Nat) (j k : Int) :
    (m.addWord a width j).addWord a width k = m.addWord a width (j + k) := by
  rw [addWord, decode_addWord, Int.emod_add_emod, Int.add_assoc, addWord, write_write _ _ (by simp)]
  rfl

theorem addWord_zero (m : Memory) (a width : Nat) : m.addWord a width 0 = m := by
  have hlt : decode (m.read a width) < 256 ^ width := by simpa using decode_lt (m.read a width)
  have hword : ((decode (m.read a width) + 0 : Int) % 256 ^ width).toNat =
      decode (m.read a width) := by
    rw [Int.add_zero, Int.emod_eq_of_lt (by positivity) (by exact_mod_cast hlt), Int.toNat_natCast]
  have hbytes := encode_decode (m.read a width)
  rw [length_read] at hbytes
  rw [addWord, hword, hbytes, write_read]

theorem addWord_comm_of_disjoint (m : Memory) {a b v w : Nat} {j k : Int}
    (h : a + v ≤ b ∨ b + w ≤ a) :
    (m.addWord a v j).addWord b w k = (m.addWord b w k).addWord a v j := by
  rw [addWord, read_addWord_of_disjoint h.symm, addWord, addWord, read_addWord_of_disjoint h,
    addWord, write_comm _ (by simpa using h)]

theorem add_mul_emod_mul {p q low x : Int} (hlow : 0 ≤ low) (hlt : low < p) (hq : 0 < q) :
    (low + p * x) % (p * q) = low + p * (x % q) := by
  have hsplit : low + p * x = low + p * (x % q) + p * q * (x / q) := by
    have hx := Int.emod_add_mul_ediv x q
    calc low + p * x = low + p * (x % q + q * (x / q)) := by rw [hx]
      _ = low + p * (x % q) + p * q * (x / q) := by ring
  have hr0 := Int.emod_nonneg x hq.ne'
  have hr1 := Int.emod_lt_of_pos x hq
  rw [hsplit, Int.add_mul_emod_self_left]
  apply Int.emod_eq_of_lt
  · nlinarith
  · nlinarith

theorem addWord_high (m : Memory) (a low width : Nat) (k : Int) :
    m.addWord (a + low) width k = m.addWord a (low + width) (256 ^ low * k) := by
  have hword : (((decode (m.read a (low + width)) : Int) + 256 ^ low * k) %
      256 ^ (low + width)).toNat = decode (m.read a low ++
        encode width ((decode (m.read (a + low) width) + k) % 256 ^ width).toNat) := by
    zify
    rw [Int.toNat_of_nonneg (Int.emod_nonneg _ (by positivity)), read_add, decode_append,
      decode_append, length_read]
    push_cast
    rw [encode_toNat_emod_decode, pow_add, Int.add_assoc, ← Int.mul_add]
    have hlt : decode (m.read a low) < 256 ^ low := by simpa using decode_lt (m.read a low)
    exact add_mul_emod_mul (by positivity) (by exact_mod_cast hlt) (by positivity)
  have hbytes := encode_decode (m.read a low ++
    encode width ((decode (m.read (a + low) width) + k) % 256 ^ width).toNat)
  simp only [List.length_append, length_read, length_encode] at hbytes
  rw [addWord, addWord, hword, hbytes, write_append, write_read, length_read]

theorem toWord_int32 (x : Int32) : (Scalar.toWord x : Int) = x.toInt % 256 ^ 4 := by
  have hword := BitVec.toNat_ofInt (n := 32) x.toBitVec.toInt
  rw [BitVec.ofInt_toInt] at hword
  change ((x.toBitVec.toNat : Nat) : Int) = x.toInt % 2 ^ 32
  rw [hword]
  exact Int.toNat_of_nonneg (Int.emod_nonneg _ (by decide))

theorem toWord_int64 (x : Int64) : (Scalar.toWord x : Int) = x.toInt % 256 ^ 8 := by
  have hword := BitVec.toNat_ofInt (n := 64) x.toBitVec.toInt
  rw [BitVec.ofInt_toInt] at hword
  change ((x.toBitVec.toNat : Nat) : Int) = x.toInt % 2 ^ 64
  rw [hword]
  exact Int.toNat_of_nonneg (Int.emod_nonneg _ (by decide))

theorem toWord_load {α : Type} [Scalar α] (m : Memory) (a : Nat) :
    Scalar.toWord (m.load α a) = decode (m.read a (Scalar.width α)) := by
  have hlt := decode_lt (m.read a (Scalar.width α))
  rw [length_read] at hlt
  exact Scalar.toWord_ofWord _ hlt

theorem load_modify {α : Type} [Scalar α] (m : Memory) (a : Nat) (f : α → α) :
    (m.modify a f).load α a = f (m.load α a) :=
  load_store _ _ _

theorem load_modify_of_disjoint {α β : Type} [Scalar α] [Scalar β] {m : Memory} {a b : Nat}
    {f : β → β} (h : b + Scalar.width α ≤ a ∨ a + Scalar.width β ≤ b) :
    (m.modify a f).load α b = m.load α b :=
  load_store_of_disjoint h

theorem modify_eq_addWord {α : Type} [Scalar α] (m : Memory) (a : Nat) {f : α → α} {k : Int}
    (h : ∀ x, (Scalar.toWord (f x) : Int) = (Scalar.toWord x + k) % 256 ^ Scalar.width α) :
    m.modify a f = m.addWord a (Scalar.width α) k := by
  have hword := h (m.load α a)
  rw [toWord_load] at hword
  rw [modify, store, Scalar.encode, addWord, ← hword, Int.toNat_natCast]

theorem modify_int32 (m : Memory) (a : Nat) (inc : Int32) :
    m.modify a (fun x : Int32 => x + inc) = m.addWord a 4 inc.toInt := by
  apply modify_eq_addWord
  intro x
  have hbmod := Int.bmod_emod (x := x.toInt + inc.toInt) (m := 2 ^ 32)
  rw [Scalar.width_int32, toWord_int32, toWord_int32, Int.emod_add_emod, Int32.toInt_add]
  exact hbmod

theorem modify_int64 (m : Memory) (a : Nat) (inc : Int32) :
    m.modify a (fun x : Int64 => x + inc.toInt64) = m.addWord a 8 inc.toInt := by
  apply modify_eq_addWord
  intro x
  have hbmod := Int.bmod_emod (x := x.toInt + inc.toInt) (m := 2 ^ 64)
  rw [Scalar.width_int64, toWord_int64, toWord_int64, Int.emod_add_emod, Int64.toInt_add,
    Int32.toInt_toInt64]
  exact hbmod

structure Addend where
  word : Span
  amount : Int

def add (m : Memory) (x : Addend) : Memory := m.addWord x.word.addr x.word.size x.amount

def addAll (m : Memory) (xs : List Addend) : Memory := xs.foldl add m

theorem addWord_comm_of_top (m : Memory) {a b v w : Nat} {j k : Int} (hab : a ≤ b)
    (h : a + v = b + w) :
    (m.addWord a v j).addWord b w k = (m.addWord b w k).addWord a v j := by
  obtain ⟨l, rfl⟩ := Nat.exists_eq_add_of_le hab
  have hv : v = l + w := by omega
  subst hv
  rw [addWord_high, addWord_high, addWord_addWord, addWord_addWord, Int.add_comm]

theorem add_comm_of_compatible (m : Memory) {x y : Addend} (h : x.word.Compatible y.word) :
    (m.add x).add y = (m.add y).add x := by
  rcases h with hend | hdisjoint
  · rcases Nat.le_total x.word.addr y.word.addr with hle | hle
    · exact addWord_comm_of_top m hle hend
    · exact (addWord_comm_of_top m hle hend.symm).symm
  · exact addWord_comm_of_disjoint m hdisjoint

theorem addAll_perm (m : Memory) {xs ys : List Addend} (h : xs.Perm ys)
    (hc : ∀ x ∈ xs, ∀ y ∈ xs, x.word.Compatible y.word) : m.addAll xs = m.addAll ys := by
  apply h.foldl_eq'
  intro x hx y hy z
  exact add_comm_of_compatible z (hc x hx y hy)

theorem addAll_append (m : Memory) (xs ys : List Addend) :
    m.addAll (xs ++ ys) = (m.addAll xs).addAll ys :=
  List.foldl_append

def spread (words : Region) (k : Int) : List Addend := words.map (⟨·, k⟩)

theorem mem_of_mem_spread {words : Region} {k : Int} {x : Addend} (hx : x ∈ spread words k) :
    x.word ∈ words := by
  obtain ⟨w, hw, rfl⟩ := List.mem_map.mp hx
  exact hw

theorem compatible_of_mem_spread {words : Region} {j k : Int}
    (hc : ∀ x ∈ words, ∀ y ∈ words, x.Compatible y) {x y : Addend} (hx : x ∈ spread words j)
    (hy : y ∈ spread words k) : x.word.Compatible y.word :=
  hc x.word (mem_of_mem_spread hx) y.word (mem_of_mem_spread hy)

theorem addAll_spread_add (m : Memory) {words : Region} (j k : Int)
    (hc : ∀ x ∈ words, ∀ y ∈ words, x.Compatible y) :
    m.addAll (spread words j ++ spread words k) = m.addAll (spread words (j + k)) := by
  induction words generalizing m with
  | nil => rfl
  | cons p ps ih =>
    have hps : ∀ x ∈ ps, ∀ y ∈ ps, x.Compatible y := fun x hx y hy =>
      hc x (List.mem_cons_of_mem _ hx) y (List.mem_cons_of_mem _ hy)
    have hperm : (spread (p :: ps) j ++ spread (p :: ps) k).Perm
        ([⟨p, j⟩, ⟨p, k⟩] ++ (spread ps j ++ spread ps k)) :=
      List.Perm.cons _ List.perm_middle
    have hall : ∀ x ∈ spread (p :: ps) j ++ spread (p :: ps) k,
        ∀ y ∈ spread (p :: ps) j ++ spread (p :: ps) k, x.word.Compatible y.word := by
      intro x hx y hy
      rcases List.mem_append.mp hx with hx | hx <;> rcases List.mem_append.mp hy with hy | hy <;>
        exact compatible_of_mem_spread hc hx hy
    have hfirst : m.addAll [⟨p, j⟩, ⟨p, k⟩] = m.add ⟨p, j + k⟩ := addWord_addWord m _ _ j k
    rw [addAll_perm m hperm hall, addAll_append, hfirst, ih _ hps]
    rfl

theorem addAll_spread_zero (m : Memory) (words : Region) : m.addAll (spread words 0) = m := by
  induction words with
  | nil => rfl
  | cons p ps ih =>
    have hfirst : m.add ⟨p, 0⟩ = m := addWord_zero m p.addr p.size
    change (m.add ⟨p, 0⟩).addAll (spread ps 0) = m
    rw [hfirst, ih]

theorem read_addAll_of_disjoint {m : Memory} {xs : List Addend} {a n : Nat}
    (h : ∀ x ∈ xs, a + n ≤ x.word.addr ∨ x.word.addr + x.word.size ≤ a) :
    (m.addAll xs).read a n = m.read a n := by
  induction xs generalizing m with
  | nil => rfl
  | cons x xs ih =>
    have hx : (m.add x).read a n = m.read a n := read_addWord_of_disjoint (h x (by simp))
    exact (ih fun y hy => h y (List.mem_cons_of_mem _ hy)).trans hx

theorem Agree.addAll {r : Region} {m m' : Memory} {xs : List Addend} (h : Agree r m m')
    (hs : ∀ x ∈ xs, x.word ∈ r) : Agree r (m.addAll xs) (m'.addAll xs) := by
  induction xs generalizing m m' with
  | nil => exact h
  | cons x xs ih =>
    obtain ⟨hx, hxs⟩ := List.forall_mem_cons.mp hs
    apply ih _ hxs
    rw [Memory.add, Memory.add, addWord, addWord, h.read hx]
    exact h.write _ _

theorem byte_addAll_of_not_contains {m : Memory} {r : Region} {xs : List Addend} {i : Nat}
    (h : ¬r.Contains i) (hs : ∀ x ∈ xs, x.word ∈ r) : (m.addAll xs).byte i = m.byte i := by
  induction xs generalizing m with
  | nil => rfl
  | cons x xs ih =>
    obtain ⟨hx, hxs⟩ := List.forall_mem_cons.mp hs
    exact (ih hxs).trans (byte_write_of_not_contains h (by simpa using hx))

end Memory

end AbiConformance
