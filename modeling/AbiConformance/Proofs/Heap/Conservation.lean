import AbiConformance.Heap.Block
import AbiConformance.Heap.Script
import Mathlib.Algebra.BigOperators.ModEq

namespace AbiConformance

variable {κ : Type}

namespace Request

def gained : Request κ → Nat
  | allocate _ size => size
  | allocateZeroed _ size => size
  | resize _ old new => new - old
  | free .. => 0

def lost : Request κ → Nat
  | allocate .. => 0
  | allocateZeroed .. => 0
  | resize _ old new => old - new
  | free _ size => size

def refusable : Request κ → Bool
  | free .. => false
  | _ => true

end Request

namespace Transaction

def refused (x : Transaction κ) : Bool := x.request.refusable && !x.granted

def gained (x : Transaction κ) : Nat := if x.refused then 0 else x.request.gained

def lost (x : Transaction κ) : Nat := if x.refused then 0 else x.request.lost

def change (x : Transaction κ) : Int := x.gained - x.lost

def gainedBy (t : Thread) (xs : List (Transaction κ)) : Nat :=
  (xs.map fun x => if t = x.thread then x.gained else 0).sum

def lostBy (t : Thread) (xs : List (Transaction κ)) : Nat :=
  (xs.map fun x => if t = x.thread then x.lost else 0).sum

def balance (t : Thread) (xs : List (Transaction κ)) : Int := gainedBy t xs - lostBy t xs

@[simp] theorem balance_nil (t : Thread) : balance t ([] : List (Transaction κ)) = 0 := rfl

theorem balance_cons (t : Thread) (x : Transaction κ) (xs : List (Transaction κ)) :
    balance t (x :: xs) = (if t = x.thread then x.change else 0) + balance t xs := by
  simp only [balance, gainedBy, lostBy, change, List.map_cons, List.sum_cons]
  split <;> omega

theorem sum_balance {ts : Finset Thread} {xs : List (Transaction κ)}
    (h : ∀ x ∈ xs, x.thread ∈ ts) : ∑ t ∈ ts, balance t xs = (xs.map change).sum := by
  induction xs with
  | nil => simp
  | cons x xs ih =>
    obtain ⟨hx, hxs⟩ := List.forall_mem_cons.mp h
    have hone : ∑ t ∈ ts, (if t = x.thread then x.change else 0) = x.change := by
      rw [Finset.sum_ite_eq', if_pos hx]
    simp only [balance_cons, Finset.sum_add_distrib, hone, ih hxs, List.map_cons, List.sum_cons]

end Transaction

namespace Ledger

variable [DecidableEq κ] {l l' : Ledger κ} {block : κ} {n : Nat}

def live (l : Ledger κ) : Nat := (l.blocks.map Prod.snd).sum

structure Sound (l : Ledger κ) : Prop where
  distinct : (l.blocks.map Prod.fst).Nodup
  bounded : ∀ b ∈ l.blocks, b.2 ≤ Block.maxLayout

omit [DecidableEq κ] in
theorem sound_empty : (empty : Ledger κ).Sound := ⟨.nil, fun _ h => absurd h List.not_mem_nil⟩

theorem not_mem_of_size? (h : l.size? block = none) : block ∉ l.blocks.map Prod.fst := by
  intro hmem
  obtain ⟨b, hb, rfl⟩ := List.mem_map.mp hmem
  exact absurd rfl (bne_iff_ne.mp (List.lookup_eq_none_iff.mp h b hb))

theorem Sound.insert (h : l.Sound) (hnew : l.size? block = none) (hn : n ≤ Block.maxLayout) :
    (l.insert block n).Sound where
  distinct := List.nodup_cons.mpr ⟨not_mem_of_size? hnew, h.distinct⟩
  bounded := List.forall_mem_cons.mpr ⟨hn, h.bounded⟩

theorem Sound.erase (h : l.Sound) (block : κ) : (l.erase block).Sound where
  distinct := h.distinct.sublist (List.filter_sublist.map Prod.fst)
  bounded := fun b hb => h.bounded b (List.mem_of_mem_filter hb)

theorem size?_erase (l : Ledger κ) (block : κ) : (l.erase block).size? block = none := by
  apply List.lookup_eq_none_iff.mpr
  intro b hb
  have hne : b.1 ≠ block := of_decide_eq_true (List.mem_filter.mp hb).2
  exact bne_iff_ne.mpr hne.symm

omit [DecidableEq κ] in
theorem live_insert (l : Ledger κ) (block : κ) (n : Nat) :
    (l.insert block n).live = n + l.live := rfl

theorem Sound.live_erase (h : l.Sound) (hsize : l.size? block = some n) :
    l.live = n + (l.erase block).live := by
  obtain ⟨front, rest, hsplit, -⟩ := List.lookup_eq_some_iff.mp hsize
  have hdistinct := h.distinct
  rw [hsplit, List.map_append, List.map_cons] at hdistinct
  obtain ⟨-, hrest, hapart⟩ := List.nodup_append.mp hdistinct
  have hfront : front.filter (·.1 ≠ block) = front := by
    apply List.filter_eq_self.mpr
    intro b hb
    have hne := hapart b.1 (List.mem_map_of_mem hb) block List.mem_cons_self
    simpa using hne
  have hrest' : rest.filter (·.1 ≠ block) = rest := by
    apply List.filter_eq_self.mpr
    intro b hb
    have hne : b.1 ≠ block := fun heq =>
      (List.nodup_cons.mp hrest).1 (List.mem_map.mpr ⟨b, hb, heq⟩)
    simpa using hne
  have hself : ((block, n) :: rest).filter (·.1 ≠ block) = rest.filter (·.1 ≠ block) :=
    List.filter_cons_of_neg (by simp)
  simp only [live, Ledger.erase, hsplit, List.filter_append, hself, hfront, hrest',
    List.map_append, List.map_cons, List.sum_append, List.sum_cons]
  omega

theorem Sound.size_le (h : l.Sound) (hsize : l.size? block = some n) : n ≤ Block.maxLayout := by
  obtain ⟨front, rest, hsplit, -⟩ := List.lookup_eq_some_iff.mp hsize
  exact h.bounded (block, n) (by simp [hsplit])

theorem signedSize_eq_ofInt (h : n ≤ Block.maxLayout) : signedSize n = Int64.ofInt n := by
  have hmax : n ≤ 2 ^ 63 - 1 := h
  rw [signedSize, Nat.min_eq_left hmax, Int64.ofInt_eq_ofNat]

end Ledger

/-- What callers and the allocator below promise: a block resized or freed is live and has the size
stated, a block granted is new and no larger than memory allows. -/
def Transaction.InContract [DecidableEq κ] (l : Ledger κ) (x : Transaction κ) : Prop :=
  match x.request with
  | .allocate block size => x.granted = true → l.size? block = none ∧ size ≤ Block.maxLayout
  | .allocateZeroed block size => x.granted = true → l.size? block = none ∧ size ≤ Block.maxLayout
  | .resize block old new => l.size? block = some old ∧ (x.granted = true → new ≤ Block.maxLayout)
  | .free block size => l.size? block = some size

namespace Ledger

variable [DecidableEq κ] {l l' : Ledger κ} {x : Transaction κ} {xs : List (Transaction κ)}

def Allows (l : Ledger κ) : List (Transaction κ) → Prop
  | [] => True
  | x :: xs => x.InContract l ∧ (l.serve x).Allows xs

structure Moves (l l' : Ledger κ) (t : Thread) (change : Int) : Prop where
  sound : l'.Sound
  live : (l'.live : Int) = l.live + change
  counter : ∀ u, l'.counter u = l.counter u + if u = t then Int64.ofInt change else 0

omit [DecidableEq κ] in
theorem Moves.counter_eq {t : Thread} {change : Int} (h : Moves l l' t change) (u : Thread) :
    l'.counter u = l.counter u + Int64.ofInt (if u = t then change else 0) := by
  rw [h.counter u]
  split <;> rfl

omit [DecidableEq κ] in
theorem Sound.moves_adjust {t : Thread} {change : Int} {delta : Int64} (h : l'.Sound)
    (hcounter : l'.counter = l.counter) (hlive : (l'.live : Int) = l.live + change)
    (hdelta : delta = Int64.ofInt change) : Moves l (l'.adjust t delta) t change where
  sound := ⟨h.distinct, h.bounded⟩
  live := hlive
  counter := by
    intro u
    rw [counter_adjust, hcounter, hdelta]
    split
    · rename_i heq
      rw [heq]
    · exact (Int64.add_zero _).symm

theorem serve_of_refused (l : Ledger κ) (h : x.refused = true) : l.serve x = l := by
  obtain ⟨t, r, granted⟩ := x
  simp only [Transaction.refused, Bool.and_eq_true, Bool.not_eq_true'] at h
  obtain ⟨hr, rfl⟩ := h
  cases r with
  | free => cases hr
  | _ => rfl

omit [DecidableEq κ] in
theorem Moves.refl (h : l.Sound) (t : Thread) : Moves l l t 0 where
  sound := h
  live := (Int.add_zero _).symm
  counter := by
    intro u
    have hzero : Int64.ofInt 0 = 0 := rfl
    rw [hzero, ite_self, Int64.add_zero]

theorem Sound.moves_insert {block : κ} {size : Nat} (h : l.Sound) (t : Thread)
    (hnew : l.size? block = none) (hsize : size ≤ Block.maxLayout) :
    Moves l ((l.insert block size).adjust t (signedSize size)) t size := by
  refine (h.insert hnew hsize).moves_adjust rfl ?_ (signedSize_eq_ofInt hsize)
  rw [live_insert]
  omega

theorem Sound.moves_resize {block : κ} {old new : Nat} (h : l.Sound) (t : Thread)
    (hold : l.size? block = some old) (hnew : new ≤ Block.maxLayout) :
    Moves l (((l.erase block).insert block new).adjust t (signedSize new - signedSize old)) t
      (new - old) := by
  have hlive := h.live_erase hold
  refine ((h.erase block).insert (size?_erase l block) hnew).moves_adjust rfl ?_ ?_
  · rw [live_insert]
    omega
  · rw [signedSize_eq_ofInt hnew, signedSize_eq_ofInt (h.size_le hold), Int64.ofInt_sub]

theorem Sound.moves_free {block : κ} {size : Nat} (h : l.Sound) (t : Thread)
    (hsize : l.size? block = some size) :
    Moves l ((l.erase block).adjust t (-signedSize size)) t (-size) := by
  have hlive := h.live_erase hsize
  refine (h.erase block).moves_adjust rfl ?_ ?_
  · omega
  · rw [signedSize_eq_ofInt (h.size_le hsize), Int64.ofInt_neg]

theorem serve_moves (h : l.Sound) (hx : x.InContract l) :
    Moves l (l.serve x) x.thread x.change := by
  cases hrefused : x.refused with
  | true =>
    have hchange : x.change = 0 := by
      simp [Transaction.change, Transaction.gained, Transaction.lost, hrefused]
    rw [serve_of_refused l hrefused, hchange]
    exact .refl h _
  | false =>
    obtain ⟨t, r, granted⟩ := x
    have hchange : Transaction.change ⟨t, r, granted⟩ = (r.gained : Int) - r.lost := by
      simp [Transaction.change, Transaction.gained, Transaction.lost, hrefused]
    simp only [Transaction.refused, Bool.and_eq_false_imp, Bool.not_eq_false'] at hrefused
    rw [hchange]
    cases r with
    | allocate block size =>
      obtain rfl := hrefused rfl
      obtain ⟨hnew, hsize⟩ := hx rfl
      rw [Request.gained, Request.lost, Int.ofNat_zero, Int.sub_zero]
      exact h.moves_insert t hnew hsize
    | allocateZeroed block size =>
      obtain rfl := hrefused rfl
      obtain ⟨hnew, hsize⟩ := hx rfl
      rw [Request.gained, Request.lost, Int.ofNat_zero, Int.sub_zero]
      exact h.moves_insert t hnew hsize
    | resize block old new =>
      obtain rfl := hrefused rfl
      obtain ⟨hold, hnew⟩ := hx
      have hmoves := h.moves_resize t hold (hnew rfl)
      have hdiff : ((new - old : Nat) : Int) - ((old - new : Nat) : Int) = new - old := by omega
      rwa [Request.gained, Request.lost, hdiff]
    | free block size =>
      rw [Request.gained, Request.lost, Int.ofNat_zero, Int.zero_sub]
      exact h.moves_free t hx

theorem serveAll_moves (h : l.Sound) (hxs : l.Allows xs) :
    (l.serveAll xs).Sound ∧
      ((l.serveAll xs).live : Int) = l.live + (xs.map Transaction.change).sum ∧
      ∀ t, (l.serveAll xs).counter t = l.counter t + Int64.ofInt (Transaction.balance t xs) := by
  induction xs generalizing l with
  | nil => exact ⟨h, by simp [serveAll], fun t => (Int64.add_zero _).symm⟩
  | cons x xs ih =>
    obtain ⟨hx, hrest⟩ := hxs
    have hmoves := serve_moves h hx
    obtain ⟨hsound, hlive, hcounter⟩ := ih hmoves.sound hrest
    refine ⟨hsound, ?_, ?_⟩
    · refine hlive.trans ?_
      rw [hmoves.live, List.map_cons, List.sum_cons, Int.add_assoc]
    · intro t
      refine (hcounter t).trans ?_
      rw [hmoves.counter_eq t, Transaction.balance_cons, Int64.ofInt_add, Int64.add_assoc]

omit [DecidableEq κ] in
theorem Moves.delta {t : Thread} {change : Int} (h : Moves l l' t change) :
    l'.counter t - l.counter t = Int64.ofInt change := by
  rw [h.counter t, if_pos rfl, Int64.add_comm, Int64.add_sub_cancel]

theorem reports_tell_balance {l : Ledger String} {xs : List (Transaction String)} (h : l.Sound)
    (hxs : l.Allows xs) {i : Nat} {r : AllocatorReport} (hr : (l.reports xs)[i]? = some r) :
    ∃ x, xs[i]? = some x ∧ r.granted = x.granted ∧ r.delta = Int64.ofInt x.change ∧
      r.total = l.counter 0 + Int64.ofInt (Transaction.balance 0 (xs.take (i + 1))) := by
  induction xs generalizing l i with
  | nil => cases hr
  | cons x xs ih =>
    obtain ⟨hx, hrest⟩ := hxs
    have hmoves := serve_moves h hx
    have hzero := hmoves.counter_eq 0
    cases i with
    | zero =>
      obtain rfl : l.report x = r := Option.some.inj hr
      refine ⟨x, rfl, rfl, hmoves.delta, hzero.trans ?_⟩
      rw [List.take_succ_cons, List.take_zero, Transaction.balance_cons, Transaction.balance_nil,
        Int.add_zero]
    | succ i =>
      obtain ⟨y, hy, hgranted, hdelta, htotal⟩ := ih hmoves.sound hrest hr
      refine ⟨y, hy, hgranted, hdelta, ?_⟩
      rw [htotal, hzero, List.take_succ_cons, Transaction.balance_cons, Int64.ofInt_add,
        Int64.add_assoc]

theorem run_tells_balance {grants : Thread → Nat → Bool} {steps : List AllocatorStep}
    {xs : List (Transaction String)} {reports : List AllocatorReport}
    (hxs : AllocatorStep.transactions grants steps = some xs) (hallows : Ledger.empty.Allows xs)
    (hrun : AllocatorStep.run grants steps = some reports) {i : Nat} {r : AllocatorReport}
    (hr : reports[i]? = some r) : ∃ x, xs[i]? = some x ∧ r.granted = x.granted ∧
      r.delta = Int64.ofInt x.change ∧
      r.total = Int64.ofInt (Transaction.balance 0 (xs.take (i + 1))) := by
  rw [AllocatorStep.run, hxs] at hrun
  obtain rfl := Option.some.inj hrun
  obtain ⟨x, hx, hgranted, hdelta, htotal⟩ := reports_tell_balance sound_empty hallows hr
  exact ⟨x, hx, hgranted, hdelta, htotal.trans (Int64.zero_add _)⟩

theorem counters_conserve_live_bytes (xs : List (Transaction κ))
    (h : (empty : Ledger κ).Allows xs) :
    let l := (empty : Ledger κ).serveAll xs
    (∀ x : Transaction κ, x.InContract l →
      (∀ t, t ≠ x.thread → (l.serve x).counter t = l.counter t) ∧
      (x.refused = true → (l.serve x).counter = l.counter ∧ ∀ block old new,
        x.request = .resize block old new → (l.serve x).size? block = some old)) ∧
    (∀ t, l.counter t =
        Int64.ofInt (Transaction.gainedBy t xs - Transaction.lostBy t xs) ∧
      (-2 ^ 63 ≤ (Transaction.gainedBy t xs : Int) - Transaction.lostBy t xs →
        (Transaction.gainedBy t xs : Int) - Transaction.lostBy t xs < 2 ^ 63 →
        (l.counter t).toInt = Transaction.gainedBy t xs - Transaction.lostBy t xs)) ∧
    ∀ ts : Finset Thread, (∀ x ∈ xs, x.thread ∈ ts) →
      ∑ t ∈ ts, (l.counter t).toInt ≡ l.live [ZMOD 2 ^ 64] := by
  intro l
  obtain ⟨hsound, hlive, hcounter⟩ := serveAll_moves sound_empty h
  have hbalance : ∀ t, l.counter t = Int64.ofInt (Transaction.balance t xs) := fun t =>
    (hcounter t).trans (Int64.zero_add _)
  refine ⟨?_, ?_, ?_⟩
  · intro x hx
    refine ⟨?_, ?_⟩
    · intro t ht
      rw [(serve_moves hsound hx).counter t, if_neg ht, Int64.add_zero]
    · intro hrefused
      rw [serve_of_refused l hrefused]
      refine ⟨rfl, ?_⟩
      intro block old new hrequest
      simp only [Transaction.InContract, hrequest] at hx
      exact hx.1
  · intro t
    refine ⟨hbalance t, ?_⟩
    intro hlow hhigh
    rw [hbalance t]
    exact Int64.toInt_ofInt_of_le hlow hhigh
  · intro ts hts
    have hsum : (l.live : Int) = ∑ t ∈ ts, Transaction.balance t xs := by
      rw [Transaction.sum_balance hts]
      exact hlive.trans (Int.zero_add _)
    rw [hsum]
    apply Int.ModEq.sum
    intro t ht
    rw [hbalance t, Int64.toInt_ofInt]
    exact Int.bmod_emod

def handedOver : List (Transaction String) :=
  [⟨0, .allocate "a" 10, true⟩, ⟨1, .resize "a" 10 25, true⟩, ⟨1, .resize "a" 25 (2 ^ 62), false⟩,
    ⟨2, .allocateZeroed "b" 7, true⟩, ⟨2, .free "a" 25, true⟩]

theorem allows_handedOver : (empty : Ledger String).Allows handedOver := by
  refine ⟨?_, ?_, ?_, ?_, ?_, trivial⟩
  · exact fun _ => ⟨rfl, by decide⟩
  · exact ⟨rfl, fun _ => by decide⟩
  · exact ⟨rfl, fun h => by cases h⟩
  · exact fun _ => ⟨rfl, by decide⟩
  · rfl

theorem counters_conserve_live_bytes_handedOver :
    let l := (empty : Ledger String).serveAll handedOver
    let x : Transaction String := ⟨0, .resize "b" 7 50, false⟩
    (empty : Ledger String).Allows handedOver ∧ x.InContract l ∧
      (l.serve x).counter = l.counter ∧ (l.serve x).size? "b" = some 7 ∧
      (l.counter 0).toInt = 10 ∧ (l.counter 1).toInt = 15 ∧ (l.counter 2).toInt = -18 ∧
      ∑ t ∈ {0, 1, 2}, (l.counter t).toInt ≡ (7 : Nat) [ZMOD 2 ^ 64] := by
  intro l x
  obtain ⟨hstep, hcounter, hsum⟩ := counters_conserve_live_bytes handedOver allows_handedOver
  have hx : x.InContract l := ⟨rfl, fun h => by cases h⟩
  obtain ⟨hsame, hlive⟩ := (hstep x hx).2 rfl
  refine ⟨allows_handedOver, hx, hsame, hlive "b" 7 50 rfl, ?_, ?_, ?_, ?_⟩
  · exact (hcounter 0).2 (by decide) (by decide)
  · exact (hcounter 1).2 (by decide) (by decide)
  · exact (hcounter 2).2 (by decide) (by decide)
  · exact hsum {0, 1, 2} (by decide)

end Ledger

end AbiConformance
