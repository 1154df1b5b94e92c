import AbiConformance.Proofs.Matrix.Generation
import AbiConformance.Proofs.Random.Stream
import AbiConformance.Random.Sample

namespace AbiConformance

section Runs

variable {γ α : Type} {seed : UInt64} {word : Nat → UInt32} {At : Nat → γ → Prop}

def Takes (word : Nat → UInt32) (At : Nat → γ → Prop) (next : StateM γ α) (width : Nat)
    (value : (Nat → UInt32) → α) : Prop :=
  ∀ i g, At i g → (next.run g).1 = value (fun j => word (i + j)) ∧ At (i + width) (next.run g).2

theorem Takes.map {β : Type} {next : StateM γ α} {width : Nat} {value : (Nat → UInt32) → α}
    (h : Takes word At next width value) (f : α → β) :
    Takes word At (do return f (← next)) width fun w => f (value w) :=
  fun i g hg => ⟨congrArg f (h i g hg).1, (h i g hg).2⟩

variable {next : StateM γ α} {width : Nat} {value : (Nat → UInt32) → α}

theorem Takes.run_mapM (h : Takes word At next width value) {κ : Type} (cells : List κ) {i : Nat}
    {g : γ} (hg : At i g) : ((cells.mapM fun _ => next).run g).1 =
      (List.range cells.length).map fun k => value fun j => word (i + k * width + j) := by
  induction cells generalizing i g with
  | nil => rfl
  | cons cell cells ih =>
    obtain ⟨hvalue, hnext⟩ := h i g hg
    have hshift : ∀ k j, i + width + k * width + j = i + (k + 1) * width + j := by
      intro k j
      rw [Nat.succ_mul]
      omega
    have hrun : (((cell :: cells).mapM fun _ => next).run g).1 =
        (next.run g).1 :: ((cells.mapM fun _ => next).run (next.run g).2).1 := by
      rw [List.mapM_cons]
      rfl
    simp only [hrun, hvalue, ih hnext, List.length_cons, List.range_succ_eq_map, List.map_cons,
      List.map_map, Function.comp_def, hshift, Nat.zero_mul, Nat.add_zero, Nat.succ_eq_add_one]

def samples (word : Nat → UInt32) (width : Nat) (value : (Nat → UInt32) → α) (n : Nat) : List α :=
  (List.range n).map fun k => value fun j => word (k * width + j)

theorem length_samples (n : Nat) : (samples word width value n).length = n := by
  rw [samples, List.length_map, List.length_range]

theorem getElem?_samples {n k : Nat} (hk : k < n) :
    (samples word width value n)[k]? = some (value fun j => word (k * width + j)) := by
  simp [samples, hk]

theorem samples_prefix {n m : Nat} (h : n ≤ m) :
    samples word width value n <+: samples word width value m := by
  obtain ⟨k, rfl⟩ := Nat.exists_eq_add_of_le h
  rw [samples, samples, List.range_add, List.map_append]
  exact List.prefix_append _ _

theorem Takes.run_mapM_start (h : Takes word At next width value) {κ : Type} (cells : List κ)
    {g : γ} (hg : At 0 g) :
    ((cells.mapM fun _ => next).run g).1 = samples word width value cells.length := by
  simp only [h.run_mapM cells hg, samples, Nat.zero_add]

theorem canReserve_iff_mul_lt {size n : Nat} (hsize : 0 < size) :
    canReserve size n = true ↔ n * size < 2 ^ 63 := by
  rw [canReserve_iff, and_iff_right_iff_imp]
  intro hroom
  have hle := Nat.le_mul_of_pos_right n hsize
  simp only [addressSpace]
  omega

theorem Takes.run_draw (h : Takes word At next width value) {g : γ} (hg : At 0 g) {size : Nat}
    (hsize : 0 < size) (n : Nat) : ((draw next size n).run g).1 =
      if n * size < 2 ^ 63 then some (samples word width value n).toArray else none := by
  have hloop : (List.range n).foldlM (fun xs _ => do return xs.push (← next)) #[] =
      List.toArray <$> (List.range n).mapM fun _ => next := by
    simp only [bind_pure_comp, List.foldlM_push_eq_append, Array.empty_append]
  have hrun := h.run_mapM_start (List.range n) hg
  rw [List.length_range] at hrun
  simp only [draw, hloop, ← hrun, canReserve_iff_mul_lt hsize]
  split <;> rfl

theorem Takes.run_generate (h : Takes word At next width value) {g : γ} (hg : At 0 g) {size : Nat}
    (hsize : 0 < size) (rows cols : Nat) :
    ((OwnedMatrix.generate size rows cols fun _ _ => next).run g).1 =
      if rows * cols * size < 2 ^ 63 then
        some ⟨rows, cols, (samples word width value (rows * cols)).toArray⟩
      else none := by
  have hrun := h.run_mapM_start (Shape.cells ⟨rows, cols⟩) hg
  rw [Shape.length_cells] at hrun
  simp only [OwnedMatrix.generate, OwnedMatrix.fill_eq, ← hrun, canReserve_iff_mul_lt hsize]
  split <;> rfl

def Draws (word : Nat → UInt32) (width : Nat) (value : (Nat → UInt32) → α) (size : Nat)
    (drawn : Nat → Option (Array α)) : Prop :=
  ∀ n, drawn n = if n * size < 2 ^ 63 then some (samples word width value n).toArray else none

namespace Draws

variable {size : Nat} {drawn : Nat → Option (Array α)}

theorem isSome_iff (h : Draws word width value size drawn) (n : Nat) :
    (drawn n).isSome = true ↔ n * size < 2 ^ 63 := by
  rw [h n, Option.isSome_ite]

theorem toList_eq (h : Draws word width value size drawn) {n : Nat} {xs : Array α}
    (hxs : drawn n = some xs) : xs.toList = samples word width value n := by
  rw [h n, Option.ite_none_right_eq_some] at hxs
  rw [← Option.some.inj hxs.2]

theorem size_eq (h : Draws word width value size drawn) {n : Nat} {xs : Array α}
    (hxs : drawn n = some xs) : xs.size = n := by
  rw [← Array.length_toList, h.toList_eq hxs, length_samples]

theorem getElem?_eq (h : Draws word width value size drawn) {n : Nat} {xs : Array α}
    (hxs : drawn n = some xs) {i : Nat} (hi : i < n) :
    xs[i]? = some (value fun j => word (i * width + j)) := by
  rw [← Array.getElem?_toList, h.toList_eq hxs, getElem?_samples hi]

theorem exists_prefix (h : Draws word width value size drawn) {n m : Nat} (hle : n ≤ m)
    {ys : Array α} (hys : drawn m = some ys) :
    ∃ xs, drawn n = some xs ∧ xs.toList <+: ys.toList := by
  have hroom := (h.isSome_iff m).mp (Option.isSome_of_mem hys)
  have hshort := Nat.lt_of_le_of_lt (Nat.mul_le_mul_right size hle) hroom
  obtain ⟨xs, hxs⟩ := Option.isSome_iff_exists.mp ((h.isSome_iff n).mpr hshort)
  refine ⟨xs, hxs, ?_⟩
  rw [h.toList_eq hxs, h.toList_eq hys]
  exact samples_prefix hle

end Draws

end Runs

namespace WordSource

def unit (low high : UInt32) : Binary64 :=
  .ofInt ((low.toNat + 2 ^ 32 * high.toNat) >>> 11 : Nat) / .ofInt (2 ^ 53)

theorem toNat_pair (low high : UInt32) :
    (low.toUInt64 ||| high.toUInt64 <<< 32).toNat = low.toNat + 2 ^ 32 * high.toNat := by
  have hlow := low.toNat_lt
  have hhigh := high.toNat_lt
  have hor := Nat.shiftLeft_add_eq_or_of_lt hlow high.toNat
  have hshift : (high.toUInt64 <<< 32).toNat = high.toNat <<< 32 := by
    rw [UInt64.toNat_shiftLeft, UInt32.toNat_toUInt64]
    apply Nat.mod_eq_of_lt
    rw [Nat.shiftLeft_eq]
    change high.toNat * 2 ^ 32 < 2 ^ 64
    omega
  rw [UInt64.toNat_or, hshift, UInt32.toNat_toUInt64, Nat.or_comm, ← hor, Nat.shiftLeft_eq,
    Nat.add_comm, Nat.mul_comm]

theorem unitOfPair_eq (low high : UInt32) :
    unitOfPair (low.toUInt64 ||| high.toUInt64 <<< 32) = unit low high := by
  rw [unitOfPair, UInt64.toNat_shiftRight, toNat_pair]
  rfl

variable {γ : Type} {G : WordSource γ} {seed : UInt64} {word : Nat → UInt32}
  {At : Nat → γ → Prop}

namespace Streams

theorem takes_nextWord (h : G.Streams seed word At) : Takes word At G.nextWord 1 (· 0) :=
  fun _ _ hg => h.nextWord hg

theorem takes_nextPair (h : G.Streams seed word At) :
    Takes word At G.nextPair 2 fun w => (w 0).toUInt64 ||| (w 1).toUInt64 <<< 32 :=
  fun _ _ hg => h.nextPair hg

theorem takes_nextInt32 (h : G.Streams seed word At) :
    Takes word At G.nextInt32 1 fun w => (w 0).toInt32 :=
  h.takes_nextWord.map UInt32.toInt32

theorem takes_nextInt8 (h : G.Streams seed word At) :
    Takes word At G.nextInt8 1 fun w => (w 0).toUInt8.toInt8 :=
  h.takes_nextWord.map fun w => w.toUInt8.toInt8

theorem takes_nextUnit (h : G.Streams seed word At) :
    Takes word At G.nextUnit 2 fun w => unit (w 0) (w 1) := by
  have htakes := h.takes_nextPair.map unitOfPair
  simp only [unitOfPair_eq] at htakes
  exact htakes

theorem draws_ints (h : G.Streams seed word At) :
    Draws word 1 (fun w => (w 0).toInt32) 4 (G.ints · seed) :=
  h.takes_nextInt32.run_draw h.start (by decide)

theorem draws_doubles (h : G.Streams seed word At) :
    Draws word 2 (fun w => unit (w 0) (w 1)) 8 (G.doubles · seed) :=
  h.takes_nextUnit.run_draw h.start (by decide)

theorem byteMatrix_eq (h : G.Streams seed word At) (rows cols : Nat) :
    G.byteMatrix rows cols seed =
      if rows * cols * 1 < 2 ^ 63 then
        some ⟨rows, cols, (samples word 1 (fun w => (w 0).toUInt8.toInt8) (rows * cols)).toArray⟩
      else none :=
  h.takes_nextInt8.run_generate h.start (by decide) rows cols

theorem doubleMatrix_eq (h : G.Streams seed word At) (rows cols : Nat) :
    G.doubleMatrix rows cols seed =
      (G.doubles (rows * cols) seed).map fun xs => ⟨rows, cols, xs⟩ := by
  have hdoubles : G.doubles (rows * cols) seed = _ := h.draws_doubles (rows * cols)
  rw [hdoubles, doubleMatrix, h.takes_nextUnit.run_generate h.start (by decide)]
  split <;> rfl

end Streams

theorem run_sum_of_slice {n : Nat} {xs : Array Binary64} {mem : Memory} {data : Pointer}
    (hn : n < 2 ^ 31) (h : mem.slice Binary64 data n = xs.toList) :
    (Call.sumArray .binary64 data (.ofNat n)).run mem = (.binary64 (sum xs.toList), mem) := by
  have hcount : elementCount (Int32.ofNat n) = n := elementCount_eq (Int32.toInt_ofNat_of_lt hn)
  simp only [Call.run, hcount]
  exact congrArg (fun xs => (Value.binary64 (sum xs), mem)) h

theorem samplers_read_one_stream {γ : Type} {G : WordSource γ} {seed : UInt64}
    {word : Nat → UInt32} {At : Nat → γ → Prop} (h : G.Streams seed word At) :
    (∀ n, ((G.ints n seed).isSome = true ↔ n * 4 < 2 ^ 63) ∧
      ∀ xs, G.ints n seed = some xs →
        xs.size = n ∧ ∀ i < n, xs[i]? = some (word i).toInt32) ∧
    (∀ n, ((G.doubles n seed).isSome = true ↔ n * 8 < 2 ^ 63) ∧
      ∀ xs, G.doubles n seed = some xs →
        xs.size = n ∧ ∀ i < n, xs[i]? = some (unit (word (2 * i)) (word (2 * i + 1)))) ∧
    (∀ n m, n ≤ m →
      (∀ ys, G.ints m seed = some ys →
        ∃ xs, G.ints n seed = some xs ∧ xs.toList <+: ys.toList) ∧
      ∀ ys, G.doubles m seed = some ys →
        ∃ xs, G.doubles n seed = some xs ∧ xs.toList <+: ys.toList) ∧
    (∀ rows cols,
      G.doubleMatrix rows cols seed =
        (G.doubles (rows * cols) seed).map (fun xs => ⟨rows, cols, xs⟩) ∧
      ((G.byteMatrix rows cols seed).isSome = true ↔ rows * cols < 2 ^ 63) ∧
      ∀ m, G.byteMatrix rows cols seed = some m →
        m.rows = rows ∧ m.cols = cols ∧ m.data.size = rows * cols ∧
          ∀ i < rows * cols, ∃ x, m.data[i]? = some x ∧
            x.toUInt8.toNat = (word i).toNat % 2 ^ 8) ∧
    (∀ (n rows cols : Nat) (m : OwnedMatrix Binary64) (xs : Array Binary64) (mem : Memory)
      (data table : Pointer), rows * cols = n → rows < 2 ^ 31 → cols < 2 ^ 31 →
      G.doubleMatrix rows cols seed = some m → G.doubles n seed = some xs →
      m.HandedOut mem data table →
      m.dims = some (.ofNat rows, .ofNat cols) ∧
        (Call.sumMatrix .binary64 (.ofNat rows) (.ofNat cols) data).run mem =
          (.binary64 (sum xs.toList), mem) ∧
        (Call.sumMatrixRows .binary64 (.ofNat rows) (.ofNat cols) table).run mem =
          (.binary64 (sum xs.toList), mem)) ∧
    ∀ (n : Nat) (xs : Array Binary64) (mem : Memory) (data : Pointer), n < 2 ^ 31 →
      G.doubles n seed = some xs → mem.slice Binary64 data n = xs.toList →
      (Call.sumArray .binary64 data (.ofNat n)).run mem = (.binary64 (sum xs.toList), mem) := by
  have hints := h.draws_ints
  have hdoubles := h.draws_doubles
  refine ⟨fun n => ⟨hints.isSome_iff n, ?_⟩, fun n => ⟨hdoubles.isSome_iff n, ?_⟩,
    fun n m hle => ⟨fun ys => hints.exists_prefix hle, fun ys => hdoubles.exists_prefix hle⟩,
    fun rows cols => ⟨h.doubleMatrix_eq rows cols, ?_, ?_⟩, ?_, ?_⟩
  · intro xs hxs
    refine ⟨hints.size_eq hxs, ?_⟩
    intro i hi
    simpa using hints.getElem?_eq hxs hi
  · intro xs hxs
    refine ⟨hdoubles.size_eq hxs, ?_⟩
    intro i hi
    simpa [Nat.mul_comm i] using hdoubles.getElem?_eq hxs hi
  · rw [h.byteMatrix_eq, Option.isSome_ite, Nat.mul_one]
  · intro m hm
    rw [h.byteMatrix_eq, Option.ite_none_right_eq_some] at hm
    obtain rfl := Option.some.inj hm.2
    refine ⟨rfl, rfl, List.size_toArray.trans (length_samples (rows * cols)), ?_⟩
    intro i hi
    refine ⟨_, (List.getElem?_toArray ..).trans (getElem?_samples hi), ?_⟩
    simp
  · rintro n rows cols m xs mem data table rfl hrows hcols hm hxs hplaced
    rw [h.doubleMatrix_eq, hxs] at hm
    obtain rfl := Option.some.inj hm
    exact ⟨OwnedMatrix.dims_eq hrows hcols,
      hplaced.run_sums (e := .binary64) (hdoubles.size_eq hxs) hrows hcols⟩
  · exact fun n xs mem data hn _ => run_sum_of_slice hn

theorem samplers_read_one_stream_two_by_three :
    let G := Generator.source
    let word := ChaCha.word (ChaCha.keyOfSeed 7)
    G.Streams 7 word (fun i g => g = Generator.position (ChaCha.keyOfSeed 7) i) ∧
      (∃ xs ys, G.ints 2 7 = some xs ∧ G.ints 6 7 = some ys ∧ xs.toList <+: ys.toList ∧
        ys[5]? = some (word 5).toInt32) ∧
      G.ints (2 ^ 61) 7 = none ∧
      ∃ (xs : Array Binary64) (m : OwnedMatrix Binary64),
        G.doubles 6 7 = some xs ∧ G.doubleMatrix 2 3 7 = some m ∧
        xs[5]? = some (unit (word 10) (word 11)) ∧
        let mem := m.place .empty 64 128
        m.HandedOut mem (.ofAddr 64) (.ofAddr 128) ∧
        mem.slice Binary64 (.ofAddr 64) 6 = xs.toList ∧
        ∃ x, (Call.sumMatrix .binary64 2 3 (.ofAddr 64)).run mem = (.binary64 x, mem) ∧
          (Call.sumMatrixRows .binary64 2 3 (.ofAddr 128)).run mem = (.binary64 x, mem) ∧
          (Call.sumArray .binary64 (.ofAddr 64) 6).run mem = (.binary64 x, mem) := by
  intro G word
  have hstreams := Generator.streams 7
  obtain ⟨hints, hdoubles, hearlier, hshapes, hmatrix, harray⟩ := samplers_read_one_stream hstreams
  obtain ⟨ys, hys⟩ := Option.isSome_iff_exists.mp ((hints 6).1.mpr (by decide))
  obtain ⟨ws, hws, hstarts⟩ := (hearlier 2 6 (by decide)).1 ys hys
  have hlarge : G.ints (2 ^ 61) 7 = none := by
    rw [← Option.not_isSome_iff_eq_none, (hints (2 ^ 61)).1]
    decide
  obtain ⟨xs, hxs⟩ := Option.isSome_iff_exists.mp ((hdoubles 6).1.mpr (by decide))
  obtain ⟨hsize, helement⟩ := (hdoubles 6).2 xs hxs
  let m : OwnedMatrix Binary64 := ⟨2, 3, xs⟩
  have hm : G.doubleMatrix 2 3 7 = some m := by
    rw [(hshapes 2 3).1, hxs]
    rfl
  have hstarts' : m.rowStarts = some m.rowOffsets :=
    OwnedMatrix.rowStarts_eq_some hsize (show 2 * 8 < 2 ^ 63 by decide)
  have hbuffer : 64 + m.data.size * Scalar.width Binary64 ≤ 128 := by
    rw [show m.data.size = 6 from hsize]
    decide
  have hplaced := m.handedOut_place .empty (show 0 < 64 by decide) hbuffer (by decide) hstarts'
  have hslice : (m.place .empty 64 128).slice Binary64 (.ofAddr 64) 6 = xs.toList := by
    have helements := hplaced.elements
    rw [show m.data.size = 6 from hsize] at helements
    exact helements
  obtain ⟨-, hflat, hrows⟩ :=
    hmatrix 6 2 3 m xs _ (.ofAddr 64) (.ofAddr 128) rfl (by decide) (by decide) hm hxs hplaced
  exact ⟨hstreams, ⟨ws, ys, hws, hys, hstarts, ((hints 6).2 ys hys).2 5 (by decide)⟩, hlarge, xs, m,
    hxs, hm, helement 5 (by decide), hplaced, hslice, _, hflat, hrows,
    harray 6 xs _ (.ofAddr 64) (by decide) hxs hslice⟩

end WordSource

end AbiConformance
