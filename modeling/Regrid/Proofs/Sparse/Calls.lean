import Regrid.Proofs.Keyed
import Regrid.Proofs.Sparse.Buffered

/-!
# Calls on dense matrices

A dense matrix is a shape and an element for every coordinate. Each call on sparse matrices has its
counterpart here (`MatrixCall.dense?`): adding to one element, the sum of two matrices, scaling,
transposing and so on, with the conditions under which it fails. Triplets stand for the dense matrix
of their sums (`Triplet.dense`), and what the calls do to triplets they do to it.
-/

namespace Regrid

/-! ## Dense matrices -/

/-- A dense matrix. -/
@[ext]
structure DenseMatrix where
  rows : Nat
  cols : Nat
  elem : Nat → Nat → Rat

namespace DenseMatrix

def zero (rows cols : Nat) : DenseMatrix := ⟨rows, cols, fun _ _ => 0⟩

/-- Add a value to one element. -/
def addAt (d : DenseMatrix) (row col : Nat) (v : Rat) : DenseMatrix :=
  { d with elem := fun i j => if row = i ∧ col = j then d.elem i j + v else d.elem i j }

/-- Add a value to the element at a position, if that is in the matrix. -/
def addAt? (d : DenseMatrix) (row col : Number) (v : Rat) : Option DenseMatrix := do
  return d.addAt (← row.place? d.rows) (← col.place? d.cols) v

/-- Add values to many elements, if all of these are in the matrix. -/
def addMany? (d : DenseMatrix) (rs cs : List Number) (vs : List Rat) : Option DenseMatrix := do
  let rs ← rs.mapM (·.storedPlace? d.rows)
  let cs ← cs.mapM (·.storedPlace? d.cols)
  if rs.length = cs.length ∧ cs.length = vs.length then
    return (rs.zip (cs.zip vs)).foldl (fun d (r, c, v) => d.addAt r c v) d
  else none

/-- The matrix of a given shape, with the sums of entries as elements. -/
def ofShape? (shape : List Number) (entries : Option (List Number × List Number × List Rat)) :
    Option DenseMatrix := do
  let m : SparseMatrix Rat ← (SparseMatrix.ofShape shape).toOption
  match entries with
  | none => return zero m.rows m.cols
  | some (rs, cs, vs) => (zero m.rows m.cols).addMany? rs cs vs

def sum (d e : DenseMatrix) : DenseMatrix :=
  { d with elem := fun i j => d.elem i j + e.elem i j }

/-- The sum of two matrices of the same shape. -/
def sum? (d e : DenseMatrix) : Option DenseMatrix :=
  if e.rows = d.rows ∧ e.cols = d.cols then some (d.sum e) else none

def scaleRows (d : DenseMatrix) (f : Nat → Rat) : DenseMatrix :=
  { d with elem := fun i j => d.elem i j * f i }

def scaleCols (d : DenseMatrix) (f : Nat → Rat) : DenseMatrix :=
  { d with elem := fun i j => d.elem i j * f j }

def transpose (d : DenseMatrix) : DenseMatrix := ⟨d.cols, d.rows, fun i j => d.elem j i⟩

/-- The matrix without the elements above the diagonal. -/
def lower (d : DenseMatrix) : DenseMatrix :=
  { d with elem := fun i j => if j ≤ i then d.elem i j else 0 }

end DenseMatrix

/-- Dense matrices under names. -/
abbrev DenseSpace := String → Option DenseMatrix

/-- A changed matrix with its name. -/
def DenseSpace.change (w : DenseSpace) (name : String) (f : DenseMatrix → Option DenseMatrix) :
    Option (String × DenseMatrix) :=
  (w name).bind fun d => (f d).map fun d => (name, d)

theorem DenseSpace.change_of_none {w : DenseSpace} {name : String} (h : w name = none)
    (f : DenseMatrix → Option DenseMatrix) : w.change name f = none := by
  rw [change, h, Option.bind_none]

theorem DenseSpace.change_of_some {w : DenseSpace} {name : String} {d : DenseMatrix}
    (h : w name = some d) (f : DenseMatrix → Option DenseMatrix) :
    w.change name f = (f d).map fun d => (name, d) := by
  rw [change, h, Option.bind_some]

/-- What a call does among dense matrices: the name and the matrix that it makes or changes, or
nothing if it fails. -/
def MatrixCall.dense? (w : DenseSpace) : MatrixCall Rat → Option (String × DenseMatrix)
  | new name shape entries => (DenseMatrix.ofShape? shape entries).map fun d => (name, d)
  | add name row col value => w.change name fun d => d.addAt? row col value
  | addEntries name rows cols values => w.change name fun d => d.addMany? rows cols values
  | append name other => (w other).bind fun e => w.change name fun d => d.sum? e
  | clear name => w.change name fun d => some (.zero d.rows d.cols)
  | sumDuplicates name => w.change name some
  | scaleRows name factors => w.change name fun d =>
    if factors.shape = [d.rows] then some (d.scaleRows fun i => factors.values.getD i 0) else none
  | scaleCols name factors => w.change name fun d =>
    if factors.shape = [d.cols] then some (d.scaleCols fun j => factors.values.getD j 0) else none
  | copy name result => (w name).map fun d => (result, d)
  | transpose name result => (w name).map fun d => (result, d.transpose)
  | lowerTriangle name result => (w name).map fun d => (result, d.lower)

/-- The dense matrices after a call. -/
def MatrixCall.denseNext (call : MatrixCall Rat) (w : DenseSpace) : DenseSpace :=
  match call.dense? w with
  | some (name, d) => Function.update w name (some d)
  | none => w

/-- The dense matrices after many calls, in the beginning none. -/
def MatrixCall.denseAll (calls : List (MatrixCall Rat)) : DenseSpace :=
  calls.foldl (fun w call => call.denseNext w) fun _ => none

/-- Every dimension that a call asks for is below `2 ^ 63`. -/
def MatrixCall.Small : MatrixCall Rat → Prop
  | new _ shape _ => ∀ m : SparseMatrix Rat, SparseMatrix.ofShape shape = .ok m →
    m.rows < 2 ^ 63 ∧ m.cols < 2 ^ 63
  | _ => True

/-! ## Elements of triplets -/

namespace Triplet

variable {rows cols : Nat} {ts us : List (Triplet Rat)}

/-- The dense matrix of triplets. -/
def dense (rows cols : Nat) (ts : List (Triplet Rat)) : DenseMatrix :=
  ⟨rows, cols, (matrix rows cols ts).dense⟩

theorem elem_dense (rows cols : Nat) (ts : List (Triplet Rat)) (i j : Nat) :
    (dense rows cols ts).elem i j =
      (ts.map fun t => if t.1.toNat = i ∧ t.2.1.toNat = j then t.2.2 else 0).sum := by
  show (matrix rows cols ts).dense i j = _
  rw [SparseMatrix.dense_eq, matrix, List.map_map]
  rfl

theorem dense_nil : dense rows cols [] = .zero rows cols := rfl

theorem dense_append :
    dense rows cols (ts ++ us) = (dense rows cols ts).sum (dense rows cols us) := by
  refine DenseMatrix.ext rfl rfl (funext₂ fun i j => ?_)
  show _ = (dense rows cols ts).elem i j + (dense rows cols us).elem i j
  rw [elem_dense, elem_dense, elem_dense, List.map_append, List.sum_append]

theorem dense_concat (t : Triplet Rat) :
    dense rows cols (ts ++ [t]) = (dense rows cols ts).addAt t.1.toNat t.2.1.toNat t.2.2 := by
  rw [dense_append]
  refine DenseMatrix.ext rfl rfl (funext₂ fun i j => ?_)
  show (dense rows cols ts).elem i j + (dense rows cols [t]).elem i j =
    if t.1.toNat = i ∧ t.2.1.toNat = j then _ else _
  rw [elem_dense rows cols [t], List.map_singleton, List.sum_singleton]
  split_ifs with h
  · rfl
  · exact add_zero _

/-- Adding many triplets is adding to one element after the other. -/
theorem dense_append_eq_foldl (us : List (Triplet Rat)) : ∀ ts : List (Triplet Rat),
    dense rows cols (ts ++ us) =
      us.foldl (fun d t => d.addAt t.1.toNat t.2.1.toNat t.2.2) (dense rows cols ts) := by
  induction us with
  | nil => exact fun ts => congrArg (dense rows cols) (List.append_nil ts)
  | cons u us ih =>
    intro ts
    rw [List.foldl_cons, ← dense_concat, ← ih, List.append_assoc, List.singleton_append]

theorem dense_transpose : dense cols rows (ts.map fun t => (t.2.1, t.1, t.2.2)) =
    (dense rows cols ts).transpose := by
  refine DenseMatrix.ext rfl rfl (funext₂ fun i j => ?_)
  show _ = (dense rows cols ts).elem j i
  rw [elem_dense, elem_dense, List.map_map]
  simp only [Function.comp_def, and_comm]

theorem dense_lower (h : ∀ t ∈ ts, Fits rows cols t) :
    dense rows cols (ts.filter fun t => t.2.1 ≤ t.1) = (dense rows cols ts).lower := by
  refine DenseMatrix.ext rfl rfl (funext₂ fun i j => ?_)
  show _ = if j ≤ i then (dense rows cols ts).elem i j else 0
  rw [elem_dense, elem_dense, sum_map_filter]
  have hterm : ∀ t ∈ ts, (if decide (t.2.1 ≤ t.1) = true then
      (if t.1.toNat = i ∧ t.2.1.toNat = j then t.2.2 else 0) else 0) =
        if t.1.toNat = i ∧ t.2.1.toNat = j then (if j ≤ i then t.2.2 else 0) else 0 := by
    intro t ht
    obtain ⟨⟨hr, -⟩, hc, -⟩ := h t ht
    by_cases hat : t.1.toNat = i ∧ t.2.1.toNat = j
    · have hle : t.2.1 ≤ t.1 ↔ j ≤ i := by omega
      simp only [decide_eq_true_eq, if_congr hle rfl rfl, if_pos hat]
    · rw [if_neg hat, if_neg hat, ite_self]
  rw [List.map_congr_left hterm]
  split_ifs
  · rfl
  · simp

theorem dense_scaleRows (f : Nat → Rat) :
    dense rows cols (ts.map fun t => (t.1, t.2.1, t.2.2 * f t.1.toNat)) =
      (dense rows cols ts).scaleRows f := by
  refine DenseMatrix.ext rfl rfl (funext₂ fun i j => ?_)
  show _ = (dense rows cols ts).elem i j * f i
  rw [elem_dense, elem_dense, List.map_map, ← List.sum_map_mul_right]
  congr 1
  refine List.map_congr_left fun t _ => ?_
  show (if t.1.toNat = i ∧ t.2.1.toNat = j then t.2.2 * f t.1.toNat else 0) = _
  split_ifs with ht
  · rw [ht.1]
  · exact (zero_mul _).symm

theorem dense_scaleCols (f : Nat → Rat) :
    dense rows cols (ts.map fun t => (t.1, t.2.1, t.2.2 * f t.2.1.toNat)) =
      (dense rows cols ts).scaleCols f := by
  refine DenseMatrix.ext rfl rfl (funext₂ fun i j => ?_)
  show _ = (dense rows cols ts).elem i j * f j
  rw [elem_dense, elem_dense, List.map_map, ← List.sum_map_mul_right]
  congr 1
  refine List.map_congr_left fun t _ => ?_
  show (if t.1.toNat = i ∧ t.2.1.toNat = j then t.2.2 * f t.2.1.toNat else 0) = _
  split_ifs with ht
  · rw [ht.2]
  · exact (zero_mul _).symm

theorem dense_merged : dense rows cols (merged ts) = dense rows cols ts := by
  refine DenseMatrix.ext rfl rfl (funext₂ fun i j => ?_)
  rw [dense, matrix_merged]
  exact SparseMatrix.dense_sumDuplicates (matrix rows cols ts) i j

end Triplet

/-! ## Adding many -/

/-- The places that numbers name: those that are stored for them, if all of these fit. -/
theorem mapM_storedPlace?_eq_some {size : Nat} : ∀ {ns : List Number} {is : List Nat},
    ns.mapM (·.storedPlace? size) = some is ↔ ∃ js, storedIndices ns = .ok js ∧
      (∀ j ∈ js, 0 ≤ j ∧ j < size) ∧ js.map Int.toNat = is
  | [], is => by
    constructor
    · intro h
      exact ⟨[], rfl, fun _ h => absurd h List.not_mem_nil, Option.some.inj h⟩
    · rintro ⟨js, hjs, -, rfl⟩
      obtain rfl : [] = js := Except.ok.inj hjs
      rfl
  | n :: ns, is => by
    have hcons : storedIndices (n :: ns) =
        (n.toIdentifier >>= fun j => storedIndices ns >>= fun js => .ok (j :: js)) :=
      List.mapM_cons
    rw [hcons, List.mapM_cons, Option.bind_eq_bind, Option.bind_eq_some_iff]
    constructor
    · rintro ⟨i, hi, hrest⟩
      obtain ⟨is, his, heq⟩ := Option.bind_eq_some_iff.mp hrest
      obtain rfl := Option.some.inj heq
      obtain ⟨j, hj, hfit, rfl⟩ := Number.storedPlace?_eq_some.mp hi
      obtain ⟨js, hjs, hfits, rfl⟩ := mapM_storedPlace?_eq_some.mp his
      refine ⟨j :: js, ?_, List.forall_mem_cons.mpr ⟨hfit, hfits⟩, rfl⟩
      rw [bind_of_ok hj, bind_of_ok hjs]
    · rintro ⟨_, hall, hfits, rfl⟩
      obtain ⟨j, hj, hrest⟩ := bind_eq_ok.mp hall
      obtain ⟨js, hjs, heq⟩ := bind_eq_ok.mp hrest
      obtain rfl := Except.ok.inj heq
      obtain ⟨hfit, hfits⟩ := List.forall_mem_cons.mp hfits
      refine ⟨j.toNat, Number.storedPlace?_eq_some.mpr ⟨j, hj, hfit, rfl⟩, ?_⟩
      rw [mapM_storedPlace?_eq_some.mpr ⟨js, hjs, hfits, rfl⟩]
      rfl

namespace DenseMatrix

variable {d : DenseMatrix} {rs cs : List Number} {vs : List Rat}

theorem addMany?_of_givenBy {ts us : List (Triplet Rat)} {rows cols : Nat}
    (h : Triplet.GivenBy rows cols us rs cs vs) :
    (Triplet.dense rows cols ts).addMany? rs cs vs = some (Triplet.dense rows cols (ts ++ us)) := by
  obtain ⟨hr, hc, rfl, hfits⟩ := h
  have hrows := mapM_storedPlace?_eq_some.mpr ⟨_, hr,
    List.forall_mem_map.mpr fun t ht => (hfits t ht).1, rfl⟩
  have hcols := mapM_storedPlace?_eq_some.mpr ⟨_, hc,
    List.forall_mem_map.mpr fun t ht => (hfits t ht).2, rfl⟩
  unfold addMany?
  change rs.mapM (·.storedPlace? (Triplet.dense rows cols ts).rows) = _ at hrows
  change cs.mapM (·.storedPlace? (Triplet.dense rows cols ts).cols) = _ at hcols
  rw [hrows, hcols]
  simp only [Option.bind_eq_bind, Option.bind_some, List.length_map, and_self, if_true,
    List.map_map, List.zip_map', List.foldl_map]
  rw [Triplet.dense_append_eq_foldl]
  rfl

theorem addMany?_eq_none {rows cols : Nat} {ts : List (Triplet Rat)}
    (h : ∀ us, ¬ Triplet.GivenBy rows cols us rs cs vs) :
    (Triplet.dense rows cols ts).addMany? rs cs vs = none := by
  rw [Option.eq_none_iff_forall_not_mem]
  intro d' hd'
  obtain ⟨is, his, hd'⟩ := Option.bind_eq_some_iff.mp hd'
  obtain ⟨js, hjs, hd'⟩ := Option.bind_eq_some_iff.mp hd'
  obtain ⟨r, hr, hrows, rfl⟩ := mapM_storedPlace?_eq_some.mp his
  obtain ⟨c, hc, hcols, rfl⟩ := mapM_storedPlace?_eq_some.mp hjs
  split at hd'
  · rename_i hlen
    rw [List.length_map, List.length_map] at hlen
    obtain ⟨us, rfl, rfl, rfl⟩ := Triplet.exists_columns hlen.1 hlen.2
    exact h us ⟨hr, hc, rfl, fun t ht =>
      ⟨hrows _ (List.mem_map_of_mem ht), hcols _ (List.mem_map_of_mem ht)⟩⟩
  · cases hd'

end DenseMatrix

end Regrid
