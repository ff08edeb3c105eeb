import Regrid.Packing.Matrix
import Regrid.Proofs.Packing.Search

/-!
# Packed matrices

Packing a matrix between two full spaces moves every entry to the positions of its row and column
(`pack_eq`). With unused entries dropped it moves those that both packings use (`pack_dropping`);
otherwise an unused one is refused (`pack_unused`). An axis without a packing stays as it is.
-/

namespace Regrid

variable {α : Type} {p q : Packing} {m : SparseMatrix α} {space rowSpace colSpace : Option Packing}

namespace Packing

/-- The packed index on an axis. -/
def position (space : Option Packing) (i : Nat) : Nat := space.elim i fun p => p.index i

/-- An entry at its packed row and column. -/
def relabel (rowSpace colSpace : Option Packing) (e : Entry α) : Entry α :=
  ⟨position rowSpace e.row, position colSpace e.col, e.value⟩

/-- Whether both indices of an entry stay. -/
def keepsEntry (rowSpace colSpace : Option Packing) (e : Entry α) : Bool :=
  keeps rowSpace e.row && keeps colSpace e.col

/-- A packing, if there is one, is made for an axis of the extent. -/
structure Translates (space : Option Packing) (extent : Nat) : Prop where
  full_eq : ∀ p ∈ space, p.full = extent
  ordered : ∀ p ∈ space, p.Ordered

theorem translates_some {extent : Nat} (hfull : p.full = extent) (h : p.Ordered) :
    Translates (some p) extent where
  full_eq := fun _ hp => Option.mem_some.mp hp ▸ hfull
  ordered := fun _ hp => Option.mem_some.mp hp ▸ h

theorem keeps_iff {i : Nat} : keeps (some p) i = true ↔ i ∈ p.ids := by
  simp [keeps]

section Axis

variable {extent axis : Nat} {indices : List Nat} (h : Translates space extent)
include h

theorem Translates.checkAxis_eq : checkAxis space extent axis = .ok () := by
  cases space with
  | none => rfl
  | some p => exact if_pos (h.full_eq p rfl)

/-- The indices of an axis are looked up up to the first that is not used. -/
theorem Translates.renumber_eq_find? : renumber space indices =
    (indices.find? fun i => !keeps space i).elim (.ok (indices.map (position space)))
      fun i => .error (.notFound (.int i) (space.elim "" Packing.name)) := by
  cases space with
  | none =>
    have hnone : (indices.find? fun i => !keeps none i) = none :=
      List.find?_eq_none.mpr fun _ _ => Bool.false_ne_true
    rw [hnone]
    exact congrArg Except.ok (List.map_id indices).symm
  | some p =>
    have hlookup : ∀ i ∈ indices, p.toPacked (.whole i) =
        if !keeps (some p) i then .error (.notFound (.int i) p.name) else .ok (p.index i) := by
      intro i _
      cases hi : keeps (some p) i with
      | true => exact toPacked_used (keeps_iff.mp hi)
      | false =>
        refine toPacked_unused fun n hn heq => ?_
        rw [keeps_iff.mpr (Int.ofNat.inj heq ▸ hn)] at hi
        cases hi
    have hchain : (Tensor.ofArray (indices.map fun i : Nat => (i : Int)).toArray).values.toList.mapM
        (fun i => p.toPacked (.whole i)) = indices.mapM fun i : Nat => p.toPacked (.whole i) :=
      List.mapM_map
    rw [renumber, p.toPackedAll_eq (h.ordered p rfl), Tensor.mapM, Array.mapM_eq_mapM_toList,
      hchain, mapM_eq_find? hlookup]
    cases indices.find? _ <;> rfl

theorem Translates.renumber_eq (hkeep : ∀ i ∈ indices, keeps space i = true) :
    renumber space indices = .ok (indices.map (position space)) := by
  have hnone : (indices.find? fun i => !keeps space i) = none :=
    List.find?_eq_none.mpr fun i hi => by rw [hkeep i hi]; exact Bool.false_ne_true
  rw [h.renumber_eq_find?, hnone]
  rfl

end Axis

end Packing

namespace SparseMatrix

variable (hrows : Packing.Translates rowSpace m.rows) (hcols : Packing.Translates colSpace m.cols)
include hrows hcols

/-- Packing the entries that are kept. -/
theorem pack_kept {kept : List (Entry α)}
    (hkeep : ∀ e ∈ kept, Packing.keepsEntry rowSpace colSpace e = true) :
    (do
      let rows ← Packing.renumber rowSpace (kept.map Entry.row)
      let cols ← Packing.renumber colSpace (kept.map Entry.col)
      return (⟨Packing.packedExtent rowSpace m.rows, Packing.packedExtent colSpace m.cols,
        (rows.zip (cols.zip (kept.map Entry.value))).map fun t => ⟨t.1, t.2.1, t.2.2⟩⟩ :
          SparseMatrix α) : Except Error (SparseMatrix α)) =
      .ok ⟨Packing.packedExtent rowSpace m.rows, Packing.packedExtent colSpace m.cols,
        kept.map (Packing.relabel rowSpace colSpace)⟩ := by
  have hboth : ∀ e ∈ kept, Packing.keeps rowSpace e.row = true ∧
      Packing.keeps colSpace e.col = true := fun e he => Bool.and_eq_true_iff.mp (hkeep e he)
  rw [hrows.renumber_eq (List.forall_mem_map.mpr fun e he => (hboth e he).1), bind_ok,
    hcols.renumber_eq (List.forall_mem_map.mpr fun e he => (hboth e he).2), bind_ok, List.map_map,
    List.map_map, List.zip_map', List.zip_map', List.map_map]
  rfl

/-- **A matrix of used rows and columns** is packed entry by entry. -/
theorem pack_eq
    (hkeep : ∀ e ∈ m.entries, Packing.keepsEntry rowSpace colSpace e = true) :
    m.pack rowSpace colSpace false =
      .ok ⟨Packing.packedExtent rowSpace m.rows, Packing.packedExtent colSpace m.cols,
        m.entries.map (Packing.relabel rowSpace colSpace)⟩ := by
  unfold pack
  rw [hrows.checkAxis_eq, bind_ok, hcols.checkAxis_eq, bind_ok, if_neg Bool.false_ne_true]
  exact pack_kept hrows hcols hkeep

/-- **With unused entries dropped** the others are packed. -/
theorem pack_dropping : m.pack rowSpace colSpace true =
    .ok ⟨Packing.packedExtent rowSpace m.rows, Packing.packedExtent colSpace m.cols,
      (m.entries.filter (Packing.keepsEntry rowSpace colSpace)).map
        (Packing.relabel rowSpace colSpace)⟩ := by
  unfold pack
  rw [hrows.checkAxis_eq, bind_ok, hcols.checkAxis_eq, bind_ok, if_pos rfl]
  exact pack_kept hrows hcols fun e he => (List.mem_filter.mp he).2

/-- **An unused entry** that is not dropped is refused. -/
theorem pack_unused {e : Entry α} (he : e ∈ m.entries)
    (hunused : Packing.keepsEntry rowSpace colSpace e = false) :
    ∃ (i : Nat) (name : String),
      m.pack rowSpace colSpace false = .error (.notFound (.int i) name) := by
  unfold pack
  rw [hrows.checkAxis_eq, bind_ok, hcols.checkAxis_eq, bind_ok, if_neg Bool.false_ne_true]
  dsimp only
  rw [hrows.renumber_eq_find?]
  cases hrow : (m.entries.map Entry.row).find? fun i => !Packing.keeps rowSpace i with
  | some i => exact ⟨i, _, rfl⟩
  | none =>
    have hkeep := List.find?_eq_none.mp hrow e.row (List.mem_map_of_mem he)
    rw [Option.elim_none, bind_ok, hcols.renumber_eq_find?]
    cases hcol : (m.entries.map Entry.col).find? fun i => !Packing.keeps colSpace i with
    | some i => exact ⟨i, _, rfl⟩
    | none =>
      have hkeep' := List.find?_eq_none.mp hcol e.col (List.mem_map_of_mem he)
      rcases Bool.and_eq_false_iff.mp hunused with hno | hno
      · exact absurd (congrArg Bool.not hno) hkeep
      · exact absurd (congrArg Bool.not hno) hkeep'

end SparseMatrix

end Regrid
