import Regrid.Proofs.Fitting.Assemble

/-!
# Whether there is a program

For consistent sheets and constraints there is a program if the used values of the fields are finite
and the guess is one (`assemble_ok`). Where there is none, it is not for an index that is missing or
out of range (`assemble_error`): those are what the packings look up, and all of them are there.
-/

namespace Regrid

/-- The error of an index that is not there. -/
def Error.IsLookup : Error → Prop
  | .notFound _ _ | .outOfRange _ _ _ => True
  | _ => False

namespace FittingProblem

/-! ## Errors -/

section Errors

variable {α : Type} [Scalar α] {e : Error}

theorem checkFinite_error {name : String} {xs : Array α} {place : Nat → Option Datum}
    (h : checkFinite name xs place = .error e) : ¬ e.IsLookup := by
  unfold checkFinite at h
  split at h
  · cases h
  · split at h
    · cases h
      exact id
    · cases h
      exact id

omit [Scalar α] in
theorem pack_error {p : Packing} {v : Tensor α} (h : p.pack v = .error e) : ¬ e.IsLookup := by
  unfold Packing.pack at h
  split at h
  · cases h
    exact id
  · split_ifs at h
    cases h
    exact id

theorem startingPoint_error {basis : Packing} {guess : Option (Tensor α)} {filling : Option α}
    (h : startingPoint basis guess filling = .error e) : ¬ e.IsLookup := by
  unfold startingPoint at h
  cases guess with
  | none => cases h
  | some g =>
    rcases bind_eq_error.mp h with h | ⟨x, -, h⟩
    · exact pack_error h
    · split_ifs at h
      · cases filling with
        | some v => cases h
        | none =>
          rcases bind_eq_error.mp h with h | ⟨-, -, h⟩
          · exact checkFinite_error h
          · cases h
      · cases h

variable {constraints kept : SparseMatrix α} {pairs sheets : List (GroupId × Sheet α)}
  {minimum : Option Number}

/-- **No look-up fails** in assembling consistent sheets. -/
theorem assemble_error (h : Prepared constraints pairs minimum kept sheets)
    {guess : Option (Tensor α)} {filling : Option α}
    (he : assemble constraints pairs guess filling minimum = .error e) : ¬ e.IsLookup := by
  obtain ⟨q, -, hassemble⟩ := assemble_eq h guess filling
  rw [hassemble] at he
  rcases bind_eq_error.mp he with he | ⟨-, -, he⟩
  · exact checkFinite_error he
  · rcases bind_eq_error.mp he with he | ⟨start, -, he⟩
    · exact startingPoint_error he
    · cases he

end Errors

/-! ## Success -/

section Success

variable {α : Type} [Scalar α] {constraints kept : SparseMatrix α}
  {pairs sheets : List (GroupId × Sheet α)} {minimum : Option Number}

/-- The fields are finite where an operator touches them. -/
def UsedFinite (sheets : List (GroupId × Sheet α)) : Prop :=
  ∀ g ∈ sheets, ∀ c ∈ g.2.usedCells, Scalar.isFinite (g.2.field.values.getD c 0) = true

/-- A guess has a value for each of `n` basis functions, a number unless there is a filling. -/
def IsGuess (n : Nat) (guess : Option (Tensor α)) (filling : Option α) : Prop :=
  ∀ v, guess = some v → v.shape = [n] ∧ v.values.size = n ∧
    (filling = none → ∀ w ∈ v.values, Scalar.isNaN w = false)

theorem fineField_finite (h : UsedFinite sheets) :
    ∀ x ∈ (fineField sheets).toList, Scalar.isFinite x = true := by
  intro x hx
  obtain ⟨m, hm, rfl⟩ := List.mem_map.mp hx
  obtain ⟨hg, hc⟩ := GroupPacking.mem_members.mp hm
  exact h m.1 hg m.2 hc

theorem startingPoint_ok (basis : Packing) {n : Nat} (hfull : basis.full = n)
    (hids : ∀ id ∈ basis.ids, id < n) {guess : Option (Tensor α)} {filling : Option α}
    (hguess : IsGuess n guess filling) :
    ∃ start, startingPoint basis guess filling = .ok start := by
  cases guess with
  | none => exact ⟨_, rfl⟩
  | some v =>
    obtain ⟨hshape, hsize, hnumbers⟩ := hguess v rfl
    have hpack := Packing.pack_vector (p := basis) (v := v) (by rw [hshape, hsize])
      (by rw [hfull, hsize]) (by rwa [hsize]) 0
    unfold startingPoint
    simp only
    rw [hpack, bind_ok]
    split_ifs with hnan
    · cases filling with
      | some w => exact ⟨_, rfl⟩
      | none =>
        obtain ⟨w, hw, hundefined⟩ := Array.any_eq_true'.mp hnan
        obtain ⟨id, hid, rfl⟩ := Array.mem_map.mp hw
        have hlt : id < v.values.size := by
          rw [hsize]
          exact hids id hid
        have hnumber := hnumbers rfl _ (Array.getElem_mem hlt)
        rw [Array.getD, dif_pos hlt] at hundefined
        cases hundefined.symm.trans hnumber
    · exact ⟨_, rfl⟩

/-- **There is a program** where there are values to make it of. -/
theorem assemble_ok (h : Prepared constraints pairs minimum kept sheets)
    (hfinite : UsedFinite sheets) {guess : Option (Tensor α)} {filling : Option α}
    (hguess : IsGuess kept.cols guess filling) :
    ∃ p, assemble constraints pairs guess filling minimum = .ok p := by
  obtain ⟨q, -, hassemble⟩ := assemble_eq h guess filling
  obtain ⟨start, hstart⟩ := startingPoint_ok (basisPacking kept sheets) rfl
    (fun id hid => usedBasis_lt h.toSheets (Packing.mem_used.mp hid)) hguess
  refine ⟨q start, ?_⟩
  rw [hassemble, checkFinite_ok (fineField_finite hfinite), bind_ok, hstart, bind_ok]
  rfl

end Success

end FittingProblem

end Regrid
