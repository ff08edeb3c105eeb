import Regrid.Mesh.Condition
import Regrid.Proofs.Mesh.Sweep

/-!
# Tests that fail

Keeping a part of a mesh (`Grid.filter_cells`) fails with its test, on the first cell on which that
fails (`retain_cases`). What remains then is told by the place of that cell: the cells before it
that were refused are gone, and it and those behind it are there. The vertices are all there, and
both numberings go on where they did, but their sizes are fixed. So nothing has changed just if no
cell was refused before and the sizes were fixed already (`interrupted_eq_self_iff`).
`retain_interrupted` says so of every mesh that can be reached.
-/

namespace Regrid

open Attempt

variable {α : Type}

/-- Whether a test accepts a cell. One on which it fails it does not. -/
def passes (test : Cell α → Except Error Bool) (c : Cell α) : Bool :=
  match test c with
  | .ok keep => keep
  | .error _ => false

section Passes

variable {test : Cell α → Except Error Bool} {c : Cell α}

theorem passes_of_ok {keep : Bool} (h : test c = .ok keep) : passes test c = keep := by
  rw [passes, h]

theorem passes_iff : passes test c = true ↔ test c = .ok true := by
  unfold passes
  split
  · rename_i keep h
    rw [h, Except.ok.injEq]
  · rename_i e h
    rw [h]
    exact iff_of_false Bool.false_ne_true (by simp)

end Passes

/-- **A test fails on the first cell on which it does**, or on none. The cells before that one
remain if they pass. -/
theorem survivors_cases (test : Cell α → Except Error Bool) : ∀ cs : List (Cell α),
    (∀ c ∈ cs, ∃ keep, test c = .ok keep) ∧ survivors test cs = (cs.filter (passes test), none) ∨
      ∃ before c after e, cs = before ++ c :: after ∧ (∀ b ∈ before, ∃ keep, test b = .ok keep) ∧
        test c = .error e ∧
        survivors test cs = (before.filter (passes test) ++ c :: after, some e)
  | [] => Or.inl ⟨fun _ h => absurd h List.not_mem_nil, rfl⟩
  | c :: cs => by
    cases hc : test c with
    | error e =>
      exact Or.inr ⟨[], c, cs, e, rfl, fun _ h => absurd h List.not_mem_nil, hc,
        survivors_of_error hc cs⟩
    | ok keep =>
      -- the first cell remains in front of the others if it passes
      have hfirst : ∀ kept : List (Cell α), (if keep then c :: kept else kept) =
          [c].filter (passes test) ++ kept := fun kept => by
        cases keep <;> simp [passes_of_ok hc]
      rw [survivors_of_ok hc]
      rcases survivors_cases test cs with
        ⟨hcs, hrest⟩ | ⟨before, d, after, e, rfl, hbefore, hd, hrest⟩
      · refine Or.inl ⟨List.forall_mem_cons.mpr ⟨⟨keep, hc⟩, hcs⟩, ?_⟩
        rw [hrest, hfirst, ← List.filter_append]
        rfl
      · refine Or.inr ⟨c :: before, d, after, e, rfl,
          List.forall_mem_cons.mpr ⟨⟨keep, hc⟩, hbefore⟩, hd, ?_⟩
        rw [hrest, hfirst, ← List.append_assoc, ← List.filter_append]
        rfl

namespace Roster

variable {ε : Type} [Numbered ε] {r : Roster ε}

/-- Fixing the size as it is changes nothing just if it was fixed. -/
theorem freeze_eq_self_iff (h : r.Sound) : r.freeze = r ↔ 0 ≤ r.fixed := by
  constructor
  · intro heq
    have hfixed : r.full = r.fixed := congrArg Roster.fixed heq
    exact hfixed ▸ h.full_nonneg
  · intro hfixed
    rw [freeze, full, if_pos hfixed]
    rfl

end Roster

namespace Mesh

variable {m : Mesh α}

/-- **Keeping a part** of a mesh succeeds if its test does on every cell, and fails with the test on
the first cell on which that fails. -/
theorem retain_cases (m : Mesh α) (test : Cell α → Except Error Bool) :
    (∀ c ∈ m.cells.items, ∃ keep, test c = .ok keep) ∧
        (retain test).run m = .ok () (m.part (passes test)) ∨
      ∃ before c after e, m.cells.items = before ++ c :: after ∧
        (∀ b ∈ before, ∃ keep, test b = .ok keep) ∧ test c = .error e ∧
        (retain test).run m =
          .error e (m.freeze.withCells (before.filter (passes test) ++ c :: after)) := by
  rcases survivors_cases test m.cells.items with ⟨hall, hrest⟩ |
    ⟨before, c, after, e, hitems, hbefore, hc, hrest⟩
  · refine Or.inl ⟨hall, ?_⟩
    rw [retain_run, hrest]
    rfl
  · refine Or.inr ⟨before, c, after, e, hitems, hbefore, hc, ?_⟩
    rw [retain_run, hrest]

/-- **Nothing has changed** just if no cell was refused and both sizes were fixed. -/
theorem interrupted_eq_self_iff (h : m.Sound) {test : Cell α → Except Error Bool}
    {before rest : List (Cell α)} (hitems : m.cells.items = before ++ rest) :
    m.freeze.withCells (before.filter (passes test) ++ rest) = m ↔
      (∀ b ∈ before, test b = .ok true) ∧ 0 ≤ m.cells.fixed ∧ 0 ≤ m.vertices.fixed := by
  have hkept : before.filter (passes test) ++ rest = m.cells.items ↔
      ∀ b ∈ before, test b = .ok true := by
    rw [hitems, List.append_left_inj, List.filter_eq_self]
    exact forall₂_congr fun _ _ => passes_iff
  rw [← hkept, ← Roster.freeze_eq_self_iff h.cells, ← Roster.freeze_eq_self_iff h.vertices]
  constructor
  · intro heq
    have hcells : { m.cells.freeze with items := before.filter (passes test) ++ rest } = m.cells :=
      congrArg Mesh.cells heq
    have hsame : before.filter (passes test) ++ rest = m.cells.items := congrArg Roster.items hcells
    rw [hsame] at hcells
    exact ⟨hsame, hcells, congrArg Mesh.vertices heq⟩
  · rintro ⟨hsame, hcells, hvertices⟩
    rw [hsame, freeze, hcells, hvertices]
    rfl

end Mesh

/-! ## Meshes that can be reached -/

namespace Mesh

open MeshCall

/-- **Keeping the cells that pass a test that fails on one of them**, of a mesh that can be reached.
It fails just if the test fails on some cell, and as it does on the first such cell. The cells
before that one have been told apart, and those that were refused are gone. All other cells and all
vertices are as and where they were, and so are the settings and the numbers that new entities get.
The sizes of both numberings are those of before, and from then on stay so until they are set. So
the mesh is as before just if no cell had been refused and both sizes were fixed already. -/
theorem retain_interrupted {m : Mesh Float} (h : m.Reachable)
    (test : Cell Float → Except Error Bool) :
    ((∃ e m', (retain test).run m = .error e m') ↔ ∃ c ∈ m.cells.items, ∃ e, test c = .error e) ∧
    ∀ e m', (retain test).run m = .error e m' → (sweep test).run m = .error e m' ∧
      ∃ before c after, m.cells.items = before ++ c :: after ∧
        (∀ b ∈ before, ∃ keep, test b = .ok keep) ∧ test c = .error e ∧
        m' = { m with
          cells := { m.cells with
            items := before.filter (passes test) ++ c :: after, fixed := m.cells.full }
          vertices := { m.vertices with fixed := m.vertices.full } } ∧
        (∀ x, m'.cells.numbered x = m.cells.numbered x) ∧
        (∀ x, m'.vertices.numbered x = m.vertices.numbered x) ∧
        (∀ later : List (MeshCall Float), (∀ call ∈ later,
            (∀ size, call ≠ .fixCells size) ∧ ∀ size, call ≠ .fixVertices size) →
          (runAll later m').cells.full = m.cells.full ∧
            (runAll later m').vertices.full = m.vertices.full) ∧
        (m' = m ↔
          (∀ b ∈ before, test b = .ok true) ∧ 0 ≤ m.cells.fixed ∧ 0 ≤ m.vertices.fixed) := by
  have hm := h.sound
  rcases retain_cases m test with ⟨hall, hrun⟩ | ⟨before, c, after, e, hitems, hbefore, hc, hrun⟩
  · have hok : ∀ e m', (retain test).run m ≠ .error e m' := fun e m' he => by
      rw [hrun] at he
      cases he
    refine ⟨iff_of_false (fun ⟨e, m', he⟩ => hok e m' he) ?_, fun e m' he => absurd he (hok e m')⟩
    rintro ⟨c, hc, e, he⟩
    obtain ⟨keep, hkeep⟩ := hall c hc
    rw [hkeep] at he
    cases he
  · have hmem : c ∈ m.cells.items := hitems ▸ List.mem_append_right _ List.mem_cons_self
    refine ⟨iff_of_true ⟨e, _, hrun⟩ ⟨c, hmem, e, hc⟩, fun e' m' hrun' => ?_⟩
    rw [hrun] at hrun'
    cases hrun'
    refine ⟨(sweep_eq_retain hm test).trans hrun, before, c, after, hitems, hbefore, hc, rfl,
      fun _ => rfl, fun _ => rfl, fun later hlater => ?_, interrupted_eq_self_iff hm hitems⟩
    obtain ⟨hcells, hvertices⟩ := runAll_full (m := m.freeze.withCells _) hm.cells.full_nonneg
      hm.vertices.full_nonneg hlater
    exact ⟨hcells.trans (if_pos hm.cells.full_nonneg),
      hvertices.trans (if_pos hm.vertices.full_nonneg)⟩

/-- The first of three triangles is refused, and the test fails on the second. -/
theorem retain_interrupted_strip :
    let m := runAll triangleStrip {}
    let test := fun c : Cell Float =>
      if c.index = 1 then Except.error Error.divisionByZero else .ok (c.index != 0)
    m.Reachable ∧ ∃ m', (retain test).run m = .error .divisionByZero m' ∧
      m'.cells.keys = [1, 2] ∧ m'.vertices.keys = [0, 1, 2, 3, 4] ∧ m'.cells.full = 3 ∧
      (runAll [.insertCell [0, 1, 2] (.whole (-1)) 0 0 (-1) 0.5] m').cells.full = 3 := by
  intro m test
  have hm : m.Reachable := (Reachable.new rfl rfl).runAll triangleStrip
  obtain ⟨-, hleaves⟩ := retain_interrupted hm test
  have hrun : (retain test).run m = .error .divisionByZero
      (m.freeze.withCells (m.cells.items.drop 1)) := rfl
  obtain ⟨-, before, c, after, -, -, -, -, -, -, hlater, -⟩ := hleaves _ _ hrun
  refine ⟨hm, _, hrun, by decide, by decide, by decide, ?_⟩
  exact (hlater _ (by simp)).1.trans (by decide)

/-- **A test that fails does not leave the mesh as it was.** On the strip a refused cell is gone. If
the test fails on the first cell already, the cells are all there, but the size of the numbering
of the vertices does not grow with them any more. -/
theorem retain_interrupted_changed :
    let m := runAll triangleStrip {}
    let refusing := fun c : Cell Float =>
      if c.index = 1 then Except.error Error.divisionByZero else .ok (c.index != 0)
    let failing := fun c : Cell Float => CellCondition.test c (.residue .index 0 0)
    m.Reachable ∧
      (∃ e m', (retain refusing).run m = .error e m' ∧ m.cells.keys = [0, 1, 2] ∧
        m'.cells.keys = [1, 2]) ∧
      ∃ e m', (retain failing).run m = .error e m' ∧ m'.cells.keys = m.cells.keys ∧
        (runAll [.insertVertex 2 2 (.whole (-1))] m).vertices.full = 6 ∧
        (runAll [.insertVertex 2 2 (.whole (-1))] m').vertices.full = 5 := by
  intro m refusing failing
  refine ⟨(Reachable.new rfl rfl).runAll triangleStrip, ⟨_, _, rfl, by decide, by decide⟩,
    _, _, rfl, by decide, by decide, by decide⟩

end Mesh

end Regrid
