import Regrid.Mesh.Session
import Regrid.Proofs.Mesh.Reachable

/-!
# Meshes that were cleared

Clearing (`Grid.clear`) removes what is there and starts the numbering again, but sizes that were
fixed stay (`clear_eq`), also those that a selection fixed on its own. So a cleared mesh is to be
told from a new one just if a size is fixed (`Reachable.cleared`), by what depends on it, and by no
answer to a call (`agrees_tell`), also in the middle of a session (`answers_session`).
-/

namespace Regrid

open Attempt

/-! ## Sizes that are fixed -/

/-- A relation between fixed sizes that changes keep. -/
structure SizeRelation (P : Int → Int → Prop) : Prop where
  refl : ∀ n, P n n
  full : ∀ {ε : Type} (r : Roster ε) (n : Int), P r.fixed n → P r.full (r.setFull n).full

/-- Sizes that mean the same: equal ones, and two that are none. -/
def SameSize (m n : Int) : Prop := m = n ∨ m < 0 ∧ n < 0

theorem Roster.full_eq_of_sameSize {ε : Type} {r : Roster ε} {n : Int} (h : SameSize r.fixed n) :
    (r.setFull n).full = r.full := by
  obtain rfl | ⟨hfixed, hn⟩ := h
  · rfl
  · show (if 0 ≤ n then n else r.top + 1) = if 0 ≤ r.fixed then r.fixed else r.top + 1
    rw [if_neg (by omega), if_neg (by omega)]

theorem sizeRelation_any : SizeRelation fun _ _ => True := ⟨fun _ => trivial, fun _ _ _ => trivial⟩

theorem sizeRelation_sameSize : SizeRelation SameSize :=
  ⟨fun _ => Or.inl rfl, fun _ _ h => Or.inl (Roster.full_eq_of_sameSize h).symm⟩

section Rosters

variable {P : Int → Int → Prop} {ε : Type} [Numbered ε]

/-- A roster is like another one, with a fixed size in relation to that one's. -/
def Roster.Alike (P : Int → Int → Prop) (r r' : Roster ε) : Prop :=
  ∃ n, P r.fixed n ∧ r' = r.setFull n

theorem Roster.add_setFull (r : Roster ε) (n : Int) (x : ε) :
    (r.setFull n).add x = (r.add x).map fun p => (p.1.setFull n, p.2) := by
  unfold add
  simp only
  split_ifs with hused hused' hused'
  · rfl
  · exact absurd hused hused'
  · exact absurd hused' hused
  · rfl

theorem Roster.erase_setFull (r : Roster ε) (n : Int) (index : Int) :
    (r.setFull n).erase index = (r.erase index).map fun p => (p.1.setFull n, p.2) := by
  have hget : (r.setFull n).get index = r.get index := rfl
  unfold erase
  rw [hget]
  cases r.get index <;> rfl

theorem Roster.agrees_insert (x : ε) : Agrees (Roster.Alike P) (Roster.insert x) := by
  rintro r _ ⟨n, hn, rfl⟩
  unfold resultOn after
  rw [insert_run, insert_run, add_setFull]
  cases hadd : r.add x with
  | error e => exact ⟨rfl, n, hn, rfl⟩
  | ok p => exact ⟨rfl, n, (labels_add hadd).2.symm ▸ hn, rfl⟩

theorem Roster.agrees_remove (index : Int) :
    Agrees (Roster.Alike P) (Roster.remove index : Attempt (Roster ε) ε) := by
  rintro r _ ⟨n, hn, rfl⟩
  unfold resultOn after
  rw [remove_run, remove_run, erase_setFull]
  cases herase : r.erase index with
  | error e => exact ⟨rfl, n, hn, rfl⟩
  | ok p => exact ⟨rfl, n, (labels_erase herase).2.symm ▸ hn, rfl⟩

omit [Numbered ε] in
theorem Roster.agrees_fix (hP : SizeRelation P) (size : Number) :
    Agrees (Roster.Alike P) (Roster.fix size : Attempt (Roster ε) Unit) := by
  refine (agrees_liftM _).bind fun n => agrees_modify ?_
  rintro r _ ⟨k, -, rfl⟩
  exact ⟨n, hP.refl n, rfl⟩

end Rosters

namespace Mesh

variable {α β : Type} {P : Int → Int → Prop} {m m' : Mesh α}

/-! ## Meshes that differ in fixed sizes -/

/-- The mesh with other fixed sizes of its numberings. -/
def withSizes (m : Mesh α) (vertices cells : Int) : Mesh α :=
  { m with vertices := m.vertices.setFull vertices, cells := m.cells.setFull cells }

/-- A mesh is like another one, with fixed sizes in relation to that one's. -/
def Alike (P : Int → Int → Prop) (m m' : Mesh α) : Prop :=
  ∃ a b, P m.vertices.fixed a ∧ P m.cells.fixed b ∧ m' = m.withSizes a b

theorem Alike.refl (hP : SizeRelation P) (m : Mesh α) : Alike P m m :=
  ⟨_, _, hP.refl _, hP.refl _, rfl⟩

theorem agrees_onVertices {x : Attempt (Roster (Vertex α)) β} (hx : Agrees (Roster.Alike P) x) :
    Agrees (Alike P) (onVertices x) := by
  refine hx.within ?_ ?_
  · rintro m _ ⟨a, b, ha, hb, rfl⟩
    exact ⟨a, ha, rfl⟩
  · rintro m _ r _ ⟨a, b, ha, hb, rfl⟩ ⟨n, hn, rfl⟩
    exact ⟨n, b, hn, hb, rfl⟩

theorem agrees_onCells {x : Attempt (Roster (Cell α)) β} (hx : Agrees (Roster.Alike P) x) :
    Agrees (Alike P) (onCells x) := by
  refine hx.within ?_ ?_
  · rintro m _ ⟨a, b, ha, hb, rfl⟩
    exact ⟨b, hb, rfl⟩
  · rintro m _ r _ ⟨a, b, ha, hb, rfl⟩ ⟨n, hn, rfl⟩
    exact ⟨a, n, ha, hn, rfl⟩

theorem agrees_insertVertex (x y : α) (index : Number) :
    Agrees (Alike P) (insertVertex x y index) :=
  (agrees_liftM _).bind fun _ => agrees_onVertices (Roster.agrees_insert _)

theorem agrees_insertCell (refs : List Number) (index : Number) (i j k : Int) (nativeArea : α) :
    Agrees (Alike P) (insertCell refs index i j k nativeArea) := by
  refine agrees_get_bind (fun m => ?_) ?_
  · exact (agrees_liftM _).bind fun _ => (agrees_liftM _).bind fun _ =>
      (agrees_liftM _).bind fun _ => agrees_onCells (Roster.agrees_insert _)
  · rintro m _ ⟨a, b, -, -, rfl⟩
    rfl

theorem filterCells_withSizes (m : Mesh α) (a b : Int) (test : Cell α → Except Error Bool) :
    (m.withSizes a b).filterCells test =
      ((m.filterCells test).1.withSizes (m.vertices.setFull a).full (m.cells.setFull b).full,
        (m.filterCells test).2) := by
  have hitems : (m.withSizes a b).freeze.cells.items = m.freeze.cells.items := rfl
  unfold filterCells
  simp only [hitems]
  split <;> rfl

/-- A selection fixes the sizes that are. -/
theorem fixed_filterCells (m : Mesh α) (test : Cell α → Except Error Bool) :
    (m.filterCells test).1.vertices.fixed = m.vertices.full ∧
      (m.filterCells test).1.cells.fixed = m.cells.full := by
  obtain ⟨cs, -, heq | heq⟩ := m.filterCells_cases test <;> rw [heq] <;> exact ⟨rfl, rfl⟩

theorem agrees_retain (hP : SizeRelation P) (test : Cell α → Except Error Bool) :
    Agrees (Alike P) (retain test) := by
  rintro m _ ⟨a, b, ha, hb, rfl⟩
  have hresult (m : Mesh α) : (retain test).resultOn m = (m.filterCells test).2 := by
    have hrun : (retain test).run m = (Attempt.ofExcept (m.filterCells test).2).run
        (m.filterCells test).1 := rfl
    unfold resultOn
    rw [hrun]
    cases (m.filterCells test).2 <;> rfl
  rw [hresult, hresult, after_retain, after_retain, filterCells_withSizes]
  obtain ⟨hvertices, hcells⟩ := m.fixed_filterCells test
  refine ⟨rfl, _, _, ?_, ?_, rfl⟩
  · rw [hvertices]
    exact hP.full _ _ ha
  · rw [hcells]
    exact hP.full _ _ hb

end Mesh

/-! ## Answers -/

/-- Telling something changes nothing about what a call does. -/
theorem MeshCall.after_tell (m : Mesh Float) : ∀ call : MeshCall Float,
    call.tell.after m = call.run.after m
  | insertVertex .. | insertCell .. | removeVertex _ | removeCell _ =>
    (after_bind_pure ..).trans (after_discard ..).symm
  | fixVertices _ | fixCells _ | retain _ | clear | assign _ => after_bind_pure ..

/-- What a request leaves can be reached. -/
theorem Mesh.Reachable.request {m : Mesh Float} (h : m.Reachable) :
    ∀ q : MeshRequest, (q.run.after m).Reachable
  | .change change => (change.after_tell m).symm ▸ Reachable.call h change
  | .sizes | .fieldSize | .view | .text => h
  | .declare name => after_liftM_bind (x := Ticket.define m name) h fun _ _ => h
  | .write ticket into => after_liftM_bind (x := ticket.write m into) h fun _ _ => h
  | .read .. => after_liftM_bind h fun _ hread => .ofDataset hread

/-- The mesh after many requests. -/
def MeshRequest.runAll (qs : List MeshRequest) (m : Mesh Float) : Mesh Float :=
  qs.foldl (fun m q => q.run.after m) m

/-- **What a session leaves** can be reached. -/
theorem Mesh.Reachable.session {m : Mesh Float} (h : m.Reachable) (qs : List MeshRequest) :
    (MeshRequest.runAll qs m).Reachable := by
  induction qs generalizing m with
  | nil => exact h
  | cons q qs ih => exact ih (h.request q)

/-- Later requests are answered by the mesh that the earlier ones leave. -/
theorem MeshRequest.answers_append (qs later : List MeshRequest) (m : Mesh Float) :
    answers (qs ++ later) m = answers qs m ++ answers later (runAll qs m) := by
  induction qs generalizing m with
  | nil => rfl
  | cons q qs ih => exact congrArg (q.run.resultOn m :: ·) (ih (q.run.after m))

/-- **A call tells the same** whatever sizes are fixed, and leaves the same but for them. -/
theorem MeshCall.agrees_tell {P : Int → Int → Prop} (hP : SizeRelation P) :
    ∀ call : MeshCall Float, Agrees (Mesh.Alike P) call.tell
  | insertVertex x y index => (Mesh.agrees_insertVertex x y index).bind fun _ => agrees_pure _
  | insertCell refs index i j k area =>
    (Mesh.agrees_insertCell refs index i j k area).bind fun _ => agrees_pure _
  | removeVertex index =>
    (Mesh.agrees_onVertices (Roster.agrees_remove index)).bind fun _ => agrees_pure _
  | removeCell index =>
    (Mesh.agrees_onCells (Roster.agrees_remove index)).bind fun _ => agrees_pure _
  | fixVertices size =>
    (Mesh.agrees_onVertices (Roster.agrees_fix hP size)).bind fun _ => agrees_pure _
  | fixCells size => (Mesh.agrees_onCells (Roster.agrees_fix hP size)).bind fun _ => agrees_pure _
  | retain test => (Mesh.agrees_retain hP test).bind fun _ => agrees_pure _
  | clear => by
    refine (agrees_modify ?_).bind fun _ => agrees_pure _
    rintro m _ ⟨a, b, ha, hb, rfl⟩
    exact ⟨a, b, ha, hb, rfl⟩
  | assign setting => by
    refine (agrees_modify ?_).bind fun _ => agrees_pure _
    rintro m _ ⟨a, b, ha, hb, rfl⟩
    cases setting <;> exact ⟨a, b, ha, hb, rfl⟩

section Sizes

variable {m m' : Mesh Float}

/-- What is shown of a mesh depends on fixed sizes by the sizes of the numberings only. -/
theorem Mesh.Alike.full_eq (h : Mesh.Alike SameSize m m') :
    m'.vertices.full = m.vertices.full ∧ m'.cells.full = m.cells.full := by
  obtain ⟨a, b, ha, hb, rfl⟩ := h
  exact ⟨Roster.full_eq_of_sameSize ha, Roster.full_eq_of_sameSize hb⟩

theorem Mesh.Alike.view_eq (h : Mesh.Alike SameSize m m') : m'.view = m.view := by
  obtain ⟨hvertices, hcells⟩ := h.full_eq
  obtain ⟨a, b, -, -, rfl⟩ := h
  unfold Mesh.view
  rw [hvertices, hcells]
  rfl

theorem Mesh.Alike.text_eq (h : Mesh.Alike SameSize m m') : m'.text = m.text := by
  obtain ⟨hvertices, hcells⟩ := h.full_eq
  obtain ⟨a, b, -, -, rfl⟩ := h
  unfold Mesh.text Roster.text
  rw [hvertices, hcells]
  rfl

theorem Mesh.Alike.fieldSize_eq (h : Mesh.Alike SameSize m m') : m'.fieldSize = m.fieldSize := by
  obtain ⟨hvertices, hcells⟩ := h.full_eq
  obtain ⟨a, b, -, -, rfl⟩ := h
  unfold Mesh.fieldSize
  rw [hvertices, hcells]
  rfl

theorem Mesh.Alike.define_eq (h : Mesh.Alike SameSize m m') (name : Option String) :
    Ticket.define m' name = Ticket.define m name := by
  obtain ⟨hvertices, hcells⟩ := h.full_eq
  obtain ⟨a, b, -, -, rfl⟩ := h
  have hinfo : (m.withSizes a b).storeInfo = m.storeInfo := by
    unfold Mesh.storeInfo
    rw [hvertices, hcells]
    rfl
  unfold Ticket.define
  rw [hinfo]
  rfl

/-- **A request is answered with the same** if the fixed sizes mean the same. -/
theorem MeshRequest.agrees_run : ∀ q : MeshRequest, Agrees (Mesh.Alike SameSize) q.run
  | change call => call.agrees_tell sizeRelation_sameSize
  | sizes => agrees_get_bind (fun _ => agrees_pure _) fun _ _ h => by
    obtain ⟨hvertices, hcells⟩ := h.full_eq
    rw [hvertices, hcells]
  | fieldSize => agrees_get_bind (fun _ => agrees_pure _) fun _ _ h => by rw [h.fieldSize_eq]
  | view => agrees_get_bind (fun _ => agrees_pure _) fun _ _ h => by rw [h.view_eq]
  | text => agrees_get_bind (fun _ => agrees_pure _) fun _ _ h => by rw [h.text_eq]
  | declare name =>
    agrees_get_bind (fun _ => (agrees_liftM _).bind fun _ => agrees_pure _) fun _ _ h => by
      rw [h.define_eq]
  | write ticket into =>
    agrees_get_bind (fun _ => (agrees_liftM _).bind fun _ => agrees_pure _) fun _ _ h => by
      obtain ⟨a, b, -, -, rfl⟩ := h
      rfl
  | read ds name => (agrees_liftM _).bind fun m =>
    Agrees.bind (fun _ _ _ => ⟨rfl, Mesh.Alike.refl sizeRelation_sameSize m⟩) fun _ => agrees_pure _

/-- Meshes in a relation that requests keep give the same answers. -/
theorem MeshRequest.answers_eq {R : Mesh Float → Mesh Float → Prop} : ∀ {qs : List MeshRequest},
    (∀ q ∈ qs, Agrees R q.run) → ∀ {m m' : Mesh Float}, R m m' → answers qs m = answers qs m'
  | [], _, _, _, _ => rfl
  | q :: qs, hq, m, m', h => by
    obtain ⟨hfirst, hrest⟩ := List.forall_mem_cons.mp hq
    obtain ⟨hresult, hafter⟩ := hfirst m m' h
    exact congrArg₂ List.cons hresult (answers_eq hrest hafter)

end Sizes

/-! ## Cleared meshes -/

namespace Mesh

/-- A new mesh with the settings of another one. -/
def fresh {α : Type} (m : Mesh α) : Mesh α where
  name := m.name
  kind := m.kind
  coordinates := m.coordinates
  parameterization := m.parameterization
  projection := m.projection

/-- What the entities of a mesh are called in messages. -/
structure Labelled {α : Type} (m : Mesh α) : Prop where
  vertices : m.vertices.what = "vertex"
  cells : m.cells.what = "cell"

theorem labelled_of_new {m : Mesh Float} (hvertices : m.vertices = { what := "vertex" })
    (hcells : m.cells = { what := "cell" }) : m.Labelled := by
  constructor
  · rw [hvertices]
  · rw [hcells]

theorem keptByAdding_labelled : KeptByAdding Labelled where
  vertex h hadd := by
    obtain ⟨p, hp, hm'⟩ := bind_eq_ok.mp hadd
    cases hm'
    exact ⟨(Roster.labels_add hp).1.trans h.vertices, h.cells⟩
  cell h hadd := by
    obtain ⟨_, -, hadd⟩ := bind_eq_ok.mp hadd
    obtain ⟨p, hp, hm'⟩ := bind_eq_ok.mp hadd
    cases hm'
    exact ⟨h.vertices, (Roster.labels_add hp).1.trans h.cells⟩

theorem what_after {ε : Type} [Numbered ε] (r : Roster ε) (call : RosterCall ε) :
    (call.run.after r).what = r.what := by
  rcases RosterCall.run_cases r call with ⟨e, hrun⟩ | ⟨r', event, hleaves, hrun⟩
  · rw [after_of_error hrun]
  · rw [after_of_ok hrun]
    cases hleaves with
    | insert hadd => exact (Roster.labels_add hadd).1
    | remove herase => exact (Roster.labels_erase herase).1
    | fix size n => rfl
    | clear => rfl
    | recount => rfl

theorem Labelled.leaves {m m' : Mesh Float} {call : MeshCall Float} (h : m.Labelled)
    (hleaves : MeshCall.Leaves m call m') : m'.Labelled := by
  cases hleaves with
  | failed call => exact h
  | insertVertex hadd => exact ⟨(Roster.labels_add hadd).1.trans h.vertices, h.cells⟩
  | insertCell _ hadd => exact ⟨h.vertices, (Roster.labels_add hadd).1.trans h.cells⟩
  | removeVertex _ herase => exact ⟨(Roster.labels_erase herase).1.trans h.vertices, h.cells⟩
  | removeCell _ herase => exact ⟨h.vertices, (Roster.labels_erase herase).1.trans h.cells⟩
  | fixVertices => exact ⟨h.vertices, h.cells⟩
  | fixCells => exact ⟨h.vertices, h.cells⟩
  | retain test =>
    obtain ⟨cs, -, heq | heq⟩ := m.filterCells_cases test <;> rw [heq] <;>
      exact ⟨h.vertices, h.cells⟩
  | clear => exact ⟨h.vertices, h.cells⟩
  | assign setting => cases setting <;> exact ⟨h.vertices, h.cells⟩

theorem Reachable.labelled {m : Mesh Float} (h : m.Reachable) : m.Labelled := by
  induction h with
  | new hvertices hcells => exact labelled_of_new hvertices hcells
  | rectilinear h =>
    unfold Mesh.rectilinear at h
    split at h
    · cases h
      exact ⟨rfl, rfl⟩
    · cases h
  | ofLatLon g name => exact ⟨rfl, rfl⟩
  | ofDataset h =>
    obtain ⟨m', hm', a, b, rfl⟩ := keptByAdding_labelled.ofDataset (fun _ => labelled_of_new) h
    exact ⟨hm'.vertices, hm'.cells⟩
  | call _ call ih => exact ih.leaves (MeshCall.after_leaves _ call)
  | vertexCall _ call ih =>
    rw [onVertices, Attempt.after_within]
    exact ⟨(what_after _ call).trans ih.vertices, ih.cells⟩
  | cellCall _ call ih =>
    rw [onCells, Attempt.after_within]
    exact ⟨ih.vertices, (what_after _ call).trans ih.cells⟩

/-- **Clearing** leaves a new mesh but for the sizes that were fixed. -/
theorem Labelled.clear_eq {m : Mesh Float} (h : m.Labelled) :
    m.clear = m.fresh.withSizes m.vertices.fixed m.cells.fixed := by
  unfold clear fresh withSizes Roster.clear Roster.setFull
  rw [h.vertices, h.cells]

/-- A cleared mesh is like a new one, if the sizes that stayed are like no size. -/
theorem Labelled.alike_clear {P : Int → Int → Prop} {m : Mesh Float} (h : m.Labelled)
    (hvertices : P (-1) m.vertices.fixed) (hcells : P (-1) m.cells.fixed) :
    Alike P m.fresh m.clear :=
  ⟨_, _, hvertices, hcells, h.clear_eq⟩

/-- Requests that tell whether a size is fixed: the sizes before something is added, and after. -/
def sizeProbe : List MeshRequest :=
  [.sizes, .change (.insertVertex 0 0 (.whole (-1))),
    .change (.insertCell [] (.whole (-1)) (-1) (-1) (-1) 0), .sizes]

theorem answers_sizeProbe (m : Mesh Float) (a b : Int) :
    MeshRequest.answers sizeProbe (m.fresh.withSizes a b) =
      [.ok (.sizes (if 0 ≤ a then a else 0) (if 0 ≤ b then b else 0)),
        .ok (.vertex ⟨0, 0, 0⟩), .ok (.cell ⟨[], 0, -1, -1, -1, 0⟩),
        .ok (.sizes (if 0 ≤ a then a else 1) (if 0 ≤ b then b else 1))] := rfl

/-- A size that is neither before nor after the first entity another one than without it is none. -/
theorem neg_of_sizes {n : Int} (hempty : (if 0 ≤ n then n else 0) = 0)
    (hone : (if 0 ≤ n then n else 1) = 1) : n < 0 := by
  split_ifs at hempty hone <;> omega

section Cleared

variable {m : Mesh Float} (h : m.Labelled)
include h

/-- After clearing, calls tell what they tell on a new mesh. -/
theorem Labelled.answers_changes (calls : List (MeshCall Float)) :
    MeshRequest.answers (calls.map .change) m.clear =
      MeshRequest.answers (calls.map .change) m.fresh := by
  have halike : Alike (fun _ _ => True) m.fresh m.clear := h.alike_clear trivial trivial
  refine (MeshRequest.answers_eq ?_ halike).symm
  rintro _ hq
  obtain ⟨call, -, rfl⟩ := List.mem_map.mp hq
  exact call.agrees_tell sizeRelation_any

/-- **A cleared mesh is like new** if neither size is fixed. If one is, sizes tell. -/
theorem Labelled.answers_clear_iff :
    (∀ qs : List MeshRequest, MeshRequest.answers qs m.clear = MeshRequest.answers qs m.fresh) ↔
      m.vertices.fixed < 0 ∧ m.cells.fixed < 0 := by
  have hnone : (-1 : Int) < 0 := by simp
  constructor
  · intro hsame
    have hprobe := hsame sizeProbe
    have hfresh : MeshRequest.answers sizeProbe m.fresh = _ := answers_sizeProbe m (-1) (-1)
    rw [h.clear_eq, answers_sizeProbe, hfresh] at hprobe
    simp only [if_neg hnone.not_ge, List.cons.injEq, Except.ok.injEq, MeshAnswer.sizes.injEq,
      true_and, and_true] at hprobe
    obtain ⟨⟨hvertices, hcells⟩, hvertices', hcells'⟩ := hprobe
    exact ⟨neg_of_sizes hvertices hvertices', neg_of_sizes hcells hcells'⟩
  · rintro ⟨hvertices, hcells⟩ qs
    have halike : Alike SameSize m.fresh m.clear :=
      h.alike_clear (Or.inr ⟨hnone, hvertices⟩) (Or.inr ⟨hnone, hcells⟩)
    exact (MeshRequest.answers_eq (fun q _ => q.agrees_run) halike).symm

end Cleared

/-- After a selection a cleared mesh is never like new: a selection fixes both sizes. -/
theorem Reachable.filtered_clear {m : Mesh Float} (h : m.Reachable)
    (test : Cell Float → Except Error Bool) : ∃ qs : List MeshRequest,
      MeshRequest.answers qs ((retain test).after m).clear ≠
        MeshRequest.answers qs ((retain test).after m).fresh := by
  by_contra hsame
  push Not at hsame
  have hfiltered : ((retain test).after m).Reachable := h.call (.retain test)
  have hfixed := (hfiltered.labelled.answers_clear_iff.mp hsame).2
  rw [after_retain, (m.fixed_filterCells test).2] at hfixed
  exact hfixed.not_ge h.sound.cells.full_nonneg

/-- **Cleared meshes.** After a mesh that can be reached was cleared, calls tell the same as on a
new mesh with its settings, whatever was done before. Whatever else is asked for, sizes, views, and
writing and reading back included, is answered with the same as well just if neither size is fixed.
The fixed sizes are all that stays. -/
theorem Reachable.cleared {m : Mesh Float} (h : m.Reachable) :
    (∀ calls : List (MeshCall Float), MeshRequest.answers (calls.map .change) m.clear =
      MeshRequest.answers (calls.map .change) m.fresh) ∧
    ((∀ qs : List MeshRequest, MeshRequest.answers qs m.clear = MeshRequest.answers qs m.fresh) ↔
      m.vertices.fixed < 0 ∧ m.cells.fixed < 0) ∧
    m.clear = m.fresh.withSizes m.vertices.fixed m.cells.fixed :=
  ⟨h.labelled.answers_changes, h.labelled.answers_clear_iff, h.labelled.clear_eq⟩

/-- **Clearing in a session**: whatever was asked for before, calls tell from then on what they tell
on a new mesh. -/
theorem Reachable.answers_session {m : Mesh Float} (h : m.Reachable) (before : List MeshRequest)
    (calls : List (MeshCall Float)) :
    MeshRequest.answers (before ++ .change .clear :: calls.map .change) m =
      MeshRequest.answers before m ++ .ok .done ::
        MeshRequest.answers (calls.map .change) (MeshRequest.runAll before m).fresh := by
  rw [MeshRequest.answers_append, ← (h.session before).labelled.answers_changes calls]
  rfl

/-- A size that was fixed and lifted again does not stay, though what stands for none is not what
stands for it in a new mesh. -/
theorem cleared_lifted : ∃ m : Mesh Float,
    m = MeshCall.runAll [.insertVertex 0 0 (.whole 4), .fixCells (.whole 7),
      .fixCells (.whole (-3))] {} ∧ m.cells.fixed = -3 ∧
    ∀ qs : List MeshRequest, MeshRequest.answers qs m.clear = MeshRequest.answers qs m.fresh := by
  have hreachable : (MeshCall.runAll [.insertVertex 0 0 (.whole 4), .fixCells (.whole 7),
      .fixCells (.whole (-3))] ({} : Mesh Float)).Reachable := (Reachable.new rfl rfl).runAll _
  refine ⟨_, rfl, rfl, hreachable.cleared.2.1.mpr ⟨?_, ?_⟩⟩
  · show (-1 : Int) < 0
    simp
  · show (-3 : Int) < 0
    simp

/-- **A fixed size stays** when the mesh is cleared. -/
theorem cleared_fixed : ∃ m : Mesh Float, m.Reachable ∧
    m = (MeshCall.fixCells (.whole 5)).run.after {} ∧
    MeshRequest.answers [.sizes] m.clear = [.ok (.sizes 0 5)] ∧
    MeshRequest.answers [.sizes] m.fresh = [.ok (.sizes 0 0)] :=
  ⟨_, (Reachable.new rfl rfl).call _, rfl, rfl, rfl⟩

end Mesh

end Regrid
