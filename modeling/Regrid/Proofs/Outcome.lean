import Regrid.Finite

/-!
# Steps that can fail

Chains of steps of which each can fail. If every step has a result, the chain has the results
(`mapM_ok`, `forM_ok`), and no chain has others (`mapM_eq_ok`); if a step has none, the chain ends
as one of these does (`forM_cases`), and that is the first of them (`mapM_eq_find?`, `forM_error`).
A check for finite values passes if all values are finite (`checkFinite_ok`).
-/

namespace Regrid

variable {ε α β : Type}

theorem bind_ok (a : α) (f : α → Except ε β) : (Except.ok a >>= f) = f a := rfl

theorem error_ne_ok {e : ε} {a : α} : Except.error e ≠ .ok a := nofun

theorem ok_eq_ok {a b : α} : Except.ok (ε := ε) a = .ok b ↔ some a = some b :=
  ⟨fun h => congrArg some (Except.ok.inj h), fun h => congrArg Except.ok (Option.some.inj h)⟩

theorem bind_of_ok {x : Except ε α} {a : α} (h : x = .ok a) (f : α → Except ε β) :
    (x >>= f) = f a := by
  rw [h, bind_ok]

theorem bind_eq_ok {x : Except ε α} {f : α → Except ε β} {b : β} :
    (x >>= f) = .ok b ↔ ∃ a, x = .ok a ∧ f a = .ok b := by
  cases x <;> simp [bind, Except.bind]

theorem map_eq_ok {x : Except ε α} {f : α → β} {b : β} :
    x.map f = .ok b ↔ ∃ a, x = .ok a ∧ f a = b := by
  cases x <;> simp [Except.map]

/-- A result can be told without the failures. -/
theorem eq_ok_of_toOption : ∀ {x : Except ε α} {a : α}, x.toOption = some a → x = .ok a
  | .ok _, _, h => congrArg Except.ok (Option.some.inj h)

theorem bind_eq_error {x : Except ε α} {f : α → Except ε β} {e : ε} :
    (x >>= f) = .error e ↔ x = .error e ∨ ∃ a, x = .ok a ∧ f a = .error e := by
  cases x <;> simp [bind, Except.bind]

theorem mapM_ok {f : α → Except ε β} {g : α → β} :
    ∀ {xs : List α}, (∀ x ∈ xs, f x = .ok (g x)) → xs.mapM f = .ok (xs.map g)
  | [], _ => rfl
  | x :: xs, h => by
    rw [List.mapM_cons, h x List.mem_cons_self, bind_ok,
      mapM_ok fun y hy => h y (List.mem_cons_of_mem x hy)]
    rfl

theorem mapM_some {f : α → Option β} {g : α → β} :
    ∀ {xs : List α}, (∀ x ∈ xs, f x = some (g x)) → xs.mapM f = some (xs.map g)
  | [], _ => rfl
  | x :: xs, h => by
    rw [List.mapM_cons, h x List.mem_cons_self, Option.bind_eq_bind, Option.bind_some,
      mapM_some fun y hy => h y (List.mem_cons_of_mem x hy)]
    rfl

theorem exists_mapM {f : α → Except ε β} {xs : List α} (h : ∀ x ∈ xs, ∃ y, f x = .ok y) :
    ∃ ys, xs.mapM f = .ok ys := by
  induction xs with
  | nil => exact ⟨[], rfl⟩
  | cons x xs ih =>
    obtain ⟨y, hy⟩ := h x List.mem_cons_self
    obtain ⟨ys, hys⟩ := ih fun x' hx' => h x' (List.mem_cons_of_mem x hx')
    refine ⟨y :: ys, ?_⟩
    rw [List.mapM_cons, hy, bind_ok, hys]
    rfl

theorem mapM_cons_eq_ok {f : α → Except ε β} {x : α} {xs : List α} {ys : List β} :
    (x :: xs).mapM f = .ok ys ↔ ∃ z zs, f x = .ok z ∧ xs.mapM f = .ok zs ∧ z :: zs = ys := by
  rw [List.mapM_cons, bind_eq_ok]
  refine exists_congr fun z => ?_
  constructor
  · rintro ⟨hz, h⟩
    obtain ⟨zs, hzs, h⟩ := bind_eq_ok.mp h
    exact ⟨zs, hz, hzs, Except.ok.inj h⟩
  · rintro ⟨zs, hz, hzs, rfl⟩
    exact ⟨hz, bind_of_ok hzs _⟩

/-- A chain that has results has one for every step, and no others. -/
theorem mapM_eq_ok {f : α → Except ε β} : ∀ {xs : List α} {ys : List β}, xs.mapM f = .ok ys →
    (∀ x ∈ xs, ∃ y, f x = .ok y) ∧ ∀ y, y ∈ ys ↔ ∃ x ∈ xs, f x = .ok y
  | [], _, h => by
    cases h
    simp
  | x :: xs, _, h => by
    obtain ⟨z, zs, hz, hzs, rfl⟩ := mapM_cons_eq_ok.mp h
    obtain ⟨hall, hmem⟩ := mapM_eq_ok hzs
    refine ⟨List.forall_mem_cons.mpr ⟨⟨z, hz⟩, hall⟩, fun y => ?_⟩
    rw [List.mem_cons, hmem y]
    constructor
    · rintro (rfl | ⟨x', hx', hy⟩)
      · exact ⟨x, List.mem_cons_self, hz⟩
      · exact ⟨x', List.mem_cons_of_mem x hx', hy⟩
    · rintro ⟨x', hx', hy⟩
      rcases List.mem_cons.mp hx' with rfl | hx'
      · exact Or.inl (Except.ok.inj (hy.symm.trans hz))
      · exact Or.inr ⟨x', hx', hy⟩

/-- A chain ends at its first step without a result, or has the results of all of them. -/
theorem mapM_eq_find? {f : α → Except ε β} {bad : α → Bool} {g : α → β} {e : α → ε} :
    ∀ {xs : List α}, (∀ x ∈ xs, f x = if bad x then .error (e x) else .ok (g x)) →
    xs.mapM f = (xs.find? bad).elim (.ok (xs.map g)) fun x => .error (e x)
  | [], _ => rfl
  | x :: xs, h => by
    rw [List.mapM_cons, h x List.mem_cons_self, List.find?_cons]
    cases bad x with
    | true => rfl
    | false =>
      have hrest := mapM_eq_find? fun y hy => h y (List.mem_cons_of_mem x hy)
      rw [if_neg Bool.false_ne_true, bind_ok, hrest]
      cases xs.find? bad <;> rfl

/-- A chain has the results of another whose steps have them. -/
theorem mapM_eq_ok_of_step {ε' κ γ : Type} {f : α → Except ε β} {key : α → κ} {g : κ → Except ε' γ}
    {content : γ → β} : ∀ {xs : List α}, (∀ x ∈ xs, ∀ y, f x = .ok y ↔
      ∃ t, g (key x) = .ok t ∧ content t = y) →
    ∀ {ys : List β}, xs.mapM f = .ok ys ↔ ∃ ts, (xs.map key).mapM g = .ok ts ∧ ts.map content = ys
  | [], _, ys => by
    constructor
    · rintro ⟨⟩
      exact ⟨[], rfl, rfl⟩
    · rintro ⟨ts, ⟨⟩, rfl⟩
      rfl
  | x :: xs, h, ys => by
    have hx := h x List.mem_cons_self
    have hrest := fun x' hx' => h x' (List.mem_cons_of_mem x hx')
    rw [List.map_cons, mapM_cons_eq_ok]
    constructor
    · rintro ⟨z, zs, hz, hzs, rfl⟩
      obtain ⟨t, ht, rfl⟩ := (hx z).mp hz
      obtain ⟨ts, hts, rfl⟩ := (mapM_eq_ok_of_step hrest).mp hzs
      exact ⟨t :: ts, mapM_cons_eq_ok.mpr ⟨t, ts, ht, hts, rfl⟩, rfl⟩
    · rintro ⟨_, hall, rfl⟩
      obtain ⟨t, ts, ht, hts, rfl⟩ := mapM_cons_eq_ok.mp hall
      exact ⟨_, _, (hx _).mpr ⟨t, ht, rfl⟩, (mapM_eq_ok_of_step hrest).mpr ⟨ts, hts, rfl⟩, rfl⟩

/-- Steps that add nothing to what the others give may be left out. -/
theorem mapM_flatten_filter {f : α → Except ε (List β)} {keep : α → Bool} :
    ∀ {xs : List α}, (∀ x ∈ xs, keep x = false → f x = .ok []) →
    (xs.mapM f).map List.flatten = ((xs.filter keep).mapM f).map List.flatten
  | [], _ => rfl
  | x :: xs, h => by
    have hrest := mapM_flatten_filter fun x' hx' => h x' (List.mem_cons_of_mem x hx')
    have hcons (ys : List α) : ((x :: ys).mapM f).map List.flatten =
        f x >>= fun z => ((ys.mapM f).map List.flatten).map fun zs => z ++ zs := by
      rw [List.mapM_cons]
      cases f x <;> cases ys.mapM f <;> rfl
    rw [hcons, hrest]
    cases hx : keep x with
    | true => rw [List.filter_cons_of_pos hx, hcons]
    | false =>
      rw [List.filter_cons_of_neg (by simp [hx]), h x List.mem_cons_self hx, bind_ok]
      cases (xs.filter keep).mapM f <;> rfl

/-- The results of a list that is given by another. -/
theorem mapM_map_ok {γ : Type} {f : α → Except ε β} {h : γ → α} {g : γ → β} {xs : List γ}
    (hf : ∀ x ∈ xs, f (h x) = .ok (g x)) : (xs.map h).mapM f = .ok (xs.map g) := by
  rw [List.mapM_map]
  exact mapM_ok hf

theorem forM_ok {f : α → Except ε PUnit} :
    ∀ {xs : List α}, (∀ x ∈ xs, f x = .ok ()) → xs.forM f = .ok ()
  | [], _ => rfl
  | x :: xs, h => by
    show (f x >>= fun _ => xs.forM f) = .ok ()
    rw [h x List.mem_cons_self, bind_ok]
    exact forM_ok fun y hy => h y (List.mem_cons_of_mem x hy)

/-- A chain of checks ends at the first that does not pass. -/
theorem forM_error {f : α → Except ε PUnit} {x : α} {e : ε} (hx : f x = .error e)
    (after : List α) : ∀ {before : List α}, (∀ y ∈ before, f y = .ok ()) →
    (before ++ x :: after).forM f = .error e
  | [], _ => by
    show (f x >>= fun _ => after.forM f) = .error e
    rw [hx]
    rfl
  | y :: before, h => by
    show (f y >>= fun _ => (before ++ x :: after).forM f) = .error e
    rw [h y List.mem_cons_self, bind_ok]
    exact forM_error hx after fun z hz => h z (List.mem_cons_of_mem y hz)

/-- A chain of checks passes if all of them do, or ends as one of them does. -/
theorem forM_cases (f : α → Except ε PUnit) : ∀ xs : List α,
    (xs.forM f = .ok () ∧ ∀ x ∈ xs, f x = .ok ()) ∨
      ∃ x ∈ xs, ∃ e, f x = .error e ∧ xs.forM f = .error e
  | [] => Or.inl ⟨rfl, fun _ h => absurd h List.not_mem_nil⟩
  | x :: xs => by
    have hcons : (x :: xs).forM f = (f x >>= fun _ => xs.forM f) := rfl
    cases hx : f x with
    | error e => exact Or.inr ⟨x, List.mem_cons_self, e, hx, by rw [hcons, hx]; rfl⟩
    | ok u =>
      rw [hcons, hx, bind_ok]
      rcases forM_cases f xs with ⟨hxs, hall⟩ | ⟨y, hy, e, he, hxs⟩
      · exact Or.inl ⟨hxs, List.forall_mem_cons.mpr ⟨hx, hall⟩⟩
      · exact Or.inr ⟨y, List.mem_cons_of_mem x hy, e, he, hxs⟩

/-- What every step of a fold preserves holds of its result. -/
theorem foldlM_invariant {σ : Type} {f : σ → α → Except ε σ} {P : σ → Prop}
    (hstep : ∀ s x s', P s → f s x = .ok s' → P s') :
    ∀ {xs : List α} {s s' : σ}, P s → xs.foldlM f s = .ok s' → P s'
  | [], s, s', hs, h => by
    cases h
    exact hs
  | x :: xs, s, s', hs, h => by
    rw [List.foldlM_cons] at h
    obtain ⟨s₁, hx, hrest⟩ := bind_eq_ok.mp h
    exact foldlM_invariant hstep (hstep s x s₁ hs hx) hrest

theorem checkFinite_ok [Scalar α] {xs : Array α}
    (h : ∀ x ∈ xs.toList, Scalar.isFinite x = true) (name : String) (place : Nat → Option Datum) :
    checkFinite name xs place = .ok () := by
  have hnone : nonFinitePlaces xs = [] := List.filterMap_eq_nil_iff.mpr fun t ht =>
    if_pos (h t.1 (List.fst_mem_of_mem_zipIdx ht))
  rw [checkFinite, hnone]

end Regrid
