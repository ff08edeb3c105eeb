import Regrid.Proofs.Exact
import Regrid.Keyed

/-!
# Keys that occur once

`lastValues` makes a list of pairs one in which every key occurs once (`keyed_lastValues`), with
values that it had there (`mem_lastValues`), whether they are changed before or after
(`lastValues_map`), and leaves such a list as it is (`lastValues_eq_self`). Pairs with new keys are
appended (`assignKeys_eq_append`), and pairs that are there already change nothing
(`assignKeys_eq_self`). Where keys occur once, a key has one value (`find?_key`, `valueAt?_of_mem`)
and a sum over the pairs of a key has one term (`sum_map_key`).
-/

namespace Regrid

variable {κ β : Type} [DecidableEq κ]

/-- No key occurs twice. -/
def Keyed (pairs : List (κ × β)) : Prop := (pairs.map Prod.fst).Nodup

theorem map_fst_assignKey (key : κ) (value : β) : ∀ pairs : List (κ × β),
    (assignKey key value pairs).map Prod.fst =
      if key ∈ pairs.map Prod.fst then pairs.map Prod.fst else pairs.map Prod.fst ++ [key]
  | [] => rfl
  | (k, v) :: rest => by
    unfold assignKey
    by_cases hk : k = key
    · subst hk
      have hmem : k ∈ ((k, v) :: rest).map Prod.fst := List.mem_cons_self
      rw [if_pos rfl, if_pos hmem]
      rfl
    · have hmem : key ∈ ((k, v) :: rest).map Prod.fst ↔ key ∈ rest.map Prod.fst := by
        rw [List.map_cons, List.mem_cons, or_iff_right fun h => hk h.symm]
      rw [if_neg hk, List.map_cons, map_fst_assignKey key value rest, if_congr hmem rfl rfl]
      split_ifs <;> rfl

theorem Keyed.assignKey {pairs : List (κ × β)} (h : Keyed pairs) (key : κ) (value : β) :
    Keyed (assignKey key value pairs) := by
  unfold Keyed at h ⊢
  rw [map_fst_assignKey]
  split_ifs with hmem
  · exact h
  · exact List.nodup_append_comm.mp (List.nodup_cons.mpr ⟨hmem, h⟩)

theorem assignKey_eq_append {key : κ} (value : β) : ∀ {pairs : List (κ × β)},
    key ∉ pairs.map Prod.fst → Regrid.assignKey key value pairs = pairs ++ [(key, value)]
  | [], _ => rfl
  | (k, v) :: rest, h => by
    rw [List.map_cons, List.mem_cons, not_or] at h
    rw [Regrid.assignKey, if_neg fun hk => h.1 hk.symm, assignKey_eq_append value h.2]
    rfl

/-- **Every key once.** -/
theorem keyed_lastValues (pairs : List (κ × β)) : Keyed (lastValues pairs) := by
  have hfold : ∀ (pairs acc : List (κ × β)), Keyed acc →
      Keyed (pairs.foldl (fun acc p => assignKey p.1 p.2 acc) acc) := by
    intro pairs
    induction pairs with
    | nil => exact fun _ h => h
    | cons p pairs ih => exact fun acc h => ih _ (h.assignKey p.1 p.2)
  exact hfold pairs [] List.nodup_nil

theorem mem_assignKey {key : κ} {value : β} {t : κ × β} : ∀ {pairs : List (κ × β)},
    t ∈ Regrid.assignKey key value pairs → t = (key, value) ∨ t ∈ pairs
  | [], h => Or.inl (List.mem_singleton.mp h)
  | (k, v) :: rest, h => by
    unfold Regrid.assignKey at h
    split_ifs at h with hk
    · rcases List.mem_cons.mp h with rfl | h
      · exact Or.inl (by rw [hk])
      · exact Or.inr (List.mem_cons_of_mem _ h)
    · rcases List.mem_cons.mp h with rfl | h
      · exact Or.inr List.mem_cons_self
      · exact (mem_assignKey h).imp_right (List.mem_cons_of_mem _)

/-- Every value was given. -/
theorem mem_lastValues {pairs : List (κ × β)} {t : κ × β} (h : t ∈ lastValues pairs) :
    t ∈ pairs := by
  have hfold : ∀ (pairs acc : List (κ × β)),
      t ∈ pairs.foldl (fun acc p => Regrid.assignKey p.1 p.2 acc) acc → t ∈ acc ∨ t ∈ pairs := by
    intro pairs
    induction pairs with
    | nil => exact fun _ h => Or.inl h
    | cons p pairs ih =>
      intro acc h
      rcases ih _ h with h | h
      · rcases mem_assignKey h with rfl | h
        · exact Or.inr List.mem_cons_self
        · exact Or.inl h
      · exact Or.inr (List.mem_cons_of_mem p h)
  exact (hfold pairs [] h).resolve_left List.not_mem_nil

/-- Values under new keys go to the end. -/
theorem assignKeys_eq_append : ∀ {new pairs : List (κ × β)}, Keyed (pairs ++ new) →
    assignKeys new pairs = pairs ++ new
  | [], pairs, _ => (List.append_nil pairs).symm
  | p :: new, pairs, h => by
    have hp : p.1 ∉ pairs.map Prod.fst := by
      unfold Keyed at h
      rw [List.map_append, List.map_cons, List.nodup_append] at h
      exact fun hmem => h.2.2 _ hmem _ List.mem_cons_self rfl
    have hrest : assignKeys new (pairs ++ [p]) = pairs ++ [p] ++ new :=
      assignKeys_eq_append (by simpa using h)
    rw [List.append_assoc, List.singleton_append, ← assignKey_eq_append p.2 hp] at hrest
    exact hrest

/-- A value that a key has already changes nothing. -/
theorem assignKey_eq_self {key : κ} {value : β} : ∀ {pairs : List (κ × β)}, Keyed pairs →
    (key, value) ∈ pairs → Regrid.assignKey key value pairs = pairs
  | p :: pairs, h, hmem => by
    obtain ⟨hp, h⟩ := List.nodup_cons.mp h
    rcases List.mem_cons.mp hmem with rfl | hmem
    · exact if_pos rfl
    · have hne : p.1 ≠ key := fun he => hp (he ▸ List.mem_map_of_mem (f := Prod.fst) hmem)
      rw [Regrid.assignKey, if_neg hne, assignKey_eq_self h hmem]

/-- Nor do many. -/
theorem assignKeys_eq_self {pairs : List (κ × β)} (h : Keyed pairs) :
    ∀ {new : List (κ × β)}, (∀ p ∈ new, p ∈ pairs) → assignKeys new pairs = pairs
  | [], _ => rfl
  | p :: new, hnew => by
    have hp : Regrid.assignKey p.1 p.2 pairs = pairs :=
      assignKey_eq_self h (hnew p List.mem_cons_self)
    show assignKeys new (Regrid.assignKey p.1 p.2 pairs) = pairs
    rw [hp]
    exact assignKeys_eq_self h fun q hq => hnew q (List.mem_cons_of_mem p hq)

/-- A list in which every key occurs once stays as it is. -/
theorem lastValues_eq_self {pairs : List (κ × β)} (h : Keyed pairs) : lastValues pairs = pairs :=
  (assignKeys_eq_append h : assignKeys pairs [] = [] ++ pairs)

/-- Values can be changed before or after. -/
theorem lastValues_map {γ : Type} (f : β → γ) (pairs : List (κ × β)) :
    lastValues (pairs.map fun t => (t.1, f t.2)) =
      (lastValues pairs).map fun t => (t.1, f t.2) := by
  have hassign : ∀ (key : κ) (value : β) (acc : List (κ × β)),
      Regrid.assignKey key (f value) (acc.map fun t => (t.1, f t.2)) =
        (Regrid.assignKey key value acc).map fun t => (t.1, f t.2) := by
    intro key value acc
    induction acc with
    | nil => rfl
    | cons t acc ih =>
      rw [List.map_cons, Regrid.assignKey, Regrid.assignKey]
      split_ifs
      · rfl
      · rw [ih, List.map_cons]
  have hfold : ∀ pairs acc : List (κ × β),
      (pairs.map fun t => (t.1, f t.2)).foldl (fun acc t => Regrid.assignKey t.1 t.2 acc)
          (acc.map fun t => (t.1, f t.2)) =
        (pairs.foldl (fun acc t => Regrid.assignKey t.1 t.2 acc) acc).map
          fun t => (t.1, f t.2) := by
    intro pairs
    induction pairs with
    | nil => exact fun _ => rfl
    | cons t pairs ih =>
      intro acc
      rw [List.map_cons, List.foldl_cons, List.foldl_cons, hassign, ih]
  exact hfold pairs []

/-! ## Looking up -/

/-- Where no two elements have the same key, an element is found by its own. -/
theorem find?_of_nodup {α : Type} (key : α → κ) {xs : List α} (h : (xs.map key).Nodup) {x : α}
    (hmem : x ∈ xs) : (xs.find? fun y => key y == key x) = some x := by
  induction xs with
  | nil => cases hmem
  | cons y xs ih =>
    obtain ⟨hy, h⟩ := List.nodup_cons.mp h
    rw [List.find?_cons]
    rcases List.mem_cons.mp hmem with rfl | hmem
    · simp
    · have hne : key y ≠ key x := fun he => hy (he ▸ List.mem_map_of_mem hmem)
      rw [beq_eq_false_iff_ne.mpr hne]
      exact ih h hmem

/-- The value of a key is the one it stands with. -/
theorem find?_key {pairs : List (κ × β)} (h : Keyed pairs) {key : κ} {value : β}
    (hmem : (key, value) ∈ pairs) :
    (pairs.find? fun p => p.1 == key) = some (key, value) :=
  find?_of_nodup Prod.fst h hmem

theorem valueAt?_of_mem {pairs : List (κ × β)} (h : Keyed pairs) {key : κ} {value : β}
    (hmem : (key, value) ∈ pairs) : valueAt? key pairs = some value :=
  congrArg (Option.map Prod.snd) (find?_key h hmem)

/-- Where keys occur once, a key has one value. -/
theorem Keyed.value_unique {pairs : List (κ × β)} (h : Keyed pairs) {key : κ} {v w : β}
    (hv : (key, v) ∈ pairs) (hw : (key, w) ∈ pairs) : v = w :=
  Option.some.inj ((valueAt?_of_mem h hv).symm.trans (valueAt?_of_mem h hw))

theorem valueAt?_cons (k : κ) (p : κ × β) (pairs : List (κ × β)) :
    valueAt? k (p :: pairs) = if p.1 = k then some p.2 else valueAt? k pairs := by
  unfold valueAt?
  by_cases hk : p.1 = k <;> simp [hk]

theorem valueAt?_eq_none {key : κ} {pairs : List (κ × β)} (h : key ∉ pairs.map Prod.fst) :
    valueAt? key pairs = none := by
  unfold valueAt?
  rw [Option.map_eq_none_iff, List.find?_eq_none]
  exact fun p hp hk => h (List.mem_map.mpr ⟨p, hp, by simpa using hk⟩)

theorem valueAt?_assignKey (k key : κ) (value : β) : ∀ pairs : List (κ × β),
    valueAt? k (Regrid.assignKey key value pairs) = if key = k then some value else valueAt? k pairs
  | [] => valueAt?_cons k (key, value) []
  | (k', v) :: rest => by
    rw [Regrid.assignKey]
    split
    · rename_i hk
      subst hk
      rw [valueAt?_cons, valueAt?_cons]
      split_ifs <;> rfl
    · rename_i hk
      rw [valueAt?_cons, valueAt?_assignKey k key value rest, valueAt?_cons]
      split_ifs with h1 h2
      · exact absurd (h1.trans h2.symm) hk
      all_goals rfl

/-- If all new pairs of a key have one value, that is its value in the end. -/
theorem valueAt?_assignKeys {key : κ} {value : β} : ∀ {new pairs : List (κ × β)},
    (∀ v, (key, v) ∈ new → v = value) →
    (key, value) ∈ new ∨ valueAt? key pairs = some value →
    valueAt? key (assignKeys new pairs) = some value
  | [], _, _, h => h.resolve_left List.not_mem_nil
  | p :: new, pairs, hall, h => by
    show valueAt? key (assignKeys new (Regrid.assignKey p.1 p.2 pairs)) = some value
    refine valueAt?_assignKeys (fun v hv => hall v (List.mem_cons_of_mem p hv)) ?_
    by_cases hp : p.1 = key
    · obtain rfl := hall p.2 (hp ▸ List.mem_cons_self)
      exact Or.inr (by rw [valueAt?_assignKey, if_pos hp])
    · refine h.imp (fun h => ?_) fun h => by rw [valueAt?_assignKey, if_neg hp, h]
      rcases List.mem_cons.mp h with rfl | h
      · exact absurd rfl hp
      · exact h

theorem valueAt?_lastValues {pairs : List (κ × β)} {key : κ} {value : β}
    (hmem : (key, value) ∈ pairs) (hall : ∀ v, (key, v) ∈ pairs → v = value) :
    valueAt? key (lastValues pairs) = some value :=
  valueAt?_assignKeys hall (Or.inl hmem)

/-- A sum over the pairs with a key has one term. -/
theorem sum_map_key {pairs : List (κ × β)} (h : Keyed pairs) {key : κ} {value : β}
    (hmem : (key, value) ∈ pairs) (f : κ × β → Rat) :
    (pairs.map fun p => if p.1 = key then f p else 0).sum = f (key, value) := by
  induction pairs with
  | nil => cases hmem
  | cons p pairs ih =>
    obtain ⟨hp, h⟩ := List.nodup_cons.mp h
    rw [List.map_cons, List.sum_cons]
    rcases List.mem_cons.mp hmem with rfl | hmem
    · have hzero : (pairs.map fun p => if p.1 = key then f p else 0).sum = 0 := by
        refine List.sum_eq_zero fun v hv => ?_
        obtain ⟨q, hq, rfl⟩ := List.mem_map.mp hv
        have hne : q.1 ≠ key := by
          rintro rfl
          exact hp (List.mem_map.mpr ⟨q, hq, rfl⟩)
        exact if_neg hne
      rw [if_pos rfl, hzero, add_zero]
    · have hne : p.1 ≠ key := fun he => hp (he ▸ List.mem_map_of_mem (f := Prod.fst) hmem)
      rw [if_neg hne, zero_add, ih h hmem]

end Regrid
