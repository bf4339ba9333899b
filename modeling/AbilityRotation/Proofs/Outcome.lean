import Mathlib.Tactic

/-!
Outcomes of steps that may fail.

What has been computed in steps, each of which may fail, is known to have succeeded in all of them,
and has failed in the first one that did not succeed.
* `map_eq_ok_iff`, `toOption_eq_some_iff`, `bind_eq_ok_iff`, `exists_bind_eq_ok_iff` and
  `bind_eq_error_iff` take an outcome apart.
* `mapM_eq_ok_iff`, `exists_of_mem_mapM`, `exists_mem_of_mapM` and `exists_mapM_eq_ok_iff`: a step
  for each member of a list; `mapM_eq_error_iff` finds the first that fails.
-/

namespace AbilityRotation

variable {ε α β : Type} {x : Except ε α}

/-- What is made of an outcome is a success exactly if the outcome is. -/
lemma map_eq_ok_iff {f : α → β} {b : β} : x.map f = .ok b ↔ ∃ a, x = .ok a ∧ f a = b := by
  cases x with
  | error e => simp [Except.map]
  | ok a => simp [Except.map]

/-- What an outcome leaves is what a success has given. -/
lemma toOption_eq_some_iff {a : α} : x.toOption = some a ↔ x = .ok a := by
  cases x with
  | error e => simp [Except.toOption]
  | ok b => simp [Except.toOption]

/-- What is made of an outcome fails exactly if the outcome does. -/
lemma map_eq_error_iff {f : α → β} {e : ε} : x.map f = .error e ↔ x = .error e := by
  cases x with
  | error d => simp [Except.map]
  | ok a => simp [Except.map]

/-- What is made of outcomes by an injective map tells them apart. -/
lemma map_injective {f : α → β} (hf : Function.Injective f) :
    Function.Injective (Except.map f : Except ε α → Except ε β) := by
  intro x y h
  cases x with
  | error e => exact (map_eq_error_iff.mp h.symm).symm
  | ok a =>
      obtain ⟨b, rfl, hab⟩ := map_eq_ok_iff.mp h.symm
      rw [hf hab]

/-- Two steps succeed exactly if each of them does. -/
lemma bind_eq_ok_iff {f : α → Except ε β} {b : β} :
    (x >>= f) = .ok b ↔ ∃ a, x = .ok a ∧ f a = .ok b := by
  cases x with
  | error e => simp [bind, Except.bind]
  | ok a => simp [bind, Except.bind]

/-- Two steps succeed at all exactly if the second does after a success of the first. -/
lemma exists_bind_eq_ok_iff {f : α → Except ε β} :
    (∃ b, (x >>= f) = .ok b) ↔ ∃ a, x = .ok a ∧ ∃ b, f a = .ok b := by
  simp only [bind_eq_ok_iff]
  constructor
  · rintro ⟨b, a, ha, hb⟩
    exact ⟨a, ha, b, hb⟩
  · rintro ⟨a, ha, b, hb⟩
    exact ⟨b, a, ha, hb⟩

/-- Two steps fail exactly if one of them does, the second after a success of the first. -/
lemma bind_eq_error_iff {f : α → Except ε β} {e : ε} :
    (x >>= f) = .error e ↔ x = .error e ∨ ∃ a, x = .ok a ∧ f a = .error e := by
  cases x with
  | error e => simp [bind, Except.bind]
  | ok a => simp [bind, Except.bind]

variable {f : α → Except ε β}

/-- A step for each member of a list gives a list of what the single steps give. -/
lemma mapM_eq_ok_iff {xs : List α} {ys : List β} :
    xs.mapM f = .ok ys ↔ List.Forall₂ (fun x y => f x = .ok y) xs ys := by
  induction xs generalizing ys with
  | nil =>
      rw [List.mapM_nil, List.forall₂_nil_left_iff]
      exact ⟨fun h => (Except.ok.inj h).symm, fun h => congrArg Except.ok h.symm⟩
  | cons x xs ih =>
      rw [List.mapM_cons, bind_eq_ok_iff, List.forall₂_cons_left_iff]
      refine exists_congr fun y => ?_
      rw [bind_eq_ok_iff]
      constructor
      · rintro ⟨hy, zs, hzs, ⟨⟩⟩
        exact ⟨zs, hy, ih.mp hzs, rfl⟩
      · rintro ⟨zs, hy, hzs, rfl⟩
        exact ⟨hy, zs, ih.mpr hzs, rfl⟩

/-- Each member of the second of two related lists is related to a member of the first. -/
lemma exists_of_mem_forall₂ {R : α → β → Prop} {xs : List α} {ys : List β} {y : β}
    (h : List.Forall₂ R xs ys) (hy : y ∈ ys) : ∃ x ∈ xs, R x y := by
  induction h with
  | nil => cases hy
  | @cons x y' xs ys hx _ ih =>
      rcases List.mem_cons.mp hy with rfl | hy
      · exact ⟨x, List.mem_cons_self, hx⟩
      · obtain ⟨x', hx', hR⟩ := ih hy
        exact ⟨x', List.mem_cons_of_mem x hx', hR⟩

/-- What steps for the members of a list give comes from one of the steps. -/
lemma exists_of_mem_mapM {xs : List α} {ys : List β} {y : β} (h : xs.mapM f = .ok ys)
    (hy : y ∈ ys) : ∃ x ∈ xs, f x = .ok y :=
  exists_of_mem_forall₂ (R := fun x y => f x = .ok y) (mapM_eq_ok_iff.mp h) hy

/-- Each of the steps for the members of a list has given something. -/
lemma exists_mem_of_mapM {xs : List α} {ys : List β} {x : α} (h : xs.mapM f = .ok ys)
    (hx : x ∈ xs) : ∃ y ∈ ys, f x = .ok y :=
  exists_of_mem_forall₂ (R := fun y x => f x = .ok y) (mapM_eq_ok_iff.mp h).flip hx

/-- A step for each member of a list succeeds exactly if it does for every one. -/
lemma exists_mapM_eq_ok_iff {xs : List α} :
    (∃ ys, xs.mapM f = .ok ys) ↔ ∀ x ∈ xs, ∃ y, f x = .ok y := by
  simp only [mapM_eq_ok_iff]
  induction xs with
  | nil => simp
  | cons x xs ih =>
      rw [List.forall_mem_cons, ← ih]
      constructor
      · rintro ⟨_, hys⟩
        obtain ⟨y, ys, hy, hrest, -⟩ := List.forall₂_cons_left_iff.mp hys
        exact ⟨⟨y, hy⟩, ys, hrest⟩
      · rintro ⟨⟨y, hy⟩, ys, hys⟩
        exact ⟨y :: ys, .cons hy hys⟩

/-- Steps for the members of a list fail as the first one does that does not succeed. -/
lemma mapM_eq_error_iff {xs : List α} {e : ε} :
    xs.mapM f = .error e ↔ ∃ before x after, xs = before ++ x :: after ∧
      (∀ y ∈ before, ∃ z, f y = .ok z) ∧ f x = .error e := by
  induction xs with
  | nil => simp [pure, Except.pure]
  | cons x xs ih =>
      rw [List.mapM_cons, bind_eq_error_iff]
      constructor
      · rintro (hx | ⟨y, hy, h⟩)
        · exact ⟨[], x, xs, rfl, by simp, hx⟩
        · rcases bind_eq_error_iff.mp h with hrest | ⟨ys, -, hpure⟩
          · obtain ⟨before, x', after, rfl, hbefore, hx'⟩ := ih.mp hrest
            refine ⟨x :: before, x', after, rfl, ?_, hx'⟩
            rw [List.forall_mem_cons]
            exact ⟨⟨y, hy⟩, hbefore⟩
          · cases hpure
      · rintro ⟨before, x', after, heq, hbefore, hx'⟩
        cases before with
        | nil =>
            cases heq
            exact .inl hx'
        | cons x'' before =>
            cases heq
            obtain ⟨⟨y, hy⟩, hbefore⟩ := List.forall_mem_cons.mp hbefore
            have hrest := ih.mpr ⟨before, x', after, rfl, hbefore, hx'⟩
            exact .inr ⟨y, hy, bind_eq_error_iff.mpr (.inl hrest)⟩

end AbilityRotation
