/-!
# Outcomes

Which outcomes of the parts lead to an outcome of the whole.
-/

namespace Lindenmayer

variable {ε α β : Type}

@[simp]
theorem toOption_eq_some {x : Except ε α} {a : α} : x.toOption = some a ↔ x = .ok a := by
  cases x with
  | ok b =>
    exact ⟨fun h => congrArg Except.ok (Option.some.inj h),
      fun h => congrArg some (Except.ok.inj h)⟩
  | error e => exact ⟨nofun, nofun⟩

/-- An error can be recognized where results cannot be compared. -/
instance decidableEqError [DecidableEq ε] (x : Except ε α) (e : ε) : Decidable (x = .error e) :=
  match x with
  | .ok _ => isFalse nofun
  | .error _ => decidable_of_iff _ ⟨congrArg Except.error, Except.error.inj⟩

/-- A sequence gives a result just if its first part gives one and the second part does with it. -/
theorem bind_eq_ok {x : Except ε α} {f : α → Except ε β} {b : β} :
    x >>= f = .ok b ↔ ∃ a, x = .ok a ∧ f a = .ok b := by
  cases x with
  | error e => exact ⟨nofun, nofun⟩
  | ok a => exact ⟨fun h => ⟨a, rfl, h⟩, fun ⟨_, rfl, h⟩ => h⟩

theorem bind_eq_error {x : Except ε α} {f : α → Except ε β} {e : ε} :
    x >>= f = .error e ↔ x = .error e ∨ ∃ a, x = .ok a ∧ f a = .error e := by
  cases x with
  | error e' =>
    refine ⟨fun h => .inl (congrArg _ (Except.error.inj h)), ?_⟩
    rintro (h | ⟨a, h, -⟩)
    · exact congrArg _ (Except.error.inj h)
    · exact absurd h nofun
  | ok a =>
    refine ⟨fun h => .inr ⟨a, rfl, h⟩, ?_⟩
    rintro (h | ⟨b, hb, h⟩)
    · exact absurd h nofun
    · rwa [Except.ok.inj hb]

@[simp]
theorem map_eq_ok {x : Except ε α} {f : α → β} {b : β} :
    x.map f = .ok b ↔ ∃ a, x = .ok a ∧ f a = b := by
  cases x with
  | error e => exact ⟨nofun, nofun⟩
  | ok a => exact ⟨fun h => ⟨a, rfl, Except.ok.inj h⟩, fun ⟨_, rfl, h⟩ => congrArg _ h⟩

@[simp]
theorem map_eq_error {x : Except ε α} {f : α → β} {e : ε} :
    x.map f = .error e ↔ x = .error e := by
  cases x with
  | error e' =>
    exact ⟨fun h => congrArg _ (Except.error.inj h), fun h => congrArg _ (Except.error.inj h)⟩
  | ok a => exact ⟨nofun, nofun⟩

/-- The results on a list are a result on its first item and the results on the others. -/
theorem mapM_cons_eq_ok {f : α → Except ε β} {v : α} {values : List α} {results : List β} :
    (v :: values).mapM f = .ok results ↔
      ∃ r rs, f v = .ok r ∧ values.mapM f = .ok rs ∧ results = r :: rs := by
  rw [List.mapM_cons, bind_eq_ok]
  constructor
  · rintro ⟨r, hr, h⟩
    rw [bind_eq_ok] at h
    obtain ⟨rs, hrs, h⟩ := h
    exact ⟨r, rs, hr, hrs, (Except.ok.inj h).symm⟩
  · rintro ⟨r, rs, hr, hrs, rfl⟩
    exact ⟨r, hr, bind_eq_ok.2 ⟨rs, hrs, rfl⟩⟩

/-- Where no item fails, the list has a result. -/
theorem exists_mapM {f : α → Except ε β} {values : List α}
    (h : ∀ v ∈ values, ∃ r, f v = .ok r) : ∃ results, values.mapM f = .ok results := by
  induction values with
  | nil => exact ⟨[], rfl⟩
  | cons v values ih =>
    obtain ⟨r, hr⟩ := h v List.mem_cons_self
    obtain ⟨rs, hrs⟩ := ih fun u hu => h u (List.mem_cons_of_mem v hu)
    exact ⟨r :: rs, mapM_cons_eq_ok.2 ⟨r, rs, hr, hrs, rfl⟩⟩

theorem exists_of_mapM {f : α → Except ε β} {values : List α} {results : List β}
    (h : values.mapM f = .ok results) : ∀ v ∈ values, ∃ r, f v = .ok r := by
  induction values generalizing results with
  | nil => exact fun v hv => absurd hv List.not_mem_nil
  | cons v values ih =>
    obtain ⟨r, rs, hr, hrs, rfl⟩ := mapM_cons_eq_ok.1 h
    intro u hu
    rcases List.mem_cons.1 hu with rfl | hu
    · exact ⟨r, hr⟩
    · exact ih hrs u hu

/-- Where a list fails, one of its items does. -/
theorem exists_error_of_mapM {f : α → Except ε β} {values : List α} {e : ε}
    (h : values.mapM f = .error e) : ∃ v ∈ values, f v = .error e := by
  induction values with
  | nil => exact absurd h nofun
  | cons v values ih =>
    rw [List.mapM_cons, bind_eq_error] at h
    rcases h with h | ⟨r, -, h⟩
    · exact ⟨v, List.mem_cons_self, h⟩
    · rw [bind_eq_error] at h
      rcases h with h | ⟨rs, -, h⟩
      · obtain ⟨u, hu, hfail⟩ := ih h
        exact ⟨u, List.mem_cons_of_mem v hu, hfail⟩
      · exact absurd h nofun

end Lindenmayer
