import Lindenmayer.Derivation.Step
import Lindenmayer.Proofs.Production.Binding

/-!
# What a step does with its draws

A step is a computation with errors over a source of draws. Here its parts are run: what an element
is replaced by, which source is left, and that with bound productions there is no error.
-/

namespace Lindenmayer

variable {σ : Type}

/-! ## Selection -/

/-- The production that is selected is one of those that apply. -/
theorem mem_of_select {draw total : Float} {matching : List Production} {p : Production}
    (h : select draw total matching = .selected p) : p ∈ matching := by
  induction matching generalizing total with
  | nil => exact absurd h nofun
  | cons q rest ih =>
    unfold select at h
    simp only at h
    split at h
    · obtain rfl : q = p := by simpa using h
      exact List.mem_cons_self
    · exact List.mem_cons_of_mem q (ih h)

/-- Candidates are productions that apply. -/
theorem applies_of_mem_candidates {site : Site (Element Float)}
    {productions matching : List Production} (h : candidates site productions = .ok matching)
    {p : Production} (hp : p ∈ matching) :
    p ∈ productions ∧ p.applies site = .ok true := by
  induction productions generalizing matching with
  | nil =>
    obtain rfl : [] = matching := by simpa [candidates] using h
    exact absurd hp List.not_mem_nil
  | cons q rest ih =>
    rw [candidates, bind_eq_ok] at h
    obtain ⟨applies, happlies, h⟩ := h
    rw [bind_eq_ok] at h
    obtain ⟨others, hothers, h⟩ := h
    -- whether `q` applies or not, the others were found among the rest
    have hrest (hp : p ∈ others) : p ∈ q :: rest ∧ p.applies site = .ok true :=
      ⟨List.mem_cons_of_mem q (ih hothers hp).1, (ih hothers hp).2⟩
    cases applies with
    | false =>
      obtain rfl : others = matching := by simpa [pure, Except.pure] using h
      exact hrest hp
    | true =>
      obtain rfl : q :: others = matching := by simpa [pure, Except.pure] using h
      rcases List.mem_cons.1 hp with rfl | hp
      · exact ⟨List.mem_cons_self, happlies⟩
      · exact hrest hp

theorem exists_candidates {productions : List Production} (h : ∀ p ∈ productions, p.Bound)
    (site : Site (Element Float)) : ∃ matching, candidates site productions = .ok matching := by
  induction productions with
  | nil => exact ⟨[], rfl⟩
  | cons p rest ih =>
    obtain ⟨applies, happlies⟩ := (h p List.mem_cons_self).exists_applies site
    obtain ⟨others, hothers⟩ := ih fun q hq => h q (List.mem_cons_of_mem p hq)
    refine ⟨if applies then p :: others else others, ?_⟩
    rw [candidates, happlies, hothers]
    rfl

/-! ## Running a step -/

/-- The second part of a computation goes on with the source that the first part leaves. -/
theorem run_bind {α β : Type} (x : ExceptT Error (Drawing σ) α)
    (f : α → ExceptT Error (Drawing σ) β) (source : σ) :
    (x >>= f).run source =
      match x.run source with
      | (.error e, source) => (.error e, source)
      | (.ok a, source) => (f a).run source := by
  rw [ExceptT.run_bind]
  show StateT.bind _ _ source = _
  unfold StateT.bind
  rcases x.run source with ⟨e | a, source⟩ <;> rfl

/-- What a selection leads to takes no draws. -/
theorem resolve_run (site : Site (Element Float)) (draw : Float) (source : σ) :
    ∀ selection : Selection,
      (match selection with
        | .selected p => do return .replaced (← liftExcept (p.replace site))
        | .beyond total => return .uncovered site.item draw total :
        ExceptT Error (Drawing σ) Outcome).run source =
      match selection with
      | .selected p => ((p.replace site).map .replaced, source)
      | .beyond total => (.ok (.uncovered site.item draw total), source)
  | .selected p => by
    cases hword : p.replace site with
    | error e => simp only [hword]; rfl
    | ok word => simp only [hword]; rfl
  | .beyond total => rfl

variable [DrawSource σ]

/-- What happens to the element at a site, with the source of the draws made explicit. -/
theorem deriveAt_run (productions : List Production) (site : Site (Element Float)) (source : σ) :
    (deriveAt productions site).run source =
      match candidates site productions with
      | .error e => (.error e, source)
      | .ok [] => (.ok (.unmatched site.item), source)
      | .ok (p :: rest) =>
        match select (DrawSource.draw source).1 0.0 (p :: rest) with
        | .selected p => ((p.replace site).map .replaced, (DrawSource.draw source).2)
        | .beyond total =>
          (.ok (.uncovered site.item (DrawSource.draw source).1 total),
            (DrawSource.draw source).2) := by
  unfold deriveAt
  cases candidates site productions with
  | error e => rfl
  | ok matching =>
    cases matching with
    | nil => rfl
    | cons p rest => exact resolve_run site (DrawSource.draw source).1 (DrawSource.draw source).2 _

/-- The elements of a word are dealt with one after another. -/
theorem derive_run_cons (productions : List Production) (site : Site (Element Float))
    (rest : List (Site (Element Float))) (source : σ) :
    ((site :: rest).mapM (deriveAt productions)).run source =
      match (deriveAt productions site).run source with
      | (.error e, source) => (.error e, source)
      | (.ok outcome, source) =>
        match (rest.mapM (deriveAt productions)).run source with
        | (.error e, source) => (.error e, source)
        | (.ok outcomes, source) => (.ok (outcome :: outcomes), source) := by
  rw [List.mapM_cons, run_bind]
  rcases (deriveAt productions site).run source with ⟨e | outcome, source⟩
  · rfl
  · simp only
    rw [run_bind]
    rcases (rest.mapM (deriveAt productions)).run source with ⟨e | outcomes, source⟩ <;> rfl

/-! ## Steps with bound productions -/

variable {productions : List Production}

theorem exists_deriveAt (h : ∀ p ∈ productions, p.Bound) (site : Site (Element Float))
    (source : σ) :
    ∃ outcome rest, (deriveAt productions site).run source = (.ok outcome, rest) := by
  obtain ⟨matching, hmatching⟩ := exists_candidates h site
  rw [deriveAt_run, hmatching]
  cases matching with
  | nil => exact ⟨_, _, rfl⟩
  | cons p rest =>
    simp only
    split
    · -- what is selected applies, so it fits and replaces the element
      rename_i q hselect
      obtain ⟨hq, happlies⟩ := applies_of_mem_candidates hmatching (mem_of_select hselect)
      obtain ⟨word, hword⟩ := (h q hq).exists_replace (Production.fits_of_applies happlies)
      rw [hword]
      exact ⟨_, _, rfl⟩
    · exact ⟨_, _, rfl⟩

/-- With bound productions no element of a word makes a step fail. -/
theorem exists_derive (h : ∀ p ∈ productions, p.Bound) (word : Word) (source : σ) :
    ∃ outcomes rest, (derive productions word).run source = (.ok outcomes, rest) := by
  unfold derive
  generalize sites word = items
  induction items generalizing source with
  | nil => exact ⟨[], source, rfl⟩
  | cons site items ih =>
    obtain ⟨outcome, source', hfirst⟩ := exists_deriveAt h site source
    obtain ⟨outcomes, last, hothers⟩ := ih source'
    rw [derive_run_cons, hfirst]
    simp only [hothers]
    exact ⟨_, _, rfl⟩

end Lindenmayer
