import Lindenmayer.Proofs.Derivation.Step

/-!
# Steps as parallel rewriting

A step is said here without an order of work: at each site the productions that apply and one draw
determine what takes the place of the item, and which draw that is depends on the number of earlier
sites at which productions apply. A successful run through the sites of a word gives just that.
-/

namespace Lindenmayer

/-! ## Streams of draws -/

namespace DrawSource

variable {σ : Type} [DrawSource σ]

/-- The source that is left when a number of draws have been taken. -/
def skip (source : σ) : Nat → σ
  | 0 => source
  | n + 1 => skip (draw source).2 n

/-- The draw that is taken after a number of others. -/
def nth (source : σ) (n : Nat) : Float :=
  (draw (skip source n)).1

theorem skip_add (source : σ) (m n : Nat) : skip source (m + n) = skip (skip source m) n := by
  induction m generalizing source with
  | zero => rw [Nat.zero_add, skip]
  | succ m ih => rw [Nat.succ_add, skip, ih, skip]

/-- The draws behind some that were taken. -/
theorem nth_add (source : σ) (m n : Nat) : nth source (m + n) = nth (skip source m) n := by
  rw [nth, skip_add, nth]

end DrawSource

/-! ## Selection -/

/-- A total to which the probabilities of productions are added in order. -/
def runningTotal (total : Float) (productions : List Production) : Float :=
  productions.foldl (fun total p => total + p.probability) total

/-- A production is the first at which the running total, its own probability included, exceeds a
draw. -/
def IsFirstAbove (draw total : Float) (productions : List Production) (p : Production) : Prop :=
  ∃ k, productions[k]? = some p ∧ draw < runningTotal total (productions.take (k + 1)) ∧
    ∀ j < k, ¬draw < runningTotal total (productions.take (j + 1))

theorem not_isFirstAbove_nil (draw total : Float) (p : Production) :
    ¬IsFirstAbove draw total [] p :=
  fun ⟨_, hp, _⟩ => absurd hp nofun

/-- The first production is selected if the draw is below its share. -/
theorem isFirstAbove_cons_of_lt {draw total : Float} {q : Production}
    (h : draw < total + q.probability) (rest : List Production) {p : Production} :
    IsFirstAbove draw total (q :: rest) p ↔ q = p := by
  constructor
  · rintro ⟨k, hp, -, hbefore⟩
    cases k with
    | zero => exact Option.some.inj hp
    | succ k => exact absurd h (hbefore 0 k.succ_pos)
  · rintro rfl
    exact ⟨0, rfl, h, fun j hj => absurd hj j.not_lt_zero⟩

/-- Otherwise the others are tried, and its share counts. -/
theorem isFirstAbove_cons_of_not_lt {draw total : Float} {q : Production}
    (h : ¬draw < total + q.probability) (rest : List Production) {p : Production} :
    IsFirstAbove draw total (q :: rest) p ↔
      IsFirstAbove draw (total + q.probability) rest p := by
  constructor
  · rintro ⟨k, hp, habove, hbefore⟩
    cases k with
    | zero => exact absurd habove h
    | succ k => exact ⟨k, hp, habove, fun j hj => hbefore (j + 1) (Nat.succ_lt_succ hj)⟩
  · rintro ⟨k, hp, habove, hbefore⟩
    refine ⟨k + 1, hp, habove, fun j hj => ?_⟩
    cases j with
    | zero => exact h
    | succ j => exact hbefore j (Nat.lt_of_succ_lt_succ hj)

/-- Going through the productions finds the first one at which the running total exceeds the
draw. -/
theorem select_eq_selected {draw total : Float} {productions : List Production} {p : Production} :
    select draw total productions = .selected p ↔ IsFirstAbove draw total productions p := by
  induction productions generalizing total with
  | nil => exact ⟨nofun, fun h => absurd h (not_isFirstAbove_nil draw total p)⟩
  | cons q rest ih =>
    unfold select
    simp only
    split
    · rename_i habove
      rw [isFirstAbove_cons_of_lt habove, Selection.selected.injEq]
    · rename_i habove
      rw [isFirstAbove_cons_of_not_lt habove, ih]

/-! ## What takes the place of an item -/

/-- The productions that apply at a site, in the order of declaration. -/
def matching (productions : List Production) (site : Site (Element Float)) : List Production :=
  productions.filter fun p => (p.applies site).toOption = some true

/-- Whether productions apply at a site, so that a draw is taken there. -/
def takesDraw (productions : List Production) (site : Site (Element Float)) : Bool :=
  !(matching productions site).isEmpty

/-- The word that takes the place of the item of a site for a draw. -/
structure IsReplacedBy (productions : List Production) (site : Site (Element Float)) (draw : Float)
    (word : Word) : Prop where
  /-- Whether a production applies is decided for all of them. -/
  decided : ∀ p ∈ productions, ∃ applies, p.applies site = .ok applies
  unmatched : matching productions site = [] → word = [site.item]
  selected : ∀ p, IsFirstAbove draw 0.0 (matching productions site) p → p.replace site = .ok word
  beyond : (∀ p, ¬IsFirstAbove draw 0.0 (matching productions site) p) → word = [site.item]

theorem matching_cons {site : Site (Element Float)} {q : Production} {applies : Bool}
    (h : q.applies site = .ok applies) (rest : List Production) :
    matching (q :: rest) site =
      if applies then q :: matching rest site else matching rest site := by
  rw [matching, List.filter_cons, h]
  cases applies <;> rfl

/-- The candidates are the productions that apply, if all conditions can be evaluated. -/
theorem candidates_eq_ok {site : Site (Element Float)} {productions others : List Production} :
    candidates site productions = .ok others ↔
      (∀ p ∈ productions, ∃ applies, p.applies site = .ok applies) ∧
        matching productions site = others := by
  induction productions generalizing others with
  | nil => simp [candidates, matching]
  | cons q rest ih =>
    rw [candidates, bind_eq_ok, List.forall_mem_cons]
    constructor
    · rintro ⟨applies, happlies, h⟩
      obtain ⟨found, hfound, hothers⟩ := bind_eq_ok.1 h
      obtain ⟨hdecided, rfl⟩ := ih.1 hfound
      obtain rfl := Except.ok.inj hothers
      exact ⟨⟨⟨applies, happlies⟩, hdecided⟩, matching_cons happlies rest⟩
    · rintro ⟨⟨⟨applies, happlies⟩, hdecided⟩, rfl⟩
      refine ⟨applies, happlies, bind_eq_ok.2 ⟨_, ih.2 ⟨hdecided, rfl⟩, ?_⟩⟩
      rw [matching_cons happlies]
      rfl

/-- An item is kept, or a production that applies replaces it. -/
theorem IsReplacedBy.cases {productions : List Production} {site : Site (Element Float)}
    {draw : Float} {word : Word} (h : IsReplacedBy productions site draw word) :
    word = [site.item] ∨
      ∃ p ∈ productions, p.applies site = .ok true ∧ p.replace site = .ok word := by
  by_cases hselected : ∃ p, IsFirstAbove draw 0.0 (matching productions site) p
  · obtain ⟨p, hfirst⟩ := hselected
    obtain ⟨k, hk, -⟩ := id hfirst
    obtain ⟨hmem, happlies⟩ := List.mem_filter.1 (List.mem_of_getElem? hk)
    exact .inr ⟨p, hmem, toOption_eq_some.1 (of_decide_eq_true happlies), h.selected p hfirst⟩
  · exact .inl (h.beyond (not_exists.1 hselected))

variable {σ : Type} [DrawSource σ] {productions : List Production} {source last : σ}

open DrawSource (skip nth)

/-- A successful step at a site takes a draw just if productions apply there. -/
theorem isReplacedBy_of_deriveAt {site : Site (Element Float)} {outcome : Outcome}
    (h : (deriveAt productions site).run source = (.ok outcome, last)) :
    last = skip source (if takesDraw productions site then 1 else 0) ∧
      IsReplacedBy productions site (nth source 0) outcome.word := by
  rw [deriveAt_run] at h
  cases hcandidates : candidates site productions with
  | error e =>
    rw [hcandidates] at h
    exact absurd (congrArg Prod.fst h) nofun
  | ok found =>
    obtain ⟨hdecided, hfound⟩ := candidates_eq_ok.1 hcandidates
    rw [hcandidates] at h
    cases found with
    | nil =>
      obtain ⟨houtcome, hsource⟩ := Prod.mk.inj h
      obtain rfl := Except.ok.inj houtcome
      refine ⟨?_, hdecided, fun _ => rfl, fun p hp => ?_, fun _ => rfl⟩
      · rw [takesDraw, hfound, ← hsource]
        rfl
      · rw [hfound] at hp
        exact absurd hp (not_isFirstAbove_nil _ _ p)
    | cons p rest =>
      have hskip : skip source (if takesDraw productions site then 1 else 0) =
          (DrawSource.draw source).2 := by
        rw [takesDraw, hfound]
        rfl
      have hempty : matching productions site = [] → outcome.word = [site.item] := fun hnil => by
        rw [hfound] at hnil
        exact absurd hnil (List.cons_ne_nil p rest)
      simp only at h
      split at h
      · rename_i q hselect
        obtain ⟨houtcome, hsource⟩ := Prod.mk.inj h
        obtain ⟨word, hword, rfl⟩ := map_eq_ok.1 houtcome
        refine ⟨hskip ▸ hsource.symm, hdecided, hempty, fun p' hp' => ?_, fun hbeyond => ?_⟩
        · rw [hfound, ← select_eq_selected] at hp'
          obtain rfl : q = p' := Selection.selected.inj (hselect.symm.trans hp')
          exact hword
        · rw [hfound] at hbeyond
          exact absurd (select_eq_selected.1 hselect) (hbeyond q)
      · rename_i total hselect
        obtain ⟨houtcome, hsource⟩ := Prod.mk.inj h
        obtain rfl := Except.ok.inj houtcome
        refine ⟨hskip ▸ hsource.symm, hdecided, hempty, fun p' hp' => ?_, fun _ => rfl⟩
        rw [hfound, ← select_eq_selected] at hp'
        exact absurd (hselect.symm.trans hp') nofun

/-- A successful run through sites gives at each of them what its draw determines, which is the one
after the draws of the sites before it. -/
theorem isReplacedBy_of_derive {items : List (Site (Element Float))} {outcomes : List Outcome}
    (h : (items.mapM (deriveAt productions)).run source = (.ok outcomes, last)) :
    last = skip source (items.countP (takesDraw productions)) ∧
      outcomes.length = items.length ∧
      ∀ i site, items[i]? = some site → ∃ outcome, outcomes[i]? = some outcome ∧
        IsReplacedBy productions site
          (nth source ((items.take i).countP (takesDraw productions))) outcome.word := by
  induction items generalizing source outcomes with
  | nil =>
    obtain ⟨houtcomes, hsource⟩ := Prod.mk.inj h
    obtain rfl := Except.ok.inj houtcomes
    exact ⟨hsource.symm, rfl, fun i site hsite => absurd hsite nofun⟩
  | cons site items ih =>
    rw [derive_run_cons] at h
    rcases hfirst : (deriveAt productions site).run source with ⟨e | outcome, between⟩
    · rw [hfirst] at h
      exact absurd (congrArg Prod.fst h) nofun
    rw [hfirst] at h
    simp only at h
    rcases hothers : (items.mapM (deriveAt productions)).run between with ⟨e | others, final⟩
    · rw [hothers] at h
      exact absurd (congrArg Prod.fst h) nofun
    rw [hothers] at h
    obtain ⟨houtcomes, hfinal⟩ := Prod.mk.inj h
    obtain rfl := Except.ok.inj houtcomes
    obtain rfl : final = last := hfinal
    obtain ⟨rfl, hreplaced⟩ := isReplacedBy_of_deriveAt hfirst
    obtain ⟨hlast, hlength, hrest⟩ := ih hothers
    refine ⟨?_, congrArg Nat.succ hlength, fun i site' hsite' => ?_⟩
    · rw [hlast, ← DrawSource.skip_add, List.countP_cons, Nat.add_comm]
    · cases i with
      | zero =>
        obtain rfl : site = site' := Option.some.inj hsite'
        exact ⟨outcome, rfl, hreplaced⟩
      | succ i =>
        obtain ⟨other, hother, hword⟩ := hrest i site' hsite'
        refine ⟨other, hother, ?_⟩
        rw [List.take_succ_cons, List.countP_cons, Nat.add_comm, DrawSource.nth_add]
        exact hword

/-- Whatever such a run gives takes the place of the item of one of the sites. -/
theorem exists_isReplacedBy_of_mem {items : List (Site (Element Float))} {outcomes : List Outcome}
    (h : (items.mapM (deriveAt productions)).run source = (.ok outcomes, last)) {outcome : Outcome}
    (hmem : outcome ∈ outcomes) :
    ∃ site ∈ items, ∃ draw, IsReplacedBy productions site draw outcome.word := by
  obtain ⟨-, hlength, hreplaced⟩ := isReplacedBy_of_derive h
  obtain ⟨i, hi⟩ := List.mem_iff_getElem?.1 hmem
  have hbound : i < items.length := hlength ▸ (List.getElem?_eq_some_iff.1 hi).1
  obtain ⟨other, hother, hword⟩ := hreplaced i _ (List.getElem?_eq_getElem hbound)
  obtain rfl : outcome = other := Option.some.inj (hi.symm.trans hother)
  exact ⟨items[i], List.getElem_mem hbound, _, hword⟩

/-- Whether a run succeeds or fails, the source it leaves is what a number of draws leave. -/
theorem exists_skip_deriveAt (productions : List Production) (site : Site (Element Float))
    (source : σ) : ∃ n, ((deriveAt productions site).run source).2 = skip source n := by
  rw [deriveAt_run]
  cases candidates site productions with
  | error e => exact ⟨0, rfl⟩
  | ok found =>
    cases found with
    | nil => exact ⟨0, rfl⟩
    | cons p rest =>
      refine ⟨1, ?_⟩
      simp only
      split <;> rfl

/-- A rewriting step takes draws from the front of the source only. -/
theorem exists_skip_derive (productions : List Production) (items : List (Site (Element Float)))
    (source : σ) : ∃ n, ((items.mapM (deriveAt productions)).run source).2 = skip source n := by
  induction items generalizing source with
  | nil => exact ⟨0, rfl⟩
  | cons site items ih =>
    obtain ⟨m, hm⟩ := exists_skip_deriveAt productions site source
    rw [derive_run_cons]
    generalize (deriveAt productions site).run source = first at hm
    obtain ⟨answer, between⟩ := first
    obtain rfl : between = skip source m := hm
    cases answer with
    | error e => exact ⟨m, rfl⟩
    | ok outcome =>
      obtain ⟨n, hn⟩ := ih (skip source m)
      refine ⟨m + n, ?_⟩
      rw [DrawSource.skip_add, ← hn]
      simp only
      split <;> simp only [*]

end Lindenmayer
