import Lindenmayer.Proofs.Derivation.Order
import Lindenmayer.Proofs.Derivation.Selection
import Lindenmayer.Proofs.Grammar.Coverage
import Lindenmayer.Proofs.Text.Digits

/-!
# What the coverage of a grammar says about its words

The sums of coverage are kept by key and filled while the whole grammar is gone through; a step finds
the productions that apply at one site and adds up their probabilities. If all productions of a key
are unconditional, the two are the same number, so an element with that key is kept just if its draw
is at least the sum.
-/

namespace Lindenmayer

open Binary64 (IsTotal value)

/-! ## Lists with keys -/

section
variable {α β : Type} [BEq α] [LawfulBEq α]

theorem eraseDups_concat (items : List α) (a : α) :
    (items ++ [a]).eraseDups = if a ∈ items then items.eraseDups else items.eraseDups ++ [a] := by
  rw [List.eraseDups_append]
  split
  · rename_i hmem
    have hnone : [a].removeAll items = [] := by simp [List.removeAll, hmem]
    rw [hnone, List.eraseDups_nil, List.append_nil]
  · rename_i hmem
    have hone : [a].removeAll items = [a] := by simp [List.removeAll, hmem]
    rw [hone]
    rfl

theorem nodup_eraseDups (items : List α) : items.eraseDups.Nodup := by
  induction items using List.reverseRecOn with
  | nil => exact List.nodup_nil
  | append_singleton items a ih =>
    rw [eraseDups_concat]
    split
    · exact ih
    · rename_i hmem
      rw [← List.concat_eq_append]
      exact ih.concat (mt List.mem_eraseDups.1 hmem)

theorem lookup_map_of_mem (f : α → β) {key : α} {keys : List α} (h : key ∈ keys) :
    (keys.map fun key => (key, f key)).lookup key = some (f key) := by
  induction keys with
  | nil => exact absurd h List.not_mem_nil
  | cons other keys ih =>
    by_cases heq : key = other
    · rw [heq, List.map_cons, List.lookup_cons_self]
    · rw [List.map_cons, List.lookup_cons, beq_false_of_ne heq]
      exact ih ((List.mem_cons.1 h).resolve_left heq)

end

/-! ## Sums by key -/

namespace Grammar

/-- A probability is added at its key only, or at the end if the key is new. -/
theorem addTo_map (f : PredecessorKey → Float) (key : PredecessorKey) (probability : Float)
    {keys : List PredecessorKey} (hnodup : keys.Nodup) :
    addTo key probability (keys.map fun other => (other, f other)) =
      if key ∈ keys then
        keys.map fun other => (other, if other = key then f other + probability else f other)
      else (keys.map fun other => (other, f other)) ++ [(key, 0.0 + probability)] := by
  induction keys with
  | nil => rfl
  | cons first keys ih =>
    obtain ⟨hfirst, hrest⟩ := List.nodup_cons.1 hnodup
    rw [List.map_cons, List.map_cons]
    by_cases heq : first = key
    · have hothers : ∀ other ∈ keys, other ≠ key := fun other hother h =>
        hfirst (heq ▸ h ▸ hother)
      rw [← heq, addTo_self, if_pos List.mem_cons_self, if_pos rfl]
      refine congrArg _ (List.map_congr_left fun other hother => ?_)
      rw [if_neg (heq ▸ hothers other hother)]
    · rw [addTo_of_ne heq, ih hrest, if_neg heq]
      by_cases hmem : key ∈ keys
      · rw [if_pos hmem, if_pos (List.mem_cons_of_mem first hmem)]
      · rw [if_neg hmem, if_neg (List.not_mem_cons_of_ne_of_not_mem (Ne.symm heq) hmem)]
        rfl

/-- The groups are in the order of their first productions, and each has the running total of its own
productions. -/
theorem foldl_addTo_eq_map (productions : List Production) :
    productions.foldl (fun sums p => addTo p.key p.probability sums) [] =
      (productions.map (·.key)).eraseDups.map fun key =>
        (key, runningTotal 0.0 (productions.filter (·.key = key))) := by
  induction productions using List.reverseRecOn with
  | nil => rfl
  | append_singleton productions p ih =>
    have htotal (key : PredecessorKey) :
        runningTotal 0.0 ((productions ++ [p]).filter (·.key = key)) =
          if key = p.key then runningTotal 0.0 (productions.filter (·.key = key)) + p.probability
          else runningTotal 0.0 (productions.filter (·.key = key)) := by
      rw [List.filter_append]
      split
      · rename_i heq
        rw [List.filter_cons_of_pos (by simpa using heq.symm), runningTotal_append]
        rfl
      · rename_i hne
        simp [Ne.symm hne]
    rw [List.foldl_append, ih, List.foldl_cons, List.foldl_nil, List.map_append, List.map_singleton,
      eraseDups_concat, addTo_map _ _ _ (nodup_eraseDups _)]
    simp only [htotal, List.mem_eraseDups]
    by_cases hmem : p.key ∈ productions.map (·.key)
    · rw [if_pos hmem, if_pos hmem]
    · -- a new key has no probabilities before
      have hnone : productions.filter (·.key = p.key) = [] := by
        refine List.filter_eq_nil_iff.2 fun q hq h => hmem ?_
        rw [← of_decide_eq_true h]
        exact List.mem_map_of_mem hq
      rw [if_neg hmem, if_neg hmem, List.map_append, List.map_singleton, if_pos rfl, hnone]
      refine congrArg (· ++ _) (List.map_congr_left fun other hother => ?_)
      rw [if_neg]
      rintro rfl
      exact hmem (List.mem_eraseDups.1 hother)

/-- The productions that coverage counts. -/
def unconditional (g : Grammar) : List Production :=
  g.productions.filter (·.isUnconditional)

/-- The keys of the groups, in the order of their first productions. -/
def groups (g : Grammar) : List PredecessorKey :=
  (g.unconditional.map (·.key)).eraseDups

/-- The running total of the productions of a group. -/
def coverage (g : Grammar) (key : PredecessorKey) : Float :=
  runningTotal 0.0 (g.unconditional.filter (·.key = key))

theorem groupSums_eq (g : Grammar) : g.groupSums = g.groups.map fun key => (key, g.coverage key) :=
  foldl_addTo_eq_map g.unconditional

theorem isTotal_coverage (g : Grammar) (key : PredecessorKey) : IsTotal (g.coverage key) :=
  (isTotal_runningTotal Binary64.isTotal_zero _).1

theorem filter_unconditional {g : Grammar} {key : PredecessorKey}
    (h : ∀ p ∈ g.productions, p.key = key → p.isUnconditional = true) :
    g.unconditional.filter (·.key = key) = g.productions.filter (·.key = key) := by
  rw [unconditional, List.filter_filter]
  refine List.filter_congr fun p hp => ?_
  by_cases hkey : p.key = key
  · rw [h p hp hkey, Bool.and_true]
  · rw [decide_eq_false hkey, Bool.false_and]

/-- The groups that are reported are those whose sums are off 1 by more than `10 ^ -9`. -/
theorem unbalancedGroups_eq (g : Grammar) :
    g.unbalancedGroups = g.groupSums.filter fun (_, sum) => 1 / 10 ^ 9 < |value sum - 1| := by
  rw [unbalancedGroups]
  refine List.filter_congr fun entry hentry => ?_
  rw [groupSums_eq] at hentry
  obtain ⟨key, -, rfl⟩ := List.mem_map.1 hentry
  exact decide_eq_decide.2 (g.isTotal_coverage key).lt_abs_sub_one_iff

/-- A key is read off its text. -/
theorem keyText_injective : Function.Injective keyText := by
  intro key other h
  obtain ⟨hsymbol, htail⟩ := List.cons.inj h
  have hdigits := (List.cons.inj htail).2
  refine Prod.ext hsymbol ?_
  rw [← Text.digitsValue_natDigits key.2, hdigits, Text.digitsValue_natDigits]

end Grammar

/-! ## Steps -/

/-- An unconditional production applies wherever its key is that of the item. -/
theorem Production.applies_of_isUnconditional {p : Production} {site : Site (Element Float)}
    (h : p.isUnconditional = true) (hkey : p.key = site.item.key) : p.applies site = .ok true := by
  obtain ⟨hsymbol, harity⟩ := Prod.ext_iff.1 hkey
  have hcompatible : p.predecessor.compatible site.item = true := by
    rw [Element.compatible, Bool.and_eq_true, beq_iff_eq, beq_iff_eq]
    exact ⟨hsymbol, harity⟩
  rw [isUnconditional, Bool.and_eq_true, Bool.and_eq_true, Option.isNone_iff_eq_none,
    Option.isNone_iff_eq_none, Option.isNone_iff_eq_none] at h
  obtain ⟨⟨hcondition, hleft⟩, hright⟩ := h
  rw [applies, fits, hcompatible, hleft, hright, hcondition]
  rfl

/-- If all competitors are unconditional, all of them are found. -/
theorem candidates_of_isUnconditional {site : Site (Element Float)} {productions : List Production}
    (h : ∀ p ∈ productions, p.key = site.item.key → p.isUnconditional = true) :
    candidates site productions = .ok (productions.filter (·.key = site.item.key)) := by
  have hall : ∀ p ∈ productions.filter (·.key = site.item.key), p.applies site = .ok true := by
    intro p hp
    obtain ⟨hmem, hkey⟩ := List.mem_filter.1 hp
    have hkey := of_decide_eq_true hkey
    exact p.applies_of_isUnconditional (h p hmem hkey) hkey
  rw [← candidates_filter_key, candidates_eq_ok]
  refine ⟨fun p hp => ⟨true, hall p hp⟩, List.filter_eq_self.2 fun p hp => ?_⟩
  rw [hall p hp]
  rfl

/-- What a step does at a site where the probabilities of the productions that apply add up to a
total. -/
structure IsStepBelow {σ : Type} [DrawSource σ] (productions : List Production)
    (site : Site (Element Float)) (source : Counted σ) (total : Float) : Prop where
  runningTotal_eq : ∃ found, candidates site productions = .ok found ∧
    runningTotal 0.0 found = total
  taken_eq : ((deriveAt productions site).run source).2.taken = source.taken + 1
  /-- The element is kept just if the draw is at least the total. -/
  kept_iff : ((deriveAt productions site).run source).1 =
      .ok (.uncovered site.item (DrawSource.draw source).1 total) ↔
    total ≤ (DrawSource.draw source).1
  /-- Otherwise one of the productions replaces it. -/
  replaced : ¬total ≤ (DrawSource.draw source).1 →
    ∃ p ∈ productions, p.applies site = .ok true ∧
      ((deriveAt productions site).run source).1 = (p.replace site).map .replaced

theorem isStepBelow_runningTotal {σ : Type} [DrawSource σ] {productions found : List Production}
    {site : Site (Element Float)} (hfound : candidates site productions = .ok found)
    (hne : found ≠ []) {source : Counted σ} (hdraw : IsDraw (DrawSource.draw source).1) :
    IsStepBelow productions site source (runningTotal 0.0 found) := by
  obtain ⟨hdecided, rfl⟩ := candidates_eq_ok.1 hfound
  have hlength : 1 ≤ (matching productions site).length := List.length_pos_iff.2 hne
  have hstep := isStepTo_passed hdecided source
  have hplace := isPlace_passed hdraw (matching productions site)
  have htaken := hstep.taken_eq
  rw [if_pos hlength] at htaken
  generalize passed (DrawSource.draw source).1 0.0 (matching productions site) = place
    at hstep hplace
  have htotal := hplace.eq_length_iff hlength
  cases hp : (matching productions site)[place]? with
  | none =>
    have hle := htotal.1 (Nat.le_antisymm hplace.le_length (List.getElem?_eq_none_iff.1 hp))
    have hkept := hstep.beyond hp
    rw [if_neg hne] at hkept
    exact ⟨⟨_, hfound, rfl⟩, htaken, iff_of_true hkept hle, fun hlt => absurd hle hlt⟩
  | some p =>
    have hselected := hstep.selected p hp
    have hlt : ¬runningTotal 0.0 (matching productions site) ≤ (DrawSource.draw source).1 := by
      intro hle
      rw [htotal.2 hle, List.getElem?_length] at hp
      exact absurd hp nofun
    have hreplaced : ((deriveAt productions site).run source).1 ≠
        .ok (.uncovered site.item (DrawSource.draw source).1
          (runningTotal 0.0 (matching productions site))) := by
      rw [hselected]
      cases p.replace site with
      | error e => exact nofun
      | ok word => exact nofun
    obtain ⟨hmem, happlies⟩ := applies_of_mem_candidates hfound (List.mem_of_getElem? hp)
    exact ⟨⟨_, hfound, rfl⟩, htaken, iff_of_false hreplaced hlt,
      fun _ => ⟨p, hmem, happlies, hselected⟩⟩

namespace Grammar

/-- Coverage describes steps: if all productions of a key are unconditional, the sum of its group is
the running total at every site with that key, one draw is taken there, and the element is kept just
if the draw is at least the sum. Reported are the groups whose sums are off 1 by more than `10 ^ -9`,
in the order of their first productions and each under a text of its own. -/
theorem coverage_describes_steps {σ : Type} [DrawSource σ] (g : Grammar) :
    (∀ key, (∃ p ∈ g.productions, p.key = key) →
      (∀ p ∈ g.productions, p.key = key → p.isUnconditional = true) →
      ∃ total, g.groupSums.lookup key = some total ∧
        ∀ (site : Site (Element Float)) (source : Counted σ), site.item.key = key →
          IsDraw (DrawSource.draw source).1 → IsStepBelow g.productions site source total) ∧
      g.groupSums = g.groups.map (fun key => (key, g.coverage key)) ∧
      g.unbalancedGroups = g.groupSums.filter (fun (_, sum) => 1 / 10 ^ 9 < |value sum - 1|) ∧
      g.groups.Nodup ∧ Function.Injective keyText := by
  refine ⟨fun key hsome hall => ⟨g.coverage key, ?_, ?_⟩, g.groupSums_eq, g.unbalancedGroups_eq,
    nodup_eraseDups _, keyText_injective⟩
  · obtain ⟨p, hp, rfl⟩ := hsome
    have hmem : p ∈ g.unconditional := List.mem_filter.2 ⟨hp, hall p hp rfl⟩
    rw [groupSums_eq]
    exact lookup_map_of_mem g.coverage (List.mem_eraseDups.2 (List.mem_map_of_mem hmem))
  · rintro site source rfl hdraw
    obtain ⟨p, hp, hkey⟩ := hsome
    have hne : g.productions.filter (·.key = site.item.key) ≠ [] :=
      List.ne_nil_of_mem (List.mem_filter.2 ⟨hp, decide_eq_true hkey⟩)
    rw [coverage, filter_unconditional hall]
    exact isStepBelow_runningTotal (candidates_of_isUnconditional hall) hne hdraw

/-- The productions `A~0.25 = B`, `A(y) : y > 1 = A`, `B = A` and `A~0.5 = C`. -/
def partly : Grammar where
  initial := [.plain 'A']
  productions := [
    { predecessor := .plain 'A'
      successor := [.plain 'B']
      probability := 0.25
      wellFormed := ⟨by decide, by decide, by decide, by decide⟩ },
    { predecessor := ⟨'A', ⟨["y"], by decide⟩⟩
      condition := some (.binary .gt (.var "y") (.number 1.0))
      successor := [.plain 'A']
      wellFormed := ⟨by decide, by decide, by decide, by decide⟩ },
    { predecessor := .plain 'B'
      successor := [.plain 'A']
      wellFormed := LSystem.wellFormed_renewal },
    { predecessor := .plain 'A'
      successor := [.plain 'C']
      probability := 0.5
      wellFormed := ⟨by decide, by decide, by decide, by decide⟩ }]

/-- The sum of `A` is 0.75, so the draw 0.875 keeps an `A` next to a `B`; only `A` is reported. -/
theorem coverage_describes_steps_partly :
    let site : Site (Element Float) := ⟨some (.plain 'B'), .plain 'A', none⟩
    let source : Counted Replay := { source := { draws := #[0.875] } }
    (∃ p ∈ partly.productions, p.key = ('A', 0)) ∧
      (∀ p ∈ partly.productions, p.key = ('A', 0) → p.isUnconditional = true) ∧
      partly.unbalancedGroups = [(('A', 0), 0.75)] ∧
      IsDraw (DrawSource.draw source).1 ∧
      ((deriveAt partly.productions site).run source).1 =
        .ok (.uncovered site.item (DrawSource.draw source).1 0.75) := by
  intro site source
  have hsome : ∃ p ∈ partly.productions, p.key = ('A', 0) := ⟨_, List.mem_cons_self, rfl⟩
  have hall : ∀ p ∈ partly.productions, p.key = ('A', 0) → p.isUnconditional = true := by decide
  have hdraw : IsDraw (DrawSource.draw source).1 := ⟨by decide, by decide⟩
  obtain ⟨hsteps, -⟩ := partly.coverage_describes_steps (σ := Replay)
  obtain ⟨total, htotal, hstep⟩ := hsteps ('A', 0) hsome hall
  obtain rfl : total = 0.75 := by
    have hsum : partly.groupSums.lookup ('A', 0) = some 0.75 := by decide +kernel
    exact Option.some_inj.1 (htotal.symm.trans hsum)
  exact ⟨hsome, hall, by decide +kernel, hdraw,
    (hstep site source rfl hdraw).kept_iff.2 (by decide +kernel)⟩

end Grammar

end Lindenmayer
