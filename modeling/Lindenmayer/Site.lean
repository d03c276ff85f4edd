/-!
# Sites

A site is an item of a list together with its neighbours. The sites of a list say, for each of its
items, what stands directly before and after it.
-/

namespace Lindenmayer

/-- An item and its neighbours; at the ends of a list a neighbour is missing. -/
structure Site (α : Type) where
  previous : Option α
  item : α
  following : Option α
deriving DecidableEq, Repr

/-- The sites of a list, in order. -/
def sites {α : Type} (items : List α) : List (Site α) :=
  let all := items.toArray
  items.mapIdx fun i item =>
    { previous := if i = 0 then none else all[i - 1]?, item, following := all[i + 1]? }

@[simp]
theorem length_sites {α : Type} (items : List α) : (sites items).length = items.length := by
  simp [sites]

/-- The site at a position looks one place back and one place ahead. -/
@[simp]
theorem getElem?_sites {α : Type} (items : List α) (i : Nat) :
    (sites items)[i]? = items[i]?.map fun item =>
      { previous := if i = 0 then none else items[i - 1]?, item, following := items[i + 1]? } := by
  simp [sites]

/-- The items of the sites are the items of the list. -/
theorem map_item_sites {α : Type} (items : List α) : (sites items).map Site.item = items := by
  apply List.ext_getElem <;> simp [sites]

theorem item_mem_of_mem_sites {α : Type} {items : List α} {site : Site α} (h : site ∈ sites items) :
    site.item ∈ items := by
  rw [← map_item_sites items]
  exact List.mem_map_of_mem h

end Lindenmayer
