import SetAssoc.Line

/-!
# Lines with a part of every way forgotten

Two runs of a cache can be compared by forgetting the part of each way in which they differ. These
lemmas say what a map over the ways of a line leaves alone.
-/

namespace SetAssoc

open Std (ExtTreeMap)

section

variable {α β : Type} {m : ExtTreeMap Nat α} {k : Nat} {f : α → β}

theorem map_empty : (∅ : ExtTreeMap Nat α).map (fun _ => f) = ∅ := by
  apply ExtTreeMap.ext_getElem?
  simp

theorem map_insert (v : α) :
    (m.insert k v).map (fun _ => f) = (m.map fun _ => f).insert k (f v) := by
  apply ExtTreeMap.ext_getElem?
  intro other
  simp only [ExtTreeMap.getElem?_map, ExtTreeMap.getElem?_insert]
  split <;> rfl

theorem map_alter {change : α → α} {after : β → β} (commutes : ∀ v, f (change v) = after (f v)) :
    (m.alter k (Option.map change)).map (fun _ => f) =
      (m.map fun _ => f).alter k (Option.map after) := by
  apply ExtTreeMap.ext_getElem?
  intro other
  simp only [ExtTreeMap.getElem?_map, ExtTreeMap.getElem?_alter]
  split
  · cases m[k]? <;> simp [commutes]
  · rfl

end

namespace Line

variable {l : Line} {f : Way → Way}

theorem way_map (empty : f Way.empty = Way.empty) (i : Nat) :
    way (l.map fun _ => f) i = f (l.way i) := by
  rw [way, way, ExtTreeMap.getElem?_map]
  cases l[i]? with
  | none => exact empty.symm
  | some _ => rfl

theorem find?_toList_map {p : Nat × Way → Bool} (blind : ∀ i w, p (i, f w) = p (i, w)) :
    ((l.map fun _ => f).toList.find? p).map Prod.fst = (l.toList.find? p).map Prod.fst := by
  rw [ExtTreeMap.toList_map, List.find?_map, Option.map_map]
  have same : (p ∘ fun entry : Nat × Way => (entry.1, f entry.2)) = p := by
    funext ⟨i, w⟩
    exact blind i w
  rw [same]
  rfl

end Line

end SetAssoc
