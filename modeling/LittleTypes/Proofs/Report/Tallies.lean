import LittleTypes.Report.Tally
import Mathlib.Data.List.Infix
import Mathlib.Data.List.Pairwise

/-!
# Tallies lose nothing

Tallies are filled by recording failures under a name and by adding what is recorded under one name
to what is recorded under another.  A name without a tally of its own that takes over another one
shares it from then on, so after a while any number of names may mean the same tally.

No name ever means two tallies.  So what is recorded under a name is seen under all names that share
its tally and under no others, and whatever is seen once under a name stays in its place.
-/

namespace LittleTypes

/-! ## What names see -/

/-- What can be done to named tallies. -/
inductive Tallies.Step
  | record (x : String) (stops : List Stop)
  | merge (x y : String)

/-- What is seen under each name, and which names mean the same tally. -/
@[ext] structure View where
  stops : String → List Stop
  Shares : String → String → Prop

namespace View

/-- From one view to the next, failures are appended under a name and under those that share its
tally.  The other names see what they have seen, and nobody shares anything new. -/
structure Appends (v v' : View) (x : String) (new : List Stop) : Prop where
  here : ∀ y, y = x ∨ v.Shares x y → v'.stops y = v.stops y ++ new
  elsewhere : ∀ y, ¬(y = x ∨ v.Shares x y) → v'.stops y = v.stops y
  shares_iff : ∀ y z, v'.Shares y z ↔ v.Shares y z ∨ y = x ∧ z = x

/-- From one view to the next, a name joins the tally of another.  It sees and shares what the other
one does, and for all others nothing else changes. -/
structure Joins (v v' : View) (x y : String) : Prop where
  here : v'.stops x = v.stops y
  elsewhere : ∀ z, z ≠ x → v'.stops z = v.stops z
  shares_iff : ∀ z w, v'.Shares z w ↔ v.Shares (if z = x then y else z) (if w = x then y else w)

/-- From one view to the next, a step is made.  What is merged into a name with a tally is appended,
be it of the same tally or not, and a name without a tally joins the other one's, if there is one.
-/
def Next (v v' : View) : Tallies.Step → Prop
  | .record x new => v.Appends v' x new
  | .merge x y =>
    (v.Shares x x → v.Appends v' x (v.stops y)) ∧ (¬v.Shares x x → v.Joins v' x y)

variable {v v₁ v₂ : View} {x y : String} {new : List Stop} {s : Tallies.Step}

theorem Appends.eq (h₁ : v.Appends v₁ x new) (h₂ : v.Appends v₂ x new) : v₁ = v₂ := by
  ext1
  · funext y
    by_cases hy : y = x ∨ v.Shares x y
    · rw [h₁.here y hy, h₂.here y hy]
    · rw [h₁.elsewhere y hy, h₂.elsewhere y hy]
  · funext y z
    rw [h₁.shares_iff, h₂.shares_iff]

theorem Joins.eq (h₁ : v.Joins v₁ x y) (h₂ : v.Joins v₂ x y) : v₁ = v₂ := by
  ext1
  · funext z
    by_cases hz : z = x
    · rw [hz, h₁.here, h₂.here]
    · rw [h₁.elsewhere z hz, h₂.elsewhere z hz]
  · funext z w
    rw [h₁.shares_iff, h₂.shares_iff]

/-- There is only one view that a step leads to. -/
theorem Next.eq (h₁ : v.Next v₁ s) (h₂ : v.Next v₂ s) : v₁ = v₂ := by
  cases s with
  | record x new => exact Appends.eq h₁ h₂
  | merge x y =>
    by_cases hx : v.Shares x x
    · exact (h₁.1 hx).eq (h₂.1 hx)
    · exact (h₁.2 hx).eq (h₂.2 hx)

theorem Appends.isPrefix (h : v.Appends v₁ x new) (y : String) : v.stops y <+: v₁.stops y := by
  by_cases hy : y = x ∨ v.Shares x y
  · rw [h.here y hy]
    exact List.prefix_append _ _
  · rw [h.elsewhere y hy]

/-- What is seen stays in its place, if nothing is seen under names without a tally. -/
theorem Next.isPrefix (h : v.Next v₁ s) (hv : ∀ x, ¬v.Shares x x → v.stops x = []) (x : String) :
    v.stops x <+: v₁.stops x := by
  cases s with
  | record y new => exact Appends.isPrefix h x
  | merge y z =>
    by_cases hy : v.Shares y y
    · exact (h.1 hy).isPrefix x
    · by_cases hx : x = y
      · rw [hx, hv y hy]
        exact List.nil_prefix
      · rw [(h.2 hy).elsewhere x hx]

end View

namespace Tallies

/-- The two names mean the same tally.  A name without a tally shares none, not even with itself. -/
def Shares (ts : Tallies) (x y : String) : Prop := ∃ t ∈ ts, x ∈ t.owners ∧ y ∈ t.owners

/-- What names see of the tallies. -/
def view (ts : Tallies) : View := ⟨ts.stops, ts.Shares⟩

@[simp] theorem stops_view (ts : Tallies) (x : String) : ts.view.stops x = ts.stops x := rfl

@[simp] theorem shares_view (ts : Tallies) (x y : String) :
    ts.view.Shares x y ↔ ts.Shares x y := Iff.rfl

/-- No name means two tallies. -/
def Separate (ts : Tallies) : Prop := ts.Pairwise fun t u ↦ t.owners.Disjoint u.owners

section Lookup

variable {ts : Tallies} {t u : Tally} {x y : String}

theorem Separate.eq_of_mem (h : ts.Separate) (ht : t ∈ ts) (hu : u ∈ ts) (hxt : x ∈ t.owners)
    (hxu : x ∈ u.owners) : t = u := by
  have : Std.Symm fun t u : Tally ↦ t.owners.Disjoint u.owners := ⟨fun _ _ h _ hu ht ↦ h ht hu⟩
  by_contra hne
  exact List.Pairwise.forall h ht hu hne hxt hxu

theorem isSome_find?_iff : (ts.find? x).isSome ↔ ts.Shares x x := by
  rw [find?, List.find?_isSome]
  constructor
  · rintro ⟨t, ht, hx⟩
    have hx : x ∈ t.owners := by simpa using hx
    exact ⟨t, ht, hx, hx⟩
  · rintro ⟨t, ht, hx, -⟩
    exact ⟨t, ht, by simpa using hx⟩

theorem find?_eq_none (h : ¬ts.Shares x x) : ts.find? x = none := by
  rwa [← isSome_find?_iff, Option.not_isSome_iff_eq_none] at h

theorem exists_find?_eq_some (h : ts.Shares x x) : ∃ t, ts.find? x = some t :=
  Option.isSome_iff_exists.1 (isSome_find?_iff.2 h)

/-- Whoever owns a tally sees what is in it. -/
theorem stops_eq (h : ts.Separate) (ht : t ∈ ts) (hx : x ∈ t.owners) : ts.stops x = t.stops := by
  obtain ⟨u, hu⟩ := exists_find?_eq_some ⟨t, ht, hx, hx⟩
  have hxu : x ∈ u.owners := by simpa using List.find?_some hu
  rw [stops, hu, h.eq_of_mem ht (List.mem_of_find?_eq_some hu) hx hxu]
  rfl

theorem stops_eq_nil (h : ¬ts.Shares x x) : ts.stops x = [] := by
  rw [stops, find?_eq_none h]
  rfl

end Lookup

/-! ## Changing a tally

The owners of the tallies after the change are said in terms of those before it, by giving the name
under which each name was known. -/

section Update

variable {ts : Tallies} {x y z : String} {f : Tally → Tally} {σ : String → String}

theorem update_eq_map :
    ts.update x f = ts.map fun t ↦ if x ∈ t.owners then f t else t := by
  simp [update]

variable (hf : ∀ t ∈ ts, ∀ y, y ∈ (if x ∈ t.owners then f t else t).owners ↔ σ y ∈ t.owners)

include hf

theorem shares_update : (ts.update x f).Shares y z ↔ ts.Shares (σ y) (σ z) := by
  rw [update_eq_map]
  constructor
  · rintro ⟨_, hu, hy, hz⟩
    obtain ⟨t, ht, rfl⟩ := List.mem_map.1 hu
    exact ⟨t, ht, (hf t ht y).1 hy, (hf t ht z).1 hz⟩
  · rintro ⟨t, ht, hy, hz⟩
    exact ⟨_, List.mem_map_of_mem ht, (hf t ht y).2 hy, (hf t ht z).2 hz⟩

theorem Separate.update (h : ts.Separate) : (ts.update x f).Separate := by
  rw [update_eq_map, Separate, List.pairwise_map]
  refine List.Pairwise.imp_of_mem (fun {t u} ht hu hd y hyt hyu ↦ ?_) h
  exact hd ((hf t ht y).1 hyt) ((hf u hu y).1 hyu)

theorem stops_update (h : ts.Separate) {t : Tally} (ht : t ∈ ts) (hy : σ y ∈ t.owners) :
    (ts.update x f).stops y = (if x ∈ t.owners then f t else t).stops := by
  refine stops_eq (h.update hf) ?_ ((hf t ht y).2 hy)
  rw [update_eq_map]
  exact List.mem_map_of_mem ht

theorem stops_update_eq_nil (hy : ¬ts.Shares (σ y) (σ y)) : (ts.update x f).stops y = [] :=
  stops_eq_nil (mt (shares_update hf).1 hy)

end Update

/-! ## Recording -/

section Record

variable {ts : Tallies} {x : String} {new : List Stop}

theorem record_of_shares (h : ts.Shares x x) :
    ts.record x new = ts.update x fun t ↦ { t with stops := t.stops ++ new } := by
  obtain ⟨t, ht⟩ := exists_find?_eq_some h
  rw [record, ht]

theorem record_of_not_shares (h : ¬ts.Shares x x) : ts.record x new = ⟨[x], new⟩ :: ts := by
  rw [record, find?_eq_none h]

variable (x new) in
/-- Recording leaves the owners of a tally as they are. -/
theorem mem_owners_record (t : Tally) (y : String) :
    y ∈ (if x ∈ t.owners then { t with stops := t.stops ++ new } else t).owners ↔
      id y ∈ t.owners := by
  split <;> rfl

theorem Separate.record (h : ts.Separate) : (ts.record x new).Separate := by
  by_cases hx : ts.Shares x x
  · rw [record_of_shares hx]
    exact h.update fun t _ ↦ mem_owners_record x new t
  · rw [record_of_not_shares hx]
    refine List.pairwise_cons.2 ⟨fun t ht ↦ ?_, h⟩
    rw [List.singleton_disjoint]
    exact fun hxt ↦ hx ⟨t, ht, hxt, hxt⟩

theorem appends_record_of_shares (h : ts.Separate) (hx : ts.Shares x x) :
    ts.view.Appends (ts.record x new).view x new := by
  rw [record_of_shares hx]
  have hf := fun (t : Tally) (_ : t ∈ ts) ↦ mem_owners_record x new t
  refine ⟨fun y hy ↦ ?_, fun y hy ↦ ?_, fun y z ↦ ?_⟩
  · obtain ⟨t, ht, hxt, hyt⟩ : ts.Shares x y := by
      rcases hy with rfl | hy
      · exact hx
      · exact hy
    rw [stops_view, stops_view, stops_update hf h ht hyt, stops_eq h ht hyt, if_pos hxt]
  · by_cases hyy : ts.Shares y y
    · obtain ⟨t, ht, hyt, -⟩ := hyy
      have hxt : x ∉ t.owners := fun hxt ↦ hy (.inr ⟨t, ht, hxt, hyt⟩)
      rw [stops_view, stops_view, stops_update hf h ht hyt, stops_eq h ht hyt, if_neg hxt]
    · rw [stops_view, stops_view, stops_update_eq_nil hf hyy, stops_eq_nil hyy]
  · rw [shares_view, shares_update hf]
    refine ⟨.inl, ?_⟩
    rintro (h | ⟨rfl, rfl⟩)
    · exact h
    · exact hx

theorem appends_record (h : ts.Separate) : ts.view.Appends (ts.record x new).view x new := by
  by_cases hx : ts.Shares x x
  · exact appends_record_of_shares h hx
  have hs : (ts.record x new).Separate := h.record
  have hxy (y : String) : ¬ts.Shares x y := fun ⟨t, ht, hxt, _⟩ ↦ hx ⟨t, ht, hxt, hxt⟩
  rw [record_of_not_shares hx] at hs ⊢
  refine ⟨fun y hy ↦ ?_, fun y hy ↦ ?_, fun y z ↦ ?_⟩
  · obtain rfl : y = x := hy.resolve_right (hxy y)
    rw [stops_view, stops_view, stops_eq_nil hx, stops_eq hs List.mem_cons_self List.mem_cons_self,
      List.nil_append]
  · have hne : y ≠ x := fun e ↦ hy (.inl e)
    by_cases hyy : ts.Shares y y
    · obtain ⟨t, ht, hyt, -⟩ := hyy
      rw [stops_view, stops_view, stops_eq hs (List.mem_cons_of_mem _ ht) hyt, stops_eq h ht hyt]
    · rw [stops_view, stops_view, stops_eq_nil hyy, stops_eq_nil]
      rintro ⟨t, _ | ⟨_, ht⟩, hyt, -⟩
      · exact hne (by simpa using hyt)
      · exact hyy ⟨t, ht, hyt, hyt⟩
  · constructor
    · rintro ⟨t, _ | ⟨_, ht⟩, hyt, hzt⟩
      · exact .inr ⟨by simpa using hyt, by simpa using hzt⟩
      · exact .inl ⟨t, ht, hyt, hzt⟩
    · rintro (⟨t, ht, hyt, hzt⟩ | ⟨rfl, rfl⟩)
      · exact ⟨t, List.mem_cons_of_mem _ ht, hyt, hzt⟩
      · exact ⟨_, List.mem_cons_self, List.mem_cons_self, List.mem_cons_self⟩

end Record

/-! ## Merging -/

section Merge

variable {ts : Tallies} {x y : String}

theorem merge_of_shares (h : ts.Shares x x) : ts.merge x y = ts.record x (ts.stops y) := by
  obtain ⟨t, ht⟩ := exists_find?_eq_some h
  rw [merge, ht]

theorem merge_of_not_shares (h : ¬ts.Shares x x) :
    ts.merge x y = ts.update y fun t ↦ { t with owners := x :: t.owners } := by
  rw [merge, find?_eq_none h]

/-- The new owner was known under the name of the one that lets it in. -/
theorem mem_owners_merge (h : ¬ts.Shares x x) (t : Tally) (ht : t ∈ ts) (z : String) :
    z ∈ (if y ∈ t.owners then { t with owners := x :: t.owners } else t).owners ↔
      (if z = x then y else z) ∈ t.owners := by
  have hx : x ∉ t.owners := fun hx ↦ h ⟨t, ht, hx, hx⟩
  by_cases hy : y ∈ t.owners <;> by_cases hz : z = x <;> simp [hy, hz, hx]

theorem Separate.merge (h : ts.Separate) : (ts.merge x y).Separate := by
  by_cases hx : ts.Shares x x
  · rw [merge_of_shares hx]
    exact h.record
  · rw [merge_of_not_shares hx]
    exact h.update (mem_owners_merge hx)

/-- What is seen after a name has joined a tally was seen before under the name it was known by. -/
theorem stops_merge_of_not_shares (h : ts.Separate) (hx : ¬ts.Shares x x) (z : String) :
    (ts.merge x y).stops z = ts.stops (if z = x then y else z) := by
  have hf := mem_owners_merge (y := y) hx
  rw [merge_of_not_shares hx]
  by_cases hz : ts.Shares (if z = x then y else z) (if z = x then y else z)
  · obtain ⟨t, ht, hzt, -⟩ := hz
    rw [stops_update hf h ht hzt, stops_eq h ht hzt]
    split <;> rfl
  · rw [stops_update_eq_nil hf hz, stops_eq_nil hz]

theorem joins_merge (h : ts.Separate) (hx : ¬ts.Shares x x) :
    ts.view.Joins (ts.merge x y).view x y where
  here := by rw [stops_view, stops_merge_of_not_shares h hx, if_pos rfl, stops_view]
  elsewhere z hz := by rw [stops_view, stops_merge_of_not_shares h hx, if_neg hz, stops_view]
  shares_iff z w := by
    rw [merge_of_not_shares hx]
    exact shares_update (mem_owners_merge hx)

end Merge

/-! ## Runs -/

/-- The tallies after a step. -/
def Step.apply (ts : Tallies) : Step → Tallies
  | record x stops => ts.record x stops
  | merge x y => ts.merge x y

/-- The tallies after several steps, with which nobody has recorded anything before. -/
def run (steps : List Step) : Tallies := steps.foldl Step.apply []

section Run

variable {ts : Tallies}

theorem Separate.apply (h : ts.Separate) (s : Step) : (s.apply ts).Separate := by
  cases s with
  | record x stops => exact h.record
  | merge x y => exact h.merge

theorem next_apply (h : ts.Separate) (s : Step) : ts.view.Next (s.apply ts).view s := by
  cases s with
  | record x new => exact appends_record h
  | merge x y =>
    refine ⟨fun hx ↦ ?_, fun hx ↦ joins_merge h hx⟩
    rw [Step.apply, merge_of_shares hx]
    exact appends_record h

end Run

end Tallies

end LittleTypes
