import LittleTypes.Proofs.Report.Tallies
import LittleTypes.Report.Ledger

/-!
# Failures are not written over

Failures are written to arrays, and a slice of an array does not keep others from writing to it.
But as long as every failure that is recorded is listed by itself, no two tallies have the same
array with room in it, and only the cells behind a slice are written.  So names see in memory what
they see of the tallies.

This need not be so when the same slice is given to several names, such as the failures that are
already under another name.  A name with a tally copies them, but a name without a tally keeps the
slice, and from then on two tallies have the same array.  No harm is done if the array is full.  But
if there is room in it, the two write to the same cells.
-/

namespace LittleTypes

/-- Arrays that become twice as large. -/
def Growth.doubling : Growth :=
  ⟨fun capacity need ↦ max need (2 * capacity), fun _ _ ↦ Nat.le_max_left ..⟩

/-- Failures that are written behind all others. -/
theorem Backing.cells_write {b : Backing} {new : List Stop}
    (h : b.cells.length + new.length ≤ b.capacity) :
    (b.write b.cells.length new).cells = b.cells ++ new := by
  simp [write, h]

/-- Of two failures that are written to the same cell the second one stays. -/
theorem Backing.cells_write_write {b : Backing} (h : b.cells.length + 1 ≤ b.capacity)
    (e e' : Stop) :
    ((b.write b.cells.length [e]).write b.cells.length [e']).cells = b.cells ++ [e'] := by
  have hdrop : b.cells.drop (b.cells.length + 1) = [] := List.drop_eq_nil_of_le (Nat.le_succ _)
  simp [write, h, hdrop]

@[simp] theorem Backing.write_nil (b : Backing) (i : Nat) : b.write i [] = b := by
  simp [write]

@[simp] theorem Backing.capacity_write (b : Backing) (i : Nat) (new : List Stop) :
    (b.write i new).capacity = b.capacity := by
  unfold write
  split <;> rfl

namespace Ledger

variable {l : Ledger} {g : Growth} {s t : Slice} {b : Backing} {i j : Nat} {x y : String}
  {new : List Stop}

/-- The two names mean the same tally. -/
def Shares (l : Ledger) (x y : String) : Prop := ∃ i, l.tally? x = some i ∧ l.tally? y = some i

/-- What names see of the tallies in memory. -/
def view (l : Ledger) : View := ⟨l.stops, l.Shares⟩

/-- The slice is all that has been written to its array. -/
def Fills (l : Ledger) (s : Slice) : Prop :=
  ∃ b, l.arrays[s.array]? = some b ∧ b.cells.length = s.length

/-- Every tally has all that has been written to its array, and an array with room in it belongs to
one tally only. -/
structure Sound (l : Ledger) : Prop where
  named : ∀ {x i}, l.tally? x = some i → ∃ s, l.tallies[i]? = some s
  fills : ∀ {i : Nat} {s : Slice}, l.tallies[i]? = some s → l.Fills s
  apart : ∀ {i j : Nat} {s t : Slice}, l.tallies[i]? = some s → l.tallies[j]? = some t →
    s.array = t.array → i = j ∨ l.room s = 0

theorem sound_empty : Sound {} := ⟨nofun, nofun, nofun⟩

/-! ## What is seen -/

theorem stopsAt_eq (h : l.tallies[i]? = some s) : l.stopsAt i = l.read s := by
  rw [stopsAt, h]

theorem stops_eq (h : l.tally? x = some i) : l.stops x = l.stopsAt i := by
  rw [stops, h]

theorem stops_eq_nil (h : l.tally? x = none) : l.stops x = [] := by
  rw [stops, h]

theorem not_shares_iff : ¬l.Shares x x ↔ l.tally? x = none := by
  rw [Option.eq_none_iff_forall_ne_some]
  exact ⟨fun h i hi ↦ h ⟨i, hi, hi⟩, fun h ⟨i, hi, _⟩ ↦ h i hi⟩

theorem Fills.eq (hs : l.Fills s) (ht : l.Fills t) (e : s.array = t.array) : s = t := by
  obtain ⟨b, hb, hlen⟩ := hs
  obtain ⟨b', hb', hlen'⟩ := ht
  rw [e, hb'] at hb
  cases hb
  obtain ⟨a, n⟩ := s
  obtain ⟨a', n'⟩ := t
  exact congr (congrArg Slice.mk e) (hlen.symm.trans hlen')

theorem Sound.array_lt (h : l.Sound) (hs : l.tallies[i]? = some s) : s.array < l.arrays.length := by
  obtain ⟨b, hb, -⟩ := h.fills hs
  exact (List.getElem?_eq_some_iff.1 hb).1

theorem read_eq_take (hb : l.arrays[s.array]? = some b) : l.read s = b.cells.take s.length := by
  rw [read, hb]

/-- The slice of a tally is all of its array. -/
theorem Sound.read_eq (h : l.Sound) (hs : l.tallies[i]? = some s)
    (hb : l.arrays[s.array]? = some b) : l.read s = b.cells := by
  obtain ⟨b', hb', hlen⟩ := h.fills hs
  cases hb.symm.trans hb'
  rw [read_eq_take hb, ← hlen]
  exact List.take_length

/-! ## Adding to a tally -/

/-- What it takes to add failures to a tally: the slice it gets has all of them, and the arrays of
the other tallies are as they were. -/
structure Added (l l' : Ledger) (i : Nat) (s s' : Slice) (new : List Stop) : Prop where
  tallies : l'.tallies = l.tallies
  names : l'.names = l.names
  here : ∃ b, l'.arrays[s'.array]? = some b ∧ b.cells = l.read s ++ new ∧ s'.length = b.cells.length
  elsewhere : ∀ {j : Nat} {t : Slice}, j ≠ i → l.tallies[j]? = some t →
    l'.arrays[t.array]? = l.arrays[t.array]? ∧ (t.array = s'.array → l.room t = 0)

theorem Sound.added (h : l.Sound) (hs : l.tallies[i]? = some s) (g : Growth) (new : List Stop) :
    l.Added (l.append g s new).1 i s (l.append g s new).2 new := by
  obtain ⟨b, hb, hlen⟩ := h.fills hs
  have hread := h.read_eq hs hb
  unfold append
  split
  · -- in place, behind all that has been written
    next hroom =>
    have hfits : b.cells.length + new.length ≤ b.capacity := by
      have := b.fits
      simp only [room, hb, ← hlen] at hroom
      omega
    refine ⟨rfl, rfl, ⟨b.write s.length new, by simp [hb], ?_, ?_⟩, fun {j t} hj ht ↦ ?_⟩
    · rw [← hlen, Backing.cells_write hfits, hread]
    · rw [← hlen, Backing.cells_write hfits, List.length_append]
    · by_cases e : t.array = s.array
      · -- another tally has the array, and then nothing can have been written
        have hfull : l.room t = 0 := (h.apart ht hs e).resolve_left hj
        obtain rfl : t = s := (h.fills ht).eq (h.fills hs) e
        obtain rfl : new = [] := List.length_eq_zero_iff.1 (by omega)
        exact ⟨by simp [hb], fun _ ↦ hfull⟩
      · exact ⟨List.getElem?_modify_ne _ _ (Ne.symm e), fun e' ↦ absurd e' e⟩
  · -- copied to a new array
    refine ⟨rfl, rfl, ⟨_, List.getElem?_concat_length, rfl, ?_⟩, fun {j t} hj ht ↦ ?_⟩
    · change s.length + new.length = (l.read s ++ new).length
      rw [List.length_append, hread, hlen]
    · exact ⟨List.getElem?_append_left (h.array_lt ht), fun e ↦ absurd e (h.array_lt ht).ne⟩

section Extend

variable (h : l.Sound) (hs : l.tallies[i]? = some s)

include h hs

theorem extend_eq : l.extend g i new =
    { (l.append g s new).1 with tallies := l.tallies.set i (l.append g s new).2 } := by
  rw [extend, hs, ← (h.added hs g new).tallies]

theorem tally?_extend : (l.extend g i new).tally? x = l.tally? x := by
  rw [extend_eq h hs, tally?, tally?, (h.added hs g new).names]

theorem getElem?_tallies_extend :
    (l.extend g i new).tallies[i]? = some (l.append g s new).2 := by
  rw [extend_eq h hs]
  exact List.getElem?_set_self (List.getElem?_eq_some_iff.1 hs).1

theorem getElem?_tallies_extend_of_ne (hj : j ≠ i) :
    (l.extend g i new).tallies[j]? = l.tallies[j]? := by
  rw [extend_eq h hs]
  exact List.getElem?_set_ne hj.symm

theorem arrays_extend : (l.extend g i new).arrays = (l.append g s new).1.arrays := by
  rw [extend_eq h hs]

/-- Only the tally that is added to is another one. -/
theorem stopsAt_extend (j : Nat) :
    (l.extend g i new).stopsAt j = if j = i then l.stopsAt i ++ new else l.stopsAt j := by
  have ha := h.added hs g new
  split
  · next e =>
    subst e
    obtain ⟨b, hb, hcells, hlen⟩ := ha.here
    rw [stopsAt_eq (getElem?_tallies_extend h hs), stopsAt_eq hs, read, arrays_extend h hs, hb,
      hlen, ← hcells]
    exact List.take_length
  · next hj =>
    rw [stopsAt, stopsAt, getElem?_tallies_extend_of_ne h hs hj]
    cases ht : l.tallies[j]? with
    | none => rfl
    | some t => simp only [read, arrays_extend h hs, (ha.elsewhere hj ht).1]

theorem room_extend (hj : j ≠ i) (ht : l.tallies[j]? = some t) :
    (l.extend g i new).room t = l.room t := by
  have ha := h.added hs g new
  simp only [room, arrays_extend h hs, (ha.elsewhere hj ht).1]

theorem fills_extend (ht : (l.extend g i new).tallies[j]? = some t) :
    (l.extend g i new).Fills t := by
  have ha := h.added hs g new
  rw [Fills, arrays_extend h hs]
  by_cases hj : j = i
  · obtain ⟨b, hb, -, hlen⟩ := ha.here
    rw [hj, getElem?_tallies_extend h hs] at ht
    cases ht
    exact ⟨b, hb, hlen.symm⟩
  · rw [getElem?_tallies_extend_of_ne h hs hj] at ht
    rw [(ha.elsewhere hj ht).1]
    exact h.fills ht

theorem Sound.extend : (l.extend g i new).Sound := by
  have ha := h.added hs g new
  have old : ∀ {j : Nat} {t : Slice}, j ≠ i → (l.extend g i new).tallies[j]? = some t →
      l.tallies[j]? = some t := fun hj ht ↦ (getElem?_tallies_extend_of_ne h hs hj).symm.trans ht
  -- an older array that the added failures are in is full
  have full : ∀ {j : Nat} {t u : Slice}, j ≠ i → (l.extend g i new).tallies[i]? = some t →
      (l.extend g i new).tallies[j]? = some u → u.array = t.array →
        u = t ∧ (l.extend g i new).room u = 0 := by
    intro j t u hj ht hu e
    refine ⟨(fills_extend h hs hu).eq (fills_extend h hs ht) e, ?_⟩
    rw [getElem?_tallies_extend h hs] at ht
    cases ht
    rw [room_extend h hs hj (old hj hu)]
    exact (ha.elsewhere hj (old hj hu)).2 e
  refine ⟨fun {x j} hx ↦ ?_, fills_extend h hs, fun {j k t u} ht hu e ↦ ?_⟩
  · by_cases hj : j = i
    · subst hj
      exact ⟨_, getElem?_tallies_extend h hs⟩
    · rw [getElem?_tallies_extend_of_ne h hs hj]
      exact h.named ((tally?_extend h hs).symm.trans hx)
  · by_cases hj : j = i <;> by_cases hk : k = i
    · exact .inl (hj.trans hk.symm)
    · subst hj
      obtain ⟨rfl, hfull⟩ := full hk ht hu e.symm
      exact .inr hfull
    · subst hk
      exact .inr (full hj hu ht e).2
    · rw [room_extend h hs hj (old hj ht)]
      exact h.apart (old hj ht) (old hk hu) e

end Extend

theorem Sound.extend_of_tally (h : l.Sound) (hx : l.tally? x = some i) :
    (l.extend g i new).Sound := by
  obtain ⟨s, hs⟩ := h.named hx
  exact h.extend hs

theorem appends_extend (h : l.Sound) (hx : l.tally? x = some i) :
    l.view.Appends (l.extend g i new).view x new := by
  obtain ⟨s, hs⟩ := h.named hx
  have hstops : ∀ y j, l.tally? y = some j → (l.extend g i new).stops y =
      if j = i then l.stops y ++ new else l.stops y := by
    intro y j hy
    rw [stops_eq ((tally?_extend h hs).trans hy), stopsAt_extend h hs, stops_eq hy]
    split
    · next e => rw [e]
    · rfl
  have hshares : ∀ y z, (l.extend g i new).Shares y z ↔ l.Shares y z := fun y z ↦ by
    simp only [Shares, tally?_extend h hs]
  refine ⟨fun y hy ↦ ?_, fun y hy ↦ ?_, fun y z ↦ ?_⟩
  · have hy : l.tally? y = some i := by
      rcases hy with rfl | ⟨j, hj, hy⟩
      · exact hx
      · rwa [Option.some.inj (hx.symm.trans hj)]
    exact (hstops y i hy).trans (if_pos rfl)
  · cases hyj : l.tally? y with
    | none => exact (stops_eq_nil ((tally?_extend h hs).trans hyj)).trans (stops_eq_nil hyj).symm
    | some j =>
      have hj : j ≠ i := fun e ↦ hy (.inr ⟨i, hx, e ▸ hyj⟩)
      exact (hstops y j hyj).trans (if_neg hj)
  · refine (hshares y z).trans ⟨.inl, ?_⟩
    rintro (h | ⟨rfl, rfl⟩)
    · exact h
    · exact ⟨i, hx, hx⟩

/-! ## New tallies -/

theorem tally?_of_names (l l' : Ledger) (h : l'.names = (x, i) :: l.names) (y : String) :
    l'.tally? y = if y = x then some i else l.tally? y := by
  rw [tally?, h, List.lookup_cons]
  split <;> simp_all [tally?]

theorem stopsAt_keep (h : l.tallies[i]? = some t) : (l.keep x s).stopsAt i = l.stopsAt i := by
  have ht : (l.keep x s).tallies[i]? = some t :=
    (List.getElem?_append_left (List.getElem?_eq_some_iff.1 h).1).trans h
  rw [stopsAt_eq h, stopsAt_eq ht]
  rfl

/-- What is seen under a name for which a slice is kept is what is in the slice. -/
theorem appends_keep (h : ∀ {y i}, l.tally? y = some i → ∃ t, l.tallies[i]? = some t)
    (hx : l.tally? x = none) : l.view.Appends (l.keep x s).view x (l.read s) := by
  have htally := tally?_of_names l (l.keep x s) rfl
  have hnew : ∀ y, l.tally? y ≠ some l.tallies.length := fun y hy ↦ by
    obtain ⟨t, ht⟩ := h hy
    exact Nat.lt_irrefl _ (List.getElem?_eq_some_iff.1 ht).1
  have hno : ∀ y, ¬l.Shares x y := fun y ⟨i, hi, _⟩ ↦ by cases hx.symm.trans hi
  refine ⟨fun y hy ↦ ?_, fun y hy ↦ ?_, fun y z ↦ ?_⟩
  · obtain rfl : y = x := hy.resolve_right (hno y)
    have hs : (l.keep y s).tallies[l.tallies.length]? = some s := List.getElem?_concat_length
    change (l.keep y s).stops y = l.stops y ++ l.read s
    rw [stops_eq ((htally y).trans (if_pos rfl)), stopsAt_eq hs, stops_eq_nil hx]
    rfl
  · have hy : (l.keep x s).tally? y = l.tally? y := (htally y).trans (if_neg fun e ↦ hy (.inl e))
    change (l.keep x s).stops y = l.stops y
    cases hyi : l.tally? y with
    | none => rw [stops_eq_nil (hy.trans hyi), stops_eq_nil hyi]
    | some i =>
      obtain ⟨t, ht⟩ := h hyi
      rw [stops_eq (hy.trans hyi), stops_eq hyi, stopsAt_keep ht]
  · change (∃ i, (l.keep x s).tally? y = some i ∧ (l.keep x s).tally? z = some i) ↔
      (∃ i, l.tally? y = some i ∧ l.tally? z = some i) ∨ y = x ∧ z = x
    rw [htally, htally]
    by_cases hy : y = x <;> by_cases hz : z = x <;> simp [hy, hz, hx, hnew]

theorem Sound.keep (h : l.Sound) (hb : l.Fills s)
    (hs : ∀ {i : Nat} {t : Slice}, l.tallies[i]? = some t → t.array = s.array → l.room s = 0) :
    (l.keep x s).Sound := by
  have cases : ∀ {i : Nat} {t : Slice}, (l.keep x s).tallies[i]? = some t →
      l.tallies[i]? = some t ∨ i = l.tallies.length ∧ t = s := by
    intro i t ht
    change (l.tallies ++ [s])[i]? = some t at ht
    grind
  refine ⟨fun {y i} hy ↦ ?_, fun {i t} ht ↦ ?_, fun {i j t u} ht hu e ↦ ?_⟩
  · rw [tally?_of_names l _ rfl] at hy
    split at hy
    · cases hy
      exact ⟨s, List.getElem?_concat_length⟩
    · obtain ⟨t, ht⟩ := h.named hy
      exact ⟨t, (List.getElem?_append_left (List.getElem?_eq_some_iff.1 ht).1).trans ht⟩
  · obtain ht | ⟨-, rfl⟩ := cases ht
    · exact h.fills ht
    · exact hb
  · obtain ht' | ⟨rfl, rfl⟩ := cases ht <;> obtain hu' | ⟨rfl, rfl⟩ := cases hu
    · exact h.apart ht' hu' e
    · obtain rfl : t = u := (h.fills ht').eq hb e
      exact .inr (hs ht' rfl)
    · exact .inr (hs hu' e.symm)
    · exact .inl rfl

/-! ## New arrays -/

section Make

variable (h : l.Sound)

include h

theorem getElem?_arrays_make (hs : l.tallies[i]? = some s) :
    (l.make b).arrays[s.array]? = l.arrays[s.array]? :=
  List.getElem?_append_left (h.array_lt hs)

theorem Sound.make : (l.make b).Sound where
  named hx := h.named hx
  fills hs := by
    rw [Fills, getElem?_arrays_make h hs]
    exact h.fills hs
  apart hs ht e := by
    rw [room, getElem?_arrays_make h hs]
    exact h.apart hs ht e

theorem stopsAt_make (i : Nat) : (l.make b).stopsAt i = l.stopsAt i := by
  cases hs : l.tallies[i]? with
  | none =>
    have hs' : (l.make b).tallies[i]? = none := hs
    rw [stopsAt, stopsAt, hs, hs']
  | some s =>
    have hs' : (l.make b).tallies[i]? = some s := hs
    rw [stopsAt_eq hs, stopsAt_eq hs', read, read, getElem?_arrays_make h hs]

theorem view_make : (l.make b).view = l.view := by
  ext1
  · funext x
    change (l.make b).stops x = l.stops x
    cases hx : l.tally? x with
    | none =>
      have hx' : (l.make b).tally? x = none := hx
      rw [stops_eq_nil hx, stops_eq_nil hx']
    | some i =>
      have hx' : (l.make b).tally? x = some i := hx
      rw [stops_eq hx, stops_eq hx', stopsAt_make h]
  · rfl

end Make

/-! ## Steps -/

theorem give_of_tally (hx : l.tally? x = some i) : l.give g x s = l.extend g i (l.read s) := by
  rw [give, hx]

theorem give_of_no_tally (hx : l.tally? x = none) : l.give g x s = l.keep x s := by
  rw [give, hx]

/-- To give a slice appends the failures in it, whoever else has the slice. -/
theorem appends_give (h : l.Sound) : l.view.Appends (l.give g x s).view x (l.read s) := by
  cases hx : l.tally? x with
  | some i =>
    rw [give_of_tally hx]
    exact appends_extend h hx
  | none =>
    rw [give_of_no_tally hx]
    exact appends_keep h.named hx

/-- A slice can be given to a name with a tally, which copies it, and to other names if no tally has
its array or there is no room in it. -/
def Harmless (l : Ledger) (x : String) (s : Slice) : Prop :=
  l.tally? x = none → ∀ (i : Nat) (t : Slice), l.tallies[i]? = some t → t.array = s.array →
    l.room s = 0

theorem Sound.give (h : l.Sound) (hs : l.Fills s) (hsafe : l.Harmless x s) :
    (l.give g x s).Sound := by
  cases hx : l.tally? x with
  | some i =>
    rw [give_of_tally hx]
    exact h.extend_of_tally hx
  | none =>
    rw [give_of_no_tally hx]
    exact h.keep hs fun ht e ↦ hsafe hx _ _ ht e

theorem read_make_ofList (spare : Nat) :
    (l.make (.ofList new spare)).read ⟨l.arrays.length, new.length⟩ = new := by
  simp [read, make, Backing.ofList]

theorem Sound.record (h : l.Sound) {spare : Nat} : (l.record g x new spare).Sound :=
  h.make.give ⟨_, List.getElem?_concat_length, rfl⟩ fun _ _ _ ht e ↦ absurd e (h.array_lt ht).ne

theorem appends_record (h : l.Sound) {spare : Nat} :
    l.view.Appends (l.record g x new spare).view x new := by
  have hgive := appends_give (g := g) (x := x) (s := ⟨l.arrays.length, new.length⟩)
    (h.make (b := .ofList new spare))
  rwa [read_make_ofList, view_make h] at hgive

theorem merge_of_tally (hx : l.tally? x = some i) :
    l.merge g x y = l.extend g i (l.stops y) := by
  rw [merge, hx]

/-- A name without a tally means the tally of the other one, if there is one. -/
theorem merge_of_no_tally (hx : l.tally? x = none) :
    (l.merge g x y).arrays = l.arrays ∧ (l.merge g x y).tallies = l.tallies ∧
      ∀ z, (l.merge g x y).tally? z = l.tally? (if z = x then y else z) := by
  rw [merge, hx]
  cases hy : l.tally? y with
  | some j =>
    refine ⟨rfl, rfl, fun z ↦ ?_⟩
    rw [tally?_of_names l _ rfl]
    split
    · exact hy.symm
    · rfl
  | none =>
    refine ⟨rfl, rfl, fun z ↦ ?_⟩
    by_cases hz : z = x
    · rw [if_pos hz, hz]
      exact hx.trans hy.symm
    · rw [if_neg hz]

theorem Sound.merge (h : l.Sound) : (l.merge g x y).Sound := by
  cases hx : l.tally? x with
  | some i =>
    rw [merge_of_tally hx]
    exact h.extend_of_tally hx
  | none =>
    obtain ⟨ha, ht, hn⟩ := merge_of_no_tally (g := g) (y := y) hx
    refine ⟨fun hz ↦ ?_, fun hs ↦ ?_, fun hs hu ↦ ?_⟩
    · rw [ht]
      exact h.named ((hn _).symm.trans hz)
    · rw [Fills, ha]
      exact h.fills (ht ▸ hs)
    · simpa only [room, ha] using h.apart (ht ▸ hs) (ht ▸ hu)

theorem joins_merge (hx : l.tally? x = none) : l.view.Joins (l.merge g x y).view x y := by
  obtain ⟨ha, ht, hn⟩ := merge_of_no_tally (g := g) (y := y) hx
  have hstops : ∀ z, (l.merge g x y).stops z = l.stops (if z = x then y else z) := fun z ↦ by
    simp only [stops, stopsAt, read, ha, ht, hn]
  refine ⟨(hstops x).trans (by rw [if_pos rfl]; rfl), fun z hz ↦ (hstops z).trans ?_, fun z w ↦ ?_⟩
  · rw [if_neg hz]
    rfl
  · change (∃ i, _ = some i ∧ _ = some i) ↔ _
    rw [hn, hn]
    rfl

/-! ## Runs -/

/-- The ledger after a step.  There is some room to spare where failures are listed. -/
def apply (g : Growth) (l : Ledger) : Tallies.Step × Nat → Ledger
  | (.record x new, spare) => l.record g x new spare
  | (.merge x y, _) => l.merge g x y

/-- The ledger after several steps, before which there was nothing in it. -/
def run (g : Growth) (steps : List (Tallies.Step × Nat)) : Ledger := steps.foldl (apply g) {}

theorem Sound.apply (h : l.Sound) (s : Tallies.Step × Nat) : (l.apply g s).Sound := by
  obtain ⟨_ | _, spare⟩ := s
  · exact h.record
  · exact h.merge

theorem next_apply (h : l.Sound) (s : Tallies.Step × Nat) : l.view.Next (l.apply g s).view s.1 := by
  obtain ⟨⟨x, new⟩ | ⟨x, y⟩, spare⟩ := s
  · exact appends_record h
  · refine ⟨?_, fun hx ↦ joins_merge (not_shares_iff.1 hx)⟩
    rintro ⟨i, hx, -⟩
    rw [apply, merge_of_tally hx]
    exact appends_extend h hx

theorem Sound.foldl_apply (h : l.Sound) (steps : List (Tallies.Step × Nat)) :
    (steps.foldl (Ledger.apply g) l).Sound := by
  induction steps generalizing l with
  | nil => exact h
  | cons s steps ih => exact ih (h.apply s)

theorem sound_run (steps : List (Tallies.Step × Nat)) : (run g steps).Sound :=
  sound_empty.foldl_apply steps

theorem isPrefix_foldl_apply (h : l.Sound) (steps : List (Tallies.Step × Nat)) (x : String) :
    l.view.stops x <+: (steps.foldl (apply g) l).view.stops x := by
  induction steps generalizing l with
  | nil => exact List.prefix_refl _
  | cons s steps ih =>
    have hnil : ∀ x, ¬l.Shares x x → l.stops x = [] := fun x hx ↦ stops_eq_nil (not_shares_iff.1 hx)
    exact ((next_apply h s).isPrefix hnil x).trans (ih (h.apply s))

/-- Names see in memory what they see of the tallies. -/
theorem view_foldl_apply {ts : Tallies} (h : l.Sound) (hts : ts.Separate) (e : l.view = ts.view)
    (steps : List (Tallies.Step × Nat)) : (steps.foldl (apply g) l).view =
      ((steps.map Prod.fst).foldl Tallies.Step.apply ts : Tallies).view := by
  induction steps generalizing l ts with
  | nil => exact e
  | cons s steps ih =>
    have hnext := Tallies.next_apply hts s.1
    rw [← e] at hnext
    exact ih (h.apply s) (hts.apply s.1) ((next_apply h s).eq hnext)

theorem view_empty : ({} : Ledger).view = Tallies.view [] := by
  ext x y
  · rfl
  · exact ⟨fun ⟨_, h, _⟩ ↦ (nomatch h), fun ⟨_, h, _⟩ ↦ (nomatch h)⟩

/-- Nothing is written over after a slice has been given without harm. -/
theorem isPrefix_give (h : l.Sound) (hs : l.Fills s) (hsafe : l.Harmless x s)
    (steps : List (Tallies.Step × Nat)) (z : String) :
    l.view.stops z <+: (steps.foldl (apply g) (l.give g x s)).view.stops z :=
  ((appends_give h).isPrefix z).trans (isPrefix_foldl_apply (h.give hs hsafe) steps z)

/-- What is done when there is room, whoever else has the array. -/
theorem record_in_place (hx : l.tally? x = some i) (hs : l.tallies[i]? = some s)
    (hb : l.arrays[s.array]? = some b) (new : List Stop)
    (hroom : s.length + new.length ≤ b.capacity) (k : Nat) :
    (l.record g x new k).names = l.names ∧
      (l.record g x new k).tallies = l.tallies.set i ⟨s.array, s.length + new.length⟩ ∧
      (l.record g x new k).arrays[s.array]? = some (b.write s.length new) := by
  have hb' : (l.make (.ofList new k)).arrays[s.array]? = some b :=
    (List.getElem?_append_left (List.getElem?_eq_some_iff.1 hb).1).trans hb
  have hs' : (l.make (.ofList new k)).tallies[i]? = some s := hs
  have hroom' : new.length ≤ (l.make (.ofList new k)).room s := by
    simp only [room, hb']
    omega
  have hx' : (l.make (.ofList new k)).tally? x = some i := hx
  rw [record, give_of_tally hx', read_make_ofList]
  simp only [extend, hs', append, if_pos hroom']
  exact ⟨rfl, rfl, by simp [hb']⟩

/-- **A slice that is given is not copied.**  If a name without a tally is given the failures under
another name, and there is room behind them, then the next failure under the other name is written
over by the next failure under this one, though the names share no tally. -/
theorem give_overwrites (h : l.Sound) (hx : l.tally? x = none) (hy : l.tally? y = some i)
    (hs : l.tallies[i]? = some s) (hroom : 0 < l.room s) (e e' : Stop) (k k' : Nat) :
    let l' := ((l.give g x s).record g y [e] k).record g x [e'] k'
    l'.stops y = l.stops y ++ [e'] ∧ ¬l'.Shares x y := by
  intro l'
  obtain ⟨b, hb, hlen⟩ := h.fills hs
  have hi : i < l.tallies.length := (List.getElem?_eq_some_iff.1 hs).1
  have hcap : s.length + 1 ≤ b.capacity := by
    simp only [room, hb] at hroom
    omega
  have hne : y ≠ x := by
    rintro rfl
    cases hx.symm.trans hy
  -- two tallies have the slice
  have htally := tally?_of_names l (l.keep x s) rfl
  have hx₁ : (l.keep x s).tally? x = some l.tallies.length := (htally x).trans (if_pos rfl)
  have hy₁ : (l.keep x s).tally? y = some i := (htally y).trans ((if_neg hne).trans hy)
  have hsx : (l.keep x s).tallies[l.tallies.length]? = some s := List.getElem?_concat_length
  have hsy : (l.keep x s).tallies[i]? = some s := (List.getElem?_append_left hi).trans hs
  -- the other name writes behind it
  obtain ⟨hn₂, ht₂, hb₂⟩ := record_in_place (g := g) hy₁ hsy hb [e] hcap k
  have hx₂ : ((l.keep x s).record g y [e] k).tally? x = some l.tallies.length := by
    rw [tally?, hn₂]
    exact hx₁
  have hsx₂ : ((l.keep x s).record g y [e] k).tallies[l.tallies.length]? = some s := by
    rw [ht₂, List.getElem?_set_ne hi.ne]
    exact hsx
  -- and so does this one
  obtain ⟨hn₃, ht₃, hb₃⟩ := record_in_place (g := g) hx₂ hsx₂ hb₂ [e'] (by simpa using hcap) k'
  have hl' : l' = ((l.keep x s).record g y [e] k).record g x [e'] k' := by
    rw [← give_of_no_tally (g := g) hx]
  have htally' : ∀ z, l'.tally? z = (l.keep x s).tally? z := fun z ↦ by
    rw [tally?, hl', hn₃, hn₂, tally?]
  have hsy₃ : l'.tallies[i]? = some ⟨s.array, s.length + 1⟩ := by
    rw [hl', ht₃, List.getElem?_set_ne hi.ne', ht₂]
    exact List.getElem?_set_self (List.getElem?_eq_some_iff.1 hsy).1
  refine ⟨?_, ?_⟩
  · rw [← hl', ← hlen] at hb₃
    rw [stops_eq ((htally' y).trans hy₁), stopsAt_eq hsy₃,
      read_eq_take (s := ⟨s.array, s.length + 1⟩) hb₃, stops_eq hy, stopsAt_eq hs, h.read_eq hs hb,
      Backing.cells_write_write (hlen ▸ hcap), ← hlen]
    exact List.take_of_length_le (by simp)
  · rintro ⟨j, hxj, hyj⟩
    rw [htally', hx₁] at hxj
    rw [htally', hy₁, ← hxj] at hyj
    exact hi.ne (Option.some.inj hyj)

/-- There is room for one more failure behind that of `q`, and `r` is given the slice. -/
example (s e e' : Stop) :
    ((((run .doubling [(.record "q" [s], 1)]).give .doubling "r" ⟨0, 1⟩).record .doubling "q"
      [e] 0).record .doubling "r" [e'] 0).stops "q" = [s, e'] := by cbv

end Ledger

end LittleTypes
