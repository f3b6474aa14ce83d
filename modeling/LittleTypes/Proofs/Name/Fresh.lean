import LittleTypes.Context.Basic
import Mathlib.Data.List.Nodup
import Mathlib.Data.List.Perm.Subperm

/-!
# Fresh names are fresh

Different numbers have different subscripts, so the candidates for a fresh name are all different,
and one candidate more than there are used names cannot all be used.
-/

namespace LittleTypes

namespace Subscript

theorem toNat_ofDigit {d : Nat} (h : d < 10) : (ofDigit d).toNat = '₀'.toNat + d := by
  have h₀ : '₀'.toNat = 8320 := rfl
  have hv : ('₀'.toNat + d).isValidChar := .inl (by omega)
  rw [ofDigit, Char.ofNat, dif_pos hv]
  rfl

/-- The digit that a subscript character was made from. -/
def digitOf (c : Char) : Char := Char.ofNat (c.toNat - '₀'.toNat + '0'.toNat)

theorem toNat_of_isDigit {c : Char} (h : c.isDigit) :
    '0'.toNat ≤ c.toNat ∧ c.toNat - '0'.toNat < 10 := by
  have hd : '0'.toNat ≤ c.toNat ∧ c.toNat ≤ '9'.toNat := by
    simpa [Char.isDigit, UInt32.le_iff_toNat_le] using h
  have h₀ : '0'.toNat = 48 := rfl
  have h₉ : '9'.toNat = 57 := rfl
  omega

theorem digitOf_ofDigit {c : Char} (h : c.isDigit) :
    digitOf (ofDigit (c.toNat - '0'.toNat)) = c := by
  obtain ⟨hge, hlt⟩ := toNat_of_isDigit h
  rw [digitOf, toNat_ofDigit hlt, Nat.add_sub_cancel_left, Nat.sub_add_cancel hge,
    Char.ofNat_toNat]

/-- The digits of a number can be told from its subscript. -/
theorem map_digitOf (n : Nat) :
    ((Nat.toDigits 10 n).map fun c ↦ ofDigit (c.toNat - '0'.toNat)).map digitOf =
      Nat.toDigits 10 n := by
  rw [List.map_map]
  refine (List.map_congr_left fun c hc ↦ ?_).trans (List.map_id _)
  have hd : c.isDigit := Nat.isDigit_of_mem_toDigits (by decide) (by decide) hc
  rw [Function.comp_apply, digitOf_ofDigit hd, id]

/-- Different numbers are written with different subscripts. -/
theorem render_injective {m n : Nat} (h : render (m + 1) = render (n + 1)) : m = n := by
  simp only [render, Nat.add_one_ne_zero, if_false, String.ofList_inj] at h
  have hd : Nat.toDigits 10 (m + 1) = Nat.toDigits 10 (n + 1) := by
    rw [← map_digitOf (m + 1), h, map_digitOf]
  have hn : m + 1 = n + 1 := by
    rw [← Nat.ofDigitChars_toDigits (b := 10) (n := m + 1) (by decide) (by decide), hd,
      Nat.ofDigitChars_toDigits (by decide) (by decide)]
  exact Nat.succ.inj hn

end Subscript

namespace Fresh

/-- If the name that is found is used, then so are all candidates. -/
theorem mem_of_search_mem {used : List String} {base : String} {bound n : Nat}
    (h : search used base bound n ∈ used) {i : Nat} (hi : i ≤ bound) :
    base ++ Subscript.render (n + i + 1) ∈ used := by
  induction bound generalizing n i with
  | zero =>
    obtain rfl : i = 0 := by omega
    exact h
  | succ bound ih =>
    simp only [search] at h
    split at h
    · rename_i hc
      cases i with
      | zero => simpa using hc
      | succ i =>
        have hm := ih h (i := i) (by omega)
        rwa [show n + 1 + i + 1 = n + (i + 1) + 1 by omega] at hm
    · rename_i hc
      exact absurd h (by simpa using hc)

theorem search_not_mem (used : List String) (base : String) (n : Nat) :
    search used base used.length n ∉ used := by
  intro h
  let candidates := (List.range (used.length + 1)).map fun i ↦ base ++ Subscript.render (n + i + 1)
  have hs : candidates ⊆ used := by
    intro x hx
    obtain ⟨i, hi, rfl⟩ := List.mem_map.1 hx
    exact mem_of_search_mem h (by simpa [Nat.lt_succ_iff] using hi)
  have hn : candidates.Nodup := by
    refine List.Nodup.map (fun i j hij ↦ ?_) List.nodup_range
    have := Subscript.render_injective ((String.append_right_inj base).1 hij)
    omega
  have hl := (hn.subperm hs).length_le
  simp only [candidates, List.length_map, List.length_range] at hl
  omega

end Fresh

/-- A fresh name is not used. -/
theorem freshName_not_mem (used : List String) (hint : String) : freshName used hint ∉ used := by
  rw [freshName]
  split
  · exact Fresh.search_not_mem used _ _
  · rename_i h
    simpa using h

namespace Context

theorem fresh_not_mem (Γ : Context) (hint : String) : Γ.fresh hint ∉ Γ.names :=
  freshName_not_mem Γ.names hint

theorem binds_eq_false_iff {Γ : Context} {x : String} : Γ.binds x = false ↔ x ∉ Γ.names := by
  rw [binds, binding?, Option.isSome_eq_false_iff, Option.isNone_iff_eq_none,
    List.lookup_eq_none_iff, names, List.mem_map, not_exists]
  refine forall_congr' fun p ↦ ?_
  rw [not_and, ← ne_eq, bne_iff_ne, ne_comm]

/-- A name that is not bound can be bound. -/
theorem bindFree_eq_ok {Γ : Context} {x : String} (h : x ∉ Γ.names) (type : Value) :
    Γ.bindFree x type = .ok ((x, .free type) :: Γ) := by
  simp [bindFree, binds_eq_false_iff.2 h, pure, Except.pure]

theorem freshBinder_not_mem (Γ : Context) (t : Term) (hint : String) :
    Γ.freshBinder t hint ∉ Γ.names ∧ Γ.freshBinder t hint ∉ t.names := by
  have h := freshName_not_mem (Γ.names ++ t.names) hint
  rwa [List.mem_append, not_or] at h

end Context

end LittleTypes
