import LittleTypes.Proofs.Legal.Reader
import Mathlib.Order.Bounds.Defs

/-!
# The first unused name

A hint that is in use is given the first larger subscript that makes it unused.  Its own subscript
is the run of subscript digits that it ends in, read as a number; a run that is too long for a number
is left where it is, as if it were part of the name.
-/

namespace LittleTypes

namespace Subscript

/-- The name does not end in a subscript digit. -/
def Plain (x : String) : Prop := ∀ c ∈ x.toList.getLast?, digit? c = none

/-- The number that subscript digits write. -/
def number (ds : List Char) : Nat := ds.foldl (fun n c ↦ n * 10 + (digit? c).getD 0) 0

section Split

variable {base : String} {ds : List Char}

/-- Seen from its end, a name that does not end in a subscript digit has none. -/
theorem Plain.takeWhile_reverse (h : Plain base) :
    (base.toList.reverse.takeWhile fun c ↦ (digit? c).isSome) = [] := by
  rcases List.eq_nil_or_concat base.toList with hb | ⟨cs, c, hb⟩
  · rw [hb]
    rfl
  · have hc : digit? c = none := h c (by simp [hb])
    rw [hb]
    simp [hc]

/-- A name is taken apart where its subscript digits begin, unless there are too many of them. -/
theorem split_append (hb : Plain base) (hds : ∀ c ∈ ds, (digit? c).isSome) :
    split (base ++ String.ofList ds) =
      if ds.length ≤ maxDigits then (base, number ds) else (base ++ String.ofList ds, 0) := by
  have htail : ((base ++ String.ofList ds).toList.reverse.takeWhile fun c ↦ (digit? c).isSome) =
      ds.reverse := by
    rw [String.toList_append, String.toList_ofList, List.reverse_append,
      List.takeWhile_append_of_pos (by simpa using hds), hb.takeWhile_reverse, List.append_nil]
  rw [split, htail, List.length_reverse, List.foldr_reverse]
  by_cases h : ds.length ≤ maxDigits
  · rw [if_neg (Nat.not_lt.2 h), if_pos h]
    simp [number]
  · rw [if_pos (Nat.not_le.1 h), if_neg h]

end Split

/-! ## Numbers as subscripts -/

section Render

variable {m : Nat}

theorem toList_render (hm : 0 < m) :
    (render m).toList = (Nat.toDigits 10 m).map fun c ↦ ofDigit (c.toNat - '0'.toNat) := by
  rw [render, if_neg (Nat.ne_of_gt hm), String.toList_ofList]

/-- A decimal digit is written as the subscript digit of the same value. -/
theorem digit?_of_mem_toDigits {c : Char} (hc : c ∈ Nat.toDigits 10 m) :
    digit? (ofDigit (c.toNat - '0'.toNat)) = some (c.toNat - '0'.toNat) := by
  have hd : c.isDigit := Nat.isDigit_of_mem_toDigits (by decide) (by decide) hc
  exact digit?_ofDigit _ (toNat_of_isDigit hd).2

theorem isSome_digit?_of_mem_render (hm : 0 < m) {c : Char} (hc : c ∈ (render m).toList) :
    (digit? c).isSome := by
  rw [toList_render hm] at hc
  obtain ⟨d, hd, rfl⟩ := List.mem_map.1 hc
  rw [digit?_of_mem_toDigits hd]
  rfl

/-- The digits of a number write this number. -/
theorem number_render (hm : 0 < m) : number (render m).toList = m := by
  rw [toList_render hm, number, List.foldl_map]
  calc
    _ = (Nat.toDigits 10 m).foldl (fun n c ↦ 10 * n + (c.toNat - '0'.toNat)) 0 := by
      refine List.foldl_ext _ _ _ fun n c hc ↦ ?_
      rw [digit?_of_mem_toDigits hc, Option.getD_some, Nat.mul_comm]
    _ = Nat.ofDigitChars 10 (Nat.toDigits 10 m) 0 := Nat.ofDigitChars_eq_foldl.symm
    _ = m := Nat.ofDigitChars_toDigits (by decide) (by decide)

/-- The numbers that can be read are those with at most nine digits. -/
theorem length_render_le_iff (hm : 0 < m) :
    (render m).toList.length ≤ maxDigits ↔ m ≤ 999999999 := by
  rw [toList_render hm, List.length_map, maxDigits,
    Nat.length_toDigits_le_iff (by decide) (by decide)]
  exact Nat.lt_succ_iff

/-- A number that is written as a subscript is read as the same number. -/
theorem split_append_render {base : String} (hb : Plain base) (hm : 0 < m) (hle : m ≤ 999999999) :
    split (base ++ render m) = (base, m) := by
  have h := split_append hb fun c hc ↦ isSome_digit?_of_mem_render (c := c) hm hc
  rwa [String.ofList_toList, if_pos ((length_render_le_iff hm).2 hle), number_render hm] at h

end Render

end Subscript

/-! ## The search -/

/-- A name that is made of a hint where some names are in use: the hint itself if it is unused, and
else the hint with the least larger subscript that is unused. -/
structure FirstUnused (used : List String) (hint x : String) : Prop where
  eq_hint : hint ∉ used → x = hint
  eq_subscript : hint ∈ used → ∃ m, x = (Subscript.split hint).1 ++ Subscript.render m ∧
    IsLeast {k | (Subscript.split hint).2 < k ∧
      (Subscript.split hint).1 ++ Subscript.render k ∉ used} m ∧
    m ≤ (Subscript.split hint).2 + used.length + 1
  not_mem : x ∉ used
  isVariableName : isVariableName hint → isVariableName x

namespace Fresh

variable (used : List String) (base : String)

/-- The search stops at some candidate, and it has found all candidates before that one used. -/
theorem exists_search_eq (bound n : Nat) :
    ∃ m, search used base bound n = base ++ Subscript.render m ∧ n < m ∧ m ≤ n + bound + 1 ∧
      ∀ k, n < k → k < m → base ++ Subscript.render k ∈ used := by
  induction bound generalizing n with
  | zero => exact ⟨n + 1, rfl, by omega, by omega, fun k hk hkm ↦ by omega⟩
  | succ bound ih =>
    rw [search]
    split
    · rename_i hused
      obtain ⟨m, hm, hlt, hle, hbefore⟩ := ih (n + 1)
      refine ⟨m, hm, by omega, by omega, fun k hk hkm ↦ ?_⟩
      by_cases hfirst : k = n + 1
      · subst hfirst
        simpa using hused
      · exact hbefore k (by omega) hkm
    · exact ⟨n + 1, rfl, by omega, by omega, fun k hk hkm ↦ by omega⟩

/-- The search ends with the least subscript that is unused. -/
theorem exists_search_isLeast (n : Nat) :
    ∃ m, search used base used.length n = base ++ Subscript.render m ∧
      IsLeast {k | n < k ∧ base ++ Subscript.render k ∉ used} m ∧ m ≤ n + used.length + 1 := by
  obtain ⟨m, hm, hlt, hle, hbefore⟩ := exists_search_eq used base used.length n
  have hunused : base ++ Subscript.render m ∉ used := hm ▸ search_not_mem used base n
  refine ⟨m, hm, ⟨⟨hlt, hunused⟩, fun k hk ↦ ?_⟩, hle⟩
  by_contra hkm
  exact hk.2 (hbefore k hk.1 (Nat.not_le.1 hkm))

end Fresh

theorem firstUnused_freshName (used : List String) (hint : String) :
    FirstUnused used hint (freshName used hint) where
  eq_hint h := by simp [freshName, h]
  eq_subscript h := by
    have heq : freshName used hint =
        Fresh.search used (Subscript.split hint).1 used.length (Subscript.split hint).2 := by
      simp [freshName, h]
    rw [heq]
    exact Fresh.exists_search_isLeast used _ _
  not_mem := freshName_not_mem used hint
  isVariableName h := isVariableName_freshName h used

/-- **Fresh names.**  Whatever names are in use, the search for a fresh name ends: it gives the hint
if that is unused, and else the hint with the least larger subscript that makes it unused, which is
a variable name if the hint is one.  This is how names are chosen that are not bound in a context,
and names that do not occur in a term either.

The subscript of a name is the number that the subscript digits at its end write, if there are at
most nine of them; so every number from 1 to 999999999 that is written as a subscript is read as the
same number. -/
theorem freshName_first_unused :
    (∀ used hint, FirstUnused used hint (freshName used hint)) ∧
    (∀ (Γ : Context) hint, FirstUnused Γ.names hint (Γ.fresh hint)) ∧
    (∀ (Γ : Context) t hint, FirstUnused (Γ.names ++ t.names) hint (Γ.freshBinder t hint)) ∧
    (∀ base ds, Subscript.Plain base → (∀ c ∈ ds, (Subscript.digit? c).isSome) →
      Subscript.split (base ++ String.ofList ds) =
        if ds.length ≤ 9 then (base, Subscript.number ds) else (base ++ String.ofList ds, 0)) ∧
    ∀ base m, Subscript.Plain base → 1 ≤ m → m ≤ 999999999 →
      Subscript.split (base ++ Subscript.render m) = (base, m) :=
  ⟨firstUnused_freshName, fun Γ ↦ firstUnused_freshName Γ.names,
    fun Γ t ↦ firstUnused_freshName (Γ.names ++ t.names), fun _ _ ↦ Subscript.split_append,
    fun _ _ ↦ Subscript.split_append_render⟩

/-- The next subscript is used and the one after it has a digit more.  Ten digits are no subscript. -/
theorem freshName_first_unused_carry :
    "x₈" ∈ ["x", "x₈", "x₉"] ∧ FirstUnused ["x", "x₈", "x₉"] "x₈" "x₁₀" ∧
    Subscript.Plain "x" ∧ Subscript.split "x₀₀₀₀₀₀₀₀₀₀" = ("x₀₀₀₀₀₀₀₀₀₀", 0) ∧
    Subscript.split ("x" ++ Subscript.render 10) = ("x", 10) := by
  have hx : Subscript.Plain "x" := by
    intro c hc
    obtain rfl : 'x' = c := by simpa using hc
    decide
  have hzeros : ∀ c ∈ List.replicate 10 '₀', (Subscript.digit? c).isSome := by
    intro c hc
    rw [List.eq_of_mem_replicate hc]
    decide
  refine ⟨by decide, freshName_first_unused.1 ["x", "x₈", "x₉"] "x₈", hx, ?_, ?_⟩
  · exact freshName_first_unused.2.2.2.1 "x" (List.replicate 10 '₀') hx hzeros
  · exact freshName_first_unused.2.2.2.2 "x" 10 hx (by decide) (by decide)

end LittleTypes
