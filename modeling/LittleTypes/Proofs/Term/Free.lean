import LittleTypes.Term.Basic

/-!
# Free names and binders

Every name in a term is free in it or bound somewhere in it.  A term binds new names only, given the
names in use around it, if it binds none of them and never binds a name inside of its own binder.
-/

namespace LittleTypes

namespace Term

/-- The names of the variables that no binder in the term binds. -/
def free : Term → List String
  | missing | numeral _ | quote _ | const _ => []
  | var x => [x]
  | hole _ t => t.free
  | the t e => t.free ++ e.free
  | app f a => f.free ++ a.free
  | lam x b => b.free.filter (· ≠ x)
  | pi x a b | sigma x a b => a.free ++ b.free.filter (· ≠ x)
  | unary _ a => a.free
  | binary _ a b => a.free ++ b.free
  | equal t l r => t.free ++ l.free ++ r.free
  | project _ t => t.free
  | recursor _ t baseType base s => t.free ++ baseType.free ++ base.free ++ s.free
  | induct _ t m b s => t.free ++ m.free ++ b.free ++ s.free
  | transport _ t m b => t.free ++ m.free ++ b.free
  | indAbsurd t m => t.free ++ m.free
  | trans l r => l.free ++ r.free
  | cong t c f => t.free ++ c.free ++ f.free
  | indVec n t m b s => n.free ++ t.free ++ m.free ++ b.free ++ s.free

/-- The names that the binders in the term bind. -/
def binders : Term → List String
  | missing | var _ | numeral _ | quote _ | const _ => []
  | hole _ t => t.binders
  | the t e => t.binders ++ e.binders
  | app f a => f.binders ++ a.binders
  | lam x b => x :: b.binders
  | pi x a b | sigma x a b => x :: (a.binders ++ b.binders)
  | unary _ a => a.binders
  | binary _ a b => a.binders ++ b.binders
  | equal t l r => t.binders ++ l.binders ++ r.binders
  | project _ t => t.binders
  | recursor _ t baseType base s => t.binders ++ baseType.binders ++ base.binders ++ s.binders
  | induct _ t m b s => t.binders ++ m.binders ++ b.binders ++ s.binders
  | transport _ t m b => t.binders ++ m.binders ++ b.binders
  | indAbsurd t m => t.binders ++ m.binders
  | trans l r => l.binders ++ r.binders
  | cong t c f => t.binders ++ c.binders ++ f.binders
  | indVec n t m b s => n.binders ++ t.binders ++ m.binders ++ b.binders ++ s.binders

/-- A name in a term is free or bound. -/
theorem mem_free_or_mem_binders {t : Term} {x : String} (h : x ∈ t.names) :
    x ∈ t.free ∨ x ∈ t.binders := by
  induction t with
  | missing | numeral | quote | const => cases h
  | var y => exact .inl h
  | _ =>
    simp only [names, free, binders, List.mem_append, List.mem_cons, List.mem_filter] at h ⊢
    grind

theorem mem_names_of_mem_free {t : Term} {x : String} (h : x ∈ t.free) : x ∈ t.names := by
  induction t with
  | missing | numeral | quote | const => cases h
  | var y => exact h
  | _ => simp only [names, free, List.mem_append, List.mem_cons, List.mem_filter] at h ⊢; grind

theorem mem_names_of_mem_binders {t : Term} {x : String} (h : x ∈ t.binders) : x ∈ t.names := by
  induction t with
  | missing | var | numeral | quote | const => cases h
  | hole | unary | project => simp only [names, binders] at h ⊢; grind
  | _ => simp only [names, binders, List.mem_append, List.mem_cons] at h ⊢; grind

/-! ## Binders of new names -/

/-- No binder binds a name again that a binder around it binds. -/
def Unshadowed : Term → Prop
  | missing | var _ | numeral _ | quote _ | const _ => True
  | hole _ t => t.Unshadowed
  | the t e => t.Unshadowed ∧ e.Unshadowed
  | app f a => f.Unshadowed ∧ a.Unshadowed
  | lam x b => x ∉ b.binders ∧ b.Unshadowed
  | pi x a b | sigma x a b => a.Unshadowed ∧ x ∉ b.binders ∧ b.Unshadowed
  | unary _ a => a.Unshadowed
  | binary _ a b => a.Unshadowed ∧ b.Unshadowed
  | equal t l r => t.Unshadowed ∧ l.Unshadowed ∧ r.Unshadowed
  | project _ t => t.Unshadowed
  | recursor _ t baseType base s =>
    t.Unshadowed ∧ baseType.Unshadowed ∧ base.Unshadowed ∧ s.Unshadowed
  | induct _ t m b s => t.Unshadowed ∧ m.Unshadowed ∧ b.Unshadowed ∧ s.Unshadowed
  | transport _ t m b => t.Unshadowed ∧ m.Unshadowed ∧ b.Unshadowed
  | indAbsurd t m => t.Unshadowed ∧ m.Unshadowed
  | trans l r => l.Unshadowed ∧ r.Unshadowed
  | cong t c f => t.Unshadowed ∧ c.Unshadowed ∧ f.Unshadowed
  | indVec n t m b s =>
    n.Unshadowed ∧ t.Unshadowed ∧ m.Unshadowed ∧ b.Unshadowed ∧ s.Unshadowed

/-- No binder binds a name in use, where every name is in use in the body of its binder. -/
def BindsNew (used : List String) : Term → Prop
  | missing | var _ | numeral _ | quote _ | const _ => True
  | hole _ t => t.BindsNew used
  | the t e => t.BindsNew used ∧ e.BindsNew used
  | app f a => f.BindsNew used ∧ a.BindsNew used
  | lam x b => x ∉ used ∧ b.BindsNew (x :: used)
  | pi x a b | sigma x a b => x ∉ used ∧ a.BindsNew used ∧ b.BindsNew (x :: used)
  | unary _ a => a.BindsNew used
  | binary _ a b => a.BindsNew used ∧ b.BindsNew used
  | equal t l r => t.BindsNew used ∧ l.BindsNew used ∧ r.BindsNew used
  | project _ t => t.BindsNew used
  | recursor _ t baseType base s =>
    t.BindsNew used ∧ baseType.BindsNew used ∧ base.BindsNew used ∧ s.BindsNew used
  | induct _ t m b s => t.BindsNew used ∧ m.BindsNew used ∧ b.BindsNew used ∧ s.BindsNew used
  | transport _ t m b => t.BindsNew used ∧ m.BindsNew used ∧ b.BindsNew used
  | indAbsurd t m => t.BindsNew used ∧ m.BindsNew used
  | trans l r => l.BindsNew used ∧ r.BindsNew used
  | cong t c f => t.BindsNew used ∧ c.BindsNew used ∧ f.BindsNew used
  | indVec n t m b s =>
    n.BindsNew used ∧ t.BindsNew used ∧ m.BindsNew used ∧ b.BindsNew used ∧ s.BindsNew used

theorem bindsNew_iff {t : Term} {used : List String} :
    t.BindsNew used ↔ (∀ x ∈ t.binders, x ∉ used) ∧ t.Unshadowed := by
  induction t generalizing used with
  | missing | var | numeral | quote | const => simp [BindsNew, Unshadowed, binders]
  | lam | pi | sigma =>
    simp only [BindsNew, Unshadowed, binders, List.mem_append, List.mem_cons, *]
    grind
  | hole | unary | project => simp only [BindsNew, Unshadowed, binders, *]
  | _ =>
    simp only [BindsNew, Unshadowed, binders, List.mem_append, *]
    grind

theorem BindsNew.mono {t : Term} {used used' : List String} (h : used' ⊆ used)
    (ht : t.BindsNew used) : t.BindsNew used' := by
  rw [bindsNew_iff] at ht ⊢
  exact ⟨fun x hx hu ↦ ht.1 x hx (h hu), ht.2⟩

/-- A name that is bound nowhere in a term may come into use around it. -/
theorem BindsNew.cons {t : Term} {used : List String} {x : String} (hx : x ∉ t.binders)
    (ht : t.BindsNew used) : t.BindsNew (x :: used) := by
  rw [bindsNew_iff] at ht ⊢
  refine ⟨fun y hy hu ↦ ?_, ht.2⟩
  obtain rfl | hu := List.mem_cons.1 hu
  · exact hx hy
  · exact ht.1 y hy hu

end Term

end LittleTypes
