import LittleTypes.Term.Alpha

/-!
# Nameless forms

A term without the names of its bound variables: a bound variable is the level of its binder, that
is the number of binders around that binder.  Variables that are not bound keep their names.

Two elements of the empty type are never told apart, so a second form, in which what stands below
an annotation with the empty type is replaced by one and the same unfinished expression, is what
comparing terms up to the names of their bound variables compares.
-/

namespace LittleTypes

/-- A term whose bound variables are levels. -/
inductive Nameless
  | missing
  | var (i : Nat)
  | free (x : String)
  | hole (loc : Location) (type : Nameless)
  | the (type e : Nameless)
  | app (f a : Nameless)
  | numeral (n : Nat)
  | quote (s : String)
  | lam (body : Nameless)
  | pi (dom cod : Nameless)
  | sigma (fst snd : Nameless)
  | const (k : Const)
  | unary (k : Unary) (a : Nameless)
  | binary (k : Binary) (a b : Nameless)
  | equal (type lhs rhs : Nameless)
  | project (k : Projection) (target : Nameless)
  | recursor (k : Recursor) (target baseType base step : Nameless)
  | induct (k : Induction) (target motive base step : Nameless)
  | transport (k : Transport) (target motive base : Nameless)
  | indAbsurd (target motive : Nameless)
  | trans (left right : Nameless)
  | cong (target cod f : Nameless)
  | indVec (len target motive base step : Nameless)
deriving DecidableEq

/-- Which names are bound, and by the binder of which level. -/
abbrev Levels := String → Option Nat

namespace Levels

/-- No name is bound. -/
def none : Levels := fun _ ↦ Option.none

/-- One more name is bound. -/
def bind (θ : Levels) (x : String) (k : Nat) : Levels := fun y ↦ if y = x then some k else θ y

@[simp] theorem bind_self (θ : Levels) (x : String) (k : Nat) : θ.bind x k x = some k := by
  simp [bind]

theorem bind_of_ne (θ : Levels) {x y : String} (k : Nat) (h : y ≠ x) : θ.bind x k y = θ y := by
  simp [bind, h]

end Levels

/-- The nameless form of a term, given what its names mean outside and the number of binders
around it. -/
def Term.nameless (θ : Levels) (k : Nat) : Term → Nameless
  | missing => .missing
  | var x =>
    match θ x with
    | some i => .var i
    | none => .free x
  | hole l t => .hole l (t.nameless θ k)
  | the t e => .the (t.nameless θ k) (e.nameless θ k)
  | app f a => .app (f.nameless θ k) (a.nameless θ k)
  | numeral n => .numeral n
  | quote s => .quote s
  | lam x b => .lam (b.nameless (θ.bind x k) (k + 1))
  | pi x a b => .pi (a.nameless θ k) (b.nameless (θ.bind x k) (k + 1))
  | sigma x a b => .sigma (a.nameless θ k) (b.nameless (θ.bind x k) (k + 1))
  | const c => .const c
  | unary c a => .unary c (a.nameless θ k)
  | binary c a b => .binary c (a.nameless θ k) (b.nameless θ k)
  | equal t l r => .equal (t.nameless θ k) (l.nameless θ k) (r.nameless θ k)
  | project c t => .project c (t.nameless θ k)
  | recursor c t baseType b s =>
    .recursor c (t.nameless θ k) (baseType.nameless θ k) (b.nameless θ k) (s.nameless θ k)
  | induct c t m b s =>
    .induct c (t.nameless θ k) (m.nameless θ k) (b.nameless θ k) (s.nameless θ k)
  | transport c t m b => .transport c (t.nameless θ k) (m.nameless θ k) (b.nameless θ k)
  | indAbsurd t m => .indAbsurd (t.nameless θ k) (m.nameless θ k)
  | trans l r => .trans (l.nameless θ k) (r.nameless θ k)
  | cong t c f => .cong (t.nameless θ k) (c.nameless θ k) (f.nameless θ k)
  | indVec n t m b s =>
    .indVec (n.nameless θ k) (t.nameless θ k) (m.nameless θ k) (b.nameless θ k) (s.nameless θ k)

namespace Term

variable (θ : Levels) (k : Nat)

/-- The nameless form of a variable is a level or a name. -/
@[simp] theorem nameless_var_eq_iff (x : String) (N : Nameless) :
    (var x).nameless θ k = N ↔
      (∃ i, θ x = some i ∧ N = .var i) ∨ (θ x = none ∧ N = .free x) := by
  simp only [nameless]
  split
  · rename_i i hi
    simp [hi, eq_comm]
  · rename_i hi
    simp [hi, eq_comm]

@[simp] theorem nameless_missing : missing.nameless θ k = .missing := rfl

@[simp] theorem nameless_hole (l : Location) (t : Term) :
    (hole l t).nameless θ k = .hole l (t.nameless θ k) := rfl

@[simp] theorem nameless_the (t e : Term) :
    (the t e).nameless θ k = .the (t.nameless θ k) (e.nameless θ k) := rfl

@[simp] theorem nameless_app (f a : Term) :
    (app f a).nameless θ k = .app (f.nameless θ k) (a.nameless θ k) := rfl

@[simp] theorem nameless_numeral (n : Nat) : (numeral n).nameless θ k = .numeral n := rfl

@[simp] theorem nameless_quote (s : String) : (quote s).nameless θ k = .quote s := rfl

@[simp] theorem nameless_lam (x : String) (b : Term) :
    (lam x b).nameless θ k = .lam (b.nameless (θ.bind x k) (k + 1)) := rfl

@[simp] theorem nameless_pi (x : String) (a b : Term) :
    (pi x a b).nameless θ k = .pi (a.nameless θ k) (b.nameless (θ.bind x k) (k + 1)) := rfl

@[simp] theorem nameless_sigma (x : String) (a b : Term) :
    (sigma x a b).nameless θ k = .sigma (a.nameless θ k) (b.nameless (θ.bind x k) (k + 1)) := rfl

@[simp] theorem nameless_const (c : Const) : (const c).nameless θ k = .const c := rfl

@[simp] theorem nameless_unary (c : Unary) (a : Term) :
    (unary c a).nameless θ k = .unary c (a.nameless θ k) := rfl

@[simp] theorem nameless_binary (c : Binary) (a b : Term) :
    (binary c a b).nameless θ k = .binary c (a.nameless θ k) (b.nameless θ k) := rfl

@[simp] theorem nameless_equal (t l r : Term) :
    (equal t l r).nameless θ k = .equal (t.nameless θ k) (l.nameless θ k) (r.nameless θ k) := rfl

@[simp] theorem nameless_project (c : Projection) (t : Term) :
    (project c t).nameless θ k = .project c (t.nameless θ k) := rfl

@[simp] theorem nameless_recursor (c : Recursor) (t baseType b s : Term) :
    (recursor c t baseType b s).nameless θ k =
      .recursor c (t.nameless θ k) (baseType.nameless θ k) (b.nameless θ k) (s.nameless θ k) := rfl

@[simp] theorem nameless_induct (c : Induction) (t m b s : Term) :
    (induct c t m b s).nameless θ k =
      .induct c (t.nameless θ k) (m.nameless θ k) (b.nameless θ k) (s.nameless θ k) := rfl

@[simp] theorem nameless_transport (c : Transport) (t m b : Term) :
    (transport c t m b).nameless θ k =
      .transport c (t.nameless θ k) (m.nameless θ k) (b.nameless θ k) := rfl

@[simp] theorem nameless_indAbsurd (t m : Term) :
    (indAbsurd t m).nameless θ k = .indAbsurd (t.nameless θ k) (m.nameless θ k) := rfl

@[simp] theorem nameless_trans (l r : Term) :
    (trans l r).nameless θ k = .trans (l.nameless θ k) (r.nameless θ k) := rfl

@[simp] theorem nameless_cong (t c f : Term) :
    (cong t c f).nameless θ k = .cong (t.nameless θ k) (c.nameless θ k) (f.nameless θ k) := rfl

@[simp] theorem nameless_indVec (n t m b s : Term) :
    (indVec n t m b s).nameless θ k =
      .indVec (n.nameless θ k) (t.nameless θ k) (m.nameless θ k) (b.nameless θ k)
        (s.nameless θ k) := rfl

end Term

namespace Nameless

/-- The type without elements, written as itself. -/
def isAbsurd : Nameless → Bool
  | const .absurd => true
  | _ => false

theorem isAbsurd_iff {N : Nameless} : N.isAbsurd ↔ N = .const .absurd := by
  cases N with
  | const c => cases c <;> simp [isAbsurd]
  | _ => simp [isAbsurd]

/-- What stands for all elements of the empty type. -/
def anyAbsurd : Nameless := .hole {} (.const .absurd)

/-- The form in which all elements of the empty type are alike. -/
def blur : Nameless → Nameless
  | hole l t => .hole l t.blur
  | the t e => if t.isAbsurd then .the t anyAbsurd else .the t.blur e.blur
  | app f a => .app f.blur a.blur
  | lam b => .lam b.blur
  | pi a b => .pi a.blur b.blur
  | sigma a b => .sigma a.blur b.blur
  | unary c a => .unary c a.blur
  | binary c a b => .binary c a.blur b.blur
  | equal t l r => .equal t.blur l.blur r.blur
  | project c t => .project c t.blur
  | recursor c t baseType b s =>
    if baseType.isAbsurd then .recursor c t.blur baseType anyAbsurd s.blur
    else .recursor c t.blur baseType.blur b.blur s.blur
  | induct c t m b s => .induct c t.blur m.blur b.blur s.blur
  | transport c t m b => .transport c t.blur m.blur b.blur
  | indAbsurd t m => .indAbsurd t.blur m.blur
  | trans l r => .trans l.blur r.blur
  | cong t c f => .cong t.blur c.blur f.blur
  | indVec n t m b s => .indVec n.blur t.blur m.blur b.blur s.blur
  | t => t

theorem isAbsurd_blur (N : Nameless) : N.blur.isAbsurd = N.isAbsurd := by
  cases N <;> simp only [blur] <;> try rfl
  all_goals split <;> rfl

/-- Whether a type is the empty type does not change by blurring. -/
theorem isAbsurd_eq_of_blur_eq {M N : Nameless} (h : M.blur = N.blur) :
    M.isAbsurd = N.isAbsurd := by
  rw [← M.isAbsurd_blur, ← N.isAbsurd_blur, h]

/-- The form as it is, or with all elements of the empty type alike. -/
def mark (c : Bool) (N : Nameless) : Nameless := if c then N.blur else N

end Nameless

end LittleTypes
