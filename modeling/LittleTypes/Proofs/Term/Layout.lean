import LittleTypes.Term.Print
import Mathlib.Data.List.TakeWhile

/-!
# The layout of written terms

A written term is a text of words and of groups in parentheses.  Where the words can be told from
what stands around them, a text has only one layout: no other words and groups are written the same.
-/

namespace LittleTypes

/-! ## Texts and their layout -/

/-- What stands between words. -/
def isDelimiter (c : Char) : Bool := c == ' ' || c == '(' || c == ')'

/-- A text of words and of groups in parentheses.  A group has at least one part. -/
inductive Layout
  | word (w : String)
  | group (first : Layout) (rest : List Layout)

namespace Layout

mutual

/-- The characters of a text. -/
def text : Layout → List Char
  | word w => w.toList
  | group p ps => '(' :: (p.text ++ (textAfter ps ++ [')']))

/-- The characters of the further parts of a group. -/
def textAfter : List Layout → List Char
  | [] => []
  | p :: ps => ' ' :: (p.text ++ textAfter ps)

end

mutual

/-- All words can be told from what stands around them. -/
def Clear : Layout → Prop
  | word w => w ≠ "" ∧ ∀ c ∈ w.toList, !isDelimiter c
  | group p ps => p.Clear ∧ ClearAll ps

def ClearAll : List Layout → Prop
  | [] => True
  | p :: ps => p.Clear ∧ ClearAll ps

end

/-- No word goes on at the beginning of a text. -/
def Breaks (s : List Char) : Prop := ∀ c ∈ s.head?, isDelimiter c

theorem breaks_cons {c : Char} (h : isDelimiter c) (s : List Char) : Breaks (c :: s) := by
  simpa [Breaks] using h

/-- A word goes as far as there is no delimiter. -/
theorem takeWhile_word {w s : List Char} (hw : ∀ c ∈ w, !isDelimiter c) (hs : Breaks s) :
    (w ++ s).takeWhile (fun c ↦ !isDelimiter c) = w := by
  rw [List.takeWhile_append_of_pos hw]
  cases s with
  | nil => simp
  | cons c s => simp [show isDelimiter c from hs c rfl]

/-- Two words that begin a text and break off in it are the same. -/
theorem word_unique {v w r s : List Char} (hv : ∀ c ∈ v, !isDelimiter c)
    (hw : ∀ c ∈ w, !isDelimiter c) (hr : Breaks r) (hs : Breaks s) (h : v ++ r = w ++ s) :
    v = w ∧ r = s := by
  have hvw : v = w := by rw [← takeWhile_word hv hr, h, takeWhile_word hw hs]
  subst hvw
  exact ⟨rfl, List.append_cancel_left h⟩

/-- A word does not begin like a group. -/
theorem word_ne_group {w : String} (hw : (word w).Clear) {r s : List Char} :
    w.toList ++ r ≠ '(' :: s := by
  obtain ⟨hne, hw⟩ := hw
  intro h
  cases hl : w.toList with
  | nil => exact hne (String.toList_eq_nil_iff.1 hl)
  | cons c cs =>
    rw [hl, List.cons_append, List.cons.injEq] at h
    have := hw c (by simp [hl])
    rw [h.1] at this
    exact absurd this (by decide)

theorem clearAll_iff {ps : List Layout} : ClearAll ps ↔ ∀ p ∈ ps, p.Clear := by
  induction ps with
  | nil => simp [ClearAll]
  | cons p ps ih => simp [ClearAll, ih]

theorem clearAll_append {ps qs : List Layout} (hp : ClearAll ps) (hq : ClearAll qs) :
    ClearAll (ps ++ qs) := by
  rw [clearAll_iff] at *
  exact List.forall_mem_append.2 ⟨hp, hq⟩

theorem breaksAfter (ps : List Layout) (s : List Char) : Breaks (textAfter ps ++ ([')'] ++ s)) := by
  cases ps with
  | nil => exact breaks_cons (by decide) _
  | cons p ps => exact breaks_cons (by decide) _

mutual

/-- A text has only one layout, wherever it ends. -/
theorem text_unique (p q : Layout) (hp : p.Clear) (hq : q.Clear) {r s : List Char} (hr : Breaks r)
    (hs : Breaks s) (h : p.text ++ r = q.text ++ s) : p = q ∧ r = s := by
  match p, q with
  | word v, word w =>
    obtain ⟨hvw, hrs⟩ := word_unique hp.2 hq.2 hr hs h
    exact ⟨congrArg word (String.toList_injective hvw), hrs⟩
  | word v, group q qs => exact absurd h (word_ne_group hp)
  | group p ps, word w => exact absurd h.symm (word_ne_group hq)
  | group p ps, group q qs =>
    simp only [text, List.cons_append, List.append_assoc, List.cons.injEq, true_and] at h
    obtain ⟨hpq, h⟩ := text_unique p q hp.1 hq.1 (breaksAfter ps _) (breaksAfter qs _) h
    obtain ⟨hpqs, hrs⟩ := textAfter_unique ps qs hp.2 hq.2 h
    exact ⟨by rw [hpq, hpqs], hrs⟩

theorem textAfter_unique (ps qs : List Layout) (hp : ClearAll ps) (hq : ClearAll qs)
    {r s : List Char} (h : textAfter ps ++ ([')'] ++ r) = textAfter qs ++ ([')'] ++ s)) :
    ps = qs ∧ r = s := by
  match ps, qs with
  | [], [] => exact ⟨rfl, by simpa [textAfter] using h⟩
  | [], q :: qs => simp [textAfter] at h
  | p :: ps, [] => simp [textAfter] at h
  | p :: ps, q :: qs =>
    simp only [textAfter, List.cons_append, List.append_assoc, List.cons.injEq, true_and] at h
    obtain ⟨hpq, h⟩ := text_unique p q hp.1 hq.1 (breaksAfter ps _) (breaksAfter qs _) h
    obtain ⟨hpqs, hrs⟩ := textAfter_unique ps qs hp.2 hq.2 h
    exact ⟨by rw [hpq, hpqs], hrs⟩

end

/-- A form is a group that begins with its word. -/
def clause (w : String) (ps : List Layout) : Layout := group (word w) ps

/-- What a head and its arguments make together; without arguments it is the head alone. -/
def applied : Layout × List Layout → Layout
  | (p, []) => p
  | (p, q :: qs) => group p (q :: qs)

theorem clear_applied {p : Layout} {ps : List Layout} (hp : p.Clear) (hps : ClearAll ps) :
    (applied (p, ps)).Clear := by
  cases ps with
  | nil => exact hp
  | cons q qs => exact ⟨hp, hps⟩

end Layout

namespace Term

open Layout

/-- How a term is laid out: as a head and, if the term is an application, its arguments. -/
def spine : Term → Layout × List Layout
  | missing => (word "nil", [])
  | var x => (word x, [])
  | hole _ _ => (word "TODO", [])
  | the t e => (clause "the" [applied t.spine, applied e.spine], [])
  | app f a => (f.spine.1, f.spine.2 ++ [applied a.spine])
  | numeral n => (word (toString n), [])
  | quote s => (word ("'" ++ s), [])
  | lam x b => (clause "λ" [group (word x) [], applied b.spine], [])
  | pi x a b =>
    (clause "Π" [group (group (word x) [applied a.spine]) [], applied b.spine], [])
  | sigma x a b =>
    (clause "Σ" [group (group (word x) [applied a.spine]) [], applied b.spine], [])
  | const k => (word k.keyword, [])
  | unary k a => (clause k.keyword [applied a.spine], [])
  | binary k a b => (clause k.keyword [applied a.spine, applied b.spine], [])
  | equal t l r => (clause "=" [applied t.spine, applied l.spine, applied r.spine], [])
  | project k t => (clause k.keyword [applied t.spine], [])
  | recursor k t baseType base s =>
    (clause k.keyword [applied t.spine, clause "the" [applied baseType.spine, applied base.spine],
      applied s.spine], [])
  | induct k t m b s =>
    (clause k.keyword [applied t.spine, applied m.spine, applied b.spine, applied s.spine], [])
  | transport k t m b => (clause k.keyword [applied t.spine, applied m.spine, applied b.spine], [])
  | indAbsurd t m => (clause "ind-Absurd" [applied t.spine, applied m.spine], [])
  | trans l r => (clause "trans" [applied l.spine, applied r.spine], [])
  | cong t c f => (clause "cong" [applied t.spine, applied c.spine, applied f.spine], [])
  | indVec n t m b s =>
    (clause "ind-Vec" [applied n.spine, applied t.spine, applied m.spine, applied b.spine,
      applied s.spine], [])

/-- How a term is laid out. -/
def layout (t : Term) : Layout := applied t.spine

/-! ## Writing -/

theorem text_group (p q : Layout) (ps : List Layout) :
    (applied (p, ps ++ [q])).text = '(' :: (p.text ++ (textAfter (ps ++ [q]) ++ [')'])) := by
  cases ps <;> rfl

theorem textAfter_append (ps qs : List Layout) :
    textAfter (ps ++ qs) = textAfter ps ++ textAfter qs := by
  induction ps with
  | nil => rfl
  | cons p ps ih => simp [textAfter, ih]

/-- A term is written as it is laid out. -/
theorem toList_renderIn (t : Term) :
    (t.renderIn true).toList = t.spine.1.text ++ textAfter t.spine.2 ∧
      (t.renderIn false).toList = t.layout.text := by
  induction t with
  | app f a ihf iha =>
    have hs : (f.renderIn true ++ " " ++ a.renderIn false).toList =
        f.spine.1.text ++ textAfter (f.spine.2 ++ [a.layout]) := by
      simp [ihf.1, iha.2, textAfter_append, textAfter]
    refine ⟨hs, ?_⟩
    rw [layout, spine, ← layout, text_group]
    simp [renderIn, ihf.1, iha.2, textAfter_append, textAfter]
  | _ =>
    simp_all [renderIn, Term.form, binderForm, spine, layout, applied, clause, text, textAfter]

theorem toList_render (t : Term) : t.render.toList = t.layout.text := (toList_renderIn t).2

end Term

end LittleTypes
