import LittleTypes.Proofs.Term.Layout

/-!
# Written terms can be read

The text of a term says what the term is, but for its unfinished expressions, which are only marked.
A text has one layout, and the layout is read: a group is a form if its first word is a word for
forms, and an application otherwise.
-/

namespace LittleTypes

namespace Term

open Layout

/-! ## Reading -/

/-- What is made of one part. -/
def ofOne (f : Term → Term) : List Term → Term
  | [a] => f a
  | _ => missing

/-- What is made of two parts. -/
def ofTwo (f : Term → Term → Term) : List Term → Term
  | [a, b] => f a b
  | _ => missing

/-- What is made of three parts. -/
def ofThree (f : Term → Term → Term → Term) : List Term → Term
  | [a, b, c] => f a b c
  | _ => missing

/-- What is made of four parts. -/
def ofFour (f : Term → Term → Term → Term → Term) : List Term → Term
  | [a, b, c, d] => f a b c d
  | _ => missing

/-- What is made of five parts. -/
def ofFive (f : Term → Term → Term → Term → Term → Term) : List Term → Term
  | [a, b, c, d, e] => f a b c d e
  | _ => missing

/-- A name and what it is bound in. -/
def ofLambda : Term → Term → Term
  | var x, b => lam x b
  | _, _ => missing

/-- A name with its type, read as an application, and what it is bound in. -/
def ofBinder (f : String → Term → Term → Term) : Term → Term → Term
  | app (var x) a, b => f x a b
  | _, _ => missing

/-- A target, an annotated base and a step. -/
def ofRecursor (k : Recursor) : Term → Term → Term → Term
  | t, the c b, s => recursor k t c b s
  | _, _, _ => missing

/-- The words that forms begin with, each with what its form makes of its parts. -/
def forms : List (String × (List Term → Term)) :=
  [("the", ofTwo the), ("λ", ofTwo ofLambda), ("Π", ofTwo (ofBinder pi)),
    ("Σ", ofTwo (ofBinder sigma)), ("=", ofThree equal), ("ind-Absurd", ofTwo indAbsurd),
    ("trans", ofTwo trans), ("cong", ofThree cong), ("ind-Vec", ofFive indVec)] ++
  [Unary.add1, .list, .same, .left, .right].map (fun k ↦ (k.keyword, ofOne (unary k))) ++
  [Binary.cons, .listCons, .vec, .vecCons, .either].map
    (fun k ↦ (k.keyword, ofTwo (binary k))) ++
  [Projection.car, .cdr, .symm, .head, .tail].map (fun k ↦ (k.keyword, ofOne (project k))) ++
  [Recursor.whichNat, .iterNat, .recNat, .recList].map
    (fun k ↦ (k.keyword, ofThree (ofRecursor k))) ++
  [Induction.indNat, .indList, .indEither].map (fun k ↦ (k.keyword, ofFour (induct k))) ++
  [Transport.replace, .indEqual].map fun k ↦ (k.keyword, ofThree (transport k))

theorem lookup_unary (k : Unary) : forms.lookup k.keyword = some (ofOne (unary k)) := by
  cases k <;> rfl

theorem lookup_binary (k : Binary) : forms.lookup k.keyword = some (ofTwo (binary k)) := by
  cases k <;> rfl

theorem lookup_project (k : Projection) : forms.lookup k.keyword = some (ofOne (project k)) := by
  cases k <;> rfl

theorem lookup_recursor (k : Recursor) :
    forms.lookup k.keyword = some (ofThree (ofRecursor k)) := by
  cases k <;> rfl

theorem lookup_induct (k : Induction) : forms.lookup k.keyword = some (ofFour (induct k)) := by
  cases k <;> rfl

theorem lookup_transport (k : Transport) :
    forms.lookup k.keyword = some (ofThree (transport k)) := by
  cases k <;> rfl

/-- The constants. -/
def constants : List Const :=
  [.univ, .nat, .zero, .atom, .trivial, .sole, .nil, .absurd, .vecnil]

/-- The term of a single word. -/
def ofWord (w : String) : Term :=
  if w = "TODO" then hole {} missing
  else if let some k := constants.find? (·.keyword = w) then const k
  else if w.toList.head? = some '\'' then quote (String.ofList w.toList.tail)
  else if w.toList.all Char.isDigit then numeral (Nat.ofDigitChars 10 w.toList 0)
  else var w

end Term

namespace Layout

mutual

/-- The term that is laid out. -/
def read : Layout → Term
  | word w => .ofWord w
  | group (word w) ps =>
    match Term.forms.lookup w with
    | some f => f (readAll ps)
    | none => (readAll ps).foldl .app (.ofWord w)
  | group (group p qs) ps => (readAll ps).foldl .app (group p qs).read

def readAll : List Layout → List Term
  | [] => []
  | p :: ps => p.read :: readAll ps

end

/-- What can stand before arguments. -/
def IsHead : Layout → Prop
  | word w => Term.forms.lookup w = none
  | group _ _ => True

theorem readAll_eq_map (ps : List Layout) : readAll ps = ps.map read := by
  induction ps with
  | nil => rfl
  | cons p ps ih => simp [readAll, ih]

theorem readAll_append (ps qs : List Layout) : readAll (ps ++ qs) = readAll ps ++ readAll qs := by
  simp [readAll_eq_map]

theorem read_group {p : Layout} (hp : p.IsHead) (ps : List Layout) :
    (group p ps).read = (readAll ps).foldl .app p.read := by
  cases p with
  | word w =>
    have hw : Term.forms.lookup w = none := hp
    simp [read, hw]
  | group p qs => simp [read]

theorem read_clause {w : String} {f : List Term → Term} (h : Term.forms.lookup w = some f)
    (ps : List Layout) : (clause w ps).read = f (readAll ps) := by
  simp [clause, read, h]

theorem read_applied {p : Layout} (hp : p.IsHead) (ps : List Layout) :
    (applied (p, ps)).read = (readAll ps).foldl .app p.read := by
  cases ps with
  | nil => rfl
  | cons q qs => exact read_group hp (q :: qs)

end Layout

namespace Term

open Layout

/-- A term of which the location and the type of unfinished expressions are forgotten. -/
def blank : Term → Term
  | missing => missing
  | var x => var x
  | hole _ _ => hole {} missing
  | the t e => the t.blank e.blank
  | app f a => app f.blank a.blank
  | numeral n => numeral n
  | quote s => quote s
  | lam x b => lam x b.blank
  | pi x a b => pi x a.blank b.blank
  | sigma x a b => sigma x a.blank b.blank
  | const k => const k
  | unary k a => unary k a.blank
  | binary k a b => binary k a.blank b.blank
  | equal t l r => equal t.blank l.blank r.blank
  | project k t => project k t.blank
  | recursor k t baseType base s => recursor k t.blank baseType.blank base.blank s.blank
  | induct k t m b s => induct k t.blank m.blank b.blank s.blank
  | transport k t m b => transport k t.blank m.blank b.blank
  | indAbsurd t m => indAbsurd t.blank m.blank
  | trans l r => trans l.blank r.blank
  | cong t c f => cong t.blank c.blank f.blank
  | indVec n t m b s => indVec n.blank t.blank m.blank b.blank s.blank

/-- A name that looks like one: it has no blanks or parentheses, and it looks neither like a quoted
atom nor like a number. -/
def isPlainName (x : String) : Bool :=
  x.toList.all (fun c ↦ !isDelimiter c) && x.toList.head? != some '\'' &&
    !x.toList.all Char.isDigit

theorem forms_subset : ∀ w ∈ forms.map Prod.fst, w ∈ keywords := by decide +kernel

theorem keyword_mem (k : Const) : k.keyword ∈ keywords := by cases k <;> decide

theorem not_mem_keywords {x : String} (h : isVariableName x) : x ∉ keywords := by
  simp only [isVariableName, Bool.and_eq_true, Bool.not_eq_true', List.contains_eq_mem,
    decide_eq_false_iff_not] at h
  exact h.2

/-- No keyword looks like a quoted atom or like a number. -/
theorem keywords_look : ∀ w ∈ keywords,
    w.toList.head? ≠ some '\'' ∧ w.toList.all Char.isDigit = false := by decide +kernel

theorem ofWord_of_not_mem {w : String} (h : w ∉ keywords) :
    ofWord w = if w.toList.head? = some '\'' then quote (String.ofList w.toList.tail)
      else if w.toList.all Char.isDigit then numeral (Nat.ofDigitChars 10 w.toList 0)
      else var w := by
  have hT : w ≠ "TODO" := by
    rintro rfl
    exact h (by decide)
  have hc : constants.find? (·.keyword = w) = none := by
    rw [List.find?_eq_none]
    intro k _ hk
    exact h (of_decide_eq_true hk ▸ keyword_mem k)
  simp [ofWord, hT, hc]

theorem ofWord_var {x : String} (hx : isVariableName x) (hp : isPlainName x) :
    ofWord x = var x := by
  simp only [isPlainName, Bool.and_eq_true, Bool.not_eq_true', bne_iff_ne] at hp
  rw [ofWord_of_not_mem (not_mem_keywords hx), if_neg hp.1.2, if_neg (by simp [hp.2])]

theorem ofWord_const (k : Const) : ofWord k.keyword = const k := by cases k <;> rfl

theorem quote_not_mem (s : String) : "'" ++ s ∉ keywords :=
  fun h ↦ (keywords_look _ h).1 (by simp)

theorem ofWord_quote (s : String) : ofWord ("'" ++ s) = quote s := by
  have hl : ("'" ++ s).toList = '\'' :: s.toList := by simp
  rw [ofWord_of_not_mem (quote_not_mem s), hl, if_pos (by rfl)]
  simp

theorem isDigit_of_mem_toString (n : Nat) : (toString n).toList.all Char.isDigit := by
  rw [List.all_eq_true, show (toString n).toList = Nat.toDigits 10 n by simp]
  exact fun c hc ↦ Nat.isDigit_of_mem_toDigits (by decide) (by decide) hc

theorem numeral_not_mem (n : Nat) : toString n ∉ keywords :=
  fun h ↦ Bool.false_ne_true ((keywords_look _ h).2.symm.trans (isDigit_of_mem_toString n))

theorem ofWord_numeral (n : Nat) : ofWord (toString n) = numeral n := by
  have hq : (toString n).toList.head? ≠ some '\'' := by
    intro h
    have := List.all_eq_true.1 (isDigit_of_mem_toString n) _ (List.mem_of_head? h)
    exact absurd this (by decide)
  rw [ofWord_of_not_mem (numeral_not_mem n), if_neg hq, if_pos (isDigit_of_mem_toString n),
    show (toString n).toList = Nat.toDigits 10 n by simp,
    Nat.ofDigitChars_toDigits (by decide) (by decide)]

/-- A word that is not a keyword begins no form. -/
theorem isHead_of_not_mem {w : String} (h : w ∉ keywords) : (word w).IsHead := by
  refine List.lookup_eq_none_iff.2 fun p hp ↦ ?_
  rw [bne_iff_ne]
  rintro rfl
  exact h (forms_subset _ (List.mem_map_of_mem hp))

theorem isHead_var {x : String} (hx : isVariableName x) : (word x).IsHead :=
  isHead_of_not_mem (not_mem_keywords hx)

theorem mem_keywords_of_lookup {w : String} {f : List Term → Term}
    (h : forms.lookup w = some f) : w ∈ keywords := by
  by_contra hw
  rw [show forms.lookup w = none from isHead_of_not_mem hw] at h
  cases h

theorem clear_keyword {w : String} (h : w ∈ keywords) : (word w).Clear := by
  have hall : keywords.all fun w ↦ w != "" && w.toList.all fun c ↦ !isDelimiter c := by
    decide +kernel
  have hw := List.all_eq_true.1 hall w h
  rw [Bool.and_eq_true, bne_iff_ne, List.all_eq_true] at hw
  exact hw

theorem clear_var {x : String} (hx : isVariableName x) (hp : isPlainName x) : (word x).Clear := by
  simp only [isVariableName, isPlainName, Bool.and_eq_true, bne_iff_ne, List.all_eq_true] at hx hp
  exact ⟨hx.1, hp.1.1⟩

/-- A character of a class that has no delimiters in it is none. -/
theorem not_isDelimiter {p : Char → Bool} (hb : p ' ' = false) (ho : p '(' = false)
    (hc : p ')' = false) {c : Char} (h : p c) : !isDelimiter c := by
  simp only [isDelimiter, Bool.not_eq_true', Bool.or_eq_false_iff, beq_eq_false_iff_ne]
  refine ⟨⟨?_, ?_⟩, ?_⟩ <;> rintro rfl <;> simp_all

theorem clear_numeral (n : Nat) : (word (toString n)).Clear := by
  constructor
  · intro h
    have hd : (toString n).toList = Nat.toDigits 10 n := by simp
    rw [h] at hd
    exact Nat.toDigits_ne_nil hd.symm
  · intro c hc
    exact not_isDelimiter rfl rfl rfl (List.all_eq_true.1 (isDigit_of_mem_toString n) c hc)

theorem clear_quote {s : String} (h : isAtomSymbol s) : (word ("'" ++ s)).Clear := by
  simp only [isAtomSymbol, Bool.and_eq_true, List.all_eq_true] at h
  constructor
  · intro hs
    simpa using congrArg String.toList hs
  · intro c hc
    rw [String.toList_append, List.mem_append] at hc
    rcases hc with hc | hc
    · rw [List.mem_singleton.1 hc]
      rfl
    · exact not_isDelimiter (p := fun c ↦ c == '-' || isLetter c) (by decide +kernel)
        (by decide +kernel) (by decide +kernel) (h.2 c hc)

/-! ## Reading back what is written -/

/-- A term whose layout shows where words end and is read as the term. -/
structure Readable (t : Term) : Prop where
  head : t.spine.1.IsHead
  read : (readAll t.spine.2).foldl app t.spine.1.read = t.blank
  clear : t.spine.1.Clear
  clearAll : ClearAll t.spine.2

namespace Readable

theorem read_layout {t : Term} (h : t.Readable) : t.layout.read = t.blank :=
  (read_applied h.head _).trans h.read

theorem clear_layout {t : Term} (h : t.Readable) : t.layout.Clear :=
  clear_applied h.clear h.clearAll

theorem of_word {t : Term} {w : String} (hs : t.spine = (word w, [])) (hw : (word w).IsHead)
    (hc : (word w).Clear) (h : ofWord w = t.blank) : t.Readable := by
  constructor <;> rw [hs]
  · exact hw
  · exact h
  · exact hc
  · trivial

theorem of_clause {t : Term} {w : String} {ps : List Layout} {f : List Term → Term}
    (hs : t.spine = (clause w ps, [])) (hf : forms.lookup w = some f) (hc : ClearAll ps)
    (h : f (readAll ps) = t.blank) : t.Readable := by
  constructor <;> rw [hs]
  · trivial
  · exact (read_clause hf ps).trans h
  · exact ⟨clear_keyword (mem_keywords_of_lookup hf), hc⟩
  · trivial

/-- A form all of whose parts are terms. -/
theorem of_parts {t : Term} {w : String} (ts : List Term) {f : List Term → Term}
    (hs : t.spine = (clause w (ts.map Term.layout), [])) (hf : forms.lookup w = some f)
    (hts : ∀ e ∈ ts, e.Readable) (h : f (ts.map blank) = t.blank) : t.Readable := by
  refine .of_clause hs hf (clearAll_iff.2 ?_) (.trans (congrArg f ?_) h)
  · rw [List.forall_mem_map]
    exact fun e he ↦ (hts e he).clear_layout
  · rw [readAll_eq_map, List.map_map]
    exact List.map_congr_left fun e he ↦ (hts e he).read_layout

/-- A type that binds a name. -/
theorem of_binder {t : Term} {w x : String} {a b : Term} {f : String → Term → Term → Term}
    (hs : t.spine = (clause w [group (group (word x) [a.layout]) [], b.layout], []))
    (hf : forms.lookup w = some (ofTwo (ofBinder f))) (hx : isVariableName x)
    (hp : isPlainName x) (ha : a.Readable) (hb : b.Readable) (h : f x a.blank b.blank = t.blank) :
    t.Readable := by
  refine .of_clause hs hf ?_ (.trans ?_ h)
  · exact ⟨⟨⟨clear_var hx hp, ha.clear_layout, trivial⟩, trivial⟩, hb.clear_layout, trivial⟩
  · have hxa : (group (group (word x) [a.layout]) []).read = app (var x) a.blank := by
      rw [read_group (p := group _ _) trivial, read_group (isHead_var hx)]
      simp [readAll, ha.read_layout, Layout.read, ofWord_var hx hp]
    rw [readAll, readAll, hxa, hb.read_layout]
    rfl

end Readable

/-- Legal terms with plain names can be read. -/
theorem readable {t : Term} (hl : t.isLegal) (hp : ∀ x ∈ t.names, isPlainName x) :
    t.Readable := by
  induction t with
  | missing => cases hl
  | var x =>
    have hx : isPlainName x := hp x (by simp [names])
    exact .of_word rfl (isHead_var hl) (clear_var hl hx) (ofWord_var hl hx)
  | hole l t => exact .of_word rfl (by rfl) (clear_keyword (by decide)) rfl
  | const k =>
    exact .of_word rfl (by cases k <;> rfl) (clear_keyword (keyword_mem k)) (ofWord_const k)
  | numeral n =>
    exact .of_word rfl (isHead_of_not_mem (numeral_not_mem n)) (clear_numeral n) (ofWord_numeral n)
  | quote s =>
    exact .of_word rfl (isHead_of_not_mem (quote_not_mem s)) (clear_quote hl) (ofWord_quote s)
  | app f a ihf iha =>
    simp only [isLegal, names, Bool.and_eq_true, List.forall_mem_append] at hl hp
    have hf := ihf hl.1 hp.1
    have ha := iha hl.2 hp.2
    refine ⟨hf.head, ?_, hf.clear, clearAll_append hf.clearAll ⟨ha.clear_layout, trivial⟩⟩
    show (readAll (f.spine.2 ++ [a.layout])).foldl app f.spine.1.read = app f.blank a.blank
    rw [readAll_append, List.foldl_append, hf.read, readAll, readAll, ha.read_layout]
    rfl
  | lam x b ih =>
    simp only [isLegal, names, Bool.and_eq_true, List.forall_mem_cons] at hl hp
    have hb := ih hl.2 hp.2
    have hx : (group (word x) []).read = var x :=
      (read_group (isHead_var hl.1) []).trans (ofWord_var hl.1 hp.1)
    refine .of_clause rfl (f := ofTwo ofLambda) rfl
      ⟨⟨clear_var hl.1 hp.1, trivial⟩, hb.clear_layout, trivial⟩ ?_
    rw [readAll, readAll, hx, ← layout, hb.read_layout]
    rfl
  | pi x a b iha ihb | sigma x a b iha ihb =>
    simp only [isLegal, names, Bool.and_eq_true, List.forall_mem_cons, List.forall_mem_append]
      at hl hp
    exact .of_binder rfl rfl hl.1.1 hp.1 (iha hl.1.2 hp.2.1) (ihb hl.2 hp.2.2) rfl
  | unary k a ih => exact .of_parts [a] rfl (lookup_unary k) (by simpa using ih hl hp) rfl
  | project k t ih => exact .of_parts [t] rfl (lookup_project k) (by simpa using ih hl hp) rfl
  | the t e iht ihe => exact .of_parts [t, e] rfl rfl (by simp_all [isLegal, names]) rfl
  | indAbsurd t m iht ihm => exact .of_parts [t, m] rfl rfl (by simp_all [isLegal, names]) rfl
  | trans l r ihl ihr => exact .of_parts [l, r] rfl rfl (by simp_all [isLegal, names]) rfl
  | binary k a b iha ihb =>
    exact .of_parts [a, b] rfl (lookup_binary k) (by simp_all [isLegal, names]) rfl
  | equal t l r iht ihl ihr =>
    exact .of_parts [t, l, r] rfl rfl (by simp_all [isLegal, names]) rfl
  | cong t c f iht ihc ihf => exact .of_parts [t, c, f] rfl rfl (by simp_all [isLegal, names]) rfl
  | transport k t m b iht ihm ihb =>
    exact .of_parts [t, m, b] rfl (lookup_transport k) (by simp_all [isLegal, names]) rfl
  | recursor k t c b s iht ihc ihb ihs =>
    -- the base and its type are written as one part
    simp only [isLegal, names, Bool.and_eq_true, List.forall_mem_append] at hl hp
    have hbase : (the c b).Readable := .of_parts [c, b] rfl rfl (by simp_all) rfl
    exact .of_parts [t, the c b, s] rfl (lookup_recursor k) (by simp_all) rfl
  | induct k t m b s iht ihm ihb ihs =>
    exact .of_parts [t, m, b, s] rfl (lookup_induct k) (by simp_all [isLegal, names]) rfl
  | indVec n t m b s ihn iht ihm ihb ihs =>
    exact .of_parts [n, t, m, b, s] rfl rfl (by simp_all [isLegal, names]) rfl

/-- What is forgotten is not written. -/
theorem renderIn_blank (t : Term) (inSpine : Bool) :
    t.blank.renderIn inSpine = t.renderIn inSpine := by
  induction t generalizing inSpine <;> simp_all [blank, renderIn]

/-- Two terms are written alike exactly when they differ only in their unfinished expressions. -/
theorem render_eq_render_iff {t u : Term} (ht : t.isLegal) (hu : u.isLegal)
    (htp : ∀ x ∈ t.names, isPlainName x) (hup : ∀ x ∈ u.names, isPlainName x) :
    t.render = u.render ↔ t.blank = u.blank := by
  have rt := readable ht htp
  have ru := readable hu hup
  constructor
  · intro h
    have htext : t.layout.text ++ [] = u.layout.text ++ [] := by
      rw [← toList_render, ← toList_render, h]
    have hlayout := (text_unique _ _ rt.clear_layout ru.clear_layout (by simp [Breaks])
      (by simp [Breaks]) htext).1
    rw [← rt.read_layout, ← ru.read_layout, hlayout]
  · intro h
    rw [render, render, ← renderIn_blank t, ← renderIn_blank u, h]

theorem render_app_hole :
    app (var "f") (hole {} (const .nat)) ≠ app (var "f") (hole {} (const .atom)) ∧
      (app (var "f") (hole {} (const .nat))).render =
        (app (var "f") (hole {} (const .atom))).render :=
  ⟨by decide, (render_eq_render_iff (by decide) (by decide) (by decide) (by decide)).2 rfl⟩

end Term

end LittleTypes
