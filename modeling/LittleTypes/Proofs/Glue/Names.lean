import LittleTypes.Proofs.Glue.Denotes

/-!
# What eliminations denote

An elimination that waits is read back as the elimination of what its parts are read back as.  So
it denotes the elimination of what its parts denote, as eliminators take the same to the same.
-/

namespace LittleTypes.Idealized

variable {L : Logic} {c : Bool} {W : GlueWorld L} {m : Neutral}

variable (L) in
/-- The plans run to an element that is the same as another on every side. -/
def Logic.RunLike (ω : L.World) (X w : L.Index → Value) (p : L.Index → Plan Value) : Prop :=
  ∃ v, (∀ i, Runs (p i) (v i)) ∧ L.Like ω X w v

section Like

variable {ω ω' : L.World} {X Y w : L.Index → Value} (hL : L.Stable)

include hL

/-- Plans that run to an element, and on every side to the same as other plans. -/
theorem Logic.Run.like {p q : L.Index → Plan Value} (h : L.Run ω X p) (hY : L.type .large ω Y)
    (hXY : ∀ i, SameType (L.model i) (X i) (Y i))
    (hs : ∀ i, RunSame (L.model i) (Y i) (q i) (p i)) (hw : ∀ i, Runs (q i) (w i)) :
    L.RunLike ω Y w p := by
  obtain ⟨v, hv, hX⟩ := h
  refine ⟨v, hv, hL.conv hX hY hXY, fun i ↦ ?_⟩
  obtain ⟨v', hv', hvw⟩ := (hs i).other (hw i)
  rwa [(hv i).unique hv']

omit hL in
theorem Logic.Like.symm {v : L.Index → Value} (h : L.Like ω X w v) (i : L.Index) :
    Same (L.model i) (X i) (w i) (v i) := (h.same i).symm

end Like

/-- An unfinished element of the empty type is the same as any other element of it. -/
theorem Logic.Sound.anyAbsurd {ω : L.World} {b : L.Index → Value} (hL : L.Sound)
    (hb : L.elem ω (fun _ ↦ .const .absurd) b) (ρ : L.Index → Env) :
    L.RunLike ω (fun _ ↦ .const .absurd) b fun i ↦ eval (ρ i) (.hole {} (.const .absurd)) := by
  have hA : ∀ i, Meaning.AbsurdLike (L.model i) (b i) := fun i ↦
    ((Same.absurd_iff (.of_inSight .intro)).1 (hL.same hb i)).1
  let T : L.Index → Value := fun i ↦ .later (.eval (ρ i) (.const .absurd))
  have hT : ∀ i, Looks (T i) (.const .absurd) := fun i ↦
    Looks.later_iff.2 ⟨_, .done _, .of_inSight .intro⟩
  have hTT : L.type .large ω T := hL.type_seen hL.absurd fun i ↦ .of_looks (hT i)
  have hh := hL.elem_looks (hL.hole {} (fun i ↦ (hA i).1) hTT) hT
  refine ⟨_, fun i ↦ Runs.eval_iff.2 (.done _), hh, fun i ↦ ?_⟩
  exact (Same.absurd_iff (.of_inSight .intro)).2
    ⟨((Same.absurd_iff (.of_inSight .intro)).1 (hL.same hh i)).1, hA i⟩

/-- The form of an element of the empty type denotes it, whatever has become of it. -/
theorem Denotes.absurd {N : Nameless} {w : L.Index → Value} (hL : L.Sound)
    (h : Denotes c W N (fun _ ↦ .const .absurd) w) (hw : L.elem W.base (fun _ ↦ .const .absurd) w) :
    Denotes c W (.the (.const .absurd) N) (fun _ ↦ .const .absurd) w := by
  intro θ ρ t hρ ht
  obtain ⟨u, e, rfl, rfl, he⟩ := ht.of_absurd
  rcases he with ⟨rfl, he⟩ | rfl
  · obtain ⟨v, hv, hvw⟩ := h θ ρ e hρ he
    exact ⟨v, fun i ↦ Runs.eval_iff.2 (hv i), hvw⟩
  · obtain ⟨v, hv, hvw⟩ := hL.anyAbsurd hw ρ
    exact ⟨v, fun i ↦ Runs.eval_iff.2 (hv i), hvw⟩

namespace Names

variable (hL : L.Sound)

include hL

/-! ## Functions and pairs -/

theorem app {X : Value} {v : Value} {x : L.Index → String} {f : L.Index → Closure}
    {d a g Y w : L.Index → Value} (hm : Names c W m (fun i ↦ .pi (x i) (d i) (f i)) g)
    (ha : Shows c W X v d a) (hY : ∀ i, Runs (enter (f i) (a i)) (Y i))
    (hYT : L.type .large W.base Y) (hw : ∀ i, Runs (apply (g i) (a i)) (w i)) :
    Names c W (.app m (.mk X v)) Y w := by
  intro W' hW
  obtain ⟨M, hM, hg⟩ := hm W' hW
  obtain ⟨A, hA, ha⟩ := ha W' hW
  refine ⟨.app M A, .read hM (.read hA (.done _)), fun θ ρ t hρ ht ↦ ?_⟩
  obtain ⟨t₁, t₂, rfl, h₁, h₂⟩ := ht.of_app
  obtain ⟨g₁, hg₁, hgg⟩ := hg θ ρ t₁ hρ h₁
  have ha₁ := ha.later hL.toStable hρ h₂
  have hpi := hL.elem_type hgg.elem
  obtain ⟨Y₁, hY₁, -⟩ := (hL.of_pi hpi).2 _ (hL.le_refl _) _ ha₁.elem
  have hYY : ∀ i, SameType (L.model i) (Y₁ i) (Y i) := fun i ↦ by
    obtain ⟨Z, Z', hZ, hZ', hZZ⟩ :=
      (TypeAt.pi_parts (hL.typeAt hpi i) (.of_inSight .intro)).2 _ _ (ha₁.same i)
    rw [(hY₁ i).unique hZ, (hY i).unique hZ']
    exact hZZ
  obtain ⟨v, hv, hvw⟩ := (hL.apply hgg.elem ha₁.elem hY₁).like hL.toStable
    (hL.type_mono hYT hW.1) hYY
    (fun i ↦ (hgg.symm i).apply (.of_inSight .intro) (ha₁.symm i) (hY i)) hw
  exact ⟨v, fun i ↦ Runs.eval_iff.2 (.bind (hg₁ i) (hv i)), hvw⟩

omit hL in
/-- The eliminators that take only their target. -/
theorem project (k : Projection) {X q Y w : L.Index → Value} (hm : Names c W m X q)
    (h : ∀ ω, L.le W.base ω → ∀ q', L.Like ω X q q' →
      L.RunLike ω Y w fun i ↦ doProject k (q' i)) : Names c W (.project k m) Y w := by
  intro W' hW
  obtain ⟨M, hM, hq⟩ := hm W' hW
  refine ⟨.project k M, .read hM (.done _), fun θ ρ t hρ ht ↦ ?_⟩
  obtain ⟨t₁, rfl, h₁⟩ := ht.of_project
  obtain ⟨q₁, hq₁, hqq⟩ := hq θ ρ t₁ hρ h₁
  obtain ⟨v, hv, hvw⟩ := h _ hW.1 q₁ hqq
  exact ⟨v, fun i ↦ Runs.eval_iff.2 (.bind (hq₁ i) (hv i)), hvw⟩

section Pairs

variable {x : L.Index → String} {f : L.Index → Closure} {d p a b Y : L.Index → Value}

theorem car (hm : Names c W m (fun i ↦ .sigma (x i) (d i) (f i)) p) (hd : L.type .large W.base d)
    (ha : ∀ i, Runs (doCar (p i)) (a i)) : Names c W (.project .car m) d a :=
  .project .car hm fun _ hω _ hq ↦ (hL.car hq.elem).like hL.toStable (hL.type_mono hd hω)
    (fun i ↦ (hL.typeAt hd i).sameType) (fun i ↦ (hq.symm i).car (.of_inSight .intro)) ha

theorem cdr (hm : Names c W m (fun i ↦ .sigma (x i) (d i) (f i)) p) (hYT : L.type .large W.base Y)
    (ha : ∀ i, Runs (doCar (p i)) (a i)) (hY : ∀ i, Runs (enter (f i) (a i)) (Y i))
    (hb : ∀ i, Runs (doCdr (p i)) (b i)) : Names c W (.project .cdr m) Y b := by
  refine .project .cdr hm fun ω hω q hq ↦ ?_
  have hX := hL.elem_type hq.elem
  obtain ⟨a₁, ha₁, haL⟩ := hL.car hq.elem
  obtain ⟨Y₁, hY₁, -⟩ := (hL.of_sigma hX).2 _ (hL.le_refl _) _ haL
  refine (hL.cdr hq.elem ha₁ hY₁).like hL.toStable (hL.type_mono hYT hω) (fun i ↦ ?_)
    (fun i ↦ (hq.symm i).cdr (.of_inSight .intro) (ha i) (hY i)) hb
  obtain ⟨v, hv, hva⟩ := ((hq.symm i).car (.of_inSight .intro)).other (ha i)
  cases (ha₁ i).unique hv
  obtain ⟨Z, Z', hZ, hZ', hZZ⟩ :=
    (TypeAt.sigma_parts (hL.typeAt hX i) (.of_inSight .intro)).2 _ _ hva
  rw [(hY₁ i).unique hZ, (hY i).unique hZ']
  exact hZZ

end Pairs

/-! ## Recursion and induction -/

theorem recursor (k : Recursor) {B b S s : Value} {e B' b' s' t' w : L.Index → Value}
    (hm : Names c W m (fun i ↦ .recursorTarget (e i) k) t') (hB : ShowsType c .large W B B')
    (hb : Shows c W B b B' b') (hs : Shows c W S s (fun i ↦ .recursorStep (e i) (B' i) k) s')
    (hbb : L.elem W.base B' b')
    (hS : ∀ ω, L.le W.base ω → ∀ B₁, L.LikeType .large ω B' B₁ →
      L.LikeType .large ω (fun i ↦ .recursorStep (e i) (B' i) k)
        fun i ↦ .recursorStep (e i) (B₁ i) k)
    (hw : ∀ i, Runs (doRecursor k (t' i) (B' i) (b' i) (s' i)) (w i)) :
    Names c W (.recursor k m (.mk B b) (.mk S s)) B' w := by
  intro W' hW
  obtain ⟨M, hM, hm⟩ := hm W' hW
  obtain ⟨X, hX, hB⟩ := hB W' hW
  obtain ⟨N, hN, hb⟩ := hb W' hW
  obtain ⟨K, hK, hs⟩ := hs W' hW
  have hbb := hL.elem_mono hbb hW.1
  refine ⟨.recursor k M X N K, .read hM (.read hX (.read hN (.read hK (.done _)))),
    fun θ ρ t hρ ht ↦ ?_⟩
  obtain ⟨t₁, tB, tb, ts, rfl, h₁, h₂, h₃, h₄⟩ := ht.of_recursor
  obtain ⟨u, hu, huu⟩ := hm θ ρ t₁ hρ h₁
  have hB₁ := hB.later hL.toStable hρ h₂
  have hBB : ∀ i, SameType (L.model i) (B' i) (.later (.eval (ρ i) tB)) := fun i ↦
    (hB₁.same i).symm
  have hb₁ : L.Like W'.base B' b' fun i ↦ .later (.eval (ρ i) tb) := by
    rcases h₃ with h₃ | ⟨rfl, rfl⟩
    · exact hb.later hL.toStable hρ h₃
    · -- the base was left out, as its type is the empty type
      cases h₂.of_const
      have hA : ∀ i, SameType (L.model i) (.const .absurd) (B' i) := fun i ↦
        (hBB i).symm.seen (SeenAs.seen (Looks.later_iff.2 ⟨_, .done _, .of_inSight .intro⟩))
      obtain ⟨v, hv, hvb⟩ := hL.anyAbsurd (hL.conv hbb hL.absurd fun i ↦ (hA i).symm) ρ
      have hsv : ∀ i, SeenAs (.later (.eval (ρ i) (.hole {} (.const .absurd)))) (v i) := fun i ↦
        .later (Runs.eval_iff.1 (hv i))
      exact (Logic.Like.mk (hL.elem_seen hvb.elem hsv) fun i ↦ (hvb.same i).seen (hsv i)).conv
        hL.toStable (hL.elem_type hbb) hA
  have hs₁ := hs.later hL.toStable hρ h₄
  have hS₁ := hS _ hW.1 _ hB₁
  have hrun := hL.recursor k hB₁.type huu.elem (hL.conv hb₁.elem hB₁.type hBB)
    (hL.conv hs₁.elem hS₁.type fun i ↦ (hS₁.same i).symm)
  obtain ⟨v, hv, hvw⟩ := hrun.like hL.toStable (hL.elem_type hbb) hB₁.same
    (fun i ↦ RunSame.recursor k (hBB i) (huu.symm i) (hb₁.symm i) (hs₁.symm i)) hw
  exact ⟨v, fun i ↦ Runs.eval_iff.2 (.bind (hu i) (hv i)), hvw⟩

/-- The eliminators with a motive and two cases. -/
theorem induct (k : Induction) {P M Z b S s : Value} {X P' M' Z' b' S' s' t' R w : L.Index → Value}
    (hm : Names c W m X t') (hM : Shows c W P M P' M') (hb : Shows c W Z b Z' b')
    (hs : Shows c W S s S' s')
    (h : ∀ ω, L.le W.base ω → ∀ t₁ M₁ b₁ s₁, L.Like ω X t' t₁ → L.Like ω P' M' M₁ →
      L.Like ω Z' b' b₁ → L.Like ω S' s' s₁ →
        L.RunLike ω R w fun i ↦ doInduct k (t₁ i) (M₁ i) (b₁ i) (s₁ i)) :
    Names c W (.induct k m (.mk P M) (.mk Z b) (.mk S s)) R w := by
  intro W' hW
  obtain ⟨N, hN, hm⟩ := hm W' hW
  obtain ⟨Q, hQ, hM⟩ := hM W' hW
  obtain ⟨B, hB, hb⟩ := hb W' hW
  obtain ⟨K, hK, hs⟩ := hs W' hW
  refine ⟨.induct k N Q B K, .read hN (.read hQ (.read hB (.read hK (.done _)))),
    fun θ ρ t hρ ht ↦ ?_⟩
  obtain ⟨t₁, tm, tb, ts, rfl, h₁, h₂, h₃, h₄⟩ := ht.of_induct
  obtain ⟨u, hu, huu⟩ := hm θ ρ t₁ hρ h₁
  obtain ⟨v, hv, hvw⟩ := h _ hW.1 _ _ _ _ huu (hM.later hL.toStable hρ h₂)
    (hb.later hL.toStable hρ h₃) (hs.later hL.toStable hρ h₄)
  exact ⟨v, fun i ↦ Runs.eval_iff.2 (.bind (hu i) (hv i)), hvw⟩

/-! ## Equality and the empty type -/

theorem transport (k : Transport) {P M Z b : Value} {X P' M' Z' b' t' R w : L.Index → Value}
    (hm : Names c W m X t') (hM : Shows c W P M P' M') (hb : Shows c W Z b Z' b')
    (h : ∀ ω, L.le W.base ω → ∀ t₁ M₁ b₁, L.Like ω X t' t₁ → L.Like ω P' M' M₁ →
      L.Like ω Z' b' b₁ → L.RunLike ω R w fun i ↦ doTransport k (t₁ i) (M₁ i) (b₁ i)) :
    Names c W (.transport k m (.mk P M) (.mk Z b)) R w := by
  intro W' hW
  obtain ⟨N, hN, hm⟩ := hm W' hW
  obtain ⟨Q, hQ, hM⟩ := hM W' hW
  obtain ⟨B, hB, hb⟩ := hb W' hW
  refine ⟨.transport k N Q B, .read hN (.read hQ (.read hB (.done _))), fun θ ρ t hρ ht ↦ ?_⟩
  obtain ⟨t₁, tm, tb, rfl, h₁, h₂, h₃⟩ := ht.of_transport
  obtain ⟨u, hu, huu⟩ := hm θ ρ t₁ hρ h₁
  obtain ⟨v, hv, hvw⟩ := h _ hW.1 _ _ _ huu (hM.later hL.toStable hρ h₂)
    (hb.later hL.toStable hρ h₃)
  exact ⟨v, fun i ↦ Runs.eval_iff.2 (.bind (hu i) (hv i)), hvw⟩

theorem indAbsurd {P M : Value} {M' t' w : L.Index → Value}
    (hm : Names c W m (fun _ ↦ .const .absurd) t') (hM : ShowsType c .large W M M')
    (hMT : L.type .large W.base M') (ht : L.elem W.base (fun _ ↦ .const .absurd) t')
    (hw : ∀ i, Runs (doIndAbsurd (t' i) (M' i)) (w i)) :
    Names c W (.indAbsurd m (.mk P M)) M' w := by
  intro W' hW
  obtain ⟨N, hN, hm⟩ := hm W' hW
  obtain ⟨Q, hQ, hM⟩ := hM W' hW
  refine ⟨.indAbsurd (.the (.const .absurd) N) Q, .read hN (.read hQ (.done _)),
    fun θ ρ t hρ ht' ↦ ?_⟩
  obtain ⟨t₁, tm, rfl, h₁, h₂⟩ := ht'.of_indAbsurd
  obtain ⟨v, hv, hvt⟩ := hm.absurd hL (hL.elem_mono ht hW.1) θ ρ t₁ hρ h₁
  have hM₁ := hM.later hL.toStable hρ h₂
  obtain ⟨r, hr, hrw⟩ := (hL.indAbsurd hM₁.type hvt.elem).like hL.toStable
    (hL.type_mono hMT hW.1) hM₁.same
    (fun i ↦ RunSame.indAbsurd (hM₁.same i).symm (hvt.symm i)) hw
  exact ⟨r, fun i ↦ Runs.eval_iff.2 (.bind (hv i) (hr i)), hrw⟩

section Trans

variable {P b : Value} {X P' b' t' R w : L.Index → Value}

omit hL

theorem transLeft (hm : Names c W m X t') (hb : Shows c W P b P' b')
    (h : ∀ ω, L.le W.base ω → ∀ t₁ b₁, L.Like ω X t' t₁ → L.Like ω P' b' b₁ →
      L.RunLike ω R w fun i ↦ doTrans (t₁ i) (b₁ i)) :
    Names c W (.transLeft m (.mk P b)) R w := by
  intro W' hW
  obtain ⟨N, hN, hm⟩ := hm W' hW
  obtain ⟨B, hB, hb⟩ := hb W' hW
  refine ⟨.trans N B, .read hN (.read hB (.done _)), fun θ ρ t hρ ht ↦ ?_⟩
  obtain ⟨t₁, t₂, rfl, h₁, h₂⟩ := ht.of_trans
  obtain ⟨u, hu, huu⟩ := hm θ ρ t₁ hρ h₁
  obtain ⟨v, hv, hvv⟩ := hb θ ρ t₂ hρ h₂
  obtain ⟨r, hr, hrw⟩ := h _ hW.1 u v huu hvv
  exact ⟨r, fun i ↦ Runs.eval_iff.2 (.bind (hu i) (.bind (hv i) (hr i))), hrw⟩

theorem transRight (hb : Shows c W P b P' b') (hm : Names c W m X t')
    (h : ∀ ω, L.le W.base ω → ∀ b₁ t₁, L.Like ω P' b' b₁ → L.Like ω X t' t₁ →
      L.RunLike ω R w fun i ↦ doTrans (b₁ i) (t₁ i)) :
    Names c W (.transRight (.mk P b) m) R w := by
  intro W' hW
  obtain ⟨N, hN, hm⟩ := hm W' hW
  obtain ⟨B, hB, hb⟩ := hb W' hW
  refine ⟨.trans B N, .read hB (.read hN (.done _)), fun θ ρ t hρ ht ↦ ?_⟩
  obtain ⟨t₁, t₂, rfl, h₁, h₂⟩ := ht.of_trans
  obtain ⟨u, hu, huu⟩ := hb θ ρ t₁ hρ h₁
  obtain ⟨v, hv, hvv⟩ := hm θ ρ t₂ hρ h₂
  obtain ⟨r, hr, hrw⟩ := h _ hW.1 u v huu hvv
  exact ⟨r, fun i ↦ Runs.eval_iff.2 (.bind (hu i) (.bind (hv i) (hr i))), hrw⟩

theorem transBoth {m' : Neutral} (hm : Names c W m X t') (hm' : Names c W m' P' b')
    (h : ∀ ω, L.le W.base ω → ∀ t₁ b₁, L.Like ω X t' t₁ → L.Like ω P' b' b₁ →
      L.RunLike ω R w fun i ↦ doTrans (t₁ i) (b₁ i)) :
    Names c W (.transBoth m m') R w := by
  intro W' hW
  obtain ⟨N, hN, hm⟩ := hm W' hW
  obtain ⟨B, hB, hb⟩ := hm' W' hW
  refine ⟨.trans N B, .read hN (.read hB (.done _)), fun θ ρ t hρ ht ↦ ?_⟩
  obtain ⟨t₁, t₂, rfl, h₁, h₂⟩ := ht.of_trans
  obtain ⟨u, hu, huu⟩ := hm θ ρ t₁ hρ h₁
  obtain ⟨v, hv, hvv⟩ := hb θ ρ t₂ hρ h₂
  obtain ⟨r, hr, hrw⟩ := h _ hW.1 u v huu hvv
  exact ⟨r, fun i ↦ Runs.eval_iff.2 (.bind (hu i) (.bind (hv i) (hr i))), hrw⟩

end Trans

theorem cong {C P f : Value} {X t' C' P' f' R w : L.Index → Value} (hm : Names c W m X t')
    (hC : ShowsType c .large W C C') (hf : Shows c W P f P' f')
    (h : ∀ ω, L.le W.base ω → ∀ t₁ C₁ f₁, L.Like ω X t' t₁ → L.LikeType .large ω C' C₁ →
      L.Like ω P' f' f₁ → L.RunLike ω R w fun i ↦ doCong (t₁ i) (C₁ i) (f₁ i)) :
    Names c W (.cong m C (.mk P f)) R w := by
  intro W' hW
  obtain ⟨N, hN, hm⟩ := hm W' hW
  obtain ⟨D, hD, hC⟩ := hC W' hW
  obtain ⟨F, hF, hf⟩ := hf W' hW
  refine ⟨.cong N D F, .read hN (.read hD (.read hF (.done _))), fun θ ρ t hρ ht ↦ ?_⟩
  obtain ⟨t₁, t₂, t₃, rfl, h₁, h₂, h₃⟩ := ht.of_cong
  obtain ⟨u, hu, huu⟩ := hm θ ρ t₁ hρ h₁
  obtain ⟨r, hr, hrw⟩ := h _ hW.1 u _ _ huu (hC.later hL.toStable hρ h₂)
    (hf.later hL.toStable hρ h₃)
  exact ⟨r, fun i ↦ Runs.eval_iff.2 (.bind (hu i) (hr i)), hrw⟩

/-! ## Vectors -/

section IndVec

variable {P M Z b S s : Value} {X t' P' M' Z' b' S' s' l' R w : L.Index → Value}
  (hm : Names c W m X t') (hM : Shows c W P M P' M') (hb : Shows c W Z b Z' b')
  (hs : Shows c W S s S' s')
  (h : ∀ ω, L.le W.base ω → ∀ l₁ t₁ M₁ b₁ s₁, L.Like ω (fun _ ↦ .const .nat) l' l₁ →
    L.Like ω X t' t₁ → L.Like ω P' M' M₁ → L.Like ω Z' b' b₁ → L.Like ω S' s' s₁ →
      L.RunLike ω R w fun i ↦ doIndVec (l₁ i) (t₁ i) (M₁ i) (b₁ i) (s₁ i))

include hm hM hb hs h

/-- Induction on an unknown vector of a length that is read back in whatever way. -/
theorem indVecWith {W' : GlueWorld L} (hW : W.le W') {K : Nameless}
    (hl : Denotes c W' K (fun _ ↦ .const .nat) l') :
    ∃ N Q B S₁, Reads W'.size (.neutral m) N ∧ Reads W'.size (.value P M) Q ∧
      Reads W'.size (.value Z b) B ∧ Reads W'.size (.value S s) S₁ ∧
      Denotes c W' (.indVec K N Q B S₁) R w := by
  obtain ⟨N, hN, hm⟩ := hm W' hW
  obtain ⟨Q, hQ, hM⟩ := hM W' hW
  obtain ⟨B, hB, hb⟩ := hb W' hW
  obtain ⟨S₁, hS₁, hs⟩ := hs W' hW
  refine ⟨N, Q, B, S₁, hN, hQ, hB, hS₁, fun θ ρ t hρ ht ↦ ?_⟩
  obtain ⟨tl, t₁, tm, tb, ts, rfl, h₀, h₁, h₂, h₃, h₄⟩ := ht.of_indVec
  obtain ⟨k, hk, hkk⟩ := hl θ ρ tl hρ h₀
  obtain ⟨u, hu, huu⟩ := hm θ ρ t₁ hρ h₁
  obtain ⟨v, hv, hvw⟩ := h _ hW.1 k u _ _ _ hkk huu (hM.later hL.toStable hρ h₂)
    (hb.later hL.toStable hρ h₃) (hs.later hL.toStable hρ h₄)
  exact ⟨v, fun i ↦ Runs.eval_iff.2 (.bind (hk i) (.bind (hu i) (hv i))), hvw⟩

theorem indVec {l : Value} (hl : Shows c W (.const .nat) l (fun _ ↦ .const .nat) l') :
    Names c W (.indVec (.mk (.const .nat) l) m (.mk P M) (.mk Z b) (.mk S s)) R w := by
  intro W' hW
  obtain ⟨K, hK, hl⟩ := hl W' hW
  obtain ⟨N, Q, B, S₁, hN, hQ, hB, hS₁, hd⟩ := indVecWith hL hm hM hb hs h hW hl
  exact ⟨_, .read hK (.read hN (.read hQ (.read hB (.read hS₁ (.done _))))), hd⟩

theorem indVecBoth {n : Neutral} (hl : Names c W n (fun _ ↦ .const .nat) l') :
    Names c W (.indVecBoth n m (.mk P M) (.mk Z b) (.mk S s)) R w := by
  intro W' hW
  obtain ⟨K, hK, hl⟩ := hl W' hW
  obtain ⟨N, Q, B, S₁, hN, hQ, hB, hS₁, hd⟩ := indVecWith hL hm hM hb hs h hW hl
  exact ⟨_, .read hK (.read hN (.read hQ (.read hB (.read hS₁ (.done _))))), hd⟩

end IndVec

/-! ## Unfinished expressions -/

/-- An unfinished expression denotes an unfinished expression. -/
theorem hole {l : Location} {X : Value} {X' : L.Index → Value} (ho : ∀ i, L.model i)
    (h : ShowsType c .large W X X') (hX : L.type .large W.base X') :
    Names c W (.hole l X) X' fun i ↦ .neu (X' i) (.hole l (X' i)) := by
  intro W' hW
  obtain ⟨N, hN, hd⟩ := h W' hW
  refine ⟨.hole l N, .read hN (.done _), fun θ ρ t hρ ht ↦ ?_⟩
  obtain ⟨u, rfl, hu⟩ := ht.of_hole
  have hY := hd.later hL.toStable hρ hu
  have hh := hL.conv (hL.hole l ho hY.type) (hL.type_mono hX hW.1) hY.same
  refine ⟨_, fun i ↦ Runs.eval_iff.2 (.done _), hh, fun i ↦ ?_⟩
  have hYi := hY.same i
  rw [eq_true (ho i)] at hYi ⊢
  exact (Same.reflect hYi (.hole l hYi.readAlike)).conv hYi

end Names

end LittleTypes.Idealized
