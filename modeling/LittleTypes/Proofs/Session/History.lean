import LittleTypes.Proofs.Likeness.Same
import LittleTypes.Proofs.Session.Later
import LittleTypes.Proofs.Session.Termination

/-!
# Listings are histories

A context grows at its front, and each of its bindings is shown in the context that it was added to.
So nothing that is added later is seen when an older binding is shown: the listing of a longer
context is that of the shorter one with new entries in front of it, one for each new binding.

The contexts of a session only grow, and what a session has declared is therefore shown in the same
way for ever.
-/

namespace LittleTypes

/-! ## What a context is made of -/

/-- How a binding is shown, given the context that it was added to. -/
inductive Listed.Shows (fuel : Nat) (Γ : Context) : String × Binding → Listed → Prop
  | free {x : String} {type : Value} {t : Term} : Γ.readBackType fuel type = .ok t →
    Shows fuel Γ (x, .free type) ⟨x, .free, t, none⟩
  | claim {x : String} {type : Value} {t : Term} : Γ.readBackType fuel type = .ok t →
    Shows fuel Γ (x, .claim type) ⟨x, .claim, t, none⟩
  | defn {x : String} {type v : Value} {t u : Term} : Γ.readBackType fuel type = .ok t →
    Γ.readBack fuel type v = .ok u → Shows fuel Γ (x, .defn type v) ⟨x, .defn, t, some u⟩

namespace Context

/-- Adds a binding.  Only a name for an unknown value has to be new. -/
def add (Γ : Context) : String × Binding → Except Fault Context
  | (x, .free type) => Γ.bindFree x type
  | b => pure (b :: Γ)

/-- Adds several bindings in order. -/
def addAll (Γ : Context) (bs : List (String × Binding)) : Except Fault Context := bs.foldlM add Γ

section Add

variable {Γ Γ' : Context} {b : String × Binding} {bs cs : List (String × Binding)}

theorem eq_cons_of_add (h : Γ.add b = .ok Γ') : Γ' = b :: Γ := by
  obtain ⟨x, b⟩ := b
  cases b with
  | free type =>
    simp only [add, bindFree] at h
    split at h
    · cases h
    · cases h
      rfl
  | claim | defn =>
    cases h
    rfl

theorem bind_eq_ok_iff {α β : Type} {x : Except Fault α} {f : α → Except Fault β} {b : β} :
    (x >>= f) = .ok b ↔ ∃ a, x = .ok a ∧ f a = .ok b := by
  cases x with
  | ok a => exact ⟨fun h ↦ ⟨a, rfl, h⟩, fun ⟨_, rfl, h⟩ ↦ h⟩
  | error e => exact ⟨nofun, nofun⟩

theorem addAll_append_eq_ok (h : Γ.addAll (bs ++ cs) = .ok Γ') :
    ∃ Δ, Γ.addAll bs = .ok Δ ∧ Δ.addAll cs = .ok Γ' := by
  rw [addAll, List.foldlM_append] at h
  exact bind_eq_ok_iff.1 h

theorem eq_append_of_addAll (h : Γ.addAll bs = .ok Γ') : Γ' = bs.reverse ++ Γ := by
  induction bs generalizing Γ with
  | nil =>
    cases h
    rfl
  | cons b bs ih =>
    rw [addAll, List.foldlM_cons] at h
    obtain ⟨Δ, hΔ, h⟩ := bind_eq_ok_iff.1 h
    rw [ih h, eq_cons_of_add hΔ, List.reverse_cons, List.append_assoc, List.singleton_append]

end Add

/-! ## Listings -/

section Listing

variable {fuel : Nat} {Γ : Context}

theorem listing_cons_eq_ok {b : String × Binding} {l : List Listed}
    (h : listing fuel (b :: Γ) = .ok l) :
    ∃ e l₀, l = e :: l₀ ∧ e.Shows fuel Γ b ∧ Γ.listing fuel = .ok l₀ := by
  obtain ⟨x, b⟩ := b
  obtain ⟨t, ht, h⟩ := bind_eq_ok_iff.1 h
  cases b with
  | free type =>
    obtain ⟨_, ⟨⟩, h⟩ := bind_eq_ok_iff.1 h
    obtain ⟨l₀, hl₀, ⟨⟩⟩ := bind_eq_ok_iff.1 h
    exact ⟨_, l₀, rfl, .free ht, hl₀⟩
  | claim type =>
    obtain ⟨_, ⟨⟩, h⟩ := bind_eq_ok_iff.1 h
    obtain ⟨l₀, hl₀, ⟨⟩⟩ := bind_eq_ok_iff.1 h
    exact ⟨_, l₀, rfl, .claim ht, hl₀⟩
  | defn type v =>
    obtain ⟨_, hu, h⟩ := bind_eq_ok_iff.1 h
    rw [map_eq_pure_bind] at hu
    obtain ⟨u, hv, ⟨⟩⟩ := bind_eq_ok_iff.1 hu
    obtain ⟨l₀, hl₀, ⟨⟩⟩ := bind_eq_ok_iff.1 h
    exact ⟨_, l₀, rfl, .defn ht hv, hl₀⟩

/-- What is older than the newest bindings is listed as it was before these were added. -/
theorem listing_drop {l : List Listed} (h : Γ.listing fuel = .ok l) (i : Nat) :
    Context.listing fuel (Γ.drop i) = .ok (l.drop i) := by
  induction Γ generalizing l i with
  | nil =>
    cases h
    rw [List.drop_nil, List.drop_nil]
    rfl
  | cons b Γ ih =>
    obtain ⟨e, l₀, rfl, -, h₀⟩ := listing_cons_eq_ok h
    cases i with
    | zero => exact h
    | succ i => exact ih h₀ i

theorem length_listing {l : List Listed} (h : Γ.listing fuel = .ok l) : l.length = Γ.length := by
  induction Γ generalizing l with
  | nil =>
    cases h
    rfl
  | cons b Γ ih =>
    obtain ⟨e, l₀, rfl, -, h₀⟩ := listing_cons_eq_ok h
    exact congrArg (· + 1) (ih h₀)

/-- The entry with a number shows the binding with this number in the context that it was added to,
which is what stays when the binding and the newer ones are taken away. -/
theorem shows_of_getElem? {l : List Listed} (h : Γ.listing fuel = .ok l) {i : Nat}
    {b : String × Binding} (hb : Γ[i]? = some b) :
    ∃ e, l[i]? = some e ∧ e.Shows fuel (Γ.drop (i + 1)) b := by
  obtain ⟨hi, rfl⟩ := List.getElem?_eq_some_iff.1 hb
  have hd := listing_drop h i
  rw [List.drop_eq_getElem_cons hi] at hd
  obtain ⟨e, l₀, hl, he, -⟩ := listing_cons_eq_ok hd
  refine ⟨e, ?_, he⟩
  rw [← List.head?_drop, hl, List.head?_cons]

/-- The listing of a longer context.  The number of the entry for a binding is that of the bindings
added after it. -/
theorem listing_append_eq_ok {Δ : Context} {l' : List Listed}
    (h : listing fuel (Δ ++ Γ) = .ok l') :
    ∃ new l, l' = new ++ l ∧ Γ.listing fuel = .ok l ∧ new.length = Δ.length ∧
      ∀ later b earlier, Δ = later ++ b :: earlier →
        ∃ e, new[later.length]? = some e ∧ e.Shows fuel (earlier ++ Γ) b := by
  have hlen : l'.length = Δ.length + Γ.length := by rw [length_listing h, List.length_append]
  have hl := listing_drop h Δ.length
  rw [List.drop_left] at hl
  refine ⟨l'.take Δ.length, l'.drop Δ.length, (List.take_append_drop ..).symm, hl, ?_, ?_⟩
  · rw [List.length_take, hlen, Nat.min_eq_left (Nat.le_add_right ..)]
  · rintro later b earlier rfl
    obtain ⟨e, he, hshows⟩ := shows_of_getElem? h (i := later.length) (b := b) (by simp)
    rw [List.append_assoc, ← List.drop_drop, List.drop_left] at hshows
    exact ⟨e, by rw [List.getElem?_take_of_lt (by simp), he], hshows⟩

end Listing

/-! ## Fuel

How much fuel there is does not matter for what is shown, if only nothing is delayed twice. -/

/-- Nothing that is bound is delayed twice, neither the types nor the values. -/
def Flat (Γ : Context) : Prop :=
  ∀ b ∈ Γ, b.2.type.Flat ∧ ∀ type v, b.2 = .defn type v → v.Flat

namespace Flat

variable {Γ : Context}

theorem nil : Flat [] := nofun

theorem tail {b : String × Binding} (h : Flat (b :: Γ)) : Γ.Flat :=
  fun c hc ↦ h c (List.mem_cons_of_mem _ hc)

theorem env (h : Γ.Flat) : Γ.env.Flat := by
  induction Γ with
  | nil => exact nofun
  | cons b Γ ih =>
    obtain ⟨x, b⟩ := b
    have hb := h _ List.mem_cons_self
    cases b with
    | claim type => exact ih h.tail
    | free type => exact (ih h.tail).cons x (.ofSeen (.neu hb.1 (.var rfl)))
    | defn type v => exact (ih h.tail).cons x (hb.2 type v rfl)

variable {n n' : Nat}

theorem shows_unique {b : String × Binding} (h : Flat (b :: Γ)) {e e' : Listed}
    (he : e.Shows n Γ b) (he' : e'.Shows n' Γ b) : e = e' := by
  have hb := h b List.mem_cons_self
  have hread : (Likeness.exactly False).Reads (reader n) (reader n') := reader_reads nofun
  have hΓ := Likeness.fits_exactly False Γ
  cases he with
  | free ht | claim ht =>
    cases he' with
    | _ ht' => rw [(hread.type hΓ hb.1).eq_of_ok ht ht']
  | defn ht hu =>
    cases he' with
    | defn ht' hu' =>
      rw [(hread.type hΓ hb.1).eq_of_ok ht ht',
        (hread.value hΓ hb.1 (hb.2 _ _ rfl)).eq_of_ok hu hu']

theorem listing_unique (h : Γ.Flat) {l l' : List Listed} (hl : Γ.listing n = .ok l)
    (hl' : Γ.listing n' = .ok l') : l = l' := by
  induction Γ generalizing l l' with
  | nil =>
    cases hl
    cases hl'
    rfl
  | cons b Γ ih =>
    obtain ⟨e, l, rfl, he, hl⟩ := listing_cons_eq_ok hl
    obtain ⟨e', l', rfl, he', hl'⟩ := listing_cons_eq_ok hl'
    rw [h.shows_unique he he', ih h.tail hl hl']

end Flat

end Context

/-! ## Sessions -/

namespace Session

variable {fuel : Nat}

/-- A command leaves the context as it is or adds a binding to it. -/
theorem context_suffix_perform (s : Session) (c : Command) :
    s.context <:+ (perform fuel s c).1.context := by
  rcases context_cases fuel s c with h | ⟨loc, x, type, h⟩ | ⟨loc, x, e, h⟩
  · rw [h]
  · obtain ⟨-, -, t, v, -, -, h⟩ := claim_eq_ok h
    rw [h]
    exact List.suffix_cons _ _
  · obtain ⟨t, c, v, -, -, -, h⟩ := define_eq_ok h
    rw [h]
    exact List.suffix_cons _ _

variable (fuel) in
theorem context_suffix_run (s : Session) (cs : List Command) :
    s.context <:+ (run fuel s cs).context := by
  induction cs generalizing s with
  | nil => exact List.suffix_refl _
  | cons c cs ih => exact (context_suffix_perform s c).trans (ih _)

/-- A session delays nothing twice. -/
theorem flat_run (cs : List Command) : (run fuel {} cs).context.Flat := by
  refine run_induction Context.Flat.nil (fun {Γ Δ loc x type} hΓ h ↦ ?_)
    (fun {Γ Δ loc x e} hΓ h ↦ ?_) cs
  · obtain ⟨-, -, t, v, -, hv, rfl⟩ := claim_eq_ok h
    rintro b (_ | ⟨_, hb⟩)
    · exact ⟨hΓ.env.eval hv, nofun⟩
    · exact hΓ b hb
  · obtain ⟨type, t, v, hx, -, hv, rfl⟩ := define_eq_ok h
    -- the type is that of the claim
    obtain ⟨later, earlier, rfl, -⟩ := List.lookup_eq_some_iff.1 hx
    have htype : type.Flat := (hΓ (x, .claim type) (by simp)).1
    rintro b (_ | ⟨_, hb⟩)
    · refine ⟨htype, ?_⟩
      rintro _ _ ⟨⟩
      exact hΓ.env.eval hv
    · exact hΓ b hb

theorem listing_suffix_run {cs ds : List Command} {n n' : Nat} {l l' : List Listed}
    (hl : (run fuel {} cs).context.listing n = .ok l)
    (hl' : (run fuel {} (cs ++ ds)).context.listing n' = .ok l') : l <:+ l' := by
  obtain ⟨Δ, hΔ⟩ := context_suffix_run fuel (run fuel {} cs) ds
  rw [run_append, ← hΔ] at hl'
  obtain ⟨new, l₀, rfl, hl₀, -⟩ := Context.listing_append_eq_ok hl'
  rw [(flat_run cs).listing_unique hl hl₀]
  exact List.suffix_append _ _

end Session

namespace Context

open Session

/-- **Listings are histories.**  If a context can be listed, and also after any bindings have been
added to it, then the later listing consists of the earlier one and of one entry in front of it for
each new binding, the newest first, which shows the binding in the context that it was added to.
This is so in every context with one amount of fuel for both, and with any two amounts if nothing in
the context is delayed twice.

So the listing of a session after more commands ends with the listing before, and both can be made
if there is enough fuel. -/
theorem listing_append_only :
    (∀ n n' (Γ Γ' : Context) bs l l', n = n' ∨ Γ.Flat → Γ.addAll bs = .ok Γ' →
      Γ.listing n = .ok l → Γ'.listing n' = .ok l' →
        ∃ new, l' = new ++ l ∧ new.length = bs.length ∧
          ∀ earlier b later, bs = earlier ++ b :: later → ∃ Δ e, Γ.addAll earlier = .ok Δ ∧
            new[later.length]? = some e ∧ e.Shows n' Δ b) ∧
    (∀ fuel n n' cs ds l l', (run fuel {} cs).context.listing n = .ok l →
      (run fuel {} (cs ++ ds)).context.listing n' = .ok l' → l <:+ l') ∧
    ∀ cs ds, ∃ l new enough, ∀ fuel ≥ enough, (run fuel {} cs).context.listing fuel = .ok l ∧
      (run fuel {} (cs ++ ds)).context.listing fuel = .ok (new ++ l) := by
  refine ⟨?additions, fun _ _ _ _ _ _ _ ↦ listing_suffix_run, fun cs ds ↦ ?commands⟩
  case additions =>
    intro n n' Γ Γ' bs l l' hfuel hadd hl hl'
    rw [eq_append_of_addAll hadd] at hl'
    obtain ⟨new, l₀, rfl, hl₀, hlen, hnew⟩ := listing_append_eq_ok hl'
    obtain rfl : l = l₀ := by
      rcases hfuel with rfl | hΓ
      · exact Except.ok.inj (hl.symm.trans hl₀)
      · exact hΓ.listing_unique hl hl₀
    refine ⟨new, rfl, by simpa using hlen, ?_⟩
    rintro earlier b later rfl
    obtain ⟨Δ, hΔ, -⟩ := addAll_append_eq_ok hadd
    obtain ⟨e, he, hshows⟩ := hnew later.reverse b earlier.reverse (by simp)
    rw [← eq_append_of_addAll hΔ] at hshows
    exact ⟨Δ, e, hΔ, by simpa using he, hshows⟩
  case commands =>
    obtain ⟨l, hl⟩ := exists_listing cs
    obtain ⟨l', hl'⟩ := exists_listing (cs ++ ds)
    obtain ⟨enough, h⟩ := Filter.eventually_atTop.1 (hl.and hl')
    obtain ⟨new, rfl⟩ := listing_suffix_run (h enough le_rfl).1 (h enough le_rfl).2
    exact ⟨l, new, enough, h⟩

/-- The function is shown with the name that was new when it was added, although this name is
claimed later. -/
theorem listing_append_only_renamed :
    let n : String × Binding := ("x", .free (.const .nat))
    let f : String × Binding := ("f", .defn (.arrow "x" (.const .nat) (.const .nat))
      (.lam "x" (.body .nil "x" (.var "x"))))
    let c : String × Binding := ("x₁", .claim (.const .atom))
    let l : List Listed := [⟨"x", .free, .const .nat, none⟩]
    let l' : List Listed := ⟨"x₁", .claim, .const .atom, none⟩ ::
      ⟨"f", .defn, .pi "x₁" (.const .nat) (.const .nat), some (.lam "x₁" (.var "x₁"))⟩ :: l
    addAll [n] [f, c] = .ok [c, f, n] ∧ listing 9 [n] = .ok l ∧ listing 9 [c, f, n] = .ok l' ∧
      (∃ new, l' = new ++ l ∧ new.length = 2 ∧
        ∃ Δ e, addAll [n] [f] = .ok Δ ∧ new[0]? = some e ∧ e.Shows 9 Δ c) ∧
      let s := run 9 {} [.claim {} "x" (.const {} .nat)]
      let s' := run 9 {} [.claim {} "x" (.const {} .nat), .define {} "x" (.const {} .zero)]
      ∃ k k', s.context.listing 5 = .ok k ∧ s'.context.listing 7 = .ok k' ∧ k <:+ k' := by
  intro n f c l l'
  obtain ⟨hadd, hrun, -⟩ := listing_append_only
  obtain ⟨new, hl, hlen, hnew⟩ := hadd 9 9 [n] [c, f, n] [f, c] l l' (.inl rfl) rfl rfl rfl
  refine ⟨rfl, rfl, rfl, ⟨new, hl, hlen, hnew [f] c [] rfl⟩, ?_⟩
  exact ⟨_, _, rfl, rfl, hrun 9 5 7 [.claim {} "x" (.const {} .nat)]
    [.define {} "x" (.const {} .zero)] _ _ rfl rfl⟩

end Context

end LittleTypes
