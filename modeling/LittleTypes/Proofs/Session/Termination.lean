import LittleTypes.Proofs.Session.Replay
import LittleTypes.Proofs.Session.Safety
import Mathlib.Order.Filter.Finite

/-!
# Termination

Evaluation by itself need not end, and the checker evaluates while it checks.  But it evaluates only
what has been checked before; so every command of a session ends, and the session can be listed
after each of them.  That a run ends is said by the fuel: some amount of it is enough, and more of
it changes neither the answers of the commands, nor the mistakes that they find, nor the listings.
-/

namespace LittleTypes

open Filter Situation

namespace Session

/-- How a command ends: with an answer or with a mistake in the program, but with no fault. -/
abbrev Reply := Except Stop (Option Term)

/-- The outcome of a command that ends. -/
def Reply.outcome (r : Reply) : Except Failure (Option Term) := r.mapError .stop

variable {S : Situation .growing Unit} {s : Nat → Session}

/-- With enough fuel a command ends. -/
theorem exists_reply (hS : S.Closed True)
    (hs : ∀ᶠ fuel in atTop, (s fuel).context = S.context () fuel) (c : Command) :
    ∃ r : Reply, ∀ᶠ fuel in atTop, (perform fuel (s fuel) c).2.outcome = r.outcome := by
  obtain ⟨⟨Γ, t⟩, -, hx⟩ | hx := (hS.meets_execute Regime.lasts_growing c).single
  · refine ⟨.ok t, ?_⟩
    filter_upwards [hs, hx ()] with fuel hn hx
    have hx := hx.resolve_right fun h ↦ h.1
    rw [outcome_perform, hn, hx]
    rfl
  · obtain ⟨e, hx⟩ := hx ()
    refine ⟨.error e, ?_⟩
    filter_upwards [hs, hx] with fuel hn hx
    have hx := hx.resolve_right fun h ↦ h.1
    rw [outcome_perform, hn, hx]
    rfl

/-- With enough fuel several commands end, one after the other. -/
theorem exists_replies (hS : S.Closed True)
    (hs : ∀ᶠ fuel in atTop, (s fuel).context = S.context () fuel) (cs : List Command) :
    ∃ rs : List Reply, ∀ᶠ fuel in atTop,
      (answers fuel (s fuel) cs).map (·.outcome) = rs.map Reply.outcome := by
  induction cs generalizing S s with
  | nil => exact ⟨[], .of_forall fun _ ↦ rfl⟩
  | cons c cs ih =>
    obtain ⟨r, hr⟩ := exists_reply hS hs c
    obtain ⟨S', hS', hs'⟩ := hS.exists_perform Regime.lasts_growing Regime.unanimous_growing hs
      (c := c) fun _ ↦ trivial
    obtain ⟨rs, hrs⟩ := ih hS' hs'
    refine ⟨r :: rs, ?_⟩
    filter_upwards [hr, hrs] with fuel hr hrs
    rw [answers, List.map_cons, List.map_cons, hr, hrs]

/-- With enough fuel a session can be listed. -/
theorem exists_listing (cs : List Command) :
    ∃ l, ∀ᶠ fuel in atTop, (run fuel {} cs).context.listing fuel = .ok l := by
  obtain ⟨S, hS, hs⟩ := exists_closed Regime.lasts_growing Regime.unanimous_growing cs (o := True)
    fun _ _ _ ↦ trivial
  obtain ⟨l, hl⟩ := hS.declared.listing Regime.lasts_growing ()
  refine ⟨l, ?_⟩
  filter_upwards [hs, hl] with fuel hn hl
  rw [hn]
  exact hl.resolve_right fun h ↦ h.1

/-- **Termination.**  For any commands there is enough fuel for all of them to end, with an answer
or with a mistake in the program, and for the session to be listed after each of them.  More fuel
changes neither the answers and the mistakes nor the listings. -/
theorem commands_end (cs : List Command) :
    ∃ (enough : Nat) (replies : List Reply) (listings : List Command → List Listed),
      ∀ fuel ≥ enough, (answers fuel {} cs).map (·.outcome) = replies.map Reply.outcome ∧
        ∀ ds, ds <+: cs → (run fuel {} ds).context.listing fuel = .ok (listings ds) := by
  obtain ⟨rs, hrs⟩ := exists_replies (s := fun _ ↦ {}) (closed_empty True)
    (.of_forall fun _ ↦ rfl) cs
  choose l hl using exists_listing
  have hls : ∀ᶠ fuel in atTop, ∀ k ∈ Finset.range (cs.length + 1),
      (run fuel {} (cs.take k)).context.listing fuel = .ok (l (cs.take k)) :=
    (eventually_all_finset _).2 fun k _ ↦ hl _
  obtain ⟨enough, h⟩ := eventually_atTop.1 (hrs.and hls)
  refine ⟨enough, rs, l, fun fuel hf ↦ ⟨(h fuel hf).1, fun ds hds ↦ ?_⟩⟩
  rw [List.prefix_iff_eq_take.1 hds]
  exact (h fuel hf).2 _ (Finset.mem_range_succ_iff.2 hds.length_le)

end Session

end LittleTypes
