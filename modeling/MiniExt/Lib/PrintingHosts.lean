import MiniExt.Lib.Contracts
import MiniExt.Lib.Printing

namespace MiniExt.Lib

/-!
# Lib — prints on any host

A program that prints runs on a host of its interface, with the prints beside it.  What was known
of the host is known of the host with prints: that it refines another one, and that its bounded
versions settle; and a program keeps a contract if it does so without its prints.

* `PartialHandler.printing` — a host with prints;
* `Contract.printing`, `Prog.obeys_of_silent` — contracts ask nothing of the prints;
* `Refines.printing` — refinement;
* `settles_printing` — bounds.
-/

variable {I : Interface} {ω ε α σ τ : Type}

/-- The meaning of the calls, with everything that was printed so far. -/
def PartialHandler.printing (g : PartialHandler I τ ε) :
    PartialHandler (I.printing ω) (τ × List ω) ε
  | .inl c, t => (g c t.1).map (Prod.map id (·, t.2))
  | .inr o, t => some (.done (), (t.1, t.2 ++ [o]))

/-- The contract of the calls; prints are free. -/
def Contract.printing (C : Contract I) (ω : Type) : Contract (I.printing ω) where
  demands
    | .inl c => C.demands c
    | .inr _ => True
  grants
    | .inl c, r => C.grants c r
    | .inr _, _ => True

/-- **A program keeps a contract** if it does so without its prints. -/
theorem Prog.obeys_of_silent {C : Contract I} {Q : α → Prop} {p : Prog (I.printing ω) ε α}
    (hp : p.silent.Obeys C Q) : p.Obeys (C.printing ω) Q := by
  induction p with
  | ret a =>
    cases hp with
    | ret h => exact .ret h
  | halt e => exact .halt
  | call c next ih =>
    rcases c with c | o
    · cases hp with
      | call hc hnext => exact .call hc fun r hr => ih r (hnext r hr)
    · exact .call trivial fun r _ => ih r hp

/-- **Refinement** goes on beside the prints. -/
theorem Refines.printing {C : Contract I} {E : ε → Prop} {h : Handler I σ ε}
    {g : PartialHandler I τ ε} {R : σ → τ → Prop} (H : Refines C E h g R) :
    Refines (C.printing ω) E h.printing (PartialHandler.printing g)
      fun s t => R s.1 t.1 ∧ s.2 = t.2 where
  step := by
    rintro (c | o) ⟨s, out⟩ s' ⟨t, out'⟩ r hc ⟨hR, rfl⟩ hcall hend
    · rcases hs : h c s with ⟨r', s₁⟩
      rw [Prog.printing_inl h hs] at hcall
      cases hcall
      obtain ⟨t', ht', hR', hgrants⟩ := H.step hc hR hs hend
      refine ⟨(t', out), ?_, ⟨hR', rfl⟩, hgrants⟩
      show (g c t).map _ = _
      rw [ht']
      rfl
    · cases hcall
      exact ⟨(t, out ++ [o]), rfl, ⟨hR, rfl⟩, fun _ _ => trivial⟩

/-- **Bounds** settle beside the prints. -/
theorem settles_printing {h : Nat → PartialHandler I σ ε} {g : PartialHandler I τ ε}
    {erase : σ → τ} (hstep : ∀ c s, Settles erase (fun fuel => h fuel c s) (g c (erase s)))
    (c : (I.printing ω).Call) (s : σ × List ω) :
    Settles (Prod.map erase id) (fun fuel => PartialHandler.printing (h fuel) c s)
      (PartialHandler.printing g c (Prod.map erase id s)) := by
  obtain ⟨s, out⟩ := s
  rcases c with c | o
  · exact (hstep c s).map id fun _ => rfl
  · exact settles_const _ (s, out ++ [o])

end MiniExt.Lib
