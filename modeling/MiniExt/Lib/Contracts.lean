import MiniExt.Lib.Loops
import MiniExt.Lib.Monitor

namespace MiniExt.Lib

/-!
# Lib — contracts and refinement

A program keeps a contract if its calls meet the demands of the host, as long as the host's
answers are as granted.  A host that serves the same calls on another kind of state refines
the first one if it matches every call that meets the demands; then it matches every run of
every program that keeps the contract.

* `Contract`, `Prog.Obeys` — demands on the calls, grants on the answers;
* `Obeys.bind`, `Obeys.perform`, … — one rule for each construct;
* `Obeys.passes` — in an environment that grants, no call breaks a demand;
* `Refines` — call by call, one host matches the other;
* `Refines.run` — so does every run of a program that obeys.
-/

variable {I : Interface} {ε α β σ τ : Type}

/-- What a host demands of every call, and what it grants about the answer. -/
structure Contract (I : Interface) where
  demands : I.Call → Prop
  grants : (c : I.Call) → I.Answer c → Prop

/-- The monitor that asks every call for the demands. -/
def Contract.monitor (C : Contract I) : Monitor I Unit where
  accepts c _ _ := C.demands c
  next _ _ _ := ()

namespace Prog

/-- As long as every answer is as granted, every call meets the demands and every value that
    is returned satisfies `Q`. -/
inductive Obeys (C : Contract I) (Q : α → Prop) : Prog I ε α → Prop where
  | ret {a : α} (h : Q a) : Obeys C Q (.ret a)
  | halt {e : ε} : Obeys C Q (.halt e)
  | call {c : I.Call} {next : I.Answer c → Prog I ε α} (hc : C.demands c)
      (hnext : ∀ r, C.grants c r → Obeys C Q (next r)) : Obeys C Q (.call c next)

namespace Obeys

variable {C : Contract I} {Q : α → Prop} {Q' : β → Prop}

/-- A value that meets the condition obeys every contract. -/
theorem pure {a : α} (h : Q a) : Obeys C Q (pure a : Prog I ε α) := .ret h

/-- A call that the contract allows yields what it grants. -/
theorem perform {c : I.Call} (h : C.demands c) :
    Obeys C (C.grants c) (Prog.perform c : Prog I ε (I.Answer c)) := .call h fun _ hr => .ret hr

/-- A computed outcome obeys every contract when its value meets the condition. -/
theorem ofOutcome {o : Outcome ε α} (h : ∀ a, o = .done a → Q a) :
    Obeys C Q (Prog.ofOutcome o : Prog I ε α) := by
  cases o with
  | done a => exact .ret (h a rfl)
  | halted e => exact .halt

/-- One part after the other: the second one relies on the value of the first. -/
theorem bind {p : Prog I ε α} {f : α → Prog I ε β} (hp : Obeys C Q p)
    (hf : ∀ a, Q a → Obeys C Q' (f a)) : Obeys C Q' (p >>= f) := by
  induction hp with
  | ret h => exact hf _ h
  | halt => exact .halt
  | call hc _ ih => exact .call hc ih

/-- A weaker property of the values. -/
theorem mono {p : Prog I ε α} {R : α → Prop} (hp : Obeys C Q p) (h : ∀ a, Q a → R a) :
    Obeys C R p := by
  induction hp with
  | ret ha => exact .ret (h _ ha)
  | halt => exact .halt
  | call hc _ ih => exact .call hc ih

/-- **A program that obeys**, in an environment whose answers are as granted: the monitor that
    asks every call for the demands has no objection. -/
theorem passes {p : Prog I ε α} {ω : Type} {env : Environment I ω} (hp : Obeys C Q p)
    (henv : ∀ c w, C.demands c → C.grants c (env c w).1) (w : ω) :
    p.Passes C.monitor env w () fun a _ _ => Q a := by
  induction hp generalizing w with
  | ret h => exact h
  | halt => exact trivial
  | call hc _ ih => exact ⟨hc, ih _ (henv _ w hc) _⟩

end Obeys

end Prog

/-- Every call that meets the demands, made in related states, has in `g` the end it has in
    `h` and leads to related states; its answer is as granted.  Only a call that halts for a
    reason outside `E` need not be matched. -/
structure Refines (C : Contract I) (E : ε → Prop) (h : Handler I σ ε) (g : PartialHandler I τ ε)
    (R : σ → τ → Prop) : Prop where
  step : ∀ {c : I.Call} {s s' : σ} {t : τ} {o : Outcome ε (I.Answer c)}, C.demands c → R s t →
    h c s = (o, s') → o.EndsIn E →
    ∃ t', g c t = some (o, t') ∧ R s' t' ∧ ∀ r, o = .done r → C.grants c r

/-- **A run** of a program that obeys is matched, if it does not halt for a reason outside
    `E`: it comes back, ends the same way and leaves a related state. -/
theorem Refines.run {C : Contract I} {E : ε → Prop} {h : Handler I σ ε}
    {g : PartialHandler I τ ε} {R : σ → τ → Prop} (H : Refines C E h g R) {p : Prog I ε α}
    {Q : α → Prop} (hp : p.Obeys C Q) {s s' : σ} {t : τ} {o : Outcome ε α} (hR : R s t)
    (hrun : p.run h s = (o, s')) (hend : o.EndsIn E) :
    ∃ t', p.run? g t = some (o, t') ∧ R s' t' := by
  -- by induction on the program; the relation is kept from call to call
  induction hp generalizing s t with
  | ret _ =>
    cases hrun
    exact ⟨t, rfl, hR⟩
  | halt =>
    cases hrun
    exact ⟨t, rfl, hR⟩
  | @call c next hdemands _ ih =>
    show ∃ t', follow? (g c t) (fun r t => (next r).run? g t) = some (o, t') ∧ R s' t'
    rw [Prog.run] at hrun
    rcases hc : h c s with ⟨r | e, s₁⟩
    · obtain ⟨t₁, hg, hR₁, hgrants⟩ := H.step hdemands hR hc trivial
      rw [hc, follow_done] at hrun
      rw [hg, follow?_done]
      exact ih r (hgrants r rfl) hR₁ hrun
    · rw [hc, follow_halted] at hrun
      cases hrun
      obtain ⟨t₁, hg, hR₁, -⟩ := H.step hdemands hR hc hend
      rw [hg, follow?_halted]
      exact ⟨t₁, rfl, hR₁⟩

end MiniExt.Lib
