import MiniExt.Lib.Program

namespace MiniExt.Lib

/-!
# Lib — monitors

A monitor watches the calls of a program and their answers.  It moves through states of its own
and may object to a call.  The answers come from an environment, any machine at all, so that
what holds in every environment holds on every path of the program.

On much of a program a monitor asks for no more than that the answers meet a demand, each by
itself; the rest of this file is about finding that demand.

* `Environment`, `Monitor`, `Prog.Passes` — the monitor objects to no call of the run, and the
  run ends well;
* `Prog.Meets` — the answers of the run meet a demand, and the run ends well;
* `Reduces`, `Requires`, `Rejects`, `Comes` — the first as the second, part by part;
* `Prog.Yields` — what every value a program returns satisfies.
-/

variable {I : Interface} {ε α β σ ω : Type}

/-- What answers the calls: a machine with a state of its own. -/
abbrev Environment (I : Interface) (ω : Type) := (c : I.Call) → ω → I.Answer c × ω

/-- What watches the calls. -/
structure Monitor (I : Interface) (σ : Type) where
  accepts : (c : I.Call) → I.Answer c → σ → Prop
  next : (c : I.Call) → I.Answer c → σ → σ

/-- A demand on each answer by itself. -/
abbrev Demands (I : Interface) := (c : I.Call) → I.Answer c → Prop

/-- The monitor of a demand needs no state. -/
def Monitor.ofDemands (ok : Demands I) : Monitor I Unit where
  accepts c a _ := ok c a
  next _ _ _ := ()

namespace Prog

/-- The monitor objects to no call of the run, and if the run returns, it ends in `Q`. -/
def Passes (M : Monitor I σ) (env : Environment I ω) :
    Prog I ε α → ω → σ → (α → ω → σ → Prop) → Prop
  | .ret a, w, s, Q => Q a w s
  | .halt _, _, _, _ => True
  | .call c next, w, s, Q =>
    M.accepts c (env c w).1 s ∧
      (next (env c w).1).Passes M env (env c w).2 (M.next c (env c w).1 s) Q

/-- The answers of the run meet the demand, and if the run returns, it ends in `Q`. -/
def Meets (ok : Demands I) (env : Environment I ω) (p : Prog I ε α) (w : ω) (Q : α → ω → Prop) :
    Prop :=
  p.Passes (.ofDemands ok) env w () fun a w _ => Q a w

/-- Every value the program can return satisfies `R`. -/
def Yields (R : α → Prop) : Prog I ε α → Prop
  | .ret a => R a
  | .halt _ => True
  | .call _ next => ∀ r, (next r).Yields R

/-! ### The rules of a monitor -/

section Passes

variable (M : Monitor I σ) (env : Environment I ω) (w : ω) (s : σ)

/-- A value passes when the condition holds of it. -/
@[simp] theorem passes_pure (a : α) (Q : α → ω → σ → Prop) :
    (pure a : Prog I ε α).Passes M env w s Q ↔ Q a w s := Iff.rfl

/-- A halted program passes. -/
@[simp] theorem passes_halt (e : ε) (Q : α → ω → σ → Prop) :
    (Prog.halt e : Prog I ε α).Passes M env w s Q := trivial

/-- A call passes when the monitor accepts its answer and goes on from there. -/
theorem passes_perform (c : I.Call) (Q : I.Answer c → ω → σ → Prop) :
    (Prog.perform c : Prog I ε (I.Answer c)).Passes M env w s Q ↔
      M.accepts c (env c w).1 s ∧ Q (env c w).1 (env c w).2 (M.next c (env c w).1 s) := Iff.rfl

variable {M env w s}

/-- A program passes part by part. -/
theorem passes_bind {p : Prog I ε α} {f : α → Prog I ε β} {Q : β → ω → σ → Prop} :
    (p >>= f).Passes M env w s Q ↔
      p.Passes M env w s fun a w s => (f a).Passes M env w s Q := by
  induction p generalizing w s with
  | ret a => exact Iff.rfl
  | halt e => exact Iff.rfl
  | call c next ih => exact and_congr_right' (ih _)

/-- A weaker condition passes, with what the program yields at hand. -/
theorem Passes.mono {p : Prog I ε α} {R : α → Prop} {Q Q' : α → ω → σ → Prop}
    (hp : p.Passes M env w s Q) (hyields : p.Yields R) (h : ∀ a w s, R a → Q a w s → Q' a w s) :
    p.Passes M env w s Q' := by
  induction p generalizing w s with
  | ret a => exact h a w s hyields hp
  | halt e => trivial
  | call c next ih => exact ⟨hp.1, ih _ hp.2 (hyields _)⟩

end Passes

/-- A value yields what holds of it. -/
theorem yields_pure {a : α} {R : α → Prop} (h : R a) : (pure a : Prog I ε α).Yields R := h

/-- Every program yields something. -/
theorem yields_true (p : Prog I ε α) : p.Yields fun _ => True := by
  induction p with
  | ret a => trivial
  | halt e => trivial
  | call c next ih => exact ih

/-- A program yields what its last part yields. -/
theorem Yields.bind {p : Prog I ε α} {f : α → Prog I ε β} {R : β → Prop}
    (hf : ∀ a, (f a).Yields R) : (p >>= f).Yields R := by
  induction p with
  | ret a => exact hf a
  | halt e => trivial
  | call c next ih => exact fun r => ih r

/-- A value is returned from a value that the first part returns. -/
theorem Yields.bind_yields {p : Prog I ε α} {f : α → Prog I ε β} {R : α → Prop} {R' : β → Prop}
    (hp : p.Yields R) (hf : ∀ a, R a → (f a).Yields R') : (p >>= f).Yields R' := by
  induction p with
  | ret a => exact hf a hp
  | halt e => trivial
  | call c next ih => exact fun r => ih r (hp r)

/-- What a run returns is one of these values, whatever answers the calls. -/
theorem Yields.run {h : Handler I ω ε} {p : Prog I ε α} {R : α → Prop} (hp : p.Yields R) {w w' : ω}
    {a : α} (hrun : p.run h w = (.done a, w')) : R a := by
  induction p generalizing w with
  | ret a =>
    cases hrun
    exact hp
  | halt e => cases hrun
  | call c next ih =>
    unfold Prog.run at hrun
    rcases hc : h c w with ⟨r | e, w₁⟩
    · rw [hc, follow_done] at hrun
      exact ih r (hp r) hrun
    · rw [hc, follow_halted] at hrun
      cases hrun

/-- What an outcome comes to. -/
theorem passes_ofOutcome {M : Monitor I σ} {env : Environment I ω} {w : ω} {s : σ}
    (o : Outcome ε α) (Q : α → ω → σ → Prop) :
    (Prog.ofOutcome o : Prog I ε α).Passes M env w s Q ↔ ∀ a, o = .done a → Q a w s := by
  cases o with
  | done a =>
    constructor
    · rintro hQ a' ⟨⟩
      exact hQ
    · intro hQ
      exact hQ a rfl
  | halted e =>
    refine iff_of_true trivial ?_
    rintro a ⟨⟩

/-! ### The rules of a demand -/

section Meets

variable {ok : Demands I} {env : Environment I ω} {w : ω}

/-- A value meets the condition when that holds of it. -/
@[simp] theorem meets_pure (a : α) (Q : α → ω → Prop) :
    (pure a : Prog I ε α).Meets ok env w Q ↔ Q a w := Iff.rfl

/-- A halted program meets every condition. -/
@[simp] theorem meets_halt (e : ε) (Q : α → ω → Prop) :
    (Prog.halt e : Prog I ε α).Meets ok env w Q := trivial

/-- A call meets the condition when its answer is fine and what follows meets it. -/
theorem meets_perform (c : I.Call) (Q : I.Answer c → ω → Prop) :
    (Prog.perform c : Prog I ε (I.Answer c)).Meets ok env w Q ↔
      ok c (env c w).1 ∧ Q (env c w).1 (env c w).2 := Iff.rfl

/-- A program meets a condition part by part. -/
theorem meets_bind {p : Prog I ε α} {f : α → Prog I ε β} {Q : β → ω → Prop} :
    (p >>= f).Meets ok env w Q ↔ p.Meets ok env w fun a w => (f a).Meets ok env w Q :=
  passes_bind

/-- Ends of a run may be compared on the values it can return. -/
theorem meets_congr {p : Prog I ε α} {R : α → Prop} {Q Q' : α → ω → Prop} (hyields : p.Yields R)
    (h : ∀ a w, R a → (Q a w ↔ Q' a w)) : p.Meets ok env w Q ↔ p.Meets ok env w Q' := by
  constructor
  · intro hp
    exact hp.mono hyields fun a w _ hR => (h a w hR).mp
  · intro hp
    exact hp.mono hyields fun a w _ hR => (h a w hR).mpr

/-- A demand that every answer meets is always met. -/
theorem meets_of_forall (hok : ∀ c a, ok c a) (p : Prog I ε α) {Q : α → ω → Prop}
    (hQ : ∀ a w, Q a w) : p.Meets ok env w Q := by
  induction p generalizing w with
  | ret a => exact hQ a w
  | halt e => trivial
  | call c next ih => exact ⟨hok _ _, ih _⟩

end Meets

end Prog

/-! ### A monitor as a demand -/

/-- All the monitor asks for on `p` is the demand, and `p` returns in the state `e`. -/
structure Reduces (M : Monitor I σ) (ok : Demands I) (p : Prog I ε α) (s : σ) (e : α → σ) :
    Prop where
  iff : ∀ {ω : Type} (env : Environment I ω) (w : ω) (Q : α → ω → σ → Prop),
    p.Passes M env w s Q ↔ p.Meets ok env w fun a w => Q a w (e a)

/-- The monitor asks for nothing on `p`, but the demand asks for `R` of its value. -/
structure Requires (M : Monitor I σ) (ok : Demands I) (p : Prog I ε α) (s : σ) (R : α → Prop)
    (e : α → σ) : Prop where
  passes : ∀ {ω : Type} (env : Environment I ω) (w : ω) (Q : α → ω → σ → Prop),
    p.Passes M env w s Q ↔ p.Meets (fun _ _ => True) env w fun a w => Q a w (e a)
  meets : ∀ {ω : Type} (env : Environment I ω) (w : ω) (Q : α → ω → Prop),
    p.Meets ok env w Q ↔ p.Meets (fun _ _ => True) env w fun a w => R a ∧ Q a w

/-- The monitor objects to every run of `p` that does not halt first, or it ends outside `Q`. -/
structure Rejects (M : Monitor I σ) (env : Environment I ω) (p : Prog I ε α) (s : σ)
    (Q : α → ω → σ → Prop) : Prop where
  not_passes : ∀ w, ¬ p.Passes M env w s Q

/-- What the monitor asks for on `p`, with `Q` at the end, is the demand with `Q'` there. -/
structure Comes (M : Monitor I σ) (ok : Demands I) (env : Environment I ω) (p : Prog I ε α)
    (s : σ) (Q : α → ω → σ → Prop) (Q' : α → ω → Prop) : Prop where
  iff : ∀ w, p.Passes M env w s Q ↔ p.Meets ok env w Q'

section Rules

variable {M : Monitor I σ} {ok : Demands I} {p : Prog I ε α} {f : α → Prog I ε β} {s : σ}
  {R : α → Prop} {e : α → σ} {e' : β → σ} {env : Environment I ω} {Q : β → ω → σ → Prop}
  {Q' : β → ω → Prop}

/-- A value reduces to itself. -/
theorem reduces_pure {a : α} (h : e a = s) : Reduces M ok (pure a : Prog I ε α) s e :=
  ⟨fun env w Q => by rw [Prog.passes_pure, Prog.meets_pure, h]⟩

/-- A halt reduces to anything. -/
theorem reduces_halt {x : ε} : Reduces M ok (Prog.halt x : Prog I ε α) s e :=
  ⟨fun _ _ _ => Iff.rfl⟩

/-- A call reduces when what the monitor accepts is what the demand asks for. -/
theorem reduces_perform {c : I.Call} (haccepts : ∀ a, M.accepts c a s ↔ ok c a) :
    Reduces M ok (Prog.perform c : Prog I ε (I.Answer c)) s fun a => M.next c a s :=
  ⟨fun env w Q => by
    rw [Prog.passes_perform, Prog.meets_perform, haccepts]⟩

/-- Programs reduce one after the other. -/
theorem Reduces.bind (hp : Reduces M ok p s e) (hf : ∀ a, Reduces M ok (f a) (e a) e') :
    Reduces M ok (p >>= f) s e' :=
  ⟨fun env w Q => by
    rw [Prog.passes_bind, hp.iff, Prog.meets_bind]
    exact Prog.meets_congr p.yields_true fun a w _ => (hf a).iff env w Q⟩

/-- What reduces, before what comes out. -/
theorem Reduces.bind_comes (hp : Reduces M ok p s e)
    (hf : ∀ a, Comes M ok env (f a) (e a) Q Q') : Comes M ok env (p >>= f) s Q Q' :=
  ⟨fun w => by
    rw [Prog.passes_bind, hp.iff, Prog.meets_bind]
    exact Prog.meets_congr p.yields_true fun a w _ => (hf a).iff w⟩

/-- The same, when only the answers it yields have to come out. -/
theorem Reduces.bind_comes_of_yields (hp : Reduces M ok p s e) (hyields : p.Yields R)
    (hf : ∀ a, R a → Comes M ok env (f a) (e a) Q Q') : Comes M ok env (p >>= f) s Q Q' :=
  ⟨fun w => by
    rw [Prog.passes_bind, hp.iff, Prog.meets_bind]
    exact Prog.meets_congr hyields fun a w hR => (hf a hR).iff w⟩

/-- What stands after a part that never returns does not matter. -/
theorem Reduces.bind_of_never (hp : Reduces M ok p s e) (hnever : p.Yields fun _ => False) :
    Reduces M ok (p >>= f) s e' :=
  ⟨fun env w Q => by
    rw [Prog.passes_bind, hp.iff, Prog.meets_bind]
    exact Prog.meets_congr hnever fun a w hfalse => hfalse.elim⟩

/-- Nothing has to come out of a program that never returns. -/
theorem Reduces.bind_comes_of_never (hp : Reduces M ok p s e)
    (hnever : p.Yields fun _ => False) : Comes M ok env (p >>= f) s Q Q' :=
  hp.bind_comes_of_yields hnever fun _ hfalse => hfalse.elim

/-- A reduced program comes out as its condition says in the state it ends in. -/
theorem Reduces.comes_iff (hp : Reduces M ok p s e) {Q : α → ω → σ → Prop} {Q' : α → ω → Prop}
    (hQ : ∀ a w, Q a w (e a) ↔ Q' a w) : Comes M ok env p s Q Q' :=
  ⟨fun w => by
    rw [hp.iff]
    exact Prog.meets_congr p.yields_true fun a w _ => hQ a w⟩

/-- So it comes out with that condition itself. -/
theorem Reduces.comes (hp : Reduces M ok p s e) {Q : α → ω → σ → Prop} :
    Comes M ok env p s Q fun a w => Q a w (e a) :=
  ⟨fun w => hp.iff env w Q⟩

/-- What requires something that always holds reduces. -/
theorem Requires.reduces (hp : Requires M ok p s R e) (hR : ∀ a, R a) : Reduces M ok p s e :=
  ⟨fun env w Q => by
    rw [hp.passes, hp.meets]
    exact Prog.meets_congr p.yields_true fun a w _ => (and_iff_right (hR a)).symm⟩

/-- After a required answer: a good one goes on, a bad one is rejected. -/
theorem Requires.bind_comes (hp : Requires M ok p s R e)
    (hgood : ∀ a, R a → Comes M ok env (f a) (e a) Q Q')
    (hbad : ∀ a, ¬ R a → Rejects M env (f a) (e a) Q) : Comes M ok env (p >>= f) s Q Q' :=
  ⟨fun w => by
    rw [Prog.passes_bind, hp.passes, Prog.meets_bind, hp.meets]
    refine Prog.meets_congr p.yields_true fun a w _ => ?_
    by_cases hR : R a
    · rw [(hgood a hR).iff]
      exact (and_iff_right hR).symm
    · exact iff_of_false ((hbad a hR).not_passes w) fun h => hR h.1⟩

/-- The same, when all that goes on reduces. -/
theorem Requires.bind (hp : Requires M ok p s R e)
    (hgood : ∀ a, R a → Reduces M ok (f a) (e a) e')
    (hbad : ∀ {ω : Type} (env : Environment I ω) (Q : β → ω → σ → Prop) a, ¬ R a →
      Rejects M env (f a) (e a) Q) :
    Reduces M ok (p >>= f) s e' :=
  ⟨fun env w Q =>
    (hp.bind_comes (fun a hR => (hgood a hR).comes) (hbad env Q)).iff w⟩

/-- A value comes out when the two conditions agree on it. -/
theorem comes_pure {a : α} {Q : α → ω → σ → Prop} {Q' : α → ω → Prop}
    (h : ∀ w, Q a w s ↔ Q' a w) : Comes M ok env (pure a : Prog I ε α) s Q Q' := ⟨h⟩

/-- A part of a program, and a condition on what follows it. -/
theorem Reduces.passes_bind_iff (hp : Reduces M ok p s e) {Q' : α → ω → Prop}
    (hf : ∀ a w, (f a).Passes M env w (e a) Q ↔ Q' a w) (w : ω) :
    (p >>= f).Passes M env w s Q ↔ p.Meets ok env w Q' := by
  rw [Prog.passes_bind, hp.iff]
  exact Prog.meets_congr p.yields_true fun a w _ => hf a w

/-- The same, for the run of a whole program. -/
theorem Requires.passes_bind_iff (hp : Requires M ok p s R e) {Q' : α → ω → Prop}
    (hgood : ∀ a w, R a → ((f a).Passes M env w (e a) Q ↔ Q' a w))
    (hbad : ∀ a, ¬ R a → Rejects M env (f a) (e a) Q) (w : ω) :
    (p >>= f).Passes M env w s Q ↔ p.Meets ok env w Q' := by
  rw [Prog.passes_bind, hp.passes, hp.meets]
  refine Prog.meets_congr p.yields_true fun a w _ => ?_
  by_cases hR : R a
  · rw [hgood a w hR]
    exact (and_iff_right hR).symm
  · exact iff_of_false ((hbad a hR).not_passes w) fun h => hR h.1

/-- A value is rejected when no world satisfies the condition. -/
theorem rejects_pure {a : α} {Q : α → ω → σ → Prop} (h : ∀ w, ¬ Q a w s) :
    Rejects M env (pure a : Prog I ε α) s Q := ⟨h⟩

/-- A halt comes out. -/
theorem comes_halt {x : ε} {Q : α → ω → σ → Prop} {Q' : α → ω → Prop} :
    Comes M ok env (Prog.halt x : Prog I ε α) s Q Q' := ⟨fun _ => Iff.rfl⟩

end Rules

end MiniExt.Lib
