import Mathlib.Logic.Basic

namespace MiniExt.Lib

/-!
# Lib — programs that call a host

A program is a finite tree of calls to an interface: it returns a value, halts early
with a reason, or makes a call and goes on from the answer.  What a call does is not part
of the program: a `Handler` over a state type gives it a meaning, so that one program can
be run against several hosts.

* `Prog I ε α` — programs over the interface `I` that may halt with an `ε`;
* `Prog.run h p s` — the run of `p` from the state `s` under the handler `h`;
* `run_bind` — a run of a sequence is the run of its parts;
* `run_within` — what the calls a program can make preserve, its runs preserve.
-/

/-- An interface: the calls a program may make, and the type of the answer to each. -/
structure Interface where
  Call : Type
  Answer : Call → Type

/-- How a run ends: with a value, or early with a reason. -/
inductive Outcome (ε α : Type) where
  | done (a : α)
  | halted (e : ε)
  deriving DecidableEq, Repr

/-- A function applied to the value of a run. -/
def Outcome.map {ε α β : Type} (f : α → β) : Outcome ε α → Outcome ε β
  | .done a => .done (f a)
  | .halted e => .halted e

/-- A function is applied to the value of a run. -/
@[simp] theorem Outcome.map_done {ε α β : Type} (f : α → β) (a : α) :
    (Outcome.done a : Outcome ε α).map f = .done (f a) := rfl

/-- A halted run stays halted. -/
@[simp] theorem Outcome.map_halted {ε α β : Type} (f : α → β) (e : ε) :
    (Outcome.halted e : Outcome ε α).map f = .halted e := rfl

/-- Programs over the interface `I`. -/
inductive Prog (I : Interface) (ε α : Type) where
  | ret (a : α)
  | halt (e : ε)
  | call (c : I.Call) (next : I.Answer c → Prog I ε α)

variable {I : Interface} {ε α β σ τ : Type}

namespace Prog

/-- Sequencing: `f` goes on from every value `p` returns. -/
def bind : Prog I ε α → (α → Prog I ε β) → Prog I ε β
  | .ret a, f => f a
  | .halt e, _ => .halt e
  | .call c next, f => .call c (fun r => (next r).bind f)

instance : Monad (Prog I ε) where
  pure := .ret
  bind := Prog.bind

/-- The program that makes one call and returns the answer. -/
def perform (c : I.Call) : Prog I ε (I.Answer c) := .call c .ret

/-- A computation that makes no call, as a program. -/
def ofOutcome : Outcome ε α → Prog I ε α
  | .done a => .ret a
  | .halted e => .halt e

end Prog

/-- A meaning for the calls of `I`: each call reads and changes a state `σ`, and answers
    or halts. -/
abbrev Handler (I : Interface) (σ ε : Type) :=
  (c : I.Call) → σ → Outcome ε (I.Answer c) × σ

/-- Go on from the end of a run, unless it halted. -/
def follow (r : Outcome ε α × σ) (k : α → σ → Outcome ε β × σ) : Outcome ε β × σ :=
  match r.1 with
  | .done a => k a r.2
  | .halted e => (.halted e, r.2)

-- The parentheses keep these lemmas out of definitional rewriting: a proof that uses them as
-- equations is checked without running the program.

/-- What follows a run that ended goes on from there. -/
@[simp] theorem follow_done (a : α) (s : σ) (k : α → σ → Outcome ε β × σ) :
    follow (.done a, s) k = k a s := (rfl)

/-- Nothing follows a run that was halted. -/
@[simp] theorem follow_halted (e : ε) (s : σ) (k : α → σ → Outcome ε β × σ) :
    follow (.halted e, s) k = (.halted e, s) := (rfl)

namespace Prog

/-- The run of a program from a state: how it ends and the state it leaves. -/
def run (h : Handler I σ ε) : Prog I ε α → σ → Outcome ε α × σ
  | .ret a, s => (.done a, s)
  | .halt e, s => (.halted e, s)
  | .call c next, s => follow (h c s) (fun r s' => (next r).run h s')

variable (h : Handler I σ ε)

/-- A value is returned as it is. -/
@[simp] theorem run_pure (a : α) (s : σ) :
    (pure a : Prog I ε α).run h s = (.done a, s) := (rfl)

/-- A halt ends the run. -/
@[simp] theorem run_halt (e : ε) (s : σ) :
    (Prog.halt e : Prog I ε α).run h s = (.halted e, s) := (rfl)

/-- A computed outcome ends the run with it. -/
@[simp] theorem run_ofOutcome (o : Outcome ε α) (s : σ) :
    (Prog.ofOutcome o : Prog I ε α).run h s = (o, s) := by
  cases o <;> rfl

/-- A call is what its handler makes of it. -/
theorem run_perform (c : I.Call) (s : σ) :
    (Prog.perform c : Prog I ε (I.Answer c)).run h s = h c s := by
  simp only [perform, run]
  rcases h c s with ⟨_ | _, _⟩ <;> rfl

/-- The run of a sequence: the second part starts in the state the first one left, unless
    the first one halted. -/
theorem run_bind (p : Prog I ε α) (f : α → Prog I ε β) (s : σ) :
    (p >>= f).run h s = follow (p.run h s) (fun a s' => (f a).run h s') := by
  induction p generalizing s with
  | ret a => rfl
  | halt e => rfl
  | call c next ih =>
    show follow (h c s) (fun r s' => (next r >>= f).run h s') = _
    simp only [run]
    rcases h c s with ⟨r | e, s'⟩
    · exact ih r s'
    · rfl

/-- Every call the program can make satisfies `P`. -/
inductive Within (P : I.Call → Prop) : {α : Type} → Prog I ε α → Prop where
  | ret {α : Type} (a : α) : Within P (.ret a)
  | halt {α : Type} (e : ε) : Within P (.halt e : Prog I ε α)
  | call {α : Type} (c : I.Call) (next : I.Answer c → Prog I ε α) (hc : P c)
      (hnext : ∀ r, Within P (next r)) : Within P (.call c next)

namespace Within

variable {P : I.Call → Prop}

/-- A value makes no calls. -/
theorem pure (a : α) : Within P (pure a : Prog I ε α) := .ret a

/-- A call is within what it belongs to. -/
theorem perform {c : I.Call} (hc : P c) :
    Within P (Prog.perform c : Prog I ε (I.Answer c)) := .call c _ hc .ret

/-- A computed outcome makes no calls. -/
theorem ofOutcome (o : Outcome ε α) : Within P (Prog.ofOutcome o : Prog I ε α) := by
  cases o
  · exact .ret _
  · exact .halt _

/-- Programs within stay within one after the other. -/
theorem bind {p : Prog I ε α} {f : α → Prog I ε β} (hp : Within P p)
    (hf : ∀ a, Within P (f a)) : Within P (p >>= f) := by
  induction hp with
  | ret a => exact hf a
  | halt e => exact .halt e
  | call c next hc _ ih => exact .call c _ hc (fun r => ih r)

end Within

/-- **Invariant rule.**  What every call within `P` preserves, a run of a program within
    `P` preserves. -/
theorem run_within {P : I.Call → Prop} {R : σ → Prop}
    (hstep : ∀ c s, P c → R s → R (h c s).2) {p : Prog I ε α} (hp : Within P p) (s : σ)
    (hs : R s) : R (p.run h s).2 := by
  induction hp generalizing s with
  | ret a => exact hs
  | halt e => exact hs
  | call c next hc _ ih =>
    have hs' := hstep c s hc hs
    simp only [run]
    rcases hcs : h c s with ⟨r | e, s'⟩ <;> rw [hcs] at hs'
    · exact ih r s' hs'
    · exact hs'

end Prog

end MiniExt.Lib
