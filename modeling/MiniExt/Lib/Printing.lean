import MiniExt.Lib.Program

namespace MiniExt.Lib

/-!
# Lib — programs that print

What a program prints does not change what it computes.  `Interface.printing` adds one call to an
interface, which prints and answers nothing; forgetting that call leaves a program over the old
interface, and a run of the one is a run of the other with its prints beside it.

* `Interface.printing`, `Prog.print` — the call;
* `Prog.lift` — a program that prints nothing;
* `Prog.silent` — a program without its prints;
* `Handler.printing`, `run_silent` — runs, and that the prints are all that is new;
* `Prog.Says` — what a program that ends has printed, of the prints that one looks at;
* `Prog.Says.bind`, `Prog.Says.run` — the rule for sequences, and what it means for runs;
* `Prog.Utters` — a run that ends, with what it adds to these prints.
-/

variable {I : Interface} {ω ε α β σ : Type}

/-- The interface with a call that prints. -/
abbrev Interface.printing (I : Interface) (ω : Type) : Interface where
  Call := I.Call ⊕ ω
  Answer
    | .inl c => I.Answer c
    | .inr _ => Unit

namespace Prog

/-- Print something. -/
def print (o : ω) : Prog (I.printing ω) ε Unit := .call (.inr o) .ret

/-- A program that prints nothing. -/
def lift : Prog I ε α → Prog (I.printing ω) ε α
  | .ret a => .ret a
  | .halt e => .halt e
  | .call c next => .call (.inl c) fun r => (next r).lift

/-- A program without its prints. -/
def silent : Prog (I.printing ω) ε α → Prog I ε α
  | .ret a => .ret a
  | .halt e => .halt e
  | .call (.inl c) next => .call c fun r => (next r).silent
  | .call (.inr _) next => (next ()).silent

/-- Nothing is left to do. -/
theorem bind_pure (p : Prog I ε α) : (p >>= fun a => pure a) = p := by
  induction p with
  | ret a => rfl
  | halt e => rfl
  | call c next ih => exact congrArg (Prog.call c) (funext ih)

/-! ### Programs without their prints -/

/-- A value has no prints. -/
@[simp] theorem silent_pure (a : α) : (pure a : Prog (I.printing ω) ε α).silent = pure a := rfl

/-- A halt has no prints. -/
@[simp] theorem silent_halt (e : ε) :
    (.halt e : Prog (I.printing ω) ε α).silent = .halt e := rfl

/-- A computed outcome has no prints. -/
@[simp] theorem silent_ofOutcome (o : Outcome ε α) :
    (ofOutcome o : Prog (I.printing ω) ε α).silent = ofOutcome o := by
  cases o <;> rfl

/-- Without its prints a print does nothing. -/
@[simp] theorem silent_print (o : ω) :
    (print o : Prog (I.printing ω) ε Unit).silent = pure () := rfl

/-- A program that does not print is what is left of it. -/
@[simp] theorem silent_lift (p : Prog I ε α) : (p.lift : Prog (I.printing ω) ε α).silent = p := by
  induction p with
  | ret a => rfl
  | halt e => rfl
  | call c next ih =>
    show Prog.call c _ = _
    rw [funext ih]

/-- The prints go part by part. -/
@[simp] theorem silent_bind (p : Prog (I.printing ω) ε α) (f : α → Prog (I.printing ω) ε β) :
    (p >>= f).silent = p.silent >>= fun a => (f a).silent := by
  induction p with
  | ret a => rfl
  | halt e => rfl
  | call c next ih =>
    rcases c with c | o
    · show Prog.call c _ = Prog.call c _
      congr 1
      funext r
      exact ih r
    · exact ih ()

/-- The prints go branch by branch. -/
@[simp] theorem silent_ite (c : Prop) [Decidable c] (p q : Prog (I.printing ω) ε α) :
    (if c then p else q).silent = if c then p.silent else q.silent := by
  split
  · rfl
  · rfl

end Prog

/-! ### Runs -/

/-- The meaning of the calls, with everything that was printed so far. -/
def Handler.printing (h : Handler I σ ε) : Handler (I.printing ω) (σ × List ω) ε
  | .inl c, s => ((h c s.1).1, ((h c s.1).2, s.2))
  | .inr o, s => (.done (), (s.1, s.2 ++ [o]))

namespace Prog

variable (h : Handler I σ ε)

/-- A print appends its piece to the output. -/
@[simp] theorem run_print (o : ω) (s : σ) (out : List ω) :
    (print o : Prog (I.printing ω) ε Unit).run h.printing (s, out) =
      (.done (), (s, out ++ [o])) := (rfl)

/-- A call of the old interface prints nothing. -/
theorem printing_inl {c : I.Call} {s s' : σ} {o : Outcome ε (I.Answer c)} (hc : h c s = (o, s'))
    (out : List ω) : h.printing (.inl c) (s, out) = (o, (s', out)) := by
  show ((h c s).1, ((h c s).2, out)) = _
  rw [hc]

/-- A program that does not print leaves the output as it is. -/
@[simp] theorem run_lift (p : Prog I ε α) (s : σ) (out : List ω) :
    (p.lift : Prog (I.printing ω) ε α).run h.printing (s, out) =
      ((p.run h s).1, ((p.run h s).2, out)) := by
  induction p generalizing s with
  | ret a => rfl
  | halt e => rfl
  | call c next ih =>
    show follow (h.printing (.inl c) (s, out)) (fun r s' => (next r).lift.run h.printing s') =
      ((follow (h c s) fun r s' => (next r).run h s').1,
        ((follow (h c s) fun r s' => (next r).run h s').2, out))
    rcases hc : h c s with ⟨r | e, s'⟩
    · rw [printing_inl h hc, follow_done, follow_done, ih]
    · rw [printing_inl h hc, follow_halted, follow_halted]

/-- **The prints change nothing**: a run without them ends the same, in the same state. -/
theorem run_silent (p : Prog (I.printing ω) ε α) (s : σ) (out : List ω) :
    p.silent.run h s = ((p.run h.printing (s, out)).1, (p.run h.printing (s, out)).2.1) := by
  induction p generalizing s out with
  | ret a => rfl
  | halt e => rfl
  | call c next ih =>
    rcases c with c | o
    · show (follow (h c s) fun r s' => (next r).silent.run h s') =
        ((follow (h.printing (.inl c) (s, out)) fun r s' => (next r).run h.printing s').1,
          (follow (h.printing (.inl c) (s, out)) fun r s' => (next r).run h.printing s').2.1)
      rcases hc : h c s with ⟨r | e, s'⟩
      · rw [printing_inl h hc, follow_done, follow_done, ih]
      · rw [printing_inl h hc, follow_halted, follow_halted]
    · exact ih () s (out ++ [o])

/-! ### What is said -/

variable {keep : ω → Bool} {p : Prog (I.printing ω) ε α} {f : α → Prog (I.printing ω) ε β}
  {out mid : List ω}

/-- On every path through the program that ends, with a result `a`, the prints that are kept are
    `g a`, with those of before, `out`. -/
def Says (keep : ω → Bool) : Prog (I.printing ω) ε α → (out : List ω) → (g : α → List ω) → Prop
  | .ret a, out, g => out = g a
  | .halt _, _, _ => True
  | .call (.inl _) next, out, g => ∀ r, (next r).Says keep out g
  | .call (.inr o) next, out, g => (next ()).Says keep (if keep o then out ++ [o] else out) g

/-- None of its prints is kept. -/
def Mute (keep : ω → Bool) (p : Prog (I.printing ω) ε α) : Prop :=
  ∀ out, p.Says keep out fun _ => out

/-- A value says what was said before. -/
theorem says_pure {a : α} {g : α → List ω} (h : out = g a) :
    (pure a : Prog (I.printing ω) ε α).Says keep out g := h

/-- A halted program says anything. -/
theorem says_halt (e : ε) (g : α → List ω) :
    (Prog.halt e : Prog (I.printing ω) ε α).Says keep out g := trivial

/-- **One part after the other.** -/
theorem Says.bind {g : α → List ω} {g' : β → List ω} (hp : p.Says keep out g)
    (hf : ∀ a, (f a).Says keep (g a) g') : (p >>= f).Says keep out g' := by
  induction p generalizing out with
  | ret a =>
    obtain rfl : out = g a := hp
    exact hf a
  | halt e => exact says_halt e g'
  | call c next ih =>
    rcases c with c | o
    · intro r
      exact ih r (hp r)
    · exact ih () hp

/-- After a mute part the rest says what it says. -/
theorem Mute.bind {g : β → List ω} (hp : p.Mute keep) (hf : ∀ a, (f a).Says keep out g) :
    (p >>= f).Says keep out g :=
  Says.bind (hp out) hf

/-- Mute parts one after the other are mute. -/
theorem Mute.seq (hp : p.Mute keep) (hf : ∀ a, (f a).Mute keep) : (p >>= f).Mute keep :=
  fun out => hp.bind fun a => hf a out

/-- A value is mute. -/
theorem mute_pure (a : α) : (pure a : Prog (I.printing ω) ε α).Mute keep := fun _ => rfl

/-- A halt is mute. -/
theorem mute_halt (e : ε) : (Prog.halt e : Prog (I.printing ω) ε α).Mute keep := fun _ => trivial

/-- A computed outcome is mute. -/
theorem mute_ofOutcome (o : Outcome ε α) :
    (ofOutcome o : Prog (I.printing ω) ε α).Mute keep := by
  cases o with
  | done a => exact mute_pure a
  | halted e => exact mute_halt e

/-- A program that does not print is mute. -/
theorem mute_lift (p : Prog I ε α) : (p.lift : Prog (I.printing ω) ε α).Mute keep := by
  intro out
  induction p with
  | ret a => exact rfl
  | halt e => exact trivial
  | call c next ih => exact ih

/-- A print that is not kept is mute. -/
theorem mute_print {o : ω} (ho : keep o = false) :
    (print o : Prog (I.printing ω) ε Unit).Mute keep := by
  intro out
  show (if keep o then out ++ [o] else out) = out
  rw [ho]
  rfl

/-- A print that is kept is said. -/
theorem says_print {o : ω} (ho : keep o = true) :
    (print o : Prog (I.printing ω) ε Unit).Says keep out fun _ => out ++ [o] := by
  show (if keep o then out ++ [o] else out) = out ++ [o]
  rw [if_pos ho]

/-- **Runs**: the program does what it does without its prints, and has said what it says. -/
theorem Says.run {g : α → List ω} {all : List ω} (hp : p.Says keep (all.filter keep) g) {s s' : σ}
    {a : α} (hrun : p.silent.run h s = (.done a, s')) :
    ∃ all', p.run h.printing (s, all) = (.done a, (s', all')) ∧ all'.filter keep = g a := by
  induction p generalizing s all with
  | ret b =>
    cases hrun
    exact ⟨all, rfl, hp⟩
  | halt e => cases hrun
  | call c next ih =>
    rcases c with c | o
    · have hrun : (follow (h c s) fun r s' => (next r).silent.run h s') = (.done a, s') := hrun
      show ∃ all', (follow (h.printing (.inl c) (s, all)) fun r s' => (next r).run h.printing s') =
        (.done a, (s', all')) ∧ _
      rcases hc : h c s with ⟨r | e, s₁⟩
      · rw [hc, follow_done] at hrun
        rw [printing_inl h hc, follow_done]
        exact ih r (hp r) hrun
      · rw [hc, follow_halted] at hrun
        cases hrun
    · refine ih () ?_ hrun
      have hp : (next ()).Says keep
          (if keep o then all.filter keep ++ [o] else all.filter keep) g := hp
      cases hkeep : keep o with
      | true => simpa [List.filter_append, hkeep] using hp
      | false => simpa [List.filter_append, hkeep] using hp

/-- From a state the program ends with `a` in state `s'`, and the prints of it that are kept are
    `said`. -/
def Utters (keep : ω → Bool) (p : Prog (I.printing ω) ε α) (s : σ) (a : α) (said : List ω)
    (s' : σ) : Prop :=
  ∀ all, ∃ all', p.run h.printing (s, all) = (.done a, (s', all')) ∧
    all'.filter keep = all.filter keep ++ said

variable {h} {s s' s'' : σ} {a : α} {b : β} {said more : List ω}

/-- A value utters nothing. -/
theorem utters_pure (a : α) (s : σ) :
    (pure a : Prog (I.printing ω) ε α).Utters h keep s a [] s :=
  fun all => ⟨all, rfl, (List.append_nil _).symm⟩

/-- A print that is kept is uttered. -/
theorem utters_print {o : ω} (ho : keep o = true) (s : σ) :
    (print o : Prog (I.printing ω) ε Unit).Utters h keep s () [o] s := by
  intro all
  refine ⟨all ++ [o], rfl, ?_⟩
  rw [List.filter_append, List.filter_cons_of_pos ho]
  rfl

/-- A program that does not print utters nothing. -/
theorem utters_lift {p : Prog I ε α} (hrun : p.run h s = (.done a, s')) :
    (p.lift : Prog (I.printing ω) ε α).Utters h keep s a [] s' := by
  intro all
  refine ⟨all, ?_, (List.append_nil _).symm⟩
  rw [run_lift, hrun]

/-- A program that says `g a` before it ends with `a`. -/
theorem Says.utters {g : α → List ω} (hp : ∀ out, p.Says keep out fun a => out ++ g a)
    (hrun : p.silent.run h s = (.done a, s')) : p.Utters h keep s a (g a) s' :=
  fun all => Says.run h (hp (all.filter keep)) hrun

/-- A mute program utters nothing. -/
theorem Mute.utters (hp : p.Mute keep) (hrun : p.silent.run h s = (.done a, s')) :
    p.Utters h keep s a [] s' := by
  intro all
  obtain ⟨all', hrun', hall'⟩ := Says.run h (hp (all.filter keep)) hrun
  exact ⟨all', hrun', hall'.trans (List.append_nil _).symm⟩

/-- **One part after the other.** -/
theorem Utters.bind (hp : p.Utters h keep s a said s') (hf : (f a).Utters h keep s' b more s'') :
    (p >>= f).Utters h keep s b (said ++ more) s'' := by
  intro all
  obtain ⟨mid, hrun, hmid⟩ := hp all
  obtain ⟨all', hrun', hall'⟩ := hf mid
  refine ⟨all', ?_, ?_⟩
  · rw [run_bind, hrun, follow_done, hrun']
  · rw [hall', hmid, List.append_assoc]

end Prog

end MiniExt.Lib
