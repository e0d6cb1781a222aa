import MiniExt.Lib.Program

namespace MiniExt.Lib

/-!
# Lib — calls that do not come back

A call may be served by a loop that never ends.  A `PartialHandler` says so: it has no result
for such a call.  What computes it is a family of handlers with a bound on the turns of every
loop, and the two are tied by `Settles`: either some bound is enough, or no bound is.

* `PartialHandler`, `Prog.run?` — handlers whose calls need not come back, and their runs;
* `Prog.HaltsIn` — the reasons for which a program itself halts;
* `Settles` — what a bounded computation comes to, when its bound grows;
* `run?_settles` — if every call settles, every program does;
* `Prog.EachStep`, `Prog.ends_iff` — a run ends well exactly if each of its steps does.
-/

variable {I : Interface} {ε α β σ τ ρ : Type}

/-- A meaning for calls that need not come back. -/
abbrev PartialHandler (I : Interface) (σ ε : Type) :=
  (c : I.Call) → σ → Option (Outcome ε (I.Answer c) × σ)

/-- Go on from a call that came back, unless it halted. -/
def follow? (r : Option (Outcome ε α × σ)) (k : α → σ → Option (Outcome ε β × σ)) :
    Option (Outcome ε β × σ) :=
  match r with
  | none => none
  | some (.done a, s) => k a s
  | some (.halted e, s) => some (.halted e, s)

/-- Nothing follows a run that does not come back. -/
@[simp] theorem follow?_none (k : α → σ → Option (Outcome ε β × σ)) :
    follow? none k = none := (rfl)

/-- What follows a run that ended goes on from there. -/
@[simp] theorem follow?_done (a : α) (s : σ) (k : α → σ → Option (Outcome ε β × σ)) :
    follow? (some (.done a, s)) k = k a s := (rfl)

/-- Nothing follows a run that was halted. -/
@[simp] theorem follow?_halted (e : ε) (s : σ) (k : α → σ → Option (Outcome ε β × σ)) :
    follow? (some (.halted e, s)) k = some (.halted e, s) := (rfl)

/-- A value, or a reason in `E`. -/
def Outcome.EndsIn (E : ε → Prop) : Outcome ε α → Prop
  | .done _ => True
  | .halted e => E e

namespace Prog

/-- The run of a program; `none` if a call does not come back. -/
def run? (h : PartialHandler I σ ε) : Prog I ε α → σ → Option (Outcome ε α × σ)
  | .ret a, s => some (.done a, s)
  | .halt e, s => some (.halted e, s)
  | .call c next, s => follow? (h c s) fun r s' => (next r).run? h s'

section Runs

variable (h : PartialHandler I σ ε)

/-- A value is returned at once. -/
@[simp] theorem run?_pure (a : α) (s : σ) :
    (pure a : Prog I ε α).run? h s = some (.done a, s) := (rfl)

/-- A halt comes back at once. -/
@[simp] theorem run?_halt (e : ε) (s : σ) :
    (Prog.halt e : Prog I ε α).run? h s = some (.halted e, s) := (rfl)

/-- A computed outcome comes back at once. -/
@[simp] theorem run?_ofOutcome (o : Outcome ε α) (s : σ) :
    (Prog.ofOutcome o : Prog I ε α).run? h s = some (o, s) := by
  cases o <;> rfl

/-- A call is what its handler makes of it. -/
theorem run?_perform (c : I.Call) (s : σ) :
    (Prog.perform c : Prog I ε (I.Answer c)).run? h s = h c s := by
  show follow? (h c s) (fun r s' => some (.done r, s')) = h c s
  rcases h c s with _ | ⟨_ | _, _⟩ <;> rfl

/-- A program runs its first part, then the rest. -/
theorem run?_bind (p : Prog I ε α) (f : α → Prog I ε β) (s : σ) :
    (p >>= f).run? h s = follow? (p.run? h s) fun a s' => (f a).run? h s' := by
  induction p generalizing s with
  | ret a => rfl
  | halt e => rfl
  | call c next ih =>
    show follow? (h c s) (fun r s' => (next r >>= f).run? h s') =
      follow? (follow? (h c s) fun r s' => (next r).run? h s') _
    rcases h c s with _ | ⟨r | e, s'⟩
    · rfl
    · exact ih r s'
    · rfl

/-- What every call within `P` preserves, a run of a program within `P` preserves. -/
theorem run?_within {h : PartialHandler I σ ε} {P : I.Call → Prop} {R : σ → Prop}
    (hstep : ∀ c s o s', P c → R s → h c s = some (o, s') → R s') {p : Prog I ε α}
    (hp : Within P p) {s s' : σ} {o : Outcome ε α} (hs : R s) (hrun : p.run? h s = some (o, s')) :
    R s' := by
  induction hp generalizing s with
  | ret a =>
    cases hrun
    exact hs
  | halt e =>
    cases hrun
    exact hs
  | call c next hc _ ih =>
    change follow? (h c s) _ = _ at hrun
    rcases hcs : h c s with _ | ⟨r | e, t⟩
    · rw [hcs] at hrun
      cases hrun
    · rw [hcs] at hrun
      exact ih r (hstep c s _ t hc hs hcs) hrun
    · rw [hcs] at hrun
      cases hrun
      exact hstep c s _ _ hc hs hcs

end Runs

/-! ### Ends of runs -/

/-- The run ends with a value. -/
def Returns (h : PartialHandler I σ ε) (p : Prog I ε α) (s : σ) : Prop :=
  ∃ a s', p.run? h s = some (.done a, s')

/-- The run ends with a value, or halts for a reason in `E`. -/
def Ends (h : PartialHandler I σ ε) (E : ε → Prop) (p : Prog I ε α) (s : σ) : Prop :=
  ∃ o s', p.run? h s = some (o, s') ∧ o.EndsIn E

/-- Each call of the run is made in a state that meets `P`, and the program itself does not
    halt for a reason outside `E`. -/
def EachStep (h : PartialHandler I σ ε) (P : I.Call → σ → Prop) (E : ε → Prop) :
    Prog I ε α → σ → Prop
  | .ret _, _ => True
  | .halt e, _ => E e
  | .call c next, s =>
    P c s ∧ ∀ r s', h c s = some (.done r, s') → (next r).EachStep h P E s'

/-- **A run ends** exactly if each of its steps does, where `P` tells which calls come back
    with an answer. -/
theorem ends_iff {h : PartialHandler I σ ε} {P : I.Call → σ → Prop} {E : ε → Prop}
    (hP : ∀ c s, (∃ r s', h c s = some (.done r, s')) ↔ P c s)
    (hE : ∀ c s e s', h c s = some (.halted e, s') → ¬ E e) (p : Prog I ε α) (s : σ) :
    p.Ends h E s ↔ p.EachStep h P E s := by
  -- by induction on the program
  induction p generalizing s with
  | ret a =>
    constructor
    · intro _
      exact trivial
    · intro _
      exact ⟨.done a, s, rfl, trivial⟩
  | halt e =>
    constructor
    · rintro ⟨o, s', hrun, ho⟩
      cases hrun
      exact ho
    · intro he
      exact ⟨.halted e, s, rfl, he⟩
  | call c next ih =>
    show (∃ o s', follow? (h c s) (fun r s' => (next r).run? h s') = some (o, s') ∧ o.EndsIn E) ↔
      P c s ∧ ∀ r s', h c s = some (.done r, s') → (next r).EachStep h P E s'
    rw [← hP]
    -- the call hangs, returns or halts
    rcases hc : h c s with _ | ⟨r | e, s'⟩
    · constructor
      · rintro ⟨o, s', hrun, -⟩
        cases hrun
      · rintro ⟨⟨r, s', hr⟩, -⟩
        cases hr
    · have hnext := ih r s'
      unfold Ends at hnext
      rw [follow?_done, hnext]
      constructor
      · intro hsteps
        refine ⟨⟨r, s', rfl⟩, ?_⟩
        rintro r₁ s₁ ⟨⟩
        exact hsteps
      · rintro ⟨-, hsteps⟩
        exact hsteps r s' rfl
    · constructor
      · rintro ⟨o, s₁, hrun, ho⟩
        cases hrun
        exact absurd ho (hE c s e s' hc)
      · rintro ⟨⟨r, s', hr⟩, -⟩
        cases hr

/-- Wherever the program itself halts, it does so for a reason in `E`. -/
def HaltsIn (E : ε → Prop) : Prog I ε α → Prop
  | .ret _ => True
  | .halt e => E e
  | .call _ next => ∀ r, (next r).HaltsIn E

/-- A value never halts. -/
theorem haltsIn_pure {E : ε → Prop} (a : α) : (pure a : Prog I ε α).HaltsIn E := trivial

/-- A call does not halt by itself. -/
theorem haltsIn_perform {E : ε → Prop} (c : I.Call) :
    (Prog.perform c : Prog I ε (I.Answer c)).HaltsIn E := fun _ => trivial

/-- A computed outcome halts in what it was halted with. -/
theorem haltsIn_ofOutcome {E : ε → Prop} {o : Outcome ε α} (h : ∀ e, o = .halted e → E e) :
    (Prog.ofOutcome o : Prog I ε α).HaltsIn E := by
  cases o with
  | done a => exact trivial
  | halted e => exact h e rfl

/-- A program halts where one of its parts does. -/
theorem HaltsIn.bind {E : ε → Prop} {p : Prog I ε α} {f : α → Prog I ε β} (hp : p.HaltsIn E)
    (hf : ∀ a, (f a).HaltsIn E) : (p >>= f).HaltsIn E := by
  induction p with
  | ret a => exact hf a
  | halt e => exact hp
  | call c next ih => exact fun r => ih r (hp r)

/-- Reasons for which the program does not halt make no difference. -/
theorem eachStep_congr {h : PartialHandler I σ ε} {P : I.Call → σ → Prop} {E E' F : ε → Prop}
    (hE : ∀ e, F e → (E e ↔ E' e)) {p : Prog I ε α} (hp : p.HaltsIn F) (s : σ) :
    p.EachStep h P E s ↔ p.EachStep h P E' s := by
  induction p generalizing s with
  | ret a => exact Iff.rfl
  | halt e => exact hE e hp
  | call c next ih =>
    refine and_congr_right' ?_
    constructor
    · intro hnext r s' hr
      exact (ih r (hp r) s').mp (hnext r s' hr)
    · intro hnext r s' hr
      exact (ih r (hp r) s').mpr (hnext r s' hr)

end Prog

/-! ### Bounded computations -/

/-- What a computation with a bound on its turns comes to: a result that every large bound
    gives and no bound contradicts, seen through `erase`, or none under any bound. -/
def Settles (erase : σ → τ) (x : Nat → Option (ρ × σ)) : Option (ρ × τ) → Prop
  | none => ∀ fuel, x fuel = none
  | some (r, t) => ∃ s, erase s = t ∧ (∀ fuel, x fuel = none ∨ x fuel = some (r, s)) ∧
      ∃ n, ∀ fuel, n ≤ fuel → x fuel = some (r, s)

/-- A computation without a loop. -/
theorem settles_const {erase : σ → τ} (r : ρ) (s : σ) :
    Settles erase (fun _ => some (r, s)) (some (r, erase s)) :=
  ⟨s, rfl, fun _ => .inr rfl, 0, fun _ _ => rfl⟩

/-- One more turn of a loop. -/
theorem Settles.turn {erase : σ → τ} {x x' : Nat → Option (ρ × σ)} {y : Option (ρ × τ)}
    (h : Settles erase x y) (hzero : x' 0 = none) (hsucc : ∀ fuel, x' (fuel + 1) = x fuel) :
    Settles erase x' y := by
  cases y with
  | none =>
    intro fuel
    cases fuel with
    | zero => exact hzero
    | succ fuel => rw [hsucc, h fuel]
  | some y =>
    obtain ⟨s, ht, hall, n, hn⟩ := h
    refine ⟨s, ht, ?_, n + 1, ?_⟩
    · intro fuel
      cases fuel with
      | zero => exact .inl hzero
      | succ fuel =>
        rw [hsucc]
        exact hall fuel
    · intro fuel hfuel
      cases fuel with
      | zero => exact absurd hfuel (Nat.not_succ_le_zero n)
      | succ fuel =>
        rw [hsucc]
        exact hn fuel (Nat.le_of_succ_le_succ hfuel)

/-- The results of a settled computation, each passed through a function. -/
theorem Settles.map {ρ' σ' τ' : Type} {erase : σ → τ} {erase' : σ' → τ'}
    {x : Nat → Option (ρ × σ)} {y : Option (ρ × τ)} (h : Settles erase x y) (f : ρ → ρ')
    {u : σ → σ'} {v : τ → τ'} (huv : ∀ s, erase' (u s) = v (erase s)) :
    Settles erase' (fun fuel => (x fuel).map (Prod.map f u)) (y.map (Prod.map f v)) := by
  cases y with
  | none =>
    intro fuel
    show (x fuel).map (Prod.map f u) = none
    rw [h fuel, Option.map_none]
  | some y =>
    obtain ⟨s, ht, hall, n, hn⟩ := h
    refine ⟨u s, ?_, ?_, n, ?_⟩
    · rw [huv, ht]
    · intro fuel
      rcases hall fuel with hnone | hsome
      · left
        show (x fuel).map (Prod.map f u) = none
        rw [hnone, Option.map_none]
      · right
        show (x fuel).map (Prod.map f u) = _
        rw [hsome]
        rfl
    · intro fuel hfuel
      show (x fuel).map (Prod.map f u) = _
      rw [hn fuel hfuel]
      rfl

/-- A settled computation has a result under some bound exactly if it comes to one. -/
theorem Settles.exists_iff {erase : σ → τ} {x : Nat → Option (ρ × σ)} {y : Option (ρ × τ)}
    (h : Settles erase x y) {Q : ρ → Prop} :
    (∃ fuel r s, x fuel = some (r, s) ∧ Q r) ↔ ∃ r t, y = some (r, t) ∧ Q r := by
  cases y with
  | none =>
    constructor
    · rintro ⟨fuel, r, s, hx, -⟩
      rw [h fuel] at hx
      cases hx
    · rintro ⟨r, t, hy, -⟩
      cases hy
  | some y =>
    obtain ⟨r, t⟩ := y
    obtain ⟨s, -, hall, n, hn⟩ := h
    constructor
    · rintro ⟨fuel, r', s', hx, hQ⟩
      rcases hall fuel with hnone | hsome
      · rw [hnone] at hx
        cases hx
      · rw [hsome] at hx
        cases hx
        exact ⟨r, t, rfl, hQ⟩
    · rintro ⟨r', t', hy, hQ⟩
      cases hy
      exact ⟨n, r, s, hn n (Nat.le_refl n), hQ⟩

/-- A settled computation, and another one from where it ends. -/
theorem Settles.bind {ρ' σ' τ' : Type} {erase : σ → τ} {erase' : σ' → τ'}
    {x : Nat → Option (ρ × σ)} {y : Option (ρ × τ)} (hx : Settles erase x y)
    {k : Nat → ρ × σ → Option (ρ' × σ')} {l : ρ × τ → Option (ρ' × τ')}
    (hk : ∀ r s, Settles erase' (fun fuel => k fuel (r, s)) (l (r, erase s))) :
    Settles erase' (fun fuel => (x fuel).bind (k fuel)) (y.bind l) := by
  rcases y with _ | ⟨r, t⟩
  · intro fuel
    show (x fuel).bind (k fuel) = none
    rw [hx fuel, Option.bind_none]
  obtain ⟨s, rfl, hall, n, hn⟩ := hx
  have hnext := hk r s
  rw [Option.bind_some]
  rcases hl : l (r, erase s) with _ | ⟨r', t'⟩
  · -- the second computation never comes back
    rw [hl] at hnext
    intro fuel
    show (x fuel).bind (k fuel) = none
    rcases hall fuel with hnone | hsome
    · rw [hnone, Option.bind_none]
    · rw [hsome, Option.bind_some]
      exact hnext fuel
  · -- from some bound on both come back
    rw [hl] at hnext
    obtain ⟨s', ht', hall', m, hm⟩ := hnext
    refine ⟨s', ht', ?_, max n m, ?_⟩
    · intro fuel
      show (x fuel).bind (k fuel) = none ∨ (x fuel).bind (k fuel) = _
      rcases hall fuel with hnone | hsome
      · left
        rw [hnone, Option.bind_none]
      · rw [hsome, Option.bind_some]
        exact hall' fuel
    · intro fuel hfuel
      show (x fuel).bind (k fuel) = _
      rw [hn fuel (Nat.le_trans (Nat.le_max_left n m) hfuel), Option.bind_some]
      exact hm fuel (Nat.le_trans (Nat.le_max_right n m) hfuel)

/-- What follows a settled call settles, if it settles after every answer. -/
theorem Settles.follow? {erase : σ → τ} {x : Nat → Option (Outcome ε α × σ)}
    {y : Option (Outcome ε α × τ)} (hx : Settles erase x y)
    {k : Nat → α → σ → Option (Outcome ε β × σ)} {l : α → τ → Option (Outcome ε β × τ)}
    (hk : ∀ a s, Settles erase (fun fuel => k fuel a s) (l a (erase s))) :
    Settles erase (fun fuel => Lib.follow? (x fuel) (k fuel)) (Lib.follow? y l) := by
  have hbind : ∀ {σ : Type} (r : Option (Outcome ε α × σ))
      (k : α → σ → Option (Outcome ε β × σ)),
      Lib.follow? r k = r.bind fun r => Lib.follow? (some r) k := by
    intro σ r k
    rcases r with _ | ⟨a | e, s⟩ <;> rfl
  simp only [hbind (x _), hbind y]
  refine hx.bind fun o s => ?_
  cases o with
  | done a => exact hk a s
  | halted e => exact settles_const (Outcome.halted e) s

/-- **If every call settles**, every program does. -/
theorem run?_settles {h : Nat → PartialHandler I σ ε} {g : PartialHandler I τ ε} {erase : σ → τ}
    (hstep : ∀ c s, Settles erase (fun fuel => h fuel c s) (g c (erase s))) (p : Prog I ε α)
    (s : σ) : Settles erase (fun fuel => p.run? (h fuel) s) (p.run? g (erase s)) := by
  induction p generalizing s with
  | ret a => exact settles_const (Outcome.done a) s
  | halt e => exact settles_const (Outcome.halted e) s
  | call c next ih => exact (hstep c s).follow? ih

end MiniExt.Lib
