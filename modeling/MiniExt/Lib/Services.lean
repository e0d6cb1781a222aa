import Mathlib.Data.List.Basic

namespace MiniExt.Lib

/-!
# Lib — services

A service answers calls, one after the other, on a state of its own.  One service implements
another when states can be related so that related states give the same answers and stay related,
for calls that meet a condition of the other's state.

* `Service`, `Service.run` — a service, and the answers to a list of calls;
* `Service.Allows` — every call of a list meets a condition where it comes to;
* `Service.run_append`, `Service.allows_append` — lists of calls in two parts;
* `Service.Allows.keeps` — invariants;
* `Implements` — the simulation, one call at a time;
* `Implements.run` — and for lists of calls.
-/

variable {σ τ υ γ ρ ρ' ρ'' : Type}

/-- A service on states `σ`: calls `γ`, answers `ρ`. -/
structure Service (σ γ ρ : Type) where
  answer : σ → γ → ρ × σ

namespace Service

/-- The answers to calls, and the state after them. -/
def run (S : Service σ γ ρ) : List γ → σ → List ρ × σ
  | [], s => ([], s)
  | c :: cs, s =>
    let r := S.answer s c
    let rs := S.run cs r.2
    (r.1 :: rs.1, rs.2)

/-- Every call meets a condition in the state it comes to. -/
def Allows (S : Service σ γ ρ) (guard : σ → γ → Prop) : List γ → σ → Prop
  | [], _ => True
  | c :: cs, s => guard s c ∧ S.Allows guard cs (S.answer s c).2

instance decidableAllows (S : Service σ γ ρ) (guard : σ → γ → Prop)
    [∀ s c, Decidable (guard s c)] : (cs : List γ) → (s : σ) → Decidable (S.Allows guard cs s)
  | [], _ => isTrue trivial
  | c :: cs, s =>
    have := decidableAllows S guard cs (S.answer s c).2
    inferInstanceAs (Decidable (guard s c ∧ S.Allows guard cs (S.answer s c).2))

/-- No calls have no answers. -/
@[simp] theorem run_nil (S : Service σ γ ρ) (s : σ) : S.run [] s = ([], s) := rfl

/-- The first call is answered, then the others. -/
theorem run_cons (S : Service σ γ ρ) (c : γ) (cs : List γ) (s : σ) :
    S.run (c :: cs) s =
      ((S.answer s c).1 :: (S.run cs (S.answer s c).2).1, (S.run cs (S.answer s c).2).2) := rfl

/-- **Calls in two parts**: the second part starts where the first one ends. -/
theorem run_append (S : Service σ γ ρ) (cs cs' : List γ) (s : σ) :
    S.run (cs ++ cs') s =
      ((S.run cs s).1 ++ (S.run cs' (S.run cs s).2).1, (S.run cs' (S.run cs s).2).2) := by
  induction cs generalizing s with
  | nil => rfl
  | cons c cs ih =>
    rw [List.cons_append, run_cons, run_cons, ih]
    rfl

/-- A guard allows two parts when it allows the second after the first. -/
theorem allows_append {S : Service σ γ ρ} {guard : σ → γ → Prop} {cs cs' : List γ} {s : σ} :
    S.Allows guard (cs ++ cs') s ↔ S.Allows guard cs s ∧ S.Allows guard cs' (S.run cs s).2 := by
  induction cs generalizing s with
  | nil => exact (and_iff_right trivial).symm
  | cons c cs ih =>
    show guard s c ∧ S.Allows guard (cs ++ cs') _ ↔ (guard s c ∧ S.Allows guard cs _) ∧ _
    rw [ih, and_assoc]
    rfl

/-- A condition on the calls themselves. -/
theorem allows_and {S : Service σ γ ρ} {guard : σ → γ → Prop} {P : γ → Prop} {cs : List γ}
    {s : σ} :
    S.Allows (fun s c => guard s c ∧ P c) cs s ↔ S.Allows guard cs s ∧ ∀ c ∈ cs, P c := by
  induction cs generalizing s with
  | nil => exact iff_of_true trivial ⟨trivial, List.forall_mem_nil _⟩
  | cons c cs ih =>
    show (guard s c ∧ P c) ∧ S.Allows _ cs _ ↔ (guard s c ∧ S.Allows guard cs _) ∧ _
    rw [ih, List.forall_mem_cons, and_and_and_comm]

/-- What allowed calls keep, runs keep. -/
theorem Allows.keeps {S : Service σ γ ρ} {guard : σ → γ → Prop} {P : σ → Prop}
    (h : ∀ {s c}, P s → guard s c → P (S.answer s c).2) {cs : List γ} {s : σ}
    (hcs : S.Allows guard cs s) (hs : P s) : P (S.run cs s).2 := by
  induction cs generalizing s with
  | nil => exact hs
  | cons c cs ih => exact ih hcs.2 (h hs hcs.1)

end Service

/-- `S` implements `T`: from related states, a call that meets the condition gets the answer of
    `T`, under another name, and leaves related states. -/
structure Implements (S : Service σ γ ρ) (T : Service τ γ ρ') (guard : τ → γ → Prop)
    (rename : ρ' → ρ) (R : σ → τ → Prop) : Prop where
  step : ∀ {s t c}, R s t → guard t c →
    (S.answer s c).1 = rename (T.answer t c).1 ∧ R (S.answer s c).2 (T.answer t c).2

namespace Implements

variable {S : Service σ γ ρ} {T : Service τ γ ρ'} {guard : τ → γ → Prop} {rename : ρ' → ρ}
  {R : σ → τ → Prop}

/-- **Lists of calls**: the same answers, and related states behind them. -/
theorem run (h : Implements S T guard rename R) {cs : List γ} {s : σ} {t : τ} (hR : R s t)
    (hcs : T.Allows guard cs t) :
    (S.run cs s).1 = (T.run cs t).1.map rename ∧ R (S.run cs s).2 (T.run cs t).2 := by
  induction cs generalizing s t with
  | nil => exact ⟨rfl, hR⟩
  | cons c cs ih =>
    obtain ⟨hc, hcs⟩ := hcs
    obtain ⟨hanswer, hR'⟩ := h.step hR hc
    obtain ⟨hanswers, hend⟩ := ih hR' hcs
    rw [Service.run_cons, Service.run_cons]
    refine ⟨?_, hend⟩
    rw [List.map_cons, hanswer, hanswers]

end Implements

end MiniExt.Lib
