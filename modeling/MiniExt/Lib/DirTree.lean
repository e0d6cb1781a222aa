import Mathlib.Data.List.Basic
import Mathlib.Data.List.Induction
import Mathlib.Data.List.Nodup
import Mathlib.Order.WellFounded
import Mathlib.Logic.Function.Iterate

namespace MiniExt.Lib

/-!
# Lib — directory trees

A directory tree over nodes `ι` and names `ν`: which nodes are live, which of them are
directories, the parent each directory records, and the named children each lists.
Nothing in the type makes it a tree; `Grounded` does.

* `Grounded` — parents and children agree, no node is named twice, and every directory but
  the root lies above its parent in the order of `ι`;
* `Grounded.reaches_root` — following parents ends at the root;
* `Grounded.linked_parent` — a directory that can be reached by names has such a parent;
* `Grounded.add`, `Grounded.link`, `Grounded.congr` — what creating a node, and naming it,
  preserves;
* `Leads` — the node a list of names leads to;
* `Grounded.exists_leads`, `Grounded.leads_inj` — one list leads to every linked node, and no other;
* `leads_congr`, `leads_link` — what the names lead to after such changes.
-/

/-- A directory tree, as its nodes record it. -/
structure DirTree (ι ν : Type) where
  live : ι → Prop
  dir : ι → Prop
  parent : ι → ι
  named : ι → List (ν × ι)

namespace DirTree

variable {ι ν : Type}

/-- Some directory names the node. -/
def Named (T : DirTree ι ν) (i : ι) : Prop := ∃ d, T.dir d ∧ ∃ e ∈ T.named d, e.2 = i

/-- The node is the root, or some directory names it. -/
def Linked (T : DirTree ι ν) (root i : ι) : Prop := i = root ∨ T.Named i

/-- The records agree with each other and descend from `root`. -/
structure Grounded [LT ι] (T : DirTree ι ν) (root : ι) : Prop where
  live_of_dir : ∀ {d}, T.dir d → T.live d
  root_dir : T.dir root
  root_parent : T.parent root = root
  parent_dir : ∀ {d}, T.dir d → T.dir (T.parent d)
  parent_lt : ∀ {d}, T.dir d → d ≠ root → T.parent d < d
  child_live : ∀ {d e}, T.dir d → e ∈ T.named d → T.live e.2
  child_ne_root : ∀ {d e}, T.dir d → e ∈ T.named d → e.2 ≠ root
  child_parent : ∀ {d e}, T.dir d → e ∈ T.named d → T.dir e.2 → T.parent e.2 = d
  unique : ∀ {d d' : ι} {k k' : Nat} {e e' : ν × ι}, T.dir d → T.dir d' →
    (T.named d)[k]? = some e → (T.named d')[k']? = some e' → e.2 = e'.2 → d = d' ∧ k = k'
  linked_of_named : ∀ {d e}, T.dir d → e ∈ T.named d → T.Linked root d

namespace Grounded

section Reach

variable [LT ι] {T : DirTree ι ν} {root : ι}

/-- Following parents from a directory ends at the root. -/
theorem reaches_root [WellFoundedLT ι] (h : T.Grounded root) {d : ι} (hd : T.dir d) :
    ∃ n, T.parent^[n] d = root := by
  induction d using WellFoundedLT.induction with
  | ind d ih =>
    by_cases hroot : d = root
    · exact ⟨0, hroot⟩
    · obtain ⟨n, hn⟩ := ih _ (h.parent_lt hd hroot) (h.parent_dir hd)
      exact ⟨n + 1, hn⟩

/-- A named node is live. -/
theorem live_of_named (h : T.Grounded root) {i : ι} (hi : T.Named i) : T.live i := by
  obtain ⟨d, hd, e, he, rfl⟩ := hi
  exact h.child_live hd he

/-- The parent of a directory that names reach is reached by names. -/
theorem linked_parent (h : T.Grounded root) {d : ι} (hd : T.dir d) (hl : T.Linked root d) :
    T.Linked root (T.parent d) := by
  rcases hl with rfl | ⟨d', hd', e, he, rfl⟩
  · exact Or.inl h.root_parent
  · rw [h.child_parent hd' he hd]
    exact h.linked_of_named hd' he

end Reach

section Change

variable [LT ι] {T T' : DirTree ι ν} {root : ι}

/-- A tree that differs only in what nodes outside it record. -/
theorem congr (h : T.Grounded root) (hlive : ∀ i, T'.live i ↔ T.live i)
    (hdir : ∀ d, T'.dir d ↔ T.dir d) (hparent : ∀ d, T.dir d → T'.parent d = T.parent d)
    (hnamed : ∀ d, T.dir d → T'.named d = T.named d) : T'.Grounded root where
  live_of_dir hd := (hlive _).mpr (h.live_of_dir ((hdir _).mp hd))
  root_dir := (hdir _).mpr h.root_dir
  root_parent := by rw [hparent _ h.root_dir, h.root_parent]
  parent_dir hd := by
    have hd := (hdir _).mp hd
    rw [hparent _ hd, hdir]
    exact h.parent_dir hd
  parent_lt hd hne := by
    have hd := (hdir _).mp hd
    rw [hparent _ hd]
    exact h.parent_lt hd hne
  child_live hd he := by
    have hd := (hdir _).mp hd
    rw [hnamed _ hd] at he
    exact (hlive _).mpr (h.child_live hd he)
  child_ne_root hd he := by
    have hd := (hdir _).mp hd
    rw [hnamed _ hd] at he
    exact h.child_ne_root hd he
  child_parent hd he hc := by
    have hd := (hdir _).mp hd
    have hc := (hdir _).mp hc
    rw [hnamed _ hd] at he
    rw [hparent _ hc]
    exact h.child_parent hd he hc
  unique hd hd' he he' heq := by
    have hd := (hdir _).mp hd
    have hd' := (hdir _).mp hd'
    rw [hnamed _ hd] at he
    rw [hnamed _ hd'] at he'
    exact h.unique hd hd' he he' heq
  linked_of_named hd he := by
    have hd := (hdir _).mp hd
    rw [hnamed _ hd] at he
    rcases h.linked_of_named hd he with hroot | ⟨d', hd', e', he', heq⟩
    · exact Or.inl hroot
    · exact Or.inr ⟨d', (hdir _).mpr hd', e', by rwa [hnamed _ hd'], heq⟩

/-- **A new node** `n` above every live one: a file, or an empty directory whose parent is
    a directory of the tree.  Nothing names it yet. -/
theorem add {n p : ι} (isDir : Prop) (h : T.Grounded root) (hfresh : ∀ i, T.live i → i ≠ n)
    (hp : T.dir p) (hlt : p < n)
    (hlive : ∀ i, T'.live i ↔ i = n ∨ T.live i)
    (hdir : ∀ d, T'.dir d ↔ (d = n ∧ isDir) ∨ T.dir d)
    (hparent : ∀ d, T.dir d → T'.parent d = T.parent d)
    (hnamed : ∀ d, T.dir d → T'.named d = T.named d)
    (hnew : isDir → T'.parent n = p ∧ T'.named n = []) : T'.Grounded root := by
  have hnroot : root ≠ n := hfresh root (h.live_of_dir h.root_dir)
  -- a directory with a named child is an old one
  have hold : ∀ {d e}, T'.dir d → e ∈ T'.named d → T.dir d ∧ e ∈ T.named d := by
    intro d e hd he
    rcases (hdir d).mp hd with ⟨rfl, hisDir⟩ | hd
    · rw [(hnew hisDir).2] at he
      simp at he
    · exact ⟨hd, hnamed d hd ▸ he⟩
  refine
    { live_of_dir := fun hd => ?_, root_dir := (hdir _).mpr (Or.inr h.root_dir),
      root_parent := by rw [hparent _ h.root_dir, h.root_parent],
      parent_dir := fun hd => ?_, parent_lt := fun hd hne => ?_,
      child_live := fun hd he => ?_, child_ne_root := fun hd he => ?_,
      child_parent := fun hd he hc => ?_, unique := fun hd hd' he he' heq => ?_,
      linked_of_named := fun hd he => ?_ }
  · rcases (hdir _).mp hd with ⟨rfl, _⟩ | hd
    · exact (hlive _).mpr (Or.inl rfl)
    · exact (hlive _).mpr (Or.inr (h.live_of_dir hd))
  · rcases (hdir _).mp hd with ⟨rfl, hisDir⟩ | hd
    · rw [(hnew hisDir).1]
      exact (hdir _).mpr (Or.inr hp)
    · rw [hparent _ hd]
      exact (hdir _).mpr (Or.inr (h.parent_dir hd))
  · rcases (hdir _).mp hd with ⟨rfl, hisDir⟩ | hd
    · rw [(hnew hisDir).1]
      exact hlt
    · rw [hparent _ hd]
      exact h.parent_lt hd hne
  · obtain ⟨hd, he⟩ := hold hd he
    exact (hlive _).mpr (Or.inr (h.child_live hd he))
  · obtain ⟨hd, he⟩ := hold hd he
    exact h.child_ne_root hd he
  · obtain ⟨hd, he⟩ := hold hd he
    rcases (hdir _).mp hc with ⟨heq, _⟩ | hc
    · exact absurd heq (hfresh _ (h.child_live hd he))
    · rw [hparent _ hc]
      exact h.child_parent hd he hc
  · obtain ⟨hd, _⟩ := hold hd (List.mem_of_getElem? he)
    obtain ⟨hd', _⟩ := hold hd' (List.mem_of_getElem? he')
    rw [hnamed _ hd] at he
    rw [hnamed _ hd'] at he'
    exact h.unique hd hd' he he' heq
  · obtain ⟨hd, he⟩ := hold hd he
    rcases h.linked_of_named hd he with hroot | ⟨d', hd', e', he', heq⟩
    · exact Or.inl hroot
    · exact Or.inr ⟨d', (hdir _).mpr (Or.inr hd'), e', by rwa [hnamed _ hd'], heq⟩

/-- **A new name** for a live node that nothing names: its directory is reached by names,
    and is the parent the node records if it is a directory itself. -/
theorem link {d n : ι} (name : ν) (h : T.Grounded root) (hd : T.dir d)
    (hlinked : T.Linked root d) (hn : T.live n) (hroot : n ≠ root) (hfresh : ¬ T.Named n)
    (hpar : T.dir n → T.parent n = d)
    (hlive : ∀ i, T'.live i ↔ T.live i) (hdir : ∀ i, T'.dir i ↔ T.dir i)
    (hparent : ∀ i, T.dir i → T'.parent i = T.parent i)
    (hnamed : ∀ i, T.dir i → i ≠ d → T'.named i = T.named i)
    (hnew : T'.named d = T.named d ++ [(name, n)]) : T'.Grounded root := by
  -- a child is an old one, or the new one in `d`
  have hold : ∀ {i e}, T.dir i → e ∈ T'.named i → e ∈ T.named i ∨ (i = d ∧ e = (name, n)) := by
    intro i e hi he
    by_cases hid : i = d
    · subst hid
      rw [hnew, List.mem_append, List.mem_singleton] at he
      exact he.imp_right fun heq => ⟨rfl, heq⟩
    · exact Or.inl (hnamed i hi hid ▸ he)
  have hold' : ∀ {i k e}, T.dir i → (T'.named i)[k]? = some e →
      (T.named i)[k]? = some e ∨ (i = d ∧ k = (T.named d).length ∧ e = (name, n)) := by
    intro i k e hi he
    by_cases hid : i = d
    · subst hid
      rw [hnew] at he
      rcases Nat.lt_or_ge k (T.named i).length with hk | hk
      · exact Or.inl (by rwa [List.getElem?_append_left hk] at he)
      · rw [List.getElem?_append_right hk, List.getElem?_singleton] at he
        split at he
        · exact Or.inr ⟨rfl, by omega, (Option.some.inj he).symm⟩
        · simp at he
    · exact Or.inl (hnamed i hi hid ▸ he)
  have hkeep : ∀ {i}, T.Linked root i → T'.Linked root i := by
    rintro i (hr | ⟨d', hd', e, he, heq⟩)
    · exact Or.inl hr
    · refine Or.inr ⟨d', (hdir _).mpr hd', e, ?_, heq⟩
      by_cases hdd : d' = d
      · rw [hdd, hnew]
        exact List.mem_append_left _ (hdd ▸ he)
      · rwa [hnamed _ hd' hdd]
  refine
    { live_of_dir := fun hi => (hlive _).mpr (h.live_of_dir ((hdir _).mp hi)),
      root_dir := (hdir _).mpr h.root_dir,
      root_parent := by rw [hparent _ h.root_dir, h.root_parent],
      parent_dir := fun hi => ?_, parent_lt := fun hi hne => ?_,
      child_live := fun hi he => ?_, child_ne_root := fun hi he => ?_,
      child_parent := fun hi he hc => ?_, unique := fun {i i' k k' e e'} hi hi' he he' heq => ?_,
      linked_of_named := fun hi he => ?_ }
  · have hi := (hdir _).mp hi
    rw [hparent _ hi]
    exact (hdir _).mpr (h.parent_dir hi)
  · have hi := (hdir _).mp hi
    rw [hparent _ hi]
    exact h.parent_lt hi hne
  · rcases hold ((hdir _).mp hi) he with he | ⟨_, rfl⟩
    · exact (hlive _).mpr (h.child_live ((hdir _).mp hi) he)
    · exact (hlive _).mpr hn
  · rcases hold ((hdir _).mp hi) he with he | ⟨_, rfl⟩
    · exact h.child_ne_root ((hdir _).mp hi) he
    · exact hroot
  · have hc := (hdir _).mp hc
    rw [hparent _ hc]
    rcases hold ((hdir _).mp hi) he with he | ⟨rfl, rfl⟩
    · exact h.child_parent ((hdir _).mp hi) he hc
    · exact hpar hc
  · have hi := (hdir _).mp hi
    have hi' := (hdir _).mp hi'
    rcases hold' hi he with hold₁ | ⟨rfl, rfl, rfl⟩ <;>
      rcases hold' hi' he' with hold₂ | ⟨rfl, rfl, rfl⟩
    · exact h.unique hi hi' hold₁ hold₂ heq
    · exact absurd ⟨i, hi, e, List.mem_of_getElem? hold₁, heq⟩ hfresh
    · exact absurd ⟨i', hi', e', List.mem_of_getElem? hold₂, heq.symm⟩ hfresh
    · exact ⟨rfl, rfl⟩
  · rcases hold ((hdir _).mp hi) he with he | ⟨rfl, _⟩
    · exact hkeep (h.linked_of_named ((hdir _).mp hi) he)
    · exact hkeep hlinked

end Change

end Grounded

/-! ### Lists of names -/

/-- The names lead from one node to another, each through a directory. -/
def Leads (T : DirTree ι ν) : List ν → ι → ι → Prop
  | [], d, i => d = i
  | c :: p, d, i => T.dir d ∧ ∃ e, (c, e) ∈ T.named d ∧ T.Leads p e i

/-- The tree with other names. -/
def rename {μ : Type} (T : DirTree ι ν) (f : ν → μ) : DirTree ι μ :=
  { T with named := fun d => (T.named d).map fun e => (f e.1, e.2) }

section Leads

variable {T T' : DirTree ι ν} {root d i j : ι} {p q : List ν} {c : ν}

/-- A path leads on from where its first part leads. -/
theorem leads_append : T.Leads (p ++ q) d i ↔ ∃ e, T.Leads p d e ∧ T.Leads q e i := by
  induction p generalizing d with
  | nil => exact ⟨fun h => ⟨d, rfl, h⟩, fun ⟨_, rfl, h⟩ => h⟩
  | cons c p ih =>
    constructor
    · rintro ⟨hd, e, he, h⟩
      obtain ⟨x, hx, h⟩ := ih.mp h
      exact ⟨x, ⟨hd, e, he, hx⟩, h⟩
    · rintro ⟨x, ⟨hd, e, he, hx⟩, h⟩
      exact ⟨hd, e, he, ih.mpr ⟨x, hx, h⟩⟩

/-- The last name is one of the directory that the others lead to. -/
theorem leads_concat :
    T.Leads (p ++ [c]) d i ↔ ∃ e, T.Leads p d e ∧ T.dir e ∧ (c, i) ∈ T.named e := by
  rw [leads_append]
  constructor
  · rintro ⟨e, hp, hdir, x, hx, rfl⟩
    exact ⟨e, hp, hdir, hx⟩
  · rintro ⟨e, hp, hdir, hx⟩
    exact ⟨e, hp, hdir, i, hx, rfl⟩

/-- What names lead to is the root, or named. -/
theorem Leads.linked (hp : T.Leads p root i) : T.Linked root i := by
  cases p using List.reverseRecOn with
  | nil => exact Or.inl hp.symm
  | append_singleton p c =>
    obtain ⟨e, _, hdir, hmem⟩ := leads_concat.mp hp
    exact Or.inr ⟨e, hdir, (c, i), hmem, rfl⟩

/-- **Names lead to one node**, where no directory has a name twice. -/
theorem Leads.unique (hnodup : ∀ d, T.dir d → ((T.named d).map Prod.fst).Nodup)
    (hi : T.Leads p d i) (hj : T.Leads p d j) : i = j := by
  induction p generalizing d with
  | nil => exact hi.symm.trans hj
  | cons c p ih =>
    obtain ⟨hd, e, he, hi⟩ := hi
    obtain ⟨_, e', he', hj⟩ := hj
    have heq : (c, e) = (c, e') := List.inj_on_of_nodup_map (hnodup d hd) he he' rfl
    cases heq
    exact ih hi hj

section Grounded

variable [LT ι]

omit [LT ι] in

/-- A name stays one when names are renamed. -/
theorem Named.rename {μ : Type} (hi : T.Named i) (f : ν → μ) : (T.rename f).Named i := by
  obtain ⟨d, hd, e, he, heq⟩ := hi
  exact ⟨d, hd, (f e.1, e.2), List.mem_map.mpr ⟨e, he, rfl⟩, heq⟩

/-- Other names do not change what the tree is. -/
theorem Grounded.rename {μ : Type} (h : T.Grounded root) (f : ν → μ) :
    (T.rename f).Grounded root := by
  have hmem : ∀ {d} {e : μ × ι}, e ∈ (T.rename f).named d → ∃ e₀ ∈ T.named d, e₀.2 = e.2 := by
    intro d e he
    obtain ⟨e₀, he₀, rfl⟩ := List.mem_map.mp he
    exact ⟨e₀, he₀, rfl⟩
  refine
    { live_of_dir := h.live_of_dir, root_dir := h.root_dir, root_parent := h.root_parent,
      parent_dir := h.parent_dir, parent_lt := h.parent_lt,
      child_live := fun hd he => ?_, child_ne_root := fun hd he => ?_,
      child_parent := fun hd he hc => ?_, unique := fun hd hd' he he' heq => ?_,
      linked_of_named := fun hd he => ?_ }
  · obtain ⟨e₀, he₀, heq⟩ := hmem he
    exact heq ▸ h.child_live hd he₀
  · obtain ⟨e₀, he₀, heq⟩ := hmem he
    exact heq ▸ h.child_ne_root hd he₀
  · obtain ⟨e₀, he₀, heq⟩ := hmem he
    rw [← heq] at hc ⊢
    exact h.child_parent hd he₀ hc
  · obtain ⟨x, hx, rfl⟩ := Option.map_eq_some_iff.mp (List.getElem?_map.symm.trans he)
    obtain ⟨y, hy, rfl⟩ := Option.map_eq_some_iff.mp (List.getElem?_map.symm.trans he')
    exact h.unique hd hd' hx hy heq
  · obtain ⟨e₀, he₀, _⟩ := hmem he
    exact (h.linked_of_named hd he₀).imp_right fun hnamed => hnamed.rename f

variable (h : T.Grounded root)

include h

/-- What a path leads to from the root is live. -/
theorem Grounded.live_of_leads (hp : T.Leads p root i) : T.live i := by
  rcases hp.linked with rfl | hnamed
  · exact h.live_of_dir h.root_dir
  · exact h.live_of_named hnamed

/-- The parent of a directory is what all names but the last lead to. -/
theorem Grounded.leads_dropLast (hp : T.Leads p root d) (hd : T.dir d) :
    T.Leads p.dropLast root (T.parent d) := by
  cases p using List.reverseRecOn with
  | nil =>
    cases hp
    exact h.root_parent.symm
  | append_singleton p c =>
    obtain ⟨e, hp, hdir, hmem⟩ := leads_concat.mp hp
    rw [List.dropLast_concat, h.child_parent hdir hmem hd]
    exact hp

/-- **Names lead to every node** that is linked: the directories above it are linked too. -/
theorem Grounded.exists_leads [WellFoundedLT ι] (hl : T.Linked root i) :
    ∃ p, T.Leads p root i := by
  have hdirs : ∀ d, T.dir d → T.Linked root d → ∃ p, T.Leads p root d := by
    intro d
    induction d using WellFoundedLT.induction with
    | ind d ih =>
      intro hd hl
      by_cases hroot : d = root
      · exact ⟨[], hroot.symm⟩
      · obtain ⟨e, he, x, hx, rfl⟩ := hl.resolve_left hroot
        have hlt := h.parent_lt hd hroot
        rw [h.child_parent he hx hd] at hlt
        obtain ⟨p, hp⟩ := ih e hlt he (h.linked_of_named he hx)
        exact ⟨p ++ [x.1], leads_concat.mpr ⟨e, hp, he, hx⟩⟩
  rcases hl with rfl | ⟨d, hd, x, hx, rfl⟩
  · exact ⟨[], rfl⟩
  · obtain ⟨p, hp⟩ := hdirs d hd (h.linked_of_named hd hx)
    exact ⟨p ++ [x.1], leads_concat.mpr ⟨d, hp, hd, hx⟩⟩

/-- **One list of names leads to a node**: every node is named once, and the root is not. -/
theorem Grounded.leads_inj (hp : T.Leads p root i) (hq : T.Leads q root i) : p = q := by
  have hroot : ∀ {p : List ν} {c : ν}, ¬ T.Leads (p ++ [c]) root root := by
    intro p c hp
    obtain ⟨e, _, hdir, hmem⟩ := leads_concat.mp hp
    exact h.child_ne_root hdir hmem rfl
  induction p using List.reverseRecOn generalizing q i with
  | nil =>
    cases hp
    cases q using List.reverseRecOn with
    | nil => rfl
    | append_singleton q c => exact absurd hq hroot
  | append_singleton p c ih =>
    cases q using List.reverseRecOn with
    | nil =>
      cases hq
      exact absurd hp hroot
    | append_singleton q c' =>
      obtain ⟨e, hpe, hdir, hmem⟩ := leads_concat.mp hp
      obtain ⟨e', hqe, hdir', hmem'⟩ := leads_concat.mp hq
      obtain ⟨k, hk⟩ := List.mem_iff_getElem?.mp hmem
      obtain ⟨k', hk'⟩ := List.mem_iff_getElem?.mp hmem'
      obtain ⟨rfl, rfl⟩ := h.unique hdir hdir' hk hk' rfl
      obtain ⟨rfl, _⟩ := Prod.mk.inj (Option.some.inj (hk.symm.trans hk'))
      rw [ih hpe hqe]

end Grounded

/-- The same directories with the same names lead to the same nodes. -/
theorem leads_congr (hdir : ∀ d, T'.dir d ↔ T.dir d)
    (hnamed : ∀ d, T.dir d → T'.named d = T.named d) : T'.Leads p d i ↔ T.Leads p d i := by
  induction p generalizing d with
  | nil => exact Iff.rfl
  | cons c p ih =>
    simp only [Leads, hdir, ih]
    exact and_congr_right fun hd => by rw [hnamed d hd]

/-- **A new name** `c` for a new node `n` in directory `d`: the lists of names of before lead where
    they led, and the list of `d` with the new name leads to `n`. -/
theorem leads_link [LT ι] {n : ι} {isDir : Prop} (h : T.Grounded root) (hd : T.dir d)
    (hfresh : ¬ T.live n) (hdir : ∀ x, T'.dir x ↔ (x = n ∧ isDir) ∨ T.dir x)
    (hnamed : ∀ x, T.dir x → x ≠ d → T'.named x = T.named x)
    (hlinked : T'.named d = T.named d ++ [(c, n)]) (hempty : isDir → T'.named n = []) :
    T'.Leads q root i ↔ T.Leads q root i ∨ ∃ p, T.Leads p root d ∧ q = p ++ [c] ∧ i = n := by
  induction q using List.reverseRecOn generalizing i with
  | nil =>
    refine ⟨Or.inl, ?_⟩
    rintro (hi | ⟨p, _, heq, _⟩)
    · exact hi
    · simp at heq
  | append_singleton q c' ih =>
    rw [leads_concat, leads_concat]
    constructor
    · rintro ⟨e, hq, he, hmem⟩
      rcases ih.mp hq with hq | ⟨p, _, _, rfl⟩
      · -- the directory is an old one
        have hold : T.dir e := by
          rcases (hdir e).mp he with ⟨rfl, _⟩ | hold
          · exact absurd (h.live_of_leads hq) hfresh
          · exact hold
        by_cases hed : e = d
        · subst hed
          rw [hlinked, List.mem_append, List.mem_singleton] at hmem
          rcases hmem with hmem | heq
          · exact Or.inl ⟨e, hq, hold, hmem⟩
          · cases heq
            exact Or.inr ⟨q, hq, rfl, rfl⟩
        · exact Or.inl ⟨e, hq, hold, hnamed e hold hed ▸ hmem⟩
      · -- the new node lists nothing
        rcases (hdir e).mp he with ⟨_, hisDir⟩ | hold
        · rw [hempty hisDir] at hmem
          simp at hmem
        · exact absurd (h.live_of_dir hold) hfresh
    · rintro (⟨e, hq, he, hmem⟩ | ⟨p, hp, heq, rfl⟩)
      · refine ⟨e, ih.mpr (Or.inl hq), (hdir e).mpr (Or.inr he), ?_⟩
        by_cases hed : e = d
        · rw [hed, hlinked]
          exact List.mem_append_left _ (hed ▸ hmem)
        · rwa [hnamed e he hed]
      · obtain ⟨rfl, hlast⟩ := List.append_inj' heq rfl
        obtain rfl := List.singleton_inj.mp hlast
        refine ⟨d, ih.mpr (Or.inl hp), (hdir d).mpr (Or.inr hd), ?_⟩
        rw [hlinked]
        exact List.mem_append_right _ (List.mem_singleton_self _)

end Leads

end DirTree

end MiniExt.Lib
