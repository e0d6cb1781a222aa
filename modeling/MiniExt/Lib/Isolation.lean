import MiniExt.Lib.FileSystem

namespace MiniExt.Lib

/-!
# Lib — users that do not interfere

One user of a service sees only a part of its state.  When calls of others leave that part as it
is, and the user's own calls depend on nothing else, the user cannot tell whether others are there.

* `Service.answersTo` — the answers to the calls of one user, among those of all;
* `Service.Isolates` — what the user sees is kept by the calls of others;
* `Service.Isolates.run` — then the user gets the same answers without them;
* `FileSystem.Sound` — names are listed, and no file is open twice; every call keeps this;
* `FileSystem.Agrees` — two file systems that are the same to a descriptor;
* `FileSystem.Agrees.own`, `FileSystem.Agrees.other` — descriptors do not interfere.
-/

/-! ### Services -/

namespace Service

variable {σ γ ρ : Type}

/-- The answers to the calls of one user, among those of all. -/
def answersTo (S : Service σ γ ρ) (mine : γ → Bool) : List γ → σ → List ρ
  | [], _ => []
  | c :: cs, s =>
    let r := S.answer s c
    if mine c then r.1 :: S.answersTo mine cs r.2 else S.answersTo mine cs r.2

/-- States related by `R` are the same to the user: own calls are answered alike, and calls of
    others leave the state related to what it was. -/
structure Isolates (S : Service σ γ ρ) (mine : γ → Bool) (guard : σ → γ → Prop)
    (R : σ → σ → Prop) : Prop where
  own : ∀ {s t c}, R s t → guard s c → mine c = true → guard t c ∧
    (S.answer s c).1 = (S.answer t c).1 ∧ R (S.answer s c).2 (S.answer t c).2
  other : ∀ {s t c}, R s t → guard s c → mine c = false → R (S.answer s c).2 t

/-- **Without the others** the user gets the same answers. -/
theorem Isolates.run {S : Service σ γ ρ} {mine : γ → Bool} {guard : σ → γ → Prop}
    {R : σ → σ → Prop} (h : S.Isolates mine guard R) {cs : List γ} {s t : σ} (hR : R s t)
    (hcs : S.Allows guard cs s) :
    S.Allows guard (cs.filter mine) t ∧ S.answersTo mine cs s = (S.run (cs.filter mine) t).1 ∧
      R (S.run cs s).2 (S.run (cs.filter mine) t).2 := by
  induction cs generalizing s t with
  | nil => exact ⟨trivial, rfl, hR⟩
  | cons c cs ih =>
    obtain ⟨hc, hcs⟩ := hcs
    rw [run_cons, answersTo]
    cases hmine : mine c with
    | true =>
      obtain ⟨hguard, hanswer, hR'⟩ := h.own hR hc hmine
      obtain ⟨hallows, hanswers, hend⟩ := ih hR' hcs
      rw [List.filter_cons_of_pos hmine, run_cons]
      refine ⟨⟨hguard, hallows⟩, ?_, hend⟩
      rw [← hanswer, ← hanswers]
      rfl
    | false =>
      rw [List.filter_cons_of_neg (by rw [hmine]; exact Bool.false_ne_true)]
      exact ih (h.other hR hc hmine) hcs

end Service

/-- The answers to one user of an implementation. -/
theorem Implements.answersTo {σ τ γ ρ ρ' : Type} {S : Service σ γ ρ} {T : Service τ γ ρ'}
    {guard : τ → γ → Prop} {rename : ρ' → ρ} {R : σ → τ → Prop}
    (h : Implements S T guard rename R) (mine : γ → Bool) {cs : List γ} {s : σ} {t : τ}
    (hR : R s t) (hcs : T.Allows guard cs t) :
    S.answersTo mine cs s = (T.answersTo mine cs t).map rename := by
  induction cs generalizing s t with
  | nil => rfl
  | cons c cs ih =>
    obtain ⟨hc, hcs⟩ := hcs
    obtain ⟨hanswer, hR'⟩ := h.step hR hc
    simp only [Service.answersTo]
    rw [ih hR' hcs]
    split
    · rw [List.map_cons, hanswer]
    · rfl

/-! ### File systems -/

namespace FileSystem

variable {ν β : Type}

/-- Every name is listed where it is, no file is open twice, and descriptors are in range. -/
structure Sound (L : Limits ν) (fs : FileSystem ν β) : Prop where
  listed : ∀ {p c n}, fs.node (p ++ [c]) = some n →
    ∃ names, fs.node p = some (.dir names) ∧ c ∈ names
  apart : ∀ {fd fd' p pos pos'}, fs.opened fd = some (p, pos) → fs.opened fd' = some (p, pos') →
    fd = fd'
  bounded : ∀ {fd x}, fs.opened fd = some x → fd < L.descriptors

variable [DecidableEq ν] {L : Limits ν} {fs fs' : FileSystem ν β} {fd fd' : Nat} {p : List ν}
  {c : List β} {pos : Nat}

/-! ### What the calls set -/

/-- A fresh file system has no node but the root. -/
theorem node_fresh_of_ne {nodes blocks : Nat} {p : List ν} (hp : p ≠ []) :
    (fresh nodes blocks : FileSystem ν β).node p = none := by
  unfold fresh
  dsimp only
  rw [Function.update_of_ne hp]

omit [DecidableEq ν] in

/-- A descriptor has the position it was given. -/
theorem opened_point_self : (fs.point fd p pos).opened fd = some (p, pos) :=
  Function.update_self _ _ _

omit [DecidableEq ν] in

/-- The others keep theirs. -/
theorem opened_point_of_ne (h : fd' ≠ fd) : (fs.point fd p pos).opened fd' = fs.opened fd' :=
  Function.update_of_ne h _ _

omit [DecidableEq ν] in

/-- A closed descriptor is not open. -/
theorem opened_close_self : (fs.close fd).opened fd = none := Function.update_self _ _ _

omit [DecidableEq ν] in

/-- The others stay open. -/
theorem opened_close_of_ne (h : fd' ≠ fd) : (fs.close fd).opened fd' = fs.opened fd' :=
  Function.update_of_ne h _ _

/-! ### Sound file systems -/

/-- A fresh file system is sound. -/
theorem sound_fresh (nodes blocks : Nat) : (fresh nodes blocks : FileSystem ν β).Sound L where
  listed := by
    intro p c n h
    rw [node_fresh_of_ne (List.append_ne_nil_of_right_ne_nil _ (List.cons_ne_nil _ _))] at h
    cases h
  apart := by rintro fd fd' p pos pos' ⟨⟩
  bounded := by rintro fd x ⟨⟩

/-- A creation changes nothing, or adds a name that was not listed. -/
theorem create_cases (n : Node ν β) (parent : List ν) (name : ν) :
    fs.create L n parent name = fs ∨ ∃ q listed, fs.node q = some (.dir listed) ∧ name ∉ listed ∧
      fs.create L n parent name = fs.add q listed name n := by
  unfold create
  rcases hdir : fs.directory L parent with _ | ⟨q, listed⟩
  · exact .inl rfl
  · dsimp only
    have hnode := (directory_eq_some.mp hdir).2
    by_cases hthere : (fs.enter L q name).isSome
    · exact .inl (if_pos hthere)
    · refine .inr ⟨q, listed, hnode, ?_, if_neg hthere⟩
      intro hlisted
      rw [enter_of_dir hnode] at hthere
      refine hthere ?_
      rw [if_pos hlisted]
      split
      · rfl
      · split
        · rfl
        · rfl

/-- An added name changes no node but itself and its directory. -/
theorem node_add_of_ne {q listed p : List ν} {name : ν} {n : Node ν β} (hq : p ≠ q)
    (hnew : p ≠ q ++ [name]) : (fs.add q listed name n).node p = fs.node p := by
  show Function.update (Function.update fs.node q _) (q ++ [name]) _ p = _
  rw [Function.update_of_ne hnew, Function.update_of_ne hq]

/-- Its directory lists it last. -/
theorem node_add_parent {q listed : List ν} {name : ν} {n : Node ν β} :
    (fs.add q listed name n).node q = some (.dir (listed ++ [name])) := by
  show Function.update (Function.update fs.node q _) (q ++ [name]) _ q = _
  rw [Function.update_of_ne (by simp), Function.update_self]

/-- A creation keeps a file system sound. -/
theorem Sound.create (h : fs.Sound L) (n : Node ν β) (parent : List ν) (name : ν) :
    (fs.create L n parent name).Sound L := by
  rcases create_cases n parent name with heq | ⟨q, listed, hq, hname, heq⟩
  · rwa [heq]
  rw [heq]
  refine ⟨?_, h.apart, h.bounded⟩
  intro p c m hm
  by_cases hnew : p ++ [c] = q ++ [name]
  · obtain ⟨rfl, hc⟩ := List.append_inj' hnew rfl
    obtain rfl : c = name := List.singleton_inj.mp hc
    exact ⟨_, node_add_parent, List.mem_append_right _ (List.mem_singleton_self _)⟩
  · -- the name was there before
    obtain ⟨names, hnames, hmem⟩ : ∃ names, fs.node p = some (.dir names) ∧ c ∈ names := by
      by_cases hparent : p ++ [c] = q
      · exact h.listed (n := .dir listed) (hparent ▸ hq)
      · exact h.listed ((node_add_of_ne hparent hnew).symm.trans hm)
    by_cases hpq : p = q
    · subst hpq
      rw [hq, Option.some.injEq, Node.dir.injEq] at hnames
      subst hnames
      exact ⟨_, node_add_parent, List.mem_append_left _ hmem⟩
    · have hne : p ≠ q ++ [name] := by
        rintro rfl
        obtain ⟨names', hnames', hmem'⟩ := h.listed hnames
        rw [hq, Option.some.injEq, Node.dir.injEq] at hnames'
        exact hname (hnames' ▸ hmem')
      exact ⟨names, (node_add_of_ne hpq hne).trans hnames, hmem⟩

omit [DecidableEq ν] in
/-- An open descriptor is moved. -/
theorem Sound.point (h : fs.Sound L) {p : List ν} {pos : Nat}
    (hopened : fs.opened fd = some (p, pos)) (pos' : Nat) : (fs.point fd p pos').Sound L where
  listed := h.listed
  apart := by
    -- the files of the descriptors are what they were
    have hfile : ∀ {i q r}, (fs.point fd p pos').opened i = some (q, r) →
        ∃ r', fs.opened i = some (q, r') := by
      intro i q r hi
      by_cases hfd : i = fd
      · subst hfd
        rw [opened_point_self, Option.some.injEq, Prod.mk.injEq] at hi
        exact ⟨pos, by rw [← hi.1, hopened]⟩
      · rw [opened_point_of_ne hfd] at hi
        exact ⟨r, hi⟩
    intro i j q r r' hi hj
    obtain ⟨_, hi'⟩ := hfile hi
    obtain ⟨_, hj'⟩ := hfile hj
    exact h.apart hi' hj'
  bounded := by
    intro i x hi
    by_cases hfd : i = fd
    · exact hfd ▸ h.bounded hopened
    · rw [opened_point_of_ne hfd] at hi
      exact h.bounded hi

/-- A descriptor is opened for a file that is not open. -/
theorem Sound.open (h : fs.Sound L) (parent : List ν) (name : ν) :
    (fs.open L parent name).2.Sound L := by
  unfold FileSystem.open
  rcases fs.resolve L (parent ++ [name]) with _ | p
  · exact h
  dsimp only
  split
  · rename_i hun
    rcases hfind : (List.range L.descriptors).find? fun fd => (fs.opened fd).isNone with _ | fd
    · exact h
    · have hlt : fd < L.descriptors := List.mem_range.mp (List.mem_of_find?_eq_some hfind)
      have hold : ∀ {i q r}, i ≠ fd → (fs.point fd p 0).opened i = some (q, r) →
          fs.opened i = some (q, r) ∧ q ≠ p := by
        intro i q r hne hi
        rw [opened_point_of_ne hne] at hi
        refine ⟨hi, ?_⟩
        rintro rfl
        exact hun i (h.bounded hi) (by rw [hi]; rfl)
      have hnew : ∀ {q r}, (fs.point fd p 0).opened fd = some (q, r) → q = p := by
        intro q r hi
        rw [opened_point_self, Option.some.injEq, Prod.mk.injEq] at hi
        exact hi.1.symm
      refine ⟨h.listed, ?_, ?_⟩
      · intro i j q r r' hi hj
        by_cases hifd : i = fd
        · by_cases hjfd : j = fd
          · rw [hifd, hjfd]
          · exact absurd (hnew (hifd ▸ hi)) (hold hjfd hj).2
        · by_cases hjfd : j = fd
          · exact absurd (hnew (hjfd ▸ hj)) (hold hifd hi).2
          · exact h.apart (hold hifd hi).1 (hold hjfd hj).1
      · rintro i ⟨q, r⟩ hi
        by_cases hifd : i = fd
        · rwa [hifd]
        · exact h.bounded (hold hifd hi).1
  · exact h

omit [DecidableEq ν] in

/-- A close keeps a file system sound. -/
theorem Sound.close (h : fs.Sound L) (fd : Nat) : (fs.close fd).Sound L := by
  have hold : ∀ {i x}, (fs.close fd).opened i = some x → fs.opened i = some x := by
    intro i x hi
    by_cases hfd : i = fd
    · subst hfd
      rw [opened_close_self] at hi
      cases hi
    · rwa [opened_close_of_ne hfd] at hi
  exact ⟨h.listed, fun hi hj => h.apart (hold hi) (hold hj), fun hi => h.bounded (hold hi)⟩

/-- The file of an open descriptor is written. -/
theorem Sound.setFile (h : fs.Sound L) {p : List ν} {c : List β}
    (hnode : fs.node p = some (.file c)) (c' : List β) (blocks : Nat) :
    { fs with
      node := Function.update fs.node p (some (.file c'))
      freeBlocks := blocks }.Sound L where
  listed := by
    intro q d n hn
    obtain ⟨names, hnames, hmem⟩ : ∃ names, fs.node q = some (.dir names) ∧ d ∈ names := by
      by_cases hp : q ++ [d] = p
      · exact h.listed (hp ▸ hnode)
      · exact h.listed ((Function.update_of_ne hp _ _).symm.trans hn)
    refine ⟨names, ?_, hmem⟩
    rw [← hnames]
    refine Function.update_of_ne ?_ _ _
    rintro rfl
    rw [hnode] at hnames
    cases hnames
  apart := h.apart
  bounded := h.bounded

/-- **Every call** keeps a file system sound. -/
theorem Sound.answer (h : fs.Sound L) (call : FileCall ν β) :
    ((service L).answer fs call).2.Sound L := by
  cases call with
  | ls names => exact h
  | mkdir parent name => exact h.create _ parent name
  | touch parent name => exact h.create _ parent name
  | «open» parent name => exact h.open parent name
  | close fd => exact h.close fd
  | read fd size =>
    show (fs.read fd size).2.Sound L
    unfold FileSystem.read
    rcases hfile : fs.file fd with _ | ⟨p, c, pos⟩
    · exact h
    · exact h.point (file_eq_some.mp hfile).1 _
  | write fd data =>
    show (fs.write L fd data).2.Sound L
    unfold FileSystem.write
    rcases hfile : fs.file fd with _ | ⟨p, c, pos⟩
    · exact h
    · obtain ⟨hopened, hnode⟩ := file_eq_some.mp hfile
      exact (h.point hopened _).setFile hnode _ _
  | lseek fd pos =>
    show (fs.lseek L fd pos).Sound L
    unfold FileSystem.lseek
    rcases hfile : fs.file fd with _ | ⟨p, c, pos'⟩
    · exact h
    · dsimp only
      split
      · exact h
      · exact h.point (file_eq_some.mp hfile).1 _

/-! ### Two descriptors -/

/-- A call that reads, writes or moves a descriptor. -/
def isOn (fd : Nat) : FileCall ν β → Bool
  | .read fd' _ | .write fd' _ | .lseek fd' _ => fd' = fd
  | _ => false

/-- Two file systems that are the same to an open descriptor: it has the same file and position in
    both, and the first has no more room than the second. -/
structure Agrees (fd : Nat) (fs fs' : FileSystem ν β) : Prop where
  isOpen : (fs.file fd).isSome
  file : fs'.file fd = fs.file fd
  room : fs.freeBlocks ≤ fs'.freeBlocks

omit [DecidableEq ν] in

/-- The file of a descriptor does not depend on the position. -/
theorem file_point (h : fs.file fd = some (p, c, pos)) (pos' : Nat) :
    (fs.point fd p pos').file fd = some (p, c, pos') :=
  file_eq_some.mpr ⟨opened_point_self, (file_eq_some.mp h).2⟩

/-- **Own calls** are answered alike, where the first file system can answer them. -/
theorem Agrees.own (h : Agrees fd fs fs') {call : FileCall ν β} (hcall : isOn fd call = true)
    (hallowed : fs.Allowed L call) :
    fs'.Allowed L call ∧ ((service L).answer fs call).1 = ((service L).answer fs' call).1 ∧
      Agrees fd ((service L).answer fs call).2 ((service L).answer fs' call).2 := by
  obtain ⟨⟨p, c, pos⟩, hfile⟩ := Option.isSome_iff_exists.mp h.isOpen
  have hfile' : fs'.file fd = some (p, c, pos) := h.file.trans hfile
  -- both move the descriptor
  have hmoved : ∀ pos', Agrees fd (fs.point fd p pos') (fs'.point fd p pos') := fun pos' =>
    ⟨by rw [file_point hfile]; rfl, by rw [file_point hfile, file_point hfile'], h.room⟩
  cases call with
  | ls | mkdir | touch | «open» | close => cases hcall
  | read fd₁ size =>
    obtain rfl : fd₁ = fd := of_decide_eq_true hcall
    obtain ⟨hlt, hinside⟩ := hallowed
    refine ⟨⟨hlt, ?_⟩, ?_, ?_⟩
    · unfold EndsInside at hinside ⊢
      rwa [h.file]
    · simp only [service, FileSystem.read, hfile, hfile']
    · simp only [service, FileSystem.read, hfile, hfile']
      exact hmoved _
  | lseek fd₁ pos₁ =>
    obtain rfl : fd₁ = fd := of_decide_eq_true hcall
    obtain ⟨hlt, hinside⟩ := hallowed
    refine ⟨⟨hlt, ?_⟩, rfl, ?_⟩
    · unfold SeeksInside at hinside ⊢
      rwa [h.file]
    · simp only [service, FileSystem.lseek, hfile, hfile']
      split
      · exact h
      · exact hmoved _
  | write fd₁ data =>
    obtain rfl : fd₁ = fd := of_decide_eq_true hcall
    obtain ⟨hlt, hfits⟩ := hallowed
    refine ⟨⟨hlt, ?_⟩, ?_, ?_⟩
    · unfold Fits at hfits ⊢
      rw [hfile] at hfits
      rw [hfile']
      refine hfits.imp_right ?_
      rintro ⟨hcuts, hsize, hblocks⟩
      exact ⟨hcuts, hsize, hblocks.trans h.room⟩
    · simp only [service, FileSystem.write, hfile, hfile']
    · simp only [service, FileSystem.write, hfile, hfile']
      have hwritten : ∀ (g : FileSystem ν β) (blocks : Nat),
          ({ g.point fd₁ p (pos + data.length) with
            node := Function.update g.node p (some (.file (overlay c pos data)))
            freeBlocks := blocks } : FileSystem ν β).file fd₁ =
              some (p, overlay c pos data, pos + data.length) := fun g blocks =>
        file_eq_some.mpr ⟨opened_point_self, Function.update_self _ _ _⟩
      refine ⟨?_, ?_, Nat.sub_le_sub_right h.room _⟩
      · rw [hwritten]
        rfl
      · rw [hwritten, hwritten]

/-- **Calls of others** leave the file of a descriptor and its position as they are, if they do
    not close it. -/
theorem Agrees.other (h : Agrees fd fs fs') (hs : fs.Sound L) {call : FileCall ν β}
    (hcall : isOn fd call = false) (hclose : call ≠ .close fd) :
    Agrees fd ((service L).answer fs call).2 fs' := by
  obtain ⟨⟨p, c, pos⟩, hfile⟩ := Option.isSome_iff_exists.mp h.isOpen
  obtain ⟨hopened, hnode⟩ := file_eq_some.mp hfile
  -- what is enough: the entry of the descriptor and its file
  have hkept : ∀ {g : FileSystem ν β}, g.opened fd = fs.opened fd → g.node p = fs.node p →
      g.freeBlocks ≤ fs.freeBlocks → Agrees fd g fs' := by
    intro g hg hp hroom
    have hgfile : g.file fd = fs.file fd := by
      rw [hfile]
      exact file_eq_some.mpr ⟨hg.trans hopened, hp.trans hnode⟩
    exact ⟨by rw [hgfile]; exact h.isOpen, by rw [hgfile]; exact h.file, hroom.trans h.room⟩
  have hcreated : ∀ (n : Node ν β) (parent : List ν) (name : ν),
      Agrees fd (fs.create L n parent name) fs' := by
    intro n parent name
    rcases create_cases n parent name with heq | ⟨q, listed, hq, hname, heq⟩
    · rwa [heq]
    · rw [heq]
      refine hkept rfl (node_add_of_ne ?_ ?_) (Nat.sub_le _ _)
      · rintro rfl
        rw [hnode] at hq
        cases hq
      · -- a name that was not listed had no node
        rintro rfl
        obtain ⟨names, hnames, hmem⟩ := hs.listed hnode
        rw [hq, Option.some.injEq, Node.dir.injEq] at hnames
        exact hname (hnames ▸ hmem)
  have hne : ∀ {fd₁}, decide (fd₁ = fd) = false → fd ≠ fd₁ := fun h heq =>
    of_decide_eq_false h heq.symm
  cases call with
  | ls names => exact h
  | mkdir parent name => exact hcreated _ parent name
  | touch parent name => exact hcreated _ parent name
  | «open» parent name =>
    show Agrees fd (fs.open L parent name).2 fs'
    unfold FileSystem.open
    rcases fs.resolve L (parent ++ [name]) with _ | q
    · exact h
    dsimp only
    split
    · rcases hfind : (List.range L.descriptors).find? fun fd => (fs.opened fd).isNone with _ | fd₁
      · exact h
      · refine hkept (opened_point_of_ne ?_) rfl (Nat.le_refl _)
        rintro rfl
        have hnone := List.find?_some hfind
        rw [hopened] at hnone
        cases hnone
    · exact h
  | close fd₁ =>
    refine hkept (opened_close_of_ne ?_) rfl (Nat.le_refl _)
    rintro rfl
    exact hclose rfl
  | read fd₁ size =>
    show Agrees fd (fs.read fd₁ size).2 fs'
    unfold FileSystem.read
    rcases fs.file fd₁ with _ | ⟨q, d, r⟩
    · exact h
    · exact hkept (opened_point_of_ne (hne hcall)) rfl (Nat.le_refl _)
  | lseek fd₁ pos₁ =>
    show Agrees fd (fs.lseek L fd₁ pos₁) fs'
    unfold FileSystem.lseek
    rcases fs.file fd₁ with _ | ⟨q, d, r⟩
    · exact h
    · dsimp only
      split
      · exact h
      · exact hkept (opened_point_of_ne (hne hcall)) rfl (Nat.le_refl _)
  | write fd₁ data =>
    show Agrees fd (fs.write L fd₁ data).2 fs'
    unfold FileSystem.write
    rcases hfile₁ : fs.file fd₁ with _ | ⟨q, d, r⟩
    · exact h
    · refine hkept (opened_point_of_ne (hne hcall)) (Function.update_of_ne ?_ _ _) (Nat.sub_le _ _)
      -- no file is open twice
      rintro rfl
      exact hne hcall (hs.apart hopened (file_eq_some.mp hfile₁).1)

end FileSystem

end MiniExt.Lib
