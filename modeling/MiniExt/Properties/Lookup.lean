import MiniExt.Properties.ByteLog
import MiniExt.Properties.Names

namespace MiniExt

open Lib

/-!
# Create, then look up

A creation cuts its path with `split_path`; `ls` and `open` walk theirs with `parse_path`.  Both
see a path as its components: the walk follows them from the root through the records of the
directories, and the cut leaves all of them but the last for the walk.  So a new record at the end
of a directory makes the new path resolve, and every path that resolved before finds the records
it found.

* `pathOf`, `IsComponent` — paths by their components;
* `Store.follow` — the names followed in the directory tree, and `walk_pathOf`, that the walk
  computes it;
* `World.Resolves`, `World.Opens` — what `ls` and `open` find;
* `CanCreate`, `FoundAfter` — the property;
* `create_then_found` — that every creation has it.
-/

/-! ### Paths by their components -/

/-- A component: one byte at least, and short enough for the terminator that `parse_path` stores
    one past its place. -/
structure IsComponent (c : List UInt8) : Prop where
  nonempty : c ≠ []
  short : c.length + 2 ≤ defaultFsInfo.maxPathLen
  noSlash : slash ∉ c
  nulFree : 0 ∉ c

/-- The absolute path with these components, with or without a trailing slash. -/
def pathOf : (names : List (List UInt8)) → (trailing : Bool) → List UInt8
  | [], trailing => if trailing then [slash] else []
  | c :: names, trailing => slash :: (c ++ pathOf names trailing)

/-- What is left of a path after its first component starts with a slash. -/
theorem pathOf_head {names : List (List UInt8)} {trailing : Bool}
    (h : names ≠ [] ∨ trailing = true) : ∃ t, pathOf names trailing = slash :: t := by
  cases names with
  | nil =>
    obtain rfl := h.resolve_left (not_not.mpr rfl)
    exact ⟨[], rfl⟩
  | cons c names => exact ⟨_, rfl⟩

/-- A path of two lists of names is two paths. -/
theorem pathOf_append (names more : List (List UInt8)) (trailing : Bool) :
    pathOf (names ++ more) trailing = pathOf names false ++ pathOf more trailing := by
  induction names with
  | nil => rfl
  | cons c names ih =>
    simp only [List.cons_append, pathOf, ih, List.append_assoc]

/-- A trailing slash comes last. -/
theorem pathOf_trailing (names : List (List UInt8)) :
    pathOf names true = pathOf names false ++ [slash] := by
  rw [← List.append_nil names, pathOf_append, pathOf_append]
  simp [pathOf]

/-- A trailing slash more or less still fits the buffer of `split_path`. -/
theorem length_pathOf_lt {names : List (List UInt8)} {trailing : Bool}
    (h : (pathOf names trailing).length < bufferLength) (more : Bool) :
    (pathOf names more).length < bufferLength ∨
      (pathOf names more).length = bufferLength ∧ more = true := by
  have hlen : (pathOf names true).length = (pathOf names false).length + 1 := by
    rw [pathOf_trailing, List.length_append]
    rfl
  cases trailing with
  | false =>
    cases more with
    | false => exact Or.inl h
    | true =>
      rcases Nat.lt_or_eq_of_le (hlen.trans_le (Nat.succ_le_of_lt h)) with hlt | heq
      · exact Or.inl hlt
      · exact Or.inr ⟨heq, rfl⟩
  | true =>
    cases more with
    | false => exact Or.inl (by omega)
    | true => exact Or.inl h

/-- A path is its parent, with a trailing slash, and its last component. -/
theorem pathOf_concat (names : List (List UInt8)) (name : List UInt8) :
    pathOf (names ++ [name]) false = pathOf names true ++ name := by
  rw [pathOf_append, pathOf_trailing, List.append_assoc]
  simp [pathOf]

/-- A component is no slash. -/
theorem IsComponent.ne_slash {c : List UInt8} (hc : IsComponent c) : c ≠ [slash] := by
  rintro rfl
  exact hc.noSlash (List.mem_singleton_self _)

/-- **`parse_path`** takes the last component. -/
theorem IsComponent.parsePath_last {c : List UInt8} (hc : IsComponent c) :
    parsePath defaultFsInfo (pathOf [c] false) = .done (c, none) := by
  have hparse := MiniExt.parsePath_last (show defaultFsInfo.maxPathLen < 2 ^ 16 by decide)
    hc.noSlash hc.nonempty hc.nulFree hc.short
  rw [pathOf, pathOf, if_neg Bool.false_ne_true, List.append_nil]
  exact hparse

/-- It takes any other, and leaves the path of the rest. -/
theorem IsComponent.parsePath_cons {c : List UInt8} (hc : IsComponent c)
    {names : List (List UInt8)} {trailing : Bool} (hmore : names ≠ [] ∨ trailing = true) :
    parsePath defaultFsInfo (pathOf (c :: names) trailing) =
      .done (c, some (pathOf names trailing)) := by
  obtain ⟨t, ht⟩ := pathOf_head hmore
  rw [pathOf, ht]
  exact MiniExt.parsePath_cons (by decide) hc.noSlash hc.nonempty hc.nulFree hc.short t

/-- A path of components is a string. -/
theorem nul_notMem_pathOf {names : List (List UInt8)} (hnames : ∀ c ∈ names, IsComponent c)
    (trailing : Bool) : 0 ∉ pathOf names trailing := by
  induction names with
  | nil => cases trailing <;> decide
  | cons c names ih =>
    obtain ⟨hc, hrest⟩ := List.forall_mem_cons.mp hnames
    rw [pathOf, List.mem_cons, List.mem_append]
    rintro (hslash | hin | hin)
    · exact absurd hslash (by decide)
    · exact hc.nulFree hin
    · exact ih hrest hin

section Split

variable {parent name : List UInt8} {names : List (List UInt8)} {trailing : Bool}

/-- A string is cut after its last slash. -/
theorem cutLast_append (hhead : parent.head? = some slash) (hlast : parent.getLast? = some slash)
    (hname : slash ∉ name) (hne : name ≠ []) : cutLast (parent ++ name) = some (parent, name) := by
  obtain ⟨front, rfl⟩ : ∃ front, parent = front ++ [slash] := List.getLast?_eq_some_iff.mp hlast
  have hrest : ((front ++ [slash] ++ name).reverse.takeWhile (· ≠ slash)).reverse = name := by
    have hwhile : ∀ x ∈ name.reverse, decide (x ≠ slash) = true := by
      intro x hx
      rw [decide_eq_true_iff]
      rintro rfl
      exact hname (List.mem_reverse.mp hx)
    rw [List.reverse_append, List.reverse_append, List.takeWhile_append_of_pos hwhile]
    show (name.reverse ++ List.takeWhile _ (slash :: front.reverse)).reverse = name
    rw [List.takeWhile_cons_of_neg (by simp), List.append_nil, List.reverse_reverse]
  have hstart : (front ++ [slash] ++ name).head? = some slash := by
    rw [List.head?_append_of_ne_nil _ (by simp), hhead]
  obtain ⟨⟨p, n⟩, hcut⟩ := Option.isSome_iff_exists.mp
    ((cutLast_isSome _).mpr ⟨hstart, by rwa [hrest]⟩)
  obtain ⟨hjoin, _, _, _, hn⟩ := cutLast_some hcut
  rw [hrest] at hn
  subst hn
  rw [hcut, List.append_cancel_right hjoin]

/-- **`split_path`** leaves the parent of a path and its last component. -/
theorem splitPath_pathOf (hname : IsComponent name)
    (hlen : (pathOf (names ++ [name]) trailing).length < bufferLength ∨
      (pathOf (names ++ [name]) trailing).length = bufferLength ∧ trailing = true) :
    splitPath (pathOf (names ++ [name]) trailing) = .done (some (pathOf names true, name)) := by
  obtain ⟨t, ht⟩ : ∃ t, pathOf names true = slash :: t := pathOf_head (Or.inr rfl)
  have hcut : cutLast (pathOf names true ++ name) = some (pathOf names true, name) := by
    apply cutLast_append
    · rw [ht]
      rfl
    · rw [pathOf_trailing, List.getLast?_concat]
    · exact hname.noSlash
    · exact hname.nonempty
  have hlast : (pathOf names true ++ name).getLast? ≠ some slash := by
    rw [List.getLast?_append_of_ne_nil _ hname.nonempty]
    exact fun heq => hname.noSlash (List.mem_of_getLast? heq)
  have htrimmed : trimmed (pathOf (names ++ [name]) trailing) = pathOf names true ++ name := by
    unfold trimmed
    cases trailing with
    | false => rw [pathOf_concat, if_neg hlast]
    | true => rw [pathOf_trailing, if_pos List.getLast?_concat, List.dropLast_concat, pathOf_concat]
  rw [splitPath_eq, htrimmed, hcut]
  · obtain ⟨t, ht⟩ : ∃ t, pathOf (names ++ [name]) trailing = slash :: t :=
      pathOf_head (Or.inl (by simp))
    rw [ht]
    exact List.cons_ne_nil _ _
  · refine hlen.imp id fun ⟨hfull, htrailing⟩ => ⟨hfull, ?_⟩
    rw [htrailing, pathOf_trailing, List.getLast?_concat]

end Split

/-! ### The walk, by names -/

namespace Store

variable {st st' : Store} {current i : Nat} {path : List UInt8}

/-- The inode a name leads to in a directory that can be read. -/
def child (st : Store) (d : Nat) (name : List UInt8) : Option Nat :=
  match st.inodes d, st.firstSlot d with
  | some inode, some s => if inode.isFile ∨ s.Mixed then none else s.find name
  | _, _ => none

/-- Names followed from an inode. -/
def follow (st : Store) (names : List (List UInt8)) (current : Nat) : Option Nat :=
  names.foldlM st.child current

/-- A child is found among the records of a directory that can be read. -/
theorem child_eq_some {d j : Nat} {name : List UInt8} :
    st.child d name = some j ↔ st.HasKind false d ∧
      ∃ s, st.firstSlot d = some s ∧ ¬ s.Mixed ∧ s.find name = some j := by
  unfold child
  constructor
  · intro h
    split at h
    · rename_i inode s hget hs
      split at h
      · cases h
      · rename_i hreadable
        obtain ⟨hkind, hclean⟩ := not_or.mp hreadable
        exact ⟨⟨inode, hget, by simpa using hkind⟩, s, hs, hclean, h⟩
    · cases h
  · rintro ⟨⟨inode, hget, hkind⟩, s, hs, hclean, hfind⟩
    simp [hget, hs, hkind, hclean, hfind]

/-- **One call of the walk** that finds something: it stops at the directory it is in, or goes
    on to the inode that the component leads to. -/
theorem walk_succ_iff {fuel : Nat} : st.walk (fuel + 1) path current = .done (some i) ↔
    st.HasKind false current ∧ ∃ name rest, parsePath defaultFsInfo path = .done (name, rest) ∧
      (name = [slash] ∧ current = i ∨ name ≠ [slash] ∧ ∃ next, st.child current name = some next ∧
        (rest = none ∧ next = i ∨
          ∃ r, rest = some r ∧ st.walk fuel r next = .done (some i))) := by
  constructor
  · -- each test of the walk in turn
    intro h
    rw [walk] at h
    split at h
    · cases h
    rename_i inode hget
    split at h
    · cases h
    rename_i hkind
    have hdir : st.HasKind false current := ⟨inode, hget, by simpa using hkind⟩
    refine ⟨hdir, ?_⟩
    split at h
    · cases h
    rename_i name rest hparse
    refine ⟨name, rest, hparse, ?_⟩
    split at h
    · rename_i hslash
      cases h
      exact Or.inl ⟨hslash, rfl⟩
    rename_i hslash
    split at h
    · cases h
    rename_i s hs
    split at h
    · cases h
    rename_i hclean
    have hchild : ∀ {next}, s.find name = some next → st.child current name = some next :=
      fun hfind => child_eq_some.mpr ⟨hdir, s, hs, hclean, hfind⟩
    split at h
    · cases h
    · rename_i hfind
      cases h
      exact Or.inr ⟨hslash, i, hchild hfind, Or.inl ⟨rfl, rfl⟩⟩
    · rename_i j r hfind
      exact Or.inr ⟨hslash, j, hchild hfind, Or.inr ⟨r, rfl, h⟩⟩
  · rintro ⟨⟨inode, hget, hkind⟩, name, rest, hparse, hcases⟩
    rw [walk]
    simp only [hget, hkind, Bool.false_eq_true, if_false, hparse]
    rcases hcases with ⟨rfl, rfl⟩ | ⟨hslash, next, hchild, hnext⟩
    · rw [if_pos rfl]
    · obtain ⟨_, s, hs, hclean, hfind⟩ := child_eq_some.mp hchild
      rw [if_neg hslash]
      simp only [hs, if_neg hclean, hfind]
      rcases hnext with ⟨rfl, rfl⟩ | ⟨r, rfl, hwalk⟩
      · rfl
      · exact hwalk

/-- **The frame of the walk**: where every record it can come to is still found, it finds what it
    found before. -/
theorem walk_mono {P : Nat → Prop}
    (hchild : ∀ d, P d → ∀ name j, st.child d name = some j → st'.child d name = some j ∧ P j)
    (hdir : ∀ d, P d → st.HasKind false d → st'.HasKind false d) {fuel : Nat} (hP : P current)
    (h : st.walk fuel path current = .done (some i)) :
    st'.walk fuel path current = .done (some i) := by
  induction fuel generalizing path current with
  | zero => cases h
  | succ fuel ih =>
    obtain ⟨hcurrent, name, rest, hparse, hcases⟩ := walk_succ_iff.mp h
    refine walk_succ_iff.mpr ⟨hdir current hP hcurrent, name, rest, hparse, ?_⟩
    rcases hcases with hroot | ⟨hslash, next, hnext, hend⟩
    · exact Or.inl hroot
    · obtain ⟨hnext', hPnext⟩ := hchild current hP name next hnext
      refine Or.inr ⟨hslash, next, hnext', ?_⟩
      rcases hend with hlast | ⟨r, hr, hwalk⟩
      · exact Or.inl hlast
      · exact Or.inr ⟨r, hr, ih hPnext hwalk⟩

/-- A walk whose path is one component. -/
theorem walk_last {fuel : Nat} {name : List UInt8} (hslash : name ≠ [slash])
    (hparse : parsePath defaultFsInfo path = .done (name, none)) :
    st.walk (fuel + 1) path current = .done (some i) ↔ st.child current name = some i := by
  rw [walk_succ_iff]
  constructor
  · rintro ⟨_, name', rest, hparse', hcases⟩
    rw [hparse] at hparse'
    cases hparse'
    obtain ⟨_, next, hchild, hnext⟩ := hcases.resolve_left fun hroot => hslash hroot.1
    rcases hnext with ⟨_, rfl⟩ | ⟨r, hr, _⟩
    · exact hchild
    · cases hr
  · intro hchild
    exact ⟨(child_eq_some.mp hchild).1, name, none, hparse,
      Or.inr ⟨hslash, i, hchild, Or.inl ⟨rfl, rfl⟩⟩⟩

/-- A walk whose path goes on behind its first component. -/
theorem walk_cons {fuel : Nat} {name r : List UInt8} (hslash : name ≠ [slash])
    (hparse : parsePath defaultFsInfo path = .done (name, some r)) :
    st.walk (fuel + 1) path current = .done (some i) ↔
      ∃ next, st.child current name = some next ∧ st.walk fuel r next = .done (some i) := by
  rw [walk_succ_iff]
  constructor
  · rintro ⟨_, name', rest, hparse', hcases⟩
    rw [hparse] at hparse'
    cases hparse'
    obtain ⟨_, next, hchild, hnext⟩ := hcases.resolve_left fun hroot => hslash hroot.1
    rcases hnext with ⟨hnone, _⟩ | ⟨r', hr, hwalk⟩
    · cases hnone
    · cases hr
      exact ⟨next, hchild, hwalk⟩
  · rintro ⟨next, hchild, hwalk⟩
    exact ⟨(child_eq_some.mp hchild).1, name, some r, hparse,
      Or.inr ⟨hslash, next, hchild, Or.inr ⟨r, rfl, hwalk⟩⟩⟩

/-- A walk of one slash stays in its directory. -/
theorem walk_slash {fuel : Nat} :
    st.walk (fuel + 1) [slash] current = .done (some i) ↔
      some current = some i ∧ st.HasKind false i := by
  have hparse : parsePath defaultFsInfo [slash] = .done ([slash], none) :=
    parsePath_root (by decide)
  rw [walk_succ_iff]
  constructor
  · rintro ⟨hdir, name, rest, hparse', hcases⟩
    rw [hparse] at hparse'
    cases hparse'
    obtain ⟨_, rfl⟩ := hcases.resolve_right fun hother => hother.1 rfl
    exact ⟨rfl, hdir⟩
  · rintro ⟨hsame, hdir⟩
    cases hsame
    exact ⟨hdir, [slash], none, hparse, Or.inl ⟨rfl, rfl⟩⟩

/-- **The walk follows the components** of a path; behind a trailing slash it wants a directory. -/
theorem walk_pathOf {names : List (List UInt8)} {trailing : Bool}
    (hnames : ∀ c ∈ names, IsComponent c) (hne : names ≠ [] ∨ trailing = true) {fuel : Nat}
    (hfuel : names.length < fuel) :
    st.walk fuel (pathOf names trailing) current = .done (some i) ↔
      st.follow names current = some i ∧ (trailing = true → st.HasKind false i) := by
  -- by induction on the components, one call of the walk each
  induction names generalizing fuel current with
  | nil =>
    obtain rfl := hne.resolve_left (not_not.mpr rfl)
    obtain ⟨fuel, rfl⟩ := Nat.exists_eq_succ_of_ne_zero (Nat.ne_zero_of_lt hfuel)
    exact walk_slash.trans (and_congr_right fun _ => ⟨fun hdir _ => hdir, fun hdir => hdir rfl⟩)
  | cons c names ih =>
    obtain ⟨fuel, rfl⟩ := Nat.exists_eq_succ_of_ne_zero (Nat.ne_zero_of_lt hfuel)
    obtain ⟨hc, hrest⟩ := List.forall_mem_cons.mp hnames
    have hfollow : st.follow (c :: names) current =
        (st.child current c).bind (st.follow names) := rfl
    rw [hfollow, Option.bind_eq_some_iff]
    by_cases hlast : names = [] ∧ trailing = false
    · obtain ⟨rfl, rfl⟩ := hlast
      rw [walk_last hc.ne_slash hc.parsePath_last]
      constructor
      · intro hchild
        exact ⟨⟨i, hchild, rfl⟩, Bool.noConfusion⟩
      · rintro ⟨⟨next, hchild, hend⟩, _⟩
        cases hend
        exact hchild
    · have hmore : names ≠ [] ∨ trailing = true := by
        cases trailing with
        | false => exact Or.inl fun hnil => hlast ⟨hnil, rfl⟩
        | true => exact Or.inr rfl
      have hstep : ∀ j, st.walk fuel (pathOf names trailing) j = .done (some i) ↔
          st.follow names j = some i ∧ (trailing = true → st.HasKind false i) :=
        fun _ => ih hrest hmore (Nat.lt_of_succ_lt_succ hfuel)
      rw [walk_cons hc.ne_slash (hc.parsePath_cons hmore)]
      constructor
      · rintro ⟨next, hchild, hwalk⟩
        obtain ⟨hend, hdir⟩ := (hstep next).mp hwalk
        exact ⟨⟨next, hchild, hend⟩, hdir⟩
      · rintro ⟨⟨next, hchild, hend⟩, hdir⟩
        exact ⟨next, hchild, (hstep next).mpr ⟨hend, hdir⟩⟩

/-- Names are followed one by one, the last one last. -/
theorem follow_concat (names : List (List UInt8)) (name : List UInt8) (current : Nat) :
    st.follow (names ++ [name]) current =
      (st.follow names current).bind fun d => st.child d name := by
  unfold follow
  rw [List.foldlM_append]
  refine congrArg _ (funext fun d => ?_)
  rw [List.foldlM_cons]
  rcases st.child d name with _ | j
  · rfl
  · rfl

/-- A path is at least as long as its names are many. -/
theorem length_le_pathOf (names : List (List UInt8)) (trailing : Bool) :
    names.length ≤ (pathOf names trailing).length := by
  induction names with
  | nil => exact Nat.zero_le _
  | cons c names ih =>
    rw [pathOf, List.length_cons, List.length_cons, List.length_append]
    omega

/-- **A path of names** resolves to what the names lead to. -/
theorem resolve_pathOf {names : List (List UInt8)} {trailing : Bool}
    (hnames : ∀ c ∈ names, IsComponent c) (hne : names ≠ [] ∨ trailing = true) :
    st.resolve (pathOf names trailing) = .done (some i) ↔
      st.follow names rootInodeId = some i ∧ (trailing = true → st.HasKind false i) :=
  walk_pathOf hnames hne (Nat.lt_succ_of_le (length_le_pathOf names trailing))

/-- What `open` finds: the inode that the last name of its path leads to, in the directory that
    the walk of the rest ends in. -/
theorem target_eq_some : st.target path = some i ↔ ∃ parentPath name d,
    splitPath path = .done (some (parentPath, name)) ∧
      st.resolve parentPath = .done (some d) ∧ st.child d name = some i := by
  unfold target
  constructor
  · intro h
    split at h
    · rename_i d s name hsite
      obtain ⟨parentPath, inode, hsplit, hres, hget, hkind, hs⟩ := site_eq_iff.mp hsite
      split at h
      · cases h
      · rename_i hclean
        exact ⟨parentPath, name, d, hsplit, hres,
          child_eq_some.mpr ⟨⟨inode, hget, hkind⟩, s, hs, hclean, h⟩⟩
    · cases h
  · rintro ⟨parentPath, name, d, hsplit, hres, hchild⟩
    obtain ⟨⟨inode, hget, hkind⟩, s, hs, hclean, hfind⟩ := child_eq_some.mp hchild
    rw [site_eq_iff.mpr ⟨parentPath, inode, hsplit, hres, hget, hkind, hs⟩]
    exact (if_neg hclean).trans hfind

end Store

/-! ### What `ls` finds -/

/-- The lookup of `ls`: the image is entered, and the path walked. -/
def lookupPath (path : List UInt8) : ExtProg Nat := do
  let sb ← enter
  getInodeIdOfDir path sb

/-- The lookup finds inode `i`; the number of inodes stands for a path that leads nowhere. -/
def World.Resolves (w : World) (path : List UInt8) (i : Nat) : Prop :=
  (exec (lookupPath path) w).1 = .done i ∧ i ≠ defaultFsInfo.inodesCount

/-- `open` hands out a descriptor for inode `i`. -/
def World.Opens (w : World) (path : List UInt8) (i : Nat) : Prop :=
  ∃ fd, (exec (openFile path) w).1 = .done (some fd) ∧
    ∃ pos, (exec (openFile path) w).2.store.Descriptor fd i pos

/-- A descriptor is free. -/
def Store.DescriptorFree (st : Store) : Prop :=
  ∃ dt, st.descriptorsTable = some dt ∧ false ∈ dt.reservedFd

namespace Image

variable {I : Image} {F : HostFiles} {isFile : Bool} {path : List UInt8} {i : Nat}

/-- On an image the walk is `Store.resolve`. -/
theorem Ok.resolves_iff (h : I.Ok) :
    (⟨I.store, F⟩ : World).Resolves path i ↔ I.store.resolve path = .done (some i) := by
  obtain ⟨L', hrun, _⟩ := h.run_getInodeIdOfDir (F := F) (T := []) h.layout.geometry path
  have hexec : (exec (lookupPath path) ⟨I.store, F⟩).1 =
      (I.store.resolve path).map (·.getD 128) := by
    rw [exec, lookupPath, World.start, Prog.run_bind, h.run_enter, follow_done, hrun]
  rw [World.Resolves, hexec]
  constructor
  · rintro ⟨hdone, hne⟩
    rcases hres : I.store.resolve path with (_ | j) | e
    · rw [hres] at hdone
      cases hdone
      exact absurd rfl hne
    · rw [hres] at hdone
      cases hdone
      rfl
    · rw [hres] at hdone
      cases hdone
  · intro hres
    rw [hres]
    exact ⟨rfl, h.layout.inode_ne (h.resolve_linked hres).1⟩

/-! ### What `open` finds -/

/-- What an opening does once the record of the name is found. -/
theorem openPath_target (htarget : I.store.target path = some i) :
    I.openPath path = match reserveDescriptor I.dt i with
      | none => (.done none, I)
      | some (fd, dt) => (.done (some fd), I.setTable dt) := by
  obtain ⟨parentPath, name, d, hsplit, hres, hchild⟩ := Store.target_eq_some.mp htarget
  obtain ⟨⟨inode, hget, hkind⟩, s, hs, hclean, hfind⟩ := Store.child_eq_some.mp hchild
  rw [store_inodes] at hget
  have hopen : I.openPath path = I.openIn d name := by
    simp only [openPath, hsplit, hres]
  rw [hopen]
  rcases hdt : reserveDescriptor I.dt i with _ | ⟨fd, dt⟩
  · simp [openIn, hget, hs, hkind, hclean, hfind, hdt]
  · simp [openIn, hget, hs, hkind, hclean, hfind, hdt]

/-- The entry that an opening adds. -/
theorem Ok.reserved_entry (h : I.Ok) {fd : Nat} {dt : DescriptorsTable}
    (hdt : MiniExt.reserveDescriptor I.dt i = some (fd, dt)) : dt.Entry fd i 0 :=
  entry_reserved_self (h.table.inodeLength.trans h.table.fdLength.symm)
    (h.table.positionLength.trans h.table.fdLength.symm) hdt

/-- **`open` finds** the target of its path, when there is a descriptor for it. -/
theorem Ok.opens_iff (h : I.Ok) (hz : 0 ∉ path) :
    (⟨I.store, F⟩ : World).Opens path i ↔
      I.store.target path = some i ∧ (MiniExt.reserveDescriptor I.dt i).isSome := by
  obtain ⟨L', T', hrun⟩ := h.run_openFile (F := F) path hz
  rw [World.Opens, exec_eq hrun]
  constructor
  · rintro ⟨fd, hfd, pos, hdesc⟩
    rcases h.openPath_cases path with ⟨_, hnone⟩ | ⟨j, fd', dt, heq, htarget, _, hdt⟩
    · exact absurd hfd (hnone fd)
    · rw [heq] at hfd hdesc
      cases hfd
      -- the descriptor handed out is the one of the new entry
      obtain ⟨rfl, _⟩ := (h.reserved_entry hdt).unique (descriptor_iff.mp hdesc)
      exact ⟨htarget, by rw [hdt]; rfl⟩
  · rintro ⟨htarget, hsome⟩
    obtain ⟨⟨fd, dt⟩, hdt⟩ := Option.isSome_iff_exists.mp hsome
    rw [openPath_target htarget, hdt]
    exact ⟨fd, rfl, 0, descriptor_iff.mpr (h.reserved_entry hdt)⟩

/-- There is a descriptor for an inode that is not reserved yet. -/
theorem Ok.reserve_fresh (h : I.Ok) (hfresh : ¬ Taken I.sb.reservedInodesMask i)
    (hfree : I.store.DescriptorFree) : (MiniExt.reserveDescriptor I.dt i).isSome := by
  obtain ⟨dt, hdt, hmem⟩ := hfree
  cases hdt
  have hnotin : i ∉ I.dt.fdToInode := by
    intro hin
    obtain ⟨fd, hfd⟩ := List.mem_iff_getElem?.mp hin
    have hlt := (List.getElem?_eq_some_iff.mp hfd).1
    rw [h.table.inodeLength, ← h.table.fdLength] at hlt
    apply hfresh
    rcases hres : I.dt.reservedFd[fd] with _ | _
    · -- a free slot holds the number of the root
      have hzero := h.table.unused ((List.getElem?_eq_getElem hlt).trans (congrArg some hres))
      rw [hfd] at hzero
      cases hzero
      exact h.root_reserved
    · exact (h.descriptor ((List.getElem?_eq_getElem hlt).trans (congrArg some hres)) hfd).1
  obtain ⟨fd, hfd⟩ := List.mem_iff_getElem?.mp hmem
  obtain ⟨fd₀, hfirst⟩ := exists_firstFree hfd
  rw [MiniExt.reserveDescriptor, if_neg hnotin, hfirst]
  rfl

/-! ### A creation that succeeds -/

section At

variable {p n b b₀ : Nat} {name : List UInt8} {s : Slot}

/-- Where there is room the record is added. -/
theorem CreateAt.create_eq (hat : I.CreateAt path p name n b b₀ s)
    (hroom : s.info.recordsCount ≠ 6) (hshort : name.length < 16) :
    (I.create isFile path).outcome = .done () ∧ (I.create isFile path).image =
      (I.alloc isFile p n b).link p ⟨n, nameField defaultFsInfo name⟩ := by
  obtain ⟨inode, hget, hkind⟩ := hat.dir.2
  rw [store_inodes] at hget
  rw [Image.create_eq, hat.site]
  simp [createIn, hget, firstSlot_eq hat.block, hkind, hat.clean, hat.absent, hat.inodeFree,
    hat.blockFree, hroom, Nat.not_le.mpr hshort]

variable (hat : I.CreateAt path p name n b b₀ s) (h : I.Ok) (isFile : Bool)

include hat h

/-- The inodes of before. -/
theorem CreateAt.inodes_link (r : BlockRecord) {j : Nat} (hj : Taken I.sb.reservedInodesMask j) :
    ((I.alloc isFile p n b).link p r).inodes j = I.inodes j := by
  rw [hat.link_eq h]
  exact (Ok.alloc_frame isFile p hat.inodeFree hat.blockFree).1 j hj

/-- The first block of the directory, with the new record. -/
theorem CreateAt.firstSlot_link (r : BlockRecord) :
    ((I.alloc isFile p n b).link p r).store.firstSlot p =
      some ⟨{ s.info with recordsCount := s.info.recordsCount + 1 },
        .records (s.records ++ [r])⟩ := by
  obtain ⟨inode, hget, hb₀, _⟩ := block_cases (hat.block_alloc h isFile)
  rw [hat.link_eq h]
  exact firstSlot_eq (block_eq hget hb₀ (setSlot_slots_self _ _ _))

/-- The first block of any other directory. -/
theorem CreateAt.firstSlot_link_ne (r : BlockRecord) {j : Nat}
    (hj : Taken I.sb.reservedInodesMask j) (hne : j ≠ p) :
    ((I.alloc isFile p n b).link p r).store.firstSlot j = I.store.firstSlot j := by
  have hsame := (hat.sameInode_alloc h isFile hj).trans
    (hat.sameInode_link h isFile r (hat.taken_alloc isFile hj) hne)
  exact hsame.firstSlot h hj

/-- The other inodes keep their kind. -/
theorem CreateAt.hasKind_link (r : BlockRecord) {j : Nat} (hj : Taken I.sb.reservedInodesMask j)
    {kind : Bool} (hkind : I.store.HasKind kind j) :
    ((I.alloc isFile p n b).link p r).store.HasKind kind j := by
  obtain ⟨inode, hget, hkind⟩ := hkind
  exact ⟨inode, (hat.inodes_link h isFile r hj).trans hget, hkind⟩

/-- The directory a creation adds lists itself and its parent. -/
theorem CreateAt.created_directory (r : BlockRecord) (hdirectory : isFile = false) :
    ((I.alloc isFile p n b).link p r).store.IsDir n ∧
      ((I.alloc isFile p n b).link p r).store.records n =
        [⟨n, nameField defaultFsInfo dotName⟩, ⟨p, nameField defaultFsInfo twoDotsName⟩] := by
  subst hdirectory
  have hJ := hat.alloc_ok h false
  obtain ⟨hdir, _, hnew⟩ := h.alloc_tree false p hat.inodeFree hat.blockFree
  obtain ⟨hparent, hnamed⟩ := hnew rfl
  have hd : (I.alloc false p n b).store.IsDir n := (hdir n).mpr (Or.inl ⟨rfl, rfl⟩)
  have hne : n ≠ p := fun heq =>
    (firstFree_eq_some_iff.mp hat.inodeFree).2.1 (heq ▸ hat.dir.1)
  have hsame := hat.sameInode_link h false r hd.1 hne
  constructor
  · rw [hat.link_eq h]
    exact hd
  · rw [Store.records, hsame.firstSlot hJ hd.1]
    exact (hJ.layout.records_eq hd).1.trans (by rw [hparent, hnamed])

variable (hz : 0 ∉ path) (hroom : s.info.recordsCount ≠ 6) (hshort : name.length < 16)

include hroom hshort

/-- The file a creation adds is empty. -/
theorem CreateAt.created_file (hfile : isFile = true) :
    ((I.alloc isFile p n b).link p ⟨n, nameField defaultFsInfo name⟩).store.HasKind true n ∧
      ((I.alloc isFile p n b).link p ⟨n, nameField defaultFsInfo name⟩).store.chunks n = [[]] := by
  subst hfile
  obtain ⟨hnlt, hnfree, _⟩ := firstFree_eq_some_iff.mp hat.inodeFree
  rw [← (hat.create_eq hroom hshort).2]
  apply h.created_empty path hnfree
  rw [(hat.create_eq hroom hshort).2, hat.link_eq h]
  exact (taken_set hnlt).mpr (Or.inl rfl)

include hz

/-- The block with the new record can be read, and lists it last. -/
theorem CreateAt.slot_link :
    ∃ t, ((I.alloc isFile p n b).link p ⟨n, nameField defaultFsInfo name⟩).store.firstSlot p =
        some t ∧ ¬ t.Mixed ∧ t.records = s.records ++ [⟨n, nameField defaultFsInfo name⟩] := by
  have hfirst := hat.firstSlot_link h isFile ⟨n, nameField defaultFsInfo name⟩
  refine ⟨_, hfirst, ?_, ?_⟩
  · -- the block counted records before, so it counts no data
    rintro ⟨_, hsize⟩
    exact hat.clean ⟨(h.layout.recordsBlock hat.dir hat.block).2.not_isData, hsize⟩
  · obtain ⟨_, _, _, hadded⟩ := hat.link_ok h isFile hz hroom hshort
    rw [Store.records, hfirst, records_of_block hat.block] at hadded
    exact hadded

/-- **The frame**: what a name led to before, it leads to now. -/
theorem CreateAt.child_link {j x : Nat} {c : List UInt8} (hj : Taken I.sb.reservedInodesMask j)
    (hchild : I.store.child j c = some x) :
    ((I.alloc isFile p n b).link p ⟨n, nameField defaultFsInfo name⟩).store.child j c = some x := by
  obtain ⟨hkind, s', hs, hclean, hfind⟩ := Store.child_eq_some.mp hchild
  refine Store.child_eq_some.mpr ⟨hat.hasKind_link h isFile _ hj hkind, ?_⟩
  by_cases hjp : j = p
  · subst hjp
    rw [firstSlot_eq hat.block] at hs
    cases hs
    obtain ⟨t, ht, htclean, hrecords⟩ := hat.slot_link h isFile hz hroom hshort
    obtain ⟨r, hr, hx⟩ := Option.map_eq_some_iff.mp hfind
    refine ⟨t, ht, htclean, ?_⟩
    rw [Slot.find, hrecords, List.find?_append, hr, ← hx]
    rfl
  · exact ⟨s', (hat.firstSlot_link_ne h isFile _ hj hjp).trans hs, hclean, hfind⟩

/-- **The new name** leads to the new inode. -/
theorem CreateAt.child_link_new :
    ((I.alloc isFile p n b).link p ⟨n, nameField defaultFsInfo name⟩).store.child p name =
      some n := by
  obtain ⟨t, ht, htclean, hrecords⟩ := hat.slot_link h isFile hz hroom hshort
  refine Store.child_eq_some.mpr
    ⟨hat.hasKind_link h isFile _ hat.dir.1 hat.dir.2, t, ht, htclean, ?_⟩
  have habsent := hat.absent
  rw [Slot.find, Option.map_eq_none_iff] at habsent
  rw [Slot.find, hrecords, List.find?_append, habsent]
  simp

/-- A walk that found an inode finds it again. -/
theorem CreateAt.resolve_link {q : List UInt8} {i : Nat}
    (hres : I.store.resolve q = .done (some i)) :
    ((I.alloc isFile p n b).link p ⟨n, nameField defaultFsInfo name⟩).store.resolve q =
      .done (some i) := by
  refine Store.walk_mono (P := fun j => Taken I.sb.reservedInodesMask j ∧
    I.store.tree.Linked rootInodeId j) ?_ ?_ ⟨h.root_reserved, Or.inl rfl⟩ hres
  · rintro d ⟨hd, hl⟩ c j hchild
    obtain ⟨hkind, s', hs, _, hfind⟩ := Store.child_eq_some.mp hchild
    exact ⟨hat.child_link h isFile hz hroom hshort hd hchild,
      h.find_linked ⟨hd, hkind⟩ hl hs hfind⟩
  · rintro d ⟨hd, _⟩ hkind
    exact hat.hasKind_link h isFile _ hd hkind

/-- And so does an opening. -/
theorem CreateAt.target_link {q : List UInt8} {i : Nat} (htarget : I.store.target q = some i) :
    ((I.alloc isFile p n b).link p ⟨n, nameField defaultFsInfo name⟩).store.target q = some i := by
  obtain ⟨parentPath, c, d, hsplit, hres, hchild⟩ := Store.target_eq_some.mp htarget
  exact Store.target_eq_some.mpr ⟨parentPath, c, d, hsplit,
    hat.resolve_link h isFile hz hroom hshort hres,
    hat.child_link h isFile hz hroom hshort (h.resolve_linked hres).1 hchild⟩

/-- The names of the new path lead to the new inode. -/
theorem CreateAt.follow_link {parent : List (List UInt8)} (hparent : ∀ c ∈ parent, IsComponent c)
    (hres : I.store.resolve (pathOf parent true) = .done (some p)) :
    ((I.alloc isFile p n b).link p ⟨n, nameField defaultFsInfo name⟩).store.follow
      (parent ++ [name]) rootInodeId = some n := by
  have hres' := hat.resolve_link h isFile hz hroom hshort hres
  rw [Store.follow_concat, ((Store.resolve_pathOf hparent (Or.inr rfl)).mp hres').1]
  exact hat.child_link_new h isFile hz hroom hshort

end At

end Image

/-! ### The property -/

/-- No block of a reserved inode counts both records and data. -/
def Store.NoMixed (st : Store) : Prop :=
  ∀ i, st.InodeReserved i → ∀ b ∈ st.blocksOf i, ∀ s, st.slots b = some s → ¬ s.Mixed

/-- Directory `d`, to which the parent of a path leads, has room for a record and none with the
    last component of the path, and there is a free inode and a free block. -/
structure CanCreate (w : World) (parent : List (List UInt8)) (name : List UInt8) (d : Nat) :
    Prop where
  /-- Behind the trailing slash only a directory is found. -/
  found : w.Resolves (pathOf parent true) d
  room : (w.store.records d).length < 6
  absent : ∀ r ∈ w.store.records d, r.name ≠ name
  freeInode : 0 < w.store.freeInodes
  freeBlock : 0 < w.store.freeBlocks

/-- Between two worlds a fresh inode `n` came up under a path of components, in directory `d`:
    `ls` and `open` find it there, it is an empty file or an empty directory, and whatever `ls`
    and `open` found before they find again. -/
structure FoundAfter (w w' : World) (isFile : Bool) (names : List (List UInt8)) (d n : Nat) :
    Prop where
  fresh : ¬ w.store.InodeReserved n ∧ w'.store.InodeReserved n
  resolves : w'.Resolves (pathOf names false) n
  resolvesTrailing : isFile = false → w'.Resolves (pathOf names true) n
  opens : w.store.DescriptorFree → ∀ trailing, w'.Opens (pathOf names trailing) n
  file : isFile = true → w'.store.HasKind true n ∧ w'.store.chunks n = [[]]
  directory : isFile = false → w'.store.IsDir n ∧ w'.store.records n =
    [⟨n, nameField defaultFsInfo dotName⟩, ⟨d, nameField defaultFsInfo twoDotsName⟩]
  keeps : ∀ q i, w.Resolves q i → w'.Resolves q i
  keepsOpen : ∀ (q : CString) i, w.Opens q.bytes i → w'.Opens q.bytes i

namespace Image

variable {I : Image} {F : HostFiles} {parent : List (List UInt8)} {name : List UInt8} {d : Nat}
  {trailing : Bool}

/-- The creation gets as far as storing an inode, in a directory with room. -/
theorem Ok.createAt (h : I.Ok) (hclean : I.store.NoMixed) (hparent : ∀ c ∈ parent, IsComponent c)
    (hname : IsComponent name) (hlen : (pathOf (parent ++ [name]) trailing).length < bufferLength)
    (hcan : CanCreate ⟨I.store, F⟩ parent name d) :
    ∃ n b b₀ s, I.CreateAt (pathOf (parent ++ [name]) trailing) d name n b b₀ s ∧
      s.info.recordsCount ≠ 6 := by
  have hres := h.resolves_iff.mp hcan.found
  obtain ⟨htaken, hlinked⟩ := h.resolve_linked hres
  have hd : I.store.IsDir d :=
    ⟨htaken, ((Store.resolve_pathOf hparent (Or.inr rfl)).mp hres).2 rfl⟩
  obtain ⟨inode, b₀, s, hget, _, hok, hb₀, hs, hblock, _, hrec⟩ := h.layout.dirBlock hd
  have hrecords : I.store.records d = s.records := records_of_block hblock
  obtain ⟨n, hn⟩ : ∃ n, firstFree I.sb.reservedInodesMask = some n :=
    Option.ne_none_iff_exists'.mp fun hnone => hcan.freeInode.ne' (firstFree_eq_none_iff.mp hnone)
  obtain ⟨b, hb⟩ : ∃ b, firstFree I.sb.reservedBlocksMask = some b :=
    Option.ne_none_iff_exists'.mp fun hnone => hcan.freeBlock.ne' (firstFree_eq_none_iff.mp hnone)
  refine ⟨n, b, b₀, s,
    ⟨⟨_, splitPath_pathOf hname (Or.inl hlen), hres⟩, hd, hlinked, hblock, ?_, ?_, hn, hb⟩, ?_⟩
  · refine hclean d hd.1 b₀ ?_ s hs
    rw [Store.blocksOf, store_inodes, hget]
    exact mem_blocks.mpr ⟨0, hok.count_pos, hb₀⟩
  · rw [Slot.find, Option.map_eq_none_iff, List.find?_eq_none]
    intro r hr heq
    rw [decide_eq_true_iff] at heq
    apply hcan.absent r (hrecords ▸ hr)
    rw [BlockRecord.name, heq]
    exact takeWhile_nameField hname.nulFree
  · obtain ⟨_, named, heq, hcount, _⟩ := hrec.records_eq
    have hroom := hcan.room
    show ¬ s.info.recordsCount = 6
    rw [show (⟨I.store, F⟩ : World).store.records d = s.records from hrecords, heq] at hroom
    simp only [List.length_cons] at hroom
    omega

/-- **What a creation that succeeds leaves.** -/
theorem Ok.foundAfter (h : I.Ok) (isFile : Bool) {n b b₀ : Nat} {s : Slot}
    (hparent : ∀ c ∈ parent, IsComponent c) (hname : IsComponent name)
    (hlen : (pathOf (parent ++ [name]) trailing).length < bufferLength)
    (hfound : I.store.resolve (pathOf parent true) = .done (some d))
    (hat : I.CreateAt (pathOf (parent ++ [name]) trailing) d name n b b₀ s)
    (hroom : s.info.recordsCount ≠ 6) :
    FoundAfter ⟨I.store, F⟩
      ⟨(I.create isFile (pathOf (parent ++ [name]) trailing)).image.store, F⟩ isFile
      (parent ++ [name]) d n := by
  have hnames : ∀ c ∈ parent ++ [name], IsComponent c := by
    intro c hc
    rcases List.mem_append.mp hc with hc | hc
    · exact hparent c hc
    · exact List.mem_singleton.mp hc ▸ hname
  have hz : ∀ trailing, 0 ∉ pathOf (parent ++ [name]) trailing := nul_notMem_pathOf hnames
  have hshort : name.length < 16 := Nat.lt_of_succ_lt hname.short
  obtain ⟨hnlt, hnfree, _⟩ := firstFree_eq_some_iff.mp hat.inodeFree
  obtain ⟨hK, _, _, _⟩ := hat.link_ok h isFile (hz trailing) hroom hshort
  -- what was found before is found
  have hkeeps : ∀ {q i}, I.store.resolve q = .done (some i) → _ :=
    hat.resolve_link h isFile (hz trailing) hroom hshort
  have hkeepsTarget : ∀ {q i}, I.store.target q = some i → _ :=
    hat.target_link h isFile (hz trailing) hroom hshort
  have hchild := hat.child_link_new h isFile (hz trailing) hroom hshort
  have hfollow := hat.follow_link h isFile (hz trailing) hroom hshort hparent hfound
  have hfile := hat.created_file h isFile hroom hshort
  have hdirectory := hat.created_directory h isFile ⟨n, nameField defaultFsInfo name⟩
  have htable : ((I.alloc isFile d n b).link d ⟨n, nameField defaultFsInfo name⟩).dt = I.dt := by
    rw [hat.link_eq h]
    rfl
  have htaken : Taken ((I.alloc isFile d n b).link d
      ⟨n, nameField defaultFsInfo name⟩).sb.reservedInodesMask n := by
    rw [hat.link_eq h]
    exact (taken_set hnlt).mpr (Or.inl rfl)
  rw [(hat.create_eq hroom hshort).2]
  generalize (I.alloc isFile d n b).link d ⟨n, nameField defaultFsInfo name⟩ = K at *
  -- and so is the new name, a directory also with a slash behind it
  have hresolves : ∀ more, (more = true → isFile = false) →
      K.store.resolve (pathOf (parent ++ [name]) more) = .done (some n) := by
    intro more hmore
    exact (Store.resolve_pathOf hnames (Or.inl (by simp))).mpr
      ⟨hfollow, fun htrue => (hdirectory (hmore htrue)).1.2⟩
  have htarget : ∀ more, K.store.target (pathOf (parent ++ [name]) more) = some n := fun more =>
    Store.target_eq_some.mpr
      ⟨_, name, d, splitPath_pathOf hname (length_pathOf_lt hlen more), hkeeps hfound, hchild⟩
  refine ⟨⟨hnfree, htaken⟩, ?_, ?_, ?_, hfile, hdirectory, ?_, ?_⟩
  · exact hK.resolves_iff.mpr (hresolves false Bool.noConfusion)
  · exact fun isDir => hK.resolves_iff.mpr (hresolves true fun _ => isDir)
  · intro hfree more
    apply (hK.opens_iff (hz more)).mpr
    rw [htable]
    exact ⟨htarget more, h.reserve_fresh hnfree hfree⟩
  · exact fun q i hq => hK.resolves_iff.mpr (hkeeps (h.resolves_iff.mp hq))
  · intro q i hq
    apply (hK.opens_iff q.nulFree).mpr
    rw [htable]
    exact ((h.opens_iff q.nulFree).mp hq).imp hkeepsTarget id

end Image

/-! ### The result -/

/-- **Create, then look up.**  In every reachable image without mixed blocks, a creation in a
    directory with room, of a name it does not hold, makes the path resolve to a fresh inode and
    leaves every other path as it was. -/
theorem create_then_found {w : World} (hw : Reachable w) (hclean : w.store.NoMixed) (isFile : Bool)
    {parent : List (List UInt8)} {name : List UInt8} (hparent : ∀ c ∈ parent, IsComponent c)
    (hname : IsComponent name) (trailing : Bool)
    (hlen : (pathOf (parent ++ [name]) trailing).length < bufferLength) {d : Nat}
    (hcan : CanCreate w parent name d) :
    (exec (createCommand isFile (pathOf (parent ++ [name]) trailing)) w).1 = .done () ∧
      ∃ n, FoundAfter w (exec (createCommand isFile (pathOf (parent ++ [name]) trailing)) w).2
        isFile (parent ++ [name]) d n := by
  obtain ⟨I, hI, hstore⟩ := hw.image
  obtain ⟨store, F⟩ := w
  cases hstore
  obtain ⟨n, b, b₀, s, hat, hroom⟩ := hI.createAt hclean hparent hname hlen hcan
  have hz : 0 ∉ pathOf (parent ++ [name]) trailing := by
    apply nul_notMem_pathOf
    intro c hc
    rcases List.mem_append.mp hc with hc | hc
    · exact hparent c hc
    · exact List.mem_singleton.mp hc ▸ hname
  rw [hI.exec_create isFile ⟨_, hz⟩]
  exact ⟨(hat.create_eq hroom (Nat.lt_of_succ_lt hname.short)).1, n,
    hI.foundAfter isFile hparent hname hlen (hI.resolves_iff.mp hcan.found) hat hroom⟩

/-- Only the inodes of the table count. -/
theorem Reachable.noMixed {w : World} (hw : Reachable w)
    (h : ∀ i < 128, w.store.InodeReserved i →
      ∀ b ∈ w.store.blocksOf i, ∀ s ∈ w.store.slots b, ¬ s.Mixed) : w.store.NoMixed :=
  fun i hi => h i (hw.inode_lt hi) hi

/-- The directory `/f/` in the root of a fresh image. -/
theorem create_then_found_root :
    (exec (createCommand false (pathOf ([] ++ [[102]]) true))
        ((World.mk .blank .onlyImage).step .init)).1 = .done () ∧
      ∃ n, FoundAfter ((World.mk .blank .onlyImage).step .init)
        (exec (createCommand false (pathOf ([] ++ [[102]]) true))
          ((World.mk .blank .onlyImage).step .init)).2 false ([] ++ [[102]]) rootInodeId n :=
  create_then_found (Reachable.init _) ((Reachable.init _).noMixed (by decide +kernel)) false
    (by simp) ⟨by decide, by decide, by decide, by decide⟩ true (by decide)
    ⟨⟨by decide +kernel, by decide⟩, by decide +kernel, by decide +kernel, by decide +kernel,
      by decide +kernel⟩

end MiniExt
