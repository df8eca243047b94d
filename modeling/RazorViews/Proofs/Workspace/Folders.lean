import RazorViews.Proofs.Workspace.Walks

/-!
# Making folders and storing files

A path may lead to a folder that is there only in part: to an existing folder, and from there along
names under which nothing stands yet (`Ready`).  The folders along those names are what is made
for it, and nothing else changes (`makeFolders_of_ready`); a file stored in the folder changes what
stands at its own location besides (`CanHold.store`).

Steps upwards may stand on the way to the existing folder, but none may stand behind it: as long as
nothing is there a step upwards leads nowhere.  Which paths are of this kind is said in
`canHold_of_storeFile`.

Where a file can be stored in a folder, others can be stored behind it: the folder is there by then,
and can hold them (`CanHold.store`).  So views are written into one folder one after another, and
for each of them `CanHold.isThere` tells by the location alone whether it is there.
-/

namespace RazorViews.Tree

variable {t made : Tree} {l L F : Location} {p : Path} {name : Text}
  {names there missing : List Text} {content : List UInt8}

/-! ## Places for entries -/

theorem parent_steps (hsteps : p.steps = names ++ [name]) : p.parent.steps = names := by
  rw [Path.parent, hsteps, List.dropLast_concat]

/-- The place that steps lead to, once the folder above is reached or not. -/
theorem place_eq (hsteps : p.steps = names ++ [name]) (hnul : ∀ step ∈ p.steps, '\x00' ∉ step)
    (taken : SystemCause) :
    t.place p taken = (t.walk (t.origin p) names).bind fun above =>
      match t.get? above with
      | none => .error .missing
      | some (.file _) => .error .notAFolder
      | some .folder =>
        if name == ['.', '.'] then .error taken
        else if maxNameBytes < Utf8.size name then .error .nameTooLong
        else .ok (above ++ [name]) := by
  have hany : ¬ p.steps.any (·.contains '\x00') = true := by
    rw [List.any_eq_true]
    rintro ⟨step, hmem, hcontains⟩
    exact hnul step hmem (List.contains_iff_mem.1 hcontains)
  have hlast : p.steps.getLast? = some name := by rw [hsteps, List.getLast?_concat]
  rw [place, if_neg hany, hlast, parent_steps hsteps]
  rfl

theorem place_ok (hsteps : p.steps = names ++ [name]) (hnul : ∀ step ∈ p.steps, '\x00' ∉ step)
    (hname : IsPlain name) (hwalk : t.walk (t.origin p) names = .ok l)
    (hl : t.get? l = some .folder) (taken : SystemCause) : t.place p taken = .ok (l ++ [name]) := by
  have hup : ¬ (name == ['.', '.']) = true := by simpa using hname.not_up
  rw [place_eq hsteps hnul, hwalk]
  simp only [Except.bind, hl]
  rw [if_neg hup, if_neg (Nat.not_lt.2 hname.size_le)]

/-- Where the way to the folder above breaks off, there is no place for an entry. -/
theorem place_missing (hsteps : p.steps = names ++ [name])
    (hnul : ∀ step ∈ p.steps, '\x00' ∉ step)
    (hwalk : t.walk (t.origin p) names = .error .missing ∨
      ∃ l, t.walk (t.origin p) names = .ok l ∧ t.get? l = none) (taken : SystemCause) :
    t.place p taken = .error .missing := by
  rw [place_eq hsteps hnul]
  rcases hwalk with hwalk | ⟨l, hwalk, hl⟩
  · rw [hwalk]
    rfl
  · rw [hwalk]
    simp only [Except.bind, hl]

/-! ## Folders that are there -/

theorem makeFolder_there (h : t.resolve p = .ok l) (hl : t.get? l = some .folder) :
    t.makeFolder p = .error .alreadyThere := by
  obtain ⟨hnul, hwalk⟩ := resolve_ok h
  have hplace : t.place p .alreadyThere = .error .alreadyThere ∨
      t.place p .alreadyThere = .ok l := by
    rcases List.eq_nil_or_concat p.steps with hnil | ⟨names, name, hsteps⟩
    · left
      rw [place, hnil]
      rfl
    · rw [List.concat_eq_append] at hsteps
      rw [hsteps] at hwalk
      obtain ⟨above, habove, hfolder, hname⟩ := walk_snoc hwalk
      rcases hname with ⟨rfl, -⟩ | ⟨hplain, rfl⟩
      · left
        rw [place_eq hsteps hnul, habove]
        simp only [Except.bind, hfolder]
        rfl
      · exact .inr (place_ok hsteps hnul hplain habove hfolder _)
  rw [makeFolder]
  rcases hplace with hplace | hplace
  · rw [hplace]
    rfl
  · rw [hplace]
    simp only [bind, Except.bind, hl]

/-- A folder that is there is not made. -/
theorem makeFolders_there (h : t.resolve p = .ok l) (hl : t.get? l = some .folder)
    (levels : Nat) : makeFolders.go t p levels = (t, .ok ()) := by
  have hmake := makeFolder_there h hl
  have hisFolder : t.isFolder p = .ok true := isFolder_ok_true_iff.2 ⟨l, h, hl⟩
  have hunless : t.unlessThere p .alreadyThere = .ok t := by
    rw [unlessThere, hisFolder]
    rfl
  cases levels with
  | zero =>
    rw [makeFolders.go, makeFolders.again, hmake]
    dsimp only
    rw [if_neg (by decide), hunless]
  | succ levels =>
    rw [makeFolders.go, hmake]
    dsimp only
    rw [hunless]

/-! ## Folders that can be made -/

/-- A tree after the folders along a location have been made, as far as they were missing. -/
structure Grown (t : Tree) (F : Location) (made : Tree) : Prop where
  home : made.home = t.home
  get? : ∀ l, made.get? l = if l <+: F then some .folder else t.get? l

theorem Grown.refl (h : t.Rooted) (hF : t.get? F = some .folder) : Grown t F t where
  home := rfl
  get? l := by
    split
    · rename_i hl
      exact h.folder_of_prefix hF hl
    · rfl

/-- What stood anywhere else still stands there, and a folder stays a folder. -/
theorem Grown.folder (h : Grown t F made) (hl : t.get? l = some .folder) :
    made.get? l = some .folder := by
  rw [h.get?, hl]
  split
  · rfl
  · rfl

theorem Grown.below (h : Grown t F made) (hne : names ≠ []) :
    made.get? (F ++ names) = t.get? (F ++ names) := by
  rw [h.get?, if_neg]
  intro hwithin
  have hlength := hwithin.length_le
  rw [List.length_append] at hlength
  have := List.length_pos_iff.2 hne
  omega

/-- One more folder. -/
theorem Grown.insert (h : Grown t F made) (name : Text) :
    Grown t (F ++ [name]) (made.insert (F ++ [name]) .folder) where
  home := h.home
  get? l := by
    rw [get?_insert (List.append_ne_nil_of_right_ne_nil F (List.cons_ne_nil name []))]
    by_cases hl : l = F ++ [name]
    · rw [if_pos hl, if_pos (hl ▸ List.prefix_refl _)]
    · rw [if_neg hl, h.get?]
      have hiff : l <+: F ++ [name] ↔ l <+: F := by
        rw [List.prefix_concat_iff, or_iff_right hl]
      simp only [hiff]

/-- Steps lead from a location to the folder `L`, and on along names under which nothing stands
yet. -/
structure Splits (t : Tree) (l : Location) (steps there missing : List Text) (L : Location) : Prop
    where
  steps : steps = there ++ missing
  walk : t.walk l there = .ok L
  folder : t.get? L = some .folder
  plain : ∀ name ∈ missing, IsPlain name
  free : ∀ name ∈ missing.head?, t.get? (L ++ [name]) = none

/-- The steps of a path lead so from where it starts. -/
structure Ready (t : Tree) (p : Path) (there missing : List Text) (L : Location) : Prop
    extends Splits t (t.origin p) p.steps there missing L where
  noNul : ∀ step ∈ p.steps, '\x00' ∉ step

theorem makeFolder_ok (hplace : t.place p .alreadyThere = .ok l) (hl : t.get? l = none) :
    t.makeFolder p = .ok (t.insert l .folder) := by
  rw [makeFolder, hplace]
  simp only [bind, Except.bind, hl]

/-! ### Making them -/

theorem Ready.parent (h : Ready t p there (missing ++ [name]) L) :
    Ready t p.parent there missing L where
  steps := by
    rw [Path.parent, h.steps, ← List.append_assoc, List.dropLast_concat]
  noNul step hmem := h.noNul step (List.dropLast_subset _ hmem)
  walk := h.walk
  folder := h.folder
  plain name hname := h.plain name (List.mem_append_left _ hname)
  free name hname := h.free name (by
    cases missing with
    | nil => exact absurd hname (by simp)
    | cons x missing => exact hname)

/-- In a tree where the folders of a path have been made the path leads to them. -/
theorem Ready.walk_grown (h : Ready t p there missing L) (hgrown : Grown t (L ++ missing) made) :
    made.walk (made.origin p) p.steps = .ok (L ++ missing) := by
  have horigin : made.origin p = t.origin p := by
    rw [origin, origin, hgrown.home]
  have hthere : made.walk (t.origin p) there = .ok L :=
    walk_of_folders (fun _ => hgrown.folder) h.walk
  rw [horigin, h.steps, walk_append, hthere]
  refine walk_names h.plain ?_
  intro front hfront _
  rw [hgrown.get?, if_pos ((List.prefix_append_right_inj L).2 hfront)]

/-- The way along names under which nothing stands breaks off. -/
theorem Ready.breaks_off (h : Ready t p there missing L) (hne : missing ≠ []) :
    t.walk (t.origin p) p.steps = .error .missing ∨
      ∃ l, t.walk (t.origin p) p.steps = .ok l ∧ t.get? l = none := by
  obtain ⟨x, rest, rfl⟩ := List.exists_cons_of_ne_nil hne
  have hx := h.plain x List.mem_cons_self
  have hnone := h.free x rfl
  rw [h.steps, walk_append, h.walk]
  cases rest with
  | nil =>
    right
    refine ⟨L ++ [x], ?_, hnone⟩
    exact walk_plain h.folder hx []
  | cons y rest => exact .inl (walk_missing h.folder hx hnone (List.cons_ne_nil y rest))

theorem Ready.below_none (h : Ready t p there missing L) (hrooted : t.Rooted) (hne : missing ≠ [])
    (names : List Text) : t.get? (L ++ missing ++ names) = none := by
  obtain ⟨x, rest, rfl⟩ := List.exists_cons_of_ne_nil hne
  have hbelow := hrooted.none_below (h.free x rfl) (rest ++ names)
  rwa [List.append_assoc, List.singleton_append, ← List.cons_append, ← List.append_assoc] at hbelow

theorem makeFolders_go_of_ready (hrooted : t.Rooted) {levels : Nat}
    (h : Ready t p there missing L) (hlevels : missing.length ≤ levels) :
    ∃ made, makeFolders.go t p levels = (made, .ok ()) ∧ Grown t (L ++ missing) made := by
  induction missing using List.reverseRecOn generalizing p levels with
  | nil =>
    have hsteps := h.steps
    rw [List.append_nil] at hsteps ⊢
    have hresolve : t.resolve p = .ok L := by
      rw [resolve_eq h.noNul, hsteps]
      exact h.walk
    exact ⟨t, makeFolders_there hresolve h.folder levels, Grown.refl hrooted h.folder⟩
  | append_singleton missing name ih =>
    obtain ⟨levels, rfl⟩ : ∃ k, levels = k + 1 := by
      rw [List.length_append] at hlevels
      exact ⟨levels - 1, by simp at hlevels; omega⟩
    have hsteps : p.steps = p.parent.steps ++ [name] := by
      rw [h.parent.steps, h.steps, List.append_assoc]
    have hname : IsPlain name := h.plain name (by simp)
    by_cases hne : missing = []
    · subst hne
      have hwalk : t.walk (t.origin p) p.parent.steps = .ok L := by
        rw [h.parent.steps, List.append_nil]
        exact h.walk
      have hmake := makeFolder_ok (place_ok hsteps h.noNul hname hwalk h.folder _) (h.free name rfl)
      refine ⟨_, ?_, (Grown.refl hrooted h.folder).insert name⟩
      rw [makeFolders.go, hmake]
    · have hless : missing.length ≤ levels := by simpa using hlevels
      obtain ⟨made, hgo, hgrown⟩ := ih h.parent hless
      have hmissing : t.makeFolder p = .error .missing := by
        rw [makeFolder, place_missing hsteps h.noNul (h.parent.breaks_off hne)]
        rfl
      have hplace := place_ok hsteps h.noNul hname (h.parent.walk_grown hgrown)
        (by rw [hgrown.get?, if_pos (List.prefix_refl _)]) .alreadyThere
      have hnone : made.get? (L ++ missing ++ [name]) = none := by
        rw [hgrown.below (List.cons_ne_nil name [])]
        exact h.parent.below_none hrooted hne [name]
      refine ⟨made.insert (L ++ missing ++ [name]) .folder, ?_, ?_⟩
      · rw [makeFolders.go, hmissing]
        dsimp only
        rw [hgo]
        dsimp only
        rw [makeFolders.again, makeFolder_ok hplace hnone]
      · rw [← List.append_assoc]
        exact hgrown.insert name

/-- The folders of a path that can be made are made, and nothing else changes. -/
theorem makeFolders_of_ready (hrooted : t.Rooted) (h : Ready t p there missing L) :
    ∃ made, t.makeFolders p = (made, .ok ()) ∧ Grown t (L ++ missing) made := by
  refine makeFolders_go_of_ready hrooted h ?_
  rw [h.steps, List.length_append]
  exact Nat.le_add_left _ _

/-! ## Storing a file -/

/-- A tree after a file has been stored in a folder, which has been made as far as it was
missing. -/
structure Stored (t : Tree) (F : Location) (name : Text) (content : List UInt8) (stored : Tree) :
    Prop where
  home : stored.home = t.home
  get? : ∀ l, stored.get? l =
    if l = F ++ [name] then some (.file content) else if l <+: F then some .folder else t.get? l

/-- A path leads to the folder `F`, or to one that can be made there. -/
def CanHold (t : Tree) (p : Path) (F : Location) : Prop :=
  t.Rooted ∧ ∃ there missing L, Ready t p there missing L ∧ F = L ++ missing

/-- A file of a name in a folder. -/
def fileIn (p : Path) (name : Text) : Path := ⟨p.root, p.steps ++ [name]⟩

theorem noNul_fileIn (h : Ready t p there missing L) (hnul : '\x00' ∉ name) :
    ∀ step ∈ (fileIn p name).steps, '\x00' ∉ step := by
  intro step hmem
  rcases List.mem_append.1 hmem with hmem | hmem
  · exact h.noNul step hmem
  · rwa [List.mem_singleton.1 hmem]

/-- A folder that is there holds its files. -/
theorem CanHold.resolve (h : CanHold t p F) (hF : t.get? F = some .folder) (hname : IsPlain name)
    (hnul : '\x00' ∉ name) : t.resolve (fileIn p name) = .ok (F ++ [name]) := by
  obtain ⟨hrooted, there, missing, L, hready, rfl⟩ := h
  obtain rfl : missing = [] := by
    by_contra hne
    have hnone := hready.below_none hrooted hne []
    rw [List.append_nil, hF] at hnone
    exact absurd hnone (by simp)
  have hwalk : t.walk (t.origin p) p.steps = .ok L := by
    rw [hready.steps, List.append_nil]
    exact hready.walk
  rw [resolve_eq (noNul_fileIn hready hnul), List.append_nil]
  show t.walk (t.origin p) (p.steps ++ [name]) = _
  rw [walk_append, hwalk]
  exact walk_plain hready.folder hname []

/-- Something is there under a path if and only if something stands at its location. -/
theorem CanHold.isThere (h : CanHold t p F) (hname : IsPlain name) (hnul : '\x00' ∉ name) :
    t.isThere (fileIn p name) = .ok (t.get? (F ++ [name])).isSome := by
  by_cases hF : t.get? F = some .folder
  · rw [Tree.isThere, asks_of_resolve (h.resolve hF hname hnul)]
    cases t.get? (F ++ [name]) with
    | none => rfl
    | some n => rfl
  · obtain ⟨hrooted, there, missing, L, hready, rfl⟩ := h
    have hne : missing ≠ [] := by
      rintro rfl
      rw [List.append_nil] at hF
      exact hF hready.folder
    have hbreaks : t.resolve (fileIn p name) = .error .missing := by
      rw [resolve_eq (noNul_fileIn hready hnul)]
      show t.walk (t.origin p) (p.steps ++ [name]) = _
      rw [walk_append]
      rcases hready.breaks_off hne with hwalk | ⟨l, hwalk, hl⟩
      · rw [hwalk]
        rfl
      · rw [hwalk]
        show t.walk l [name] = .error .missing
        rw [walk, hl]
    rw [hready.below_none hrooted hne, Tree.isThere, asks, status, hbreaks]
    rfl

/-- On the way to a folder there are folders, as far as anything is there. -/
theorem CanHold.above (h : CanHold t p F) (hl : l <+: F) :
    t.get? l = none ∨ t.get? l = some .folder := by
  obtain ⟨hrooted, there, missing, L, hready, rfl⟩ := h
  obtain ⟨rest, hrest⟩ := hl
  rcases List.append_eq_append_iff.1 hrest with ⟨a, ha, -⟩ | ⟨a, rfl, ha⟩
  · exact .inr (hrooted.folder_of_prefix hready.folder ⟨a, ha.symm⟩)
  · cases a with
    | nil =>
      rw [List.append_nil]
      exact .inr hready.folder
    | cons x a =>
      have hnone := hready.free x (by rw [ha]; rfl)
      have hbelow := hrooted.none_below hnone a
      rw [List.append_assoc, List.singleton_append] at hbelow
      exact .inl hbelow

theorem parent_fileIn (p : Path) (name : Text) : (fileIn p name).parent = p := by
  rw [Path.parent, fileIn, List.dropLast_concat]

theorem writeFile_of_place {file : Path} (hplace : t.place file .isAFolder = .ok l)
    (hl : t.get? l ≠ some .folder) (content : List UInt8) :
    t.writeFile file content = .ok (t.insert l (.file content)) := by
  rw [writeFile, hplace]
  simp only [bind, Except.bind]
  cases hget : t.get? l with
  | none => rfl
  | some n =>
    cases n with
    | folder => exact absurd hget hl
    | file old => rfl

theorem Rooted.stored (h : t.Rooted) (hfree : t.get? (F ++ [name]) ≠ some .folder) {stored : Tree}
    (hstored : Stored t F name content stored) : stored.Rooted := by
  intro l x hsome
  have hfolder : ∀ k, k <+: F → stored.get? k = some .folder := by
    intro k hk
    rw [hstored.get?, if_neg, if_pos hk]
    rintro rfl
    have hlength := hk.length_le
    rw [List.length_append] at hlength
    exact absurd hlength (Nat.not_succ_le_self _)
  rw [hstored.get?] at hsome
  split at hsome
  · rename_i hl
    obtain ⟨rfl, -⟩ := List.append_inj' hl rfl
    exact hfolder l (List.prefix_refl l)
  · split at hsome
    · rename_i hwithin
      exact hfolder l ((List.prefix_append l [x]).trans hwithin)
    · have hl := h l x hsome
      rw [hstored.get?, if_neg, hl]
      · split
        · rfl
        · rfl
      · rintro rfl
        exact hfree hl

/-- A file can be stored where no folder is, and then the folder can hold others. -/
theorem CanHold.store (h : CanHold t p F) (hname : IsPlain name) (hnul : '\x00' ∉ name)
    (hfree : t.get? (F ++ [name]) ≠ some .folder) (content : List UInt8) :
    ∃ stored, t.storeFile (fileIn p name) content = (stored, .ok ()) ∧
      Stored t F name content stored ∧ CanHold stored p F := by
  obtain ⟨hrooted, there, missing, L, hready, rfl⟩ := h
  obtain ⟨made, hmake, hgrown⟩ := makeFolders_of_ready hrooted hready
  have hbelow := hgrown.below (List.cons_ne_nil name [])
  have hwalk := hready.walk_grown hgrown
  have hfolder : made.get? (L ++ missing) = some .folder := by
    rw [hgrown.get?, if_pos (List.prefix_refl _)]
  have hplace : made.place (fileIn p name) .isAFolder = .ok (L ++ missing ++ [name]) :=
    place_ok rfl (noNul_fileIn hready hnul) hname hwalk hfolder _
  have hwrite := writeFile_of_place hplace (by rw [hbelow]; exact hfree) content
  have hstored : Stored t (L ++ missing) name content
      (made.insert (L ++ missing ++ [name]) (.file content)) := by
    refine ⟨hgrown.home, fun l => ?_⟩
    rw [get?_insert (List.append_ne_nil_of_right_ne_nil _ (List.cons_ne_nil name [])), hgrown.get?]
  refine ⟨_, ?_, hstored, hrooted.stored hfree hstored, p.steps, [], L ++ missing, ?_, ?_⟩
  · rw [storeFile, parent_fileIn, hmake]
    dsimp only
    rw [hwrite]
  · refine ⟨⟨(List.append_nil _).symm, walk_of_folders ?_ hwalk, ?_, by simp, by simp⟩,
      hready.noNul⟩
    · intro l hl
      rw [get?_insert (List.append_ne_nil_of_right_ne_nil _ (List.cons_ne_nil name [])), if_neg, hl]
      rintro rfl
      rw [hbelow] at hl
      exact hfree hl
    · rw [hstored.get?, if_neg (by simp), if_pos (List.prefix_refl _)]
  · rw [List.append_nil]

/-- Where a folder is no file is stored, and nothing changes. -/
theorem CanHold.store_folder (h : CanHold t p F) (hname : IsPlain name) (hnul : '\x00' ∉ name)
    (hfolder : t.get? (F ++ [name]) = some .folder) (content : List UInt8) :
    ∃ e, t.storeFile (fileIn p name) content = (t, .error e) := by
  obtain ⟨hrooted, there, missing, L, hready, rfl⟩ := h
  obtain rfl : missing = [] := by
    by_contra hne
    rw [hready.below_none hrooted hne] at hfolder
    exact absurd hfolder (by simp)
  have hwalk : t.walk (t.origin p) p.steps = .ok L := by
    rw [hready.steps, List.append_nil]
    exact hready.walk
  have hmake : t.makeFolders p = (t, .ok ()) :=
    makeFolders_there ((resolve_eq hready.noNul).trans hwalk) hready.folder _
  rw [List.append_nil] at hfolder
  have hplace : t.place (fileIn p name) .isAFolder = .ok (L ++ [name]) :=
    place_ok rfl (noNul_fileIn hready hnul) hname hwalk hready.folder _
  refine ⟨⟨.isAFolder, (fileIn p name).toText⟩, ?_⟩
  have hwrite : t.writeFile (fileIn p name) content =
      .error ⟨.isAFolder, (fileIn p name).toText⟩ := by
    rw [writeFile, hplace]
    simp only [bind, Except.bind, hfolder]
    rfl
  rw [storeFile, parent_fileIn, hmake]
  dsimp only
  rw [hwrite]

end RazorViews.Tree
