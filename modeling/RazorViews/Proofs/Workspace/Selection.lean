import Mathlib.Data.List.Nodup
import Mathlib.Data.List.TakeWhile
import RazorViews.Proofs.Workspace.Order
import RazorViews.Proofs.Workspace.Tree
import RazorViews.Workspace.Search

/-!
# Selecting a file below a folder

Which files may declare a class is a question about what lies below the folder of the search, and
not about where the folder lies: `namesFound` says which names lead to them, and it is the same for
two folders with the same below them (`namesFound_congr`).  The selection among the files looks at
whole paths, the way to the folder of the search included.

## What is proved

`agree_iff` compares the searches below two folders that have the same below them, be they in one
tree or in two.

* Either both are refused, or they find the same files, relative to the folders.
* They select the same file if and only if those preferred folders that count below the one lead to
  the same file as those that count below the other.  What counts are the preferred folders in front
  of the first one that is on the way to the folder of the search (`counted`), since every file lies
  in that one (`select_below`).
* So they do if no preferred folder is on the way to either.

## The hypotheses

Both folders can be looked up, and the name of the class asks for no step upwards.  Such a step
would lead out of what is the same below the two.

## What it is not

The last part is not all: the same below two folders is not enough, as a workspace that is called
like a preferred folder shows.  There every file lies in that folder, and the first one is selected
where elsewhere another would be preferred (`not_agree_twins`).

## The proof

A walk by names from either folder leads to the same (`walk_below`), so the folders below are the
same ones, in some order (`foldersBelow_perm`), and sorting the files puts an end to that.
-/

namespace RazorViews.Search

open RazorViews.Path

variable {t₁ t₂ : Tree} {l₁ l₂ : Location} {root₁ root₂ : Path} {settings : SearchSettings}
  {className : Text} {steps names : List Text} {t : Tree} {l : Location} {root : Path}

/-! ## What lies below -/

/-- The same lies below two locations, which may be in different trees. -/
def SameBelow (t₁ : Tree) (l₁ : Location) (t₂ : Tree) (l₂ : Location) : Prop :=
  ∀ names, t₁.get? (l₁ ++ names) = t₂.get? (l₂ ++ names)

/-- Steps that lead downwards lead to the same below. -/
theorem walk_below (h : SameBelow t₁ l₁ t₂ l₂) (hsteps : ['.', '.'] ∉ steps) (names : List Text) :
    (∃ cause, t₁.walk (l₁ ++ names) steps = .error cause ∧
      t₂.walk (l₂ ++ names) steps = .error cause) ∨
    t₁.walk (l₁ ++ names) steps = .ok (l₁ ++ (names ++ steps)) ∧
      t₂.walk (l₂ ++ names) steps = .ok (l₂ ++ (names ++ steps)) := by
  induction steps generalizing names with
  | nil => exact .inr (by simp [Tree.walk])
  | cons step rest ih =>
    rw [List.mem_cons, not_or] at hsteps
    have hup : (step == ['.', '.']) = false := beq_eq_false_iff_ne.2 (Ne.symm hsteps.1)
    rw [Tree.walk, Tree.walk, ← h names]
    cases t₁.get? (l₁ ++ names) with
    | none => exact .inl ⟨_, rfl, rfl⟩
    | some n =>
      cases n with
      | file content => exact .inl ⟨_, rfl, rfl⟩
      | folder =>
        dsimp only
        rw [hup]
        by_cases hsize : Tree.maxNameBytes < Utf8.size step
        · rw [if_pos hsize, if_pos hsize]
          exact .inl ⟨_, rfl, rfl⟩
        · rw [if_neg hsize, if_neg hsize]
          have hmore := ih hsteps.2 (names ++ [step])
          simpa [List.append_assoc] using hmore

theorem leadsToFile_below (h : SameBelow t₁ l₁ t₂ l₂) (hsteps : ['.', '.'] ∉ steps)
    (names : List Text) :
    leadsToFile t₁ (l₁ ++ names) steps = leadsToFile t₂ (l₂ ++ names) steps := by
  rw [leadsToFile, leadsToFile]
  rcases walk_below h hsteps names with ⟨cause, hwalk₁, hwalk₂⟩ | ⟨hwalk₁, hwalk₂⟩
  · rw [hwalk₁, hwalk₂]
  · rw [hwalk₁, hwalk₂]
    dsimp only
    rw [h (names ++ steps)]

/-- A refusal depends on what lies below only; what it says names the whole path. -/
theorem refusalAlong?_below (h : SameBelow t₁ l₁ t₂ l₂) (hsteps : ['.', '.'] ∉ steps)
    (names : List Text) (p₁ p₂ : Path) :
    (refusalAlong? t₁ (l₁ ++ names) p₁ steps).isSome =
      (refusalAlong? t₂ (l₂ ++ names) p₂ steps).isSome := by
  induction steps generalizing names p₁ p₂ with
  | nil => rfl
  | cons step rest ih =>
    rw [List.mem_cons, not_or] at hsteps
    have hup : ¬ (step == ['.', '.']) = true := by simpa using Ne.symm hsteps.1
    have hnext : t₁.get? (l₁ ++ names ++ [step]) = t₂.get? (l₂ ++ names ++ [step]) := by
      simpa [List.append_assoc] using h (names ++ [step])
    rw [refusalAlong?, refusalAlong?, if_neg hup, if_neg hup, hnext]
    split
    · rfl
    · split
      · have hmore := ih hsteps.2 (names ++ [step]) (p₁.append ⟨.here, [step]⟩)
          (p₂.append ⟨.here, [step]⟩)
        simpa [List.append_assoc] using hmore
      · rfl

/-! ## Folders below -/

theorem mem_below {names : List Text} {n : Node} :
    (names, n) ∈ t.below l ↔ names ≠ [] ∧ t.get? (l ++ names) = some n := by
  rw [Tree.below, List.mem_filterMap]
  constructor
  · rintro ⟨⟨k, m⟩, hmem, hsome⟩
    dsimp only at hsome
    split at hsome
    · rename_i htest
      rw [Bool.and_eq_true, List.isPrefixOf_iff_prefix, bne_iff_ne] at htest
      obtain ⟨⟨rest, rfl⟩, hlength⟩ := htest
      rw [List.drop_left] at hsome
      obtain ⟨rfl, rfl⟩ := Prod.mk.inj (Option.some.inj hsome)
      have hne : rest ≠ [] := by
        rintro rfl
        exact hlength (by simp)
      exact ⟨hne, (Tree.get?_eq_some_iff (List.append_ne_nil_of_right_ne_nil l hne)).2 hmem⟩
    · exact absurd hsome (by simp)
  · rintro ⟨hne, hget⟩
    refine ⟨(l ++ names, n), (Tree.get?_eq_some_iff
      (List.append_ne_nil_of_right_ne_nil l hne)).1 hget, ?_⟩
    have htest : (l.isPrefixOf (l ++ names) && (l ++ names).length != l.length) = true := by
      rw [Bool.and_eq_true, List.isPrefixOf_iff_prefix, bne_iff_ne]
      refine ⟨List.prefix_append l names, ?_⟩
      rw [List.length_append]
      have := List.length_pos_iff.2 hne
      omega
    dsimp only
    rw [if_pos htest, List.drop_left]

theorem nodup_below (t : Tree) (l : Location) : (t.below l).Nodup := by
  refine List.Nodup.filterMap ?_ t.distinct.of_map
  rintro ⟨k, n⟩ ⟨k', n'⟩ b hb hb'
  dsimp only at hb hb'
  split at hb
  · rename_i htest
    split at hb'
    · rename_i htest'
      rw [Bool.and_eq_true, List.isPrefixOf_iff_prefix] at htest htest'
      obtain ⟨⟨rest, rfl⟩, -⟩ := htest
      obtain ⟨⟨rest', rfl⟩, -⟩ := htest'
      rw [List.drop_left] at hb hb'
      obtain ⟨rfl, rfl⟩ := Prod.mk.inj (Option.some.inj (hb.trans hb'.symm))
      rfl
    · exact absurd hb' (by simp)
  · exact absurd hb (by simp)

/-- What `foldersBelow` takes of an entry. -/
theorem folder_filter {e : Location × Node} :
    (if e.2 == .folder then some e.1 else none) = some names ↔ e = (names, .folder) := by
  obtain ⟨k, n⟩ := e
  cases n with
  | folder => simp
  | file content => simp

theorem mem_foldersBelow {names : List Text} :
    names ∈ foldersBelow t l ↔ names = [] ∨ names ≠ [] ∧ t.get? (l ++ names) = some .folder := by
  rw [foldersBelow, List.mem_cons, List.mem_filterMap, ← mem_below]
  refine or_congr_right ⟨?_, fun hmem => ⟨_, hmem, folder_filter.2 rfl⟩⟩
  rintro ⟨e, hmem, hsome⟩
  rwa [folder_filter.1 hsome] at hmem

theorem nodup_foldersBelow (t : Tree) (l : Location) : (foldersBelow t l).Nodup := by
  rw [foldersBelow, List.nodup_cons]
  constructor
  · intro hmem
    obtain ⟨e, hmem, hsome⟩ := List.mem_filterMap.1 hmem
    rw [folder_filter.1 hsome, mem_below] at hmem
    exact hmem.1 rfl
  · refine List.Nodup.filterMap ?_ (nodup_below t l)
    intro e e' names hnames hnames'
    rw [folder_filter.1 hnames, folder_filter.1 hnames']

theorem foldersBelow_perm (h : SameBelow t₁ l₁ t₂ l₂) :
    (foldersBelow t₁ l₁).Perm (foldersBelow t₂ l₂) := by
  rw [List.perm_ext_iff_of_nodup (nodup_foldersBelow t₁ l₁) (nodup_foldersBelow t₂ l₂)]
  intro names
  rw [mem_foldersBelow, mem_foldersBelow, h names]

theorem refusal?_below (h : SameBelow t₁ l₁ t₂ l₂) (hsteps : ['.', '.'] ∉ steps)
    (root₁ root₂ : Path) :
    (refusal? t₁ l₁ root₁ steps).isSome = (refusal? t₂ l₂ root₂ steps).isSome := by
  rw [Bool.eq_iff_iff, refusal?, refusal?, List.findSome?_isSome_iff, List.findSome?_isSome_iff]
  refine exists_congr fun names => and_congr (foldersBelow_perm h).mem_iff ?_
  rw [refusalAlong?_below h hsteps names]

/-! ## Files below -/

/-- The steps from a folder to the files of a pattern, in order. -/
def namesHit (t : Tree) (l : Location) (excluded : List Text) (steps : List Text)
    (pattern : List PatternStep) : List (List Text) :=
  sortNames (((foldersBelow t l).filter (isHit t l excluded steps pattern)).map (· ++ steps))

theorem hits_eq (t : Tree) (l : Location) (root : Path) (excluded : List Text) (steps : List Text)
    (pattern : List PatternStep) :
    hits t l root excluded steps pattern =
      (namesHit t l excluded steps pattern).map root.below := by
  rw [hits, namesHit, ← sort_below, List.map_map]
  rfl

theorem namesHit_below (h : SameBelow t₁ l₁ t₂ l₂) (hsteps : ['.', '.'] ∉ steps)
    (excluded : List Text) (pattern : List PatternStep) :
    namesHit t₁ l₁ excluded steps pattern = namesHit t₂ l₂ excluded steps pattern := by
  have hsame : isHit t₁ l₁ excluded steps pattern = isHit t₂ l₂ excluded steps pattern := by
    funext names
    rw [isHit, isHit, leadsToFile_below h hsteps]
  rw [namesHit, hsame]
  exact sortNames_congr (((foldersBelow_perm h).filter _).map _)

theorem firstNonEmpty_map {α β : Type} (f : α → β) (ls : List (List α)) :
    firstNonEmpty (ls.map (List.map f)) = (firstNonEmpty ls).map f := by
  induction ls with
  | nil => rfl
  | cons xs ls ih =>
    cases xs with
    | nil => exact ih
    | cons x xs => rfl

theorem mem_of_mem_firstNonEmpty {α : Type} {ls : List (List α)} {a : α}
    (h : a ∈ firstNonEmpty ls) : ∃ xs ∈ ls, a ∈ xs := by
  induction ls with
  | nil => exact absurd h List.not_mem_nil
  | cons xs ls ih =>
    cases xs with
    | nil =>
      obtain ⟨ys, hys, ha⟩ := ih h
      exact ⟨ys, List.mem_cons_of_mem _ hys, ha⟩
    | cons x xs => exact ⟨_, List.mem_cons_self, h⟩

/-- The steps from a folder to the files that may declare a class, in order, unless the search is
refused. -/
def namesFound (t : Tree) (l : Location) (settings : SearchSettings) (className : Text) :
    Option (List (List Text)) :=
  if t.get? l = some .folder then
    if (refusal? t l Path.here (fileSteps className)).isSome then none
    else some (firstNonEmpty
      (patterns.map (namesHit t l settings.excludedFolders (fileSteps className))))
  else some []

/-- Which files may declare a class depends on what lies below the folder of the search only. -/
theorem namesFound_congr (h : SameBelow t₁ l₁ t₂ l₂) (hname : ['.', '.'] ∉ fileSteps className)
    (settings : SearchSettings) :
    namesFound t₁ l₁ settings className = namesFound t₂ l₂ settings className := by
  have htop : t₁.get? l₁ = t₂.get? l₂ := by simpa using h []
  have hhits : namesHit t₁ l₁ settings.excludedFolders (fileSteps className) =
      namesHit t₂ l₂ settings.excludedFolders (fileSteps className) :=
    funext (namesHit_below h hname settings.excludedFolders)
  rw [namesFound, namesFound, htop, hhits, refusal?_below h hname]

/-- What is found is what the names lead to. -/
theorem find_eq (h : t.resolve root = .ok l) (hname : ['.', '.'] ∉ fileSteps className)
    (settings : SearchSettings) :
    (find t settings className root).toOption =
      (namesFound t l settings className).map (List.map root.below) := by
  have hfolder : t.isFolder root = .ok ((t.get? l).any Tree.isFolderNode) :=
    Tree.asks_of_resolve h _
  rw [find, hfolder, namesFound]
  by_cases htop : t.get? l = some .folder
  · have hrefused := refusal?_below (fun _ => rfl : SameBelow t l t l) hname root Path.here
    have hfound : firstNonEmpty (patterns.map
          (hits t l root settings.excludedFolders (fileSteps className))) =
        (firstNonEmpty (patterns.map
          (namesHit t l settings.excludedFolders (fileSteps className)))).map root.below := by
      rw [← firstNonEmpty_map, List.map_map]
      exact congrArg (fun f => firstNonEmpty (patterns.map f)) (funext fun _ => hits_eq ..)
    rw [if_pos htop, ← hrefused, htop, h]
    cases hrefusal : refusal? t l root (fileSteps className) with
    | some e => simp [Except.toOption, bind, Except.bind, hrefusal, Tree.isFolderNode]; rfl
    | none => simp [Except.toOption, bind, Except.bind, hrefusal, Tree.isFolderNode, hfound]; rfl
  · have hno : (t.get? l).any Tree.isFolderNode = false := by
      cases hget : t.get? l with
      | none => rfl
      | some n =>
        cases n with
        | folder => exact absurd hget htop
        | file content => rfl
    rw [if_neg htop, hno]
    rfl

/-- Nothing is found where no folder leads to a file of the class. -/
theorem find_eq_nil (h : t.resolve root = .ok l)
    (hrefusal : refusal? t l root (fileSteps className) = none)
    (hno : ∀ names ∈ foldersBelow t l, leadsToFile t (l ++ names) (fileSteps className) = false)
    (settings : SearchSettings) : find t settings className root = .ok [] := by
  have hfolder : t.isFolder root = .ok ((t.get? l).any Tree.isFolderNode) :=
    Tree.asks_of_resolve h _
  have hhits : hits t l root settings.excludedFolders (fileSteps className) = fun _ => [] := by
    funext pattern
    have hnone : (foldersBelow t l).filter
        (isHit t l settings.excludedFolders (fileSteps className) pattern) = [] := by
      refine List.filter_eq_nil_iff.2 fun names hnames => ?_
      rw [isHit, hno names hnames]
      simp
    rw [hits, hnone, List.map_nil, sort, List.mergeSort_nil]
  rw [find, hfolder]
  cases (t.get? l).any Tree.isFolderNode with
  | false => rfl
  | true =>
    simp only [bind, Except.bind, h, hrefusal, hhits]
    rfl

/-! ## The selection -/

theorem exists_step (t : Text) :
    ∃ piece ∈ Text.splitAt '/' (t ++ ".cs".toList), isStep piece = true := by
  induction t with
  | nil => exact ⟨".cs".toList, by decide, by decide⟩
  | cons c t ih =>
    obtain ⟨piece, hmem, hstep⟩ := ih
    rw [List.cons_append, Text.splitAt]
    cases hsplit : Text.splitAt '/' (t ++ ".cs".toList) with
    | nil => exact absurd (hsplit ▸ hmem) List.not_mem_nil
    | cons first pieces =>
      rw [hsplit] at hmem
      dsimp only
      split
      · exact ⟨piece, List.mem_cons_of_mem _ hmem, hstep⟩
      · -- a step stays one with a character in front
        rcases List.mem_cons.1 hmem with rfl | hmem
        · refine ⟨c :: piece, List.mem_cons_self, ?_⟩
          have hne : piece ≠ [] := by
            rintro rfl
            exact absurd hstep (by decide)
          simp [isStep, hne]
        · exact ⟨piece, List.mem_cons_of_mem _ hmem, hstep⟩

theorem fileSteps_ne_nil (className : Text) : fileSteps className ≠ [] := by
  obtain ⟨piece, hmem, hstep⟩ := exists_step className
  exact List.ne_nil_of_mem (List.mem_filter.2 ⟨hmem, hstep⟩)

/-- The files that may declare a class are below the folder of the search. -/
theorem ne_nil_of_mem_namesFound {files : List (List Text)}
    (h : namesFound t l settings className = some files) : ∀ names ∈ files, names ≠ [] := by
  intro names hmem
  rw [namesFound] at h
  split at h
  · split at h
    · exact absurd h (by simp)
    · obtain rfl := Option.some.inj h
      obtain ⟨hit, hhit, hnames⟩ := mem_of_mem_firstNonEmpty hmem
      obtain ⟨pattern, -, rfl⟩ := List.mem_map.1 hhit
      obtain ⟨front, -, rfl⟩ := List.mem_map.1 (mem_sortNames.1 hnames)
      exact List.append_ne_nil_of_right_ne_nil front (fileSteps_ne_nil className)
  · obtain rfl := Option.some.inj h
    exact absurd hmem List.not_mem_nil

/-- Of several files, each given by the names that lead to it, the one to read: the first file in
the first of the folders that any file lies in, or else the first file. -/
def selectNames (folders : List Text) (files : List (List Text)) : Option (List Text) :=
  match files with
  | [] => none
  | [file] => some file
  | file :: _ =>
    some ((folders.findSome? fun folder => files.find? (·.dropLast.contains folder)).getD file)

/-- The preferred folders that count below a folder: those in front of the first one that is on the
way to it. -/
def counted (root : Path) (folders : List Text) : List Text :=
  folders.takeWhile (!root.parts.contains ·)

theorem liesIn_below {folder : Text} (hne : names ≠ []) :
    liesIn folder (root.below names) =
      (root.parts.contains folder || names.dropLast.contains folder) := by
  rw [liesIn, parts_below, List.dropLast_append_of_ne_nil hne, List.contains_append]

theorem getD_findSome?_below {file : List Text} {more : List (List Text)}
    (hne : ∀ names ∈ file :: more, names ≠ []) (folders : List Text) :
    (folders.findSome? fun folder => ((file :: more).map root.below).find? (liesIn folder)).getD
        (root.below file) =
      root.below (((counted root folders).findSome? fun folder =>
        (file :: more).find? (·.dropLast.contains folder)).getD file) := by
  induction folders with
  | nil => rfl
  | cons folder folders ih =>
    rw [List.findSome?_cons]
    by_cases hway : root.parts.contains folder = true
    · -- every file lies in a folder that is on the way to all of them
      have hfirst : liesIn folder (root.below file) = true := by
        rw [liesIn_below (hne file List.mem_cons_self), hway]
        rfl
      rw [List.map_cons, List.find?_cons_of_pos hfirst, counted,
        List.takeWhile_cons_of_neg (by simpa using hway)]
      rfl
    · have hsame : ((file :: more).map root.below).find? (liesIn folder) =
          ((file :: more).find? (·.dropLast.contains folder)).map root.below := by
        have htest : ∀ names ∈ file :: more,
            (liesIn folder ∘ root.below) names = names.dropLast.contains folder := by
          intro names hmem
          rw [Function.comp_apply, liesIn_below (hne names hmem), Bool.eq_false_iff.2 hway,
            Bool.false_or]
        rw [List.find?_map, ← List.head?_filter, ← List.head?_filter, List.filter_congr htest]
      rw [hsame, counted, List.takeWhile_cons_of_pos (by simpa using hway), List.findSome?_cons]
      cases (file :: more).find? (·.dropLast.contains folder) with
      | none => exact ih
      | some names => rfl

/-- A selection below a folder, told by the names that lead to the files from there. -/
theorem select_below {files : List (List Text)} (hne : ∀ names ∈ files, names ≠ []) :
    select settings (files.map root.below) =
      (selectNames (counted root settings.modelFolders) files).map root.below := by
  match files, hne with
  | [], _ => rfl
  | [file], _ => rfl
  | file :: other :: more, hne => exact congrArg some (getD_findSome?_below hne _)

/-! ## Two selections -/

/-- The file that a search below a folder leads to, if any. -/
def chosen (t : Tree) (settings : SearchSettings) (className : Text) (root : Path) :
    Except SystemError (Option Path) :=
  (find t settings className root).map (select settings)

/-- Both searches are refused, or they lead to the same file relative to their folders. -/
def Agree (root₁ root₂ : Path) : Except SystemError (Option Path) →
    Except SystemError (Option Path) → Prop
  | .ok file₁, .ok file₂ =>
    ∃ names : Option (List Text), file₁ = names.map root₁.below ∧ file₂ = names.map root₂.below
  | .error _, .error _ => True
  | _, _ => False

theorem below_injective (root : Path) : Function.Injective root.below := by
  intro names names' h
  exact List.append_cancel_left (congrArg Path.steps h)

theorem agree_ok_iff {names₁ names₂ : Option (List Text)} :
    Agree root₁ root₂ (.ok (names₁.map root₁.below)) (.ok (names₂.map root₂.below)) ↔
      names₁ = names₂ := by
  constructor
  · rintro ⟨names, h₁, h₂⟩
    rw [Option.map_injective (below_injective root₁) h₁,
      Option.map_injective (below_injective root₂) h₂]
  · rintro rfl
    exact ⟨names₁, rfl, rfl⟩

theorem exists_error_of_toOption {ε α : Type} {x : Except ε α} (h : x.toOption = none) :
    ∃ e, x = .error e := by
  cases x with
  | error e => exact ⟨e, rfl⟩
  | ok a => exact absurd h (Option.some_ne_none a)

theorem eq_ok_of_toOption {ε α : Type} {x : Except ε α} {a : α} (h : x.toOption = some a) :
    x = .ok a := by
  cases x with
  | error e => exact absurd h.symm (Option.some_ne_none a)
  | ok b => rw [Option.some.inj h]

theorem chosen_eq (h : t.resolve root = .ok l) (hname : ['.', '.'] ∉ fileSteps className)
    (settings : SearchSettings) :
    (chosen t settings className root).toOption =
      (namesFound t l settings className).map fun files =>
        (selectNames (counted root settings.modelFolders) files).map root.below := by
  have hfind := find_eq h hname settings
  rw [chosen]
  cases hfiles : find t settings className root with
  | error e =>
    rw [hfiles] at hfind
    rw [Option.map_eq_none_iff.1 hfind.symm]
    rfl
  | ok files =>
    rw [hfiles] at hfind
    obtain ⟨names, hnames, rfl⟩ := Option.map_eq_some_iff.1 hfind.symm
    rw [hnames]
    exact congrArg some (select_below (ne_nil_of_mem_namesFound hnames))

/-- The preferred folders decide, as far as they count below either folder. -/
theorem agree_iff_selectNames (hsame : SameBelow t₁ l₁ t₂ l₂) (h₁ : t₁.resolve root₁ = .ok l₁)
    (h₂ : t₂.resolve root₂ = .ok l₂) (hname : ['.', '.'] ∉ fileSteps className)
    (settings : SearchSettings) :
    Agree root₁ root₂ (chosen t₁ settings className root₁) (chosen t₂ settings className root₂) ↔
      ∀ files ∈ namesFound t₁ l₁ settings className,
        selectNames (counted root₁ settings.modelFolders) files =
          selectNames (counted root₂ settings.modelFolders) files := by
  have hchosen₁ := chosen_eq h₁ hname settings
  have hchosen₂ := chosen_eq h₂ hname settings
  rw [← namesFound_congr hsame hname settings] at hchosen₂
  cases hnames : namesFound t₁ l₁ settings className with
  | none =>
    rw [hnames] at hchosen₁ hchosen₂
    obtain ⟨e₁, he₁⟩ := exists_error_of_toOption hchosen₁
    obtain ⟨e₂, he₂⟩ := exists_error_of_toOption hchosen₂
    rw [he₁, he₂]
    exact ⟨fun _ files hfiles => absurd hfiles (by simp), fun _ => trivial⟩
  | some files =>
    rw [hnames] at hchosen₁ hchosen₂
    rw [eq_ok_of_toOption hchosen₁, eq_ok_of_toOption hchosen₂, agree_ok_iff]
    simp

theorem counted_eq_self {folders : List Text} (h : ∀ folder ∈ folders, folder ∉ root.parts) :
    counted root folders = folders := by
  rw [counted, List.takeWhile_eq_self_iff]
  intro folder hmem
  simpa using h folder hmem

/-- For two folders with the same below them the files that may declare a class are the same ones
relative to the folders, or both searches are refused.  The files selected are the same if and only
if those preferred folders that count below either lead to the same file; so they are if no
preferred folder is on the way to either. -/
theorem agree_iff (hsame : SameBelow t₁ l₁ t₂ l₂) (h₁ : t₁.resolve root₁ = .ok l₁)
    (h₂ : t₂.resolve root₂ = .ok l₂) (hname : ['.', '.'] ∉ fileSteps className)
    (settings : SearchSettings) :
    (∃ files : Option (List (List Text)),
      (find t₁ settings className root₁).toOption = files.map (List.map root₁.below) ∧
      (find t₂ settings className root₂).toOption = files.map (List.map root₂.below)) ∧
    (Agree root₁ root₂ (chosen t₁ settings className root₁) (chosen t₂ settings className root₂) ↔
      ∀ files ∈ namesFound t₁ l₁ settings className,
        selectNames (counted root₁ settings.modelFolders) files =
          selectNames (counted root₂ settings.modelFolders) files) ∧
    ((∀ folder ∈ settings.modelFolders, folder ∉ root₁.parts ∧ folder ∉ root₂.parts) →
      Agree root₁ root₂ (chosen t₁ settings className root₁)
        (chosen t₂ settings className root₂)) := by
  have hiff := agree_iff_selectNames hsame h₁ h₂ hname settings
  refine ⟨⟨_, find_eq h₁ hname settings, ?_⟩, hiff, ?_⟩
  · rw [namesFound_congr hsame hname settings]
    exact find_eq h₂ hname settings
  · intro hway
    refine hiff.2 fun files _ => ?_
    rw [counted_eq_self fun folder hmem => (hway folder hmem).1,
      counted_eq_self fun folder hmem => (hway folder hmem).2]

/-! ## A preferred folder on the way -/

/-- Two folders with two files each below them, one of the folders named like a preferred one. -/
def twins : Tree :=
  let content := Utf8.encode "class P \x7b \x7d".toList
  let entries (top : Location) : List (Location × Node) :=
    [(top, .folder), (top ++ ["A".toList], .folder),
      (top ++ ["A".toList, "P.cs".toList], .file content), (top ++ ["Models".toList], .folder),
      (top ++ ["Models".toList, "P.cs".toList], .file content)]
  (entries ["w".toList] ++ entries ["Models".toList]).foldl (fun t e => t.insert e.1 e.2)
    (Tree.empty [])

/-- What lies below is what the entries below say. -/
theorem sameBelow_of_below (htop : t₁.get? l₁ = t₂.get? l₂) (h : t₁.below l₁ = t₂.below l₂) :
    SameBelow t₁ l₁ t₂ l₂ := by
  intro names
  by_cases hne : names = []
  · simpa [hne] using htop
  · refine Option.ext fun n => ?_
    have hiff₁ : (names, n) ∈ t₁.below l₁ ↔ _ := mem_below
    have hiff₂ : (names, n) ∈ t₂.below l₂ ↔ _ := mem_below
    rw [h, hiff₂] at hiff₁
    simpa [hne, Option.mem_def] using hiff₁.symm

theorem namesFound_twins :
    namesFound twins ["w".toList] .usual "P".toList =
      some [["A".toList, "P.cs".toList], ["Models".toList, "P.cs".toList]] := by
  have hhits : namesHit twins ["w".toList] SearchSettings.usual.excludedFolders
      (fileSteps "P".toList) [.anyDepth] =
        [["A".toList, "P.cs".toList], ["Models".toList, "P.cs".toList]] := by
    have hnames : ((foldersBelow twins ["w".toList]).filter (isHit twins ["w".toList]
        SearchSettings.usual.excludedFolders (fileSteps "P".toList) [.anyDepth])).map
          (· ++ fileSteps "P".toList) =
        [["A".toList, "P.cs".toList], ["Models".toList, "P.cs".toList]] := by
      decide +kernel
    rw [namesHit, hnames, sortNames]
    exact List.mergeSort_of_pairwise (by decide)
  rw [namesFound, if_pos (by decide +kernel), if_neg (by decide +kernel), patterns, List.map_cons,
    hhits]
  rfl

/-- The same below two folders does not make the selections agree. -/
theorem not_agree_twins :
    SameBelow twins ["w".toList] twins ["Models".toList] ∧
    ¬ Agree (Path.ofText "w".toList) (Path.ofText "Models".toList)
      (chosen twins .usual "P".toList (Path.ofText "w".toList))
      (chosen twins .usual "P".toList (Path.ofText "Models".toList)) := by
  have hsame : SameBelow twins ["w".toList] twins ["Models".toList] :=
    sameBelow_of_below (by decide +kernel) (by decide +kernel)
  have h₁ : twins.resolve (Path.ofText "w".toList) = .ok ["w".toList] := by decide +kernel
  have h₂ : twins.resolve (Path.ofText "Models".toList) = .ok ["Models".toList] := by
    decide +kernel
  have hname : ['.', '.'] ∉ fileSteps "P".toList := by decide +kernel
  refine ⟨hsame, fun hagree => ?_⟩
  have hsame := (agree_iff hsame h₁ h₂ hname .usual).2.1.1 hagree _ namesFound_twins
  exact absurd hsame (by decide +kernel)

end RazorViews.Search
