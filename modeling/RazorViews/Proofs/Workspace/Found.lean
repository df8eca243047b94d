import RazorViews.Proofs.Text.Lines
import RazorViews.Proofs.Workspace.Proper
import RazorViews.Proofs.Workspace.Selection

/-!
# What a search finds

A search for the file of a class goes through several patterns for folders, one after another, and
answers with the first of them that finds anything.  The first pattern leads to every folder, so it
finds all there is, and the patterns behind it never decide.

## What is proved

`find_named` says of every tree, every name of a class without a slash, wildcard characters or not,
and any excluded folders, what is answered and when the search is refused.

* It is refused exactly if it would ask the system for a name that no entry can have
  (`AsksTooMuch`): for one on the way to its root, or, below a folder, for the file of the class.
  Nothing is there to be found then.
* Otherwise it finds the files whose name is that of the class with its ending, below its root and
  with no excluded folder between root and file (`IsNamed`), and nothing else; each once, and in
  order.
* Whatever patterns follow the first one, the answer is the same.

That it may be refused is a matter of 256 characters: `not_find_longName`.

## The hypotheses

The tree is proper (`Proper`): what is in a folder has a name that an entry can have, and stands in
a folder.  Trees are without links, and names on the way to the root may be any.  Wildcards in the
name of a class stand for themselves, so a class called `[P]` is not found in the file of `P`
(`find_named_wildcards`).

## What it is not

A name is asked for only where it is not compared with the names in a folder, that is where it has
no wildcard, and a name with a null character is not asked for at all; such names are found nowhere,
and no search for them is refused.  Lengths of whole paths and depths of trees have no bounds here,
though a system sets some.

## The proof

The pattern for any depth covers every chain of folders (`covers_anyDepth`), so a hit of any other
pattern is one of its hits (`hits_subset`).
-/

namespace RazorViews.Search

open RazorViews.Path

variable {t : Tree} {l : Location} {root : Path} {excluded names : List Text}
  {className file : Text} {pattern : List PatternStep}

/-! ## Patterns -/

theorem someEnd_of_nil {α : Type} {test : List α → Bool} (h : test [] = true) (as : List α) :
    someEnd test as = true := by
  induction as with
  | nil => exact h
  | cons a as ih => rw [someEnd, ih, Bool.or_true]

/-- Any chain of folders is covered by the first pattern. -/
theorem covers_anyDepth (names : List Text) : covers [.anyDepth] names = true :=
  someEnd_of_nil rfl names

theorem isHit_of_isHit {steps : List Text} (h : isHit t l excluded steps pattern names = true) :
    isHit t l excluded steps [.anyDepth] names = true := by
  rw [isHit, Bool.and_assoc, Bool.and_eq_true] at h
  rw [isHit, covers_anyDepth, Bool.and_assoc, Bool.true_and]
  exact h.2

/-! ## The file of a class -/

/-- The name of the file of a class. -/
def fileName (className : Text) : Text := className ++ ".cs".toList

theorem getLast?_fileName (className : Text) : (fileName className).getLast? = some 's' := by
  rw [fileName, List.getLast?_append_of_ne_nil _ (by decide)]
  rfl

theorem fileName_ne_up (className : Text) : fileName className ≠ ['.', '.'] := by
  intro h
  have hlast := getLast?_fileName className
  rw [h] at hlast
  exact absurd hlast (by decide)

/-- The name of a class without a slash is the name of one file. -/
theorem fileSteps_eq (h : '/' ∉ className) : fileSteps className = [fileName className] := by
  have hslash : '/' ∉ fileName className := List.not_mem_append h (by decide)
  have hstep : isStep (fileName className) = true := by
    have hlast := getLast?_fileName className
    have hempty : fileName className ≠ [] := by
      rintro hnil
      rw [hnil] at hlast
      exact absurd hlast (by decide)
    have hdot : fileName className ≠ ['.'] := by
      intro hdot
      rw [hdot] at hlast
      exact absurd hlast (by decide)
    simp [isStep, hempty, hdot]
  rw [fileSteps, stepsOf, ← fileName, Text.splitAt_of_notMem hslash, List.filter_singleton, hstep]
  rfl

/-- The names lead from a folder to a file of a name, through no folder that is excluded. -/
def LeadsToNamed (t : Tree) (l : Location) (excluded : List Text) (file : Text)
    (names : List Text) : Prop :=
  ∃ folders content, names = folders ++ [file] ∧ t.get? (l ++ names) = some (.file content) ∧
    ∀ folder ∈ folders, folder ∉ excluded

theorem leadsToFile_iff (ht : t.Proper) (hfile : file ≠ ['.', '.']) (l : Location) :
    leadsToFile t l [file] = true ↔ ∃ content, t.get? (l ++ [file]) = some (.file content) := by
  rw [leadsToFile]
  constructor
  · intro h
    cases hwalk : t.walk l [file] with
    | error cause =>
      rw [hwalk] at h
      exact absurd h (by simp)
    | ok reached =>
      rw [hwalk] at h
      obtain ⟨-, ⟨hup, -⟩ | ⟨-, hreached⟩⟩ := Tree.walk_cons hwalk
      · exact absurd hup hfile
      · obtain rfl := Except.ok.inj hreached
        obtain ⟨n, hn, hnode⟩ := (Option.any_eq_true _ _).1 h
        cases n with
        | folder => exact absurd hnode (by decide)
        | file content => exact ⟨content, hn⟩
  · rintro ⟨content, hget⟩
    have hsome : (t.get? (l ++ [file])).isSome = true := by rw [hget]; rfl
    rw [Tree.walk_plain (ht.rooted l file hsome) (ht.plain l file hsome), Tree.walk]
    dsimp only
    rw [hget]
    rfl

theorem mem_namesHit (ht : t.Proper) (hfile : file ≠ ['.', '.']) :
    names ∈ namesHit t l excluded [file] [.anyDepth] ↔ LeadsToNamed t l excluded file names := by
  have hhit : ∀ folders, isHit t l excluded [file] [.anyDepth] folders = true ↔
      (∃ content, t.get? (l ++ (folders ++ [file])) = some (.file content)) ∧
        ∀ folder ∈ folders, folder ∉ excluded := by
    intro folders
    rw [isHit, covers_anyDepth, Bool.true_and, Bool.and_eq_true, leadsToFile_iff ht hfile,
      List.append_assoc]
    simp
  rw [namesHit, mem_sortNames, List.mem_map]
  constructor
  · rintro ⟨folders, hmem, rfl⟩
    obtain ⟨⟨content, hget⟩, hexcluded⟩ := (hhit folders).1 (List.mem_filter.1 hmem).2
    exact ⟨folders, content, rfl, hget, hexcluded⟩
  · rintro ⟨folders, content, rfl, hget, hexcluded⟩
    refine ⟨folders, List.mem_filter.2 ⟨?_, (hhit folders).2 ⟨⟨content, hget⟩, hexcluded⟩⟩, rfl⟩
    rw [← List.append_assoc] at hget
    have hfolder := ht.rooted _ file (by rw [hget]; rfl)
    rw [mem_foldersBelow]
    exact (Decidable.em (folders = [])).imp_right fun hne => ⟨hne, hfolder⟩

/-! ## The order of what is found -/

theorem pairwise_hits (t : Tree) (l : Location) (root : Path) (excluded steps : List Text)
    (pattern : List PatternStep) :
    (hits t l root excluded steps pattern).Pairwise fun p q => before p q = true := by
  have hnodup : (((foldersBelow t l).filter (isHit t l excluded steps pattern)).map
      (· ++ steps)).Nodup :=
    ((nodup_foldersBelow t l).filter _).map fun _ _ h => List.append_cancel_right h
  rw [hits_eq, List.pairwise_map]
  refine (pairwise_sortNames hnodup).imp fun h => ?_
  rwa [before, parts_below, parts_below, partsBefore_append]

/-! ## The first pattern decides -/

/-- The later patterns find nothing that the first one does not find. -/
theorem hits_subset {steps : List Text} {pattern : List PatternStep} :
    hits t l root excluded steps pattern ⊆ hits t l root excluded steps [.anyDepth] := by
  intro p hp
  rw [hits_eq, List.mem_map] at hp ⊢
  obtain ⟨names, hnames, rfl⟩ := hp
  refine ⟨names, ?_, rfl⟩
  rw [namesHit, mem_sortNames, List.mem_map] at hnames ⊢
  obtain ⟨folders, hmem, rfl⟩ := hnames
  rw [List.mem_filter] at hmem
  exact ⟨folders, List.mem_filter.2 ⟨hmem.1, isHit_of_isHit hmem.2⟩, rfl⟩

theorem firstNonEmpty_of_subset {α : Type} {first : List α} {rest : List (List α)}
    (h : ∀ as ∈ rest, as ⊆ first) : firstNonEmpty (first :: rest) = first := by
  cases first with
  | cons a as => rfl
  | nil =>
    refine List.eq_nil_iff_forall_not_mem.2 fun a ha => ?_
    obtain ⟨as, has, ha⟩ := mem_of_mem_firstNonEmpty ha
    rcases List.mem_cons.1 has with rfl | has
    · exact List.not_mem_nil ha
    · exact List.not_mem_nil (h as has ha)

theorem firstNonEmpty_hits (t : Tree) (l : Location) (root : Path) (excluded steps : List Text)
    (later : List (List PatternStep)) :
    firstNonEmpty (([.anyDepth] :: later).map (hits t l root excluded steps)) =
      hits t l root excluded steps [.anyDepth] := by
  refine firstNonEmpty_of_subset fun files hfiles => ?_
  obtain ⟨pattern, -, rfl⟩ := List.mem_map.1 hfiles
  exact hits_subset

/-! ## The search -/

/-- Asking for a name is refused if it is too long. -/
theorem refusalAlong?_file (hfile : file ≠ ['.', '.']) (t : Tree) (l : Location) (p : Path) :
    refusalAlong? t l p [file] =
      if isAskedTooLong file then some ⟨.nameTooLong, (p.below [file]).toText⟩ else none := by
  have hup : ¬ (file == ['.', '.']) = true := by simpa using hfile
  rw [refusalAlong?, if_neg hup]
  split
  · rfl
  · split
    · rfl
    · rfl

/-- The question is the same in every folder, so the first folder decides. -/
theorem refusal?_file (hfile : file ≠ ['.', '.']) (t : Tree) (l : Location) (root : Path) :
    refusal? t l root [file] =
      if isAskedTooLong file then some ⟨.nameTooLong, (root.below [file]).toText⟩ else none := by
  have hsame : ∀ names,
      refusalAlong? t (l ++ names) (root.append ⟨.here, names⟩) [file] = _ :=
    fun names => refusalAlong?_file hfile t (l ++ names) (root.below names)
  rw [refusal?, funext hsame]
  split
  · rw [foldersBelow, List.findSome?_cons, below_nil]
  · rw [List.findSome?_eq_none_iff]
    exact fun _ _ => rfl

/-- What a search below a folder answers. -/
theorem find_of_folder (h : t.resolve root = .ok l) (hl : t.get? l = some .folder)
    (settings : SearchSettings) (className : Text) :
    find t settings className root =
      match refusal? t l root (fileSteps className) with
      | some e => .error e
      | none => .ok (hits t l root settings.excludedFolders (fileSteps className) [.anyDepth]) := by
  have hfolder : t.isFolder root = .ok true := Tree.isFolder_ok_true_iff.2 ⟨l, h, hl⟩
  rw [find, hfolder, ← firstNonEmpty_hits t l root settings.excludedFolders (fileSteps className)
    patterns.tail]
  simp only [bind, Except.bind, h, if_true]
  cases refusal? t l root (fileSteps className) with
  | some e => rfl
  | none => rfl

/-- Only a name that is too long keeps a search from asking whether its root is a folder. -/
theorem isFolder_error_iff {e : SystemError} :
    t.isFolder root = .error e ↔
      t.resolve root = .error .nameTooLong ∧ e = ⟨.nameTooLong, root.toText⟩ := by
  cases hresolve : t.resolve root with
  | ok l =>
    have hok : t.isFolder root = .ok ((t.get? l).any Tree.isFolderNode) :=
      Tree.asks_of_resolve hresolve _
    simp [hok]
  | error cause =>
    have hstatus : t.status root = .error cause := by rw [Tree.status, hresolve]; rfl
    rw [Tree.isFolder, Tree.asks, hstatus]
    cases cause with
    | nameTooLong => simp [eq_comm]
    | _ => simp

/-- A path is that of a file of a name below the root of a search, and no folder between the two is
excluded. -/
def IsNamed (t : Tree) (root : Path) (excluded : List Text) (file : Text) (p : Path) : Prop :=
  ∃ l names, t.resolve root = .ok l ∧ LeadsToNamed t l excluded file names ∧ p = root.below names

/-- A search would ask for a name that no entry can have: for one on the way to its root, or below a
folder for that of the file. -/
def AsksTooMuch (t : Tree) (root : Path) (file : Text) : Prop :=
  t.resolve root = .error .nameTooLong ∨
    t.isFolder root = .ok true ∧ isAskedTooLong file = true

/-- A file below a location makes the location a folder, and its name is one an entry can have. -/
theorem of_leadsToNamed (ht : t.Proper) (h : LeadsToNamed t l excluded file names) :
    t.get? l = some .folder ∧ Utf8.size file ≤ Tree.maxNameBytes := by
  obtain ⟨folders, content, rfl, hget, -⟩ := h
  refine ⟨ht.rooted.folder (by simp) hget, ?_⟩
  rw [← List.append_assoc] at hget
  exact (ht.plain _ file (by rw [hget]; rfl)).size_le

/-- Nothing is asked for in vain: a search that asks too much would find nothing. -/
theorem not_isNamed (ht : t.Proper) (h : AsksTooMuch t root file) (p : Path) :
    ¬ IsNamed t root excluded file p := by
  rintro ⟨l, names, hl, hnames, -⟩
  rcases h with hlong | ⟨-, hasked⟩
  · rw [hl] at hlong
    exact absurd hlong (by simp)
  · simp only [isAskedTooLong, Bool.and_eq_true, decide_eq_true_eq] at hasked
    exact absurd (of_leadsToNamed ht hnames).2 (Nat.not_le.2 hasked.1.1)

theorem mem_hits_iff (ht : t.Proper) (hfile : file ≠ ['.', '.']) (hl : t.resolve root = .ok l)
    (p : Path) :
    p ∈ hits t l root excluded [file] [.anyDepth] ↔ IsNamed t root excluded file p := by
  rw [hits_eq, List.mem_map]
  constructor
  · rintro ⟨names, hnames, rfl⟩
    exact ⟨l, names, hl, (mem_namesHit ht hfile).1 hnames, rfl⟩
  · rintro ⟨l', names, hl', hnames, rfl⟩
    obtain rfl := Except.ok.inj (hl.symm.trans hl')
    exact ⟨names, (mem_namesHit ht hfile).2 hnames, rfl⟩

theorem find_of_asksTooMuch (hname : '/' ∉ className) (h : AsksTooMuch t root (fileName className))
    (settings : SearchSettings) :
    ∃ about, find t settings className root = .error ⟨.nameTooLong, about⟩ := by
  rcases h with hlong | ⟨hfolder, hasked⟩
  · refine ⟨root.toText, ?_⟩
    rw [find, isFolder_error_iff.2 ⟨hlong, rfl⟩]
    rfl
  · obtain ⟨l, hl, htop⟩ := Tree.isFolder_ok_true_iff.1 hfolder
    refine ⟨(root.below [fileName className]).toText, ?_⟩
    rw [find_of_folder hl htop, fileSteps_eq hname, refusal?_file (fileName_ne_up className),
      if_pos hasked]

/-- Where the root is no folder, nothing is found, and there is nothing to find. -/
theorem find_of_not_folder (ht : t.Proper) (h : t.isFolder root = .ok false)
    (settings : SearchSettings) (className : Text) :
    find t settings className root = .ok [] ∧ ∀ p, ¬ IsNamed t root excluded file p := by
  refine ⟨by rw [find, h]; rfl, ?_⟩
  rintro p ⟨l, names, hl, hnames, -⟩
  have hfolder := Tree.isFolder_ok_true_iff.2 ⟨l, hl, (of_leadsToNamed ht hnames).1⟩
  rw [h] at hfolder
  exact absurd hfolder (by simp)

/-- A search finds the files of the name of the class below its root, each once and in order, as
far as no folder on the way to them is excluded; and whatever patterns follow the first one make no
difference.  It is refused where it would ask for a name that no entry can have, and then there is
nothing to find. -/
theorem find_named (ht : t.Proper) (hname : '/' ∉ className) (settings : SearchSettings)
    (root : Path) :
    (AsksTooMuch t root (fileName className) →
      (∃ about, find t settings className root = .error ⟨.nameTooLong, about⟩) ∧
      ∀ p, ¬ IsNamed t root settings.excludedFolders (fileName className) p) ∧
    (¬ AsksTooMuch t root (fileName className) →
      ∃ files, find t settings className root = .ok files ∧
        (∀ p, p ∈ files ↔ IsNamed t root settings.excludedFolders (fileName className) p) ∧
        files.Nodup ∧
        files.Pairwise (fun p q => before p q = true) ∧
        ∀ l, t.resolve root = .ok l → t.get? l = some .folder → ∀ later,
          firstNonEmpty (([.anyDepth] :: later).map
            (hits t l root settings.excludedFolders (fileSteps className))) = files) := by
  refine ⟨fun h => ⟨find_of_asksTooMuch hname h settings, not_isNamed ht h⟩, fun h => ?_⟩
  rw [AsksTooMuch, not_or] at h
  obtain ⟨hshort, hasked⟩ := h
  cases hfolder : t.isFolder root with
  | error e => exact absurd (isFolder_error_iff.1 hfolder).1 hshort
  | ok folder =>
    cases folder with
    | false =>
      obtain ⟨hfind, hnone⟩ := find_of_not_folder ht hfolder settings className
      refine ⟨[], hfind, fun p => iff_of_false List.not_mem_nil (hnone p), List.nodup_nil,
        List.Pairwise.nil, ?_⟩
      intro l hl htop
      rw [Tree.isFolder_ok_true_iff.2 ⟨l, hl, htop⟩] at hfolder
      exact absurd hfolder (by simp)
    | true =>
      obtain ⟨l, hl, htop⟩ := Tree.isFolder_ok_true_iff.1 hfolder
      have hsorted := pairwise_hits t l root settings.excludedFolders (fileSteps className)
        [.anyDepth]
      refine ⟨_, ?_, ?_, ?_, hsorted, ?_⟩
      · rw [find_of_folder hl htop, fileSteps_eq hname, refusal?_file (fileName_ne_up className),
          if_neg fun h => hasked ⟨hfolder, h⟩]
      · rw [fileSteps_eq hname]
        exact mem_hits_iff ht (fileName_ne_up className) hl
      · refine hsorted.imp fun hbefore heq => ?_
        rw [heq, before_irrefl] at hbefore
        exact absurd hbefore (by simp)
      · intro l' hl' _ later
        obtain rfl := Except.ok.inj (hl.symm.trans hl')
        exact firstNonEmpty_hits ..

/-- A folder with a file that has wildcards in its name, another file that these would match, and a
folder that is excluded, with a file of the same name. -/
def wildcards : Tree :=
  ["w/[P].cs", "w/P.cs", "w/bin/[P].cs"].foldl
    (fun t file => (t.storeFile (ofText file.toList) []).1) (Tree.empty [])

theorem proper_wildcards : wildcards.Proper :=
  (((Tree.proper_empty []).storeFile _ _).storeFile _ _).storeFile _ _

theorem find_named_wildcards :
    wildcards.Proper ∧ '/' ∉ "[P]".toList ∧
    ∃ files, find wildcards .usual "[P]".toList (ofText "w".toList) = .ok files ∧
      ofText "w/[P].cs".toList ∈ files ∧ ofText "w/P.cs".toList ∉ files ∧
      ofText "w/bin/[P].cs".toList ∉ files := by
  have hname : '/' ∉ "[P]".toList := by decide
  have hresolve : wildcards.resolve (ofText "w".toList) = .ok ["w".toList] := by decide +kernel
  obtain ⟨files, hfind, hmem, -⟩ :=
    (find_named proper_wildcards hname .usual (ofText "w".toList)).2 (by
      rintro (hlong | ⟨-, hasked⟩)
      · rw [hresolve] at hlong
        exact absurd hlong (by simp)
      · exact absurd hasked (by decide +kernel))
  -- the names behind the root are read off the parts of the path
  have hnames : ∀ p, IsNamed wildcards (ofText "w".toList) SearchSettings.usual.excludedFolders
      (fileName "[P]".toList) p →
      ∃ folders, p.parts = "w".toList :: (folders ++ ["[P].cs".toList]) ∧
        ∀ folder ∈ folders, folder ∉ SearchSettings.usual.excludedFolders := by
    rintro p ⟨l, names, -, ⟨folders, -, rfl, -, hexcluded⟩, rfl⟩
    exact ⟨folders, parts_below _ _, hexcluded⟩
  refine ⟨proper_wildcards, hname, files, hfind, ?_, ?_, ?_⟩
  · exact (hmem _).2 ⟨["w".toList], ["[P].cs".toList], hresolve,
      ⟨[], [], rfl, by decide +kernel, by simp⟩, by decide +kernel⟩
  · intro hfound
    obtain ⟨folders, hparts, -⟩ := hnames _ ((hmem _).1 hfound)
    have hlast := congrArg List.getLast? hparts
    rw [← List.cons_append, List.getLast?_concat] at hlast
    exact absurd hlast (by decide +kernel)
  · intro hfound
    obtain ⟨folders, hparts, hexcluded⟩ := hnames _ ((hmem _).1 hfound)
    have hfolders : ["bin".toList] = folders :=
      (List.append_inj' (List.cons.inj hparts).2 rfl).1
    exact hexcluded "bin".toList (by rw [← hfolders]; exact List.mem_cons_self) (by decide)

/-- A class with a name of 253 characters has a file name of 256, which no entry can have: nothing
is there to be found, yet the search is refused. -/
theorem not_find_longName :
    '/' ∉ List.replicate 253 'A' ∧
    (∀ p, ¬ IsNamed wildcards (ofText "w".toList) SearchSettings.usual.excludedFolders
      (fileName (List.replicate 253 'A')) p) ∧
    ∀ files, find wildcards .usual (List.replicate 253 'A') (ofText "w".toList) ≠ .ok files := by
  have hname : '/' ∉ List.replicate 253 'A' := fun h =>
    absurd (List.eq_of_mem_replicate h) (by decide)
  have hasks : AsksTooMuch wildcards (ofText "w".toList) (fileName (List.replicate 253 'A')) :=
    .inr ⟨by decide +kernel, by decide +kernel⟩
  refine ⟨hname, not_isNamed proper_wildcards hasks, fun files hfiles => ?_⟩
  obtain ⟨about, hrefused⟩ := find_of_asksTooMuch hname hasks .usual
  rw [hfiles] at hrefused
  exact absurd hrefused (by simp)

end RazorViews.Search
