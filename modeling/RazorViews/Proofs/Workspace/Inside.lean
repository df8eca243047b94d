import RazorViews.Proofs.Workspace.Order
import RazorViews.Proofs.Workspace.Project
import RazorViews.Proofs.Workspace.Proper

/-!
# Projects inside and outside of the workspace

A project is looked for in the workspace and in the folders directly in it, and before that in the
folders above the file that is open, if one is.

## What is proved

`root_inside_iff`: in every workspace that is a folder a project is found, and what is found is a
folder.  It is inside of the workspace if and only if

* the workspace or a folder directly in it has a project file (`HasProject`), or
* of the folders above the file that is open the nearest one with a project file, among those that
  are met before the workspace is met, is inside (`Nearest`); where there is none, or no file is
  open, the workspace itself is the answer.

So it is inside if the path of the file goes on from that of the workspace and never upwards.

Above the file the folders are gone through as the path is written: they are the beginnings of the
path, down to the one that is written like the workspace (`mem_upwards_iff`).  A path that leads
into the workspace on another way gets past it, and then what is nearest on it decides; with a step
upwards and down again the project above the workspace is found (`not_isInside_roundabout`).

## The hypotheses

The tree is proper, and the workspace is a folder of it.  Of the file nothing is assumed; it need
not be there.

## What it is not

Inside is said of where paths lead (`IsInside`), and not of how they are written.  A folder directly
in the workspace counts as well as the workspace, one further down does not.

## The proof

The places that are looked at stand in one list (`root_eq`), of which the first with a project file
is taken.  Places in the workspace are inside whatever they are (`isInside_of_mem`), so only the
folders above the file can lead outside.
-/

namespace RazorViews

/-! ## Beginnings of a path -/

namespace Path

variable {p q : Path}

/-- One path is a beginning of another, or all of it. -/
def OnWayTo (p q : Path) : Prop := p.root = q.root ∧ p.steps <+: q.steps

theorem OnWayTo.refl (p : Path) : p.OnWayTo p := ⟨rfl, List.prefix_refl p.steps⟩

theorem OnWayTo.antisymm (h : p.OnWayTo q) (h' : q.OnWayTo p) : p = q := by
  have hlength : p.steps.length = q.steps.length := le_antisymm h.2.length_le h'.2.length_le
  obtain ⟨start, steps⟩ := p
  obtain ⟨start', steps'⟩ := q
  exact Path.mk.injEq .. ▸ ⟨h.1, h.2.eq_of_length hlength⟩

/-- A proper beginning of a path is one of its parent. -/
theorem onWayTo_parent_iff (h : q.steps ≠ []) : p.OnWayTo q ↔ p = q ∨ p.OnWayTo q.parent := by
  obtain ⟨start, steps⟩ := p
  obtain ⟨start', steps'⟩ := q
  obtain ⟨front, last, rfl⟩ := List.eq_nil_or_concat steps' |>.resolve_left h
  simp only [OnWayTo, parent, List.concat_eq_append, List.dropLast_concat, List.prefix_concat_iff,
    Path.mk.injEq]
  rw [and_or_left]

end Path

namespace Project

open RazorViews.Path

variable {t : Tree} {l k : Location} {workspace folder p q : Path} {activeFile : Option Path}
  {name : Text} {names : List Text} {events : List Event}

/-! ## The way upwards -/

/-- A folder is met on the way upwards from another one before the workspace is met. -/
def Passed (workspace folder p : Path) : Prop :=
  p.steps ≠ [] ∧ p.OnWayTo folder ∧ ¬ (p.OnWayTo workspace ∧ workspace.OnWayTo folder)

theorem passed_parent_iff (hne : folder ≠ workspace) (hsteps : folder.steps ≠ []) :
    Passed workspace folder p ↔ p = folder ∨ Passed workspace folder.parent p := by
  constructor
  · rintro ⟨hp, hway, hnot⟩
    rcases (onWayTo_parent_iff hsteps).1 hway with heq | hparent
    · exact .inl heq
    · exact .inr ⟨hp, hparent, fun h => hnot ⟨h.1, (onWayTo_parent_iff hsteps).2 (.inr h.2)⟩⟩
  · rintro (rfl | ⟨hp, hparent, hnot⟩)
    · exact ⟨hsteps, .refl p, fun h => hne (h.1.antisymm h.2)⟩
    · refine ⟨hp, (onWayTo_parent_iff hsteps).2 (.inr hparent), fun h => ?_⟩
      rcases (onWayTo_parent_iff hsteps).1 h.2 with heq | hworkspace
      · exact hne heq.symm
      · exact hnot ⟨h.1, hworkspace⟩

theorem length_parent_le {levels : Nat} (h : folder.steps.length ≤ levels + 1) :
    folder.parent.steps.length ≤ levels := by
  rw [Path.parent, List.length_dropLast]
  omega

/-- The folders that are gone through, if there are levels enough to go through all of them. -/
theorem mem_upwards_iff {levels : Nat} (h : folder.steps.length ≤ levels) :
    p ∈ upwards workspace folder levels ↔ Passed workspace folder p := by
  induction levels generalizing folder with
  | zero =>
    have hsteps : folder.steps = [] := List.length_eq_zero_iff.1 (Nat.le_zero.1 h)
    refine iff_of_false List.not_mem_nil ?_
    rintro ⟨hp, hway, -⟩
    rw [OnWayTo, hsteps, List.prefix_nil] at hway
    exact hp hway.2
  | succ levels ih =>
    rw [upwards]
    split
    · rename_i hstop
      refine iff_of_false List.not_mem_nil ?_
      rintro ⟨hp, hway, hnot⟩
      rcases Bool.or_eq_true_iff.1 hstop with heq | hsteps
      · rw [beq_iff_eq] at heq
        subst heq
        exact hnot ⟨hway, .refl folder⟩
      · rw [OnWayTo, List.isEmpty_iff.1 hsteps, List.prefix_nil] at hway
        exact hp hway.2
    · rename_i hgo
      rw [Bool.or_eq_true, not_or, beq_iff_eq, List.isEmpty_iff] at hgo
      rw [List.mem_cons, ih (length_parent_le h), passed_parent_iff hgo.1 hgo.2]

/-- One goes upwards. -/
theorem pairwise_upwards {levels : Nat} (h : folder.steps.length ≤ levels) :
    (upwards workspace folder levels).Pairwise fun p q => q.OnWayTo p := by
  induction levels generalizing folder with
  | zero => exact List.Pairwise.nil
  | succ levels ih =>
    rw [upwards]
    split
    · exact List.Pairwise.nil
    · rename_i hgo
      rw [Bool.or_eq_true, not_or, beq_iff_eq, List.isEmpty_iff] at hgo
      have hlevels := length_parent_le h
      refine List.pairwise_cons.2 ⟨fun q hq => ?_, ih hlevels⟩
      exact (onWayTo_parent_iff hgo.2).2 (.inr ((mem_upwards_iff hlevels).1 hq).2.1)

/-! ## Folders with a project -/

/-- A project file stands in the folder that a path leads to. -/
def HoldsProject (t : Tree) (folder : Path) : Prop :=
  ∃ l name, t.resolve folder = .ok l ∧ (t.get? (l ++ [name])).isSome = true ∧
    name.endsWith ending = true

theorem mem_namesIn : name ∈ t.namesIn l ↔ (t.get? (l ++ [name])).isSome = true := by
  have hne : l ++ [name] ≠ [] := List.append_ne_nil_of_right_ne_nil l (List.cons_ne_nil name [])
  rw [Tree.namesIn, List.mem_filterMap, Option.isSome_iff_exists]
  constructor
  · rintro ⟨⟨k, n⟩, hmem, hname⟩
    dsimp only at hname
    split at hname
    · rename_i last hlast
      split at hname
      · rename_i hfront
        obtain rfl := Option.some.inj hname
        obtain rfl := beq_iff_eq.1 hfront
        refine ⟨n, (Tree.get?_eq_some_iff hne).2 ?_⟩
        rwa [List.dropLast_append_getLast? last hlast]
      · exact absurd hname (by simp)
    · exact absurd hname (by simp)
  · rintro ⟨n, hn⟩
    refine ⟨_, (Tree.get?_eq_some_iff hne).1 hn, ?_⟩
    dsimp only
    rw [List.getLast?_concat, List.dropLast_concat]
    exact if_pos (beq_self_eq_true l)

theorem mem_sortNames : name ∈ sortNames names ↔ name ∈ names :=
  (List.mergeSort_perm names _).mem_iff

/-- There is a first project file in a folder. -/
def hasFile (t : Tree) (folder : Path) : Bool := (projectFile? t folder).2.isSome

theorem hasFile_iff (hrooted : t.Rooted) : hasFile t folder = true ↔ HoldsProject t folder := by
  -- in a folder there is a first project file if there is any
  have hfirst : ∀ l, t.resolve folder = .ok l → t.get? l = some .folder →
      (hasFile t folder = true ↔
        ∃ name, (t.get? (l ++ [name])).isSome = true ∧ name.endsWith ending = true) := by
    intro l hl htop
    have hnames : namesIn t folder = t.namesIn l := by rw [namesIn, hl]
    rw [hasFile, projectFile?, Tree.isFolder_ok_true_iff.2 ⟨l, hl, htop⟩, hnames]
    dsimp only
    rw [Option.isSome_map, List.isSome_head?, ← List.length_pos_iff,
      List.length_pos_iff_exists_mem]
    exact exists_congr fun name => by rw [mem_sortNames, List.mem_filter, mem_namesIn]
  constructor
  · intro h
    obtain ⟨file, hfile⟩ := Option.isSome_iff_exists.1 h
    obtain ⟨l, hl, htop⟩ := Tree.isFolder_ok_true_iff.1 (isFolder_of_projectFile? hfile)
    obtain ⟨name, hname⟩ := (hfirst l hl htop).1 h
    exact ⟨l, name, hl, hname⟩
  · rintro ⟨l, name, hl, hsome, hending⟩
    exact (hfirst l hl (hrooted l name hsome)).2 ⟨name, hsome, hending⟩

theorem isFolder_of_holdsProject (hrooted : t.Rooted) (h : HoldsProject t folder) :
    t.isFolder folder = .ok true := by
  obtain ⟨l, name, hl, hsome, -⟩ := h
  exact Tree.isFolder_ok_true_iff.2 ⟨l, hl, hrooted l name hsome⟩

/-! ## What is found -/

theorem firstProject?_snd (t : Tree) (folders : List Path) :
    (firstProject? t folders).2 = folders.find? (hasFile t) := by
  induction folders with
  | nil => rfl
  | cons folder rest ih =>
    rw [firstProject?, List.find?_cons]
    split
    · rename_i events file hfile
      rw [hasFile, hfile]
      rfl
    · rename_i events hfile
      rw [hasFile, hfile]
      exact ih

theorem places_eq (t : Tree) (workspace : Path) (activeFile : Option Path) :
    places t workspace activeFile = (workspace :: subfolders t workspace) ++
      activeFile.elim [] fun file => upwards workspace file.parent file.steps.length := by
  cases activeFile with
  | none => rfl
  | some file => rfl

/-- In a workspace that is a folder the project is the first place with a project file, or else the
workspace. -/
theorem root_eq (h : t.isFolder workspace = .ok true) (activeFile : Option Path) :
    ∃ events, root t workspace activeFile =
      (events, .ok (((places t workspace activeFile).find? (hasFile t)).getD workspace)) := by
  rw [root, h, ← firstProject?_snd]
  dsimp only
  split
  · rename_i events folder hfound
    exact ⟨events, by rw [hfound]; rfl⟩
  · rename_i events hfound
    exact ⟨_, by rw [hfound]; rfl⟩

theorem root_found (h : t.isFolder workspace = .ok true)
    (hroot : root t workspace activeFile = (events, .ok p)) :
    p = ((places t workspace activeFile).find? (hasFile t)).getD workspace := by
  obtain ⟨events', hroot'⟩ := root_eq h activeFile
  exact Except.ok.inj (congrArg Prod.snd (hroot.symm.trans hroot'))

/-- The folder nearest above, and before the workspace is met, that holds a project file. -/
def Nearest (t : Tree) (workspace folder p : Path) : Prop :=
  Passed workspace folder p ∧ HoldsProject t p ∧
    ∀ q, Passed workspace folder q → HoldsProject t q → q.OnWayTo p

theorem Nearest.unique (h : Nearest t workspace folder p) (h' : Nearest t workspace folder q) :
    p = q :=
  (h'.2.2 p h.1 h.2.1).antisymm (h.2.2 q h'.1 h'.2.1)

theorem find?_upwards_iff (hrooted : t.Rooted) {levels : Nat}
    (hlevels : folder.steps.length ≤ levels) :
    (upwards workspace folder levels).find? (hasFile t) = some p ↔
      Nearest t workspace folder p := by
  have hnearest : ∀ p, (upwards workspace folder levels).find? (hasFile t) = some p →
      Nearest t workspace folder p := by
    intro p h
    obtain ⟨hp, nearer, rest, hsplit, hnone⟩ := List.find?_eq_some_iff_append.1 h
    have hpassed : ∀ {q}, q ∈ nearer ++ p :: rest ↔ Passed workspace folder q := by
      intro q
      rw [← hsplit, mem_upwards_iff hlevels]
    have hway : ∀ q ∈ rest, q.OnWayTo p := by
      have hpairwise : (nearer ++ p :: rest).Pairwise fun p q => q.OnWayTo p :=
        hsplit ▸ pairwise_upwards hlevels
      exact (List.pairwise_cons.1 (List.pairwise_append.1 hpairwise).2.1).1
    refine ⟨hpassed.1 (by simp), (hasFile_iff hrooted).1 hp, ?_⟩
    intro q hq hholds
    rcases List.mem_append.1 (hpassed.2 hq) with hmem | hmem
    · have hno := hnone q hmem
      rw [(hasFile_iff hrooted).2 hholds] at hno
      exact absurd hno (by decide)
    · rcases List.mem_cons.1 hmem with rfl | hmem
      · exact .refl q
      · exact hway q hmem
  refine ⟨hnearest p, fun h => ?_⟩
  have hsome : ((upwards workspace folder levels).find? (hasFile t)).isSome = true :=
    List.find?_isSome.2 ⟨p, (mem_upwards_iff hlevels).2 h.1, (hasFile_iff hrooted).2 h.2.1⟩
  obtain ⟨q, hq⟩ := Option.isSome_iff_exists.1 hsome
  rw [hq, (hnearest q hq).unique h]

/-! ## Inside of the workspace -/

/-- A path leads to the workspace or to something below it. -/
def IsInside (t : Tree) (workspace p : Path) : Prop :=
  ∃ l names, t.resolve workspace = .ok l ∧ t.resolve p = .ok (l ++ names)

/-- Without a step upwards a path leads below the workspace, to where its names say. -/
theorem resolve_below (hl : t.resolve workspace = .ok l) (hup : ['.', '.'] ∉ names)
    (h : t.resolve (workspace.below names) = .ok k) : k = l ++ names := by
  have hwalk : t.walk (t.origin workspace) (workspace.steps ++ names) = .ok k :=
    (Tree.resolve_ok h).2
  rw [Tree.walk_append, (Tree.resolve_ok hl).2] at hwalk
  exact (Tree.walk_down hwalk hup).2

theorem isInside_below (hworkspace : t.isFolder workspace = .ok true) (hup : ['.', '.'] ∉ names)
    (h : t.isFolder (workspace.below names) = .ok true) :
    IsInside t workspace (workspace.below names) := by
  obtain ⟨l, hl, -⟩ := Tree.isFolder_ok_true_iff.1 hworkspace
  obtain ⟨k, hk, -⟩ := Tree.isFolder_ok_true_iff.1 h
  exact ⟨l, names, hl, resolve_below hl hup hk ▸ hk⟩

/-- The workspace and the folders directly in it. -/
theorem mem_subfolders_iff (ht : t.Proper) (h : t.isFolder workspace = .ok true) :
    p ∈ subfolders t workspace ↔
      ∃ name, name ≠ ['.', '.'] ∧ p = workspace.below [name] ∧ t.isFolder p = .ok true := by
  obtain ⟨l, hl, -⟩ := Tree.isFolder_ok_true_iff.1 h
  have hnames : namesIn t workspace = t.namesIn l := by rw [namesIn, hl]
  rw [subfolders, List.mem_filter, List.mem_map, hnames]
  constructor
  · rintro ⟨⟨name, hname, rfl⟩, hfolder⟩
    have hplain := ht.plain l name (mem_namesIn.1 (mem_sortNames.1 hname))
    refine ⟨name, hplain.not_up, rfl, ?_⟩
    rw [beq_iff_eq] at hfolder
    cases hasked : t.isFolder (workspace.append ⟨.here, [name]⟩) with
    | error e => exact absurd (hasked ▸ hfolder) (by simp [Except.toOption])
    | ok folder =>
      rw [hasked] at hfolder
      exact (congrArg Except.ok (Option.some.inj hfolder)).trans rfl
  · rintro ⟨name, hup, rfl, hfolder⟩
    obtain ⟨k, hk, hfound⟩ := Tree.isFolder_ok_true_iff.1 hfolder
    obtain rfl := resolve_below hl (by simpa using Ne.symm hup) hk
    refine ⟨⟨name, mem_sortNames.2 (mem_namesIn.2 (by rw [hfound]; rfl)), rfl⟩, ?_⟩
    rw [hfolder]
    rfl

/-- A project file stands in the workspace or in a folder directly in it. -/
def HasProject (t : Tree) (workspace : Path) : Prop :=
  HoldsProject t workspace ∨
    ∃ name, name ≠ ['.', '.'] ∧ HoldsProject t (workspace.below [name])

theorem hasProject_iff (ht : t.Proper) (h : t.isFolder workspace = .ok true) :
    HasProject t workspace ↔ ∃ p ∈ workspace :: subfolders t workspace, HoldsProject t p := by
  rw [List.exists_mem_cons_iff, HasProject]
  refine or_congr_right ⟨?_, ?_⟩
  · rintro ⟨name, hup, hholds⟩
    exact ⟨_, (mem_subfolders_iff ht h).2
      ⟨name, hup, rfl, isFolder_of_holdsProject ht.rooted hholds⟩, hholds⟩
  · rintro ⟨p, hp, hholds⟩
    obtain ⟨name, hup, rfl, -⟩ := (mem_subfolders_iff ht h).1 hp
    exact ⟨name, hup, hholds⟩

theorem isInside_self (h : t.isFolder workspace = .ok true) : IsInside t workspace workspace := by
  obtain ⟨l, hl, -⟩ := Tree.isFolder_ok_true_iff.1 h
  exact ⟨l, [], hl, by rw [List.append_nil, hl]⟩

theorem isInside_of_mem (ht : t.Proper) (h : t.isFolder workspace = .ok true)
    (hp : p ∈ workspace :: subfolders t workspace) : IsInside t workspace p := by
  rcases List.mem_cons.1 hp with rfl | hp
  · exact isInside_self h
  · obtain ⟨name, hup, rfl, hfolder⟩ := (mem_subfolders_iff ht h).1 hp
    exact isInside_below h (by simpa using Ne.symm hup) hfolder

/-- What is found is inside of a workspace that has a project. -/
theorem isInside_of_hasProject (ht : t.Proper) (h : t.isFolder workspace = .ok true)
    (hproject : HasProject t workspace)
    (hroot : root t workspace activeFile = (events, .ok p)) : IsInside t workspace p := by
  obtain ⟨q, hq, hholds⟩ := (hasProject_iff ht h).1 hproject
  have hsome : ((workspace :: subfolders t workspace).find? (hasFile t)).isSome = true :=
    List.find?_isSome.2 ⟨q, hq, (hasFile_iff ht.rooted).2 hholds⟩
  obtain ⟨first, hfirst⟩ := Option.isSome_iff_exists.1 hsome
  have hfound := root_found h hroot
  rw [places_eq, List.find?_append, hfirst] at hfound
  rw [hfound]
  exact isInside_of_mem ht h (List.mem_of_find?_eq_some hfirst)

/-- In a workspace that has no project the folders above the file that is open decide, as far as
one goes upwards. -/
theorem nearest_or_workspace (ht : t.Proper) (h : t.isFolder workspace = .ok true)
    (hproject : ¬ HasProject t workspace)
    (hroot : root t workspace activeFile = (events, .ok p)) :
    (p = workspace ∧ ∀ file ∈ activeFile, ∀ q, ¬ Nearest t workspace file.parent q) ∨
      ∃ file ∈ activeFile, Nearest t workspace file.parent p := by
  have hnone : (workspace :: subfolders t workspace).find? (hasFile t) = none := by
    refine List.find?_eq_none.2 fun q hq hholds => ?_
    rw [hasFile_iff ht.rooted] at hholds
    exact hproject ((hasProject_iff ht h).2 ⟨q, hq, hholds⟩)
  have hfound := root_found h hroot
  rw [places_eq, List.find?_append, hnone, Option.none_or] at hfound
  cases activeFile with
  | none => exact .inl ⟨hfound, by simp⟩
  | some file =>
    have hlevels : file.parent.steps.length ≤ file.steps.length :=
      length_parent_le (Nat.le_succ _)
    rw [Option.elim_some] at hfound
    cases hnearest : (upwards workspace file.parent file.steps.length).find? (hasFile t) with
    | none =>
      rw [hnearest] at hfound
      refine .inl ⟨hfound, ?_⟩
      rintro _ ⟨⟩ q hq
      rw [(find?_upwards_iff ht.rooted hlevels).2 hq] at hnearest
      exact absurd hnearest (by simp)
    | some q =>
      rw [hnearest] at hfound
      rw [hfound]
      exact .inr ⟨file, rfl, (find?_upwards_iff ht.rooted hlevels).1 hnearest⟩

/-- From a path that goes on from that of the workspace, and never upwards, one stays inside. -/
theorem isInside_of_passed (h : t.isFolder workspace = .ok true) (hne : names ≠ [])
    (hup : ['.', '.'] ∉ names) (hp : Passed workspace (workspace.below names).parent p)
    (hfolder : t.isFolder p = .ok true) : IsInside t workspace p := by
  have hparent : (workspace.below names).parent = workspace.below names.dropLast := by
    obtain ⟨start, steps⟩ := workspace
    simp [below, append, parent, List.dropLast_append_of_ne_nil hne]
  rw [hparent] at hp
  obtain ⟨-, ⟨hstart, hway⟩, hnot⟩ := hp
  have hworkspace : workspace.OnWayTo (workspace.below names.dropLast) :=
    ⟨rfl, List.prefix_append _ _⟩
  -- of two beginnings of one path, one is a beginning of the other
  rcases List.prefix_or_prefix_of_prefix hway hworkspace.2 with hshort | ⟨front, hfront⟩
  · exact absurd ⟨⟨hstart, hshort⟩, hworkspace⟩ hnot
  · have hbelow : p = workspace.below front := by
      obtain ⟨start, steps⟩ := p
      exact Path.mk.injEq .. ▸ ⟨hstart, hfront.symm⟩
    subst hbelow
    refine isInside_below h (fun hmem => hup ?_) hfolder
    have hdown : front <+: names.dropLast := (List.prefix_append_right_inj _).1 hway
    exact List.dropLast_subset _ (hdown.subset hmem)

/-- In every workspace that is a folder a project is found, and it is a folder.  It is inside of
the workspace if and only if the workspace, or a folder directly in it, has a project file or, of
the folders above the file that is open, the nearest one with a project file is inside; for the way
upwards ends only at a path that is written like that of the workspace.  So the project is inside
if the path of the file goes on from that of the workspace and never upwards. -/
theorem root_inside_iff (ht : t.Proper) (h : t.isFolder workspace = .ok true)
    (activeFile : Option Path) :
    ∃ events project, root t workspace activeFile = (events, .ok project) ∧
      t.isFolder project = .ok true ∧
      (IsInside t workspace project ↔ HasProject t workspace ∨
        ∀ file ∈ activeFile, ∀ p, Nearest t workspace file.parent p → IsInside t workspace p) ∧
      ((∀ file ∈ activeFile, ∃ names, names ≠ [] ∧ ['.', '.'] ∉ names ∧
        file = workspace.below names) → IsInside t workspace project) := by
  obtain ⟨events, project, hroot⟩ := exists_root_iff.2 h
  refine ⟨events, project, hroot, isFolder_root hroot, ?_⟩
  by_cases hproject : HasProject t workspace
  · have hinside := isInside_of_hasProject ht h hproject hroot
    exact ⟨iff_of_true hinside (.inl hproject), fun _ => hinside⟩
  rcases nearest_or_workspace ht h hproject hroot with ⟨rfl, hnone⟩ | ⟨file, hfile, hnearest⟩
  · have hinside := isInside_self h
    exact ⟨iff_of_true hinside (.inr fun file hfile p hp => absurd hp (hnone file hfile p)),
      fun _ => hinside⟩
  · refine ⟨⟨fun hinside => .inr fun file' hfile' p hp => ?_, ?_⟩, fun hbelow => ?_⟩
    · obtain rfl := Option.mem_unique hfile hfile'
      rwa [hp.unique hnearest]
    · rintro (hproject' | hall)
      · exact absurd hproject' hproject
      · exact hall file hfile project hnearest
    · obtain ⟨names, hne, hup, rfl⟩ := hbelow file hfile
      exact isInside_of_passed h hne hup hnearest.1
        (isFolder_of_holdsProject ht.rooted hnearest.2.1)

/-! ## Past the workspace -/

/-- A workspace without a project file, in a folder with one. -/
def solution : Tree :=
  [(["s".toList], Node.folder), (["s".toList, "Sol.csproj".toList], .file []),
    (["s".toList, "w".toList], .folder), (["s".toList, "w".toList, "C.cs".toList], .file [])].foldl
      (fun t e => t.insert e.1 e.2) (Tree.empty [])

/-- With the path of a file written in the workspace one stays in the workspace. -/
theorem root_inside_solution :
    solution.Proper ∧ solution.isFolder (ofText "s/w".toList) = .ok true ∧
    ∃ events project, root solution (ofText "s/w".toList) (some (ofText "s/w/C.cs".toList)) =
      (events, .ok project) ∧ IsInside solution (ofText "s/w".toList) project := by
  have hproper : solution.Proper := Tree.proper_of_entries (by decide +kernel) (by decide +kernel)
  have hfolder : solution.isFolder (ofText "s/w".toList) = .ok true := by decide +kernel
  obtain ⟨events, project, hroot, -, -, hinside⟩ :=
    root_inside_iff hproper hfolder (some (ofText "s/w/C.cs".toList))
  refine ⟨hproper, hfolder, events, project, hroot, hinside ?_⟩
  rintro _ ⟨⟩
  exact ⟨["C.cs".toList], by decide, by decide, by decide⟩

/-- The same file with another path: a step upwards and down again leads past the workspace, to the
project above it. -/
theorem not_isInside_roundabout :
    ∃ events project, root solution (ofText "s/w".toList) (some (ofText "s/w/../w/C.cs".toList)) =
      (events, .ok project) ∧
      solution.resolve (ofText "s/w/../w/C.cs".toList) =
        .ok ["s".toList, "w".toList, "C.cs".toList] ∧
      project = ofText "s/w/..".toList ∧ ¬ IsInside solution (ofText "s/w".toList) project := by
  have hfolder : solution.isFolder (ofText "s/w".toList) = .ok true := by decide +kernel
  have hworkspace : solution.resolve (ofText "s/w".toList) = .ok ["s".toList, "w".toList] := by
    decide +kernel
  have habove : solution.resolve (ofText "s/w/..".toList) = .ok ["s".toList] := by decide +kernel
  have hfound : (places solution (ofText "s/w".toList)
      (some (ofText "s/w/../w/C.cs".toList))).find? (hasFile solution) =
        some (ofText "s/w/..".toList) := by
    decide +kernel
  obtain ⟨events, hroot⟩ := root_eq hfolder (some (ofText "s/w/../w/C.cs".toList))
  rw [hfound] at hroot
  refine ⟨events, _, hroot, by decide +kernel, rfl, ?_⟩
  rintro ⟨l, names, hl, hbelow⟩
  rw [Option.getD_some, habove] at hbelow
  obtain rfl := Except.ok.inj (hworkspace.symm.trans hl)
  have hlength := congrArg List.length (Except.ok.inj hbelow)
  simp only [List.length_append, List.length_cons, List.length_nil] at hlength
  omega

end Project

end RazorViews
