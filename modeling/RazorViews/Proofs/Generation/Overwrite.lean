import RazorViews.Proofs.Generation.Extracted
import RazorViews.Proofs.Generation.Views
import RazorViews.Proofs.Workspace.Project
import RazorViews.Proofs.Workspace.Selection
import RazorViews.Proofs.Workspace.Straight

/-!
# Views that must not be replaced

The views for a model are asked for without leave to replace any.  They are written one after
another, up to the first one that is there already.

## What is proved

`modelViews_kept` compares such a run with one from the same beginning that has leave to replace.

* All views are written if and only if none of them is there.
* Whatever was there before is there unchanged, whether they are written or not.
* What is new are the views in front of the first one that is there, each with the content that the
  other run gives it, and the folders above them that were missing.  Nothing else is.
* It is that first view which the failure names.

## The hypotheses

* The run gets as far as the views (`Called`): there is a workspace with its project, the properties
  of the model can be extracted, and the controller is named by one segment of a path.  The lists in
  the cache are extracted ones, as they are whatever calls there have been (`isExtracted_after`), so
  that every view can be printed.
* Nothing but a view that is there can stop it (`Granted`): each is there or can be stored.
* The path to the views is straight: no step upwards stands behind a folder that is yet to be made.

Without the last one a view may be replaced.  On the path `a/../Views` nothing is found as long as
there is no folder `a`; the first view that is written makes this folder, and by then it is too late
to find the others (`not_kept_roundabout`).

## The proof

Storing a file in a folder that can hold it changes that file and makes folders above it
(`Extends`), so whether another view is there is the same behind it as in front of it.  A run is
then one of storing files under different names (`modelViews_run`), and the first view that is there
parts the kinds of views in two (`modelViews_stop`).
-/

namespace RazorViews.Generation

open RazorViews.Tree

variable {settings : Settings} {project : Path} {request : ModelViews}
  {properties : List Property} {s : Session} {F : Location}

/-! ## Circumstances -/

/-- The views for a model are asked for: there is a workspace, with its project, the model has been
extracted, the lists in the cache being extracted ones too, and the controller is named by a segment
of a path. -/
structure Called (settings : Settings) (project : Path) (request : ModelViews)
    (properties : List Property) (s : Session) : Prop where
  workspace : request.workspace ≠ []
  root : ∃ events, Project.root s.tree (Path.ofText request.workspace) none = (events, .ok project)
  model : (Text.trim request.modelType).isEmpty = false
  extracted : (propertiesOf settings project request.modelType s).2 = .ok properties
  cached : s.store.IsExtracted
  controller : ∃ name, request.controller = some name ∧ Path.ofText name = ⟨.here, [name]⟩ ∧
    name ≠ ['.', '.']

/-- Nothing but a view that is there can stop the views from being written: every view is there or
can be stored. -/
structure Granted (settings : Settings) (project : Path) (request : ModelViews)
    (properties : List Property) (s : Session) : Prop
    extends Called settings project request properties s where
  rooted : s.tree.Rooted
  writable : ∀ kind ∈ ViewKind.forModel,
    s.tree.isThere (target settings project request kind) = .ok true ∨
      ∃ content, (s.tree.storeFile (target settings project request kind) content).2 = .ok ()
  straight : s.tree.Straight (viewFolder settings project)

/-- Leave to replace views has no part in this. -/
theorem Granted.withOverwrite (h : Granted settings project request properties s)
    (overwrite : Bool) :
    Granted settings project { request with overwrite := overwrite } properties s :=
  ⟨⟨h.workspace, h.root, h.model, h.extracted, h.cached, h.controller⟩, h.rooted, h.writable,
    h.straight⟩

theorem Called.controllerName (h : Called settings project request properties s) :
    Path.ofText request.controllerName = ⟨.here, [request.controllerName]⟩ ∧
      request.controllerName ≠ ['.', '.'] ∧ request.controllerName ≠ [] := by
  obtain ⟨name, hname, hsegment, hup⟩ := h.controller
  have hne : name ≠ [] := by
    rintro rfl
    exact absurd (congrArg Path.steps hsegment) (by decide)
  have hsame : request.controllerName = name := by
    rw [ModelViews.controllerName, hname]
    dsimp only
    rw [List.isEmpty_eq_false_iff.2 hne]
    rfl
  rw [hsame]
  exact ⟨hsegment, hup, hne⟩

theorem Called.noFaults (h : Called settings project request properties s) (kind : ViewKind) :
    (request.options kind).emptyNameFaults = [] := by
  have haction : kind.action ≠ [] := by
    cases kind <;> decide
  have hall : ∀ t ∈ [request.workspace, request.controllerName, kind.action],
      t.isEmpty = false := by
    simp only [List.forall_mem_cons, List.isEmpty_eq_false_iff]
    exact ⟨h.workspace, h.controllerName.2.2, haction, by simp⟩
  rw [ViewOptions.emptyNameFaults, List.filterMap_eq_nil_iff]
  rintro ⟨key, t⟩ hmem
  have ht : t.isEmpty = false := hall t (List.mem_map_of_mem (f := Prod.snd) hmem)
  dsimp only
  rw [if_neg (by rw [ht]; exact Bool.false_ne_true)]

/-- The properties come from a source, so the views for the model can be printed. -/
theorem Called.canPrint (h : Called settings project request properties s) (kind : ViewKind) :
    Page.CanPrint properties kind := by
  have hresult : Extraction.Call.result ⟨settings.search, s.surroundings, request.modelType,
      project.toText⟩ s.store = .ok properties := by
    have hextracted := h.extracted
    rw [propertiesOf, if_neg (by rw [h.model]; exact Bool.false_ne_true)] at hextracted
    exact hextracted
  intro _ p hp _ _ _
  exact Extraction.Call.isPrintable_of_result h.cached hresult p hp

/-! ## The folder of the views -/

theorem Called.origin (h : Called settings project request properties s) :
    s.tree.get? (s.tree.origin (viewFolder settings project)) = some .folder := by
  obtain ⟨events, hroot⟩ := h.root
  obtain ⟨L, hresolve, hL⟩ := isFolder_ok_true_iff.1 (Project.isFolder_root hroot)
  obtain ⟨-, hwalk⟩ := resolve_ok hresolve
  have hproject : s.tree.get? (s.tree.origin project) = some .folder := by
    cases hsteps : project.steps with
    | nil =>
      rw [hsteps] at hwalk
      rw [Except.ok.inj hwalk]
      exact hL
    | cons step steps =>
      rw [hsteps] at hwalk
      exact (walk_cons hwalk).1
  rw [viewFolder, Path.child, Path.append]
  split
  · exact hproject
  · rename_i hrooted
    have htop : s.tree.origin (Path.ofText settings.viewFolder) = [] := by
      rw [Tree.origin, if_neg hrooted]
    rw [htop]
    rfl

theorem controllerFolder_eq {controller : Text}
    (h : Path.ofText controller = ⟨.here, [controller]⟩) :
    controllerFolder settings project controller =
      ⟨(viewFolder settings project).root,
        (viewFolder settings project).steps ++ [controller]⟩ := by
  rw [controllerFolder, Path.child, h]
  rfl

theorem Granted.straightController (h : Granted settings project request properties s) :
    s.tree.Straight (controllerFolder settings project request.controllerName) := by
  obtain ⟨hsegment, hup, -⟩ := h.controllerName
  rw [controllerFolder_eq hsegment]
  intro a b hab
  rcases List.eq_nil_or_concat b with rfl | ⟨b, name, rfl⟩
  · exact absurd (List.append_inj' hab rfl).2 (by simpa using hup)
  · have hsteps : (viewFolder settings project).steps ++ [request.controllerName] =
        (a ++ ['.', '.'] :: b) ++ [name] := by
      simpa using hab
    exact h.straight a b (List.append_inj' hsteps rfl).1

theorem Granted.holdsViews (h : Granted settings project request properties s) :
    ∃ F, HoldsViews settings project request s.tree F := by
  have horigin : s.tree.get? (s.tree.origin
      (controllerFolder settings project request.controllerName)) = some .folder := by
    rw [controllerFolder_eq h.controllerName.1]
    exact h.origin
  have hindex := h.writable .index (by decide)
  rw [target, viewFile_eq] at hindex
  rcases hindex with hthere | ⟨content, hstore⟩
  · exact canHold_of_isThere h.rooted hthere
  · exact canHold_of_storeFile h.rooted horigin h.straightController (Prod.ext rfl hstore)

/-! ## The run -/

theorem propertiesOf_tell (settings : Settings) (project : Path) (modelType : Text) (s : Session)
    (events : List Event) :
    (propertiesOf settings project modelType (s.tell events)).2 =
      (propertiesOf settings project modelType s).2 := by
  rw [propertiesOf, propertiesOf]
  split
  · rfl
  · rfl

theorem tree_propertiesOf (settings : Settings) (project : Path) (modelType : Text) (s : Session) :
    (propertiesOf settings project modelType s).1.tree = s.tree := by
  rw [propertiesOf]
  split
  · rfl
  · rfl

/-- The views for a model are those that are written one after the other. -/
theorem modelViews_eq (h : Called settings project request properties s) :
    ∃ told, told.tree = s.tree ∧ modelViews settings request s =
      match writeViews settings project request properties ViewKind.forModel told with
      | (s', .error failure) => (s', .error failure)
      | (s', .ok paths) => (s'.tell [.scaffolded paths.length request.modelName], .ok paths) := by
  obtain ⟨events, hroot⟩ := h.root
  have hextracted := (propertiesOf_tell settings project request.modelType s events).trans
    h.extracted
  have htree := tree_propertiesOf settings project request.modelType (s.tell events)
  rw [modelViews, h.model, hroot]
  dsimp only
  rcases hresult : propertiesOf settings project request.modelType (s.tell events) with ⟨told, r⟩
  rw [hresult] at hextracted htree
  obtain rfl : r = .ok properties := hextracted
  exact ⟨told, htree, rfl⟩

theorem tree_modelViews (h : Called settings project request properties s) :
    ∃ told, told.tree = s.tree ∧ (modelViews settings request s).1.tree =
      (writeViews settings project request properties ViewKind.forModel told).1.tree := by
  obtain ⟨told, htree, hrun⟩ := modelViews_eq h
  refine ⟨told, htree, ?_⟩
  rw [hrun]
  rcases writeViews settings project request properties ViewKind.forModel told with ⟨s', _ | _⟩
  · rfl
  · rfl

/-- Views are written up to the first one that is not allowed. -/
theorem modelViews_run (h : Granted settings project request properties s)
    (hholds : HoldsViews settings project request s.tree F) :
    ∃ before after, ViewKind.forModel = before ++ after ∧
      HoldsViews settings project request (modelViews settings request s).1.tree F ∧
      Filled s.tree F (contentOf settings request properties) before
        (modelViews settings request s).1.tree ∧
      (∀ kind ∈ before, Allowed request.overwrite (s.tree.get? (F ++ [fileName kind]))) ∧
      (after = [] ∧ (modelViews settings request s).2 =
          .ok (ViewKind.forModel.map (target settings project request)) ∨
        ∃ kind rest failure, after = kind :: rest ∧
          (modelViews settings request s).2 = .error failure ∧
          ¬ Allowed request.overwrite (s.tree.get? (F ++ [fileName kind])) ∧
          (request.overwrite = false →
            failure = .problem (.viewExists (target settings project request kind)))) := by
  obtain ⟨told, htree, hmodelViews⟩ := modelViews_eq h.toCalled
  rw [← htree] at hholds ⊢
  obtain ⟨s', result, before, after, hrun, hsplit, hend, hfilled, hbefore, hafter⟩ :=
    writeViews_run hholds (by decide : ViewKind.forModel.Nodup) h.noFaults h.canPrint
  rw [hrun] at hmodelViews
  rcases hafter with ⟨hnil, rfl⟩ | ⟨kind, rest, failure, hcons, rfl, hrefused, hfailure⟩
  · rw [hmodelViews]
    exact ⟨before, after, hsplit, hend, hfilled, hbefore, .inl ⟨hnil, rfl⟩⟩
  · rw [hmodelViews]
    exact ⟨before, after, hsplit, hend, hfilled, hbefore,
      .inr ⟨kind, rest, failure, hcons, rfl, hrefused, hfailure⟩⟩

/-- The views written without leave to replace any are written with it too. -/
theorem mem_of_prefix_allowed {t : Tree} {before after before' after' : List ViewKind}
    (hsplit : before ++ after = before' ++ after')
    (hbefore : ∀ kind ∈ before, t.get? (F ++ [fileName kind]) = none)
    (hafter : ∀ kind rest, after' = kind :: rest → t.get? (F ++ [fileName kind]) ≠ none)
    {kind : ViewKind} (hkind : kind ∈ before) : kind ∈ before' := by
  rcases List.append_eq_append_iff.1 hsplit with ⟨a, rfl, -⟩ | ⟨a, rfl, ha⟩
  · exact List.mem_append_left _ hkind
  · cases a with
    | nil => rwa [List.append_nil] at hkind
    | cons k a => exact absurd (hbefore k (by simp)) (hafter k _ ha)

theorem allowed_false_iff {node : Option Node} : Allowed false node ↔ node = none := by
  simp [Allowed]

/-- Views that must not replace any are written up to the first one that is there. -/
theorem modelViews_stop (h : Granted settings project request properties s)
    (hover : request.overwrite = false)
    (hholds : HoldsViews settings project request s.tree F) :
    ∃ before after, ViewKind.forModel = before ++ after ∧
      HoldsViews settings project request (modelViews settings request s).1.tree F ∧
      Filled s.tree F (contentOf settings request properties) before
        (modelViews settings request s).1.tree ∧
      (∀ kind ∈ before, s.tree.get? (F ++ [fileName kind]) = none) ∧
      (after = [] ∧ (modelViews settings request s).2 =
          .ok (ViewKind.forModel.map (target settings project request)) ∨
        ∃ kind rest, after = kind :: rest ∧
          s.tree.isThere (target settings project request kind) = .ok true ∧
          (modelViews settings request s).2 =
            .error (.problem (.viewExists (target settings project request kind)))) := by
  obtain ⟨before, after, hsplit, hend, hfilled, hbefore, hafter⟩ := modelViews_run h hholds
  refine ⟨before, after, hsplit, hend, hfilled, ?_, hafter.imp_right ?_⟩
  · intro kind hkind
    exact allowed_false_iff.1 (hover ▸ hbefore kind hkind)
  · rintro ⟨kind, rest, failure, hcons, hresult, hrefused, hfailure⟩
    rw [hover, allowed_false_iff] at hrefused
    refine ⟨kind, rest, hcons, ?_, hfailure hover ▸ hresult⟩
    rw [hholds.isThere, Option.isSome_iff_ne_none.2 hrefused]

/-- A run that may replace views writes all that stand in front of the first one that is there, for
it is stopped by a folder only. -/
theorem contents_modelViews_free (h : Granted settings project request properties s)
    (hholds : HoldsViews settings project request s.tree F) {before after : List ViewKind}
    (hsplit : ViewKind.forModel = before ++ after)
    (hnone : ∀ kind ∈ before, s.tree.get? (F ++ [fileName kind]) = none) :
    ∀ kind ∈ before,
      (modelViews settings { request with overwrite := true } s).1.tree.contents
        (target settings project request kind) =
          .ok (contentOf settings request properties kind) := by
  obtain ⟨written, others, hsplit', hend, hfilled, -, hothers⟩ :=
    modelViews_run (h.withOverwrite true) hholds
  intro kind hkind
  have hwritten : kind ∈ written := by
    refine mem_of_prefix_allowed (hsplit.symm.trans hsplit') hnone ?_ hkind
    rintro k rest rfl hk
    rcases hothers with ⟨hnil, -⟩ | ⟨k', rest', failure, hcons, -, hrefused, -⟩
    · exact absurd hnil (List.cons_ne_nil k rest)
    · obtain ⟨rfl, -⟩ := List.cons.inj hcons
      exact hrefused (.inl hk)
  exact (hfilled.leads hend hwritten).2

/-- The run succeeds if it is stopped by no view. -/
theorem exists_ok_iff {result : Except Failure (List Path)} {before after : List ViewKind}
    (hsplit : ViewKind.forModel = before ++ after)
    (hnew : ∀ kind ∈ before, s.tree.isThere (target settings project request kind) = .ok false)
    (hstop : after = [] ∧ result = .ok (ViewKind.forModel.map (target settings project request)) ∨
      ∃ kind rest, after = kind :: rest ∧
        s.tree.isThere (target settings project request kind) = .ok true ∧
        result = .error (.problem (.viewExists (target settings project request kind)))) :
    (∃ paths, result = .ok paths) ↔ ∀ kind ∈ ViewKind.forModel,
      s.tree.isThere (target settings project request kind) = .ok false := by
  rcases hstop with ⟨rfl, hresult⟩ | ⟨kind, rest, rfl, hthere, hresult⟩
  · rw [List.append_nil] at hsplit
    exact ⟨fun _ => hsplit ▸ hnew, fun _ => ⟨_, hresult⟩⟩
  · constructor
    · rintro ⟨paths, hpaths⟩
      rw [hresult] at hpaths
      exact absurd hpaths (by simp)
    · intro hall
      have hfalse := hall kind (by rw [hsplit]; simp)
      rw [hthere] at hfalse
      exact absurd hfalse (by simp)

/-- Without leave to replace views the views for a model are written if and only if none of them is
there.  Whatever was there is there unchanged, whether they are written or not.  What is new are the
views in front of the first one that is there, with the content that a run with that leave gives
them, and the folders above them that were missing; it is this view that the failure names. -/
theorem modelViews_kept (h : Granted settings project request properties s)
    (hover : request.overwrite = false) {kept free : Session}
    {result resultFree : Except Failure (List Path)}
    (hkept : modelViews settings request s = (kept, result))
    (hfree : modelViews settings { request with overwrite := true } s = (free, resultFree)) :
    ((∃ paths, result = .ok paths) ↔ ∀ kind ∈ ViewKind.forModel,
      s.tree.isThere (target settings project request kind) = .ok false) ∧
    (∀ l n, s.tree.get? l = some n → kept.tree.get? l = some n) ∧
    ∃ before after, ViewKind.forModel = before ++ after ∧
      (∀ kind ∈ before, s.tree.isThere (target settings project request kind) = .ok false ∧
        ∃ content, kept.tree.contents (target settings project request kind) = .ok content ∧
          free.tree.contents (target settings project request kind) = .ok content) ∧
      (∀ l, kept.tree.get? l = s.tree.get? l ∨ s.tree.get? l = none ∧ ∃ kind ∈ before, ∃ m,
        kept.tree.resolve (target settings project request kind) = .ok m ∧ l <+: m ∧
          (l ≠ m → kept.tree.get? l = some .folder)) ∧
      (after = [] ∧ result = .ok (ViewKind.forModel.map (target settings project request)) ∨
        ∃ kind rest, after = kind :: rest ∧
          s.tree.isThere (target settings project request kind) = .ok true ∧
          result = .error (.problem (.viewExists (target settings project request kind)))) := by
  obtain ⟨F, hholds⟩ := h.holdsViews
  obtain ⟨before, after, hsplit, hend, hfilled, hnone, hstop⟩ := modelViews_stop h hover hholds
  have hcontents := contents_modelViews_free h hholds hsplit hnone
  rw [hkept] at hend hfilled hstop
  rw [hfree] at hcontents
  have hnew : ∀ kind ∈ before,
      s.tree.isThere (target settings project request kind) = .ok false := by
    intro kind hkind
    rw [hholds.isThere, hnone kind hkind]
    rfl
  have hchanges := hfilled.changes hholds hnone
  refine ⟨exists_ok_iff hsplit hnew hstop, ?_, before, after, hsplit, ?_, ?_, hstop⟩
  · intro l n hl
    rcases hchanges l with hsame | ⟨hnew, -⟩
    · exact hsame.trans hl
    · rw [hl] at hnew
      exact absurd hnew (by simp)
  · intro kind hkind
    exact ⟨hnew kind hkind, _, (hfilled.leads hend hkind).2, hcontents kind hkind⟩
  · intro l
    refine (hchanges l).imp_right ?_
    rintro ⟨hnone, kind, hkind, hl, hfolder⟩
    exact ⟨hnone, kind, hkind, _, (hfilled.leads hend hkind).1, hl, hfolder⟩

/-! ## A project with one view -/

/-- A type whose class has no file has no properties. -/
theorem propertiesOf_eq_nil {modelType : Text} (hmodel : (Text.trim modelType).isEmpty = false)
    (hfind : Search.find s.tree settings.search (TypeName.className (Text.trim modelType))
      (Path.ofText project.toText) = .ok []) :
    (propertiesOf settings project modelType s).2 = .ok [] := by
  have hfile : (Extraction.sourceFile? settings.search s.tree
      (TypeName.className (Text.trim modelType)) project.toText).2 = none := by
    rw [Extraction.sourceFile?, hfind]
    rfl
  rw [propertiesOf, hmodel]
  show (Extraction.run settings.search s.surroundings s.store modelType project.toText).2.2 = .ok []
  rw [Extraction.run]
  dsimp only
  rw [if_neg (by rw [hmodel]; exact Bool.false_ne_true)]
  split
  · rfl
  · rcases hsource : Extraction.sourceFile? settings.search s.surroundings.tree
      (TypeName.className (Text.trim modelType)) project.toText with ⟨events, file⟩
    obtain rfl : file = none := (congrArg Prod.snd hsource).symm.trans hfile
    rfl

/-- The workspace `w` with a project and one view in it. -/
def shop (kind : ViewKind) : Tree :=
  [(["w".toList], Node.folder), (["w".toList, "Shop.csproj".toList], .file []),
    (["w".toList, "Views".toList], .folder),
    (["w".toList, "Views".toList, "Products".toList], .folder),
    (["w".toList, "Views".toList, "Products".toList, fileName kind],
      .file (Utf8.encode "mine".toList))].foldl (fun t e => t.insert e.1 e.2) (Tree.empty [])

/-- The views for products, none of which is to be replaced. -/
def products : ModelViews :=
  ⟨"w".toList, "Product".toList, some "Products".toList, none, false⟩

/-- The session in the workspace with one view. -/
def atShop (kind : ViewKind) : Session := Session.ofTree (shop kind) CacheSettings.usual

theorem called_shop (settings : Settings) (kind : ViewKind) :
    Called settings (Path.ofText "w".toList) products [] (atShop kind) := by
  have hfolder : (shop kind).isFolder (Path.ofText "w".toList) = .ok true := by
    cases kind <;> decide +kernel
  have hnames : (Project.namesIn (shop kind) (Path.ofText "w".toList)).filter
      (·.endsWith Project.ending) = ["Shop.csproj".toList] := by
    cases kind <;> decide +kernel
  have hresolve : (shop kind).resolve (Path.ofText (Path.ofText "w".toList).toText) =
      .ok ["w".toList] := by
    cases kind <;> decide +kernel
  have hrefusal : Search.refusal? (shop kind) ["w".toList]
      (Path.ofText (Path.ofText "w".toList).toText)
      (Search.fileSteps (TypeName.className (Text.trim products.modelType))) = none := by
    cases kind <;> decide +kernel
  have hno : ∀ names ∈ Search.foldersBelow (shop kind) ["w".toList],
      Search.leadsToFile (shop kind) (["w".toList] ++ names)
        (Search.fileSteps (TypeName.className (Text.trim products.modelType))) = false := by
    cases kind <;> decide +kernel
  exact
    { workspace := by decide
      root := ⟨[], Project.root_of_single hfolder hnames⟩
      model := by decide
      extracted := propertiesOf_eq_nil (by decide) (Search.find_eq_nil hresolve hrefusal hno _)
      cached := Extraction.isExtracted_after CacheSettings.usual []
      controller := ⟨"Products".toList, rfl, by decide, by decide⟩ }

theorem granted_shop :
    Granted Settings.usual (Path.ofText "w".toList) products [] (atShop .edit) := by
  have hfolder : (shop .edit).isFolder (Path.ofText "w".toList) = .ok true := by decide +kernel
  have hwritable : ∀ kind ∈ ViewKind.forModel,
      (shop .edit).isThere (target .usual (Path.ofText "w".toList) products kind) = .ok true ∨
        ((shop .edit).storeFile (target .usual (Path.ofText "w".toList) products kind) []).2 =
          .ok () := by
    decide +kernel
  exact
    { called_shop .usual .edit with
      rooted := rooted_of_entries (by decide +kernel)
      writable := fun kind hkind => (hwritable kind hkind).imp_right fun h => ⟨[], h⟩
      straight := straight_child hfolder (by decide) }

/-- The view that is there stops the run. -/
theorem stopped_shop :
    (modelViews .usual products (atShop .edit)).2 =
      .error (.problem (.viewExists (Path.ofText "w/Views/Products/Edit.cshtml".toList))) := by
  have hkept : modelViews .usual products (atShop .edit) =
      ((modelViews .usual products (atShop .edit)).1,
        (modelViews .usual products (atShop .edit)).2) := rfl
  obtain ⟨hok, -, before, after, hsplit, -, -, hstop⟩ :=
    modelViews_kept granted_shop rfl hkept (Prod.eta _).symm
  have htarget : target .usual (Path.ofText "w".toList) products .edit =
      Path.ofText "w/Views/Products/Edit.cshtml".toList := by decide +kernel
  have hedit : ∀ kind ∈ ViewKind.forModel, (shop .edit).isThere
      (target .usual (Path.ofText "w".toList) products kind) = .ok true ↔ kind = .edit := by
    decide +kernel
  rcases hstop with ⟨-, hresult⟩ | ⟨kind, rest, rfl, hthere, hresult⟩
  · have hfalse := hok.1 ⟨_, hresult⟩ .edit (by decide)
    have htrue := (hedit .edit (by decide)).2 rfl
    exact absurd (htrue.symm.trans hfalse) (by decide)
  · have hmem : kind ∈ ViewKind.forModel := by
      rw [hsplit]
      simp
    obtain rfl := (hedit kind hmem).1 hthere
    rw [hresult, htarget]

/-! ## A step upwards behind a missing folder -/

/-- A folder for views that is written with a step upwards. -/
def roundabout : Settings := { Settings.usual with viewFolder := "a/../Views".toList }

/-- The folder for the views for products, written with that step. -/
def aroundProducts : Path :=
  controllerFolder roundabout (Path.ofText "w".toList) products.controllerName

/-- The tree when the folder is made that the step leads out of. -/
def opened : Tree := (shop .index).insert ["w".toList, "a".toList] .folder

theorem makeFolders_around : (shop .index).makeFolders aroundProducts = (opened, .ok ()) := by
  rfl

theorem makeFolders_opened : opened.makeFolders aroundProducts = (opened, .ok ()) := by
  rfl

theorem storeFile_around (name : Text) (content : List UInt8) :
    (shop .index).storeFile (fileIn aroundProducts name) content =
      opened.storeFile (fileIn aroundProducts name) content := by
  rw [storeFile, storeFile, parent_fileIn, makeFolders_around, makeFolders_opened]

theorem holdsViews_opened : HoldsViews roundabout (Path.ofText "w".toList) products opened
    ["w".toList, "Views".toList, "Products".toList] := by
  have hsplits : Splits opened (opened.origin aroundProducts) aroundProducts.steps
      aroundProducts.steps [] ["w".toList, "Views".toList, "Products".toList] :=
    ⟨by simp, by rfl, by rfl, by simp, by simp⟩
  exact ⟨rooted_of_entries (by decide +kernel), _, _, _, ⟨hsplits, by decide +kernel⟩,
    (List.append_nil _).symm⟩

/-- Views are written after the first of them. -/
theorem writeViews_cons {kind : ViewKind} {path : Path} {s' : Session}
    (hnames : (request.options kind).emptyNameFaults = [])
    (hwrite : writeView settings project (request.options kind) properties s = (s', .ok path))
    (kinds : List ViewKind) :
    (writeViews settings project request properties (kind :: kinds) s).1 =
      (writeViews settings project request properties kinds s').1 := by
  rw [writeViews]
  dsimp only
  rw [hnames]
  dsimp only
  rw [hwrite]

/-- The first view is stored in place of the one that is there. -/
theorem stored_around (told : Session) (htree : told.tree = shop .index) :
    ∃ s', writeView roundabout (Path.ofText "w".toList) (products.options .index) [] told =
        (s', .ok (target roundabout (Path.ofText "w".toList) products .index)) ∧
      Stored opened ["w".toList, "Views".toList, "Products".toList] (fileName .index)
        (contentOf roundabout products [] .index) s'.tree ∧
      HoldsViews roundabout (Path.ofText "w".toList) products s'.tree
        ["w".toList, "Views".toList, "Products".toList] := by
  have hthere : told.tree.isThere (target roundabout (Path.ofText "w".toList) products .index) =
      .ok false := by
    rw [htree]
    decide +kernel
  have hfree : opened.get? (["w".toList, "Views".toList, "Products".toList] ++
      [fileName .index]) ≠ some .folder := by decide +kernel
  obtain ⟨stored, hstore, hstored, hholds⟩ := CanHold.store holdsViews_opened
    (isPlain_fileName .index) (noNul_fileName .index) hfree
    (contentOf roundabout products [] .index)
  have hsame := (storeFile_around _ _).trans hstore
  rw [aroundProducts, ← viewFile_eq, ← target, ← htree] at hsame
  rw [writeView_eq hthere ((called_shop roundabout .index).canPrint .index), if_neg (by simp),
    hsame]
  exact ⟨_, rfl, hstored, hholds⟩

theorem replaced_around (told : Session) (htree : told.tree = shop .index) :
    (writeViews roundabout (Path.ofText "w".toList) products [] ViewKind.forModel told).1.tree.get?
        ["w".toList, "Views".toList, "Products".toList, fileName .index] =
      some (.file (contentOf roundabout products [] .index)) := by
  have hcalled := called_shop roundabout .index
  have hnames := hcalled.noFaults
  obtain ⟨s', hwrite, hstored, hholds⟩ := stored_around told htree
  obtain ⟨last, result, before, after, hrun, hsplit, -, hfilled, -, -⟩ := writeViews_run hholds
    (by decide : [ViewKind.create, .edit, .details, .delete].Nodup) hnames hcalled.canPrint
  have hother : ∀ kind ∈ before, fileName .index ≠ fileName kind := by
    intro kind hkind heq
    have hmem : kind ∈ [ViewKind.create, .edit, .details, .delete] := by
      rw [hsplit]
      exact List.mem_append_left _ hkind
    rw [← fileName_injective heq] at hmem
    exact absurd hmem (by decide)
  have hfirst := writeViews_cons (hnames .index) hwrite [.create, .edit, .details, .delete]
  show (writeViews _ _ _ _ (.index :: [.create, .edit, .details, .delete]) told).1.tree.get?
    (["w".toList, "Views".toList, "Products".toList] ++ [fileName .index]) = _
  rw [hfirst, hrun, hfilled.other, hstored.get?, if_pos rfl]
  · intro kind hkind heq
    exact hother kind hkind (List.singleton_inj.1 (List.append_cancel_left heq))
  · exact fun _ => not_prefix_append_singleton _ _

/-- On a path that is not straight a view may be replaced although none is to be: it is not found
there before the first view is written. -/
theorem not_kept_roundabout : ¬ ∀ (settings : Settings) (project : Path) (request : ModelViews)
    (properties : List Property) (s : Session),
    Called settings project request properties s → s.tree.Rooted →
    (∀ kind ∈ ViewKind.forModel,
      s.tree.isThere (target settings project request kind) = .ok true ∨
        ∃ content, (s.tree.storeFile (target settings project request kind) content).2 = .ok ()) →
    request.overwrite = false →
    ∀ l content, s.tree.get? l = some (.file content) →
      (modelViews settings request s).1.tree.get? l = some (.file content) := by
  intro h
  have hcalled := called_shop roundabout .index
  have hwritable : ∀ kind ∈ ViewKind.forModel, ((shop .index).storeFile
      (target roundabout (Path.ofText "w".toList) products kind) []).2 = .ok () := by
    decide +kernel
  have hkept := h roundabout _ products [] (atShop .index) hcalled
    (rooted_of_entries (by decide +kernel)) (fun kind hkind => .inr ⟨[], hwritable kind hkind⟩) rfl
    ["w".toList, "Views".toList, "Products".toList, fileName .index] (Utf8.encode "mine".toList)
    (by decide +kernel)
  obtain ⟨told, htree, hrun⟩ := tree_modelViews hcalled
  rw [hrun, replaced_around told htree] at hkept
  have hcontent : contentOf roundabout products [] .index ≠ Utf8.encode "mine".toList := by
    decide +kernel
  exact hcontent (Node.file.inj (Option.some.inj hkept))

end RazorViews.Generation
