import RazorViews.Generation
import RazorViews.Proofs.View.Page
import RazorViews.Proofs.Workspace.Folders

/-!
# Writing the views for a model

The views for a model lie in one folder, under names of their own (`fileName_injective`).  Writing
one of them changes what stands at its place and makes the folders above it as far as they are
missing, so it does not get in the way of the others.

`writeViews_run` says of any kinds of views, each of them once, what writing one after another comes
to.  They are written up to the first one whose place is not free, or if replacing is allowed not a
file (`Allowed`), and what was there *before the first one was written* decides which this is.  The
tree behind them has these views in it and the folders above them, and is otherwise as it was
(`Filled`).

It is assumed that the folder of the views is there or can be made (`HoldsViews`), and that the
pages can be printed, which is so of properties that come from a source.  Which paths lead to such a
folder is said in `canHold_of_storeFile`.
-/

namespace RazorViews.Generation

open RazorViews.Tree

variable {settings : Settings} {project folder : Path} {request : ModelViews}
  {options : ViewOptions} {properties : List Property} {kind : ViewKind} {kinds : List ViewKind}
  {s : Session} {F : Location} {name : Text}

/-! ## Pages and places -/

/-- The page of a view for a model, if it can be printed. -/
theorem page_eq (h : Page.CanPrint properties kind) (projectName : Text) :
    Page.ofView (request.options kind).kind
        (Context.ofView settings (request.options kind) properties projectName) =
      .ok (Page.pageFor settings (request.options kind) properties [] kind) := by
  show Page.ofView kind _ = _
  rw [Page.ofView_eq, if_pos h, Page.pageFor_projectName settings _ properties projectName]

/-- The content of the file of a view. -/
def contentOf (settings : Settings) (request : ModelViews) (properties : List Property)
    (kind : ViewKind) : List UInt8 :=
  Utf8.encode (Page.pageFor settings (request.options kind) properties [] kind)

/-- The name of the file of a view. -/
def fileName (kind : ViewKind) : Text := kind.action ++ ending

theorem fileName_injective : Function.Injective fileName := by
  intro k k' h
  cases k <;> cases k' <;> first | rfl | exact absurd h (by decide)

theorem isPlain_fileName (kind : ViewKind) : IsPlain (fileName kind) := by
  cases kind <;> exact ⟨by decide, by decide⟩

theorem noNul_fileName (kind : ViewKind) : '\x00' ∉ fileName kind := by
  cases kind <;> decide

/-- The folder of the views of a controller. -/
def controllerFolder (settings : Settings) (project : Path) (controller : Text) : Path :=
  (viewFolder settings project).child controller

theorem viewFile_eq (settings : Settings) (project : Path) (controller : Text) (kind : ViewKind) :
    viewFile settings project controller kind.action =
      fileIn (controllerFolder settings project controller) (fileName kind) := by
  have hname : Path.ofText (fileName kind) = ⟨.here, [fileName kind]⟩ := by
    cases kind <;> decide
  rw [viewFile, Path.child, ← fileName, hname]
  rfl

/-! ## One view -/

/-- The target of a view for a model. -/
def target (settings : Settings) (project : Path) (request : ModelViews) (kind : ViewKind) : Path :=
  viewFile settings project request.controllerName kind.action

/-- The views for a model can be held by the folder at `F`, which is there or can be made. -/
def HoldsViews (settings : Settings) (project : Path) (request : ModelViews) (t : Tree)
    (F : Location) : Prop :=
  CanHold t (controllerFolder settings project request.controllerName) F

/-- The place of a view is free, or what stands there may be replaced: a file may be, if this is
asked for. -/
def Allowed (overwrite : Bool) (node : Option Node) : Prop :=
  node = none ∨ overwrite = true ∧ node ≠ some .folder

theorem HoldsViews.isThere (h : HoldsViews settings project request s.tree F) (kind : ViewKind) :
    s.tree.isThere (target settings project request kind) =
      .ok (s.tree.get? (F ++ [fileName kind])).isSome := by
  rw [target, viewFile_eq]
  exact CanHold.isThere h (isPlain_fileName kind) (noNul_fileName kind)

/-- A view is written by storing its page, unless something is there that must not be replaced. -/
theorem writeView_eq {there : Bool}
    (h : s.tree.isThere (target settings project request kind) = .ok there)
    (hprint : Page.CanPrint properties kind) :
    writeView settings project (request.options kind) properties s =
      if there && !request.overwrite then
        (s, .error (.problem (.viewExists (target settings project request kind))))
      else
        let told := s.tell (Project.name s.tree project).1
        match s.tree.storeFile (target settings project request kind)
            (contentOf settings request properties kind) with
        | (tree, .ok ()) =>
          (({ told with tree := tree } : Session).tell
            [.generated (target settings project request kind).toText],
            .ok (target settings project request kind))
        | (tree, .error e) => ({ told with tree := tree },
            .error (writeFailure (target settings project request kind) e)) := by
  have htarget : viewFile settings project (request.options kind).controller
      (request.options kind).action = target settings project request kind := rfl
  have hover : (request.options kind).overwrite = request.overwrite := rfl
  rw [writeView, htarget, h, hover]
  dsimp only
  split
  · rfl
  · rw [page_eq hprint, writePage, contentOf]
    dsimp only [Session.tell]
    rcases s.tree.storeFile (target settings project request kind) (Utf8.encode
      (Page.pageFor settings (request.options kind) properties [] kind)) with ⟨tree, e | _⟩
    · rfl
    · rfl

/-- Where a view is allowed it is written. -/
theorem writeView_allowed (h : HoldsViews settings project request s.tree F) (kind : ViewKind)
    (hallowed : Allowed request.overwrite (s.tree.get? (F ++ [fileName kind])))
    (hprint : Page.CanPrint properties kind) :
    ∃ s', writeView settings project (request.options kind) properties s =
        (s', .ok (target settings project request kind)) ∧
      Stored s.tree F (fileName kind) (contentOf settings request properties kind) s'.tree ∧
      HoldsViews settings project request s'.tree F := by
  have hfree : s.tree.get? (F ++ [fileName kind]) ≠ some .folder := by
    rcases hallowed with hnone | ⟨-, hfolder⟩
    · rw [hnone]
      simp
    · exact hfolder
  have hpass : ¬ ((s.tree.get? (F ++ [fileName kind])).isSome && !request.overwrite) = true := by
    rcases hallowed with hnone | ⟨hover, -⟩
    · rw [hnone]
      simp
    · rw [hover]
      simp
  obtain ⟨stored, hstore, hstored, hholds⟩ := CanHold.store h (isPlain_fileName kind)
    (noNul_fileName kind) hfree (contentOf settings request properties kind)
  rw [← viewFile_eq, ← target] at hstore
  rw [writeView_eq (h.isThere kind) hprint, if_neg hpass, hstore]
  exact ⟨_, rfl, hstored, hholds⟩

/-- Where a view is not allowed nothing changes. -/
theorem writeView_refused (h : HoldsViews settings project request s.tree F) (kind : ViewKind)
    (hrefused : ¬ Allowed request.overwrite (s.tree.get? (F ++ [fileName kind])))
    (hprint : Page.CanPrint properties kind) :
    ∃ s' failure, writeView settings project (request.options kind) properties s =
        (s', .error failure) ∧ s'.tree = s.tree ∧
      (request.overwrite = false →
        failure = .problem (.viewExists (target settings project request kind))) := by
  rw [Allowed, not_or, not_and, not_not] at hrefused
  obtain ⟨hthere, hfolder⟩ := hrefused
  rw [writeView_eq (h.isThere kind) hprint]
  cases hover : request.overwrite with
  | false =>
    have hsome : (s.tree.get? (F ++ [fileName kind])).isSome = true :=
      Option.isSome_iff_ne_none.2 hthere
    rw [hsome]
    exact ⟨s, _, rfl, rfl, fun _ => rfl⟩
  | true =>
    obtain ⟨e, hstore⟩ := CanHold.store_folder h (isPlain_fileName kind) (noNul_fileName kind)
      (hfolder hover) (contentOf settings request properties kind)
    rw [← viewFile_eq, ← target] at hstore
    rw [if_neg (by simp), hstore]
    exact ⟨_, _, rfl, rfl, fun hfalse => absurd hfalse (by simp)⟩

/-! ## Several views -/

/-- A tree after views have been stored in a folder, which has been made as far as it was
missing. -/
structure Filled (t : Tree) (F : Location) (content : ViewKind → List UInt8)
    (views : List ViewKind) (filled : Tree) : Prop where
  view : ∀ kind ∈ views, filled.get? (F ++ [fileName kind]) = some (.file (content kind))
  folder : views ≠ [] → ∀ l, l <+: F → filled.get? l = some .folder
  other : ∀ l, (∀ kind ∈ views, l ≠ F ++ [fileName kind]) → (views ≠ [] → ¬ l <+: F) →
    filled.get? l = t.get? l

theorem Filled.refl (t : Tree) (F : Location) (content : ViewKind → List UInt8) :
    Filled t F content [] t :=
  ⟨by simp, by simp, fun _ _ _ => rfl⟩

theorem not_prefix_append_singleton (F : Location) (name : Text) : ¬ F ++ [name] <+: F := by
  intro h
  have hlength := h.length_le
  rw [List.length_append] at hlength
  exact absurd hlength (Nat.not_succ_le_self _)

/-- What stands at the place of another view is as before. -/
theorem get?_stored_of_ne {t stored : Tree} {content : List UInt8} {k : ViewKind} (hne : k ≠ kind)
    (h : Stored t F (fileName kind) content stored) :
    stored.get? (F ++ [fileName k]) = t.get? (F ++ [fileName k]) := by
  have hname : fileName k ≠ fileName kind := fun hname => hne (fileName_injective hname)
  rw [h.get?, if_neg (by simpa using hname), if_neg (not_prefix_append_singleton F _)]

theorem Filled.cons {t stored filled : Tree} {content : ViewKind → List UInt8}
    (hnot : kind ∉ kinds) (hstored : Stored t F (fileName kind) (content kind) stored)
    (h : Filled stored F content kinds filled) : Filled t F content (kind :: kinds) filled := by
  have hfolder : ∀ l, l <+: F → filled.get? l = some .folder := by
    intro l hl
    by_cases hkinds : kinds = []
    · subst hkinds
      rw [h.other l (by simp) (by simp), hstored.get?, if_neg, if_pos hl]
      rintro rfl
      exact not_prefix_append_singleton F _ hl
    · exact h.folder hkinds l hl
  refine ⟨?_, fun _ => hfolder, ?_⟩
  · intro k hk
    rcases List.mem_cons.1 hk with rfl | hk
    · rw [h.other, hstored.get?, if_pos rfl]
      · intro k' hk' heq
        have hname := List.append_cancel_left heq
        rw [List.singleton_inj] at hname
        rw [fileName_injective hname] at hnot
        exact hnot hk'
      · exact fun _ => not_prefix_append_singleton F _
    · exact h.view k hk
  · intro l hl hwithin
    have hwithin := hwithin (List.cons_ne_nil kind kinds)
    obtain ⟨hkind, hkinds⟩ := List.forall_mem_cons.1 hl
    rw [h.other l hkinds fun _ => hwithin, hstored.get?, if_neg hkind, if_neg hwithin]

/-- The path to a view that has been stored leads to it. -/
theorem Filled.leads {t filled : Tree} {content : ViewKind → List UInt8}
    (h : Filled t F content kinds filled) (hholds : HoldsViews settings project request filled F)
    (hkind : kind ∈ kinds) :
    filled.resolve (target settings project request kind) = .ok (F ++ [fileName kind]) ∧
      filled.contents (target settings project request kind) = .ok (content kind) := by
  have hF := h.folder (List.ne_nil_of_mem hkind) F (List.prefix_refl F)
  have hresolve : filled.resolve (target settings project request kind) =
      .ok (F ++ [fileName kind]) := by
    rw [target, viewFile_eq]
    exact CanHold.resolve hholds hF (isPlain_fileName kind) (noNul_fileName kind)
  exact ⟨hresolve, contents_of_resolve hresolve (h.view kind hkind)⟩

/-- Where nothing stood at the places of the views, what is new are the views and the folders above
them. -/
theorem Filled.changes {t filled : Tree} {content : ViewKind → List UInt8}
    (h : Filled t F content kinds filled) (hholds : HoldsViews settings project request t F)
    (hnone : ∀ kind ∈ kinds, t.get? (F ++ [fileName kind]) = none) (l : Location) :
    filled.get? l = t.get? l ∨ t.get? l = none ∧ ∃ kind ∈ kinds, l <+: F ++ [fileName kind] ∧
      (l ≠ F ++ [fileName kind] → filled.get? l = some .folder) := by
  by_cases hview : ∃ kind ∈ kinds, l = F ++ [fileName kind]
  · obtain ⟨kind, hkind, rfl⟩ := hview
    exact .inr ⟨hnone kind hkind, kind, hkind, List.prefix_refl _, fun hne => absurd rfl hne⟩
  · by_cases habove : kinds ≠ [] ∧ l <+: F
    · obtain ⟨hne, hl⟩ := habove
      have hfolder := h.folder hne l hl
      rcases CanHold.above hholds hl with hnew | hold
      · obtain ⟨kind, hkind⟩ := List.exists_mem_of_ne_nil kinds hne
        exact .inr ⟨hnew, kind, hkind, hl.trans (List.prefix_append F _), fun _ => hfolder⟩
      · exact .inl (hfolder.trans hold.symm)
    · refine .inl (h.other l ?_ fun hne hl => habove ⟨hne, hl⟩)
      exact fun kind hkind heq => hview ⟨kind, hkind, heq⟩

/-- Views are written up to the first one that is not allowed; what was there before decides which
one this is. -/
theorem writeViews_run (h : HoldsViews settings project request s.tree F) (hkinds : kinds.Nodup)
    (hnames : ∀ kind, (request.options kind).emptyNameFaults = [])
    (hprint : ∀ kind, Page.CanPrint properties kind) :
    ∃ s' result before after,
      writeViews settings project request properties kinds s = (s', result) ∧
      kinds = before ++ after ∧ HoldsViews settings project request s'.tree F ∧
      Filled s.tree F (contentOf settings request properties) before s'.tree ∧
      (∀ kind ∈ before, Allowed request.overwrite (s.tree.get? (F ++ [fileName kind]))) ∧
      (after = [] ∧ result = .ok (kinds.map (target settings project request)) ∨
        ∃ kind rest failure, after = kind :: rest ∧ result = .error failure ∧
          ¬ Allowed request.overwrite (s.tree.get? (F ++ [fileName kind])) ∧
          (request.overwrite = false →
            failure = .problem (.viewExists (target settings project request kind)))) := by
  induction kinds generalizing s with
  | nil =>
    exact ⟨s, .ok [], [], [], rfl, rfl, h, Filled.refl _ _ _, by simp, .inl ⟨rfl, rfl⟩⟩
  | cons kind kinds ih =>
    obtain ⟨hnot, hkinds⟩ := List.nodup_cons.1 hkinds
    by_cases hallowed : Allowed request.overwrite (s.tree.get? (F ++ [fileName kind]))
    · obtain ⟨s₁, hwrite, hstored, hholds⟩ := writeView_allowed h kind hallowed (hprint kind)
      obtain ⟨s', result, before, after, hrun, rfl, hend, hfilled, hbefore, hafter⟩ :=
        ih hholds hkinds
      rw [List.mem_append, not_or] at hnot
      -- the places of the other views are what they were at first
      have hsame : ∀ k ∈ before ++ after, s₁.tree.get? (F ++ [fileName k]) =
          s.tree.get? (F ++ [fileName k]) := by
        intro k hk
        refine get?_stored_of_ne ?_ hstored
        rintro rfl
        exact (List.mem_append.1 hk).elim hnot.1 hnot.2
      refine ⟨s', result.map (target settings project request kind :: ·), kind :: before, after, ?_,
        rfl, hend, hfilled.cons hnot.1 hstored, ?_, ?_⟩
      · rw [writeViews]
        dsimp only
        rw [hnames kind]
        dsimp only
        rw [hwrite]
        dsimp only
        rw [hrun]
      · refine List.forall_mem_cons.2 ⟨hallowed, ?_⟩
        intro k hk
        rw [← hsame k (List.mem_append_left _ hk)]
        exact hbefore k hk
      · rcases hafter with ⟨hnil, rfl⟩ | ⟨k, rest, failure, rfl, rfl, hrefused, hfailure⟩
        · exact .inl ⟨hnil, rfl⟩
        · rw [hsame k (by simp)] at hrefused
          exact .inr ⟨k, rest, failure, rfl, rfl, hrefused, hfailure⟩
    · obtain ⟨s', failure, hwrite, htree, hfailure⟩ :=
        writeView_refused h kind hallowed (hprint kind)
      refine ⟨s', .error failure, [], kind :: kinds, ?_, rfl, htree ▸ h, ?_, by simp,
        .inr ⟨kind, kinds, failure, rfl, rfl, hallowed, hfailure⟩⟩
      · rw [writeViews]
        dsimp only
        rw [hnames kind]
        dsimp only
        rw [hwrite]
      · rw [htree]
        exact Filled.refl _ _ _

end RazorViews.Generation
