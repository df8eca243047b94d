import RazorViews.Proofs.Workspace.Folders

/-!
# When a file can be stored

On a straight path every step upwards stands behind a folder that is there (`Straight`).  Where a
file can be stored in the folder that such a path leads to, the folder is there or can be made
(`canHold_of_storeFile`): behind a name under which nothing stands no step of such a path leads
upwards (`up_notMem_of_none`), so it goes from an existing folder along new names only.

On another path a step upwards may become one only by the making of the folders: then a path at
which nothing was found leads to something after all, and the file that is stored may replace
another one.  See `not_kept_roundabout`.

The proof goes backwards from the folders that have been made.  Whatever was made, there are only
more folders than before (`Extends`, `makeFolders_inv`), and a walk in the larger tree is followed
in the smaller one as far as it goes there (`exists_splits`).
-/

namespace RazorViews.Tree

variable {t made : Tree} {l L F : Location} {p : Path} {name : Text} {names : List Text}
  {content : List UInt8}

/-! ## What the making of folders says -/

/-- A tree with more folders. -/
def Extends (t made : Tree) : Prop :=
  made.home = t.home ∧
    ∀ l, made.get? l = t.get? l ∨ t.get? l = none ∧ made.get? l = some .folder

theorem Extends.refl (t : Tree) : Extends t t := ⟨rfl, fun _ => .inl rfl⟩

theorem Extends.trans {u : Tree} (h : Extends t u) (h' : Extends u made) : Extends t made := by
  refine ⟨h'.1.trans h.1, fun l => ?_⟩
  rcases h'.2 l with hl' | ⟨hnone, hmade⟩
  · rw [hl']
    exact h.2 l
  · rcases h.2 l with hl | ⟨-, hu⟩
    · exact .inr ⟨hl ▸ hnone, hmade⟩
    · rw [hnone] at hu
      exact absurd hu (by simp)

theorem Extends.folder (h : Extends t made) (hl : t.get? l = some .folder) :
    made.get? l = some .folder := by
  rcases h.2 l with hsame | ⟨hnone, -⟩
  · exact hsame.trans hl
  · rw [hl] at hnone
    exact absurd hnone (by simp)

theorem Extends.origin (h : Extends t made) (p : Path) : made.origin p = t.origin p := by
  rw [Tree.origin, Tree.origin, h.1]

theorem place_inv {taken : SystemCause} (h : t.place p taken = .ok l) :
    ∃ names name above, p.steps = names ++ [name] ∧ (∀ step ∈ p.steps, '\x00' ∉ step) ∧
      t.walk (t.origin p) names = .ok above ∧ t.get? above = some .folder ∧ IsPlain name ∧
      l = above ++ [name] := by
  have hnul : ∀ step ∈ p.steps, '\x00' ∉ step := by
    intro step hmem hcontains
    have hany : p.steps.any (·.contains '\x00') = true :=
      List.any_eq_true.2 ⟨step, hmem, List.contains_iff_mem.2 hcontains⟩
    rw [place, if_pos hany] at h
    exact absurd h (by simp)
  rcases List.eq_nil_or_concat p.steps with hnil | ⟨names, name, hsteps⟩
  · rw [place, hnil] at h
    exact absurd h (by simp)
  · rw [List.concat_eq_append] at hsteps
    rw [place_eq hsteps hnul] at h
    cases hwalk : t.walk (t.origin p) names with
    | error cause =>
      rw [hwalk] at h
      exact absurd h (by simp [Except.bind])
    | ok above =>
      rw [hwalk] at h
      simp only [Except.bind] at h
      split at h
      · exact absurd h (by simp)
      · exact absurd h (by simp)
      · rename_i hfolder
        split at h
        · exact absurd h (by simp)
        · rename_i hup
          split at h
          · exact absurd h (by simp)
          · rename_i hsize
            exact ⟨names, name, above, hsteps, hnul, hwalk, hfolder,
              ⟨by simpa using hup, Nat.not_lt.1 hsize⟩, (Except.ok.inj h).symm⟩

/-- Where a folder is made the path leads to it, and nothing else changes. -/
theorem makeFolder_inv (h : t.makeFolder p = .ok made) :
    Extends t made ∧ made.isFolder p = .ok true := by
  rw [makeFolder] at h
  cases hplace : t.place p .alreadyThere with
  | error cause =>
    rw [hplace] at h
    exact absurd h (by simp [bind, Except.bind])
  | ok l =>
    rw [hplace] at h
    simp only [bind, Except.bind] at h
    cases hget : t.get? l with
    | some n =>
      rw [hget] at h
      exact absurd h (by simp)
    | none =>
      rw [hget] at h
      obtain rfl := Except.ok.inj h
      obtain ⟨names, name, above, hsteps, hnul, hwalk, hfolder, hname, rfl⟩ := place_inv hplace
      have hne : above ++ [name] ≠ [] := List.append_ne_nil_of_right_ne_nil _ (by simp)
      have hextends : Extends t (t.insert (above ++ [name]) .folder) := by
        refine ⟨rfl, fun l => ?_⟩
        rw [get?_insert hne]
        by_cases hl : l = above ++ [name]
        · rw [if_pos hl, hl]
          exact .inr ⟨hget, rfl⟩
        · rw [if_neg hl]
          exact .inl rfl
      refine ⟨hextends, isFolder_ok_true_iff.2 ⟨above ++ [name], ?_, ?_⟩⟩
      · rw [resolve_eq hnul, hsteps, walk_append, hextends.origin,
          walk_of_folders (fun _ => hextends.folder) hwalk]
        exact walk_plain (hextends.folder hfolder) hname []
      · rw [get?_insert hne, if_pos rfl]

theorem unlessThere_inv {cause : SystemCause} (h : t.unlessThere p cause = .ok made) :
    made = t ∧ t.isFolder p = .ok true := by
  rw [unlessThere] at h
  cases hthere : t.isFolder p with
  | error e =>
    rw [hthere] at h
    exact absurd h (by simp [bind, Except.bind])
  | ok there =>
    rw [hthere] at h
    simp only [bind, Except.bind] at h
    split at h
    · rename_i htest
      rw [Bool.and_eq_true] at htest
      exact ⟨(Except.ok.inj h).symm, by rw [htest.2]⟩
    · exact absurd h (by simp)

theorem again_inv (h : makeFolders.again t p = (made, .ok ())) :
    Extends t made ∧ made.isFolder p = .ok true := by
  rw [makeFolders.again] at h
  cases hmake : t.makeFolder p with
  | ok made' =>
    rw [hmake] at h
    obtain rfl := congrArg Prod.fst h
    exact makeFolder_inv hmake
  | error cause =>
    rw [hmake] at h
    dsimp only at h
    split at h
    · rename_i same hsame
      split at hsame
      · exact absurd hsame (by simp)
      · obtain ⟨rfl, hthere⟩ := unlessThere_inv hsame
        obtain rfl := congrArg Prod.fst h
        exact ⟨Extends.refl _, hthere⟩
    · exact absurd (congrArg Prod.snd h) (by simp)

theorem makeFolders_go_inv {levels : Nat} (h : makeFolders.go t p levels = (made, .ok ())) :
    Extends t made ∧ made.isFolder p = .ok true := by
  induction levels generalizing t p made with
  | zero =>
    rw [makeFolders.go] at h
    exact again_inv h
  | succ levels ih =>
    rw [makeFolders.go] at h
    split at h
    · rename_i made' hmake
      obtain rfl := congrArg Prod.fst h
      exact makeFolder_inv hmake
    · split at h
      · rename_i above habove
        obtain ⟨hfirst, -⟩ := ih habove
        obtain ⟨hsecond, hfolder⟩ := again_inv h
        exact ⟨hfirst.trans hsecond, hfolder⟩
      · exact absurd (congrArg Prod.snd h) (by simp)
    · split at h
      · rename_i same hsame
        obtain ⟨rfl, hthere⟩ := unlessThere_inv hsame
        obtain rfl := congrArg Prod.fst h
        exact ⟨Extends.refl _, hthere⟩
      · exact absurd (congrArg Prod.snd h) (by simp)

/-- Once the folders of a path have been made the path leads to a folder; there are only more
folders than before. -/
theorem makeFolders_inv (h : t.makeFolders p = (made, .ok ())) :
    Extends t made ∧ made.isFolder p = .ok true :=
  makeFolders_go_inv h

/-! ## Straight paths -/

/-- Every step upwards stands behind a folder that is there. -/
def Straight (t : Tree) (p : Path) : Prop :=
  ∀ a b, p.steps = a ++ ['.', '.'] :: b → t.isFolder ⟨p.root, a⟩ = .ok true

/-- Below a folder a path is straight if no step below leads up. -/
theorem straight_child (h : t.isFolder p = .ok true) {text : Text}
    (hup : ['.', '.'] ∉ Path.stepsOf text) : t.Straight (p.child text) := by
  intro a b hab
  rw [Path.child, Path.append] at hab ⊢
  split at hab
  · rename_i hhere
    rw [if_pos hhere]
    have hsplit : p.steps ++ Path.stepsOf text = a ++ ['.', '.'] :: b := hab
    obtain ⟨L, hresolve, -⟩ := isFolder_ok_true_iff.1 h
    obtain ⟨hnul, hwalk⟩ := resolve_ok hresolve
    rcases List.append_eq_append_iff.1 hsplit with ⟨c, -, hc⟩ | ⟨c, hc, hsteps⟩
    · exact absurd (by rw [hc]; simp) hup
    · cases c with
      | nil =>
        rw [List.nil_append] at hsteps
        exact absurd (by rw [← hsteps]; simp) hup
      | cons x c =>
        rw [hc] at hwalk hnul
        obtain ⟨m, hm, hfolder⟩ := walk_front hwalk
        refine isFolder_ok_true_iff.2 ⟨m, ?_, hfolder⟩
        rw [resolve_eq fun step hmem => hnul step (List.mem_append_left _ hmem)]
        exact hm
  · have hsteps : Path.stepsOf text = a ++ ['.', '.'] :: b := hab
    exact absurd (by rw [hsteps]; simp) hup

/-- A walk along names that do not lead up goes down by these names. -/
theorem walk_down (h : t.walk l names = .ok L) (hup : ['.', '.'] ∉ names) :
    (∀ name ∈ names, IsPlain name) ∧ L = l ++ names := by
  induction names using List.reverseRecOn generalizing L with
  | nil =>
    obtain rfl := Except.ok.inj h
    exact ⟨by simp, (List.append_nil l).symm⟩
  | append_singleton names name ih =>
    rw [List.mem_append, not_or, List.mem_singleton] at hup
    obtain ⟨above, habove, -, hname⟩ := walk_snoc h
    obtain ⟨hnames, rfl⟩ := ih habove hup.1
    rcases hname with ⟨rfl, -⟩ | ⟨hplain, rfl⟩
    · exact absurd rfl hup.2
    · refine ⟨?_, List.append_assoc _ _ _⟩
      exact List.forall_mem_append.2 ⟨hnames, List.forall_mem_singleton.2 hplain⟩

/-- A file is no folder on the way and none at the end. -/
theorem not_walk_of_file (hextends : Extends t made)
    (hfile : t.get? l = some (.file content)) (hwalk : made.walk l names = .ok F) :
    made.get? F ≠ some .folder := by
  have hmade : made.get? l = some (.file content) := by
    rcases hextends.2 l with hsame | ⟨hnone, -⟩
    · exact hsame.trans hfile
    · rw [hfile] at hnone
      exact absurd hnone (by simp)
  cases names with
  | nil =>
    obtain rfl := Except.ok.inj hwalk
    rw [hmade]
    simp
  | cons x names =>
    rw [(walk_cons hwalk).1] at hmade
    exact absurd hmade (by simp)

/-- Behind a name under which nothing stands no step of a straight way leads upwards. -/
theorem up_notMem_of_none {step : Text} (hl : t.get? l = some .folder) (hplain : IsPlain step)
    (hnone : t.get? (l ++ [step]) = none)
    (hstraight : ∀ a b, step :: names = a ++ ['.', '.'] :: b →
      ∃ m, t.walk l a = .ok m ∧ t.get? m = some .folder) : ['.', '.'] ∉ names := by
  intro hmem
  obtain ⟨a, b, hab⟩ := List.append_of_mem hmem
  obtain ⟨m, hm, hfolder⟩ := hstraight (step :: a) b (by rw [hab]; rfl)
  rw [walk_plain hl hplain] at hm
  cases a with
  | nil =>
    obtain rfl := Except.ok.inj hm
    rw [hnone] at hfolder
    exact absurd hfolder (by simp)
  | cons x a =>
    rw [(walk_cons hm).1] at hnone
    exact absurd hnone (by simp)

/-- Steps that lead to a folder once there are more folders lead to an existing folder, and on along
names under which nothing stands yet. -/
theorem exists_splits (hrooted : t.Rooted) (hextends : Extends t made)
    (hl : t.get? l = some .folder) (hwalk : made.walk l names = .ok F)
    (hF : made.get? F = some .folder)
    (hstraight : ∀ a b, names = a ++ ['.', '.'] :: b →
      ∃ m, t.walk l a = .ok m ∧ t.get? m = some .folder) :
    ∃ there missing L, Splits t l names there missing L ∧ F = L ++ missing := by
  induction names generalizing l with
  | nil =>
    obtain rfl := Except.ok.inj hwalk
    exact ⟨[], [], l, ⟨rfl, rfl, hl, by simp, by simp⟩, (List.append_nil l).symm⟩
  | cons step names ih =>
    -- the way goes on through `next` as far as that is there
    have hthrough : ∀ next, t.get? next = some .folder → made.walk next names = .ok F →
        (∀ rest, t.walk l (step :: rest) = t.walk next rest) →
        ∃ there missing L, Splits t l (step :: names) there missing L ∧ F = L ++ missing := by
      intro next hnext hmore hstep
      have hstraight' : ∀ a b, names = a ++ ['.', '.'] :: b →
          ∃ m, t.walk next a = .ok m ∧ t.get? m = some .folder := by
        intro a b hab
        obtain ⟨m, hm⟩ := hstraight (step :: a) b (by rw [hab]; rfl)
        exact ⟨m, hstep a ▸ hm⟩
      obtain ⟨there, missing, L, hsplit, hF⟩ := ih hnext hmore hstraight'
      exact ⟨step :: there, missing, L, ⟨by rw [hsplit.steps]; rfl, (hstep there).trans hsplit.walk,
        hsplit.folder, hsplit.plain, hsplit.free⟩, hF⟩
    obtain ⟨-, ⟨rfl, hmore⟩ | ⟨hplain, hmore⟩⟩ := walk_cons hwalk
    · have hup : t.get? l.dropLast = some .folder :=
        hrooted.folder_of_prefix hl (List.dropLast_prefix l)
      refine hthrough l.dropLast hup hmore fun rest => ?_
      rw [walk, hl]
      rfl
    · cases hnext : t.get? (l ++ [step]) with
      | some n =>
        cases n with
        | folder => exact hthrough _ hnext hmore fun rest => walk_plain hl hplain rest
        | file content => exact absurd hF (not_walk_of_file hextends hnext hmore)
      | none =>
        -- from here on nothing is there, so no step upwards can follow
        have hdown := up_notMem_of_none hl hplain hnext hstraight
        obtain ⟨hnames, rfl⟩ := walk_down hmore hdown
        refine ⟨[], step :: names, l, ⟨rfl, rfl, hl, List.forall_mem_cons.2 ⟨hplain, hnames⟩, ?_⟩,
          List.append_assoc _ _ _⟩
        intro name hname
        rwa [← Option.some.inj hname]

/-- Where a file can be stored on a straight path the folder for it is there or can be made. -/
theorem canHold_of_storeFile (hrooted : t.Rooted) (horigin : t.get? (t.origin p) = some .folder)
    (hstraight : Straight t p) {stored : Tree}
    (h : t.storeFile (fileIn p name) content = (stored, .ok ())) : ∃ F, CanHold t p F := by
  rw [storeFile, parent_fileIn] at h
  split at h
  · exact absurd (congrArg Prod.snd h) (by simp)
  · rename_i made hmake
    obtain ⟨hextends, hfolder⟩ := makeFolders_inv hmake
    obtain ⟨F, hresolve, hF⟩ := isFolder_ok_true_iff.1 hfolder
    obtain ⟨hnul, hwalk⟩ := resolve_ok hresolve
    rw [hextends.origin] at hwalk
    obtain ⟨there, missing, L, hsplits, rfl⟩ :=
      exists_splits hrooted hextends horigin hwalk hF fun a b hab => by
        obtain ⟨m, hm, hfolder⟩ := isFolder_ok_true_iff.1 (hstraight a b hab)
        exact ⟨m, (resolve_ok hm).2, hfolder⟩
    exact ⟨_, hrooted, there, missing, L, ⟨hsplits, hnul⟩, rfl⟩

/-- Where a file is, the folder for it is there. -/
theorem canHold_of_isThere (hrooted : t.Rooted) (h : t.isThere (fileIn p name) = .ok true) :
    ∃ F, CanHold t p F := by
  obtain ⟨l, n, hresolve, -, -⟩ := asks_ok_true_iff.1 h
  obtain ⟨hnul, hwalk⟩ := resolve_ok hresolve
  obtain ⟨above, habove, hfolder, -⟩ := walk_snoc hwalk
  refine ⟨above, hrooted, p.steps, [], above,
    ⟨⟨(List.append_nil _).symm, habove, hfolder, by simp, by simp⟩, ?_⟩, (List.append_nil _).symm⟩
  exact fun step hmem => hnul step (List.mem_append_left _ hmem)

/-! ## What is stored -/

/-- A file that was stored holds what was stored in it. -/
theorem contents_of_storeFile {stored : Tree} (h : t.storeFile p content = (stored, .ok ())) :
    stored.contents p = .ok content := by
  rw [storeFile] at h
  split at h
  · exact absurd (congrArg Prod.snd h) (by simp)
  · rename_i made hmake
    split at h
    · rename_i written hwrite
      obtain rfl := congrArg Prod.fst h
      cases hplace : made.place p .isAFolder with
      | error cause =>
        rw [writeFile, hplace] at hwrite
        exact absurd hwrite (by simp [about, bind, Except.bind])
      | ok l =>
        obtain ⟨names, name, above, hsteps, hnul, hwalk, hfolder, hname, rfl⟩ := place_inv hplace
        have hnew : made.get? (above ++ [name]) ≠ some .folder := by
          intro hget
          rw [writeFile, hplace] at hwrite
          simp only [bind, Except.bind, hget] at hwrite
          exact absurd hwrite (by simp [about])
        rw [writeFile_of_place hplace hnew] at hwrite
        obtain rfl := Except.ok.inj hwrite
        have hne : above ++ [name] ≠ [] := by simp
        have hfolders (k : Location) (hk : made.get? k = some .folder) :
            (made.insert (above ++ [name]) (.file content)).get? k = some .folder := by
          rw [get?_insert hne, if_neg, hk]
          rintro rfl
          exact hnew hk
        have hresolve : (made.insert (above ++ [name]) (.file content)).resolve p =
            .ok (above ++ [name]) := by
          rw [resolve_eq hnul, hsteps, walk_append]
          have horigin : (made.insert (above ++ [name]) (.file content)).origin p = made.origin p :=
            rfl
          rw [horigin, walk_of_folders hfolders hwalk]
          exact walk_plain (hfolders above hfolder) hname []
        refine contents_of_resolve hresolve ?_
        rw [get?_insert hne, if_pos rfl]
    · exact absurd (congrArg Prod.snd h) (by simp)

end RazorViews.Tree
