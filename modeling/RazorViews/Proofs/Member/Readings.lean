import RazorViews.Proofs.Canonical.Signature
import RazorViews.Proofs.Member.Depth
import RazorViews.Proofs.Source.Groups

/-!
# Where a scan finds its properties

A scan joins the lines of an annotation that goes on over several of them, and may find a property
behind it.  On which line the property stands is then a question, and the number that it is given is
that of the line on which it is found.

Lines are set aside only while the annotation is open, so the bracket that closes it stands on the
last of the lines joined, and the signature stands behind that bracket.  So whatever the scan finds
when it takes a line, it finds on that line alone: `Scan.mem_run`.  Of regions and whole texts this
is said by `mem_recognize`: a candidate has its signature on its line of the erased source, and the
line is one of the region.

The lines are taken in order, so the candidates stand on different lines further and further down:
`pairwise_recognize`.  No line gives two of them, even if it holds two properties.
-/

namespace RazorViews.Member

open Pattern Canonical

/-! ## Signatures -/

/-- The name and the type stand in the text that they are read from. -/
theorem readSignature?_eq_some {t name rawType : Text}
    (h : readSignature? t = some (name, rawType)) :
    ∃ front type gap behind, t = front ++ type ++ gap ++ name ++ behind ∧
      memberType.Takes type ∧ identifier.Takes name ∧ rawType = Text.trim type := by
  obtain ⟨f, hf, hkept⟩ := Option.bind_eq_some_iff.1 h
  obtain ⟨hleads, -, -⟩ := foundAt?_eq_some hf
  obtain ⟨mods, type, gap, word, gap', rest, rfl, -, htype, -, hword, -, hlast⟩ :=
    signature_reads hleads
  have hname : f.kept? "name" = some word := by
    rw [Found.kept?, hlast]
    rfl
  have hread : f.kept? "type" = some type := by
    rw [Found.kept?, hlast]
    rfl
  rw [hname, hread] at hkept
  obtain ⟨rfl, rfl⟩ : word = name ∧ Text.trim type = rawType := by simpa using hkept
  exact ⟨mods, type, gap, gap' ++ '{' :: rest, by simp only [List.append_assoc], htype, hword, rfl⟩

/-- The line holds a signature with this name and type. -/
def IsSignedOn (name rawType line : Text) : Prop :=
  ∃ t, t <:+: line ∧ readSignature? t = some (name, rawType)

variable {name rawType line : Text}

theorem IsSignedOn.of_isInfix {longer : Text} (h : IsSignedOn name rawType line)
    (hin : line <:+: longer) : IsSignedOn name rawType longer := by
  obtain ⟨t, ht, hread⟩ := h
  exact ⟨t, ht.trans hin, hread⟩

theorem isSignedOn_trim {back : Text} (hback : back <:+ line)
    (h : readSignature? (Text.trim back) = some (name, rawType)) :
    IsSignedOn name rawType line :=
  ⟨_, (Text.trim_isInfix back).trans hback.isInfix, h⟩

/-! ## One line -/

/-- Lines are set aside only while they leave an annotation open. -/
def Scan.HoldsOpen (s : Scan) : Prop :=
  s.held ≠ [] → (Annotations.split (joinLines s.held).erased).unfinished = true

/-- Behind a line, lines are set aside as they should be, and what has been found stands on the
line. -/
structure ReadsOn (line : Text) (result : Scan × Option Finding) : Prop where
  holdsOpen : result.1.HoldsOpen
  isSignedOn : ∀ f ∈ result.2, IsSignedOn f.name f.rawType line

theorem Scan.holdsOpen_of_nil {s : Scan} (h : s.held = []) : s.HoldsOpen := fun hne => absurd h hne

theorem join_concat (sep : Text) {pieces : List Text} (h : pieces ≠ []) (piece : Text) :
    Text.join sep (pieces ++ [piece]) = Text.join sep pieces ++ (sep ++ piece) := by
  induction pieces with
  | nil => exact absurd rfl h
  | cons first pieces ih =>
    cases pieces with
    | nil =>
      rw [List.singleton_append, Text.join_cons_cons, Text.join_singleton, Text.join_singleton]
    | cons second pieces =>
      rw [List.cons_append, List.cons_append, Text.join_cons_cons, ← List.cons_append,
        ih (List.cons_ne_nil second pieces), Text.join_cons_cons]
      simp only [List.append_assoc]

theorem joinLines_singleton (l : Line) : joinLines [l] = l := by
  obtain ⟨erased, raw⟩ := l
  cases raw with
  | none => simp [joinLines]
  | some raw => simp [joinLines]

theorem erased_joinLines_concat {held : List Line} (h : held ≠ []) (l : Line) :
    (joinLines (held ++ [l])).erased = (joinLines held).erased ++ ' ' :: l.erased := by
  have hne : held.map Line.erased ≠ [] := fun hnil => h (List.map_eq_nil_iff.1 hnil)
  rw [joinLines, joinLines, List.map_append, List.map_singleton, join_concat _ hne]
  rfl

/-- A line is read as one with the lines set aside before it. -/
theorem Scan.readBodyLine_eq (s : Scan) (l : Line) :
    s.readBodyLine l =
      if maxAnnotationLines < (s.held ++ [l]).length then
        ({ s with held := [], pending := [] }, none)
      else if (Annotations.split (joinLines (s.held ++ [l])).erased).unfinished then
        ({ s with held := s.held ++ [l] }, none)
      else { s with held := [] }.readMember (joinLines (s.held ++ [l])) := by
  rw [readBodyLine]
  split
  · rename_i hnone
    obtain ⟨inClass, inBody, depth, entryDepth, pending, held⟩ := s
    obtain rfl : held = [] := List.isEmpty_iff.1 hnone
    have hone : ¬ maxAnnotationLines < ([l] : List Line).length :=
      Nat.not_lt.2 (Nat.le_of_ble_eq_true rfl)
    rw [List.nil_append, joinLines_singleton, if_neg hone]
  · rfl

/-- A member is read from what follows the annotations. -/
theorem Scan.readMember_spec (s : Scan) (l : Line) :
    (s.readMember l).1.held = s.held ∧ ∀ f ∈ (s.readMember l).2,
      readSignature? (Annotations.split l.erased).rest = some (f.name, f.rawType) := by
  rw [readMember]
  split
  · exact ⟨rfl, fun f hf => absurd hf (by simp)⟩
  · split
    · exact ⟨rfl, fun f hf => absurd hf (by simp)⟩
    · rename_i name rawType hread
      refine ⟨rfl, ?_⟩
      intro f hf
      obtain rfl := Option.some.inj hf
      exact hread

theorem Scan.readsOn_readBodyLine {s : Scan} (h : s.HoldsOpen) (l : Line) :
    ReadsOn l.erased (s.readBodyLine l) := by
  rw [readBodyLine]
  split
  · rename_i hheld
    split
    · rename_i hopen
      exact ⟨fun _ => by simpa [joinLines] using hopen, fun f hf => absurd hf (by simp)⟩
    · obtain ⟨hsame, hfound⟩ := s.readMember_spec l
      obtain ⟨back, hback, hrest⟩ := Annotations.exists_rest l.erased
      refine ⟨holdsOpen_of_nil (hsame.trans (List.isEmpty_iff.1 hheld)), ?_⟩
      intro f hf
      exact isSignedOn_trim hback (hrest ▸ hfound f hf)
  · rename_i hheld
    have hne : s.held ≠ [] := fun hnil => hheld (List.isEmpty_iff.2 hnil)
    dsimp only
    split
    · exact ⟨holdsOpen_of_nil rfl, fun f hf => absurd hf (by simp)⟩
    · split
      · rename_i hopen
        exact ⟨fun _ => hopen, fun f hf => absurd hf (by simp)⟩
      · rename_i hclosed
        obtain ⟨hsame, hfound⟩ := { s with held := [] }.readMember_spec (joinLines (s.held ++ [l]))
        refine ⟨holdsOpen_of_nil hsame, ?_⟩
        intro f hf
        -- the lines before leave the annotation open, so the signature is on this one
        rw [Bool.not_eq_true, erased_joinLines_concat hne] at hclosed
        obtain ⟨back, hback, hrest⟩ := Annotations.exists_rest_of_unfinished (h hne) hclosed
        have hread := hfound f hf
        rw [erased_joinLines_concat hne, hrest] at hread
        rcases List.suffix_cons_iff.1 hback with rfl | hback
        · rw [Text.trim, Text.trimLeft, List.dropWhile_cons_of_pos (by decide)] at hread
          exact isSignedOn_trim (List.suffix_refl l.erased) hread
        · exact isSignedOn_trim hback hread

theorem Scan.holdsOpen_leave {s : Scan} (h : s.HoldsOpen) : s.leave.HoldsOpen := by
  rw [leave]
  split
  · exact holdsOpen_of_nil rfl
  · exact h

theorem Scan.readsOn_stepBody {s : Scan} (h : s.HoldsOpen) (l : Line) :
    ReadsOn l.erased (s.stepBody l) := by
  rw [stepBody]
  dsimp only
  split
  · exact ⟨h, fun f hf => absurd hf (by simp)⟩
  · have hread :=
      readsOn_readBodyLine (s := { s with depth := s.depth + braceBalance l.erased }) h l
    exact ⟨holdsOpen_leave hread.holdsOpen, hread.isSignedOn⟩

theorem Scan.readsOn_stepClass {s : Scan} (h : s.HoldsOpen) (l : Line) :
    ReadsOn l.erased (s.stepClass l) := by
  rw [stepClass]
  split
  · exact readsOn_stepBody h l
  · split
    · exact ⟨h, fun f hf => absurd hf (by simp)⟩
    · rename_i rest hrest
      have hread := readsOn_stepBody (s := { s with depth := s.depth + 1, inBody := true }) h rest
      refine ⟨hread.holdsOpen, ?_⟩
      intro f hf
      -- what is read of the line is a piece behind its brace
      obtain ⟨⟨front, after⟩, hcut, rfl⟩ := Option.map_eq_some_iff.1 hrest
      have hin : Text.trim after <:+: l.erased := by
        obtain ⟨hline, -⟩ := cutAtBrace?_eq_some_iff.1 hcut
        rw [hline]
        have hback : after <:+ front ++ '{' :: after :=
          (List.suffix_cons '{' after).trans (List.suffix_append front _)
        exact (Text.trim_isInfix after).trans hback.isInfix
      exact (hread.isSignedOn f hf).of_isInfix hin

/-- Whatever a scan finds when it takes a line stands on that line. -/
theorem Scan.readsOn_step {s : Scan} (h : s.HoldsOpen) (entering : Bool) (l : Line) :
    ReadsOn l.erased (s.step entering l) := by
  rw [step]
  split
  · exact readsOn_stepClass h l
  · split
    · exact readsOn_stepClass (s := s.enter) h l
    · exact ⟨h, fun f hf => absurd hf (by simp)⟩

/-! ## Runs -/

theorem Scan.holdsOpen_past {s : Scan} (h : s.HoldsOpen) (entering : Bool) (ls : List Line) :
    (s.past entering ls).HoldsOpen := by
  induction ls generalizing s entering with
  | nil => exact h
  | cons l ls ih => exact ih (s.readsOn_step h entering l).holdsOpen false

/-- A candidate stands on the line that its number says. -/
theorem Scan.mem_run {s : Scan} (h : s.HoldsOpen) {entering : Bool} {index : Nat} {ls : List Line}
    {c : Candidate} (hc : c ∈ s.run entering index ls) :
    ∃ k l, ls[k]? = some l ∧ c.line = index + k ∧ IsSignedOn c.name c.rawType l.erased := by
  obtain ⟨front, l, back, rfl, f, hf, rfl⟩ := exists_of_mem_run hc
  have hread := readsOn_step (holdsOpen_past h entering front) (entering && front.isEmpty) l
  refine ⟨front.length, l, ?_, rfl, hread.isSignedOn f hf⟩
  rw [List.getElem?_append_right (Nat.le_refl _), Nat.sub_self, List.getElem?_cons_zero]

theorem Scan.le_line_of_mem_run {s : Scan} {entering : Bool} {index : Nat} {ls : List Line}
    {c : Candidate} (hc : c ∈ s.run entering index ls) : index ≤ c.line := by
  obtain ⟨front, -, -, -, f, -, rfl⟩ := exists_of_mem_run hc
  exact Nat.le_add_right index front.length

/-- Each candidate stands further down than the one before. -/
theorem Scan.pairwise_run (s : Scan) (entering : Bool) (index : Nat) (ls : List Line) :
    (s.run entering index ls).Pairwise fun c d => c.line < d.line := by
  induction ls generalizing s entering index with
  | nil => exact .nil
  | cons l ls ih =>
    have hone : ∀ found : Option Candidate, found.toList.Pairwise fun c d => c.line < d.line := by
      intro found
      cases found with
      | none => exact .nil
      | some c => exact List.pairwise_singleton _ c
    refine List.pairwise_append.2 ⟨hone _, ih _ _ _, ?_⟩
    intro c hc d hd
    obtain ⟨f, -, rfl⟩ := Option.map_eq_some_iff.1 (Option.mem_toList.1 hc)
    exact le_line_of_mem_run hd

/-! ## Recognition -/

variable {erased : Text} {raw : Option Text} {region : Option ClassRegion} {c : Candidate}

theorem getElem?_pairLines {k : Nat} {l : Line} (h : (pairLines erased raw)[k]? = some l) :
    ∃ t, (Text.lines erased)[k]? = some t ∧ l.erased = Text.trim t := by
  have hmap := congrArg (·[k]?) (map_erased_pairLines erased raw)
  simp only [List.getElem?_map, h, Option.map_some] at hmap
  obtain ⟨t, ht, htrim⟩ := Option.map_eq_some_iff.1 hmap.symm
  exact ⟨t, ht, htrim.symm⟩

/-- A candidate has its signature on its line of the erased source, and the line is one of the
region. -/
theorem mem_recognize (hc : c ∈ recognize erased raw region) :
    (∃ t, (Text.lines erased)[c.line]? = some t ∧ IsSignedOn c.name c.rawType t) ∧
      ∀ r ∈ region, r.firstLine ≤ c.line ∧ c.line ≤ r.lastLine := by
  have hstart : Scan.start.HoldsOpen := Scan.holdsOpen_of_nil rfl
  have hsigned : ∀ l, (pairLines erased raw)[c.line]? = some l →
      IsSignedOn c.name c.rawType l.erased →
      ∃ t, (Text.lines erased)[c.line]? = some t ∧ IsSignedOn c.name c.rawType t := by
    intro l hl hon
    obtain ⟨t, ht, htrim⟩ := getElem?_pairLines hl
    exact ⟨t, ht, (htrim ▸ hon).of_isInfix (Text.trim_isInfix t)⟩
  cases region with
  | none =>
    obtain ⟨k, l, hl, hline, hon⟩ := Scan.mem_run hstart hc
    rw [Nat.zero_add] at hline
    exact ⟨hsigned l (hline ▸ hl) hon, fun r hr => absurd hr (by simp)⟩
  | some r =>
    obtain ⟨k, l, hl, hline, hon⟩ := Scan.mem_run hstart hc
    rw [List.getElem?_drop, ← hline, List.getElem?_take] at hl
    split at hl
    · rename_i hlast
      refine ⟨hsigned l hl hon, ?_⟩
      intro r' hr'
      obtain rfl := Option.some.inj hr'
      exact ⟨by omega, by omega⟩
    · exact absurd hl (by simp)

theorem pairwise_recognize (erased : Text) (raw : Option Text) (region : Option ClassRegion) :
    (recognize erased raw region).Pairwise fun c d => c.line < d.line := by
  cases region with
  | none => exact Scan.pairwise_run _ _ _ _
  | some r => exact Scan.pairwise_run _ _ _ _

end RazorViews.Member
