import RazorViews.Proofs.Member.Readings
import RazorViews.Proofs.Property.Bounds
import RazorViews.Proofs.Property.Check
import RazorViews.Proofs.TypeName.Clean
import RazorViews.Property.Extract

/-!
# Which extractions succeed

## What is proved

Whatever the source, the candidates that are recognized in it are sound: each has a name and a type,
as its signature gave them.  Building a property from a candidate that is kept can fail in two ways
only: nothing is left of its type in the usual spelling, which happens to the bare prefix `System.`
and to no other type, or an annotation gives a length bound in more digits than are read.

`extract_ok_iff` says so of every source, every name of a class, whether or not keys are left out:

* all candidates pass the check for candidates;
* there is a list exactly if every candidate that is kept can be built, and which ones can is said
  in terms of the type as written and of the annotations as written;
* all properties of the list pass the check for properties, so what is extracted can be handed on
  as data without a further look;
* a failure is one of the two, and names the field or the count of digits.

## What it is not

That a failure can come about at all is a matter of `not_ok_halfTyped`: a source of one line is
enough.  Here nothing is said about which candidates there are; that is the recognizer's part.

## The proof

A type as written is never empty and is spelled out anew by `TypeName.clean`; that the result is
empty for one text only is a fact about the shape of types.  Bounds are read by `Metadata.add`,
which fails exactly on numerals that are too long (`ofAttributes_cases`).
-/

namespace RazorViews.Member

open Pattern Canonical

/-- The name and the type have been read from a signature. -/
def IsRead (name rawType : Text) : Prop := ∃ t, readSignature? t = some (name, rawType)

theorem isRead_of_recognize {erased : Text} {raw : Option Text} {region : Option ClassRegion}
    {c : Candidate} (h : c ∈ recognize erased raw region) : IsRead c.name c.rawType := by
  obtain ⟨⟨_, -, t, -, hread⟩, -⟩ := mem_recognize h
  exact ⟨t, hread⟩

/-! ## What a signature gives -/

/-- The type that a signature gives is one of a member without the white space around it, and
neither it nor the name is empty. -/
theorem IsRead.shape {name rawType : Text} (h : IsRead name rawType) :
    name ≠ [] ∧ rawType ≠ [] ∧ ∃ u, memberType.Takes u ∧ rawType = Text.trim u := by
  obtain ⟨t, ht⟩ := h
  obtain ⟨_, type, _, _, -, htype, hword, rfl⟩ := readSignature?_eq_some ht
  refine ⟨(takes_identifier hword).1, ?_, type, htype, rfl⟩
  obtain ⟨c, _, _, rfl, hc, -⟩ := exists_word_of_takes htype
  have hword := isWord_of_isAsciiWord (isAsciiWord_of_isIdentifierStart hc)
  exact List.ne_nil_of_mem (Text.mem_trim List.mem_cons_self (Text.not_isBlank_of_isWord hword))

end RazorViews.Member

namespace RazorViews.Property

/-! ## Building a property -/

/-- The type of the candidate is not all prefix, and its annotations can be read. -/
def IsBuildable (c : Candidate) : Prop :=
  c.rawType ≠ "System.".toList ∧ ∀ body ∈ c.attributes, Metadata.IsReadable body

/-- The failures that an extraction can end with. -/
def IsExpected (failure : Failure) : Prop :=
  failure = .invalid [⟨["declared_type".toList], .textTooShort⟩] ∨
    ∃ n, Number.maxDigits < n ∧ failure = .tooManyDigits n

theorem ofCandidate_cases {c : Candidate} (hc : Member.IsRead c.name c.rawType) (className : Text) :
    (∃ events p, ofCandidate c className = (events, .ok p) ∧ check (.record p.fields) = .good p ∧
      IsBuildable c) ∨
    ∃ events failure, ofCandidate c className = (events, .error failure) ∧ IsExpected failure ∧
      ¬ IsBuildable c := by
  obtain ⟨hname, -, u, hu, htype⟩ := hc.shape
  have hclean : TypeName.clean c.rawType = [] ↔ c.rawType = "System.".toList := by
    rw [htype]
    exact TypeName.clean_eq_nil_iff hu
  rcases Metadata.ofAttributes_cases c.attributes with
    ⟨m, hm, hreadable⟩ | ⟨n, hm, hlt, hreadable⟩
  · have hdeclared : (Rules.classify c).declaredType = TypeName.clean c.rawType := rfl
    by_cases hsystem : c.rawType = "System.".toList
    · right
      have hfaults : emptyFaults c.name (Rules.classify c).declaredType =
          [⟨["declared_type".toList], .textTooShort⟩] := by
        rw [hdeclared, hclean.2 hsystem, emptyFaults, if_neg (by simpa using hname)]
        rfl
      have hfail : (ofCandidate c className).2 =
          .error (.invalid [⟨["declared_type".toList], .textTooShort⟩]) := by
        simp only [ofCandidate, hm, hfaults]
      exact ⟨_, _, Prod.ext rfl hfail, .inl rfl, fun h => h.1 hsystem⟩
    · left
      have hne : (Rules.classify c).declaredType ≠ [] := fun h => hsystem (hclean.1 h)
      have hfaults : emptyFaults c.name (Rules.classify c).declaredType = [] := by
        rw [emptyFaults, if_neg (by simpa using hname), if_neg (by simpa using hne)]
        rfl
      refine ⟨_, _, by simp only [ofCandidate, hm, hfaults]; rfl, ?_, hsystem, hreadable⟩
      exact check_fields hname hne
  · right
    refine ⟨[], .tooManyDigits n, ?_, .inr ⟨n, hlt, rfl⟩, fun h => hreadable h.2⟩
    simp only [ofCandidate, hm]

/-! ## Building all of them -/

/-- All properties are built and check, or the first candidate that cannot be built ends the
extraction. -/
theorem ofCandidates_cases (skipIdentity : Bool) (className : Text) {cs : List Candidate}
    (hcs : ∀ c ∈ cs, Member.IsRead c.name c.rawType) :
    (∃ events ps, ofCandidates skipIdentity className cs = (events, .ok ps) ∧
      (∀ p ∈ ps, check (.record p.fields) = .good p) ∧
        ∀ c ∈ cs, Rules.skipReason? c skipIdentity = none → IsBuildable c) ∨
    ∃ events failure, ofCandidates skipIdentity className cs = (events, .error failure) ∧
      IsExpected failure ∧
        ¬ ∀ c ∈ cs, Rules.skipReason? c skipIdentity = none → IsBuildable c := by
  induction cs with
  | nil => exact .inl ⟨[], [], rfl, by simp, by simp⟩
  | cons c cs ih =>
    obtain ⟨hc, hrest⟩ := List.forall_mem_cons.1 hcs
    rw [ofCandidates]
    cases hskip : Rules.skipReason? c skipIdentity with
    | some reason =>
      have hskipped : Rules.skipReason? c skipIdentity = none → IsBuildable c := by
        intro h
        rw [hskip] at h
        cases h
      rcases ih hrest with ⟨events, ps, heq, hcheck, hall⟩ | ⟨events, failure, heq, hfailure, hnot⟩
      · exact .inl ⟨_, ps, by rw [heq], hcheck, List.forall_mem_cons.2 ⟨hskipped, hall⟩⟩
      · exact .inr ⟨_, failure, by rw [heq], hfailure, fun h => hnot (List.forall_mem_cons.1 h).2⟩
    | none =>
      rcases ofCandidate_cases hc className with
        ⟨first, p, hbuilt, hgood, hbuildable⟩ | ⟨first, failure, hbuilt, hfailure, hnot⟩
      · rcases ih hrest with
          ⟨events, ps, heq, hcheck, hall⟩ | ⟨events, failure, heq, hfailure, hnot⟩
        · refine .inl ⟨first ++ events, p :: ps, by rw [hbuilt, heq]; rfl,
            List.forall_mem_cons.2 ⟨hgood, hcheck⟩, ?_⟩
          exact List.forall_mem_cons.2 ⟨fun _ => hbuildable, hall⟩
        · refine .inr ⟨first ++ events, failure, by rw [hbuilt, heq]; rfl, hfailure, ?_⟩
          exact fun h => hnot (List.forall_mem_cons.1 h).2
      · refine .inr ⟨first, failure, by rw [hbuilt], hfailure, ?_⟩
        exact fun h => hnot ((List.forall_mem_cons.1 h).1 hskip)

theorem result_extract (skipIdentity : Bool) (source className : Text) :
    (extract skipIdentity source className).2 =
      (ofCandidates skipIdentity className (candidates source className)).2 := rfl

/-- **Which extractions succeed.**  Of every source, all candidates check; the extraction yields a
list exactly if every candidate that is kept can be built; all properties in the list check; and
otherwise it ends with an empty type or a numeral of too many digits. -/
theorem extract_ok_iff (skipIdentity : Bool) (source className : Text) :
    (∀ c ∈ candidates source className, Candidate.check (.record c.fields) = .good c) ∧
    ((∃ ps, (extract skipIdentity source className).2 = .ok ps) ↔
      ∀ c ∈ candidates source className, Rules.skipReason? c skipIdentity = none →
        c.rawType ≠ "System.".toList ∧ ∀ body ∈ c.attributes, Metadata.IsReadable body) ∧
    (∀ ps, (extract skipIdentity source className).2 = .ok ps →
      ∀ p ∈ ps, check (.record p.fields) = .good p) ∧
    ∀ failure, (extract skipIdentity source className).2 = .error failure →
      failure = .invalid [⟨["declared_type".toList], .textTooShort⟩] ∨
        ∃ n, Number.maxDigits < n ∧ failure = .tooManyDigits n := by
  have hread : ∀ c ∈ candidates source className, Member.IsRead c.name c.rawType :=
    fun c hc => Member.isRead_of_recognize hc
  refine ⟨?_, ?_⟩
  · intro c hc
    obtain ⟨hname, htype, -⟩ := (hread c hc).shape
    exact Candidate.check_fields hname htype
  · rw [result_extract]
    rcases ofCandidates_cases skipIdentity className hread with
      ⟨events, ps, heq, hcheck, hall⟩ | ⟨events, failure, heq, hfailure, hnot⟩
    · rw [heq]
      refine ⟨⟨fun _ => hall, fun _ => ⟨ps, rfl⟩⟩, ?_, ?_⟩
      · intro ps' h
        obtain rfl := Except.ok.inj h
        exact hcheck
      · intro failure h
        cases h
    · rw [heq]
      refine ⟨⟨?_, fun h => absurd h hnot⟩, ?_, ?_⟩
      · rintro ⟨ps, h⟩
        cases h
      · intro ps h
        cases h
      · intro failure' h
        obtain rfl := Except.error.inj h
        exact hfailure

/-! ## A type that is being written -/

/-- A property whose type has got as far as its namespace. -/
def halfTyped : Text := "class P\n\x7b\nSystem. X \x7b get; \x7d\n\x7d\n".toList

/-- The extraction fails there, although a class, a candidate and its name are recognized. -/
theorem not_ok_halfTyped : ¬ ∃ ps, (extract false halfTyped ['P']).2 = .ok ps := by
  intro h
  have hcandidates : candidates halfTyped ['P'] =
      [⟨['X'], "System.".toList, [], 2⟩] := by
    decide +kernel
  have hall := (extract_ok_iff false halfTyped ['P']).2.1.1 h
  rw [hcandidates] at hall
  exact (hall _ List.mem_cons_self (by decide +kernel)).1 rfl

end RazorViews.Property
