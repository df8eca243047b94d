import RazorViews.Proofs.Member.Recovery
import RazorViews.Property.InputKind
import RazorViews.Property.Rules

/-!
# Judging candidates with and without the source

The recognizer reads erased lines, and where it is given the source as well, it recovers from that
what stood between the quotes of an annotation.  The rules by which properties are left out, and the
words that ask for a kind of input, look at the name of a candidate, its type, and what erasing
leaves of its annotations.

## What is proved

`judgedAlike_recognize`: candidates that are recognized with the source beside the erased text and
without it stand one beside the other, as many and in the same order, and each two are left out for
the same reason or kept, are classified alike and ask for the same kind of input.  That the two have
the same name, type and line besides is said in `forall₂_recognize_recovered`.

## The hypothesis

Recovered annotations are scanned once more, comments included, and their lines are joined by
spaces.  So comments and longer literals must keep off brackets (`KeepsOff`): none stands where a
bracket is open, and no bracket opens behind one on its line.  Without that the statement fails, and
in ordinary source: in

    [Display(Name = "Name"), // shown in the form
     Required] public string? X { get; set; }

the second annotation becomes part of the comment when the two lines are joined, and what it asks
for is lost (`not_judgedAlike_commented`).  That candidates stand one beside the other with the same
outline needs no hypothesis (`map_outline_recognize`).

## The proof

What is recovered of an annotation is the same as what the erased lines say once both are erased
again (`facts_of_recovered`), and the rules ask for nothing else.
-/

namespace RazorViews.Property

open Source Member

/-- Both candidates are left out for the same reason or kept, and those that are kept are classified
alike and ask for the same kind of input. -/
structure JudgedAlike (c d : Candidate) : Prop where
  skipReason : ∀ skipIdentity, Rules.skipReason? c skipIdentity = Rules.skipReason? d skipIdentity
  classification : Rules.classify c = Rules.classify d
  inputKind : InputKind.ofAttributes? c.attributes = InputKind.ofAttributes? d.attributes

variable {c d : Candidate}

theorem facts_of_recovered (h : c.Alike Recovered d) (skipIdentity : Bool) :
    Rules.facts c skipIdentity = Rules.facts d skipIdentity := by
  have hkeywords : Rules.keywords c.attributes = Rules.keywords d.attributes := h.attributes
  rw [Rules.facts, Rules.facts, h.name, h.rawType, hkeywords]

theorem ofAttributes?_of_recovered {as bs : List Text} (h : Recovered as bs) :
    InputKind.ofAttributes? as = InputKind.ofAttributes? bs := by
  have hlowered : ∀ ts : List Text,
      (ts.map fun t => Text.lower (erase t)) = (ts.map erase).map Text.lower := by
    intro ts
    rw [List.map_map]
    rfl
  rw [InputKind.ofAttributes?, InputKind.ofAttributes?, hlowered, hlowered, h]

/-- What erasing leaves of the annotations decides. -/
theorem judgedAlike_of_recovered (h : c.Alike Recovered d) : JudgedAlike c d where
  skipReason := by
    intro skipIdentity
    rw [Rules.skipReason?, Rules.skipReason?, facts_of_recovered h]
  classification := by
    rw [Rules.classify, Rules.classify, facts_of_recovered h, h.rawType]
  inputKind := ofAttributes?_of_recovered h.attributes

/-- **Recovering literals changes no judgement**, where comments and longer literals keep off
brackets. -/
theorem judgedAlike_recognize {source : Text} (h : KeepsOff source)
    (region : Option ClassRegion) :
    List.Forall₂ JudgedAlike (recognize (erase source) (some source) region)
      (recognize (erase source) none region) :=
  (forall₂_recognize_recovered h region).imp fun _ _ => judgedAlike_of_recovered

/-- A class with a caption that holds the word `Key`, and with comments that hold annotations. -/
def captioned : Text :=
  "class P // has no [Key]\n\x7b\n    [Display(Name = \"Key\")] // [Required]\n".toList ++
    "    [Form(@\"^\\d*$\",\n     Last)]\n    public int? X \x7b get; set; \x7d\n\x7d\n".toList

theorem judgedAlike_captioned :
    KeepsOff captioned ∧
      recognize (erase captioned) (some captioned) none ≠ recognize (erase captioned) none none ∧
      List.Forall₂ JudgedAlike (recognize (erase captioned) (some captioned) none)
        (recognize (erase captioned) none none) := by
  have hkeeps : KeepsOff captioned := by decide +kernel
  exact ⟨hkeeps, by decide +kernel, judgedAlike_recognize hkeeps none⟩

/-- A class in which a comment stands inside an annotation that goes on on the next line. -/
def commented : Text :=
  "class P\n\x7b\n    [Display(Name = \"Name\"), // shown in the form\n     Required]\n".toList ++
    "    public string? X \x7b get; set; \x7d\n\x7d\n".toList

/-- Joined with the line before, the next line becomes part of the comment, and what it asks for is
lost with it. -/
theorem not_judgedAlike_commented :
    ¬ List.Forall₂ JudgedAlike (recognize (erase commented) (some commented) none)
      (recognize (erase commented) none none) := by
  have hraw : recognize (erase commented) (some commented) none =
      [⟨"X".toList, "string?".toList,
        ["Display(Name = \"Name\"), // shown in the form Required".toList], 4⟩] := by
    decide +kernel
  have herased : recognize (erase commented) none none =
      [⟨"X".toList, "string?".toList, ["Display(Name = \"\"), Required".toList], 4⟩] := by
    decide +kernel
  rw [hraw, herased]
  intro h
  cases h with
  | cons halike _ =>
    have hrequired := congrArg Rules.Classification.isRequired halike.classification
    exact absurd hrequired (by decide +kernel)

end RazorViews.Property
