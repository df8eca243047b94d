import Mathlib.Data.List.Find
import Mathlib.Logic.Relation
import RazorViews.Proofs.Pattern.Seam
import RazorViews.Proofs.Property.Judged
import RazorViews.Proofs.Source.Exchange

/-!
# Grouping annotations and ordering them

Annotations may stand in brackets of their own or, parted by commas, in one bracket, and in any
order.  None of this means anything to the language.

## What is proved

`judgedAlike_regrouped`: a candidate and one with the same annotations, but for grouping, order and
repetition, are left out for the same reason or kept, are classified alike and ask for the same kind
of input.  `Regrouped` is one step of this: another order, an annotation that stands twice, or two
that are put together in one bracket.  Any number of steps may be taken, in whatever order.

## The hypothesis

No comment and no literal is open at the end of an annotation.  Otherwise what is put behind it
would be part of it, and would ask for nothing any more.  The steps keep this up
(`Regrouped.isClosed`), so it is asked of the candidate only.

## What it is not

Captions and bounds of lengths are read in another way, and there grouping does matter: which of two
annotations decides when they are put together is said in `ofAttributes_merged_iff`.

## The proof

Whatever the rules and the words for kinds of input ask of annotations, they ask whether some
annotation passes a test, and each test passes a text put together at a comma and a space just if it
passes one of the parts (`Parts`): no word that is looked for holds a comma.  Where nothing is open
at the end, erasing goes on behind the comma as from the start (`lexemes_merged`).
-/

namespace RazorViews.Property

open Source

/-! ## Regrouping -/

/-- The annotations stand in another order, the first one stands twice, or the first two are put
together. -/
inductive Regrouped : List Text → List Text → Prop
  | permuted {as bs : List Text} : as.Perm bs → Regrouped as bs
  | repeated (a : Text) (as : List Text) : Regrouped (a :: as) (a :: a :: as)
  | merged (a b : Text) (as : List Text) :
      Regrouped (a :: b :: as) ((a ++ ',' :: ' ' :: b) :: as)

variable {as bs : List Text} {a : Text}

theorem lexemes_merged (ha : IsClosed a) (b : Text) :
    lexemes (a ++ ',' :: ' ' :: b) = lexemes a ++ .code ',' :: .code ' ' :: lexemes b := by
  have hspace : lexemes (' ' :: b) = .code ' ' :: lexemes b := lexemes_of_next rfl
  rw [lexemes_comma ha, hspace]

theorem erase_merged (ha : IsClosed a) (b : Text) :
    erase (a ++ ',' :: ' ' :: b) = erase a ++ ',' :: ' ' :: erase b := by
  rw [erase, lexemes_merged ha, List.flatMap_append]
  rfl

theorem isClosed_merged {b : Text} (ha : IsClosed a) (hb : IsClosed b) :
    IsClosed (a ++ ',' :: ' ' :: b) := by
  intro l hl
  rw [lexemes_merged ha, List.getLast?_append, List.getLast?_cons_cons] at hl
  cases hlast : (lexemes b).getLast? with
  | none =>
    rw [List.getLast?_cons, hlast] at hl
    obtain rfl : Lexeme.code ' ' = l := by simpa using hl
    trivial
  | some l' =>
    rw [List.getLast?_cons, hlast] at hl
    obtain rfl : l' = l := by simpa using hl
    exact hb l' hlast

/-- Regrouping leaves nothing open that was closed. -/
theorem Regrouped.isClosed (h : Regrouped as bs) (hclosed : ∀ t ∈ as, IsClosed t) :
    ∀ t ∈ bs, IsClosed t := by
  cases h with
  | permuted hperm => exact fun t ht => hclosed t (hperm.mem_iff.2 ht)
  | repeated a as => exact List.forall_mem_cons.2 ⟨hclosed a List.mem_cons_self, hclosed⟩
  | merged a b as =>
    obtain ⟨ha, hrest⟩ := List.forall_mem_cons.1 hclosed
    obtain ⟨hb, hall⟩ := List.forall_mem_cons.1 hrest
    exact List.forall_mem_cons.2 ⟨isClosed_merged ha hb, hall⟩

/-! ## Tests of the parts -/

/-- The test passes a text put together at a comma and a space just if it passes a part. -/
def Parts (test : Text → Bool) : Prop :=
  ∀ x y, test (x ++ ',' :: ' ' :: y) = (test x || test y)

/-- Whether some annotation passes such a test does not depend on grouping, order or repetition. -/
theorem Regrouped.any_eq (h : Regrouped as bs) (hclosed : ∀ t ∈ as, IsClosed t)
    {test : Text → Bool} (htest : Parts test) :
    (as.map erase).any test = (bs.map erase).any test := by
  cases h with
  | permuted hperm =>
    rw [Bool.eq_iff_iff, List.any_eq_true, List.any_eq_true]
    simp only [(hperm.map erase).mem_iff]
  | repeated a as => simp only [List.map_cons, List.any_cons, Bool.or_self_left]
  | merged a b as =>
    have ha := hclosed a List.mem_cons_self
    simp only [List.map_cons, List.any_cons, erase_merged ha, htest (erase a), Bool.or_assoc]

theorem parts_any {β : Type} {words : List β} {test : β → Text → Bool}
    (h : ∀ w ∈ words, Parts (test w)) : Parts fun t => words.any fun w => test w t := by
  intro x y
  induction words with
  | nil => rfl
  | cons w words ih =>
    obtain ⟨hw, hwords⟩ := List.forall_mem_cons.1 h
    simp only [List.any_cons, hw x y, ih hwords]
    ac_rfl

theorem parts_holds {word : Text} (hcomma : ',' ∉ word) (hspace : ' ' ∉ word) (hne : word ≠ []) :
    Parts fun t => t.holds word := by
  intro x y
  have hy := Text.holds_append_cons hspace [] y
  rw [List.nil_append] at hy
  have hnil : Text.holds [] word = false := by
    rw [Bool.eq_false_iff, ne_eq, Text.holds_iff, List.infix_nil]
    exact hne
  simp only [Text.holds_append_cons hcomma, hy, hnil, Bool.false_or]

theorem parts_isIn {P : Pattern} (hlocal : P.isLocal = true) (hcomma : P.avoids ',' = true)
    (hspace : P.avoids ' ' = true) (hnil : P.isIn [] = false) : Parts P.isIn := by
  intro x y
  have hy := Pattern.isIn_append_cons hlocal hspace rfl [] y
  rw [List.nil_append] at hy
  rw [Pattern.isIn_append_cons hlocal hcomma rfl, hy, hnil, Bool.false_or]

/-- Lowering keeps the parts apart. -/
theorem Parts.lowered {test : Text → Bool} (h : Parts test) :
    Parts fun t => test (Text.lower t) := by
  have hcomma : Text.IsStop ',' := ⟨by decide +kernel, by decide +kernel, by decide⟩
  have hspace : Text.IsStop ' ' := ⟨by decide +kernel, by decide +kernel, by decide⟩
  intro x y
  have hy := hspace.lower_append_cons [] y
  rw [List.nil_append] at hy
  simp only [hcomma.lower_append_cons, hy]
  exact h (Text.lower x) (Text.lower y)

/-! ## The rules -/

open Rules

/-- No such test of the annotations tells the facts apart, and they are the same besides. -/
structure TestedAlike (f g : Facts) : Prop where
  name : f.name = g.name
  isNullable : f.isNullable = g.isNullable
  isPrimaryKey : f.isPrimaryKey = g.isPrimaryKey
  skipIdentity : f.skipIdentity = g.skipIdentity
  keywords : ∀ {test : Text → Bool}, Parts test → f.keywords.any test = g.keywords.any test

variable {f g : Facts}

theorem TestedAlike.isExcluded (h : TestedAlike f g) : f.isExcluded = g.isExcluded := by
  refine h.keywords (parts_any fun word hword => parts_holds ?_ ?_ ?_)
  all_goals revert word
  all_goals decide

theorem TestedAlike.isMarked (h : TestedAlike f g) {name : String}
    (hname : name ∈ ["Key", "Required", "ValidateNever"]) :
    f.isMarked (annotationNamed name) = g.isMarked (annotationNamed name) := by
  refine h.keywords (parts_isIn ?_ ?_ ?_ ?_)
  all_goals revert name
  all_goals decide +kernel

theorem TestedAlike.isNamedId (h : TestedAlike f g) : f.isNamedId = g.isNamedId := by
  rw [Facts.isNamedId, Facts.isNamedId, h.name]

theorem TestedAlike.skipRules (h : TestedAlike f g) :
    ∀ rule ∈ skipRules, rule.2 f = rule.2 g := by
  have haudit : f.isAudit = g.isAudit := by rw [Facts.isAudit, Facts.isAudit, h.name]
  have hidentity : (f.skipIdentity && f.isNamedId) = (g.skipIdentity && g.isNamedId) := by
    rw [h.skipIdentity, h.isNamedId]
  simp only [Rules.skipRules, List.forall_mem_cons]
  exact ⟨h.isExcluded, haudit, hidentity, by simp⟩

theorem TestedAlike.isKey (h : TestedAlike f g) :
    (keyRules.any fun rule => rule f) = keyRules.any fun rule => rule g := by
  have hends : f.endsInId = g.endsInId := by rw [Facts.endsInId, Facts.endsInId, h.name]
  have hmarked := h.isMarked (List.mem_cons_self : "Key" ∈ ["Key", "Required", "ValidateNever"])
  simp only [keyRules, List.any_cons, List.any_nil, h.isNamedId, hends, hmarked]

theorem TestedAlike.isRequired (h : TestedAlike f g) : Rules.isRequired f = Rules.isRequired g := by
  have hrules : ∀ rule ∈ requiredRules, rule.1 f = rule.1 g := by
    simp only [requiredRules, List.forall_mem_cons]
    exact ⟨h.isMarked (by simp), h.isMarked (by simp), h.isNullable, h.isPrimaryKey, by simp⟩
  rw [Rules.isRequired, Rules.isRequired, List.find?_congr hrules]

/-! ## Judging -/

theorem ofAttributes?_of_any
    (h : ∀ {test : Text → Bool}, Parts test → (as.map erase).any test = (bs.map erase).any test) :
    InputKind.ofAttributes? as = InputKind.ofAttributes? bs := by
  have hlowered : ∀ (ts : List Text) (word : Text),
      ((ts.map fun t => Text.lower (erase t)).any fun t => t.holds word) =
        (ts.map erase).any fun t => (Text.lower t).holds word := by
    intro ts word
    rw [List.any_map, List.any_map]
    rfl
  rw [InputKind.ofAttributes?, InputKind.ofAttributes?]
  refine congrArg (Option.map _) (List.find?_congr fun entry hentry => ?_)
  rw [hlowered, hlowered]
  refine h (Parts.lowered (parts_holds ?_ ?_ ?_))
  all_goals revert entry
  all_goals decide

/-- Candidates whose annotations no such test tells apart are judged alike. -/
theorem judgedAlike_of_any (c : Candidate) {attributes : List Text}
    (h : ∀ {test : Text → Bool}, Parts test →
      (c.attributes.map erase).any test = (attributes.map erase).any test) :
    JudgedAlike c { c with attributes := attributes } := by
  have hfacts : ∀ skipIdentity, TestedAlike (facts c skipIdentity)
      (facts { c with attributes := attributes } skipIdentity) :=
    fun _ => ⟨rfl, rfl, rfl, rfl, h⟩
  constructor
  · intro skipIdentity
    rw [skipReason?, skipReason?, List.find?_congr (hfacts skipIdentity).skipRules]
  · have hkey := (hfacts false).isKey
    have hrequired : TestedAlike
        { facts c false with isPrimaryKey := keyRules.any fun rule => rule (facts c false) }
        { facts { c with attributes := attributes } false with
          isPrimaryKey := keyRules.any fun rule =>
            rule (facts { c with attributes := attributes } false) } :=
      ⟨rfl, rfl, hkey, rfl, h⟩
    simp only [classify, Classification.mk.injEq]
    exact ⟨trivial, rfl, hkey, hrequired.isRequired⟩
  · exact ofAttributes?_of_any h

/-- **Grouping, order and repetition of annotations change no judgement**, where no comment and no
literal of theirs is open at the end. -/
theorem judgedAlike_regrouped (c : Candidate) (hclosed : ∀ t ∈ c.attributes, IsClosed t)
    {attributes : List Text} (h : Relation.ReflTransGen Regrouped c.attributes attributes) :
    JudgedAlike c { c with attributes := attributes } := by
  -- what is regrouped stays closed, so every step leaves every test as it is
  have hsteps : (∀ t ∈ attributes, IsClosed t) ∧ ∀ {test : Text → Bool}, Parts test →
      (c.attributes.map erase).any test = (attributes.map erase).any test := by
    induction h with
    | refl => exact ⟨hclosed, fun _ => rfl⟩
    | tail _ hstep ih =>
      exact ⟨hstep.isClosed ih.1, fun htest => (ih.2 htest).trans (hstep.any_eq ih.1 htest)⟩
  exact judgedAlike_of_any c hsteps.2

/-- Annotations of a key with a caption, in brackets of their own and then in one bracket, turned
round and one of them repeated. -/
theorem judgedAlike_regrouped_key :
    let caption := "Display(Name = \"Code, Key\")".toList
    let c : Candidate := ⟨"Code".toList, "string?".toList, ["Key".toList, caption], 3⟩
    let both := caption ++ ", Key".toList
    (∀ t ∈ c.attributes, IsClosed t) ∧
      Relation.ReflTransGen Regrouped c.attributes [both, both] ∧
      JudgedAlike c { c with attributes := [both, both] } := by
  intro caption c both
  have hclosed : ∀ t ∈ c.attributes, IsClosed t := by
    simp only [c, List.forall_mem_cons]
    exact ⟨isClosed_of_getLast? (c := 'y') (by decide +kernel),
      isClosed_of_getLast? (c := ')') (by decide +kernel), by simp⟩
  have hturned : Relation.ReflTransGen Regrouped c.attributes [both, both] :=
    ((Relation.ReflTransGen.single (.permuted (List.Perm.swap _ _ _))).tail
      (.merged caption _ _)).tail (.repeated _ _)
  exact ⟨hclosed, hturned, judgedAlike_regrouped c hclosed hturned⟩

end RazorViews.Property
