import RazorViews.Proofs.Metadata.Opening

/-!
# Captions that are read back

The annotation `Display` names its arguments, and a caption may be any quoted text.  The patterns
for captions do not know what stands in quotes: they stop at any closing parenthesis, and a quoted
text that ends like the beginning of a value makes its closing quote the opening one.

## What is proved

`ofAttributes_display` is about the annotation with any arguments, numbers and quoted texts, in any
order, among them a name and a description.  Reading it succeeds, and

* the name is read back exactly if no text in front of it holds a closing parenthesis;
* the description is read back exactly if no text in front of *it* does.

So each of the two may be lost to a text in front, the other one included, and to nothing behind it.
`ofAttributes_parenthesized` has a description with a parenthesis in front of the name: the
description is read back, and the name is lost.

## The hypotheses

* Arguments are written as such (`IsWritten`): their names are words, and their texts hold no
  quotes.
* No text reads like the beginning of a caption itself (`IsInert`).  A text that does not mention
  `Display` and ends in a letter or a full stop, say, is inert whatever else it holds
  (`isInert_of_getLast?`).
* No bound that can be read in it has too many digits (`IsReadable`), otherwise the answer would be
  a failure.
* Neither caption is empty, which is the same as none.

## The proof

The pattern goes through the arguments in front, and can do so as long as no parenthesis closes.  In
inert texts it finds no place to begin or to end (`quiet_inside`), so the only one is the argument
itself.
-/

namespace RazorViews.Metadata

open Pattern

/-! ## Annotations as they are written -/

/-- What an argument may be set to. -/
inductive Literal where
  | number (n : Int)
  | text (t : Text)

/-- An argument with its name. -/
structure Argument where
  name : Text
  value : Literal

/-- A literal as it is written. -/
def Literal.written : Literal → Text
  | number n => Text.ofInt n
  | text t => '"' :: (t ++ ['"'])

/-- An argument as it is written. -/
def Argument.written (a : Argument) : Text := a.name ++ " = ".toList ++ a.value.written

/-- What stands behind the opening parenthesis of an annotation with these arguments. -/
def inside (args : List Argument) : Text :=
  Text.join ", ".toList (args.map Argument.written) ++ [')']

/-- The call of a name with these arguments. -/
def callOf (name : String) (args : List Argument) : Text := name.toList ++ '(' :: inside args

/-- The annotation `Display` with these arguments. -/
def display (args : List Argument) : Text := callOf "Display" args

/-- The arguments in front of another one, and the commas behind them. -/
def leading (args : List Argument) : Text := args.flatMap fun a => a.written ++ ", ".toList

/-- The argument has a name of word characters, and there is no quote in its text. -/
structure Argument.IsWritten (a : Argument) : Prop where
  name : IsWord a.name
  text : ∀ t, a.value = .text t → '"' ∉ t

/-- Nothing in the text reads like the beginning of a caption. -/
structure IsInert (t : Text) : Prop where
  call : Quiet (EndsIn "Display".toList) '(' [] t
  name : ¬ EndsAt "Name".toList '=' t
  description : ¬ EndsAt "Description".toList '=' t
  caption : ¬ EndsAt "Description".toList '(' t

/-- The first argument of the name is set to the text; the arguments `front` stand before it. -/
structure Captioned (args : List Argument) (name : String) (front : List Argument) (t : Text) :
    Prop where
  notEmpty : t ≠ []
  split : ∃ back, args = front ++ ⟨name.toList, .text t⟩ :: back
  first : ∀ a ∈ front, a.name ≠ name.toList

/-- No text of the arguments holds a closing parenthesis, so behind them the annotation still looks
open. -/
def LeavesOpen (args : List Argument) : Prop := ∀ a ∈ args, ∀ t, a.value = .text t → ')' ∉ t

variable {args front back : List Argument} {a : Argument}

theorem not_endsAt_of_getLast? {word t : Text} {mark c : Char} (hlast : t.getLast? = some c)
    (hblank : Text.isBlank c = false) (hmark : c ≠ mark) : ¬ EndsAt word mark t := by
  rintro ⟨t', s, rfl, hs, -⟩
  rw [List.getLast?_append, List.getLast?_cons, Option.some_or] at hlast
  cases hlast' : s.getLast? with
  | none =>
    rw [hlast'] at hlast
    exact hmark (Option.some.inj hlast).symm
  | some d =>
    rw [hlast'] at hlast
    obtain rfl : d = c := Option.some.inj hlast
    rw [hs d (List.mem_of_getLast? hlast')] at hblank
    exact absurd hblank (by simp)

/-- A text is inert that ends in no mark and no white space and does not name the annotation. -/
theorem isInert_of_getLast? {t : Text} {c : Char} (hlast : t.getLast? = some c)
    (hmark : Text.isBlank c = false ∧ c ≠ '=' ∧ c ≠ '(')
    (hcall : t.holds "Display".toList = false) : IsInert t where
  call := by
    rintro u v rfl ⟨front, s, rfl, -, -⟩
    have hholds := Text.holds_iff.2 (⟨front, s ++ '(' :: v, by simp⟩ :
      "Display".toList <:+: front ++ ("Display".toList ++ s) ++ '(' :: v)
    rw [hholds] at hcall
    exact absurd hcall (by simp)
  name := not_endsAt_of_getLast? hlast hmark.1 hmark.2.1
  description := not_endsAt_of_getLast? hlast hmark.1 hmark.2.1
  caption := not_endsAt_of_getLast? hlast hmark.1 hmark.2.2

theorem join_append_cons (sep : Text) (ps : List Text) (p : Text) (qs : List Text) :
    Text.join sep (ps ++ p :: qs) = ps.flatMap (· ++ sep) ++ Text.join sep (p :: qs) := by
  induction ps with
  | nil => rfl
  | cons first ps ih =>
    have hne : ps ++ p :: qs ≠ [] := by simp
    obtain ⟨second, rest, hrest⟩ := List.exists_cons_of_ne_nil hne
    rw [List.cons_append, List.flatMap_cons, List.append_assoc, ← ih, hrest, Text.join_cons_cons,
      List.append_assoc]

theorem inside_append (front : List Argument) (a : Argument) (back : List Argument) :
    inside (front ++ a :: back) = leading front ++ inside (a :: back) := by
  rw [inside, List.map_append, List.map_cons, join_append_cons, List.append_assoc, leading,
    List.flatMap_map]
  rfl

theorem exists_inside_cons (a : Argument) (back : List Argument) :
    ∃ more, inside (a :: back) = a.written ++ more := by
  cases back with
  | nil => exact ⟨[')'], by simp [inside]⟩
  | cons b back =>
    rw [inside, List.map_cons, List.map_cons, Text.join_cons_cons, List.append_assoc]
    exact ⟨_, rfl⟩

/-! ## Between the quotes -/

theorem notMem_ofInt {c : Char} (hdigit : c.isDigit = false) (hminus : c ≠ '-') (n : Int) :
    c ∉ Text.ofInt n := by
  have hnat : ∀ n : Nat, c ∉ Text.ofNat n := by
    intro n hmem
    rw [Nat.isDigit_of_mem_toDigits (by decide) (by decide) hmem] at hdigit
    exact absurd hdigit (by simp)
  cases n with
  | ofNat n => exact hnat n
  | negSucc n =>
    rw [Text.ofInt, List.mem_cons, not_or]
    exact ⟨hminus, hnat (n + 1)⟩

theorem notMem_name {c : Char} (ha : a.IsWritten) (hc : Text.isWord c = false)
    (hmark : c ∉ " = ".toList) : c ∉ a.name ++ " = ".toList := by
  rw [List.mem_append, not_or]
  exact ⟨ha.name.notMem hc, hmark⟩

/-- An argument holds a closing parenthesis just if its text does. -/
theorem parenthesis_mem_written (ha : a.IsWritten) :
    ')' ∈ a.written ↔ ∃ t, a.value = .text t ∧ ')' ∈ t := by
  have hname := notMem_name ha (show Text.isWord ')' = false by decide) (by decide)
  rw [Argument.written, List.mem_append, or_iff_right hname]
  cases hvalue : a.value with
  | number n =>
    rw [Literal.written]
    simp [notMem_ofInt (show (')' : Char).isDigit = false by decide) (by decide)]
  | text t => simp [Literal.written]

theorem parenthesis_mem_leading (hwritten : ∀ a ∈ args, a.IsWritten) :
    ')' ∈ leading args ↔ ∃ a ∈ args, ∃ t, a.value = .text t ∧ ')' ∈ t := by
  rw [leading, List.mem_flatMap]
  refine exists_congr fun a => and_congr_right fun ha => ?_
  rw [List.mem_append, or_iff_left (by decide), parenthesis_mem_written (hwritten a ha)]

variable {word start : Text} {mark : Char}

/-- The quotes of an argument open no value of another one. -/
theorem quiet_quotes (ha : a.IsWritten) (hword : IsWord word) (hblank : Text.isBlank mark = false)
    (hmark : mark ≠ '"') (hstart : isWordSide start.getLast? = false)
    (hname : mark = '=' → a.name ≠ word) (htext : ∀ t, a.value = .text t → ¬ EndsAt word mark t) :
    Quiet (EndsAt word mark) '"' start a.written := by
  have hfront : '"' ∉ a.name ++ " = ".toList := notMem_name ha (by decide) (by decide)
  refine (quiet_of_notMem hfront).append ?_
  cases hvalue : a.value with
  | number n => exact quiet_of_notMem (notMem_ofInt (by decide) (by decide) n)
  | text t =>
    rintro u v hsplit hends
    cases u with
    | nil =>
      -- the opening quote stands behind the name of the argument
      obtain ⟨_, s', hsplit', hs', front, s, rfl, hs, hside⟩ := hends
      rw [List.append_nil] at hsplit'
      obtain ⟨-, hsame, rfl⟩ := assigned_inj hstart hside ha.name hword hblank hs hs' hsplit'
      exact hname rfl hsame
    | cons c u =>
      -- the closing quote stands behind the text
      obtain ⟨rfl, hclose⟩ := List.cons.inj hsplit
      obtain ⟨w, rfl, hw⟩ := Text.exists_of_notMem (ha.text t hvalue) hclose.symm
      obtain rfl : w = [] := by
        cases w with
        | nil => rfl
        | cons d w => exact absurd (List.cons.inj hw).2 (by simp)
      rw [List.append_nil] at hends
      exact htext t hvalue (endsAt_behind_quote hword hmark hends)

/-- No call is begun between the quotes of an argument. -/
theorem quiet_parentheses (ha : a.IsWritten) (hword : IsWord word)
    (htext : ∀ t, a.value = .text t → Quiet (EndsIn word) '(' [] t) :
    Quiet (EndsIn word) '(' start a.written := by
  have hfront : '(' ∉ a.name ++ " = ".toList := notMem_name ha (by decide) (by decide)
  refine (quiet_of_notMem hfront).append ?_
  cases hvalue : a.value with
  | number n => exact quiet_of_notMem (notMem_ofInt (by decide) (by decide) n)
  | text t =>
    rintro u v hsplit hends
    cases u with
    | nil => exact absurd (List.cons.inj hsplit).1 (by decide)
    | cons c u =>
      obtain ⟨rfl, hclose⟩ := List.cons.inj hsplit
      rcases Text.append_cons_cases hclose.symm with ⟨w, -, hw⟩ | ⟨w, rfl, -⟩
      · have hmem : '(' ∈ ['"'] := hw ▸ List.mem_append_right w List.mem_cons_self
        exact absurd hmem (by decide)
      · exact htext _ hvalue u w rfl (endsIn_behind_quote hword hends)

/-- What holds of the stretches of all arguments holds of the arguments that lead. -/
theorem quiet_leading {ends : Text → Prop} {c : Char} (hc : c ∉ ", ".toList)
    (h : ∀ a ∈ args, ∀ start, isWordSide start.getLast? = false → Quiet ends c start a.written)
    (hstart : isWordSide start.getLast? = false) : Quiet ends c start (leading args) := by
  induction args generalizing start with
  | nil => exact quiet_of_notMem List.not_mem_nil
  | cons a args ih =>
    obtain ⟨ha, hargs⟩ := List.forall_mem_cons.1 h
    rw [leading, List.flatMap_cons]
    refine ((ha start hstart).append (quiet_of_notMem hc)).append (ih hargs ?_)
    rw [← List.append_assoc, List.getLast?_append]
    rfl

/-- No word stands in front of the next argument. -/
theorem isWordSide_leading (hstart : isWordSide start.getLast? = false) (args : List Argument) :
    isWordSide (start ++ leading args).getLast? = false := by
  rcases List.eq_nil_or_concat' args with rfl | ⟨front, a, rfl⟩
  · rwa [leading, List.flatMap_nil, List.append_nil]
  · rw [leading, List.flatMap_append, List.flatMap_singleton, ← List.append_assoc,
      ← List.append_assoc, List.getLast?_append]
    rfl

theorem quiet_inside {ends : Text → Prop} {c : Char} (hc : c ∉ ", ".toList) (hclose : c ≠ ')')
    (h : ∀ a ∈ args, ∀ start, isWordSide start.getLast? = false → Quiet ends c start a.written)
    (hstart : isWordSide start.getLast? = false) : Quiet ends c start (inside args) := by
  have hlast : ∀ front : Text, Quiet ends c front [')'] := fun _ =>
    quiet_of_notMem (by simpa using hclose)
  rcases List.eq_nil_or_concat' args with rfl | ⟨front, a, rfl⟩
  · exact hlast start
  · have hleading := quiet_leading hc (fun b hb => h b (List.mem_append_left [a] hb)) hstart
    have hinside : inside [a] = a.written ++ [')'] := by simp [inside]
    rw [inside_append, hinside]
    exact hleading.append ((h a (by simp) _ (isWordSide_leading hstart front)).append (hlast _))

/-! ## Reading back -/

theorem exists_callOf (name : String) (front back : List Argument) (argument d : Text) :
    ∃ post, callOf name (front ++ ⟨argument, .text d⟩ :: back) = name.toList ++ '(' ::
      (leading front ++ (argument ++ " = ".toList ++ '"' :: (d ++ '"' :: post))) := by
  obtain ⟨post, hpost⟩ := exists_inside_cons ⟨argument, .text d⟩ back
  refine ⟨post, ?_⟩
  rw [callOf, inside_append, hpost, Argument.written, Literal.written]
  simp

/-- An argument of an annotation is read back exactly if no text in front of it holds a closing
parenthesis. -/
theorem keptIn?_callOf {name argument : String} {d : Text} (hname : IsWord name.toList)
    (hargument : IsWord argument.toList) (hwritten : ∀ a ∈ args, a.IsWritten)
    (hcalls : ∀ a ∈ args, ∀ t, a.value = .text t → Quiet (EndsIn name.toList) '(' [] t)
    (hends : ∀ a ∈ args, ∀ t, a.value = .text t → ¬ EndsAt argument.toList '=' t)
    (hcaptioned : Captioned args argument front d) :
    keptIn? "value" (namedArgument name argument quotedText) (callOf name args) = some d ↔
      LeavesOpen front := by
  obtain ⟨hd, ⟨back, rfl⟩, hfirst⟩ := hcaptioned
  have hopen : isWordSide (name.toList ++ ['(']).getLast? = false := by
    rw [List.getLast?_append]
    rfl
  have hmem : ∀ a ∈ front, a ∈ front ++ ⟨argument.toList, .text d⟩ :: back :=
    fun a ha => List.mem_append_left _ ha
  have hparen := parenthesis_mem_leading fun a ha => hwritten a (hmem a ha)
  have hquiet : Quiet (EndsAt argument.toList '=') '"' (name.toList ++ ['(']) (leading front) :=
    quiet_leading (by decide) (fun a ha _ hstart => quiet_quotes (hwritten a (hmem a ha)) hargument
      (by decide) (by decide) hstart (fun _ => hfirst a ha) (hends a (hmem a ha))) hopen
  by_cases hfront : ')' ∈ leading front
  · obtain ⟨a, ha, t, hvalue, ht⟩ := hparen.1 hfront
    have hcall : Quiet (EndsIn name.toList) '(' (name.toList ++ ['('])
        (inside (front ++ ⟨argument.toList, .text d⟩ :: back)) :=
      quiet_inside (by decide) (by decide)
        (fun a ha _ _ => quiet_parentheses (hwritten a ha) hname (hcalls a ha)) hopen
    rw [inside_append] at hcall
    have hnone := find?_namedArgument_eq_none hname hargument hfront hcall hquiet
    rw [callOf, inside_append, keptIn?, hnone]
    exact iff_of_false (by simp) fun h => h a ha t hvalue ht
  · obtain ⟨post, hpost⟩ := exists_callOf name front back argument.toList d
    have hquote : '"' ∉ d := (hwritten ⟨argument.toList, .text d⟩ (by simp)).text d rfl
    have hkept := keptIn?_namedArgument hname hargument hfront hquiet
      (isWordSide_leading hopen front) hd hquote post
    rw [hpost, hkept]
    exact iff_of_true rfl fun a ha t hvalue ht => hfront (hparen.2 ⟨a, ha, t, hvalue, ht⟩)

/-- No quote of the annotation opens a description of its own. -/
theorem find?_description_eq_none {name : String} (hwritten : ∀ a ∈ args, a.IsWritten)
    (hname : IsWord name.toList)
    (hends : ∀ a ∈ args, ∀ t, a.value = .text t → ¬ EndsAt "Description".toList '(' t) :
    (firstArgument (lit "Description") quotedText).find? (callOf name args) = none := by
  have hopen : isWordSide (name.toList ++ ['(']).getLast? = false := by
    rw [List.getLast?_append]
    rfl
  have hword : IsWord "Description".toList := ⟨by decide, List.all_eq_true.1 (by decide)⟩
  have hfront : '"' ∉ name.toList ++ ['('] := by
    simp [hname.notMem (show Text.isWord '"' = false by decide)]
  have hinside : Quiet (EndsAt "Description".toList '(') '"' (name.toList ++ ['(']) (inside args) :=
    quiet_inside (by decide) (by decide) (fun a ha _ hstart => quiet_quotes (hwritten a ha) hword
      (by decide) (by decide) hstart (fun heq => absurd heq (by decide)) (hends a ha)) hopen
  have hwhole :
      Quiet (EndsAt "Description".toList '(') '"' [] (name.toList ++ ['('] ++ inside args) :=
    (quiet_of_notMem hfront).append hinside
  refine find?_firstArgument_eq_none hword ?_
  rwa [List.append_assoc] at hwhole

/-- **Captions are read back** exactly if no text in front of them holds a closing parenthesis. -/
theorem ofAttributes_display {front' : List Argument} {d t : Text}
    (hwritten : ∀ a ∈ args, a.IsWritten)
    (hinert : ∀ a ∈ args, ∀ t, a.value = .text t → IsInert t)
    (hreadable : IsReadable (display args))
    (hname : Captioned args "Name" front d)
    (hdescription : Captioned args "Description" front' t) :
    ∃ m, ofAttributes [display args] = .ok m ∧ (m.displayName = some d ↔ LeavesOpen front) ∧
      (m.description = some t ↔ LeavesOpen front') := by
  have hdisplay : IsWord "Display".toList := ⟨by decide, List.all_eq_true.1 (by decide)⟩
  have hcalls : ∀ a ∈ args, ∀ t, a.value = .text t → Quiet (EndsIn "Display".toList) '(' [] t :=
    fun a ha t hvalue => (hinert a ha t hvalue).call
  have hnone : ∀ body, valueBy? [] body = none := fun _ => rfl
  have hnames : valueBy? displayNames (display args) = some d ↔ LeavesOpen front := by
    rw [displayNames, valueBy?_cons, hnone, Option.or_none]
    exact keptIn?_callOf hdisplay ⟨by decide, List.all_eq_true.1 (by decide)⟩ hwritten hcalls
      (fun a ha t hvalue => (hinert a ha t hvalue).name) hname
  have hdescriptions : valueBy? descriptions (display args) = some t ↔ LeavesOpen front' := by
    have hfirst := find?_description_eq_none hwritten hdisplay
      fun a ha t hvalue => (hinert a ha t hvalue).caption
    rw [descriptions, valueBy?_cons, valueBy?_cons, hnone, Option.or_none, display, keptIn?, hfirst,
      Option.bind_none, Option.none_or]
    exact keptIn?_callOf hdisplay ⟨by decide, List.all_eq_true.1 (by decide)⟩ hwritten hcalls
      (fun a ha t hvalue => (hinert a ha t hvalue).description) hdescription
  have hok := ofAttributes_readable (List.forall_mem_singleton.2 hreadable)
  simp only [lastGiven_singleton, given?, Option.bind_fun_some] at hok
  exact ⟨_, hok, hnames, hdescriptions⟩

/-- A description with a parenthesis, in front of a name. -/
def parenthesized : List Argument :=
  [⟨"Description".toList, .text "net (of tax)".toList⟩, ⟨"Name".toList, .text "Price".toList⟩]

/-- The description is read back, and the name behind it is lost. -/
theorem ofAttributes_parenthesized :
    display parenthesized = "Display(Description = \"net (of tax)\", Name = \"Price\")".toList ∧
      ∃ m, ofAttributes [display parenthesized] = .ok m ∧ m.displayName ≠ some "Price".toList ∧
        m.description = some "net (of tax)".toList := by
  have hwritten : ∀ a ∈ parenthesized, a.IsWritten := by
    refine List.forall_mem_cons.2 ⟨⟨⟨by decide, List.all_eq_true.1 (by decide)⟩, ?_⟩,
      List.forall_mem_singleton.2 ⟨⟨by decide, List.all_eq_true.1 (by decide)⟩, ?_⟩⟩
    all_goals
      rintro t ⟨⟩
      decide
  have hinert : ∀ a ∈ parenthesized, ∀ t, a.value = .text t → IsInert t := by
    refine List.forall_mem_cons.2 ⟨?_, List.forall_mem_singleton.2 ?_⟩
    · rintro t ⟨⟩
      exact isInert_of_getLast? (c := ')') (by decide) (by decide) (by decide +kernel)
    · rintro t ⟨⟩
      exact isInert_of_getLast? (c := 'e') (by decide) (by decide) (by decide +kernel)
  have hdisplay : display parenthesized =
      "Display(Description = \"net (of tax)\", Name = \"Price\")".toList := by decide
  have hreadable : IsReadable (display parenthesized) := by
    have hmax : valueBy? maxLengths (display parenthesized) = none := by decide +kernel
    have hmin : valueBy? minLengths (display parenthesized) = none := by decide +kernel
    intro digits h
    rw [hmax, hmin] at h
    exact absurd h (by simp)
  have hname : Captioned parenthesized "Name" [⟨"Description".toList, .text "net (of tax)".toList⟩]
      "Price".toList :=
    ⟨by decide, ⟨[], rfl⟩, List.forall_mem_singleton.2 (by decide)⟩
  have hdescription : Captioned parenthesized "Description" [] "net (of tax)".toList :=
    ⟨by decide, ⟨_, rfl⟩, fun a ha => absurd ha List.not_mem_nil⟩
  obtain ⟨m, hok, hnames, hdescriptions⟩ :=
    ofAttributes_display hwritten hinert hreadable hname hdescription
  refine ⟨hdisplay, m, hok, ?_, hdescriptions.2 fun a ha => absurd ha List.not_mem_nil⟩
  intro hprice
  exact hnames.1 hprice _ List.mem_cons_self _ rfl (by decide)

end RazorViews.Metadata
