import RazorViews.Controller.Parameter
import RazorViews.Proofs.Text.Trim

/-!
# Where a list is divided

What divides a parameter list is told by the characters outside quotes alone, its `code`: a comma
divides if the brackets in front of it, each counted with its sign, come to zero.  Brackets of all
kinds are counted in one number, and nothing asks whether they match.

So a joined list is divided into its entries again if and only if every comma within an entry stands
where the count is not zero (`Guarded`), and the count is zero behind every entry but the last
(`splitList_join_iff`).  Nothing is assumed of the entries but that each may stand in a list at all
(`Item`): it is trimmed, does not begin with a comma, and closes its quotes.

Of the two directions the first one goes entry by entry (`Item.splitList_append`).  For the other
one the first entry that fails is looked at: with a comma that divides it what is read first is
shorter than the entry (`Item.guarded_of_head?`), and with a count that is not zero behind it longer
(`Item.surplus_of_head?`).
-/

namespace RazorViews.Parameter

variable {q : Quoting} {depth : Int} {s t u rest : Text} {c : Char} {ts : List Text}

/-! ## Characters outside quotes -/

/-- Where the reader stands behind a text. -/
def Quoting.after (q : Quoting) (t : Text) : Quoting := t.foldl Quoting.next q

@[simp] theorem Quoting.after_nil (q : Quoting) : q.after [] = q := rfl

@[simp] theorem Quoting.after_cons (q : Quoting) (c : Char) (t : Text) :
    q.after (c :: t) = (q.next c).after t := rfl

theorem Quoting.after_append (q : Quoting) (s t : Text) : q.after (s ++ t) = (q.after s).after t :=
  List.foldl_append

/-- The characters of a text that a reader meets outside quotes, the marks that begin a quote
included. -/
def codeFrom (q : Quoting) : Text → Text
  | [] => []
  | c :: t => if q.mark.isSome then codeFrom (q.next c) t else c :: codeFrom (q.next c) t

/-- The characters of a text outside quotes. -/
def code (t : Text) : Text := codeFrom .outside t

theorem codeFrom_append (q : Quoting) (s t : Text) :
    codeFrom q (s ++ t) = codeFrom q s ++ codeFrom (q.after s) t := by
  induction s generalizing q with
  | nil => rfl
  | cons c s ih =>
    rw [List.cons_append, codeFrom, codeFrom, ih, Quoting.after_cons]
    split
    · rfl
    · rfl

/-- The quotes of a text are closed where it ends. -/
def QuotesClosed (t : Text) : Prop := Quoting.outside.after t = .outside

theorem QuotesClosed.append (hs : QuotesClosed s) (ht : QuotesClosed t) :
    QuotesClosed (s ++ t) := by
  rw [QuotesClosed, Quoting.after_append, hs, ht]

theorem QuotesClosed.code_append (hs : QuotesClosed s) (t : Text) :
    code (s ++ t) = code s ++ code t := by
  rw [code, codeFrom_append, hs, code, code]

/-! ## The count of brackets -/

/-- How many more brackets a text opens than it closes. -/
def surplus : Text → Int
  | [] => 0
  | c :: t => bracketStep c + surplus t

@[simp] theorem surplus_nil : surplus [] = 0 := rfl

@[simp] theorem surplus_cons (c : Char) (t : Text) :
    surplus (c :: t) = bracketStep c + surplus t := rfl

theorem surplus_append (s t : Text) : surplus (s ++ t) = surplus s + surplus t := by
  induction s with
  | nil => exact (Int.zero_add _).symm
  | cons c s ih => rw [List.cons_append, surplus_cons, ih, surplus_cons, Int.add_assoc]

/-- No comma of a text stands where the count of brackets, from `depth` on, is zero. -/
def Guarded (depth : Int) (t : Text) : Prop :=
  ∀ a b, t = a ++ ',' :: b → depth + surplus a ≠ 0

theorem guarded_nil : Guarded depth [] := fun a b h => by simp at h

theorem guarded_cons :
    Guarded depth (c :: t) ↔ (c = ',' → depth ≠ 0) ∧ Guarded (depth + bracketStep c) t := by
  constructor
  · intro h
    refine ⟨?_, fun a b hab => ?_⟩
    · rintro rfl
      simpa using h [] t rfl
    · simpa [Int.add_assoc] using h (c :: a) b (by rw [hab]; rfl)
  · rintro ⟨hc, h⟩ a b hab
    cases a with
    | nil =>
      obtain ⟨rfl, rfl⟩ := List.cons.inj hab
      simpa using hc rfl
    | cons d a =>
      obtain ⟨rfl, rfl⟩ := List.cons.inj hab
      simpa [Int.add_assoc] using h a b rfl

theorem guarded_append :
    Guarded depth (s ++ t) ↔ Guarded depth s ∧ Guarded (depth + surplus s) t := by
  induction s generalizing depth with
  | nil => simp [guarded_nil]
  | cons c s ih =>
    rw [List.cons_append, guarded_cons, guarded_cons, ih, surplus_cons, Int.add_assoc, and_assoc]

/-! ## Pieces -/

/-- The pieces with a text in front of the first of them. -/
def attach (t : Text) : List Text → List Text
  | [] => [t]
  | piece :: more => (t ++ piece) :: more

theorem attach_attach (s t : Text) (ps : List Text) :
    attach s (attach t ps) = attach (s ++ t) ps := by
  cases ps with
  | nil => rfl
  | cons piece more => rw [attach, attach, attach, List.append_assoc]

theorem attach_ne_nil (t : Text) (ps : List Text) : attach t ps ≠ [] := by
  cases ps with
  | nil => exact List.cons_ne_nil t []
  | cons piece more => exact List.cons_ne_nil _ _

theorem attach_singleton (c : Char) (ps : List Text) :
    (match ps with
      | [] => [[c]]
      | piece :: more => (c :: piece) :: more) = attach [c] ps := by
  cases ps with
  | nil => rfl
  | cons piece more => rfl

theorem pieces_comma (rest : Text) :
    pieces 0 .outside (',' :: rest) = [] :: pieces 0 .outside rest := by
  rw [pieces, if_pos (by rfl)]

theorem pieces_ne_nil (depth : Int) (q : Quoting) (t : Text) : pieces depth q t ≠ [] := by
  cases t with
  | nil => simp [pieces]
  | cons c rest =>
    rw [pieces]
    split
    · exact List.cons_ne_nil _ _
    · exact ne_of_eq_of_ne (attach_singleton c _) (attach_ne_nil [c] _)

theorem attach_nil_pieces (depth : Int) (q : Quoting) (t : Text) :
    attach [] (pieces depth q t) = pieces depth q t := by
  cases hpieces : pieces depth q t with
  | nil => exact absurd hpieces (pieces_ne_nil depth q t)
  | cons piece more => rfl

/-- A character that does not divide is read to the piece that it stands in. -/
theorem pieces_step (h : q.mark = none → c = ',' → depth ≠ 0) (rest : Text) :
    pieces depth q (c :: rest) =
      attach [c] (pieces (depth + surplus (codeFrom q [c])) (q.next c) rest) := by
  have hcond : ¬ (q.mark.isNone && c == ',' && depth == 0) = true := by
    simpa using h
  have hstep : surplus (codeFrom q [c]) = if q.mark.isSome then 0 else bracketStep c := by
    rw [codeFrom]
    split
    · rfl
    · simp [codeFrom]
  rw [pieces, if_neg hcond, hstep]
  exact attach_singleton c _

/-- A text without a comma that divides is all in one piece. -/
theorem pieces_guarded (h : Guarded depth (codeFrom q t)) (rest : Text) :
    pieces depth q (t ++ rest) =
      attach t (pieces (depth + surplus (codeFrom q t)) (q.after t) rest) := by
  induction t generalizing depth q with
  | nil => simpa [codeFrom] using (attach_nil_pieces depth q rest).symm
  | cons c t ih =>
    have hsplit : codeFrom q (c :: t) = codeFrom q [c] ++ codeFrom (q.next c) t :=
      codeFrom_append q [c] t
    rw [hsplit, guarded_append] at h
    have hc : q.mark = none → c = ',' → depth ≠ 0 := by
      intro hmark
      have hcode : codeFrom q [c] = [c] := by simp [codeFrom, hmark]
      exact (guarded_cons.1 (hcode ▸ h.1)).1
    rw [List.cons_append, pieces_step hc, ih h.2, attach_attach, hsplit, surplus_append,
      Int.add_assoc]
    rfl

/-- In a text that is not all in one piece there is a first comma that divides. -/
theorem exists_of_not_guarded (h : ¬ Guarded depth (codeFrom q t)) :
    ∃ u v, t = u ++ ',' :: v ∧ Guarded depth (codeFrom q u) ∧
      depth + surplus (codeFrom q u) = 0 ∧ (q.after u).mark = none := by
  induction t generalizing depth q with
  | nil => exact absurd guarded_nil h
  | cons c t ih =>
    by_cases hc : q.mark = none ∧ c = ',' ∧ depth = 0
    · obtain ⟨hmark, rfl, rfl⟩ := hc
      exact ⟨[], t, rfl, guarded_nil, rfl, hmark⟩
    · have hsplit : ∀ u, codeFrom q (c :: u) = codeFrom q [c] ++ codeFrom (q.next c) u :=
        fun u => codeFrom_append q [c] u
      have hfirst : Guarded depth (codeFrom q [c]) := by
        rw [codeFrom]
        split
        · exact guarded_nil
        · rename_i hmark
          refine guarded_cons.2 ⟨fun hcomma hdepth => hc ⟨?_, hcomma, hdepth⟩, guarded_nil⟩
          simpa using hmark
      rw [hsplit, guarded_append] at h
      obtain ⟨u, v, rfl, hguarded, hzero, hmark⟩ := ih fun hmore => h ⟨hfirst, hmore⟩
      refine ⟨c :: u, v, rfl, ?_, ?_, hmark⟩
      · rw [hsplit, guarded_append]
        exact ⟨hfirst, hguarded⟩
      · rw [hsplit, surplus_append, ← Int.add_assoc]
        exact hzero

/-! ## Lists -/

/-- The mark between the entries of a list. -/
def separator : Text := [',', ' ']

theorem join_separator_cons (t u : Text) (us : List Text) :
    Text.join separator (t :: u :: us) = t ++ ',' :: ' ' :: Text.join separator (u :: us) := by
  rw [Text.join_cons_cons, separator]
  rfl

theorem splitList_nil : splitList [] = [] := rfl

/-- Blanks in front of a list belong to no entry. -/
theorem splitList_blank (t : Text) : splitList (' ' :: t) = splitList t := by
  have hstep : pieces 0 .outside (' ' :: t) = attach [' '] (pieces 0 .outside t) :=
    pieces_step (fun _ hcomma => absurd hcomma (by decide)) t
  rw [splitList, hstep, splitList]
  cases hpieces : pieces 0 .outside t with
  | nil => exact absurd hpieces (pieces_ne_nil 0 .outside t)
  | cons piece more =>
    have htrim : Text.trim ([' '] ++ piece) = Text.trim piece := by
      rw [Text.trim, Text.trimLeft_blanks_append Text.isBlank_space, Text.trim]
    rw [attach, List.map_cons, List.map_cons, htrim]

/-- A text that may be given as an entry of a list: it is trimmed, it does not begin with a comma,
and its quotes are closed. -/
structure Item (t : Text) : Prop where
  ne_nil : t ≠ []
  trimmed : Text.trim t = t
  not_comma : t.head? ≠ some ','
  closed : QuotesClosed t

theorem Item.not_isBlank_head (h : Item t) : ∀ c ∈ t.head?, Text.isBlank c = false := by
  intro c hc
  have hfirst := List.head?_dropWhile_not Text.isBlank t
  rw [← Text.trimLeft, Text.trimLeft_of_trim h.trimmed, Option.mem_def.1 hc] at hfirst
  simpa using hfirst

/-- A text that begins like an entry keeps something when it is trimmed. -/
theorem Item.trim_prefix_ne_nil (h : Item (u ++ rest)) (hne : u ≠ []) : Text.trim u ≠ [] := by
  obtain ⟨c, u, rfl⟩ := List.exists_cons_of_ne_nil hne
  have hblank := h.not_isBlank_head c rfl
  exact List.ne_nil_of_mem (Text.mem_trim List.mem_cons_self hblank)

/-- The first entry of a list. -/
theorem head?_splitList {piece : Text} {more : List Text} (h : pieces 0 .outside t = piece :: more)
    (hpiece : Text.trim piece ≠ []) : (splitList t).head? = some (Text.trim piece) := by
  rw [splitList, h, List.map_cons, List.filter_cons_of_pos (by simpa using hpiece)]
  rfl

/-- An entry that is all in one piece, with its brackets closed, is divided off at the comma behind
it. -/
theorem Item.splitList_append (h : Item t) (hguarded : Guarded 0 (code t))
    (hzero : surplus (code t) = 0) (rest : Text) :
    splitList (t ++ ',' :: rest) = t :: splitList rest := by
  rw [splitList, pieces_guarded hguarded, ← code, hzero, h.closed, Int.add_zero, pieces_comma]
  simp [attach, h.trimmed, h.ne_nil, splitList]

theorem Item.splitList_self (h : Item t) (hguarded : Guarded 0 (code t)) : splitList t = [t] := by
  have hpieces := pieces_guarded hguarded []
  rw [List.append_nil] at hpieces
  rw [splitList, hpieces]
  simp [pieces, attach, h.trimmed, h.ne_nil]

/-- Where a comma divides an entry, what comes first is shorter than the entry. -/
theorem Item.guarded_of_head? (h : Item t) (hhead : (splitList (t ++ rest)).head? = some t) :
    Guarded 0 (code t) := by
  by_contra hguarded
  obtain ⟨u, v, rfl, hu, hzero, hmark⟩ := exists_of_not_guarded hguarded
  have hpieces : pieces 0 .outside (u ++ ',' :: v ++ rest) =
      u :: pieces 0 (Quoting.outside.after u) (v ++ rest) := by
    have hcomma :
        ((Quoting.outside.after u).mark.isNone && ',' == ',' && (0 : Int) == 0) = true := by
      simp [hmark]
    rw [List.append_assoc, pieces_guarded hu, hzero, List.cons_append, pieces, if_pos hcomma,
      attach, List.append_nil]
  have hne : u ≠ [] := by
    rintro rfl
    exact h.not_comma rfl
  rw [head?_splitList hpieces (h.trim_prefix_ne_nil hne)] at hhead
  have hshort := (Text.trim_isInfix u).length_le
  rw [Option.some.inj hhead, List.length_append, List.length_cons] at hshort
  omega

/-- Where the brackets of an entry are not closed, what comes first is longer than the entry. -/
theorem Item.surplus_of_head? (h : Item t) (hguarded : Guarded 0 (code t))
    (hhead : (splitList (t ++ ',' :: rest)).head? = some t) : surplus (code t) = 0 := by
  by_contra hzero
  obtain ⟨piece, more, hpieces⟩ : ∃ piece more, pieces 0 .outside (t ++ ',' :: rest) =
      (t ++ ',' :: piece) :: more := by
    have hcomma : (Quoting.outside.after t).mark = none → ',' = ',' →
        0 + surplus (codeFrom .outside t) ≠ 0 := by
      rw [Int.zero_add]
      exact fun _ _ => hzero
    rw [pieces_guarded hguarded, pieces_step hcomma, attach_attach]
    generalize pieces _ _ rest = ps
    cases ps with
    | nil => exact ⟨[], [], rfl⟩
    | cons piece more => exact ⟨piece, more, by simp [attach]⟩
  have hcomma : Text.isBlank ',' = false := by decide
  have htrim : Text.trim (t ++ ',' :: piece) = t ++ ',' :: Text.trimRight piece := by
    rw [Text.trim_append_cons hcomma, Text.trimLeft_of_trim h.trimmed]
  rw [head?_splitList hpieces (by rw [htrim]; simp), htrim] at hhead
  have hlength := congrArg List.length (Option.some.inj hhead)
  rw [List.length_append, List.length_cons] at hlength
  omega

/-- Joined entries are divided into the entries again if and only if no comma within an entry
divides it, and the brackets of all entries but the last one are closed. -/
theorem splitList_join_iff (h : ∀ t ∈ ts, Item t) :
    splitList (Text.join separator ts) = ts ↔
      (∀ t ∈ ts, Guarded 0 (code t)) ∧ ∀ t ∈ ts.dropLast, surplus (code t) = 0 := by
  induction ts with
  | nil => simp [splitList_nil]
  | cons t ts ih =>
    obtain ⟨ht, hts⟩ := List.forall_mem_cons.1 h
    cases ts with
    | nil =>
      rw [Text.join_singleton]
      constructor
      · intro hsplit
        have hhead : (splitList (t ++ [])).head? = some t := by
          rw [List.append_nil, hsplit]
          rfl
        exact ⟨List.forall_mem_singleton.2 (ht.guarded_of_head? hhead), by simp⟩
      · rintro ⟨hguarded, -⟩
        exact ht.splitList_self (hguarded t List.mem_cons_self)
    | cons t' ts =>
      rw [join_separator_cons, List.dropLast_cons_of_ne_nil (List.cons_ne_nil t' ts)]
      constructor
      · intro hsplit
        have hhead : (splitList (t ++ ',' :: ' ' :: Text.join separator (t' :: ts))).head? =
            some t := by rw [hsplit]; rfl
        have hguarded := ht.guarded_of_head? hhead
        have hzero := ht.surplus_of_head? hguarded hhead
        rw [ht.splitList_append hguarded hzero, splitList_blank] at hsplit
        obtain ⟨hmore, hclosed⟩ := (ih hts).1 (List.cons.inj hsplit).2
        exact ⟨List.forall_mem_cons.2 ⟨hguarded, hmore⟩, List.forall_mem_cons.2 ⟨hzero, hclosed⟩⟩
      · rintro ⟨hguarded, hclosed⟩
        obtain ⟨hguarded, hmore⟩ := List.forall_mem_cons.1 hguarded
        obtain ⟨hzero, hclosed⟩ := List.forall_mem_cons.1 hclosed
        rw [ht.splitList_append hguarded hzero, splitList_blank, (ih hts).2 ⟨hmore, hclosed⟩]

end RazorViews.Parameter
